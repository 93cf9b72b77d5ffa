import TagWrap.Toml.Quoted

/-!
# Dates and times in TOML

A moment is a date, a time of day, or a date with a time and perhaps an offset from
universal time. Dates must exist in the calendar, and a minute may have a leap second.
-/
namespace TagWrap.Toml

/-- The number that so many decimal digits stand for, and the text after them. -/
def fixedNumber? (width : Nat) (text : Text) : Option (Nat × Text) := do
  let values ← (text.take width).mapM hexValue?
  if values.length < width ∨ values.any (10 ≤ ·) then none
  else some (ofDigits 10 values, text.drop width)

/-- The text after one of the given characters. -/
def after? (chars : Text) : Text → Option Text
  | char :: rest => if char ∈ chars then some rest else none
  | [] => none

/-- Whether a year has a leap day. -/
def isLeapYear (year : Nat) : Bool := year % 4 == 0 && (year % 100 != 0 || year % 400 == 0)

/-- The number of days in a month. -/
def daysIn (year month : Nat) : Nat :=
  if month = 2 then (if isLeapYear year then 29 else 28)
  else if month ∈ [4, 6, 9, 11] then 30
  else 31

/-- The text after a date. -/
def date? (text : Text) : Option Text := do
  let (year, text) ← fixedNumber? 4 text
  let text ← after? ['-'] text
  let (month, text) ← fixedNumber? 2 text
  let text ← after? ['-'] text
  let (day, text) ← fixedNumber? 2 text
  if 1 ≤ month ∧ month ≤ 12 ∧ 1 ≤ day ∧ day ≤ daysIn year month then some text else none

/-- The text after hours and minutes. -/
def clock? (text : Text) : Option Text := do
  let (hour, text) ← fixedNumber? 2 text
  let text ← after? [':'] text
  let (minute, text) ← fixedNumber? 2 text
  if hour ≤ 23 ∧ minute ≤ 59 then some text else none

/-- The text after a fraction of a second, if there is one. -/
def fraction? : Text → Option Text
  | '.' :: rest =>
      let digits := rest.takeWhile Char.isDigit
      if digits.isEmpty then none else some (rest.dropWhile Char.isDigit)
  | text => some text

/-- The text after a time of day. -/
def time? (text : Text) : Option Text := do
  let text ← clock? text
  let text ← after? [':'] text
  let (second, text) ← fixedNumber? 2 text
  if second ≤ 60 then fraction? text else none

/-- The text after an offset from universal time, if there is one. -/
def zone? : Text → Option Text
  | [] => some []
  | char :: rest =>
      if char = 'Z' ∨ char = 'z' then some rest
      else if char = '+' ∨ char = '-' then clock? rest
      else some (char :: rest)

/-- Whether a text is a time of day. -/
def isTime (text : Text) : Bool := time? text == some []

/-- Whether a text is a date, perhaps with a time and an offset. -/
def isDate (text : Text) : Bool :=
  match date? text with
  | none => false
  | some [] => true
  | some rest => ((after? ['T', 't', ' '] rest).bind time?).bind zone? == some []

/-- Whether a text is a moment. -/
def isMoment (text : Text) : Bool := isTime text || isDate text

end TagWrap.Toml
