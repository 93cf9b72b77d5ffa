import TagWrap.Toml.Break

/-!
# Quoted text in TOML

Text between double quotes has escapes, text between single quotes is taken as it is.
Either can be quoted three times instead, and then holds line breaks and up to two
quotes in a row.
-/
namespace TagWrap.Toml

/-- The kind of quotes around a text. -/
inductive Quote where
  | single
  | double
deriving DecidableEq, Repr

/-- The character of a quote. -/
def Quote.char : Quote → Char
  | single => '\''
  | double => '"'

/-- The value of a hexadecimal digit. -/
def hexValue? (char : Char) : Option Nat :=
  if '0' ≤ char ∧ char ≤ '9' then some (char.toNat - '0'.toNat)
  else if 'a' ≤ char ∧ char ≤ 'f' then some (char.toNat - 'a'.toNat + 10)
  else if 'A' ≤ char ∧ char ≤ 'F' then some (char.toNat - 'A'.toNat + 10)
  else none

/-- The number that digits of a base stand for, where each of them has a value. -/
def ofDigits (base : Nat) (values : List Nat) : Nat :=
  values.foldl (fun number value => number * base + value) 0

/-- The character whose number is written with so many hexadecimal digits, and the text
    after them. Half of a pair of surrogates is no character. -/
def codedChar? (width : Nat) (text : Text) : Option (Char × Text) := do
  let values ← (text.take width).mapM hexValue?
  if values.length < width then none
  else if (ofDigits 16 values).isValidChar then
    some (Char.ofNat (ofDigits 16 values), text.drop width)
  else none

/-- The character of an escape and the text after it, from the text after the
    backslash. -/
def escaped? (text : Text) : Option (Char × Text) :=
  match text with
  | 'b' :: rest => some ('\x08', rest)
  | 't' :: rest => some ('\t', rest)
  | 'n' :: rest => some ('\n', rest)
  | 'f' :: rest => some ('\x0c', rest)
  | 'r' :: rest => some ('\r', rest)
  | '"' :: rest => some ('"', rest)
  | '\\' :: rest => some ('\\', rest)
  | 'u' :: rest => codedChar? 4 rest
  | 'U' :: rest => codedChar? 8 rest
  | _ => none

/-- The characters up to the closing quote and the text after it. Each step takes a
    character, so one step more than there are characters suffices. -/
def lineBody? (quote : Quote) : Nat → Text → Option (Text × Text)
  | 0, _ => none
  | _ + 1, [] => none
  | fuel + 1, char :: rest =>
      if char = quote.char then some ([], rest)
      else if char = '\\' ∧ quote = .double then do
        let (char, rest) ← escaped? rest
        let (others, rest) ← lineBody? quote fuel rest
        return (char :: others, rest)
      else if isPlain char then do
        let (others, rest) ← lineBody? quote fuel rest
        return (char :: others, rest)
      else none

/-- The text after a line break that a backslash takes away, from the text after the
    backslash. All blanks and line breaks that follow go with it. -/
def foldedBreak? (text : Text) : Option Text := do
  let rest ← newline? (skipBlanks text)
  let rec skip : Nat → Text → Text
    | 0, rest => rest
    | fuel + 1, rest =>
        match newline? (skipBlanks rest) with
        | some rest => skip fuel rest
        | none => skipBlanks rest
  return skip rest.length rest

/-- The characters up to three closing quotes and the text after them. One or two quotes
    more belong to the text. -/
def blockBody? (quote : Quote) : Nat → Text → Option (Text × Text)
  | 0, _ => none
  | _ + 1, [] => none
  | fuel + 1, char :: rest =>
      if char = quote.char then
        let quotes := (char :: rest).takeWhile (· == char)
        if quotes.length < 3 then do
          let (others, rest) ← blockBody? quote fuel rest
          return (char :: others, rest)
        else if quotes.length ≤ 5 then
          some (quotes.drop 3, (char :: rest).drop quotes.length)
        else none
      else if char = '\\' ∧ quote = .double then
        match foldedBreak? rest with
        | some rest => blockBody? quote fuel rest
        | none => do
            let (char, rest) ← escaped? rest
            let (others, rest) ← blockBody? quote fuel rest
            return (char :: others, rest)
      else
        match newline? (char :: rest) with
        | some rest => do
            let (others, rest) ← blockBody? quote fuel rest
            return ('\n' :: others, rest)
        | none =>
            if isPlain char then do
              let (others, rest) ← blockBody? quote fuel rest
              return (char :: others, rest)
            else none

/-- The quote that a text starts with, and the text after it. -/
def openQuote? : Text → Option (Quote × Text)
  | '"' :: rest => some (.double, rest)
  | '\'' :: rest => some (.single, rest)
  | _ => none

/-- A quoted text on one line, and the text after it. -/
def quotedLine? (text : Text) : Option (Text × Text) := do
  let (quote, rest) ← openQuote? text
  lineBody? quote (rest.length + 1) rest

/-- A quoted text of either length, and the text after it. A line break directly after
    three opening quotes is not part of the text. -/
def quotedText? (text : Text) : Option (Text × Text) := do
  let (quote, rest) ← openQuote? text
  match rest with
  | second :: third :: body =>
      if second = quote.char ∧ third = quote.char then
        blockBody? quote (body.length + 1) ((newline? body).getD body)
      else lineBody? quote (rest.length + 1) rest
  | _ => lineBody? quote (rest.length + 1) rest

end TagWrap.Toml
