import Mathlib.Data.Nat.Init
import TagWrap.Json.Reader
import TagWrap.Json.Writer

/-!
# Scalars that are written are read back

The digits of a number come back as that number as long as it stays within 64 bits and the text
behind them does not go on with it: another digit, a point or an exponent would make it another
number. A string comes back whatever characters it has. Each of them is escaped in the way that the
reader undoes, so the first quote without a backslash is the closing one.
-/
namespace TagWrap.Json

open Reader

/-! ## Digits and integers -/

/-- A text does not go on with a number that stands in front of it. -/
def EndsNumber (rest : Text) : Prop :=
  ∀ char ∈ rest.head?, isDigit char = false ∧ char ≠ '.' ∧ char ≠ 'e' ∧ char ≠ 'E'

/-- A number ends where a character stands that cannot go on with it. -/
theorem endsNumber_cons {char : Char}
    (other : isDigit char = false ∧ char ≠ '.' ∧ char ≠ 'e' ∧ char ≠ 'E') (rest : Text) :
    EndsNumber (char :: rest) := by
  intro first head
  obtain rfl := Option.some.inj head
  exact other

/-- An integer is one of 64 bits, with a sign or without. No other number is held as an integer. -/
def HeldExactly (value : Int) : Prop :=
  -0x8000000000000000 ≤ value ∧ value ≤ 0xFFFFFFFFFFFFFFFF

/-- The value of a digit is how far it is behind the zero. -/
theorem digit?_of_isDigit {char : Char} (digit : char.isDigit = true) :
    digit? char = some (char.toNat - '0'.toNat) := by
  obtain ⟨low, high⟩ := Char.isDigit_iff_toNat.mp digit
  rw [digit?, if_pos]
  exact ⟨low, high⟩

/-- A digit of a written number is a digit to the reader. -/
theorem isDigit_of_isDigit {char : Char} (digit : char.isDigit = true) : isDigit char = true := by
  rw [isDigit, digit?_of_isDigit digit]
  rfl

/-- No number gets less by more digits. -/
theorem le_ofDigitChars (digits : List Char) (start : Nat) :
    start ≤ Nat.ofDigitChars 10 digits start := by
  rw [Nat.ofDigitChars_eq_ofDigitChars_zero]
  have scale : 0 < 10 ^ digits.length := Nat.pow_pos (by decide)
  have scaled := Nat.le_mul_of_pos_left start scale
  omega

/-- All digits in front of a text without one are taken as long as they make up a number within 64
    bits. -/
theorem takeDigits_append {digits rest : Text} (significand taken : Nat)
    (digit : ∀ char ∈ digits, char.isDigit = true) (ends : startsWithDigit rest = false)
    (small : Nat.ofDigitChars 10 digits significand ≤ maxSignificand) :
    takeDigits significand taken (digits ++ rest) =
      (Nat.ofDigitChars 10 digits significand, taken + digits.length, rest) := by
  induction digits generalizing significand taken with
  | nil =>
      cases rest with
      | nil => rfl
      | cons char rest =>
          have none : digit? char = none := by simpa [startsWithDigit, isDigit] using ends
          simp [takeDigits, none]
  | cons char digits inductionHypothesis =>
      rw [Nat.ofDigitChars_cons, Nat.mul_comm] at small
      have step := digit?_of_isDigit (digit char List.mem_cons_self)
      have fits := Nat.le_trans (le_ofDigitChars digits _) small
      have others : ∀ later ∈ digits, later.isDigit = true := fun later listed =>
        digit later (List.mem_cons_of_mem _ listed)
      rw [List.cons_append, takeDigits, step]
      simp only [if_pos fits]
      rw [inductionHypothesis _ _ others small, Nat.ofDigitChars_cons, Nat.mul_comm 10,
        List.length_cons, Nat.add_right_comm, Nat.add_assoc]

/-- A number is written with at least one digit and with nothing but digits. -/
theorem exists_toDigits (number : Nat) : ∃ char others, Nat.toDigits 10 number = char :: others ∧
    ∀ digit ∈ char :: others, digit.isDigit = true := by
  have filled : Nat.toDigits 10 number ≠ [] := Nat.toDigits_ne_nil
  obtain ⟨char, others, written⟩ := List.exists_cons_of_ne_nil filled
  refine ⟨char, others, written, ?_⟩
  intro digit listed
  rw [← written] at listed
  exact Nat.isDigit_of_mem_toDigits (by decide) (by decide) listed

/-- A number above zero is written without a zero in front. -/
theorem head?_toDigits {number : Nat} (positive : 0 < number) :
    ∀ char ∈ (Nat.toDigits 10 number).head?, char ≠ '0' := by
  induction number using Nat.strong_induction_on with
  | _ number inductionHypothesis =>
      intro char first
      rw [Nat.toDigits_eq_if (by decide)] at first
      split at first
      next small =>
        obtain rfl := Option.some.inj first
        rw [ne_eq, Nat.digitChar_eq_zero]
        omega
      next large =>
        have shorter := Nat.div_lt_self positive (by decide : 1 < 10)
        have front : 0 < number / 10 := by omega
        apply inductionHypothesis _ shorter front char
        obtain ⟨digit, others, written, -⟩ := exists_toDigits (number / 10)
        rw [written] at first ⊢
        exact first

section Number

variable {rest : Text} (ends : EndsNumber rest)
include ends

/-- No digit stands behind a number. -/
theorem EndsNumber.startsWithDigit : Reader.startsWithDigit rest = false := by
  cases rest with
  | nil => rfl
  | cons char rest => exact (ends char rfl).1

/-- Nothing is skipped behind the digits of a number. -/
theorem EndsNumber.skipDigits : Reader.skipDigits rest = (0, rest) := by
  cases rest with
  | nil => rfl
  | cons char rest =>
      have other : isDigit char = false := (ends char rfl).1
      simp [Reader.skipDigits, other]

/-- A number without a fraction and an exponent is an integer where it fits. -/
theorem EndsNumber.afterInteger (negative : Bool) (significand : Nat)
    (held : negative = true → 0 < significand ∧ significand ≤ 0x8000000000000000) :
    Reader.afterInteger negative significand 0 rest =
      .ok (.int (if negative then -significand else significand), rest) := by
  rw [Reader.afterInteger.eq_def]
  split
  next => exact absurd rfl (ends '.' rfl).2.1
  next => exact absurd rfl (ends 'e' rfl).2.2.1
  next => exact absurd rfl (ends 'E' rfl).2.2.2
  next =>
    cases negative with
    | false => simp
    | true => simp [held rfl]

/-- The digits of a number are read as that number. -/
theorem number_toDigits (negative : Bool) (number : Nat) (small : number ≤ maxSignificand)
    (held : negative = true → 0 < number ∧ number ≤ 0x8000000000000000) :
    Reader.number negative (Nat.toDigits 10 number ++ rest) =
      .ok (.int (if negative then -number else number), rest) := by
  rw [← ends.afterInteger negative number held]
  rcases Nat.eq_zero_or_pos number with rfl | positive
  · rw [Nat.toDigits_zero, List.singleton_append, Reader.number, ends.startsWithDigit]
    rfl
  · obtain ⟨char, others, written, digit⟩ := exists_toDigits number
    have shown := head?_toDigits positive
    have value : Nat.ofDigitChars 10 (char :: others) 0 = number := by
      rw [← written, Nat.ofDigitChars_ten_toDigits]
    have taken := takeDigits_append 0 0 digit ends.startsWithDigit (by rwa [value])
    rw [value] at taken
    rw [written] at shown ⊢
    have starts : Reader.startsWithDigit (char :: others ++ rest) = true :=
      isDigit_of_isDigit (digit char List.mem_cons_self)
    rw [Reader.number.eq_def]
    split
    next empty => contradiction
    next zero =>
      obtain ⟨rfl, -⟩ := List.cons.inj zero
      exact absurd rfl (shown '0' rfl)
    next =>
      rw [if_pos starts, taken]
      simp only [ends.skipDigits]

end Number

/-- A digit begins a number and nothing else. -/
theorem value_digit {char : Char} (digit : char.isDigit = true) (fuel depth : Nat) (rest : Text) :
    value (fuel + 1) depth (char :: rest) = ofScalar (number false (char :: rest)) := by
  have other : ∀ letter : Char, letter.isDigit = false → char ≠ letter := by
    rintro letter plain rfl
    simp [plain] at digit
  have start : skipBlanks (char :: rest) = char :: rest := by simp [skipBlanks, other]
  simp [value, start, other, isDigit_of_isDigit digit]

/-- A written integer has a digit at least. -/
theorem length_intText (number : Int) : 0 < (intText number).length := by
  rw [intText]
  split
  · exact Nat.zero_lt_succ _
  · exact Nat.length_toDigits_pos

/-- An integer that is written is read back. -/
theorem value_intText {number : Int} (held : HeldExactly number) {fuel : Nat} (enough : 0 < fuel)
    (depth : Nat) {rest : Text} (ends : EndsNumber rest) :
    value fuel depth (intText number ++ rest) = (.int number, some rest) := by
  obtain ⟨fuel, rfl⟩ := Nat.exists_eq_add_of_lt enough
  obtain ⟨low, high⟩ := held
  rw [intText]
  split
  next negative =>
    have read := number_toDigits ends true number.natAbs
      (by rw [maxSignificand]; omega) (by omega)
    have same : -(number.natAbs : Int) = number := by omega
    rw [Nat.zero_add, value]
    change ofScalar (Reader.number true (Nat.toDigits 10 number.natAbs ++ rest)) = _
    rw [read, if_pos rfl, same]
    rfl
  next positive =>
    have read := number_toDigits ends false number.natAbs
      (by rw [maxSignificand]; omega) (by simp)
    have same : (number.natAbs : Int) = number := by omega
    obtain ⟨char, others, written, digit⟩ := exists_toDigits number.natAbs
    rw [written, List.cons_append] at read ⊢
    rw [Nat.zero_add, value_digit (digit char List.mem_cons_self), read, if_neg (by simp), same]
    rfl

/-! ## Strings -/

/-- Four hexadecimal digits are read as the number that they stand for. -/
theorem hexFour_append {digits rest : Text} {first second third fourth : Nat}
    (four : digits.length = 4) (size : Text.byteSize digits = 4)
    (read : digits.mapM hexDigit? = some [first, second, third, fourth]) :
    hexFour (digits ++ rest) =
      .ok (((first * 16 + second) * 16 + third) * 16 + fourth, rest) := by
  have front : (digits ++ rest).take 4 = digits := by rw [← four, List.take_left]
  have back : (digits ++ rest).drop 4 = rest := by rw [← four, List.drop_left]
  rw [hexFour, front, back, size, read]
  rfl

/-- The digits of a character below the blank. -/
theorem hexDigits_of_lt : ∀ number < 0x20,
    let shown := Nat.toDigits 16 number
    let digits := List.replicate (4 - shown.length) '0' ++ shown
    digits.length = 4 ∧ Text.byteSize digits = 4 ∧
      digits.mapM hexDigit? = some [0, 0, number / 16, number % 16] := by
  decide

/-- A character below the blank is read from its number. -/
theorem unicodeEscape_of_lt {char : Char} (low : char.toNat < 0x20) (rest : Text) :
    unicodeEscape (List.replicate (4 - (Nat.toDigits 16 char.toNat).length) '0' ++
      Nat.toDigits 16 char.toNat ++ rest) = .ok (char, rest) := by
  obtain ⟨four, size, read⟩ := hexDigits_of_lt char.toNat low
  have whole : ((0 * 16 + 0) * 16 + char.toNat / 16) * 16 + char.toNat % 16 = char.toNat := by omega
  rw [unicodeEscape, hexFour_append four size read, whole]
  change (if 0xDC00 ≤ char.toNat ∧ char.toNat ≤ 0xDFFF then _ else
    if char.toNat < 0xD800 ∨ 0xDBFF < char.toNat then _ else _) = _
  rw [if_neg (by omega), if_pos (by omega), Char.ofNat_toNat]
  rfl

/-- An escape stands for one character of a string. -/
theorem stringBody_escape {char : Char} {text rest : Text} (read : escape text = .ok (char, rest))
    (fuel : Nat) : stringBody (fuel + 1) ('\\' :: text) =
      (stringBody fuel rest).map fun read => (char :: read.1, read.2) := by
  rw [stringBody, read]
  change (stringBody fuel rest >>= fun read => pure (char :: read.1, read.2)) = _
  cases stringBody fuel rest <;> rfl

/-- Any other character but the closing quote stands for itself. -/
theorem stringBody_plain {char : Char} (quote : char ≠ '"') (backslash : char ≠ '\\')
    (shown : ¬ char.toNat < 0x20) (fuel : Nat) (rest : Text) :
    stringBody (fuel + 1) (char :: rest) =
      (stringBody fuel rest).map fun read => (char :: read.1, read.2) := by
  rw [stringBody, if_neg shown]
  · cases stringBody fuel rest <;> rfl
  · exact quote
  · exact backslash

/-- A character that is written is read back. -/
theorem stringBody_escapedChar (char : Char) (fuel : Nat) (rest : Text) :
    stringBody (fuel + 1) (escapedChar char ++ rest) =
      (stringBody fuel rest).map fun read => (char :: read.1, read.2) := by
  fun_cases escapedChar char with
  | case8 _ _ _ _ _ _ _ low =>
      have read : escape ('u' :: _) = _ := unicodeEscape_of_lt low rest
      exact stringBody_escape read fuel
  | case9 quote backslash _ _ _ _ _ shown => exact stringBody_plain quote backslash shown fuel rest
  | _ =>
      subst_vars
      exact stringBody_escape rfl fuel

/-- A string is read up to its closing quote, however long it is. -/
theorem stringBody_escaped (chars : Text) {fuel : Nat} (enough : chars.length < fuel)
    (rest : Text) :
    stringBody fuel (chars.flatMap escapedChar ++ '"' :: rest) = .ok (chars, rest) := by
  induction chars generalizing fuel with
  | nil =>
      cases fuel with
      | zero => contradiction
      | succ fuel => rfl
  | cons char chars inductionHypothesis =>
      cases fuel with
      | zero => contradiction
      | succ fuel =>
          rw [List.flatMap_cons, List.append_assoc, stringBody_escapedChar,
            inductionHypothesis (Nat.lt_of_succ_lt_succ enough)]
          rfl

/-- The characters of a string are put together again. -/
theorem readString_escaped (value : String) (fuel : Nat) (enough : value.toList.length < fuel)
    (rest : Text) :
    readString fuel (value.toList.flatMap escapedChar ++ '"' :: rest) = .ok (value, rest) := by
  rw [readString, stringBody_escaped value.toList enough]
  change Except.ok (String.ofList value.toList, rest) = _
  rw [String.ofList_toList]

/-- Each character is written as one at least. -/
theorem length_le_escaped (chars : Text) : chars.length ≤ (chars.flatMap escapedChar).length := by
  induction chars with
  | nil => exact Nat.le_refl 0
  | cons char chars inductionHypothesis =>
      have shown : 1 ≤ (escapedChar char).length := by fun_cases escapedChar char <;> simp
      rw [List.flatMap_cons, List.length_append, List.length_cons]
      omega

/-- A written string has its characters and two quotes at least. -/
theorem length_stringText (value : String) :
    value.toList.length + 2 ≤ (stringText value).length := by
  have inner := length_le_escaped value.toList
  rw [stringText, List.length_cons, List.length_append, List.length_singleton]
  omega

/-- A string that is written is read back. -/
theorem value_stringText {written : String} {fuel : Nat} (enough : written.toList.length + 1 < fuel)
    (depth : Nat) (rest : Text) :
    value fuel depth (stringText written ++ rest) = (.string written, some rest) := by
  obtain ⟨fuel, rfl⟩ := Nat.exists_eq_add_of_lt (Nat.zero_lt_of_lt enough)
  have read := readString_escaped written fuel (by omega) rest
  rw [Nat.zero_add, value, stringText, List.cons_append, List.append_assoc]
  change ofScalar ((readString fuel (written.toList.flatMap escapedChar ++ '"' :: rest)).map
    fun result => (Datum.string result.1, result.2)) = _
  rw [read]
  rfl

/-! ## Words -/

/-- A word that is written is read as its meaning. -/
theorem value_words {fuel : Nat} (enough : 0 < fuel) (depth : Nat) (rest : Text) :
    value fuel depth ("null".toList ++ rest) = (.null, some rest) ∧
      value fuel depth ("true".toList ++ rest) = (.bool true, some rest) ∧
      value fuel depth ("false".toList ++ rest) = (.bool false, some rest) := by
  obtain ⟨fuel, rfl⟩ := Nat.exists_eq_add_of_lt enough
  rw [Nat.zero_add, value, value, value]
  exact ⟨rfl, rfl, rfl⟩

end TagWrap.Json
