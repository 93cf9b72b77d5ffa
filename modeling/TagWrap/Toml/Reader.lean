import TagWrap.Toml.Moment
import TagWrap.Toml.Number
import TagWrap.Toml.Table

/-!
# Reading TOML text

A document is a list of lines. A line is a header, which opens a section, or sets a key,
or is blank. Text that breaks a rule stands for nothing at all, wherever the fault is,
so reading has no errors to tell apart.
-/
namespace TagWrap.Toml

/-! ## Keys -/

/-- Whether a character may stand in a key without quotes. -/
def isBare (char : Char) : Bool := char.isAlphanum || char == '_' || char == '-'

/-- One part of a key, and the text after it. -/
def simpleKey? (text : Text) : Option (String × Text) :=
  match openQuote? text with
  | some _ => (quotedLine? text).map fun (key, rest) => (String.ofList key, rest)
  | none =>
      let key := text.takeWhile isBare
      if key.isEmpty then none else some (String.ofList key, text.dropWhile isBare)

/-- The parts of a key between dots, and the text after them. Each step takes a part, so
    one step more than there are characters suffices. -/
def keyParts? : Nat → Text → Option (List String × Text)
  | 0, _ => none
  | fuel + 1, text => do
      let (key, rest) ← simpleKey? (skipBlanks text)
      match skipBlanks rest with
      | '.' :: rest => do
          let (keys, rest) ← keyParts? fuel rest
          return (key :: keys, rest)
      | rest => return ([key], rest)

/-- The number of brackets that can be open at once, and of parts that a key can have,
    and one more. -/
def maxDepth : Nat := 80

/-- A key, and the text after it and its blanks. -/
def key? (text : Text) : Option (List String × Text) := do
  let (keys, rest) ← keyParts? (text.length + 1) text
  if keys.length < maxDepth then some (keys, rest) else none

/-! ## Values -/

/-- The name under which a moment is held. -/
def momentKey : String := "$__toml_private_datetime"

/-- What a word stands for. -/
def word? (word : Text) : Option Datum :=
  if word = "true".toList then some (.bool true)
  else if word = "false".toList then some (.bool false)
  else if isMoment word then
    some (.object [(momentKey, .string (String.ofList word))] .unchecked)
  else
    match integer? word with
    | some value => some (.int value)
    | none => (float? word).map fun value => .float (shownFloat value)

/-- Whether a character may stand in a word. -/
def isWordChar (char : Char) : Bool :=
  char.isAlphanum || char == '_' || char == '-' || char == '+' || char == '.' || char == ':'

/-- A word and the text after it. A time of day may follow its date after a space. -/
def takeWord (text : Text) : Text × Text :=
  let word := text.takeWhile isWordChar
  let rest := text.dropWhile isWordChar
  match rest with
  | ' ' :: char :: others =>
      if date? word = some [] ∧ char.isDigit then
        (word ++ ' ' :: (char :: others).takeWhile isWordChar,
          (char :: others).dropWhile isWordChar)
      else (word, rest)
  | _ => (word, rest)

/-- The value of a word, and the text after it. -/
def wordValue? (text : Text) : Option (Datum × Text) := do
  let (word, rest) := takeWord text
  return (← word? word, rest)

/-- The members that keys with dots set one after the other. -/
def assignAll? (members : List (List String × Datum)) (entries : Entries) : Option Entries :=
  members.foldlM (fun entries (keys, value) => entries.assign value keys) entries

mutual

/-- A value and the text after it. `depth` counts the brackets that may still be opened,
    and `fuel` bounds the steps. -/
def value? (fuel depth : Nat) (text : Text) : Option (Datum × Text) :=
  match fuel with
  | 0 => none
  | fuel + 1 =>
      match text with
      | '[' :: rest =>
          if depth ≤ 1 then none
          else do
            let (items, rest) ← items? fuel (depth - 1) rest
            return (.array items .unchecked, rest)
      | '\x7b' :: rest =>
          if depth ≤ 1 then none
          else do
            let (members, rest) ←
              match skipBlanks rest with
              | '\x7d' :: rest => some ([], rest)
              | rest => members? fuel (depth - 1) rest
            let entries ← assignAll? members []
            return (.object (membersOf entries) .unchecked, rest)
      | other =>
          match openQuote? other with
          | some _ => (quotedText? other).map fun (chars, rest) =>
              (.string (String.ofList chars), rest)
          | none => wordValue? other

/-- The items of an array up to its closing bracket. The last may have a comma too. -/
def items? (fuel depth : Nat) (text : Text) : Option (List Datum × Text) :=
  match fuel with
  | 0 => none
  | fuel + 1 =>
      match skipBreaks text with
      | ']' :: rest => some ([], rest)
      | other => do
          let (item, rest) ← value? fuel depth other
          match skipBreaks rest with
          | ',' :: rest =>
              let (items, rest) ← items? fuel depth rest
              return (item :: items, rest)
          | ']' :: rest => return ([item], rest)
          | _ => none

/-- The members of an inline table up to its closing brace, of which there is at least
    one. -/
def members? (fuel depth : Nat) (text : Text) : Option (List (List String × Datum) × Text) :=
  match fuel with
  | 0 => none
  | fuel + 1 => do
      let (keys, rest) ← key? text
      let rest ← after? ['='] rest
      let (value, rest) ← value? fuel depth (skipBlanks rest)
      match skipBlanks rest with
      | ',' :: rest =>
          let (members, rest) ← members? fuel depth rest
          return ((keys, value) :: members, rest)
      | '\x7d' :: rest => return ([(keys, value)], rest)
      | _ => none

end

/-! ## Documents -/

/-- A line that says something. -/
inductive Line where
  /-- The header of a table. -/
  | table (keys : List String)
  /-- The header of a table of an array. -/
  | element (keys : List String)
  | setting (keys : List String) (value : Datum)
deriving Repr

/-- A line from its first character on, and the text after it. -/
def line? (text : Text) : Option (Line × Text) :=
  match text with
  | '[' :: '[' :: rest => do
      let (keys, rest) ← key? rest
      let rest ← (after? [']'] rest).bind (after? [']'])
      return (.element keys, ← lineEnd? rest)
  | '[' :: rest => do
      let (keys, rest) ← key? rest
      let rest ← after? [']'] rest
      return (.table keys, ← lineEnd? rest)
  | _ => do
      let (keys, rest) ← key? text
      let rest := skipBlanks (← after? ['='] rest)
      -- A value and its parts take at most two steps for each of their characters.
      let (value, rest) ← value? (2 * rest.length + 2) maxDepth rest
      return (.setting keys value, ← lineEnd? rest)

/-- The lines of a text. Each step takes a line, so one step more than there are
    characters suffices. -/
def lines? : Nat → Text → Option (List Line)
  | 0, _ => none
  | fuel + 1, text =>
      match skipBlanks text with
      | [] => some []
      | other =>
          match lineEnd? other with
          | some rest => lines? fuel rest
          | none => do
              let (line, rest) ← line? other
              return line :: (← lines? fuel rest)

/-- The settings that lines start with, and the lines from the next header on. -/
def leadingSettings : List Line → List (List String × Datum) × List Line
  | .setting keys value :: lines =>
      let (settings, others) := leadingSettings lines
      ((keys, value) :: settings, others)
  | lines => ([], lines)

/-- Put the sections of a document into its root. There are at most as many of them as
    there are lines. -/
def addSections? : Nat → List Line → Entries → Option Entries
  | 0, _, entries => some entries
  | _ + 1, [], entries => some entries
  | fuel + 1, line :: lines, entries => do
      let (settings, others) := leadingSettings lines
      let entries ← match line with
        | .table keys => entries.open? (assignAll? settings) keys
        | .element keys => entries.append? (assignAll? settings) keys
        | .setting keys value => assignAll? ((keys, value) :: settings) entries
      addSections? fuel others entries

/-- The entries of a document. A byte order mark in front of it says nothing. -/
def entries? (text : Text) : Option Entries := do
  let text := match text with
    | '\uFEFF' :: rest => rest
    | other => other
  let lines ← lines? (text.length + 1) text
  addSections? lines.length lines []

/-- The data of a document. -/
def document? (text : Text) : Option Datum :=
  (entries? text).map fun entries => .object (membersOf entries) .unchecked

end TagWrap.Toml
