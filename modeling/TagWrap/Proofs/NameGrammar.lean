import Mathlib.Data.List.Basic
import TagWrap.AttributeName
import TagWrap.Proofs.Trim

/-!
# Which names attributes have

A name is read off the text of an attribute by trimming, by cutting braces and dots off and by
taking characters up to a first one. Here the result of that is described without the steps: a
spread is an opening brace, three dots and an expression with blanks between them and at most one
closing brace at the end, and a name is the longest front of the text without an equals sign or a
blank (`Spreads` and `IsNamed`). A text has one of these descriptions at most, and where it has
none, nothing is read (`names_read_exactly`).

The descriptions are also read the other way round: what is written after their pattern is read back
as it was, whatever blanks stand between the tokens.
-/
namespace TagWrap

open Text

namespace AttributeName

/-- Neither an equals sign nor a blank stands in a text. -/
def NameChars (text : Text) : Prop := ∀ char ∈ text, char ≠ '=' ∧ isBlank char = false

instance (text : Text) : Decidable (NameChars text) :=
  decidable_of_iff (text.all isNameChar = true) <| by
    simp [NameChars, isNameChar]

/-- What is left of a text without one closing brace at its end. -/
inductive DropsBrace : Text → Text → Prop where
  | closed (content : Text) : DropsBrace (content ++ ['\x7d']) content
  | unclosed (content : Text) (ends : content.getLast? ≠ some '\x7d') : DropsBrace content content

/-- A text without outer blanks is the spread of an expression. Behind its opening brace, up to
    blanks and without one closing brace at its end, stand three dots and the expression. -/
def Spreads (bare expression : Text) : Prop :=
  ∃ inner content rest, bare = '\x7b' :: inner ∧ DropsBrace inner content ∧
    StandsIn ('.' :: '.' :: '.' :: rest) content ∧ StandsIn expression rest ∧ expression ≠ []

/-- A text without outer blanks is that of an attribute with a name. It does not begin with an
    opening brace, and the name is its longest front of characters that can stand in a name. -/
def IsNamed (bare name : Text) : Prop :=
  bare.head? ≠ some '\x7b' ∧ name ≠ [] ∧ name <+: bare ∧ NameChars name ∧
    ∀ longer, longer <+: bare → NameChars longer → longer <+: name

theorem isNameChar_iff {char : Char} :
    isNameChar char = true ↔ char ≠ '=' ∧ isBlank char = false := by
  simp [isNameChar]

/-- One closing brace is dropped where there is one, and nothing otherwise. -/
theorem withoutClosingBrace_eq_iff {inner content : Text} :
    withoutClosingBrace inner = content ↔ DropsBrace inner content := by
  constructor
  · rintro rfl
    rw [withoutClosingBrace]
    split
    next closed =>
      obtain ⟨front, rfl⟩ := List.getLast?_eq_some_iff.mp closed
      rw [List.dropLast_concat]
      exact .closed front
    next ends => exact .unclosed inner ends
  · intro drops
    cases drops with
    | closed => rw [withoutClosingBrace, if_pos (by simp), List.dropLast_concat]
    | unclosed _ ends => rw [withoutClosingBrace, if_neg ends]

/-- The expression of a spread is what stands behind three dots, where anything does. -/
theorem spreadExpression?_eq_some_iff {inner expression : Text} :
    spreadExpression? inner = some expression ↔
      ∃ content rest, DropsBrace inner content ∧
        StandsIn ('.' :: '.' :: '.' :: rest) content ∧ StandsIn expression rest ∧
        expression ≠ [] := by
  simp only [← withoutClosingBrace_eq_iff, ← trim_eq_iff]
  constructor
  · intro read
    rw [spreadExpression?] at read
    split at read
    next rest dotted =>
      dsimp only at read
      split at read
      · contradiction
      next filled =>
        obtain rfl := Option.some.inj read
        exact ⟨_, rest, rfl, dotted, rfl, by simpa using filled⟩
    · contradiction
  · rintro ⟨_, rest, rfl, dotted, rfl, filled⟩
    simp [spreadExpression?, dotted, filled]

/-- A text has no longer front of such characters than the one that is taken. -/
theorem takeWhile_isNameChar_iff {bare name : Text} :
    bare.takeWhile isNameChar = name ↔
      name <+: bare ∧ NameChars name ∧
        ∀ longer, longer <+: bare → NameChars longer → longer <+: name := by
  have taken : NameChars (bare.takeWhile isNameChar) := fun char member =>
    isNameChar_iff.mp (List.all_eq_true.mp List.all_takeWhile char member)
  have longest : ∀ longer, longer <+: bare → NameChars longer →
      longer <+: bare.takeWhile isNameChar := by
    rintro longer ⟨rest, rfl⟩ chars
    rw [List.takeWhile_append_of_pos fun char member => isNameChar_iff.mpr (chars char member)]
    exact List.prefix_append ..
  constructor
  · rintro rfl
    exact ⟨List.takeWhile_prefix _, taken, longest⟩
  · rintro ⟨front, chars, maximal⟩
    have shorter := maximal _ (List.takeWhile_prefix _) taken
    exact shorter.eq_of_length_le (longest name front chars).length_le

/-- Only the text without its outer blanks counts. -/
theorem ofSource?_of_standsIn {bare text : Text} (stands : StandsIn bare text) :
    ofSource? text = ofSource? bare := by
  rw [ofSource?, ofSource?, stands.trim_eq, (standsIn_self stands.1).trim_eq]

section Bare

variable {bare inner expression name : Text}

/-- A text that begins with an opening brace is read as a spread. -/
theorem ofSource?_of_brace (outer : Bare ('\x7b' :: inner)) :
    ofSource? ('\x7b' :: inner) = (spreadExpression? inner).map spread := by
  rw [ofSource?, (standsIn_self outer).trim_eq]
  rfl

/-- A text that does not begin with an opening brace is read up to a character that cannot stand in
    a name. -/
theorem ofSource?_of_no_brace (outer : Bare bare) (plain : bare.head? ≠ some '\x7b') :
    ofSource? bare = if bare.takeWhile isNameChar = [] then none
      else some (named (bare.takeWhile isNameChar)) := by
  rw [ofSource?, (standsIn_self outer).trim_eq]
  split
  next inner =>
    exact absurd rfl plain
  · simp

/-- A spread is read exactly where the text is one. -/
theorem ofSource?_eq_spread_iff (outer : Bare bare) :
    ofSource? bare = some (.spread expression) ↔ Spreads bare expression := by
  by_cases opened : bare.head? = some '\x7b'
  · obtain ⟨inner, rfl⟩ := List.head?_eq_some_iff.mp opened
    simp [ofSource?_of_brace outer, spreadExpression?_eq_some_iff, Spreads]
  · rw [ofSource?_of_no_brace outer opened]
    constructor
    · intro read
      split at read
      · contradiction
      · cases read
    · rintro ⟨inner, _, _, rfl, _⟩
      exact absurd rfl opened

/-- A name is read exactly where the text has one. -/
theorem ofSource?_eq_named_iff (outer : Bare bare) :
    ofSource? bare = some (.named name) ↔ IsNamed bare name := by
  by_cases opened : bare.head? = some '\x7b'
  · obtain ⟨inner, rfl⟩ := List.head?_eq_some_iff.mp opened
    constructor
    · intro read
      simp [ofSource?_of_brace outer] at read
    · rintro ⟨plain, _⟩
      exact absurd opened plain
  · rw [ofSource?_of_no_brace outer opened, IsNamed, ← takeWhile_isNameChar_iff]
    constructor
    · intro read
      split at read
      · contradiction
      next filled =>
        cases read
        exact ⟨opened, filled, rfl⟩
    · rintro ⟨-, filled, rfl⟩
      exact if_neg filled

/-- Nothing is read exactly where the text is no spread and has no name. -/
theorem ofSource?_eq_none_iff (outer : Bare bare) :
    ofSource? bare = none ↔
      (∀ expression, ¬ Spreads bare expression) ∧ ∀ name, ¬ IsNamed bare name := by
  simp only [← ofSource?_eq_spread_iff outer, ← ofSource?_eq_named_iff outer]
  constructor
  · intro unread
    simp [unread]
  · rintro ⟨noSpread, noName⟩
    cases read : ofSource? bare with
    | none => rfl
    | some identifier =>
        cases identifier with
        | named name => exact absurd read (noName name)
        | spread expression => exact absurd read (noSpread expression)

end Bare

/-- A front of characters that can stand in a name is the longest one when it ends with the text or
    before a character that cannot. -/
theorem isNamed_append {name rest : Text} (filled : name ≠ []) (chars : NameChars name)
    (plain : name.head? ≠ some '\x7b')
    (stops : ∀ char ∈ rest.head?, char = '=' ∨ isBlank char = true) :
    IsNamed (name ++ rest) name := by
  obtain ⟨first, others, rfl⟩ := List.exists_cons_of_ne_nil filled
  refine ⟨plain, filled, takeWhile_isNameChar_iff.mp ?_⟩
  rw [List.takeWhile_append_of_pos fun char member => isNameChar_iff.mpr (chars char member)]
  cases rest with
  | nil => simp
  | cons char others =>
      have stopped : isNameChar char = false := by
        rcases stops char rfl with rfl | blank
        · rfl
        · simp [isNameChar, blank]
      rw [List.takeWhile_cons_of_neg (by simp [stopped]), List.append_nil]

/-- What begins with a name stands bare in itself once the blanks at its end are gone. -/
theorem standsIn_name_append {name : Text} (filled : name ≠ []) (chars : NameChars name)
    (rest : Text) : StandsIn (name ++ trimEnd rest) (name ++ rest) := by
  obtain ⟨trail, whole, trails⟩ := exists_trimEnd rest
  refine ⟨⟨?begins, ?ends⟩, [], trail, ?_, by simp, trails⟩
  case begins =>
    intro char first
    rw [List.head?_append_of_ne_nil _ filled] at first
    exact (chars char (List.mem_of_mem_head? first)).2
  case ends =>
    intro char last
    by_cases trimmed : trimEnd rest = []
    · rw [trimmed, List.append_nil] at last
      exact (chars char (List.mem_of_mem_getLast? last)).2
    · rw [List.getLast?_append_of_ne_nil _ trimmed] at last
      exact getLast?_trimEnd rest char last
  · rw [List.nil_append, List.append_assoc, ← whole]

/-- A name is read in front of what cannot belong to it. -/
theorem ofSource?_name_append {name rest : Text} (filled : name ≠ []) (chars : NameChars name)
    (plain : name.head? ≠ some '\x7b')
    (stops : ∀ char ∈ rest.head?, char = '=' ∨ isBlank char = true) :
    ofSource? (name ++ rest) = some (.named name) := by
  have stands := standsIn_name_append filled chars rest
  rw [ofSource?_of_standsIn stands]
  apply (ofSource?_eq_named_iff stands.1).mpr
  apply isNamed_append filled chars plain
  intro char first
  -- What the trimming leaves begins as the untrimmed text does.
  obtain ⟨trail, whole, -⟩ := exists_trimEnd rest
  apply stops char
  rw [whole, List.head?_append, Option.mem_def.mp first]
  rfl

/-- A spread is read whatever blanks stand between its tokens. -/
theorem ofSource?_spread {before opened dotted expression ended after : Text}
    (outer : Bare expression) (filled : expression ≠ [])
    (blank : ∀ blanks ∈ [before, opened, dotted, ended, after],
      ∀ char ∈ blanks, isBlank char = true) :
    ofSource? (before ++ '\x7b' :: opened ++ ['.', '.', '.'] ++ dotted ++ expression ++ ended ++
      '\x7d' :: after) = some (.spread expression) := by
  obtain ⟨befores, openeds, dotteds, endeds, afters⟩ :
      (∀ char ∈ before, isBlank char = true) ∧ (∀ char ∈ opened, isBlank char = true) ∧
      (∀ char ∈ dotted, isBlank char = true) ∧ (∀ char ∈ ended, isBlank char = true) ∧
      ∀ char ∈ after, isBlank char = true := by
    simpa using blank
  let content := opened ++ ('.' :: '.' :: '.' :: (dotted ++ expression)) ++ ended
  have braced : Bare ('\x7b' :: (content ++ ['\x7d'])) := by
    constructor
    · rintro char ⟨⟩
      rfl
    · rw [← List.cons_append, List.getLast?_concat]
      rintro char ⟨⟩
      rfl
  have dots : StandsIn ('.' :: '.' :: '.' :: (dotted ++ expression)) content := by
    refine ⟨⟨?_, ?_⟩, opened, ended, rfl, openeds, endeds⟩
    · rintro char ⟨⟩
      rfl
    · have last : ('.' :: '.' :: '.' :: (dotted ++ expression)).getLast? = expression.getLast? := by
        rw [← List.getLast?_append_of_ne_nil ('.' :: '.' :: '.' :: dotted) filled]
        rfl
      rw [last]
      exact outer.2
  have spreads : Spreads ('\x7b' :: (content ++ ['\x7d'])) expression :=
    ⟨_, content, dotted ++ expression, rfl, .closed content, dots,
      ⟨outer, dotted, [], by simp, dotteds, by simp⟩, filled⟩
  have stands : StandsIn ('\x7b' :: (content ++ ['\x7d'])) (before ++ '\x7b' :: opened ++
      ['.', '.', '.'] ++ dotted ++ expression ++ ended ++ '\x7d' :: after) :=
    ⟨braced, before, after, by simp [content], befores, afters⟩
  rw [ofSource?_of_standsIn stands]
  exact (ofSource?_eq_spread_iff braced).mpr spreads

/-- A name that is read can be read again. -/
theorem ofSource?_name {text name : Text} (read : ofSource? text = some (.named name)) :
    ofSource? name = some (.named name) := by
  have stands := standsIn_trim text
  rw [ofSource?_of_standsIn stands, ofSource?_eq_named_iff stands.1] at read
  obtain ⟨plain, filled, ⟨rest, whole⟩, chars, -⟩ := read
  rw [← whole, List.head?_append_of_ne_nil _ filled] at plain
  simpa using @ofSource?_name_append name [] filled chars plain (by simp)

/-- Names are read exactly.

    A text without its outer blanks decides what is read. A spread of an expression is read exactly
    where that text is one, a name exactly where it has one, and nothing otherwise. So an
    expression without outer blanks is read back from between its braces and dots, whatever blanks
    stand between them; a name is read back in front of an equals sign, a blank or the end; and a
    name that is read can be read again. -/
theorem names_read_exactly :
    (∀ text, ∃ bare, StandsIn bare text ∧ ofSource? text = ofSource? bare ∧
      (∀ expression, ofSource? text = some (.spread expression) ↔ Spreads bare expression) ∧
      (∀ name, ofSource? text = some (.named name) ↔ IsNamed bare name) ∧
      (ofSource? text = none ↔
        (∀ expression, ¬ Spreads bare expression) ∧ ∀ name, ¬ IsNamed bare name)) ∧
    (∀ before opened dotted expression ended after, Bare expression → expression ≠ [] →
      (∀ blanks ∈ [before, opened, dotted, ended, after], ∀ char ∈ blanks, isBlank char = true) →
      ofSource? (before ++ '\x7b' :: opened ++ ['.', '.', '.'] ++ dotted ++ expression ++ ended ++
        '\x7d' :: after) = some (.spread expression)) ∧
    (∀ name rest, name ≠ [] → NameChars name → name.head? ≠ some '\x7b' →
      (∀ char ∈ rest.head?, char = '=' ∨ isBlank char = true) →
      ofSource? (name ++ rest) = some (.named name)) ∧
    ∀ text name, ofSource? text = some (.named name) → ofSource? name = some (.named name) := by
  refine ⟨?described, ?spread, ?name, ?again⟩
  case described =>
    intro text
    have stands := standsIn_trim text
    have same := ofSource?_of_standsIn stands
    refine ⟨trim text, stands, same, ?_, ?_, ?_⟩
    · intro expression
      rw [same]
      exact ofSource?_eq_spread_iff stands.1
    · intro name
      rw [same]
      exact ofSource?_eq_named_iff stands.1
    · rw [same]
      exact ofSource?_eq_none_iff stands.1
  case spread =>
    intro before opened dotted expression ended after outer filled blank
    exact ofSource?_spread outer filled blank
  case name =>
    intro name rest filled chars plain stops
    exact ofSource?_name_append filled chars plain stops
  case again =>
    intro text name read
    exact ofSource?_name read

/-- An expression that ends in a brace keeps it, and a value that begins with an equals sign and
    holds another one and a space is no part of a name. -/
theorem names_read_exactly_braced :
    ofSource? "\u2003\x7b\n... \x7ba\x7d\t\x7d ".toList = some (.spread "\x7ba\x7d".toList) ∧
      ofSource? "on=\x7ba = b\x7d".toList = some (.named "on".toList) := by
  obtain ⟨-, spread, name, -⟩ := names_read_exactly
  have blank : ["\u2003", "\n", " ", "\t", " "].all (fun text => text.toList.all isBlank) = true := by
    decide +kernel
  have braced := spread "\u2003".toList "\n".toList " ".toList "\x7ba\x7d".toList "\t".toList
    " ".toList (by decide) (by decide) (by simpa using blank)
  have valued := name "on".toList "=\x7ba = b\x7d".toList (by decide) (by decide) (by decide)
    (by rintro char ⟨⟩; exact Or.inl rfl)
  exact ⟨braced, valued⟩

end AttributeName

end TagWrap
