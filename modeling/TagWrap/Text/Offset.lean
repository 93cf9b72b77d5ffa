/-!
# Text and byte offsets

A text is the list of its characters. A place in a text is a byte offset into its
UTF-8 encoding, as parsers report it. An offset can fall inside a character, and
then it names no place between two characters: `splitAt?` and `slice?` refuse it.

`splitAt?_eq_some` says exactly which cuts exist. Every later statement about
offsets goes through it, so no encoding has to be unfolded again.
-/
namespace TagWrap

/-- A text, as its characters in order. -/
abbrev Text := List Char

namespace Text

/-- The number of bytes of the UTF-8 encoding of a text. -/
def byteSize : Text → Nat
  | [] => 0
  | char :: rest => char.utf8Size + byteSize rest

/-- Cut a text at a byte offset. There is no cut inside a character and none
    beyond the end. -/
def splitAt? : Text → Nat → Option (Text × Text)
  | text, 0 => some ([], text)
  | [], _ + 1 => none
  | char :: rest, offset + 1 =>
      if char.utf8Size ≤ offset + 1 then
        (splitAt? rest (offset + 1 - char.utf8Size)).map fun cut => (char :: cut.1, cut.2)
      else none

/-- Whether a byte offset lies between two characters, or at an end of the text. -/
def isBoundary (text : Text) (offset : Nat) : Bool := (splitAt? text offset).isSome

/-- The characters between two byte offsets, where both are boundaries in order. -/
def slice? (text : Text) (start stop : Nat) : Option Text :=
  if start ≤ stop then do
    let cut ← splitAt? text start
    let inner ← splitAt? cut.2 (stop - start)
    return inner.1
  else none

/-- The text before a byte offset, and nothing where the offset is no boundary. -/
def before (text : Text) (offset : Nat) : Text :=
  match splitAt? text offset with
  | some cut => cut.1
  | none => []

/-- Put other characters in the place of those between two byte offsets. A text is
    left as it is where an offset is no boundary. -/
def replaceRange (text : Text) (start stop : Nat) (replacement : Text) : Text :=
  match splitAt? text start, splitAt? text stop with
  | some front, some back => front.1 ++ replacement ++ back.2
  | _, _ => text

/-- An empty text takes no bytes. -/
@[simp] theorem byteSize_nil : byteSize [] = 0 := rfl

/-- The first character adds its own bytes. -/
@[simp] theorem byteSize_cons (char : Char) (rest : Text) :
    byteSize (char :: rest) = char.utf8Size + byteSize rest := rfl

/-- Bytes add up over concatenation. -/
@[simp] theorem byteSize_append (front back : Text) :
    byteSize (front ++ back) = byteSize front + byteSize back := by
  induction front with
  | nil => simp
  | cons char rest inductionHypothesis => simp [inductionHypothesis, Nat.add_assoc]

/-- A cut at an offset is a pair of texts that make up the whole, the first of
    which has that many bytes. The proof follows the text: a character that fits
    below the offset belongs to the first part, and one that does not fit leaves
    no cut. -/
theorem splitAt?_eq_some {text front back : Text} {offset : Nat} :
    splitAt? text offset = some (front, back) ↔
      text = front ++ back ∧ byteSize front = offset := by
  induction text generalizing offset front with
  | nil =>
      cases offset with
      | zero =>
          constructor
          · intro cut
            simp only [splitAt?, Option.some.injEq, Prod.mk.injEq] at cut
            simp [cut.1.symm, cut.2.symm]
          · rintro ⟨whole, _⟩
            simp [splitAt?, List.nil_eq_append_iff.mp whole]
      | succ offset =>
          constructor
          · intro cut
            simp [splitAt?] at cut
          · rintro ⟨whole, size⟩
            simp [(List.nil_eq_append_iff.mp whole).1] at size
  | cons char rest inductionHypothesis =>
      have positive := Char.utf8Size_pos char
      cases offset with
      | zero =>
          constructor
          · intro cut
            simp only [splitAt?, Option.some.injEq, Prod.mk.injEq] at cut
            simp [cut.1.symm, cut.2.symm]
          · rintro ⟨whole, size⟩
            cases front with
            | nil => simp_all [splitAt?]
            | cons first others => simp at size; have := Char.utf8Size_pos first; omega
      | succ offset =>
          simp only [splitAt?]
          split
          next fits =>
            simp only [Option.map_eq_some_iff, Prod.mk.injEq]
            constructor
            · rintro ⟨⟨inner, after⟩, cut, rfl, rfl⟩
              obtain ⟨rfl, size⟩ := inductionHypothesis.mp cut
              refine ⟨rfl, ?_⟩
              simp only [byteSize_cons]
              omega
            · rintro ⟨whole, size⟩
              cases front with
              | nil => simp at size
              | cons first others =>
                  simp only [List.cons_append, List.cons.injEq] at whole
                  simp only [byteSize_cons] at size
                  obtain ⟨rfl, rfl⟩ := whole
                  exact ⟨(others, back), inductionHypothesis.mpr ⟨rfl, by omega⟩, rfl, rfl⟩
          next exceeds =>
            constructor
            · simp
            · rintro ⟨whole, size⟩
              cases front with
              | nil => simp at size
              | cons first others =>
                  simp only [List.cons_append, List.cons.injEq] at whole
                  simp only [byteSize_cons] at size
                  obtain ⟨rfl, rfl⟩ := whole
                  omega

end Text

end TagWrap
