import TagWrap.Text.Offset

/-!
# Cuts of a text

A byte offset that is a boundary cuts a text in two. Statements about offsets become
statements about the two parts: of two cuts the one at the lower offset leaves a piece
between them, and what an operation does at a boundary is written down in the parts.
Two cuts at one offset are the same cut, so a piece of text is determined by the offsets
at which it starts and stops.
-/
namespace TagWrap.Text

/-- Only the empty text takes no bytes, since every character takes at least one. -/
@[simp] theorem byteSize_eq_zero (text : Text) : byteSize text = 0 ↔ text = [] := by
  cases text with
  | nil => simp
  | cons char rest =>
      have positive := Char.utf8Size_pos char
      simp only [byteSize_cons, reduceCtorEq, iff_false]
      omega

/-- A text has no more characters than bytes. -/
theorem length_le_byteSize (text : Text) : text.length ≤ byteSize text := by
  induction text with
  | nil => exact Nat.le_refl 0
  | cons char rest inductionHypothesis =>
      have positive := Char.utf8Size_pos char
      rw [List.length_cons, byteSize_cons]
      omega

/-- Of two cuts of one text, the lower one leaves a piece below the higher one.

The fronts of the two cuts are comparable as lists. If the lower were the longer, the
surplus would have to take no bytes, and then there is none. -/
theorem exists_between {front back front' back' : Text} (whole : front ++ back = front' ++ back')
    (below : byteSize front ≤ byteSize front') :
    ∃ middle, front' = front ++ middle ∧ back = middle ++ back' := by
  rcases List.append_eq_append_iff.mp whole with between | ⟨surplus, rfl, rest⟩
  · exact between
  · have none_left : surplus = [] := by
      rw [byteSize_append] at below
      exact (byteSize_eq_zero surplus).mp (by omega)
    subst none_left
    exact ⟨[], by simp, by simpa using rest.symm⟩

/-- Two cuts of one text at one offset are the same. -/
theorem cut_unique {front back front' back' : Text} (whole : front ++ back = front' ++ back')
    (same : byteSize front = byteSize front') : front = front' ∧ back = back' := by
  obtain ⟨middle, rfl, rfl⟩ := exists_between whole (Nat.le_of_eq same)
  rw [byteSize_append] at same
  have none_between : middle = [] := (byteSize_eq_zero middle).mp (by omega)
  simp [none_between]

/-- A boundary is the size of a front. -/
theorem isBoundary_iff {text : Text} {offset : Nat} :
    isBoundary text offset = true ↔
      ∃ front back, text = front ++ back ∧ byteSize front = offset := by
  rw [isBoundary, Option.isSome_iff_exists]
  constructor
  · rintro ⟨⟨front, back⟩, cut⟩
    exact ⟨front, back, splitAt?_eq_some.mp cut⟩
  · rintro ⟨front, back, cut⟩
    exact ⟨(front, back), splitAt?_eq_some.mpr cut⟩

/-- Every cut is a boundary. -/
theorem isBoundary_append (front back : Text) :
    isBoundary (front ++ back) (byteSize front) = true :=
  isBoundary_iff.mpr ⟨front, back, rfl, rfl⟩

/-- A slice is a piece of the text, with the bytes before it and in it counted. -/
theorem slice?_eq_some {text inner : Text} {start stop : Nat} :
    slice? text start stop = some inner ↔
      ∃ front back, text = front ++ inner ++ back ∧
        byteSize front = start ∧ start + byteSize inner = stop := by
  simp only [slice?]
  constructor
  · intro sliced
    split at sliced
    · rename_i ordered
      cases outer : splitAt? text start with
      | none => simp [outer] at sliced
      | some cut =>
          cases within : splitAt? cut.2 (stop - start) with
          | none => simp [outer, within] at sliced
          | some inside =>
              have named : inside.1 = inner := by simpa [outer, within] using sliced
              obtain ⟨whole, size⟩ := splitAt?_eq_some.mp outer
              obtain ⟨rest, width⟩ := splitAt?_eq_some.mp within
              subst named
              refine ⟨cut.1, inside.2, ?_, size, by omega⟩
              rw [whole, rest, List.append_assoc]
    · simp at sliced
  · rintro ⟨front, back, rfl, size, width⟩
    have outer : splitAt? (front ++ (inner ++ back)) start = some (front, inner ++ back) :=
      splitAt?_eq_some.mpr ⟨rfl, size⟩
    have within : splitAt? (inner ++ back) (stop - start) = some (inner, back) :=
      splitAt?_eq_some.mpr ⟨rfl, by omega⟩
    rw [if_pos (show start ≤ stop by omega), List.append_assoc, outer]
    simp [within]

/-- The slice between two cuts is what stands between them. -/
theorem slice?_append (front inner back : Text) :
    slice? (front ++ inner ++ back) (byteSize front) (byteSize (front ++ inner)) = some inner :=
  slice?_eq_some.mpr ⟨front, back, rfl, rfl, (byteSize_append front inner).symm⟩

/-- The text before a cut is its front. -/
theorem before_append (front back : Text) : before (front ++ back) (byteSize front) = front := by
  have cut : splitAt? (front ++ back) (byteSize front) = some (front, back) :=
    splitAt?_eq_some.mpr ⟨rfl, rfl⟩
  simp [before, cut]

/-- What stands between two cuts gives way to the replacement. -/
theorem replaceRange_append {front gone back replacement : Text} {start stop : Nat}
    (begins : byteSize front = start) (ends : start + byteSize gone = stop) :
    replaceRange (front ++ gone ++ back) start stop replacement = front ++ replacement ++ back := by
  have lower : splitAt? (front ++ gone ++ back) start = some (front, gone ++ back) :=
    splitAt?_eq_some.mpr ⟨by simp, begins⟩
  have upper : splitAt? (front ++ gone ++ back) stop = some (front ++ gone, back) :=
    splitAt?_eq_some.mpr ⟨rfl, by simp; omega⟩
  rw [replaceRange, lower, upper]

end TagWrap.Text
