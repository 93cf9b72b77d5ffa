import TagWrap.Nesting
import TagWrap.Proofs.Steps

/-!
# What the check of nesting accepts

The check visits ranges by their start, of two with one start the longer first, and compares each
range with the innermost range that is still open. That decides about all pairs: ranges pass
exactly when any two of them stand beside each other or one encloses the other
(`checkRanges_eq_ok_iff`).

The open ranges enclose each other from the innermost to the outermost. So a range that the
innermost open range encloses is enclosed by all of them, and a range that is closed once ends
before everything that is visited later.
-/
namespace TagWrap.Nesting

/-- One range ends where the other starts, or before. -/
def Beside (first second : ByteRange) : Prop :=
  first.stop ≤ second.start ∨ second.stop ≤ first.start

/-- A range lies inside another one that is longer. -/
def Encloses (outer inner : ByteRange) : Prop :=
  outer.start ≤ inner.start ∧ inner.stop ≤ outer.stop ∧
    (outer.start < inner.start ∨ inner.stop < outer.stop)

/-- Two ranges do not cross and are not the same. -/
def Compatible (first second : ByteRange) : Prop :=
  Beside first second ∨ Encloses first second ∨ Encloses second first

/-- Nothing depends on which of two ranges is named first. -/
theorem Compatible.symm {first second : ByteRange} (compatible : Compatible first second) :
    Compatible second first := by
  rcases compatible with beside | outer | inner
  · exact Or.inl (Or.symm beside)
  · exact Or.inr (Or.inr outer)
  · exact Or.inr (Or.inl inner)

theorem Encloses.trans {outer middle inner : ByteRange} (first : Encloses outer middle)
    (second : Encloses middle inner) : Encloses outer inner := by
  simp only [Encloses] at first second ⊢
  omega

/-- The order of the visit by the bounds of ranges. -/
theorem visitedBefore_iff {first second : ByteRange} :
    visitedBefore first second = true ↔
      first.start < second.start ∨ first.start = second.start ∧ second.stop ≤ first.stop := by
  simp [visitedBefore]

/-- A range that has ended stands beside everything that is visited later. -/
theorem compatible_of_ended {ended range later : ByteRange} (before : ended.stop ≤ range.start)
    (visited : visitedBefore range later = true) : Compatible ended later := by
  rw [visitedBefore_iff] at visited
  refine Or.inl (Or.inl ?_)
  omega

/-- The open ranges that do not end before a range starts. -/
def stillOpen (opened : List ByteRange) (range : ByteRange) : List ByteRange :=
  opened.dropWhile (·.stop ≤ range.start)

/-- The visit of a range looks at the innermost range that is still open, and goes on with the
    range in front of those that are. -/
theorem sweep_cons_eq_ok_iff {opened ranges : List ByteRange} {range : ByteRange} :
    sweep opened (range :: ranges) = .ok () ↔
      (∀ outer ∈ (stillOpen opened range).head?, outer ≠ range ∧ range.stop ≤ outer.stop) ∧
        sweep (range :: stillOpen opened range) ranges = .ok () := by
  rw [sweep, stillOpen]
  cases opened.dropWhile (·.stop ≤ range.start) with
  | nil => simp
  | cons outer others => simp [refuse_eq_ok]

section Visit

variable {opened : List ByteRange} {range : ByteRange}

/-- The innermost range that is still open ends behind the start of the range that is visited. -/
theorem lt_stop_of_head {outer : ByteRange} (innermost : (stillOpen opened range).head? = some outer) :
    range.start < outer.stop := by
  have stopped := List.head?_dropWhile_not (·.stop ≤ range.start) opened
  rw [← stillOpen, innermost] at stopped
  simpa using stopped

/-- An open range ends before a range starts, or it is still open. -/
theorem ended_or_stillOpen {outer : ByteRange} (member : outer ∈ opened) :
    outer.stop ≤ range.start ∨ outer ∈ stillOpen opened range := by
  rw [← List.takeWhile_append_dropWhile (p := fun outer : ByteRange => outer.stop ≤ range.start)
    (l := opened)] at member
  rcases List.mem_append.mp member with ended | left
  · exact Or.inl (by simpa using List.all_eq_true.mp List.all_takeWhile outer ended)
  · exact Or.inr left

theorem mem_of_stillOpen {outer : ByteRange} (member : outer ∈ stillOpen opened range) :
    outer ∈ opened :=
  (List.dropWhile_sublist _).subset member

variable (nested : opened.Pairwise fun inner outer => Encloses outer inner)
  (visited : ∀ outer ∈ opened, visitedBefore outer range = true)
  (forward : range.start ≤ range.stop)

include nested

/-- A range that is still open ends behind the start of the range that is visited. -/
theorem lt_stop_of_stillOpen {outer : ByteRange} (member : outer ∈ stillOpen opened range) :
    range.start < outer.stop := by
  have kept := nested.sublist (List.dropWhile_sublist fun outer => outer.stop ≤ range.start)
  rw [← stillOpen] at kept
  cases left : stillOpen opened range with
  | nil => simp [left] at member
  | cons innermost others =>
      have reached : range.start < innermost.stop := lt_stop_of_head (by rw [left, List.head?_cons])
      rw [left] at member kept
      rcases List.mem_cons.mp member with rfl | further
      · exact reached
      · have around : Encloses outer innermost := List.rel_of_pairwise_cons kept further
        have beyond := around.2.1
        omega

include visited forward

/-- All open ranges are compatible with a range exactly when those that are still open enclose
    it. -/
theorem compatible_iff_encloses :
    (∀ outer ∈ opened, Compatible outer range) ↔
      ∀ outer ∈ stillOpen opened range, Encloses outer range := by
  constructor
  · intro compatible outer member
    have open_ := lt_stop_of_stillOpen nested member
    have before := visitedBefore_iff.mp (visited outer (mem_of_stillOpen member))
    have both := compatible outer (mem_of_stillOpen member)
    simp only [Compatible, Beside, Encloses] at both ⊢
    omega
  · intro enclosed outer member
    rcases ended_or_stillOpen member with ended | left
    · exact Or.inl (Or.inl ended)
    · exact Or.inr (Or.inl (enclosed outer left))

/-- It is enough to look at the innermost range that is still open. The others enclose it, and so
    whatever it encloses. -/
theorem innermost_iff_encloses :
    (∀ outer ∈ (stillOpen opened range).head?, outer ≠ range ∧ range.stop ≤ outer.stop) ↔
      ∀ outer ∈ stillOpen opened range, Encloses outer range := by
  have kept := nested.sublist (List.dropWhile_sublist fun outer => outer.stop ≤ range.start)
  rw [← stillOpen] at kept
  have reached (outer : ByteRange) (member : outer ∈ stillOpen opened range) :=
    visitedBefore_iff.mp (visited outer (mem_of_stillOpen member))
  cases left : stillOpen opened range with
  | nil => simp
  | cons innermost others =>
      rw [left] at kept reached
      have before := reached innermost List.mem_cons_self
      have same : innermost = range ↔
          innermost.start = range.start ∧ innermost.stop = range.stop := by
        cases innermost
        cases range
        simp
      have decides : innermost ≠ range ∧ range.stop ≤ innermost.stop ↔
          Encloses innermost range := by
        rw [ne_eq, same, Encloses]
        omega
      constructor
      · intro clear outer member
        have inside := decides.mp (clear innermost rfl)
        rcases List.mem_cons.mp member with rfl | further
        · exact inside
        · have around : Encloses outer innermost := List.rel_of_pairwise_cons kept further
          exact around.trans inside
      · rintro enclosed outer ⟨⟩
        exact decides.mpr (enclosed innermost List.mem_cons_self)

end Visit

/-- The visit passes exactly when the ranges are compatible with each other and with the open ones.

    The induction is on the ranges still to be visited. The next range is compatible with the open
    ranges exactly when those that are still open enclose it, and then it joins them as the
    innermost. Those that have ended are compatible with all that follows. -/
theorem sweep_eq_ok_iff {opened ranges : List ByteRange}
    (nested : opened.Pairwise fun inner outer => Encloses outer inner)
    (visited : ∀ range ∈ ranges, ∀ outer ∈ opened, visitedBefore outer range = true)
    (sorted : ranges.Pairwise fun first second => visitedBefore first second = true)
    (forward : ∀ range ∈ ranges, range.start ≤ range.stop) :
    sweep opened ranges = .ok () ↔
      (∀ range ∈ ranges, ∀ outer ∈ opened, Compatible outer range) ∧
        ranges.Pairwise Compatible := by
  induction ranges generalizing opened with
  | nil => simp [sweep]
  | cons range ranges inductionHypothesis =>
      have here := visited range List.mem_cons_self
      have runs := forward range List.mem_cons_self
      have ahead : ∀ later ∈ ranges, visitedBefore range later = true := fun later member =>
        List.rel_of_pairwise_cons sorted member
      have visitedLater : ∀ later ∈ ranges, ∀ outer ∈ range :: stillOpen opened range,
          visitedBefore outer later = true := by
        intro later member outer listed
        rcases List.mem_cons.mp listed with rfl | left
        · exact ahead later member
        · exact visited later (List.mem_cons_of_mem range member) outer (mem_of_stillOpen left)
      have decided (enclosed : ∀ outer ∈ stillOpen opened range, Encloses outer range) :=
        inductionHypothesis (List.pairwise_cons.mpr ⟨enclosed,
            nested.sublist (List.dropWhile_sublist _)⟩) visitedLater sorted.tail
          fun later member => forward later (List.mem_cons_of_mem range member)
      rw [sweep_cons_eq_ok_iff, innermost_iff_encloses nested here runs]
      constructor
      · rintro ⟨enclosed, rest⟩
        obtain ⟨all, others⟩ := (decided enclosed).mp rest
        refine ⟨fun later member outer listed => ?_, List.pairwise_cons.mpr ⟨fun later member =>
          all later member range List.mem_cons_self, others⟩⟩
        rcases List.mem_cons.mp member with rfl | beyond
        · exact (compatible_iff_encloses nested here runs).mpr enclosed outer listed
        · rcases ended_or_stillOpen listed with ended | left
          · exact compatible_of_ended ended (ahead later beyond)
          · exact all later beyond outer (List.mem_cons_of_mem range left)
      · rintro ⟨all, compatible⟩
        obtain ⟨own, others⟩ := List.pairwise_cons.mp compatible
        have enclosed := (compatible_iff_encloses nested here runs).mp
          (all range List.mem_cons_self)
        refine ⟨enclosed, (decided enclosed).mpr ⟨fun later member outer listed => ?_, others⟩⟩
        rcases List.mem_cons.mp listed with rfl | left
        · exact own later member
        · exact all later (List.mem_cons_of_mem range member) outer (mem_of_stillOpen left)

/-- The check visits ranges in the order of the visit. -/
theorem pairwise_visitedBefore (ranges : List ByteRange) :
    (ranges.mergeSort visitedBefore).Pairwise fun first second =>
      visitedBefore first second = true := by
  apply List.pairwise_mergeSort
  · intro first second third
    simp only [visitedBefore_iff]
    omega
  · intro first second
    rw [Bool.or_eq_true, visitedBefore_iff, visitedBefore_iff]
    omega

/-- Ranges that do not run backwards pass the check exactly when any two of them stand beside each
    other or one encloses the other. -/
theorem checkRanges_eq_ok_iff {ranges : List ByteRange}
    (forward : ∀ range ∈ ranges, range.start ≤ range.stop) :
    checkRanges ranges = .ok () ↔ ranges.Pairwise Compatible := by
  have same := List.mergeSort_perm ranges visitedBefore
  rw [checkRanges, sweep_eq_ok_iff List.Pairwise.nil (by simp) (pairwise_visitedBefore ranges)
    (fun range member => forward range (same.mem_iff.mp member))]
  constructor
  · rintro ⟨-, compatible⟩
    exact compatible.perm same Compatible.symm
  · intro compatible
    exact ⟨by simp, compatible.perm same.symm Compatible.symm⟩

end TagWrap.Nesting
