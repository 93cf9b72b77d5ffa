import Mathlib.Data.List.Perm.Subperm
import TagWrap.Proofs.Sweep

/-!
# The check of nesting decides laminarity

A list of ranges is laminar when no two of its entries conflict. Entries conflict when they share a
byte and neither contains the other strictly. So two equal ranges conflict unless they are empty,
and ranges that only touch do not.

The check accepts exactly the laminar lists, and the two ranges that it names otherwise belong to
two entries that conflict (`check_decides_laminarity`). It visits the ranges in an order that tells
any two different ranges apart. The order in which the elements are listed is therefore lost before
the visit begins, and neither the verdict nor the ranges that are named depend on it.
-/
namespace TagWrap.Nesting

/-- Some byte belongs to both ranges. -/
def ShareByte (first second : ByteRange) : Prop :=
  ∃ byte, (first.start ≤ byte ∧ byte < first.stop) ∧ second.start ≤ byte ∧ byte < second.stop

/-- Two ranges share a byte, and neither contains the other strictly. -/
def Conflict (first second : ByteRange) : Prop :=
  ShareByte first second ∧ ¬ Encloses first second ∧ ¬ Encloses second first

/-- Two ranges share a byte exactly when both are filled and each starts before the other stops. -/
theorem shareByte_iff {first second : ByteRange} :
    ShareByte first second ↔ first.start < first.stop ∧ second.start < second.stop ∧
      first.start < second.stop ∧ second.start < first.stop := by
  constructor
  · rintro ⟨byte, own, other⟩
    omega
  · intro reached
    exact ⟨max first.start second.start, by omega, by omega⟩

/-- Ranges that do not run backwards are compatible exactly when they do not conflict. An empty
    range shares no byte, and then it stands beside the other one or strictly inside it. -/
theorem compatible_iff {first second : ByteRange} (forward : first.start ≤ first.stop)
    (forward' : second.start ≤ second.stop) :
    Compatible first second ↔ ¬ Conflict first second := by
  simp only [Conflict, shareByte_iff, Compatible, Beside, Encloses]
  omega

/-- The visit of a range stops at a conflict with the innermost range that is still open, or it
    stops later. -/
theorem sweep_cons_error {opened ranges : List ByteRange} {range : ByteRange} {error : IngestError}
    (refused : sweep opened (range :: ranges) = .error error) :
    (∃ outer, (stillOpen opened range).head? = some outer ∧
      (outer = range ∨ outer.stop < range.stop) ∧
      error = .overlappingElements range.start range.stop outer.start outer.stop) ∨
    sweep (range :: stillOpen opened range) ranges = .error error := by
  rw [sweep, ← stillOpen] at refused
  cases left : stillOpen opened range with
  | nil =>
      rw [left] at refused
      exact Or.inr refused
  | cons outer others =>
      rw [left] at refused
      dsimp only at refused
      split at refused
      · rename_i meets
        exact Or.inl ⟨outer, List.head?_cons, meets, (Except.error.inj refused).symm⟩
      · exact Or.inr refused

/-- A visit that is refused has come to a range that meets one from before. The range from before
    was open at the start or has been visited. -/
theorem exists_of_sweep_error {opened ranges : List ByteRange} {error : IngestError}
    (refused : sweep opened ranges = .error error) :
    ∃ before range after outer, ranges = before ++ range :: after ∧
      (outer ∈ opened ∨ outer ∈ before) ∧ range.start < outer.stop ∧
      (outer = range ∨ outer.stop < range.stop) ∧
      error = .overlappingElements range.start range.stop outer.start outer.stop := by
  induction ranges generalizing opened with
  | nil => contradiction
  | cons range ranges inductionHypothesis =>
      rcases sweep_cons_error refused with ⟨outer, innermost, meets, named⟩ | later
      · have member : outer ∈ opened := mem_of_stillOpen (List.mem_of_head? innermost)
        exact ⟨[], range, ranges, outer, List.nil_append _, Or.inl member,
          lt_stop_of_head innermost, meets, named⟩
      · obtain ⟨before, other, after, outer, whole, known, reached, meets, named⟩ :=
          inductionHypothesis later
        refine ⟨range :: before, other, after, outer, by rw [whole, List.cons_append], ?_, reached,
          meets, named⟩
        rcases known with own | visited
        · rcases List.mem_cons.mp own with rfl | left
          · exact Or.inr List.mem_cons_self
          · exact Or.inl (mem_of_stillOpen left)
        · exact Or.inr (List.mem_cons_of_mem range visited)

/-- A range conflicts with one that was visited before it, does not end before it starts, and is the
    same or ends first. -/
theorem conflict_of_meets {outer range : ByteRange} (visited : visitedBefore outer range = true)
    (forward : range.start ≤ range.stop) (reached : range.start < outer.stop)
    (meets : outer = range ∨ outer.stop < range.stop) : Conflict range outer := by
  rw [visitedBefore_iff] at visited
  simp only [Conflict, shareByte_iff, Encloses]
  rcases meets with rfl | shorter
  · omega
  · omega

/-- Two ranges one behind the other in the order of the visit are two entries of the list. -/
theorem exists_positions {ranges before after : List ByteRange} {outer range : ByteRange}
    (visited : ranges.mergeSort visitedBefore = before ++ range :: after)
    (member : outer ∈ before) :
    ∃ i j : Fin ranges.length, i ≠ j ∧ ranges[i] = range ∧ ranges[j] = outer := by
  have both : [outer, range].Sublist (before ++ range :: after) :=
    (List.singleton_sublist.mpr member).append (List.singleton_sublist.mpr List.mem_cons_self)
  have listed : [outer, range].Subperm ranges := by
    rw [← visited] at both
    exact both.subperm.trans (List.mergeSort_perm ranges visitedBefore).subperm
  refine ⟨listed.idxInj 1, listed.idxInj 0, ?_, ?_, ?_⟩
  · exact fun same => Nat.one_ne_zero (congrArg Fin.val (listed.idxInj_injective same))
  · exact listed.getElem_idxInj_eq_getElem
  · exact listed.getElem_idxInj_eq_getElem

/-- A refusal of ranges that do not run backwards names two entries that conflict. -/
theorem exists_conflict {ranges : List ByteRange} {error : IngestError}
    (forward : ∀ range ∈ ranges, range.start ≤ range.stop)
    (refused : checkRanges ranges = .error error) :
    ∃ i j : Fin ranges.length, i ≠ j ∧ Conflict ranges[i] ranges[j] ∧
      error = .overlappingElements ranges[i].start ranges[i].stop ranges[j].start
        ranges[j].stop := by
  obtain ⟨before, range, after, outer, whole, known, reached, meets, named⟩ :=
    exists_of_sweep_error refused
  have member : outer ∈ before := known.resolve_left List.not_mem_nil
  obtain ⟨i, j, distinct, here, there⟩ := exists_positions whole member
  have visited : visitedBefore outer range = true := by
    have sorted := pairwise_visitedBefore ranges
    rw [whole] at sorted
    exact (List.pairwise_append.mp sorted).2.2 outer member range List.mem_cons_self
  refine ⟨i, j, distinct, ?_, by rw [here, there, named]⟩
  rw [here, there]
  exact conflict_of_meets visited (forward range (here ▸ List.getElem_mem i.isLt)) reached meets

/-- Any two entries of a list are related in the order of the list exactly when they are in both
    orders, if the relation does not tell its sides apart. -/
theorem pairwise_iff_positions {Entry : Type} {relation : Entry → Entry → Prop}
    {entries : List Entry}
    (symmetric : ∀ first second, relation first second → relation second first) :
    entries.Pairwise relation ↔
      ∀ i j : Fin entries.length, i ≠ j → relation entries[i] entries[j] := by
  rw [List.pairwise_iff_getElem]
  constructor
  · intro ordered i j distinct
    rcases Nat.lt_or_gt_of_ne (Fin.val_ne_of_ne distinct) with before | behind
    · exact ordered i j i.isLt j.isLt before
    · exact symmetric _ _ (ordered j i j.isLt i.isLt behind)
  · intro all i j first second before
    exact all ⟨i, first⟩ ⟨j, second⟩ (Fin.ne_of_lt before)

/-- The visit of ranges does not depend on the order in which they are listed. Two ranges of which
    each may be visited before the other are the same. -/
theorem mergeSort_eq_of_perm {ranges permuted : List ByteRange} (same : ranges.Perm permuted) :
    ranges.mergeSort visitedBefore = permuted.mergeSort visitedBefore := by
  apply List.Perm.eq_of_pairwise _ (pairwise_visitedBefore ranges) (pairwise_visitedBefore permuted)
  · exact (List.mergeSort_perm _ _).trans (same.trans (List.mergeSort_perm _ _).symm)
  · intro first second _ _ before behind
    rw [visitedBefore_iff] at before behind
    have starts : first.start = second.start := by omega
    have stops : first.stop = second.stop := by omega
    cases first
    cases second
    simp_all

/-- The check of nesting decides laminarity.

    Elements whose spans do not run backwards pass the check exactly when no two entries of the list
    conflict. A refusal says that elements overlap, and the two ranges that it names are those of
    two entries that conflict. The verdict and the ranges that it names are the same for every order
    in which the elements are listed. -/
theorem check_decides_laminarity {elements : List Element}
    (forward : ∀ element ∈ elements, element.span.start.offset ≤ element.span.stop.offset) :
    (check elements = .ok () ↔ ∀ i j : Fin elements.length, i ≠ j →
      ¬ Conflict elements[i].span.range elements[j].span.range) ∧
    (∀ error, check elements = .error error → ∃ i j : Fin elements.length, i ≠ j ∧
      Conflict elements[i].span.range elements[j].span.range ∧
      error = .overlappingElements elements[i].span.start.offset elements[i].span.stop.offset
        elements[j].span.start.offset elements[j].span.stop.offset) ∧
    ∀ permuted, elements.Perm permuted → check permuted = check elements := by
  have runs : ∀ range ∈ elements.map (·.span.range), range.start ≤ range.stop :=
    List.forall_mem_map.mpr forward
  refine ⟨?accepted, ?refused, ?permuted⟩
  case accepted =>
    rw [check, checkRanges_eq_ok_iff runs, List.pairwise_map,
      pairwise_iff_positions fun _ _ => Compatible.symm]
    apply forall₃_congr
    intro i j _
    exact compatible_iff (forward _ (List.getElem_mem i.isLt)) (forward _ (List.getElem_mem j.isLt))
  case refused =>
    intro error refused
    obtain ⟨i, j, distinct, conflict, named⟩ := exists_conflict runs refused
    simp only [Fin.getElem_fin, List.getElem_map] at conflict named
    refine ⟨i.cast (List.length_map _), j.cast (List.length_map _), ?_, conflict, named⟩
    intro same
    have values := congrArg Fin.val same
    exact distinct (Fin.ext values)
  case permuted =>
    intro permuted same
    rw [check, check, checkRanges, checkRanges, mergeSort_eq_of_perm (same.map _)]

/-- Of two tags that cross, the later one is named first, whichever is listed first. -/
theorem check_crossing_tags :
    let tag (start stop : Nat) : Element :=
      ⟨(LineIndex.ofText "<App foo /><Next />".toList).span ⟨start, stop⟩, [], []⟩
    (∀ element ∈ [tag 0 11, tag 5 15], element.span.start.offset ≤ element.span.stop.offset) ∧
      check [tag 5 15, tag 0 11] = .error (.overlappingElements 5 15 0 11) ∧
      Conflict ⟨5, 15⟩ ⟨0, 11⟩ := by
  intro tag
  have forward : ∀ element ∈ [tag 0 11, tag 5 15],
      element.span.start.offset ≤ element.span.stop.offset := by decide
  have refused : check [tag 0 11, tag 5 15] = .error (.overlappingElements 5 15 0 11) := by
    rw [check, checkRanges, List.mergeSort_of_pairwise (by decide)]
    rfl
  obtain ⟨-, named, sameFor⟩ := check_decides_laminarity forward
  refine ⟨forward, (sameFor _ (List.Perm.swap _ _ [])).trans refused, ?_⟩
  obtain ⟨i, j, -, conflict, said⟩ := named _ refused
  obtain ⟨starts, stops, otherStarts, otherStops⟩ := IngestError.overlappingElements.inj said
  rwa [Span.range, Span.range, ← starts, ← stops, ← otherStarts, ← otherStops] at conflict

end TagWrap.Nesting
