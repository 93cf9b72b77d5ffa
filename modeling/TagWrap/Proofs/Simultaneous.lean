import TagWrap.Proofs.Batch

/-!
# A batch of edits is one splice

The changes of a batch are made one after the other, from the end of the source to its start, and
the check in front of them compares neighbours only. What a batch means needs neither. The source is
cut at the bounds of the edits. The pieces outside the edits are kept, and each edit gives its
replacement in place of the piece that it covers.

A batch is applied exactly when this has one meaning: each edit covers a piece of the source, and no
two of them meet. The result is then the concatenation of pieces and replacements in the order of
the starts (`batch_spliced_at_once`). So it does not matter in which order a batch lists its edits.
-/
namespace TagWrap.Edit

open Text

/-- The edits of a batch in the order of their starts. -/
def byStart (edits : List Edit) : List Edit :=
  edits.mergeSort fun first second => first.start ≤ second.start

/-- The source from an offset on, with the replacement of each edit in place of the piece that the
    edit covers. There is no such text where one of the pieces between the edits is no piece of the
    source. -/
def splice? (source : Text) : Nat → List Edit → Option Text
  | base, [] => slice? source base (byteSize source)
  | base, edit :: edits => do
      let kept ← slice? source base edit.start
      let others ← splice? source edit.stop edits
      return kept ++ edit.replacement ++ others

/-- What is put together from the pieces of the source is the result of the splice. The induction is
    on the splice of the text behind the pieces that are put together already. -/
theorem Spliced.splice?_eq {base : Nat} {text result : Text} {edits : List Edit}
    (spliced : Spliced base text edits result) (front : Text) (size : byteSize front = base) :
    splice? (front ++ text) base edits = some result := by
  induction spliced generalizing front with
  | rest base text =>
      apply slice?_eq_some.mpr
      exact ⟨front, [], by simp, size, by rw [byteSize_append, size]⟩
  | @edit base kept gone after result edit edits begins ends _ inductionHypothesis =>
      have keeps : slice? (front ++ (kept ++ gone ++ after)) base edit.start = some kept := by
        apply slice?_eq_some.mpr
        exact ⟨front, gone ++ after, by simp, size, begins⟩
      have further : splice? (front ++ (kept ++ gone ++ after)) edit.stop edits = some result := by
        have reached : byteSize (front ++ kept ++ gone) = edit.stop := by
          simp only [byteSize_append]
          omega
        simpa using inductionHypothesis (front ++ kept ++ gone) reached
      rw [splice?, keeps, Option.bind_eq_bind, Option.bind_some, further]
      rfl

/-- Edits that do not meet are in increasing order once they are sorted by their starts. -/
theorem byStart_eq {edits ordered : List Edit} (same : ordered.Perm edits)
    (increasing : ordered.Pairwise Precedes) : byStart edits = ordered := by
  have sorted : (byStart edits).Pairwise fun first second =>
      decide (first.start ≤ second.start) = true := by
    apply List.pairwise_mergeSort
    · simp only [decide_eq_true_eq]
      omega
    · simp only [Bool.or_eq_true, decide_eq_true_eq]
      omega
  have permuted : ordered.Perm (byStart edits) := same.trans (List.mergeSort_perm edits _).symm
  have apart : (byStart edits).Pairwise Apart :=
    (increasing.imp Or.inl).perm permuted Apart.symm
  apply increasing_unique permuted.symm _ increasing
  exact (sorted.and apart).imp fun both => both.2.precedes (of_decide_eq_true both.1)

/-- A batch of edits is one splice of the source.

    It is applied exactly when the span of each edit is a span of the source and no two edits meet:
    their starts differ, and the one that starts first stops no later than the other starts. What
    comes out are the pieces of the source between the edits and the replacements in turn, in the
    order of the starts. A batch that lists the same edits in another order has the same result,
    or none as well. -/
theorem batch_spliced_at_once (source : Text) (edits : List Edit) :
    ((∃ result, applyAll source edits = .ok result) ↔
      (∀ edit ∈ edits, edit.start ≤ edit.stop ∧ edit.stop ≤ byteSize source ∧
        isBoundary source edit.start = true ∧ isBoundary source edit.stop = true) ∧
      edits.Pairwise Apart) ∧
    (∀ result, applyAll source edits = .ok result →
      splice? source 0 (byStart edits) = some result) ∧
    ∀ permuted, edits.Perm permuted → ∀ result,
      applyAll source edits = .ok result ↔ applyAll source permuted = .ok result := by
  refine ⟨?applied, ?spliced, ?permuted⟩
  case applied =>
    rw [applyAll_isOk_iff]
    apply and_congr_left'
    apply forall₂_congr
    intro edit _
    constructor
    · rintro ⟨forward, begins, ends⟩
      exact ⟨forward, isBoundary_le ends, begins, ends⟩
    · rintro ⟨forward, -, begins, ends⟩
      exact ⟨forward, begins, ends⟩
  case spliced =>
    intro result applied
    obtain ⟨ordered, same, increasing, spliced⟩ := applyAll_eq_ok_iff.mp applied
    rw [byStart_eq same increasing]
    exact spliced.splice?_eq [] byteSize_nil
  case permuted =>
    intro permuted same result
    exact ⟨applyAll_perm same, applyAll_perm same.symm⟩

/-- Edits that touch, listed in another order than they stand in the source: an insertion directly
    behind the first character, which is replaced, and a replacement at the end. -/
theorem batch_spliced_touching :
    let replace (start stop : Nat) (text : String) : Edit :=
      ⟨(LineIndex.ofText "aéb".toList).span ⟨start, stop⟩, text.toList, ""⟩
    let listed := [replace 3 4 "xy", replace 0 1 "z", replace 1 1 "-"]
    applyAll "aéb".toList listed = .ok "z-éxy".toList ∧
      splice? "aéb".toList 0 (byStart listed) = some "z-éxy".toList := by
  intro replace listed
  let decreasing := [replace 3 4 "xy", replace 1 1 "-", replace 0 1 "z"]
  have applied : applyAll "aéb".toList decreasing = .ok "z-éxy".toList := by
    rw [applyAll_of_decreasing (by decide +kernel)]
    rfl
  have permuted : decreasing.Perm listed := (List.Perm.swap _ _ []).cons _
  have reordered := ((batch_spliced_at_once _ _).2.2 listed permuted _).mp applied
  exact ⟨reordered, (batch_spliced_at_once _ listed).2.1 _ reordered⟩

end TagWrap.Edit
