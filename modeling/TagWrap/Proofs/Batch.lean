import TagWrap.Proofs.Splice
import TagWrap.Proofs.Steps

/-!
# Which batches of edits succeed

The check of a batch walks the edits from the end of the source to its start and compares each
one only with the one after it in the source. Since no span runs backwards, that decides about
all pairs: `checkAll_eq_ok_iff`. A batch therefore succeeds exactly when each edit fits the
source and no two of them meet (`applyAll_isOk_iff`), and its result is the splice of the edits
in increasing order (`applyAll_eq_ok_iff`).

The changes are made in the text that the earlier changes left behind. The walk keeps an
invariant: the text is still the source up to the start of the last change made, so the span
of the next one lies where it did.
-/
namespace TagWrap.Edit

open Text

/-- A boundary of a text is a boundary of each front that reaches as far. -/
theorem isBoundary_front {front back : Text} {offset : Nat}
    (boundary : isBoundary (front ++ back) offset = true) (reached : offset ≤ byteSize front) :
    isBoundary front offset = true := by
  obtain ⟨low, high, whole, size⟩ := isBoundary_iff.mp boundary
  obtain ⟨middle, rfl, rfl⟩ := exists_between whole.symm (by omega)
  exact isBoundary_iff.mpr ⟨low, middle, rfl, size⟩

/-- A boundary is no offset beyond the end. -/
theorem isBoundary_le {text : Text} {offset : Nat} (boundary : isBoundary text offset = true) :
    offset ≤ byteSize text := by
  obtain ⟨front, back, rfl, rfl⟩ := isBoundary_iff.mp boundary
  simp

/-- An edit that fits a source takes a text out of it. -/
theorem Fits.exists_takes {source : Text} {edit : Edit} (fits : Fits source edit) :
    ∃ gone, Takes source edit gone := by
  obtain ⟨forward, begins, ends⟩ := fits
  obtain ⟨front, rest, rfl, size⟩ := isBoundary_iff.mp begins
  obtain ⟨upper, back, whole, reached⟩ := isBoundary_iff.mp ends
  obtain ⟨gone, rfl, rfl⟩ := exists_between whole (by omega)
  rw [byteSize_append] at reached
  exact ⟨gone, front, back, by simp, size, by omega⟩

/-- An edit that fits a text fits each front of it that reaches as far as the edit. -/
theorem Fits.front {front back : Text} {edit : Edit} (fits : Fits (front ++ back) edit)
    (reached : edit.stop ≤ byteSize front) : Fits front edit := by
  obtain ⟨forward, begins, ends⟩ := fits
  exact ⟨forward, isBoundary_front begins (Nat.le_trans forward reached),
    isBoundary_front ends reached⟩

/-- One edit passes the check when it fits the source and does not meet the one after it. -/
theorem check_eq_ok_iff {source : Text} {next : Option Nat} {edit : Edit} :
    check source next edit = .ok () ↔
      Fits source edit ∧
        ∀ offset, next = some offset → edit.stop ≤ offset ∧ edit.start < offset := by
  simp only [check, Fits, refuse_eq_ok]
  constructor
  · rintro ⟨inside, begins, ends, met⟩
    refine ⟨⟨by omega, by simpa using begins, by simpa using ends⟩, ?_⟩
    rintro offset rfl
    have clear := (refuse_eq_ok.mp met).1
    omega
  · rintro ⟨⟨forward, begins, ends⟩, clear⟩
    have inside := isBoundary_le ends
    refine ⟨by omega, by simp [begins], by simp [ends], ?_⟩
    cases next with
    | none => rfl
    | some offset =>
        have apart := clear offset rfl
        exact refuse_eq_ok.mpr ⟨by omega, rfl⟩

/-- The check of neighbours decides about all pairs. An edit that stops before its neighbour
    starts stops before everything that starts later, since no span runs backwards. -/
theorem checkAll_eq_ok_iff {source : Text} {next : Option Nat} {edits : List Edit} :
    checkAll source next edits = .ok () ↔
      (∀ edit ∈ edits, Fits source edit) ∧
        (edits.Pairwise fun later earlier => Precedes earlier later) ∧
        ∀ offset, next = some offset →
          ∀ edit ∈ edits, edit.stop ≤ offset ∧ edit.start < offset := by
  induction edits generalizing next with
  | nil => simp [checkAll]
  | cons edit edits inductionHypothesis =>
      have opened : checkAll source next (edit :: edits) = .ok () ↔
          check source next edit = .ok () ∧ checkAll source (some edit.start) edits = .ok () :=
        then_eq_ok
      rw [opened, check_eq_ok_iff, inductionHypothesis]
      constructor
      · rintro ⟨⟨fits, clear⟩, others, apart, below⟩
        refine ⟨?_, .cons (fun other member => ?_) apart, ?_⟩
        · intro other member
          rcases List.mem_cons.mp member with rfl | later
          · exact fits
          · exact others other later
        · have meets := below edit.start rfl other member
          exact ⟨meets.2, meets.1⟩
        · intro offset known other member
          rcases List.mem_cons.mp member with rfl | later
          · exact clear offset known
          · have meets := below edit.start rfl other later
            have reached := clear offset known
            have forward := fits.1
            omega
      · rintro ⟨fits, apart, clear⟩
        have first : ∀ other ∈ edits, Precedes other edit := fun other member =>
          List.rel_of_pairwise_cons apart member
        refine ⟨⟨fits edit List.mem_cons_self, fun offset known =>
          clear offset known edit List.mem_cons_self⟩,
          fun other member => fits other (List.mem_cons_of_mem edit member), apart.tail, ?_⟩
        rintro offset known other member
        cases known
        exact ⟨(first other member).2, (first other member).1⟩

/-- Edits that stop before another edit starts fit the front that the other leaves alone. -/
theorem fits_front {front gone after : Text} {edit : Edit} {edits : List Edit}
    (fits : ∀ other ∈ edit :: edits, Fits (front ++ gone ++ after) other)
    (apart : (edit :: edits).Pairwise fun later earlier => Precedes earlier later)
    (size : byteSize front = edit.start) : ∀ other ∈ edits, Fits front other := by
  intro other member
  have before := (List.rel_of_pairwise_cons apart member).2
  have whole := fits other (List.mem_cons_of_mem edit member)
  rw [List.append_assoc] at whole
  exact whole.front (by omega)

/-- Edits that fit a source and are given from its end to its start splice it, and making the
    changes one by one gives the splice, whatever stands behind the source.

    The induction is on the edits. The first change cuts the source at the start of its span,
    and all other edits fit the front of this cut. What the change leaves behind the cut is
    carried along untouched. -/
theorem foldl_apply {source : Text} {edits : List Edit} (fits : ∀ edit ∈ edits, Fits source edit)
    (apart : edits.Pairwise fun later earlier => Precedes earlier later) :
    ∃ result, Spliced 0 source edits.reverse result ∧
      ∀ behind, edits.foldl apply (source ++ behind) = result ++ behind := by
  induction edits generalizing source with
  | nil => exact ⟨source, .rest 0 source, fun _ => rfl⟩
  | cons edit edits inductionHypothesis =>
      obtain ⟨gone, front, after, rfl, size, ends⟩ := (fits edit List.mem_cons_self).exists_takes
      obtain ⟨result, spliced, made⟩ :=
        inductionHypothesis (fits_front fits apart size) apart.tail
      refine ⟨result ++ (edit.replacement ++ after), ?_, ?_⟩
      · have last : Spliced (0 + byteSize front) (gone ++ after) [edit]
            (edit.replacement ++ after) :=
          Spliced.cons_iff.mpr ⟨[], gone, after, after, by simp, by simp, by simp [size],
            by omega, .rest _ _⟩
        simpa using spliced.append last
      · intro behind
        have changed : apply (front ++ gone ++ after ++ behind) edit =
            front ++ (edit.replacement ++ after ++ behind) := by
          rw [apply, List.append_assoc _ after, replaceRange_append size ends]
          simp
        rw [List.foldl_cons, changed, made]
        simp

/-- Of two edits that do not meet, the one that does not start behind the other precedes it. -/
theorem Apart.precedes {first second : Edit} (apart : Apart first second)
    (order : first.start ≤ second.start) : Precedes first second := by
  rcases apart with ahead | behind
  · exact ahead
  · have starts := behind.1
    omega

/-- The walk from the end visits every edit of the batch. -/
theorem fromEnd_perm (edits : List Edit) : (fromEnd edits).Perm edits :=
  List.mergeSort_perm edits _

/-- The walk from the end visits edits that do not meet in decreasing order. By the sort no
    edit starts before a later one of the walk, and two that do not meet have different
    starts. -/
theorem fromEnd_pairwise {edits : List Edit} (apart : edits.Pairwise Apart) :
    (fromEnd edits).Pairwise fun later earlier => Precedes earlier later := by
  have sorted : (fromEnd edits).Pairwise fun first second =>
      decide (second.start ≤ first.start) = true :=
    List.pairwise_mergeSort (by simp only [decide_eq_true_eq]; omega) (by simp; omega) edits
  have visited : (fromEnd edits).Pairwise Apart :=
    apart.perm (fromEnd_perm edits).symm Apart.symm
  exact (sorted.and visited).imp fun both => both.2.symm.precedes (of_decide_eq_true both.1)

/-- Edits have only one increasing order. -/
theorem increasing_unique {first second : List Edit} (same : first.Perm second)
    (increasing : first.Pairwise Precedes) (again : second.Pairwise Precedes) :
    first = second := by
  refine List.Perm.eq_of_pairwise ?_ increasing again same
  intro edit other _ _ below above
  have lower := below.1
  have higher := above.1
  omega

/-- The walk from the end is the reverse of the increasing order. -/
theorem fromEnd_eq_reverse {edits ordered : List Edit} (same : ordered.Perm edits)
    (increasing : ordered.Pairwise Precedes) : fromEnd edits = ordered.reverse := by
  have apart : edits.Pairwise Apart := (increasing.imp Or.inl).perm same Apart.symm
  have walked : (fromEnd edits).reverse.Perm ordered :=
    (List.reverse_perm _).trans ((fromEnd_perm edits).trans same.symm)
  have order := increasing_unique walked (List.pairwise_reverse.mpr (fromEnd_pairwise apart))
    increasing
  rw [← order, List.reverse_reverse]

/-- A batch succeeds when its check passes, and its result is then the fold of the changes. -/
theorem applyAll_eq_ok {source result : Text} {edits : List Edit} :
    applyAll source edits = .ok result ↔
      checkAll source none (fromEnd edits) = .ok () ∧
        (fromEnd edits).foldl apply source = result := by
  simp only [applyAll, then_eq_ok, pure_eq_ok]

/-- Edits that are given in increasing order are visited in the reverse order. -/
theorem applyAll_of_increasing {source : Text} {edits : List Edit}
    (increasing : edits.Pairwise Precedes) : applyAll source edits = (do
      checkAll source none edits.reverse
      return edits.reverse.foldl apply source) := by
  rw [applyAll, fromEnd_eq_reverse (.refl _) increasing]

/-- Edits that are given from the end of the source to its start are visited as they are given. -/
theorem applyAll_of_decreasing {source : Text} {edits : List Edit}
    (decreasing : edits.Pairwise fun later earlier => earlier.start ≤ later.start) :
    applyAll source edits = (do
      checkAll source none edits
      return edits.foldl apply source) := by
  have visited : fromEnd edits = edits :=
    List.mergeSort_of_pairwise (decreasing.imp fun ordered => decide_eq_true ordered)
  rw [applyAll, visited]

/-- A batch of edits that fit the source and do not meet succeeds. Its result is the splice of
    its edits in increasing order. -/
theorem exists_applyAll {source : Text} {edits : List Edit}
    (fits : ∀ edit ∈ edits, Fits source edit) (apart : edits.Pairwise Apart) :
    ∃ ordered result, ordered.Perm edits ∧ ordered.Pairwise Precedes ∧
      Spliced 0 source ordered result ∧ applyAll source edits = .ok result := by
  have decreasing := fromEnd_pairwise apart
  have fitting : ∀ edit ∈ fromEnd edits, Fits source edit := fun edit member =>
    fits edit ((fromEnd_perm edits).mem_iff.mp member)
  obtain ⟨result, spliced, made⟩ := foldl_apply fitting decreasing
  refine ⟨(fromEnd edits).reverse, result, ?_, List.pairwise_reverse.mpr decreasing, spliced, ?_⟩
  · exact (List.reverse_perm _).trans (fromEnd_perm edits)
  · refine applyAll_eq_ok.mpr ⟨checkAll_eq_ok_iff.mpr ⟨fitting, decreasing, by simp⟩, ?_⟩
    simpa using made []

/-- A batch succeeds with a result exactly when its edits have a strictly increasing order in
    which the result is the splice of the source. -/
theorem applyAll_eq_ok_iff {source result : Text} {edits : List Edit} :
    applyAll source edits = .ok result ↔
      ∃ ordered, ordered.Perm edits ∧ ordered.Pairwise Precedes ∧
        Spliced 0 source ordered result := by
  constructor
  · intro succeeded
    obtain ⟨fits, decreasing, _⟩ := checkAll_eq_ok_iff.mp (applyAll_eq_ok.mp succeeded).1
    have apart : edits.Pairwise Apart :=
      (decreasing.imp Or.inr).perm (fromEnd_perm edits) Apart.symm
    have fitting : ∀ edit ∈ edits, Fits source edit := fun edit member =>
      fits edit ((fromEnd_perm edits).mem_iff.mpr member)
    obtain ⟨ordered, other, same, increasing, spliced, again⟩ := exists_applyAll fitting apart
    cases succeeded.symm.trans again
    exact ⟨ordered, same, increasing, spliced⟩
  · rintro ⟨ordered, same, increasing, spliced⟩
    have fits : ∀ edit ∈ edits, Fits source edit := by
      intro edit member
      simpa using spliced.fits [] [] rfl edit (same.mem_iff.mpr member)
    have apart : edits.Pairwise Apart := (increasing.imp Or.inl).perm same Apart.symm
    obtain ⟨other, result', also, order, splicedToo, succeeded⟩ := exists_applyAll fits apart
    have orders : ordered = other := List.reverse_inj.mp
      ((fromEnd_eq_reverse same increasing).symm.trans (fromEnd_eq_reverse also order))
    subst orders
    rw [spliced.unique splicedToo]
    exact succeeded

/-- The order of a batch does not matter for its result. -/
theorem applyAll_perm {source fixed : Text} {first second : List Edit} (same : first.Perm second)
    (applied : applyAll source first = .ok fixed) : applyAll source second = .ok fixed := by
  obtain ⟨ordered, sorted, increasing, spliced⟩ := applyAll_eq_ok_iff.mp applied
  exact applyAll_eq_ok_iff.mpr ⟨ordered, sorted.trans same, increasing, spliced⟩

/-- A batch succeeds exactly when each edit fits the source and no two meet. -/
theorem applyAll_isOk_iff {source : Text} {edits : List Edit} :
    (∃ result, applyAll source edits = .ok result) ↔
      (∀ edit ∈ edits, Fits source edit) ∧ edits.Pairwise Apart := by
  constructor
  · rintro ⟨result, succeeded⟩
    obtain ⟨ordered, same, increasing, spliced⟩ := applyAll_eq_ok_iff.mp succeeded
    refine ⟨fun edit member => ?_, (increasing.imp Or.inl).perm same Apart.symm⟩
    simpa using spliced.fits [] [] rfl edit (same.mem_iff.mpr member)
  · rintro ⟨fits, apart⟩
    obtain ⟨_, result, _, _, _, succeeded⟩ := exists_applyAll fits apart
    exact ⟨result, succeeded⟩

/-- The edits of an accepted batch are different from each other. -/
theorem nodup_of_applyAll {source fixed : Text} {edits : List Edit}
    (applied : applyAll source edits = .ok fixed) : edits.Nodup := by
  refine (applyAll_isOk_iff.mp ⟨fixed, applied⟩).2.imp ?_
  rintro first second apart rfl
  rcases apart with ahead | behind
  · exact Nat.lt_irrefl _ ahead.1
  · exact Nat.lt_irrefl _ behind.1

/-- An edit that fits the source can only be refused because it meets the one after it. -/
theorem check_error_of_fits {source : Text} {next : Option Nat} {edit : Edit} {error : EditError}
    (fits : Fits source edit) (refused : check source next edit = .error error) :
    error = .overlappingEdits edit.start := by
  obtain ⟨forward, begins, ends⟩ := fits
  have inside := isBoundary_le ends
  have bounded : ¬ (byteSize source < edit.stop ∨ edit.stop < edit.start) := by omega
  simp only [check, if_neg bounded, begins, ends, Bool.not_true, Bool.false_eq_true, if_false]
    at refused
  cases next with
  | none => cases refused
  | some offset =>
      dsimp only at refused
      split at refused
      · cases refused
        rfl
      · cases refused

/-- Edits that fit the source can only be refused because two of them meet. -/
theorem checkAll_error_of_fits {source : Text} {next : Option Nat} {edits : List Edit}
    {error : EditError} (fits : ∀ edit ∈ edits, Fits source edit)
    (refused : checkAll source next edits = .error error) :
    ∃ edit ∈ edits, error = .overlappingEdits edit.start := by
  induction edits generalizing next with
  | nil => cases refused
  | cons edit edits inductionHypothesis =>
      rw [checkAll] at refused
      cases checked : check source next edit with
      | error reason =>
          rw [checked] at refused
          cases refused
          exact ⟨edit, List.mem_cons_self, check_error_of_fits (fits edit List.mem_cons_self) checked⟩
      | ok =>
          rw [checked] at refused
          obtain ⟨other, member, named⟩ := inductionHypothesis
            (fun other member => fits other (List.mem_cons_of_mem edit member)) refused
          exact ⟨other, List.mem_cons_of_mem edit member, named⟩

/-- A batch of edits that fit the source can only be refused because two of them meet. -/
theorem applyAll_error_of_fits {source : Text} {edits : List Edit} {error : EditError}
    (fits : ∀ edit ∈ edits, Fits source edit) (refused : applyAll source edits = .error error) :
    ∃ edit ∈ edits, error = .overlappingEdits edit.start := by
  have same := fromEnd_perm edits
  have checked : checkAll source none (fromEnd edits) = .error error := by
    rw [applyAll] at refused
    cases walked : checkAll source none (fromEnd edits) with
    | error reason =>
        rw [walked] at refused
        cases refused
        rfl
    | ok =>
        rw [walked] at refused
        cases refused
  obtain ⟨edit, member, named⟩ := checkAll_error_of_fits
    (fun edit member => fits edit (same.mem_iff.mp member)) checked
  exact ⟨edit, same.mem_iff.mp member, named⟩

end TagWrap.Edit
