import TagWrap.Proofs.ReportedFixes

/-!
# The order of the reports

Paths are in a total order: any two can be compared, and what comes before a path comes before all
that follows it. A run reports its results in this order, and results of equal paths in the order
in which the dumps were found. So the results that are left when some are dropped are reported as
if the others had never been there.
-/
namespace TagWrap

namespace Path

/-- Texts are compared character by character. -/
theorem compareText_eq : compareText = List.compareLex (compareOn Char.toNat) := by
  funext first second
  induction first generalizing second with
  | nil => cases second <;> rfl
  | cons char rest inductionHypothesis =>
      cases second with
      | nil => rfl
      | cons char' rest' =>
          rw [compareText, inductionHypothesis, List.compareLex_cons_cons]
          rfl

/-- Lists of components are compared component by component. -/
theorem compareComponents_eq : compareComponents = List.compareLex Component.compare := by
  funext first second
  induction first generalizing second with
  | nil => cases second <;> rfl
  | cons component rest inductionHypothesis =>
      cases second with
      | nil => rfl
      | cons component' rest' =>
          rw [compareComponents, inductionHypothesis, List.compareLex_cons_cons]

instance : Std.TransCmp compareText := by
  rw [compareText_eq]
  infer_instance

instance : Std.OrientedCmp Component.compare where
  eq_swap {first second} := by
    cases first <;> cases second
    case name.name text text' =>
        have swap : compareText text text' = (compareText text' text).swap :=
          Std.OrientedCmp.eq_swap
        exact swap
    all_goals rfl

instance : Std.TransCmp Component.compare where
  isLE_trans {first second third} before after := by
    cases first <;> cases second <;> cases third
    case name.name.name text text' text'' =>
        have chained : (compareText text text'').isLE = true :=
          Std.TransCmp.isLE_trans (show (compareText text text').isLE = true from before) after
        exact chained
    -- In all other cases the kinds decide, and there are only four of them.
    all_goals first | rfl | contradiction

instance : Std.TransCmp compareComponents := by
  rw [compareComponents_eq]
  infer_instance

instance : Std.TransCmp compare where
  eq_swap {first second} := by
    have swap : compareComponents first.components second.components =
        (compareComponents second.components first.components).swap := Std.OrientedCmp.eq_swap
    exact swap
  isLE_trans {first second third} before after := by
    have chained : (compareComponents first.components third.components).isLE = true :=
      Std.TransCmp.isLE_trans
        (show (compareComponents first.components second.components).isLE = true from before) after
    exact chained

/-- What comes before a path comes before all that follows it. -/
theorem compare_trans {first second third : Path} (before : (first.compare second != .gt) = true)
    (after : (second.compare third != .gt) = true) : (first.compare third != .gt) = true := by
  simp only [bne_iff_ne, ← Ordering.isLE_iff_ne_gt] at before after ⊢
  exact Std.TransCmp.isLE_trans before after

/-- Of two paths one comes before the other, or they are level. -/
theorem compare_total (first second : Path) :
    ((first.compare second != .gt) || (second.compare first != .gt)) = true := by
  have swap : first.compare second = (second.compare first).swap := Std.OrientedCmp.eq_swap
  rw [swap]
  cases second.compare first <;> rfl

end Path

/-- A list is cut in one way only into values that pass a test and values that fail it. -/
theorem parted_unique {α : Type} {test : α → Bool} {front back front' back' : List α}
    (same : front ++ back = front' ++ back') (passed : ∀ value ∈ front, test value = true)
    (failed : ∀ value ∈ back, ¬ test value = true) (passed' : ∀ value ∈ front', test value = true)
    (failed' : ∀ value ∈ back', ¬ test value = true) : front = front' ∧ back = back' := by
  have fronts : front = front' := by
    calc front = (front ++ back).filter test := by
            rw [List.filter_append, List.filter_eq_self.mpr passed, List.filter_eq_nil_iff.mpr failed,
              List.append_nil]
      _ = (front' ++ back').filter test := by rw [same]
      _ = front' := by
            rw [List.filter_append, List.filter_eq_self.mpr passed',
              List.filter_eq_nil_iff.mpr failed', List.append_nil]
  exact ⟨fronts, List.append_cancel_left (fronts ▸ same)⟩

section Sorting

variable {α : Type} {le : α → α → Bool}

/-- The values behind a value in a sorted list are not less. -/
theorem le_of_behind {front back : List α} {value other : α}
    (ordered : (front ++ value :: back).Pairwise fun first second => le first second = true)
    (behind : other ∈ back) : le value other = true := by
  have tail := (List.pairwise_append.mp ordered).2.1
  exact (List.pairwise_cons.mp tail).1 other behind

/-- To sort and then to drop values is to drop them and then to sort.

    The induction is on the list. A sort puts its first value between those that are less and all
    others, and of a sorted list there is one cut into such parts. -/
theorem filter_mergeSort
    (trans : ∀ first second third, le first second = true → le second third = true →
      le first third = true)
    (total : ∀ first second, (le first second || le second first) = true) (keep : α → Bool)
    (values : List α) : (values.mergeSort le).filter keep = (values.filter keep).mergeSort le := by
  induction values with
  | nil => simp
  | cons value values inductionHypothesis =>
      obtain ⟨less, others, sorted, parts, isLess⟩ := List.mergeSort_cons trans total value values
      rw [parts, List.filter_append] at inductionHypothesis
      rw [sorted, List.filter_append]
      by_cases kept : keep value = true
      · obtain ⟨less', others', sorted', parts', isLess'⟩ :=
          List.mergeSort_cons trans total value (values.filter keep)
        have ordered := sorted ▸ List.pairwise_mergeSort trans total (value :: values)
        have ordered' := sorted' ▸ List.pairwise_mergeSort trans total (value :: values.filter keep)
        obtain ⟨fronts, backs⟩ : less.filter keep = less' ∧ others.filter keep = others' := by
          apply parted_unique (inductionHypothesis.trans parts')
          · intro other member
            exact isLess other (List.mem_of_mem_filter member)
          · intro other member
            simp [le_of_behind ordered (List.mem_of_mem_filter member)]
          · exact isLess'
          · intro other member
            simp [le_of_behind ordered' member]
        rw [List.filter_cons_of_pos kept, List.filter_cons_of_pos kept, sorted', fronts, backs]
      · rw [List.filter_cons_of_neg kept, List.filter_cons_of_neg kept]
        exact inductionHypothesis

end Sorting

namespace Run

/-- To drop the results of some dumps is not to inspect these dumps in the first place. -/
theorem filter_inspectAll (tree : FileTree) (working : Location) (setup : Setup)
    (keep : Path → Bool) (paths : List Path) :
    (inspectAll tree working setup paths).filter (fun result => keep result.dump) =
      inspectAll tree working setup (paths.filter keep) := by
  have listed : ((paths.map (inspect tree working setup)).filter fun result => keep result.dump) =
      (paths.filter keep).map (inspect tree working setup) := List.filter_map
  rw [inspectAll, filter_mergeSort, listed, inspectAll]
  · intro first second third
    exact Path.compare_trans
  · intro first second
    exact Path.compare_total first.dump second.dump

end Run

end TagWrap
