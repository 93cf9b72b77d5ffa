import TagWrap.Diff.Script

/-!
# Scripts lead from the old lines to the new ones

The steps of a script take the old lines to the new ones when they go through both texts in order:
a kept run names where it starts on either side, a deleted run where it starts in the old text, an
inserted run where it starts in the new text. What a deleted or an inserted run carries for the
other side is not looked at, since sliding changes does not keep it up to date.

The script of two texts leads from one to the other (`leads_script`), wherever the search cuts
them. A cut that leaves the lines of one side is no harm: what starts there has no lines on that
side.
-/
namespace TagWrap.Diff

/-- Steps that start at an old line and at a new line lead from some lines to others. -/
inductive Leads : Nat → Nat → List Step → List Text → List Text → Prop
  | done {oldAt newAt : Nat} : Leads oldAt newAt [] [] []
  | keep {oldAt newAt : Nat} {lines : List Text} {steps : List Step} {old new : List Text}
      (filled : lines ≠ [])
      (rest : Leads (oldAt + lines.length) (newAt + lines.length) steps old new) :
      Leads oldAt newAt (⟨.keep, oldAt, newAt, lines.length⟩ :: steps) (lines ++ old) (lines ++ new)
  | delete {oldAt newAt carried : Nat} {lines : List Text} {steps : List Step}
      {old new : List Text} (filled : lines ≠ [])
      (rest : Leads (oldAt + lines.length) newAt steps old new) :
      Leads oldAt newAt (⟨.delete, oldAt, carried, lines.length⟩ :: steps) (lines ++ old) new
  | insert {oldAt newAt carried : Nat} {lines : List Text} {steps : List Step}
      {old new : List Text} (filled : lines ≠ [])
      (rest : Leads oldAt (newAt + lines.length) steps old new) :
      Leads oldAt newAt (⟨.insert, carried, newAt, lines.length⟩ :: steps) old (lines ++ new)

namespace Leads

variable {oldAt newAt : Nat} {front steps : List Step} {old new : List Text}

/-- Steps go on where the steps before them stop. -/
theorem append {later : List Step} {oldLater newLater : List Text}
    (leads : Leads oldAt newAt front old new)
    (rest : Leads (oldAt + old.length) (newAt + new.length) later oldLater newLater) :
    Leads oldAt newAt (front ++ later) (old ++ oldLater) (new ++ newLater) := by
  induction leads with
  | done => simpa using rest
  | keep filled _ inductionHypothesis =>
      rw [List.append_assoc, List.append_assoc]
      refine .keep filled (inductionHypothesis ?_)
      simpa [Nat.add_assoc] using rest
  | delete filled _ inductionHypothesis =>
      rw [List.append_assoc]
      refine .delete filled (inductionHypothesis ?_)
      simpa [Nat.add_assoc] using rest
  | insert filled _ inductionHypothesis =>
      rw [List.append_assoc]
      refine .insert filled (inductionHypothesis ?_)
      simpa [Nat.add_assoc] using rest

/-- Steps in a row divide the lines between them. -/
theorem exists_append {later : List Step} (leads : Leads oldAt newAt (front ++ later) old new) :
    ∃ oldFront oldLater newFront newLater, old = oldFront ++ oldLater ∧
      new = newFront ++ newLater ∧ Leads oldAt newAt front oldFront newFront ∧
      Leads (oldAt + oldFront.length) (newAt + newFront.length) later oldLater newLater := by
  induction front generalizing oldAt newAt old new with
  | nil => exact ⟨[], old, [], new, rfl, rfl, .done, by simpa using leads⟩
  | cons step front inductionHypothesis =>
      rw [List.cons_append] at leads
      cases leads with
      | @keep _ _ lines _ _ _ filled rest =>
          obtain ⟨oldFront, oldLater, newFront, newLater, rfl, rfl, first, others⟩ :=
            inductionHypothesis rest
          refine ⟨lines ++ oldFront, oldLater, lines ++ newFront, newLater, ?_, ?_,
            .keep filled first, ?_⟩
          · rw [List.append_assoc]
          · rw [List.append_assoc]
          · simpa [Nat.add_assoc] using others
      | @delete _ _ _ lines _ _ _ filled rest =>
          obtain ⟨oldFront, oldLater, newFront, newLater, rfl, rfl, first, others⟩ :=
            inductionHypothesis rest
          refine ⟨lines ++ oldFront, oldLater, newFront, newLater, ?_, rfl,
            .delete filled first, ?_⟩
          · rw [List.append_assoc]
          · simpa [Nat.add_assoc] using others
      | @insert _ _ _ lines _ _ _ filled rest =>
          obtain ⟨oldFront, oldLater, newFront, newLater, rfl, rfl, first, others⟩ :=
            inductionHypothesis rest
          refine ⟨oldFront, oldLater, lines ++ newFront, newLater, rfl, ?_,
            .insert filled first, ?_⟩
          · rw [List.append_assoc]
          · simpa [Nat.add_assoc] using others

/-- Steps at the end of a script can be exchanged for others that lead from the same lines to the
    same lines. -/
theorem exchange {later other : List Step} (leads : Leads 0 0 (front ++ later) old new)
    (exchanged : ∀ oldFront oldLater newFront newLater, old = oldFront ++ oldLater →
      new = newFront ++ newLater →
      Leads oldFront.length newFront.length later oldLater newLater →
      Leads oldFront.length newFront.length other oldLater newLater) :
    Leads 0 0 (front ++ other) old new := by
  obtain ⟨oldFront, oldLater, newFront, newLater, rfl, rfl, first, rest⟩ := leads.exists_append
  refine first.append ?_
  rw [Nat.zero_add, Nat.zero_add] at rest ⊢
  exact exchanged oldFront oldLater newFront newLater rfl rfl rest

/-- Steps do not keep nothing. -/
theorem ofCount_keep {lines : List Text} {oldStart newStart : Nat}
    (placed : lines ≠ [] → oldStart = oldAt ∧ newStart = newAt) :
    Leads oldAt newAt (Step.ofCount .keep oldStart newStart lines.length) lines lines := by
  cases lines with
  | nil => exact .done
  | cons line lines =>
      obtain ⟨rfl, rfl⟩ := placed (List.cons_ne_nil line lines)
      have single := @keep oldStart newStart (line :: lines) [] [] [] (List.cons_ne_nil line lines) .done
      simpa [Step.ofCount] using single

/-- All lines can be replaced. -/
theorem replacing {oldStart newStart : Nat} (oldPlaced : old ≠ [] → oldStart = oldAt)
    (newPlaced : new ≠ [] → newStart = newAt) :
    Leads oldAt newAt (Diff.replacing oldStart newStart old new) old new := by
  have deleted : Leads oldAt newAt (Step.ofCount .delete oldStart newStart old.length) old [] := by
    cases old with
    | nil => exact .done
    | cons line lines =>
        obtain rfl := oldPlaced (List.cons_ne_nil line lines)
        have single := @delete oldStart newAt newStart (line :: lines) [] [] []
          (List.cons_ne_nil line lines) .done
        simpa [Step.ofCount] using single
  have inserted : Leads (oldAt + old.length) newAt
      (Step.ofCount .insert oldStart newStart new.length) [] new := by
    cases new with
    | nil => exact .done
    | cons line lines =>
        obtain rfl := newPlaced (List.cons_ne_nil line lines)
        have single := @insert (oldAt + old.length) newStart oldStart (line :: lines) [] [] []
          (List.cons_ne_nil line lines) .done
        simpa [Step.ofCount] using single
  simpa [Diff.replacing] using deleted.append inserted

end Leads

/-- Two lists share as many lines at their start as are counted. -/
theorem exists_sharedFront (first second : List Text) :
    ∃ shared firstRest secondRest, first = shared ++ firstRest ∧ second = shared ++ secondRest ∧
      shared.length = sharedFront first second := by
  induction first generalizing second with
  | nil => exact ⟨[], [], second, rfl, rfl, by simp [sharedFront]⟩
  | cons line lines inductionHypothesis =>
      cases second with
      | nil => exact ⟨[], line :: lines, [], rfl, rfl, by simp [sharedFront]⟩
      | cons other others =>
          rw [sharedFront]
          by_cases same : line = other
          · obtain ⟨shared, rest, otherRest, rfl, rfl, size⟩ := inductionHypothesis others
            subst same
            exact ⟨line :: shared, rest, otherRest, rfl, rfl, by simp [size]⟩
          · exact ⟨[], line :: lines, other :: others, rfl, rfl, by simp [same]⟩

/-- Two lists share as many lines at their end as are counted from there. -/
theorem exists_sharedBack (first second : List Text) :
    ∃ firstRest secondRest shared, first = firstRest ++ shared ∧ second = secondRest ++ shared ∧
      shared.length = sharedFront first.reverse second.reverse := by
  obtain ⟨shared, firstRest, secondRest, firstBack, secondBack, size⟩ :=
    exists_sharedFront first.reverse second.reverse
  refine ⟨firstRest.reverse, secondRest.reverse, shared.reverse, ?_, ?_, ?_⟩
  · rw [← List.reverse_append, ← firstBack, List.reverse_reverse]
  · rw [← List.reverse_append, ← secondBack, List.reverse_reverse]
  · rw [List.length_reverse, size]

/-- The lines behind a cut, if there are any, start where the lines before it stop. -/
theorem start_behind_cut {start reached cut : Nat} {lines : List Text}
    (placed : lines ≠ [] → start = reached) (filled : lines.drop cut ≠ []) :
    start + cut = reached + (lines.take cut).length := by
  have inside : cut < lines.length :=
    Nat.lt_of_not_le fun beyond => filled (List.drop_eq_nil_of_le beyond)
  rw [placed (List.ne_nil_of_length_pos (by omega)), List.length_take, Nat.min_eq_left (by omega)]

/-- The script of parts of two texts leads from one to the other. A part without lines may be said
    to start anywhere: so it does not matter where the parts between are cut in two. -/
theorem leads_scriptFrom {fuel oldStart newStart oldAt newAt : Nat} {old new : List Text}
    (oldPlaced : old ≠ [] → oldStart = oldAt) (newPlaced : new ≠ [] → newStart = newAt) :
    Leads oldAt newAt (scriptFrom fuel oldStart newStart old new) old new := by
  induction fuel generalizing oldStart newStart oldAt newAt old new with
  | zero => exact Leads.replacing oldPlaced newPlaced
  | succ fuel inductionHypothesis =>
      obtain ⟨front, oldRest, newRest, rfl, rfl, frontSize⟩ := exists_sharedFront old new
      obtain ⟨oldInner, newInner, back, rfl, rfl, backSize⟩ := exists_sharedBack oldRest newRest
      have oldInside : oldInner ≠ [] → oldStart + front.length = oldAt + front.length :=
        fun filled => by rw [oldPlaced (by simp [filled])]
      have newInside : newInner ≠ [] → newStart + front.length = newAt + front.length :=
        fun filled => by rw [newPlaced (by simp [filled])]
      simp only [scriptFrom, ← frontSize, List.drop_left, ← backSize, List.length_append,
        Nat.add_sub_cancel, List.take_left]
      rw [← List.append_assoc front oldInner, ← List.append_assoc front newInner]
      refine Leads.append (Leads.append (Leads.ofCount_keep fun filled => ?front) ?inner)
        (Leads.ofCount_keep fun filled => ?back)
      case front => exact ⟨oldPlaced (by simp [filled]), newPlaced (by simp [filled])⟩
      case inner =>
        by_cases empty : (oldInner.isEmpty || newInner.isEmpty) = true
        · rw [if_pos empty]
          exact Leads.replacing oldInside newInside
        · rw [if_neg empty]
          cases middle? oldInner newInner with
          | none => exact Leads.replacing oldInside newInside
          | some cuts =>
              obtain ⟨oldCut, newCut⟩ := cuts
              have oldUpper : oldInner.take oldCut ≠ [] →
                  oldStart + front.length = oldAt + front.length :=
                fun filled => oldInside fun none => filled (by simp [none])
              have newUpper : newInner.take newCut ≠ [] →
                  newStart + front.length = newAt + front.length :=
                fun filled => newInside fun none => filled (by simp [none])
              have upper := inductionHypothesis oldUpper newUpper
              have lower := inductionHypothesis (@start_behind_cut _ _ oldCut _ oldInside)
                (@start_behind_cut _ _ newCut _ newInside)
              simpa using upper.append lower
      case back =>
        have oldAlong := oldPlaced (by simp [filled])
        have newAlong := newPlaced (by simp [filled])
        simp only [List.length_append]
        omega

/-- The script of two texts leads from one to the other. -/
theorem leads_script (old new : List Text) : Leads 0 0 (script old new) old new :=
  leads_scriptFrom (fun _ => rfl) (fun _ => rfl)

end TagWrap.Diff
