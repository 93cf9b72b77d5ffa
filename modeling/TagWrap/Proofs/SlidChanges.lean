import TagWrap.Diff.Slide
import TagWrap.Proofs.LineScript

/-!
# Sliding changes leads to the same lines

A slide takes kept lines from one side of an insertion and puts them back on its other side. They
are the same lines there, since the insertion ends with the lines that it slides over, or starts
with them. Changes that meet join or change places, and neither looks at what they carry for the
other side. So a script with its changes slid still leads from the old lines to the new ones
(`leads_slide`).
-/
namespace TagWrap.Diff


/-- The script that is held open at a step. -/
def Opened.steps (opened : Opened) : List Step :=
  opened.before.reverse ++ opened.step :: opened.after

/-- A step without lines is left out of the steps in reverse, too. -/
theorem reverse_consUnlessEmpty (step : Step) (others : List Step) :
    (consUnlessEmpty step others).reverse = others.reverse ++ consUnlessEmpty step [] := by
  by_cases empty : step.count = 0
  · simp [consUnlessEmpty, empty]
  · simp [consUnlessEmpty, empty]

namespace Leads

variable {oldAt newAt : Nat} {steps : List Step} {old new lines : List Text}

/-- Kept lines in front of steps, if there are any. -/
theorem consUnlessEmpty (rest : Leads (oldAt + lines.length) (newAt + lines.length) steps old new) :
    Leads oldAt newAt (Diff.consUnlessEmpty ⟨.keep, oldAt, newAt, lines.length⟩ steps)
      (lines ++ old) (lines ++ new) := by
  cases lines with
  | nil => exact rest
  | cons line lines => exact .keep (List.cons_ne_nil line lines) rest

/-- Kept lines in front of steps, joined with those that are kept there. -/
theorem keepAfter (filled : lines ≠ [])
    (rest : Leads (oldAt + lines.length) (newAt + lines.length) steps old new) :
    Leads oldAt newAt (Diff.keepAfter oldAt newAt lines.length steps) (lines ++ old)
      (lines ++ new) := by
  cases rest with
  | done => exact .keep filled .done
  | @keep _ _ more _ _ _ _ rest =>
      have joined := @keep oldAt newAt (lines ++ more) _ _ _ (by simp [filled])
        (by simpa [Nat.add_assoc] using rest)
      simpa [Diff.keepAfter, Step.up, Step.extend, Nat.add_comm] using joined
  | delete deleted rest => exact .keep filled (.delete deleted rest)
  | insert inserted rest => exact .keep filled (.insert inserted rest)

/-- Kept lines behind steps, joined with those that are kept there. -/
theorem keepBefore {before : List Step} (filled : lines ≠ [])
    (leads : Leads 0 0 before.reverse old new) :
    Leads 0 0 (Diff.keepBefore old.length new.length lines.length before).reverse (old ++ lines)
      (new ++ lines) := by
  have kept : Leads (0 + old.length) (0 + new.length) [⟨.keep, old.length, new.length, lines.length⟩]
      lines lines := by
    simpa using @keep old.length new.length lines [] [] [] filled .done
  cases before with
  | nil => exact leads.append kept
  | cons next others =>
      rw [Diff.keepBefore]
      by_cases keeps : next.action = .keep
      · rw [if_pos keeps]
        rw [List.reverse_cons] at leads
        obtain ⟨oldFront, oldLater, newFront, newLater, rfl, rfl, first, last⟩ :=
          leads.exists_append
        cases last with
        | @keep _ _ more _ _ _ _ last =>
            cases last
            have joined := first.append (@keep _ _ (more ++ lines) [] [] [] (by simp [filled]) .done)
            simpa [Step.extend] using joined
        | delete => cases keeps
        | insert => cases keeps
      · rw [if_neg keeps]
        have behind := leads.append kept
        simpa using behind

end Leads

namespace Leads

variable {oldAt newAt : Nat} {first second : Step} {after : List Step} {old new : List Text}

/-- Two changes of one kind in a row are one. -/
theorem join (leads : Leads oldAt newAt (first :: second :: after) old new)
    (changes : second.action ≠ .keep) (same : first.action = second.action) :
    Leads oldAt newAt (first.extend second.count :: after) old new := by
  cases leads with
  | keep => exact absurd same.symm changes
  | @delete _ _ _ lines _ _ _ filled rest =>
      cases rest with
      | keep => cases same
      | insert => cases same
      | @delete _ _ _ more _ _ _ _ rest =>
          rw [Nat.add_assoc, ← List.length_append] at rest
          rw [← List.append_assoc]
          simp only [Step.extend, ← List.length_append]
          exact .delete (by simp [filled]) rest
  | @insert _ _ _ lines _ _ _ filled rest =>
      cases rest with
      | keep => cases same
      | delete => cases same
      | @insert _ _ _ more _ _ _ _ rest =>
          rw [Nat.add_assoc, ← List.length_append] at rest
          rw [← List.append_assoc]
          simp only [Step.extend, ← List.length_append]
          exact .insert (by simp [filled]) rest

/-- A deletion and an insertion in a row can change places, whatever they carry. -/
theorem swap (leads : Leads oldAt newAt (first :: second :: after) old new)
    (firstChanges : first.action ≠ .keep) (secondChanges : second.action ≠ .keep)
    (different : first.action ≠ second.action) :
    Leads oldAt newAt (second :: first :: after) old new := by
  cases leads with
  | keep => exact absurd rfl firstChanges
  | delete deleted rest =>
      cases rest with
      | keep => exact absurd rfl secondChanges
      | delete => exact absurd rfl different
      | insert inserted rest => exact .insert inserted (.delete deleted rest)
  | insert inserted rest =>
      cases rest with
      | keep => exact absurd rfl secondChanges
      | insert => exact absurd rfl different
      | delete deleted rest => exact .delete deleted (.insert inserted rest)

end Leads

/-- Nothing is shared with a deleted run, which has no new lines. -/
theorem insert_of_shared {lines new : List Text} {step : Step} (changes : step.action ≠ .keep)
    (shares : 0 < sharedFront lines (step.newLines new) ∨
      0 < sharedFront lines (step.newLines new).reverse) : step.action = .insert := by
  cases acts : step.action with
  | keep => exact absurd acts changes
  | insert => rfl
  | delete => simp [Step.newLines, acts, sharedFront] at shares

namespace Leads

variable {oldAt newAt oldNext newNext : Nat} {after : List Step}
  {kept added shared old new : List Text}

/-- Kept lines that are the last ones inserted behind them, too, can be kept behind the insertion
    instead, which then starts with them. -/
theorem keep_behind (carried : Nat) (filled : shared ≠ []) (oldNext_eq : oldNext = oldAt + kept.length)
    (newNext_eq : newNext = newAt + kept.length)
    (rest : Leads (oldNext + shared.length) (newNext + shared.length + (added ++ shared).length)
      after old new) :
    Leads oldAt newAt (Diff.consUnlessEmpty ⟨.keep, oldAt, newAt, kept.length⟩ [] ++
        ⟨.insert, carried, newNext, (added ++ shared).length⟩ ::
          Diff.keepAfter oldNext (newNext + (added ++ shared).length) shared.length after)
      (kept ++ shared ++ old) (kept ++ shared ++ (added ++ shared ++ new)) := by
  subst oldNext_eq newNext_eq
  have turned : (added ++ shared).length = (shared ++ added).length := by simp [Nat.add_comm]
  rw [Nat.add_right_comm _ shared.length, turned] at rest
  rw [turned]
  have inserted := @insert (oldAt + kept.length) (newAt + kept.length) carried (shared ++ added)
    _ _ _ (by simp [filled]) (keepAfter filled rest)
  have shortened := @Leads.consUnlessEmpty oldAt newAt [] [] [] kept .done
  rw [List.append_nil] at shortened
  simpa using shortened.append inserted

/-- Kept lines that are the first ones inserted before them, too, can be kept before the insertion
    instead, which then ends with them. -/
theorem keep_before (carried : Nat) (filled : shared ≠ [])
    (rest : Leads (oldAt + (shared ++ kept).length)
      (newAt + (shared ++ added).length + (shared ++ kept).length) after old new) :
    Leads (oldAt + shared.length) (newAt + shared.length)
      (⟨.insert, carried, newAt + shared.length, (shared ++ added).length⟩ ::
        Diff.consUnlessEmpty
          ⟨.keep, oldAt + shared.length, newAt + (shared ++ added).length + shared.length,
            kept.length⟩ after)
      (kept ++ old) (added ++ (shared ++ kept ++ new)) := by
  have turned : (shared ++ added).length = (added ++ shared).length := by simp [Nat.add_comm]
  rw [turned, List.length_append, ← Nat.add_assoc, ← Nat.add_assoc] at rest
  rw [turned]
  have place : newAt + (added ++ shared).length + shared.length =
    newAt + shared.length + (added ++ shared).length := Nat.add_right_comm _ _ _
  rw [place] at rest ⊢
  have inserted := @insert (oldAt + shared.length) (newAt + shared.length) carried (added ++ shared)
    _ _ _ (by simp [filled]) (consUnlessEmpty rest)
  simpa using inserted

/-- An insertion is raised over the kept lines before it that are its last lines, too. -/
theorem raise {oldFront newFront : List Text} {previous step : Step}
    (leads : Leads oldFront.length newFront.length (previous :: step :: after) old new)
    (keeps : previous.action = .keep) (changes : step.action ≠ .keep)
    (shares : 0 < sharedFront (previous.oldLines (oldFront ++ old)).reverse
      (step.newLines (newFront ++ new)).reverse) :
    let count := sharedFront (previous.oldLines (oldFront ++ old)).reverse
      (step.newLines (newFront ++ new)).reverse
    Leads oldFront.length newFront.length
      (Diff.consUnlessEmpty (previous.shorten count) [] ++ step.up count ::
        Diff.keepAfter (previous.old + previous.count - count) (step.new + step.count - count)
          count after) old new := by
  cases leads with
  | delete => cases keeps
  | insert => cases keeps
  | @keep _ _ kept _ oldRest newRest _ rest =>
      cases rest with
      | keep => exact absurd rfl changes
      | delete => cases insert_of_shared changes (.inr shares)
      | @insert _ _ carried added _ _ newLast _ rest =>
          have keptLines : Step.oldLines ⟨.keep, oldFront.length, newFront.length, kept.length⟩
              (oldFront ++ (kept ++ oldRest)) = kept := by simp [Step.oldLines]
          have addedLines : Step.newLines ⟨.insert, carried, newFront.length + kept.length,
              added.length⟩ (newFront ++ (kept ++ (added ++ newLast))) = added := by
            simp [Step.newLines]
          rw [keptLines, addedLines] at shares ⊢
          obtain ⟨keptRest, addedRest, shared, rfl, rfl, size⟩ := exists_sharedBack kept added
          rw [← size] at shares ⊢
          rw [List.length_append, ← Nat.add_assoc, ← Nat.add_assoc] at rest
          have moved := keep_behind (carried - shared.length) (List.ne_nil_of_length_pos shares)
            rfl rfl rest
          have stop : newFront.length + (keptRest ++ shared).length +
              (addedRest ++ shared).length - shared.length =
                newFront.length + keptRest.length + (addedRest ++ shared).length := by
            rw [List.length_append]
            omega
          simp only [Step.shorten, Step.up, stop]
          simpa [← Nat.add_assoc] using moved

/-- An insertion is lowered over the kept lines behind it that are its first lines, too. -/
theorem lower {oldFront newFront : List Text} {before : List Step} {step next : Step}
    (leads : Leads oldFront.length newFront.length (step :: next :: after) old new)
    (front : Leads 0 0 before.reverse oldFront newFront) (keeps : next.action = .keep)
    (changes : step.action ≠ .keep)
    (shares : 0 < sharedFront (next.oldLines (oldFront ++ old)) (step.newLines (newFront ++ new))) :
    let count := sharedFront (next.oldLines (oldFront ++ old)) (step.newLines (newFront ++ new))
    Leads 0 0 (Opened.steps ⟨Diff.keepBefore next.old step.new count before, step.down count,
      Diff.consUnlessEmpty ((next.down count).shorten count) after⟩) (oldFront ++ old)
        (newFront ++ new) := by
  cases leads with
  | keep => exact absurd rfl changes
  | delete => cases insert_of_shared changes (.inl shares)
  | @insert _ _ carried added _ _ _ _ rest =>
      cases rest with
      | delete => cases keeps
      | insert => cases keeps
      | @keep _ _ kept _ oldRest newRest _ rest =>
          have keptLines : Step.oldLines ⟨.keep, oldFront.length, newFront.length + added.length,
              kept.length⟩ (oldFront ++ (kept ++ oldRest)) = kept := by simp [Step.oldLines]
          have addedLines : Step.newLines ⟨.insert, carried, newFront.length, added.length⟩
              (newFront ++ (added ++ (kept ++ newRest))) = added := by simp [Step.newLines]
          rw [keptLines, addedLines] at shares ⊢
          obtain ⟨shared, keptRest, addedRest, rfl, rfl, size⟩ := exists_sharedFront kept added
          rw [← size] at shares ⊢
          have filled := List.ne_nil_of_length_pos shares
          have moved := keep_before (carried + shared.length) filled (by simpa using rest)
          have reached := (keepBefore filled front).append (by simpa using moved)
          simpa [Opened.steps, Step.down, Step.shorten] using reached

end Leads

/-- Sliding a change up keeps what a script leads to. -/
theorem leads_slideUp {old new : List Text} {fuel : Nat} {opened : Opened}
    (changes : opened.step.action ≠ .keep) (leads : Leads 0 0 opened.steps old new) :
    Leads 0 0 (slideUp old new fuel opened).steps old new := by
  induction fuel generalizing opened with
  | zero => exact leads
  | succ fuel inductionHypothesis =>
      obtain ⟨before, step, after⟩ := opened
      cases before with
      | nil => exact leads
      | cons previous before =>
          simp only [Opened.steps, List.reverse_cons, List.append_assoc, List.singleton_append]
            at leads
          rw [slideUp]
          by_cases keeps : previous.action = .keep
          · rw [if_pos keeps]
            by_cases shares : 0 < sharedFront (previous.oldLines old).reverse
              (step.newLines new).reverse
            · dsimp only
              rw [if_pos shares]
              apply inductionHypothesis
              · exact changes
              · simp only [Opened.steps, reverse_consUnlessEmpty, List.append_assoc]
                apply leads.exchange
                intro oldFront _ newFront _ oldWhole newWhole here
                rw [oldWhole, newWhole] at shares ⊢
                exact here.raise keeps changes shares
            · dsimp only
              rw [if_neg shares]
              simpa [Opened.steps] using leads
          · rw [if_neg keeps]
            by_cases joins : previous.action = step.action
            · rw [if_pos joins]
              have joined : Leads 0 0 (Opened.steps ⟨before, previous.extend step.count, after⟩)
                  old new :=
                leads.exchange fun _ _ _ _ _ _ here => here.join changes joins
              exact inductionHypothesis keeps joined
            · rw [if_neg joins]
              have swapped : Leads 0 0 (Opened.steps ⟨before, step, previous :: after⟩) old new :=
                leads.exchange fun _ _ _ _ _ _ here => here.swap keeps changes joins
              exact inductionHypothesis changes swapped

/-- Sliding a change down keeps what a script leads to. -/
theorem leads_slideDown {old new : List Text} {fuel : Nat} {opened : Opened}
    (changes : opened.step.action ≠ .keep) (leads : Leads 0 0 opened.steps old new) :
    Leads 0 0 (slideDown old new fuel opened).steps old new := by
  induction fuel generalizing opened with
  | zero => exact leads
  | succ fuel inductionHypothesis =>
      obtain ⟨before, step, after⟩ := opened
      cases after with
      | nil => exact leads
      | cons next after =>
          simp only [Opened.steps] at leads
          rw [slideDown]
          by_cases keeps : next.action = .keep
          · rw [if_pos keeps]
            by_cases shares : 0 < sharedFront (next.oldLines old) (step.newLines new)
            · dsimp only
              rw [if_pos shares]
              apply inductionHypothesis
              · exact changes
              · obtain ⟨oldFront, _, newFront, _, oldWhole, newWhole, first, here⟩ :=
                  leads.exists_append
                rw [Nat.zero_add, Nat.zero_add] at here
                rw [oldWhole, newWhole] at shares ⊢
                exact here.lower first keeps changes shares
            · dsimp only
              rw [if_neg shares]
              exact leads
          · rw [if_neg keeps]
            by_cases joins : next.action = step.action
            · rw [if_pos joins]
              have joined : Leads 0 0 (Opened.steps ⟨before, step.extend next.count, after⟩)
                  old new :=
                leads.exchange fun _ _ _ _ _ _ here => here.join (by rwa [joins]) joins.symm
              exact inductionHypothesis changes joined
            · rw [if_neg joins]
              have swapped : Leads 0 0 (before.reverse ++ next :: step :: after) old new :=
                leads.exchange fun _ _ _ _ _ _ here => here.swap changes keeps (Ne.symm joins)
              exact inductionHypothesis changes (by simpa [Opened.steps] using swapped)

/-- A slid step still makes the same change. -/
theorem action_slideUp {old new : List Text} {fuel : Nat} {opened : Opened} :
    (slideUp old new fuel opened).step.action = opened.step.action := by
  fun_induction slideUp old new fuel opened with
  | case1 => rfl
  | case2 => rfl
  | case3 => simp_all [Step.up]
  | case4 => rfl
  | case5 => simp_all [Step.extend]
  | case6 => assumption

/-- Sliding each change of a kind keeps what a script leads to. -/
theorem leads_slideEach {old new : List Text} {size fuel : Nat} {action : Action}
    {before steps : List Step} (changes : action ≠ .keep)
    (leads : Leads 0 0 (before.reverse ++ steps) old new) :
    Leads 0 0 (slideEach old new size action fuel before steps) old new := by
  induction fuel generalizing before steps with
  | zero => exact leads
  | succ fuel inductionHypothesis =>
      cases steps with
      | nil => simpa [slideEach] using leads
      | cons step after =>
          rw [slideEach]
          by_cases acts : step.action = action
          · rw [if_pos acts]
            apply inductionHypothesis
            have raised : Leads 0 0 (slideUp old new size ⟨before, step, after⟩).steps old new :=
              leads_slideUp (by rwa [acts]) leads
            have slid : Leads 0 0
                (slideDown old new size (slideUp old new size ⟨before, step, after⟩)).steps old new :=
              leads_slideDown (by rwa [action_slideUp, acts]) raised
            simpa [Opened.steps] using slid
          · rw [if_neg acts]
            exact inductionHypothesis (by simpa using leads)

/-- A script with its changes slid leads from the same lines to the same lines. -/
theorem leads_slide {old new : List Text} {steps : List Step} (leads : Leads 0 0 steps old new) :
    Leads 0 0 (slide old new steps) old new := by
  have deletions : Leads 0 0 ([].reverse ++
      slideEach old new (extent steps) .delete (extent steps) [] steps) old new :=
    leads_slideEach (by decide) leads
  exact leads_slideEach (by decide) deletions

end TagWrap.Diff
