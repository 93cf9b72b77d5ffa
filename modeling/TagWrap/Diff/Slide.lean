import TagWrap.Diff.Script

/-!
# Sliding changes

A shortest script is not unique: a run of inserted lines that begins like the kept lines
behind it can as well begin later. Inserted runs slide up as far as they can, so as to
join others, and then down as far as they can. Deleted runs only change places with
inserted runs next to them. Steps that change places keep the indexes they carry on the
other side.

A script is held open at one of its steps, with the steps before it in reverse.
-/
namespace TagWrap.Diff

/-- A script that is held open at one of its steps. -/
structure Opened where
  /-- The steps before, the nearest first. -/
  before : List Step
  step : Step
  after : List Step
deriving Repr

namespace Step

/-- The old lines of a step. -/
def oldLines (step : Step) (old : List Text) : List Text :=
  if step.action = .insert then [] else (old.drop step.old).take step.count

/-- The new lines of a step. -/
def newLines (step : Step) (new : List Text) : List Text :=
  if step.action = .delete then [] else (new.drop step.new).take step.count

/-- A step that starts so many lines earlier. -/
def up (step : Step) (count : Nat) : Step :=
  { step with old := step.old - count, new := step.new - count }

/-- A step that starts so many lines later. -/
def down (step : Step) (count : Nat) : Step :=
  { step with old := step.old + count, new := step.new + count }

/-- A step with so many lines more at its end. -/
def extend (step : Step) (count : Nat) : Step := { step with count := step.count + count }

/-- A step with so many lines less at its end. -/
def shorten (step : Step) (count : Nat) : Step := { step with count := step.count - count }

end Step

/-- Put kept lines in front of the steps behind an opened one. They join lines that are
    kept there already. -/
def keepAfter (old new count : Nat) : List Step → List Step
  | next :: others =>
      if next.action = .keep then (next.up count).extend count :: others
      else ⟨.keep, old, new, count⟩ :: next :: others
  | [] => [⟨.keep, old, new, count⟩]

/-- Put kept lines behind the steps before an opened one. They join lines that are kept
    there already. -/
def keepBefore (old new count : Nat) : List Step → List Step
  | next :: others =>
      if next.action = .keep then next.extend count :: others
      else ⟨.keep, old, new, count⟩ :: next :: others
  | [] => [⟨.keep, old, new, count⟩]

/-- A step in front of others, unless it has no lines. -/
def consUnlessEmpty (step : Step) (others : List Step) : List Step :=
  if step.count = 0 then others else step :: others

/-- Slide the opened step up as far as it can. Each slide makes the steps before it
    smaller, by a step or by a line, so their number bounds the slides. -/
def slideUp (old new : List Text) : Nat → Opened → Opened
  | 0, opened => opened
  | _ + 1, ⟨[], step, after⟩ => ⟨[], step, after⟩
  | fuel + 1, ⟨previous :: before, step, after⟩ =>
      if previous.action = .keep then
        let shared := sharedFront (previous.oldLines old).reverse (step.newLines new).reverse
        if 0 < shared then
          slideUp old new fuel
            ⟨consUnlessEmpty (previous.shorten shared) before, step.up shared,
              keepAfter (previous.old + previous.count - shared) (step.new + step.count - shared)
                shared after⟩
        else ⟨previous :: before, step, after⟩
      else if previous.action = step.action then
        slideUp old new fuel ⟨before, previous.extend step.count, after⟩
      else slideUp old new fuel ⟨before, step, previous :: after⟩

/-- Slide the opened step down as far as it can. Each slide makes the steps behind it
    smaller, by a step or by a line, so their number bounds the slides. -/
def slideDown (old new : List Text) : Nat → Opened → Opened
  | 0, opened => opened
  | _ + 1, ⟨before, step, []⟩ => ⟨before, step, []⟩
  | fuel + 1, ⟨before, step, next :: after⟩ =>
      if next.action = .keep then
        let shared := sharedFront (next.oldLines old) (step.newLines new)
        if 0 < shared then
          slideDown old new fuel
            ⟨keepBefore next.old step.new shared before, step.down shared,
              consUnlessEmpty ((next.down shared).shorten shared) after⟩
        else ⟨before, step, next :: after⟩
      else if next.action = step.action then
        slideDown old new fuel ⟨before, step.extend next.count, after⟩
      else slideDown old new fuel ⟨next :: before, step, after⟩

/-- Slide every step with an action, from the first to the last, where `before` holds the
    steps that are dealt with in reverse. Sliding up can bring steps back before the
    place reached, so the number of slides is bounded by the size of the script. -/
def slideEach (old new : List Text) (size : Nat) (action : Action) :
    Nat → List Step → List Step → List Step
  | 0, before, steps => before.reverse ++ steps
  | _ + 1, before, [] => before.reverse
  | fuel + 1, before, step :: after =>
      if step.action = action then
        let opened := slideDown old new size (slideUp old new size ⟨before, step, after⟩)
        slideEach old new size action fuel (opened.step :: opened.before) opened.after
      else slideEach old new size action fuel (step :: before) after

/-- The number of steps of a script and of the lines that they touch. -/
def extent (steps : List Step) : Nat :=
  steps.foldl (fun size step => size + step.count + 1) 1

/-- A script with its changes slid: first the deletions, then the insertions. -/
def slide (old new : List Text) (steps : List Step) : List Step :=
  let size := extent steps
  let steps := slideEach old new size .delete size [] steps
  slideEach old new (2 * size) .insert (2 * size) [] steps

end TagWrap.Diff
