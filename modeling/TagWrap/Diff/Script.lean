import TagWrap.Diff.Lines

/-!
# Edit scripts

A script leads from the lines of one text to those of another. Its steps keep, delete or
insert runs of lines, and carry the indexes at which a run starts on either side. The
search finds a shortest script by meeting in the middle: the furthest points that can be
reached with few changes from the start are compared with those from the end, and where
they meet the task falls into two smaller ones.
-/
namespace TagWrap.Diff

/-- What a step does with its lines. -/
inductive Action where
  /-- Both texts have the lines. -/
  | keep
  | delete
  | insert
deriving DecidableEq, Repr

/-- A run of lines, with the indexes of its start in the old and in the new text. -/
structure Step where
  action : Action
  old : Nat
  new : Nat
  count : Nat
deriving DecidableEq, Repr

/-- The number of lines that two lists share at their start. -/
def sharedFront : List Text → List Text → Nat
  | first :: firsts, second :: seconds =>
      if first = second then sharedFront firsts seconds + 1 else 0
  | _, _ => 0

/-! ## The middle of a script

A point is a number of old lines and a number of new lines that are dealt with. Points
with one difference between the two lie on a diagonal. In each round one more line is
deleted or inserted, so that round `d` has the diagonals `d`, `d - 2` and so on down to
`-d`. Points are given by their number of old lines. -/

/-- The diagonals of a round, from the highest down. -/
def diagonals (round : Nat) : List Int :=
  (List.range (round + 1)).map fun (index : Nat) => (round : Int) - 2 * (index : Int)

/-- The points of a round below its highest one, from those of the round before. Where
    either change leads to a diagonal, the one that gets further counts, and of equals
    the deletion. -/
def lowerStarts : List Nat → List Nat
  | [] => []
  | [last] => [last]
  | upper :: lower :: others =>
      (if lower < upper then upper else lower + 1) :: lowerStarts (lower :: others)

/-- The points of a round right after its change. -/
def starts : List Nat → List Nat
  | [] => [0]
  | first :: others => (first + 1) :: lowerStarts (first :: others)

/-- The number of lines, up to a bound, that two texts share from a line of each on. -/
def sharedFrom (old new : Array Text) : Nat → Nat → Nat → Nat
  | 0, _, _ => 0
  | bound + 1, oldIndex, newIndex =>
      match old[oldIndex]?, new[newIndex]? with
      | some first, some second =>
          if first = second then sharedFrom old new bound (oldIndex + 1) (newIndex + 1) + 1 else 0
      | _, _ => 0

/-- The point that a diagonal leads to for as long as the lines are the same. -/
def follow (old new : Array Text) (diagonal : Int) (point : Nat) : Nat :=
  let other : Int := (point : Int) - diagonal
  if other < 0 then point
  else point + sharedFrom old new (old.size - point) point other.toNat

/-- The points of a round: the diagonal, the point right after the change, and the point
    that it leads to. -/
def reach (old new : Array Text) (round : Nat) (previous : List Nat) : List (Int × Nat × Nat) :=
  ((diagonals round).zip (starts previous)).map fun (diagonal, start) =>
    (diagonal, start, follow old new diagonal start)

/-- The point on a diagonal among the last points of a round, if the round has the
    diagonal. -/
def pointOn? (points : Array Nat) (diagonal : Int) : Option Nat :=
  let round : Int := (points.size : Int) - 1
  if diagonal.natAbs ≤ round then points[((round - diagonal) / 2).toNat]? else none

/-- Where the way from the start to a point meets the way from the end on the same
    diagonal, if it does. `excess` is the number of old lines less that of new ones. -/
def meets (oldCount : Nat) (excess : Int) (fromEnd : Array Nat) (diagonal : Int) (point : Nat) :
    Bool :=
  match pointOn? fromEnd (excess - diagonal) with
  | some other => oldCount ≤ point + other
  | none => false

/-- Two lists of lines in both directions, as the search for a middle looks at them. -/
structure Sides where
  old : Array Text
  new : Array Text
  oldBack : Array Text
  newBack : Array Text

/-- The sides of two lists of lines. -/
def Sides.ofLines (old new : List Text) : Sides :=
  ⟨old.toArray, new.toArray, old.reverse.toArray, new.reverse.toArray⟩

/-- The point at which the two ways meet, where `before` and `after` are the last points
    of the round before from the start and from the end. -/
def middleFrom (sides : Sides) : Nat → Nat → List Nat → List Nat → Option (Nat × Nat)
  | 0, _, _, _ => none
  | fuel + 1, round, before, after =>
      let oldCount := sides.old.size
      let newCount := sides.new.size
      let excess : Int := (oldCount : Int) - newCount
      let forward := reach sides.old sides.new round before
      let forwardPoints := forward.map fun (_, _, stop) => stop
      let backward := reach sides.oldBack sides.newBack round after
      let backwardPoints := backward.map fun (_, _, stop) => stop
      let found :=
        if excess % 2 = 1 then
          let fromEnd := after.toArray
          forward.findSome? fun (diagonal, start, stop) =>
            if meets oldCount excess fromEnd diagonal stop then
              some (start, ((start : Int) - diagonal).toNat)
            else none
        else
          let fromStart := forwardPoints.toArray
          backward.findSome? fun (diagonal, _, stop) =>
            if meets oldCount excess fromStart diagonal stop then
              some (oldCount - stop, newCount - ((stop : Int) - diagonal).toNat)
            else none
      match found with
      | some point => some point
      | none => middleFrom sides fuel (round + 1) forwardPoints backwardPoints

/-- The point at which a shortest script is cut in two. Half as many rounds as there are
    lines suffice. -/
def middle? (old new : List Text) : Option (Nat × Nat) :=
  middleFrom (.ofLines old new) ((old.length + new.length + 1) / 2 + 1) 0 [] []

/-! ## Scripts -/

/-- A step, unless it has no lines. -/
def Step.ofCount (action : Action) (old new count : Nat) : List Step :=
  if count = 0 then [] else [⟨action, old, new, count⟩]

/-- The script that replaces all lines. -/
def replacing (oldStart newStart : Nat) (old new : List Text) : List Step :=
  Step.ofCount .delete oldStart newStart old.length ++
    Step.ofCount .insert oldStart newStart new.length

/-- A script for parts of two texts that start at `oldStart` and `newStart`. Lines that
    the parts share at their ends are kept, and what lies between is cut in two. -/
def scriptFrom : Nat → Nat → Nat → List Text → List Text → List Step
  | 0, oldStart, newStart, old, new => replacing oldStart newStart old new
  | fuel + 1, oldStart, newStart, old, new =>
      let front := sharedFront old new
      let oldRest := old.drop front
      let newRest := new.drop front
      let back := sharedFront oldRest.reverse newRest.reverse
      let oldInner := oldRest.take (oldRest.length - back)
      let newInner := newRest.take (newRest.length - back)
      let oldInnerStart := oldStart + front
      let newInnerStart := newStart + front
      let inner :=
        if oldInner.isEmpty || newInner.isEmpty then
          replacing oldInnerStart newInnerStart oldInner newInner
        else
          match middle? oldInner newInner with
          | some (oldCut, newCut) =>
              scriptFrom fuel oldInnerStart newInnerStart
                  (oldInner.take oldCut) (newInner.take newCut) ++
                scriptFrom fuel (oldInnerStart + oldCut) (newInnerStart + newCut)
                  (oldInner.drop oldCut) (newInner.drop newCut)
          | none => replacing oldInnerStart newInnerStart oldInner newInner
      Step.ofCount .keep oldStart newStart front ++ inner ++
        Step.ofCount .keep (oldInnerStart + oldInner.length) (newInnerStart + newInner.length) back

/-- A shortest script from old lines to new ones. Every cut leaves fewer lines on each
    side, so their number bounds the cuts. -/
def script (old new : List Text) : List Step :=
  scriptFrom (old.length + new.length + 1) 0 0 old new

end TagWrap.Diff
