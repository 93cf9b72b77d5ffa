import TagWrap.Proofs.Cut

/-!
# Steps that can trap

The definitions of this library are total. A difference stops at zero, a sum has no bound, and an
empty text stands in for a slice that does not exist. A machine with offsets of 64 bits does not go
on in such a place: it traps. The steps of such a machine are defined here, each with the condition
on which it does not trap. What it gives then is what the library has.

A computation can also end in an error that it reports, and that is no trap. It is then an
`ExceptT` over the steps. `untrapped` is the embedding of the computations of the library, none of
which traps, and `bind_eq_untrapped` takes a computation apart that is claimed to be one of these.
-/
namespace TagWrap

/-- What stops a machine in the middle of a computation. -/
inductive Trap where
  /-- A sum is too large for an offset. -/
  | overflow
  /-- A difference is less than zero. -/
  | underflow
  /-- A list has no item at an index. -/
  | noItem
  /-- The ends of a slice are out of order, out of bounds or inside a character. -/
  | noSlice
  /-- A list that is searched by halving is out of order, and nothing is known of the answer. -/
  | unsorted
deriving DecidableEq, Repr

namespace Checked

open Text

variable {item error other first second : Type}

/-- The number of offsets that a word of 64 bits can hold. -/
def offsetLimit : Nat := 0x10000000000000000

/-- The sum of two offsets. -/
def add (low high : Nat) : Except Trap Nat :=
  if low + high < offsetLimit then .ok (low + high) else .error .overflow

/-- The difference of two offsets. -/
def sub (high low : Nat) : Except Trap Nat :=
  if low ≤ high then .ok (high - low) else .error .underflow

/-- The item at an index. -/
def get (items : List item) (index : Nat) : Except Trap item :=
  match items[index]? with
  | some found => .ok found
  | none => .error .noItem

/-- The items from an index on. -/
def drop (items : List item) (start : Nat) : Except Trap (List item) :=
  if start ≤ items.length then .ok (items.drop start) else .error .noSlice

/-- The characters between two offsets. -/
def slice (text : Text) (start stop : Nat) : Except Trap Text :=
  match slice? text start stop with
  | some inner => .ok inner
  | none => .error .noSlice

/-- A text with other characters in the place of those between two offsets. -/
def replaceRange (text : Text) (start stop : Nat) (replacement : Text) : Except Trap Text := do
  let _ ← slice text start stop
  return Text.replaceRange text start stop replacement

/-- The number of numbers up to a bound, where all numbers beyond it stand behind them. -/
def partitionPoint (numbers : List Nat) (bound : Nat) : Except Trap Nat :=
  if ∀ number ∈ numbers.dropWhile (· ≤ bound), bound < number then
    .ok (numbers.takeWhile (· ≤ bound)).length
  else .error .unsorted

/-- Sums do not wrap around, and a character is not cut. -/
example : add (offsetLimit - 1) 1 = .error .overflow ∧ slice ['日'] 0 2 = .error .noSlice :=
  ⟨rfl, rfl⟩

theorem add_eq_ok {low high : Nat} (room : low + high < offsetLimit) :
    add low high = .ok (low + high) := if_pos room

theorem sub_eq_ok {high low : Nat} (ordered : low ≤ high) : sub high low = .ok (high - low) :=
  if_pos ordered

theorem get_eq_ok {items : List item} {index : Nat} {found : item}
    (present : items[index]? = some found) : get items index = .ok found := by
  rw [get, present]

theorem drop_eq_ok {items : List item} {start : Nat} (within : start ≤ items.length) :
    drop items start = .ok (items.drop start) := if_pos within

theorem slice_eq_ok {text inner : Text} {start stop : Nat}
    (sliced : slice? text start stop = some inner) : slice text start stop = .ok inner := by
  rw [slice, sliced]

theorem replaceRange_eq_ok {text inner replacement : Text} {start stop : Nat}
    (sliced : slice? text start stop = some inner) :
    replaceRange text start stop replacement =
      .ok (Text.replaceRange text start stop replacement) := by
  rw [replaceRange, slice_eq_ok sliced]
  rfl

theorem partitionPoint_eq_ok {numbers : List Nat} {bound : Nat}
    (parted : ∀ number ∈ numbers.dropWhile (· ≤ bound), bound < number) :
    partitionPoint numbers bound = .ok (numbers.takeWhile (· ≤ bound)).length := if_pos parted

/-- Nothing is left of a step that does not trap but its result. -/
theorem ok_bind {value : first} {rest : first → Except error second} :
    (Except.ok value >>= rest) = rest value := rfl

/-- A list is worked through without a trap when no item traps. -/
theorem mapM_eq_ok {step : first → Except error second} {value : first → second}
    {items : List first} (taken : ∀ item ∈ items, step item = .ok (value item)) :
    items.mapM step = .ok (items.map value) := by
  induction items with
  | nil => rfl
  | cons item items inductionHypothesis =>
      have later := inductionHypothesis fun other member =>
        taken other (List.mem_cons_of_mem _ member)
      rw [List.mapM_cons, taken item List.mem_cons_self, ok_bind, later, ok_bind]
      rfl

/-! ## Errors that are reported -/

/-- A computation that ends in a result or in an error that it reports. -/
def untrapped (outcome : Except error first) : ExceptT error (Except Trap) first :=
  ExceptT.mk (.ok outcome)

/-- Nothing is left of a step without an error that does not trap but its result. -/
theorem lift_bind {value : first} {rest : first → ExceptT error (Except Trap) second} :
    (liftM (Except.ok value : Except Trap first) >>= rest) = rest value := rfl

/-- What follows a step that does not trap is looked at from the results of the step only. -/
theorem bind_eq_untrapped {step : ExceptT error (Except Trap) first} {outcome : Except error first}
    {rest : first → ExceptT error (Except Trap) second} {others : first → Except error second}
    (taken : step = untrapped outcome)
    (followed : ∀ value, outcome = .ok value → rest value = untrapped (others value)) :
    (step >>= rest) = untrapped (outcome >>= others) := by
  subst taken
  cases outcome with
  | error reason => rfl
  | ok value => exact followed value rfl

/-- What follows a check is looked at only where the check passes. -/
theorem refuse_eq_untrapped {refused : Prop} [Decidable refused] {reason : error}
    {rest : ExceptT error (Except Trap) first} {others : Except error first}
    (followed : ¬ refused → rest = untrapped others) :
    (if refused then throw reason else rest) =
      untrapped (if refused then throw reason else others) := by
  by_cases failed : refused
  · rw [if_pos failed, if_pos failed]
    rfl
  · rw [if_neg failed, if_neg failed]
    exact followed failed

/-- A change of errors is no trap. -/
theorem adapt_untrapped {change : error → other} {outcome : Except error first} :
    ExceptT.adapt change (untrapped outcome) = untrapped (outcome.mapError change) := by
  cases outcome <;> rfl

end Checked

end TagWrap
