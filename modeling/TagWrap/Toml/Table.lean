import TagWrap.Data.Datum

/-!
# Tables in TOML

A table comes about in one of three ways: by a header of its own, by a header of
something below it, or by a key with dots. The way decides how it may still grow. A
table with a header of its own is complete with its section. One that only headers below
it imply may be given its own header later, and one that comes from dotted keys may be
extended by more dotted keys. No key is ever set twice.
-/
namespace TagWrap.Toml

/-- How a table came about. -/
inductive TableOrigin where
  /-- By its own header. -/
  | header
  /-- By the header of something below it. -/
  | implied
  /-- By a key with dots. -/
  | dotted
deriving DecidableEq, Repr

/-- What a key stands for. -/
inductive Node where
  | value (datum : Datum)
  | table (origin : TableOrigin) (entries : List (String × Node))
  /-- The tables of an array that headers in double brackets make up. -/
  | tables (elements : List (List (String × Node)))
deriving Repr

/-- The keys of a table with what they stand for, in the order in which they came. -/
abbrev Entries := List (String × Node)

namespace Entries

/-- The entries with one more at the end. -/
def add (entries : Entries) (key : String) (node : Node) : Entries := entries ++ [(key, node)]

/-- The entries with something else in the place of a key. -/
def set (entries : Entries) (key : String) (node : Node) : Entries :=
  entries.map fun entry => if entry.1 == key then (key, node) else entry

/-- The entries without a key. -/
def drop (entries : Entries) (key : String) : Entries := entries.filter (·.1 != key)

/-- Set a key with dots to a value. Tables on the way must not have a header of their
    own, and the last of them must come from dotted keys itself. -/
def assign (value : Datum) : List String → Entries → Option Entries
  | [], _ => none
  | [key], entries =>
      match entries.lookup key with
      | none => some (add entries key (.value value))
      | some _ => none
  | key :: next :: keys, entries =>
      match entries.lookup key with
      | none => do
          let inner ← assign value (next :: keys) []
          return add entries key (.table .dotted inner)
      | some (.table origin inner) => do
          if origin = .header ∨ (keys = [] ∧ origin ≠ .dotted) then none
          else
            let inner ← assign value (next :: keys) inner
            return set entries key (.table origin inner)
      | some (.tables elements) => do
          if keys = [] then none
          else
            let last ← assign value (next :: keys) (← elements.getLast?)
            return set entries key (.tables (elements.dropLast ++ [last]))
      | some (.value _) => none

/-- Give the table with a path of keys its header, where `fill` puts the section below
    the header into the table. The table moves to the end of its surroundings. -/
def open? (fill : Entries → Option Entries) : List String → Entries → Option Entries
  | [], _ => none
  | [key], entries =>
      match entries.lookup key with
      | none => do
          let inner ← fill []
          return add entries key (.table .header inner)
      | some (.table .implied inner) => do
          let inner ← fill inner
          return add (drop entries key) key (.table .header inner)
      | some _ => none
  | key :: next :: keys, entries =>
      match entries.lookup key with
      | none => do
          let inner ← open? fill (next :: keys) []
          return add entries key (.table .implied inner)
      | some (.table origin inner) => do
          let inner ← open? fill (next :: keys) inner
          return set entries key (.table origin inner)
      | some (.tables elements) => do
          let last ← open? fill (next :: keys) (← elements.getLast?)
          return set entries key (.tables (elements.dropLast ++ [last]))
      | some (.value _) => none

/-- Add a table to the array with a path of keys, where `fill` puts the section below
    the header into the table. -/
def append? (fill : Entries → Option Entries) : List String → Entries → Option Entries
  | [], _ => none
  | [key], entries =>
      match entries.lookup key with
      | none => do
          let element ← fill []
          return add entries key (.tables [element])
      | some (.tables elements) => do
          let element ← fill []
          return set entries key (.tables (elements ++ [element]))
      | some _ => none
  | key :: next :: keys, entries =>
      match entries.lookup key with
      | none => do
          let inner ← append? fill (next :: keys) []
          return add entries key (.table .implied inner)
      | some (.table origin inner) => do
          let inner ← append? fill (next :: keys) inner
          return set entries key (.table origin inner)
      | some (.tables elements) => do
          let last ← append? fill (next :: keys) (← elements.getLast?)
          return set entries key (.tables (elements.dropLast ++ [last]))
      | some (.value _) => none

end Entries

mutual

/-- What a key stands for, as data. -/
def Node.toDatum : Node → Datum
  | .value datum => datum
  | .table _ entries => .object (membersOf entries) .unchecked
  | .tables elements => .array (elementsOf elements) .unchecked

/-- The members of a table. -/
def membersOf : List (String × Node) → List (String × Datum)
  | [] => []
  | (key, node) :: entries => (key, node.toDatum) :: membersOf entries

/-- The tables of an array. -/
def elementsOf : List (List (String × Node)) → List Datum
  | [] => []
  | entries :: elements => .object (membersOf entries) .unchecked :: elementsOf elements

end

end TagWrap.Toml
