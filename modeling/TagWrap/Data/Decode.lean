import TagWrap.Data.Datum
import TagWrap.RuleOptions
import TagWrap.Word

/-!
# Decoding data

A record can be given by name, as an object, or by position, as an array of its fields
in their fixed order. Members are taken in the order in which they stand, and the first
one that is wrong decides the error: by its name, because its name was seen before, or
by its value. Members that are missing are noticed last.
-/
namespace TagWrap

/-- Why data is refused. -/
inductive DecodeError where
  /-- The text cannot be read that far. -/
  | unreadable (fault : Fault)
  | invalidType (found expected : String)
  | invalidValue (found expected : String)
  | invalidLength (length : Nat) (expected : String)
  | unknownField (name : String) (known : List String)
  | missingField (name : String)
  | duplicateField (name : String)
  | noVariant (type : String)
  | unknownScope (word : String)
deriving DecidableEq, Repr

namespace DecodeError

/-- The names that were expected, as an enumeration. -/
def expectedNames (known : List String) : String :=
  match known with
  | [one] => s!"`{one}`"
  | [one, other] => s!"`{one}` or `{other}`"
  | names => "one of " ++ ", ".intercalate (names.map fun name => s!"`{name}`")

/-- The wording of an error. The place in the text, by line and column, is left out. -/
def message : DecodeError → String
  | unreadable fault => fault.message
  | invalidType found expected => s!"invalid type: {found}, expected {expected}"
  | invalidValue found expected => s!"invalid value: {found}, expected {expected}"
  | invalidLength length expected => s!"invalid length {length}, expected {expected}"
  | unknownField name known => s!"unknown field `{name}`, expected {expectedNames known}"
  | missingField name => s!"missing field `{name}`"
  | duplicateField name => s!"duplicate field `{name}`"
  | noVariant type => s!"data did not match any variant of untagged enum {type}"
  | unknownScope word => unknownScopeMessage word

end DecodeError

/-- Refuse a datum that is not of the expected kind. -/
def Datum.mismatch {α : Type} (datum : Datum) (expected : String) : Except DecodeError α :=
  match datum with
  | broken fault => .error (.unreadable fault)
  | other => .error (.invalidType other.found expected)

namespace Decode

/-- A string. -/
def string (expected : String) : Datum → Except DecodeError String
  | .string value => .ok value
  | other => other.mismatch expected

/-- Nothing for null, and something for all else. -/
def optional {α : Type} (decode : Datum → Except DecodeError α) :
    Datum → Except DecodeError (Option α)
  | .null => .ok none
  | other => some <$> decode other

/-- The number of bytes or a byte offset. -/
def offset : Datum → Except DecodeError Nat
  | .int value =>
      if value < 0 then .error (.invalidValue s!"integer `{value}`" "usize")
      else .ok value.toNat
  | other => other.mismatch "usize"

/-- A list, item by item. -/
def list {α : Type} (decode : Datum → Except DecodeError α) :
    Datum → Except DecodeError (List α)
  | .array items tail => do
      let values ← items.mapM decode
      match tail with
      | .broken fault => .error (.unreadable fault)
      | _ => .ok values
  | other => other.mismatch "a sequence"

/-- The fields of a record and how they are taken in. -/
structure Record (σ : Type) where
  /-- What the record is called in a message. -/
  name : String
  /-- The names of its fields, in their fixed order. -/
  fields : List String
  /-- Whether a member with another name is refused. -/
  strict : Bool
  /-- Take in the value of the field with a given name. -/
  visit : String → Datum → σ → Except DecodeError σ

/-- In which way a record was given. -/
inductive Given where
  | byName
  /-- By position, with so many items. -/
  | byPosition (count : Nat)
deriving DecidableEq, Repr

namespace Record

variable {σ : Type}

/-- Take in members in order, where `seen` lists the fields met so far. -/
def visitMembers (record : Record σ) :
    List String → List (String × Datum) → σ → Except DecodeError σ
  | _, [], state => .ok state
  | seen, (key, value) :: members, state =>
      if key ∈ record.fields then
        if key ∈ seen then .error (.duplicateField key)
        else do
          let state ← record.visit key value state
          visitMembers record (key :: seen) members state
      else if record.strict then .error (.unknownField key record.fields)
      else
        match value.fault? with
        | some fault => .error (.unreadable fault)
        | none => visitMembers record seen members state

/-- Take in items in order, one for each of the given fields. What comes back are the
    items that are left over. -/
def visitItems (record : Record σ) :
    List String → List Datum → σ → Except DecodeError (List Datum × σ)
  | [], items, state => .ok (items, state)
  | _ :: _, [], state => .ok ([], state)
  | field :: fields, item :: items, state => do
      let state ← record.visit field item state
      visitItems record fields items state

/-- Leave an array of `length` items of which some are left over. In a text, what
    follows where a bracket is due is not looked at closely. -/
def leaveArray (length : Nat) (leftover : List Datum) (tail : Tail) :
    Except DecodeError Unit :=
  match leftover, tail with
  | [], .broken .expectedListCommaOrEnd => .error (.unreadable .trailingCharacters)
  | [], .broken fault => .error (.unreadable fault)
  | [], _ => .ok ()
  | _ :: _, .unchecked => .ok ()
  | _ :: _, .counted => .error (.invalidLength length "fewer elements in array")
  | _ :: _, _ => .error (.unreadable .trailingCharacters)

/-- Take in a record that is given in either way. -/
def read (record : Record σ) (initial : σ) : Datum → Except DecodeError (Given × σ)
  | .object members tail => do
      let state ← record.visitMembers [] members initial
      match tail with
      | .broken fault => .error (.unreadable fault)
      | _ => .ok (.byName, state)
  | .array items tail => do
      let (leftover, state) ← record.visitItems record.fields items initial
      if items.length < record.fields.length then
        match tail with
        | .broken fault => .error (.unreadable fault)
        | _ => .ok (.byPosition items.length, state)
      else do
        leaveArray items.length leftover tail
        return (.byPosition items.length, state)
  | other => other.mismatch s!"struct {record.name}"

/-- The error for a field that must be given and was not. -/
def missing (record : Record σ) (given : Given) (field : String) : DecodeError :=
  match given with
  | .byName => .missingField field
  | .byPosition count =>
      .invalidLength count s!"struct {record.name} with {record.fields.length} elements"

end Record

/-! ## The options of the rule -/

/-- A word for a scope. -/
def scope (datum : Datum) : Except DecodeError Scope := do
  let word ← string "a string" datum
  match Scope.ofName? word with
  | some scope => return scope
  | none => throw (.unknownScope word)

/-- One side of a split maximum: null, or an integer that fits a word. -/
def side? : Datum → Option (Option Int)
  | .null => some none
  | .int value => if Word.fits value then some (some value) else none
  | _ => none

/-- The sides of a split maximum by name. Each may occur once, and nothing else may. -/
def sidesByName? : List (String × Datum) → Option (Option (Option Int) × Option (Option Int))
  | [] => some (none, none)
  | (key, value) :: members => do
      let (single, multi) ← sidesByName? members
      let side ← side? value
      if key = "single" ∧ single.isNone then some (some side, multi)
      else if key = "multi" ∧ multi.isNone then some (single, some side)
      else none

/-- A maximum in one of its forms: an integer, an object with its sides, or an array of
    at most two sides. -/
def maximum? : Datum → Option WrittenMaximum
  | .int value => if Word.fits value then some (.flat value) else none
  | .object members _ => do
      let (single, multi) ← sidesByName? members
      return .split ⟨single.join, multi.join⟩
  | .array [] _ => some (.split ⟨none, none⟩)
  | .array [single] _ => do
      let single ← side? single
      return .split ⟨single, none⟩
  | .array [single, multi] _ => do
      let single ← side? single
      let multi ← side? multi
      return .split ⟨single, multi⟩
  | _ => none

/-- A maximum. Its text is read to the end before its form is decided. -/
def maximum (datum : Datum) : Except DecodeError WrittenMaximum :=
  match datum.fault? with
  | some fault => .error (.unreadable fault)
  | none =>
      match maximum? datum with
      | some value => .ok value
      | none => .error (.noVariant "MaximumOption")

/-- The record of the options. -/
def optionsRecord : Record RuleOptions where
  name := "MaxPropsOptions"
  fields := ["maximum", "when"]
  strict := true
  visit field datum options :=
    if field = "maximum" then do
      let value ← optional maximum datum
      return { options with maximum := value }
    else do
      let value ← optional scope datum
      return { options with scope := value }

/-- The options of the rule. Each of them can be left out. -/
def ruleOptions (datum : Datum) : Except DecodeError RuleOptions := do
  let (_, options) ← optionsRecord.read .empty datum
  return options

end Decode

end TagWrap
