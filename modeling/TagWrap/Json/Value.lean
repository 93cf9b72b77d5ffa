import TagWrap.Data.Datum

/-!
# JSON values

A JSON value is a document that was read to its end. Of the members of an object with
one key the last counts, and reading puts members into the order of their keys, so that
two texts with the same members have the same value.
-/
namespace TagWrap

/-- A JSON value. -/
inductive Json where
  | null
  | bool (value : Bool)
  | int (value : Int)
  /-- A number that is not held as an integer, by its written form. -/
  | float (shown : String)
  | string (value : String)
  | array (items : List Json)
  | object (members : List (String × Json))
deriving Repr

namespace Json

/-- Put a member among members that are in the order of their keys. A member with the
    same key gives way. -/
def insertMember (key : String) (value : Json) : List (String × Json) → List (String × Json)
  | [] => [(key, value)]
  | (other, kept) :: members =>
      if key < other then (key, value) :: (other, kept) :: members
      else if key = other then (key, value) :: members
      else (other, kept) :: insertMember key value members

mutual

/-- The value of a datum without faults. -/
def ofDatum : Datum → Json
  | .null => null
  | .bool value => bool value
  | .int value => int value
  | .float shown => float shown
  | .string value => string value
  | .array items _ => array (ofItems items)
  | .object members _ => object (ofMembers [] members)
  | .broken _ => null

/-- The values of items. -/
def ofItems : List Datum → List Json
  | [] => []
  | item :: items => ofDatum item :: ofItems items

/-- Members put among those before them, in the order of the text. -/
def ofMembers (before : List (String × Json)) : List (String × Datum) → List (String × Json)
  | [] => before
  | (key, value) :: members => ofMembers (insertMember key (ofDatum value) before) members

end

mutual

/-- A value as data. Surplus items of its arrays are noticed by their number. -/
def toDatum : Json → Datum
  | null => .null
  | bool value => .bool value
  | int value => .int value
  | float shown => .float shown
  | string value => .string value
  | array items => .array (toItems items) .counted
  | object members => .object (toMembers members) .counted

/-- Values as items. -/
def toItems : List Json → List Datum
  | [] => []
  | item :: items => toDatum item :: toItems items

/-- Members as data. -/
def toMembers : List (String × Json) → List (String × Datum)
  | [] => []
  | (key, value) :: members => (key, toDatum value) :: toMembers members

end

/-- The value of a document, if it can be read to its end. -/
def settle (document : Datum × Option Fault) : Except Fault Json :=
  match document.1.fault?.or document.2 with
  | some fault => .error fault
  | none => .ok (ofDatum document.1)

/-- Whether a value is null. -/
def isNull : Json → Bool
  | null => true
  | _ => false

end Json

end TagWrap
