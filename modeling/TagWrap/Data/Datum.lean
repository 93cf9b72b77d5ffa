import TagWrap.Data.Fault
import TagWrap.Text.Quoted

/-!
# Data

A datum is what a reader of JSON or TOML hands to those who want options or dumps. JSON
text is decoded while it is read, so a mistake in its shape is reported even if the
text breaks off later, and the other way round. That order is kept by putting the
break into the datum, at the place where the text stopped.
-/
namespace TagWrap

/-- What lies behind the last item or member that was read. -/
inductive Tail where
  /-- The end. Items that nobody asks for pass unnoticed. -/
  | unchecked
  /-- The end. The items are counted, so that surplus ones are noticed. -/
  | counted
  /-- The closing bracket in the text. -/
  | closed
  /-- A place where the text cannot be read on. -/
  | broken (fault : Fault)
deriving DecidableEq, Repr

/-- A piece of data as far as it could be read. -/
inductive Datum where
  | null
  | bool (value : Bool)
  | int (value : Int)
  /-- A number that is not held as an integer, by its written form. -/
  | float (shown : String)
  | string (value : String)
  | array (items : List Datum) (tail : Tail)
  | object (members : List (String × Datum)) (tail : Tail)
  /-- A place where the text cannot be read on. -/
  | broken (fault : Fault)
deriving Repr

/-- The fault that a tail ends with, if any. -/
def Tail.fault? : Tail → Option Fault
  | broken fault => some fault
  | _ => none

namespace Datum

/-- How a message names what was found. -/
def found : Datum → String
  | null => "null"
  | bool value => s!"boolean `{value}`"
  | int value => s!"integer `{value}`"
  | float shown => s!"floating point `{shown}`"
  | string value => s!"string {quotedString value}"
  | array _ _ => "sequence"
  | object _ _ => "map"
  | broken fault => fault.message

mutual

/-- The first fault of a datum in the order of its text, if it has one. -/
def fault? : Datum → Option Fault
  | broken fault => some fault
  | array items tail => (faultOfItems? items).or tail.fault?
  | object members tail => (faultOfMembers? members).or tail.fault?
  | _ => none

/-- The first fault among items. -/
def faultOfItems? : List Datum → Option Fault
  | [] => none
  | item :: items => (fault? item).or (faultOfItems? items)

/-- The first fault among the values of members. -/
def faultOfMembers? : List (String × Datum) → Option Fault
  | [] => none
  | (_, value) :: members => (fault? value).or (faultOfMembers? members)

end

end Datum

end TagWrap
