import TagWrap.Element
import TagWrap.FileTree
import TagWrap.Json.Document
import TagWrap.Nesting

/-!
# Dumps

A dump is what a parser wrote about one source file: the path of the file, seen from the
directory of the dump, and for each opening tag its byte range and those of its
attributes. A dump says nothing about positions or names. These are read off the source,
and ranges that do not fit the source are refused.
-/
namespace TagWrap

/-- One opening tag, as a parser describes it. -/
structure TagRanges where
  tag : ByteRange
  attributes : List ByteRange
deriving DecidableEq, Repr

/-- What a parser wrote about a source file. -/
structure Dump where
  /-- The path of the source file, seen from the directory of the dump. -/
  source : Path
  tags : List TagRanges
deriving DecidableEq, Repr

/-- Why a dump cannot be used. -/
inductive DumpError where
  | unreadable (dump : Path) (error : FileError)
  | decode (dump : Path) (error : DecodeError)
  | sourceUnreadable (source : Path) (error : FileError)
  /-- The ranges of one tag do not fit the source. -/
  | element (source : Path) (index : Nat) (tag : ByteRange) (error : IngestError)
  /-- The tags do not fit each other. -/
  | nesting (source : Path) (error : IngestError)
deriving DecidableEq, Repr

namespace DumpError

/-- What was being done when the error came up. -/
def context : DumpError → String
  | unreadable dump _ => s!"Failed to read {dump}"
  | decode dump _ => s!"Failed to parse {dump}"
  | sourceUnreadable source _ => s!"Failed to read file: {source}"
  | element source index tag _ => s!"Element #{index} ({tag.start}..{tag.stop}) in {source}"
  | nesting source _ => s!"Elements of {source}"

/-- The wording of what went wrong. -/
def cause : DumpError → String
  | unreadable _ error => error.message
  | decode _ error => error.message
  | sourceUnreadable _ error => error.message
  | element _ _ _ error => error.message
  | nesting _ error => error.message

/-- The wording of an error. -/
def message (error : DumpError) : String := s!"{error.context}: {error.cause}"

end DumpError

namespace Dump

/-! ## Decoding -/

/-- The record of a byte range, whose ends are read one by one. -/
def rangeRecord : Decode.Record (Option Nat × Option Nat) where
  name := "ByteRange"
  fields := ["start", "end"]
  strict := true
  visit field datum ends := do
    let offset ← Decode.offset datum
    return if field = "start" then (some offset, ends.2) else (ends.1, some offset)

/-- A byte range. Both ends must be given. -/
def decodeRange (datum : Datum) : Except DecodeError ByteRange := do
  let (given, ends) ← rangeRecord.read (none, none) datum
  match ends with
  | (none, _) => throw (rangeRecord.missing given "start")
  | (_, none) => throw (rangeRecord.missing given "end")
  | (some start, some stop) => return ⟨start, stop⟩

/-- The fields of a tag as far as they were given. -/
structure GivenTag where
  start : Option Nat
  stop : Option Nat
  attributes : Option (List ByteRange)

/-- The record of a tag. -/
def tagRecord : Decode.Record GivenTag where
  name := "TagSpans"
  fields := ["start", "end", "attributes"]
  strict := true
  visit field datum tag :=
    if field = "start" then do
      let offset ← Decode.offset datum
      return { tag with start := some offset }
    else if field = "end" then do
      let offset ← Decode.offset datum
      return { tag with stop := some offset }
    else do
      let attributes ← Decode.list decodeRange datum
      return { tag with attributes := some attributes }

/-- A tag. A tag without attributes need not list any. -/
def decodeTag (datum : Datum) : Except DecodeError TagRanges := do
  let (given, tag) ← tagRecord.read ⟨none, none, none⟩ datum
  match tag.start, tag.stop with
  | none, _ => throw (tagRecord.missing given "start")
  | _, none => throw (tagRecord.missing given "end")
  | some start, some stop => return ⟨⟨start, stop⟩, tag.attributes.getD []⟩

/-- The record of a dump. -/
def dumpRecord : Decode.Record (Option String × Option (List TagRanges)) where
  name := "ElementDump"
  fields := ["source", "elements"]
  strict := true
  visit field datum dump :=
    if field = "source" then do
      let source ← Decode.string "path string" datum
      return (some source, dump.2)
    else do
      let tags ← Decode.list decodeTag datum
      return (dump.1, some tags)

/-- A dump. It must name its source file. -/
def decode (datum : Datum) : Except DecodeError Dump := do
  let (given, dump) ← dumpRecord.read (none, none) datum
  match dump.1 with
  | none => throw (dumpRecord.missing given "source")
  | some source => return ⟨.ofString source, dump.2.getD []⟩

/-! ## Files -/

/-- What the name of a dump ends in. -/
def suffix : Text := ".props.json".toList

/-- Whether the name at the end of a path is that of a dump. -/
def isDump (path : Path) : Bool :=
  match path.fileName? with
  | some name => suffix.isSuffixOf name
  | none => false

/-- The path of the source file of the dump at a path. -/
def sourcePath (dump : Dump) (path : Path) : Path :=
  match path.parent? with
  | some directory => directory.join dump.source
  | none => dump.source

/-- A dump with the text of its source file. -/
structure Loaded where
  sourcePath : Path
  source : Text
  tags : List TagRanges
deriving DecidableEq, Repr

/-- Read the dump at a path, and the source file that it describes. -/
def load (tree : FileTree) (working : Location) (path : Path) : Except DumpError Loaded := do
  let text ← (tree.readText working path).mapError (.unreadable path)
  let dump ← (Json.decodeText decode text).mapError (.decode path)
  let sourcePath := dump.sourcePath path
  let source ← (tree.readText working sourcePath).mapError (.sourceUnreadable sourcePath)
  return ⟨sourcePath, source, dump.tags⟩

/-- Build the elements of tags in order, where `index` counts those before them. -/
def Loaded.elementsFrom (loaded : Loaded) (lines : LineIndex) :
    Nat → List TagRanges → Except DumpError (List Element)
  | _, [] => .ok []
  | index, tag :: tags => do
      let element ← (Element.ofRanges lines tag.tag tag.attributes).mapError
        (.element loaded.sourcePath index tag.tag)
      let elements ← elementsFrom loaded lines (index + 1) tags
      return element :: elements

/-- The elements of a dump. Their ranges must fit the source and each other. -/
def Loaded.elements (loaded : Loaded) : Except DumpError (List Element) := do
  let elements ← loaded.elementsFrom (.ofText loaded.source) 0 loaded.tags
  (Nesting.check elements).mapError (.nesting loaded.sourcePath)
  return elements

end Dump

end TagWrap
