import TagWrap.Dump
import TagWrap.Rule

/-!
# Inspections

To inspect a dump is to check the elements of its source file. What comes out are the
findings, in the order of the violations, and the source with every violation mended. An
inspection reads files and writes none.
-/
namespace TagWrap

/-- A violation as it is told to people. Lines and columns count from one. -/
structure Finding where
  rule : String
  prop : Text
  line : Nat
  column : Nat
  message : String
deriving DecidableEq, Repr

/-- The finding for a violation. -/
def Finding.ofViolation (violation : Violation) : Finding where
  rule := Rule.name
  prop := violation.subject.text
  line := violation.location.start.line + 1
  column := violation.location.start.column + 1
  message := violation.message

/-- What came out of a dump. -/
structure Inspection where
  sourcePath : Path
  findings : List Finding
  oldSource : Text
  /-- The source with every violation mended, if there is any. -/
  newSource : Option Text
deriving DecidableEq, Repr

/-- Why a dump could not be inspected. -/
inductive InspectionError where
  | dump (error : DumpError)
  | edits (source : Path) (error : EditError)
deriving DecidableEq, Repr

namespace InspectionError

/-- What was being done when the error came up. -/
def context : InspectionError → String
  | dump error => error.context
  | edits source _ => s!"Failed to apply edits to {source}"

/-- The wording of an error. -/
def message : InspectionError → String
  | dump error => error.message
  | edits source error => s!"Failed to apply edits to {source}: {error.message}"

end InspectionError

namespace Inspection

/-- Check a source text with its elements. Line breaks are inserted as `lineEnding` has
    it, or else as the source does. -/
def ofElements (config : RuleConfig) (lineEnding : Option LineEnding) (sourcePath : Path)
    (source : Text) (elements : List Element) : Except InspectionError Inspection :=
  let config := { config with lineEnding := lineEnding.getD (.detect source) }
  match Rule.checkAll config elements with
  | [] => .ok ⟨sourcePath, [], source, none⟩
  | violations => do
      let edits := violations.map (·.edit)
      let newSource ← (Edit.applyAll source edits).mapError (.edits sourcePath)
      return ⟨sourcePath, violations.map .ofViolation, source, some newSource⟩

/-- Inspect the dump at a path. -/
def ofDump (tree : FileTree) (working : Location) (config : RuleConfig)
    (lineEnding : Option LineEnding) (path : Path) : Except InspectionError Inspection := do
  let loaded ← (Dump.load tree working path).mapError .dump
  let elements ← loaded.elements.mapError .dump
  ofElements config lineEnding loaded.sourcePath loaded.source elements

end Inspection

end TagWrap
