/-!
# Report formats

A report is written for people, for programs, or as a patch.
-/
namespace TagWrap

/-- The forms of a report. -/
inductive ReportFormat where
  /-- Lines for people. -/
  | text
  /-- One JSON document at the end. -/
  | json
  /-- A unified diff of each file. -/
  | diff
deriving DecidableEq, Repr

/-- Read a format from its name in any case. No letter beyond ASCII has one of the
    letters of these names as its lower case. -/
def ReportFormat.ofName? (name : String) : Option ReportFormat :=
  match name.toLower with
  | "text" => some .text
  | "json" => some .json
  | "diff" => some .diff
  | _ => none

/-- The wording for a name that is no format. -/
def unknownFormatMessage (name : String) : String :=
  s!"Invalid output format '{name}'. Valid options: text, json, diff"

end TagWrap
