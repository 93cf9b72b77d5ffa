import TagWrap.Proofs.CheckedTags
import TagWrap.Proofs.Excess
import TagWrap.Proofs.SourceOrder

/-!
# Inspections do not trap

An inspection takes the elements of a dump, plans a line break for each attribute past the cap, and
makes the edits. Here it is built by steps that can trap, from the line index of the source to the
findings. None of the steps does (`inspection_never_traps`): an inspection ends in a result or in an
error that it reports, and in the one that the library has.

Each step is safe for a reason of its own. The first attribute of a run is there because a run is
not empty, and attributes are cut off at the cap only where there are more. A change is made in a
text that the changes before it have altered, but only behind the span of this one. Lines and
columns of a source are no larger than the source, so they can be counted from one.

That memory runs out is not among the traps, and neither are the files that a dump is read from.
-/
namespace TagWrap

/-- Inspect a dump with the text of its source file. -/
def Inspection.ofLoaded (config : RuleConfig) (lineEnding : Option LineEnding)
    (loaded : Dump.Loaded) : Except InspectionError Inspection := do
  let elements ← loaded.elements.mapError .dump
  ofElements config lineEnding loaded.sourcePath loaded.source elements

/-- Behind the reading of files there is nothing else to an inspection. -/
theorem Inspection.ofDump_eq (tree : FileTree) (working : Location) (config : RuleConfig)
    (lineEnding : Option LineEnding) (path : Path) :
    ofDump tree working config lineEnding path =
      ((Dump.load tree working path).mapError .dump >>= ofLoaded config lineEnding) := rfl

namespace Checked

open Text

/-! ## Violations -/

/-- The violations of a run of attributes on one line. The first attribute is taken out of the run
    and the first ones up to the cap are cut off only where there are more than the cap. -/
def violations (limit : LineLimit) (indent : Text) (lineEnding : LineEnding)
    (run : List Attribute) : Except Trap (List Violation) :=
  if limit.excess run.length = 0 then .ok []
  else do
    let first ← get run 0
    let excess ← drop run limit.cap
    return excess.map fun attr =>
      breakBefore lineEnding (if attr.startLine = first.startLine then indent else []) attr

/-- The violations of runs, in the order of their attributes. -/
def planBreaks (limit : LineLimit) (runs : List (List Attribute)) (indent : Text)
    (lineEnding : LineEnding) : Except Trap (List Violation) := do
  let found ← runs.mapM (violations limit indent lineEnding)
  return found.flatten

/-- The violations of one element. -/
def check (config : RuleConfig) (element : Element) : Except Trap (List Violation) :=
  if element.isEmpty then .ok []
  else
    let limit := config.limitFor element.isMultiline
    if limit.enforced then
      planBreaks limit (element.attributes.splitBy Attribute.continues) element.indent
        config.lineEnding
    else .ok []

/-- The violations of the elements of a file. -/
def checkAll (config : RuleConfig) (elements : List Element) : Except Trap (List Violation) := do
  let found ← elements.mapM (check config)
  return found.flatten

/-- A run with more attributes than the cap is longer than the cap and has a first attribute. -/
theorem violations_eq_ok (limit : LineLimit) (indent : Text) (lineEnding : LineEnding)
    (group : LineGroup) :
    violations limit indent lineEnding group.attributes =
      .ok (group.violations limit indent lineEnding) := by
  rw [violations, LineGroup.violations, LineGroup.length]
  by_cases fits : limit.excess group.attributes.length = 0
  · rw [if_pos fits, if_pos fits]
  · rw [if_neg fits, if_neg fits]
    have within : limit.cap ≤ group.attributes.length := by
      by_contra short
      apply fits
      rw [LineLimit.excess]
      split
      · omega
      · rfl
    have first : group.attributes[0]? = some group.first := rfl
    rw [get_eq_ok first, ok_bind, drop_eq_ok within]
    rfl

theorem planBreaks_eq_ok (limit : LineLimit) (attributes : List Attribute) (indent : Text)
    (lineEnding : LineEnding) :
    planBreaks limit (attributes.splitBy Attribute.continues) indent lineEnding =
      .ok (TagWrap.planBreaks limit (groupByLine attributes) indent lineEnding) := by
  have each : ∀ group ∈ groupByLine attributes,
      (violations limit indent lineEnding ∘ LineGroup.attributes) group =
        .ok (group.violations limit indent lineEnding) := fun group _ =>
    violations_eq_ok limit indent lineEnding group
  rw [planBreaks, ← attributes_groupByLine, List.mapM_map, mapM_eq_ok each, ok_bind]
  rfl

theorem check_eq_ok (config : RuleConfig) (element : Element) :
    check config element = .ok (Rule.check config element) := by
  rw [check, Rule.check]
  split
  · rfl
  · dsimp only
    split
    · exact planBreaks_eq_ok _ _ _ _
    · rfl

theorem checkAll_eq_ok (config : RuleConfig) (elements : List Element) :
    checkAll config elements = .ok (Rule.checkAll config elements) := by
  rw [checkAll, mapM_eq_ok fun element _ => check_eq_ok config element, ok_bind]
  rfl

/-! ## Edits -/

/-- Make changes one after the other, each in the text that those before it have left. -/
def replaceAll (text : Text) (edits : List Edit) : Except Trap Text :=
  edits.foldlM (fun text edit => replaceRange text edit.start edit.stop edit.replacement) text

/-- Apply a batch of edits. -/
def applyAll (source : Text) (edits : List Edit) : ExceptT EditError (Except Trap) Text := do
  untrapped (Edit.checkAll source none (Edit.fromEnd edits))
  replaceAll source (Edit.fromEnd edits)

/-- Edits that fit a text and are given from its end to its start are made without a trap, whatever
    stands behind the text.

    The induction is on the edits. The first one cuts the text at the start of its span, and the
    others fit the front of this cut. So they are made in a text whose front is still what they were
    checked against. -/
theorem replaceAll_eq_ok {front : Text} {edits : List Edit}
    (fits : ∀ edit ∈ edits, Edit.Fits front edit)
    (apart : edits.Pairwise fun later earlier => Edit.Precedes earlier later) (behind : Text) :
    replaceAll (front ++ behind) edits = .ok (edits.foldl Edit.apply (front ++ behind)) := by
  induction edits generalizing front behind with
  | nil => rfl
  | cons edit edits inductionHypothesis =>
      obtain ⟨gone, low, after, rfl, size, ends⟩ := (fits edit List.mem_cons_self).exists_takes
      have sliced : slice? (low ++ gone ++ after ++ behind) edit.start edit.stop = some gone :=
        slice?_eq_some.mpr ⟨low, after ++ behind, by simp, size, ends⟩
      have changed : Text.replaceRange (low ++ gone ++ after ++ behind) edit.start edit.stop
          edit.replacement = low ++ (edit.replacement ++ (after ++ behind)) := by
        rw [List.append_assoc _ after, replaceRange_append size ends, List.append_assoc]
      rw [replaceAll, List.foldlM_cons, replaceRange_eq_ok sliced, ok_bind, List.foldl_cons,
        Edit.apply, changed]
      exact inductionHypothesis (Edit.fits_front fits apart size) apart.tail _

/-- Made from the start of a text to its end, changes can trap: the second character of a text is
    not found when the first one is gone. -/
example : replaceAll ['a', 'b']
    [⟨⟨⟨0, 0, 0⟩, ⟨1, 0, 1⟩⟩, [], ""⟩, ⟨⟨⟨1, 0, 1⟩, ⟨2, 0, 2⟩⟩, [], ""⟩] = .error .noSlice := rfl

/-- A batch is refused before the first change or made without a trap. -/
theorem applyAll_eq_untrapped (source : Text) (edits : List Edit) :
    applyAll source edits = untrapped (Edit.applyAll source edits) := by
  refine bind_eq_untrapped rfl fun _ passed => ?_
  obtain ⟨fits, apart, -⟩ := Edit.checkAll_eq_ok_iff.mp passed
  have made := replaceAll_eq_ok fits apart []
  rw [List.append_nil] at made
  rw [made]
  rfl

/-! ## Findings -/

/-- The finding for a violation. Lines and columns count from one. -/
def finding (violation : Violation) : Except Trap Finding := do
  let line ← add violation.location.start.line 1
  let column ← add violation.location.start.column 1
  return ⟨Rule.name, violation.subject.text, line, column, violation.message⟩

/-- The findings for violations, in their order. -/
def findings (violations : List Violation) : Except Trap (List Finding) := violations.mapM finding

/-- The line and the column of an attribute can be counted from one. -/
theorem finding_eq_ok {source : Text} (room : byteSize source + 1 < offsetLimit)
    {config : RuleConfig} {elements : List Element} {violation : Violation}
    (accepted : ∀ element ∈ elements, ∃ ranges : TagRanges, ranges.Accepted source element)
    (found : violation ∈ Rule.checkAll config elements) :
    finding violation = .ok (.ofViolation violation) := by
  obtain ⟨element, listed, own⟩ := List.mem_flatMap.mp found
  obtain ⟨ranges, fits⟩ := accepted element listed
  obtain ⟨layout, rfl, rfl, rfl⟩ := Layout.accepted_iff.mp fits
  obtain ⟨front, back, whole, starts⟩ := Layout.exists_start own
  obtain ⟨line, column⟩ := Position.behind_le front back
  rw [← whole, ← starts] at line column
  rw [finding, add_eq_ok (by omega), ok_bind, add_eq_ok (by omega), ok_bind]
  rfl

/-! ## Inspections -/

/-- Build the elements of tags in order. -/
def elementsFrom (loaded : Dump.Loaded) (lines : LineIndex) :
    Nat → List TagRanges → ExceptT DumpError (Except Trap) (List Element)
  | _, [] => untrapped (.ok [])
  | index, tag :: tags => do
      let element ← ExceptT.adapt (.element loaded.sourcePath index tag.tag)
        (ofRanges lines tag.tag tag.attributes)
      let elements ← elementsFrom loaded lines (index + 1) tags
      return element :: elements

/-- The elements of a dump. The search for tags that cross compares offsets and computes none. -/
def elements (loaded : Dump.Loaded) : ExceptT DumpError (Except Trap) (List Element) := do
  let lines ← lineIndex loaded.source
  let elements ← elementsFrom loaded lines 0 loaded.tags
  untrapped ((Nesting.check elements).mapError (.nesting loaded.sourcePath))
  return elements

/-- Check a source text with its elements. -/
def ofElements (config : RuleConfig) (lineEnding : Option LineEnding) (sourcePath : Path)
    (source : Text) (elements : List Element) :
    ExceptT InspectionError (Except Trap) Inspection := do
  let config := { config with lineEnding := lineEnding.getD (.detect source) }
  let violations ← checkAll config elements
  match violations with
  | [] => return ⟨sourcePath, [], source, none⟩
  | violations => do
      let edits := violations.map (·.edit)
      let newSource ← ExceptT.adapt (.edits sourcePath) (applyAll source edits)
      let findings ← findings violations
      return ⟨sourcePath, findings, source, some newSource⟩

/-- Inspect a dump with the text of its source file. -/
def inspect (config : RuleConfig) (lineEnding : Option LineEnding) (loaded : Dump.Loaded) :
    ExceptT InspectionError (Except Trap) Inspection := do
  let elements ← ExceptT.adapt .dump (elements loaded)
  ofElements config lineEnding loaded.sourcePath loaded.source elements

section Inspections

variable {loaded : Dump.Loaded} (room : byteSize loaded.source + 1 < offsetLimit)

include room

theorem elementsFrom_eq_untrapped (index : Nat) (tags : List TagRanges) :
    elementsFrom loaded (.ofText loaded.source) index tags =
      untrapped (loaded.elementsFrom (.ofText loaded.source) index tags) := by
  induction tags generalizing index with
  | nil => rfl
  | cons tag tags inductionHypothesis =>
      have first := ofRanges_eq_untrapped room tag.tag tag.attributes
      refine bind_eq_untrapped (first ▸ adapt_untrapped) fun _ _ => ?_
      exact bind_eq_untrapped (inductionHypothesis (index + 1)) fun _ _ => rfl

theorem elements_eq_untrapped : elements loaded = untrapped loaded.elements := by
  rw [elements, lineIndex_eq_ok room, lift_bind]
  refine bind_eq_untrapped (elementsFrom_eq_untrapped room 0 loaded.tags) fun _ _ => ?_
  exact bind_eq_untrapped rfl fun _ _ => rfl

theorem ofElements_eq_untrapped (config : RuleConfig) (lineEnding : Option LineEnding)
    {elements : List Element} (built : loaded.elements = .ok elements) :
    ofElements config lineEnding loaded.sourcePath loaded.source elements =
      untrapped (Inspection.ofElements config lineEnding loaded.sourcePath loaded.source
        elements) := by
  have accepted := TagRanges.exists_accepted (Dump.Loaded.accepted_of_elements built)
  rw [ofElements, Inspection.ofElements]
  dsimp only
  rw [checkAll_eq_ok, lift_bind]
  cases found : Rule.checkAll { config with
    lineEnding := lineEnding.getD (.detect loaded.source) } elements with
  | nil => rfl
  | cons violation violations =>
      have told : findings (violation :: violations) =
          .ok ((violation :: violations).map .ofViolation) :=
        mapM_eq_ok fun other member => finding_eq_ok room accepted (found ▸ member)
      have made := applyAll_eq_untrapped loaded.source ((violation :: violations).map (·.edit))
      refine bind_eq_untrapped (made ▸ adapt_untrapped) fun _ _ => ?_
      rw [told]
      rfl

theorem inspect_eq_untrapped (config : RuleConfig) (lineEnding : Option LineEnding) :
    inspect config lineEnding loaded =
      untrapped (Inspection.ofLoaded config lineEnding loaded) := by
  refine bind_eq_untrapped (elements_eq_untrapped room ▸ adapt_untrapped) fun _ resolved => ?_
  exact ofElements_eq_untrapped room config lineEnding (mapError_eq_ok.mp resolved)

end Inspections

/-- An inspection does not trap, whatever the source, the ranges of its tags, the configuration and
    the line ending, and neither does any of its parts on its own. A position is found for every
    offset. An element is built from any ranges or refused. Breaks are planned for any attributes
    and any limit, and any batch of edits is made or refused. -/
theorem inspection_never_traps {source : Text} (room : byteSize source + 1 < offsetLimit) :
    lineIndex source = .ok (.ofText source) ∧
    (∀ offset, position (.ofText source) offset = .ok ((LineIndex.ofText source).position offset)) ∧
    (∀ tag ranges, (ofRanges (.ofText source) tag ranges).run =
      .ok (Element.ofRanges (.ofText source) tag ranges)) ∧
    (∀ limit attributes indent lineEnding,
      planBreaks limit (attributes.splitBy Attribute.continues) indent lineEnding =
        .ok (TagWrap.planBreaks limit (groupByLine attributes) indent lineEnding)) ∧
    (∀ edits, (applyAll source edits).run = .ok (Edit.applyAll source edits)) ∧
    ∀ config lineEnding sourcePath tags,
      (inspect config lineEnding ⟨sourcePath, source, tags⟩).run =
        .ok (Inspection.ofLoaded config lineEnding ⟨sourcePath, source, tags⟩) := by
  refine ⟨lineIndex_eq_ok room, position_eq_ok source, ofRanges_eq_untrapped room, planBreaks_eq_ok,
    applyAll_eq_untrapped source, ?_⟩
  intro config lineEnding sourcePath tags
  exact inspect_eq_untrapped room config lineEnding

/-- The greatest offset has a position, at the end. A tag up to there is refused, and so is an
    attribute that starts inside a character. The tag itself is inspected and fixed. -/
theorem inspection_never_traps_wide :
    let source := "日\n<é b c>".toList
    let loaded : Dump.Loaded :=
      ⟨.ofString "App.jsx", source, [⟨⟨4, 12⟩, [⟨8, 9⟩, ⟨10, 11⟩]⟩]⟩
    byteSize source + 1 < offsetLimit ∧
    position (.ofText source) (offsetLimit - 1) = .ok ⟨12, 1, 7⟩ ∧
    (ofRanges (.ofText source) ⟨4, offsetLimit - 1⟩ []).run =
      .ok (.error (.spanOutOfBounds 4 (offsetLimit - 1) 12)) ∧
    (ofRanges (.ofText source) ⟨4, 12⟩ [⟨6, 9⟩]).run = .ok (.error (.notCharBoundary 6)) ∧
    ∃ inspection, (inspect .default none loaded).run = .ok (.ok inspection) ∧
      inspection.newSource = some "日\n<é b\n   c>".toList := by
  intro source loaded
  have room : byteSize source + 1 < offsetLimit := by decide
  obtain ⟨-, placed, built, -, -, inspected⟩ := inspection_never_traps room
  have shown : (Inspection.ofLoaded .default none loaded).toOption.bind (·.newSource) =
      some "日\n<é b\n   c>".toList := by decide +kernel
  refine ⟨room, placed _, built _ _, built _ _, ?_⟩
  cases done : Inspection.ofLoaded .default none loaded with
  | error reason =>
      rw [done] at shown
      contradiction
  | ok inspection =>
      rw [done] at shown
      exact ⟨inspection, (inspected .default none _ _).trans (congrArg Except.ok done), shown⟩

end Checked

end TagWrap
