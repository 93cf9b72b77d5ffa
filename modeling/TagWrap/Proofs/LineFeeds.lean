import TagWrap.Proofs.Carry
import TagWrap.Proofs.NewLines

/-!
# The lines of a fixed source

An edit of the rule takes no line feed out of the source, so it never reaches across one. A splice
whose edits do not reach across a piece of the source keeps the piece and puts it where its start
is carried to (`Edit.Spliced.exists_kept`). So each line feed of the source is found again, all of
them in their order, and the lines that the fix adds are those of its edits (`lines_of_fixed`).
-/
namespace TagWrap

open Text

/-- A line feed stands at an offset of a text. -/
def Text.FeedAt (text : Text) (offset : Nat) : Prop :=
  ∃ front back, text = front ++ '\n' :: back ∧ byteSize front = offset

namespace Edit

/-- The edits that stop at or before an offset. -/
def upTo (edits : List Edit) (offset : Nat) : List Edit :=
  edits.filter fun edit => edit.stop ≤ offset

/-- Edits in increasing order of which none reaches across a piece of the source are those before
    the piece and then those behind it. -/
theorem exists_upTo {edits : List Edit} {low high : Nat} (filled : low < high)
    (increasing : edits.Pairwise Precedes) (forward : ∀ edit ∈ edits, edit.start ≤ edit.stop)
    (clear : ∀ edit ∈ edits, edit.stop ≤ low ∨ high ≤ edit.start) :
    ∃ later, edits = upTo edits low ++ later ∧ ∀ edit ∈ later, high ≤ edit.start := by
  have behind : ∀ edit ∈ edits.filter (fun edit => !decide (edit.stop ≤ low)),
      high ≤ edit.start := by
    intro edit member
    obtain ⟨listed, late⟩ := List.mem_filter.mp member
    have placed := clear edit listed
    simp only [Bool.not_eq_true', decide_eq_false_iff_not] at late
    omega
  refine ⟨edits.filter fun edit => !decide (edit.stop ≤ low), ?_, behind⟩
  refine increasing_unique (List.filter_append_perm _ edits).symm increasing ?_
  refine List.pairwise_append.mpr ⟨increasing.filter _, increasing.filter _, ?_⟩
  intro edit early other late
  obtain ⟨listed, before⟩ := List.mem_filter.mp early
  rw [decide_eq_true_iff] at before
  have runs := forward edit listed
  have beyond := behind other late
  exact ⟨by omega, by omega⟩

/-- A splice keeps a piece of the source that none of its edits reaches across. In front of it
    stands the splice of the front of the source by the edits before the piece. -/
theorem Spliced.exists_kept {front piece back result : Text} {edits : List Edit}
    (spliced : Spliced 0 (front ++ piece ++ back) edits result) (filled : 0 < byteSize piece)
    (increasing : edits.Pairwise Precedes)
    (clear : ∀ edit ∈ edits,
      edit.stop ≤ byteSize front ∨ byteSize (front ++ piece) ≤ edit.start) :
    ∃ front' back', result = front' ++ piece ++ back' ∧
      Spliced 0 front (upTo edits (byteSize front)) front' := by
  have forward : ∀ edit ∈ edits, edit.start ≤ edit.stop := fun edit member =>
    (spliced.bounds edit member).2.1
  obtain ⟨later, parted, behind⟩ := exists_upTo
    (show byteSize front < byteSize (front ++ piece) by rw [byteSize_append]; omega)
    increasing forward clear
  rw [parted, List.append_assoc] at spliced
  rw [byteSize_append] at behind
  obtain ⟨front', rest, rfl, low, high⟩ := spliced.split
    (fun edit member => by simpa using (List.mem_filter.mp member).2)
    (fun edit member => by have := behind edit member; omega)
  have unedited : Spliced (0 + byteSize front) (piece ++ back) ([] ++ later) rest := high
  obtain ⟨piece', back', rfl, kept, -⟩ := unedited.split (by simp)
    (fun edit member => by have := behind edit member; omega)
  rw [nil_iff.mp kept]
  exact ⟨front', back', by simp, low⟩

/-- The front of a source is carried to where its splice ends. -/
theorem Spliced.carry_front {front front' : Text} {edits : List Edit}
    (spliced : Spliced 0 front (upTo edits (byteSize front)) front') :
    carry edits (byteSize front) = byteSize front' := by
  have grown := spliced.byteSize_result
  rw [carry, shift]
  rw [upTo] at grown
  omega

/-- An edit that takes no line feed out of a source does not reach across a line feed. -/
theorem AddsLine.clear {front back : Text} {edit : Edit}
    (adds : AddsLine (front ++ '\n' :: back) edit) :
    edit.stop ≤ byteSize front ∨ byteSize (front ++ ['\n']) ≤ edit.start := by
  obtain ⟨gone, ⟨before, after, whole, begins, ends⟩, lineless, -⟩ := adds
  by_contra reached
  rw [not_or, byteSize_append] at reached
  have width : byteSize ['\n'] = 1 := by decide
  obtain ⟨low, rfl, rest⟩ := exists_between
    (show before ++ (gone ++ after) = front ++ '\n' :: back by rw [whole]; simp) (by omega)
  rw [byteSize_append] at reached
  obtain ⟨high, rfl, feed⟩ := exists_between rest.symm (by omega)
  rw [byteSize_append] at ends
  cases high with
  | nil =>
      rw [byteSize_nil] at ends
      omega
  | cons first others =>
      obtain rfl : '\n' = first := (List.cons.inj feed).1
      exact lineless (by simp)

section Feeds

variable {source fixed : Text} {edits : List Edit} (adds : ∀ edit ∈ edits, AddsLine source edit)
  (increasing : edits.Pairwise Precedes) (spliced : Spliced 0 source edits fixed)

include adds increasing spliced

/-- In front of a line feed of the source the fixed source is the splice of what stands there in the
    source, and then the line feed follows. -/
theorem exists_feed {front back : Text} (whole : source = front ++ '\n' :: back) :
    ∃ front' back', fixed = front' ++ '\n' :: back' ∧
      Spliced 0 front (upTo edits (byteSize front)) front' := by
  subst whole
  have cut : front ++ '\n' :: back = front ++ ['\n'] ++ back := by simp
  rw [cut] at spliced
  obtain ⟨front', back', rfl, low⟩ := spliced.exists_kept (by decide) increasing
    (fun edit member => (adds edit member).clear)
  exact ⟨front', back', by simp, low⟩

/-- A line feed is found again where its offset is carried to. -/
theorem feedAt_carry {offset : Nat} (feed : FeedAt source offset) :
    FeedAt fixed (carry edits offset) := by
  obtain ⟨front, back, whole, rfl⟩ := feed
  obtain ⟨front', back', rfl, low⟩ := exists_feed adds increasing spliced whole
  exact ⟨front', back', rfl, low.carry_front.symm⟩

/-- Line feeds keep their order. The edits before the earlier of two line feeds are found among
    those before the later one, and the splice in front of the later one keeps the earlier one. -/
theorem carry_lt_carry {low high : Nat} (feed : FeedAt source low) (later : FeedAt source high)
    (ahead : low < high) : carry edits low < carry edits high := by
  obtain ⟨front, back, whole, rfl⟩ := feed
  obtain ⟨upper, rest, whole', rfl⟩ := later
  obtain ⟨middle, rfl, cut⟩ := exists_between (whole.symm.trans whole') (by omega)
  cases middle with
  | nil => simp at ahead
  | cons first middle =>
      obtain ⟨rfl, rfl⟩ : '\n' = first ∧ back = middle ++ '\n' :: rest := by simpa using cut
      obtain ⟨upper', _, -, high⟩ := exists_feed adds increasing spliced whole'
      have clear : ∀ edit ∈ upTo edits (byteSize (front ++ '\n' :: middle)),
          edit.stop ≤ byteSize front ∨ byteSize (front ++ ['\n']) ≤ edit.start := by
        intro edit member
        exact (whole ▸ adds edit (List.mem_filter.mp member).1).clear
      have cut' : front ++ '\n' :: middle = front ++ ['\n'] ++ middle := by simp
      have fewer : upTo (upTo edits (byteSize (front ++ '\n' :: middle))) (byteSize front) =
          upTo edits (byteSize front) := by
        rw [upTo, upTo, List.filter_filter, upTo]
        refine List.filter_congr fun edit _ => ?_
        rw [Bool.eq_iff_iff]
        simp only [Bool.and_eq_true, decide_eq_true_eq]
        omega
      rw [high.carry_front]
      nth_rewrite 1 [cut'] at high
      obtain ⟨front', back', rfl, low⟩ :=
        high.exists_kept (by decide) (increasing.filter _) clear
      rw [fewer] at low
      rw [low.carry_front, byteSize_append, byteSize_append]
      have width : byteSize ['\n'] = 1 := by decide
      omega

end Feeds

end Edit

/-- A fix adds exactly one line for each violation and takes none away. Whatever elements are
    accepted on a source, and however their tags lie to each other: no edit of an accepted batch
    takes a line feed out of the source, each line feed is found again where the batch carries it,
    all of them in their order, and there are as many lines more as violations. So the fixed source
    differs from the source exactly when there is a violation. -/
theorem lines_of_fixed {source fixed : Text} {elements : List Element} {config : RuleConfig}
    (accepted : ∀ element ∈ elements, ∃ ranges : TagRanges, ranges.Accepted source element)
    (applied : Edit.applyAll source ((Rule.checkAll config elements).map Violation.edit) =
      .ok fixed) :
    let violations := Rule.checkAll config elements
    let edits := violations.map Violation.edit
    (∀ violation ∈ violations, ∃ gone,
      slice? source violation.edit.start violation.edit.stop = some gone ∧ '\n' ∉ gone) ∧
    (∀ offset, FeedAt source offset → FeedAt fixed (Edit.carry edits offset)) ∧
    (∀ low high, FeedAt source low → FeedAt source high → low < high →
      Edit.carry edits low < Edit.carry edits high) ∧
    (LineIndex.ofText fixed).lineCount =
      (LineIndex.ofText source).lineCount + violations.length ∧
    (fixed ≠ source ↔ violations ≠ []) := by
  intro violations edits
  have adds : ∀ edit ∈ edits, Edit.AddsLine source edit := TagRanges.edits_add_lines accepted
  obtain ⟨ordered, same, increasing, spliced⟩ := Edit.applyAll_eq_ok_iff.mp applied
  have addsOrdered : ∀ edit ∈ ordered, Edit.AddsLine source edit := fun edit member =>
    adds edit (same.mem_iff.mp member)
  have counted : fixed.count '\n' = source.count '\n' + violations.length := by
    rw [spliced.count_feed addsOrdered, same.length_eq, List.length_map]
  refine ⟨?lineless, ?found, ?inOrder, ?lines, ?changed⟩
  case lineless =>
    intro violation found
    obtain ⟨gone, takes, lineless, -⟩ := adds violation.edit (List.mem_map_of_mem found)
    exact ⟨gone, slice?_eq_some.mpr takes, lineless⟩
  case found =>
    intro offset feed
    rw [← Edit.carry_perm same]
    exact Edit.feedAt_carry addsOrdered increasing spliced feed
  case inOrder =>
    intro low high feed later ahead
    rw [← Edit.carry_perm same, ← Edit.carry_perm same]
    exact Edit.carry_lt_carry addsOrdered increasing spliced feed later ahead
  case lines =>
    rw [LineIndex.lineCount_ofText, LineIndex.lineCount_ofText, counted]
    omega
  case changed =>
    constructor
    · intro changed none
      apply changed
      rw [show Rule.checkAll config elements = [] from none] at same
      rw [same.eq_nil] at spliced
      exact Edit.Spliced.nil_iff.mp spliced
    · rintro some rfl
      have positive := List.length_pos_of_ne_nil some
      omega

/-- A line feed inside a tag stays, and the attribute behind it moves to a line of its own. -/
theorem lines_of_fixed_broken_tag :
    ∃ element, TagRanges.Accepted "<A\n b c>".toList ⟨⟨0, 8⟩, [⟨4, 5⟩, ⟨6, 7⟩]⟩ element ∧
      Edit.applyAll "<A\n b c>".toList
        ((Rule.checkAll ⟨.flat 1, .always, .lf⟩ [element]).map Violation.edit) =
          .ok "<A\n b\n c>".toList ∧
      FeedAt "<A\n b\n c>".toList (Edit.carry
        ((Rule.checkAll ⟨.flat 1, .always, .lf⟩ [element]).map Violation.edit) 2) ∧
      (LineIndex.ofText "<A\n b\n c>".toList).lineCount =
        (LineIndex.ofText "<A\n b c>".toList).lineCount +
          (Rule.checkAll ⟨.flat 1, .always, .lf⟩ [element]).length := by
  have accepted : ∃ element,
      TagRanges.Accepted "<A\n b c>".toList ⟨⟨0, 8⟩, [⟨4, 5⟩, ⟨6, 7⟩]⟩ element ∧
      Edit.applyAll "<A\n b c>".toList
        ((Rule.checkAll ⟨.flat 1, .always, .lf⟩ [element]).map Violation.edit) =
          .ok "<A\n b\n c>".toList := ⟨_, rfl, by decide +kernel⟩
  obtain ⟨element, built, applied⟩ := accepted
  have feed : FeedAt "<A\n b c>".toList 2 := ⟨"<A".toList, " b c>".toList, by decide, by decide⟩
  obtain ⟨-, found, -, lines, -⟩ := lines_of_fixed
    (fun other member => ⟨_, List.mem_singleton.mp member ▸ built⟩) applied
  exact ⟨element, built, applied, found 2 feed, lines⟩

end TagWrap
