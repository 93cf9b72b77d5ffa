import TagWrap.Proofs.Hunks
import TagWrap.Proofs.PatchReader

/-!
# Unified diffs can be read

Where no line ends in a carriage return by itself, lines are what stands between line feeds, and
each line of a diff takes one line of its text, or two when it has no end. Reading the text then
gives back what was written: the two files, and each hunk with the numbers of its header and with
its lines (`Patch.Written.cons`, `Patch.Written.read_named`).
-/
namespace TagWrap

open Diff Patch

/-! ## Lines -/

/-- A text with a line feed at its end and nowhere else. -/
def FeedLine (line : Text) : Prop := ∃ shown, line = shown ++ ['\n'] ∧ '\n' ∉ shown

/-- A line of a text that is cut at line feeds: it has one at its end, or it has none at all and is
    not taken for an ended line. -/
def PlainLine (line : Text) : Prop := FeedLine line ∨ '\n' ∉ line ∧ isEnded line = false

/-- No line of a text ends in a carriage return by itself. -/
def NoLoneReturn (text : Text) : Prop := ∀ line ∈ linesOf text, line.getLast? ≠ some '\r'

instance (text : Text) : Decidable (NoLoneReturn text) :=
  inferInstanceAs (Decidable (∀ line ∈ linesOf text, line.getLast? ≠ some '\r'))

/-- A character in front of a line that is not empty leaves the line as plain as it is. -/
theorem PlainLine.push {char : Char} {line : Text} (filled : line ≠ []) (ordinary : char ≠ '\n')
    (plain : PlainLine line) : PlainLine (char :: line) := by
  rcases plain with ⟨shown, rfl, clear⟩ | ⟨clear, open_⟩
  · refine .inl ⟨char :: shown, rfl, ?_⟩
    rw [List.mem_cons, not_or]
    exact ⟨Ne.symm ordinary, clear⟩
  · refine .inr ⟨?_, ?_⟩
    · rw [List.mem_cons, not_or]
      exact ⟨Ne.symm ordinary, clear⟩
    · obtain ⟨first, others, rfl⟩ := List.exists_cons_of_ne_nil filled
      rwa [isEnded, List.getLast?_cons_cons]

namespace Patch

/-- A line feed ends the first line. -/
theorem feedLines_append {shown : Text} (plain : '\n' ∉ shown) (rest : Text) :
    feedLines (shown ++ '\n' :: rest) = (shown ++ ['\n']) :: feedLines rest := by
  induction shown with
  | nil => rfl
  | cons char shown inductionHypothesis =>
      rw [List.mem_cons, not_or] at plain
      rw [List.cons_append, feedLines, inductionHypothesis plain.2]
      · rfl
      · exact fun feed => plain.1 feed.symm

/-- Lines that end with line feeds are read as they are. -/
theorem feedLines_flatten {lines : List Text} (plain : ∀ line ∈ lines, FeedLine line) :
    feedLines lines.flatten = lines := by
  induction lines with
  | nil => rfl
  | cons line lines inductionHypothesis =>
      obtain ⟨shown, rfl, clear⟩ := plain line List.mem_cons_self
      rw [List.flatten_cons, List.append_assoc, List.singleton_append, feedLines_append clear,
        inductionHypothesis fun other member => plain other (List.mem_cons_of_mem _ member)]

end Patch

namespace Diff

/-- No line is empty. -/
theorem ne_nil_of_mem_linesOf (text : Text) : ∀ line ∈ linesOf text, line ≠ [] := by
  fun_induction linesOf text with
  | case1 => simp
  | case2 _ inductionHypothesis => exact List.forall_mem_cons.mpr ⟨by simp, inductionHypothesis⟩
  | case3 _ inductionHypothesis => exact List.forall_mem_cons.mpr ⟨by simp, inductionHypothesis⟩
  | case4 _ _ inductionHypothesis => exact List.forall_mem_cons.mpr ⟨by simp, inductionHypothesis⟩
  | case5 char rest _ _ _ inductionHypothesis =>
      cases split : linesOf rest with
      | nil => simp [pushFront]
      | cons first others =>
          rw [split, List.forall_mem_cons] at inductionHypothesis
          exact List.forall_mem_cons.mpr ⟨by simp, inductionHypothesis.2⟩

section PushFront

variable {char : Char} {lines : List Text} (filled : ∀ line ∈ lines, line ≠ [])

include filled

/-- A character in front of the first line does not change how lines end. -/
theorem last_of_pushFront {last : Char}
    (ends : ∀ line ∈ pushFront char lines, line.getLast? ≠ some last) :
    ∀ line ∈ lines, line.getLast? ≠ some last := by
  cases lines with
  | nil => simp
  | cons first others =>
      rw [pushFront, List.forall_mem_cons] at ends
      rw [List.forall_mem_cons] at filled ⊢
      obtain ⟨head, tail, rfl⟩ := List.exists_cons_of_ne_nil filled.1
      rwa [List.getLast?_cons_cons] at ends

/-- A character in front of the first line leaves lines plain if it ends no line itself. -/
theorem plain_pushFront (noFeed : char ≠ '\n') (noReturn : char ≠ '\r')
    (plain : ∀ line ∈ lines, PlainLine line) : ∀ line ∈ pushFront char lines, PlainLine line := by
  cases lines with
  | nil =>
      have open_ : isEnded [char] = (char == '\n' || char == '\r') := rfl
      intro line member
      obtain rfl := List.mem_singleton.mp member
      refine .inr ⟨by simpa using Ne.symm noFeed, ?_⟩
      simpa [open_] using ⟨noFeed, noReturn⟩
  | cons first others =>
      rw [List.forall_mem_cons] at filled plain
      exact List.forall_mem_cons.mpr ⟨plain.1.push filled.1 noFeed, plain.2⟩

end PushFront

/-- Where no line ends in a carriage return by itself, lines end with line feeds. -/
theorem linesOf_eq_feedLines {text : Text} (paired : NoLoneReturn text) :
    linesOf text = feedLines text ∧ ∀ line ∈ linesOf text, PlainLine line := by
  fun_induction linesOf text with
  | case1 => exact ⟨rfl, by simp⟩
  | case2 rest inductionHypothesis =>
      obtain ⟨same, plain⟩ := inductionHypothesis (List.forall_mem_cons.mp paired).2
      refine ⟨by rw [same, feedLines], ?_⟩
      exact List.forall_mem_cons.mpr ⟨.inl ⟨[], rfl, by simp⟩, plain⟩
  | case3 rest inductionHypothesis =>
      obtain ⟨same, plain⟩ := inductionHypothesis (List.forall_mem_cons.mp paired).2
      have cut := @Patch.feedLines_append ['\r'] (by decide) rest
      refine ⟨by rw [same]; exact cut.symm, ?_⟩
      exact List.forall_mem_cons.mpr ⟨.inl ⟨['\r'], rfl, by decide⟩, plain⟩
  | case4 rest unpaired _ =>
      have lone : linesOf ('\r' :: rest) = ['\r'] :: linesOf rest := by
        rw [linesOf]
        exact unpaired
      exact absurd rfl (paired ['\r'] (lone ▸ List.mem_cons_self))
  | case5 char rest noFeed _ noReturn inductionHypothesis =>
      have pushed : linesOf (char :: rest) = pushFront char (linesOf rest) := by
        rw [linesOf] <;> assumption
      have fed : feedLines (char :: rest) = pushFront char (feedLines rest) := by
        rw [feedLines]
        exact noFeed
      have filled := ne_nil_of_mem_linesOf rest
      rw [NoLoneReturn, pushed] at paired
      obtain ⟨same, plain⟩ := inductionHypothesis (last_of_pushFront filled paired)
      rw [fed, ← same]
      exact ⟨rfl, plain_pushFront filled noFeed noReturn plain⟩

end Diff

/-! ## Headers -/

namespace Patch

/-- A number is read as far as its digits go. -/
theorem readNumber_append (number : Nat) (rest : Text)
    (behind : ∀ char ∈ rest.head?, char.isDigit = false) :
    readNumber ((toString number).toList ++ rest) = some (number, rest) := by
  have digits : ∀ char ∈ Nat.toDigits 10 number, char.isDigit = true := fun char member =>
    Nat.isDigit_of_mem_toDigits (by decide) (by decide) member
  have stopped : rest.takeWhile Char.isDigit = [] ∧ rest.dropWhile Char.isDigit = rest := by
    cases rest with
    | nil => exact ⟨rfl, rfl⟩
    | cons char rest =>
        have other := behind char rfl
        simp [other]
  rw [Nat.toString_eq_ofList_toDigits, String.toList_ofList, readNumber,
    List.takeWhile_append_of_pos digits, List.dropWhile_append_of_pos digits, stopped.1, stopped.2,
    List.append_nil]
  rw [if_neg Nat.toDigits_ne_nil, Nat.ofDigitChars_ten_toDigits]

/-- The number that a header names for lines from an index up to another. -/
def rangeStart (start stop : Nat) : Nat := if stop - start = 0 then start else start + 1

/-- The lines before a range are those before its index. -/
theorem linesBefore_rangeStart (start stop : Nat) :
    linesBefore (rangeStart start stop) (stop - start) = start := by
  rw [linesBefore, rangeStart]
  by_cases none : stop - start = 0
  · rw [if_pos none, if_pos none]
  · rw [if_neg none, if_neg none, Nat.add_sub_cancel]

/-- A first line by itself stands for one line. -/
theorem readRange_alone (start : Nat) (rest : Text) :
    readRange ((toString start).toList ++ ' ' :: rest) = some (start, 1, ' ' :: rest) := by
  have read := readNumber_append start (' ' :: rest) (by rintro _ ⟨⟩; decide)
  rw [readRange, read]
  rfl

/-- A first line and a count are read one after the other. -/
theorem readRange_counted (start count : Nat) (rest : Text) :
    readRange ((toString start).toList ++ ',' :: ((toString count).toList ++ ' ' :: rest)) =
      some (start, count, ' ' :: rest) := by
  have first := readNumber_append start (',' :: ((toString count).toList ++ ' ' :: rest)) (by rintro _ ⟨⟩; decide)
  have second := readNumber_append count (' ' :: rest) (by rintro _ ⟨⟩; decide)
  rw [readRange, first]
  simp only [Option.bind_eq_bind, Option.bind_some, second]
  rfl

/-- The lines of a header are read as they were written. -/
theorem readRange_rangeText (start stop : Nat) (rest : Text) :
    readRange ((rangeText start stop).toList ++ ' ' :: rest) =
      some (rangeStart start stop, stop - start, ' ' :: rest) := by
  have same (string : String) : toString string = string := rfl
  rw [rangeText, rangeStart]
  by_cases one : stop - start = 1
  · rw [if_pos one, one]
    exact readRange_alone (start + 1) rest
  · rw [if_neg one]
    by_cases none : stop - start = 0
    · rw [if_pos none, if_pos none, none]
      have read := readRange_counted start 0 rest
      simpa [same] using read
    · rw [if_neg none, if_neg none]
      have read := readRange_counted (start + 1) (stop - start) rest
      simpa [same] using read

/-- The lines of a header have no line feed among them. -/
theorem feed_not_mem_rangeText (start stop : Nat) : '\n' ∉ (rangeText start stop).toList := by
  have plain (number : Nat) : '\n' ∉ Nat.toDigits 10 number := by
    intro member
    have digit := Nat.isDigit_of_mem_toDigits (by decide) (by decide) member
    contradiction
  have same (string : String) : toString string = string := rfl
  rw [rangeText]
  by_cases one : stop - start = 1
  · rw [if_pos one]
    simpa using plain (start + 1)
  · rw [if_neg one]
    by_cases none : stop - start = 0
    · rw [if_pos none]
      simpa [same] using plain start
    · rw [if_neg none]
      simpa [same] using ⟨plain (start + 1), plain (stop - start)⟩

/-- The header of a hunk is read as it was written. -/
theorem exists_headerText {oldAt newAt oldStop newStop : Nat} {hunk : List Piece}
    (filled : hunk ≠ []) (starts : Starts oldAt newAt hunk) (stops : Stops oldStop newStop hunk) :
    ∃ shown, (headerText hunk).toList = ('@' :: shown) ++ ['\n'] ∧ '\n' ∉ '@' :: shown ∧
      readHeader ('@' :: shown ++ ['\n']) = some ⟨rangeStart oldAt oldStop, oldStop - oldAt,
        rangeStart newAt newStop, newStop - newAt, []⟩ := by
  have written : headerText hunk =
      s!"@@ -{rangeText oldAt oldStop} +{rangeText newAt newStop} @@\n" := by
    obtain ⟨first, others, rfl⟩ := List.exists_cons_of_ne_nil filled
    obtain ⟨rfl, rfl⟩ := starts first rfl
    obtain ⟨rfl, rfl⟩ := stops _ (List.getLast?_cons ..)
    rw [headerText, List.getLast?_cons]
    rfl
  refine ⟨'@' :: ' ' :: '-' :: ((rangeText oldAt oldStop).toList ++ ' ' :: '+' ::
    ((rangeText newAt newStop).toList ++ " @@".toList)), ?_, ?_, ?_⟩
  · have same (string : String) : toString string = string := rfl
    rw [written]
    simp [same]
  · have oldPlain := feed_not_mem_rangeText oldAt oldStop
    have newPlain := feed_not_mem_rangeText newAt newStop
    simp [oldPlain, newPlain]
  · have back : (" @@".toList ++ ['\n'] : Text) = ' ' :: "@@\n".toList := rfl
    simp only [List.cons_append, List.append_assoc, back, readHeader]
    rw [readRange_rangeText]
    simp only [Option.bind_eq_bind, Option.bind_some]
    rw [readRange_rangeText]
    rfl

end Patch

/-! ## Lines of hunks -/

namespace Diff

/-- The remark behind a line without an end. -/
def endless : Text := "\\ No newline at end of file\n".toList

/-- The lines of the output for a line of a hunk. -/
def lineParts (line : Mark × Text) : List Text :=
  if isEnded line.2 then [line.1.char :: line.2]
  else [line.1.char :: (line.2 ++ ['\n']), endless]

/-- The lines of the output for a hunk. -/
def hunkParts (old new : List Text) (hunk : List Piece) : List Text :=
  (headerText hunk).toList :: (hunk.flatMap (·.lines old new)).flatMap lineParts

/-- The text of a line is that of its parts. -/
theorem flatten_lineParts (line : Mark × Text) : (lineParts line).flatten = lineText line := by
  rw [lineParts, lineText]
  by_cases ended : isEnded line.2 = true
  · rw [if_pos ended, if_pos ended]
    simp
  · have remark : "\n\\ No newline at end of file\n".toList = '\n' :: endless := rfl
    rw [if_neg ended, if_neg ended, remark]
    simp

/-- The text of items in a row is that of their parts. -/
theorem flatten_flatMap {item : Type} {parts : item → List Text} {text : item → Text}
    (same : ∀ item, (parts item).flatten = text item) (items : List item) :
    (items.flatMap parts).flatten = items.flatMap text := by
  induction items with
  | nil => rfl
  | cons first others inductionHypothesis =>
      rw [List.flatMap_cons, List.flatten_append, same, inductionHypothesis, List.flatMap_cons]

/-- The text of a hunk is that of its parts. -/
theorem flatten_hunkParts (old new : List Text) (hunk : List Piece) :
    (hunkParts old new hunk).flatten = hunkText old new hunk := by
  rw [hunkParts, hunkText, List.flatten_cons, flatten_flatMap flatten_lineParts]

/-- The parts of a plain line end with line feeds. -/
theorem feedLine_of_lineParts {line : Mark × Text} (plain : PlainLine line.2) :
    ∀ part ∈ lineParts line, FeedLine part := by
  obtain ⟨mark, text⟩ := line
  have marked : '\n' ≠ mark.char := by cases mark <;> decide
  rw [lineParts]
  rcases plain with ⟨shown, rfl, clear⟩ | ⟨clear, open_⟩
  · have ended : isEnded (shown ++ ['\n']) = true := by simp [isEnded]
    rw [if_pos ended]
    intro part member
    obtain rfl := List.mem_singleton.mp member
    refine ⟨mark.char :: shown, rfl, ?_⟩
    rw [List.mem_cons, not_or]
    exact ⟨marked, clear⟩
  · rw [if_neg (by simp [open_])]
    intro part member
    rcases List.mem_cons.mp member with rfl | last
    · refine ⟨mark.char :: text, rfl, ?_⟩
      rw [List.mem_cons, not_or]
      exact ⟨marked, clear⟩
    · obtain rfl := List.mem_singleton.mp last
      exact ⟨"\\ No newline at end of file".toList, rfl, by decide⟩

end Diff

namespace Patch

/-- No remark about an end stands at the front of lines. -/
def Unmarked (lines : List Text) : Prop := ∀ next ∈ lines.head?, next.head? ≠ some '\\'

/-- A line without a remark is left as it is. -/
theorem joinMarkers_cons (line : Text) {lines : List Text} (unmarked : Unmarked lines) :
    joinMarkers (line :: lines) = line :: joinMarkers lines := by
  cases lines with
  | nil => rfl
  | cons next lines => rw [joinMarkers, if_neg (unmarked next rfl)]

/-- A line as a hunk shows it. -/
def shownLine (line : Mark × Text) : Text := line.1.char :: line.2

/-- The parts of a line are joined to the line. -/
theorem joinMarkers_lineParts (line : Mark × Text) {lines : List Text}
    (unmarked : Unmarked lines) :
    joinMarkers (lineParts line ++ lines) = shownLine line :: joinMarkers lines ∧
      Unmarked (lineParts line ++ lines) := by
  have marked : some line.1.char ≠ some '\\' := by cases line.1 <;> decide
  rw [lineParts]
  by_cases ended : isEnded line.2 = true
  · rw [if_pos ended]
    constructor
    · exact joinMarkers_cons _ unmarked
    · rintro _ ⟨⟩
      exact marked
  · rw [if_neg ended]
    constructor
    · have remark : endless.head? = some '\\' := rfl
      rw [List.cons_append, List.singleton_append, joinMarkers, if_pos remark, shownLine,
        ← List.cons_append, List.dropLast_concat]
    · rintro _ ⟨⟩
      exact marked

/-- The parts of the lines of a hunk are joined to the lines. -/
theorem joinMarkers_lines (shown : List (Mark × Text)) {lines : List Text}
    (unmarked : Unmarked lines) :
    joinMarkers (shown.flatMap lineParts ++ lines) = shown.map shownLine ++ joinMarkers lines ∧
      Unmarked (shown.flatMap lineParts ++ lines) := by
  induction shown with
  | nil => exact ⟨rfl, unmarked⟩
  | cons line shown inductionHypothesis =>
      obtain ⟨joined, clear⟩ := joinMarkers_lineParts line inductionHypothesis.2
      rw [List.flatMap_cons, List.append_assoc]
      exact ⟨by rw [joined, inductionHypothesis.1]; rfl, clear⟩

/-- The lines of a hunk are read with their marks. -/
theorem readHunks_lines (shown : List (Mark × Text)) {lines : List Text}
    {body : List (Mark × Text)} {hunks : List Hunk} (read : readHunks lines = some (body, hunks)) :
    readHunks (shown.map shownLine ++ lines) = some (shown ++ body, hunks) := by
  induction shown with
  | nil => exact read
  | cons line shown inductionHypothesis =>
      obtain ⟨mark, text⟩ := line
      rw [List.map_cons, List.cons_append, readHunks, inductionHypothesis]
      cases mark <;> rfl

/-- The header of a hunk takes the lines behind it. -/
theorem readHunks_header {rest : Text} {header : Hunk} {lines : List Text}
    {body : List (Mark × Text)} {hunks : List Hunk} (heads : readHeader ('@' :: rest) = some header)
    (read : readHunks lines = some (body, hunks)) :
    readHunks (('@' :: rest) :: lines) = some ([], { header with lines := body } :: hunks) := by
  rw [readHunks, read]
  simp [heads]

/-- Output lines behind the names of the files are read as hunks. -/
structure Written (parts : List Text) (hunks : List Hunk) : Prop where
  fed : ∀ part ∈ parts, FeedLine part
  unmarked : Unmarked parts
  reads : readHunks (joinMarkers parts) = some ([], hunks)

/-- No output is read as no hunks. -/
theorem Written.nil : Written [] [] := ⟨by simp, by simp [Unmarked], rfl⟩

/-- The output for a hunk is read as the hunk. -/
theorem Written.cons {oldAt newAt oldStop newStop : Nat} {hunk : List Piece} {old new : List Text}
    {parts : List Text} {hunks : List Hunk} (filled : hunk ≠ [])
    (starts : Starts oldAt newAt hunk) (stops : Stops oldStop newStop hunk)
    (plain : ∀ line ∈ hunk.flatMap (·.lines old new), PlainLine line.2)
    (written : Written parts hunks) :
    Written (hunkParts old new hunk ++ parts)
      (⟨rangeStart oldAt oldStop, oldStop - oldAt, rangeStart newAt newStop, newStop - newAt,
        hunk.flatMap (·.lines old new)⟩ :: hunks) := by
  obtain ⟨shown, same, clear, heads⟩ := exists_headerText filled starts stops
  obtain ⟨joined, unmarked⟩ :=
    joinMarkers_lines (hunk.flatMap (·.lines old new)) written.unmarked
  rw [hunkParts, same, List.cons_append]
  refine ⟨?fed, ?unmarked, ?reads⟩
  case fed =>
    intro part member
    rcases List.mem_cons.mp member with rfl | later
    · exact ⟨'@' :: shown, rfl, clear⟩
    · rcases List.mem_append.mp later with here | beyond
      · obtain ⟨line, listed, inside⟩ := List.mem_flatMap.mp here
        exact feedLine_of_lineParts (plain line listed) part inside
      · exact written.fed part beyond
  case unmarked =>
    have sign : some '@' ≠ some '\\' := by decide
    rintro _ ⟨⟩
    exact sign
  case reads =>
    rw [joinMarkers_cons _ unmarked, joined]
    have lines := readHunks_lines (hunk.flatMap (·.lines old new)) written.reads
    rw [List.append_nil] at lines
    exact readHunks_header heads lines

/-- A line with the name of a file ends with a line feed. -/
theorem feedLine_of_name {name : String} (mark : Text) (named : '\n' ∉ name.toList)
    (clear : '\n' ∉ mark) : FeedLine (mark ++ name.toList ++ ['\n']) :=
  ⟨mark ++ name.toList, rfl, by simp [named, clear]⟩

/-- The output behind the names of two files is read as its hunks. -/
theorem Written.read_named {name : String} {parts : List Text} {hunks : List Hunk}
    (named : '\n' ∉ name.toList) (written : Written parts hunks) :
    Patch.read (s!"--- a/{name}\n+++ b/{name}\n".toList ++ parts.flatten) = some hunks := by
  have same (string : String) : toString string = string := rfl
  have lines : s!"--- a/{name}\n+++ b/{name}\n".toList ++ parts.flatten =
      (("--- a/".toList ++ name.toList ++ ['\n']) :: ("+++ b/".toList ++ name.toList ++ ['\n']) ::
        parts).flatten := by
    simp [same]
  have fed : ∀ line ∈ ("--- a/".toList ++ name.toList ++ ['\n']) ::
      ("+++ b/".toList ++ name.toList ++ ['\n']) :: parts, FeedLine line := by
    refine List.forall_mem_cons.mpr ⟨feedLine_of_name _ named (by decide), ?_⟩
    exact List.forall_mem_cons.mpr ⟨feedLine_of_name _ named (by decide), written.fed⟩
  have ended : ∀ part ∈ parts, part.getLast? = some '\n' := by
    intro part member
    obtain ⟨shown, rfl, -⟩ := written.fed part member
    simp
  rw [lines, Patch.read, feedLines_flatten fed]
  change (if ∀ part ∈ parts, part.getLast? = some '\n' then _ else _) = _
  rw [if_pos ended, written.reads]

end Patch

end TagWrap
