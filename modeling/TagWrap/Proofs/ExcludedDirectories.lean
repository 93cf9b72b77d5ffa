import TagWrap.Exclusion

/-!
# Excluded directories

A pattern that ends in slashes excludes what lies below the directory in front of them. The check
looks for the name of the directory in the text of a path, between two slashes or at the start and
in front of a slash. The pieces of a path are what stands between its slashes, so what is found in
this way is a row of whole pieces, and there is a piece behind it (`below_iff`).

A pattern is also read as a glob pattern. Without a sign that has a meaning there it stands for its
own text only, and a text that ends in slashes is no name at the end of a path. As the text of a
whole path it lies below the directory itself. So globs exclude nothing more, and
`directories_match_whole_pieces` is about pieces alone.
-/
namespace TagWrap

namespace Path

/-- Every text has a piece. -/
theorem pieces_ne_nil (text : Text) : pieces text ≠ [] := by
  intro none
  have whole := ofPieces_pieces text
  rw [none, ofPieces] at whole
  subst whole
  contradiction

/-- A slash ends a piece: the pieces around it are those of the two texts that it parts. -/
theorem pieces_append_slash (front back : Text) :
    pieces (front ++ '/' :: back) = pieces front ++ pieces back := by
  induction front with
  | nil => simp [pieces]
  | cons char rest inductionHypothesis =>
      by_cases slash : char = '/'
      · simp [pieces, slash, inductionHypothesis]
      · obtain ⟨piece, others, split⟩ := List.exists_cons_of_ne_nil (pieces_ne_nil rest)
        simp [pieces, slash, inductionHypothesis, split]

/-- A text is determined by its pieces. -/
theorem pieces_injective {first second : Text} (same : pieces first = pieces second) :
    first = second := by
  rw [← ofPieces_pieces first, same, ofPieces_pieces]

/-- There is no slash in a piece. -/
theorem slash_not_mem_piece {text piece : Text} (listed : piece ∈ pieces text) : '/' ∉ piece := by
  induction text generalizing piece with
  | nil => simp_all [pieces]
  | cons char rest inductionHypothesis =>
      by_cases slash : char = '/'
      · simp only [pieces, slash, if_true, List.mem_cons] at listed
        rcases listed with rfl | later
        · exact List.not_mem_nil
        · exact inductionHypothesis later
      · obtain ⟨first, others, split⟩ := List.exists_cons_of_ne_nil (pieces_ne_nil rest)
        simp only [pieces, slash, if_false, split, List.mem_cons] at listed
        rcases listed with rfl | later
        · have front := inductionHypothesis (split ▸ List.mem_cons_self)
          simp [front, Ne.symm slash]
        · exact inductionHypothesis (split ▸ List.mem_cons_of_mem first later)

/-- Where the pieces of a text fall into two rows there is a slash, and the rows are the pieces of
    what stands in front of it and behind it. The induction is on the text: its first character is
    that slash, or it belongs to the first row. -/
theorem exists_slash {text : Text} {before after : List Text} (cut : pieces text = before ++ after)
    (opened : before ≠ []) (closed : after ≠ []) :
    ∃ front back, text = front ++ '/' :: back ∧ pieces front = before ∧ pieces back = after := by
  induction text generalizing before with
  | nil =>
      obtain ⟨first, others, rfl⟩ := List.exists_cons_of_ne_nil opened
      obtain ⟨-, none⟩ := List.cons.inj cut
      exact absurd (List.nil_eq_append_iff.mp none).2 closed
  | cons char rest inductionHypothesis =>
      obtain ⟨first, others, rfl⟩ := List.exists_cons_of_ne_nil opened
      by_cases slash : char = '/'
      · rw [pieces, if_pos slash] at cut
        obtain ⟨rfl, later⟩ := List.cons.inj cut
        by_cases last : others = []
        · subst last
          exact ⟨[], rest, by simp [slash], rfl, later⟩
        · obtain ⟨front, back, rfl, heads, tails⟩ := inductionHypothesis later last
          exact ⟨'/' :: front, back, by simp [slash], by simp [pieces, heads], tails⟩
      · obtain ⟨piece, remaining, split⟩ := List.exists_cons_of_ne_nil (pieces_ne_nil rest)
        simp only [pieces, slash, if_false, split] at cut
        obtain ⟨rfl, later⟩ := List.cons.inj cut
        have regrouped : pieces rest = (piece :: others) ++ after := by rw [split, later]; rfl
        obtain ⟨front, back, rfl, heads, tails⟩ :=
          inductionHypothesis regrouped (List.cons_ne_nil piece others)
        exact ⟨char :: front, back, rfl, by simp [pieces, slash, heads], tails⟩

/-- The name at the end of a path is one of its pieces. -/
theorem fileName?_mem_pieces {path : Path} {name : Text} (ends : path.fileName? = some name) :
    name ∈ pieces path.text := by
  have last : path.components.getLast? = some (.name name) := by
    rw [fileName?] at ends
    split at ends
    next last => rw [last, Option.some.inj ends]
    next => contradiction
  have listed := List.mem_of_getLast? last
  rw [components] at listed
  rcases List.mem_append.mp listed with front | named
  · split at front
    · simp at front
    · split at front <;> simp at front
  · obtain ⟨piece, member, means⟩ := List.mem_filterMap.mp named
    rw [componentOf?] at means
    split at means
    · contradiction
    · split at means
      · simp at means
      · obtain rfl : piece = name := by simpa using means
        exact member

/-- The pieces of a directory occur in a row among those of a path, in front of its last piece. -/
def LiesBelow (path : Path) (directory : Text) : Prop :=
  ∃ before after, pieces path.text = before ++ pieces directory ++ after ∧ after ≠ []

end Path

namespace Glob

/-- A pattern has no sign that stands for anything but itself. -/
def Plain (pattern : Text) : Prop := ∀ char ∈ pattern, char ≠ '?' ∧ char ≠ '*' ∧ char ≠ '['

instance (pattern : Text) : Decidable (Plain pattern) := List.decidableBAll _ pattern

/-- The tokens of a plain pattern are its characters. -/
theorem tokensFrom_plain {pattern : Text} (plain : Plain pattern) {fuel : Nat}
    (enough : pattern.length ≤ fuel) (previous : Option Char) (written : Nat × Bool) :
    tokensFrom fuel previous written pattern = some (pattern.map .char) := by
  induction pattern generalizing fuel previous written with
  | nil => cases fuel <;> rfl
  | cons char rest inductionHypothesis =>
      obtain ⟨fuel, rfl⟩ : ∃ less, fuel = less + 1 :=
        ⟨fuel - 1, by rw [List.length_cons] at enough; omega⟩
      obtain ⟨notAny, notRun, notClass⟩ := plain char List.mem_cons_self
      have others := inductionHypothesis (fun other member => plain other (.tail char member))
        (Nat.le_of_succ_le_succ enough) (some char) (written.1 + 1, false)
      simp [tokensFrom, notRun, others]

/-- A plain pattern is valid and stands for its own text. -/
theorem tokens?_plain {pattern : Text} (plain : Plain pattern) :
    tokens? pattern = some (pattern.map .char) :=
  tokensFrom_plain plain (Nat.le_succ _) none (0, false)

/-- Characters as tokens stand for the text of the characters only. -/
theorem matchesText_chars {pattern text : Text} :
    matchesText (pattern.map .char) text = true ↔ text = pattern := by
  rw [matchesText_eq]
  induction pattern generalizing text with
  | nil => simp [accepts]
  | cons char rest inductionHypothesis =>
      cases text with
      | nil => simp [accepts]
      | cons first others => simp [accepts, admits, inductionHypothesis]

end Glob

namespace Exclusion

/-- A text occurs in another one where it has a place in it. -/
theorem occursIn_iff {part text : Text} :
    occursIn part text = true ↔ ∃ front back, text = front ++ part ++ back := by
  induction text with
  | nil => simp [occursIn]
  | cons char rest inductionHypothesis =>
      rw [occursIn, Bool.or_eq_true, List.isPrefixOf_iff_prefix, inductionHypothesis]
      constructor
      · rintro (⟨back, here⟩ | ⟨front, back, rfl⟩)
        · exact ⟨[], back, here.symm⟩
        · exact ⟨char :: front, back, rfl⟩
      · rintro ⟨front, back, whole⟩
        cases front with
        | nil => exact Or.inl ⟨back, whole.symm⟩
        | cons first others =>
            obtain ⟨rfl, rfl⟩ := List.cons.inj whole
            exact Or.inr ⟨others, back, rfl⟩

/-- The search for a directory in the text of a path finds whole pieces. What stands between two
    slashes, or between the start and a slash, is a row of pieces, and a row of pieces in front of
    the last one has a slash at either end or stands at the start. -/
theorem below_iff {directory : Text} {path : Path} :
    below directory path = true ↔ path.LiesBelow directory := by
  rw [below, Bool.or_eq_true, occursIn_iff, List.isPrefixOf_iff_prefix]
  constructor
  · rintro (⟨front, back, inside⟩ | ⟨back, begins⟩)
    · refine ⟨Path.pieces front, Path.pieces back, ?_, Path.pieces_ne_nil back⟩
      have parted : path.text = front ++ '/' :: (directory ++ '/' :: back) := by simp [inside]
      rw [parted, Path.pieces_append_slash, Path.pieces_append_slash, List.append_assoc]
    · refine ⟨[], Path.pieces back, ?_, Path.pieces_ne_nil back⟩
      have parted : path.text = directory ++ '/' :: back := by simp [← begins]
      rw [parted, Path.pieces_append_slash, List.nil_append]
  · rintro ⟨before, after, row, more⟩
    have some_row : before ++ Path.pieces directory ≠ [] :=
      List.append_ne_nil_of_right_ne_nil before (Path.pieces_ne_nil directory)
    obtain ⟨upper, back, whole, heads, -⟩ := Path.exists_slash row some_row more
    by_cases first : before = []
    · rw [first, List.nil_append] at heads
      obtain rfl := Path.pieces_injective heads
      exact Or.inr ⟨back, by simp [whole]⟩
    · obtain ⟨front, name, rfl, -, named⟩ :=
        Path.exists_slash heads first (Path.pieces_ne_nil directory)
      obtain rfl := Path.pieces_injective named
      exact Or.inl ⟨front, back, by simp [whole]⟩

/-- A pattern for what lies below a directory: a plain text that does not end in a slash, with one
    slash or more behind it. -/
structure DirectoryPattern where
  directory : Text
  /-- How many slashes stand behind the first one. -/
  moreSlashes : Nat
  plain : Glob.Plain directory
  closed : directory.getLast? ≠ some '/'

namespace DirectoryPattern

/-- The pattern as it is written. -/
def text (pattern : DirectoryPattern) : Text :=
  pattern.directory ++ '/' :: List.replicate pattern.moreSlashes '/'

/-- A slash is a plain sign too. -/
theorem plain_text (pattern : DirectoryPattern) : Glob.Plain pattern.text := by
  intro char member
  rcases List.mem_append.mp member with own | slash
  · exact pattern.plain char own
  · obtain rfl : char = '/' := by
      rw [← List.replicate_succ] at slash
      exact List.eq_of_mem_replicate slash
    decide

/-- The directory is what is left when the slashes at the end are dropped. -/
theorem directory?_text (pattern : DirectoryPattern) :
    directory? pattern.text = some pattern.directory := by
  have slashes : pattern.text =
      pattern.directory ++ List.replicate (pattern.moreSlashes + 1) '/' := rfl
  have ends : pattern.text.getLast? = some '/' := by
    simp [slashes, List.getLast?_append, List.getLast?_replicate]
  have kept : pattern.directory.reverse.dropWhile (· == '/') = pattern.directory.reverse := by
    cases turned : pattern.directory.reverse with
    | nil => rfl
    | cons last others =>
        have last_of : pattern.directory.getLast? = some last := by
          rw [← List.head?_reverse, turned, List.head?_cons]
        have other : last ≠ '/' := fun slash => pattern.closed (slash ▸ last_of)
        exact List.dropWhile_cons_of_neg (by simpa using other)
  rw [directory?, if_pos ends, slashes, List.reverse_append, List.reverse_replicate,
    List.dropWhile_append_of_pos (by simp), kept, List.reverse_reverse]

/-- As a glob the pattern stands for its own text only, which is no name at the end of a path. A path
    of this text lies below the directory. -/
theorem liesBelow_of_excludedByGlob {pattern : DirectoryPattern} {path : Path}
    (excluded : excludedByGlob pattern.text path = true) : path.LiesBelow pattern.directory := by
  rw [excludedByGlob, Glob.tokens?_plain pattern.plain_text] at excluded
  simp only [Bool.or_eq_true, Glob.matchesText_chars] at excluded
  rcases excluded with same | named
  · refine ⟨[], Path.pieces (List.replicate pattern.moreSlashes '/'), ?_, Path.pieces_ne_nil _⟩
    rw [same, text, Path.pieces_append_slash, List.nil_append]
  · split at named
    · rename_i name ends
      rw [Glob.matchesText_chars] at named
      have slashless := Path.slash_not_mem_piece (Path.fileName?_mem_pieces ends)
      subst named
      exact absurd (by simp [text]) slashless
    · contradiction

/-- A pattern for a directory excludes what lies below the directory. -/
theorem excludedBy_iff {pattern : DirectoryPattern} {path : Path} :
    excludedBy path pattern.text = true ↔ path.LiesBelow pattern.directory := by
  rw [excludedBy, Bool.or_eq_true, directory?_text]
  constructor
  · rintro (glob | below)
    · exact liesBelow_of_excludedByGlob glob
    · exact below_iff.mp below
  · intro lies
    exact Or.inr (below_iff.mpr lies)

end DirectoryPattern

end Exclusion

/-- Patterns for directories match whole pieces. They exclude a path exactly when the pieces of one
    of the directories occur in a row among the pieces of the path and end before the last one.

    So a directory does not exclude a path for a piece that only contains its name or goes on behind
    it: no path is excluded by directories each of which has a piece that is none of the pieces of
    the path before the last. -/
theorem directories_match_whole_pieces (patterns : List Exclusion.DirectoryPattern) (path : Path) :
    (Exclusion.excludes (patterns.map Exclusion.DirectoryPattern.text) path = true ↔
      ∃ pattern ∈ patterns, path.LiesBelow pattern.directory) ∧
    ((∀ pattern ∈ patterns, ∃ piece ∈ Path.pieces pattern.directory,
        piece ∉ (Path.pieces path.text).dropLast) →
      Exclusion.excludes (patterns.map Exclusion.DirectoryPattern.text) path = false) := by
  have decided : Exclusion.excludes (patterns.map Exclusion.DirectoryPattern.text) path = true ↔
      ∃ pattern ∈ patterns, path.LiesBelow pattern.directory := by
    simp only [Exclusion.excludes, List.any_map, List.any_eq_true, Function.comp_apply,
      Exclusion.DirectoryPattern.excludedBy_iff]
  refine ⟨decided, fun strange => ?_⟩
  apply Bool.eq_false_iff.mpr
  intro excluded
  obtain ⟨pattern, listed, before, after, row, more⟩ := decided.mp excluded
  obtain ⟨piece, own, absent⟩ := strange pattern listed
  apply absent
  rw [row, List.dropLast_append_of_ne_nil more]
  exact List.mem_append_left _ (List.mem_append_right before own)

/-- The directory `vendor`, with two slashes behind it. -/
def Exclusion.vendorDirectory : Exclusion.DirectoryPattern where
  directory := "vendor".toList
  moreSlashes := 1
  plain := by decide
  closed := by decide

/-- The directory `vendor` excludes what lies below it at the start of a path and further on. It does
    not exclude a file of this name, nor what lies below directories whose names only contain its
    name. -/
theorem directories_match_whole_pieces_vendor :
    Exclusion.excludes ["vendor//".toList] (.ofString "vendor/App.props.json") = true ∧
      Exclusion.excludes ["vendor//".toList] (.ofString "src/vendor/lib/App.props.json") = true ∧
      Exclusion.excludes ["vendor//".toList] (.ofString "vendored/my-vendor/vendor") = false := by
  have decided (path : String) := directories_match_whole_pieces [Exclusion.vendorDirectory]
    (.ofString path)
  refine ⟨(decided _).1.mpr ?start, (decided _).1.mpr ?inside, (decided _).2 ?strange⟩
  case start =>
    exact ⟨_, List.mem_singleton_self _, [], ["App.props.json".toList], by decide +kernel,
      by simp⟩
  case inside =>
    exact ⟨_, List.mem_singleton_self _, ["src".toList],
      ["lib".toList, "App.props.json".toList], by decide +kernel, by simp⟩
  case strange =>
    intro pattern listed
    obtain rfl := List.mem_singleton.mp listed
    exact ⟨"vendor".toList, by decide +kernel, by decide +kernel⟩

end TagWrap
