import TagWrap.Proofs.Bookkeeping
import TagWrap.Proofs.Steps
import TagWrap.Run

/-!
# What a run writes

A write needs a file that can be opened, and changes what that file holds. It never turns a
directory into a file and guards nothing, so paths lead where they led before and the files that
could be opened still can. Hence what is told about a result does not depend on the results that
were settled before it (`settleAll_events`). Of several texts that are written to one file the last
one stays, and all other files stay as they were (`entry?_settleAll`).
-/
namespace TagWrap

/-- Whether an entry is a directory. -/
def Entry.isDirectory : Entry → Bool
  | directory => true
  | file _ => false

namespace FileTree

variable {tree other : FileTree} {working location : Location} {path : Path} {text : Text}

/-- Whether a location that is taken is a directory. -/
def kindAt? (tree : FileTree) (location : Location) : Option Bool :=
  let entry := tree.entry? location
  entry.map Entry.isDirectory

/-- Two trees have directories at the same locations, and files at the same locations. -/
def SameShape (first second : FileTree) : Prop :=
  ∀ location, first.kindAt? location = second.kindAt? location

namespace SameShape

theorem symm (shape : SameShape tree other) : SameShape other tree := fun location =>
  (shape location).symm

/-- Where one tree has a directory, the other has one. -/
theorem directory (shape : SameShape tree other)
    (here : tree.entry? location = some .directory) : other.entry? location = some .directory := by
  have same := shape location
  rw [kindAt?, kindAt?, here] at same
  obtain ⟨entry, found, kind⟩ := Option.map_eq_some_iff.mp same.symm
  cases entry with
  | directory => exact found
  | file content => contradiction

/-- Where one tree has a file, the other has one. -/
theorem file {content : Content} (shape : SameShape tree other)
    (here : tree.entry? location = some (.file content)) :
    ∃ content', other.entry? location = some (.file content') := by
  have same := shape location
  rw [kindAt?, kindAt?, here] at same
  obtain ⟨entry, found, kind⟩ := Option.map_eq_some_iff.mp same.symm
  cases entry with
  | directory => contradiction
  | file content' => exact ⟨content', found⟩

/-- Where one tree has nothing, the other has nothing. -/
theorem missing (shape : SameShape tree other) (here : tree.entry? location = none) :
    other.entry? location = none := by
  have same := shape location
  rw [kindAt?, kindAt?, here] at same
  exact Option.map_eq_none_iff.mp same.symm

end SameShape

/-- Nothing is found behind what is not a directory. -/
theorem follow_of_ne_directory (closed : tree.entry? location ≠ some .directory) (piece : Text)
    (pieces : List Text) :
    tree.follow location (piece :: pieces) = .error .notADirectory := by
  rw [follow]
  split
  · contradiction
  · rfl

/-- Pieces of a path lead to the same location in trees of the same shape. What files hold is never
    looked at on the way. -/
theorem follow_eq (shape : SameShape tree other) (location : Location) (pieces : List Text) :
    tree.follow location pieces = other.follow location pieces := by
  induction pieces generalizing location with
  | nil => rfl
  | cons piece pieces inductionHypothesis =>
      by_cases here : tree.entry? location = some .directory
      · simp only [follow, here, shape.directory here, inductionHypothesis]
        -- Of the entry of the next piece only its being there is looked at.
        cases next : tree.entry? (location ++ [piece]) with
        | none => rw [shape.missing next]
        | some entry =>
            cases entry with
            | directory => rw [shape.directory next]
            | file content =>
                obtain ⟨content', next'⟩ := shape.file next
                rw [next']
      · have there : other.entry? location ≠ some .directory := fun open' =>
          here (shape.symm.directory open')
        rw [follow_of_ne_directory here, follow_of_ne_directory there]

/-- Paths lead to the same location in trees of the same shape. -/
theorem locate_eq (shape : SameShape tree other) (working : Location) (path : Path) :
    tree.locate working path = other.locate working path := by
  simp only [locate, follow_eq shape]

/-- Whether a path leads to a location. -/
def leadsTo (tree : FileTree) (working location : Location) (path : Path) : Bool :=
  match tree.locate working path with
  | .ok found => found == location
  | .error _ => false

theorem leadsTo_iff :
    tree.leadsTo working location path = true ↔ tree.locate working path = .ok location := by
  unfold leadsTo
  cases tree.locate working path <;> simp

theorem leadsTo_eq (shape : SameShape tree other) (working location : Location) (path : Path) :
    tree.leadsTo working location path = other.leadsTo working location path := by
  simp only [leadsTo, locate_eq shape]

/-- A text is read where a path leads to a file that holds it. -/
theorem readText_eq_ok_iff : tree.readText working path = .ok text ↔
    ∃ location, tree.locate working path = .ok location ∧
      tree.entry? location = some (.file (.text text)) := by
  simp only [readText, lookup, bind_eq_ok]
  constructor
  · rintro ⟨entry, ⟨location, located, found⟩, read⟩
    refine ⟨location, located, ?_⟩
    cases held : tree.entry? location with
    | none =>
        rw [held] at found
        cases found
    | some other =>
        rw [held] at found
        cases pure_eq_ok.mp found
        rcases entry with - | (content | bytes)
        · cases read
        · cases pure_eq_ok.mp read
          rfl
        · cases read
  · rintro ⟨location, located, held⟩
    exact ⟨.file (.text text), ⟨location, located, by rw [held]; rfl⟩, rfl⟩

/-- A write changes the entry at its location, and no other. -/
theorem entry?_writeAt (tree : FileTree) (location : Location) (text : Text) (place : Location) :
    FileTree.entry? (tree.writeAt location text) place =
      if place = location ∧ place ≠ [] then
        Option.map (fun _ => .file (.text text)) <| tree.entry? place
      else tree.entry? place := by
  by_cases root : place = []
  · simp [ entry?, root]
  · have kept : ((fun entry : Location × Entry => decide (entry.1 = place)) ∘
        fun entry => if entry.1 = location then (entry.1, .file (.text text)) else entry) =
          fun entry => decide (entry.1 = place) := by
      funext entry
      by_cases written : entry.1 = location <;> simp [written]
    simp only [ entry?, writeAt, root, if_false, List.find?_map, kept, Option.map_map]
    cases found : tree.entries.find? fun entry => decide (entry.1 = place) with
    | none => simp
    | some entry =>
        have here : entry.1 = place := by simpa using List.find?_some found
        by_cases written : place = location
        · subst written
          simp [here, root]
        · simp [here, written]

/-- A file holds the text that was written to it. -/
theorem entry?_writeAt_self {content : Content}
    (file : tree.entry? location = some (.file content)) :
    FileTree.entry? (tree.writeAt location text) location = some (.file (.text text)) := by
  have named : location ≠ [] := by
    rintro rfl
    simp [ entry?] at file
  rw [entry?_writeAt, if_pos ⟨rfl, named⟩, file]
  rfl

/-- A write to another location leaves an entry as it is. -/
theorem entry?_writeAt_of_ne {place : Location} (other : place ≠ location) :
    FileTree.entry? (tree.writeAt location text) place = tree.entry? place := by
  rw [entry?_writeAt, if_neg fun both => other both.1]

/-- Two trees are alike for those who write: they have the same shape, and the same files are
    guarded for the same reasons. -/
structure Alike (first second : FileTree) : Prop where
  shape : SameShape first second
  guards : ∀ location, first.guard? location = second.guard? location

/-- A file is opened where a path leads to it and it is not guarded. -/
theorem openFile_eq_ok_iff : tree.openFile working path = .ok location ↔
    tree.locate working path = .ok location ∧
      (∃ content, tree.entry? location = some (.file content)) ∧
      tree.guard? location = none := by
  rw [openFile, bind_eq_ok]
  constructor
  · rintro ⟨found, located, opened⟩
    split at opened
    next => contradiction
    next => contradiction
    next => contradiction
    next content held free =>
      obtain rfl := pure_eq_ok.mp opened
      exact ⟨located, ⟨content, held⟩, free⟩
  · rintro ⟨located, ⟨content, held⟩, free⟩
    refine ⟨location, located, ?_⟩
    rw [held, free]
    rfl

/-- The same files are opened in trees that are alike, and others are refused for the same
    reasons. -/
theorem openFile_eq (alike : Alike tree other) (working : Location) (path : Path) :
    tree.openFile working path = other.openFile working path := by
  rw [openFile, openFile, locate_eq alike.shape]
  cases other.locate working path with
  | error error => rfl
  | ok location =>
      simp only [bind, Except.bind, alike.guards]
      -- Of the entry only its kind is looked at.
      cases here : tree.entry? location with
      | none => rw [alike.shape.missing here]
      | some entry =>
          cases entry with
          | directory => rw [alike.shape.directory here]
          | file content =>
              obtain ⟨content', there⟩ := alike.shape.file here
              rw [there]
              cases other.guard? location <;> rfl

/-- A file that can be opened is written. -/
theorem write_of_opened (opened : tree.openFile working path = .ok location) :
    tree.write working path text = .ok (tree.writeAt location text) := by
  rw [write, opened]
  rfl

/-- A file that cannot be opened is not written, for the same reason. -/
theorem write_of_refused {reason : FileError}
    (refused : tree.openFile working path = .error reason) :
    tree.write working path text = .error reason := by
  rw [write, refused]
  rfl

/-- A write to a file leaves a tree that is alike. -/
theorem alike_writeAt {content : Content} (file : tree.entry? location = some (.file content)) :
    Alike (tree.writeAt location text) tree where
  shape := by
    intro place
    rw [kindAt?, kindAt?]
    by_cases here : place = location
    · rw [here, entry?_writeAt_self file, file]
      rfl
    · rw [entry?_writeAt_of_ne here]
  guards _ := rfl

end FileTree

/-- Whether an event is a fix of the file at a location. -/
def Reporter.FileEvent.isFixOf (event : FileEvent) (tree : FileTree) (working location : Location) :
    Bool :=
  match event with
  | fix path _ => tree.leadsTo working location path
  | _ => false

namespace Run

open FileTree

variable {tree other : FileTree} {working location : Location} {fixing : Bool} {result : Result}
  {results : List Result}

/-- The source that a result would mend, with its new text. -/
def Result.mended? (result : Result) : Option (Path × Text) :=
  match result.inspection with
  | .error _ => none
  | .ok inspection => inspection.newSource.map (inspection.sourcePath, ·)

/-- What is told about a result that is settled in a tree. -/
def Result.event (result : Result) (tree : FileTree) (working : Location) (fixing : Bool) :
    Reporter.FileEvent :=
  (result.settle tree working fixing).1

/-- Whether a run that fixes tells of a result as a fix of the file at a location. -/
def Result.isFixOf (tree : FileTree) (working location : Location) (result : Result) : Bool :=
  (result.event tree working true).isFixOf tree working location

/-! ## One result -/

/-- A run that fixes can write the new source of a result to the file at a location. -/
def Result.Lands (result : Result) (tree : FileTree) (working location : Location)
    (newSource : Text) : Prop :=
  ∃ path, result.mended? = some (path, newSource) ∧ tree.openFile working path = .ok location

/-- There is one file at most that the new source of a result is for. -/
theorem Result.Lands.unique {location' : Location} {newSource newSource' : Text}
    (lands : result.Lands tree working location newSource)
    (lands' : result.Lands tree working location' newSource') :
    location = location' ∧ newSource = newSource' := by
  obtain ⟨path, mended, opened⟩ := lands
  obtain ⟨path', mended', opened'⟩ := lands'
  obtain ⟨rfl, rfl⟩ := Prod.mk.inj (Option.some.inj (mended.symm.trans mended'))
  exact ⟨Except.ok.inj (opened.symm.trans opened'), rfl⟩

/-- A result is settled in one of two ways. If the run fixes and the new source can be written, then
    it is written and a fix of the file is told. Otherwise the tree stays as it is and no fix is
    told. -/
theorem Result.settle_cases (result : Result) (tree : FileTree) (working : Location)
    (fixing : Bool) :
    (∃ location newSource, fixing = true ∧ result.Lands tree working location newSource ∧
        (result.settle tree working fixing).2 = tree.writeAt location newSource ∧
        ∃ path findings, (result.settle tree working fixing).1 = .fix path findings ∧
          tree.locate working path = .ok location) ∨
      (fixing = true → ∀ location newSource, ¬ result.Lands tree working location newSource) ∧
        (result.settle tree working fixing).2 = tree ∧
        ∀ path findings, (result.settle tree working fixing).1 ≠ .fix path findings := by
  obtain ⟨dump, inspected⟩ := result
  cases inspected with
  | error error => exact .inr ⟨fun _ _ _ => nofun, rfl, nofun⟩
  | ok inspection =>
      obtain ⟨path, findings, oldSource, newSource⟩ := inspection
      cases newSource with
      | none => exact .inr ⟨fun _ _ _ => nofun, rfl, nofun⟩
      | some newSource =>
          cases fixing with
          | false => exact .inr ⟨nofun, rfl, nofun⟩
          | true =>
              cases opened : tree.openFile working path with
              | error error =>
                  right
                  have refused : tree.write working path newSource = .error error :=
                    write_of_refused opened
                  refine ⟨?_, by simp [settle, refused], by simp [settle, refused]⟩
                  rintro - location text ⟨_, mended, lands⟩
                  obtain ⟨rfl, rfl⟩ := Prod.mk.inj (Option.some.inj mended)
                  exact absurd (opened.symm.trans lands) nofun
              | ok location =>
                  left
                  have written : tree.write working path newSource =
                      .ok (tree.writeAt location newSource) := write_of_opened opened
                  have located := (openFile_eq_ok_iff.mp opened).1
                  exact ⟨location, newSource, rfl, ⟨path, rfl, opened⟩, by simp [settle, written],
                    path, findings, by simp [settle, written], located⟩

/-- A result that is settled leaves a tree that is alike. -/
theorem Result.alike_settle (result : Result) (tree : FileTree) (working : Location)
    (fixing : Bool) : Alike (result.settle tree working fixing).2 tree := by
  obtain ⟨location, newSource, -, ⟨path, -, opened⟩, after, -⟩ | ⟨-, after, -⟩ :=
    result.settle_cases tree working fixing
  · obtain ⟨-, ⟨content, held⟩, -⟩ := openFile_eq_ok_iff.mp opened
    rw [after]
    exact alike_writeAt held
  · rw [after]
    exact ⟨fun _ => rfl, fun _ => rfl⟩

/-- The same is told about a result in trees that are alike. -/
theorem Result.event_eq (alike : Alike tree other) (result : Result) (working : Location)
    (fixing : Bool) : result.event tree working fixing = result.event other working fixing := by
  obtain ⟨dump, error | ⟨path, findings, oldSource, newSource⟩⟩ := result
  · rfl
  · cases newSource with
    | none => rfl
    | some newSource =>
        cases fixing with
        | false => rfl
        | true =>
            simp only [event, settle, FileTree.write, openFile_eq alike]
            cases other.openFile working path <;> rfl

/-- A fix of a file is told where its new source can be written. -/
theorem Result.isFixOf_iff : result.isFixOf tree working location = true ↔
    ∃ newSource, result.Lands tree working location newSource := by
  obtain ⟨place, newSource, -, lands, -, path, findings, told, located⟩ | ⟨astray, -, other⟩ :=
    result.settle_cases tree working true
  · have same : result.isFixOf tree working location = true ↔ place = location := by
      rw [isFixOf, event, told, Reporter.FileEvent.isFixOf, leadsTo_iff, located]
      simp
    rw [same]
    constructor
    · rintro rfl
      exact ⟨newSource, lands⟩
    · rintro ⟨text, lands'⟩
      exact (lands.unique lands').1
  · have untold : result.isFixOf tree working location = false := by
      rw [isFixOf, event]
      unfold Reporter.FileEvent.isFixOf
      split
      next path findings told => exact absurd told (other path findings)
      next => rfl
    simp [untold, astray rfl location]

/-- A run that does not fix leaves the tree as it is. -/
theorem Result.settle_checking (result : Result) (tree : FileTree) (working : Location) :
    (result.settle tree working false).2 = tree := by
  obtain ⟨_, _, fixing, -⟩ | ⟨-, after, -⟩ := result.settle_cases tree working false
  · contradiction
  · exact after

/-- A result that is told as an error leaves the tree as it is. -/
theorem Result.settle_of_isError (result : Result)
    (failed : (result.event tree working fixing).isError = true) :
    (result.settle tree working fixing).2 = tree := by
  obtain ⟨_, _, -, -, -, path, findings, told, -⟩ | ⟨-, after, -⟩ :=
    result.settle_cases tree working fixing
  · rw [event, told] at failed
    contradiction
  · exact after

/-- A file that a fix is told of holds the new source. -/
theorem Result.entry?_settle {newSource : Text}
    (lands : result.Lands tree working location newSource) :
    FileTree.entry? (result.settle tree working true).2 location =
      some (.file (.text newSource)) := by
  obtain ⟨place, text, -, lands', after, -⟩ | ⟨astray, -⟩ := result.settle_cases tree working true
  · obtain ⟨rfl, rfl⟩ := lands.unique lands'
    obtain ⟨path, -, opened⟩ := lands
    obtain ⟨-, ⟨content, held⟩, -⟩ := openFile_eq_ok_iff.mp opened
    rw [after]
    exact entry?_writeAt_self held
  · exact absurd lands (astray rfl location newSource)

/-- An entry that no fix is told of stays as it is. -/
theorem Result.entry?_settle_of_not_fix (untold : ¬ result.isFixOf tree working location = true) :
    FileTree.entry? (result.settle tree working true).2 location = tree.entry? location := by
  obtain ⟨place, newSource, -, lands, after, -⟩ | ⟨-, after, -⟩ :=
    result.settle_cases tree working true
  · rw [after]
    apply entry?_writeAt_of_ne
    rintro rfl
    exact untold (isFixOf_iff.mpr ⟨newSource, lands⟩)
  · rw [after]

/-! ## All results -/

/-- The same results are fixes of a file in trees that are alike. -/
theorem Result.isFixOf_eq (alike : Alike tree other) (working location : Location) :
    isFixOf tree working location = isFixOf other working location := by
  funext result
  have same : tree.leadsTo working location = other.leadsTo working location :=
    funext (leadsTo_eq alike.shape working location)
  rw [isFixOf, isFixOf, event_eq alike]
  unfold Reporter.FileEvent.isFixOf
  rw [same]

/-- About each result the same is told as if it were the first one. -/
theorem settleAll_events (tree : FileTree) (working : Location) (fixing : Bool)
    (results : List Result) :
    (settleAll tree working fixing results).1 =
      results.map fun result => result.event tree working fixing := by
  induction results generalizing tree with
  | nil => rfl
  | cons result results inductionHypothesis =>
      have alike := result.alike_settle tree working fixing
      have others : (settleAll (result.settle tree working fixing).2 working fixing results).1 =
          results.map fun later => later.event tree working fixing := by
        rw [inductionHypothesis]
        exact List.map_congr_left fun later _ => later.event_eq alike working fixing
      rw [List.map_cons, ← others]
      rfl

/-- A run that does not fix leaves the tree as it was. -/
theorem settleAll_checking (tree : FileTree) (working : Location) (results : List Result) :
    (settleAll tree working false results).2 = tree := by
  induction results with
  | nil => rfl
  | cons result results inductionHypothesis =>
      have kept := result.settle_checking tree working
      change (settleAll (result.settle tree working false).2 working false results).2 = tree
      rw [kept, inductionHypothesis]

/-- Results that are told as errors leave no trace in the tree. -/
theorem settleAll_filter {kept : Result → Bool}
    (dropped : ∀ result ∈ results, ¬ kept result = true →
      (result.event tree working fixing).isError = true) :
    (settleAll tree working fixing (results.filter kept)).2 =
      (settleAll tree working fixing results).2 := by
  induction results generalizing tree with
  | nil => rfl
  | cons result results inductionHypothesis =>
      have alike := result.alike_settle tree working fixing
      have others :
          (settleAll (result.settle tree working fixing).2 working fixing (results.filter kept)).2 =
            (settleAll (result.settle tree working fixing).2 working fixing results).2 := by
        apply inductionHypothesis
        intro later listed out
        rw [later.event_eq alike]
        exact dropped later (List.mem_cons_of_mem _ listed) out
      by_cases stays : kept result = true
      · rw [List.filter_cons_of_pos stays]
        exact others
      · have untouched := result.settle_of_isError (dropped result List.mem_cons_self stays)
        rw [untouched] at others
        rw [List.filter_cons_of_neg stays, others]
        change _ = (settleAll (result.settle tree working fixing).2 working fixing results).2
        rw [untouched]

/-- A run that fixes leaves in each file the new source of the last result that is told as a fix of
    it, and all else as it was.

    The induction is on the results. After the first one all later ones are still fixes of the files
    that they were fixes of, so what is written stays unless a later result is for the same file. -/
theorem entry?_settleAll (tree : FileTree) (working location : Location) (results : List Result) :
    FileTree.entry? (settleAll tree working true results).2 location =
      match (results.filter (Result.isFixOf tree working location)).getLast?.bind
        Result.mended? with
      | none => tree.entry? location
      | some (_, newSource) => some (.file (.text newSource)) := by
  induction results generalizing tree with
  | nil => rfl
  | cons result results inductionHypothesis =>
      have alike := result.alike_settle tree working true
      change FileTree.entry? (settleAll (result.settle tree working true).2 working true results).2
        location = _
      rw [inductionHypothesis, Result.isFixOf_eq alike]
      by_cases fixes : result.isFixOf tree working location = true
      · obtain ⟨newSource, lands⟩ := Result.isFixOf_iff.mp fixes
        obtain ⟨path, mended, -⟩ := id lands
        rw [List.filter_cons_of_pos fixes, List.getLast?_cons, Result.entry?_settle lands]
        cases last : (results.filter (Result.isFixOf tree working location)).getLast? with
        | none => simp [mended]
        | some later =>
            have listed := List.mem_of_getLast? last
            obtain ⟨text, path', mended', -⟩ :=
              Result.isFixOf_iff.mp (List.mem_filter.mp listed).2
            simp [mended']
      · rw [List.filter_cons_of_neg fixes, Result.entry?_settle_of_not_fix fixes]

end Run

end TagWrap
