import TagWrap.Proofs.OptionsFormat
import TagWrap.Proofs.WrittenValues

/-!
# Options that are written are read back

Options are written with what is set in them and without the rest, and they are read in two ways.
The decoder takes the members as they stand in the text. A value has them in the order of their
keys, which for the sides of a maximum is not the order in which they are written, and an array may
stand around it. In both ways each field is found by its name, one that was left out counts as not
set, and a number is never taken for an object, so the options come back as they were
(`options_read_back`).

Numbers below one are options as well. They are written and read like all others and refused only
when a configuration is made, with the error that the options themselves are refused with.
-/
namespace TagWrap

open Json

/-! ## Values in order -/

/-- Members with two names give what is found under the one and under the other. -/
theorem gives_of_lookup {first second : String} {members : List (String × Json)} {left right : Json}
    (known : ∀ member ∈ members, member.1 = first ∨ member.1 = second)
    (isLeft : (members.lookup first).getD .null = left)
    (isRight : (members.lookup second).getD .null = right) :
    Gives first second (.object members) left right := by
  subst isLeft isRight
  exact .byName known

/-- Fields are found by their names, in whichever order these are. -/
theorem gives_ordered {first second : String} (apart : first ≠ second) (left right : Option Json) :
    Gives first second (Json.object (member? first left ++ member? second right)).ordered
      ((left.map ordered).getD .null) ((right.map ordered).getD .null) := by
  have forth : (first == second) = false := beq_eq_false_iff_ne.mpr apart
  have back : (second == first) = false := beq_eq_false_iff_ne.mpr apart.symm
  rcases left with - | left <;> rcases right with - | right
  case none.none =>
    change Gives first second (.object []) .null .null
    exact .byName (by simp)
  case none.some =>
    change Gives first second (.object [(second, right.ordered)]) .null right.ordered
    exact gives_of_lookup (by simp) (by simp [List.lookup_cons, forth]) (by simp)
  case some.none =>
    change Gives first second (.object [(first, left.ordered)]) left.ordered .null
    exact gives_of_lookup (by simp) (by simp) (by simp [List.lookup_cons, back])
  case some.some =>
    change Gives first second (.object (insertMember second right.ordered
      [(first, left.ordered)])) left.ordered right.ordered
    rw [insertMember, if_neg apart.symm, insertMember]
    split
    · exact gives_of_lookup (by simp) (by simp [List.lookup_cons, forth]) (by simp)
    · exact gives_of_lookup (by simp) (by simp) (by simp [List.lookup_cons, back])

/-- A written maximum is a value for that maximum. -/
theorem isMaximum_ordered {written : WrittenMaximum}
    (fits : ∀ number ∈ written.numbers, Word.fits number = true) :
    IsMaximum written.toJson.ordered (some written) := by
  have side : ∀ number : Option Int, (∀ value ∈ number.toList, Word.fits value = true) →
      IsSide (((number.map Json.int).map ordered).getD .null) number := by
    intro number held
    cases number with
    | none => exact .absent
    | some value => exact .number (held value (by simp))
  cases written with
  | flat value => exact .flat (fits value List.mem_cons_self)
  | split sides =>
      obtain ⟨left, right⟩ := List.forall_mem_append.mp fits
      exact .split (gives_ordered (by decide) _ _) (side _ left) (side _ right)

/-- Written options are a value for those options. -/
theorem isOptions_ordered {options : RuleOptions}
    (fits : ∀ number ∈ options.numbers, Word.fits number = true) :
    IsOptions options.toJson.ordered options := by
  obtain ⟨maximum, scope⟩ := options
  refine .given (gives_ordered (by decide) _ _) ?_ ?_
  · cases maximum with
    | none => exact .absent
    | some written => exact isMaximum_ordered fits
  · rcases scope with - | - | -
    · exact .absent
    · exact .always
    · exact .multiline

/-! ## Options as texts -/

/-- An integer that fits a word is held exactly. -/
theorem heldExactly_of_fits {value : Int} (fits : Word.fits value = true) : HeldExactly value := by
  have bounds := Word.fits_iff.mp fits
  rw [Word.limit] at bounds
  rw [HeldExactly]
  omega

/-- Two fields can be written so that they are read back if each of them can. -/
theorem readable_fields {room : Nat} {first second : String} {left right : Option Json}
    (readableLeft : ∀ value ∈ left, Readable room value)
    (readableRight : ∀ value ∈ right, Readable room value) :
    Readable (room + 1) (.object (member? first left ++ member? second right)) := by
  refine ⟨room, rfl, ?_⟩
  rcases left with - | left <;> rcases right with - | right
  case none.none => trivial
  case none.some => exact ⟨readableRight right rfl, trivial⟩
  case some.none => exact ⟨readableLeft left rfl, trivial⟩
  case some.some => exact ⟨readableLeft left rfl, readableRight right rfl, trivial⟩

/-- Options can be written so that they are read back if their numbers fit a word. -/
theorem readable_toJson {options : RuleOptions}
    (fits : ∀ number ∈ options.numbers, Word.fits number = true) (room : Nat) :
    Readable (room + 2) options.toJson := by
  have side : ∀ number : Option Int, (∀ value ∈ number.toList, Word.fits value = true) →
      ∀ value ∈ number.map Json.int, Readable room value := by
    rintro (- | value) held written same
    · contradiction
    · obtain rfl := Option.some.inj same
      exact heldExactly_of_fits (held value List.mem_cons_self)
  obtain ⟨limit, applies⟩ := options
  apply readable_fields
  · rintro value same
    obtain ⟨written, rfl, rfl⟩ := Option.map_eq_some_iff.mp same
    cases written with
    | flat value => exact heldExactly_of_fits (fits value List.mem_cons_self)
    | split sides =>
        obtain ⟨left, right⟩ := List.forall_mem_append.mp fits
        exact readable_fields (side _ left) (side _ right)
  · rintro value same
    obtain ⟨word, -, rfl⟩ := Option.map_eq_some_iff.mp same
    trivial

/-! ## Reading what is written -/

namespace Decode

/-- A maximum is decoded from its text as it is. -/
theorem maximum_closed {written : WrittenMaximum}
    (fits : ∀ number ∈ written.numbers, Word.fits number = true) :
    maximum written.toJson.closed = .ok written := by
  have read : maximum? written.toJson.closed = some written := by
    cases written with
    | flat value =>
        have held := fits value List.mem_cons_self
        simp [WrittenMaximum.toJson, closed, maximum?, held]
    | split sides =>
        obtain ⟨single, multi⟩ := sides
        have held : ∀ value, value ∈ single ∨ value ∈ multi → Word.fits value = true := by
          simpa [WrittenMaximum.numbers] using fits
        rcases single with - | single <;> rcases multi with - | multi <;>
          simp [WrittenMaximum.toJson, member?, closed, closedMembers, maximum?, sidesByName?,
            side?, held]
  rw [maximum, fault?_closed, read]

/-- Options are decoded from their text as they are. -/
theorem ruleOptions_closed {options : RuleOptions}
    (fits : ∀ number ∈ options.numbers, Word.fits number = true) :
    ruleOptions options.toJson.closed = .ok options := by
  obtain ⟨limit, applies⟩ := options
  have readLimit : ∀ written, limit = some written →
      optional maximum written.toJson.closed = .ok (some written) := by
    rintro written rfl
    rw [optional_eq_some_iff (by simp [maximum, maximum?, Datum.fault?]), maximum_closed fits]
  have readScope : ∀ word : Scope, optional scope (.string word.name) = .ok (some word) := by
    rintro (- | -) <;> rfl
  rcases limit with - | written <;> rcases applies with - | word <;>
    simp [RuleOptions.toJson, member?, closed, closedMembers, ruleOptions, optionsRecord,
      Record.read, Record.visitMembers, readLimit, readScope, bind, Except.bind, pure,
      Except.pure, RuleOptions.empty]

end Decode

namespace RuleConfig

/-- The configuration for a text that holds written options is theirs, or it is refused as theirs
    is. -/
theorem ofJsonText_of_writes {options : RuleOptions} {written : Json} {text : Text}
    (fits : ∀ number ∈ options.numbers, Word.fits number = true)
    (writes : Writes 127 written text)
    (unwrapped : unwrapOptions written.ordered = .ok options.toJson.ordered) :
    ofJsonText text = (ofOptions options).mapError .outOfRange := by
  have sorted : options.toJson.ordered.SortedKeys := sortedKeys_ofDatum _
  have held := (heldOptions_eq_ok_iff sorted).mpr (isOptions_ordered fits)
  rw [ofJsonText_eq (ofText_of_writes writes) unwrapped, held]
  rfl

end RuleConfig

/-- Options survive writing and reading. Whether they are written without blanks or with a line for
    each member, the text is decoded as the options that were written. The configuration for it is
    the one that the options stand for, and so is that for an array with the text as its only item.
    Where a number is below one there is no configuration, and the error is the same. -/
theorem options_read_back {options : RuleOptions} {text : Text}
    (fits : ∀ number ∈ options.numbers, Word.fits number = true)
    (written : text = options.toJson.compact ∨ text = options.toJson.pretty 0) :
    Json.decodeText Decode.ruleOptions text = .ok options ∧
      RuleConfig.ofJsonText text = (RuleConfig.ofOptions options).mapError .outOfRange ∧
      RuleConfig.ofJsonText ('[' :: (text ++ [']'])) =
        (RuleConfig.ofOptions options).mapError .outOfRange := by
  -- Two brackets are open at most, and a third one with the array around them.
  have writes : ∀ room, Writes (room + 2) options.toJson text := by
    intro room
    rcases written with rfl | rfl
    · exact writes_compact (readable_toJson fits room)
    · exact writes_pretty 0 (readable_toJson fits room)
  have alone : Writes 127 (.array [options.toJson]) ('[' :: (text ++ [']'])) :=
    .array .nil (writes 124) (.close .nil)
  refine ⟨?_, ?_, ?_⟩
  · rw [decodeText, document_of_writes (writes 125)]
    simp only [Decode.ruleOptions_closed fits]
    rfl
  · exact RuleConfig.ofJsonText_of_writes fits (writes 125) rfl
  · exact RuleConfig.ofJsonText_of_writes fits alone rfl

/-- A split maximum without sides is written as an empty object. -/
example : RuleOptions.toJson ⟨some (.split ⟨none, none⟩), none⟩ =
    .object [("maximum", .object [])] := rfl

/-- Options with the least number that fits a word and with the greatest one. -/
def wideOptions : RuleOptions :=
  ⟨some (.split ⟨some (-Word.limit), some (Word.limit - 1)⟩), some .multiline⟩

/-- The text of these options. -/
def wideText : Text :=
  ("\x7b\"maximum\":\x7b\"single\":-9223372036854775808,\"multi\":9223372036854775807\x7d," ++
    "\"when\":\"multiline\"\x7d").toList

/-- Both numbers are read back, and the least one is refused as it is in the options. -/
theorem options_read_back_wide :
    (∀ number ∈ wideOptions.numbers, Word.fits number = true) ∧
      wideText = wideOptions.toJson.compact ∧
      Json.decodeText Decode.ruleOptions wideText = .ok wideOptions ∧
      RuleConfig.ofJsonText wideText = .error (.outOfRange ⟨.single, -Word.limit⟩) ∧
      RuleConfig.ofJsonText ('[' :: (wideText ++ [']'])) =
        .error (.outOfRange ⟨.single, -Word.limit⟩) := by
  have fits : ∀ number ∈ wideOptions.numbers, Word.fits number = true := by decide
  have written : wideText = wideOptions.toJson.compact := by decide
  obtain ⟨decoded, bare, wrapped⟩ := options_read_back fits (Or.inl written)
  exact ⟨fits, written, decoded, bare, wrapped⟩

end TagWrap
