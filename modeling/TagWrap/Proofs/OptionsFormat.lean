import Mathlib.Data.List.Permutation
import TagWrap.Proofs.SortedKeys
import TagWrap.Proofs.Steps

/-!
# The format of the options

Which values are options is said without the decoder. A value gives its fields by name or by
position, a field that is left out counts as null, and each field has values of its own. The
relations of the first section spell that out: there is one for each kind of value, with one
constructor for each form that a value of this kind may have.

The decoder follows this format (`Decode.ruleOptions_toDatum`). It takes members one by one and
remembers the names that it has seen. Of a value that was read from a text it sees no name twice
and the names in order, so there are only a few shapes on which the decoder has to be followed.

`options_accepted_iff` puts the steps together. Options are refused for their length, for their
form or for a number below one, each in exactly one case, and otherwise each part of the
configuration is what is written for it.
-/
namespace TagWrap

open Json

/-! ## The format -/

/-- The options that a value holds, if it holds no more than one: the value itself, or the item of
    an array. An empty array holds null. -/
inductive Unwraps : Json → Json → Prop where
  | empty : Unwraps (.array []) .null
  | lone (item : Json) : Unwraps (.array [item]) item
  | bare {value : Json} (single : ∀ items, value ≠ .array items) : Unwraps value value

/-- A value gives two fields, by their names or by their positions. A field that is left out counts
    as null, and nothing else may be given. -/
inductive Gives (first second : String) : Json → Json → Json → Prop where
  | byName {members : List (String × Json)}
      (known : ∀ member ∈ members, member.1 = first ∨ member.1 = second) :
      Gives first second (.object members) ((members.lookup first).getD .null)
        ((members.lookup second).getD .null)
  | byPosition {items : List Json} (few : items.length ≤ 2) :
      Gives first second (.array items) (items.getD 0 .null) (items.getD 1 .null)

/-- A value for one side of a split maximum. -/
inductive IsSide : Json → Option Int → Prop where
  | absent : IsSide .null none
  | number {value : Int} (fits : Word.fits value = true) : IsSide (.int value) (some value)

/-- A value for the maximum. -/
inductive IsMaximum : Json → Option WrittenMaximum → Prop where
  | absent : IsMaximum .null none
  | flat {value : Int} (fits : Word.fits value = true) :
      IsMaximum (.int value) (some (.flat value))
  | split {value single multi : Json} {sides : WrittenSplit}
      (given : Gives "single" "multi" value single multi) (left : IsSide single sides.single)
      (right : IsSide multi sides.multi) : IsMaximum value (some (.split sides))

/-- A value for the scope. -/
inductive IsScope : Json → Option Scope → Prop where
  | absent : IsScope .null none
  | always : IsScope (.string "always") (some .always)
  | multiline : IsScope (.string "multiline") (some .multiline)

/-- A value for the options, with the options that it writes. -/
inductive IsOptions : Json → RuleOptions → Prop where
  | absent : IsOptions .null .empty
  | given {value maximum scope : Json} {options : RuleOptions}
      (fields : Gives "maximum" "when" value maximum scope)
      (limit : IsMaximum maximum options.maximum) (applies : IsScope scope options.scope) :
      IsOptions value options

/-- The numbers that are written in a maximum. -/
def WrittenMaximum.numbers : WrittenMaximum → List Int
  | flat value => [value]
  | split sides => sides.single.toList ++ sides.multi.toList

/-- The maximum that is meant: each cap is the number that is written for it, or one where a side is
    left out. -/
def WrittenMaximum.meant : WrittenMaximum → Maximum
  | flat value => .flat value.toNat
  | split sides =>
      .split ((sides.single.map Int.toNat).getD 1) ((sides.multi.map Int.toNat).getD 1)

/-- The numbers that are written in options. -/
def RuleOptions.numbers (options : RuleOptions) : List Int :=
  (options.maximum.map WrittenMaximum.numbers).getD []

/-- The configuration that options stand for. A maximum that is left out is one, and a scope that is
    left out is all tags. -/
def RuleOptions.meant (options : RuleOptions) : RuleConfig where
  maximum := (options.maximum.map WrittenMaximum.meant).getD (.flat 1)
  scope := options.scope.getD .always
  lineEnding := .lf

/-! ## Decoding follows the format -/

namespace Decode

variable {value single multi : Json}

/-- A side is decoded exactly from a value for one. -/
theorem side?_toDatum {side : Option Int} : side? value.toDatum = some side ↔ IsSide value side := by
  constructor
  · intro read
    cases value with
    | null =>
        obtain rfl := Option.some.inj read
        exact .absent
    | int value =>
        simp only [toDatum, side?] at read
        split at read
        next fits =>
          obtain rfl := Option.some.inj read
          exact .number fits
        · contradiction
    | bool _ | float _ | string _ | array _ | object _ => contradiction
  · intro format
    cases format with
    | absent => rfl
    | number fits => simp [toDatum, side?, fits]

/-- Sides by name have no other names. -/
theorem known_of_sidesByName? {members : List (String × Json)}
    {sides : Option (Option Int) × Option (Option Int)}
    (read : sidesByName? (toMembers members) = some sides) :
    ∀ member ∈ members, member.1 = "single" ∨ member.1 = "multi" := by
  induction members generalizing sides with
  | nil => simp
  | cons first others inductionHypothesis =>
      obtain ⟨key, value⟩ := first
      simp only [toMembers, sidesByName?, Option.bind_eq_bind, Option.bind_eq_some_iff] at read
      obtain ⟨⟨single, multi⟩, rest, side, -, own⟩ := read
      intro member listed
      rcases List.mem_cons.mp listed with rfl | later
      · split at own
        next left => exact Or.inl left.1
        · split at own
          next right => exact Or.inr right.1
          · contradiction
      · exact inductionHypothesis rest member later

theorem side?_null : side? .null = some none := rfl

/-- A split maximum is decoded side by side. -/
theorem maximum?_of_gives (sorted : value.SortedKeys)
    (given : Gives "single" "multi" value single multi) :
    maximum? value.toDatum = do
      let left ← side? single.toDatum
      let right ← side? multi.toDatum
      return .split ⟨left, right⟩ := by
  cases given with
  | byName known =>
      rcases increasing_cases (by decide : "multi" < "single") sorted.1
        (fun member listed => (known member listed).symm) with
        rfl | ⟨right, rfl⟩ | ⟨left, rfl⟩ | ⟨right, left, rfl⟩
      · rfl
      · cases read : side? right.toDatum <;>
          simp [toDatum, toMembers, maximum?, sidesByName?, List.lookup_cons, read, side?_null]
      · cases read : side? left.toDatum <;>
          simp [toDatum, toMembers, maximum?, sidesByName?, List.lookup_cons, read, side?_null]
      · cases read : side? right.toDatum <;> cases read' : side? left.toDatum <;>
          simp [toDatum, toMembers, maximum?, sidesByName?, List.lookup_cons, read, read']
  | @byPosition items few =>
      rcases items with - | ⟨left, - | ⟨right, - | ⟨third, others⟩⟩⟩
      · rfl
      · simp [toDatum, toItems, maximum?, side?_null]
      · rfl
      · simp at few

/-- A maximum is decoded exactly from a value for one. -/
theorem maximum?_toDatum (sorted : value.SortedKeys) {maximum : WrittenMaximum} :
    maximum? value.toDatum = some maximum ↔ IsMaximum value (some maximum) := by
  constructor
  · intro read
    have splits : ∀ {single multi : Json}, Gives "single" "multi" value single multi →
        IsMaximum value (some maximum) := by
      intro single multi given
      rw [maximum?_of_gives sorted given] at read
      simp only [Option.bind_eq_bind, Option.bind_eq_some_iff] at read
      obtain ⟨left, readLeft, right, readRight, same⟩ := read
      obtain rfl := Option.some.inj same
      exact .split given (side?_toDatum.mp readLeft) (side?_toDatum.mp readRight)
    cases value with
    | int number =>
        simp only [toDatum, maximum?] at read
        split at read
        next fits =>
          obtain rfl := Option.some.inj read
          exact .flat fits
        · contradiction
    | object members =>
        have known := read
        simp only [toDatum, maximum?, Option.bind_eq_bind, Option.bind_eq_some_iff] at known
        obtain ⟨sides, named, -⟩ := known
        exact splits (.byName (known_of_sidesByName? named))
    | array items =>
        rcases items with - | ⟨left, - | ⟨right, - | ⟨third, others⟩⟩⟩
        · exact splits (.byPosition (by simp))
        · exact splits (.byPosition (by simp))
        · exact splits (.byPosition (by simp))
        · contradiction
    | null | bool _ | float _ | string _ => contradiction
  · intro format
    cases format with
    | flat fits => simp [toDatum, maximum?, fits]
    | split given left right =>
        rw [maximum?_of_gives sorted given, side?_toDatum.mpr left, side?_toDatum.mpr right]
        rfl

/-- The text of a value is read to its end, so its form alone decides about a maximum. -/
theorem maximum_toDatum (sorted : value.SortedKeys) {limit : WrittenMaximum} :
    maximum value.toDatum = .ok limit ↔ IsMaximum value (some limit) := by
  rw [← maximum?_toDatum sorted, maximum, fault?_toDatum]
  cases maximum? value.toDatum <;> simp

/-- A scope is decoded exactly from a word for one. -/
theorem scope_toDatum {applies : Scope} :
    scope value.toDatum = .ok applies ↔ IsScope value (some applies) := by
  constructor
  · intro read
    cases value with
    | string word =>
        simp only [toDatum, scope, string, Scope.ofName?, bind_eq_ok] at read
        obtain ⟨_, same, named⟩ := read
        obtain rfl := Except.ok.inj same
        by_cases always : word = "always"
        · rw [if_pos always] at named
          obtain rfl := pure_eq_ok.mp named
          exact always ▸ .always
        · by_cases multiline : word = "multiline"
          · rw [if_neg always, if_pos multiline] at named
            obtain rfl := pure_eq_ok.mp named
            exact multiline ▸ .multiline
          · rw [if_neg always, if_neg multiline] at named
            contradiction
    | null | bool _ | int _ | float _ | array _ | object _ => contradiction
  · intro format
    cases format <;> rfl

section Optional

variable {α : Type} {decode : Datum → Except DecodeError α} {datum : Datum}

theorem optional_null : optional decode .null = .ok none := rfl

/-- Something is decoded from all but null as it is when it has to be there. -/
theorem optional_of_ne_null (given : datum ≠ .null) :
    optional decode datum = some <$> decode datum := by
  cases datum <;> first | rfl | contradiction

/-- Nothing is decoded from null alone. -/
theorem optional_eq_none_iff : optional decode datum = .ok none ↔ datum = .null := by
  constructor
  · intro read
    by_contra given
    rw [optional_of_ne_null given] at read
    cases decoded : decode datum <;> simp [decoded] at read
  · rintro rfl
    rfl

/-- Something is decoded from null only if the decoder takes null itself. -/
theorem optional_eq_some_iff {result : α} (refused : decode .null ≠ .ok result) :
    optional decode datum = .ok (some result) ↔ decode datum = .ok result := by
  by_cases given : datum = .null
  · subst given
    simp [optional, refused]
  · rw [optional_of_ne_null given]
    cases decode datum <;> simp

end Optional

/-- Null is the only value that is decoded as null. -/
theorem toDatum_eq_null_iff : value.toDatum = .null ↔ value = .null := by
  cases value <;> simp [toDatum]

/-- A maximum that can be left out is decoded exactly from a value for one. -/
theorem optional_maximum_toDatum (sorted : value.SortedKeys) {limit : Option WrittenMaximum} :
    optional maximum value.toDatum = .ok limit ↔ IsMaximum value limit := by
  cases limit with
  | none =>
      rw [optional_eq_none_iff, toDatum_eq_null_iff]
      constructor
      · rintro rfl
        exact .absent
      · rintro ⟨⟩
        rfl
  | some limit =>
      have refused : maximum .null ≠ .ok limit := by simp [maximum, maximum?, Datum.fault?]
      rw [optional_eq_some_iff refused, maximum_toDatum sorted]

/-- A scope that can be left out is decoded exactly from a value for one. -/
theorem optional_scope_toDatum {applies : Option Scope} :
    optional scope value.toDatum = .ok applies ↔ IsScope value applies := by
  cases applies with
  | none =>
      rw [optional_eq_none_iff, toDatum_eq_null_iff]
      constructor
      · rintro rfl
        exact .absent
      · rintro ⟨⟩
        rfl
  | some applies =>
      have refused : scope .null ≠ .ok applies := by
        intro read
        contradiction
      rw [optional_eq_some_iff refused, scope_toDatum]

/-- Members of a strict record have the names of its fields. -/
theorem Record.known_of_visitMembers {σ : Type} {record : Record σ} (strict : record.strict = true)
    {seen : List String} {members : List (String × Json)} {state result : σ}
    (read : record.visitMembers seen (toMembers members) state = .ok result) :
    ∀ member ∈ members, member.1 ∈ record.fields := by
  induction members generalizing seen state with
  | nil => simp
  | cons first others inductionHypothesis =>
      obtain ⟨key, value⟩ := first
      rw [toMembers, Record.visitMembers, strict, if_pos rfl] at read
      split at read
      next known =>
        split at read
        · contradiction
        · obtain ⟨next, -, rest⟩ := bind_eq_ok.mp read
          intro member listed
          rcases List.mem_cons.mp listed with rfl | later
          · exact known
          · exact inductionHypothesis rest member later
      · contradiction

/-- Items that are left over are those behind the fields. -/
theorem Record.leftover_of_visitItems {σ : Type} {record : Record σ} {fields : List String}
    {items leftover : List Datum} {state result : σ}
    (read : record.visitItems fields items state = .ok (leftover, result)) :
    leftover = items.drop fields.length := by
  induction fields generalizing items state with
  | nil =>
      obtain ⟨rfl, -⟩ := Prod.mk.inj (Except.ok.inj read)
      rfl
  | cons field fields inductionHypothesis =>
      cases items with
      | nil =>
          obtain ⟨rfl, -⟩ := Prod.mk.inj (Except.ok.inj read)
          rfl
      | cons item items =>
          obtain ⟨next, -, rest⟩ := bind_eq_ok.mp read
          exact inductionHypothesis rest

/-- Options are decoded field by field. -/
theorem ruleOptions_of_gives (sorted : value.SortedKeys) {limit applies : Json}
    (given : Gives "maximum" "when" value limit applies) :
    ruleOptions value.toDatum = do
      let maximum ← optional maximum limit.toDatum
      let scope ← optional scope applies.toDatum
      return ⟨maximum, scope⟩ := by
  cases given with
  | byName known =>
      rcases increasing_cases (by decide : "maximum" < "when") sorted.1 known with
        rfl | ⟨limit, rfl⟩ | ⟨applies, rfl⟩ | ⟨limit, applies, rfl⟩
      · rfl
      · cases read : optional maximum limit.toDatum <;>
          simp [toDatum, toMembers, ruleOptions, optionsRecord, Record.read, Record.visitMembers,
            List.lookup_cons, read, bind, Except.bind, pure, Except.pure, RuleOptions.empty, optional_null]
      · cases read : optional scope applies.toDatum <;>
          simp [toDatum, toMembers, ruleOptions, optionsRecord, Record.read, Record.visitMembers,
            List.lookup_cons, read, bind, Except.bind, pure, Except.pure, RuleOptions.empty, optional_null]
      · cases read : optional maximum limit.toDatum <;>
          cases read' : optional scope applies.toDatum <;>
          simp [toDatum, toMembers, ruleOptions, optionsRecord, Record.read, Record.visitMembers,
            List.lookup_cons, read, read', bind, Except.bind, pure, Except.pure, RuleOptions.empty]
  | @byPosition items few =>
      rcases items with - | ⟨limit, - | ⟨applies, - | ⟨third, others⟩⟩⟩
      · rfl
      · cases read : optional maximum limit.toDatum <;>
          simp [toDatum, toItems, ruleOptions, optionsRecord, Record.read, Record.visitItems,
            read, bind, Except.bind, pure, Except.pure, RuleOptions.empty, optional_null]
      · cases read : optional maximum limit.toDatum <;>
          cases read' : optional scope applies.toDatum <;>
          simp [toDatum, toItems, ruleOptions, optionsRecord, Record.read, Record.visitItems,
            Record.leaveArray, read, read', bind, Except.bind, pure, Except.pure, RuleOptions.empty]
      · simp at few

/-- What is decoded as options gives its fields in one of the two ways. -/
theorem exists_gives {options : RuleOptions} (read : ruleOptions value.toDatum = .ok options) :
    ∃ limit applies, Gives "maximum" "when" value limit applies := by
  obtain ⟨⟨given, state⟩, fields, -⟩ := bind_eq_ok.mp read
  cases value with
  | object members =>
      obtain ⟨state, visited, -⟩ := bind_eq_ok.mp fields
      have known := Record.known_of_visitMembers (by rfl) visited
      refine ⟨_, _, .byName ?_⟩
      intro member listed
      simpa [optionsRecord] using known member listed
  | array items =>
      rcases items with - | ⟨limit, - | ⟨applies, - | ⟨third, others⟩⟩⟩
      · exact ⟨_, _, .byPosition (by simp)⟩
      · exact ⟨_, _, .byPosition (by simp)⟩
      · exact ⟨_, _, .byPosition (by simp)⟩
      · obtain ⟨⟨leftover, state⟩, visited, rest⟩ := bind_eq_ok.mp fields
        have surplus := Record.leftover_of_visitItems visited
        simp only [toItems, optionsRecord, List.length_cons, List.length_nil, Nat.reduceAdd,
          List.drop_succ_cons, List.drop_zero] at surplus
        subst surplus
        contradiction
  | null | bool _ | int _ | float _ | string _ => contradiction

end Decode

/-- The fields of a value with sorted keys have sorted keys. -/
theorem Gives.sortedKeys {first second : String} {value left right : Json}
    (given : Gives first second value left right) (sorted : value.SortedKeys) :
    left.SortedKeys ∧ right.SortedKeys := by
  cases given with
  | @byName members known =>
      have field : ∀ key, ((members.lookup key).getD .null).SortedKeys := by
        intro key
        cases found : members.lookup key with
        | none => trivial
        | some value =>
            obtain ⟨before, after, rfl, -⟩ := List.lookup_eq_some_iff.mp found
            have listed : (key, value) ∈ before ++ (key, value) :: after := by simp
            exact sorted.2.of_mem listed
      exact ⟨field first, field second⟩
  | @byPosition items few =>
      rcases items with - | ⟨left, - | ⟨right, others⟩⟩
      · exact ⟨trivial, trivial⟩
      · exact ⟨sorted.1, trivial⟩
      · exact ⟨sorted.1, sorted.2.1⟩

/-- Options are decoded exactly from a value that gives them. -/
theorem Decode.ruleOptions_toDatum {value : Json} (sorted : value.SortedKeys)
    {options : RuleOptions} : ruleOptions value.toDatum = .ok options ↔
      ∃ limit applies, Gives "maximum" "when" value limit applies ∧
        IsMaximum limit options.maximum ∧ IsScope applies options.scope := by
  have fieldwise : ∀ {limit applies : Json}, Gives "maximum" "when" value limit applies →
      (ruleOptions value.toDatum = .ok options ↔
        IsMaximum limit options.maximum ∧ IsScope applies options.scope) := by
    intro limit applies given
    rw [ruleOptions_of_gives sorted given, ← optional_scope_toDatum,
      ← optional_maximum_toDatum (given.sortedKeys sorted).1]
    simp only [bind_eq_ok, pure_eq_ok]
    constructor
    · rintro ⟨maximum, left, scope, right, rfl⟩
      exact ⟨left, right⟩
    · rintro ⟨left, right⟩
      exact ⟨_, left, _, right, rfl⟩
  constructor
  · intro read
    obtain ⟨limit, applies, given⟩ := exists_gives read
    exact ⟨limit, applies, given, (fieldwise given).mp read⟩
  · rintro ⟨limit, applies, given, both⟩
    exact (fieldwise given).mpr both

/-! ## What becomes of the options -/

/-- A number is a cap when it is at least one. -/
theorem capOf_eq_ok_iff {field : MaximumField} {value : Int} {cap : Nat} :
    capOf field value = .ok cap ↔ 1 ≤ value ∧ cap = value.toNat := by
  rw [capOf]
  split <;> simp [*, eq_comm]

/-- A side is a cap when it is at least one, and a side that is left out is one. -/
theorem sideCapOf_eq_ok_iff {field : MaximumField} {side : Option Int} {cap : Nat} :
    sideCapOf field side = .ok cap ↔
      (∀ value ∈ side.toList, 1 ≤ value) ∧ cap = (side.map Int.toNat).getD 1 := by
  cases side with
  | none => simp [sideCapOf, eq_comm]
  | some value => simp [sideCapOf, capOf_eq_ok_iff]

/-- A maximum comes to what is meant by it, when no number in it is below one. -/
theorem Maximum.ofWritten_eq_ok_iff {written : WrittenMaximum} {maximum : Maximum} :
    ofWritten (some written) = .ok maximum ↔
      (∀ value ∈ written.numbers, 1 ≤ value) ∧ maximum = written.meant := by
  cases written with
  | flat value =>
      simp only [ofWritten, bind_eq_ok, pure_eq_ok, capOf_eq_ok_iff, WrittenMaximum.numbers,
        List.forall_mem_singleton, WrittenMaximum.meant]
      constructor
      · rintro ⟨cap, ⟨positive, rfl⟩, rfl⟩
        exact ⟨positive, rfl⟩
      · rintro ⟨positive, rfl⟩
        exact ⟨_, ⟨positive, rfl⟩, rfl⟩
  | split sides =>
      simp only [ofWritten, bind_eq_ok, pure_eq_ok, sideCapOf_eq_ok_iff, WrittenMaximum.numbers,
        List.forall_mem_append, WrittenMaximum.meant]
      constructor
      · rintro ⟨single, ⟨left, rfl⟩, multi, ⟨right, rfl⟩, rfl⟩
        exact ⟨⟨left, right⟩, rfl⟩
      · rintro ⟨⟨left, right⟩, rfl⟩
        exact ⟨_, ⟨left, rfl⟩, _, ⟨right, rfl⟩, rfl⟩

/-- Options come to the configuration that they stand for, when no number in them is below one. -/
theorem RuleConfig.ofOptions_eq_ok_iff {options : RuleOptions} {config : RuleConfig} :
    ofOptions options = .ok config ↔ (∀ value ∈ options.numbers, 1 ≤ value) ∧
      config = options.meant := by
  obtain ⟨maximum, scope⟩ := options
  simp only [ofOptions, bind_eq_ok, pure_eq_ok]
  cases maximum with
  | none => simp [Maximum.ofWritten, RuleOptions.numbers, RuleOptions.meant, eq_comm]
  | some written =>
      simp only [Maximum.ofWritten_eq_ok_iff]
      constructor
      · rintro ⟨maximum, ⟨positive, rfl⟩, rfl⟩
        exact ⟨positive, rfl⟩
      · rintro ⟨positive, rfl⟩
        exact ⟨_, ⟨positive, rfl⟩, rfl⟩

namespace RuleConfig

/-- A value holds options unless it is an array with more than one item. -/
theorem unwrapOptions_cases (value : Json) :
    (∃ items, value = .array items ∧ 1 < items.length ∧
        unwrapOptions value = .error (.tooMany items.length)) ∨
      ∃ held, Unwraps value held ∧ unwrapOptions value = .ok held := by
  cases value with
  | array items =>
      rcases items with - | ⟨item, - | ⟨other, others⟩⟩
      · exact Or.inr ⟨_, .empty, rfl⟩
      · exact Or.inr ⟨_, .lone item, rfl⟩
      · exact Or.inl ⟨_, rfl, by simp, rfl⟩
  | null | bool _ | int _ | float _ | string _ | object _ =>
      exact Or.inr ⟨_, .bare (by simp), rfl⟩

/-- The options that are decoded from a value that holds them. Null holds none. -/
def heldOptions (held : Json) : Except OptionsError RuleOptions :=
  if held.isNull then pure .empty else (Decode.ruleOptions held.toDatum).mapError .decode

/-- Options are decoded exactly from a value for options. -/
theorem heldOptions_eq_ok_iff {held : Json} (sorted : held.SortedKeys) {options : RuleOptions} :
    heldOptions held = .ok options ↔ IsOptions held options := by
  have fieldwise : IsOptions held options ↔ (held = .null ∧ options = .empty) ∨
      ∃ limit applies, Gives "maximum" "when" held limit applies ∧
        IsMaximum limit options.maximum ∧ IsScope applies options.scope := by
    constructor
    · rintro (- | ⟨given, limit, applies⟩)
      · exact Or.inl ⟨rfl, rfl⟩
      · exact Or.inr ⟨_, _, given, limit, applies⟩
    · rintro (⟨rfl, rfl⟩ | ⟨_, _, given, limit, applies⟩)
      · exact .absent
      · exact .given given limit applies
  rw [fieldwise, ← Decode.ruleOptions_toDatum sorted, heldOptions]
  cases held with
  | null =>
      rw [if_pos (show Json.null.isNull = true from rfl), pure_eq_ok]
      constructor
      · rintro rfl
        exact Or.inl ⟨rfl, rfl⟩
      · rintro (⟨-, rfl⟩ | read)
        · rfl
        · contradiction
  | bool _ | int _ | float _ | string _ | array _ | object _ =>
      simp [Json.isNull, mapError_eq_ok]

/-- When options cannot be decoded, it is the decoder that refuses them. -/
theorem exists_decode_of_heldOptions {held : Json} {reason : OptionsError}
    (failed : heldOptions held = .error reason) : ∃ error, reason = .decode error := by
  rw [heldOptions] at failed
  split at failed
  · contradiction
  · obtain ⟨error, -, rfl⟩ := mapError_eq_error.mp failed
    exact ⟨error, rfl⟩

/-- The configuration for a text is that of the options that its value holds. -/
theorem ofJsonText_eq {text : Text} {value held : Json} (read : Json.ofText text = .ok value)
    (unwrapped : unwrapOptions value = .ok held) :
    ofJsonText text =
      (heldOptions held >>= fun options => (ofOptions options).mapError .outOfRange) := by
  rw [ofJsonText, read]
  change ofJson value = _
  rw [ofJson, unwrapped, heldOptions]
  change (if held.isNull then _ else _) = _
  split <;> rfl

end RuleConfig

/-- What a value with sorted keys holds has sorted keys. -/
theorem Unwraps.sortedKeys {value held : Json} (holds : Unwraps value held)
    (sorted : value.SortedKeys) : held.SortedKeys := by
  cases holds with
  | empty => trivial
  | lone item => exact sorted.1
  | bare single => exact sorted

namespace RuleConfig

section Held

variable {text : Text} {held : Json} (sorted : held.SortedKeys)
  (same : ofJsonText text =
    (heldOptions held >>= fun options => (ofOptions options).mapError .outOfRange))
include sorted same

/-- A configuration comes from options that are well-formed and have no number below one. -/
theorem ofJsonText_eq_ok_iff {config : RuleConfig} : ofJsonText text = .ok config ↔
    ∃ options, IsOptions held options ∧ (∀ number ∈ options.numbers, 1 ≤ number) ∧
      config = options.meant := by
  simp only [same, bind_eq_ok, mapError_eq_ok, heldOptions_eq_ok_iff sorted, ofOptions_eq_ok_iff]

/-- A number is out of range in options that are well-formed and have a number below one. -/
theorem exists_outOfRange_iff : (∃ error, ofJsonText text = .error (.outOfRange error)) ↔
    ∃ options, IsOptions held options ∧ ∃ number ∈ options.numbers, number < 1 := by
  have below {options : RuleOptions} : (∃ error, ofOptions options = .error error) ↔
      ∃ number ∈ options.numbers, number < 1 := by
    rw [exists_error_iff]
    simp only [ofOptions_eq_ok_iff]
    simp
  simp only [same, bind_eq_error, mapError_eq_error, heldOptions_eq_ok_iff sorted]
  constructor
  · rintro ⟨error, failed | ⟨options, format, original, failed, -⟩⟩
    · obtain ⟨_, other⟩ := exists_decode_of_heldOptions failed
      contradiction
    · exact ⟨options, format, below.mp ⟨original, failed⟩⟩
  · rintro ⟨options, format, low⟩
    obtain ⟨error, failed⟩ := below.mpr low
    exact ⟨error, Or.inr ⟨options, format, error, failed, rfl⟩⟩

/-- Options are refused for their form when the value is none for options. -/
theorem exists_decode_iff : (∃ error, ofJsonText text = .error (.decode error)) ↔
    ¬ ∃ options, IsOptions held options := by
  simp only [← heldOptions_eq_ok_iff sorted, ← exists_error_iff, same, bind_eq_error,
    mapError_eq_error]
  constructor
  · rintro ⟨error, failed | ⟨_, -, _, -, other⟩⟩
    · exact ⟨_, failed⟩
    · contradiction
  · rintro ⟨reason, failed⟩
    obtain ⟨error, rfl⟩ := exists_decode_of_heldOptions failed
    exact ⟨error, Or.inl failed⟩

end Held

end RuleConfig

/-- Options are accepted exactly when they are well-formed, and nothing else than what is written in
    them is taken for a default. An array of more than one item is refused for its length. All other
    values hold options or null: null is no options at all, and options come to the configuration
    that they stand for, unless they write a number below one or are none by their form. -/
theorem options_accepted_iff {text : Text} {value : Json} (read : Json.ofText text = .ok value) :
    (∀ items, value = .array items → 1 < items.length →
      RuleConfig.ofJsonText text = .error (.tooMany items.length)) ∧
    ((∀ items, value = .array items → items.length ≤ 1) → ∃ held, Unwraps value held ∧
      (held = .null → RuleConfig.ofJsonText text = .ok .default) ∧
      (∀ config, RuleConfig.ofJsonText text = .ok config ↔
        ∃ options, IsOptions held options ∧ (∀ number ∈ options.numbers, 1 ≤ number) ∧
          config = options.meant) ∧
      ((∃ error, RuleConfig.ofJsonText text = .error (.outOfRange error)) ↔
        ∃ options, IsOptions held options ∧ ∃ number ∈ options.numbers, number < 1) ∧
      ((∃ error, RuleConfig.ofJsonText text = .error (.decode error)) ↔
        ¬ ∃ options, IsOptions held options)) := by
  rcases RuleConfig.unwrapOptions_cases value with
    ⟨items, rfl, several, refused⟩ | ⟨held, holds, unwrapped⟩
  · constructor
    · intro other same _
      obtain rfl := Json.array.inj same
      rw [RuleConfig.ofJsonText, read]
      change RuleConfig.ofJson _ = _
      rw [RuleConfig.ofJson, refused]
      rfl
    · intro few
      exact absurd (few items rfl) (Nat.not_le.mpr several)
  · have sorted := holds.sortedKeys (Json.sortedKeys_ofText read)
    have same := RuleConfig.ofJsonText_eq read unwrapped
    constructor
    · rintro (- | ⟨item, - | ⟨other, others⟩⟩) rfl several
      · contradiction
      · exact absurd several (Nat.lt_irrefl 1)
      · contradiction
    · intro _
      refine ⟨held, holds, ?_, fun config => RuleConfig.ofJsonText_eq_ok_iff sorted same,
        RuleConfig.exists_outOfRange_iff sorted same, RuleConfig.exists_decode_iff sorted same⟩
      rintro rfl
      rw [same]
      rfl

/-- Options in an array of one, with a side left out. -/
def splitOptions : Text := "[\x7b\"when\":\"multiline\",\"maximum\":\x7b\"single\":2\x7d\x7d]".toList

/-- The side that is left out is one. -/
theorem options_accepted_split :
    RuleConfig.ofJsonText splitOptions = .ok ⟨.split 2 1, .multiline, .lf⟩ := by
  have read : Json.ofText splitOptions = .ok (.array [.object
      [("maximum", .object [("single", .int 2)]), ("when", .string "multiline")]]) := by cbv
  obtain ⟨held, holds, -, accepted, -⟩ := (options_accepted_iff read).2 (by simp)
  cases holds with
  | bare single => exact absurd rfl (single _)
  | lone =>
      refine (accepted _).mpr ⟨⟨some (.split ⟨some 2, none⟩), some .multiline⟩, ?_, by decide, rfl⟩
      refine .given (.byName (by simp)) ?_ .multiline
      exact .split (.byName (by simp)) (.number (by decide)) .absent

end TagWrap
