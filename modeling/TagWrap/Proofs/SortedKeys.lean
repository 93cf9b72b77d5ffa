import Mathlib.Data.String.Basic
import TagWrap.Json.Document

/-!
# Values with sorted keys

A value that was read from a text has the members of each of its objects in the strict order of
their keys: of the members with one key the last one counts, and each member is put at its place.
So an object with few keys has few shapes. A value is also free of faults when it is decoded, so
what is decoded from it fails for its shape alone.
-/
namespace TagWrap.Json

/-- Members are in the strict order of their keys. -/
def Increasing (members : List (String × Json)) : Prop :=
  (members.map Prod.fst).Pairwise (· < ·)

mutual

/-- The members of all objects in a value are in the strict order of their keys. -/
def SortedKeys : Json → Prop
  | array items => SortedItems items
  | object members => Increasing members ∧ SortedMembers members
  | _ => True

/-- The items of an array are values with sorted keys. -/
def SortedItems : List Json → Prop
  | [] => True
  | item :: items => SortedKeys item ∧ SortedItems items

/-- The values of members have sorted keys. -/
def SortedMembers : List (String × Json) → Prop
  | [] => True
  | (_, value) :: members => SortedKeys value ∧ SortedMembers members

end

/-- The values of members have sorted keys when each of them does. -/
theorem SortedMembers.of_mem {members : List (String × Json)} (sorted : SortedMembers members)
    {member : String × Json} (listed : member ∈ members) : member.2.SortedKeys := by
  induction members with
  | nil => contradiction
  | cons first others inductionHypothesis =>
      obtain ⟨key, value⟩ := first
      rcases List.mem_cons.mp listed with rfl | later
      · exact sorted.1
      · exact inductionHypothesis sorted.2 later

/-- What is among members after one was put there is that one or was there before. -/
theorem mem_insertMember {key : String} {value : Json} {members : List (String × Json)}
    {member : String × Json} (listed : member ∈ insertMember key value members) :
    member = (key, value) ∨ member ∈ members := by
  induction members with
  | nil => simpa [insertMember] using listed
  | cons first others inductionHypothesis =>
      obtain ⟨other, kept⟩ := first
      rw [insertMember] at listed
      split at listed
      · exact List.mem_cons.mp listed
      · split at listed
        · rcases List.mem_cons.mp listed with rfl | later
          · exact Or.inl rfl
          · exact Or.inr (List.mem_cons_of_mem _ later)
        · rcases List.mem_cons.mp listed with rfl | later
          · exact Or.inr List.mem_cons_self
          · exact (inductionHypothesis later).imp_right (List.mem_cons_of_mem _)

/-- Members stay in order when a member is put among them. -/
theorem increasing_insertMember {key : String} {value : Json} {members : List (String × Json)}
    (increasing : Increasing members) : Increasing (insertMember key value members) := by
  induction members with
  | nil => exact List.pairwise_singleton _ _
  | cons first others inductionHypothesis =>
      obtain ⟨other, kept⟩ := first
      have cut := List.pairwise_cons.mp increasing
      rw [insertMember]
      split
      next ahead =>
        apply List.pairwise_cons.mpr
        constructor
        · intro later listed
          rcases List.mem_cons.mp listed with rfl | behind
          · exact ahead
          · exact lt_trans ahead (cut.1 later behind)
        · exact increasing
      next behind =>
        split
        next same => exact List.pairwise_cons.mpr ⟨same ▸ cut.1, cut.2⟩
        next apart =>
          apply List.pairwise_cons.mpr
          constructor
          · intro later listed
            obtain ⟨member, found, rfl⟩ := List.mem_map.mp listed
            rcases mem_insertMember found with rfl | old
            · exact lt_of_le_of_ne (not_lt.mp behind) (Ne.symm apart)
            · exact cut.1 member.1 (List.mem_map_of_mem old)
          · exact inductionHypothesis cut.2

/-- The values of members keep their sorted keys when a member is put among them. -/
theorem sortedMembers_insertMember {key : String} {value : Json} {members : List (String × Json)}
    (own : value.SortedKeys) (sorted : SortedMembers members) :
    SortedMembers (insertMember key value members) := by
  induction members with
  | nil => exact ⟨own, trivial⟩
  | cons first others inductionHypothesis =>
      obtain ⟨other, kept⟩ := first
      rw [insertMember]
      split
      · exact ⟨own, sorted⟩
      · split
        · exact ⟨own, sorted.2⟩
        · exact ⟨sorted.1, inductionHypothesis sorted.2⟩

mutual

/-- The value of a datum has sorted keys. -/
theorem sortedKeys_ofDatum : ∀ datum : Datum, (ofDatum datum).SortedKeys
  | .null | .bool _ | .int _ | .float _ | .string _ | .broken _ => trivial
  | .array items _ => sortedItems_ofItems items
  | .object members _ => sorted_ofMembers [] List.Pairwise.nil trivial members

/-- The values of items have sorted keys. -/
theorem sortedItems_ofItems : ∀ items : List Datum, SortedItems (ofItems items)
  | [] => trivial
  | item :: items => ⟨sortedKeys_ofDatum item, sortedItems_ofItems items⟩

/-- Members that are put among sorted ones, one after the other, make up sorted ones. -/
theorem sorted_ofMembers (before : List (String × Json)) (increasing : Increasing before)
    (sorted : SortedMembers before) : ∀ members : List (String × Datum),
      Increasing (ofMembers before members) ∧ SortedMembers (ofMembers before members)
  | [] => ⟨increasing, sorted⟩
  | (_, value) :: members =>
      sorted_ofMembers _ (increasing_insertMember increasing)
        (sortedMembers_insertMember (sortedKeys_ofDatum value) sorted) members

end

/-- A value that was read from a text has sorted keys. -/
theorem sortedKeys_ofText {text : Text} {value : Json} (read : ofText text = .ok value) :
    value.SortedKeys := by
  simp only [ofText, settle] at read
  split at read
  · contradiction
  · obtain rfl := Except.ok.inj read
    exact sortedKeys_ofDatum _

mutual

/-- A value has no fault when it is decoded. -/
theorem fault?_toDatum : ∀ value : Json, (toDatum value).fault? = none
  | null | bool _ | int _ | float _ | string _ => rfl
  | array items => by
      rw [toDatum, Datum.fault?, faultOfItems?_toItems items]
      rfl
  | object members => by
      rw [toDatum, Datum.fault?, faultOfMembers?_toMembers members]
      rfl

/-- Values have no fault as items. -/
theorem faultOfItems?_toItems : ∀ items : List Json, Datum.faultOfItems? (toItems items) = none
  | [] => rfl
  | item :: items => by
      rw [toItems, Datum.faultOfItems?, fault?_toDatum item, faultOfItems?_toItems items]
      rfl

/-- Values have no fault as members. -/
theorem faultOfMembers?_toMembers : ∀ members : List (String × Json),
    Datum.faultOfMembers? (toMembers members) = none
  | [] => rfl
  | (key, value) :: members => by
      rw [toMembers, Datum.faultOfMembers?, fault?_toDatum value, faultOfMembers?_toMembers members]
      rfl

end

/-- Of two keys in order that are among two, the first is the first one and the second the second. -/
theorem keys_in_order {first second key key' : String} (order : first < second)
    (ahead : key < key') (known : key = first ∨ key = second)
    (known' : key' = first ∨ key' = second) : key = first ∧ key' = second := by
  rcases known with rfl | rfl
  · rcases known' with rfl | rfl
    · exact absurd ahead (lt_irrefl _)
    · exact ⟨rfl, rfl⟩
  · rcases known' with rfl | rfl
    · exact absurd ahead (lt_asymm order)
    · exact absurd ahead (lt_irrefl _)

/-- Members in order whose keys are among two have one of four shapes. -/
theorem increasing_cases {first second : String} (order : first < second)
    {members : List (String × Json)} (increasing : Increasing members)
    (known : ∀ member ∈ members, member.1 = first ∨ member.1 = second) :
    members = [] ∨ (∃ value, members = [(first, value)]) ∨ (∃ value, members = [(second, value)]) ∨
      ∃ value value', members = [(first, value), (second, value')] := by
  rcases members with - | ⟨⟨key, value⟩, - | ⟨⟨key', value'⟩, others⟩⟩
  · exact Or.inl rfl
  · rcases known _ List.mem_cons_self with rfl | rfl
    · exact Or.inr (Or.inl ⟨value, rfl⟩)
    · exact Or.inr (Or.inr (Or.inl ⟨value, rfl⟩))
  · have cut := List.pairwise_cons.mp increasing
    obtain ⟨rfl, rfl⟩ := keys_in_order order (cut.1 _ List.mem_cons_self)
      (known _ List.mem_cons_self) (known _ (List.mem_cons_of_mem _ List.mem_cons_self))
    cases others with
    | nil => exact Or.inr (Or.inr (Or.inr ⟨value, value', rfl⟩))
    | cons third others =>
        -- A third key would have to be behind the second one and among the two.
        have behind := List.rel_of_pairwise_cons cut.2 List.mem_cons_self
        have last : third ∈ (key, value) :: (key', value') :: third :: others := by simp
        have same := (keys_in_order order behind (Or.inr rfl) (known _ last)).1
        exact absurd (same ▸ order) (lt_irrefl _)

end TagWrap.Json
