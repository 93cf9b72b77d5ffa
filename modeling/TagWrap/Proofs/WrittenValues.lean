import Mathlib.Data.List.DropRight
import TagWrap.Json.Document
import TagWrap.Proofs.WrittenScalars

/-!
# Values that are written are read back

A text writes a value with blanks between the parts or without (`Writes`). The writer that puts none
and the writer that begins new lines are two ways to do so, and the reader takes a text of either
kind back to the value (`document_of_writes`). The reader is given three steps for each character,
and that bound carries the induction: it takes three steps from an array or an object to its first
value, which the bracket pays for.

What is read has the members of its objects in the order of their keys (`ofText_of_writes`). Numbers
with a fraction are left out, since their digits go through a number of double precision on their
way back.
-/
namespace TagWrap.Json

open Reader

/-! ## Texts that write a value -/

/-- Nothing but blanks stands in a text. -/
def Blanks (text : Text) : Prop :=
  ∀ char ∈ text, char = ' ' ∨ char = '\n' ∨ char = '\t' ∨ char = '\r'

mutual

/-- A text writes a value, with no more than `room` brackets open at once. Blanks may stand behind
    an opening bracket, a comma and a colon and in front of a closing bracket. Each number is an
    integer that is held exactly. -/
inductive Writes : Nat → Json → Text → Prop where
  | null {room : Nat} : Writes room .null "null".toList
  | true {room : Nat} : Writes room (.bool true) "true".toList
  | false {room : Nat} : Writes room (.bool false) "false".toList
  | int {room : Nat} {value : Int} (held : HeldExactly value) :
      Writes room (.int value) (intText value)
  | string {room : Nat} (value : String) : Writes room (.string value) (stringText value)
  | emptyArray {room : Nat} {blanks : Text} (blank : Blanks blanks) :
      Writes (room + 1) (.array []) ('[' :: (blanks ++ [']']))
  | array {room : Nat} {item : Json} {items : List Json} {blanks first others : Text}
      (blank : Blanks blanks) (opening : Writes room item first)
      (rest : WritesItems room items others) :
      Writes (room + 1) (.array (item :: items)) ('[' :: (blanks ++ (first ++ others)))
  | emptyObject {room : Nat} {blanks : Text} (blank : Blanks blanks) :
      Writes (room + 1) (.object []) ('\x7b' :: (blanks ++ ['\x7d']))
  | object {room : Nat} {key : String} {value : Json} {members : List (String × Json)}
      {blanks space first others : Text} (blank : Blanks blanks) (between : Blanks space)
      (opening : Writes room value first) (rest : WritesMembers room members others) :
      Writes (room + 1) (.object ((key, value) :: members))
        ('\x7b' :: (blanks ++ (stringText key ++ ':' :: (space ++ (first ++ others)))))

/-- A text writes the items after the first one, and the bracket. -/
inductive WritesItems : Nat → List Json → Text → Prop where
  | close {room : Nat} {blanks : Text} (blank : Blanks blanks) :
      WritesItems room [] (blanks ++ [']'])
  | next {room : Nat} {item : Json} {items : List Json} {blanks first others : Text}
      (blank : Blanks blanks) (opening : Writes room item first)
      (rest : WritesItems room items others) :
      WritesItems room (item :: items) (',' :: (blanks ++ (first ++ others)))

/-- A text writes the members after the first one, and the brace. -/
inductive WritesMembers : Nat → List (String × Json) → Text → Prop where
  | close {room : Nat} {blanks : Text} (blank : Blanks blanks) :
      WritesMembers room [] (blanks ++ ['\x7d'])
  | next {room : Nat} {key : String} {value : Json} {members : List (String × Json)}
      {blanks space first others : Text} (blank : Blanks blanks) (between : Blanks space)
      (opening : Writes room value first) (rest : WritesMembers room members others) :
      WritesMembers room ((key, value) :: members)
        (',' :: (blanks ++ (stringText key ++ ':' :: (space ++ (first ++ others)))))

end

mutual

/-- The datum that a text of a value is read as. Its brackets are those of the text. -/
def closed : Json → Datum
  | null => .null
  | bool value => .bool value
  | int value => .int value
  | float shown => .float shown
  | string value => .string value
  | array items => .array (closedItems items) .closed
  | object members => .object (closedMembers members) .closed

/-- The items that a text of values is read as. -/
def closedItems : List Json → List Datum
  | [] => []
  | item :: items => closed item :: closedItems items

/-- The members that a text of members is read as. -/
def closedMembers : List (String × Json) → List (String × Datum)
  | [] => []
  | (key, value) :: members => (key, closed value) :: closedMembers members

end

/-- The value that a text of a value has: the members of its objects are put in order. -/
def ordered (value : Json) : Json := ofDatum value.closed

/-! ## Blanks -/

namespace Blanks

variable {blanks : Text} (blank : Blanks blanks)
include blank

/-- Blanks in front of a text are skipped. -/
theorem skip (text : Text) : skipBlanks (blanks ++ text) = skipBlanks text := by
  apply List.dropWhile_append_of_pos
  intro char listed
  simpa [or_assoc] using blank char listed

/-- A text ends a number with blanks in front if it does so without. -/
theorem endsNumber {rest : Text} (ends : EndsNumber rest) : EndsNumber (blanks ++ rest) := by
  cases blanks with
  | nil => exact ends
  | cons char others =>
      intro first head
      obtain rfl := Option.some.inj head
      rcases blank char List.mem_cons_self with rfl | rfl | rfl | rfl <;> decide

end Blanks

/-- Skipping blanks a second time changes nothing. -/
theorem skipBlanks_skipBlanks (text : Text) : skipBlanks (skipBlanks text) = skipBlanks text :=
  List.dropWhile_idempotent _ _

/-- Only the text behind its blanks counts for a value. -/
theorem value_congr (fuel depth : Nat) {text other : Text}
    (same : skipBlanks text = skipBlanks other) :
    value fuel depth text = value fuel depth other := by
  cases fuel with
  | zero => rw [value, value]
  | succ fuel => rw [value, value, same]

/-- A value is read from behind its blanks. -/
theorem Blanks.value {blanks text : Text} (blank : Blanks blanks) {fuel depth : Nat}
    {reading : Reading Datum} (read : value fuel depth text = reading) :
    value fuel depth (blanks ++ text) = reading := by
  rw [value_congr fuel depth (blank.skip text), read]

/-- What is read as a value begins neither with a bracket that closes nor with a comma. -/
theorem exists_start {fuel depth : Nat} {text rest : Text} {datum : Datum}
    (read : value fuel depth text = (datum, some rest)) :
    ∃ char others, skipBlanks text = char :: others ∧ char ≠ ']' ∧ char ≠ ',' := by
  have unread := congrArg Prod.snd read
  cases fuel with
  | zero =>
      rw [value] at unread
      contradiction
  | succ fuel =>
      rw [value] at unread
      cases start : skipBlanks text with
      | nil =>
          rw [start] at unread
          contradiction
      | cons char others =>
          rw [start] at unread
          refine ⟨char, others, rfl, ?_, ?_⟩
          · rintro rfl
            contradiction
          · rintro rfl
            contradiction

/-! ## Steps of the reader -/

section Steps

variable {fuel depth : Nat} {text rest : Text} {datum : Datum} {tail : Tail} {next : Option Text}

/-- An array is what its items are read as. -/
theorem value_array {data : List Datum}
    (read : items fuel (depth + 1) true text = ((data, tail), next)) :
    value (fuel + 1) (depth + 2) ('[' :: text) = (.array data tail, next) := by
  simp [value, skipBlanks, read]

/-- An object is what its members are read as. -/
theorem value_object {data : List (String × Datum)}
    (read : members fuel (depth + 1) true text = ((data, tail), next)) :
    value (fuel + 1) (depth + 2) ('\x7b' :: text) = (.object data tail, next) := by
  simp [value, skipBlanks, read]

/-- Items end at their bracket, whether there was one or not. -/
theorem items_close {blanks : Text} (blank : Blanks blanks) (fuel depth : Nat) (first : Bool)
    (rest : Text) :
    items (fuel + 1) depth first (blanks ++ (']' :: rest)) = (([], .closed), some rest) := by
  rw [items, blank.skip]
  rfl

/-- Members end at their brace, whether there was one or not. -/
theorem members_close {blanks : Text} (blank : Blanks blanks) (fuel depth : Nat) (first : Bool)
    (rest : Text) :
    members (fuel + 1) depth first (blanks ++ ('\x7d' :: rest)) = (([], .closed), some rest) := by
  rw [members, blank.skip]
  rfl

section Items

variable {data : List Datum} (read : value fuel depth text = (datum, some rest))
  (others : items fuel depth false rest = ((data, tail), next))
include read others

/-- An item is a value, and more items follow it. -/
theorem item_of_value :
    item (fuel + 1) depth (skipBlanks text) = ((datum :: data, tail), next) := by
  rw [item, value_congr fuel depth (skipBlanks_skipBlanks text), read]
  simp only [others]

/-- The first item stands behind the bracket. -/
theorem items_first : items (fuel + 2) depth true text = ((datum :: data, tail), next) := by
  obtain ⟨char, behind, start, bracket, comma⟩ := exists_start read
  rw [← item_of_value read others, items, start]
  split
  next closing => exact absurd (List.cons.inj closing).1 bracket
  next empty => contradiction
  next separated => exact absurd (List.cons.inj separated).1 comma
  next => rfl

/-- Any other item stands behind a comma. -/
theorem items_next :
    items (fuel + 2) depth false (',' :: text) = ((datum :: data, tail), next) := by
  obtain ⟨char, behind, start, bracket, -⟩ := exists_start read
  have comma : skipBlanks (',' :: text) = ',' :: text := rfl
  rw [← item_of_value read others, items, comma]
  simp only [Bool.false_eq_true, if_false, start]
  split
  next closing => exact absurd (List.cons.inj closing).1 bracket
  next => rfl

end Items

section Members

variable {data : List (String × Datum)} {key : String} (enough : key.toList.length < fuel)
  (read : value fuel depth text = (datum, some rest))
  (others : members fuel depth false rest = ((data, tail), next)) {blanks : Text}
  (blank : Blanks blanks)
include enough read others

/-- A member is a key and a value, and more members follow it. -/
theorem member_of_value :
    member (fuel + 1) depth (key.toList.flatMap escapedChar ++ '"' :: ':' :: text) =
      (((key, datum) :: data, tail), next) := by
  have behind : colon (':' :: text) = .ok text := rfl
  simp only [member, readString_escaped key fuel enough, behind, read, others]

include blank

/-- The first member stands behind the brace. -/
theorem members_first :
    members (fuel + 2) depth true (blanks ++ (stringText key ++ ':' :: text)) =
      (((key, datum) :: data, tail), next) := by
  rw [← member_of_value enough read others, members, blank.skip]
  simp [stringText, skipBlanks]

/-- Any other member stands behind a comma. -/
theorem members_next :
    members (fuel + 2) depth false (',' :: (blanks ++ (stringText key ++ ':' :: text))) =
      (((key, datum) :: data, tail), next) := by
  have comma : ∀ behind : Text, skipBlanks (',' :: behind) = ',' :: behind := fun _ => rfl
  rw [← member_of_value enough read others, members, comma]
  simp only [Bool.false_eq_true, if_false, blank.skip]
  simp [stringText, skipBlanks]

end Members

end Steps

/-! ## Reading what is written -/

/-- The items that follow a number end it. -/
theorem WritesItems.endsNumber {room : Nat} {items : List Json} {text : Text}
    (writes : WritesItems room items text) (rest : Text) : EndsNumber (text ++ rest) := by
  cases writes with
  | close blank =>
      rw [List.append_assoc]
      exact blank.endsNumber (endsNumber_cons (by decide) rest)
  | next => exact endsNumber_cons (by decide) _

/-- The members that follow a number end it. -/
theorem WritesMembers.endsNumber {room : Nat} {members : List (String × Json)} {text : Text}
    (writes : WritesMembers room members text) (rest : Text) : EndsNumber (text ++ rest) := by
  cases writes with
  | close blank =>
      rw [List.append_assoc]
      exact blank.endsNumber (endsNumber_cons (by decide) rest)
  | next => exact endsNumber_cons (by decide) _

mutual

/-- A value is read from any text that writes it, up to the end of that text. -/
theorem Writes.read {room : Nat} {written : Json} {text : Text}
    (writes : Writes room written text) (fuel : Nat) (enough : 3 * text.length ≤ fuel)
    {rest : Text} (ends : EndsNumber rest) :
    value fuel (room + 1) (text ++ rest) = (written.closed, some rest) := by
  match writes with
  | .null => exact (value_words (Nat.lt_of_lt_of_le (by decide) enough) _ rest).1
  | .true => exact (value_words (Nat.lt_of_lt_of_le (by decide) enough) _ rest).2.1
  | .false => exact (value_words (Nat.lt_of_lt_of_le (by decide) enough) _ rest).2.2
  | @Writes.int _ number held =>
      have filled := length_intText number
      exact value_intText held (by omega) _ ends
  | .string value =>
      have longer := length_stringText value
      exact value_stringText (by omega) _ rest
  | .emptyArray blank =>
      simp only [List.length_cons, List.length_append] at enough
      obtain ⟨fuel, rfl⟩ := Nat.exists_eq_add_of_le' (show 3 ≤ fuel by omega)
      simp only [List.cons_append, List.append_assoc]
      exact value_array (items_close blank _ _ _ rest)
  | .emptyObject blank =>
      simp only [List.length_cons, List.length_append] at enough
      obtain ⟨fuel, rfl⟩ := Nat.exists_eq_add_of_le' (show 3 ≤ fuel by omega)
      simp only [List.cons_append, List.append_assoc]
      exact value_object (members_close blank _ _ _ rest)
  | .array blank opening others =>
      simp only [List.length_cons, List.length_append] at enough
      obtain ⟨fuel, rfl⟩ := Nat.exists_eq_add_of_le' (show 3 ≤ fuel by omega)
      have first := blank.value (opening.read fuel (by omega) (others.endsNumber rest))
      have behind := others.read fuel (by omega) rest
      simp only [List.cons_append, List.append_assoc]
      exact value_array (items_first first behind)
  | @Writes.object _ key _ _ _ _ _ _ blank between opening others =>
      have longer := length_stringText key
      simp only [List.length_cons, List.length_append] at enough
      obtain ⟨fuel, rfl⟩ := Nat.exists_eq_add_of_le' (show 3 ≤ fuel by omega)
      have first := between.value (opening.read fuel (by omega) (others.endsNumber rest))
      have behind := others.read fuel (by omega) rest
      simp only [List.cons_append, List.append_assoc]
      exact value_object (members_first (by omega) first behind blank)

/-- Items are read from any text that writes them, up to their bracket. -/
theorem WritesItems.read {room : Nat} {written : List Json} {text : Text}
    (writes : WritesItems room written text) (fuel : Nat) (enough : 3 * text.length ≤ fuel)
    (rest : Text) :
    items fuel (room + 1) false (text ++ rest) = ((closedItems written, .closed), some rest) := by
  match writes with
  | .close blank =>
      simp only [List.length_append, List.length_singleton] at enough
      obtain ⟨fuel, rfl⟩ := Nat.exists_eq_add_of_le' (show 1 ≤ fuel by omega)
      rw [List.append_assoc]
      exact items_close blank _ _ _ rest
  | .next blank opening others =>
      simp only [List.length_cons, List.length_append] at enough
      obtain ⟨fuel, rfl⟩ := Nat.exists_eq_add_of_le' (show 2 ≤ fuel by omega)
      have first := blank.value (opening.read fuel (by omega) (others.endsNumber rest))
      have behind := others.read fuel (by omega) rest
      simp only [List.cons_append, List.append_assoc]
      exact items_next first behind

/-- Members are read from any text that writes them, up to their brace. -/
theorem WritesMembers.read {room : Nat} {written : List (String × Json)} {text : Text}
    (writes : WritesMembers room written text) (fuel : Nat) (enough : 3 * text.length ≤ fuel)
    (rest : Text) : members fuel (room + 1) false (text ++ rest) =
      ((closedMembers written, .closed), some rest) := by
  match writes with
  | .close blank =>
      simp only [List.length_append, List.length_singleton] at enough
      obtain ⟨fuel, rfl⟩ := Nat.exists_eq_add_of_le' (show 1 ≤ fuel by omega)
      rw [List.append_assoc]
      exact members_close blank _ _ _ rest
  | @WritesMembers.next _ key _ _ _ _ _ _ blank between opening others =>
      have longer := length_stringText key
      simp only [List.length_cons, List.length_append] at enough
      obtain ⟨fuel, rfl⟩ := Nat.exists_eq_add_of_le' (show 2 ≤ fuel by omega)
      have first := between.value (opening.read fuel (by omega) (others.endsNumber rest))
      have behind := others.read fuel (by omega) rest
      simp only [List.cons_append, List.append_assoc]
      exact members_next (by omega) first behind blank

end

/-! ## Documents -/

mutual

/-- There is no fault in what a text of a value is read as. -/
theorem fault?_closed : ∀ value : Json, (closed value).fault? = none
  | null | bool _ | int _ | float _ | string _ => rfl
  | array items => by
      rw [closed, Datum.fault?, faultOfItems?_closedItems items]
      rfl
  | object members => by
      rw [closed, Datum.fault?, faultOfMembers?_closedMembers members]
      rfl

/-- There is no fault in what a text of values is read as. -/
theorem faultOfItems?_closedItems : ∀ items : List Json,
    Datum.faultOfItems? (closedItems items) = none
  | [] => rfl
  | item :: items => by
      rw [closedItems, Datum.faultOfItems?, fault?_closed item, faultOfItems?_closedItems items]
      rfl

/-- There is no fault in what a text of members is read as. -/
theorem faultOfMembers?_closedMembers : ∀ members : List (String × Json),
    Datum.faultOfMembers? (closedMembers members) = none
  | [] => rfl
  | (key, value) :: members => by
      rw [closedMembers, Datum.faultOfMembers?, fault?_closed value,
        faultOfMembers?_closedMembers members]
      rfl

end

/-- A text that writes a value is read as that value and nothing else. -/
theorem document_of_writes {written : Json} {text : Text} (writes : Writes 127 written text) :
    document text = (written.closed, none) := by
  have ends : EndsNumber [] := by simp [EndsNumber]
  have read := writes.read (3 * text.length + 3) (by omega) ends
  rw [List.append_nil] at read
  rw [document, Reader.read]
  change ((value (3 * text.length + 3) (127 + 1) text).1, _) = _
  simp only [maxDepth, read]
  rfl

/-- A text that writes a value has that value, with the members of its objects in order. -/
theorem ofText_of_writes {written : Json} {text : Text} (writes : Writes 127 written text) :
    ofText text = .ok written.ordered := by
  rw [ofText, document_of_writes writes, settle, fault?_closed]
  rfl

/-! ## The two writers -/

mutual

/-- A value can be written so that it is read back: no more than `room` brackets are open at once,
    and each number is an integer that is held exactly. -/
def Readable (room : Nat) : Json → Prop
  | int value => HeldExactly value
  | float _ => False
  | array items => ∃ inner, room = inner + 1 ∧ ReadableItems inner items
  | object members => ∃ inner, room = inner + 1 ∧ ReadableMembers inner members
  | _ => True

/-- Values can be written so that they are read back. -/
def ReadableItems (room : Nat) : List Json → Prop
  | [] => True
  | item :: items => Readable room item ∧ ReadableItems room items

/-- The values of members can be written so that they are read back. -/
def ReadableMembers (room : Nat) : List (String × Json) → Prop
  | [] => True
  | (_, value) :: members => Readable room value ∧ ReadableMembers room members

end

/-- The writer without blanks puts none. -/
theorem Blanks.nil : Blanks [] := by simp [Blanks]

/-- The writer with lines puts a blank behind a colon. -/
theorem Blanks.space : Blanks [' '] := by simp [Blanks]

/-- A new line is a line feed and spaces. -/
theorem Blanks.newLine (level : Nat) : Blanks (Json.newLine level) := by
  simp [Blanks, Json.newLine, List.mem_replicate]

mutual

/-- The writer without blanks writes the value. -/
theorem writes_compact : ∀ {room : Nat} {value : Json}, Readable room value →
    Writes room value (compact value)
  | _, null, _ => .null
  | _, bool true, _ => .true
  | _, bool false, _ => .false
  | _, int _, held => .int held
  | _, string _, _ => .string _
  | _, array [], ⟨_, rfl, _⟩ => .emptyArray .nil
  | _, array (_ :: _), ⟨_, rfl, first, others⟩ =>
      .array .nil (writes_compact first) (writesItems_compact others)
  | _, object [], ⟨_, rfl, _⟩ => .emptyObject .nil
  | _, object (_ :: _), ⟨_, rfl, first, others⟩ =>
      .object .nil .nil (writes_compact first) (writesMembers_compact others)

/-- The writer without blanks writes the items after the first one. -/
theorem writesItems_compact : ∀ {room : Nat} {items : List Json}, ReadableItems room items →
    WritesItems room items (compactItems items)
  | _, [], _ => .close .nil
  | _, _ :: _, ⟨first, others⟩ => .next .nil (writes_compact first) (writesItems_compact others)

/-- The writer without blanks writes the members after the first one. -/
theorem writesMembers_compact : ∀ {room : Nat} {members : List (String × Json)},
    ReadableMembers room members → WritesMembers room members (compactMembers members)
  | _, [], _ => .close .nil
  | _, _ :: _, ⟨first, others⟩ =>
      .next .nil .nil (writes_compact first) (writesMembers_compact others)

end

mutual

/-- The writer with lines writes the value, at whatever level. -/
theorem writes_pretty (level : Nat) : ∀ {room : Nat} {value : Json}, Readable room value →
    Writes room value (pretty level value)
  | _, null, _ => .null
  | _, bool true, _ => .true
  | _, bool false, _ => .false
  | _, int _, held => .int held
  | _, string _, _ => .string _
  | _, array [], ⟨_, rfl, _⟩ => .emptyArray .nil
  | _, array (_ :: _), ⟨_, rfl, first, others⟩ => by
      rw [pretty, List.append_assoc]
      exact .array (.newLine _) (writes_pretty _ first) (writesItems_pretty level others)
  | _, object [], ⟨_, rfl, _⟩ => .emptyObject .nil
  | _, object (_ :: _), ⟨_, rfl, first, others⟩ => by
      rw [pretty, List.append_assoc]
      exact .object (.newLine _) .space (writes_pretty _ first) (writesMembers_pretty level others)

/-- The writer with lines writes the items after the first one. -/
theorem writesItems_pretty (level : Nat) : ∀ {room : Nat} {items : List Json},
    ReadableItems room items → WritesItems room items (prettyItems level items)
  | _, [], _ => .close (.newLine level)
  | _, _ :: _, ⟨first, others⟩ => by
      rw [prettyItems, List.append_assoc]
      exact .next (.newLine _) (writes_pretty _ first) (writesItems_pretty level others)

/-- The writer with lines writes the members after the first one. -/
theorem writesMembers_pretty (level : Nat) : ∀ {room : Nat} {members : List (String × Json)},
    ReadableMembers room members → WritesMembers room members (prettyMembers level members)
  | _, [], _ => .close (.newLine level)
  | _, _ :: _, ⟨first, others⟩ => by
      rw [prettyMembers, List.append_assoc]
      exact .next (.newLine _) .space (writes_pretty _ first) (writesMembers_pretty level others)

end

end TagWrap.Json
