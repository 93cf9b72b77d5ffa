import TagWrap.Text.Blank

/-!
# Trimmed texts

Trimming drops blanks from an end of a text for as long as there are any. What is left is determined
without that loop: at the end of a text it is the front that ends in no blank and has nothing but
blanks behind it, and at both ends the bare text that has nothing but blanks around it
(`trim_eq_iff`). Statements about trimmed texts are made with these descriptions, and then it does
not matter from which end the blanks are dropped first.
-/
namespace TagWrap.Text

/-- A text neither begins nor ends with a blank. -/
def Bare (text : Text) : Prop :=
  (∀ char ∈ text.head?, isBlank char = false) ∧ ∀ char ∈ text.getLast?, isBlank char = false

instance (text : Text) : Decidable (Bare text) :=
  decidable_of_iff (text.head?.all (!isBlank ·) && text.getLast?.all (!isBlank ·)) <| by
    simp [Bare, Option.all_eq_true]

/-- A bare text stands in a text with nothing but blanks around it. -/
def StandsIn (bare text : Text) : Prop :=
  Bare bare ∧ ∃ lead trail, text = lead ++ bare ++ trail ∧
    (∀ char ∈ lead, isBlank char = true) ∧ ∀ char ∈ trail, isBlank char = true

/-- A bare text stands in itself, without blanks around it. -/
theorem standsIn_self {text : Text} (bare : Bare text) : StandsIn text text :=
  ⟨bare, [], [], by simp⟩

/-- What the trimming of the end takes off is blank. -/
theorem exists_trimEnd (text : Text) :
    ∃ blanks, text = trimEnd text ++ blanks ∧ ∀ char ∈ blanks, isBlank char = true := by
  refine ⟨(text.reverse.takeWhile isBlank).reverse, ?_, ?_⟩
  · rw [trimEnd, ← List.reverse_append, List.takeWhile_append_dropWhile, List.reverse_reverse]
  · intro char member
    exact List.all_eq_true.mp List.all_takeWhile char (List.mem_reverse.mp member)

/-- The trimming of the end leaves no blank there. -/
theorem getLast?_trimEnd (text : Text) :
    ∀ char ∈ (trimEnd text).getLast?, isBlank char = false := by
  intro char last
  rw [trimEnd, List.getLast?_reverse] at last
  have kept := List.head?_dropWhile_not isBlank text.reverse
  rw [last] at kept
  simpa using kept

/-- Blanks in front of a text without a blank at its start are what the trimming of the start takes
    off. -/
theorem trimStart_append {lead rest : Text} (blank : ∀ char ∈ lead, isBlank char = true)
    (stops : ∀ char ∈ rest.head?, isBlank char = false) : trimStart (lead ++ rest) = rest := by
  rw [trimStart, List.dropWhile_append_of_pos blank]
  cases rest with
  | nil => rfl
  | cons first others =>
      have shown := stops first rfl
      exact List.dropWhile_cons_of_neg (by simp [shown])

/-- Blanks behind a text without a blank at its end are what the trimming of the end takes off. -/
theorem trimEnd_append {rest trail : Text} (blank : ∀ char ∈ trail, isBlank char = true)
    (stops : ∀ char ∈ rest.getLast?, isBlank char = false) : trimEnd (rest ++ trail) = rest := by
  have dropped : trimStart (trail.reverse ++ rest.reverse) = rest.reverse := by
    apply trimStart_append
    · intro char member
      exact blank char (List.mem_reverse.mp member)
    · rwa [List.head?_reverse]
  rw [trimStart] at dropped
  rw [trimEnd, List.reverse_append, dropped, List.reverse_reverse]

/-- Blanks at its end do not matter to what the trimming of the end leaves of a text. -/
theorem trimEnd_append_blanks {text trail : Text} (blank : ∀ char ∈ trail, isBlank char = true) :
    trimEnd (text ++ trail) = trimEnd text := by
  obtain ⟨blanks, whole, blanks_blank⟩ := exists_trimEnd text
  have regrouped : text ++ trail = trimEnd text ++ (blanks ++ trail) := by
    rw [← List.append_assoc, ← whole]
  rw [regrouped, trimEnd_append _ (getLast?_trimEnd text)]
  intro char member
  rcases List.mem_append.mp member with own | behind
  · exact blanks_blank char own
  · exact blank char behind

/-- A text of blanks has nothing left when its ends are trimmed. -/
theorem trim_of_blank {text : Text} (blank : ∀ char ∈ text, isBlank char = true) :
    trim text = [] := by
  have trimmed : trimStart (text ++ []) = [] := trimStart_append blank (by simp)
  rw [List.append_nil] at trimmed
  rw [trim, trimmed]
  rfl

/-- What stands bare between blanks is what the trimming of both ends leaves. -/
theorem StandsIn.trim_eq {bare text : Text} (stands : StandsIn bare text) : trim text = bare := by
  obtain ⟨⟨begins, ends⟩, lead, trail, rfl, leads, trails⟩ := stands
  cases bare with
  | nil =>
      apply trim_of_blank
      simpa [or_imp, forall_and] using ⟨leads, trails⟩
  | cons first others =>
      rw [trim, List.append_assoc, trimStart_append leads (by simpa using begins),
        trimEnd_append trails ends]

/-- What the trimming of both ends leaves stands bare between the blanks that it takes off. -/
theorem standsIn_trim (text : Text) : StandsIn (trim text) text := by
  obtain ⟨trail, rest, trails⟩ := exists_trimEnd (trimStart text)
  have whole : text = text.takeWhile isBlank ++ trim text ++ trail := by
    rw [List.append_assoc, trim, ← rest, trimStart, List.takeWhile_append_dropWhile]
  refine ⟨⟨?begins, getLast?_trimEnd _⟩, _, trail, whole, ?_, trails⟩
  case begins =>
    intro char first
    -- A first character of the trimmed text is the one at which the trimming of the start stopped.
    have reached : char ∈ (trimStart text).head? := by
      rw [rest, ← trim, List.head?_append, Option.mem_def.mp first]
      rfl
    have stopped := List.head?_dropWhile_not isBlank text
    rw [← trimStart, Option.mem_def.mp reached] at stopped
    simpa using stopped
  · exact List.all_eq_true.mp List.all_takeWhile

/-- A text without its outer blanks is the bare text that stands in it between blanks. -/
theorem trim_eq_iff {text bare : Text} : trim text = bare ↔ StandsIn bare text := by
  constructor
  · rintro rfl
    exact standsIn_trim text
  · exact StandsIn.trim_eq

end TagWrap.Text
