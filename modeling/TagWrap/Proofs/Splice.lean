import TagWrap.Edit
import TagWrap.Proofs.Cut

/-!
# Batches of edits as splices

A batch is applied by making one change after the other from the end of the source to its
start. What comes out is described without any order of changes: the source is read from its
start to its end, and in turn a piece is kept and a piece gives way to a replacement. That is
the relation `Spliced`.

Splices compose and come apart: the splice of a text is the splice of a front followed by that
of the rest, wherever no edit reaches across the cut. Later statements about parts of a fixed
source use `Spliced.append` and `Spliced.split` only, and never the order of changes.
-/
namespace TagWrap.Edit

open Text

/-- The number of bytes by which an edit makes the text longer. It is negative where more goes
    than comes. -/
def growth (edit : Edit) : Int :=
  (byteSize edit.replacement : Int) - ((edit.stop : Int) - (edit.start : Int))

/-- The number of bytes by which edits make the text longer together. -/
def totalGrowth : List Edit → Int
  | [] => 0
  | edit :: edits => edit.growth + totalGrowth edits

@[simp] theorem totalGrowth_append (first second : List Edit) :
    totalGrowth (first ++ second) = totalGrowth first + totalGrowth second := by
  induction first with
  | nil => simp [totalGrowth]
  | cons edit edits inductionHypothesis =>
      rw [List.cons_append, totalGrowth, inductionHypothesis, totalGrowth, Int.add_assoc]

/-- Edits make the text longer by the same in every order. -/
theorem totalGrowth_perm {first second : List Edit} (same : first.Perm second) :
    totalGrowth first = totalGrowth second := by
  induction same with
  | nil => rfl
  | cons edit _ inductionHypothesis => rw [totalGrowth, inductionHypothesis, totalGrowth]
  | swap first second edits => simp only [totalGrowth, Int.add_left_comm]
  | trans _ _ firstHypothesis secondHypothesis => rw [firstHypothesis, secondHypothesis]

/-- Edits in order between two offsets take away no more than stands there. -/
theorem totalGrowth_ge {edits : List Edit} {low high : Nat}
    (ordered : edits.Pairwise fun first second => first.stop ≤ second.start)
    (bounded : ∀ edit ∈ edits, low ≤ edit.start ∧ edit.start ≤ edit.stop ∧ edit.stop ≤ high)
    (forward : low ≤ high) : (low : Int) - high ≤ totalGrowth edits := by
  induction edits generalizing low with
  | nil =>
      rw [totalGrowth]
      omega
  | cons edit edits inductionHypothesis =>
      obtain ⟨starts, runs, stops⟩ := bounded edit List.mem_cons_self
      have rest : (edit.stop : Int) - high ≤ totalGrowth edits := by
        refine inductionHypothesis ordered.tail (fun other member => ?_) stops
        exact ⟨List.rel_of_pairwise_cons ordered member,
          (bounded other (List.mem_cons_of_mem edit member)).2⟩
      rw [totalGrowth, growth]
      omega

/-- The span of an edit is a span of the source: it does not run backwards and cuts no
    character. -/
def Fits (source : Text) (edit : Edit) : Prop :=
  edit.start ≤ edit.stop ∧ isBoundary source edit.start = true ∧
    isBoundary source edit.stop = true

/-- The text that an edit takes out of a source. -/
def Takes (source : Text) (edit : Edit) (gone : Text) : Prop :=
  ∃ front back, source = front ++ gone ++ back ∧ byteSize front = edit.start ∧
    edit.start + byteSize gone = edit.stop

/-- One edit starts before another and stops no later than the other starts. -/
def Precedes (first second : Edit) : Prop :=
  first.start < second.start ∧ first.stop ≤ second.start

instance : DecidableRel Precedes := fun first second =>
  inferInstanceAs (Decidable (first.start < second.start ∧ first.stop ≤ second.start))

/-- Two edits do not meet: they have different starts, and the one that starts first stops no
    later than the other starts. -/
def Apart (first second : Edit) : Prop := Precedes first second ∨ Precedes second first

instance : DecidableRel Apart := fun first second =>
  inferInstanceAs (Decidable (Precedes first second ∨ Precedes second first))

/-- Nothing depends on which of two edits is named first. -/
theorem Apart.symm {first second : Edit} (apart : Apart first second) : Apart second first :=
  Or.symm apart

/-- An edit takes only one text out of a source, since its offsets cut the source in three. -/
theorem Takes.unique {source gone gone' : Text} {edit : Edit} (takes : Takes source edit gone)
    (again : Takes source edit gone') : gone = gone' := by
  obtain ⟨front, back, rfl, begins, ends⟩ := takes
  obtain ⟨front', back', whole, begins', ends'⟩ := again
  rw [List.append_assoc, List.append_assoc] at whole
  obtain ⟨rfl, rest⟩ := cut_unique whole (begins.trans begins'.symm)
  exact (cut_unique rest (by omega)).1

/-- A text that starts at the offset `base`, and what edits make of it: pieces that are kept
    and replacements in turn, from the start of the text to its end. -/
inductive Spliced : Nat → Text → List Edit → Text → Prop where
  /-- Behind the last edit everything is kept. -/
  | rest (base : Nat) (text : Text) : Spliced base text [] text
  | edit {base : Nat} {kept gone after result : Text} {edit : Edit} {edits : List Edit}
      (begins : base + byteSize kept = edit.start) (ends : edit.start + byteSize gone = edit.stop)
      (others : Spliced edit.stop after edits result) :
      Spliced base (kept ++ gone ++ after) (edit :: edits) (kept ++ edit.replacement ++ result)

namespace Spliced

/-- Without edits a text stays as it is. -/
theorem nil_iff {base : Nat} {text result : Text} :
    Spliced base text [] result ↔ result = text := by
  constructor
  · rintro ⟨⟩
    rfl
  · rintro rfl
    exact rest base result

/-- The first edit of a splice cuts the text in three. -/
theorem cons_iff {base : Nat} {text result : Text} {edit : Edit} {edits : List Edit} :
    Spliced base text (edit :: edits) result ↔
      ∃ kept gone after others, text = kept ++ gone ++ after ∧
        result = kept ++ edit.replacement ++ others ∧ base + byteSize kept = edit.start ∧
        edit.start + byteSize gone = edit.stop ∧ Spliced edit.stop after edits others := by
  constructor
  · intro spliced
    cases spliced with
    | edit begins ends remaining => exact ⟨_, _, _, _, rfl, rfl, begins, ends, remaining⟩
  · rintro ⟨kept, gone, after, others, rfl, rfl, begins, ends, remaining⟩
    exact .edit begins ends remaining

/-- A splice has one result. The offsets of the first edit fix the three pieces that it cuts
    the text in, and the rest of the text is spliced by the other edits. -/
theorem unique {base : Nat} {text result other : Text} {edits : List Edit}
    (spliced : Spliced base text edits result) (again : Spliced base text edits other) :
    result = other := by
  induction edits generalizing base text result other with
  | nil => rw [nil_iff.mp spliced, nil_iff.mp again]
  | cons edit edits inductionHypothesis =>
      obtain ⟨kept, gone, after, others, rfl, rfl, begins, ends, remaining⟩ := cons_iff.mp spliced
      obtain ⟨kept', gone', after', others', whole, rfl, begins', ends', remaining'⟩ :=
        cons_iff.mp again
      rw [List.append_assoc, List.append_assoc] at whole
      obtain ⟨rfl, tails⟩ := cut_unique whole (by omega)
      obtain ⟨rfl, rfl⟩ := cut_unique tails (by omega)
      rw [inductionHypothesis remaining remaining']

/-- The edits of a splice lie within the text. -/
theorem bounds {base : Nat} {text result : Text} {edits : List Edit}
    (spliced : Spliced base text edits result) :
    ∀ edit ∈ edits, base ≤ edit.start ∧ edit.start ≤ edit.stop ∧
      edit.stop ≤ base + byteSize text := by
  induction spliced with
  | rest base text => simp
  | edit begins ends others inductionHypothesis =>
      intro edit member
      simp only [byteSize_append]
      rcases List.mem_cons.mp member with rfl | later
      · omega
      · have bounded := inductionHypothesis edit later
        omega

/-- The edits of a splice are in order: each stops no later than the next ones start. -/
theorem ordered {base : Nat} {text result : Text} {edits : List Edit}
    (spliced : Spliced base text edits result) :
    edits.Pairwise fun first second => first.stop ≤ second.start := by
  induction spliced with
  | rest base text => exact .nil
  | edit begins ends others inductionHypothesis =>
      exact .cons (fun later member => (others.bounds later member).1) inductionHypothesis

/-- The span of each edit of a splice is a span of the text around it. -/
theorem fits {base : Nat} {text result : Text} {edits : List Edit}
    (spliced : Spliced base text edits result) (front back : Text)
    (size : byteSize front = base) : ∀ edit ∈ edits, Fits (front ++ text ++ back) edit := by
  induction spliced generalizing front with
  | rest base text => simp
  | @edit base kept gone after result first edits begins ends others inductionHypothesis =>
      intro edit member
      rcases List.mem_cons.mp member with rfl | later
      · refine ⟨by omega, isBoundary_iff.mpr ⟨front ++ kept, gone ++ after ++ back, ?_, ?_⟩,
          isBoundary_iff.mpr ⟨front ++ kept ++ gone, after ++ back, ?_, ?_⟩⟩
        · simp
        · rw [byteSize_append]; omega
        · simp
        · simp only [byteSize_append]; omega
      · have whole : front ++ (kept ++ gone ++ after) ++ back =
            (front ++ kept ++ gone) ++ after ++ back := by simp
        rw [whole]
        exact inductionHypothesis _ (by simp only [byteSize_append]; omega) edit later

/-- What holds of a text without edits and is carried over each edit holds of a splice. About the
    text that an edit takes out, what is known of the edit in the whole source is known here, since
    an edit takes only one text out of a source. -/
theorem induction_taken {whole text result : Text} {base : Nat} {edits : List Edit}
    {known : Edit → Text → Prop} {motive : Text → List Edit → Text → Prop}
    (spliced : Spliced base text edits result) (front back : Text) (size : byteSize front = base)
    (source : whole = front ++ text ++ back)
    (each : ∀ edit ∈ edits, ∃ gone, Takes whole edit gone ∧ known edit gone)
    (rest : ∀ text, motive text [] text)
    (step : ∀ kept gone after edit edits result, known edit gone → motive after edits result →
      motive (kept ++ gone ++ after) (edit :: edits) (kept ++ edit.replacement ++ result)) :
    motive text edits result := by
  induction spliced generalizing front with
  | rest base text => exact rest text
  | @edit base kept gone after result first edits begins ends others inductionHypothesis =>
      have takes : Takes whole first gone :=
        ⟨front ++ kept, after ++ back, by simp [source], by rw [byteSize_append]; omega, ends⟩
      obtain ⟨gone', alsoTakes, fact⟩ := each first List.mem_cons_self
      obtain rfl := takes.unique alsoTakes
      refine step kept gone after first edits result fact (inductionHypothesis
        (front ++ kept ++ gone) (by simp only [byteSize_append]; omega) (by simp [source]) ?_)
      intro edit member
      exact each edit (List.mem_cons_of_mem first member)

/-- The text grows by what its edits add. -/
theorem byteSize_result {base : Nat} {text result : Text} {edits : List Edit}
    (spliced : Spliced base text edits result) :
    (byteSize result : Int) = byteSize text + totalGrowth edits := by
  induction spliced with
  | rest base text => simp [totalGrowth]
  | edit begins ends others inductionHypothesis =>
      simp only [byteSize_append, totalGrowth, growth]
      push_cast
      omega

/-- Splices of neighbouring texts make up a splice. -/
theorem append {base : Nat} {front back front' back' : Text} {before after : List Edit}
    (low : Spliced base front before front')
    (high : Spliced (base + byteSize front) back after back') :
    Spliced base (front ++ back) (before ++ after) (front' ++ back') := by
  induction low with
  | rest base text =>
      cases after with
      | nil =>
          rw [nil_iff.mp high]
          exact .rest base (text ++ back)
      | cons edit edits =>
          obtain ⟨kept, gone, rest, others, rfl, rfl, begins, ends, remaining⟩ := cons_iff.mp high
          refine cons_iff.mpr ⟨text ++ kept, gone, rest, others, ?_, ?_, ?_, ends, remaining⟩
          · simp
          · simp
          · rw [byteSize_append]; omega
  | @edit base kept gone rest result edit edits begins ends others inductionHypothesis =>
      have shifted : base + byteSize (kept ++ gone ++ rest) = edit.stop + byteSize rest := by
        simp only [byteSize_append]; omega
      rw [shifted] at high
      refine cons_iff.mpr ⟨kept, gone, rest ++ back, result ++ back', ?_, ?_, begins, ends,
        inductionHypothesis high⟩
      · simp
      · simp

/-- A splice comes apart at every cut that no edit reaches across.

The induction is on the edits below the cut. Each of them lies within the front, which is
shortened by what the edit covers. When none is left, the first edit above the cut keeps at
least the rest of the front. -/
theorem split {base : Nat} {front back result : Text} {before after : List Edit}
    (spliced : Spliced base (front ++ back) (before ++ after) result)
    (below : ∀ edit ∈ before, edit.stop ≤ base + byteSize front)
    (above : ∀ edit ∈ after, base + byteSize front ≤ edit.start) :
    ∃ front' back', result = front' ++ back' ∧ Spliced base front before front' ∧
      Spliced (base + byteSize front) back after back' := by
  induction before generalizing base front result with
  | nil =>
      refine ⟨front, ?_⟩
      cases after with
      | nil =>
          rw [nil_iff.mp spliced]
          exact ⟨back, rfl, .rest base front, .rest _ back⟩
      | cons edit edits =>
          obtain ⟨kept, gone, rest, others, whole, rfl, begins, ends, remaining⟩ :=
            cons_iff.mp spliced
          have reached := above edit List.mem_cons_self
          rw [List.append_assoc] at whole
          obtain ⟨middle, rfl, rfl⟩ := exists_between whole (by omega)
          rw [byteSize_append] at begins
          refine ⟨middle ++ edit.replacement ++ others, by simp, .rest base front, ?_⟩
          exact cons_iff.mpr ⟨middle, gone, rest, others, by simp, rfl, by omega, ends, remaining⟩
  | cons edit edits inductionHypothesis =>
      obtain ⟨kept, gone, rest, others, whole, rfl, begins, ends, remaining⟩ :=
        cons_iff.mp spliced
      have reached := below edit List.mem_cons_self
      obtain ⟨middle, rfl, rfl⟩ := exists_between whole.symm (by rw [byteSize_append]; omega)
      have width : base + byteSize (kept ++ gone ++ middle) = edit.stop + byteSize middle := by
        simp only [byteSize_append]; omega
      rw [width] at below above ⊢
      obtain ⟨front', back', rfl, low, high⟩ := inductionHypothesis remaining
        (fun other member => below other (List.mem_cons_of_mem edit member)) above
      refine ⟨kept ++ edit.replacement ++ front', back', by simp, ?_, high⟩
      exact cons_iff.mpr ⟨kept, gone, middle, front', rfl, rfl, begins, ends, low⟩

end Spliced

end TagWrap.Edit
