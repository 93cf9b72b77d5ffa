import Mathlib.Data.List.Pairwise
import TagWrap.Proofs.Batch

/-!
# A batch in two parts

An accepted batch can be applied in two parts. The first part leaves a text in which the edits of
the second no longer lie where they did: each has moved by what the edits of the first part add that
start before it. Moved by that, the second part is accepted too, and it gives what the whole batch
gives. Either part can come first (`batches_compose`).

One walk through the splice of the whole batch shows this (`Spliced.in_turn`). It builds the text in
between and both splices at once, and it carries along how far the text has moved. The moved edits
are still in order, since the edits between two of them take away no more than what stands there,
and of that the first byte behind the start of the earlier one is left.
-/
namespace TagWrap.Edit

open Text

/-- The number of bytes that the edits which start before an offset add together. -/
def growthBefore (edits : List Edit) (offset : Nat) : Int :=
  totalGrowth (edits.filter fun edit => edit.start < offset)

/-- An edit is another one moved by a number of bytes. Where lines and columns are is left open, since
    no batch looks at them. -/
structure Moved (distance : Int) (edit moved : Edit) : Prop where
  start : (moved.start : Int) = edit.start + distance
  stop : (moved.stop : Int) = edit.stop + distance
  replacement : moved.replacement = edit.replacement

/-- An edit moved by what other edits add that start before it. -/
def rebase (others : List Edit) (edit : Edit) : Edit :=
  let move (position : Position) : Position :=
    { position with offset := (position.offset + growthBefore others edit.start).toNat }
  { edit with span := ⟨move edit.span.start, move edit.span.stop⟩ }

/-- Two batches applied in turn give a result: the first is applied to the source, and the second to
    what comes out, each of its edits moved by what the edits of the first add that start before
    it. -/
def InTurn (source : Text) (first second : List Edit) (result : Text) : Prop :=
  ∃ middle, applyAll source first = .ok middle ∧
    (∀ edit ∈ second, Moved (growthBefore first edit.start) edit (rebase first edit)) ∧
    ∀ move : Edit → Edit,
      (∀ edit ∈ second, Moved (growthBefore first edit.start) edit (move edit)) →
        applyAll middle (second.map move) = .ok result

/-- The order of edits does not matter for what they add before an offset. -/
theorem growthBefore_perm {first second : List Edit} (same : first.Perm second) (offset : Nat) :
    growthBefore first offset = growthBefore second offset :=
  totalGrowth_perm (same.filter _)

/-- An edit that starts before an offset adds what it adds. -/
theorem growthBefore_cons_of_before {edit : Edit} {offset : Nat} (before : edit.start < offset)
    (edits : List Edit) :
    growthBefore (edit :: edits) offset = edit.growth + growthBefore edits offset := by
  rw [growthBefore, List.filter_cons_of_pos (by simpa using before), totalGrowth, growthBefore]

/-- Nothing is added before an offset by edits that start there or behind it. -/
theorem growthBefore_of_behind {edits : List Edit} {offset : Nat}
    (behind : ∀ edit ∈ edits, offset ≤ edit.start) : growthBefore edits offset = 0 := by
  rw [growthBefore, List.filter_eq_nil_iff.mpr (by simpa using behind)]
  rfl

/-- Edits add the same before two offsets when none of them starts between the two. -/
theorem growthBefore_congr {edits : List Edit} {low high : Nat} (forward : low ≤ high)
    (none_between : ∀ edit ∈ edits, edit.start < low ∨ high ≤ edit.start) :
    growthBefore edits low = growthBefore edits high := by
  rw [growthBefore, growthBefore]
  congr 1
  apply List.filter_congr
  intro edit member
  have placed := none_between edit member
  rw [decide_eq_decide]
  omega

section Ordered

variable {edits : List Edit} (increasing : edits.Pairwise Precedes)
  (forward : ∀ edit ∈ edits, edit.start ≤ edit.stop)

include increasing forward

/-- Edits move an offset that none of them reaches across no further to the left than an offset
    before it. What they take away between the two offsets is no more than what stands there. -/
theorem growthBefore_ge {low high : Nat} (below : low ≤ high)
    (clear : ∀ edit ∈ edits, edit.start < high → edit.stop ≤ high) :
    growthBefore edits low + low ≤ growthBefore edits high + high := by
  let between := (edits.filter fun edit => edit.start < high).filter fun edit =>
    !decide (edit.start < low)
  have lower : ((edits.filter fun edit => edit.start < high).filter fun edit =>
      edit.start < low) = edits.filter fun edit => edit.start < low := by
    rw [List.filter_filter]
    apply List.filter_congr
    intro edit _
    rw [← Bool.decide_and, decide_eq_decide]
    omega
  have parted : growthBefore edits high = growthBefore edits low + totalGrowth between := by
    have gathered := totalGrowth_perm (List.filter_append_perm
      (fun edit => decide (edit.start < low)) (edits.filter fun edit => edit.start < high))
    rw [totalGrowth_append, lower] at gathered
    exact gathered.symm
  have taken : (low : Int) - high ≤ totalGrowth between := by
    refine totalGrowth_ge (((increasing.filter _).filter _).imp And.right) ?_ below
    intro edit member
    simp only [between, List.mem_filter, decide_eq_true_eq, Bool.not_eq_true',
      decide_eq_false_iff_not] at member
    obtain ⟨⟨listed, early⟩, late⟩ := member
    exact ⟨by omega, forward edit listed, clear edit listed early⟩
  omega

/-- An edit that meets none of these is not moved beyond the start of the text. -/
theorem start_add_growthBefore_nonneg {edit : Edit} (apart : ∀ other ∈ edits, Apart other edit) :
    0 ≤ (edit.start : Int) + growthBefore edits edit.start := by
  have nothing : growthBefore edits 0 = 0 := growthBefore_of_behind (by simp)
  have clear : ∀ other ∈ edits, other.start < edit.start → other.stop ≤ edit.start := by
    intro other member early
    exact ((apart other member).precedes (Nat.le_of_lt early)).2
  have moved := growthBefore_ge increasing forward (Nat.zero_le edit.start) clear
  omega

/-- Two edits that meet none of these keep their order when they are moved. -/
theorem precedes_of_moved {first second first' second' : Edit} (runs : first.start ≤ first.stop)
    (apartFirst : ∀ edit ∈ edits, Apart edit first) (apartSecond : ∀ edit ∈ edits, Apart edit second)
    (ahead : Precedes first second) (movesFirst : Moved (growthBefore edits first.start) first first')
    (movesSecond : Moved (growthBefore edits second.start) second second') :
    Precedes first' second' := by
  -- None of the edits starts in the span of the first one, or at its start.
  let low := max (first.start + 1) first.stop
  have same : growthBefore edits first.start = growthBefore edits low := by
    apply growthBefore_congr (by omega)
    intro edit member
    rcases apartFirst edit member with before | behind
    · exact Or.inl before.1
    · have beyond := behind.1
      have stopped := behind.2
      exact Or.inr (by omega)
  have clear : ∀ edit ∈ edits, edit.start < second.start → edit.stop ≤ second.start := by
    intro edit member early
    exact ((apartSecond edit member).precedes (Nat.le_of_lt early)).2
  have below : low ≤ second.start := by
    have starts := ahead.1
    have stops := ahead.2
    omega
  have moved := growthBefore_ge increasing forward below clear
  have starts := movesFirst.start
  have stops := movesFirst.stop
  have later := movesSecond.start
  constructor
  · omega
  · omega

end Ordered

/-- A splice is made in two turns, one by the edits that are picked, the other by the edits that are
    left. The text in between is built along with both splices. In front of the piece that is
    walked next it has moved by `distance`, and the edits that are left move by that and by what
    the picked ones add between there and their start. -/
theorem Spliced.in_turn {picked : Edit → Bool} {move : Edit → Edit} {base base' : Nat}
    {distance : Int} {text result : Text} {edits : List Edit}
    (spliced : Spliced base text edits result) (increasing : edits.Pairwise Precedes)
    (reached : (base' : Int) = base + distance)
    (moves : ∀ edit ∈ edits.filter (!picked ·),
      Moved (distance + growthBefore (edits.filter picked) edit.start) edit (move edit)) :
    ∃ middle, Spliced base text (edits.filter picked) middle ∧
      Spliced base' middle ((edits.filter (!picked ·)).map move) result := by
  induction spliced generalizing base' distance with
  | rest base text => exact ⟨text, .rest base text, .rest base' text⟩
  | @edit base kept gone after result edit edits begins ends _ inductionHypothesis =>
      have later : ∀ other ∈ edits, edit.start < other.start := fun other member =>
        (List.rel_of_pairwise_cons increasing member).1
      cases picks : picked edit with
      | true =>
          have own : (edit :: edits).filter picked = edit :: edits.filter picked :=
            List.filter_cons_of_pos picks
          have left : (edit :: edits).filter (!picked ·) = edits.filter (!picked ·) :=
            List.filter_cons_of_neg (by simp [picks])
          rw [own, left] at moves
          rw [own, left]
          have further : ((base' + byteSize (kept ++ edit.replacement) : Nat) : Int) =
              edit.stop + (distance + edit.growth) := by
            rw [byteSize_append, growth]
            push_cast
            omega
          obtain ⟨middle, low, high⟩ := inductionHypothesis increasing.tail further (by
            intro other member
            have before := later other (List.mem_filter.mp member).1
            have moved := moves other member
            rwa [growthBefore_cons_of_before before, ← Int.add_assoc] at moved)
          refine ⟨kept ++ edit.replacement ++ middle, .edit begins ends low, ?_⟩
          exact (Spliced.rest base' (kept ++ edit.replacement)).append high
      | false =>
          have own : (edit :: edits).filter picked = edits.filter picked :=
            List.filter_cons_of_neg (by simp [picks])
          have left : (edit :: edits).filter (!picked ·) = edit :: edits.filter (!picked ·) :=
            List.filter_cons_of_pos (by simp [picks])
          rw [own, left] at moves
          rw [own, left]
          have unmoved : growthBefore (edits.filter picked) edit.start = 0 := by
            apply growthBefore_of_behind
            intro other member
            exact Nat.le_of_lt (later other (List.mem_filter.mp member).1)
          have moved := moves edit List.mem_cons_self
          rw [unmoved, Int.add_zero] at moved
          have starts := moved.start
          have stops := moved.stop
          obtain ⟨middle, low, high⟩ := inductionHypothesis increasing.tail stops
            fun other member => moves other (List.mem_cons_of_mem edit member)
          refine ⟨kept ++ gone ++ middle, ?_, ?_⟩
          · have width : base + byteSize (kept ++ gone) = edit.stop := by
              rw [byteSize_append]
              omega
            exact (Spliced.rest base (kept ++ gone)).append (width ▸ low)
          · rw [List.map_cons, ← moved.replacement]
            exact .edit (by omega) (by omega) high

/-- The edits of an accepted batch of two parts, in increasing order, are those of the parts. -/
theorem exists_parts {source result : Text} {first second : List Edit}
    (applied : applyAll source (first ++ second) = .ok result) :
    ∃ ordered, ordered.Pairwise Precedes ∧ Spliced 0 source ordered result ∧
      (ordered.filter fun edit => edit ∈ first).Perm first ∧
      (ordered.filter fun edit => !decide (edit ∈ first)).Perm second := by
  obtain ⟨ordered, same, increasing, spliced⟩ := applyAll_eq_ok_iff.mp applied
  have foreign : ∀ edit ∈ second, edit ∉ first := by
    intro edit member listed
    exact (List.nodup_append.mp (nodup_of_applyAll applied)).2.2 edit listed edit member rfl
  refine ⟨ordered, increasing, spliced, ?_, ?_⟩
  · have picked : (first ++ second).filter (fun edit => edit ∈ first) = first := by
      rw [List.filter_append, List.filter_eq_self.mpr (by simp),
        List.filter_eq_nil_iff.mpr (by simpa using foreign), List.append_nil]
    have filtered := same.filter fun edit => decide (edit ∈ first)
    rwa [picked] at filtered
  · have left : (first ++ second).filter (fun edit => !decide (edit ∈ first)) = second := by
      rw [List.filter_append, List.filter_eq_nil_iff.mpr (by simp),
        List.filter_eq_self.mpr (by simpa using foreign), List.nil_append]
    have filtered := same.filter fun edit => !decide (edit ∈ first)
    rwa [left] at filtered

/-- The edits of the second of two parts are moved as they should be. The edits of the first part
    meet none of them, so none is moved beyond the start of the text. -/
theorem moved_rebase {source result : Text} {first second : List Edit} {edit : Edit}
    (applied : applyAll source (first ++ second) = .ok result) (member : edit ∈ second) :
    Moved (growthBefore first edit.start) edit (rebase first edit) := by
  obtain ⟨ordered, increasing, spliced, picked, -⟩ := exists_parts applied
  obtain ⟨fits, meets⟩ := applyAll_isOk_iff.mp ⟨result, applied⟩
  have runs := (fits edit (List.mem_append_right first member)).1
  have inside : 0 ≤ (edit.start : Int) + growthBefore first edit.start := by
    rw [growthBefore_perm picked.symm]
    apply start_add_growthBefore_nonneg (increasing.filter _)
    · intro other listed
      exact (spliced.bounds other (List.mem_filter.mp listed).1).2.1
    · intro other listed
      exact (List.pairwise_append.mp meets).2.2 other (picked.mem_iff.mp listed) edit member
  refine ⟨Int.toNat_of_nonneg inside, Int.toNat_of_nonneg (a := edit.stop + _) ?_, rfl⟩
  omega

/-- What gives a result in one batch gives it in two turns. -/
theorem inTurn_of_applyAll {source result : Text} {first second : List Edit}
    (applied : applyAll source (first ++ second) = .ok result) :
    InTurn source first second result := by
  obtain ⟨ordered, increasing, spliced, picked, left⟩ := exists_parts applied
  have meets := (applyAll_isOk_iff.mp ⟨result, applied⟩).2
  have same := growthBefore_perm picked
  have forward : ∀ edit ∈ ordered, edit.start ≤ edit.stop := fun edit member =>
    (spliced.bounds edit member).2.1
  let low := ordered.filter fun edit => edit ∈ first
  let high := ordered.filter fun edit => !decide (edit ∈ first)
  have apart : ∀ edit ∈ high, ∀ other ∈ low, Apart other edit := fun edit later other earlier =>
    (List.pairwise_append.mp meets).2.2 other (picked.mem_iff.mp earlier) edit
      (left.mem_iff.mp later)
  -- The text in between depends on the first part only, so it is the same however the second moves.
  have turns (move : Edit → Edit)
      (moves : ∀ edit ∈ second, Moved (growthBefore first edit.start) edit (move edit)) :
      ∃ middle, Spliced 0 source low middle ∧ Spliced 0 middle (high.map move) result ∧
        (high.map move).Pairwise Precedes := by
    have movesHigh : ∀ edit ∈ high, Moved (growthBefore low edit.start) edit (move edit) := by
      intro edit member
      rw [same]
      exact moves edit (left.mem_iff.mp member)
    obtain ⟨middle, first_turn, second_turn⟩ := @Spliced.in_turn (fun edit => edit ∈ first) move
      0 0 0 _ _ _ spliced increasing rfl (by simpa only [Int.zero_add] using movesHigh)
    refine ⟨middle, first_turn, second_turn, List.pairwise_map.mpr ?_⟩
    refine (increasing.filter _).imp_of_mem fun {edit other} member otherMember ahead => ?_
    exact precedes_of_moved (increasing.filter _) (fun edit member =>
      forward edit (List.mem_filter.mp member).1) (forward edit (List.mem_filter.mp member).1)
      (apart edit member) (apart other otherMember) ahead (movesHigh edit member)
      (movesHigh other otherMember)
  obtain ⟨middle, first_turn, -, -⟩ := turns (rebase first) fun edit => moved_rebase applied
  refine ⟨middle, applyAll_eq_ok_iff.mpr ⟨low, picked, increasing.filter _, first_turn⟩,
    fun edit => moved_rebase applied, fun move moves => ?_⟩
  obtain ⟨middle', first_turn', second_turn, ordered'⟩ := turns move moves
  obtain rfl := first_turn.unique first_turn'
  exact applyAll_eq_ok_iff.mpr ⟨high.map move, left.map move, ordered', second_turn⟩

/-- Batches compose. When a batch of two parts is accepted, either part can be applied alone, and
    then the other to what comes out, each of its edits moved by what the edits made already add
    that start before it. Both ways the result is that of the whole batch, so the two parts commute
    up to this move. -/
theorem batches_compose {source result : Text} {first second : List Edit}
    (applied : applyAll source (first ++ second) = .ok result) :
    InTurn source first second result ∧ InTurn source second first result := by
  constructor
  · exact inTurn_of_applyAll applied
  · exact inTurn_of_applyAll (applyAll_perm List.perm_append_comm applied)

/-- An insertion that touches a replacement and a removal, the three in two parts that alternate. -/
theorem batches_compose_touching :
    let replace (start stop : Nat) (text : String) : Edit :=
      ⟨(LineIndex.ofText "aébc".toList).span ⟨start, stop⟩, text.toList, ""⟩
    let first := [replace 4 5 "", replace 0 1 "xyz"]
    let second := [replace 1 1 "-"]
    applyAll "aébc".toList (first ++ second) = .ok "xyz-éb".toList ∧
      InTurn "aébc".toList first second "xyz-éb".toList ∧
      InTurn "aébc".toList second first "xyz-éb".toList ∧
      (rebase first (replace 1 1 "-")).start = 3 := by
  intro replace first second
  let decreasing := [replace 4 5 "", replace 1 1 "-", replace 0 1 "xyz"]
  have applied : applyAll "aébc".toList decreasing = .ok "xyz-éb".toList := by
    rw [applyAll_of_decreasing (by decide +kernel)]
    rfl
  have permuted : decreasing.Perm (first ++ second) := (List.Perm.swap _ _ []).cons _
  have reordered := applyAll_perm permuted applied
  obtain ⟨inTurn, exchanged⟩ := batches_compose reordered
  exact ⟨reordered, inTurn, exchanged, by decide +kernel⟩

end TagWrap.Edit
