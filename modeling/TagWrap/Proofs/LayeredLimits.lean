import TagWrap.Config
import TagWrap.LineLimit
import TagWrap.Proofs.OptionsFormat

/-!
# Limits from layers of options

The options of a file and those of the command line come to one number for each kind of tag. The
number for a side is the first that is given: on the command line for the side, on the command line
for both sides, in the file for the side, where a flat number of the file counts for both. Where
none is given it is one.

`layered_limits` says that the configuration of the rule depends on these two numbers only. They
must both be at least one, whatever stands in the file for a side that the command line sets, and
then they are the limits. The layers meet in `numberFor_apply`. All else is about options as they
are after the overrides are laid over them.
-/
namespace TagWrap

/-- The number that a written maximum gives for elements on several lines or on one. -/
def WrittenMaximum.side? (multiline : Bool) : WrittenMaximum → Option Int
  | flat value => some value
  | split sides => if multiline then sides.multi else sides.single

namespace RuleOptions

/-- The number that options give for a side, if they do. -/
def side? (options : RuleOptions) (multiline : Bool) : Option Int :=
  options.maximum.bind (WrittenMaximum.side? multiline)

/-- The number for a side: what options give for it, or one. -/
def numberFor (options : RuleOptions) (multiline : Bool) : Int := (options.side? multiline).getD 1

/-- Options write the numbers for the two sides apart. -/
def Splits (options : RuleOptions) : Prop := ∃ sides, options.maximum = some (.split sides)

end RuleOptions

namespace RuleOverrides

/-- The number that overrides give for a side: the one for the side alone, or else the one for
    both sides. -/
def side? (overrides : RuleOverrides) (multiline : Bool) : Option Int :=
  (if multiline then overrides.multi else overrides.single).or overrides.maximum

/-- The number that is in effect for a side, when overrides are laid over options. -/
def effective (overrides : RuleOverrides) (options : RuleOptions) (multiline : Bool) : Int :=
  ((overrides.side? multiline).or (options.side? multiline)).getD 1

/-- The scope that is in effect. -/
def effectiveScope (overrides : RuleOverrides) (options : RuleOptions) : Scope :=
  (overrides.scope.or options.scope).getD .always

/-- A side is overridden, or a split maximum of the file is in effect. -/
def Parts (overrides : RuleOverrides) (options : RuleOptions) : Prop :=
  overrides.single ≠ none ∨ overrides.multi ≠ none ∨ overrides.maximum = none ∧ options.Splits

end RuleOverrides

/-- The number below one that an error names, of the numbers for tags on one line and on several.
    Where the two are not told apart it is the whole maximum, and else the first that is below
    one. -/
inductive Blames (parted : Prop) (single multi : Int) : OutOfRange → Prop where
  | whole (joint : ¬ parted) (low : single < 1) : Blames parted single multi ⟨.whole, single⟩
  | single (apart : parted) (low : single < 1) : Blames parted single multi ⟨.single, single⟩
  | multi (apart : parted) (fine : 1 ≤ single) (low : multi < 1) :
      Blames parted single multi ⟨.multi, multi⟩

namespace Blames

variable {parted : Prop} {single multi : Int} {error : OutOfRange}

theorem joint_iff (joint : ¬ parted) :
    Blames parted single multi error ↔ single < 1 ∧ error = ⟨.whole, single⟩ := by
  constructor
  · rintro (⟨-, low⟩ | ⟨apart, -⟩ | ⟨apart, -, -⟩)
    · exact ⟨low, rfl⟩
    · exact absurd apart joint
    · exact absurd apart joint
  · rintro ⟨low, rfl⟩
    exact .whole joint low

theorem parted_iff (apart : parted) : Blames parted single multi error ↔
    single < 1 ∧ error = ⟨.single, single⟩ ∨
      1 ≤ single ∧ multi < 1 ∧ error = ⟨.multi, multi⟩ := by
  constructor
  · rintro (⟨joint, -⟩ | ⟨-, low⟩ | ⟨-, fine, low⟩)
    · exact absurd apart joint
    · exact Or.inl ⟨low, rfl⟩
    · exact Or.inr ⟨fine, low, rfl⟩
  · rintro (⟨low, rfl⟩ | ⟨fine, low, rfl⟩)
    · exact .single apart low
    · exact .multi apart fine low

end Blames

/-! ## Options after the overrides -/

section Refusals

variable {field : MaximumField} {value : Int} {sides : WrittenSplit} {error : OutOfRange}

/-- A number is refused when it is below one. -/
theorem capOf_eq_error_iff :
    capOf field value = .error error ↔ value < 1 ∧ error = ⟨field, value⟩ := by
  rw [capOf]
  split <;> rename_i positive
  · simp [Int.not_lt.mpr positive]
  · simp [Int.not_le.mp positive, eq_comm]

/-- A side is refused when its number is below one. A side that is left out is one. -/
theorem sideCapOf_eq_error_iff {side : Option Int} :
    sideCapOf field side = .error error ↔ side.getD 1 < 1 ∧ error = ⟨field, side.getD 1⟩ := by
  cases side with
  | none => simp [sideCapOf]
  | some value => exact capOf_eq_error_iff

/-- A flat maximum is refused for its number. -/
theorem Maximum.ofWritten_flat_eq_error_iff :
    ofWritten (some (.flat value)) = .error error ↔ value < 1 ∧ error = ⟨.whole, value⟩ := by
  simp [ofWritten, bind_eq_error, capOf_eq_error_iff, pure, Except.pure]

/-- A split maximum is refused for the number of its first side, or else of its second. -/
theorem Maximum.ofWritten_split_eq_error_iff :
    ofWritten (some (.split sides)) = .error error ↔
      sides.single.getD 1 < 1 ∧ error = ⟨.single, sides.single.getD 1⟩ ∨
        1 ≤ sides.single.getD 1 ∧ sides.multi.getD 1 < 1 ∧
          error = ⟨.multi, sides.multi.getD 1⟩ := by
  have passed : (∃ cap, sideCapOf .single sides.single = .ok cap) ↔
      1 ≤ sides.single.getD 1 := by
    simp only [sideCapOf_eq_ok_iff]
    cases sides.single <;> simp
  simp only [ofWritten, bind_eq_error, sideCapOf_eq_error_iff]
  simp [pure, Except.pure, ← passed]

end Refusals

section Options

variable {options : RuleOptions}

/-- No number is below one exactly when the number for neither side is. -/
theorem RuleOptions.forall_numbers_iff : (∀ number ∈ options.numbers, 1 ≤ number) ↔
    1 ≤ options.numberFor false ∧ 1 ≤ options.numberFor true := by
  obtain ⟨- | ⟨value | ⟨single, multi⟩⟩, scope⟩ := options
  · simp [numbers, numberFor, side?]
  · simp [numbers, WrittenMaximum.numbers, numberFor, side?, WrittenMaximum.side?]
  · cases single <;> cases multi <;>
      simp [numbers, WrittenMaximum.numbers, numberFor, side?, WrittenMaximum.side?]

/-- The cap that is meant for a side is its number. -/
theorem RuleOptions.capFor_meant (multiline : Bool) :
    options.meant.maximum.capFor multiline = (options.numberFor multiline).toNat := by
  obtain ⟨- | ⟨value | ⟨single, multi⟩⟩, scope⟩ := options
  · rfl
  · rfl
  · cases multiline
    · cases single <;> rfl
    · cases multi <;> rfl

/-- Options are refused when a number is below one, and the error names it. The number for tags on
    one line is looked at first. -/
theorem RuleConfig.ofOptions_eq_error_iff {error : OutOfRange} :
    ofOptions options = .error error ↔
      Blames options.Splits (options.numberFor false) (options.numberFor true) error := by
  obtain ⟨written, scope⟩ := options
  have stopped : ofOptions ⟨written, scope⟩ = .error error ↔
      Maximum.ofWritten written = .error error := by
    simp [ofOptions, bind_eq_error, pure, Except.pure]
  rw [stopped]
  rcases written with - | (value | sides)
  · rw [Blames.joint_iff (by simp [RuleOptions.Splits])]
    simp [Maximum.ofWritten, RuleOptions.numberFor, RuleOptions.side?]
  · rw [Blames.joint_iff (by simp [RuleOptions.Splits])]
    exact Maximum.ofWritten_flat_eq_error_iff
  · rw [Blames.parted_iff ⟨sides, rfl⟩]
    exact Maximum.ofWritten_split_eq_error_iff

end Options

/-! ## The layers -/

namespace RuleOverrides

/-- The sides of a maximum are the numbers that it gives. -/
theorem side?_sidesOf (written : Option WrittenMaximum) (multiline : Bool) :
    WrittenMaximum.side? multiline (.split (sidesOf written)) =
      written.bind (WrittenMaximum.side? multiline) := by
  rcases written with - | (value | sides)
  · cases multiline <;> rfl
  · cases multiline <;> rfl
  · rfl

variable (overrides : RuleOverrides) (options : RuleOptions)

/-- The maximum of options once the number for both sides is laid over it. -/
def overWhole : Option WrittenMaximum := (overrides.maximum.map .flat).or options.maximum

/-- It gives for a side the number for both sides, or else what the options give. -/
theorem side?_overWhole (multiline : Bool) :
    (overrides.overWhole options).bind (WrittenMaximum.side? multiline) =
      overrides.maximum.or (options.side? multiline) := by
  rw [overWhole]
  cases overrides.maximum <;> rfl

/-- A side on the command line makes the maximum a split one, in which the other side is kept. -/
theorem maximum_apply : (overrides.apply options).maximum =
    if overrides.single.isSome || overrides.multi.isSome then
      let sides := sidesOf (overrides.overWhole options)
      some (.split ⟨overrides.single.or sides.single, overrides.multi.or sides.multi⟩)
    else overrides.overWhole options := by
  rw [apply, overWhole]
  cases overrides.maximum <;> rfl

/-- With overrides laid over them, options give for a side what the overrides give, or else what
    they gave before. -/
theorem side?_apply (multiline : Bool) : (overrides.apply options).side? multiline =
    (overrides.side? multiline).or (options.side? multiline) := by
  have kept := side?_sidesOf (overrides.overWhole options) multiline
  rw [side?_overWhole] at kept
  rw [RuleOptions.side?, maximum_apply, side?, Option.or_assoc, ← kept]
  by_cases parted : (overrides.single.isSome || overrides.multi.isSome) = true
  · rw [if_pos parted]
    cases multiline <;> rfl
  · obtain ⟨single, multi⟩ : overrides.single = none ∧ overrides.multi = none := by
      simpa using parted
    rw [if_neg parted, single, multi, ite_self, Option.none_or, kept, side?_overWhole]

/-- With overrides laid over them, options have the number that is in effect for each side. -/
theorem numberFor_apply (multiline : Bool) :
    (overrides.apply options).numberFor multiline = overrides.effective options multiline := by
  rw [RuleOptions.numberFor, side?_apply, effective]

/-- With overrides laid over them, options write the sides apart when a side is overridden or a
    split maximum of the file stays. -/
theorem splits_apply : (overrides.apply options).Splits ↔ overrides.Parts options := by
  obtain ⟨maximum, single, multi, scope⟩ := overrides
  rw [Parts]
  cases single with
  | some value => simp [RuleOptions.Splits, apply]
  | none =>
      cases multi with
      | some value => simp [RuleOptions.Splits, apply]
      | none => cases maximum <;> simp [RuleOptions.Splits, apply]

end RuleOverrides

/-- The limits of the rule are the numbers in effect. The options of the file and the overrides of
    the command line are accepted exactly when the number in effect for each side is at least one.
    Then a tag is held to the number for its kind, unless it is on one line and the scope in effect
    is that of tags on several lines. Otherwise the error names a number below one that is in
    effect. What a file gives for a side that is overridden has no part in this. -/
theorem layered_limits (config : Config) (overrides : RuleOverrides) :
    ((∃ rule, config.ruleConfig overrides = .ok rule) ↔
      1 ≤ overrides.effective config.rule false ∧ 1 ≤ overrides.effective config.rule true) ∧
    (∀ rule, config.ruleConfig overrides = .ok rule → ∀ multiline,
      ((rule.limitFor multiline).cap : Int) = overrides.effective config.rule multiline ∧
      ((rule.limitFor multiline).enforced = false ↔
        multiline = false ∧ overrides.effectiveScope config.rule = .multiline)) ∧
    (∀ error, config.ruleConfig overrides = .error error ↔
      Blames (overrides.Parts config.rule) (overrides.effective config.rule false)
        (overrides.effective config.rule true) error) ∧
    ∀ other : Config,
      (∀ multiline, overrides.side? multiline = none →
        other.rule.side? multiline = config.rule.side? multiline) →
      ((∃ rule, other.ruleConfig overrides = .ok rule) ↔
        ∃ rule, config.ruleConfig overrides = .ok rule) := by
  have accepted (config : Config) : (∃ rule, config.ruleConfig overrides = .ok rule) ↔
      1 ≤ overrides.effective config.rule false ∧ 1 ≤ overrides.effective config.rule true := by
    simp only [Config.ruleConfig, RuleConfig.ofOptions_eq_ok_iff, RuleOptions.forall_numbers_iff,
      RuleOverrides.numberFor_apply, exists_and_left, exists_eq, and_true]
  refine ⟨accepted config, ?limits, ?errors, ?overridden⟩
  case limits =>
    intro rule found multiline
    obtain ⟨fine, meant⟩ := RuleConfig.ofOptions_eq_ok_iff.mp found
    rw [RuleOptions.forall_numbers_iff, RuleOverrides.numberFor_apply,
      RuleOverrides.numberFor_apply] at fine
    have positive : 1 ≤ overrides.effective config.rule multiline := by
      cases multiline
      · exact fine.1
      · exact fine.2
    have cap : rule.maximum.capFor multiline =
        (overrides.effective config.rule multiline).toNat := by
      rw [meant, RuleOptions.capFor_meant, RuleOverrides.numberFor_apply]
    have scope : rule.scope = overrides.effectiveScope config.rule := by
      rw [meant]
      rfl
    constructor
    · simp only [RuleConfig.limitFor, LineLimit.ofCap, cap]
      omega
    · simp only [RuleConfig.limitFor, LineLimit.ofCap, scope]
      cases overrides.effectiveScope config.rule <;> simp [Scope.applies]
  case errors =>
    intro error
    rw [Config.ruleConfig, RuleConfig.ofOptions_eq_error_iff, RuleOverrides.numberFor_apply,
      RuleOverrides.numberFor_apply, RuleOverrides.splits_apply]
  case overridden =>
    intro other same
    have unchanged (multiline : Bool) : overrides.effective other.rule multiline =
        overrides.effective config.rule multiline := by
      rw [RuleOverrides.effective, RuleOverrides.effective]
      cases given : overrides.side? multiline with
      | some value => rfl
      | none => rw [same multiline given]
    rw [accepted, accepted, unchanged, unchanged]

/-- A file with a number below one for tags on one line. -/
def lowSingleFile : Config :=
  { Config.empty with rule := ⟨some (.split ⟨some 0, some 3⟩), some .multiline⟩ }

/-- The number that is too low does no harm where it is overridden, and the other side of the file
    stays in effect. Where only that other side is overridden the low number is refused. -/
theorem layered_limits_low_single :
    (∃ rule, lowSingleFile.ruleConfig ⟨none, some 2, none, none⟩ = .ok rule ∧
      (rule.limitFor false).cap = 2 ∧ (rule.limitFor true).cap = 3 ∧
      (rule.limitFor false).enforced = false ∧ (rule.limitFor true).enforced = true) ∧
    lowSingleFile.ruleConfig ⟨none, none, some 2, none⟩ = .error ⟨.single, 0⟩ := by
  obtain ⟨accepted, limits, -, -⟩ := layered_limits lowSingleFile ⟨none, some 2, none, none⟩
  obtain ⟨-, -, errors, -⟩ := layered_limits lowSingleFile ⟨none, none, some 2, none⟩
  constructor
  · obtain ⟨rule, found⟩ := accepted.mpr (by decide)
    have single := limits rule found false
    have multi := limits rule found true
    refine ⟨rule, found, ?_, ?_, single.2.mpr (by decide), ?_⟩
    · exact Int.ofNat.inj single.1
    · exact Int.ofNat.inj multi.1
    · simpa using multi.2
  · exact (errors _).mpr (.single (Or.inr (Or.inl (by decide))) (by decide))

end TagWrap
