import Cassowary.Proofs.SimplexRuns

/-!
The artificial phase in exact arithmetic. While it lasts the artificial symbol has the value of the row
that is brought in, so the row can be satisfied just when that symbol can be zero, and it is dropped
where it is zero. A row that is refused is not zero in any solution with non-negative symbols in which
the dummy symbols are zero.
-/

namespace Cassowary.ArtificialPhase
open Endings MapEntries PivotRuns RowSymbols Separation ExactRows Solutions RatioTests SimplexRuns
open Tableau
open scoped Exact

variable {P : Symbol → Prop} {t t' : Tableau Rat} {row r : Row Rat} {ρ : Valuation}
  {s z artificial : Symbol}

/-- A solution without negative symbols and without violated equations. -/
structure Admissible (t : Tableau Rat) (ρ : Valuation) : Prop where
  solves : Solves t ρ
  nonneg : ∀ s, s.isRestricted = true → 0 ≤ ρ s
  zero : ∀ s, s.isDummy = true → ρ s = 0

/-! ## Dropping the artificial symbol -/

/-- What a tableau is once a symbol has been fixed at zero and dropped. -/
structure Fixed (P : Symbol → Prop) (s : Symbol) (t t' : Tableau Rat) : Prop where
  sound : Sound P t'
  feasible : Feasible t'
  solves : ∀ ρ, Solves t' ρ ↔ Solves t (Function.update ρ s 0)
  objective : ∀ ρ, Solves t (Function.update ρ s 0) →
    eval t'.objective ρ = eval t.objective (Function.update ρ s 0)
  settled : Settled t → Settled t'

theorem dropColumn_found (found : (t.dropColumn z).rows.find? s = some row) :
    ∃ before, t.rows.find? s = some before ∧ row = before.remove z := by
  simp only [dropColumn, OrderedMap.find?_mapValues, Option.map_eq_some_iff] at found
  obtain ⟨before, held, rfl⟩ := found
  exact ⟨before, held, rfl⟩

theorem dropColumn_sound (sound : Sound P t) : Sound P (t.dropColumn z) := by
  refine ⟨dropColumn_tidy sound.tidy, fun y r found => ?_, fun y r found restricted z external => ?_,
    sound.queued⟩
  · obtain ⟨before, held, rfl⟩ := dropColumn_found found
    exact pruned_remove (sound.pruned y before held)
  · obtain ⟨before, held, rfl⟩ := dropColumn_found found
    rw [Row.coefficient_remove, sound.free y before held restricted z external, ite_self]

theorem dropColumn_feasible (feasible : Feasible t) : Feasible (t.dropColumn z) := by
  intro y r found restricted
  obtain ⟨before, held, rfl⟩ := dropColumn_found found
  exact feasible y before held restricted

theorem dropColumn_settled (settled : Settled t) : Settled (t.dropColumn z) := by
  intro y r found dummy
  obtain ⟨before, held, rfl⟩ := dropColumn_found found
  obtain ⟨zero, only⟩ := settled y before held dummy
  refine ⟨zero, fun z notDummy => ?_⟩
  rw [Row.coefficient_remove, only z notDummy, ite_self]

theorem dropColumn_fixed (sound : Sound P t) (feasible : Feasible t) (column : ¬Basic t s) :
    Fixed P s t (t.dropColumn s) where
  sound := dropColumn_sound sound
  feasible := dropColumn_feasible feasible
  solves _ := solves_dropColumn column
  objective ρ _ := by
    rw [eval_update, zero_sub, mul_neg, ← sub_eq_add_neg, ← eval_remove]
    rfl
  settled := dropColumn_settled

theorem dropRow_fixed (sound : Sound P t) (feasible : Feasible t)
    (found : t.rows.find? s = some row) (constant : ∀ z, row.coefficient z = 0)
    (zero : row.constant = 0) : Fixed P s t (t.dropRow s) where
  sound := dropRow_sound sound
  feasible := feasible_of_fewer feasible dropRow_fewer
  solves ρ := by
    have value : ∀ ρ, eval row ρ = 0 := by
      intro ρ
      have same : eval row ρ = eval row 0 := eval_congr fun z held =>
        absurd (constant z) ((holds_iff_coefficient (sound.pruned s row found)).mp held)
      rw [same, eval_zero, zero]
    rw [solves_dropRow_iff sound.tidy found]
    refine ⟨fun ⟨x, solves⟩ => ?_, fun solves => ⟨0, solves⟩⟩
    have own := solves s row found
    rw [Function.update_self, value] at own
    exact own ▸ solves
  objective ρ _ := by
    have absent : t.objective.coefficient s = 0 := coefficient_of_not_holds
      (not_holds_basic sound.tidy line_objective (basic_of_find? found))
    rw [eval_update, absent, zero_mul, add_zero]
    rfl
  settled settled := settled_of_fewer settled dropRow_fewer

/-- A pivot on a row whose constant is zero moves no value. -/
theorem pivoted_feasible_of_zero {solved : Row Rat} {entering leaving : Symbol}
    (pivoted : Pivoted t t' entering leaving row solved) (feasible : Feasible t)
    (zero : row.constant = 0) : Feasible t' := by
  have still : solved.constant = 0 := by
    rw [pivoted_constant pivoted, zero, neg_zero, zero_div]
  refine pivoted_feasible pivoted still.ge fun s r found restricted => ?_
  rw [still, mul_zero, add_zero]
  exact feasible s r found restricted

theorem coefficient_of_isConstant (constant : row.isConstant = true) (z : Symbol) :
    row.coefficient z = 0 := by
  refine coefficient_of_not_holds (not_holds_iff.mpr ?_)
  have nothing : row.cells.toList = [] := List.isEmpty_iff.mp constant
  simp [OrderedMap.find?, nothing, OrderedMap.seek]

/-- Of the symbols that are not free only the dummy ones may not be pivoted. -/
theorem dummy_of_not_pivotable (missing : row.pivotable? = none)
    (free : ∀ z, z.isExternal = true → row.coefficient z = 0) (present : row.coefficient z ≠ 0) :
    z.isDummy = true := by
  have held := holds_of_coefficient present
  have stays := List.find?_eq_none.mp missing z (holds_iff_mem_keys.mp held)
  have internal : z.isExternal = false := by
    by_contra external
    exact present (free z (by simpa using external))
  by_contra notDummy
  exact stays (Symbol.isPivotable_iff.mpr ⟨internal, by simpa using notDummy⟩)

/-- A symbol that is zero can be dropped once a pivot has made it a column. -/
theorem pivoted_fixed {solved : Row Rat} {entering : Symbol} (sound : Sound P t) (feasible : Feasible t)
    (pivoted : Pivoted t t' entering artificial row solved) (restricted : artificial.isRestricted = true)
    (zero : row.constant = 0) (notDummy : entering.isDummy = false) :
    Fixed P artificial t (t'.dropColumn artificial) := by
  have column : ¬Basic t' artificial := by
    rw [not_basic_iff, pivoted_find? pivoted, if_neg (pivoted_apart pivoted sound.tidy), if_pos rfl]
  have fixed := dropColumn_fixed (pivoted_sound pivoted sound restricted)
    (pivoted_feasible_of_zero pivoted feasible zero) column
  refine ⟨fixed.sound, fixed.feasible,
    fun ρ => (fixed.solves ρ).trans (pivoted_solves pivoted sound.tidy), fun ρ solves => ?_,
    fun settled => fixed.settled (pivoted_settled pivoted settled notDummy)⟩
  rw [fixed.objective ρ ((pivoted_solves pivoted sound.tidy).mpr solves),
    ← pivoted_eval pivoted solves t.objective, pivoted.result]
  rfl

/-- The artificial symbol can be dropped where it is zero, unless its row holds dummy symbols only. -/
theorem retireArtificial_fixed (sound : Sound P t) (feasible : Feasible t)
    (restricted : artificial.isRestricted = true) :
    Ends (t.retireArtificial artificial)
      (fun t' => t.value artificial = 0 → Fixed P artificial t t')
      (fun error _ => error = .unsatisfiableConstraint ∧
        ∃ row, t.rows.find? artificial = some row ∧
          ∀ z, row.coefficient z ≠ 0 → z.isDummy = true) := by
  unfold retireArtificial
  split
  · rename_i absent
    exact fun _ => dropColumn_fixed sound feasible (not_basic_iff.mpr absent)
  · rename_i row found
    split
    · rename_i constant
      intro zero
      rw [value_of_find? found] at zero
      exact dropRow_fixed sound feasible found (coefficient_of_isConstant constant) zero
    · split
      · rename_i missing
        exact ⟨rfl, row, found, fun z present => dummy_of_not_pivotable missing
          (sound.free artificial row found restricted) present⟩
      · rename_i entering pivot
        obtain ⟨pivotable, held⟩ := pivotable?_eq_some pivot
        have present := (holds_iff_coefficient (sound.pruned artificial row found)).mp held
        obtain ⟨t', solved, pivoted⟩ := exchange_exact sound.tidy found present
        rw [ends_andThen, pivoted.went, ends_ok, ends_ok]
        intro zero
        rw [value_of_find? found] at zero
        have notDummy := (Symbol.isPivotable_iff.mp pivotable).2
        exact pivoted_fixed sound feasible pivoted restricted zero notDummy

/-! ## The phase as a whole -/

/-- The tableau with which the phase begins. -/
def opened (t : Tableau Rat) (artificial : Symbol) (row : Row Rat) : Tableau Rat :=
  { t with rows := t.rows.insert artificial row, artificial := some row }

/-- What the phase is given: a new symbol, and a row that holds no variable and is not negative. -/
structure Ready (P : Symbol → Prop) (t : Tableau Rat) (artificial : Symbol) (row : Row Rat) :
    Prop where
  sound : Sound P t
  feasible : Feasible t
  columnar : OverColumns P t row
  pruned : Pruned row
  free : ∀ z, z.isExternal = true → row.coefficient z = 0
  start : 0 ≤ row.constant
  fresh : ¬P artificial
  slack : artificial.kind = .slack

/-- What a tableau is once a row has been brought in: its solutions are those in which the row is
zero. -/
structure Entered (P : Symbol → Prop) (row : Row Rat) (t t' : Tableau Rat) : Prop where
  sound : Sound P t'
  feasible : Feasible t'
  solves : ∀ ρ, Solves t' ρ ↔ Solves t ρ ∧ eval row ρ = 0
  objective : ∀ ρ, Solves t ρ → eval row ρ = 0 → eval t'.objective ρ = eval t.objective ρ
  settled : Settled t → Settled t'

/-- The row is not zero in any admissible solution, if it holds more than dummy symbols and the dummy
symbols of the tableau are settled. -/
def Hopeless (t : Tableau Rat) (row : Row Rat) : Prop :=
  Settled t → (∃ z, z.isDummy = false ∧ row.coefficient z ≠ 0) →
    ∀ ρ, Admissible t ρ → eval row ρ ≠ 0

theorem opened_cases (found : (opened t artificial row).rows.find? s = some r) :
    (s = artificial ∧ r = row) ∨ t.rows.find? s = some r := by
  rw [opened, OrderedMap.find?_insert] at found
  split at found
  · exact .inl ⟨Eq.symm ‹_›, (Option.some.inj found).symm⟩
  · exact .inr found

theorem opened_found : (opened t artificial row).rows.find? artificial = some row := by
  simp [opened]

section Phase
variable (ready : Ready P t artificial row)
include ready

theorem opened_sound : Sound (fun z => z = artificial ∨ P z) (opened t artificial row) := by
  refine ⟨open_tidy ready.sound.tidy ready.columnar ready.fresh, fun s r found => ?_,
    fun s r found restricted => ?_, ready.sound.queued⟩
  · obtain ⟨-, rfl⟩ | old := opened_cases found
    · exact ready.pruned
    · exact ready.sound.pruned s r old
  · obtain ⟨-, rfl⟩ | old := opened_cases found
    · exact ready.free
    · exact ready.sound.free s r old restricted

theorem artificial_restricted : artificial.isRestricted = true := by
  simp [Symbol.isRestricted, Symbol.isExternal, ready.slack]

theorem opened_feasible : Feasible (opened t artificial row) := by
  intro s r found restricted
  obtain ⟨-, rfl⟩ | old := opened_cases found
  · exact ready.start
  · exact ready.feasible s r old restricted

theorem opened_settled (settled : Settled t) : Settled (opened t artificial row) := by
  intro s r found dummy
  obtain ⟨rfl, -⟩ | old := opened_cases found
  · simp [Symbol.isDummy, ready.slack] at dummy
  · exact settled s r old dummy

/-- Besides solving the tableau the artificial symbol has the value of the row. -/
theorem opened_solves {x : Rat} :
    Solves (opened t artificial row) (Function.update ρ artificial x) ↔
      x = eval row ρ ∧ Solves t ρ := by
  have absent : t.rows.find? artificial = none :=
    not_basic_iff.mp fun basic => ready.fresh (ready.sound.tidy.basic artificial basic)
  have rest : ((opened t artificial row).dropRow artificial).rows = t.rows :=
    erase_insert.trans (erase_of_absent absent)
  have apart : ∀ s, P s → Function.update ρ artificial x s = ρ s := fun s inside =>
    Function.update_of_ne (by rintro rfl; exact ready.fresh inside) _ _
  have value : eval row (Function.update ρ artificial x) = eval row ρ :=
    eval_congr fun s held => apart s (ready.columnar s held).1
  rw [solves_dropRow opened_found, solves_of_rows rest, solves_congr ready.sound.tidy apart,
    Function.update_self, value]

theorem opened_bounded : Bounded (opened t artificial row) row := by
  refine ⟨0, fun ρ solves nonneg => ?_⟩
  rw [← solves artificial row opened_found]
  exact nonneg artificial (artificial_restricted ready)

/-- Where the phase ends the artificial objective is the artificial symbol, and if the row can be zero
at all then it has come down to zero. -/
theorem artificial_end (improved : Improved (fun z => z = artificial ∨ P z) .artificial
    (opened t artificial row) t') (stuck : t'.primalStep? .artificial = none) :
    t'.artificial.elim 0 Row.constant = t'.value artificial ∧
      ((∃ ρ, Admissible t ρ ∧ eval row ρ = 0) → t'.value artificial = 0) := by
  have restricted := artificial_restricted ready
  obtain ⟨r, now, same⟩ := improved.aims .artificial row rfl (.inr (opened_bounded ready))
  have line : Line t' r := line_of_objectiveRow? now
  have meaning : ∀ ρ, Solves t' ρ → eval r ρ = ρ artificial := fun ρ solves => by
    have before := (improved.solves ρ).mp solves
    rw [same ρ before, ← before artificial row opened_found]
  have least : r.constant = t'.value artificial := by
    rw [← meaning _ (solves_value improved.sound.tidy), eval_value improved.sound.tidy line]
  constructor
  · rw [show t'.artificial = some r from now]
    exact least
  · rintro ⟨ρ, admissible, zero⟩
    have solves : Solves t' (Function.update ρ artificial 0) :=
      (improved.solves _).mpr ((opened_solves ready).mpr ⟨zero.symm, admissible.solves⟩)
    have bound : r.constant ≤ eval r (Function.update ρ artificial 0) := by
      refine constant_le_eval (fun z notDummy => coefficient_of_stuck stuck now notDummy)
        (fun z external => ?_) (fun s internal => ?_) fun s dummy => ?_
      · refine coefficient_of_external improved.sound line (fun ρ σ solves solves' agree => ?_) external
        rw [meaning ρ solves, meaning σ solves', agree artificial restricted]
      · rw [Function.update_apply]
        split
        · exact le_refl 0
        · exact admissible.nonneg s internal
      · rw [Function.update_apply, admissible.zero s dummy, ite_self]
    rw [meaning _ solves, Function.update_self, least] at bound
    exact le_antisymm bound (value_nonneg improved.feasible restricted)

/-- The artificial symbol cannot come to depend on dummy symbols only: it varies with a column that no
dummy symbol depends on. -/
theorem artificial_holds (improved : Improved (fun z => z = artificial ∨ P z) .artificial
    (opened t artificial row) t') (settled : Settled t) (notDummy : z.isDummy = false)
    (present : row.coefficient z ≠ 0) (found : t'.rows.find? artificial = some r) :
    ∃ y, y.isDummy = false ∧ r.coefficient y ≠ 0 := by
  by_contra only
  have sound := opened_sound ready
  have own : ∀ ρ, Solves (opened t artificial row) ρ → eval row ρ = eval r ρ := fun ρ solves => by
    rw [← solves artificial row opened_found, ((improved.solves ρ).mpr solves) artificial r found]
  have still : eval r (ray (opened t artificial row) z 1) =
      eval r (opened t artificial row).value := by
    refine eval_congr fun s held => ?_
    have dummy : s.isDummy = true := by
      by_contra notDummy
      exact only ⟨s, by simpa using notDummy, (holds_iff_coefficient
        (improved.sound.pruned artificial r found)).mp held⟩
    exact ray_dummy (opened_settled ready settled) notDummy dummy
  rw [← own _ (solves_ray sound.tidy), ← own _ (solves_value sound.tidy),
    eval_ray sound.tidy (line_of_find? opened_found),
    eval_value sound.tidy (line_of_find? opened_found)] at still
  exact present (by linarith)

/-- An artificial symbol that came down to zero has brought its row in once it is gone. -/
theorem fixed_entered {t₁ t₂ : Tableau Rat}
    (improved : Improved (fun z => z = artificial ∨ P z) .artificial (opened t artificial row) t₁)
    (fixed : Fixed (fun z => z = artificial ∨ P z) artificial { t₁ with artificial := none } t₂)
    (tidy : Tidy P t₂) : Entered P row t t₂ := by
  refine ⟨⟨tidy, fixed.sound.pruned, fixed.sound.free, fixed.sound.queued⟩, fixed.feasible,
    fun ρ => ?_, fun ρ solves zero => ?_,
    fun settled => fixed.settled (improved.settled (opened_settled ready settled))⟩
  · rw [fixed.solves, and_comm, eq_comm]
    exact (improved.solves _).trans (opened_solves ready)
  · have before : Solves (opened t artificial row) (Function.update ρ artificial 0) :=
      (opened_solves ready).mpr ⟨zero.symm, solves⟩
    obtain ⟨_, same, value⟩ := improved.aims .primary _ rfl (.inl (by simp))
    cases same
    refine (fixed.objective ρ ((improved.solves _).mpr before)).trans ((value _ before).trans ?_)
    refine eval_congr fun s held => Function.update_of_ne ?_ _ _
    rintro rfl
    exact ready.fresh (ready.sound.tidy.line _ line_objective _ held).1

/-- The phase brings a row in or refuses one that is hopeless. -/
theorem enterArtificial_entered :
    Ends (t.enterArtificial artificial row) (Entered P row t)
      (fun error _ => error.isInternal = false →
        error = .unsatisfiableConstraint ∧ Hopeless t row) := by
  have tidy := enterArtificial_ends ready.sound.tidy ready.columnar ready.fresh
  apply ends_given tidy
  unfold enterArtificial
  rw [ends_andThen]
  refine ends_mono (optimize_improved (opened_sound ready) (opened_feasible ready)) ?_
    fun _ _ internal => of_internal internal
  rintro t₁ ⟨improved, stuck⟩
  obtain ⟨residual, driven⟩ := artificial_end ready improved stuck
  have closed : Sound (fun z => z = artificial ∨ P z) { t₁ with artificial := none } :=
    sound_of_rows improved.sound (forget_tidy improved.sound.tidy) rfl rfl
  have restricted := artificial_restricted ready
  have hopeless : t₁.value artificial ≠ 0 → Hopeless t row := fun high _ _ ρ admissible zero =>
    high (driven ⟨ρ, admissible, zero⟩)
  rw [residual, ends_andThen]
  refine ends_mono (retireArtificial_fixed closed improved.feasible restricted) ?_ ?_
  · intro t₂ fixed
    by_cases zero : t₁.value artificial = 0
    · rw [if_pos (nearZero_iff.mpr zero), ends_ok]
      exact fixed_entered ready improved (fixed zero)
    · rw [if_neg (by simpa using zero), ends_fail]
      exact fun _ => ⟨rfl, hopeless zero⟩
  · rintro error _ ⟨rfl, r, found, only⟩ -
    refine ⟨rfl, ?_⟩
    by_cases zero : t₁.value artificial = 0
    · rintro settled ⟨z, notDummy, present⟩
      obtain ⟨y, free, held⟩ := artificial_holds ready improved settled notDummy present found
      rw [only y held] at free
      cases free
    · exact hopeless zero

end Phase

end Cassowary.ArtificialPhase
