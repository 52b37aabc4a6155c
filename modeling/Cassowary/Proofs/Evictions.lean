import Cassowary.Proofs.SimplexRuns

/-!
What taking a marker out of a tableau does to its solutions: they may give the marker any value
afterwards, and nothing else about them changes. The leaving row is chosen so that no restricted symbol
becomes negative. A dummy symbol can leave zero only when a dummy marker leaves through another row
than a dummy symbol's.
-/

namespace Cassowary.Evictions
open Endings MapEntries PivotRuns RowSymbols Separation ExactRows Solutions RatioTests SimplexRuns
open Tableau
open scoped Exact

variable {P : Symbol → Prop} {t t' : Tableau Rat} {row solved r : Row Rat} {ρ : Valuation}
  {s z marker leaving : Symbol}

/-- Dummy symbols need not fear for their rows: the marker is none itself or basic, or they do not
depend on it, or it leaves through a row of theirs. -/
def Spared (t : Tableau Rat) (marker : Symbol) : Prop :=
  marker.isDummy = false ∨ Basic t marker ∨
    (∀ s row, t.rows.find? s = some row → s.isDummy = true → row.coefficient marker = 0) ∨
    ∃ leaving row, t.markerRow? marker = some (leaving, row) ∧ leaving.isDummy = true

/-- What a tableau is once a marker has left it. -/
structure Evicted (P : Symbol → Prop) (marker : Symbol) (t t' : Tableau Rat) : Prop where
  sound : Sound P t'
  feasible : Feasible t'
  solves : ∀ ρ, Solves t' ρ ↔ ∃ x, Solves t (Function.update ρ marker x)
  objective : ∀ ρ x, Solves t (Function.update ρ marker x) →
    eval t'.objective ρ = eval t.objective (Function.update ρ marker x)
  settled : Spared t marker → Settled t → Settled t'

/-- A basic marker takes its row with it. -/
theorem basic_evicted (sound : Sound P t) (feasible : Feasible t)
    (found : t.rows.find? marker = some row) : Evicted P marker t (t.dropRow marker) where
  sound := dropRow_sound sound
  feasible := feasible_of_fewer feasible dropRow_fewer
  solves _ := solves_dropRow_iff sound.tidy found
  objective ρ x _ := by
    have absent : t.objective.coefficient marker = 0 := coefficient_of_not_holds
      (not_holds_basic sound.tidy line_objective (basic_of_find? found))
    rw [eval_update, absent, zero_mul, add_zero]
    rfl
  settled _ settled := settled_of_fewer settled dropRow_fewer

section Pivots
variable (pivoted : Pivoted t t' marker leaving row solved)
include pivoted

theorem pivoted_marker : t'.rows.find? marker = some solved := by
  rw [pivoted_find? pivoted, if_pos rfl]

/-- The rows that are left when the marker has entered in place of another symbol and left again. -/
theorem rest_cases (found : (t'.dropRow marker).rows.find? s = some r) :
    s ≠ leaving ∧ ∃ before, t.rows.find? s = some before ∧ r = before.substitute marker solved := by
  obtain ⟨apart, held⟩ := dropRow_found found
  obtain ⟨same, -⟩ | ⟨-, other, before⟩ := pivoted_cases pivoted held
  · exact absurd same apart
  · exact ⟨other, before⟩

theorem rest_solves (tidy : Tidy P t) :
    Solves (t'.dropRow marker) ρ ↔ ∃ x, Solves t (Function.update ρ marker x) := by
  rw [solves_dropRow_iff (pivoted_tidy pivoted tidy) (pivoted_marker pivoted)]
  exact exists_congr fun x => pivoted_solves pivoted tidy

theorem rest_objective (tidy : Tidy P t) {x : Rat} (solves : Solves t (Function.update ρ marker x)) :
    eval (t'.dropRow marker).objective ρ = eval t.objective (Function.update ρ marker x) := by
  have absent : t'.objective.coefficient marker = 0 := coefficient_of_not_holds
    (not_holds_basic (pivoted_tidy pivoted tidy) line_objective
      (basic_of_find? (pivoted_marker pivoted)))
  have kept : eval t'.objective (Function.update ρ marker x) =
      eval t.objective (Function.update ρ marker x) := by
    rw [pivoted.result]
    exact pivoted_eval pivoted solves t.objective
  rw [← kept, eval_update, absent, zero_mul, add_zero]
  rfl

theorem rest_feasible (others : ∀ s r, t.rows.find? s = some r → s.isRestricted = true →
    0 ≤ r.constant + r.coefficient marker * solved.constant) : Feasible (t'.dropRow marker) := by
  intro s r found restricted
  obtain ⟨-, before, held, rfl⟩ := rest_cases pivoted found
  rw [constant_substitute]
  exact others s before held restricted

/-- Nothing happens to a dummy symbol whose row does not hold the marker. -/
theorem rest_settled (settled : Settled t)
    (unheld : ∀ s r, t.rows.find? s = some r → s.isDummy = true → r.coefficient marker = 0) :
    Settled (t'.dropRow marker) := by
  intro s r found dummy
  obtain ⟨-, before, held, rfl⟩ := rest_cases pivoted found
  obtain ⟨zero, only⟩ := settled s before held dummy
  have absent := unheld s before held dummy
  refine ⟨?_, fun z notDummy => ?_⟩
  · rw [constant_substitute, zero, absent, zero_mul, add_zero]
  · rw [coefficient_substitute, only z notDummy, absent, zero_mul, add_zero, ite_self]

/-- Dummy symbols can stand in for each other. -/
theorem rest_settled_of_dummy (settled : Settled t) (dummy : leaving.isDummy = true)
    (own : marker.isDummy = true) : Settled (t'.dropRow marker) := by
  obtain ⟨zero, only⟩ := settled leaving row pivoted.found dummy
  have still : solved.constant = 0 := by
    rw [pivoted_constant pivoted, zero, neg_zero, zero_div]
  have none : ∀ z, z.isDummy = false → solved.coefficient z = 0 := by
    intro z notDummy
    have apart : ∀ {y : Symbol}, y.isDummy = true → z ≠ y := by
      rintro _ dummy rfl
      rw [notDummy] at dummy
      cases dummy
    rw [pivoted_coefficient pivoted (apart own), if_neg (apart dummy), only z notDummy, sub_zero,
      zero_div]
  intro s r found dummy'
  obtain ⟨-, before, held, rfl⟩ := rest_cases pivoted found
  obtain ⟨zero', only'⟩ := settled s before held dummy'
  refine ⟨?_, fun z notDummy => ?_⟩
  · rw [constant_substitute, zero', still, mul_zero, add_zero]
  · rw [coefficient_substitute, only' z notDummy, none z notDummy, mul_zero, add_zero, ite_self]

/-- A row of a variable changes no restricted row that does not hold the marker. -/
theorem rest_fewer (sound : Sound P t)
    (unheld : ∀ s r, t.rows.find? s = some r → s.isRestricted = true → r.coefficient marker = 0) :
    Fewer t (t'.dropRow marker) := by
  intro s r found restricted
  obtain ⟨-, before, held, rfl⟩ := rest_cases pivoted found
  have absent : before.holds marker = false :=
    (not_holds_iff_coefficient (sound.pruned s before held)).mpr (unheld s before held restricted)
  rwa [Row.substitute_of_not_holds absent]

theorem rest_sound (sound : Sound P t) (fewer : Fewer t (t'.dropRow marker)) :
    Sound P (t'.dropRow marker) where
  tidy := dropRow_tidy (pivoted_tidy pivoted sound.tidy)
  pruned s r found := by
    have held := (dropRow_found found).2
    rw [pivoted.result] at held
    exact enter_pruned (dropRow_sound sound)
      (pivoted.pruned (sound.pruned leaving row pivoted.found)) held
  free s r found restricted := sound.free s r (fewer s r found restricted) restricted
  queued := by
    rw [pivoted.result]
    exact enter_queued (z := marker) (dropRow_sound sound)

end Pivots

/-- What choosing the leaving row guarantees: it is restricted and no restricted row becomes negative,
or it is a row of a variable and no restricted row holds the marker. -/
theorem markerRow?_exact (feasible : Feasible t) (found : t.markerRow? marker = some (leaving, row)) :
    t.rows.find? leaving = some row ∧ row.coefficient marker ≠ 0 ∧
      ((leaving.isRestricted = true ∧ ∀ s r, t.rows.find? s = some r → s.isRestricted = true →
          0 ≤ r.constant + r.coefficient marker * (-row.constant / row.coefficient marker)) ∨
        (leaving.isRestricted = false ∧
          ∀ s r, t.rows.find? s = some r → s.isRestricted = true → r.coefficient marker = 0)) := by
  obtain ⟨held, counts, way⟩ := markerRow?_eq_some found
  have nonzero := nearZero_eq_false.mp counts
  refine ⟨held, nonzero, ?_⟩
  have never : ∀ {picks : List (Pick Rat)} {p : Pick Rat}, picks = [] → p ∉ picks := by
    rintro _ p rfl
    exact List.not_mem_nil
  obtain ⟨pick, best, rfl⟩ | ⟨noneShrinks, way⟩ := way
  · obtain ⟨s, chosen, held', -, restricted, falling, rfl⟩ :=
      mem_shrinkingPicks.mp (Pick.best?_mem best)
    cases held.symm.trans held'
    refine .inl ⟨restricted, (falling_affordable feasible held restricted (isNegative_iff.mp falling)
      fun s r present internal falls => ?_).2⟩
    exact best?_least best (mem_shrinkingPicks.mpr ⟨s, r, present, nearZero_eq_false.mpr falls.ne,
      internal, isNegative_iff.mpr falls, rfl⟩)
  · have rises : ∀ s r, t.rows.find? s = some r → s.isRestricted = true →
        0 ≤ r.coefficient marker := by
      intro s r present internal
      by_contra falls
      have negative := not_le.mp falls
      exact never noneShrinks (mem_shrinkingPicks.mpr ⟨s, r, present,
        nearZero_eq_false.mpr negative.ne, internal, isNegative_iff.mpr negative, rfl⟩)
    obtain ⟨pick, best, rfl⟩ | ⟨noneGrows, external⟩ := way
    · obtain ⟨s, chosen, held', -, restricted, -, rfl⟩ :=
        mem_growingPicks.mp (Pick.best?_mem best)
      cases held.symm.trans held'
      refine .inl ⟨restricted, fun s r present internal => ?_⟩
      refine rising_affordable feasible rises (fun s r present internal grows => ?_) present internal
      exact best?_least best (mem_growingPicks.mpr ⟨s, r, present, nearZero_eq_false.mpr grows.ne',
        internal, isNegative_eq_false.mpr grows.le, rfl⟩)
    · have free : leaving.isRestricted = false := by
        simpa using Symbol.not_isRestricted_iff.mpr external
      refine .inr ⟨free, fun s r present internal => ?_⟩
      by_contra grows
      exact never noneGrows (mem_growingPicks.mpr ⟨s, r, present, nearZero_eq_false.mpr grows,
        internal, isNegative_eq_false.mpr (rises s r present internal), rfl⟩)

/-- Evicting a marker can only fail for lack of a row that holds it. -/
theorem evict_evicted (sound : Sound P t) (feasible : Feasible t) :
    Ends (t.evict marker) (Evicted P marker t) (fun error _ => error.isInternal = true) := by
  unfold evict
  split
  · rename_i basic
    obtain ⟨row, found⟩ := contains_iff.mp basic
    exact basic_evicted sound feasible found
  · rename_i column
    split
    · rfl
    · rename_i leaving row found
      obtain ⟨held, nonzero, way⟩ := markerRow?_exact feasible found
      obtain ⟨t', solved, pivoted⟩ := exchange_exact sound.tidy held nonzero
      rw [ends_report, ends_andThen, pivoted.went, ends_ok, ends_ok]
      rw [← pivoted_constant pivoted] at way
      have unheld : Settled t → marker.isDummy = false → ∀ s r, t.rows.find? s = some r →
          s.isDummy = true → r.coefficient marker = 0 := fun settled notDummy s r found dummy =>
        (settled s r found dummy).2 marker notDummy
      obtain ⟨restricted, others⟩ | ⟨external, blind⟩ := way
      · refine ⟨dropRow_sound (pivoted_sound pivoted sound restricted),
          rest_feasible pivoted others, fun ρ => rest_solves pivoted sound.tidy,
          fun ρ x solves => rest_objective pivoted sound.tidy solves, fun spared settled => ?_⟩
        by_cases own : marker.isDummy = true
        · obtain notDummy | basic | apart | ⟨leaving', row', found', dummy⟩ := spared
          · rw [own] at notDummy
            cases notDummy
          · exact absurd basic column
          · exact rest_settled pivoted settled apart
          · cases found.symm.trans found'
            exact rest_settled_of_dummy pivoted settled dummy own
        · exact rest_settled pivoted settled (unheld settled (by simpa using own))
      · have fewer := rest_fewer pivoted sound blind
        exact ⟨rest_sound pivoted sound fewer, feasible_of_fewer feasible fewer,
          fun ρ => rest_solves pivoted sound.tidy,
          fun ρ x solves => rest_objective pivoted sound.tidy solves,
          fun _ settled => settled_of_fewer settled fewer⟩

end Cassowary.Evictions
