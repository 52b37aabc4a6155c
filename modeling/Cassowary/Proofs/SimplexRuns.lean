import Cassowary.Proofs.RatioTests

/-!
The simplex methods in exact arithmetic. The primal method keeps a feasible tableau feasible and its
solutions the same, and never drops a column of an objective that is bounded below. The dual method
makes a tableau feasible again without giving up a minimal objective.
-/

namespace Cassowary.SimplexRuns
open Endings MapEntries PivotRuns RowSymbols Separation ExactRows Solutions RatioTests Tableau
open scoped Exact

variable {P : Symbol → Prop} {t t' t'' : Tableau Rat} {row solved r : Row Rat} {ρ : Valuation}
  {s z entering leaving : Symbol} {goal : Goal}

theorem line_of_objectiveRow? (sought : t.objectiveRow? goal = some r) : Line t r := by
  cases goal with
  | primary =>
    cases sought
    exact line_objective
  | artificial => exact .inr (.inr sought)

/-! ## The primal method -/

/-- Without a leaving row a column may grow, and lower a row below any value, and no restricted symbol
becomes negative. -/
theorem unbounded_ray (tidy : Tidy P t) (feasible : Feasible t) (line : Line t r)
    (missing : t.leavingRow? entering = none) (falling : r.coefficient entering < 0) (low : Rat) :
    ∃ x, (∀ s, s.isRestricted = true → 0 ≤ ray t entering x s) ∧ eval r (ray t entering x) < low := by
  let x := max 0 ((r.constant - low + 1) / -r.coefficient entering)
  have far : r.coefficient entering * x ≤ -(r.constant - low + 1) := by
    have reached : (r.constant - low + 1) / -r.coefficient entering ≤ x := le_max_right _ _
    have cleared := (div_le_iff₀ (neg_pos.mpr falling)).mp reached
    linarith
  have nonneg : 0 ≤ x := le_max_left _ _
  refine ⟨x, fun s restricted => ?_, ?_⟩
  · cases found : t.rows.find? s with
    | none =>
      rw [ray_of_column (not_basic_iff.mpr found)]
      split
      · exact nonneg
      · exact le_refl 0
    | some row =>
      have rises := isNegative_eq_false.mp (leavingRow?_eq_none missing found restricted)
      have start := feasible s row found restricted
      rw [ray_of_basic found]
      exact add_nonneg start (mul_nonneg rises nonneg)
  · rw [eval_ray tidy line]
    linarith

/-- A column that improves a bounded objective has a leaving row: without one the column could grow
forever. -/
theorem leavingRow?_of_bounded (sound : Sound P t) (feasible : Feasible t) (line : Line t r)
    (bounded : Bounded t r) (falling : r.coefficient entering < 0) :
    t.leavingRow? entering ≠ none := by
  intro missing
  obtain ⟨low, bound⟩ := bounded
  obtain ⟨x, nonneg, below⟩ := unbounded_ray sound.tidy feasible line missing falling low
  exact absurd (bound _ (solves_ray sound.tidy) nonneg) (not_le.mpr below)

/-- The leaving row is the first restricted row to reach zero. -/
theorem leavingRow?_exact (found : t.leavingRow? entering = some (leaving, row)) :
    t.rows.find? leaving = some row ∧ leaving.isRestricted = true ∧ row.coefficient entering < 0 ∧
      ∀ s r, t.rows.find? s = some r → s.isRestricted = true → r.coefficient entering < 0 →
        -row.constant / row.coefficient entering ≤ -r.constant / r.coefficient entering := by
  obtain ⟨held, pick, best, rfl⟩ := leavingRow?_eq_some found
  obtain ⟨s, chosen, held', restricted, falling, rfl⟩ := mem_leavingPicks.mp (Pick.best?_mem best)
  cases held.symm.trans held'
  refine ⟨held, restricted, isNegative_iff.mp falling, fun s r present internal falls => ?_⟩
  exact best?_least best (mem_leavingPicks.mpr
    ⟨s, r, present, internal, isNegative_iff.mpr falls, rfl⟩)

/-- A pivot on the leaving row of the primal method. -/
theorem primal_feasible (pivoted : Pivoted t t' entering leaving row solved) (feasible : Feasible t)
    (found : t.leavingRow? entering = some (leaving, row)) : Feasible t' := by
  obtain ⟨held, restricted, falling, first⟩ := leavingRow?_exact found
  obtain ⟨own, others⟩ := falling_affordable feasible held restricted falling first
  rw [← pivoted_constant pivoted] at own others
  exact pivoted_feasible pivoted own others

/-- What the primal method makes of a tableau: the solutions stay, and each objective keeps its value
on them, the one that is made minimal at least if it is bounded below. -/
structure Improved (P : Symbol → Prop) (goal : Goal) (t t' : Tableau Rat) : Prop where
  sound : Sound P t'
  feasible : Feasible t'
  solves : ∀ ρ, Solves t' ρ ↔ Solves t ρ
  settled : Settled t → Settled t'
  aims : ∀ g r, t.objectiveRow? g = some r → g ≠ goal ∨ Bounded t r →
    ∃ r', t'.objectiveRow? g = some r' ∧ ∀ ρ, Solves t ρ → eval r' ρ = eval r ρ

theorem improved_refl (sound : Sound P t) (feasible : Feasible t) : Improved P goal t t :=
  ⟨sound, feasible, fun _ => Iff.rfl, id, fun _ r sought _ => ⟨r, sought, fun _ _ => rfl⟩⟩

/-- Whatever the rounds before have done, a bounded objective has no column to drop. -/
theorem leavingRow?_of_improved (improved : Improved P goal t t') (start : t.objectiveRow? goal = some r)
    (bounded : Bounded t r) {r' : Row Rat} (sought : t'.objectiveRow? goal = some r')
    (chosen : enteringSymbol? r' = some entering) : t'.leavingRow? entering ≠ none := by
  obtain ⟨-, x, held, falling⟩ := enteringSymbol?_eq_some chosen
  obtain ⟨_, now, same⟩ := improved.aims goal r start (.inr bounded)
  cases now.symm.trans sought
  obtain ⟨low, bound⟩ := bounded
  refine leavingRow?_of_bounded improved.sound improved.feasible (line_of_objectiveRow? sought)
    ⟨low, fun ρ solves nonneg => ?_⟩ ?_
  · have before := (improved.solves ρ).mp solves
    rw [same ρ before]
    exact bound ρ before nonneg
  · rw [coefficient_of_find? held]
    exact isNegative_iff.mp falling

/-- Dropping a column changes the other objective only. -/
theorem dropResidue_improved (improved : Improved P goal t t') (sought : t'.objectiveRow? goal = some r)
    (chosen : enteringSymbol? r = some entering) (missing : t'.leavingRow? entering = none) :
    Improved P goal t (t'.dropResidue entering goal) := by
  have rows : (t'.dropResidue entering goal).rows = t'.rows := by cases goal <;> rfl
  have queue : (t'.dropResidue entering goal).infeasible = t'.infeasible := by cases goal <;> rfl
  refine ⟨sound_of_rows improved.sound (dropResidue_tidy improved.sound.tidy goal) rows queue, ?_,
    fun ρ => (solves_of_rows rows).trans (improved.solves ρ), ?_, ?_⟩
  · unfold Feasible
    rw [rows]
    exact improved.feasible
  · unfold Settled
    rw [rows]
    exact improved.settled
  · intro g r start apart
    obtain ⟨r', now, same⟩ := improved.aims g r start apart
    by_cases here : g = goal
    · subst here
      have bounded := apart.resolve_left fun no => no rfl
      exact absurd missing (leavingRow?_of_improved improved start bounded sought chosen)
    · refine ⟨r', ?_, same⟩
      rw [← now]
      cases g <;> cases goal <;> first | rfl | exact absurd rfl here

theorem pivoted_improved (improved : Improved P goal t t')
    (pivoted : Pivoted t' t'' entering leaving row solved) (notDummy : entering.isDummy = false)
    (found : t'.leavingRow? entering = some (leaving, row)) : Improved P goal t t'' where
  sound := pivoted_sound pivoted improved.sound (leavingRow?_exact found).2.1
  feasible := primal_feasible pivoted improved.feasible found
  solves ρ := (pivoted_solves pivoted improved.sound.tidy).trans (improved.solves ρ)
  settled settled := pivoted_settled pivoted (improved.settled settled) notDummy
  aims g r start apart := by
    obtain ⟨r', now, same⟩ := improved.aims g r start apart
    refine ⟨_, by rw [pivoted_objectiveRow? pivoted, now]; rfl, fun ρ solves => ?_⟩
    rw [pivoted_eval pivoted ((improved.solves ρ).mpr solves), same ρ solves]

/-- One round keeps what the rounds before have kept. -/
theorem primalStep?_improved {o : Outcome PivotEvent (Tableau Rat)} (improved : Improved P goal t t')
    (stepped : t'.primalStep? goal = some o) : Ends o (Improved P goal t) fun _ _ => True := by
  obtain ⟨objective, entering, sought, chosen, ⟨missing, rfl⟩ | ⟨leaving, row, found, rfl⟩⟩ :=
    primalStep?_eq_some stepped
  · rw [ends_report, ends_ok]
    exact dropResidue_improved improved sought chosen missing
  · obtain ⟨held, -, falling, -⟩ := leavingRow?_exact found
    obtain ⟨next, solved, pivoted⟩ := exchange_exact improved.sound.tidy held falling.ne
    rw [ends_report, pivoted.went, ends_ok]
    exact pivoted_improved improved pivoted (enteringSymbol?_eq_some chosen).1 found

theorem optimize_improved (sound : Sound P t) (feasible : Feasible t) :
    Ends (t.optimize goal) (fun t' => Improved P goal t t' ∧ t'.primalStep? goal = none)
      (fun error _ => error.isInternal = true) :=
  ends_mono (optimize_ends (Q := Improved P goal t) (R := fun _ => True) (fun _ _ => trivial)
    (fun _ _ improved stepped => primalStep?_improved improved stepped)
    (improved_refl sound feasible)) (fun _ ended => ended) fun _ _ stopped => stopped.1

/-- When no round is left, no column that may enter improves the objective. -/
theorem coefficient_of_stuck (stuck : t.primalStep? goal = none)
    (sought : t.objectiveRow? goal = some r) (notDummy : z.isDummy = false) :
    0 ≤ r.coefficient z := by
  have nothing : enteringSymbol? r = none := by
    cases chosen : enteringSymbol? r with
    | none => rfl
    | some entering =>
      simp only [primalStep?, sought, chosen, Option.bind_eq_bind, Option.bind_some] at stuck
      split at stuck <;> cases stuck
  cases held : r.cells.find? z with
  | none => exact (coefficient_of_not_holds (not_holds_iff.mpr held)).ge
  | some x =>
    rw [coefficient_of_find? held]
    exact isNegative_eq_false.mp (enteringSymbol?_eq_none nothing held notDummy)

/-! ## The dual method -/

/-- What the dual method makes of a tableau: nothing of what it does changes the solutions or the
values of the objective on them. -/
structure Repaired (P : Symbol → Prop) (t t' : Tableau Rat) : Prop where
  sound : Sound P t'
  solves : ∀ ρ, Solves t' ρ ↔ Solves t ρ
  settled : Settled t → Settled t'
  objective : ∀ ρ, Solves t ρ → eval t'.objective ρ = eval t.objective ρ
  optimal : Optimal t → Optimal t'

/-- A repair is a pivot on the row that heads the queue. -/
theorem repair_pivoted {queue : List Symbol} (sound : Sound P t)
    (next : nextInfeasible? t.rows t.infeasible = some (leaving, row, queue))
    (chosen : t.repairingSymbol? row = some entering) :
    ∃ t' solved, Pivoted { t with infeasible := queue } t' entering leaving row solved := by
  obtain ⟨found, -⟩ := nextInfeasible?_eq_some next
  have held := (repairing_column sound.tidy found chosen).1
  exact exchange_exact (t := { t with infeasible := queue }) (queue_tidy sound.tidy queue) found
    ((holds_iff_coefficient (sound.pruned leaving row found)).mp held)

/-- One repair keeps what the repairs before have kept, and queues what it makes negative. -/
theorem repair_repaired {queue : List Symbol} (repaired : Repaired P t t')
    (next : nextInfeasible? t'.rows t'.infeasible = some (leaving, row, queue))
    (chosen : t'.repairingSymbol? row = some entering) :
    Ends ({ t' with infeasible := queue }.exchange entering leaving row)
      (fun t'' => Repaired P t t'' ∧ Covered t'') fun _ _ => True := by
  obtain ⟨held, negative, waiting, still⟩ := nextInfeasible?_eq_some next
  have restricted := repaired.sound.queued leaving waiting
  have sound : Sound P { t' with infeasible := queue } :=
    sound_of_queue repaired.sound fun s member => repaired.sound.queued s (still s member)
  obtain ⟨pick, best, rfl⟩ := repairingSymbol?_eq_some chosen
  obtain ⟨entering, x, cell, notDummy, positive, rfl⟩ := mem_repairPicks.mp (Pick.best?_mem best)
  rw [← coefficient_of_find? cell] at positive best
  have rises := isPositive_iff.mp positive
  obtain ⟨t'', solved, pivoted⟩ := exchange_exact sound.tidy held rises.ne'
  have own : 0 ≤ solved.constant := by
    rw [pivoted_constant pivoted]
    exact div_nonneg (neg_nonneg.mpr (isNegative_iff.mp negative).le) rises.le
  rw [pivoted.went, ends_ok]
  refine ⟨⟨pivoted_sound pivoted sound restricted,
    fun ρ => (pivoted_solves pivoted sound.tidy).trans (repaired.solves ρ),
    fun settled => pivoted_settled pivoted (repaired.settled settled) notDummy,
    fun ρ solves => ?_, fun optimal => ?_⟩, pivoted_covered pivoted own⟩
  · have now := (repaired.solves ρ).mpr solves
    rw [← repaired.objective ρ solves, ← pivoted_eval pivoted now t'.objective, pivoted.result]
    rfl
  · apply pivoted_optimal pivoted sound.tidy (repaired.optimal optimal) notDummy rises
    intro z free grows
    obtain ⟨y, here⟩ := holds_iff.mp (holds_of_coefficient grows.ne')
    have member := mem_repairPicks (t := t').mpr ⟨z, y, here, free,
      isPositive_iff.mpr (coefficient_of_find? here ▸ grows), rfl⟩
    rw [← coefficient_of_find? here] at member
    exact best?_least best member

/-- The dual method ends with a feasible tableau. -/
theorem dualOptimize_repaired (sound : Sound P t) (covered : Covered t) :
    Ends t.dualOptimize (fun t' => Repaired P t t' ∧ Feasible t')
      (fun error _ => error.isInternal = true) := by
  refine ends_mono (dualOptimize_ends (Q := fun t' => Repaired P t t' ∧ Covered t')
    (R := fun _ => True) (fun _ _ _ => trivial) ?_ ?_) ?_ fun _ _ stopped => stopped.1
  · rintro t' leaving row queue entering ⟨repaired, -⟩ next chosen
    exact repair_repaired repaired next chosen
  · exact ⟨⟨sound, fun _ => Iff.rfl, id, fun _ _ => rfl, id⟩, covered⟩
  · rintro _ ⟨t', ⟨repaired, covered⟩, done, rfl⟩
    refine ⟨⟨sound_of_queue repaired.sound (by simp), repaired.solves, repaired.settled,
      repaired.objective, repaired.optimal⟩, fun s row found restricted => ?_⟩
    by_contra negative
    have waiting := covered s row found restricted (not_le.mp negative)
    exact negative (isNegative_eq_false.mp (nextInfeasible?_eq_none done waiting found))

/-- What settling makes of a feasible tableau: the solutions stay, and an objective that is bounded below
keeps its value on them and becomes minimal. -/
structure Resettled (P : Symbol → Prop) (t t' : Tableau Rat) : Prop where
  sound : Sound P t'
  feasible : Feasible t'
  solves : ∀ ρ, Solves t' ρ ↔ Solves t ρ
  settled : Settled t → Settled t'
  minimal : Bounded t t.objective →
    Optimal t' ∧ ∀ ρ, Solves t ρ → eval t'.objective ρ = eval t.objective ρ

theorem settle_resettled (sound : Sound P t) (feasible : Feasible t) :
    Ends ((t.optimize .primary).andThen Tableau.dualOptimize) (Resettled P t)
      (fun error _ => error.isInternal = true) := by
  rw [ends_andThen]
  refine ends_mono (optimize_improved sound feasible) (fun t' => ?_) fun _ _ internal => internal
  rintro ⟨improved, stuck⟩
  refine ends_mono (dualOptimize_repaired improved.sound (covered_of_feasible improved.feasible))
    (fun t'' => ?_) fun _ _ internal => internal
  rintro ⟨repaired, feasible'⟩
  refine ⟨repaired.sound, feasible', fun ρ => (repaired.solves ρ).trans (improved.solves ρ),
    fun settled => repaired.settled (improved.settled settled), fun bounded => ⟨?_, ?_⟩⟩
  · exact repaired.optimal fun z notDummy => coefficient_of_stuck stuck rfl notDummy
  · intro ρ solves
    obtain ⟨_, same, value⟩ := improved.aims .primary _ rfl (.inr bounded)
    cases same
    rw [repaired.objective ρ ((improved.solves ρ).mpr solves), value ρ solves]

end Cassowary.SimplexRuns
