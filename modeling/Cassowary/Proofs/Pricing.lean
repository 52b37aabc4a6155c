import Cassowary.Proofs.Requirements

/-!
What the objective measures. On the solutions of the tableau the objective is, up to a constant, the sum
of all error symbols weighted by the strengths of their constraints. Insertions, removals and suggestions
keep it so, and it is bounded below, so that every run ends with a minimal objective.
-/

namespace Cassowary.Pricing
open Endings MapEntries RowSymbols Separation Bookkeeping Drafting SolverBooks SessionBooks ExactRows
open Solutions RatioTests SimplexRuns Evictions ArtificialPhase Insertions Meaning Representations
open Suggestions Fidelity FaithfulRuns Requirements Tableau Solver
open scoped Exact

variable {P : Symbol → Prop} {t t' : Tableau Rat} {r : Row Rat} {ρ μ : Valuation}
  {s s' : Solver Rat} {c : Constraint Rat} {h : Handle} {tag : Tag} {z : Symbol} {p : Posting Rat}
  {weight x : Rat} {postings : OrderedMap Handle (Posting Rat)}

/-- What the errors of a tag cost. -/
def charge (tag : Tag) (weight : Rat) (ρ : Valuation) : Rat :=
  (tag.errors.map fun z => weight * ρ z).sum

/-- What the errors of all constraints cost. -/
def charges (postings : OrderedMap Handle (Posting Rat)) (ρ : Valuation) : Rat :=
  total (fun _ p => charge p.tag p.constraint.strength.value ρ) postings

theorem charge_nonneg (positive : 0 ≤ weight) (nonneg : ∀ z, z.isRestricted = true → 0 ≤ ρ z) :
    0 ≤ charge tag weight ρ := by
  refine List.sum_nonneg fun y member => ?_
  obtain ⟨z, mine, rfl⟩ := List.mem_map.mp member
  have error := (List.mem_filter.mp mine).2
  exact mul_nonneg positive (nonneg z (Symbol.isRestricted_iff.mpr (Symbol.not_external_of_error error)))

theorem charge_congr (same : ∀ z ∈ tag.symbols, ρ z = μ z) :
    charge tag weight ρ = charge tag weight μ := by
  refine congrArg List.sum (List.map_congr_left fun z mine => ?_)
  rw [same z (List.mem_filter.mp mine).1]

theorem charge_add : charge tag weight (ρ + μ) = charge tag weight ρ + charge tag weight μ := by
  simp only [charge, Pi.add_apply, mul_add]
  exact List.sum_map_add

theorem charges_add : charges postings (ρ + μ) = charges postings ρ + charges postings μ := by
  simp only [charges, charge_add]
  exact total_add

theorem charges_nonneg
    (weights : ∀ h p, postings.find? h = some p → 0 ≤ p.constraint.strength.value)
    (nonneg : ∀ z, z.isRestricted = true → 0 ≤ ρ z) : 0 ≤ charges postings ρ := by
  refine List.sum_nonneg fun y member => ?_
  obtain ⟨entry, held, rfl⟩ := List.mem_map.mp member
  exact charge_nonneg (weights _ _ (mem_toList_iff.mp held)) nonneg

theorem charges_congr (same : ∀ h p, postings.find? h = some p → ∀ z ∈ p.tag.symbols, ρ z = μ z) :
    charges postings ρ = charges postings μ :=
  total_congr fun h p found => charge_congr (same h p found)

/-! ## Charging, refunding and discharging -/

theorem eval_charge : eval (t.charge tag weight).objective ρ =
    eval t.objective ρ + charge tag weight ρ := by
  unfold Tableau.charge
  rw [eval_insertCells, List.map_map]
  rfl

/-- On solutions it makes no difference whether an error was charged as a column or through its row. -/
theorem eval_refund (solves : Solves t ρ) :
    eval (t.refund tag weight).objective ρ = eval t.objective ρ - charge tag weight ρ := by
  unfold refund charge
  dsimp only
  generalize t.objective = objective
  induction tag.errors generalizing objective with
  | nil => simp
  | cons error rest ih =>
    rw [List.foldl_cons, ih, List.map_cons, List.sum_cons]
    split
    · rename_i row found
      rw [eval_insertRow, ← solves error row found]
      ring
    · rw [eval_insertSymbol]
      ring

/-- Removing some cells is setting their symbols to zero. -/
theorem eval_removes (symbols : List Symbol) :
    eval (symbols.foldl Row.remove r) ρ = eval r fun z => if z ∈ symbols then 0 else ρ z := by
  induction symbols generalizing r with
  | nil => simp
  | cons first rest ih =>
    have zeroed : (fun z => if z ∈ first :: rest then 0 else ρ z) =
        Function.update (fun z => if z ∈ rest then 0 else ρ z) first 0 := by
      funext z
      by_cases same : z = first <;> simp [same]
    rw [List.foldl_cons, ih, eval_remove, zeroed, eval_update]
    ring

/-- Withdrawing a draft takes just what it charged. -/
theorem eval_withdrawn (tidy : Tidy (Minted s.minted) s.tableau) :
    eval ((s.draft c).solver.tableau.discharge (s.draft c).tag).objective ρ =
      eval s.tableau.objective ρ := by
  unfold discharge
  dsimp only
  rw [eval_removes, draft_tableau, eval_charge]
  have nothing : charge (s.draft c).tag c.strength.value
      (fun z => if z ∈ (s.draft c).tag.symbols then 0 else ρ z) = 0 := by
    rw [charge_congr (μ := 0) fun z mine => by simp [mine]]
    simp [charge]
  rw [nothing, add_zero]
  refine eval_congr fun z held => if_neg fun mine => ?_
  have old := (tidy.line _ line_objective z held).1.2
  exact absurd old (Nat.not_le_of_lt (draft_symbol mine).2.1)

/-! ## Measuring the errors -/

/-- On the solutions of the tableau the objective is what the errors cost, up to a constant. -/
structure Measured (t : Tableau Rat) (postings : OrderedMap Handle (Posting Rat)) : Prop where
  weights : ∀ h p, postings.find? h = some p → 0 ≤ p.constraint.strength.value
  level : ∃ k, ∀ ρ, Solves t ρ → eval t.objective ρ = charges postings ρ + k

/-- A constraint that its constructor made, which brings the strength into range. -/
def Built (c : Constraint Rat) : Prop :=
  ∃ expression relation strength, c = .make expression relation strength

theorem clip_nonneg (strength : Strength Rat) : 0 ≤ strength.clip.value := by
  unfold Strength.clip Scalar.clamp
  dsimp only
  split
  · exact le_refl _
  · split
    · simp [Strength.required]
    · exact not_lt.mp ‹_›

theorem built_nonneg (built : Built c) : 0 ≤ c.strength.value := by
  obtain ⟨expression, relation, strength, rfl⟩ := built
  exact clip_nonneg strength

theorem fresh_measured : Measured ∅ ∅ := by
  refine ⟨?_, ⟨0, fun ρ _ => ?_⟩⟩
  · rintro h p ⟨⟩
  · exact eval_ofConstant.trans (by simp [charges])

/-- An objective that measures errors with weights that are not negative is bounded below. -/
theorem bounded_of_measured (measured : Measured t postings) : Bounded t t.objective := by
  obtain ⟨k, level⟩ := measured.level
  refine ⟨k, fun ρ solves nonneg => ?_⟩
  rw [level ρ solves]
  have positive := charges_nonneg measured.weights nonneg
  linarith

theorem resettled_measured (measured : Measured t postings) (resettled : Resettled P t t') :
    Measured t' postings := by
  obtain ⟨-, same⟩ := resettled.minimal (bounded_of_measured measured)
  obtain ⟨k, level⟩ := measured.level
  refine ⟨measured.weights, ⟨k, fun ρ solves => ?_⟩⟩
  have before := (resettled.solves ρ).mp solves
  rw [same ρ before, level ρ before]

/-- Once its row is in, the errors of a constraint are charged for. -/
theorem entered_measured (measured : Measured s.tableau s.postings) (weight : 0 ≤ c.strength.value)
    (free : s.postings.find? h = none)
    (entered : Entered P (s.draft c).row (s.draft c).solver.tableau t) :
    Measured t (s.postings.insert h ⟨c, (s.draft c).tag⟩) := by
  obtain ⟨k, level⟩ := measured.level
  refine ⟨(forall_insert free).mpr ⟨weight, measured.weights⟩, ⟨k, fun ρ solves => ?_⟩⟩
  obtain ⟨before, zero⟩ := (entered.solves ρ).mp solves
  have old : Solves s.tableau ρ := (solves_of_rows draft_rows).mp before
  have more : charges (s.postings.insert h ⟨c, (s.draft c).tag⟩) ρ =
      charges s.postings ρ + charge (s.draft c).tag c.strength.value ρ :=
    total_insert_of_absent free
  rw [entered.objective ρ before zero, draft_tableau, eval_charge, level ρ old, more]
  ring

/-- Withdrawing a draft changes neither the constraints nor the objective's values. -/
theorem withdrawn_eval (faithful : Faithful s) (withdrawn : Withdrawn (s.draft c) c s') :
    s'.postings = s.postings ∧ s'.tableau.rows = s.tableau.rows ∧
      ∀ ρ, eval s'.tableau.objective ρ = eval s.tableau.objective ρ := by
  have tableau := (withdrawn_accounted faithful.orderly faithful.accounted withdrawn).2
  refine ⟨withdrawn_postings withdrawn, by rw [tableau]; exact draft_rows, fun ρ => ?_⟩
  rw [tableau]
  exact eval_withdrawn faithful.orderly.tidy

theorem withdrawn_measured (faithful : Faithful s) (measured : Measured s.tableau s.postings)
    (withdrawn : Withdrawn (s.draft c) c s') : Measured s'.tableau s'.postings := by
  obtain ⟨postings, rows, same⟩ := withdrawn_eval faithful withdrawn
  obtain ⟨k, level⟩ := measured.level
  refine ⟨postings ▸ measured.weights, ⟨k, fun ρ solves => ?_⟩⟩
  rw [same, postings, level ρ ((solves_of_rows rows).mp solves)]

/-- What a constraint owns does not matter to the charges for the others. -/
theorem charges_erase_update (orderly : Orderly s) (found : s.postings.find? h = some p)
    (member : z ∈ p.tag.symbols) :
    charges (s.postings.erase h) (Function.update ρ z x) = charges (s.postings.erase h) ρ := by
  refine charges_congr fun g q held y mine => Function.update_of_ne ?_ _ _
  rintro rfl
  obtain ⟨apart, here⟩ := erase_found held
  exact apart (orderly.books.postings.distinct h g p q y found here member mine)

/-- Once its symbols are gone, the errors of a constraint are no longer charged for. -/
theorem evicted_measured {t₁ : Tableau Rat} (orderly : Orderly s)
    (measured : Measured s.tableau s.postings) (found : s.postings.find? h = some p)
    (evicted : Evicted P p.tag.marker (s.tableau.refund p.tag p.constraint.strength.value) t₁)
    (indifferent : ∀ z, p.tag.other = some z → Indifferent (Solves t₁) z) :
    Measured (p.tag.other.elim t₁ t₁.dropSymbol) (s.postings.erase h) := by
  have own : p.tag.marker ∈ p.tag.symbols := List.mem_cons_self
  obtain ⟨k, level⟩ := measured.level
  have weights : ∀ g q, (s.postings.erase h).find? g = some q → 0 ≤ q.constraint.strength.value :=
    fun g q held => measured.weights g q (erase_found held).2
  have refunded : ∀ ρ, Solves s.tableau ρ →
      eval (s.tableau.refund p.tag p.constraint.strength.value).objective ρ =
        charges (s.postings.erase h) ρ + k := fun ρ solves => by
    have less : charges s.postings ρ = charge p.tag p.constraint.strength.value ρ +
      charges (s.postings.erase h) ρ := total_erase found
    rw [eval_refund solves, level ρ solves, less]
    ring
  have remains : ∀ ρ, Solves t₁ ρ →
      eval t₁.objective ρ = charges (s.postings.erase h) ρ + k := fun ρ solves => by
    obtain ⟨x, before⟩ := (evicted.solves ρ).mp solves
    rw [evicted.objective ρ x before, refunded _ before, charges_erase_update orderly found own]
  cases other : p.tag.other with
  | none => exact ⟨weights, k, remains⟩
  | some z =>
    obtain ⟨column, solves⟩ := dropSymbol_solves evicted.sound.tidy (indifferent z other)
    refine ⟨weights, k, fun ρ dropped => ?_⟩
    have before := (solves ρ).mp dropped
    have removed : (t₁.dropSymbol z).objective = t₁.objective.remove z :=
      congrArg Tableau.objective (if_neg column)
    have zeroed : eval (t₁.objective.remove z) ρ =
        eval t₁.objective (Function.update ρ z 0) := by
      rw [eval_remove, eval_update]
      ring
    show eval (t₁.dropSymbol z).objective ρ = _
    rw [removed, zeroed, remains _ (indifferent z other ρ 0 before),
      charges_erase_update orderly found (by simp [Tag.symbols, other])]

/-- A suggestion changes the level of the objective and nothing else about it. -/
theorem shifted_measured {edit : Edit Rat} {target : Rat}
    (measured : Measured s.tableau s.postings) (shifted : Shifted s target edit t') :
    Measured t' s.postings := by
  obtain ⟨z, x, t, -, moved, repaired⟩ := shifted
  obtain ⟨k, level⟩ := measured.level
  refine ⟨measured.weights, ⟨charges s.postings (Function.update (0 : Valuation) z x) + k -
    s.tableau.objective.coefficient z * x, fun ρ solves => ?_⟩⟩
  have here := (repaired.solves ρ).mp solves
  have before := level _ ((moved.solves ρ).mp here)
  have sum : Function.update ρ z (ρ z + x) = ρ + Function.update (0 : Valuation) z x := by
    funext y
    by_cases same : y = z
    · subst same
      simp
    · simp [same]
  rw [repaired.objective ρ here, moved.objective]
  rw [eval_update, sum, charges_add] at before
  linarith

/-- An objective that measures the errors is carried along by everything. -/
theorem measured_carried : Carried Measured Built (fun _ _ => True) where
  fresh := fresh_measured
  post _ measured built brought := by
    obtain ⟨t, entered, resettled⟩ := brought.tableau
    rw [brought.posted.postings]
    exact resettled_measured (entered_measured measured (built_nonneg built) brought.free entered)
      resettled
  withdraw faithful measured withdrawn := withdrawn_measured faithful measured withdrawn
  retract faithful measured found _ taken := resettled_measured
    (evicted_measured faithful.orderly measured found taken.evicted taken.indifferent) taken.resettled
  suggest _ measured _ shifted _ := shifted_measured measured shifted
  edit _ _ _ := ⟨_, _, _, rfl⟩
  soft _ _ _ := trivial

/-! ## Minimal objectives -/

/-- The objective measures the errors, though it may still be improved, and no dummy symbol has left
zero. -/
structure Priced (t : Tableau Rat) (postings : OrderedMap Handle (Posting Rat)) : Prop where
  settled : Settled t
  weights : ∀ h p, postings.find? h = some p → 0 ≤ p.constraint.strength.value
  level : ∃ k, ∀ ρ, Solves t ρ → eval t.objective ρ = charges postings ρ + k

/-- The objective measures the errors and cannot be improved, and no dummy symbol has left zero. -/
structure Minimized (t : Tableau Rat) (postings : OrderedMap Handle (Posting Rat)) : Prop where
  settled : Settled t
  weights : ∀ h p, postings.find? h = some p → 0 ≤ p.constraint.strength.value
  level : ∃ k, ∀ ρ, Solves t ρ → eval t.objective ρ = charges postings ρ + k
  optimal : Optimal t

theorem measured_of_priced (priced : Priced t postings) : Measured t postings :=
  ⟨priced.weights, priced.level⟩

theorem measured_of_minimized (minimized : Minimized t postings) : Measured t postings :=
  ⟨minimized.weights, minimized.level⟩

theorem priced_of_measured (settled : Settled t) (measured : Measured t postings) :
    Priced t postings :=
  ⟨settled, measured.weights, measured.level⟩

theorem minimized_of_measured (settled : Settled t) (measured : Measured t postings)
    (optimal : Optimal t) : Minimized t postings :=
  ⟨settled, measured.weights, measured.level, optimal⟩

theorem bounded_of_priced (priced : Priced t postings) : Bounded t t.objective :=
  bounded_of_measured (measured_of_priced priced)

/-- Settling a tableau whose objective measures the errors makes it minimal. -/
theorem resettled_minimized (priced : Priced t postings) (resettled : Resettled P t t') :
    Minimized t' postings :=
  minimized_of_measured (resettled.settled priced.settled)
    (resettled_measured (measured_of_priced priced) resettled)
    (resettled.minimal (bounded_of_priced priced)).1

theorem entered_priced (minimized : Minimized s.tableau s.postings) (weight : 0 ≤ c.strength.value)
    (free : s.postings.find? h = none)
    (entered : Entered P (s.draft c).row (s.draft c).solver.tableau t) :
    Priced t (s.postings.insert h ⟨c, (s.draft c).tag⟩) :=
  priced_of_measured (entered.settled (draft_settled minimized.settled))
    (entered_measured (measured_of_minimized minimized) weight free entered)

theorem brought_minimized (minimized : Minimized s.tableau s.postings)
    (weight : 0 ≤ c.strength.value) (brought : Brought s h c s') :
    Minimized s'.tableau s'.postings := by
  obtain ⟨t, entered, resettled⟩ := brought.tableau
  rw [brought.posted.postings]
  exact resettled_minimized (entered_priced minimized weight brought.free entered) resettled

theorem withdrawn_minimized (faithful : Faithful s) (minimized : Minimized s.tableau s.postings)
    (withdrawn : Withdrawn (s.draft c) c s') : Minimized s'.tableau s'.postings := by
  obtain ⟨-, -, same⟩ := withdrawn_eval faithful withdrawn
  refine minimized_of_measured (withdrawn_settled faithful minimized.settled withdrawn)
    (withdrawn_measured faithful (measured_of_minimized minimized) withdrawn) fun z notDummy => ?_
  rw [coefficient_eq, same, same, ← coefficient_eq]
  exact minimized.optimal z notDummy

theorem evicted_priced {t₁ : Tableau Rat} (orderly : Orderly s)
    (minimized : Minimized s.tableau s.postings) (found : s.postings.find? h = some p)
    (spared : Spared s.tableau p.tag.marker)
    (evicted : Evicted P p.tag.marker (s.tableau.refund p.tag p.constraint.strength.value) t₁)
    (indifferent : ∀ z, p.tag.other = some z → Indifferent (Solves t₁) z) :
    Priced (p.tag.other.elim t₁ t₁.dropSymbol) (s.postings.erase h) := by
  have left : Settled t₁ := evicted.settled spared minimized.settled
  refine priced_of_measured ?_
    (evicted_measured orderly (measured_of_minimized minimized) found evicted indifferent)
  cases p.tag.other with
  | none => exact left
  | some z => exact dropSymbol_settled left

theorem taken_minimized {t₁ t₂ : Tableau Rat} (orderly : Orderly s)
    (minimized : Minimized s.tableau s.postings) (found : s.postings.find? h = some p)
    (spared : Spared s.tableau p.tag.marker) (taken : Taken s p t₁ t₂) :
    Minimized t₂ (s.postings.erase h) :=
  resettled_minimized
    (evicted_priced orderly minimized found spared taken.evicted taken.indifferent) taken.resettled

theorem shifted_minimized {edit : Edit Rat} {target : Rat}
    (minimized : Minimized s.tableau s.postings) (shifted : Shifted s target edit t') :
    Minimized t' s.postings := by
  have measured := shifted_measured (measured_of_minimized minimized) shifted
  obtain ⟨z, x, t, -, moved, repaired⟩ := shifted
  refine minimized_of_measured (repaired.settled (moved.settled minimized.settled)) measured
    (repaired.optimal fun y notDummy => ?_)
  rw [moved.objective]
  exact minimized.optimal y notDummy

/-- A minimal objective is carried along by everything but the removal of required equations. -/
theorem minimized_carried : Carried Minimized Built NotRequiredEquation where
  fresh := minimized_of_measured (by rintro s row ⟨⟩) fresh_measured fun z _ => le_refl _
  post _ minimized built brought := brought_minimized minimized (built_nonneg built) brought
  withdraw faithful minimized withdrawn := withdrawn_minimized faithful minimized withdrawn
  retract faithful minimized found removable taken :=
    taken_minimized faithful.orderly minimized found
      (.inl (marker_not_dummy faithful.orderly found removable)) taken
  suggest _ minimized _ shifted _ := shifted_minimized minimized shifted
  edit _ _ _ := ⟨_, _, _, rfl⟩
  soft _ _ soft required := by
    rw [soft] at required
    cases required.1

/-- The values of a faithful solver with a minimal objective cost no more than any admissible
solution. -/
theorem charges_least (faithful : Faithful s) (minimized : Minimized s.tableau s.postings)
    (admissible : Admissible s.tableau ρ) :
    charges s.postings s.tableau.value ≤ charges s.postings ρ := by
  obtain ⟨k, level⟩ := minimized.level
  have errors : ∀ {h p z}, s.postings.find? h = some p → z ∈ p.tag.symbols →
      z.isRestricted = true := fun found member =>
    Symbol.isRestricted_iff.mpr (tag_symbol faithful.orderly.books.postings found member).1
  have free : ∀ z, z.isExternal = true → s.tableau.objective.coefficient z = 0 := fun z external =>
    coefficient_of_external faithful.sound line_objective (fun ρ σ solves solves' agree => by
      rw [level ρ solves, level σ solves',
        charges_congr fun h p found z member => agree z (errors found member)]) external
  have least := constant_le_eval minimized.optimal free admissible.nonneg admissible.zero
  rw [← eval_value faithful.sound.tidy line_objective, level _ (solves_value faithful.sound.tidy),
    level ρ admissible.solves] at least
  linarith

end Cassowary.Pricing
