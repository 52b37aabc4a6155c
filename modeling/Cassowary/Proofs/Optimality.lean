import Cassowary.Proofs.Lifting
import Cassowary.Proofs.Pricing

/-!
The values of a solver violate its constraints as little as they can. The errors of a solution cost at
least the violations of the assignment that it reads as, the solution that an assignment stands for
costs just its violations, and the values cost no more than any other solution.
-/

namespace Cassowary.Optimality
open Endings MapEntries Bookkeeping Drafting SolverBooks SessionBooks ExactRows Solutions RatioTests
open ArtificialPhase Meaning Fidelity FaithfulRuns Requirements Pricing Lifting Tableau Solver
open scoped Exact

variable {s : Solver Rat} {c : Constraint Rat} {h : Handle} {tag : Tag} {k : Nat} {p : Posting Rat}
  {σ : Assignment} {ρ : Valuation} {weight : Rat}

/-- What the violation of a constraint costs. Required constraints are not for sale. -/
def toll (c : Constraint Rat) (σ : Assignment) : Rat :=
  if c.isRequired then 0 else c.strength.value * violation c σ

/-- What an assignment costs: the violations of all constraints in the solver that are not required,
weighted by their strengths. -/
def cost (s : Solver Rat) (σ : Assignment) : Rat :=
  total (fun h p => toll (current s.edits h p.constraint) σ) s.postings

theorem charge_required {relation : Relation} :
    Pricing.charge (.mint relation true k) weight ρ = 0 := by
  cases relation <;> rfl

theorem charge_inequality {relation : Relation} (inequality : relation ≠ .equal) :
    Pricing.charge (.mint relation false k) weight ρ = weight * ρ ⟨k + 2, .error⟩ := by
  cases relation
  · exact add_zero _
  · exact absurd rfl inequality
  · exact add_zero _

theorem charge_equation : Pricing.charge (.mint .equal false k) weight ρ =
    weight * (ρ ⟨k + 1, .error⟩ + ρ ⟨k + 2, .error⟩) := by
  show weight * ρ ⟨k + 1, .error⟩ + (weight * ρ ⟨k + 2, .error⟩ + 0) = _
  ring

/-- Solutions without negative symbols pay for every violation. -/
theorem toll_le_charge (minted : tag = .mint c.relation c.isRequired k)
    (positive : 0 ≤ c.strength.value) (nonneg : ∀ z, z.isRestricted = true → 0 ≤ ρ z)
    (equation : Equation c tag σ ρ) : toll c σ ≤ Pricing.charge tag c.strength.value ρ := by
  subst minted
  unfold toll
  cases required : c.isRequired with
  | true => exact charge_required.ge
  | false =>
    have slack : 0 ≤ ρ ⟨k + 1, .slack⟩ := nonneg _ rfl
    have plus : 0 ≤ ρ ⟨k + 1, .error⟩ := nonneg _ rfl
    have error : 0 ≤ ρ ⟨k + 2, .error⟩ := nonneg _ rfl
    rw [required] at equation
    unfold Equation at equation
    unfold violation
    rw [if_neg Bool.false_ne_true]
    cases relation : c.relation <;> simp only [relation, Tag.mint] at equation
    · rw [charge_inequality (by simp)]
      exact mul_le_mul_of_nonneg_left (max_le error (by linarith)) positive
    · rw [charge_equation]
      refine mul_le_mul_of_nonneg_left (abs_le.mpr ⟨?_, ?_⟩) positive <;> linarith
    · rw [charge_inequality (by simp)]
      exact mul_le_mul_of_nonneg_left (max_le error (by linarith)) positive

/-- The solution of an assignment pays for its violations only. -/
theorem charge_gap (minted : tag = .mint c.relation c.isRequired k) :
    Pricing.charge tag c.strength.value (gap c tag σ) = toll c σ := by
  subst minted
  unfold toll
  cases required : c.isRequired with
  | true => exact charge_required
  | false =>
    rw [if_neg Bool.false_ne_true]
    unfold violation
    cases relation : c.relation with
    | lessOrEqual =>
      rw [charge_inequality (by simp)]
      simp [gap, relation, Tag.mint, max_comm]
    | equal =>
      rw [charge_equation, ← max_zero_add_max_neg_zero_eq_abs_self]
      simp [gap, relation, Tag.mint]
    | greaterOrEqual =>
      rw [charge_inequality (by simp)]
      simp [gap, relation, Tag.mint, max_comm]

/-- The values of a faithful solver pay for what they violate. -/
theorem cost_value_le (faithful : Faithful s)
    (weights : ∀ h p, s.postings.find? h = some p → 0 ≤ p.constraint.strength.value) :
    cost s s.value ≤ charges s.postings s.tableau.value := by
  refine total_le_total fun h p found => ?_
  have live : Live s (current s.edits h p.constraint) p.tag := ⟨h, p, found, rfl, rfl⟩
  obtain ⟨k, minted⟩ := live_minted faithful.orderly live
  have equation := (represents_live faithful _).mp (solves_value faithful.sound.tidy) _ _ live
  have paid := toll_le_charge minted (by simpa using weights h p found)
    (fun z restricted => value_nonneg faithful.feasible restricted) equation
  rwa [current_strength] at paid

/-- The solution of an assignment pays for what the assignment violates. -/
theorem charges_lift (orderly : Orderly s) : charges s.postings (lift s σ) = cost s σ := by
  refine total_congr fun h p found => ?_
  have live : Live s (current s.edits h p.constraint) p.tag := ⟨h, p, found, rfl, rfl⟩
  obtain ⟨k, minted⟩ := live_minted orderly live
  have strength : (current s.edits h p.constraint).strength = p.constraint.strength :=
    current_strength
  rw [charge_congr fun z member => lift_posted orderly found member, ← strength, charge_gap minted]

/-- The values of a faithful solver with a minimal objective satisfy the required constraints at the
least cost. -/
theorem values_least (faithful : Faithful s) (minimized : Minimized s.tableau s.postings) :
    (∀ c tag, Live s c tag → c.isRequired = true → Satisfied c s.value) ∧
      ∀ σ, (∀ c tag, Live s c tag → c.isRequired = true → Satisfied c σ) →
        cost s s.value ≤ cost s σ := by
  refine ⟨?_, fun σ satisfied => ?_⟩
  · exact (all_satisfied_iff faithful).mpr fun z dummy => value_dummy minimized.settled dummy
  · calc cost s s.value
        ≤ charges s.postings s.tableau.value := cost_value_le faithful minimized.weights
      _ ≤ charges s.postings (lift s σ) :=
          charges_least faithful minimized (lift_admissible faithful satisfied)
      _ = cost s σ := charges_lift faithful.orderly

/-- After every run without internal errors that took out no required equation the values satisfy the
required constraints, and no other assignment that does so costs less. -/
theorem values_cost_least (store : Store Rat) (commands : List (Command Rat))
    (untroubled : Untroubled ⟨∅, store⟩ commands)
    (allowed : Throughout (Allowed Built NotRequiredEquation) ⟨∅, store⟩ commands) :
    let s := (Session.run ⟨∅, store⟩ commands).solver
    (∀ c tag, Live s c tag → c.isRequired = true → Satisfied c s.value) ∧
      ∀ σ, (∀ c tag, Live s c tag → c.isRequired = true → Satisfied c σ) →
        cost s s.value ≤ cost s σ := by
  intro s
  obtain ⟨faithful, minimized⟩ := run_carries minimized_carried store untroubled allowed
  exact values_least faithful minimized

theorem draggedColumns_allowed :
    Throughout (Allowed Built NotRequiredEquation) ⟨∅, {}⟩ draggedColumns := by
  unfold draggedColumns
  exact ⟨⟨_, _, _, rfl⟩, ⟨_, _, _, rfl⟩, ⟨_, _, _, rfl⟩, ⟨_, _, _, rfl⟩, trivial, trivial,
    notRequiredEquation_of_all (by decide +kernel), trivial, trivial⟩

theorem values_cost_least_dragged :
    Untroubled ⟨∅, {}⟩ draggedColumns ∧
      Throughout (Allowed Built NotRequiredEquation) ⟨∅, {}⟩ draggedColumns ∧
      let s := (Session.run ⟨∅, {}⟩ draggedColumns).solver
      (∀ c tag, Live s c tag → c.isRequired = true → Satisfied c s.value) ∧
        ∀ σ, (∀ c tag, Live s c tag → c.isRequired = true → Satisfied c σ) →
          cost s s.value ≤ cost s σ :=
  ⟨draggedColumns_untroubled, draggedColumns_allowed,
    values_cost_least {} _ draggedColumns_untroubled draggedColumns_allowed⟩

end Cassowary.Optimality
