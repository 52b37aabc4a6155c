import Cassowary.Proofs.Conservation
import Cassowary.Proofs.Objectives
import Cassowary.Proofs.Pricing

/-!
What soft constraints leave in the objective. Only the errors of constraints that may be violated are
charged for, and a removal takes the charges back before it pivots. In exact arithmetic nothing is left of
them then. With a tolerance a charge may have been dropped that is taken back all the same, or the two may
differ by a rounding error that counts. Such a rest comes with the removal of the last soft constraint and
with nothing else.
-/

namespace Cassowary.SoftTraces
open Endings MapEntries RowSymbols Drafting SolverBooks SessionBooks Upkeep Conservation Objectives
open Tableau Solver

section Arithmetic
variable {α : Type} [Scalar α] {s s' : Solver α} {r : Row α} {c : Constraint α} {h : Handle}
  {p : Posting α}

/-- Every constraint that is posted is required. -/
def Strict (postings : OrderedMap Handle (Posting α)) : Prop :=
  ∀ entry ∈ postings.toList, entry.2.constraint.isRequired = true

instance (postings : OrderedMap Handle (Posting α)) : Decidable (Strict postings) :=
  inferInstanceAs (Decidable (∀ entry ∈ postings.toList, _))

theorem strict_iff {postings : OrderedMap Handle (Posting α)} :
    Strict postings ↔ ∀ h p, postings.find? h = some p → p.constraint.isRequired = true :=
  ⟨fun strict h p found => strict (h, p) (mem_toList_iff.mpr found),
    fun all entry member => all entry.1 entry.2 (mem_toList_iff.mp member)⟩

/-- Where nothing can be charged for, the objective has no cells. -/
def Paid (s : Solver α) : Prop := Strict s.postings → s.tableau.objective.isConstant = true

instance : Decidable (Paid s) := inferInstanceAs (Decidable (_ → _))

omit [Scalar α] in
theorem isConstant_iff : r.isConstant = true ↔ ∀ z, r.holds z = false := by
  have keys : r.isConstant = true ↔ r.cells.keys = [] := by
    simp [Row.isConstant, OrderedMap.isEmpty, OrderedMap.keys]
  rw [keys, List.eq_nil_iff_forall_not_mem]
  exact forall_congr' fun z => by rw [← holds_iff_mem_keys, Bool.not_eq_true]

theorem isConstant_durable : Durable fun r : Row α => r.isConstant = true where
  remove {r} z constant := by
    refine isConstant_iff.mpr fun y => ?_
    have absent := isConstant_iff.mp constant y
    by_contra held
    rw [Bool.not_eq_false, holds_remove, absent] at held
    cases held.2
  substitute z other constant := by
    rw [Row.substitute_of_not_holds (isConstant_iff.mp constant z) other]
    exact constant

omit [Scalar α] in
/-- A required constraint has no errors to charge for. -/
theorem mint_errors (relation : Relation) (k : Nat) : (Tag.mint relation true k).errors = [] := by
  cases relation <;> rfl

theorem tag_errors (orderly : Orderly s) (found : s.postings.find? h = some p)
    (required : p.constraint.isRequired = true) : p.tag.errors = [] := by
  obtain ⟨k, minted, -⟩ := orderly.books.postings.tag h p found
  rw [minted, required, mint_errors]

theorem draft_objective (s : Solver α) (required : c.isRequired = true) :
    (s.draft c).solver.tableau.objective = s.tableau.objective := by
  have errors : (s.draft c).tag.errors = [] := by
    show (Tag.mint c.relation c.isRequired _).errors = []
    rw [required, mint_errors]
  rw [draft_tableau, charge, errors]
  rfl

theorem post_paid (standing : Standing s) (paid : Paid s)
    (serial : ∀ k, h = .edit k → k ≤ s.minted) : Ends (s.post h c) Paid (fun _ _ => True) := by
  have kept : c.isRequired = true → s.tableau.objective.isConstant = true →
      (s.post h c).state.tableau.objective.isConstant = true := fun required constant =>
    post_objective isConstant_durable constant (by rwa [draft_objective s required])
  refine ends_mono (ends_and (post_ends standing.orderly serial)
    (ends_of_state (P := fun s' => s' = (s.post h c).state) rfl)) ?_ fun _ _ _ => trivial
  rintro s' ⟨⟨-, free, posted⟩, rfl⟩ strict
  rw [posted.postings, strict_iff, forall_insert free] at strict
  exact kept strict.1 (paid (strict_iff.mpr strict.2))

/-- Removing a constraint puts nothing into an objective that its refund leaves without cells. -/
theorem retract_constant (found : s.postings.find? h = some p)
    (refunded : (s.tableau.refund p.tag p.constraint.strength.value).objective.isConstant = true) :
    (s.retract h).state.tableau.objective.isConstant = true := by
  refine retract_objective isConstant_durable (fun missing => ?_) fun p' found' => ?_
  · cases found.symm.trans missing
  · cases found.symm.trans found'
    exact refunded

/-- As long as every constraint is required there is nothing to refund. -/
theorem retract_strict (orderly : Orderly s) (strict : Strict s.postings)
    (constant : s.tableau.objective.isConstant = true) :
    (s.retract h).state.tableau.objective.isConstant = true := by
  refine retract_objective isConstant_durable (fun _ => constant) fun p found => ?_
  rw [refund, tag_errors orderly found (strict_iff.mp strict h p found)]
  exact constant

/-- What is paid for stays so, unless a constraint is removed while there are soft ones. -/
theorem paid_conserved : ConservedWhile (fun _ postings _ => Strict postings) (Paid (α := α)) where
  reset _ _ := rfl
  numbers paid _ := paid
  edits _ paid := paid
  post _ standing paid serial := post_paid standing paid serial
  retract standing paid strict _ := ends_mono
    (ends_of_state (retract_strict standing.orderly strict (paid strict)))
    (fun _ constant _ => constant) fun _ _ _ => trivial
  suggest {s} v target _ paid := by
    have postings : (s.suggest v target).state.postings = s.postings := by
      unfold suggest
      split <;> rfl
    refine ends_mono (ends_of_state (P := Paid) fun strict => ?_) (fun _ paid => paid)
      fun _ _ _ => trivial
    rw [postings] at strict
    exact suggest_objective isConstant_durable v target (paid strict)

/-- A command that ends the last soft constraint leaves the objective without cells. -/
def Repays (session : Session α) (command : Command α) : Prop :=
  ¬Strict session.solver.postings → Paid (session.step command).state.solver

instance (session : Session α) (command : Command α) : Decidable (Repays session command) :=
  inferInstanceAs (Decidable (_ → _))

/-- Where the objective is paid for, it is so after a command without internal error just when the
command repays. -/
theorem step_paid_iff {session : Session α} {command : Command α} (good : Good Paid session.solver)
    (fine : ∀ cause, (session.step command).error? ≠ some (.internal cause)) :
    Paid (session.step command).state.solver ↔ Repays session command := by
  refine ⟨fun paid _ => paid, fun repays => ?_⟩
  -- Among required constraints no removal can go wrong, and else the command answers for itself.
  by_cases strict : Strict session.solver.postings
  · have removes : Removes (fun _ postings _ => Strict postings) session command := by
      cases command <;> simp [Removes, strict]
    have ended := step_conserves paid_conserved session command good removes
    exact (state_of_ends_unless (P := fun after : Session α => Good Paid after.solver) ended fine).2
  · exact repays strict

/-- Whatever the arithmetic does, as long as there are no internal errors the objective is without cells
at all times at which every constraint is required just when every command leaves it so that ends the
last soft constraint. Removing a constraint leaves it so whenever the refund of its charges does. -/
theorem traces_come_with_last_removal (store : Store α) (commands : List (Command α))
    (untroubled : Untroubled ⟨∅, store⟩ commands) :
    ((∀ before, before <+: commands → Paid (Session.run ⟨∅, store⟩ before).solver) ↔
      Throughout Repays ⟨∅, store⟩ commands) ∧
    let s := (Session.run ⟨∅, store⟩ commands).solver
    ∀ h p, s.postings.find? h = some p →
      (s.tableau.refund p.tag p.constraint.strength.value).objective.isConstant = true →
      (s.retract h).state.tableau.objective.isConstant = true := by
  refine ⟨?_, fun h p found => retract_constant found⟩
  exact always_iff_throughout (fun session => Standing session.solver)
    (fun session => Paid session.solver) step_standing
    (fun session command standing paid fine => step_paid_iff ⟨standing, paid⟩ fine)
    (fresh_standing 0) (fun _ => rfl) (throughout_of_untroubled untroubled)

end Arithmetic

/-- A floor, and a wish for less than it that is given up again. -/
def wishGivenUp : List (Command Float) :=
  let x : Expression Float := .ofVariable ⟨0, none⟩
  [.add 0 (.relate x .greaterOrEqual (.ofScalar 5)), .add 1 (.make x .lessOrEqual .weak), .remove 1]

theorem wishGivenUp_untroubled : Untroubled ⟨∅, {}⟩ wishGivenUp :=
  untroubled_of_errors (by decide +kernel)

theorem traces_come_with_last_removal_wish :
    Untroubled ⟨∅, {}⟩ wishGivenUp ∧
      ((∀ before, before <+: wishGivenUp → Paid (Session.run ⟨∅, {}⟩ before).solver) ↔
        Throughout Repays ⟨∅, {}⟩ wishGivenUp) ∧
      let s := (Session.run ⟨∅, {}⟩ wishGivenUp).solver
      ∀ h p, s.postings.find? h = some p →
        (s.tableau.refund p.tag p.constraint.strength.value).objective.isConstant = true →
        (s.retract h).state.tableau.objective.isConstant = true :=
  ⟨wishGivenUp_untroubled, traces_come_with_last_removal {} wishGivenUp wishGivenUp_untroubled⟩

example : Throughout Repays ⟨∅, {}⟩ wishGivenUp := by decide +kernel

/-- A floor and a ceiling, and a wish for less than the floor that hardly weighs anything and is given up
again. -/
def faintWish : List (Command Float) :=
  let x : Expression Float := .ofVariable ⟨0, none⟩
  [.add 0 (.relate x .greaterOrEqual (.ofScalar 5)), .add 1 (.relate x .lessOrEqual (.ofScalar 1000)),
    .add 2 (.make (x.scale 100) .lessOrEqual ⟨5e-9⟩), .remove 2]

/-- With doubles a soft constraint may leave a trace although all calls succeed. The weight of the wish
counts as zero and is not charged, and its refund through the row of the error, which holds a hundred
times the slack symbol of the floor, counts. -/
theorem soft_constraint_may_leave_trace :
    ¬∀ (store : Store Float) (commands : List (Command Float)), FiniteInputs store commands →
      (∀ error ∈ Session.errors ⟨∅, store⟩ commands,
        error = none ∨ error = some .unsatisfiableConstraint) →
      let s := (Session.run ⟨∅, store⟩ commands).solver
      (∀ entry ∈ s.postings.toList, entry.2.constraint.isRequired = true) →
        s.tableau.objective.isConstant = true := by
  intro all
  have fine : ∀ error ∈ Session.errors ⟨∅, {}⟩ faintWish,
      error = none ∨ error = some .unsatisfiableConstraint := by decide +kernel
  have paid := all {} faintWish (finiteInputs_of_all (by decide +kernel)) fine
  revert paid
  decide +kernel

/-! ## Exact arithmetic -/

section Exact
open Separation Solutions ExactRows Pricing FaithfulRuns
open scoped Exact

variable {s : Solver Rat} {ρ : Valuation}

theorem charges_of_strict (orderly : Orderly s) (strict : Strict s.postings) :
    charges s.postings ρ = 0 := by
  refine List.sum_eq_zero fun x member => ?_
  obtain ⟨⟨h, p⟩, held, rfl⟩ := List.mem_map.mp member
  have found : s.postings.find? h = some p := mem_toList_iff.mp held
  simp [Pricing.charge, tag_errors orderly found (strict (h, p) held)]

/-- In exact arithmetic soft constraints leave no trace: after every run without internal errors at the
end of which every constraint is required, the objective has no cells. -/
theorem soft_constraints_leave_no_trace (store : Store Rat) (commands : List (Command Rat))
    (untroubled : Untroubled ⟨∅, store⟩ commands)
    (built : Throughout (Allowed Built fun _ _ => True) ⟨∅, store⟩ commands) :
    Paid (Session.run ⟨∅, store⟩ commands).solver := by
  intro strict
  obtain ⟨faithful, measured⟩ := run_carries measured_carried store untroubled built
  obtain ⟨k, level⟩ := measured.level
  have tidy := faithful.orderly.tidy
  have flat : ∀ μ, eval (Session.run ⟨∅, store⟩ commands).solver.tableau.objective μ = k := by
    intro μ
    rw [← eval_complete tidy line_objective, level _ (solves_complete tidy μ),
      charges_of_strict faithful.orderly strict, zero_add]
  have pruned : Pruned (Session.run ⟨∅, store⟩ commands).solver.tableau.objective :=
    fun z x held => nearZero_eq_false.mp (run_significant store commands z x held)
  refine isConstant_iff.mpr fun z => (not_holds_iff_coefficient pruned).mpr ?_
  rw [coefficient_eq, flat, flat, sub_self]

end Exact

end Cassowary.SoftTraces
