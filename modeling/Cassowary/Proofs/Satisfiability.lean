import Cassowary.Proofs.Lifting
import Cassowary.Proofs.Requirements

/-!
When a constraint is refused. Whatever satisfies a constraint along with the required ones is a solution
of its draft, and what posting it leaves behind satisfies them, so that a constraint is refused just when
it is required and nothing satisfies it along with the required ones.
-/

namespace Cassowary.Satisfiability
open Endings MapEntries Separation Bookkeeping Drafting SolverBooks SessionBooks ExactRows Solutions
open RatioTests ArtificialPhase Insertions Meaning Representations Fidelity FaithfulRuns Requirements
open Lifting Tableau Solver
open scoped Exact

variable {s s' : Solver Rat} {c d : Constraint Rat} {h : Handle} {tag : Tag} {σ : Assignment}

/-- The assignment satisfies all required constraints in the solver. -/
def Admitted (s : Solver Rat) (σ : Assignment) : Prop :=
  ∀ c tag, Live s c tag → c.isRequired = true → Satisfied c σ

/-- Posting puts one more constraint into the solver. -/
theorem live_posted (orderly : Orderly s) (free : s.postings.find? h = none)
    (posted : Posted s h c s') :
    Live s' d tag ↔ (d = c ∧ tag = (s.draft c).tag) ∨ Live s d tag := by
  have own : current s.edits h c = c := current_of_unbacked (free_unbacked orderly free)
  unfold Live
  rw [posted.postings, posted.edits]
  constructor
  · rintro ⟨g, p, found, rfl, rfl⟩
    rw [OrderedMap.find?_insert] at found
    split at found
    · rename_i same
      cases found
      exact .inl ⟨same ▸ own, rfl⟩
    · exact .inr ⟨g, p, found, rfl, rfl⟩
  · rintro (⟨rfl, rfl⟩ | ⟨g, p, found, rfl, rfl⟩)
    · exact ⟨h, ⟨_, _⟩, by simp, own.symm, rfl⟩
    · refine ⟨g, p, ?_, rfl, rfl⟩
      rw [OrderedMap.find?_insert, if_neg, found]
      rintro rfl
      rw [free] at found
      cases found

theorem admitted_posted (orderly : Orderly s) (free : s.postings.find? h = none)
    (posted : Posted s h c s') :
    Admitted s' σ ↔ (c.isRequired = true → Satisfied c σ) ∧ Admitted s σ := by
  unfold Admitted
  simp only [live_posted orderly free posted, or_imp, and_imp, forall_and, forall_eq_apply_imp_iff,
    forall_eq]

/-- A solver with a constraint on trial: its draft is in the books and its row is still to come. -/
def onTrial (s : Solver Rat) (h : Handle) (c : Constraint Rat) : Solver Rat :=
  { (s.draft c).solver with
    postings := (s.draft c).solver.postings.insert h ⟨c, (s.draft c).tag⟩ }

theorem onTrial_posted : Posted s h c (onTrial s h c) where
  postings := by
    rw [onTrial, draft_postings]
  edits := draft_edits
  tracked := rfl

theorem onTrial_orderly (orderly : Orderly s) (free : s.postings.find? h = none)
    (serial : ∀ k, h = .edit k → k ≤ s.minted) : Orderly (onTrial s h c) :=
  posted_orderly orderly free serial (le_refl _) (draft_tidy orderly.tidy)

/-- Whatever satisfies a constraint along with the required ones is a solution of its draft. -/
theorem admissible_draft (faithful : Faithful s) (free : s.postings.find? h = none)
    (serial : ∀ k, h = .edit k → k ≤ s.minted) (own : c.isRequired = true → Satisfied c σ)
    (admitted : Admitted s σ) :
    ∃ ρ, Admissible (s.draft c).solver.tableau ρ ∧ eval (s.draft c).row ρ = 0 := by
  have orderly := onTrial_orderly (c := c) faithful.orderly free serial
  have accounted : Accounted (onTrial s h c) :=
    posted_accounted faithful.accounted free onTrial_posted
  have satisfied : Admitted (onTrial s h c) σ :=
    (admitted_posted faithful.orderly free onTrial_posted).mpr ⟨own, admitted⟩
  obtain ⟨solves, zero⟩ := (draft_equations (ρ := lift (onTrial s h c) σ) faithful.orderly
    faithful.accounted faithful.represents free).mpr fun g p found => by
      rw [← onTrial_posted.postings] at found
      have equation := lift_equation orderly accounted satisfied found
      rwa [onTrial_posted.edits] at equation
  exact ⟨_, ⟨solves, fun z => lift_nonneg, fun z => lift_dummy orderly satisfied⟩, zero⟩

/-- The values of a settled solver satisfy all required constraints. -/
theorem admitted_value (faithful : Faithful s) (settled : Settled s.tableau) : Admitted s s.value :=
  (all_satisfied_iff faithful).mpr fun _ dummy => value_dummy settled dummy

/-- Posting refuses a constraint that is required and that nothing satisfies along with the other
required ones, and no other. -/
theorem post_unsatisfiable (faithful : Faithful s) (settled : Settled s.tableau)
    (free : s.postings.find? h = none) (serial : ∀ k, h = .edit k → k ≤ s.minted) :
    Ends (s.post h c)
      (fun _ => c.isRequired = true → ∃ σ, Satisfied c σ ∧ Admitted s σ)
      (fun error _ => error.isInternal = false → error = .unsatisfiableConstraint ∧
        c.isRequired = true ∧ ¬∃ σ, Satisfied c σ ∧ Admitted s σ) := by
  refine ends_mono (post_faithful faithful serial) ?_ ?_
  · rintro s' ⟨faithful', brought⟩ required
    have values := admitted_value faithful' (brought_settled settled brought)
    obtain ⟨own, others⟩ := (admitted_posted faithful.orderly free brought.posted).mp values
    exact ⟨s'.value, own required, others⟩
  · intro error s' left external
    obtain ⟨-, ⟨-, taken⟩ | ⟨rfl, -, refused⟩, -⟩ := left external
    · rw [not_contains_iff.mpr free] at taken
      cases taken
    · have never : ∀ σ, (c.isRequired = true → Satisfied c σ) → ¬Admitted s σ :=
        fun σ own admitted => by
          obtain ⟨ρ, admissible, zero⟩ := admissible_draft faithful free serial own admitted
          exact refused (draft_settled settled) ρ admissible zero
      refine ⟨rfl, ?_, fun ⟨σ, own, admitted⟩ => never σ (fun _ => own) admitted⟩
      by_contra soft
      exact never s.value (fun required => absurd required soft) (admitted_value faithful settled)

/-- After every run without internal errors that took out no required equation, adding a constraint
that is not in the solver reports it as unsatisfiable just when it is required and no assignment
satisfies it along with the required constraints, unless an internal error stops it. -/
theorem unsatisfiable_iff_infeasible (store : Store Rat) (commands : List (Command Rat))
    (untroubled : Untroubled ⟨∅, store⟩ commands)
    (allowed : Throughout (Allowed (fun _ => True) NotRequiredEquation) ⟨∅, store⟩ commands)
    (id : Nat) (c : Constraint Rat) :
    let s := (Session.run ⟨∅, store⟩ commands).solver
    s.contains id = false → (∀ cause, (s.add id c).error? ≠ some (.internal cause)) →
      ((s.add id c).error? = some .unsatisfiableConstraint ↔
        c.isRequired = true ∧ ¬∃ σ, Satisfied c σ ∧
          ∀ d tag, Live s d tag → d.isRequired = true → Satisfied d σ) := by
  intro s absent fine
  obtain ⟨faithful, settled⟩ := run_carries settled_carried_inequality store untroubled allowed
  have ends := post_unsatisfiable (c := c) faithful settled (not_contains_iff.mp absent)
    fun k same => by cases same
  cases stopped : (s.add id c).error? with
  | none =>
    refine ⟨(by cases ·), fun ⟨required, infeasible⟩ => ?_⟩
    exact absurd (ends_of_error_none ends stopped required) infeasible
  | some error =>
    have external : error.isInternal = false := external_of_ne fun cause same =>
      fine cause (stopped.trans (congrArg some same))
    obtain ⟨rfl, reason⟩ := ends_of_error_some ends stopped external
    exact ⟨fun _ => reason, fun _ => rfl⟩

/-- The left column may not be narrower than ten and then wider than five. -/
theorem unsatisfiable_iff_infeasible_dragged :
    let c : Constraint Rat := .relate (.ofVariable ⟨0, none⟩) .lessOrEqual (.ofScalar 5)
    let s := (Session.run ⟨∅, {}⟩ draggedColumns).solver
    Untroubled ⟨∅, {}⟩ draggedColumns ∧
      Throughout (Allowed (fun _ => True) NotRequiredEquation) ⟨∅, {}⟩ draggedColumns ∧
      s.contains 2 = false ∧ (∀ cause, (s.add 2 c).error? ≠ some (.internal cause)) ∧
      (s.add 2 c).error? = some .unsatisfiableConstraint ∧ c.isRequired = true ∧
        ¬∃ σ, Satisfied c σ ∧ ∀ d tag, Live s d tag → d.isRequired = true → Satisfied d σ := by
  intro c s
  have allowed : Throughout (Allowed (fun _ => True) NotRequiredEquation) ⟨∅, {}⟩ draggedColumns := by
    unfold draggedColumns
    exact ⟨trivial, trivial, trivial, trivial, trivial, trivial,
      notRequiredEquation_of_all (by decide +kernel), trivial, trivial⟩
  have absent : s.contains 2 = false := by decide +kernel
  have refused : (s.add 2 c).error? = some .unsatisfiableConstraint := by decide +kernel
  have fine : ∀ cause, (s.add 2 c).error? ≠ some (.internal cause) := by
    intro cause internal
    cases refused.symm.trans internal
  exact ⟨draggedColumns_untroubled, allowed, absent, fine, refused,
    (unsatisfiable_iff_infeasible {} _ draggedColumns_untroubled allowed 2 c absent fine).mp refused⟩

end Cassowary.Satisfiability
