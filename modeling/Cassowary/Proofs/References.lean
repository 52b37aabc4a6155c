import Cassowary.Proofs.Conservation

/-!
Counting references. A variable is tracked for as long as a constraint in the solver refers to it, and
its count is the number of terms that do. The count goes up while a constraint is drafted, before
anything is decided, and comes down again when the constraint is refused or removed: both ways skip the
same terms, so that no count is ever off.
-/

namespace Cassowary.References
open Endings MapEntries Bookkeeping Drafting SolverBooks SessionBooks Conservation Solver

variable {α : Type} [Scalar α] {s : Solver α} {v : Variable} {term : Term α}

/-- The terms with a coefficient that counts by which the constraints in the solver refer to a variable,
as often as they are written. -/
def liveTerms (s : Solver α) (v : Variable) : List (Term α) :=
  (s.postings.values.flatMap fun p => p.constraint.expression.terms).filter fun term =>
    term.var = v && !Scalar.nearZero term.coefficient

theorem mem_liveTerms : term ∈ liveTerms s v ↔
    (∃ h p, s.postings.find? h = some p ∧ term ∈ p.constraint.expression.terms) ∧
      term.var = v ∧ Scalar.nearZero term.coefficient = false := by
  simp only [liveTerms, OrderedMap.values, List.mem_filter, List.mem_flatMap, List.mem_map,
    Bool.and_eq_true, decide_eq_true_eq, Bool.not_eq_true', OrderedMap.find?_eq_some_iff]
  refine and_congr_left fun _ => ?_
  constructor
  · rintro ⟨_, ⟨⟨h, p⟩, listed, rfl⟩, written⟩
    exact ⟨h, p, listed, written⟩
  · rintro ⟨h, p, listed, written⟩
    exact ⟨p, ⟨(h, p), listed, rfl⟩, written⟩

/-- The references to a variable are its live terms, constraint by constraint. -/
theorem references_eq_length (s : Solver α) (v : Variable) :
    references s.postings v = (liveTerms s v).length := by
  have own : ∀ e : Expression α, mentions e v =
      e.terms.countP fun term => term.var = v && !Scalar.nearZero term.coefficient := by
    intro e
    rw [mentions, Expression.relevantTerms, List.countP_filter]
  rw [liveTerms, ← List.countP_eq_length_filter, List.countP_flatMap, OrderedMap.values, List.map_map]
  simp only [references, total, own, Function.comp_def]

/-- Posting and retracting keep the accounts, and nothing else touches them. -/
theorem accounted_conserved : Conserved (Accounted (α := α)) where
  reset _ := fresh_accounted _
  numbers accounted _ := accounted
  edits _ accounted := accounted
  post _ standing accounted serial :=
    ends_mono (post_accounted standing.orderly accounted serial) (fun _ kept => kept) fun _ _ _ => trivial
  retract standing accounted unbacked :=
    ends_mono (retract_accounted standing.orderly accounted unbacked) (fun _ kept => kept)
      fun _ _ _ => trivial
  suggest v target _ accounted :=
    ends_mono (ends_of_state (suggest_accounted accounted v target)) (fun _ kept => kept)
      fun _ _ _ => trivial

/-- After every run without internal errors, whatever the arithmetic does, a variable is tracked just
when a constraint in the solver, be it one that backs an edit, has a term of it whose coefficient counts,
and its uses are the number of such terms in all constraints, repeated terms counted each time. -/
theorem reference_counts_are_exact (store : Store α) (commands : List (Command α))
    (untroubled : Untroubled ⟨∅, store⟩ commands) :
    let s := (Session.run ⟨∅, store⟩ commands).solver
    ∀ v, (s.tracked.contains v = true ↔
        ∃ h p, s.postings.find? h = some p ∧ ∃ term ∈ p.constraint.expression.terms,
          term.var = v ∧ Scalar.nearZero term.coefficient = false) ∧
      ∀ entry, s.tracked.find? v = some entry → entry.uses = (liveTerms s v).length := by
  intro s v
  have accounted : Accounted s :=
    (run_conserves accounted_conserved ⟨fresh_standing 0, fresh_accounted 0⟩ untroubled).2
  have referred : 0 < references s.postings v ↔
      ∃ h p, s.postings.find? h = some p ∧ ∃ term ∈ p.constraint.expression.terms,
        term.var = v ∧ Scalar.nearZero term.coefficient = false := by
    rw [references_eq_length, List.length_pos_iff_exists_mem]
    constructor
    · rintro ⟨term, live⟩
      obtain ⟨⟨h, p, found, written⟩, refers⟩ := mem_liveTerms.mp live
      exact ⟨h, p, found, term, written, refers⟩
    · rintro ⟨h, p, found, term, written, refers⟩
      exact ⟨term, mem_liveTerms.mpr ⟨⟨h, p, found, written⟩, refers⟩⟩
  rw [← referred, contains_iff]
  refine ⟨⟨?_, tracked_of_demand accounted⟩, ?_⟩
  · rintro ⟨entry, found⟩
    exact (demand_pos accounted found).2
  · intro entry found
    rw [← references_eq_length]
    exact (demand_pos accounted found).1

/-- A quantity that is written twice in one constraint, once with a coefficient that counts as zero and
once in an edit, while a constraint on it is refused and another one removed. -/
def writtenOften : List (Command Float) :=
  let x : Variable := ⟨0, none⟩
  let y : Variable := ⟨1, none⟩
  [.add 0 (.make ⟨[⟨x, 1⟩, ⟨y, 1⟩, ⟨x, 2⟩, ⟨y, 1e-9⟩], -6⟩ .lessOrEqual .required),
    .add 1 (.make ⟨[⟨x, 1⟩], -1⟩ .greaterOrEqual .required), .addEdit x .strong,
    .add 2 (.make ⟨[⟨x, 1⟩, ⟨x, 1⟩], 1⟩ .lessOrEqual .required),
    .add 3 (.make ⟨[⟨y, 1⟩], 2⟩ .equal .weak), .remove 1, .suggest x 1]

theorem writtenOften_untroubled : Untroubled ⟨∅, {}⟩ writtenOften :=
  untroubled_of_external (by decide +kernel)

theorem reference_counts_are_exact_often :
    Untroubled ⟨∅, {}⟩ writtenOften ∧
      let s := (Session.run ⟨∅, {}⟩ writtenOften).solver
      ∀ v, (s.tracked.contains v = true ↔
          ∃ h p, s.postings.find? h = some p ∧ ∃ term ∈ p.constraint.expression.terms,
            term.var = v ∧ Scalar.nearZero term.coefficient = false) ∧
        ∀ entry, s.tracked.find? v = some entry → entry.uses = (liveTerms s v).length :=
  ⟨writtenOften_untroubled, reference_counts_are_exact {} writtenOften writtenOften_untroubled⟩

end Cassowary.References
