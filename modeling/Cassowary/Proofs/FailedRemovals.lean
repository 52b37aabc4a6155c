import Cassowary.Proofs.Removals

/-!
What a failed removal leaves behind. A removal strikes the constraint out of the books and takes back what
was charged for its errors before it looks for a row that its marker can leave through, and it keeps no
copy of what it has changed. When it fails the constraint is therefore gone and its variables are still
referred to, and the tableau is what the methods had made of it when they were stopped.
-/

namespace Cassowary.FailedRemovals
open Endings MapEntries Separation SolverBooks SessionBooks Upkeep Removals Tableau Solver

variable {α : Type} [Scalar α] {t : Tableau α} {z : Symbol} {s : Solver α} {h : Handle} {p : Posting α}

/-- A marker that cannot leave has not changed the tableau. -/
theorem evict_fails (zero : ZeroCounts α) : Ends (t.evict z) (fun _ => True)
    (fun error t' => error = .internal .noLeavingRow ∧ t' = t) := by
  obtain ⟨-, went⟩ | ⟨-, went⟩ | ⟨-, leaving, solved, went⟩ := evict_cases zero (t := t) (z := z)
  · rw [went]
    trivial
  · rw [went]
    exact ⟨rfl, rfl⟩
  · rw [went]
    trivial

/-- What is left of a tableau when the removal of a constraint has failed: only the objective has changed
if the marker could not leave, and else the methods have stopped on the rows without the constraint. -/
def Abandoned (t : Tableau α) (p : Posting α) (error : SolverError) (t' : Tableau α) : Prop :=
  error = .internal .noLeavingRow ∧ t' = t.refund p.tag p.constraint.strength.value ∨
    Stuck error ∧ t' = (settling (without t p)).state

theorem abandoned_internal {error : SolverError} {t' : Tableau α} (abandoned : Abandoned t p error t') :
    error.isInternal = true := by
  obtain ⟨rfl, -⟩ | ⟨rfl | rfl, -⟩ := abandoned <;> rfl

/-- A removal that fails has struck the constraint out and touched nothing else but the tableau. -/
theorem retract_fails (zero : ZeroCounts α) (orderly : Orderly s)
    (found : s.postings.find? h = some p) :
    Ends (s.retract h) (fun _ => True) (fun error s' =>
      s' = { s with postings := s.postings.erase h, tableau := s'.tableau } ∧
        Abandoned s.tableau p error s'.tableau) := by
  have evicted := evict_fails (t := s.tableau.refund p.tag p.constraint.strength.value)
    (z := p.tag.marker) zero
  have settled := settling_fails zero (without_tidy orderly found)
  unfold retract
  rw [found]
  dsimp only
  rw [ends_andThen, onTableau, ends_embed]
  refine ends_mono (ends_and (ends_of_state (P := fun t₁ => t₁ = Outcome.state _) rfl) evicted) ?_ ?_
  · rintro t₁ ⟨rfl, -⟩
    rw [ends_andThen, settle, onTableau, ends_embed]
    refine ends_mono (ends_and (ends_of_state (P := fun t₂ => t₂ = Outcome.state _) rfl) settled)
      (fun _ _ => trivial) ?_
    rintro error t₂ ⟨rfl, stuck⟩
    exact ⟨rfl, .inr ⟨stuck, rfl⟩⟩
  · rintro error t₁ ⟨-, missing, rfl⟩
    exact ⟨rfl, .inl ⟨missing, rfl⟩⟩

/-- In every state that calls on doubles lead to, a removal that fails leaves the solver as it was just
when the constraint was unknown to it. Any other failure is an internal error after which the constraint
is forgotten, its variables are still referred to and no edit has changed. When its marker could not
leave the rows and the queue are as they were and the charges for its errors are taken back; when the
methods failed, the tableau is what they made of the rows without it. -/
theorem failed_removal_forgets_constraint (store : Store Float) (commands : List (Command Float))
    (id : Nat) (error : SolverError)
    (failed : ((Session.run ⟨∅, store⟩ commands).solver.remove id).error? = some error) :
    let s := (Session.run ⟨∅, store⟩ commands).solver
    let s' := (s.remove id).state
    (s' = s ↔ error = .unknownConstraint) ∧ (error = .unknownConstraint ↔ s.contains id = false) ∧
      s'.contains id = false ∧
      ∀ p, s.postings.find? (.posted id) = some p → error.isInternal = true ∧
        s' = { s with postings := s.postings.erase (.posted id), tableau := s'.tableau } ∧
        Abandoned s.tableau p error s'.tableau ∧
        (error = .internal .noLeavingRow →
          s'.rows = s.rows ∧ s'.tableau.infeasible = s.tableau.infeasible) := by
  intro s s'
  have orderly : Orderly s := run_orderly store commands
  cases found : s.postings.find? (.posted id) with
  | none =>
    have refused : s.remove id = .fail s .unknownConstraint := by
      unfold remove retract
      rw [found]
    have same : s' = s := congrArg Outcome.state refused
    have unknown : error = .unknownConstraint := by
      have stopped : (s.remove id).error? = some .unknownConstraint := congrArg Outcome.error? refused
      exact Option.some.inj (failed.symm.trans stopped)
    have absent : s.contains id = false := not_contains_iff.mpr found
    refine ⟨⟨fun _ => unknown, fun _ => same⟩, ⟨fun _ => absent, fun _ => unknown⟩, ?_, ?_⟩
    · rw [same, absent]
    · rintro p ⟨⟩
  | some p =>
    have present : s.contains id = true := contains_of_find? found
    have forgotten : s'.contains id = false := by
      have postings : s'.postings = s.postings.erase (.posted id) := (retract_books _ _).2
      rw [contains, postings, not_contains_iff, OrderedMap.find?_erase, if_pos rfl]
    have changed : s' ≠ s := by
      intro same
      rw [same, present] at forgotten
      cases forgotten
    obtain ⟨books, abandoned⟩ :=
      ends_of_error_some (retract_fails float_zeroCounts orderly found) failed
    have internal := abandoned_internal abandoned
    have known : error ≠ .unknownConstraint := by
      rintro rfl
      cases internal
    refine ⟨⟨fun same => absurd same changed, fun unknown => absurd unknown known⟩,
      ⟨fun unknown => absurd unknown known, fun absent => ?_⟩, forgotten, ?_⟩
    · rw [present] at absent
      cases absent
    · rintro _ ⟨⟩
      refine ⟨internal, books, abandoned, ?_⟩
      rintro rfl
      have tableau : s'.tableau = s.tableau.refund p.tag p.constraint.strength.value := by
        obtain ⟨-, refunded⟩ | ⟨stuck, -⟩ := abandoned
        · exact refunded
        · obtain column | limit := stuck
          · cases column
          · cases limit
      constructor
      · show s'.tableau.rows.toList = _
        rw [tableau]
        rfl
      · rw [tableau]
        rfl

theorem steepFloor_stuck : ((Session.run ⟨∅, {}⟩ steepFloor).solver.remove 0).error? =
    some (.internal .noLeavingRow) := by
  decide +kernel

theorem failed_removal_forgets_constraint_steep :
    let s := (Session.run ⟨∅, {}⟩ steepFloor).solver
    let s' := (s.remove 0).state
    let error : SolverError := .internal .noLeavingRow
    (s.remove 0).error? = some error ∧
      (s' = s ↔ error = .unknownConstraint) ∧ (error = .unknownConstraint ↔ s.contains 0 = false) ∧
      s'.contains 0 = false ∧
      ∀ p, s.postings.find? (.posted 0) = some p → error.isInternal = true ∧
        s' = { s with postings := s.postings.erase (.posted 0), tableau := s'.tableau } ∧
        Abandoned s.tableau p error s'.tableau ∧
        (error = .internal .noLeavingRow →
          s'.rows = s.rows ∧ s'.tableau.infeasible = s.tableau.infeasible) :=
  ⟨steepFloor_stuck, failed_removal_forgets_constraint {} steepFloor 0 _ steepFloor_stuck⟩

/-- A failed removal may change the solver: the marker of the floor has no row to leave through, and the
solver no longer knows the floor. -/
theorem failed_removal_may_change_solver :
    ¬∀ (store : Store Float) (commands : List (Command Float)) (id : Nat) (error : SolverError),
      FiniteInputs store commands →
        let s := (Session.run ⟨∅, store⟩ commands).solver
        let s' := (s.remove id).state
        (s.remove id).error? = some error →
          s'.postings = s.postings ∧ s'.tableau = s.tableau ∧ s'.tracked = s.tracked ∧
            s'.edits = s.edits := by
  intro all
  obtain ⟨postings, -⟩ := all {} steepFloor 0 _ (finiteInputs_of_all (by decide +kernel)) steepFloor_stuck
  have known : ((Session.run ⟨∅, {}⟩ steepFloor).solver.remove 0).state.contains 0 = true := by
    rw [contains, postings]
    exact steepFloor_held
  revert known
  decide +kernel

end Cassowary.FailedRemovals
