import Cassowary.Proofs.FailedRemovals
import Cassowary.Proofs.SoftConstraints

/-!
Replacing an edit. The old edit is ended before the new one is looked at, so a replacement is not atomic:
where the new strength is refused the solver is left without the edit, just as ending it leaves it. The
refusal of a required strength is all that can go wrong with the second half short of an internal error,
since the equation of an edit has a handle of its own and is never refused.
-/

namespace Cassowary.EditReplacement
open Endings MapEntries Bookkeeping Drafting SolverBooks SessionBooks Upkeep Removals FailedRemovals
open SoftConstraints Solver

variable {α : Type} [Scalar α] {s : Solver α} {c : Constraint α} {h : Handle} {v : Variable}
  {edit : Edit α}

/-- The handle that the next edit's equation gets is free. -/
theorem edit_handle_free (orderly : Orderly s) : s.postings.find? (.edit s.minted) = none := by
  cases found : s.postings.find? (.edit s.minted) with
  | none => rfl
  | some p => exact absurd (orderly.books.postings.serial _ p found) (Nat.lt_irrefl _)

/-- Under a free handle, posting a constraint that is not required fails with internal errors only. -/
theorem post_soft_fails (units : UnitsCompare α) (orderly : Orderly s) (soft : c.isRequired = false)
    (free : s.postings.find? h = none) :
    Ends (s.post h c) (fun _ => True) (fun error _ => error.isInternal = true) := by
  obtain ⟨subject, -, entered⟩ := soft_enters units orderly soft
  have ending := draft_enter_ends (draft_tidy (c := c) orderly.tidy)
    (draft_over orderly.books.tracked orderly.tidy) subject
  unfold post
  rw [if_neg (by simp [not_contains_iff.mpr free])]
  dsimp only
  rw [ends_andThen, entered]
  refine ends_mono ending (fun s₁ _ => ?_) fun _ _ stopped => stopped.1
  rw [ends_andThen]
  exact ends_mono settle_ends (fun _ _ => trivial) fun _ _ stopped => stopped.1

/-- Beginning an edit is refused before anything has changed. -/
theorem addEdit_fails (units : UnitsCompare α) (orderly : Orderly s) (store : Store α) (v : Variable)
    (strength : Strength α) :
    Ends (s.addEdit store v strength) (fun _ => True) (fun error s' =>
      error.isInternal = true ∨ s' = s ∧ (error = .duplicateEditVariable ∧ s.hasEdit v = true ∨
        error = .badRequiredStrength ∧ strength.clip.isRequired = true)) := by
  unfold addEdit
  split
  · rename_i present
    exact .inr ⟨rfl, .inl ⟨rfl, present⟩⟩
  · dsimp only
    split
    · rename_i required
      exact .inr ⟨rfl, .inr ⟨rfl, required⟩⟩
    · rename_i notRequired
      have soft : (editConstraint v (store.value v) strength.clip).isRequired = false :=
        clip_clip_soft units (by simpa using notRequired)
      rw [ends_andThen]
      refine ends_mono (post_soft_fails units orderly soft (edit_handle_free orderly)) (fun s₁ _ => ?_)
        fun _ _ internal => .inl internal
      split
      · exact .inl rfl
      · trivial

/-- Ending an edit strikes it and its equation out. It fails with internal errors only. -/
theorem removeEdit_ends (zero : ZeroCounts α) (orderly : Orderly s)
    (found : s.edits.find? v = some edit) :
    Ends (s.removeEdit v)
      (fun s' => Orderly s' ∧ s'.edits = s.edits.erase v ∧
        s'.postings = s.postings.erase edit.handle)
      (fun error _ => error.isInternal = true) := by
  obtain ⟨target, strength, -, posted⟩ := orderly.books.edits.posted v edit found
  have erased := eraseEdit_orderly orderly v
  have retracted := ends_and (retract_ends erased (eraseEdit_unbacked orderly found))
    (retract_fails zero erased posted)
  unfold removeEdit
  rw [found]
  dsimp only
  rw [ends_andThen, ends_mapError]
  refine ends_mono retracted ?_ ?_
  · rintro s' ⟨⟨orderly', posting, tableau, -, rfl⟩, -⟩
    rw [ends_report, ends_ok]
    have shrinks := release_shrinks
      { s with edits := s.edits.erase v, postings := s.postings.erase edit.handle, tableau }
      posting.constraint.expression
    exact ⟨orderly', shrinks.edits, shrinks.postings⟩
  · rintro error s' ⟨-, -, abandoned⟩
    have internal := abandoned_internal abandoned
    split
    · rfl
    · exact internal

/-- In every state that calls on doubles lead to, a replacement of an edit that fails, but not with an
internal error, was asked for a required strength. If the variable had no edit then nothing at all has
changed. If it had one, then that edit has ended, exactly as ending it by itself leaves the solver: it
and its equation are gone, all other edits and constraints are as they were. -/
theorem refused_replacement_ends_edit (store : Store Float) (commands : List (Command Float))
    (v : Variable) (strength : Strength Float) (error : SolverError)
    (failed : ((Session.run ⟨∅, store⟩ commands).step (.setEdit v strength)).error? = some error)
    (external : error.isInternal = false) :
    let session := Session.run ⟨∅, store⟩ commands
    let s := session.solver
    let s' := (session.step (.setEdit v strength)).state.solver
    error = .badRequiredStrength ∧ strength.clip.isRequired = true ∧
      (s.hasEdit v = false → s' = s) ∧
      (s.hasEdit v = true → (s.removeEdit v).error? = none ∧ s' = (s.removeEdit v).state ∧
        s'.hasEdit v = false ∧ s'.editCount + 1 = s.editCount ∧
        s'.constraintCount + 1 = s.constraintCount ∧
        ∃ edit, s.edits.find? v = some edit ∧ s'.edits = s.edits.erase v ∧
          s'.postings = s.postings.erase edit.handle) := by
  intro session s s'
  have orderly : Orderly s := run_orderly store commands
  have stopped : (s.setEdit session.store v strength).error? = some error := failed
  have left : s' = (s.setEdit session.store v strength).state := rfl
  unfold setEdit at stopped left
  cases present : s.hasEdit v with
  | false =>
    rw [if_neg (by simp [present])] at stopped left
    have refused := ends_of_error_some
      (addEdit_fails float_unitsCompare orderly session.store v strength) stopped
    obtain internal | ⟨same, ⟨rfl, known⟩ | ⟨rfl, required⟩⟩ := refused
    · exact of_internal internal external
    · rw [present] at known
      cases known
    · exact ⟨rfl, required, fun _ => left.trans same, by simp⟩
  | true =>
    rw [if_pos present] at stopped left
    obtain ⟨edit, found⟩ := contains_iff.mp present
    obtain ⟨target, weight, -, posted⟩ := orderly.books.edits.posted v edit found
    have ended := removeEdit_ends float_zeroCounts orderly found
    cases fine : (s.removeEdit v).error? with
    | some cause =>
      have internal := ends_of_error_some ended fine
      rw [Outcome.andThen_error?, fine] at stopped
      cases stopped
      exact of_internal internal external
    | none =>
      obtain ⟨orderly₁, edits, postings⟩ := ends_of_error_none ended fine
      have gone : (s.removeEdit v).state.hasEdit v = false := by
        rw [hasEdit, edits, not_contains_iff, OrderedMap.find?_erase, if_pos rfl]
      rw [Outcome.andThen_error?, fine, Option.none_or] at stopped
      rw [Outcome.andThen, fine] at left
      have refused := ends_of_error_some
        (addEdit_fails float_unitsCompare orderly₁ session.store v strength) stopped
      obtain internal | ⟨same, ⟨rfl, known⟩ | ⟨rfl, required⟩⟩ := refused
      · exact of_internal internal external
      · rw [gone] at known
        cases known
      · have same : s' = (s.removeEdit v).state := left.trans same
        refine ⟨rfl, required, by simp, fun _ => ⟨rfl, same, ?_⟩⟩
        rw [same]
        refine ⟨gone, ?_, ?_, edit, found, edits, postings⟩
        · rw [editCount, edits]
          exact size_erase found
        · rw [constraintCount, postings]
          exact size_erase posted

/-- A floor, and an edit that drags the quantity above it. -/
def draggedAboveFloor : List (Command Float) :=
  [.add 0 (.relate (.ofVariable ⟨0, none⟩) .greaterOrEqual (.ofScalar 0)),
    .addEdit ⟨0, none⟩ .strong, .suggest ⟨0, none⟩ 7]

theorem draggedAboveFloor_refused :
    ((Session.run ⟨∅, {}⟩ draggedAboveFloor).step (.setEdit ⟨0, none⟩ .required)).error? =
      some .badRequiredStrength := by
  decide +kernel

theorem refused_replacement_ends_edit_dragged :
    let session := Session.run ⟨∅, {}⟩ draggedAboveFloor
    let v : Variable := ⟨0, none⟩
    let s := session.solver
    let s' := (session.step (.setEdit v .required)).state.solver
    (session.step (.setEdit v .required)).error? = some .badRequiredStrength ∧
      (s.hasEdit v = false → s' = s) ∧
      (s.hasEdit v = true → (s.removeEdit v).error? = none ∧ s' = (s.removeEdit v).state ∧
        s'.hasEdit v = false ∧ s'.editCount + 1 = s.editCount ∧
        s'.constraintCount + 1 = s.constraintCount ∧
        ∃ edit, s.edits.find? v = some edit ∧ s'.edits = s.edits.erase v ∧
          s'.postings = s.postings.erase edit.handle) :=
  ⟨draggedAboveFloor_refused,
    (refused_replacement_ends_edit {} draggedAboveFloor ⟨0, none⟩ .required .badRequiredStrength
      draggedAboveFloor_refused rfl).2.2⟩

/-- A replacement is not atomic: where a required strength is refused the edit is lost. -/
theorem replacement_may_lose_edit :
    ¬∀ (store : Store Float) (commands : List (Command Float)) (v : Variable)
      (strength : Strength Float) (error : SolverError),
      let session := Session.run ⟨∅, store⟩ commands
      let o := session.step (.setEdit v strength)
      o.error? = some error →
        o.state.solver.hasEdit v = session.solver.hasEdit v ∧
          o.state.solver.editCount = session.solver.editCount ∧
          o.state.solver.constraintCount = session.solver.constraintCount ∧
          o.state.solver.rows = session.solver.rows := by
  intro all
  have kept := (all {} draggedAboveFloor ⟨0, none⟩ .required _ draggedAboveFloor_refused).1
  revert kept
  decide +kernel

end Cassowary.EditReplacement
