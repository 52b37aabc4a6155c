import Cassowary.Proofs.RenumberedSolvers
import Cassowary.Session

/-!
Resetting. A reset leaves a solver that differs from a new one only by the count of symbols given out, so
it is a renumbered new one, and it stays so while both carry out the same commands on variables that
hold the same values. Nothing that happened before the reset, errors included, has any other effect.
-/

namespace Cassowary.Resets
open Solver

variable {α : Type} [Scalar α] {k : Nat} {session session' : Session α}

/-- One solver is the other renumbered, and every variable holds the same value in both stores. -/
structure Alike (k : Nat) (session session' : Session α) : Prop where
  solver : session'.solver = session.solver.raise k
  stored : ∀ v, session'.store.value v = session.store.value v

/-- Two operations end alike: with the same error if any, after events that differ by the numbers of
symbols only, in sessions that are alike. -/
structure EndAlike (k : Nat) (o o' : Outcome (Event α) (Session α)) : Prop where
  error? : o'.error? = o.error?
  events : o'.events = o.events.map (Event.raise k)
  state : Alike k o.state o'.state

/-- What callers see of two sessions is the same, but for the numbers of symbols, which are greater by
an offset. Rows and the cells of each are listed in the same order. -/
structure SameView (k : Nat) (session session' : Session α) : Prop where
  rows : session'.solver.rows =
    session.solver.rows.map fun entry => (entry.1.raise k, entry.2.raise k)
  feasible : session'.solver.isFeasible = session.solver.isFeasible
  constraintCount : session'.solver.constraintCount = session.solver.constraintCount
  constraints : ∀ id, session'.solver.contains id = session.solver.contains id
  editCount : session'.solver.editCount = session.solver.editCount
  edits : ∀ v, session'.solver.hasEdit v = session.solver.hasEdit v
  resolved : ∀ v, session'.solver.value v = session.solver.value v
  stored : ∀ v, session'.store.value v = session.store.value v

theorem sameView_of_alike (alike : Alike k session session') : SameView k session session' := by
  obtain ⟨solver, stored⟩ := alike
  constructor
  case stored => exact stored
  all_goals simp [solver, rows_raise, Prod.map]

/-- An operation of the solver that commutes with renumbering ends alike. -/
theorem withSolver_alike (alike : Alike k session session') {o o' : Outcome (Event α) (Solver α)}
    (renumbered : o' = o.embed (raise k) (Event.raise k)) :
    EndAlike k (session.withSolver o) (session'.withSolver o') := by
  subst renumbered
  refine ⟨rfl, ?_, rfl, alike.stored⟩
  simp [Session.withSolver, Outcome.embed]

theorem step_alike (alike : Alike k session session') (command : Command α) :
    EndAlike k (session.step command) (session'.step command) := by
  have solver := alike.solver
  have quiet {next next' : Session α} (after : Alike k next next') :
      EndAlike k (.ok next) (.ok next') := ⟨rfl, rfl, after⟩
  cases command with
  | add id c => exact withSolver_alike alike (by rw [solver, add_raise])
  | addAll constraints => exact withSolver_alike alike (by rw [solver, addAll_raise])
  | remove id => exact withSolver_alike alike (by rw [solver, remove_raise])
  | addEdit v strength =>
    exact withSolver_alike alike (by rw [solver, addEdit_raise (alike.stored v)])
  | setEdit v strength =>
    exact withSolver_alike alike (by rw [solver, setEdit_raise (alike.stored v)])
  | removeEdit v => exact withSolver_alike alike (by rw [solver, removeEdit_raise])
  | suggest v target => exact withSolver_alike alike (by rw [solver, suggest_raise])
  | update =>
    apply quiet
    refine ⟨solver, fun v => ?_⟩
    simp [solver, update_raise alike.stored]
  | reset =>
    apply quiet
    refine ⟨?_, alike.stored⟩
    rw [solver]
    rfl
  | setValue v x =>
    apply quiet
    refine ⟨solver, fun w => ?_⟩
    simp [alike.stored]

/-- Sessions that are alike meet the same errors and stay alike. -/
theorem run_alike (alike : Alike k session session') (commands : List (Command α)) :
    session'.errors commands = session.errors commands ∧
      Alike k (session.run commands) (session'.run commands) := by
  induction commands generalizing session session' with
  | nil => exact ⟨rfl, alike⟩
  | cons command rest ih =>
    have first := step_alike alike command
    obtain ⟨errors, later⟩ := ih first.state
    refine ⟨?_, later⟩
    simp only [Session.errors, first.error?, errors]

theorem reset_alike {store' : Store α} (same : ∀ v, session.store.value v = store'.value v) :
    Alike session.solver.minted ⟨∅, store'⟩ (session.step .reset).state :=
  ⟨fresh_eq_raise session.solver.minted, same⟩

/-- A run, a reset and another run: the second run is the run of a new solver on variables that hold the
same values, whatever the arithmetic does and whatever happened before. It meets the same errors and
leads to the same solver, but that the number of every symbol is greater by the count of those given
out before. Any further command ends alike and reports the same events. -/
theorem reset_gives_fresh_solver (store store' : Store α) (before after : List (Command α))
    (same : ∀ v, (Session.run ⟨∅, store⟩ before).store.value v = store'.value v) :
    let k := (Session.run ⟨∅, store⟩ before).solver.minted
    let reset := Session.run ⟨∅, store⟩ (before ++ [.reset])
    let fresh : Session α := ⟨∅, store'⟩
    reset.errors after = fresh.errors after ∧
      (reset.run after).solver = (fresh.run after).solver.raise k ∧
      SameView k (fresh.run after) (reset.run after) ∧
      ∀ command, EndAlike k ((fresh.run after).step command) ((reset.run after).step command) := by
  intro k reset fresh
  have last : reset = ((Session.run ⟨∅, store⟩ before).step .reset).state := by
    simp [reset, Session.run]
  have start : Alike k fresh reset := by
    rw [last]
    exact reset_alike same
  obtain ⟨errors, alike⟩ := run_alike start after
  exact ⟨errors, alike.solver, sameView_of_alike alike, step_alike alike⟩

/-- A removal that fails and leaves its row behind, an edit, and a value given to the first variable. -/
def cluttered : List (Command Float) :=
  [.add 0 (.make ⟨[⟨⟨0, none⟩, 1e9⟩], 0⟩ .greaterOrEqual .required), .remove 0,
    .addEdit ⟨1, none⟩ .weak, .suggest ⟨1, none⟩ 6, .setValue ⟨0, none⟩ 4]

/-- An edit of the first variable against a ceiling. -/
def draggedUp : List (Command Float) :=
  [.addEdit ⟨0, none⟩ .strong, .add 0 (.relate (.ofVariable ⟨0, none⟩) .lessOrEqual (.ofScalar 5)),
    .suggest ⟨0, none⟩ 9, .update]

theorem reset_gives_fresh_solver_dragged :
    let store' := ({} : Store Float).set ⟨0, none⟩ 4
    (∀ v, (Session.run ⟨∅, {}⟩ cluttered).store.value v = store'.value v) ∧
      let k := (Session.run ⟨∅, {}⟩ cluttered).solver.minted
      let reset := Session.run ⟨∅, {}⟩ (cluttered ++ [.reset])
      let fresh : Session Float := ⟨∅, store'⟩
      reset.errors draggedUp = fresh.errors draggedUp ∧
        (reset.run draggedUp).solver = (fresh.run draggedUp).solver.raise k ∧
        SameView k (fresh.run draggedUp) (reset.run draggedUp) ∧
        ∀ command, EndAlike k ((fresh.run draggedUp).step command)
          ((reset.run draggedUp).step command) :=
  ⟨fun _ => rfl, reset_gives_fresh_solver {} _ cluttered draggedUp fun _ => rfl⟩

end Cassowary.Resets
