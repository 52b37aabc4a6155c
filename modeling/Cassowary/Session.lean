import Cassowary.Solver.Edit

/-!
A solver at work beside the store of its variables, and the operations that callers drive it with. A
run is a list of commands; every state a caller can bring a solver into is the end of some run.
-/

namespace Cassowary

structure Session (α : Type) where
  solver : Solver α
  store : Store α

/-- The operations that change a solver or the values of the variables. -/
inductive Command (α : Type) where
  | add (id : Nat) (constraint : Constraint α)
  | addAll (constraints : List (Nat × Constraint α))
  | remove (id : Nat)
  | addEdit (var : Variable) (strength : Strength α)
  | setEdit (var : Variable) (strength : Strength α)
  | removeEdit (var : Variable)
  | suggest (var : Variable) (target : α)
  | update
  | reset
  | setValue (var : Variable) (value : α)

namespace Session

variable {α : Type} [Scalar α]

def empty : Session α := ⟨∅, {}⟩

instance : EmptyCollection (Session α) := ⟨empty⟩

/-- Lets an operation of the solver run and keeps the store. -/
def withSolver (session : Session α) (o : Outcome (Event α) (Solver α)) :
    Outcome (Event α) (Session α) :=
  o.embed (⟨·, session.store⟩) id

def step (session : Session α) : Command α → Outcome (Event α) (Session α)
  | .add id c => session.withSolver (session.solver.add id c)
  | .addAll constraints => session.withSolver (session.solver.addAll constraints)
  | .remove id => session.withSolver (session.solver.remove id)
  | .addEdit v strength => session.withSolver (session.solver.addEdit session.store v strength)
  | .setEdit v strength => session.withSolver (session.solver.setEdit session.store v strength)
  | .removeEdit v => session.withSolver (session.solver.removeEdit v)
  | .suggest v target => session.withSolver (session.solver.suggest v target)
  | .update => .ok { session with store := session.solver.update session.store }
  | .reset => .ok { session with solver := session.solver.reset }
  | .setValue v x => .ok { session with store := session.store.set v x }

/-- Carries out commands one after the other, whatever errors they meet. -/
def run (session : Session α) (commands : List (Command α)) : Session α :=
  commands.foldl (fun session command => (session.step command).state) session

/-- The errors that the commands of a run meet, one entry for each command. -/
def errors (session : Session α) : List (Command α) → List (Option SolverError)
  | [] => []
  | command :: rest =>
    let o := session.step command
    o.error? :: o.state.errors rest

end Session

end Cassowary
