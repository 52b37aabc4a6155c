import Cassowary.Constraint
import Cassowary.Tableau.Basic

/-!
What a solver reports while it works: pivots, and the constraints and edits that come and go.
-/

namespace Cassowary

inductive Event (α : Type) where
  | pivot (event : PivotEvent)
  /-- A constraint contradicts the required equations that are present. -/
  | unsatisfiable (constraint : Constraint α)
  /-- A constraint was withdrawn after the artificial phase failed. -/
  | rolledBack (constraint : Constraint α) (error : SolverError)
  | added (relation : Relation) (rows constraints : Nat)
  | removed (relation : Relation) (rows constraints : Nat)
  | editAdded (var : Variable) (strength : Strength α)
  | editRemoved (var : Variable)

/-- Pivots are traced, all else is reported for debugging. -/
def Event.isTrace {α : Type} : Event α → Bool
  | .pivot _ => true
  | _ => false

end Cassowary
