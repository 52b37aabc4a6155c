import Cassowary.Solver.Insertion
import Cassowary.Solver.Removal

/-!
Edit variables. An edit holds a variable at a target by an equation that may be violated. Moving the
target shifts the constants of the rows that depend on the equation's errors and repairs feasibility
with the dual method, so nothing is solved anew.
-/

namespace Cassowary

namespace Tableau

variable {α : Type} [Scalar α]

/-- Moves the constant of one restricted row, which is queued if that makes it negative. -/
def shiftRow (t : Tableau α) (s : Symbol) (row : Row α) (delta : α) : Tableau α :=
  let row := row.addConstant delta
  { t with
    rows := t.rows.insert s row
    infeasible := if Scalar.isNegative row.constant then s :: t.infeasible else t.infeasible }

/-- Moves the constant of every row by its share of a column. Rows that this makes negative are queued,
the last of them to be looked at first. -/
def shiftColumn (t : Tableau α) (column : Symbol) (delta : α) : Tableau α :=
  let rows := t.rows.mapValues fun _ row =>
    let share := row.coefficient column
    if Scalar.nearZero share then row else row.addConstant (delta * share)
  let lowered := rows.toList.filter fun entry =>
    !Scalar.nearZero (entry.2.coefficient column) && violated entry.1 entry.2
  { t with rows, infeasible := (lowered.map Prod.fst).reverse ++ t.infeasible }

/-- Moves the target of an equation. If one of its errors is basic only that row moves, and otherwise
every row that holds the marker. -/
def shiftTarget (t : Tableau α) (tag : Tag) (delta : α) : Tableau α :=
  match t.rows.find? tag.marker with
  | some row => t.shiftRow tag.marker row (-delta)
  | none =>
    match tag.other.bind fun other => (t.rows.find? other).map (other, ·) with
    | some (other, row) => t.shiftRow other row delta
    | none => t.shiftColumn tag.marker delta

end Tableau

namespace Solver

variable {α : Type} [Scalar α]

/-- The equation by which an edit holds a variable at a target. -/
def editConstraint (v : Variable) (target : α) (strength : Strength α) : Constraint α :=
  .make (.ofVariable v - .ofScalar target) .equal strength

/-- Makes a variable editable. The edit starts at the value the variable has in the store. -/
def addEdit (s : Solver α) (store : Store α) (v : Variable) (strength : Strength α) :
    Outcome (Event α) (Solver α) :=
  if s.hasEdit v then .fail s .duplicateEditVariable
  else
    let strength := strength.clip
    if strength.isRequired then .fail s .badRequiredStrength
    else
      let target := store.value v
      let handle := Handle.edit s.minted
      (s.post handle (editConstraint v target strength)).andThen fun s =>
        match s.postings.find? handle with
        | none => .fail s (.internal .missingEdit)
        | some posting =>
          (Outcome.ok { s with edits := s.edits.insert v ⟨posting.tag, handle, target⟩ }).report
            (.editAdded v strength)

/-- Ends an edit and removes its equation. -/
def removeEdit (s : Solver α) (v : Variable) : Outcome (Event α) (Solver α) :=
  match s.edits.find? v with
  | none => .fail s .unknownEditVariable
  | some edit =>
    let missing (error : SolverError) :=
      if error = .unknownConstraint then .internal .missingEdit else error
    (({ s with edits := s.edits.erase v }.retract edit.handle).mapError missing).andThen fun s =>
      (Outcome.ok s).report (.editRemoved v)

/-- Makes a variable editable, after ending the edit it may have. -/
def setEdit (s : Solver α) (store : Store α) (v : Variable) (strength : Strength α) :
    Outcome (Event α) (Solver α) :=
  if s.hasEdit v then (s.removeEdit v).andThen (·.addEdit store v strength)
  else s.addEdit store v strength

/-- Moves the target of an edit. -/
def suggest (s : Solver α) (v : Variable) (target : α) : Outcome (Event α) (Solver α) :=
  match s.edits.find? v with
  | none => .fail s .unknownEditVariable
  | some edit =>
    let delta := target - edit.target
    let s := { s with edits := s.edits.insert v { edit with target } }
    (s.mapTableau (·.shiftTarget edit.tag delta)).onTableau Tableau.dualOptimize

end Solver

end Cassowary
