import Cassowary.Tableau.Basic
import Cassowary.Tableau.Pick

/-!
The primal simplex method and the artificial phase built on it. The entering column is the oldest one
that improves the objective and ties among leaving rows go to the oldest symbol. The artificial phase
brings in a row that no symbol of its own can be solved for: a new symbol stands for the row, and the
row is satisfiable when that symbol can be driven to zero.
-/

namespace Cassowary.Tableau

variable {α : Type} [Scalar α]

/-- Which objective a pass makes minimal. -/
inductive Goal where
  | primary
  | artificial
  deriving DecidableEq, Repr

def objectiveRow? (t : Tableau α) : Goal → Option (Row α)
  | .primary => some t.objective
  | .artificial => t.artificial

/-- Takes a column out of one objective only. -/
def dropResidue (t : Tableau α) (s : Symbol) : Goal → Tableau α
  | .primary => { t with objective := t.objective.remove s }
  | .artificial => { t with artificial := t.artificial.map (·.remove s) }

/-- The oldest column that improves an objective. Dummy symbols never enter. -/
def enteringSymbol? (objective : Row α) : Option Symbol :=
  Symbol.oldest? <| (objective.cells.toList.filter fun cell =>
    !cell.1.isDummy && Scalar.isNegative cell.2).map Prod.fst

/-- The restricted rows that shrink as a symbol grows, each with the growth at which it reaches zero. -/
def leavingPicks (t : Tableau α) (entering : Symbol) : List (Pick α) :=
  (t.rows.toList.filter fun entry =>
    entry.1.isRestricted && Scalar.isNegative (entry.2.coefficient entering)).map fun entry =>
      { ratio := -entry.2.constant / entry.2.coefficient entering, symbol := entry.1 }

/-- The row that has to leave when a symbol enters. -/
def leavingRow? (t : Tableau α) (entering : Symbol) : Option (Symbol × Row α) := do
  let pick ← Pick.best? (t.leavingPicks entering)
  let row ← t.rows.find? pick.symbol
  return (pick.symbol, row)

/-- One round of the method, unless the objective is minimal already. Objectives are bounded below, so
a column without a leaving row carries nothing but rounding residue and is dropped. -/
def primalStep? (t : Tableau α) (goal : Goal) : Option (Outcome PivotEvent (Tableau α)) := do
  let objective ← t.objectiveRow? goal
  let entering ← enteringSymbol? objective
  match t.leavingRow? entering with
  | none => return (Outcome.ok (t.dropResidue entering goal)).report (.residueDropped entering)
  | some (leaving, row) =>
    return (t.exchange entering leaving row).report (.primal entering leaving)

/-- Repeats rounds until the objective is minimal, at most as many as the limit says. -/
def optimizeWithin (goal : Goal) :
    Nat → Tableau α → List PivotEvent → Outcome PivotEvent (Tableau α)
  | 0, t, events => ⟨t, some (.internal .pivotLimit), events⟩
  | limit + 1, t, events =>
    match t.primalStep? goal with
    | none => ⟨t, none, events⟩
    | some ⟨next, none, reported⟩ => optimizeWithin goal limit next (reported ++ events)
    | some ⟨next, some error, reported⟩ => ⟨next, some error, reported ++ events⟩

/-- Makes an objective minimal in a feasible tableau. -/
def optimize (t : Tableau α) (goal : Goal) : Outcome PivotEvent (Tableau α) :=
  optimizeWithin goal pivotLimit t []

/-- Ends the artificial phase: the artificial symbol leaves the basis, if it is still there, and is
dropped. A row that holds other symbols and none that may be pivoted cannot be satisfied. -/
def retireArtificial (t : Tableau α) (symbol : Symbol) : Outcome PivotEvent (Tableau α) :=
  match t.rows.find? symbol with
  | none => .ok (t.dropColumn symbol)
  | some row =>
    if row.isConstant then .ok (t.dropRow symbol)
    else match row.pivotable? with
      | none => .fail (t.dropRow symbol) .unsatisfiableConstraint
      | some entering =>
        (t.exchange entering symbol row).andThen fun t => .ok (t.dropColumn symbol)

/-- Brings in a row through an artificial symbol. The row is satisfiable when the least value of the
artificial objective counts as zero. -/
def enterArtificial (t : Tableau α) (symbol : Symbol) (row : Row α) :
    Outcome PivotEvent (Tableau α) :=
  let opened := { t with rows := t.rows.insert symbol row, artificial := some row }
  (opened.optimize .artificial).andThen fun t =>
    let residual := t.artificial.elim 0 Row.constant
    ({ t with artificial := none }.retireArtificial symbol).andThen fun t =>
      if Scalar.nearZero residual then .ok t else .fail t .unsatisfiableConstraint

end Cassowary.Tableau
