import Cassowary.Tableau.Basic
import Cassowary.Tableau.Pick

/-!
The dual simplex method. It assumes a minimal objective and repairs the queued rows one by one, each by
a column that keeps the objective minimal.
-/

namespace Cassowary.Tableau

variable {α : Type} [Scalar α]

/-- The columns that can repair a row, each with the rise of the objective it costs. -/
def repairPicks (t : Tableau α) (row : Row α) : List (Pick α) :=
  (row.cells.toList.filter fun cell => !cell.1.isDummy && Scalar.isPositive cell.2).map fun cell =>
    { ratio := t.objective.coefficient cell.1 / cell.2, symbol := cell.1 }

/-- The column that repairs an infeasible row at the least cost. -/
def repairingSymbol? (t : Tableau α) (row : Row α) : Option Symbol :=
  (Pick.best? (t.repairPicks row)).map Pick.symbol

/-- The first queued symbol that still heads a negative row, with its row and the rest of the queue. -/
def nextInfeasible? (rows : OrderedMap Symbol (Row α)) :
    List Symbol → Option (Symbol × Row α × List Symbol)
  | [] => none
  | s :: rest =>
    match rows.find? s with
    | none => nextInfeasible? rows rest
    | some row =>
      if Scalar.isNegative row.constant then some (s, row, rest) else nextInfeasible? rows rest

/-- Repairs queued rows until none is left, with at most as many pivots as the limit says. -/
def dualOptimizeWithin :
    Nat → Tableau α → List PivotEvent → Outcome PivotEvent (Tableau α)
  | limit, t, events =>
    match nextInfeasible? t.rows t.infeasible with
    | none => ⟨{ t with infeasible := [] }, none, events⟩
    | some (leaving, row, queue) =>
      let t := { t with infeasible := queue }
      match t.repairingSymbol? row with
      | none => ⟨t, some (.internal .noEnteringSymbol), events⟩
      | some entering =>
        match limit with
        | 0 => ⟨t, some (.internal .pivotLimit), events⟩
        | limit + 1 =>
          match (t.exchange entering leaving row).report (.dual entering leaving) with
          | ⟨next, none, reported⟩ => dualOptimizeWithin limit next (reported ++ events)
          | ⟨next, some error, reported⟩ => ⟨next, some error, reported ++ events⟩

/-- Makes a tableau with a minimal objective feasible again. -/
def dualOptimize (t : Tableau α) : Outcome PivotEvent (Tableau α) :=
  dualOptimizeWithin pivotLimit t []

end Cassowary.Tableau
