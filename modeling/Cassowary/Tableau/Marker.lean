import Cassowary.Tableau.Basic
import Cassowary.Tableau.Pick

/-!
Taking the marker of a constraint out of the tableau. A basic marker takes its row with it. Any other is
first pivoted into the basis through the row that least endangers feasibility: a restricted row that
shrinks with the marker, else a restricted row that grows with it, else a row of a variable.
-/

namespace Cassowary.Tableau

variable {α : Type} [Scalar α]

/-- The rows a marker occurs in. -/
def rowsHolding (t : Tableau α) (marker : Symbol) : List (Symbol × Row α) :=
  t.rows.toList.filter fun entry => !Scalar.nearZero (entry.2.coefficient marker)

/-- The restricted rows that shrink as the marker grows. -/
def shrinkingPicks (t : Tableau α) (marker : Symbol) : List (Pick α) :=
  ((t.rowsHolding marker).filter fun entry =>
    entry.1.isRestricted && Scalar.isNegative (entry.2.coefficient marker)).map fun entry =>
      { ratio := -entry.2.constant / entry.2.coefficient marker
        symbol := entry.1
        allDummies := entry.2.allDummies }

/-- The restricted rows that grow with the marker. -/
def growingPicks (t : Tableau α) (marker : Symbol) : List (Pick α) :=
  ((t.rowsHolding marker).filter fun entry =>
    entry.1.isRestricted && !Scalar.isNegative (entry.2.coefficient marker)).map fun entry =>
      { ratio := entry.2.constant / entry.2.coefficient marker
        symbol := entry.1
        allDummies := entry.2.allDummies }

/-- The last row of a variable that holds the marker. -/
def lastExternal? (t : Tableau α) (marker : Symbol) : Option Symbol :=
  (((t.rowsHolding marker).filter fun entry => entry.1.isExternal).map Prod.fst).getLast?

/-- The row through which a marker that is not basic leaves the tableau. -/
def markerRow? (t : Tableau α) (marker : Symbol) : Option (Symbol × Row α) := do
  let picked := (Pick.best? (t.shrinkingPicks marker)).or (Pick.best? (t.growingPicks marker))
  let symbol ← (picked.map Pick.symbol).or (t.lastExternal? marker)
  let row ← t.rows.find? symbol
  return (symbol, row)

/-- Takes a marker and the equation it stands for out of the tableau. -/
def evict (t : Tableau α) (marker : Symbol) : Outcome PivotEvent (Tableau α) :=
  if t.rows.contains marker then .ok (t.dropRow marker)
  else match t.markerRow? marker with
    | none => .fail t (.internal .noLeavingRow)
    | some (leaving, row) =>
      ((t.exchange marker leaving row).andThen fun t => .ok (t.dropRow marker)).report
        (.primal marker leaving)

end Cassowary.Tableau
