import Cassowary.Row

/-!
The simplex tableau: a row for every basic symbol, the objective that is being kept minimal, and the
rows whose constants may have gone negative since they were last repaired. A basic symbol is meant to
occur in no row as a column, so a symbol enters the basis by being substituted everywhere first.
-/

namespace Cassowary

/-- What the pivoting methods report. -/
inductive PivotEvent where
  /-- A column entered the basis to improve an objective. -/
  | primal (entering leaving : Symbol)
  /-- A column entered the basis to repair an infeasible row. -/
  | dual (entering leaving : Symbol)
  /-- An objective column without a leaving row was dropped. -/
  | residueDropped (column : Symbol)
  deriving DecidableEq, Repr

structure Tableau (α : Type) where
  rows : OrderedMap Symbol (Row α)
  objective : Row α
  /-- The objective of the artificial phase, while it lasts. -/
  artificial : Option (Row α) := none
  /-- Restricted basic symbols to be looked at by the dual method, the next one first. -/
  infeasible : List Symbol := []

namespace Tableau

variable {α : Type} [Scalar α]

def empty : Tableau α := { rows := ∅, objective := .ofConstant 0 }

instance : EmptyCollection (Tableau α) := ⟨empty⟩

/-- The value of a symbol when every column is zero. -/
def value (t : Tableau α) (s : Symbol) : α := (t.rows.find? s).elim 0 Row.constant

/-- A restricted symbol whose row has a negative constant. -/
def violated (s : Symbol) (row : Row α) : Bool := s.isRestricted && Scalar.isNegative row.constant

/-- No restricted basic symbol is negative. -/
def isFeasible (t : Tableau α) : Bool := t.rows.toList.all fun entry => !violated entry.1 entry.2

/-- The basic symbols that are violated, in row order. -/
def violations (rows : OrderedMap Symbol (Row α)) : List Symbol :=
  (rows.toList.filter fun entry => violated entry.1 entry.2).map Prod.fst

/-- Replaces a symbol by a row in every row and objective. Each restricted row that is negative
afterwards is queued, the last of them to be looked at first. -/
def substitute (t : Tableau α) (s : Symbol) (row : Row α) : Tableau α :=
  let rows := t.rows.mapValues fun _ other => other.substitute s row
  { rows
    objective := t.objective.substitute s row
    artificial := t.artificial.map (·.substitute s row)
    infeasible := (violations rows).reverse ++ t.infeasible }

/-- Makes a symbol basic with a row that does not hold it. -/
def enter (t : Tableau α) (s : Symbol) (row : Row α) : Tableau α :=
  let t := t.substitute s row
  { t with rows := t.rows.insert s row }

/-- Takes the row of a basic symbol out of the tableau. -/
def dropRow (t : Tableau α) (s : Symbol) : Tableau α := { t with rows := t.rows.erase s }

/-- Takes a column out of every row and the objective. -/
def dropColumn (t : Tableau α) (s : Symbol) : Tableau α :=
  { t with rows := t.rows.mapValues fun _ row => row.remove s, objective := t.objective.remove s }

/-- Takes every trace of a symbol out of the tableau, as a row or as a column. -/
def dropSymbol (t : Tableau α) (s : Symbol) : Tableau α :=
  if t.rows.contains s then t.dropRow s else t.dropColumn s

/-- A pivot: the row of the leaving symbol is solved for the entering one, which takes its place in the
basis. -/
def exchange (t : Tableau α) (entering leaving : Symbol) (row : Row α) :
    Outcome PivotEvent (Tableau α) :=
  let rest := t.dropRow leaving
  let solved : Outcome PivotEvent (Row α) := row.solveForSymbols leaving entering
  match solved.error? with
  | some error => .fail rest error
  | none => .ok (rest.enter entering solved.state)

/-- A single pass may make this many pivots. -/
def pivotLimit : Nat := 65536

end Tableau

end Cassowary
