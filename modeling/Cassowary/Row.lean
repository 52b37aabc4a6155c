import Cassowary.OrderedMap
import Cassowary.Outcome
import Cassowary.Scalar
import Cassowary.Symbol

/-!
Rows of a tableau. A row is a constant and a coefficient for each of some symbols, and stored under a
basic symbol it says what that symbol equals. Merging a coefficient drops a cell that comes to count as
zero; scaling a row, as solving it does, never drops a cell.
-/

namespace Cassowary

structure Row (α : Type) where
  constant : α
  cells : OrderedMap Symbol α := ∅

namespace Row

variable {α : Type} [Scalar α]

def ofConstant (x : α) : Row α := { constant := x }

instance : Inhabited (Row α) := ⟨ofConstant 0⟩

/-- The coefficient of a symbol, zero for one that the row does not hold. -/
def coefficient (r : Row α) (s : Symbol) : α := r.cells.findD s 0

def holds (r : Row α) (s : Symbol) : Bool := r.cells.contains s

def isConstant (r : Row α) : Bool := r.cells.isEmpty

def allDummies (r : Row α) : Bool := r.cells.keys.all Symbol.isDummy

/-- The first symbol of the row that may enter the basis. -/
def pivotable? (r : Row α) : Option Symbol := r.cells.keys.find? Symbol.isPivotable

def addConstant (r : Row α) (x : α) : Row α := { r with constant := r.constant + x }

/-- Merges a coefficient into the cell of a symbol. A cell that comes to count as zero is dropped. -/
def insertSymbol (r : Row α) (s : Symbol) (x : α) : Row α :=
  let merged := r.coefficient s + x
  { r with cells := if Scalar.nearZero merged then r.cells.erase s else r.cells.insert s merged }

def insertUnit (r : Row α) (s : Symbol) : Row α := r.insertSymbol s 1

/-- Merges some cells, one after the other. -/
def insertCells (r : Row α) (cells : List (Symbol × α)) : Row α :=
  cells.foldl (fun row cell => row.insertSymbol cell.1 cell.2) r

def scale (r : Row α) (factor : α) : Row α :=
  ⟨r.constant * factor, r.cells.mapValues fun _ x => x * factor⟩

/-- Adds a multiple of another row. -/
def insertRow (r other : Row α) (factor : α) : Row α :=
  let scaled := other.scale factor
  (r.addConstant scaled.constant).insertCells scaled.cells.toList

def remove (r : Row α) (s : Symbol) : Row α := { r with cells := r.cells.erase s }

def reverseSign (r : Row α) : Row α := ⟨-r.constant, r.cells.mapValues fun _ x => -x⟩

/-- Solves the equation of the row with zero for one of its symbols: the cell is taken out and the rest
divided by its negative. A row without that symbol is left as it is, with an error. -/
def solveFor {ε : Type} (r : Row α) (s : Symbol) : Outcome ε (Row α) :=
  match r.cells.find? s with
  | none => .fail r (.internal .absentSymbol)
  | some x => .ok ((r.remove s).scale (-1 / x))

/-- Turns the row of a basic symbol into the row of one of its columns. -/
def solveForSymbols {ε : Type} (r : Row α) (basic column : Symbol) : Outcome ε (Row α) :=
  (r.insertSymbol basic (-1)).solveFor column

/-- Replaces a symbol by the row it equals. -/
def substitute (r : Row α) (s : Symbol) (other : Row α) : Row α :=
  match r.cells.find? s with
  | none => r
  | some x => (r.remove s).insertRow other x

@[simp] theorem coefficient_remove (r : Row α) (s other : Symbol) :
    (r.remove s).coefficient other = if s = other then 0 else r.coefficient other := by
  by_cases same : s = other <;> simp [remove, coefficient, OrderedMap.findD, same]

/-- Merging concerns one symbol only, and what is merged to nearly nothing counts as zero. -/
theorem coefficient_insertSymbol (r : Row α) (s other : Symbol) (x : α) :
    (r.insertSymbol s x).coefficient other =
      if s = other then
        if Scalar.nearZero (r.coefficient s + x) then 0 else r.coefficient s + x
      else r.coefficient other := by
  unfold insertSymbol
  by_cases small : Scalar.nearZero (r.coefficient s + x) = true <;>
    by_cases same : s = other <;>
    simp_all [coefficient, OrderedMap.findD]

/-- A symbol that a row does not hold is replaced by leaving the row as it is. -/
theorem substitute_of_not_holds {r : Row α} {s : Symbol} (absent : r.holds s = false)
    (other : Row α) : r.substitute s other = r := by
  have missing : r.cells.find? s = none := by
    simpa [holds, OrderedMap.contains] using absent
  simp [substitute, missing]

/-- Two rows agree when their constants do and each symbol has equal cells in both, in any order. -/
instance : BEq (Row α) where
  beq r t := r.constant == t.constant && r.cells.size == t.cells.size &&
    r.cells.toList.all fun cell => (t.cells.find? cell.1).any (cell.2 == ·)

end Row

end Cassowary
