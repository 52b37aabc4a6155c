import Cassowary.Solver.Event
import Cassowary.Tableau.Dual
import Cassowary.Tableau.Marker
import Cassowary.Tableau.Primal

/-!
The state of a solver: the tableau together with what each of its symbols stands for. Every constraint
in the solver owns the symbols of its tag, and every variable that a constraint refers to owns an
external symbol for as long as it is referred to.
-/

namespace Cassowary

/-- Which posting of a constraint is meant. Equal constraints posted under different handles are
different, and the constraint behind an edit is known to the solver alone. -/
inductive Handle where
  | posted (id : Nat)
  | edit (serial : Nat)
  deriving DecidableEq, Repr

/-- The symbols a constraint brings into the tableau. The marker leads back to the constraint. -/
structure Tag where
  marker : Symbol
  other : Option Symbol := none
  deriving DecidableEq, Repr

def Tag.symbols (tag : Tag) : List Symbol := tag.marker :: tag.other.toList

/-- The symbols that measure a violation and are charged for in the objective. -/
def Tag.errors (tag : Tag) : List Symbol := tag.symbols.filter Symbol.isError

/-- A constraint in the solver. -/
structure Posting (α : Type) where
  constraint : Constraint α
  tag : Tag

/-- A variable that constraints in the solver refer to, with the number of terms that do. -/
structure Tracked where
  symbol : Symbol
  uses : Nat
  deriving DecidableEq, Repr

/-- An edit: the constraint that holds a variable at its target. -/
structure Edit (α : Type) where
  tag : Tag
  handle : Handle
  target : α

structure Solver (α : Type) where
  /-- The number of symbols given out so far, which is the number of the newest. -/
  minted : Nat
  tableau : Tableau α
  postings : OrderedMap Handle (Posting α)
  tracked : OrderedMap Variable Tracked
  edits : OrderedMap Variable (Edit α)

namespace Solver

variable {α : Type} [Scalar α]

/-- A solver without constraints that has given out some symbols already. -/
def fresh (minted : Nat) : Solver α :=
  { minted, tableau := ∅, postings := ∅, tracked := ∅, edits := ∅ }

def empty : Solver α := fresh 0

instance : EmptyCollection (Solver α) := ⟨empty⟩

/-- Forgets everything but the numbers of the symbols, so that none is ever given out twice. -/
def reset (s : Solver α) : Solver α := fresh s.minted

/-- The resolved value of a variable, zero for one that no constraint refers to. -/
def value (s : Solver α) (v : Variable) : α :=
  (s.tracked.find? v).elim 0 fun entry => s.tableau.value entry.symbol

/-- Writes the resolved values of the tracked variables into a store. -/
def update (s : Solver α) (store : Store α) : Store α :=
  s.tracked.toList.foldl
    (fun store entry => store.set entry.1 (s.tableau.value entry.2.symbol)) store

def isFeasible (s : Solver α) : Bool := s.tableau.isFeasible

/-- The basic symbols and their rows, in order. -/
def rows (s : Solver α) : List (Symbol × Row α) := s.tableau.rows.toList

def contains (s : Solver α) (id : Nat) : Bool := s.postings.contains (.posted id)

/-- The number of constraints, those behind edits included. -/
def constraintCount (s : Solver α) : Nat := s.postings.size

def hasEdit (s : Solver α) (v : Variable) : Bool := s.edits.contains v

def editCount (s : Solver α) : Nat := s.edits.size

def mapTableau (s : Solver α) (f : Tableau α → Tableau α) : Solver α :=
  { s with tableau := f s.tableau }

/-- Lets a method work on the tableau. -/
def onTableau (s : Solver α) (f : Tableau α → Outcome PivotEvent (Tableau α)) :
    Outcome (Event α) (Solver α) :=
  (f s.tableau).embed (fun t => { s with tableau := t }) .pivot

/-- Makes the objective minimal and the tableau feasible again. -/
def settle (s : Solver α) : Outcome (Event α) (Solver α) :=
  s.onTableau fun t => (t.optimize .primary).andThen Tableau.dualOptimize

end Solver

end Cassowary
