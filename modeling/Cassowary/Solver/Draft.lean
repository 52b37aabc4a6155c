import Cassowary.Solver.Basic

/-!
From a constraint to a tableau row and back. Drafting a constraint counts the references to its
variables, gives it a tag and charges its errors to the objective; withdrawing it takes all that back.
A term whose coefficient counts as zero takes part in neither.
-/

namespace Cassowary

/-- The terms of an expression that take part in a row. -/
def Expression.relevantTerms {α : Type} [Scalar α] (e : Expression α) : List (Term α) :=
  e.terms.filter fun term => !Scalar.nearZero term.coefficient

/-- A tag of the symbols after the newest. An inequality has a slack symbol, and an error symbol if it
may be violated; an equation has a dummy symbol, or two error symbols if it may be violated. -/
def Tag.mint (relation : Relation) (required : Bool) (minted : Nat) : Tag :=
  match relation, required with
  | .equal, true => { marker := ⟨minted + 1, .dummy⟩ }
  | .equal, false => { marker := ⟨minted + 1, .error⟩, other := some ⟨minted + 2, .error⟩ }
  | _, true => { marker := ⟨minted + 1, .slack⟩ }
  | _, false => { marker := ⟨minted + 1, .slack⟩, other := some ⟨minted + 2, .error⟩ }

/-- The cells by which the tag of a constraint turns its comparison into an equation with zero. -/
def Tag.cells {α : Type} [Scalar α] (relation : Relation) (tag : Tag) : List (Symbol × α) :=
  match relation, tag.other with
  | .lessOrEqual, none => [(tag.marker, 1)]
  | .lessOrEqual, some error => [(tag.marker, 1), (error, -1)]
  | .greaterOrEqual, none => [(tag.marker, -1)]
  | .greaterOrEqual, some error => [(tag.marker, -1), (error, 1)]
  | .equal, none => [(tag.marker, 1)]
  | .equal, some minus => [(tag.marker, -1), (minus, 1)]

namespace Tableau

variable {α : Type} [Scalar α]

/-- Adds a variable's multiple to a row. A basic variable stands for its own row. -/
def insertVariable (t : Tableau α) (row : Row α) (s : Symbol) (coefficient : α) : Row α :=
  match t.rows.find? s with
  | some basic => row.insertRow basic coefficient
  | none => row.insertSymbol s coefficient

/-- Charges the errors of a tag to the objective. -/
def charge (t : Tableau α) (tag : Tag) (weight : α) : Tableau α :=
  { t with objective := t.objective.insertCells (tag.errors.map fun error => (error, weight)) }

/-- Takes the errors of a tag out of the objective, whatever they are charged. -/
def discharge (t : Tableau α) (tag : Tag) : Tableau α :=
  { t with objective := tag.symbols.foldl Row.remove t.objective }

/-- Takes the charge for the errors of a tag back. A basic error was charged through its row. -/
def refund (t : Tableau α) (tag : Tag) (weight : α) : Tableau α :=
  { t with
    objective := tag.errors.foldl
      (fun objective error =>
        match t.rows.find? error with
        | some row => objective.insertRow row (-weight)
        | none => objective.insertSymbol error (-weight))
      t.objective }

end Tableau

namespace Solver

variable {α : Type} [Scalar α]

/-- Counts one more reference to a variable, which gets a symbol with the first. -/
def track (s : Solver α) (v : Variable) : Solver α × Symbol :=
  match s.tracked.find? v with
  | some entry =>
    ({ s with tracked := s.tracked.insert v { entry with uses := entry.uses + 1 } }, entry.symbol)
  | none =>
    let symbol : Symbol := ⟨s.minted + 1, .external⟩
    ({ s with minted := s.minted + 1, tracked := s.tracked.insert v ⟨symbol, 1⟩ }, symbol)

/-- Gives one reference to a variable up. With the last one its symbol goes, and the row of the symbol
with it: no other row holds a basic symbol, so the row says nothing but what the variable equals. -/
def untrack (s : Solver α) (v : Variable) : Solver α :=
  match s.tracked.find? v with
  | none => s
  | some entry =>
    if entry.uses ≤ 1 then
      { s with tracked := s.tracked.erase v, tableau := s.tableau.dropRow entry.symbol }
    else { s with tracked := s.tracked.insert v { entry with uses := entry.uses - 1 } }

/-- Gives up the references that an expression holds. -/
def release (s : Solver α) (e : Expression α) : Solver α :=
  e.relevantTerms.foldl (fun s term => s.untrack term.var) s

/-- Adds one term to a row under construction, with its variable's reference counted. -/
def insertTerm (state : Solver α × Row α) (term : Term α) : Solver α × Row α :=
  let tracked := state.1.track term.var
  (tracked.1, tracked.1.tableau.insertVariable state.2 tracked.2 term.coefficient)

/-- The row of an expression over the columns of the tableau, with its references counted. -/
def rowOf (s : Solver α) (e : Expression α) : Solver α × Row α :=
  e.relevantTerms.foldl insertTerm (s, .ofConstant e.constant)

/-- A constraint on its way into the solver. -/
structure Draft (α : Type) where
  solver : Solver α
  row : Row α
  tag : Tag

/-- Prepares a constraint: the row says that it holds, with a constant that is not negative. -/
def draft (s : Solver α) (c : Constraint α) : Draft α :=
  let built := s.rowOf c.expression
  let tag := Tag.mint c.relation c.isRequired built.1.minted
  let row := built.2.insertCells (tag.cells c.relation)
  { solver :=
      { built.1 with
        minted := built.1.minted + tag.symbols.length
        tableau := built.1.tableau.charge tag c.strength.value }
    row := if Scalar.isNegative row.constant then row.reverseSign else row
    tag }

/-- Takes a constraint that was drafted, and not brought in, back. -/
def withdraw (s : Solver α) (c : Constraint α) (tag : Tag) : Solver α :=
  (s.mapTableau (·.discharge tag)).release c.expression

/-- The symbol that a drafted row is solved for: its first variable, else a symbol of the tag that
keeps the constant from becoming negative. -/
def Draft.subject? (d : Draft α) : Option Symbol :=
  (d.row.cells.keys.find? Symbol.isExternal).or
    (d.tag.symbols.find? fun s => s.isPivotable && Scalar.isNegative (d.row.coefficient s))

end Solver

end Cassowary
