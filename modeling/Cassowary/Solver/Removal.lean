import Cassowary.Solver.Draft

/-!
Removing constraints. The charges for a constraint's errors leave the objective before any pivot, since
substitutions would carry them into other columns. Then the marker leaves the tableau, the second
symbol of the tag after it, and last the references to variables are given up.
-/

namespace Cassowary.Solver

variable {α : Type} [Scalar α]

/-- Removes the constraint that is posted under a handle. -/
def retract (s : Solver α) (handle : Handle) : Outcome (Event α) (Solver α) :=
  match s.postings.find? handle with
  | none => .fail s .unknownConstraint
  | some ⟨c, tag⟩ =>
    let s := { s with
      postings := s.postings.erase handle
      tableau := s.tableau.refund tag c.strength.value }
    (s.onTableau (·.evict tag.marker)).andThen fun s =>
      (s.mapTableau fun t => tag.other.elim t t.dropSymbol).settle.andThen fun s =>
        let s := s.release c.expression
        (Outcome.ok s).report (.removed c.relation s.rows.length s.constraintCount)

/-- Removes the constraint that was added under a number. -/
def remove (s : Solver α) (id : Nat) : Outcome (Event α) (Solver α) := s.retract (.posted id)

end Cassowary.Solver
