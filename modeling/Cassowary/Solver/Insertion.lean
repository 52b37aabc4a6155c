import Cassowary.Solver.Draft

/-!
Adding constraints. A row with a subject is solved for it and enters the tableau at once; a row of dummy
symbols is redundant or contradicts what is required already; any other row needs the artificial phase.
A constraint that cannot be satisfied is withdrawn and leaves nothing behind but used-up numbers.
-/

namespace Cassowary.Solver

variable {α : Type} [Scalar α]

/-- Solves a drafted row for one of its symbols and makes that symbol basic. -/
def Draft.enter (d : Draft α) (subject : Symbol) : Outcome (Event α) (Solver α) :=
  let solved : Outcome (Event α) (Row α) := d.row.solveFor subject
  match solved.error? with
  | some error => .fail d.solver error
  | none => .ok (d.solver.mapTableau (·.enter subject solved.state))

/-- Brings a drafted row in through an artificial symbol, and withdraws it when that fails. -/
def Draft.enterArtificial (d : Draft α) (c : Constraint α) : Outcome (Event α) (Solver α) :=
  let s := { d.solver with minted := d.solver.minted + 1 }
  let entered := s.onTableau (·.enterArtificial ⟨s.minted, .slack⟩ d.row)
  match entered.error? with
  | none => entered
  | some error =>
    { entered with state := s.withdraw c d.tag }.report (.rolledBack c error)

/-- Brings a drafted row into the tableau. Where a row of dummies contradicts, no error was charged for,
so that withdrawing the draft only gives its references back. -/
def Draft.install (d : Draft α) (c : Constraint α) : Outcome (Event α) (Solver α) :=
  match d.subject? with
  | some subject => d.enter subject
  | none =>
    if !d.row.allDummies then d.enterArtificial c
    else if Scalar.nearZero d.row.constant then d.enter d.tag.marker
    else
      (Outcome.fail (d.solver.withdraw c d.tag) .unsatisfiableConstraint).report (.unsatisfiable c)

/-- Posts a constraint under a handle. -/
def post (s : Solver α) (handle : Handle) (c : Constraint α) : Outcome (Event α) (Solver α) :=
  if s.postings.contains handle then .fail s .duplicateConstraint
  else
    let d := s.draft c
    (d.install c).andThen fun s =>
      { s with postings := s.postings.insert handle ⟨c, d.tag⟩ }.settle.andThen fun s =>
        (Outcome.ok s).report (.added c.relation s.rows.length s.constraintCount)

/-- Adds a constraint under a number of the caller's choice. -/
def add (s : Solver α) (id : Nat) (c : Constraint α) : Outcome (Event α) (Solver α) :=
  s.post (.posted id) c

/-- Adds constraints one by one, up to the first error. -/
def addAll (s : Solver α) : List (Nat × Constraint α) → Outcome (Event α) (Solver α)
  | [] => .ok s
  | (id, c) :: rest => (s.add id c).andThen (addAll · rest)

end Cassowary.Solver
