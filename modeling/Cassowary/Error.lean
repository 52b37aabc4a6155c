/-!
Why an operation of the solver fails. Six reasons concern the caller's input. The internal ones concern
the state of the tableau, and lowering a strength or trying again is the caller's decision in any case.
-/

namespace Cassowary

/-- A state of the tableau that an operation cannot go on from. -/
inductive InternalError where
  /-- A row was to be solved for a symbol it does not hold. -/
  | absentSymbol
  /-- No row can give way to the marker of a constraint that is removed. -/
  | noLeavingRow
  /-- No column can repair an infeasible row. -/
  | noEnteringSymbol
  /-- One pass made as many pivots as it may. -/
  | pivotLimit
  /-- An edit's own constraint is missing. -/
  | missingEdit
  deriving DecidableEq, Repr

inductive SolverError where
  | duplicateConstraint
  | unknownConstraint
  | duplicateEditVariable
  | unknownEditVariable
  | badRequiredStrength
  | unsatisfiableConstraint
  | internal (cause : InternalError)
  deriving DecidableEq, Repr

def InternalError.message : InternalError → String
  | .absentSymbol => "Solved for a symbol absent from the row"
  | .noLeavingRow => "Failed to find leaving row"
  | .noEnteringSymbol => "Dual optimize found no entering symbol"
  | .pivotLimit => "Pivot limit exceeded"
  | .missingEdit => "Edit constraint not in system"

def SolverError.message : SolverError → String
  | .duplicateConstraint => "The constraint has already been added to the solver"
  | .unknownConstraint => "The constraint is not in the solver"
  | .duplicateEditVariable => "The variable already has an active edit"
  | .unknownEditVariable => "The variable has no active edit"
  | .badRequiredStrength => "Edit variables cannot have required strength"
  | .unsatisfiableConstraint => "The constraint cannot be satisfied"
  | .internal cause => "Internal solver error: " ++ cause.message

/-- Internal errors report a defect of the solver and not of the caller's input. -/
def SolverError.isInternal : SolverError → Bool
  | .internal _ => true
  | _ => false

end Cassowary
