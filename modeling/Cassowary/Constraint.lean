import Cassowary.Expression
import Cassowary.Strength

/-!
Constraints. A constraint compares an expression with zero and says how much the comparison matters.
Constraints are plain data; which posting of equal data is meant is the business of the solver.
-/

namespace Cassowary

inductive Relation where
  | lessOrEqual
  | equal
  | greaterOrEqual
  deriving DecidableEq, Repr

namespace Relation

def all : List Relation := [lessOrEqual, equal, greaterOrEqual]

/-- The sign that is written for a relation. -/
def sign : Relation → String
  | lessOrEqual => "<="
  | equal => "=="
  | greaterOrEqual => ">="

def name : Relation → String
  | lessOrEqual => "LessOrEqual"
  | equal => "Equal"
  | greaterOrEqual => "GreaterOrEqual"

def ofSign? (text : String) : Option Relation := all.find? (·.sign = text)

def ofName? (text : String) : Option Relation := all.find? (·.name = text)

@[simp] theorem ofSign?_sign (r : Relation) : ofSign? r.sign = some r := by
  cases r <;> rfl

end Relation

/-- The comparison of an expression with zero, at some strength. -/
structure Constraint (α : Type) where
  expression : Expression α
  relation : Relation
  strength : Strength α

namespace Constraint

variable {α : Type} [Scalar α]

/-- A constraint whose strength is brought into range. -/
def make (expression : Expression α) (relation : Relation) (strength : Strength α) : Constraint α :=
  ⟨expression, relation, strength.clip⟩

/-- The required constraint that two expressions are related. -/
def relate (left : Expression α) (relation : Relation) (right : Expression α) : Constraint α :=
  make (left - right) relation .required

def withStrength (c : Constraint α) (strength : Strength α) : Constraint α :=
  make c.expression c.relation strength

def isRequired (c : Constraint α) : Bool := c.strength.isRequired

/-- Whether the values in a store satisfy a constraint within the tolerance. -/
def isSatisfied (c : Constraint α) (store : Store α) : Bool :=
  let value := c.expression.value store
  match c.relation with
  | .lessOrEqual => decide (value ≤ Scalar.tolerance)
  | .equal => Scalar.nearZero value
  | .greaterOrEqual => decide (-Scalar.tolerance ≤ value)

end Constraint

end Cassowary
