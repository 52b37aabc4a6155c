import Cassowary.Variable

/-!
Linear expressions. An expression is a list of weighted variables and a constant; terms keep the order
in which they were written and are not merged, so a variable may appear more than once. The operators
fix which operations the scalars undergo and in which order, since rounding makes that visible.
-/

namespace Cassowary

/-- A variable scaled by a coefficient. -/
structure Term (α : Type) where
  var : Variable
  coefficient : α

/-- The sum of some terms and a constant. -/
structure Expression (α : Type) where
  terms : List (Term α)
  constant : α

namespace Term

variable {α : Type} [Scalar α]

def ofVariable (v : Variable) : Term α := ⟨v, 1⟩

def value (t : Term α) (store : Store α) : α := store.value t.var * t.coefficient

def scale (t : Term α) (factor : α) : Term α := { t with coefficient := t.coefficient * factor }

/-- Dividing a term divides its coefficient. -/
def divide (t : Term α) (divisor : α) : Term α := { t with coefficient := t.coefficient / divisor }

instance : Neg (Term α) := ⟨fun t => { t with coefficient := -t.coefficient }⟩

instance : BEq (Term α) :=
  ⟨fun s t => s.var == t.var && s.coefficient == t.coefficient⟩

end Term

namespace Expression

variable {α : Type} [Scalar α]

def ofScalar (x : α) : Expression α := ⟨[], x⟩

def ofTerm (t : Term α) : Expression α := ⟨[t], 0⟩

def ofVariable (v : Variable) : Expression α := ofTerm (.ofVariable v)

def addTerm (e : Expression α) (v : Variable) (coefficient : α) : Expression α :=
  { e with terms := e.terms ++ [⟨v, coefficient⟩] }

def isConstant (e : Expression α) : Bool := e.terms.isEmpty

/-- The value of an expression. The sum of the terms starts from negative zero, which is neutral even
for signed zeros, and the constant is added last. -/
def value (e : Expression α) (store : Store α) : α :=
  e.terms.foldl (fun sum t => sum + t.value store) (-0) + e.constant

def scale (e : Expression α) (factor : α) : Expression α :=
  ⟨e.terms.map (·.scale factor), e.constant * factor⟩

/-- Dividing an expression multiplies it by the reciprocal. -/
def divide (e : Expression α) (divisor : α) : Expression α := e.scale (1 / divisor)

instance : Add (Expression α) := ⟨fun e f => ⟨e.terms ++ f.terms, e.constant + f.constant⟩⟩

instance : Neg (Expression α) := ⟨fun e => e.scale (-1)⟩

/-- Subtracting adds the negative. -/
instance : Sub (Expression α) := ⟨fun e f => e + -f⟩

instance : BEq (Expression α) := ⟨fun e f => e.terms == f.terms && e.constant == f.constant⟩

end Expression

end Cassowary
