import Cassowary.Constraint

/-!
Formulas: operator trees over numbers, variables, terms and expressions. A formula is worth an operand,
and which operators apply to which operands is part of the language. Two numbers are never combined,
products need a number on one side, and only a number can be divided by.
-/

namespace Cassowary

inductive Operand (α : Type) where
  | scalar (x : α)
  | var (v : Variable)
  | term (t : Term α)
  | expression (e : Expression α)

inductive FormulaError where
  /-- A part of the formula stands for nothing. -/
  | unreadable
  /-- An operator does not apply to its operands. -/
  | illTyped
  deriving DecidableEq, Repr

namespace Operand

variable {α : Type} [Scalar α]

def toExpression : Operand α → Expression α
  | scalar x => .ofScalar x
  | var v => .ofVariable v
  | term t => .ofTerm t
  | expression e => e

/-- The expression of an operand that is not a bare number. -/
def linear? : Operand α → Except FormulaError (Expression α)
  | scalar _ => .error .illTyped
  | e => .ok e.toExpression

def neg : Operand α → Except FormulaError (Operand α)
  | scalar _ => .error .illTyped
  | var v => .ok (term ⟨v, -1⟩)
  | term t => .ok (term (-t))
  | expression e => .ok (expression (-e))

/-- Addition. A number on the left is added on the right, so terms come first. -/
def add : Operand α → Operand α → Except FormulaError (Operand α)
  | scalar _, scalar _ => .error .illTyped
  | scalar x, f => .ok (expression (f.toExpression + .ofScalar x))
  | e, f => .ok (expression (e.toExpression + f.toExpression))

def sub : Operand α → Operand α → Except FormulaError (Operand α)
  | scalar _, scalar _ => .error .illTyped
  | e, f => .ok (expression (e.toExpression - f.toExpression))

/-- The multiple of an operand that is not a bare number. -/
def scale (x : α) : Operand α → Except FormulaError (Operand α)
  | scalar _ => .error .illTyped
  | var v => .ok (term ⟨v, x⟩)
  | term t => .ok (term (t.scale x))
  | expression e => .ok (expression (e.scale x))

def mul : Operand α → Operand α → Except FormulaError (Operand α)
  | e, scalar x => e.scale x
  | scalar x, f => f.scale x
  | _, _ => .error .illTyped

/-- Division by a number. A term is divided, while a variable and an expression are multiplied by the
reciprocal. -/
def div : Operand α → Operand α → Except FormulaError (Operand α)
  | var v, scalar x => .ok (term ⟨v, 1 / x⟩)
  | term t, scalar x => .ok (term (t.divide x))
  | expression e, scalar x => .ok (expression (e.divide x))
  | _, _ => .error .illTyped

/-- Appends a term, which only an expression can hold. -/
def addTerm (v : Variable) (x : α) : Operand α → Except FormulaError (Operand α)
  | expression e => .ok (expression (e.addTerm v x))
  | _ => .error .illTyped

/-- Equality of operands of one kind. -/
def equal? : Operand α → Operand α → Except FormulaError Bool
  | var v, var w => .ok (v == w)
  | term s, term t => .ok (s == t)
  | expression e, expression f => .ok (e == f)
  | _, _ => .error .illTyped

/-- The required constraint that relates an operand, not a bare number, to another. -/
def relate (left : Operand α) (relation : Relation) (right : Operand α) :
    Except FormulaError (Constraint α) := do
  return .relate (← left.linear?) relation right.toExpression

end Operand

inductive Formula (α : Type) where
  | scalar (x : α)
  | var (v : Variable)
  | term (v : Variable) (coefficient : α)
  /-- A variable as a term of coefficient one. -/
  | termOf (v : Variable)
  /-- A number as an expression. -/
  | constant (x : α)
  | linear (terms : List (Variable × α)) (constant : α)
  /-- An expression to which terms are appended one by one. -/
  | extended (terms : List (Variable × α)) (constant : α)
  | expressionOf (f : Formula α)
  | neg (f : Formula α)
  | add (f g : Formula α)
  | sub (f g : Formula α)
  | mul (f g : Formula α)
  | div (f g : Formula α)
  /-- An expression with one more term. -/
  | addTerm (f : Formula α) (v : Variable) (coefficient : α)
  /-- A part that could not be read. -/
  | unreadable

namespace Formula

variable {α : Type} [Scalar α]

instance : Inhabited (Formula α) := ⟨unreadable⟩

/-- The operand a formula is worth, evaluated from left to right up to the first error. -/
def operand : Formula α → Except FormulaError (Operand α)
  | scalar x => .ok (.scalar x)
  | var v => .ok (.var v)
  | term v x => .ok (.term ⟨v, x⟩)
  | termOf v => .ok (.term (.ofVariable v))
  | constant x => .ok (.expression (.ofScalar x))
  | linear terms x => .ok (.expression ⟨terms.map fun t => ⟨t.1, t.2⟩, x⟩)
  | extended terms x =>
    .ok (.expression (terms.foldl (fun e t => e.addTerm t.1 t.2) (.ofScalar x)))
  | expressionOf f => do return .expression (← f.operand).toExpression
  | neg f => do (← f.operand).neg
  | add f g => do
    let e ← f.operand
    e.add (← g.operand)
  | sub f g => do
    let e ← f.operand
    e.sub (← g.operand)
  | mul f g => do
    let e ← f.operand
    e.mul (← g.operand)
  | div f g => do
    let e ← f.operand
    e.div (← g.operand)
  | addTerm f v x => do (← f.operand).addTerm v x
  | unreadable => .error .unreadable

end Formula

end Cassowary
