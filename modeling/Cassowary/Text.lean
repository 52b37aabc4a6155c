import Cassowary.Decimal.Layout
import Cassowary.Formula
import Cassowary.Solver.Event

/-!
The text of variables, expressions and constraints, and of what a solver reports. A variable is written
with the value it holds, so all texts depend on a store.
-/

namespace Cassowary

/-- A name as written. An anonymous variable goes by its number. -/
def Variable.label (v : Variable) : String := v.name.getD ("#" ++ v.id.repr)

def Variable.text (v : Variable) (store : Store Float) : String :=
  "Variable(" ++ v.label ++ ": " ++ NumberStyle.plain.render (store.value v) ++ ")"

def Term.text (t : Term Float) (store : Store Float) : String :=
  "Term \x7b variable: " ++ t.var.text store ++ ", coefficient: " ++
    NumberStyle.literal.render t.coefficient ++ " \x7d"

def Expression.text (e : Expression Float) (store : Store Float) : String :=
  "Expression \x7b terms: [" ++ ", ".intercalate (e.terms.map (·.text store)) ++ "], constant: " ++
    NumberStyle.literal.render e.constant ++ " \x7d"

def Constraint.text (c : Constraint Float) (store : Store Float) : String :=
  "Constraint \x7b expression: " ++ c.expression.text store ++ ", relation: " ++ c.relation.name ++
    ", strength: Strength(" ++ NumberStyle.literal.render c.strength.value ++ ") \x7d"

/-- The text of an operand that is not a bare number. -/
def Operand.text (e : Operand Float) (store : Store Float) : Except FormulaError String :=
  match e with
  | .scalar _ => .error .illTyped
  | .var v => .ok (v.text store)
  | .term t => .ok (t.text store)
  | .expression e => .ok (e.text store)

def PivotEvent.text : PivotEvent → String
  | primal entering leaving => "pivot: " ++ entering.name ++ " enters, " ++ leaving.name ++ " leaves"
  | dual entering leaving =>
    "dual pivot: " ++ entering.name ++ " enters, " ++ leaving.name ++ " leaves"
  | residueDropped column => "dropping residue " ++ column.name ++ " from the objective"

/-- The sizes of a solver, as they are reported. -/
private def sizes (rows constraints : Nat) : String :=
  " constraint (" ++ rows.repr ++ " rows, " ++ constraints.repr ++ " constraints)"

def Event.text (event : Event Float) (store : Store Float) : String :=
  match event with
  | .pivot event => event.text
  | .unsatisfiable c => "unsatisfiable constraint " ++ c.text store
  | .rolledBack c error => "rolled back constraint " ++ c.text store ++ ": " ++ error.message
  | .added relation rows constraints => "added " ++ relation.sign ++ sizes rows constraints
  | .removed relation rows constraints => "removed " ++ relation.sign ++ sizes rows constraints
  | .editAdded v strength =>
    "added edit variable " ++ v.text store ++ " at strength " ++
      NumberStyle.plain.render strength.value
  | .editRemoved v => "removed edit variable " ++ v.text store

/-- The record of an event: its level and its text. -/
def Event.record (event : Event Float) (store : Store Float) : String :=
  (if event.isTrace then "trace: " else "debug: ") ++ event.text store

end Cassowary
