import Mathlib.Tactic.Linarith
import Mathlib.Tactic.Ring
import Cassowary.Formula
import Cassowary.Proofs.Meaning
import Cassowary.Proofs.Tolerance

/-!
What formulas mean. The operators are told apart by the kinds of their operands, and each pair of kinds has
a rule of its own. Whatever the kinds are, an operator does to the values of its operands what its sign
says, so that a formula of any depth is worth its arithmetic value, and a constraint between two formulas
compares the difference of their values with the tolerance.
-/

namespace Cassowary.FormulaMeaning
open Meaning Tolerant

variable {e e' f' : Operand Rat} {f g left right : Formula Rat} {σ : Assignment} {v : Variable}
  {x : Rat}

/-! ## Values of expressions -/

theorem worth_ofScalar : worth (.ofScalar x) σ = x := by
  simp [worth, Expression.ofScalar]

theorem worth_ofTerm (t : Term Rat) : worth (.ofTerm t) σ = t.coefficient * σ t.var := by
  have nothing : (0 : Rat) = (Expression.ofTerm t).constant := rfl
  rw [worth, ← nothing]
  simp [Expression.ofTerm]

theorem worth_add (a b : Expression Rat) : worth (a + b) σ = worth a σ + worth b σ := by
  have terms : (a + b).terms = a.terms ++ b.terms := rfl
  have constant : (a + b).constant = a.constant + b.constant := rfl
  rw [worth, worth, worth, terms, constant, List.map_append, List.sum_append]
  ring

theorem worth_scale (a : Expression Rat) : worth (a.scale x) σ = worth a σ * x := by
  have scaled : ∀ terms : List (Term Rat),
      ((terms.map (·.scale x)).map fun t => t.coefficient * σ t.var).sum =
        (terms.map fun t => t.coefficient * σ t.var).sum * x := by
    intro terms
    induction terms with
    | nil => simp
    | cons t rest ih =>
      have own : (t.scale x).coefficient * σ (t.scale x).var = t.coefficient * x * σ t.var := rfl
      rw [List.map_cons, List.map_cons, List.sum_cons, List.map_cons, List.sum_cons, ih, own]
      ring
  have constant : (a.scale x).constant = a.constant * x := rfl
  have terms : (a.scale x).terms = a.terms.map (·.scale x) := rfl
  rw [worth, worth, terms, constant, scaled]
  ring

theorem worth_neg (a : Expression Rat) : worth (-a) σ = -worth a σ := by
  have negated : worth (-a) σ = worth a σ * -1 := worth_scale a
  rw [negated]
  ring

theorem worth_sub (a b : Expression Rat) : worth (a - b) σ = worth a σ - worth b σ := by
  have added : worth (a - b) σ = worth a σ + worth (-b) σ := worth_add a (-b)
  rw [added, worth_neg]
  ring

theorem worth_addTerm (a : Expression Rat) : worth (a.addTerm v x) σ = worth a σ + x * σ v := by
  simp only [worth, Expression.addTerm, List.map_append, List.sum_append, List.map_cons,
    List.map_nil, List.sum_cons, List.sum_nil]
  ring

/-! ## Kinds -/

inductive Kind where
  | number
  | var
  | term
  | expression
  deriving DecidableEq, Repr

/-- The kind of a multiple: that of a variable is a term. -/
def Kind.scaled : Kind → Kind
  | var => term
  | k => k

def kindOf : Operand Rat → Kind
  | .scalar _ => .number
  | .var _ => .var
  | .term _ => .term
  | .expression _ => .expression

/-- What the language admits, and what kind of operand each formula is. One side of a product is a number,
only a number is divided by, and only an expression takes more terms. Two numbers are not combined, as that
gives just another number. -/
inductive HasKind : Formula Rat → Kind → Prop where
  | scalar (x : Rat) : HasKind (.scalar x) .number
  | var (v : Variable) : HasKind (.var v) .var
  | term (v : Variable) (x : Rat) : HasKind (.term v x) .term
  | termOf (v : Variable) : HasKind (.termOf v) .term
  | constant (x : Rat) : HasKind (.constant x) .expression
  | linear (terms : List (Variable × Rat)) (x : Rat) : HasKind (.linear terms x) .expression
  | extended (terms : List (Variable × Rat)) (x : Rat) : HasKind (.extended terms x) .expression
  | expressionOf {f : Formula Rat} {k : Kind} (part : HasKind f k) :
      HasKind (.expressionOf f) .expression
  | neg {f : Formula Rat} {k : Kind} (part : HasKind f k) (linear : k ≠ .number) :
      HasKind (.neg f) k.scaled
  | add {f g : Formula Rat} {k l : Kind} (first : HasKind f k) (second : HasKind g l)
      (linear : k = .number → l ≠ .number) : HasKind (.add f g) .expression
  | sub {f g : Formula Rat} {k l : Kind} (first : HasKind f k) (second : HasKind g l)
      (linear : k = .number → l ≠ .number) : HasKind (.sub f g) .expression
  | mul {f g : Formula Rat} {k : Kind} (first : HasKind f k) (second : HasKind g .number)
      (linear : k ≠ .number) : HasKind (.mul f g) k.scaled
  | multiple {f g : Formula Rat} {k : Kind} (first : HasKind f .number) (second : HasKind g k)
      (linear : k ≠ .number) : HasKind (.mul f g) k.scaled
  | div {f g : Formula Rat} {k : Kind} (first : HasKind f k) (second : HasKind g .number)
      (linear : k ≠ .number) : HasKind (.div f g) k.scaled
  | addTerm {f : Formula Rat} (part : HasKind f .expression) (v : Variable) (x : Rat) :
      HasKind (.addTerm f v x) .expression

/-! ## Operators -/

/-- The value of an operand. -/
def valueOf (e : Operand Rat) (σ : Assignment) : Rat := worth e.toExpression σ

@[simp] theorem valueOf_scalar : valueOf (.scalar x) σ = x := worth_ofScalar

@[simp] theorem valueOf_var : valueOf (.var v) σ = σ v := by
  have one : valueOf (.var v) σ = 1 * σ v := worth_ofTerm ⟨v, 1⟩
  rw [one, one_mul]

@[simp] theorem valueOf_term (t : Term Rat) : valueOf (.term t) σ = t.coefficient * σ t.var :=
  worth_ofTerm t

@[simp] theorem valueOf_expression (a : Expression Rat) : valueOf (.expression a) σ = worth a σ := rfl

/-- The result is an operand of the given kind and value. -/
def Gives (σ : Assignment) (result : Except FormulaError (Operand Rat)) (k : Kind) (value : Rat) :
    Prop :=
  ∃ e, result = .ok e ∧ kindOf e = k ∧ valueOf e σ = value

theorem scale_gives (linear : kindOf e ≠ .number) :
    Gives σ (e.scale x) (kindOf e).scaled (valueOf e σ * x) := by
  cases e with
  | scalar y => exact absurd rfl linear
  | var v =>
    refine ⟨.term ⟨v, x⟩, rfl, rfl, ?_⟩
    rw [valueOf_term, valueOf_var]
    ring
  | term t =>
    refine ⟨.term (t.scale x), rfl, rfl, ?_⟩
    rw [valueOf_term, valueOf_term, Term.scale]
    ring
  | expression a => exact ⟨.expression (a.scale x), rfl, rfl, worth_scale a⟩

theorem neg_gives (linear : kindOf e ≠ .number) :
    Gives σ e.neg (kindOf e).scaled (-valueOf e σ) := by
  cases e with
  | scalar x => exact absurd rfl linear
  | var v =>
    refine ⟨.term ⟨v, -1⟩, rfl, rfl, ?_⟩
    rw [valueOf_term, valueOf_var]
    ring
  | term t =>
    refine ⟨.term (-t), rfl, rfl, ?_⟩
    have coefficient : (-t).coefficient = -t.coefficient := rfl
    rw [valueOf_term, valueOf_term, coefficient, neg_mul]
    rfl
  | expression a => exact ⟨.expression (-a), rfl, rfl, worth_neg a⟩

/-- Dividing a term and multiplying the others by the reciprocal come to the same. -/
theorem div_gives (linear : kindOf e ≠ .number) :
    Gives σ (e.div (.scalar x)) (kindOf e).scaled (valueOf e σ / x) := by
  cases e with
  | scalar y => exact absurd rfl linear
  | var v =>
    refine ⟨.term ⟨v, 1 / x⟩, rfl, rfl, ?_⟩
    rw [valueOf_term, valueOf_var]
    ring
  | term t =>
    refine ⟨.term (t.divide x), rfl, rfl, ?_⟩
    rw [valueOf_term, valueOf_term, Term.divide]
    ring
  | expression a =>
    refine ⟨.expression (a.divide x), rfl, rfl, ?_⟩
    rw [valueOf_expression, valueOf_expression, Expression.divide, worth_scale]
    ring

/-- Two operands that are not both numbers have a sum, in which a number on the left goes last. -/
theorem add_gives (linear : kindOf e = .number → kindOf e' ≠ .number) :
    Gives σ (e.add e') .expression (valueOf e σ + valueOf e' σ) := by
  have plain : Gives σ (.ok (.expression (e.toExpression + e'.toExpression))) .expression
      (valueOf e σ + valueOf e' σ) := ⟨_, rfl, rfl, worth_add _ _⟩
  cases e with
  | scalar x =>
    have swapped : Gives σ (.ok (.expression (e'.toExpression + .ofScalar x))) .expression
        (valueOf (.scalar x) σ + valueOf e' σ) :=
      ⟨_, rfl, rfl, (worth_add _ _).trans (add_comm _ _)⟩
    cases e' with
    | scalar y => exact absurd rfl (linear rfl)
    | var w => exact swapped
    | term t => exact swapped
    | expression b => exact swapped
  | var v => exact plain
  | term t => exact plain
  | expression a => exact plain

theorem sub_gives (linear : kindOf e = .number → kindOf e' ≠ .number) :
    Gives σ (e.sub e') .expression (valueOf e σ - valueOf e' σ) := by
  have plain : Gives σ (.ok (.expression (e.toExpression - e'.toExpression))) .expression
      (valueOf e σ - valueOf e' σ) := ⟨_, rfl, rfl, worth_sub _ _⟩
  cases e with
  | scalar x =>
    cases e' with
    | scalar y => exact absurd rfl (linear rfl)
    | var w => exact plain
    | term t => exact plain
    | expression b => exact plain
  | var v => exact plain
  | term t => exact plain
  | expression a => exact plain

theorem mul_scalar (e : Operand Rat) : e.mul (.scalar x) = e.scale x := by
  cases e <;> rfl

theorem scalar_mul (linear : kindOf e ≠ .number) : (Operand.scalar x).mul e = e.scale x := by
  cases e with
  | scalar y => exact absurd rfl linear
  | var v => rfl
  | term t => rfl
  | expression a => rfl

theorem eq_scalar_of_kindOf (number : kindOf e = .number) : ∃ x, e = .scalar x := by
  cases e with
  | scalar x => exact ⟨x, rfl⟩
  | var v => cases number
  | term t => cases number
  | expression a => cases number

theorem eq_expression_of_kindOf (kind : kindOf e = .expression) : ∃ a, e = .expression a := by
  cases e with
  | scalar x => cases kind
  | var v => cases kind
  | term t => cases kind
  | expression a => exact ⟨a, rfl⟩

/-! ## Formulas -/

/-- The arithmetic value of a formula, whatever the kinds of its parts. A quotient by zero counts as zero,
here and in the operators. -/
def arithmetic (σ : Assignment) : Formula Rat → Rat
  | .scalar x => x
  | .var v => σ v
  | .term v x => x * σ v
  | .termOf v => σ v
  | .constant x => x
  | .linear terms x => (terms.map fun t => t.2 * σ t.1).sum + x
  | .extended terms x => (terms.map fun t => t.2 * σ t.1).sum + x
  | .expressionOf f => arithmetic σ f
  | .neg f => -arithmetic σ f
  | .add f g => arithmetic σ f + arithmetic σ g
  | .sub f g => arithmetic σ f - arithmetic σ g
  | .mul f g => arithmetic σ f * arithmetic σ g
  | .div f g => arithmetic σ f / arithmetic σ g
  | .addTerm f v x => arithmetic σ f + x * σ v
  | .unreadable => 0

theorem worth_extended (terms : List (Variable × Rat)) (a : Expression Rat) :
    worth (terms.foldl (fun e t => e.addTerm t.1 t.2) a) σ =
      worth a σ + (terms.map fun t => t.2 * σ t.1).sum := by
  induction terms generalizing a with
  | nil => simp
  | cons t rest ih =>
    rw [List.foldl_cons, ih, worth_addTerm, List.map_cons, List.sum_cons]
    ring

/-- A formula that the language admits is worth an operand of its kind and of its arithmetic value. -/
theorem operand_gives {k : Kind} (admitted : HasKind f k) :
    Gives σ f.operand k (arithmetic σ f) := by
  induction admitted with
  | scalar x => exact ⟨_, rfl, rfl, valueOf_scalar⟩
  | var v => exact ⟨_, rfl, rfl, valueOf_var⟩
  | term v x => exact ⟨_, rfl, rfl, valueOf_term _⟩
  | termOf v => exact ⟨_, rfl, rfl, (valueOf_term _).trans (one_mul _)⟩
  | constant x => exact ⟨_, rfl, rfl, worth_ofScalar⟩
  | linear terms x =>
    refine ⟨_, rfl, rfl, ?_⟩
    rw [valueOf_expression, worth, List.map_map]
    rfl
  | extended terms x =>
    refine ⟨_, rfl, rfl, ?_⟩
    rw [valueOf_expression, worth_extended, worth_ofScalar]
    exact add_comm _ _
  | expressionOf part ih =>
    obtain ⟨e, ran, -, value⟩ := ih
    exact ⟨.expression e.toExpression, by rw [Formula.operand, ran]; rfl, rfl, value⟩
  | neg part linear ih =>
    obtain ⟨e, ran, rfl, value⟩ := ih
    obtain ⟨e', result, kind, amount⟩ := neg_gives linear
    refine ⟨e', by rw [Formula.operand, ran]; exact result, kind, ?_⟩
    rw [amount, value, arithmetic]
  | add first second linear ih ih' =>
    obtain ⟨e, ran, rfl, value⟩ := ih
    obtain ⟨f', ran', rfl, value'⟩ := ih'
    obtain ⟨e', result, kind, amount⟩ := add_gives linear
    refine ⟨e', by rw [Formula.operand, ran, ran']; exact result, kind, ?_⟩
    rw [amount, value, value', arithmetic]
  | sub first second linear ih ih' =>
    obtain ⟨e, ran, rfl, value⟩ := ih
    obtain ⟨f', ran', rfl, value'⟩ := ih'
    obtain ⟨e', result, kind, amount⟩ := sub_gives linear
    refine ⟨e', by rw [Formula.operand, ran, ran']; exact result, kind, ?_⟩
    rw [amount, value, value', arithmetic]
  | mul first second linear ih ih' =>
    obtain ⟨e, ran, rfl, value⟩ := ih
    obtain ⟨f', ran', number, value'⟩ := ih'
    obtain ⟨x, rfl⟩ := eq_scalar_of_kindOf number
    obtain ⟨e', result, kind, amount⟩ := scale_gives (x := x) linear
    refine ⟨e', by rw [Formula.operand, ran, ran']; exact (mul_scalar e).trans result, kind, ?_⟩
    rw [amount, value, arithmetic, ← value', valueOf_scalar]
  | multiple first second linear ih ih' =>
    obtain ⟨e, ran, number, value⟩ := ih
    obtain ⟨f', ran', rfl, value'⟩ := ih'
    obtain ⟨x, rfl⟩ := eq_scalar_of_kindOf number
    obtain ⟨e', result, kind, amount⟩ := scale_gives (x := x) linear
    refine ⟨e', by rw [Formula.operand, ran, ran']; exact (scalar_mul linear).trans result, kind,
      ?_⟩
    rw [amount, value', arithmetic, ← value, valueOf_scalar, mul_comm]
  | div first second linear ih ih' =>
    obtain ⟨e, ran, rfl, value⟩ := ih
    obtain ⟨f', ran', number, value'⟩ := ih'
    obtain ⟨x, rfl⟩ := eq_scalar_of_kindOf number
    obtain ⟨e', result, kind, amount⟩ := div_gives (x := x) linear
    refine ⟨e', by rw [Formula.operand, ran, ran']; exact result, kind, ?_⟩
    rw [amount, value, arithmetic, ← value', valueOf_scalar]
  | addTerm part v x ih =>
    obtain ⟨e, ran, kind, value⟩ := ih
    obtain ⟨a, rfl⟩ := eq_expression_of_kindOf kind
    refine ⟨.expression (a.addTerm v x), by rw [Formula.operand, ran]; rfl, rfl, ?_⟩
    rw [valueOf_expression, worth_addTerm, arithmetic, ← value, valueOf_expression]

/-! ### What is not admitted -/

theorem bind_ok {next : Operand Rat → Except FormulaError (Operand Rat)}
    {part : Except FormulaError (Operand Rat)} (ran : part >>= next = .ok e') :
    ∃ e, part = .ok e ∧ next e = .ok e' := by
  cases part with
  | error reason => cases ran
  | ok e => exact ⟨e, rfl, ran⟩

theorem kind_of_gives {k : Kind} {result : Except FormulaError (Operand Rat)}
    (gives : Gives σ result k x) (ran : result = .ok e) : k = kindOf e := by
  obtain ⟨_, went, rfl, -⟩ := gives
  cases went.symm.trans ran
  rfl

theorem scale_linear (ran : e.scale x = .ok e') : kindOf e ≠ .number := by
  intro number
  obtain ⟨y, rfl⟩ := eq_scalar_of_kindOf number
  cases ran

theorem neg_linear (ran : e.neg = .ok e') : kindOf e ≠ .number := by
  intro number
  obtain ⟨y, rfl⟩ := eq_scalar_of_kindOf number
  cases ran

theorem add_linear (ran : e.add f' = .ok e') : kindOf e = .number → kindOf f' ≠ .number := by
  intro number number'
  obtain ⟨y, rfl⟩ := eq_scalar_of_kindOf number
  obtain ⟨y', rfl⟩ := eq_scalar_of_kindOf number'
  cases ran

theorem sub_linear (ran : e.sub f' = .ok e') : kindOf e = .number → kindOf f' ≠ .number := by
  intro number number'
  obtain ⟨y, rfl⟩ := eq_scalar_of_kindOf number
  obtain ⟨y', rfl⟩ := eq_scalar_of_kindOf number'
  cases ran

theorem mul_linear (ran : e.mul f' = .ok e') :
    kindOf f' = .number ∧ kindOf e ≠ .number ∨ kindOf e = .number ∧ kindOf f' ≠ .number := by
  by_cases number : kindOf f' = .number
  · obtain ⟨y, rfl⟩ := eq_scalar_of_kindOf number
    rw [mul_scalar] at ran
    exact .inl ⟨number, scale_linear ran⟩
  · refine .inr ⟨?_, number⟩
    cases e with
    | scalar y => rfl
    | var v => cases f' <;> first | exact absurd rfl number | cases ran
    | term t => cases f' <;> first | exact absurd rfl number | cases ran
    | expression a => cases f' <;> first | exact absurd rfl number | cases ran

theorem div_linear (ran : e.div f' = .ok e') : kindOf e ≠ .number ∧ kindOf f' = .number := by
  have number : kindOf f' = .number := by
    cases f' with
    | scalar y => rfl
    | var v => cases e <;> cases ran
    | term t => cases e <;> cases ran
    | expression a => cases e <;> cases ran
  refine ⟨fun number' => ?_, number⟩
  obtain ⟨y, rfl⟩ := eq_scalar_of_kindOf number
  obtain ⟨y', rfl⟩ := eq_scalar_of_kindOf number'
  cases ran

theorem addTerm_linear (ran : e.addTerm v x = .ok e') :
    kindOf e = .expression ∧ kindOf e' = .expression := by
  cases e <;> cases ran
  exact ⟨rfl, rfl⟩

/-- The language admits just the formulas that are worth an operand, with its kind. -/
theorem hasKind_iff {k : Kind} : HasKind f k ↔ ∃ e, f.operand = .ok e ∧ kindOf e = k := by
  refine ⟨fun admitted => ?_, ?_⟩
  · obtain ⟨e, ran, kind, -⟩ := operand_gives (σ := 0) admitted
    exact ⟨e, ran, kind⟩
  · rintro ⟨e', ran, rfl⟩
    induction f generalizing e' with
    | scalar x => cases ran; exact .scalar x
    | var v => cases ran; exact .var v
    | term v x => cases ran; exact .term v x
    | termOf v => cases ran; exact .termOf v
    | constant x => cases ran; exact .constant x
    | linear terms x => cases ran; exact .linear terms x
    | extended terms x => cases ran; exact .extended terms x
    | expressionOf f ih =>
      obtain ⟨e, part, ran⟩ := bind_ok ran
      cases ran
      exact .expressionOf (ih e part)
    | neg f ih =>
      obtain ⟨e, part, ran⟩ := bind_ok ran
      have linear := neg_linear ran
      rw [← kind_of_gives (neg_gives (σ := 0) linear) ran]
      exact .neg (ih e part) linear
    | add f g ih ih' =>
      obtain ⟨e, part, ran⟩ := bind_ok ran
      obtain ⟨f', part', ran⟩ := bind_ok ran
      have linear := add_linear ran
      rw [← kind_of_gives (add_gives (σ := 0) linear) ran]
      exact .add (ih e part) (ih' f' part') linear
    | sub f g ih ih' =>
      obtain ⟨e, part, ran⟩ := bind_ok ran
      obtain ⟨f', part', ran⟩ := bind_ok ran
      have linear := sub_linear ran
      rw [← kind_of_gives (sub_gives (σ := 0) linear) ran]
      exact .sub (ih e part) (ih' f' part') linear
    | mul f g ih ih' =>
      obtain ⟨e, part, ran⟩ := bind_ok ran
      obtain ⟨f', part', ran⟩ := bind_ok ran
      rcases mul_linear ran with ⟨number, linear⟩ | ⟨number, linear⟩
      · obtain ⟨x, rfl⟩ := eq_scalar_of_kindOf number
        rw [mul_scalar] at ran
        rw [← kind_of_gives (scale_gives (σ := 0) linear) ran]
        exact .mul (ih e part) (ih' _ part') linear
      · obtain ⟨x, rfl⟩ := eq_scalar_of_kindOf number
        rw [scalar_mul linear] at ran
        rw [← kind_of_gives (scale_gives (σ := 0) linear) ran]
        exact .multiple (ih _ part) (ih' f' part') linear
    | div f g ih ih' =>
      obtain ⟨e, part, ran⟩ := bind_ok ran
      obtain ⟨f', part', ran⟩ := bind_ok ran
      obtain ⟨linear, number⟩ := div_linear ran
      obtain ⟨x, rfl⟩ := eq_scalar_of_kindOf number
      rw [← kind_of_gives (div_gives (σ := 0) linear) ran]
      exact .div (ih e part) (ih' _ part') linear
    | addTerm f v x ih =>
      obtain ⟨e, part, ran⟩ := bind_ok ran
      obtain ⟨expression, kind⟩ := addTerm_linear ran
      rw [kind]
      exact .addTerm (expression ▸ ih e part) v x
    | unreadable => cases ran

/-! ## Constraints between formulas -/

/-- What a relation demands of a difference, with the tolerance. -/
def Within : Relation → Rat → Prop
  | .lessOrEqual, d => d ≤ Scalar.tolerance
  | .equal, d => |d| < Scalar.tolerance
  | .greaterOrEqual, d => -Scalar.tolerance ≤ d

theorem isSatisfied_iff_within {c : Constraint Rat} {store : Store Rat} :
    c.isSatisfied store = true ↔ Within c.relation (worth c.expression store.value) := by
  have value : c.expression.value store = worth c.expression store.value :=
    (worth_eq_value store).symm
  unfold Constraint.isSatisfied Within
  dsimp only
  rw [value]
  cases c.relation <;> simp only [decide_eq_true_eq, nearZero_iff]

theorem relate_gives (linear : kindOf e ≠ .number) (relation : Relation) (e' : Operand Rat)
    (store : Store Rat) :
    ∃ c, e.relate relation e' = .ok c ∧ (c.isSatisfied store = true ↔
      Within relation (valueOf e store.value - valueOf e' store.value)) := by
  have run : e.relate relation e' =
      .ok (.relate e.toExpression relation e'.toExpression) := by
    cases e with
    | scalar x => exact absurd rfl linear
    | var v => rfl
    | term t => rfl
    | expression a => rfl
  refine ⟨_, run, ?_⟩
  rw [isSatisfied_iff_within]
  exact iff_of_eq (congrArg (Within relation) (worth_sub _ _))

/-- Formulas mean what they say: whatever two formulas the language admits, the left one not a bare
number, each relation gives a constraint between them, and it is satisfied just when the difference of
their arithmetic values is within the tolerance of what the relation demands. -/
theorem formulas_related {k l : Kind} (store : Store Rat) (admitted : HasKind left k)
    (linear : k ≠ .number) (admitted' : HasKind right l) :
    ∃ e f, left.operand = .ok e ∧ right.operand = .ok f ∧
      (∃ c, e.relate .lessOrEqual f = .ok c ∧ (c.isSatisfied store = true ↔
        arithmetic store.value left - arithmetic store.value right ≤ Scalar.tolerance)) ∧
      (∃ c, e.relate .equal f = .ok c ∧ (c.isSatisfied store = true ↔
        |arithmetic store.value left - arithmetic store.value right| < Scalar.tolerance)) ∧
      ∃ c, e.relate .greaterOrEqual f = .ok c ∧ (c.isSatisfied store = true ↔
        -Scalar.tolerance ≤ arithmetic store.value left - arithmetic store.value right) := by
  obtain ⟨e, ran, rfl, value⟩ := operand_gives (σ := store.value) admitted
  obtain ⟨f, ran', -, value'⟩ := operand_gives (σ := store.value) admitted'
  rw [← value, ← value']
  exact ⟨e, f, ran, ran', relate_gives linear .lessOrEqual f store,
    relate_gives linear .equal f store, relate_gives linear .greaterOrEqual f store⟩

/-- With two for `x` and three for `y`, `2 * x + y - (3 * x) / 2` exceeds `1 - y` by six. -/
theorem formulas_related_twoFormulas :
    let x : Variable := ⟨0, none⟩
    let y : Variable := ⟨1, none⟩
    let store : Store Rat := (({} : Store Rat).set x 2).set y 3
    let left : Formula Rat :=
      .sub (.addTerm (.mul (.scalar 2) (.expressionOf (.var x))) y 1) (.div (.term x 3) (.scalar 2))
    let right : Formula Rat := .add (.scalar 1) (.neg (.var y))
    HasKind left .expression ∧ HasKind right .expression ∧
      ∃ e f, left.operand = .ok e ∧ right.operand = .ok f ∧
        (∃ c, e.relate .lessOrEqual f = .ok c ∧ ¬c.isSatisfied store = true) ∧
        (∃ c, e.relate .equal f = .ok c ∧ ¬c.isSatisfied store = true) ∧
        ∃ c, e.relate .greaterOrEqual f = .ok c ∧ c.isSatisfied store = true := by
  intro x y store left right
  have admitted : HasKind left .expression :=
    .sub (.addTerm (.multiple (.scalar 2) (.expressionOf (.var x)) nofun) y 1)
      (.div (.term x 3) (.scalar 2) nofun) nofun
  have admitted' : HasKind right .expression :=
    .add (.scalar 1) (.neg (.var y) nofun) nofun
  have difference : arithmetic store.value left - arithmetic store.value right = 6 := by
    decide +kernel
  obtain ⟨e, f, ran, ran', ⟨c, low, less⟩, ⟨c', mid, equal⟩, c'', high, greater⟩ :=
    formulas_related store admitted nofun admitted'
  rw [difference] at less equal greater
  refine ⟨admitted, admitted', e, f, ran, ran', ⟨c, low, ?_⟩, ⟨c', mid, ?_⟩, c'', high, ?_⟩
  · rw [less]
    norm_num [Scalar.tolerance]
  · rw [equal]
    norm_num [Scalar.tolerance]
  · rw [greater]
    norm_num [Scalar.tolerance]

end Cassowary.FormulaMeaning
