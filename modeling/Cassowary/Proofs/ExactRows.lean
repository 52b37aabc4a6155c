import Mathlib.Algebra.BigOperators.Ring.List
import Mathlib.Algebra.Order.BigOperators.Group.List
import Mathlib.Algebra.Order.Field.Basic
import Mathlib.Algebra.Order.Field.Rat
import Mathlib.Tactic.FieldSimp
import Mathlib.Tactic.Linarith
import Mathlib.Tactic.Ring
import Cassowary.Proofs.RowSymbols
import Cassowary.Proofs.MapEntries

/-!
Rows in exact arithmetic. Over the rationals with a tolerance of zero a row is an affine function of
the symbols: what every operation does to it is said once, by the value it gives to a valuation, and
constants and coefficients are read off that value.
-/

namespace Cassowary.Exact

/-- Rational arithmetic in which only zero counts as zero. -/
@[reducible]
scoped instance exact : Scalar Rat := Scalar.rational 0

end Cassowary.Exact

namespace Cassowary.ExactRows
open MapEntries RowSymbols
open scoped Exact

@[simp] theorem tolerance_eq : (Scalar.tolerance : Rat) = 0 := rfl

@[simp] theorem nearZero_iff {x : Rat} : Scalar.nearZero x = true ↔ x = 0 := by
  have notBoth : ¬(-0 < x ∧ x < 0) := fun both => by linarith
  simp only [Scalar.nearZero, tolerance_eq, Bool.or_eq_true, beq_iff_eq, Bool.and_eq_true,
    decide_eq_true_eq]
  exact or_iff_left notBoth

@[simp] theorem nearZero_eq_false {x : Rat} : Scalar.nearZero x = false ↔ x ≠ 0 := by
  rw [← Bool.not_eq_true, nearZero_iff]

@[simp] theorem isNegative_iff {x : Rat} : Scalar.isNegative x = true ↔ x < 0 := by
  simp [Scalar.isNegative]

@[simp] theorem isNegative_eq_false {x : Rat} : Scalar.isNegative x = false ↔ 0 ≤ x := by
  rw [← Bool.not_eq_true, isNegative_iff, not_lt]

@[simp] theorem isPositive_iff {x : Rat} : Scalar.isPositive x = true ↔ 0 < x := by
  simp [Scalar.isPositive]

/-- A value for every symbol. -/
abbrev Valuation := Symbol → Rat

/-- The value of a row: its constant and each symbol's value as often as its coefficient says. -/
def eval (r : Row Rat) (ρ : Valuation) : Rat :=
  r.constant + total (fun s x => x * ρ s) r.cells

/-- No cell of the row is zero. -/
def Pruned (r : Row Rat) : Prop := ∀ s x, r.cells.find? s = some x → x ≠ 0

variable {r other : Row Rat} {ρ σ : Valuation} {s z basic column : Symbol} {x : Rat}

theorem coefficient_of_find? (found : r.cells.find? s = some x) : r.coefficient s = x := by
  simp [Row.coefficient, OrderedMap.findD, found]

theorem holds_of_coefficient (present : r.coefficient s ≠ 0) : r.holds s = true := by
  by_contra absent
  exact present (coefficient_of_not_holds (by simpa using absent))

theorem holds_iff_coefficient (pruned : Pruned r) : r.holds s = true ↔ r.coefficient s ≠ 0 := by
  refine ⟨fun held => ?_, holds_of_coefficient⟩
  obtain ⟨x, found⟩ := holds_iff.mp held
  rw [coefficient_of_find? found]
  exact pruned s x found

theorem not_holds_iff_coefficient (pruned : Pruned r) :
    r.holds s = false ↔ r.coefficient s = 0 := by
  rw [← Bool.not_eq_true, holds_iff_coefficient pruned, not_not]

/-- Only the symbols that a row holds matter to its value. -/
theorem eval_congr (same : ∀ s, r.holds s = true → ρ s = σ s) : eval r ρ = eval r σ := by
  unfold eval
  refine congrArg (r.constant + ·) (total_congr fun s x found => ?_)
  rw [same s (holds_iff.mpr ⟨x, found⟩)]

/-- The share of one symbol in the value of a row. -/
theorem eval_split (r : Row Rat) (ρ : Valuation) (s : Symbol) :
    eval r ρ = r.constant + (r.coefficient s * ρ s +
      total (fun s x => x * ρ s) (r.cells.erase s)) := by
  unfold eval
  cases found : r.cells.find? s with
  | none =>
    rw [coefficient_of_not_holds (not_holds_iff.mpr found), erase_of_absent found]
    ring
  | some x => rw [coefficient_of_find? found, total_erase found]

theorem eval_update : eval r (Function.update ρ z x) = eval r ρ + r.coefficient z * (x - ρ z) := by
  have rest : total (fun s y => y * Function.update ρ z x s) (r.cells.erase z) =
      total (fun s y => y * ρ s) (r.cells.erase z) := by
    refine total_congr fun s y found => ?_
    have apart : s ≠ z := by
      rintro rfl
      simp at found
    rw [Function.update_of_ne apart]
  rw [eval_split r _ z, eval_split r ρ z, rest, Function.update_self]
  ring

theorem eval_zero : eval r 0 = r.constant := by
  have nothing : total (fun s y => y * (0 : Valuation) s) r.cells = 0 := by
    simp [total]
  rw [eval, nothing, add_zero]

/-- Constants and coefficients are values: at no symbol at all, and at one symbol alone. -/
theorem constant_eq : r.constant = eval r 0 := eval_zero.symm

theorem coefficient_eq : r.coefficient z = eval r (Function.update 0 z 1) - eval r 0 := by
  rw [eval_update]
  simp

@[simp] theorem eval_ofConstant : eval (.ofConstant x) ρ = x := by
  have nothing : total (fun s y => y * ρ s) (Row.ofConstant x).cells = 0 := rfl
  rw [eval, nothing, add_zero]
  rfl

@[simp] theorem eval_remove : eval (r.remove s) ρ = eval r ρ - r.coefficient s * ρ s := by
  rw [eval_split r ρ s, eval, Row.remove]
  ring

@[simp] theorem eval_scale : eval (r.scale x) ρ = eval r ρ * x := by
  have scaled : total (fun s y => y * x * ρ s) r.cells =
      total (fun s y => y * ρ s) r.cells * x := by
    rw [total, total, ← List.sum_map_mul_right]
    exact congrArg List.sum (List.map_congr_left fun cell _ => by ring)
  rw [eval, eval, Row.scale, total_mapValues]
  exact (congrArg (r.constant * x + ·) scaled).trans (by ring)

@[simp] theorem eval_reverseSign : eval r.reverseSign ρ = -eval r ρ := by
  have reversed : total (fun s y => -y * ρ s) r.cells = -total (fun s y => y * ρ s) r.cells := by
    rw [total, total, ← neg_one_mul, ← List.sum_map_mul_left]
    exact congrArg List.sum (List.map_congr_left fun cell _ => by ring)
  rw [eval, eval, Row.reverseSign, total_mapValues]
  exact (congrArg (-r.constant + ·) reversed).trans (by ring)

@[simp] theorem eval_addConstant : eval (r.addConstant x) ρ = eval r ρ + x := by
  unfold eval Row.addConstant
  ring

@[simp] theorem eval_insertSymbol : eval (r.insertSymbol s x) ρ = eval r ρ + x * ρ s := by
  rw [eval_split r ρ s]
  unfold eval Row.insertSymbol
  dsimp only
  split
  · rename_i zero
    have merged : x = -r.coefficient s := by
      have sum := nearZero_iff.mp zero
      linarith
    rw [merged]
    ring
  · rw [total_insert]
    ring

theorem eval_insertCells (cells : List (Symbol × Rat)) :
    eval (r.insertCells cells) ρ = eval r ρ + (cells.map fun cell => cell.2 * ρ cell.1).sum := by
  induction cells generalizing r with
  | nil => simp [Row.insertCells]
  | cons cell rest ih =>
    have step := ih (r := r.insertSymbol cell.1 cell.2)
    rw [eval_insertSymbol] at step
    rw [List.map_cons, List.sum_cons, ← add_assoc]
    exact step

@[simp] theorem eval_insertRow : eval (r.insertRow other x) ρ = eval r ρ + x * eval other ρ := by
  have scaled : eval (other.scale x) ρ = eval other ρ * x := eval_scale
  unfold Row.insertRow
  dsimp only
  rw [eval_insertCells, eval_addConstant, add_assoc]
  rw [eval] at scaled
  exact (congrArg (eval r ρ + ·) scaled).trans (by ring)

/-- Replacing a symbol by a row changes the value by what the two differ. -/
theorem eval_substitute : eval (r.substitute s other) ρ =
    eval r ρ + r.coefficient s * (eval other ρ - ρ s) := by
  unfold Row.substitute
  split
  · rename_i absent
    rw [coefficient_of_not_holds (not_holds_iff.mpr absent)]
    ring
  · rename_i y present
    rw [eval_insertRow, eval_remove, coefficient_of_find? present]
    ring

theorem constant_substitute : (r.substitute s other).constant =
    r.constant + r.coefficient s * other.constant := by
  rw [constant_eq, eval_substitute, eval_zero, eval_zero]
  simp

theorem coefficient_substitute : (r.substitute s other).coefficient z =
    (if z = s then 0 else r.coefficient z) + r.coefficient s * other.coefficient z := by
  rw [coefficient_eq, eval_substitute, eval_substitute, eval_update, eval_update]
  by_cases same : z = s
  · subst same
    simp only [Function.update_self, Pi.zero_apply, ↓reduceIte]
    ring
  · rw [Function.update_of_ne (Ne.symm same)]
    simp only [Pi.zero_apply, if_neg same]
    ring

/-! ## Cells that are not zero -/

theorem pruned_ofConstant : Pruned (.ofConstant x) := by
  rintro s y ⟨⟩

theorem pruned_remove (pruned : Pruned r) : Pruned (r.remove s) := by
  intro z y found
  rw [Row.remove, OrderedMap.find?_erase] at found
  split at found
  · cases found
  · exact pruned z y found

theorem pruned_scale (pruned : Pruned r) (nonzero : x ≠ 0) : Pruned (r.scale x) := by
  intro z y found
  rw [Row.scale, OrderedMap.find?_mapValues, Option.map_eq_some_iff] at found
  obtain ⟨y', held, rfl⟩ := found
  exact mul_ne_zero (pruned z y' held) nonzero

theorem pruned_reverseSign (pruned : Pruned r) : Pruned r.reverseSign := by
  intro z y found
  rw [Row.reverseSign, OrderedMap.find?_mapValues, Option.map_eq_some_iff] at found
  obtain ⟨y', held, rfl⟩ := found
  exact neg_ne_zero.mpr (pruned z y' held)

theorem pruned_insertSymbol (pruned : Pruned r) : Pruned (r.insertSymbol s x) := by
  intro z y found
  unfold Row.insertSymbol at found
  dsimp only at found
  split at found
  · exact pruned_remove pruned z y found
  · rename_i nonzero
    rw [OrderedMap.find?_insert] at found
    split at found
    · cases found
      exact fun zero => nonzero (nearZero_iff.mpr zero)
    · exact pruned z y found

theorem pruned_insertCells {cells : List (Symbol × Rat)} (pruned : Pruned r) :
    Pruned (r.insertCells cells) := by
  induction cells generalizing r with
  | nil => exact pruned
  | cons cell rest ih => exact ih (pruned_insertSymbol pruned)

theorem pruned_insertRow (pruned : Pruned r) : Pruned (r.insertRow other x) :=
  pruned_insertCells pruned

theorem pruned_substitute (pruned : Pruned r) : Pruned (r.substitute s other) := by
  unfold Row.substitute
  split
  · exact pruned
  · exact pruned_insertRow (pruned_remove pruned)

/-! ## Solving -/

/-- A row that equals zero says what each of its symbols equals. -/
theorem solveFor_exact {ε : Type} (present : r.coefficient s ≠ 0) :
    ∃ solved, (r.solveFor s : Outcome ε (Row Rat)) = .ok solved ∧
      (∀ ρ, eval solved ρ = ρ s - eval r ρ / r.coefficient s) ∧ (Pruned r → Pruned solved) := by
  obtain ⟨x, found⟩ := holds_iff.mp (holds_of_coefficient present)
  have same := coefficient_of_find? found
  rw [same] at present ⊢
  refine ⟨(r.remove s).scale (-1 / x), ?_, fun ρ => ?_, fun pruned => ?_⟩
  · unfold Row.solveFor
    rw [found]
  · rw [eval_scale, eval_remove, same]
    field_simp
    ring
  · exact pruned_scale (pruned_remove pruned) (div_ne_zero (by norm_num) present)

/-- The row of a basic symbol says what each of its columns equals. -/
theorem solveForSymbols_exact {ε : Type} (apart : column ≠ basic)
    (present : r.coefficient column ≠ 0) :
    ∃ solved, (r.solveForSymbols basic column : Outcome ε (Row Rat)) = .ok solved ∧
      (∀ ρ, eval solved ρ = ρ column + (ρ basic - eval r ρ) / r.coefficient column) ∧
      (Pruned r → Pruned solved) := by
  have unchanged : (r.insertSymbol basic (-1)).coefficient column = r.coefficient column := by
    rw [Row.coefficient_insertSymbol, if_neg (Ne.symm apart)]
  obtain ⟨solved, went, value, pruned⟩ :=
    solveFor_exact (ε := ε) (r := r.insertSymbol basic (-1)) (s := column)
      (by rwa [unchanged])
  refine ⟨solved, went, fun ρ => ?_, fun start => pruned (pruned_insertSymbol start)⟩
  rw [value, unchanged, eval_insertSymbol]
  ring

/-- Solving divides the constant by the negative of the column's coefficient. -/
theorem constant_of_solved {solved : Row Rat}
    (value : ∀ ρ, eval solved ρ = ρ column + (ρ basic - eval r ρ) / r.coefficient column) :
    solved.constant = -r.constant / r.coefficient column := by
  rw [constant_eq, value, eval_zero]
  simp only [Pi.zero_apply]
  ring

end Cassowary.ExactRows
