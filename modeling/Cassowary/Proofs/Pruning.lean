import Mathlib.Algebra.Order.BigOperators.Group.List
import Mathlib.Algebra.BigOperators.Ring.List
import Mathlib.Tactic.Linarith
import Mathlib.Tactic.Ring
import Cassowary.Proofs.ExactRows
import Cassowary.Proofs.Tolerance

/-!
What rows lose by pruning. A merged coefficient within the tolerance is dropped with its cell, and the
value of the row then misses just that coefficient's share. Merging a row meets each of its symbols once,
so that a symbol is pruned at most once, even one that an earlier cell has brought back, and the total
loss is within the tolerance times the size of the valuation on that row.
-/

namespace Cassowary.Pruning
open ExactRows MapEntries RowSymbols Tolerant

variable {r other : Row Rat} {ρ : Valuation} {s z : Symbol} {x : Rat}

/-- The coefficient that merging `x` into the cell of a symbol drops, zero if the cell is kept. -/
def dropped (r : Row Rat) (s : Symbol) (x : Rat) : Rat :=
  if Scalar.nearZero (r.coefficient s + x) then r.coefficient s + x else 0

theorem abs_dropped_le : |dropped r s x| ≤ Scalar.tolerance := by
  unfold dropped
  split
  · rename_i small
    exact (nearZero_iff.mp small).le
  · rw [abs_zero]
    exact tolerance_pos.le

/-- What a merge drops depends on the one cell that it merges into. -/
theorem dropped_insertSymbol (apart : s ≠ z) :
    dropped (r.insertSymbol s x) z = dropped r z := by
  funext y
  unfold dropped
  rw [Row.coefficient_insertSymbol, if_neg apart]

theorem eval_insertSymbol :
    eval (r.insertSymbol s x) ρ = eval r ρ + x * ρ s - dropped r s x * ρ s := by
  have split : eval r ρ = r.constant + (r.coefficient s * ρ s +
      total (fun s x => x * ρ s) (r.cells.erase s)) := eval_split r ρ s
  rw [split]
  unfold eval Row.insertSymbol dropped
  dsimp only
  split
  · ring
  · rw [total_insert]
    ring

/-- The share in the value of a row of what merging some cells drops, each told by the row as it is before
the first of them: no later cell has the same symbol. -/
def loss (r : Row Rat) (cells : List (Symbol × Rat)) (ρ : Valuation) : Rat :=
  (cells.map fun cell => dropped r cell.1 cell.2 * ρ cell.1).sum

theorem loss_insertSymbol {cells : List (Symbol × Rat)} (fresh : s ∉ cells.map Prod.fst) :
    loss (r.insertSymbol s x) cells ρ = loss r cells ρ := by
  refine congrArg List.sum (List.map_congr_left fun cell member => ?_)
  have apart : s ≠ cell.1 := by
    rintro rfl
    exact fresh (List.mem_map_of_mem member)
  rw [dropped_insertSymbol apart]

theorem eval_insertCells {cells : List (Symbol × Rat)} (distinct : (cells.map Prod.fst).Nodup) :
    eval (r.insertCells cells) ρ =
      eval r ρ + (cells.map fun cell => cell.2 * ρ cell.1).sum - loss r cells ρ := by
  induction cells generalizing r with
  | nil => simp [Row.insertCells, loss]
  | cons cell rest ih =>
    obtain ⟨fresh, others⟩ := List.nodup_cons.mp distinct
    have step := ih (r := r.insertSymbol cell.1 cell.2) others
    rw [eval_insertSymbol, loss_insertSymbol fresh] at step
    refine step.trans ?_
    simp only [loss, List.map_cons, List.sum_cons]
    ring

/-- Adding a multiple of a row gives the sum of the values, less what merging its cells drops. -/
theorem eval_insertRow : eval (r.insertRow other x) ρ =
    eval r ρ + x * eval other ρ - loss r (other.scale x).cells.toList ρ := by
  have scaled : eval (other.scale x) ρ = eval other ρ * x := eval_scale
  have moved : eval (r.addConstant (other.scale x).constant) ρ =
      eval r ρ + (other.scale x).constant := eval_addConstant
  have merged := eval_insertCells (r := r.addConstant (other.scale x).constant) (ρ := ρ)
    (other.scale x).cells.distinct
  rw [moved] at merged
  rw [eval, total] at scaled
  refine merged.trans ?_
  change _ - loss r _ ρ = _
  linarith

/-- The size of a valuation on the symbols of a row. -/
def size (r : Row Rat) (ρ : Valuation) : Rat := total (fun s _ => |ρ s|) r.cells

theorem size_nonneg : 0 ≤ size r ρ := by
  refine List.sum_nonneg fun term member => ?_
  obtain ⟨cell, -, rfl⟩ := List.mem_map.mp member
  exact abs_nonneg _

theorem size_scale : size (other.scale x) ρ = size other ρ := by
  unfold size Row.scale
  rw [total_mapValues]

theorem abs_loss_le {cells : List (Symbol × Rat)} :
    |loss r cells ρ| ≤ Scalar.tolerance * (cells.map fun cell => |ρ cell.1|).sum := by
  induction cells with
  | nil => simp [loss]
  | cons cell rest ih =>
    have own : |dropped r cell.1 cell.2 * ρ cell.1| ≤ Scalar.tolerance * |ρ cell.1| := by
      rw [abs_mul]
      exact mul_le_mul_of_nonneg_right abs_dropped_le (abs_nonneg _)
    calc |loss r (cell :: rest) ρ|
        ≤ |dropped r cell.1 cell.2 * ρ cell.1| + |loss r rest ρ| := abs_add_le _ _
      _ ≤ Scalar.tolerance * |ρ cell.1| +
          Scalar.tolerance * (rest.map fun cell => |ρ cell.1|).sum := add_le_add own ih
      _ = _ := by rw [List.map_cons, List.sum_cons, mul_add]

theorem insertRow_near : |eval (r.insertRow other x) ρ - (eval r ρ + x * eval other ρ)| ≤
    Scalar.tolerance * size other ρ := by
  rw [eval_insertRow, sub_sub_cancel_left, abs_neg, ← size_scale (x := x)]
  exact abs_loss_le

/-- Putting a row in the place of a symbol changes the value by what the two differ, up to what merging the
row's cells drops. -/
theorem substitute_near : |eval (r.substitute s other) ρ -
    (eval r ρ + r.coefficient s * (eval other ρ - ρ s))| ≤ Scalar.tolerance * size other ρ := by
  unfold Row.substitute
  split
  · rename_i absent
    have nothing : r.coefficient s = 0 := coefficient_of_not_holds (not_holds_iff.mpr absent)
    rw [nothing, zero_mul, add_zero, sub_self, abs_zero]
    exact mul_nonneg tolerance_pos.le size_nonneg
  · rename_i x present
    have same : r.coefficient s = x := coefficient_of_find? present
    have without : eval (r.remove s) ρ = eval r ρ - r.coefficient s * ρ s := eval_remove
    have merged : eval r ρ + x * (eval other ρ - ρ s) = eval (r.remove s) ρ + x * eval other ρ := by
      rw [without, same]
      ring
    rw [same, merged]
    exact insertRow_near

/-- Eliminating a symbol loses at most the tolerance for each symbol of the row that is merged, in the
measure of its value. -/
theorem elimination_near (a b : Row Rat) (k : Rat) (y : Symbol) (ρ : Valuation) :
    |eval (a.insertRow b k) ρ - (eval a ρ + k * eval b ρ)| ≤
        Scalar.tolerance * total (fun z _ => |ρ z|) b.cells ∧
      |eval (a.substitute y b) ρ - (eval a ρ + a.coefficient y * (eval b ρ - ρ y))| ≤
        Scalar.tolerance * total (fun z _ => |ρ z|) b.cells :=
  ⟨insertRow_near, substitute_near⟩

end Cassowary.Pruning
