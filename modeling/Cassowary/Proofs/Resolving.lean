import Mathlib.Tactic.FieldSimp
import Cassowary.Proofs.ExactRows
import Cassowary.Proofs.Tolerance
import Cassowary.Tableau.Basic

/-!
Solving a row for another symbol, and back. The symbol that the row was solved for before gets a cell of
its own, which no tolerance prunes, and all other cells are scaled alike and kept however small they come
out. So the solved row has the same solutions, and solving it back scales by the inverse of that factor:
every cell returns, and only the order of the cells may be another.
-/

namespace Cassowary.Resolving
open ExactRows MapEntries RowSymbols Tolerant

variable {r : Row Rat} {ρ : Valuation} {basic column s z : Symbol} {x : Rat}

/-- A symbol that a row does not hold gets a cell of its own, unless its coefficient counts as zero. -/
theorem insertSymbol_of_absent (absent : r.cells.find? s = none)
    (counts : Scalar.nearZero x = false) :
    r.insertSymbol s x = { r with cells := r.cells.insert s x } := by
  have merged : r.coefficient s + x = x := by
    have nothing : r.coefficient s = 0 := coefficient_of_not_holds (not_holds_iff.mpr absent)
    rw [nothing, zero_add]
  simp only [Row.insertSymbol, merged, counts, Bool.false_eq_true, if_false]

/-- The row of a basic symbol, solved for a column with the coefficient `x`. -/
def resolved (r : Row Rat) (basic column : Symbol) (x : Rat) : Row Rat where
  constant := r.constant * (-1 / x)
  cells := ((r.cells.insert basic (-1)).erase column).mapValues fun _ y => y * (-1 / x)

theorem find?_resolved : (resolved r basic column x).cells.find? z =
    if column = z then none else if basic = z then some (-1 * (-1 / x))
      else (r.cells.find? z).map fun y => y * (-1 / x) := by
  unfold resolved
  rw [OrderedMap.find?_mapValues, OrderedMap.find?_erase, OrderedMap.find?_insert]
  split
  · rfl
  · split <;> rfl

section Solving
variable (absent : r.cells.find? basic = none) (present : r.cells.find? column = some x)
include absent present

theorem column_ne_basic : column ≠ basic := by
  rintro rfl
  rw [absent] at present
  cases present

theorem find?_insert_column : (r.cells.insert basic (-1)).find? column = some x := by
  rw [OrderedMap.find?_insert, if_neg (column_ne_basic absent present).symm, present]

/-- Neither the new cell nor any of the scaled ones is pruned. -/
theorem solveForSymbols_eq {ε : Type} :
    (r.solveForSymbols basic column : Outcome ε (Row Rat)) = .ok (resolved r basic column x) := by
  have counts : Scalar.nearZero (-1 : Rat) = false := by
    rw [← Bool.not_eq_true, Tolerant.nearZero_iff]
    norm_num [Scalar.tolerance]
  unfold Row.solveForSymbols Row.solveFor
  rw [insertSymbol_of_absent absent counts]
  dsimp only
  rw [find?_insert_column absent present]
  rfl

variable (nonzero : x ≠ 0)
include nonzero

theorem eval_resolved :
    eval (resolved r basic column x) ρ = ρ column + (ρ basic - eval r ρ) / x := by
  have scaled : eval (resolved r basic column x) ρ = (r.constant + total (fun s y => y * ρ s)
      ((r.cells.insert basic (-1)).erase column)) * (-1 / x) :=
    eval_scale (r := ⟨r.constant, (r.cells.insert basic (-1)).erase column⟩)
  have split := total_erase (f := fun s y => y * ρ s) (find?_insert_column absent present)
  rw [total_insert_of_absent absent] at split
  rw [scaled, eval]
  field_simp
  linarith

/-- The solved row has the solutions of the row. -/
theorem resolved_iff : ρ column = eval (resolved r basic column x) ρ ↔ ρ basic = eval r ρ := by
  rw [eval_resolved absent present nonzero, left_eq_add, div_eq_zero_iff, or_iff_left nonzero,
    sub_eq_zero]

/-- Solving back undoes the scaling, and the two symbols change their places again. -/
theorem resolved_resolved :
    let back := resolved (resolved r basic column x) column basic (-1 * (-1 / x))
    back.constant = r.constant ∧ ∀ z, back.cells.find? z = r.cells.find? z := by
  have inverse : ∀ y : Rat, y * (-1 / x) * (-1 / (-1 * (-1 / x))) = y := fun y => by field_simp
  refine ⟨inverse r.constant, fun z => ?_⟩
  rw [find?_resolved, find?_resolved]
  by_cases old : basic = z
  · rw [if_pos old, ← old, absent]
  · rw [if_neg old, if_neg old]
    by_cases new : column = z
    · rw [if_pos new, ← new, present]
      congr 1
      field_simp
    · rw [if_neg new, if_neg new, Option.map_map]
      simp only [Function.comp_def, inverse, Option.map_id']

end Solving

/-- Solving a row without zero cells for one of its columns succeeds and keeps the solutions, and solving
it back gives the same constant and the same cells in some order. -/
theorem solving_back_restores_row {ε : Type} (r : Row Rat) (lhs rhs : Symbol) (nonzero : Pruned r)
    (absent : r.holds lhs = false) (present : r.holds rhs = true) :
    ∃ solved, (r.solveForSymbols lhs rhs : Outcome ε (Row Rat)) = .ok solved ∧
      (∀ ρ : Valuation, ρ rhs = eval solved ρ ↔ ρ lhs = eval r ρ) ∧
      ∃ back, (solved.solveForSymbols rhs lhs : Outcome ε (Row Rat)) = .ok back ∧
        back.constant = r.constant ∧ back.cells.toList.Perm r.cells.toList := by
  obtain ⟨x, found⟩ := holds_iff.mp present
  have missing := not_holds_iff.mp absent
  have weighs : x ≠ 0 := nonzero rhs x found
  have gone : (resolved r lhs rhs x).cells.find? rhs = none := by
    rw [find?_resolved, if_pos rfl]
  have entered : (resolved r lhs rhs x).cells.find? lhs = some (-1 * (-1 / x)) := by
    rw [find?_resolved, if_neg (column_ne_basic missing found), if_pos rfl]
  obtain ⟨constant, cells⟩ := resolved_resolved missing found weighs
  exact ⟨_, solveForSymbols_eq missing found, fun ρ => resolved_iff missing found weighs,
    _, solveForSymbols_eq gone entered, constant, perm_of_find? cells⟩

/-- A row whose cells are all far below the tolerance. -/
def faint : Row Rat where
  constant := 3
  cells := ⟨[(⟨1, .external⟩, 1 / 10 ^ 12), (⟨4, .error⟩, -1 / 10 ^ 30), (⟨5, .slack⟩, 2 / 10 ^ 9)],
    by decide⟩

theorem faint_nonzero : Pruned faint := by
  have all : ∀ cell ∈ faint.cells.toList, cell.2 ≠ 0 := by decide +kernel
  exact fun s x found => all (s, x) (mem_toList_iff.mpr found)

theorem solving_back_restores_row_faint :
    Pruned faint ∧ faint.holds ⟨2, .slack⟩ = false ∧ faint.holds ⟨4, .error⟩ = true ∧
      ∃ solved, (faint.solveForSymbols ⟨2, .slack⟩ ⟨4, .error⟩ : Outcome PivotEvent (Row Rat)) =
          .ok solved ∧
        (∀ ρ : Valuation, ρ ⟨4, .error⟩ = eval solved ρ ↔ ρ ⟨2, .slack⟩ = eval faint ρ) ∧
        ∃ back, (solved.solveForSymbols ⟨4, .error⟩ ⟨2, .slack⟩ : Outcome PivotEvent (Row Rat)) =
            .ok back ∧
          back.constant = faint.constant ∧ back.cells.toList.Perm faint.cells.toList :=
  ⟨faint_nonzero, rfl, rfl, solving_back_restores_row faint _ _ faint_nonzero rfl rfl⟩

end Cassowary.Resolving
