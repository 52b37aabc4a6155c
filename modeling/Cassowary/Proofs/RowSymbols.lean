import Cassowary.Proofs.Endings
import Cassowary.Row

/-!
Which symbols a row holds. No law of arithmetic is used: whatever merging and scaling do to the
coefficients, an operation on a row only brings in symbols of the rows it is given.
-/

namespace Cassowary.RowSymbols
open Endings

variable {α : Type} {r other : Row α} {s z : Symbol} {x : α}

theorem holds_iff : r.holds s = true ↔ ∃ x, r.cells.find? s = some x := by
  simp [Row.holds, OrderedMap.contains, Option.isSome_iff_exists]

theorem not_holds_iff : r.holds s = false ↔ r.cells.find? s = none := by
  simp [Row.holds, OrderedMap.contains]

theorem holds_of_mem {cell : Symbol × α} (member : cell ∈ r.cells.toList) :
    r.holds cell.1 = true :=
  holds_iff.mpr ⟨cell.2, OrderedMap.find?_eq_some_iff.mpr member⟩

theorem holds_iff_mem_keys : r.holds s = true ↔ s ∈ r.cells.keys :=
  OrderedMap.mem_keys_iff.symm

@[simp] theorem holds_ofConstant : (Row.ofConstant x).holds z = false := rfl

@[simp] theorem holds_remove : (r.remove s).holds z = true ↔ z ≠ s ∧ r.holds z = true := by
  by_cases same : s = z
  · simp [Row.holds, Row.remove, OrderedMap.contains, same]
  · simp [Row.holds, Row.remove, OrderedMap.contains, same, Ne.symm same]

theorem not_holds_remove_self : (r.remove s).holds s = false := by
  simp [Row.holds, Row.remove, OrderedMap.contains]

/-- The first pivotable symbol of a row is one it holds. -/
theorem pivotable?_eq_some (found : r.pivotable? = some s) :
    s.isPivotable = true ∧ r.holds s = true :=
  ⟨List.find?_some found, holds_iff_mem_keys.mpr (List.mem_of_find?_eq_some found)⟩

variable [Scalar α]

theorem coefficient_of_not_holds (absent : r.holds s = false) : r.coefficient s = 0 := by
  simp only [Row.coefficient, OrderedMap.findD, not_holds_iff.mp absent, Option.getD_none]

@[simp] theorem holds_scale : (r.scale x).holds z = r.holds z := by
  simp [Row.holds, Row.scale, OrderedMap.contains]

@[simp] theorem holds_reverseSign : r.reverseSign.holds z = r.holds z := by
  simp [Row.holds, Row.reverseSign, OrderedMap.contains]

@[simp] theorem holds_addConstant : (r.addConstant x).holds z = r.holds z := rfl

/-- Merging a coefficient leaves all other cells where they are. -/
theorem holds_insertSymbol_of_ne (apart : z ≠ s) : (r.insertSymbol s x).holds z = r.holds z := by
  unfold Row.holds OrderedMap.contains Row.insertSymbol
  dsimp only
  split <;> simp [Ne.symm apart]

theorem holds_insertSymbol (held : (r.insertSymbol s x).holds z = true) :
    z = s ∨ r.holds z = true := by
  by_cases same : z = s
  · exact .inl same
  · exact .inr ((holds_insertSymbol_of_ne same).symm.trans held)

theorem holds_insertCells {cells : List (Symbol × α)}
    (held : (r.insertCells cells).holds z = true) :
    (∃ cell ∈ cells, cell.1 = z) ∨ r.holds z = true := by
  induction cells generalizing r with
  | nil => exact .inr held
  | cons cell rest ih =>
    rcases ih held with ⟨later, member, same⟩ | earlier
    · exact .inl ⟨later, List.mem_cons_of_mem _ member, same⟩
    · rcases holds_insertSymbol earlier with rfl | before
      · exact .inl ⟨cell, by simp, rfl⟩
      · exact .inr before

theorem holds_insertRow (held : (r.insertRow other x).holds z = true) :
    r.holds z = true ∨ other.holds z = true := by
  rcases holds_insertCells held with ⟨cell, member, rfl⟩ | before
  · exact .inr (holds_scale (x := x) ▸ holds_of_mem member)
  · exact .inl before

/-- Only a row that holds the symbol takes anything over from the row it is replaced by. -/
theorem holds_substitute (held : (r.substitute s other).holds z = true) :
    (z ≠ s ∧ r.holds z = true) ∨ (r.holds s = true ∧ other.holds z = true) := by
  unfold Row.substitute at held
  split at held
  · rename_i absent
    refine .inl ⟨?_, held⟩
    rintro rfl
    rw [not_holds_iff.mpr absent] at held
    cases held
  · rename_i coefficient present
    rcases holds_insertRow held with before | taken
    · exact .inl (holds_remove.mp before)
    · exact .inr ⟨holds_iff.mpr ⟨_, present⟩, taken⟩

/-- A row is solved for a symbol exactly when it holds it, and then holds all but that symbol. -/
theorem solveFor_ends {ε : Type} :
    Ends (r.solveFor s : Outcome ε (Row α))
      (fun solved => r.holds s = true ∧ ∀ z, solved.holds z = true ↔ z ≠ s ∧ r.holds z = true)
      (fun error _ => error = .internal .absentSymbol ∧ r.holds s = false) := by
  unfold Row.solveFor
  split
  · rename_i absent
    exact ⟨rfl, not_holds_iff.mpr absent⟩
  · rename_i coefficient present
    refine ⟨holds_iff.mpr ⟨_, present⟩, fun z => ?_⟩
    exact (congrArg (· = true) holds_scale).to_iff.trans holds_remove

/-- Solving for a column brings the basic symbol in and takes the column out. -/
theorem solveForSymbols_ends {ε : Type} (r : Row α) (basic column : Symbol) :
    Ends (r.solveForSymbols basic column : Outcome ε (Row α))
      (fun solved => (column = basic ∨ r.holds column = true) ∧
        ∀ z, solved.holds z = true → z ≠ column ∧ (z = basic ∨ r.holds z = true))
      (fun error _ => error = .internal .absentSymbol ∧
        (column ≠ basic → r.holds column = false)) := by
  refine ends_mono solveFor_ends ?_ ?_
  · rintro solved ⟨present, holds⟩
    refine ⟨holds_insertSymbol present, fun z held => ?_⟩
    obtain ⟨apart, before⟩ := (holds z).mp held
    exact ⟨apart, holds_insertSymbol before⟩
  · rintro error _ ⟨rfl, absent⟩
    exact ⟨rfl, fun apart => (holds_insertSymbol_of_ne apart).symm.trans absent⟩

/-- Solving for another symbol succeeds as soon as the row holds it. -/
theorem solveForSymbols_succeeds {ε : Type} {basic column : Symbol} (held : r.holds column = true)
    (apart : column ≠ basic) :
    ∃ solved, (r.solveForSymbols basic column : Outcome ε (Row α)) = .ok solved := by
  obtain ⟨x, found⟩ := holds_iff.mp ((holds_insertSymbol_of_ne (x := -1) apart).trans held)
  refine ⟨((r.insertSymbol basic (-1)).remove column).scale (-1 / x), ?_⟩
  unfold Row.solveForSymbols Row.solveFor
  rw [found]

end Cassowary.RowSymbols
