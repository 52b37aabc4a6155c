import Cassowary.Proofs.Evictions

/-!
Taking a marker out of any tableau without negative restricted symbols. Nothing is asked of the tableau
but that its basic symbols are no columns: a shrinking row is the first to reach zero, a growing row is
chosen only where no restricted row shrinks, and the row of a variable only where the marker occurs in no
restricted row at all. Each time every other restricted row can afford the marker's step.
-/

namespace Cassowary.FeasibleEvictions
open Endings MapEntries PivotRuns RowSymbols Separation ExactRows Solutions RatioTests Evictions Tableau
open scoped Exact

variable {t : Tableau Rat} {row solved r : Row Rat} {s z marker leaving : Symbol}

/-- No basic symbol is a column of a row. -/
def Columnar (t : Tableau Rat) : Prop :=
  ∀ s row, t.rows.find? s = some row → ∀ z, row.holds z = true → ¬Basic t z

/-- A marker with a coefficient in some row can leave. -/
theorem markerRow?_of_occurs (found : t.rows.find? s = some r) (weighs : r.coefficient marker ≠ 0) :
    ∃ leaving row, t.markerRow? marker = some (leaving, row) := by
  cases chosen : t.markerRow? marker with
  | none => exact absurd (nearZero_iff.mp (markerRow?_eq_none chosen found)) weighs
  | some entry => exact ⟨entry.1, entry.2, rfl⟩

/-- Whichever kind of row gives way, the step that the marker makes in it takes no restricted row below
zero. -/
theorem step_affordable (feasible : Feasible t) (chosen : t.markerRow? marker = some (leaving, row))
    (found : t.rows.find? s = some r) (restricted : s.isRestricted = true) :
    0 ≤ r.constant + r.coefficient marker * (-row.constant / row.coefficient marker) := by
  obtain ⟨-, -, ⟨-, others⟩ | ⟨-, blind⟩⟩ := markerRow?_exact feasible chosen
  · exact others s r found restricted
  · rw [blind s r found restricted, zero_mul, add_zero]
    exact feasible s r found restricted

/-! ## The rows that are left -/

/-- When a column is replaced and a row dropped the others are left, with the column replaced. -/
theorem rest_find? (found : ((t.dropRow leaving).substitute marker solved).rows.find? s = some r) :
    s ≠ leaving ∧ ∃ before, t.rows.find? s = some before ∧ r = before.substitute marker solved := by
  simp only [substitute, OrderedMap.find?_mapValues, Option.map_eq_some_iff] at found
  obtain ⟨before, held, rfl⟩ := found
  obtain ⟨apart, held⟩ := dropRow_found held
  exact ⟨apart, before, held, rfl⟩

theorem rest_basic (basic : Basic ((t.dropRow leaving).substitute marker solved) z) :
    z ≠ leaving ∧ Basic t z := by
  obtain ⟨r, found⟩ := contains_iff.mp basic
  obtain ⟨apart, before, held, -⟩ := rest_find? found
  exact ⟨apart, basic_of_find? held⟩

section Solved
variable (went : (row.solveForSymbols leaving marker : Outcome PivotEvent (Row Rat)) = .ok solved)
include went

theorem solved_holds (held : solved.holds z = true) :
    z ≠ marker ∧ (z = leaving ∨ row.holds z = true) := by
  have ends := solveForSymbols_ends (ε := PivotEvent) row leaving marker
  rw [went, ends_ok] at ends
  exact ends.2 z held

theorem solved_constant (apart : marker ≠ leaving) (weighs : row.coefficient marker ≠ 0) :
    solved.constant = -row.constant / row.coefficient marker := by
  obtain ⟨other, went', value, -⟩ := solveForSymbols_exact (ε := PivotEvent) apart weighs
  cases went.symm.trans went'
  exact constant_of_solved value

theorem rest_forgets (found : ((t.dropRow leaving).substitute marker solved).rows.find? s = some r) :
    r.holds marker = false := by
  obtain ⟨-, before, -, rfl⟩ := rest_find? found
  by_contra held
  obtain ⟨other, -⟩ | ⟨-, taken⟩ := holds_substitute (by simpa using held)
  · exact other rfl
  · exact (solved_holds went taken).1 rfl

/-- What the solved row brings in is not basic any more or was a column before. -/
theorem rest_columnar (columnar : Columnar t) (gives : t.rows.find? leaving = some row) :
    Columnar ((t.dropRow leaving).substitute marker solved) := by
  intro s r found z held basic
  obtain ⟨apart, basic⟩ := rest_basic basic
  obtain ⟨-, before, old, rfl⟩ := rest_find? found
  obtain ⟨-, kept⟩ | ⟨-, taken⟩ := holds_substitute held
  · exact columnar s before old z kept basic
  · obtain rfl | column := (solved_holds went taken).2
    · exact apart rfl
    · exact columnar leaving row gives z column basic

end Solved

/-- A marker that is no basic symbol and occurs in some row can be taken out: a row gives way to it and is
solved for it, and what is left are the other rows with the marker replaced by that. When no restricted
row was negative before, none is afterwards, basic symbols are still no columns, and no row holds the
marker. -/
theorem eviction_keeps_feasible (t : Tableau Rat) (marker : Symbol) (columnar : Columnar t)
    (feasible : Feasible t) (column : ¬Basic t marker)
    (occurs : ∃ s r, t.rows.find? s = some r ∧ r.coefficient marker ≠ 0) :
    ∃ leaving row solved t', t.markerRow? marker = some (leaving, row) ∧
      (row.solveForSymbols leaving marker : Outcome PivotEvent (Row Rat)) = .ok solved ∧
      t.evict marker = (Outcome.ok t').report (.primal marker leaving) ∧
      t'.rows = (t.rows.erase leaving).mapValues (fun _ r => r.substitute marker solved) ∧
      Feasible t' ∧ Columnar t' ∧ ∀ s r, t'.rows.find? s = some r → r.holds marker = false := by
  obtain ⟨key, r, found, weighs⟩ := occurs
  obtain ⟨leaving, row, chosen⟩ := markerRow?_of_occurs found weighs
  obtain ⟨gives, nonzero, -⟩ := markerRow?_exact feasible chosen
  obtain ⟨solved, went, evicted⟩ := evict_through column chosen (holds_of_coefficient nonzero)
  have apart : marker ≠ leaving := by
    rintro rfl
    exact column (basic_of_find? gives)
  refine ⟨leaving, row, solved, _, chosen, went, evicted, rfl, fun s r found restricted => ?_,
    rest_columnar went columnar gives, fun s r found => rest_forgets went found⟩
  obtain ⟨-, before, held, rfl⟩ := rest_find? found
  rw [constant_substitute, solved_constant went apart nonzero]
  exact step_affordable feasible chosen held restricted

/-- The marker of a required equation occurs in rows of every kind. Of those that shrink with it two reach
zero first, and the one that holds no symbol but dummies gives way. -/
def tied : Tableau Rat where
  rows := (((((∅ : OrderedMap Symbol (Row Rat)).insert ⟨1, .external⟩
    (((Row.ofConstant 3).insertSymbol ⟨5, .dummy⟩ 2).insertSymbol ⟨9, .slack⟩ 1)).insert ⟨2, .slack⟩
    (((Row.ofConstant 4).insertSymbol ⟨5, .dummy⟩ (-2)).insertSymbol ⟨9, .slack⟩ 1)).insert ⟨4, .dummy⟩
    ((Row.ofConstant 2).insertSymbol ⟨5, .dummy⟩ (-1))).insert ⟨6, .error⟩
    (((Row.ofConstant 0).insertSymbol ⟨5, .dummy⟩ 5).insertSymbol ⟨9, .slack⟩ (-1))).insert ⟨8, .slack⟩
    ((Row.ofConstant 7).insertSymbol ⟨5, .dummy⟩ (-3))
  objective := .ofConstant 0

theorem tied_columnar : Columnar tied := by
  have all : ∀ entry ∈ tied.rows.toList, ∀ z ∈ entry.2.cells.keys, tied.rows.contains z = false := by
    decide +kernel
  intro s row found z held basic
  have column := all (s, row) (mem_toList_iff.mpr found) z (holds_iff_mem_keys.mp held)
  rw [Basic, column] at basic
  cases basic

theorem tied_feasible : Feasible tied := by
  have all : ∀ entry ∈ tied.rows.toList, (0 : Rat) ≤ entry.2.constant := by decide +kernel
  exact fun s row found _ => all (s, row) (mem_toList_iff.mpr found)

theorem eviction_keeps_feasible_tied :
    Columnar tied ∧ Feasible tied ∧ ¬Basic tied ⟨5, .dummy⟩ ∧
      (∃ s r, tied.rows.find? s = some r ∧ r.coefficient ⟨5, .dummy⟩ ≠ 0) ∧
      ∃ leaving row solved t', tied.markerRow? ⟨5, .dummy⟩ = some (leaving, row) ∧
        (row.solveForSymbols leaving ⟨5, .dummy⟩ : Outcome PivotEvent (Row Rat)) = .ok solved ∧
        tied.evict ⟨5, .dummy⟩ = (Outcome.ok t').report (.primal ⟨5, .dummy⟩ leaving) ∧
        t'.rows = (tied.rows.erase leaving).mapValues
          (fun _ r => r.substitute ⟨5, .dummy⟩ solved) ∧
        Feasible t' ∧ Columnar t' ∧
        ∀ s r, t'.rows.find? s = some r → r.holds ⟨5, .dummy⟩ = false := by
  have column : ¬Basic tied ⟨5, .dummy⟩ := by
    unfold Basic
    decide +kernel
  have occurs : ∃ s r, tied.rows.find? s = some r ∧ r.coefficient ⟨5, .dummy⟩ ≠ 0 :=
    ⟨⟨8, .slack⟩, _, rfl, by decide +kernel⟩
  exact ⟨tied_columnar, tied_feasible, column, occurs,
    eviction_keeps_feasible tied _ tied_columnar tied_feasible column occurs⟩

end Cassowary.FeasibleEvictions
