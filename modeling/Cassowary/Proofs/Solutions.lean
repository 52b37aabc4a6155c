import Cassowary.Proofs.ExactRows
import Cassowary.Proofs.Separation

/-!
The equations of a tableau in exact arithmetic. A valuation solves a tableau when every basic symbol
has the value of its row. The columns can be chosen freely and determine the rest, so a symbol occurs
in a tableau just when the solutions depend on it, and a pivot changes the rows but not the solutions.
-/

namespace Cassowary.Solutions
open Endings MapEntries RowSymbols Separation ExactRows Tableau
open scoped Exact

variable {P : Symbol → Prop} {t t' : Tableau Rat} {row solved r : Row Rat} {ρ μ : Valuation}
  {s z entering leaving : Symbol} {x : Rat}

/-- Every basic symbol has the value of its row. -/
def Solves (t : Tableau Rat) (ρ : Valuation) : Prop :=
  ∀ s row, t.rows.find? s = some row → ρ s = eval row ρ

/-- Only the rows matter to the solutions. -/
theorem solves_of_rows (same : t'.rows = t.rows) : Solves t' ρ ↔ Solves t ρ := by
  unfold Solves
  rw [same]

/-- Whether a valuation solves a tableau is up to the symbols that the tableau is over. -/
theorem solves_congr (tidy : Tidy P t) (same : ∀ s, P s → ρ s = μ s) :
    Solves t ρ ↔ Solves t μ := by
  refine forall_congr' fun s => forall₂_congr fun row found => ?_
  have inside : eval row ρ = eval row μ := eval_congr fun z held =>
    same z (tidy.line row (line_of_find? found) z held).1
  rw [same s (tidy.basic s (basic_of_find? found)), inside]

theorem not_basic_iff : ¬Basic t s ↔ t.rows.find? s = none := by
  rw [Basic, Bool.not_eq_true, not_contains_iff]

/-- The solution with the given values for the columns. -/
def complete (t : Tableau Rat) (μ : Valuation) : Valuation := fun s =>
  (t.rows.find? s).elim (μ s) fun row => eval row μ

theorem complete_of_basic (found : t.rows.find? s = some row) : complete t μ s = eval row μ := by
  simp [complete, found]

theorem complete_of_column (column : ¬Basic t s) : complete t μ s = μ s := by
  simp [complete, not_basic_iff.mp column]

/-- Rows see the columns only, and those are as given. -/
theorem eval_complete (tidy : Tidy P t) (line : Line t r) : eval r (complete t μ) = eval r μ :=
  eval_congr fun s held => complete_of_column (tidy.line r line s held).2

theorem solves_complete (tidy : Tidy P t) (μ : Valuation) : Solves t (complete t μ) := by
  intro s row found
  rw [complete_of_basic found, eval_complete tidy (line_of_find? found)]

/-- The values read off the tableau are the solution whose columns are all zero. -/
theorem value_eq_complete (t : Tableau Rat) : t.value = complete t 0 := by
  funext s
  cases found : t.rows.find? s with
  | none => simp only [value, complete, found, Option.elim_none, Pi.zero_apply]
  | some row => simp only [value, complete, found, Option.elim_some, eval_zero]

theorem solves_value (tidy : Tidy P t) : Solves t t.value :=
  value_eq_complete t ▸ solves_complete tidy 0

theorem eval_value (tidy : Tidy P t) (line : Line t r) : eval r t.value = r.constant := by
  rw [value_eq_complete, eval_complete tidy line, eval_zero]

theorem value_of_find? (found : t.rows.find? s = some row) : t.value s = row.constant := by
  simp [value, found]

theorem value_of_column (column : ¬Basic t s) : t.value s = 0 := by
  rw [value_eq_complete, complete_of_column column, Pi.zero_apply]

/-- The solution whose columns are zero but for one. -/
def ray (t : Tableau Rat) (z : Symbol) (x : Rat) : Valuation :=
  complete t (Function.update 0 z x)

theorem solves_ray (tidy : Tidy P t) : Solves t (ray t z x) := solves_complete tidy _

theorem ray_of_basic (found : t.rows.find? s = some row) :
    ray t z x s = row.constant + row.coefficient z * x := by
  rw [ray, complete_of_basic found, eval_update, eval_zero, Pi.zero_apply, sub_zero]

theorem ray_of_column (column : ¬Basic t s) : ray t z x s = if s = z then x else 0 := by
  rw [ray, complete_of_column column, Function.update_apply, Pi.zero_apply]

theorem eval_ray (tidy : Tidy P t) (line : Line t r) :
    eval r (ray t z x) = r.constant + r.coefficient z * x := by
  rw [ray, eval_complete tidy line, eval_update, eval_zero, Pi.zero_apply, sub_zero]

/-- The solutions do not depend on a symbol. -/
def Indifferent (S : Valuation → Prop) (z : Symbol) : Prop :=
  ∀ ρ x, S ρ → S (Function.update ρ z x)

/-- A symbol on which the solutions do not depend is neither basic nor in a row. -/
theorem absent_of_indifferent (tidy : Tidy P t)
    (indifferent : Indifferent (Solves t) z) :
    ¬Basic t z ∧ ∀ s row, t.rows.find? s = some row → row.coefficient z = 0 := by
  have moved := indifferent _ (t.value z + 1) (solves_value tidy)
  have column : ¬Basic t z := by
    intro basic
    obtain ⟨row, found⟩ := contains_iff.mp basic
    have apart : row.holds z = false := not_holds_basic tidy (line_of_find? found) basic
    have here := moved z row found
    rw [Function.update_self, eval_update, coefficient_of_not_holds apart,
      eval_value tidy (line_of_find? found), value_of_find? found] at here
    linarith
  refine ⟨column, fun s row found => ?_⟩
  have other : s ≠ z := by
    rintro rfl
    exact column (basic_of_find? found)
  have here := moved s row found
  rw [Function.update_of_ne other, eval_update, eval_value tidy (line_of_find? found),
    value_of_find? found] at here
  linarith

/-! ## Rows in and out -/

theorem solves_dropRow (found : t.rows.find? s = some row) :
    Solves t ρ ↔ ρ s = eval row ρ ∧ Solves (t.dropRow s) ρ := by
  refine ⟨fun solves => ⟨solves s row found, fun key r held => ?_⟩, fun ⟨own, solves⟩ key r held => ?_⟩
  · simp only [dropRow, OrderedMap.find?_erase] at held
    split at held
    · cases held
    · exact solves key r held
  · by_cases same : s = key
    · subst same
      cases found.symm.trans held
      exact own
    · exact solves key r (by simpa [dropRow, same] using held)

/-- Without its row a symbol does not matter to the solutions. -/
theorem dropRow_blind (tidy : Tidy P t) (found : t.rows.find? s = some row) :
    Solves (t.dropRow s) (Function.update ρ s x) ↔ Solves (t.dropRow s) ρ := by
  refine forall_congr' fun key => forall₂_congr fun r held => ?_
  have apart : key ≠ s := by
    rintro rfl
    simp [dropRow] at held
  have absent : r.coefficient s = 0 := coefficient_of_not_holds
    (not_holds_basic tidy (dropRow_line (.inl ⟨key, held⟩)) (basic_of_find? found))
  rw [Function.update_of_ne apart, eval_update, absent, zero_mul, add_zero]

/-- Without the row of a symbol that symbol may have any value. -/
theorem solves_dropRow_iff (tidy : Tidy P t) (found : t.rows.find? s = some row) :
    Solves (t.dropRow s) ρ ↔ ∃ x, Solves t (Function.update ρ s x) := by
  have absent : row.coefficient s = 0 := coefficient_of_not_holds
    (not_holds_basic tidy (line_of_find? found) (basic_of_find? found))
  refine ⟨fun solves => ⟨eval row ρ, ?_⟩, fun ⟨x, solves⟩ => ?_⟩
  · rw [solves_dropRow found, dropRow_blind tidy found, Function.update_self, eval_update, absent]
    exact ⟨by ring, solves⟩
  · exact (dropRow_blind tidy found).mp ((solves_dropRow found).mp solves).2

theorem enter_find? : (t.enter s row).rows.find? z =
    if s = z then some row else (t.rows.find? z).map fun other => other.substitute s row := by
  simp [enter, substitute]

/-- A new row is one more equation. -/
theorem solves_enter (column : ¬Basic t s) :
    Solves (t.enter s row) ρ ↔ ρ s = eval row ρ ∧ Solves t ρ := by
  have unchanged : ρ s = eval row ρ → ∀ other : Row Rat,
      eval (other.substitute s row) ρ = eval other ρ := by
    intro own other
    rw [eval_substitute, own]
    ring
  refine ⟨fun solves => ?_, fun ⟨own, solves⟩ key r held => ?_⟩
  · have own : ρ s = eval row ρ := solves s row (by rw [enter_find?, if_pos rfl])
    refine ⟨own, fun key r held => ?_⟩
    have apart : s ≠ key := by
      rintro rfl
      exact column (basic_of_find? held)
    rw [← unchanged own r]
    exact solves key _ (by rw [enter_find?, if_neg apart, held]; rfl)
  · rw [enter_find?] at held
    split at held
    · rename_i same
      cases held
      exact same ▸ own
    · obtain ⟨before, old, rfl⟩ := Option.map_eq_some_iff.mp held
      rw [unchanged own]
      exact solves key before old

/-- Setting a column to zero is taking it out. -/
theorem solves_dropColumn (column : ¬Basic t s) :
    Solves (t.dropColumn s) ρ ↔ Solves t (Function.update ρ s 0) := by
  have removed : ∀ r : Row Rat, eval (r.remove s) ρ = eval r (Function.update ρ s 0) := by
    intro r
    rw [eval_remove, eval_update]
    ring
  refine ⟨fun solves key r held => ?_, fun solves key r held => ?_⟩
  · have apart : key ≠ s := by
      rintro rfl
      exact column (basic_of_find? held)
    rw [Function.update_of_ne apart, ← removed]
    exact solves key _ (by simp [dropColumn, held])
  · simp only [dropColumn, OrderedMap.find?_mapValues, Option.map_eq_some_iff] at held
    obtain ⟨before, old, rfl⟩ := held
    have apart : key ≠ s := by
      rintro rfl
      exact column (basic_of_find? old)
    have here := solves key before old
    rwa [Function.update_of_ne apart, ← removed] at here

/-! ## Pivots -/

/-- What a pivot does: the row of the leaving symbol, solved for the entering one, is substituted for
it everywhere and takes its place. -/
structure Pivoted (t t' : Tableau Rat) (entering leaving : Symbol) (row solved : Row Rat) : Prop where
  found : t.rows.find? leaving = some row
  present : row.coefficient entering ≠ 0
  went : t.exchange entering leaving row = .ok t'
  result : t' = (t.dropRow leaving).enter entering solved
  value : ∀ ρ, eval solved ρ =
    ρ entering + (ρ leaving - eval row ρ) / row.coefficient entering
  pruned : Pruned row → Pruned solved

/-- In exact arithmetic a pivot on a row that holds the entering symbol cannot fail. -/
theorem exchange_exact (tidy : Tidy P t) (found : t.rows.find? leaving = some row)
    (present : row.coefficient entering ≠ 0) :
    ∃ t' solved, Pivoted t t' entering leaving row solved := by
  have apart : entering ≠ leaving := by
    rintro rfl
    exact present (coefficient_of_not_holds
      (not_holds_basic tidy (line_of_find? found) (basic_of_find? found)))
  obtain ⟨solved, went, value, pruned⟩ :=
    solveForSymbols_exact (ε := PivotEvent) apart present
  refine ⟨_, solved, found, present, ?_, rfl, value, pruned⟩
  unfold exchange
  rw [went]
  rfl

variable (pivoted : Pivoted t t' entering leaving row solved)
include pivoted

theorem pivoted_tidy (tidy : Tidy P t) : Tidy P t' := by
  have kept := exchange_tidy entering tidy (line_of_find? pivoted.found)
    (tidy.basic _ (basic_of_find? pivoted.found))
  rwa [pivoted.went] at kept

/-- The entering symbol is a column before the pivot. -/
theorem pivoted_column (tidy : Tidy P t) : ¬Basic t entering :=
  (tidy.line row (line_of_find? pivoted.found) entering
    (holds_of_coefficient pivoted.present)).2

theorem pivoted_apart (tidy : Tidy P t) : entering ≠ leaving := by
  rintro rfl
  exact pivoted_column pivoted tidy (basic_of_find? pivoted.found)

theorem pivoted_find? : t'.rows.find? z =
    if entering = z then some solved
    else if leaving = z then none
    else (t.rows.find? z).map fun other => other.substitute entering solved := by
  rw [pivoted.result, enter_find?]
  by_cases same : leaving = z <;> simp [dropRow, same]

/-- The rows after a pivot: the solved one and the others with it substituted. -/
theorem pivoted_cases (found : t'.rows.find? s = some r) :
    (s = entering ∧ r = solved) ∨ (s ≠ entering ∧ s ≠ leaving ∧
      ∃ before, t.rows.find? s = some before ∧ r = before.substitute entering solved) := by
  rw [pivoted_find? pivoted] at found
  split at found
  · rename_i same
    exact .inl ⟨same.symm, (Option.some.inj found).symm⟩
  · rename_i apart
    split at found
    · cases found
    · rename_i other
      obtain ⟨before, held, rfl⟩ := Option.map_eq_some_iff.mp found
      exact .inr ⟨Ne.symm apart, Ne.symm other, before, held, rfl⟩

theorem pivoted_objectiveRow? (goal : Goal) :
    t'.objectiveRow? goal = (t.objectiveRow? goal).map fun r => r.substitute entering solved := by
  rw [pivoted.result]
  cases goal <;> rfl

theorem pivoted_constant : solved.constant = -row.constant / row.coefficient entering :=
  constant_of_solved pivoted.value

theorem pivoted_coefficient (apart : z ≠ entering) : solved.coefficient z =
    ((if z = leaving then 1 else 0) - row.coefficient z) / row.coefficient entering := by
  rw [coefficient_eq, pivoted.value, pivoted.value, eval_update, eval_zero,
    Function.update_of_ne (Ne.symm apart), Function.update_apply]
  simp only [Pi.zero_apply, eq_comm (a := leaving)]
  ring

theorem pivoted_solves (tidy : Tidy P t) : Solves t' ρ ↔ Solves t ρ := by
  have column : ¬Basic (t.dropRow leaving) entering := fun basic =>
    pivoted_column pivoted tidy (dropRow_basic.mp basic).2
  have present := pivoted.present
  have equation : ρ entering = eval solved ρ ↔ ρ leaving = eval row ρ := by
    rw [pivoted.value, left_eq_add, div_eq_zero_iff, or_iff_left present, sub_eq_zero]
  rw [pivoted.result, solves_enter column, equation, ← solves_dropRow pivoted.found]

/-- On solutions the objectives keep their values. -/
theorem pivoted_eval (solves : Solves t ρ) (r : Row Rat) :
    eval (r.substitute entering solved) ρ = eval r ρ := by
  have own := solves leaving row pivoted.found
  rw [eval_substitute, pivoted.value, own]
  ring

end Cassowary.Solutions
