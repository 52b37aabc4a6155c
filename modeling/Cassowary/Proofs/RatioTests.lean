import Cassowary.Proofs.Solutions

/-!
What the ratio tests are for. Every restricted basic symbol stays non-negative when the leaving row is
the first to reach zero, and no column starts to improve the objective when the entering one is the
cheapest. Dummy symbols stay zero because no symbol that may enter occurs in their rows.
-/

namespace Cassowary.RatioTests
open Endings MapEntries PivotRuns RowSymbols Separation ExactRows Solutions Tableau
open scoped Exact

variable {P : Symbol → Prop} {t t' : Tableau Rat} {row solved r : Row Rat} {ρ : Valuation}
  {s z entering leaving : Symbol} {goal : Goal}

private theorem better_le (best p : Pick Rat) :
    (Pick.better best p).ratio ≤ best.ratio ∧ (Pick.better best p).ratio ≤ p.ratio := by
  unfold Pick.better Pick.beats
  rw [tolerance_eq, sub_zero]
  by_cases less : p.ratio < best.ratio
  · simp [less, le_of_lt less]
  · rw [if_neg less]
    by_cases equal : p.ratio = best.ratio
    · have either : ∀ b : Bool, (if b then p else best).ratio ≤ best.ratio ∧
          (if b then p else best).ratio ≤ p.ratio := by
        intro b
        cases b <;> simp [equal]
      exact either _
    · have far : Scalar.approxEq p.ratio best.ratio = false :=
        nearZero_eq_false.mpr (sub_ne_zero.mpr equal)
      simp [far, not_lt.mp less]

private theorem foldl_better_le (rest : List (Pick Rat)) (best : Pick Rat) :
    ∀ p ∈ best :: rest, (rest.foldl Pick.better best).ratio ≤ p.ratio := by
  induction rest generalizing best with
  | nil => simp
  | cons next rest ih =>
    intro p member
    have first := ih (Pick.better best next) (Pick.better best next) (by simp)
    obtain ⟨old, new⟩ := better_le best next
    rcases List.mem_cons.mp member with rfl | member
    · exact first.trans old
    · rcases List.mem_cons.mp member with rfl | later
      · exact first.trans new
      · exact ih (Pick.better best next) p (List.mem_cons_of_mem _ later)

/-- Compared exactly, the best candidate has the least ratio. -/
theorem best?_least {picks : List (Pick Rat)} {best p : Pick Rat}
    (found : Pick.best? picks = some best) (member : p ∈ picks) : best.ratio ≤ p.ratio := by
  cases picks with
  | nil => cases member
  | cons first rest =>
    cases found
    exact foldl_better_le rest first p member

/-- A tableau that the methods can work on: rows are pruned, restricted symbols are not made to depend
on free ones, and only restricted symbols wait to be repaired. -/
structure Sound (P : Symbol → Prop) (t : Tableau Rat) : Prop where
  tidy : Tidy P t
  pruned : ∀ s row, t.rows.find? s = some row → Pruned row
  free : ∀ s row, t.rows.find? s = some row → s.isRestricted = true →
    ∀ z, z.isExternal = true → row.coefficient z = 0
  queued : ∀ s ∈ t.infeasible, s.isRestricted = true

/-- No restricted basic symbol is negative. -/
def Feasible (t : Tableau Rat) : Prop :=
  ∀ s row, t.rows.find? s = some row → s.isRestricted = true → 0 ≤ row.constant

/-- Every restricted basic symbol that is negative waits to be repaired. -/
def Covered (t : Tableau Rat) : Prop :=
  ∀ s row, t.rows.find? s = some row → s.isRestricted = true → row.constant < 0 → s ∈ t.infeasible

/-- Basic dummy symbols are zero and depend on dummy symbols only. -/
def Settled (t : Tableau Rat) : Prop :=
  ∀ s row, t.rows.find? s = some row → s.isDummy = true →
    row.constant = 0 ∧ ∀ z, z.isDummy = false → row.coefficient z = 0

/-- No column that may enter improves the objective. -/
def Optimal (t : Tableau Rat) : Prop :=
  ∀ z, z.isDummy = false → 0 ≤ t.objective.coefficient z

/-- The row stays above some value on the solutions that give no restricted symbol a negative value. -/
def Bounded (t : Tableau Rat) (r : Row Rat) : Prop :=
  ∃ low, ∀ ρ, Solves t ρ → (∀ s, s.isRestricted = true → 0 ≤ ρ s) → low ≤ eval r ρ

theorem restricted_of_dummy (dummy : s.isDummy = true) : s.isRestricted = true :=
  Symbol.isRestricted_iff.mpr (Symbol.not_external_of_dummy dummy)

theorem covered_of_feasible (feasible : Feasible t) : Covered t := fun s row found restricted negative =>
  absurd negative (not_lt.mpr (feasible s row found restricted))

/-- At the values of a feasible tableau every restricted symbol is at least zero. -/
theorem value_nonneg (feasible : Feasible t) (restricted : s.isRestricted = true) : 0 ≤ t.value s := by
  cases found : t.rows.find? s with
  | none => exact (value_of_column (not_basic_iff.mpr found)).ge
  | some row =>
    rw [value_of_find? found]
    exact feasible s row found restricted

/-- At the values of a settled tableau every dummy symbol is zero. -/
theorem value_dummy (settled : Settled t) (dummy : s.isDummy = true) : t.value s = 0 := by
  cases found : t.rows.find? s with
  | none => exact value_of_column (not_basic_iff.mpr found)
  | some row =>
    rw [value_of_find? found]
    exact (settled s row found dummy).1

/-- No dummy symbol of a settled tableau varies with a column of another kind. -/
theorem ray_dummy {x : Rat} (settled : Settled t) (notDummy : z.isDummy = false)
    (dummy : s.isDummy = true) : ray t z x s = t.value s := by
  cases found : t.rows.find? s with
  | none =>
    have apart : s ≠ z := by
      rintro rfl
      rw [notDummy] at dummy
      cases dummy
    rw [ray_of_column (not_basic_iff.mpr found), if_neg apart,
      value_of_column (not_basic_iff.mpr found)]
  | some row =>
    rw [ray_of_basic found, value_of_find? found, (settled s row found dummy).2 z notDummy, zero_mul,
      add_zero]

theorem mem_violations {rows : OrderedMap Symbol (Row Rat)} :
    s ∈ violations rows ↔
      ∃ row, rows.find? s = some row ∧ s.isRestricted = true ∧ row.constant < 0 := by
  simp only [violations, violated, List.mem_map, List.mem_filter, Bool.and_eq_true, mem_toList_iff,
    isNegative_iff, Prod.exists]
  constructor
  · rintro ⟨_, row, ⟨found, restricted, negative⟩, rfl⟩
    exact ⟨row, found, restricted, negative⟩
  · rintro ⟨row, found, restricted, negative⟩
    exact ⟨s, row, ⟨found, restricted, negative⟩, rfl⟩

theorem sound_mono {Q : Symbol → Prop} (sound : Sound P t) (wider : ∀ s, P s → Q s) : Sound Q t :=
  ⟨tidy_mono sound.tidy wider, sound.pruned, sound.free, sound.queued⟩

/-- Apart from tidiness only the rows and the queue matter. -/
theorem sound_of_rows {Q : Symbol → Prop} (sound : Sound P t) (tidy : Tidy Q t')
    (rows : t'.rows = t.rows) (queue : t'.infeasible = t.infeasible) : Sound Q t' :=
  ⟨tidy, rows ▸ sound.pruned, rows ▸ sound.free, queue ▸ sound.queued⟩

theorem sound_of_queue {queue : List Symbol} (sound : Sound P t)
    (queued : ∀ s ∈ queue, s.isRestricted = true) : Sound P { t with infeasible := queue } :=
  ⟨queue_tidy sound.tidy queue, sound.pruned, sound.free, queued⟩

/-- A row whose value depends on restricted symbols only holds no variable. -/
theorem coefficient_of_external (sound : Sound P t) (line : Line t r)
    (agree : ∀ ρ σ, Solves t ρ → Solves t σ → (∀ s, s.isRestricted = true → ρ s = σ s) →
      eval r ρ = eval r σ) (external : z.isExternal = true) : r.coefficient z = 0 := by
  have moved := agree (ray t z 1) t.value (solves_ray sound.tidy) (solves_value sound.tidy)
    fun s restricted => by
      cases found : t.rows.find? s with
      | none =>
        have apart := (Symbol.ne_of_isRestricted external restricted).symm
        rw [ray_of_column (not_basic_iff.mpr found), if_neg apart,
          value_of_column (not_basic_iff.mpr found)]
      | some row =>
        rw [ray_of_basic found, value_of_find? found, sound.free s row found restricted z external,
          zero_mul, add_zero]
  rw [eval_ray sound.tidy line, eval_value sound.tidy line] at moved
  linarith

/-- A row without a column that could lower it is least where all its columns are zero. -/
theorem constant_le_eval (rises : ∀ z, z.isDummy = false → 0 ≤ r.coefficient z)
    (free : ∀ z, z.isExternal = true → r.coefficient z = 0)
    (nonneg : ∀ s, s.isRestricted = true → 0 ≤ ρ s) (zero : ∀ s, s.isDummy = true → ρ s = 0) :
    r.constant ≤ eval r ρ := by
  refine le_add_of_nonneg_right (List.sum_nonneg fun y member => ?_)
  obtain ⟨⟨z, x⟩, cell, rfl⟩ := List.mem_map.mp member
  have same : r.coefficient z = x := coefficient_of_find? (mem_toList_iff.mp cell)
  dsimp only
  rw [← same]
  by_cases dummy : z.isDummy = true
  · rw [zero z dummy, mul_zero]
  · by_cases external : z.isExternal = true
    · rw [free z external, zero_mul]
    · exact mul_nonneg (rises z (by simpa using dummy))
        (nonneg z (Symbol.isRestricted_iff.mpr (by simpa using external)))

/-! ## Rows that come and go -/

/-- Every restricted row is one that the other tableau has. -/
def Fewer (t t' : Tableau Rat) : Prop :=
  ∀ s row, t'.rows.find? s = some row → s.isRestricted = true → t.rows.find? s = some row

theorem feasible_of_fewer (feasible : Feasible t) (fewer : Fewer t t') : Feasible t' :=
  fun s row found restricted => feasible s row (fewer s row found restricted) restricted

theorem settled_of_fewer (settled : Settled t) (fewer : Fewer t t') : Settled t' :=
  fun s row found dummy => settled s row (fewer s row found (restricted_of_dummy dummy)) dummy

theorem dropRow_found (found : (t.dropRow z).rows.find? s = some row) :
    s ≠ z ∧ t.rows.find? s = some row := by
  simp only [dropRow, OrderedMap.find?_erase] at found
  split at found
  · cases found
  · exact ⟨Ne.symm ‹_›, found⟩

theorem dropRow_fewer : Fewer t (t.dropRow z) := fun _ _ found _ => (dropRow_found found).2

theorem dropRow_sound (sound : Sound P t) : Sound P (t.dropRow z) :=
  ⟨dropRow_tidy sound.tidy, fun s row found => sound.pruned s row (dropRow_found found).2,
    fun s row found => sound.free s row (dropRow_found found).2, sound.queued⟩

/-- A symbol that no restricted row holds enters without changing any of them. -/
theorem enter_fewer (sound : Sound P t)
    (unheld : ∀ s r, t.rows.find? s = some r → s.isRestricted = true → r.coefficient z = 0)
    (found : (t.enter z solved).rows.find? s = some row) (restricted : s.isRestricted = true) :
    (s = z ∧ row = solved) ∨ t.rows.find? s = some row := by
  rw [enter_find?] at found
  split at found
  · rename_i same
    exact .inl ⟨same.symm, (Option.some.inj found).symm⟩
  · obtain ⟨before, held, rfl⟩ := Option.map_eq_some_iff.mp found
    have absent : before.holds z = false :=
      (not_holds_iff_coefficient (sound.pruned s before held)).mpr (unheld s before held restricted)
    rw [Row.substitute_of_not_holds absent]
    exact .inr held

theorem enter_queued (sound : Sound P t) :
    ∀ s ∈ (t.enter z solved).infeasible, s.isRestricted = true := by
  intro s queued
  rcases List.mem_append.mp queued with new | old
  · exact (mem_violations.mp (List.mem_reverse.mp new)).choose_spec.2.1
  · exact sound.queued s old

theorem enter_pruned (sound : Sound P t) (pruned : Pruned solved)
    (found : (t.enter z solved).rows.find? s = some row) : Pruned row := by
  rw [enter_find?] at found
  split at found
  · cases found
    exact pruned
  · obtain ⟨before, held, rfl⟩ := Option.map_eq_some_iff.mp found
    exact pruned_substitute (sound.pruned s before held)

/-! ## How far a column may go -/

/-- Every restricted row stays non-negative when a column goes as far as the falling row that is the
first to reach zero lets it. -/
theorem falling_affordable (feasible : Feasible t) (found : t.rows.find? leaving = some row)
    (restricted : leaving.isRestricted = true) (falling : row.coefficient z < 0)
    (first : ∀ s r, t.rows.find? s = some r → s.isRestricted = true → r.coefficient z < 0 →
      -row.constant / row.coefficient z ≤ -r.constant / r.coefficient z) :
    0 ≤ -row.constant / row.coefficient z ∧
      ∀ s r, t.rows.find? s = some r → s.isRestricted = true →
        0 ≤ r.constant + r.coefficient z * (-row.constant / row.coefficient z) := by
  have gone : 0 ≤ -row.constant / row.coefficient z :=
    div_nonneg_of_nonpos (neg_nonpos.mpr (feasible _ _ found restricted)) falling.le
  refine ⟨gone, fun s r present internal => ?_⟩
  rcases lt_or_ge (r.coefficient z) 0 with falls | rises
  · have step := (le_div_iff_of_neg falls).mp (first s r present internal falls)
    linarith
  · exact add_nonneg (feasible s r present internal) (mul_nonneg rises gone)

/-- When no restricted row falls with a column it may go back as far as the rising row that is the first
to reach zero lets it. -/
theorem rising_affordable (feasible : Feasible t)
    (rises : ∀ s r, t.rows.find? s = some r → s.isRestricted = true → 0 ≤ r.coefficient z)
    (first : ∀ s r, t.rows.find? s = some r → s.isRestricted = true → 0 < r.coefficient z →
      row.constant / row.coefficient z ≤ r.constant / r.coefficient z)
    (present : t.rows.find? s = some r) (restricted : s.isRestricted = true) :
    0 ≤ r.constant + r.coefficient z * (-row.constant / row.coefficient z) := by
  rcases (rises s r present restricted).lt_or_eq with grows | still
  · have step := (le_div_iff₀ grows).mp (first s r present restricted grows)
    rw [neg_div]
    linarith
  · rw [← still, zero_mul, add_zero]
    exact feasible s r present restricted

/-! ## One pivot -/

section Pivots
variable (pivoted : Pivoted t t' entering leaving row solved)
include pivoted

/-- What enters through a restricted row is restricted. -/
theorem pivoted_restricted (sound : Sound P t) (restricted : leaving.isRestricted = true) :
    entering.isRestricted = true := by
  by_contra external
  exact pivoted.present (sound.free leaving row pivoted.found restricted entering
    (Symbol.not_isRestricted_iff.mp external))

/-- A pivot between restricted symbols brings a free symbol into no row that was without it. -/
theorem pivoted_free (admitted : entering.isRestricted = true) (restricted : leaving.isRestricted = true)
    (external : z.isExternal = true) (free : row.coefficient z = 0) :
    solved.coefficient z = 0 ∧
      ∀ r : Row Rat, r.coefficient z = 0 → (r.substitute entering solved).coefficient z = 0 := by
  have apart : ∀ {y : Symbol}, y.isRestricted = true → z ≠ y :=
    Symbol.ne_of_isRestricted external
  have solvedFree : solved.coefficient z = 0 := by
    rw [pivoted_coefficient pivoted (apart admitted), if_neg (apart restricted), free]
    simp
  refine ⟨solvedFree, fun r free => ?_⟩
  rw [coefficient_substitute, if_neg (apart admitted), solvedFree, free]
  ring

theorem pivoted_sound (sound : Sound P t) (restricted : leaving.isRestricted = true) :
    Sound P t' := by
  have admitted := pivoted_restricted pivoted sound restricted
  refine ⟨pivoted_tidy pivoted sound.tidy, fun s r found => ?_,
    fun s r found internal z external => ?_, ?_⟩
  · rw [pivoted.result] at found
    exact enter_pruned (dropRow_sound sound)
      (pivoted.pruned (sound.pruned leaving row pivoted.found)) found
  · obtain ⟨solvedFree, kept⟩ := pivoted_free pivoted admitted restricted external
      (sound.free leaving row pivoted.found restricted z external)
    obtain ⟨-, rfl⟩ | ⟨-, -, before, held, rfl⟩ := pivoted_cases pivoted found
    · exact solvedFree
    · exact kept before (sound.free s before held internal z external)
  · rw [pivoted.result]
    exact enter_queued (dropRow_sound sound)

/-- A pivot keeps a tableau feasible when every restricted row can afford it. -/
theorem pivoted_feasible (own : 0 ≤ solved.constant)
    (others : ∀ s r, t.rows.find? s = some r → s.isRestricted = true →
      0 ≤ r.constant + r.coefficient entering * solved.constant) : Feasible t' := by
  intro s r found restricted
  obtain ⟨-, rfl⟩ | ⟨-, -, before, held, rfl⟩ := pivoted_cases pivoted found
  · exact own
  · rw [constant_substitute]
    exact others s before held restricted

/-- A symbol that may enter does not occur in the row of a dummy symbol. -/
theorem pivoted_settled (settled : Settled t) (notDummy : entering.isDummy = false) : Settled t' := by
  intro s r found dummy
  obtain ⟨rfl, -⟩ | ⟨-, -, before, held, rfl⟩ := pivoted_cases pivoted found
  · rw [notDummy] at dummy
    cases dummy
  · obtain ⟨zero, only⟩ := settled s before held dummy
    have absent := only entering notDummy
    refine ⟨?_, fun z notDummy => ?_⟩
    · rw [constant_substitute, zero, absent]
      ring
    · rw [coefficient_substitute, only z notDummy, absent]
      simp

/-- After a pivot every restricted row that has become negative is queued. -/
theorem pivoted_covered (own : 0 ≤ solved.constant) : Covered t' := by
  intro s r found restricted negative
  have here := pivoted_cases pivoted found
  obtain ⟨-, rfl⟩ | ⟨apart, other, before, held, rfl⟩ := here
  · exact absurd negative (not_lt.mpr own)
  · rw [pivoted.result]
    refine List.mem_append_left _ (List.mem_reverse.mpr (mem_violations.mpr ⟨_, ?_, restricted,
      negative⟩))
    simp [dropRow, held, Ne.symm other]

/-- The cheapest column keeps the objective minimal. -/
theorem pivoted_optimal (tidy : Tidy P t) (optimal : Optimal t) (notDummy : entering.isDummy = false)
    (positive : 0 < row.coefficient entering)
    (cheapest : ∀ z, z.isDummy = false → 0 < row.coefficient z →
      t.objective.coefficient entering / row.coefficient entering ≤
        t.objective.coefficient z / row.coefficient z) : Optimal t' := by
  intro z free
  have shape : t'.objective.coefficient z = (if z = entering then 0 else t.objective.coefficient z) +
      t.objective.coefficient entering * solved.coefficient z := by
    rw [← coefficient_substitute, pivoted.result]
    rfl
  have price := optimal entering notDummy
  rw [shape]
  by_cases same : z = entering
  · subst same
    have solvedTidy := pivoted_tidy pivoted tidy
    have found : t'.rows.find? z = some solved := by
      rw [pivoted_find? pivoted, if_pos rfl]
    have absent : solved.coefficient z = 0 := coefficient_of_not_holds
      (not_holds_basic solvedTidy (line_of_find? found) (basic_of_find? found))
    simp [absent]
  · rw [if_neg same, pivoted_coefficient pivoted same]
    by_cases left : z = leaving
    · subst left
      have basic := basic_of_find? pivoted.found
      have own : row.coefficient z = 0 :=
        coefficient_of_not_holds (not_holds_basic tidy (line_of_find? pivoted.found) basic)
      have cost : t.objective.coefficient z = 0 :=
        coefficient_of_not_holds (not_holds_basic tidy line_objective basic)
      rw [if_pos rfl, own, cost, sub_zero, zero_add]
      exact mul_nonneg price (one_div_nonneg.mpr positive.le)
    · rw [if_neg left, zero_sub]
      have spent : t.objective.coefficient entering * (-row.coefficient z / row.coefficient entering) =
          -(t.objective.coefficient entering / row.coefficient entering * row.coefficient z) := by
        ring
      rw [spent]
      have rate : 0 ≤ t.objective.coefficient entering / row.coefficient entering :=
        div_nonneg price positive.le
      rcases le_or_gt (row.coefficient z) 0 with falls | rises
      · have gain := mul_nonpos_of_nonneg_of_nonpos rate falls
        have cost := optimal z free
        linarith
      · have less := (le_div_iff₀ rises).mp (cheapest z free rises)
        linarith

end Pivots

end Cassowary.RatioTests
