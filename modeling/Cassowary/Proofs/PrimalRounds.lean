import Cassowary.Proofs.SimplexRuns

/-!
The rounds of the primal method on a bounded objective, in exact arithmetic. Every round is a pivot: the
oldest column that improves the objective enters, and of the restricted rows that are the first to reach
zero the oldest leaves. A round keeps the tableau such that there is another round until no column
improves the objective, and it never raises the objective.
-/

namespace Cassowary.PrimalRounds
open Endings MapEntries PivotRuns RowSymbols Separation ExactRows Solutions RatioTests SimplexRuns Tableau
open scoped Exact

variable {P : Symbol → Prop} {t t' : Tableau Rat} {row solved r : Row Rat} {ρ σ : Valuation}
  {s z entering leaving : Symbol} {p q best : Pick Rat} {picks : List (Pick Rat)}

/-! ## Ties -/

/-- The first of two candidates is not to be looked past for the second: its ratio is less, or it is the
same and its number is no higher. -/
def Precedes (p q : Pick Rat) : Prop :=
  p.ratio < q.ratio ∨ p.ratio = q.ratio ∧ p.symbol.id ≤ q.symbol.id

theorem precedes_refl : Precedes p p := .inr ⟨rfl, Nat.le_refl _⟩

theorem precedes_trans {o : Pick Rat} (first : Precedes o p) (second : Precedes p q) :
    Precedes o q := by
  obtain less | ⟨same, older⟩ := first <;> obtain less' | ⟨same', older'⟩ := second
  · exact .inl (less.trans less')
  · exact .inl (same' ▸ less)
  · exact .inl (same ▸ less')
  · exact .inr ⟨same.trans same', older.trans older'⟩

/-- Compared exactly, a candidate is preferred if its ratio is less, or the same and its number lower. -/
theorem beats_iff (kind : p.allDummies = best.allDummies) : p.beats best = true ↔
    p.ratio < best.ratio ∨ p.ratio = best.ratio ∧ p.symbol.id < best.symbol.id := by
  unfold Pick.beats
  rw [tolerance_eq, sub_zero, ← sub_eq_zero (a := p.ratio), ← nearZero_iff]
  by_cases less : p.ratio < best.ratio
  · simp [less]
  · cases tie : Scalar.approxEq p.ratio best.ratio <;> simp_all [Scalar.approxEq]

theorem better_precedes (kind : p.allDummies = best.allDummies) :
    Precedes (Pick.better best p) best ∧ Precedes (Pick.better best p) p := by
  by_cases preferred : p.beats best = true
  · rw [Pick.better, if_pos preferred]
    rw [beats_iff kind] at preferred
    exact ⟨preferred.imp_right (And.imp_right Nat.le_of_lt), precedes_refl⟩
  · rw [Pick.better, if_neg preferred]
    rw [beats_iff kind, not_or, not_and, not_lt, not_lt] at preferred
    refine ⟨precedes_refl, ?_⟩
    rcases preferred.1.lt_or_eq with less | same
    · exact .inl less
    · exact .inr ⟨same, preferred.2 same.symm⟩

theorem foldl_better_precedes (rest : List (Pick Rat)) (best : Pick Rat)
    (plain : ∀ p ∈ best :: rest, p.allDummies = false) :
    ∀ p ∈ best :: rest, Precedes (rest.foldl Pick.better best) p := by
  induction rest generalizing best with
  | nil =>
    rintro p (_ | ⟨_, ⟨⟩⟩)
    exact precedes_refl
  | cons next rest ih =>
    obtain ⟨old, others⟩ := List.forall_mem_cons.mp plain
    obtain ⟨new, behind⟩ := List.forall_mem_cons.mp others
    have kind : (Pick.better best next).allDummies = false := by
      unfold Pick.better
      split <;> assumption
    obtain ⟨before, before'⟩ := better_precedes (new.trans old.symm)
    obtain ⟨first, later⟩ :=
      List.forall_mem_cons.mp (ih (Pick.better best next) (List.forall_mem_cons.mpr ⟨kind, behind⟩))
    exact List.forall_mem_cons.mpr ⟨precedes_trans first before,
      List.forall_mem_cons.mpr ⟨precedes_trans first before', later⟩⟩

/-- Among the rows that are the first to reach zero, the oldest one leaves. -/
theorem leavingRow?_oldest (found : t.leavingRow? entering = some (leaving, row))
    (present : t.rows.find? s = some r) (restricted : s.isRestricted = true)
    (falling : r.coefficient entering < 0)
    (tie : -r.constant / r.coefficient entering = -row.constant / row.coefficient entering) :
    leaving.id ≤ s.id := by
  obtain ⟨held, best, chosen, rfl⟩ := leavingRow?_eq_some found
  obtain ⟨z, row', held', -, -, rfl⟩ := mem_leavingPicks.mp (Pick.best?_mem chosen)
  cases held.symm.trans held'
  have member := mem_leavingPicks.mpr ⟨s, r, present, restricted, isNegative_iff.mpr falling, rfl⟩
  have plain : ∀ p ∈ t.leavingPicks entering, p.allDummies = false := fun p => leavingPicks_plain
  cases listed : t.leavingPicks entering with
  | nil => simp [listed] at member
  | cons first rest =>
    rw [listed] at chosen member plain
    obtain same := Option.some.inj chosen
    have precedes := foldl_better_precedes rest first plain _ member
    rw [same] at precedes
    obtain less | ⟨-, older⟩ := precedes
    · exact absurd tie less.ne'
    · exact older

/-- The oldest column that improves the objective enters. -/
theorem enteringSymbol?_oldest (chosen : enteringSymbol? r = some entering) (notDummy : z.isDummy = false)
    (falling : r.coefficient z < 0) : entering.id ≤ z.id := by
  obtain ⟨x, held⟩ := holds_iff.mp (holds_of_coefficient falling.ne)
  rw [coefficient_of_find? held] at falling
  exact (Symbol.oldest?_eq_some chosen).2 z (List.mem_map.mpr ⟨(z, x), List.mem_filter.mpr
    ⟨mem_toList_iff.mpr held, by simp [notDummy, falling]⟩, rfl⟩)

/-! ## What a round needs and keeps -/

/-- A tableau that the primal method can make minimal: restricted symbols are not made to depend on free
ones, nor is the objective, and the objective stays above some value as long as no restricted symbol is
negative and the dummy symbols among the columns are zero. -/
structure Workable (P : Symbol → Prop) (t : Tableau Rat) : Prop where
  tidy : Tidy P t
  feasible : Feasible t
  free : ∀ s row, t.rows.find? s = some row → s.isRestricted = true →
    ∀ z, z.isExternal = true → row.coefficient z = 0
  aims : ∀ z, z.isExternal = true → t.objective.coefficient z = 0
  bounded : ∃ low, ∀ ρ, Solves t ρ → (∀ s, s.isRestricted = true → 0 ≤ ρ s) →
    (∀ z, ¬Basic t z → z.isDummy = true → ρ z = 0) → low ≤ eval t.objective ρ

/-- One round: the column that is chosen enters through the row that is chosen. -/
structure Round (t t' : Tableau Rat) (entering leaving : Symbol) (row solved : Row Rat) : Prop where
  chosen : enteringSymbol? t.objective = some entering
  leaves : t.leavingRow? entering = some (leaving, row)
  pivoted : Pivoted t t' entering leaving row solved

/-- A column that improves the objective and is bounded by no row could grow forever. -/
theorem workable_leaves (workable : Workable P t) (notDummy : entering.isDummy = false)
    (falling : t.objective.coefficient entering < 0) : t.leavingRow? entering ≠ none := by
  intro missing
  obtain ⟨low, bound⟩ := workable.bounded
  obtain ⟨x, nonneg, below⟩ := unbounded_ray workable.tidy workable.feasible line_objective missing
    falling low
  refine absurd (bound _ (solves_ray workable.tidy) nonneg fun z column dummy => ?_) (not_le.mpr below)
  rw [ray_of_column column, if_neg]
  rintro rfl
  rw [notDummy] at dummy
  cases dummy

/-- There is a round unless the objective is minimal. -/
theorem workable_round (workable : Workable P t) (chosen : enteringSymbol? t.objective = some entering) :
    ∃ t' leaving row solved, Round t t' entering leaving row solved := by
  obtain ⟨notDummy, x, held, falling⟩ := enteringSymbol?_eq_some chosen
  rw [isNegative_iff, ← coefficient_of_find? held] at falling
  obtain ⟨⟨leaving, row⟩, leaves⟩ :=
    Option.ne_none_iff_exists'.mp (workable_leaves workable notDummy falling)
  obtain ⟨found, -, shrinks, -⟩ := leavingRow?_exact leaves
  obtain ⟨t', solved, pivoted⟩ := exchange_exact workable.tidy found shrinks.ne
  exact ⟨t', leaving, row, solved, chosen, leaves, pivoted⟩

section Rounds
variable (round : Round t t' entering leaving row solved)
include round

theorem round_improves : entering.isDummy = false ∧ t.objective.coefficient entering < 0 := by
  obtain ⟨notDummy, x, held, falling⟩ := enteringSymbol?_eq_some round.chosen
  rw [isNegative_iff, ← coefficient_of_find? held] at falling
  exact ⟨notDummy, falling⟩

theorem round_basic : Basic t' z ↔ z = entering ∨ z ≠ leaving ∧ Basic t z := by
  simp only [Basic, contains_iff, pivoted_find? round.pivoted]
  by_cases enters : entering = z
  · simp [enters]
  · by_cases leaves : leaving = z
    · simp [enters, leaves, Ne.symm enters]
    · simp [enters, leaves, Ne.symm enters, Ne.symm leaves]

theorem round_objective : t'.objective = t.objective.substitute entering solved := by
  rw [round.pivoted.result]
  rfl

/-- The entering column does not go below zero. -/
theorem round_nonneg (workable : Workable P t) : 0 ≤ solved.constant := by
  obtain ⟨found, restricted, shrinks, first⟩ := leavingRow?_exact round.leaves
  rw [pivoted_constant round.pivoted]
  exact (falling_affordable workable.feasible found restricted shrinks first).1

theorem round_constant : t'.objective.constant =
    t.objective.constant + t.objective.coefficient entering * solved.constant := by
  rw [round_objective round, constant_substitute]

/-- What may enter and what may leave is restricted, so no restricted row comes to hold a free symbol. -/
theorem round_workable (workable : Workable P t) : Workable P t' := by
  obtain ⟨found, restricted, -, -⟩ := leavingRow?_exact round.leaves
  obtain ⟨notDummy, falling⟩ := round_improves round
  have admitted : entering.isRestricted = true := by
    by_contra free
    exact falling.ne (workable.aims _ (Symbol.not_isRestricted_iff.mp free))
  have free := fun z (external : z.isExternal = true) => pivoted_free round.pivoted admitted restricted
    external (workable.free leaving row found restricted z external)
  refine ⟨pivoted_tidy round.pivoted workable.tidy, primal_feasible round.pivoted workable.feasible
    round.leaves, fun s r present internal z external => ?_, fun z external => ?_, ?_⟩
  · obtain ⟨-, rfl⟩ | ⟨-, -, before, held, rfl⟩ := pivoted_cases round.pivoted present
    · exact (free z external).1
    · exact (free z external).2 before (workable.free s before held internal z external)
  · rw [round_objective round]
    exact (free z external).2 _ (workable.aims z external)
  · obtain ⟨low, bound⟩ := workable.bounded
    refine ⟨low, fun ρ solves nonneg zero => ?_⟩
    have before := (pivoted_solves round.pivoted workable.tidy).mp solves
    rw [round_objective round, pivoted_eval round.pivoted before]
    refine bound ρ before nonneg fun z column dummy => zero z ?_ dummy
    rw [round_basic round]
    rintro (rfl | ⟨-, basic⟩)
    · rw [notDummy] at dummy
      cases dummy
    · exact column basic

end Rounds

/-! ## Round after round -/

/-- The tableau after one more round, or the same one if the objective is minimal. -/
def next (t : Tableau Rat) : Tableau Rat :=
  match t.primalStep? .primary with
  | none => t
  | some o => o.state

/-- The method could make this many rounds and more. -/
def Lasts (t : Tableau Rat) (rounds : Nat) : Prop :=
  ∀ k < rounds, (next^[k] t).primalStep? .primary ≠ none

theorem next_workable (workable : Workable P t) (going : t.primalStep? .primary ≠ none) :
    ∃ entering leaving row solved, Round t (next t) entering leaving row solved ∧
      t.primalStep? .primary = some ((Outcome.ok (next t)).report (.primal entering leaving)) := by
  obtain ⟨o, stepped⟩ := Option.ne_none_iff_exists'.mp going
  obtain ⟨objective, entering, sought, chosen, done⟩ := primalStep?_eq_some stepped
  cases sought
  obtain ⟨t', leaving, row, solved, round⟩ := workable_round workable chosen
  obtain ⟨missing, -⟩ | ⟨leaving', row', leaves, rfl⟩ := done
  · exact absurd (missing.symm.trans round.leaves) (by simp)
  · cases leaves.symm.trans round.leaves
    rw [round.pivoted.went] at stepped
    have same : next t = t' := by
      unfold next
      rw [stepped]
      rfl
    rw [same]
    exact ⟨entering, leaving, row, solved, round, stepped⟩

theorem iterate_workable (workable : Workable P t) {rounds : Nat} (lasts : Lasts t rounds) :
    ∀ k ≤ rounds, Workable P (next^[k] t) := by
  intro k within
  induction k with
  | zero => exact workable
  | succ k ih =>
    have now := ih (Nat.le_of_succ_le within)
    obtain ⟨_, _, _, _, round, -⟩ := next_workable now (lasts k within)
    rw [Function.iterate_succ_apply']
    exact round_workable round now

/-- The loop makes one round after the other. It ends at its limit if there could be as many rounds, and
with a minimal objective otherwise. -/
theorem optimizeWithin_rounds (workable : Workable P t) (limit : Nat) (events : List PivotEvent) :
    (optimizeWithin .primary limit t events).state = next^[limit] t ∧
      (Lasts t limit →
        (optimizeWithin .primary limit t events).error? = some (.internal .pivotLimit)) ∧
      (¬Lasts t limit → (optimizeWithin .primary limit t events).error? = none ∧
        (optimizeWithin .primary limit t events).state.primalStep? .primary = none) := by
  induction limit generalizing t events with
  | zero => exact ⟨rfl, fun _ => rfl, fun never => absurd (fun _ below => by cases below) never⟩
  | succ limit ih =>
    cases stepped : t.primalStep? .primary with
    | none =>
      have stuck : next t = t := by
        unfold next
        rw [stepped]
      have still : next^[limit + 1] t = t := Function.iterate_fixed stuck _
      unfold optimizeWithin
      rw [stepped]
      exact ⟨still.symm, fun lasts => absurd stepped (lasts 0 (Nat.succ_pos _)), fun _ => ⟨rfl, stepped⟩⟩
    | some o =>
      obtain ⟨entering, leaving, row, solved, round, same⟩ :=
        next_workable workable (by simp [stepped])
      obtain rfl := Option.some.inj (stepped.symm.trans same)
      have lasts : Lasts t (limit + 1) ↔ Lasts (next t) limit := by
        refine ⟨fun lasts k below => lasts (k + 1) (Nat.succ_lt_succ below), fun lasts k below => ?_⟩
        cases k with
        | zero => simp [stepped]
        | succ k => exact lasts k (Nat.lt_of_succ_lt_succ below)
      unfold optimizeWithin
      rw [stepped, lasts, Function.iterate_succ_apply]
      exact ih (round_workable round workable) _

end Cassowary.PrimalRounds
