import Mathlib.Combinatorics.Pigeonhole
import Cassowary.Proofs.PrimalRounds

/-!
Bland's rule keeps the primal method from cycling. In a cycle of rounds the objective stays as it is, so
all its pivots are degenerate and the values of all symbols stay as well. Of the symbols that enter during
the cycle let the newest be the one to look at. The tableau in which it enters and the one in which it
leaves then disagree about the objective: what is entering in the second would improve it, but in the
first every column that could account for the improvement is newer, or would have had to leave instead.
So no set of basic symbols comes back, and as there are only finitely many the method ends.
-/

namespace Cassowary.Cycling
open Endings MapEntries PivotRuns RowSymbols Separation ExactRows Solutions RatioTests SimplexRuns
open PrimalRounds Tableau
open scoped Exact

variable {P : Symbol → Prop} {t t' : Tableau Rat} {row solved r : Row Rat} {ρ σ : Valuation}
  {s z entering leaving : Symbol}

/-- A row that falls between two valuations falls along one of its cells. -/
theorem exists_falling_cell (falls : eval r ρ < eval r σ) : ∃ z, r.coefficient z * (ρ z - σ z) < 0 := by
  by_contra none
  push Not at none
  have rises : total (fun s x => x * σ s) r.cells ≤ total (fun s x => x * ρ s) r.cells := by
    refine total_le_total fun s x found => ?_
    have cell := none s
    rw [coefficient_of_find? found] at cell
    linarith
  unfold eval at falls
  linarith

/-- The values of a tableau are its only solution whose columns are all zero. -/
theorem eq_value (tidy : Tidy P t) (solves : Solves t ρ) (zero : ∀ s, ¬Basic t s → ρ s = 0) :
    ρ = t.value := by
  funext s
  cases found : t.rows.find? s with
  | none => rw [zero s (not_basic_iff.mpr found), value_of_column (not_basic_iff.mpr found)]
  | some row =>
    rw [solves s row found, value_of_find? found, ← eval_value tidy (line_of_find? found)]
    refine eval_congr fun z held => ?_
    have column := (tidy.line row (line_of_find? found) z held).2
    rw [zero z column, value_of_column column]

/-- A round without effect on the objective changes no value. -/
theorem round_value (round : Round t t' entering leaving row solved) (tidy : Tidy P t)
    (degenerate : solved.constant = 0) : t.value = t'.value := by
  have stays : row.constant = 0 := by
    rw [pivoted_constant round.pivoted] at degenerate
    simpa [round.pivoted.present] using degenerate
  refine eq_value (pivoted_tidy round.pivoted tidy)
    ((pivoted_solves round.pivoted tidy).mpr (solves_value tidy)) fun s column => ?_
  rw [round_basic round, not_or, not_and] at column
  by_cases gone : s = leaving
  · rw [gone, value_of_find? round.pivoted.found, stays]
  · exact value_of_column (column.2 gone)

/-! ## Cycles -/

/-- Rounds that lead back to the basic symbols they have started with. -/
structure Cycle (P : Symbol → Prop) (T : Nat → Tableau Rat) (enters leaves : Nat → Symbol)
    (row solved : Nat → Row Rat) (length : Nat) : Prop where
  positive : 0 < length
  workable : Workable P (T 0)
  round : ∀ k < length, Round (T k) (T (k + 1)) (enters k) (leaves k) (row k) (solved k)
  closed : ∀ s, Basic (T length) s ↔ Basic (T 0) s

section Cycles
variable {T : Nat → Tableau Rat} {enters leaves : Nat → Symbol} {row solved : Nat → Row Rat}
  {length : Nat} (cycle : Cycle P T enters leaves row solved length)
include cycle

theorem cycle_workable : ∀ k ≤ length, Workable P (T k) := by
  intro k within
  induction k with
  | zero => exact cycle.workable
  | succ k ih => exact round_workable (cycle.round k within) (ih (Nat.le_of_succ_le within))

theorem cycle_solves : ∀ k ≤ length, (Solves (T k) ρ ↔ Solves (T 0) ρ) := by
  intro k within
  induction k with
  | zero => exact Iff.rfl
  | succ k ih =>
    have tidy := (cycle_workable cycle k (Nat.le_of_succ_le within)).tidy
    exact (pivoted_solves (cycle.round k within).pivoted tidy).trans (ih (Nat.le_of_succ_le within))

/-- Throughout the cycle the objective has the same value at each solution. -/
theorem cycle_eval (solves : Solves (T 0) ρ) :
    ∀ k ≤ length, eval (T k).objective ρ = eval (T 0).objective ρ := by
  intro k within
  induction k with
  | zero => rfl
  | succ k ih =>
    have now := (cycle_solves cycle k (Nat.le_of_succ_le within)).mpr solves
    rw [round_objective (cycle.round k within), pivoted_eval (cycle.round k within).pivoted now,
      ih (Nat.le_of_succ_le within)]

theorem cycle_falls : ∀ k < length, (T (k + 1)).objective.constant ≤ (T k).objective.constant := by
  intro k below
  have round := cycle.round k below
  have moved := round_nonneg round (cycle_workable cycle k below.le)
  rw [round_constant round, add_le_iff_nonpos_right]
  exact mul_nonpos_of_nonpos_of_nonneg (round_improves round).2.le moved

/-- At the end of the cycle the values are the same as at the start, so the objective is. -/
theorem cycle_returns : (T length).objective.constant = (T 0).objective.constant := by
  have last := cycle_workable cycle length (Nat.le_refl _)
  have solves : Solves (T 0) (T length).value :=
    (cycle_solves cycle length (Nat.le_refl _)).mp (solves_value last.tidy)
  have same : (T length).value = (T 0).value := eq_value cycle.workable.tidy solves fun s column =>
    value_of_column (mt (cycle.closed s).mp column)
  rw [← eval_value last.tidy line_objective, ← eval_value cycle.workable.tidy line_objective,
    cycle_eval cycle solves length (Nat.le_refl _), same]

/-- Since the objective never rises and comes back, it has never fallen. -/
theorem cycle_degenerate : ∀ k < length, (solved k).constant = 0 := by
  have falls : ∀ j ≤ length, ∀ i ≤ j, (T j).objective.constant ≤ (T i).objective.constant := by
    intro j within
    induction j with
    | zero =>
      intro i below
      rw [Nat.le_zero.mp below]
    | succ j ih =>
      intro i below
      rcases Nat.le_or_eq_of_le_succ below with before | same
      · exact (cycle_falls cycle j within).trans (ih (Nat.le_of_succ_le within) i before)
      · rw [same]
  intro k below
  have round := cycle.round k below
  have start := falls k below.le 0 (Nat.zero_le _)
  have finish := falls length (Nat.le_refl _) (k + 1) below
  rw [cycle_returns cycle] at finish
  have still : (T k).objective.coefficient (enters k) * (solved k).constant = 0 := by
    have moved := round_nonneg round (cycle_workable cycle k below.le)
    have improved := mul_nonpos_of_nonpos_of_nonneg (round_improves round).2.le moved
    rw [round_constant round] at finish
    linarith
  exact (mul_eq_zero.mp still).resolve_left (round_improves round).2.ne

theorem cycle_value : ∀ k ≤ length, (T k).value = (T 0).value := by
  intro k within
  induction k with
  | zero => rfl
  | succ k ih =>
    have before := Nat.le_of_succ_le within
    rw [← ih before]
    exact (round_value (cycle.round k within) (cycle_workable cycle k before).tidy
      (cycle_degenerate cycle k within)).symm

/-- A symbol that does not enter during the cycle is basic all the time once it is basic at all. -/
theorem cycle_basic_of_never_enters (never : ∀ k < length, enters k ≠ z) {i j : Nat} (before : i ≤ length)
    (within : j ≤ length) (basic : Basic (T i) z) : Basic (T j) z := by
  have back : ∀ k n, k + n ≤ length → Basic (T (k + n)) z → Basic (T k) z := by
    intro k n inside
    induction n with
    | zero => exact id
    | succ n ih =>
      intro later
      have earlier := (round_basic (cycle.round (k + n) inside)).mp later
      exact ih (Nat.le_of_succ_le inside)
        (earlier.resolve_left fun same => never _ inside same.symm).2
  have start : Basic (T 0) z := back 0 i (by omega) (by rwa [Nat.zero_add])
  have finish : Basic (T (j + (length - j))) z := by
    rw [Nat.add_sub_cancel' within]
    exact (cycle.closed z).mpr start
  exact back j (length - j) (by omega) finish

/-- What has entered during the cycle has left during the cycle. -/
theorem cycle_leaves {k : Nat} (below : k < length) : ∃ j < length, leaves j = enters k := by
  by_contra never
  push Not at never
  have stays : ∀ n i, i + n ≤ length → Basic (T i) (enters k) → Basic (T (i + n)) (enters k) := by
    intro n i inside basic
    induction n with
    | zero => exact basic
    | succ n ih =>
      exact (round_basic (cycle.round (i + n) inside)).mpr
        (.inr ⟨(never _ inside).symm, ih (Nat.le_of_succ_le inside)⟩)
  have entered : Basic (T (k + 1)) (enters k) := (round_basic (cycle.round k below)).mpr (.inl rfl)
  have finish := stays (length - (k + 1)) (k + 1) (by omega) entered
  rw [Nat.add_sub_cancel' below, cycle.closed] at finish
  have again := stays k 0 (by omega) finish
  rw [Nat.zero_add] at again
  exact pivoted_column (cycle.round k below).pivoted (cycle_workable cycle k below.le).tidy again

/-- When the column of one round goes up, the objective of any other round falls along some symbol. -/
theorem cycle_conflict {p q : Nat} (below : p < length) (below' : q < length) :
    ∃ z, (T q).objective.coefficient z * (ray (T p) (enters p) 1 z - (T p).value z) < 0 := by
  have tidy := (cycle_workable cycle p below.le).tidy
  have falling := (round_improves (cycle.round p below)).2
  have moved : ∀ ρ, Solves (T p) ρ → eval (T q).objective ρ = eval (T p).objective ρ := by
    intro ρ solves
    have start := (cycle_solves cycle p below.le).mp solves
    rw [cycle_eval cycle start q below'.le, cycle_eval cycle start p below.le]
  apply exists_falling_cell
  rw [moved _ (solves_ray tidy), moved _ (solves_value tidy), eval_ray tidy line_objective,
    eval_value tidy line_objective]
  linarith

omit cycle in
/-- How a symbol moves when the column of a round goes up. -/
theorem round_moves {p : Nat} (moves : ray (T p) (enters p) 1 z - (T p).value z ≠ 0) :
    (z = enters p ∧ ray (T p) (enters p) 1 z - (T p).value z = 1) ∨
      ∃ r, (T p).rows.find? z = some r ∧
        ray (T p) (enters p) 1 z - (T p).value z = r.coefficient (enters p) := by
  cases found : (T p).rows.find? z with
  | none =>
    rw [ray_of_column (not_basic_iff.mpr found), value_of_column (not_basic_iff.mpr found), sub_zero]
      at moves ⊢
    split at moves
    · rename_i same
      exact .inl ⟨same, if_pos same⟩
    · exact absurd rfl moves
  | some r =>
    refine .inr ⟨r, rfl, ?_⟩
    rw [ray_of_basic found, value_of_find? found]
    ring

/-- A row that is zero and falls as the entering column goes up is tied with the row that leaves. -/
theorem leaves_oldest {p : Nat} (below : p < length) (found : (T p).rows.find? z = some r)
    (restricted : z.isRestricted = true) (zero : r.constant = 0) (falling : r.coefficient (enters p) < 0) :
    (leaves p).id ≤ z.id := by
  have round := cycle.round p below
  refine leavingRow?_oldest round.leaves found restricted falling ?_
  rw [← pivoted_constant round.pivoted, cycle_degenerate cycle p below, zero, neg_zero, zero_div]

/-- There is no cycle. -/
theorem cycle_impossible (numbered : ∀ s z, P s → P z → s.id = z.id → s = z) : False := by
  obtain ⟨q, inside, newest⟩ := Finset.exists_max_image (Finset.range length) (fun k => (enters k).id)
    ⟨0, Finset.mem_range.mpr cycle.positive⟩
  simp only [Finset.mem_range] at inside newest
  obtain ⟨p, below, same⟩ := cycle_leaves cycle inside
  -- the newest symbol that enters does so in round `q` and leaves in round `p`
  have enter := cycle.round q inside
  have leave := cycle.round p below
  have tidy := (cycle_workable cycle p below.le).tidy
  have tidy' := (cycle_workable cycle q inside.le).tidy
  obtain ⟨notDummy, falling⟩ := round_improves enter
  obtain ⟨found, -, shrinks, -⟩ := leavingRow?_exact leave.leaves
  obtain ⟨z, conflict⟩ := cycle_conflict cycle below inside
  have weighs : (T q).objective.coefficient z ≠ 0 := left_ne_zero_of_mul conflict.ne
  have moves : ray (T p) (enters p) 1 z - (T p).value z ≠ 0 := right_ne_zero_of_mul conflict.ne
  obtain ⟨inP, column⟩ := tidy'.line _ line_objective z (holds_of_coefficient weighs)
  have inP' : P (enters q) := (tidy'.line _ line_objective _ (holds_of_coefficient falling.ne)).1
  -- a symbol other than the newest one improves the objective of round `q` only if it is newer still
  have older : z.isDummy = false → (T q).objective.coefficient z < 0 → z.id ≤ (enters q).id →
      z = enters q := fun notDummy falls bound =>
    numbered z _ inP inP' (Nat.le_antisymm bound (enteringSymbol?_oldest enter.chosen notDummy falls))
  obtain ⟨rfl, up⟩ | ⟨r, held, along⟩ := round_moves moves
  · rw [up, mul_one] at conflict
    have twice := older (round_improves leave).1 conflict (newest p below)
    exact pivoted_apart leave.pivoted tidy (twice.trans same.symm)
  · rw [along] at conflict
    have basic : Basic (T p) z := basic_of_find? held
    -- it is basic in round `p` and a column in round `q`, so it enters at some time
    obtain ⟨k, within, rfl⟩ : ∃ k < length, enters k = z := by
      by_contra never
      push Not at never
      exact column (cycle_basic_of_never_enters cycle never below.le inside.le basic)
    have free := (round_improves (cycle.round k within)).1
    rcases lt_or_gt_of_ne weighs with improves | worsens
    · have newestOne := older free improves (newest k within)
      rw [newestOne, ← same, found] at held
      cases held
      exact absurd conflict (mul_pos_of_neg_of_neg improves shrinks).not_gt
    · have falls : r.coefficient (enters p) < 0 := (pos_iff_neg_of_mul_neg conflict).mp worsens
      have zero : r.constant = 0 := by
        rw [← value_of_find? held, cycle_value cycle p below.le, ← cycle_value cycle q inside.le,
          value_of_column column]
      have restricted : (enters k).isRestricted = true := by
        by_contra external
        exact weighs ((cycle_workable cycle q inside.le).aims _
          (Symbol.not_isRestricted_iff.mp external))
      have bound := leaves_oldest cycle below held restricted zero falls
      rw [same] at bound
      have newestOne := numbered _ _ inP inP' (Nat.le_antisymm (newest k within) bound)
      rw [newestOne] at worsens
      exact absurd worsens falling.not_gt

end Cycles

/-! ## How long the method goes on -/

/-- The basic symbols of a tableau. -/
def basis (t : Tableau Rat) : Finset Symbol := t.rows.keys.toFinset

theorem mem_basis : z ∈ basis t ↔ Basic t z := by
  rw [basis, List.mem_toFinset, OrderedMap.mem_keys_iff]
  rfl

/-- No set of basic symbols comes back. -/
theorem bases_differ (workable : Workable P t) (numbered : ∀ s z, P s → P z → s.id = z.id → s = z)
    {i j : Nat} (less : i < j) (lasts : Lasts t j) : basis (next^[i] t) ≠ basis (next^[j] t) := by
  intro same
  have rounds : ∀ k, ∃ entering leaving row solved, k < j - i →
      Round (next^[i + k] t) (next^[i + (k + 1)] t) entering leaving row solved := by
    intro k
    by_cases below : k < j - i
    · have within : i + k < j := by omega
      obtain ⟨entering, leaving, row, solved, round, -⟩ :=
        next_workable (iterate_workable workable lasts (i + k) within.le) (lasts (i + k) within)
      rw [← Function.iterate_succ_apply' next] at round
      exact ⟨entering, leaving, row, solved, fun _ => round⟩
    · exact ⟨⟨0, .dummy⟩, ⟨0, .dummy⟩, .ofConstant 0, .ofConstant 0, fun inside => absurd inside below⟩
  choose enters leaves row solved round using rounds
  have cycle : Cycle P (fun k => next^[i + k] t) enters leaves row solved (j - i) := by
    refine ⟨Nat.sub_pos_of_lt less, iterate_workable workable lasts i less.le, round, fun s => ?_⟩
    rw [Nat.add_sub_cancel' less.le, Nat.add_zero, ← mem_basis, ← mem_basis, same]
  exact cycle_impossible cycle numbered

theorem lasts_mono {i j : Nat} (less : i ≤ j) (lasts : Lasts t j) : Lasts t i :=
  fun k below => lasts k (below.trans_le less)

/-- There are no more rounds than sets of symbols. -/
theorem lasts_bounded {symbols : Finset Symbol} (workable : Workable (· ∈ symbols) t)
    (numbered : ∀ s z, s ∈ symbols → z ∈ symbols → s.id = z.id → s = z) {rounds : Nat}
    (lasts : Lasts t rounds) : rounds < 2 ^ symbols.card := by
  by_contra many
  have crowded : symbols.powerset.card < (Finset.range (rounds + 1)).card := by
    rw [Finset.card_powerset, Finset.card_range]
    omega
  have inside : ∀ k ∈ Finset.range (rounds + 1), basis (next^[k] t) ∈ symbols.powerset := by
    intro k within
    have tidy := (iterate_workable workable lasts k (by simpa [Nat.lt_succ_iff] using within)).tidy
    exact Finset.mem_powerset.mpr fun s basic => tidy.basic s (mem_basis.mp basic)
  obtain ⟨i, within, j, within', apart, same⟩ :=
    Finset.exists_ne_map_eq_of_card_lt_of_maps_to crowded inside
  rw [Finset.mem_range, Nat.lt_succ_iff] at within within'
  rcases Nat.lt_or_gt_of_ne apart with less | more
  · exact bases_differ workable numbered less (lasts_mono within' lasts) same
  · exact bases_differ workable numbered more (lasts_mono within lasts) same.symm

/-! ## One objective of a tableau -/

/-- The second tableau has the rows of the first one and its objective for the goal. -/
structure Shows (goal : Goal) (t b : Tableau Rat) : Prop where
  rows : t.rows = b.rows
  objective : t.objectiveRow? goal = some b.objective

variable {goal : Goal} {b : Tableau Rat}

theorem shows_dropResidue (shows : Shows goal t b) :
    Shows goal (t.dropResidue z goal) (b.dropResidue z .primary) := by
  cases goal with
  | primary =>
    exact ⟨shows.rows, congrArg (Option.map (Row.remove · z)) shows.objective⟩
  | artificial =>
    exact ⟨shows.rows, congrArg (Option.map (Row.remove · z)) shows.objective⟩

theorem shows_dropRow (shows : Shows goal t b) : Shows goal (t.dropRow z) (b.dropRow z) := by
  refine ⟨congrArg (OrderedMap.erase · z) shows.rows, ?_⟩
  cases goal <;> exact shows.objective

theorem shows_enter (shows : Shows goal t b) : Shows goal (t.enter z row) (b.enter z row) := by
  refine ⟨by simp only [enter, substitute, shows.rows], ?_⟩
  cases goal <;> exact congrArg (Option.map (Row.substitute · z row)) shows.objective

theorem shows_exchange (shows : Shows goal t b) :
    (t.exchange entering leaving row).error? = (b.exchange entering leaving row).error? ∧
      Shows goal (t.exchange entering leaving row).state (b.exchange entering leaving row).state := by
  unfold exchange
  dsimp only
  split
  · exact ⟨rfl, shows_dropRow shows⟩
  · exact ⟨rfl, shows_enter (shows_dropRow shows)⟩

/-- A round for one goal looks at the rows and at the objective of that goal only. -/
theorem shows_primalStep? (shows : Shows goal t b) :
    (t.primalStep? goal = none ∧ b.primalStep? .primary = none) ∨
      ∃ o o', t.primalStep? goal = some o ∧ b.primalStep? .primary = some o' ∧
        o.error? = o'.error? ∧ Shows goal o.state o'.state := by
  have leaves : ∀ z, t.leavingRow? z = b.leavingRow? z := by
    simp [leavingRow?, leavingPicks, shows.rows]
  have sought : b.objectiveRow? .primary = some b.objective := rfl
  simp only [primalStep?, shows.objective, sought, leaves, Option.bind_eq_bind, Option.bind_some]
  cases enteringSymbol? b.objective with
  | none => exact .inl ⟨rfl, rfl⟩
  | some entering =>
    dsimp only [Option.bind_some]
    cases b.leavingRow? entering with
    | none => exact .inr ⟨_, _, rfl, rfl, rfl, shows_dropResidue shows⟩
    | some found => exact .inr ⟨_, _, rfl, rfl, shows_exchange shows⟩

theorem shows_optimizeWithin (shows : Shows goal t b) (limit : Nat) (events events' : List PivotEvent) :
    (optimizeWithin goal limit t events).error? =
        (optimizeWithin .primary limit b events').error? ∧
      Shows goal (optimizeWithin goal limit t events).state
        (optimizeWithin .primary limit b events').state := by
  induction limit generalizing t b events events' with
  | zero => exact ⟨rfl, shows⟩
  | succ limit ih =>
    unfold optimizeWithin
    obtain ⟨ends, ends'⟩ | ⟨⟨next, error, reported⟩, ⟨next', error', reported'⟩, steps, steps', same, after⟩ :=
      shows_primalStep? shows
    · rw [ends, ends']
      exact ⟨rfl, shows⟩
    · obtain rfl : error = error' := same
      rw [steps, steps']
      cases error with
      | none => exact ih after _ _
      | some error => exact ⟨rfl, after⟩

/-! ## The primal method ends -/

/-- The row is one of the tableau's or the objective. -/
def Part (t : Tableau Rat) (r row : Row Rat) : Prop := (∃ s, t.rows.find? s = some row) ∨ row = r

/-- The symbols of a tableau and an objective. -/
def symbols (t : Tableau Rat) (r : Row Rat) : Finset Symbol :=
  basis t ∪ ((r :: t.rows.toList.map Prod.snd).flatMap fun row => row.cells.keys).toFinset

/-- An objective that the primal method can make minimal over a tableau: no row and not the objective
holds a basic symbol, symbols are told apart by their numbers, restricted basic symbols are not negative
and do not depend on free symbols, nor does the objective, and the objective is bounded below where no
restricted symbol is negative and the dummy symbols among the columns are zero. -/
structure Posed (t : Tableau Rat) (r : Row Rat) : Prop where
  columns : ∀ row, Part t r row → ∀ s, row.holds s = true → ¬Basic t s
  numbered : ∀ s z, s ∈ symbols t r → z ∈ symbols t r → s.id = z.id → s = z
  feasible : Feasible t
  free : ∀ s row, t.rows.find? s = some row → s.isRestricted = true →
    ∀ z, z.isExternal = true → row.coefficient z = 0
  aims : ∀ z, z.isExternal = true → r.coefficient z = 0
  bounded : ∃ low, ∀ ρ, Solves t ρ → (∀ s, s.isRestricted = true → 0 ≤ ρ s) →
    (∀ z, ¬Basic t z → z.isDummy = true → ρ z = 0) → low ≤ eval r ρ

theorem mem_symbols (part : Part t r row) (held : row.holds z = true) : z ∈ symbols t r := by
  refine Finset.mem_union_right _ (List.mem_toFinset.mpr (List.mem_flatMap.mpr ⟨row, ?_, ?_⟩))
  · obtain ⟨s, found⟩ | rfl := part
    · exact List.mem_cons_of_mem _ (List.mem_map.mpr ⟨(s, row), mem_toList_iff.mpr found, rfl⟩)
    · exact List.mem_cons_self
  · exact holds_iff_mem_keys.mp held

theorem posed_workable (posed : Posed t r) :
    Workable (· ∈ symbols t r) { rows := t.rows, objective := r } where
  tidy :=
    { basic := fun s basic => Finset.mem_union_left _ (mem_basis.mpr basic)
      line := by
        rintro row (found | same | ⟨⟨⟩⟩) s held
        · exact ⟨mem_symbols (.inl found) held, posed.columns row (.inl found) s held⟩
        · exact ⟨mem_symbols (.inr same) held, posed.columns row (.inr same) s held⟩ }
  feasible := posed.feasible
  free := posed.free
  aims := posed.aims
  bounded := posed.bounded

/-- The primal method makes no round that leads back to a set of basic symbols that it has been at
before, and it makes fewer rounds than there are sets of symbols. It ends with an objective that no
column but dummy symbols could improve. -/
theorem primal_method_never_cycles (sought : t.objectiveRow? goal = some r) (posed : Posed t r) :
    (∀ i j, i < j → (optimizeWithin goal j t []).error? = some (.internal .pivotLimit) →
      basis (optimizeWithin goal i t []).state ≠ basis (optimizeWithin goal j t []).state) ∧
    ∀ limit, 2 ^ (symbols t r).card ≤ limit →
      (optimizeWithin goal limit t []).error? = none ∧
        ∃ r', (optimizeWithin goal limit t []).state.objectiveRow? goal = some r' ∧
          ∀ z, z.isDummy = false → 0 ≤ r'.coefficient z := by
  have workable := posed_workable posed
  have shows : Shows goal t { rows := t.rows, objective := r } := ⟨rfl, sought⟩
  refine ⟨fun i j less going => ?_, fun limit large => ?_⟩
  · obtain ⟨stateI, -⟩ := optimizeWithin_rounds workable i []
    obtain ⟨stateJ, -, ended⟩ := optimizeWithin_rounds workable j []
    obtain ⟨-, same⟩ := shows_optimizeWithin shows i [] []
    obtain ⟨error, same'⟩ := shows_optimizeWithin shows j [] []
    have lasts : Lasts { rows := t.rows, objective := r } j := by
      by_contra never
      rw [error, (ended never).1] at going
      cases going
    have differ := bases_differ workable posed.numbered less lasts
    rwa [← stateI, ← stateJ, basis, basis, ← same.rows, ← same'.rows] at differ
  · obtain ⟨-, -, ended⟩ := optimizeWithin_rounds workable limit []
    obtain ⟨error, same⟩ := shows_optimizeWithin shows limit [] []
    obtain ⟨fine, stuck⟩ := ended fun lasts =>
      absurd (lasts_bounded workable posed.numbered lasts) (Nat.not_lt.mpr large)
    exact ⟨error.trans fine, _, same.objective, fun z notDummy =>
      coefficient_of_stuck stuck rfl notDummy⟩

/-- Two rows that fall with the column that improves the objective, the first of which is zero from the
start. -/
def degenerate : Tableau Rat where
  rows := ((∅ : OrderedMap Symbol (Row Rat)).insert ⟨1, .slack⟩
    (((Row.ofConstant 0).insertSymbol ⟨3, .slack⟩ (-1)).insertSymbol ⟨4, .slack⟩ 1)).insert ⟨2, .slack⟩
      ((Row.ofConstant 1).insertSymbol ⟨3, .slack⟩ (-1))
  objective := (Row.ofConstant 0).insertSymbol ⟨3, .slack⟩ (-1)

/-- Its rows and its objective hold no basic and no free symbol. -/
theorem degenerate_holds (part : Part degenerate degenerate.objective row) (held : row.holds s = true) :
    degenerate.rows.contains s = false ∧ s.isExternal = false := by
  have all : ∀ row ∈ degenerate.objective :: degenerate.rows.toList.map Prod.snd,
      ∀ s ∈ row.cells.keys, degenerate.rows.contains s = false ∧ s.isExternal = false := by
    decide +kernel
  refine all row ?_ s (holds_iff_mem_keys.mp held)
  obtain ⟨z, found⟩ | rfl := part
  · exact List.mem_cons_of_mem _ (List.mem_map.mpr ⟨(z, row), mem_toList_iff.mpr found, rfl⟩)
  · exact List.mem_cons_self

theorem degenerate_free (part : Part degenerate degenerate.objective row)
    (external : z.isExternal = true) : row.coefficient z = 0 := by
  by_contra weighs
  have internal := (degenerate_holds part (holds_of_coefficient weighs)).2
  rw [external] at internal
  cases internal

theorem degenerate_posed : Posed degenerate degenerate.objective where
  columns row part s held basic := by
    rw [Basic, (degenerate_holds part held).1] at basic
    cases basic
  numbered := by
    have apart : ∀ s ∈ symbols degenerate degenerate.objective,
        ∀ z ∈ symbols degenerate degenerate.objective, s.id = z.id → s = z := by
      decide +kernel
    exact fun s z inside inside' => apart s inside z inside'
  feasible s row found _ := by
    have all : ∀ entry ∈ degenerate.rows.toList, (0 : Rat) ≤ entry.2.constant := by decide +kernel
    exact all (s, row) (mem_toList_iff.mpr found)
  free s row found _ z external := degenerate_free (.inl ⟨s, found⟩) external
  aims z external := degenerate_free (.inr rfl) external
  bounded := by
    refine ⟨-1, fun ρ solves nonneg _ => ?_⟩
    have second := solves ⟨2, .slack⟩ _ rfl
    have above := nonneg ⟨2, .slack⟩ rfl
    rw [second] at above
    simp only [degenerate, eval_insertSymbol, eval_ofConstant] at above ⊢
    linarith

theorem primal_method_never_cycles_degenerate :
    Posed degenerate degenerate.objective ∧
      (∀ i j, i < j → (optimizeWithin .primary j degenerate []).error? = some (.internal .pivotLimit) →
        basis (optimizeWithin .primary i degenerate []).state ≠
          basis (optimizeWithin .primary j degenerate []).state) ∧
      ∀ limit, 2 ^ (symbols degenerate degenerate.objective).card ≤ limit →
        (optimizeWithin .primary limit degenerate []).error? = none ∧
          ∃ r', (optimizeWithin .primary limit degenerate []).state.objectiveRow? .primary = some r' ∧
            ∀ z, z.isDummy = false → 0 ≤ r'.coefficient z :=
  ⟨degenerate_posed, primal_method_never_cycles rfl degenerate_posed⟩

end Cassowary.Cycling
