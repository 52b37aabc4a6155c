import Mathlib.Tactic.NormNum
import Cassowary.Proofs.ExactRows
import Cassowary.Proofs.PivotRuns
import Cassowary.Proofs.Tolerance
import Cassowary.Session

/-!
Ratios that nearly tie. Two ratios within the tolerance count as equal and the lower number wins, so that
the candidate in hand may give way to one that is slightly worse. Near ties are not transitive: each
candidate of a row of near ties with falling numbers supplants the one before, and the last of them can be
worse than the first by almost the tolerance for each step. Nothing else makes the ratio test miss the
least ratio.
-/

namespace Cassowary.NearTies
open MapEntries PivotRuns Tableau Tolerant

variable {p q best first next : Pick Rat} {picks rest : List (Pick Rat)} {t : Tableau Rat}
  {row other : Row Rat} {s entering leaving : Symbol}

theorem approxEq_iff {x y : Rat} : Scalar.approxEq x y = true ↔ |x - y| < Scalar.tolerance :=
  nearZero_iff

/-- A candidate takes the place of another that it nearly ties with, since its number is lower. -/
def Supplants (p next : Pick Rat) : Prop :=
  |next.ratio - p.ratio| < Scalar.tolerance ∧ next.symbol.id < p.symbol.id

/-- A candidate is preferred if it is clearly less, or if it nearly ties and has the lower number. -/
theorem beats_iff (kind : p.allDummies = best.allDummies) : p.beats best = true ↔
    p.ratio < best.ratio - Scalar.tolerance ∨ Supplants best p := by
  unfold Pick.beats Supplants
  rw [← approxEq_iff]
  by_cases less : p.ratio < best.ratio - Scalar.tolerance
  · simp [less]
  · cases near : Scalar.approxEq p.ratio best.ratio <;> simp [less, kind]

theorem better_of_beats (preferred : p.beats best = true) : Pick.better best p = p := if_pos preferred

theorem better_of_not_beats (preferred : ¬p.beats best = true) : Pick.better best p = best :=
  if_neg preferred

/-- A candidate that is not preferred is not clearly less. -/
theorem le_of_not_beats (kind : p.allDummies = best.allDummies) (kept : ¬p.beats best = true) :
    best.ratio ≤ p.ratio + Scalar.tolerance := by
  rw [beats_iff kind, not_or, not_lt] at kept
  linarith [kept.1]

/-- Of two candidates the one that is kept is worse than neither by more than the tolerance. -/
theorem better_le (kind : p.allDummies = best.allDummies) :
    (Pick.better best p).ratio ≤ best.ratio + Scalar.tolerance ∧
      (Pick.better best p).ratio ≤ p.ratio + Scalar.tolerance := by
  have positive := tolerance_pos
  by_cases preferred : p.beats best = true
  · rw [better_of_beats preferred]
    obtain less | ⟨near, -⟩ := (beats_iff kind).mp preferred
    · constructor <;> linarith
    · have upper := (abs_lt.mp near).2
      constructor <;> linarith
  · rw [better_of_not_beats preferred]
    exact ⟨by linarith, le_of_not_beats kind preferred⟩

/-! ## Looking at all candidates -/

/-- What a best candidate promises: a candidate behind it is less by at most the tolerance, and one
before it by at most the tolerance for each candidate before it. -/
structure NearlyLeast (picks : List (Pick Rat)) (best : Pick Rat) (earlier later : List (Pick Rat)) :
    Prop where
  split : picks = earlier ++ best :: later
  earlier : ∀ p ∈ earlier, best.ratio ≤ p.ratio + earlier.length * Scalar.tolerance
  later : ∀ p ∈ later, best.ratio ≤ p.ratio + Scalar.tolerance

/-- A candidate that is passed over changes nothing for the candidates behind it. -/
theorem nearlyLeast_skip {earlier later : List (Pick Rat)} (kind : next.allDummies = p.allDummies)
    (kept : ¬next.beats p = true) (least : NearlyLeast (p :: rest) best earlier later) :
    ∃ earlier' later', NearlyLeast (p :: next :: rest) best earlier' later' := by
  have near := le_of_not_beats kind kept
  have positive := tolerance_pos
  cases earlier with
  | nil =>
    obtain ⟨rfl, rfl⟩ := List.cons.inj least.split
    refine ⟨[], next :: rest, rfl, by simp, ?_⟩
    rintro q (_ | ⟨_, member⟩)
    · exact near
    · exact least.later q member
  | cons first earlier =>
    obtain ⟨rfl, rfl⟩ := List.cons.inj least.split
    have start := least.earlier p List.mem_cons_self
    refine ⟨p :: next :: earlier, later, rfl, ?_, least.later⟩
    push_cast [List.length_cons] at start ⊢
    rintro q (_ | ⟨_, _ | ⟨_, member⟩⟩)
    · linarith
    · linarith
    · have bound := least.earlier q (List.mem_cons_of_mem _ member)
      push_cast [List.length_cons] at bound
      linarith

/-- A candidate that is supplanted is less than the best one by at most one more tolerance. -/
theorem nearlyLeast_supplanted {earlier later : List (Pick Rat)}
    (near : next.ratio ≤ p.ratio + Scalar.tolerance)
    (least : NearlyLeast (next :: rest) best earlier later) :
    NearlyLeast (p :: next :: rest) best (p :: earlier) later := by
  have positive := tolerance_pos
  refine ⟨congrArg (p :: ·) least.split, ?_, least.later⟩
  push_cast [List.length_cons]
  rintro q (_ | ⟨_, member⟩)
  · cases earlier with
    | nil =>
      obtain ⟨rfl, -⟩ := List.cons.inj least.split
      simpa using near
    | cons first earlier =>
      obtain ⟨rfl, -⟩ := List.cons.inj least.split
      have start := least.earlier next List.mem_cons_self
      linarith
  · linarith [least.earlier q member]

theorem foldl_better_nearlyLeast (rest : List (Pick Rat)) (best : Pick Rat)
    (plain : ∀ p ∈ best :: rest, p.allDummies = false) :
    ∃ earlier later, NearlyLeast (best :: rest) (rest.foldl Pick.better best) earlier later := by
  induction rest generalizing best with
  | nil => exact ⟨[], [], rfl, by simp, by simp⟩
  | cons next rest ih =>
    obtain ⟨old, others⟩ := List.forall_mem_cons.mp plain
    obtain ⟨new, behind⟩ := List.forall_mem_cons.mp others
    have kind := new.trans old.symm
    rw [List.foldl_cons]
    by_cases preferred : next.beats best = true
    · obtain ⟨earlier, later, least⟩ := ih next others
      have near := (better_le kind).1
      rw [better_of_beats preferred] at near ⊢
      exact ⟨_, _, nearlyLeast_supplanted near least⟩
    · obtain ⟨earlier, later, least⟩ := ih best (List.forall_mem_cons.mpr ⟨old, behind⟩)
      rw [better_of_not_beats preferred]
      exact nearlyLeast_skip kind preferred least

theorem best?_nearlyLeast (plain : ∀ p ∈ picks, p.allDummies = false)
    (found : Pick.best? picks = some best) :
    ∃ earlier later, NearlyLeast picks best earlier later := by
  cases picks with
  | nil => cases found
  | cons first rest =>
    cases found
    exact foldl_better_nearlyLeast rest first plain

/-- The best candidate is worse than another by at most the tolerance for each further candidate. -/
theorem nearlyLeast_le {earlier later : List (Pick Rat)}
    (least : NearlyLeast picks best earlier later) (member : p ∈ picks) :
    best.ratio ≤ p.ratio + (picks.length - 1 : Nat) * Scalar.tolerance := by
  have positive := tolerance_pos
  have length : picks.length - 1 = earlier.length + later.length := by
    simp only [least.split, List.length_append, List.length_cons]
    omega
  rw [length]
  push_cast
  rw [least.split, List.mem_append, List.mem_cons] at member
  rcases member with before | rfl | behind
  · have bound := least.earlier p before
    have rest : 0 ≤ (later.length : Rat) * Scalar.tolerance := by positivity
    linarith
  · have rest : 0 ≤ ((earlier.length : Rat) + later.length) * Scalar.tolerance := by positivity
    linarith
  · have bound := least.later p behind
    have one : (1 : Rat) ≤ later.length := by exact_mod_cast List.length_pos_of_mem behind
    have rest : 0 ≤ (earlier.length : Rat) * Scalar.tolerance := by positivity
    nlinarith

/-- Where any two ratios are equal or further apart than the tolerance, comparing with the tolerance is
comparing exactly. -/
def Separated (picks : List (Pick Rat)) : Prop :=
  ∀ p ∈ picks, ∀ q ∈ picks, |p.ratio - q.ratio| ≤ Scalar.tolerance → p.ratio = q.ratio

theorem foldl_better_least (rest : List (Pick Rat)) (best : Pick Rat)
    (plain : ∀ p ∈ best :: rest, p.allDummies = false) (separated : Separated (best :: rest)) :
    ∀ p ∈ best :: rest, (rest.foldl Pick.better best).ratio ≤ p.ratio := by
  induction rest generalizing best with
  | nil => simp
  | cons next rest ih =>
    obtain ⟨old, others⟩ := List.forall_mem_cons.mp plain
    obtain ⟨new, behind⟩ := List.forall_mem_cons.mp others
    have kind := new.trans old.symm
    have apart := separated next (by simp) best (by simp)
    have positive := tolerance_pos
    rw [List.foldl_cons]
    by_cases preferred : next.beats best = true
    · rw [better_of_beats preferred]
      have least := ih next others fun p hp q hq => separated p (.tail _ hp) q (.tail _ hq)
      have below : next.ratio ≤ best.ratio := by
        obtain less | ⟨near, -⟩ := (beats_iff kind).mp preferred
        · linarith
        · exact (apart near.le).le
      refine List.forall_mem_cons.mpr ⟨?_, least⟩
      exact (least next List.mem_cons_self).trans below
    · rw [better_of_not_beats preferred]
      have sub : ∀ p ∈ best :: rest, p ∈ best :: next :: rest := by
        simp only [List.mem_cons]
        tauto
      have least := ih best (List.forall_mem_cons.mpr ⟨old, behind⟩)
        fun p hp q hq => separated p (sub p hp) q (sub q hq)
      have above : best.ratio ≤ next.ratio := by
        by_contra less
        have near := le_of_not_beats kind preferred
        have same := apart (abs_le.mpr ⟨by linarith, by linarith⟩)
        exact less same.ge
      obtain ⟨first, later⟩ := List.forall_mem_cons.mp least
      exact List.forall_mem_cons.mpr ⟨first, List.forall_mem_cons.mpr ⟨first.trans above, later⟩⟩

theorem best?_least (plain : ∀ p ∈ picks, p.allDummies = false) (separated : Separated picks)
    (found : Pick.best? picks = some best) : ∀ p ∈ picks, best.ratio ≤ p.ratio := by
  cases picks with
  | nil => cases found
  | cons first rest =>
    cases found
    exact foldl_better_least rest first plain separated

/-! ## The leaving row -/

/-- How far the entering symbol may grow until the row reaches zero. -/
def ratio (row : Row Rat) (entering : Symbol) : Rat := -row.constant / row.coefficient entering

/-- The row takes part in the ratio test for the entering symbol. -/
def Candidate (t : Tableau Rat) (entering s : Symbol) (row : Row Rat) : Prop :=
  t.rows.find? s = some row ∧ s.isRestricted = true ∧
    Scalar.isNegative (row.coefficient entering) = true

/-- The row that leaves is a candidate. Its ratio exceeds that of a candidate behind it by at most the
tolerance, and that of any candidate by at most the tolerance for each candidate but one, which is the
tolerance itself where there are two. Where no two ratios differ by the tolerance or less without being
equal, its ratio is the least. -/
theorem leaving_ratio_nearly_least (found : t.leavingRow? entering = some (leaving, row)) :
    Candidate t entering leaving row ∧
      (∃ earlier later, NearlyLeast (t.leavingPicks entering) ⟨ratio row entering, leaving, false⟩
        earlier later) ∧
      ∀ s other, Candidate t entering s other →
        ratio row entering ≤ ratio other entering +
          ((t.leavingPicks entering).length - 1 : Nat) * Scalar.tolerance ∧
        (Separated (t.leavingPicks entering) → ratio row entering ≤ ratio other entering) := by
  obtain ⟨held, best, chosen, rfl⟩ := leavingRow?_eq_some found
  obtain ⟨s, row', held', restricted, negative, rfl⟩ := mem_leavingPicks.mp (Pick.best?_mem chosen)
  obtain rfl := Option.some.inj (held.symm.trans held')
  obtain ⟨earlier, later, least⟩ := best?_nearlyLeast (fun p => leavingPicks_plain) chosen
  refine ⟨⟨held, restricted, negative⟩, ⟨earlier, later, least⟩, ?_⟩
  rintro s other ⟨held', restricted', negative'⟩
  have member := mem_leavingPicks.mpr ⟨s, other, held', restricted', negative', rfl⟩
  have bound := nearlyLeast_le least member
  refine ⟨bound, fun separated => ?_⟩
  exact best?_least (fun p => leavingPicks_plain) separated chosen _ member

/-- Three quantities that each make up, together with a fourth one, almost the same sum. The sums were
asked for in the order of the quantities from the last to the first. -/
def crowded : List (Command Rat) :=
  let a : Variable := ⟨0, none⟩
  let b : Variable := ⟨1, none⟩
  let c : Variable := ⟨2, none⟩
  let y : Variable := ⟨3, none⟩
  let atLeastZero (v : Variable) : Constraint Rat :=
    .relate (.ofVariable v) .greaterOrEqual (.ofScalar 0)
  let sum (v : Variable) (x : Rat) : Constraint Rat :=
    .make (.ofVariable v + .ofVariable y - .ofScalar x) .equal .strong
  [.add 0 (atLeastZero a), .add 1 (atLeastZero b), .add 2 (atLeastZero c), .add 3 (atLeastZero y),
    .add 4 (sum c 1), .add 5 (sum b (1 + 9 / 10 ^ 9)), .add 6 (sum a (1 + 18 / 10 ^ 9))]

/-- The tableau in which the fourth quantity starts to grow towards ten. -/
def crowdedTableau : Tableau Rat :=
  let c : Constraint Rat := .make (.ofVariable ⟨3, none⟩ - .ofScalar 10) .equal .weak
  (((Session.run ⟨∅, {}⟩ crowded).solver.draft c).install c).state.tableau

/-- The row of the first quantity leaves, although the last one reaches zero before it. -/
theorem crowdedTableau_leaving :
    ((crowdedTableau.leavingRow? ⟨8, .slack⟩).map fun found => (found.1, ratio found.2 ⟨8, .slack⟩)) =
      some (⟨2, .slack⟩, 1 + 18 / 10 ^ 9) := by
  decide +kernel

theorem crowdedTableau_candidate :
    ((crowdedTableau.rows.find? ⟨6, .slack⟩).map fun row =>
      (Scalar.isNegative (row.coefficient ⟨8, .slack⟩), ratio row ⟨8, .slack⟩)) = some (true, 1) := by
  decide +kernel

theorem leaving_ratio_nearly_least_crowded :
    ∃ row, crowdedTableau.leavingRow? ⟨8, .slack⟩ = some (⟨2, .slack⟩, row) ∧
      Candidate crowdedTableau ⟨8, .slack⟩ ⟨2, .slack⟩ row ∧
      (∃ earlier later, NearlyLeast (crowdedTableau.leavingPicks ⟨8, .slack⟩)
        ⟨ratio row ⟨8, .slack⟩, ⟨2, .slack⟩, false⟩ earlier later) ∧
      ∀ s other, Candidate crowdedTableau ⟨8, .slack⟩ s other →
        ratio row ⟨8, .slack⟩ ≤ ratio other ⟨8, .slack⟩ +
          ((crowdedTableau.leavingPicks ⟨8, .slack⟩).length - 1 : Nat) * Scalar.tolerance ∧
        (Separated (crowdedTableau.leavingPicks ⟨8, .slack⟩) →
          ratio row ⟨8, .slack⟩ ≤ ratio other ⟨8, .slack⟩) := by
  obtain ⟨⟨leaving, row⟩, found, same⟩ := Option.map_eq_some_iff.mp crowdedTableau_leaving
  obtain ⟨rfl, -⟩ := Prod.mk.inj same
  exact ⟨row, found, leaving_ratio_nearly_least found⟩

/-- A chain of near ties may lead to a row that reaches zero later than another by more than the
tolerance. -/
theorem near_ties_may_add_up :
    ¬∀ (t : Tableau Rat) (entering leaving : Symbol) (row : Row Rat),
      t.leavingRow? entering = some (leaving, row) → ∀ s other, Candidate t entering s other →
        ratio row entering ≤ ratio other entering + Scalar.tolerance := by
  intro all
  obtain ⟨⟨leaving, row⟩, found, same⟩ := Option.map_eq_some_iff.mp crowdedTableau_leaving
  obtain ⟨other, held, same'⟩ := Option.map_eq_some_iff.mp crowdedTableau_candidate
  obtain ⟨-, last⟩ := Prod.mk.inj same
  obtain ⟨negative, least⟩ := Prod.mk.inj same'
  have bound := all crowdedTableau ⟨8, .slack⟩ leaving row found ⟨6, .slack⟩ other ⟨held, rfl, negative⟩
  dsimp only at last
  rw [last, least] at bound
  norm_num [Scalar.tolerance] at bound

end Cassowary.NearTies
