import Cassowary.Proofs.FaithfulRuns
import Cassowary.Proofs.Upkeep

/-!
How a removal fails. Pivots are made on rows that hold the entering symbol, so the methods fail for lack
of a column or at their limit, and never in the middle of a pivot. A constraint whose marker is not basic
is taken out through a row in which the coefficient of the marker counts. When the marker has been scaled
below the tolerance everywhere there is no such row, and the removal fails. In exact arithmetic there
always is one, and what is left is feasible, so that only the limit can be in the way.
-/

namespace Cassowary.Removals
open Endings MapEntries RowSymbols Separation Bookkeeping Drafting SolverBooks SessionBooks Upkeep
open Tableau Solver

variable {α : Type} [Scalar α] {P : Symbol → Prop} {t : Tableau α} {row : Row α} {z : Symbol}
  {entering leaving : Symbol} {s : Solver α} {h : Handle} {p : Posting α}

/-- Zero counts as zero, and not as negative. -/
structure ZeroCounts (α : Type) [Scalar α] : Prop where
  near : Scalar.nearZero (0 : α) = true
  notNegative : Scalar.isNegative (0 : α) = false

theorem float_zeroCounts : ZeroCounts Float := by
  constructor <;> decide +kernel

theorem holds_of_counts (zero : ZeroCounts α) (counts : Scalar.nearZero (row.coefficient z) = false) :
    row.holds z = true := by
  by_contra absent
  rw [coefficient_of_not_holds (by simpa using absent), zero.near] at counts
  cases counts

theorem holds_of_negative (zero : ZeroCounts α)
    (negative : Scalar.isNegative (row.coefficient z) = true) : row.holds z = true := by
  by_contra absent
  rw [coefficient_of_not_holds (by simpa using absent), zero.notNegative] at negative
  cases negative

/-- A pivot on a row that holds the entering symbol succeeds. -/
theorem exchange_succeeds (held : row.holds entering = true) (apart : entering ≠ leaving) :
    (t.exchange entering leaving row).error? = none := by
  obtain ⟨solved, went⟩ := solveForSymbols_succeeds (ε := PivotEvent) held apart
  unfold exchange
  rw [went]
  rfl

/-! ## The methods -/

theorem primalStep?_succeeds {goal : Goal} {o : Outcome PivotEvent (Tableau α)}
    (zero : ZeroCounts α) (tidy : Tidy P t) (stepped : t.primalStep? goal = some o) :
    o.error? = none := by
  obtain ⟨objective, entering, sought, chosen, ⟨-, rfl⟩ | ⟨leaving, row, found, rfl⟩⟩ :=
    PivotRuns.primalStep?_eq_some stepped
  · rfl
  · obtain ⟨basic, pick, best, rfl⟩ := PivotRuns.leavingRow?_eq_some found
    obtain ⟨s, row', found', -, negative, rfl⟩ :=
      PivotRuns.mem_leavingPicks.mp (Pick.best?_mem best)
    cases basic.symm.trans found'
    refine exchange_succeeds (holds_of_negative zero negative) ?_
    rintro rfl
    exact entering_column tidy sought chosen (basic_of_find? basic)

/-- The primal method fails at its limit only. -/
theorem optimize_fails (goal : Goal) (zero : ZeroCounts α) (tidy : Tidy P t) :
    Ends (t.optimize goal) (Tidy P) (fun error _ => error = .internal .pivotLimit) := by
  refine ends_mono (PivotRuns.optimizeWithin_ends (Q := Tidy P) (fun _ _ => rfl) ?_ pivotLimit [] tidy)
    (fun _ ended => ended.1) fun _ _ failed => failed
  intro t o tidy stepped
  exact ends_of_error?_none (primalStep?_succeeds zero tidy stepped) (primalStep?_tidy tidy stepped)

/-- Lack of a column, or too many pivots. -/
def Stuck (error : SolverError) : Prop :=
  error = .internal .noEnteringSymbol ∨ error = .internal .pivotLimit

/-- The dual method fails for lack of a column or at its limit. -/
theorem dualOptimize_fails (tidy : Tidy P t) :
    Ends t.dualOptimize (fun _ => True) (fun error _ => Stuck error) := by
  refine ends_mono (PivotRuns.dualOptimizeWithin_ends (Q := Tidy P) (fun _ _ _ _ _ _ _ => .inl rfl)
    (fun _ _ _ _ _ _ => .inr rfl) ?_ pivotLimit [] tidy) (fun _ _ => trivial) fun _ _ failed => failed
  intro t leaving row queue entering tidy next chosen
  have found := (PivotRuns.nextInfeasible?_eq_some next).1
  obtain ⟨held, column⟩ := repairing_column tidy found chosen
  refine ends_of_error?_none (exchange_succeeds held ?_) (exchange_tidy entering (queue_tidy tidy queue)
    (line_of_find? found) (tidy.basic _ (basic_of_find? found)))
  rintro rfl
  exact column (basic_of_find? found)

/-- Both methods, one after the other. -/
def settling (t : Tableau α) : Outcome PivotEvent (Tableau α) :=
  (t.optimize .primary).andThen dualOptimize

theorem settling_fails (zero : ZeroCounts α) (tidy : Tidy P t) :
    Ends (settling t) (fun _ => True) (fun error _ => Stuck error) := by
  unfold settling
  rw [ends_andThen]
  exact ends_mono (optimize_fails .primary zero tidy) (fun _ tidy => dualOptimize_fails tidy)
    fun _ _ limit => .inr limit

/-! ## Markers -/

/-- A symbol that the removal of its constraint can find: it is basic, or its coefficient counts in
some row. -/
def Seen (t : Tableau α) (z : Symbol) : Prop :=
  Basic t z ∨ ∃ key row, t.rows.find? key = some row ∧ Scalar.nearZero (row.coefficient z) = false

/-- A basic marker takes its row with it, one that is not seen cannot leave, and any other is replaced
everywhere as the row that gives way to it says. -/
theorem evict_cases (zero : ZeroCounts α) :
    (Basic t z ∧ t.evict z = .ok (t.dropRow z)) ∨
      (¬Seen t z ∧ t.evict z = .fail t (.internal .noLeavingRow)) ∨
      (¬Basic t z ∧ ∃ leaving solved, t.evict z =
        (Outcome.ok ((t.dropRow leaving).substitute z solved)).report (.primal z leaving)) := by
  by_cases basic : t.rows.contains z = true
  · refine .inl ⟨basic, ?_⟩
    unfold evict
    rw [if_pos basic]
  · cases chosen : t.markerRow? z with
    | none =>
      refine .inr (.inl ⟨?_, ?_⟩)
      · rintro (here | ⟨key, row, found, counts⟩)
        · exact basic here
        · rw [PivotRuns.markerRow?_eq_none chosen found] at counts
          cases counts
      · unfold evict
        rw [if_neg basic, chosen]
    | some entry =>
      obtain ⟨leaving, row⟩ := entry
      have counts := (PivotRuns.markerRow?_eq_some chosen).2.1
      obtain ⟨solved, -, went⟩ := evict_through basic chosen (holds_of_counts zero counts)
      exact .inr (.inr ⟨basic, leaving, solved, went⟩)

theorem evict_of_seen (zero : ZeroCounts α) (seen : Seen t z) : (t.evict z).error? = none := by
  obtain ⟨-, went⟩ | ⟨unseen, -⟩ | ⟨-, leaving, solved, went⟩ := evict_cases zero (t := t) (z := z)
  · rw [went]
    rfl
  · exact absurd seen unseen
  · rw [went]
    rfl

theorem evict_of_unseen (unseen : ¬Seen t z) :
    (t.evict z).error? = some (.internal .noLeavingRow) := by
  unfold evict
  split
  · rename_i basic
    exact absurd (.inl basic) unseen
  · split
    · rfl
    · rename_i leaving row found
      obtain ⟨basic, counts, -⟩ := PivotRuns.markerRow?_eq_some found
      exact absurd (.inr ⟨leaving, row, basic, counts⟩) unseen

/-! ## Removals -/

/-- What is left of a tableau when the symbols of a constraint have been taken out of it. -/
def without (t : Tableau α) (p : Posting α) : Tableau α :=
  let t := ((t.refund p.tag p.constraint.strength.value).evict p.tag.marker).state
  p.tag.other.elim t t.dropSymbol

theorem refunded_tidy (orderly : Orderly s) (found : s.postings.find? h = some p) :
    Tidy (Minted s.minted) (s.tableau.refund p.tag p.constraint.strength.value) :=
  refund_tidy orderly.tidy fun _ member => (tag_symbol orderly.books.postings found member).2

theorem without_tidy (orderly : Orderly s) (found : s.postings.find? h = some p) :
    Tidy (Minted s.minted) (without s.tableau p) := by
  have evicted : Tidy (Minted s.minted)
      ((s.tableau.refund p.tag p.constraint.strength.value).evict p.tag.marker).state :=
    evict_tidy (refunded_tidy orderly found)
  unfold without
  cases p.tag.other with
  | none => exact evicted
  | some other => exact dropSymbol_tidy evicted

/-- Retracting a constraint fails as its marker fails to leave, and else as settling what is left does. -/
theorem retract_error? (found : s.postings.find? h = some p) : (s.retract h).error? =
    ((s.tableau.refund p.tag p.constraint.strength.value).evict p.tag.marker).error?.or
      (settling (without s.tableau p)).error? := by
  unfold retract
  rw [found]
  dsimp only
  rw [Outcome.andThen_error?, Outcome.andThen_error?]
  congr 1
  exact Option.or_none

theorem retract_of_seen (zero : ZeroCounts α) (found : s.postings.find? h = some p)
    (seen : Seen s.tableau p.tag.marker) :
    (s.retract h).error? = (settling (without s.tableau p)).error? := by
  rw [retract_error? found, evict_of_seen zero (t := s.tableau.refund _ _) seen, Option.none_or]

theorem retract_of_unseen (found : s.postings.find? h = some p)
    (unseen : ¬Seen s.tableau p.tag.marker) :
    (s.retract h).error? = some (.internal .noLeavingRow) := by
  rw [retract_error? found, evict_of_unseen (t := s.tableau.refund _ _) unseen, Option.some_or]

/-- After every run of calls on doubles, a constraint that is in the solver is removed just when its
marker is seen and what is left settles. The removal fails for lack of a row just when the marker is not
seen, and else only for lack of a column or at the pivot limit. Either way the solver forgets the
constraint. -/
theorem removal_succeeds_iff (store : Store Float) (commands : List (Command Float)) (id : Nat)
    (held : (Session.run ⟨∅, store⟩ commands).solver.contains id = true) :
    let s := (Session.run ⟨∅, store⟩ commands).solver
    ∃ p, s.postings.find? (.posted id) = some p ∧
      ((s.remove id).error? = none ↔
        Seen s.tableau p.tag.marker ∧ (settling (without s.tableau p)).error? = none) ∧
      ((s.remove id).error? = some (.internal .noLeavingRow) ↔ ¬Seen s.tableau p.tag.marker) ∧
      (∀ error, (s.remove id).error? = some error →
        error = .internal .noLeavingRow ∨ Stuck error) ∧
      (s.remove id).state.contains id = false := by
  intro s
  have orderly : Orderly s := run_orderly store commands
  obtain ⟨p, found⟩ := contains_iff.mp held
  have stuck : ∀ error, (settling (without s.tableau p)).error? = some error → Stuck error :=
    fun _ => ends_of_error_some (settling_fails float_zeroCounts (without_tidy orderly found))
  have forgotten : (s.remove id).state.contains id = false := by
    have postings : (s.remove id).state.postings = s.postings.erase (.posted id) :=
      (retract_books _ _).2
    rw [contains, postings, not_contains_iff, OrderedMap.find?_erase, if_pos rfl]
  refine ⟨p, found, ?_⟩
  by_cases seen : Seen s.tableau p.tag.marker
  · have error? : (s.remove id).error? = (settling (without s.tableau p)).error? :=
      retract_of_seen float_zeroCounts found seen
    rw [error?]
    refine ⟨by simp [seen], ⟨fun missing => ?_, fun unseen => absurd seen unseen⟩,
      fun error stopped => .inr (stuck error stopped), forgotten⟩
    obtain column | limit := stuck _ missing
    · cases column
    · cases limit
  · have error? : (s.remove id).error? = some (.internal .noLeavingRow) :=
      retract_of_unseen found seen
    rw [error?]
    refine ⟨by simp [seen], by simp [seen], fun error same => .inl ?_, forgotten⟩
    cases same
    rfl

/-- A required bound on a quantity that counts a billion times. -/
def steepFloor : List (Command Float) :=
  [.add 0 (.make ⟨[⟨⟨0, none⟩, 1e9⟩], 0⟩ .greaterOrEqual .required)]

theorem steepFloor_held : (Session.run ⟨∅, {}⟩ steepFloor).solver.contains 0 = true := by
  decide +kernel

theorem removal_succeeds_iff_steep :
    (Session.run ⟨∅, {}⟩ steepFloor).solver.contains 0 = true ∧
      let s := (Session.run ⟨∅, {}⟩ steepFloor).solver
      ∃ p, s.postings.find? (.posted 0) = some p ∧
        ((s.remove 0).error? = none ↔
          Seen s.tableau p.tag.marker ∧ (settling (without s.tableau p)).error? = none) ∧
        ((s.remove 0).error? = some (.internal .noLeavingRow) ↔ ¬Seen s.tableau p.tag.marker) ∧
        (∀ error, (s.remove 0).error? = some error →
          error = .internal .noLeavingRow ∨ Stuck error) ∧
        (s.remove 0).state.contains 0 = false :=
  ⟨steepFloor_held, removal_succeeds_iff {} steepFloor 0 steepFloor_held⟩

/-- A constraint that is in the solver may be impossible to remove. The row of the variable is the only
one that holds the slack symbol of the floor, and its coefficient there counts as zero. -/
theorem removal_may_fail :
    ¬∀ (store : Store Float) (commands : List (Command Float)) (id : Nat),
      FiniteInputs store commands → Untroubled ⟨∅, store⟩ commands →
        (Session.run ⟨∅, store⟩ commands).solver.contains id = true →
          ((Session.run ⟨∅, store⟩ commands).solver.remove id).error? = none := by
  intro all
  have removed := all {} steepFloor 0 (finiteInputs_of_all (by decide +kernel))
    (untroubled_of_errors (by decide +kernel)) steepFloor_held
  revert removed
  decide +kernel

/-! ## Exact arithmetic -/

section Exact
open ExactRows Solutions RatioTests SimplexRuns Evictions Meaning Representations Fidelity FaithfulRuns
open scoped Exact

variable {P : Symbol → Prop} {t : Tableau Rat} {s : Solver Rat} {h : Handle} {p : Posting Rat}

theorem rational_zeroCounts : ZeroCounts Rat := by
  constructor <;> simp

/-- In exact arithmetic the marker of a constraint is always seen: solutions could not tell one that is
not, but the equation of the constraint does. -/
theorem marker_seen (faithful : Faithful s) (found : s.postings.find? h = some p) :
    Seen s.tableau p.tag.marker := by
  by_contra unseen
  have column : ¬Basic s.tableau p.tag.marker := fun basic => unseen (.inl basic)
  have absent : ∀ key row, s.tableau.rows.find? key = some row →
      row.coefficient p.tag.marker = 0 := by
    intro key row held
    by_contra counts
    exact unseen (.inr ⟨key, row, held, nearZero_eq_false.mpr counts⟩)
  have own : p.tag.marker ∈ p.tag.symbols := by simp [Tag.symbols]
  have anywhere : ∀ x, Equation (current s.edits h p.constraint) p.tag
      (reading s.tracked s.tableau.value) (Function.update s.tableau.value p.tag.marker x) := by
    intro x
    have solves : Solves s.tableau (Function.update s.tableau.value p.tag.marker x) := by
      intro key row held
      have apart : key ≠ p.tag.marker := by
        rintro rfl
        exact column (basic_of_find? held)
      rw [Function.update_of_ne apart, eval_update, absent key row held, zero_mul, add_zero]
      exact solves_value faithful.sound.tidy key row held
    rw [← reading_update faithful.orderly found own]
    exact (faithful.represents _).mp solves h p found
  exact absurd (equation_determines_marker (tag_apart faithful.orderly found) (anywhere 0) (anywhere 1))
    zero_ne_one

/-- A feasible tableau needs no repair. -/
theorem dualOptimize_of_feasible (sound : Sound P t) (feasible : Feasible t) :
    t.dualOptimize.error? = none := by
  have idle : ∀ (t : Tableau Rat) leaving row queue, Sound P t ∧ Feasible t →
      nextInfeasible? t.rows t.infeasible ≠ some (leaving, row, queue) := by
    rintro t leaving row queue ⟨sound, feasible⟩ next
    obtain ⟨found, negative, queued, -⟩ := PivotRuns.nextInfeasible?_eq_some next
    have start := feasible leaving row found (sound.queued leaving queued)
    exact absurd (isNegative_iff.mp negative) (not_lt.mpr start)
  have ended : Ends t.dualOptimize _ (fun _ _ => False) :=
    PivotRuns.dualOptimizeWithin_ends (Q := fun t => Sound P t ∧ Feasible t)
      (fun t leaving row queue good next _ => idle t leaving row queue good next)
      (fun t leaving row queue good next => idle t leaving row queue good next)
      (fun t leaving row queue _ good next _ => absurd next (idle t leaving row queue good))
      pivotLimit [] ⟨sound, feasible⟩
  cases stopped : t.dualOptimize.error? with
  | none => rfl
  | some error => exact (ends_of_error_some ended stopped).elim

theorem settling_of_feasible (sound : Sound P t) (feasible : Feasible t) :
    Ends (settling t) (fun _ => True) (fun error _ => error = .internal .pivotLimit) := by
  unfold settling
  rw [ends_andThen]
  refine ends_mono (ends_and (optimize_fails .primary rational_zeroCounts sound.tidy)
    (optimize_improved sound feasible)) ?_ fun _ _ both => both.1
  rintro t' ⟨-, improved, -⟩
  exact ends_of_error?_none (dualOptimize_of_feasible improved.sound improved.feasible) trivial

theorem without_feasible (faithful : Faithful s) (found : s.postings.find? h = some p) :
    Sound (Minted s.minted) (without s.tableau p) ∧ Feasible (without s.tableau p) := by
  have refunded : Sound (Minted s.minted)
      (s.tableau.refund p.tag p.constraint.strength.value) :=
    sound_of_rows faithful.sound (refunded_tidy faithful.orderly found) rfl rfl
  have leaves : Ends ((s.tableau.refund p.tag p.constraint.strength.value).evict p.tag.marker)
      (Evicted (Minted s.minted) p.tag.marker _) _ := evict_evicted refunded faithful.feasible
  have evicted := ends_of_error_none leaves
    (evict_of_seen rational_zeroCounts (t := s.tableau.refund _ _) (marker_seen faithful found))
  exact dropped_feasible p.tag evicted

/-- In exact arithmetic, as long as no internal error has occurred, a constraint that is in the solver can
be removed unless that takes too many pivots. -/
theorem exact_removal_fails_at_limit (store : Store Rat) (commands : List (Command Rat)) (id : Nat)
    (untroubled : Untroubled ⟨∅, store⟩ commands)
    (held : (Session.run ⟨∅, store⟩ commands).solver.contains id = true) :
    let removal := (Session.run ⟨∅, store⟩ commands).solver.remove id
    removal.error? = none ∨ removal.error? = some (.internal .pivotLimit) := by
  intro removal
  have faithful := run_faithful store untroubled
  obtain ⟨p, found⟩ := contains_iff.mp held
  have same : removal.error? = (settling (without _ p)).error? :=
    retract_of_seen rational_zeroCounts found (marker_seen faithful found)
  obtain ⟨sound, feasible⟩ := without_feasible faithful found
  have fails := settling_of_feasible sound feasible
  rw [same]
  cases stopped : (settling (without (Session.run ⟨∅, store⟩ commands).solver.tableau p)).error? with
  | none => exact .inl rfl
  | some error => exact .inr (congrArg some (ends_of_error_some fails stopped))

end Exact

end Cassowary.Removals
