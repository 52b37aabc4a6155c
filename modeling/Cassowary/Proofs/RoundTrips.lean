import Mathlib.Tactic.LinearCombination
import Cassowary.Proofs.Optimality
import Cassowary.Proofs.Satisfiability

/-!
Adding a constraint and removing it again. The pivots in between may leave another basis behind, but
both times the values satisfy the required constraints at the least cost, so they are the same when only
one assignment does. A required equation that has only just been added can be removed as well without a
dummy symbol leaving zero: either its marker is still basic, or no row of a dummy symbol holds it.
-/

namespace Cassowary.RoundTrips
open Endings MapEntries PivotRuns RowSymbols Separation Bookkeeping Drafting SolverBooks SessionBooks
open ExactRows Solutions RatioTests SimplexRuns Evictions ArtificialPhase Insertions Meaning
open Representations Suggestions Fidelity FaithfulRuns Requirements Pricing Optimality Satisfiability
open Tableau Solver
open scoped Exact

variable {P : Symbol → Prop} {t t' : Tableau Rat} {row solved r : Row Rat} {s s' : Solver Rat}
  {c : Constraint Rat} {h : Handle} {v : Variable} {σ : Assignment} {z entering leaving : Symbol}
  {goal : Goal}

/-! ## Dummy symbols that stay basic -/

theorem pivoted_basic (pivoted : Pivoted t t' entering leaving row solved) (basic : Basic t z)
    (apart : z ≠ leaving) : Basic t' z := by
  obtain ⟨r, found⟩ := contains_iff.mp basic
  rw [Basic, contains_iff, pivoted_find? pivoted]
  split
  · exact ⟨solved, rfl⟩
  · rw [if_neg (Ne.symm apart), found]
    exact ⟨_, rfl⟩

/-- No column that may enter occurs in the row of a dummy symbol, so that row never leaves. -/
theorem optimize_keeps_dummy (sound : Sound P t) (feasible : Feasible t) (settled : Settled t)
    (basic : Basic t z) (dummy : z.isDummy = true) :
    Ends (t.optimize goal) (fun t' => Improved P goal t t' ∧ Basic t' z) (fun _ _ => True) := by
  suffices rounds : ∀ t' o, Improved P goal t t' ∧ Basic t' z → t'.primalStep? goal = some o →
      Ends o (fun t'' => Improved P goal t t'' ∧ Basic t'' z) fun _ _ => True from
    ends_mono (optimizeWithin_ends (fun _ _ => trivial) rounds pivotLimit []
      ⟨improved_refl sound feasible, basic⟩) (fun _ ended => ended.1) fun _ _ _ => trivial
  rintro t' o ⟨improved, basic⟩ stepped
  refine ends_given (primalStep?_improved improved stepped) ?_
  obtain ⟨objective, entering, -, chosen, ⟨-, rfl⟩ | ⟨leaving, row, found, rfl⟩⟩ :=
    primalStep?_eq_some stepped
  · rw [ends_report, ends_ok]
    cases goal <;> exact fun improved' => ⟨improved', basic⟩
  · obtain ⟨held, -, falling, -⟩ := leavingRow?_exact found
    obtain ⟨t'', solved, pivoted⟩ := exchange_exact improved.sound.tidy held falling.ne
    rw [ends_report, pivoted.went, ends_ok]
    refine fun improved' => ⟨improved', pivoted_basic pivoted basic ?_⟩
    rintro rfl
    have only := (improved.settled settled z row held dummy).2
    exact falling.ne (only entering (enteringSymbol?_eq_some chosen).1)

/-- The row of a dummy symbol is never negative, so that it never needs repair. -/
theorem dualOptimize_keeps_dummy (sound : Sound P t) (covered : Covered t) (settled : Settled t)
    (basic : Basic t z) (dummy : z.isDummy = true) :
    Ends t.dualOptimize (fun t' => Basic t' z) (fun _ _ => True) := by
  suffices repairs : ∀ (t' : Tableau Rat) leaving row queue entering,
      (Repaired P t t' ∧ Covered t') ∧ Basic t' z →
      nextInfeasible? t'.rows t'.infeasible = some (leaving, row, queue) →
      t'.repairingSymbol? row = some entering →
      Ends ({ t' with infeasible := queue }.exchange entering leaving row)
        (fun t'' => (Repaired P t t'' ∧ Covered t'') ∧ Basic t'' z) fun _ _ => True by
    refine ends_mono (dualOptimizeWithin_ends (fun _ _ _ _ _ _ _ => trivial)
      (fun _ _ _ _ _ _ => trivial) repairs pivotLimit []
      ⟨⟨⟨sound, fun _ => Iff.rfl, id, fun _ _ => rfl, id⟩, covered⟩, basic⟩) ?_ fun _ _ _ => trivial
    rintro _ ⟨t', ⟨-, basic⟩, -, rfl⟩
    exact basic
  rintro t' leaving row queue entering ⟨⟨repaired, -⟩, basic⟩ next chosen
  refine ends_given (repair_repaired repaired next chosen) ?_
  obtain ⟨t'', solved, pivoted⟩ := repair_pivoted repaired.sound next chosen
  rw [pivoted.went, ends_ok]
  refine fun repaired' => ⟨repaired',
    pivoted_basic (t := { t' with infeasible := queue }) pivoted basic ?_⟩
  rintro rfl
  obtain ⟨held, negative, -⟩ := nextInfeasible?_eq_some next
  have zero := (repaired.settled settled z row held dummy).1
  exact (isNegative_iff.mp negative).ne zero

theorem settle_keeps_dummy (sound : Sound P s.tableau) (feasible : Feasible s.tableau)
    (settled : Settled s.tableau) (basic : Basic s.tableau z) (dummy : z.isDummy = true) :
    Ends s.settle (fun s' => Basic s'.tableau z) (fun _ _ => True) := by
  unfold settle onTableau
  rw [ends_embed, ends_andThen]
  refine ends_mono (optimize_keeps_dummy sound feasible settled basic dummy) ?_ fun _ _ _ => trivial
  rintro t ⟨improved, basic⟩
  exact dualOptimize_keeps_dummy improved.sound (covered_of_feasible improved.feasible)
    (improved.settled settled) basic dummy

/-! ## Required equations that have just been added -/

/-- A redundant equation is entered through its marker. -/
theorem install_enters_marker (dummies : (s.draft c).row.allDummies = true) :
    Ends ((s.draft c).install c) (fun s' => Basic s'.tableau (s.draft c).tag.marker)
      (fun _ _ => True) := by
  unfold Draft.install
  split
  · rename_i subject chosen
    obtain ⟨held, notDummy⟩ := subject?_eq_some chosen
    have dummy := List.all_eq_true.mp dummies subject (holds_iff_mem_keys.mp held)
    rw [notDummy] at dummy
    cases dummy
  · rw [dummies]
    split
    · contradiction
    · split
      · unfold Draft.enter
        dsimp only
        split
        · trivial
        · exact contains_insert.mpr (.inl rfl)
      · trivial

/-- The marker of a redundant equation is still basic when the equation has been posted. -/
theorem post_keeps_marker (faithful : Faithful s) (settled : Settled s.tableau)
    (dummies : (s.draft c).row.allDummies = true) :
    Ends (s.post h c) (fun s' => Basic s'.tableau (s.draft c).tag.marker) (fun _ _ => True) := by
  have dummy : (s.draft c).tag.marker.isDummy = true := List.all_eq_true.mp dummies _
    (holds_iff_mem_keys.mp (draft_marker faithful.orderly))
  unfold post
  split
  · trivial
  · dsimp only
    rw [ends_andThen]
    refine ends_mono (ends_and (install_entered (c := c) faithful.sound faithful.feasible
      faithful.orderly.books.tracked) (install_enters_marker dummies)) ?_ fun _ _ _ => trivial
    rintro s₁ ⟨entered, basic⟩
    rw [ends_andThen]
    exact settle_keeps_dummy (s := { s₁ with postings := _ }) entered.sound entered.feasible
      (entered.settled (draft_settled settled)) basic dummy

/-- A solution of the tableau in which one column is the only one that is not zero, with the marker of
a draft chosen so that the row of the draft is zero. -/
def fitting (s : Solver Rat) (c : Constraint Rat) (z : Symbol) (x : Rat) : Valuation :=
  let ρ := ray s.tableau z x
  let d := s.draft c
  Function.update ρ d.tag.marker (ρ d.tag.marker - eval d.row ρ / d.row.coefficient d.tag.marker)

theorem fitting_solves (faithful : Faithful s) {x : Rat} :
    Solves (s.draft c).solver.tableau (fitting s c z x) ∧
      eval (s.draft c).row (fitting s c z x) = 0 := by
  have present := (holds_iff_coefficient draft_pruned).mp (draft_marker (c := c) faithful.orderly)
  have newer := (draft_symbol (s := s) (c := c) (z := (s.draft c).tag.marker) List.mem_cons_self).2.1
  constructor
  · rw [solves_of_rows draft_rows]
    refine (solves_congr faithful.sound.tidy fun y minted => Function.update_of_ne ?_ _ _).mpr
      (solves_ray faithful.sound.tidy (z := z) (x := x))
    rintro rfl
    exact absurd minted.2 (Nat.not_le_of_lt newer)
  · unfold fitting
    dsimp only
    rw [eval_update]
    field_simp
    ring

/-- Every dummy symbol but the marker keeps its value, however far the column goes. -/
theorem fitting_dummy (settled : Settled s.tableau) (notDummy : z.isDummy = false) {y : Symbol}
    (dummy : y.isDummy = true) (apart : y ≠ (s.draft c).tag.marker) {x : Rat} :
    fitting s c z x y = s.tableau.value y :=
  (Function.update_of_ne apart _ _).trans (ray_dummy settled notDummy dummy)

/-- The marker makes up for the column. -/
theorem fitting_marker (faithful : Faithful s) (settled : Settled s.tableau)
    (notDummy : z.isDummy = false) (dummy : (s.draft c).tag.marker.isDummy = true) {x : Rat} :
    fitting s c z x (s.draft c).tag.marker = s.tableau.value (s.draft c).tag.marker -
      ((s.draft c).row.constant + (s.draft c).row.coefficient z * x) /
        (s.draft c).row.coefficient (s.draft c).tag.marker := by
  have columns : eval (s.draft c).row (ray s.tableau z x) =
      (s.draft c).row.constant + (s.draft c).row.coefficient z * x := by
    have free : eval (s.draft c).row (ray s.tableau z x) =
        eval (s.draft c).row (Function.update 0 z x) := by
      refine eval_congr fun y held => complete_of_column fun basic => ?_
      refine (draft_over faithful.orderly.books.tracked faithful.orderly.tidy y held).2 ?_
      rwa [Basic, draft_rows]
    rw [free, eval_update, eval_zero, Pi.zero_apply, sub_zero]
  unfold fitting
  rw [Function.update_self, ray_dummy settled notDummy dummy, columns]

/-- If a required equation holds more than dummy symbols, then no row of a dummy symbol holds its marker
once it has been posted: solutions may change the marker and no other dummy symbol. -/
theorem brought_unheld (faithful : Faithful s) (settled : Settled s.tableau)
    (faithful' : Faithful s') (brought : Brought s h c s')
    (dummy : (s.draft c).tag.marker.isDummy = true) (notDummy : z.isDummy = false)
    (present : (s.draft c).row.coefficient z ≠ 0) {y : Symbol}
    (found : s'.tableau.rows.find? y = some r) (dummy' : y.isDummy = true) :
    r.coefficient (s.draft c).tag.marker = 0 := by
  have own := (holds_iff_coefficient draft_pruned).mp (draft_marker (c := c) faithful.orderly)
  have only := (brought_settled settled brought y r found dummy').2
  by_cases same : y = (s.draft c).tag.marker
  · subst same
    exact coefficient_of_not_holds
      (not_holds_basic faithful'.sound.tidy (line_of_find? found) (basic_of_find? found))
  obtain ⟨t, entered, resettled⟩ := brought.tableau
  have solves : ∀ x, Solves s'.tableau (fitting s c z x) := fun x =>
    (resettled.solves _).mpr ((entered.solves _).mpr (fitting_solves faithful))
  have alike : eval r (fitting s c z 1) = eval r (Function.update (fitting s c z 0)
      (s.draft c).tag.marker (fitting s c z 1 (s.draft c).tag.marker)) := by
    refine eval_congr fun w held => ?_
    by_cases marker : w = (s.draft c).tag.marker
    · rw [marker, Function.update_self]
    · have isDummy : w.isDummy = true := by
        by_contra other
        exact (holds_iff_coefficient (faithful'.sound.pruned y r found)).mp held
          (only w (by simpa using other))
      rw [Function.update_of_ne marker, fitting_dummy settled notDummy isDummy marker,
        fitting_dummy settled notDummy isDummy marker]
  rw [eval_update, ← solves 1 y r found, ← solves 0 y r found,
    fitting_dummy settled notDummy dummy' same, fitting_dummy settled notDummy dummy' same,
    fitting_marker faithful settled notDummy dummy,
    fitting_marker faithful settled notDummy dummy] at alike
  have moved : r.coefficient (s.draft c).tag.marker * ((s.draft c).row.coefficient z /
      (s.draft c).row.coefficient (s.draft c).tag.marker) = 0 := by
    linear_combination alike
  exact (mul_eq_zero.mp moved).resolve_right (div_ne_zero present own)

/-- A constraint that has just been added can go without a dummy symbol leaving zero. -/
theorem post_spares (faithful : Faithful s) (settled : Settled s.tableau)
    (serial : ∀ k, h = .edit k → k ≤ s.minted) :
    Ends (s.post h c) (fun s' => Spared s'.tableau (s.draft c).tag.marker) (fun _ _ => True) := by
  by_cases dummy : (s.draft c).tag.marker.isDummy = true
  · by_cases dummies : (s.draft c).row.allDummies = true
    · exact ends_mono (post_keeps_marker faithful settled dummies) (fun _ basic => .inr (.inl basic))
        fun _ _ _ => trivial
    · obtain ⟨z, member, notDummy⟩ : ∃ z, z ∈ (s.draft c).row.cells.keys ∧ z.isDummy = false := by
        simpa [Row.allDummies] using dummies
      have present := (holds_iff_coefficient draft_pruned).mp (holds_iff_mem_keys.mpr member)
      refine ends_mono (post_faithful faithful serial) ?_ fun _ _ _ => trivial
      rintro s' ⟨faithful', brought⟩
      exact .inr (.inr (.inl fun y r found dummy' =>
        brought_unheld faithful settled faithful' brought dummy notDummy present found dummy'))
  · exact ends_mono (ends_of_state (P := fun _ => True) trivial)
      (fun _ _ => .inl (by simpa using dummy)) fun _ _ _ => trivial

/-! ## Best assignments -/

/-- An assignment that satisfies the required constraints, and that none that does undercuts. -/
def Best (s : Solver Rat) (σ : Assignment) : Prop :=
  Admitted s σ ∧ ∀ τ, Admitted s τ → cost s σ ≤ cost s τ

/-- The constraints in the solver leave the tracked variables no choice: the best assignments agree on
them. -/
def Determined (s : Solver Rat) : Prop :=
  ∀ σ τ, Best s σ → Best s τ → ∀ v, s.tracked.contains v = true → σ v = τ v

/-- What is best is up to the constraints and the targets of the edits. -/
theorem best_congr (postings : s'.postings = s.postings) (edits : s'.edits = s.edits) :
    Best s' σ ↔ Best s σ := by
  unfold Best Admitted cost Live
  rw [postings, edits]

theorem value_best (faithful : Faithful s) (minimized : Minimized s.tableau s.postings) :
    Best s s.value := values_least faithful minimized

theorem value_of_untracked (untracked : s.tracked.find? v = none) : s.value v = 0 := by
  simp [Solver.value, untracked]

/-- Which variables are tracked is up to the constraints. -/
theorem tracked_iff (accounted : Accounted s) : s.tracked.contains v = true ↔
    0 < references s.postings v := by
  rw [contains_iff]
  exact ⟨fun ⟨entry, found⟩ => (demand_pos accounted found).2, tracked_of_demand accounted⟩

/-- Solvers with the same constraints have the same values if the constraints determine them. -/
theorem value_of_determined (faithful : Faithful s) (minimized : Minimized s.tableau s.postings)
    (faithful' : Faithful s') (minimized' : Minimized s'.tableau s'.postings)
    (postings : s'.postings = s.postings) (edits : s'.edits = s.edits) (determined : Determined s) :
    s'.value = s.value := by
  funext v
  by_cases tracked : s.tracked.contains v = true
  · exact determined _ _ ((best_congr postings edits).mp (value_best faithful' minimized'))
      (value_best faithful minimized) v tracked
  · have untracked : ¬s'.tracked.contains v = true := by
      rwa [tracked_iff faithful'.accounted, postings, ← tracked_iff faithful.accounted]
    exact (value_of_untracked (not_contains_iff.mp (by simpa using untracked))).trans
      (value_of_untracked (not_contains_iff.mp (by simpa using tracked))).symm

/-! ## There and back -/

/-- Adding a constraint and removing it again leaves a faithful solver with a minimal objective and the
constraints and edits from before. -/
theorem round_trip (faithful : Faithful s) (minimized : Minimized s.tableau s.postings) (id : Nat)
    (built : Built c) (added : (s.add id c).error? = none)
    (removed : ((s.add id c).state.remove id).error? = none) :
    let s' := ((s.add id c).state.remove id).state
    Faithful s' ∧ Minimized s'.tableau s'.postings ∧ s'.postings = s.postings ∧ s'.edits = s.edits := by
  intro s'
  have serial := posted_serial s id
  obtain ⟨faithful₁, brought⟩ := ends_of_error_none (post_faithful (c := c) faithful serial) added
  have spared := ends_of_error_none (post_spares (c := c) faithful minimized.settled serial) added
  have minimized₁ := brought_minimized minimized (built_nonneg built) brought
  have unbacked := posted_unbacked faithful₁.orderly id
  obtain ⟨faithful₂, postings, p, t, found, taken⟩ := ends_of_error_none
    (retract_faithful faithful₁.orderly faithful₁.accounted faithful₁.sound faithful₁.feasible
      faithful₁.orderly.books.edits faithful₁.represents unbacked fun _ _ _ => Iff.rfl) removed
  obtain ⟨-, q, tableau, -, released⟩ :=
    ends_of_error_none (retract_ends faithful₁.orderly unbacked) removed
  have tag : p = ⟨c, (s.draft c).tag⟩ := by
    rw [brought.posted.postings, OrderedMap.find?_insert, if_pos rfl] at found
    exact (Option.some.inj found).symm
  subst tag
  have minimized₂ := taken_minimized faithful₁.orderly minimized₁ found spared taken
  rw [← postings] at minimized₂
  refine ⟨faithful₂, minimized₂, ?_, ?_⟩
  · rw [show s'.postings = _ from postings, brought.posted.postings, erase_insert,
      erase_of_absent brought.free]
  · exact (congrArg Solver.edits released).trans
      ((release_shrinks _ _).edits.trans brought.posted.edits)

/-- After every run without internal errors that took out no required equation, if the constraints
determine the values of the tracked variables, then adding any constraint and removing it again restores
the value of every variable, provided that both succeed. -/
theorem removal_undoes_addition (store : Store Rat) (commands : List (Command Rat))
    (untroubled : Untroubled ⟨∅, store⟩ commands)
    (allowed : Throughout (Allowed Built NotRequiredEquation) ⟨∅, store⟩ commands) (id : Nat)
    (c : Constraint Rat) (built : Built c) :
    let s := (Session.run ⟨∅, store⟩ commands).solver
    Determined s → (s.add id c).error? = none → ((s.add id c).state.remove id).error? = none →
      ∀ v, ((s.add id c).state.remove id).state.value v = s.value v := by
  intro s determined added removed
  obtain ⟨faithful, minimized⟩ := run_carries minimized_carried store untroubled allowed
  obtain ⟨faithful', minimized', postings, edits⟩ :=
    round_trip faithful minimized id built added removed
  exact congrFun
    (value_of_determined faithful minimized faithful' minimized' postings edits determined)

/-- A column is some units wide. -/
def width (units : Rat) : Constraint Rat := .relate (.ofVariable ⟨0, none⟩) .equal (.ofScalar units)

/-- The column would rather be three wide. -/
def wishedWidth : List (Command Rat) := [.add 0 ((width 3).withStrength .weak)]

theorem wishedWidth_untroubled : Untroubled ⟨∅, {}⟩ wishedWidth :=
  untroubled_of_errors (by decide +kernel)

theorem wishedWidth_allowed :
    Throughout (Allowed Built NotRequiredEquation) ⟨∅, {}⟩ wishedWidth :=
  ⟨⟨_, _, _, rfl⟩, trivial⟩

theorem wishedWidth_cost {σ : Assignment} :
    cost (Session.run ⟨∅, {}⟩ wishedWidth).solver σ = |σ ⟨0, none⟩ - 3| := by
  let wish : Constraint Rat := (width 3).withStrength .weak
  obtain ⟨-, free, posted⟩ := ends_of_error_none (post_ends (s := ∅) (h := .posted 0) (c := wish)
    (fresh_orderly 0) (posted_serial _ 0)) (by decide +kernel)
  have postings : (Session.run ⟨∅, {}⟩ wishedWidth).solver.postings = _ := posted.postings
  have edits : (Session.run ⟨∅, {}⟩ wishedWidth).solver.edits = ∅ := posted.edits
  have weight : wish.strength.value = 1 := by decide +kernel
  calc cost (Session.run ⟨∅, {}⟩ wishedWidth).solver σ
      = toll wish σ := by
        rw [cost, postings, edits, total_insert_of_absent free]
        exact zero_add _
    _ = |worth wish.expression σ| := by
        rw [toll, if_neg (by decide +kernel), weight, one_mul]
        rfl
    _ = |σ ⟨0, none⟩ - 3| := by rw [← worth_edit]; rfl

theorem wishedWidth_determined : Determined (Session.run ⟨∅, {}⟩ wishedWidth).solver := by
  obtain ⟨faithful, minimized⟩ :=
    run_carries minimized_carried {} wishedWidth_untroubled wishedWidth_allowed
  have nothing : cost (Session.run ⟨∅, {}⟩ wishedWidth).solver
      (Session.run ⟨∅, {}⟩ wishedWidth).solver.value = 0 := by decide +kernel
  have values : ∀ σ, Best (Session.run ⟨∅, {}⟩ wishedWidth).solver σ → σ ⟨0, none⟩ = 3 := by
    intro σ best
    have cheap := best.2 _ (value_best faithful minimized).1
    rw [nothing, wishedWidth_cost] at cheap
    exact sub_eq_zero.mp (abs_nonpos_iff.mp cheap)
  have keys : (Session.run ⟨∅, {}⟩ wishedWidth).solver.tracked.keys = [⟨0, none⟩] := by
    decide +kernel
  intro σ τ best best' v tracked
  have only := OrderedMap.mem_keys_iff.mpr tracked
  rw [keys, List.mem_singleton] at only
  rw [only, values σ best, values τ best']

/-- The column is made five wide and then is three wide again. -/
theorem removal_undoes_addition_wish :
    let s := (Session.run ⟨∅, {}⟩ wishedWidth).solver
    Untroubled ⟨∅, {}⟩ wishedWidth ∧
      Throughout (Allowed Built NotRequiredEquation) ⟨∅, {}⟩ wishedWidth ∧
      Built (width 5) ∧ Determined s ∧ (s.add 1 (width 5)).error? = none ∧
      ((s.add 1 (width 5)).state.remove 1).error? = none ∧
      (s.add 1 (width 5)).state.value ⟨0, none⟩ = 5 ∧
      ∀ v, ((s.add 1 (width 5)).state.remove 1).state.value v = s.value v := by
  intro s
  have built : Built (width 5) := ⟨_, _, _, rfl⟩
  have added : (s.add 1 (width 5)).error? = none := by decide +kernel
  have removed : ((s.add 1 (width 5)).state.remove 1).error? = none := by decide +kernel
  exact ⟨wishedWidth_untroubled, wishedWidth_allowed, built, wishedWidth_determined, added, removed,
    by decide +kernel, removal_undoes_addition {} _ wishedWidth_untroubled wishedWidth_allowed 1
      (width 5) built wishedWidth_determined added removed⟩

end Cassowary.RoundTrips
