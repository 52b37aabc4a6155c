import Cassowary.Proofs.Optimality
import Cassowary.Proofs.Removals

/-!
The solver never gets stuck. An objective that measures errors is bounded below, so that every column
that may enter has a row to leave. A suggestion leaves solutions without negative symbols, because both
errors of an edit can grow together, so that every negative row has a column to repair it. And the marker
of a constraint in the solver is always seen. In exact arithmetic nothing but the pivot limit can then
stop an operation for an internal reason, and no column is ever dropped.
-/

namespace Cassowary.Progress
open Endings MapEntries PivotRuns RowSymbols Separation Bookkeeping Drafting SolverBooks SessionBooks
open ExactRows Solutions RatioTests SimplexRuns Evictions ArtificialPhase Insertions Meaning
open Representations Suggestions Fidelity FaithfulRuns Requirements Pricing Removals Tableau Solver

/-! ## Outcomes -/

/-- For an internal reason only the pivot limit stops the operation, and it reports no column as
dropped. -/
structure Smooth {ε σ : Type} (dropping : Symbol → ε) (o : Outcome ε σ) : Prop where
  limited : ∀ cause, o.error? = some (.internal cause) → cause = .pivotLimit
  kept : ∀ column, dropping column ∉ o.events

section Outcomes
variable {ε η σ τ : Type} {o : Outcome ε σ} {dropping : Symbol → ε}

theorem smooth_ok (state : σ) : Smooth dropping (.ok state : Outcome ε σ) :=
  ⟨fun cause stopped => (by cases stopped), fun _ => List.not_mem_nil⟩

theorem smooth_fail (state : σ) {error : SolverError} (external : error.isInternal = false) :
    Smooth dropping (.fail state error : Outcome ε σ) := by
  refine ⟨fun cause stopped => ?_, fun _ => List.not_mem_nil⟩
  cases stopped
  cases external

theorem smooth_report (smooth : Smooth dropping o) {event : ε}
    (other : ∀ column, dropping column ≠ event) : Smooth dropping (o.report event) :=
  ⟨smooth.limited, fun column reported => (List.mem_cons.mp reported).elim (other column)
    (smooth.kept column)⟩

/-- A sequence is smooth when the first part is, and the second is wherever the first ends well. -/
theorem smooth_andThen {done : σ → Prop} {failed : SolverError → σ → Prop} {next : σ → Outcome ε σ}
    (first : Smooth dropping o) (ends : Ends o done failed)
    (second : ∀ s, done s → Smooth dropping (next s)) : Smooth dropping (o.andThen next) := by
  unfold Outcome.andThen
  split
  · exact first
  · rename_i fine
    have later := second _ (ends_of_error_none ends fine)
    exact ⟨later.limited, fun column reported =>
      (List.mem_append.mp reported).elim (later.kept column) (first.kept column)⟩

/-- An exchange of errors that leaves the one at hand alone. -/
theorem smooth_mapError (smooth : Smooth dropping o) {f : SolverError → SolverError}
    (same : ∀ error, o.error? = some error → f error = error) : Smooth dropping (o.mapError f) := by
  have unchanged : o.error?.map f = o.error? := by
    cases stopped : o.error? with
    | none => rfl
    | some error => rw [Option.map_some, same error stopped]
  exact ⟨fun cause stopped => smooth.limited cause (unchanged.symm.trans stopped), smooth.kept⟩

theorem smooth_embed {state : σ → τ} {event : ε → η} {dropping' : Symbol → η}
    (smooth : Smooth dropping o) (reflects : ∀ e column, event e = dropping' column →
      e = dropping column) : Smooth dropping' (o.embed state event) := by
  refine ⟨smooth.limited, fun column reported => ?_⟩
  obtain ⟨e, member, same⟩ := List.mem_map.mp reported
  exact smooth.kept column (reflects e column same ▸ member)

end Outcomes

/-! ## The pivoting loops -/

section Loops
variable {α : Type} [Scalar α] {t : Tableau α} {Q : Tableau α → Prop} {goal : Goal}
  {events : List PivotEvent}

/-- The primal loop is smooth when its rounds are. -/
theorem optimizeWithin_smooth
    (rounds : ∀ t o, Q t → t.primalStep? goal = some o →
      Smooth .residueDropped o ∧ Ends o Q fun _ _ => True)
    (limit : Nat) (clean : ∀ column, .residueDropped column ∉ events) (start : Q t) :
    Smooth .residueDropped (optimizeWithin goal limit t events) := by
  induction limit generalizing t events with
  | zero =>
    refine ⟨fun cause stopped => ?_, clean⟩
    cases stopped
    rfl
  | succ limit ih =>
    have more : ∀ {o : Outcome PivotEvent (Tableau α)}, Smooth .residueDropped o →
        ∀ column, .residueDropped column ∉ o.events ++ events := fun smooth column reported =>
      (List.mem_append.mp reported).elim (smooth.kept column) (clean column)
    unfold optimizeWithin
    split
    · exact ⟨fun cause stopped => (by cases stopped), clean⟩
    · rename_i stepped
      obtain ⟨smooth, next⟩ := rounds t _ start stepped
      exact ih (more smooth) next
    · rename_i stepped
      have smooth := (rounds t _ start stepped).1
      exact ⟨smooth.limited, more smooth⟩

/-- The dual loop is smooth when its repairs are and there always is a column for them. -/
theorem dualOptimizeWithin_smooth
    (repairable : ∀ (t : Tableau α) leaving row queue, Q t →
      nextInfeasible? t.rows t.infeasible = some (leaving, row, queue) →
      t.repairingSymbol? row ≠ none)
    (repairs : ∀ (t : Tableau α) leaving row queue entering, Q t →
      nextInfeasible? t.rows t.infeasible = some (leaving, row, queue) →
      t.repairingSymbol? row = some entering →
      Smooth .residueDropped ({ t with infeasible := queue }.exchange entering leaving row) ∧
        Ends ({ t with infeasible := queue }.exchange entering leaving row) Q fun _ _ => True)
    (limit : Nat) (clean : ∀ column, .residueDropped column ∉ events) (start : Q t) :
    Smooth .residueDropped (dualOptimizeWithin limit t events) := by
  induction limit generalizing t events with
  | zero =>
    unfold dualOptimizeWithin
    split
    · exact ⟨fun cause stopped => (by cases stopped), clean⟩
    · rename_i leaving row queue found
      dsimp only
      split
      · rename_i missing
        exact absurd missing (repairable t leaving row queue start found)
      · refine ⟨fun cause stopped => ?_, clean⟩
        cases stopped
        rfl
  | succ limit ih =>
    unfold dualOptimizeWithin
    split
    · exact ⟨fun cause stopped => (by cases stopped), clean⟩
    · rename_i leaving row queue found
      dsimp only
      split
      · rename_i missing
        exact absurd missing (repairable t leaving row queue start found)
      · rename_i entering chosen
        obtain ⟨smooth, next⟩ := repairs t leaving row queue entering start found chosen
        have reported : Smooth .residueDropped
            (({ t with infeasible := queue }.exchange entering leaving row).report
              (.dual entering leaving)) :=
          smooth_report smooth fun column same => by cases same
        rw [← ends_report (.dual entering leaving)] at next
        have more : ∀ column, .residueDropped column ∉
            (({ t with infeasible := queue }.exchange entering leaving row).report
              (.dual entering leaving)).events ++ events := fun column member =>
          (List.mem_append.mp member).elim (reported.kept column) (clean column)
        split
        · rename_i went
          rw [went] at next more
          exact ih more next
        · rename_i went
          rw [went] at reported more
          exact ⟨reported.limited, more⟩

end Loops

open scoped Exact

variable {P : Symbol → Prop} {t t' : Tableau Rat} {row r : Row Rat} {ρ : Valuation}
  {s : Solver Rat} {c : Constraint Rat} {h : Handle} {v : Variable} {p : Posting Rat} {goal : Goal}
  {z artificial entering leaving : Symbol} {edit : Edit Rat}

/-- A bounded objective is made minimal without dropping a column. -/
theorem optimize_smooth (sound : Sound P t) (feasible : Feasible t)
    (start : t.objectiveRow? goal = some r) (bounded : Bounded t r) :
    Smooth .residueDropped (t.optimize goal) := by
  refine optimizeWithin_smooth (Q := Improved P goal t) (fun t' o improved stepped =>
    ⟨?_, primalStep?_improved improved stepped⟩) _ (fun _ => List.not_mem_nil)
    (improved_refl sound feasible)
  obtain ⟨objective, entering, sought, chosen, ⟨missing, -⟩ | ⟨leaving, row, found, rfl⟩⟩ :=
    primalStep?_eq_some stepped
  · exact absurd missing (leavingRow?_of_improved improved start bounded sought chosen)
  · obtain ⟨held, -, falling, -⟩ := leavingRow?_exact found
    obtain ⟨next, solved, pivoted⟩ := exchange_exact improved.sound.tidy held falling.ne
    rw [pivoted.went]
    exact smooth_report (smooth_ok _) fun column same => by cases same

/-- A row that is negative in the tableau but not in some admissible solution can be repaired. -/
theorem repairingSymbol?_of_admissible (sound : Sound P t) (admissible : Admissible t ρ)
    (found : t.rows.find? leaving = some row) (restricted : leaving.isRestricted = true)
    (negative : row.constant < 0) : t.repairingSymbol? row ≠ none := by
  intro missing
  have none : t.repairPicks row = [] := by simpa [repairingSymbol?] using missing
  have reversed : ∀ z, row.reverseSign.coefficient z = -row.coefficient z := fun z => by
    rw [coefficient_eq, eval_reverseSign, eval_reverseSign, coefficient_eq]
    ring
  have least : row.reverseSign.constant ≤ eval row.reverseSign ρ := by
    refine constant_le_eval (fun z notDummy => ?_) (fun z external => ?_) admissible.nonneg
      admissible.zero
    · rw [reversed, neg_nonneg]
      by_contra grows
      have rises := not_le.mp grows
      obtain ⟨x, cell⟩ := holds_iff.mp (holds_of_coefficient rises.ne')
      have member := mem_repairPicks (t := t).mpr ⟨z, x, cell, notDummy,
        isPositive_iff.mpr (coefficient_of_find? cell ▸ rises), rfl⟩
      rw [none] at member
      cases member
    · rw [reversed, sound.free leaving row found restricted z external, neg_zero]
  rw [eval_reverseSign, ← admissible.solves leaving row found] at least
  have nonneg := admissible.nonneg leaving restricted
  have high : row.reverseSign.constant = -row.constant := rfl
  linarith

/-- A tableau with an admissible solution is repaired without running out of columns. -/
theorem dualOptimize_smooth (sound : Sound P t) (covered : Covered t)
    (admissible : Admissible t ρ) : Smooth .residueDropped t.dualOptimize := by
  refine dualOptimizeWithin_smooth (Q := fun t' => Repaired P t t' ∧ Covered t')
    (fun t' leaving row queue good next => ?_) (fun t' leaving row queue entering good next chosen => ?_)
    _ (fun _ => List.not_mem_nil) ⟨⟨sound, fun _ => Iff.rfl, id, fun _ _ => rfl, id⟩, covered⟩
  · obtain ⟨found, negative, queued, -⟩ := nextInfeasible?_eq_some next
    have still : Admissible t' ρ :=
      ⟨(good.1.solves ρ).mpr admissible.solves, admissible.nonneg, admissible.zero⟩
    exact repairingSymbol?_of_admissible good.1.sound still found
      (good.1.sound.queued leaving queued) (isNegative_iff.mp negative)
  · refine ⟨?_, repair_repaired good.1 next chosen⟩
    obtain ⟨t'', solved, pivoted⟩ := repair_pivoted good.1.sound next chosen
    rw [pivoted.went]
    exact smooth_ok _

/-- The values of a feasible and settled tableau are an admissible solution. -/
theorem value_admissible (sound : Sound P t) (feasible : Feasible t) (settled : Settled t) :
    Admissible t t.value :=
  ⟨solves_value sound.tidy, fun _ restricted => value_nonneg feasible restricted,
    fun _ dummy => value_dummy settled dummy⟩

theorem settling_smooth {postings : OrderedMap Handle (Posting Rat)} (sound : Sound P t)
    (feasible : Feasible t) (priced : Priced t postings) : Smooth .residueDropped (settling t) := by
  refine smooth_andThen (optimize_smooth sound feasible rfl (bounded_of_priced priced))
    (optimize_improved sound feasible) ?_
  rintro t' ⟨improved, -⟩
  exact dualOptimize_smooth improved.sound (covered_of_feasible improved.feasible)
    (value_admissible improved.sound improved.feasible (improved.settled priced.settled))

/-! ## The artificial phase and markers -/

theorem retireArtificial_smooth (sound : Sound P t) :
    Smooth .residueDropped (t.retireArtificial artificial) := by
  unfold retireArtificial
  split
  · exact smooth_ok _
  · rename_i row found
    split
    · exact smooth_ok _
    · split
      · exact smooth_fail _ rfl
      · rename_i entering pivot
        have present := (holds_iff_coefficient (sound.pruned artificial row found)).mp
          (pivotable?_eq_some pivot).2
        obtain ⟨t', solved, pivoted⟩ := exchange_exact sound.tidy found present
        rw [pivoted.went]
        exact smooth_andThen (smooth_ok t') (ends_of_state (P := fun _ => True) trivial)
          fun _ _ => smooth_ok _

/-- The artificial objective is bounded below as well, by zero. -/
theorem enterArtificial_smooth (ready : Ready P t artificial row) :
    Smooth .residueDropped (t.enterArtificial artificial row) := by
  have sound := opened_sound ready
  have feasible := opened_feasible ready
  unfold enterArtificial
  refine smooth_andThen (optimize_smooth (t := opened t artificial row) sound feasible rfl
    (opened_bounded ready)) (optimize_improved sound feasible) ?_
  rintro t₁ ⟨improved, -⟩
  have closed : Sound (fun z => z = artificial ∨ P z) { t₁ with artificial := none } :=
    sound_of_rows improved.sound (forget_tidy improved.sound.tidy) rfl rfl
  refine smooth_andThen (retireArtificial_smooth closed)
    (ends_of_state (P := fun _ => True) trivial) fun t₂ _ => ?_
  split
  · exact smooth_ok _
  · exact smooth_fail _ rfl

theorem evict_smooth (seen : Seen t z) : Smooth .residueDropped (t.evict z) := by
  obtain ⟨-, went⟩ | ⟨unseen, -⟩ | ⟨-, leaving, solved, went⟩ :=
    evict_cases rational_zeroCounts (t := t) (z := z)
  · rw [went]
    exact smooth_ok _
  · exact absurd seen unseen
  · rw [went]
    exact smooth_report (smooth_ok _) fun column same => by cases same

/-! ## Posting and retracting -/

/-- The event by which a solver reports that a column was dropped. -/
def dropping (column : Symbol) : Event Rat := .pivot (.residueDropped column)

theorem onTableau_smooth {f : Tableau Rat → Outcome PivotEvent (Tableau Rat)}
    (smooth : Smooth .residueDropped (f s.tableau)) : Smooth dropping (s.onTableau f) :=
  smooth_embed smooth fun _ _ same => by cases same; rfl

/-- Working on the tableau and going on from there. -/
theorem onTableau_andThen_smooth {f : Tableau Rat → Outcome PivotEvent (Tableau Rat)}
    {done : Tableau Rat → Prop} {failed : SolverError → Tableau Rat → Prop}
    {next : Solver Rat → Outcome (Event Rat) (Solver Rat)} (first : Smooth .residueDropped (f s.tableau))
    (ends : Ends (f s.tableau) done failed)
    (second : ∀ t, done t → Smooth dropping (next { s with tableau := t })) :
    Smooth dropping ((s.onTableau f).andThen next) := by
  have onward : Ends (s.onTableau f) (fun s' => ∃ t, done t ∧ s' = { s with tableau := t })
      fun _ _ => True := by
    unfold onTableau
    rw [ends_embed]
    exact ends_mono ends (fun t holds => ⟨t, holds, rfl⟩) fun _ _ _ => trivial
  refine smooth_andThen (onTableau_smooth first) onward ?_
  rintro _ ⟨t, holds, rfl⟩
  exact second t holds

theorem settle_smooth {postings : OrderedMap Handle (Posting Rat)} (sound : Sound P s.tableau)
    (feasible : Feasible s.tableau) (priced : Priced s.tableau postings) :
    Smooth dropping s.settle :=
  onTableau_smooth (settling_smooth sound feasible priced)

theorem draft_enter_smooth (held : (s.draft c).row.holds z = true) :
    Smooth dropping ((s.draft c).enter z) := by
  have solved := solveFor_ends (ε := Event Rat) (r := (s.draft c).row) (s := z)
  unfold Draft.enter
  dsimp only
  split
  · rename_i error stopped
    have absent := (ends_of_error_some solved stopped).2
    rw [held] at absent
    cases absent
  · exact smooth_ok _

/-- A draft is never solved for a symbol that its row does not hold. -/
theorem install_smooth (faithful : Faithful s) : Smooth dropping ((s.draft c).install c) := by
  unfold Draft.install
  split
  · rename_i subject chosen
    exact draft_enter_smooth (subject?_eq_some chosen).1
  · rename_i missing
    split
    · have ready := draft_ready (c := c) faithful.sound faithful.feasible
        faithful.orderly.books.tracked (free_of_no_subject missing)
      have phase := onTableau_smooth
        (s := { (s.draft c).solver with minted := (s.draft c).solver.minted + 1 })
        (f := (·.enterArtificial ⟨(s.draft c).solver.minted + 1, .slack⟩ (s.draft c).row))
        (enterArtificial_smooth ready)
      unfold Draft.enterArtificial
      dsimp only
      split
      · exact phase
      · refine smooth_report ?_ fun column same => by cases same
        exact ⟨phase.limited, phase.kept⟩
    · split
      · exact draft_enter_smooth (draft_marker faithful.orderly)
      · exact smooth_report (smooth_fail _ rfl) fun column same => by cases same

theorem post_smooth (faithful : Faithful s) (minimized : Minimized s.tableau s.postings)
    (built : Built c) : Smooth dropping (s.post h c) := by
  unfold post
  split
  · exact smooth_fail _ rfl
  · rename_i taken
    have free : s.postings.find? h = none := not_contains_iff.mp (by simpa using taken)
    refine smooth_andThen (install_smooth faithful) (install_entered faithful.sound faithful.feasible
      faithful.orderly.books.tracked) fun s₁ entered => ?_
    have priced := entered_priced (h := h) minimized (built_nonneg built) free entered
    refine smooth_andThen (settle_smooth (s := { s₁ with postings := _ }) entered.sound
      entered.feasible priced) (ends_of_state (P := fun _ => True) trivial) fun _ _ => ?_
    exact smooth_report (smooth_ok _) fun column same => by cases same

/-- The marker of a constraint is seen, whatever the edits are, and what is left when it is gone still
charges for the errors of the others. -/
theorem retract_smooth (faithful : Faithful s) (minimized : Minimized s.tableau s.postings)
    (edits : OrderedMap Variable (Edit Rat)) (found : s.postings.find? h = some p)
    (spared : Spared s.tableau p.tag.marker) :
    Smooth dropping ({ s with edits := edits }.retract h) := by
  obtain ⟨orderly, accounted, sound, feasible, represents⟩ := faithful
  have refunded : Sound (Minted s.minted)
      (s.tableau.refund p.tag p.constraint.strength.value) :=
    sound_of_rows sound (refunded_tidy orderly found) rfl rfl
  have seen := marker_seen ⟨orderly, accounted, sound, feasible, represents⟩ found
  unfold retract
  dsimp only
  rw [found]
  dsimp only
  refine onTableau_andThen_smooth (evict_smooth seen)
    (evict_evicted refunded feasible) fun t₁ evicted => ?_
  have priced := evicted_priced orderly minimized found spared evicted fun z other =>
    evicted_indifferent (t := s.tableau.refund p.tag p.constraint.strength.value) orderly accounted
      orderly.books.edits represents found rfl evicted other
  obtain ⟨sound₁, feasible₁⟩ := dropped_feasible p.tag evicted
  refine smooth_andThen (settle_smooth sound₁ feasible₁ priced)
    (ends_of_state (P := fun _ => True) trivial) fun _ _ => ?_
  exact smooth_report (smooth_ok _) fun column same => by cases same

/-! ## Suggestions -/

/-- The valuation in which both symbols of a tag have grown. -/
def raised (tag : Tag) (x : Rat) (ρ : Valuation) : Valuation := fun z =>
  if z ∈ tag.symbols then ρ z + x else ρ z

/-- The equation of an edit only knows the difference of its errors. -/
theorem solves_raised (faithful : Faithful s) (found : s.edits.find? v = some edit)
    (solves : Solves s.tableau ρ) (x : Rat) : Solves s.tableau (raised edit.tag x ρ) := by
  obtain ⟨p, k, posted, tag, relation, -, shape⟩ := edit_posting faithful.orderly found
  have readings : reading s.tracked (raised edit.tag x ρ) = reading s.tracked ρ := by
    funext w
    cases tracked : s.tracked.find? w with
    | none => simp only [reading, tracked, Option.elim_none]
    | some entry =>
      have external := (faithful.orderly.books.tracked.symbol w entry tracked).1
      simp only [reading, tracked, Option.elim_some]
      refine if_neg fun member => ?_
      have internal := (tag_symbol faithful.orderly.books.postings posted (tag ▸ member)).1
      rw [external] at internal
      cases internal
  rw [faithful.represents] at solves ⊢
  intro g q held
  have before := solves g q held
  by_cases own : g = edit.handle
  · subst own
    cases posted.symm.trans held
    rw [readings]
    unfold Equation at before ⊢
    rw [current_relation, relation, tag, shape] at before ⊢
    simp only [raised, Tag.symbols, Option.toList_some, List.mem_cons, List.not_mem_nil, or_false,
      true_or, or_true, if_true] at before ⊢
    linarith
  · refine (equation_congr (fun z member => if_neg fun mine => own ?_)
      fun term _ => congrFun readings term.var).mpr before
    exact faithful.orderly.books.postings.distinct g edit.handle q p z held posted member (tag ▸ mine)

/-- However far a target is moved, there is an admissible solution: its errors take the difference up. -/
theorem moved_admissible {delta x : Rat} (faithful : Faithful s) (settled : Settled s.tableau)
    (found : s.edits.find? v = some edit) (along : Along edit.tag delta z x)
    (moved : Moved P z x s.tableau t) : ∃ ρ, Admissible t ρ := by
  have own := along_symbol along
  have values := value_admissible faithful.sound faithful.feasible settled
  let μ := raised edit.tag |x| s.tableau.value
  have room : 0 ≤ |x| - x := sub_nonneg.mpr (le_abs_self x)
  refine ⟨Function.update μ z (μ z - x), (moved.solves _).mpr ?_, fun y restricted => ?_,
    fun y dummy => ?_⟩
  · rw [Function.update_self, sub_add_cancel, Function.update_idem, Function.update_eq_self]
    exact solves_raised faithful found values.solves |x|
  · have start := values.nonneg y restricted
    by_cases same : y = z
    · subst same
      rw [Function.update_self]
      simp only [μ, raised, if_pos own]
      linarith
    · rw [Function.update_of_ne same]
      simp only [μ, raised]
      split
      · exact add_nonneg start (abs_nonneg x)
      · exact start
  · have other : y ∉ edit.tag.symbols := fun member => by
      rw [Symbol.not_dummy_of_error (edit_errors faithful.orderly found y member)] at dummy
      cases dummy
    have apart : y ≠ z := by
      rintro rfl
      exact other own
    rw [Function.update_of_ne apart]
    simp only [μ, raised, if_neg other]
    exact values.zero y dummy

theorem suggest_smooth (faithful : Faithful s) (settled : Settled s.tableau) (v : Variable)
    (target : Rat) : Smooth dropping (s.suggest v target) := by
  unfold suggest
  split
  · exact smooth_fail _ rfl
  · rename_i edit found
    obtain ⟨z, x, along, moved⟩ := edit_moved (target - edit.target) faithful.orderly faithful.sound
      faithful.feasible found
    obtain ⟨ρ, admissible⟩ := moved_admissible faithful settled found along moved
    exact onTableau_smooth (s := Solver.mapTableau _ _)
      (dualOptimize_smooth moved.sound moved.covered admissible)

/-! ## Edits, steps and runs -/

section Steps
variable (good : Good Minimized s)
include good

theorem addEdit_smooth (store : Store Rat) (v : Variable) (strength : Strength Rat) :
    Smooth dropping (s.addEdit store v strength) := by
  unfold addEdit
  split
  · exact smooth_fail _ rfl
  · dsimp only
    split
    · exact smooth_fail _ rfl
    · refine smooth_andThen (post_smooth good.1 good.2 ⟨_, _, _, rfl⟩)
        (post_ends good.1.orderly (edit_serial s)) ?_
      rintro s₁ ⟨-, -, posted⟩
      split
      · rename_i missing
        rw [posted.postings, OrderedMap.find?_insert, if_pos rfl] at missing
        cases missing
      · exact smooth_report (smooth_ok _) fun column same => by cases same

/-- The constraint behind an edit is there when the edit ends. -/
theorem removeEdit_smooth (v : Variable) : Smooth dropping (s.removeEdit v) := by
  unfold removeEdit
  split
  · exact smooth_fail _ rfl
  · rename_i edit found
    obtain ⟨p, -, backing, -, -, soft, -⟩ := edit_posting good.1.orderly found
    have spared : Spared s.tableau p.tag.marker := .inl (marker_not_dummy good.1.orderly backing
      (minimized_carried.soft _ _ soft))
    have fails := retract_evicted (h := edit.handle) (eraseEdit_orderly good.1.orderly v)
      good.1.sound good.1.feasible
    dsimp only
    refine smooth_andThen (smooth_mapError
      (retract_smooth good.1 good.2 _ backing spared) fun error stopped => if_neg ?_)
      (ends_of_state (P := fun _ => True) trivial) fun _ _ =>
        smooth_report (smooth_ok _) fun column same => by cases same
    rintro rfl
    have missing := (ends_of_error_some fails stopped rfl).2.1
    cases backing.symm.trans missing

theorem setEdit_smooth (store : Store Rat) (v : Variable) (strength : Strength Rat) :
    Smooth dropping (s.setEdit store v strength) := by
  unfold setEdit
  split
  · exact smooth_andThen (removeEdit_smooth good v) (removeEdit_carries minimized_carried good v)
      fun _ good₁ => addEdit_smooth good₁ store v strength
  · exact addEdit_smooth good store v strength

theorem remove_smooth (id : Nat) (removable : ∀ p, s.postings.find? (.posted id) = some p →
    NotRequiredEquation s.tableau p) : Smooth dropping (s.remove id) := by
  cases found : s.postings.find? (.posted id) with
  | none =>
    unfold remove retract
    rw [found]
    exact smooth_fail _ rfl
  | some p =>
    exact retract_smooth good.1 good.2 s.edits found
      (.inl (marker_not_dummy good.1.orderly found (removable p found)))

theorem addAll_smooth (constraints : List (Nat × Constraint Rat))
    (built : ∀ posted ∈ constraints, Built posted.2) : Smooth dropping (s.addAll constraints) := by
  induction constraints generalizing s with
  | nil => exact smooth_ok _
  | cons posted rest ih =>
    have first := built posted List.mem_cons_self
    unfold addAll
    exact smooth_andThen (post_smooth good.1 good.2 first)
      (post_carries minimized_carried good (posted_serial s posted.1) first)
      fun _ good₁ => ih good₁ fun later member => built later (List.mem_cons_of_mem _ member)

end Steps

/-- From a good solver every allowed command is smooth. -/
theorem step_smooth (session : Session Rat) (command : Command Rat)
    (good : Good Minimized session.solver)
    (allowed : Allowed Built NotRequiredEquation session command) :
    Smooth dropping (session.step command) := by
  have solver : ∀ {o : Outcome (Event Rat) (Solver Rat)}, Smooth dropping o →
      Smooth dropping (session.withSolver o) := fun smooth => smooth_embed smooth fun _ _ same => same
  cases command with
  | add id c => exact solver (post_smooth good.1 good.2 allowed)
  | addAll constraints => exact solver (addAll_smooth good constraints allowed)
  | remove id => exact solver (remove_smooth good id allowed)
  | addEdit v strength => exact solver (addEdit_smooth good _ v strength)
  | setEdit v strength => exact solver (setEdit_smooth good _ v strength)
  | removeEdit v => exact solver (removeEdit_smooth good v)
  | suggest v target => exact solver (suggest_smooth good.1 good.2.settled v target)
  | update => exact smooth_ok _
  | reset => exact smooth_ok _
  | setValue v x => exact smooth_ok _

/-- A run that stays below the pivot limit meets no internal error at all. -/
theorem untroubled_of_unlimited {session : Session Rat} {commands : List (Command Rat)}
    (good : Good Minimized session.solver)
    (unlimited : some (.internal .pivotLimit) ∉ session.errors commands)
    (throughout : Throughout (Allowed Built NotRequiredEquation) session commands) :
    Untroubled session commands := by
  induction commands generalizing session with
  | nil => exact fun _ => List.not_mem_nil
  | cons command rest ih =>
    obtain ⟨allowed, later⟩ := throughout
    have fine : ∀ cause, (session.step command).error? ≠ some (.internal cause) := by
      intro cause stopped
      obtain rfl := (step_smooth session command good allowed).limited cause stopped
      exact unlimited (List.mem_cons.mpr (.inl stopped.symm))
    have next := state_of_ends_unless (step_carries minimized_carried session command good allowed) fine
    intro cause member
    rcases List.mem_cons.mp member with here | after
    · exact fine cause here.symm
    · exact ih next (fun limit => unlimited (List.mem_cons_of_mem _ limit)) later cause after

/-- Before a run meets the pivot limit no command of it is stopped for another internal reason, be it
for lack of an entering symbol or of a leaving row, and no column is ever dropped from an objective,
unless a required equation is removed. -/
theorem runs_never_get_stuck (store : Store Rat) (before : List (Command Rat)) (command : Command Rat)
    (unlimited : some (.internal .pivotLimit) ∉ Session.errors ⟨∅, store⟩ before)
    (allowed : Throughout (Allowed Built NotRequiredEquation) ⟨∅, store⟩ (before ++ [command])) :
    let o := (Session.run ⟨∅, store⟩ before).step command
    (∀ cause, o.error? = some (.internal cause) → cause = .pivotLimit) ∧
      ∀ column, .pivot (.residueDropped column) ∉ o.events := by
  intro o
  obtain ⟨throughout, last, -⟩ := throughout_append.mp allowed
  have good : Good Minimized (Session.run ⟨∅, store⟩ before).solver :=
    run_carries minimized_carried store
      (untroubled_of_unlimited ⟨fresh_faithful 0, minimized_carried.fresh⟩ unlimited throughout)
      throughout
  have smooth := step_smooth _ command good last
  exact ⟨smooth.limited, smooth.kept⟩

/-- At last the left column is dragged to where it may not go. -/
theorem runs_never_get_stuck_dragged :
    let command : Command Rat := .suggest ⟨0, none⟩ 5
    some (.internal .pivotLimit) ∉ Session.errors ⟨∅, {}⟩ draggedColumns ∧
      Throughout (Allowed Built NotRequiredEquation) ⟨∅, {}⟩ (draggedColumns ++ [command]) ∧
      let o := (Session.run ⟨∅, {}⟩ draggedColumns).step command
      (∀ cause, o.error? = some (.internal cause) → cause = .pivotLimit) ∧
        ∀ column, .pivot (.residueDropped column) ∉ o.events := by
  intro command
  have unlimited : some (.internal .pivotLimit) ∉ Session.errors ⟨∅, {}⟩ draggedColumns :=
    draggedColumns_untroubled .pivotLimit
  have allowed : Throughout (Allowed Built NotRequiredEquation) ⟨∅, {}⟩
      (draggedColumns ++ [command]) :=
    throughout_append.mpr ⟨Optimality.draggedColumns_allowed, trivial, trivial⟩
  exact ⟨unlimited, allowed, runs_never_get_stuck {} draggedColumns command unlimited allowed⟩

end Cassowary.Progress
