import Cassowary.Proofs.Upkeep

/-!
Which rows may be negative. Every substitution queues the restricted rows that it leaves negative, so
that all but one of them are repaired before an operation succeeds: the row that a pivot brings in is
never looked at, and it stays last in the tableau until the next pivot queues it. With a tolerance, a
constant that counts as zero may become negative beyond the tolerance when its row is solved for a
symbol with a small coefficient, and then the tableau is not feasible although the operation succeeds.
-/

namespace Cassowary.Feasibility
open Endings MapEntries RowSymbols Separation SolverBooks SessionBooks Upkeep Tableau Solver

variable {α : Type} {P : Symbol → Prop} {t : Tableau α} {z x : Symbol} {row : Row α}
  {troubled : Symbol → Prop}

/-- The row of the symbol stands last in the tableau: it is the one that was brought in last. -/
def Newest (t : Tableau α) (z : Symbol) : Prop := t.rows.keys.getLast? = some z

/-- Taking a row out brings no other to the end than the one before it. -/
theorem dropRow_newest (newest : Newest t z) (apart : z ≠ x) : Newest (t.dropRow x) z := by
  obtain ⟨front, keys⟩ := List.getLast?_eq_some_iff.mp newest
  unfold Newest dropRow
  dsimp only
  rw [OrderedMap.keys_erase, keys, List.filter_append]
  simp [apart]

variable [Scalar α]

/-- A symbol whose row is negative. -/
def Violated (t : Tableau α) (z : Symbol) : Prop :=
  ∃ row, t.rows.find? z = some row ∧ violated z row = true

/-- Each negative row is queued or the newest, or its symbol was in trouble before. -/
def Watched (troubled : Symbol → Prop) (t : Tableau α) : Prop :=
  ∀ z, Violated t z → z ∈ t.infeasible ∨ Newest t z ∨ troubled z

/-- No negative row is left but the newest and those that were in trouble before. -/
def Repaired (troubled : Symbol → Prop) (t : Tableau α) : Prop :=
  ∀ z, Violated t z → Newest t z ∨ troubled z

theorem watched_of_repaired (repaired : Repaired troubled t) : Watched troubled t :=
  fun z violated => .inr (repaired z violated)

theorem dropRow_violated (violated : Violated (t.dropRow x) z) : z ≠ x ∧ Violated t z := by
  obtain ⟨row, found, negative⟩ := violated
  simp only [dropRow, OrderedMap.find?_erase] at found
  split at found
  · cases found
  · rename_i apart
    exact ⟨Ne.symm apart, row, found, negative⟩

theorem dropRow_watched (watched : Watched troubled t) : Watched troubled (t.dropRow x) := by
  intro z violated
  obtain ⟨apart, before⟩ := dropRow_violated violated
  exact (watched z before).imp_right (Or.imp_left (dropRow_newest · apart))

theorem dropRow_repaired (repaired : Repaired troubled t) : Repaired troubled (t.dropRow x) := by
  intro z violated
  obtain ⟨apart, before⟩ := dropRow_violated violated
  exact (repaired z before).imp_left (dropRow_newest · apart)

/-- Rows whose constants stay are negative as before. -/
theorem watched_of_rows {t' : Tableau α} (watched : Watched troubled t)
    (keys : t'.rows.keys = t.rows.keys) (queue : t'.infeasible = t.infeasible)
    (constants : ∀ z row', t'.rows.find? z = some row' →
      ∃ row, t.rows.find? z = some row ∧ row.constant = row'.constant) :
    Watched troubled t' := by
  rintro z ⟨row', found, negative⟩
  obtain ⟨row, before, same⟩ := constants z row' found
  unfold Newest
  rw [keys, queue]
  refine watched z ⟨row, before, ?_⟩
  unfold violated at negative ⊢
  rwa [same]

theorem dropColumn_watched (watched : Watched troubled t) : Watched troubled (t.dropColumn x) := by
  refine watched_of_rows watched (OrderedMap.keys_mapValues ..) rfl fun z row' found => ?_
  simp only [dropColumn, OrderedMap.find?_mapValues, Option.map_eq_some_iff] at found
  obtain ⟨row, before, rfl⟩ := found
  exact ⟨row, before, rfl⟩

theorem dropSymbol_watched (watched : Watched troubled t) : Watched troubled (t.dropSymbol x) := by
  unfold dropSymbol
  split
  · exact dropRow_watched watched
  · exact dropColumn_watched watched

/-! ## Pivots -/

/-- Entering a symbol queues every negative row but its own, which is the newest then. -/
theorem enter_watched (row : Row α) (column : ¬Basic t x) : Watched troubled (t.enter x row) := by
  have absent : x ∉ (t.substitute x row).rows.keys := by
    unfold substitute
    rw [OrderedMap.keys_mapValues, OrderedMap.mem_keys_iff]
    exact column
  rintro z ⟨found, held, negative⟩
  by_cases same : z = x
  · subst same
    refine .inr (.inl ?_)
    unfold Newest enter
    dsimp only
    rw [OrderedMap.keys_insert, if_neg absent, List.getLast?_concat]
  · simp only [enter, OrderedMap.find?_insert, if_neg (Ne.symm same)] at held
    refine .inl (List.mem_append_left _ (List.mem_reverse.mpr ?_))
    exact List.mem_map.mpr ⟨(z, found),
      List.mem_filter.mpr ⟨mem_toList_iff.mpr held, negative⟩, rfl⟩

theorem exchange_watched {leaving : Symbol} (entering : Symbol) (row : Row α)
    (column : ¬Basic t entering) :
    Ends (t.exchange entering leaving row) (Watched troubled) (fun _ _ => True) := by
  unfold exchange
  dsimp only
  split
  · trivial
  · exact enter_watched _ fun basic => column (dropRow_basic.mp basic).2

/-- A pass of the primal method watches the rows, also behind a symbol that is going to be dropped. -/
theorem optimize_watched {goal : Goal} {Q : Tableau α → Prop} (tidy : Tidy P t) (start : Q t)
    (pivoted : ∀ t, Watched troubled t → Q t)
    (dropped : ∀ t s, Q t → Q (t.dropResidue s goal)) :
    Ends (t.optimize goal) (fun t' => Tidy P t' ∧ Q t') (fun _ _ => True) := by
  refine ends_mono (PivotRuns.optimize_ends (Q := fun t => Tidy P t ∧ Q t) (R := fun _ => True)
    (fun _ _ => trivial) ?_ ⟨tidy, start⟩) (fun _ ended => ended.1) fun _ _ _ => trivial
  rintro t o ⟨tidy, kept⟩ stepped
  have tidy' := primalStep?_tidy tidy stepped
  obtain ⟨objective, entering, sought, chosen, ⟨-, rfl⟩ | ⟨leaving, row, found, rfl⟩⟩ :=
    PivotRuns.primalStep?_eq_some stepped
  · exact ⟨tidy', dropped t entering kept⟩
  · exact ends_mono (ends_and (ends_of_state tidy') ((ends_report _).mpr
      (exchange_watched entering row (entering_column tidy sought chosen))))
      (fun t' both => ⟨both.1, pivoted t' both.2⟩) fun _ _ _ => trivial

theorem dropResidue_watched (goal : Goal) (watched : Watched troubled t) :
    Watched troubled (t.dropResidue x goal) := by
  cases goal <;> exact watched

/-- The dual method ends when no queued row is negative. -/
theorem dualOptimize_watched (tidy : Tidy P t) (watched : Watched troubled t) :
    Ends t.dualOptimize (Repaired troubled) (fun _ _ => True) := by
  refine ends_mono (PivotRuns.dualOptimize_ends (Q := fun t => Tidy P t ∧ Watched troubled t)
    (R := fun _ => True) (fun _ _ _ => trivial) ?_ ⟨tidy, watched⟩) ?_ fun _ _ _ => trivial
  · rintro t leaving row queue entering ⟨tidy, -⟩ next chosen
    have found := (PivotRuns.nextInfeasible?_eq_some next).1
    have tidy' : Tidy P { t with infeasible := queue } := queue_tidy tidy queue
    have column := (repairing_column tidy found chosen).2
    exact ends_mono (ends_and (ends_of_state (exchange_tidy entering tidy' (line_of_find? found)
      (tidy'.basic _ (basic_of_find? found)))) (exchange_watched entering row column))
      (fun _ both => both) fun _ _ _ => trivial
  · rintro _ ⟨t, ⟨-, watched⟩, stuck, rfl⟩ z ⟨row, found, negative⟩
    refine (watched z ⟨row, found, negative⟩).resolve_left fun queued => ?_
    have fine := PivotRuns.nextInfeasible?_eq_none stuck queued found
    simp [violated, fine] at negative

theorem evict_watched (watched : Watched troubled t) :
    Ends (t.evict x) (Watched troubled) (fun _ _ => True) := by
  unfold evict
  split
  · exact dropRow_watched watched
  · rename_i column
    split
    · trivial
    · rw [ends_report, ends_andThen]
      exact ends_mono (exchange_watched _ _ column) (fun _ watched => dropRow_watched watched)
        fun _ _ _ => trivial

/-- The artificial row is the newest while it is there, so the rows are watched behind it. -/
theorem retireArtificial_watched (tidy : Tidy P t) (watched : Watched troubled (t.dropRow x)) :
    Ends (t.retireArtificial x) (Watched troubled) (fun _ _ => True) := by
  unfold retireArtificial
  split
  · rename_i absent
    have same : t.dropRow x = t := congrArg (fun rows => { t with rows }) (erase_of_absent absent)
    rw [same] at watched
    exact dropColumn_watched watched
  · rename_i row found
    split
    · exact watched
    · split
      · trivial
      · rename_i entering pivot
        have column := (tidy.line row (line_of_find? found) entering
          (pivotable?_eq_some pivot).2).2
        rw [ends_andThen]
        exact ends_mono (exchange_watched entering row column)
          (fun _ watched => dropColumn_watched watched) fun _ _ _ => trivial

theorem enterArtificial_watched (tidy : Tidy P t) (columnar : OverColumns P t row) (fresh : ¬P x)
    (watched : Watched troubled t) :
    Ends (t.enterArtificial x row) (Watched troubled) (fun _ _ => True) := by
  have absent : t.rows.find? x = none := by
    cases found : t.rows.find? x with
    | none => rfl
    | some row => exact absurd (tidy.basic x (basic_of_find? found)) fresh
  have opened : Watched troubled
      ({ t with rows := t.rows.insert x row, artificial := some row }.dropRow x) := by
    unfold dropRow
    dsimp only
    rw [erase_insert, erase_of_absent absent]
    exact watched
  unfold enterArtificial
  rw [ends_andThen]
  refine ends_mono (optimize_watched (Q := fun t => Watched troubled (t.dropRow x))
    (open_tidy tidy columnar fresh) opened (fun _ watched => dropRow_watched watched)
    fun t s watched => ?_) (fun t' both => ?_) fun _ _ _ => trivial
  · exact dropResidue_watched .artificial watched
  · rw [ends_andThen]
    refine ends_mono (retireArtificial_watched (forget_tidy both.1) both.2) (fun t'' watched => ?_)
      fun _ _ _ => trivial
    split
    · exact watched
    · trivial

/-! ## Suggestions -/

/-- Moving the constant of a row queues it when that makes it negative. -/
theorem shiftRow_watched {delta : α} (found : t.rows.find? x = some row)
    (watched : Watched troubled t) : Watched troubled (t.shiftRow x row delta) := by
  have keys : (t.shiftRow x row delta).rows.keys = t.rows.keys := by
    unfold shiftRow
    dsimp only
    rw [OrderedMap.keys_insert, if_pos (OrderedMap.mem_keys_iff.mpr (by rw [found]; rfl))]
  rintro z ⟨row', held, negative⟩
  unfold Newest
  rw [keys]
  simp only [shiftRow, OrderedMap.find?_insert] at held ⊢
  split at held
  · rename_i same
    cases held
    simp only [violated, Bool.and_eq_true] at negative
    rw [if_pos negative.2, same]
    exact .inl List.mem_cons_self
  · refine (watched z ⟨row', held, negative⟩).imp_left fun queued => ?_
    split
    · exact List.mem_cons_of_mem _ queued
    · exact queued

/-- Moving the constants along a column queues the rows that this makes negative. -/
theorem shiftColumn_watched {delta : α} (watched : Watched troubled t) :
    Watched troubled (t.shiftColumn x delta) := by
  have keys : (t.shiftColumn x delta).rows.keys = t.rows.keys := OrderedMap.keys_mapValues ..
  rintro z ⟨row', held, negative⟩
  unfold Newest
  rw [keys]
  have here := held
  simp only [shiftColumn, OrderedMap.find?_mapValues, Option.map_eq_some_iff] at here
  obtain ⟨before, found, moved⟩ := here
  split at moved
  · subst moved
    exact (watched z ⟨before, found, negative⟩).imp_left fun queued =>
      List.mem_append_right _ queued
  · rename_i counts
    have share : row'.coefficient x = before.coefficient x := by rw [← moved]; rfl
    refine .inl (List.mem_append_left _ (List.mem_reverse.mpr (List.mem_map.mpr ⟨(z, row'), ?_, rfl⟩)))
    refine List.mem_filter.mpr ⟨mem_toList_iff.mpr held, ?_⟩
    simp [share, counts, negative]

theorem shiftTarget_watched (tag : Tag) (delta : α) (watched : Watched troubled t) :
    Watched troubled (t.shiftTarget tag delta) := by
  unfold shiftTarget
  split
  · exact shiftRow_watched ‹_› watched
  · split
    · rename_i other row found
      obtain ⟨other', -, mapped⟩ := Option.bind_eq_some_iff.mp found
      obtain ⟨row', held, same⟩ := Option.map_eq_some_iff.mp mapped
      cases same
      exact shiftRow_watched held watched
    · exact shiftColumn_watched watched

/-! ## Runs -/

/-- Operations that are at work watch all rows, and repair them before they end. -/
theorem repaired_upheld (troubled : Symbol → Prop) :
    Upheld (α := α) (Repaired troubled) (Watched troubled) (fun _ => True) (fun _ => True) where
  empty := by
    refine ⟨?_, trivial⟩
    rintro z ⟨row, found, -⟩
    cases found
  holds := watched_of_repaired
  left _ := trivial
  objective _ repaired := repaired
  dropRow _ repaired := dropRow_repaired repaired
  enter row _ column _ := enter_watched row column
  enterArtificial tidy columnar fresh watched := enterArtificial_watched tidy columnar fresh watched
  evict _ _ watched := evict_watched watched
  dropSymbol _ watched := dropSymbol_watched watched
  settle tidy watched := by
    rw [ends_andThen]
    exact ends_mono (optimize_watched (Q := Watched troubled) tidy watched (fun _ watched => watched)
      fun t s watched => dropResidue_watched .primary watched)
      (fun _ both => dualOptimize_watched both.1 both.2) fun _ _ _ => trivial
  shift tag delta tidy watched :=
    dualOptimize_watched (shiftTarget_tidy tag delta tidy) (shiftTarget_watched tag delta watched)
  track _ _ := trivial
  untrack _ _ := trivial

theorem isFeasible_iff : t.isFeasible = true ↔ ∀ z, ¬Violated t z := by
  simp only [Tableau.isFeasible, List.all_eq_true, Bool.not_eq_true', Prod.forall, Violated, not_exists,
    not_and, Bool.not_eq_true, OrderedMap.find?_eq_some_iff]

/-- Whatever the arithmetic does, after every call that succeeds only the row that was brought in last
can be negative, unless an earlier call met an internal error and the row was negative before. In a run
without internal errors the tableau is therefore feasible just when the newest row is not negative. -/
theorem feasible_iff_newest_row (store : Store α) (commands : List (Command α)) (command : Command α)
    (succeeded : ((Session.run ⟨∅, store⟩ commands).step command).error? = none) :
    let before := (Session.run ⟨∅, store⟩ commands).solver
    let after := ((Session.run ⟨∅, store⟩ commands).step command).state.solver
    (∀ z, Violated after.tableau z → Newest after.tableau z ∨
        ¬Untroubled ⟨∅, store⟩ commands ∧ Violated before.tableau z) ∧
      (Untroubled ⟨∅, store⟩ commands →
        (after.isFeasible = true ↔ ∀ z, Newest after.tableau z → ¬Violated after.tableau z)) := by
  intro before after
  let troubled : Symbol → Prop := fun z =>
    ¬Untroubled ⟨∅, store⟩ commands ∧ Violated before.tableau z
  have settled : Repaired troubled before.tableau := by
    intro z violated
    by_cases untroubled : Untroubled ⟨∅, store⟩ commands
    · have kept := run_upholds_untroubled (repaired_upheld fun _ => False) store untroubled
      exact (kept.2.1 z violated).imp_right False.elim
    · exact .inr ⟨untroubled, violated⟩
  have repaired : Repaired troubled after.tableau :=
    (ends_of_error_none (step_upholds (repaired_upheld troubled) (run_orderly store commands) settled
      trivial command) succeeded).1
  refine ⟨repaired, fun untroubled => isFeasible_iff.trans ⟨fun fine z _ => fine z, ?_⟩⟩
  intro newest z violated
  rcases repaired z violated with last | ⟨troubled, -⟩
  · exact newest z last violated
  · exact troubled untroubled

/-- A quantity that may not be negative. -/
def floor : Command Float :=
  .add 0 (.relate (.ofVariable ⟨0, none⟩) .greaterOrEqual (.ofScalar 0))

/-- A bound that is missed by less than the tolerance, on a quantity with a small coefficient. -/
def slope : Command Float := .add 1 (.make ⟨[⟨⟨0, none⟩, 1e-6⟩], 5e-9⟩ .lessOrEqual .required)

theorem slope_succeeds : ((Session.run ⟨∅, {}⟩ [floor]).step slope).error? = none := by
  decide +kernel

theorem feasible_iff_newest_row_slope :
    ((Session.run ⟨∅, {}⟩ [floor]).step slope).error? = none ∧
      let before := (Session.run ⟨∅, {}⟩ [floor]).solver
      let after := ((Session.run ⟨∅, {}⟩ [floor]).step slope).state.solver
      (∀ z, Violated after.tableau z → Newest after.tableau z ∨
          ¬Untroubled ⟨∅, {}⟩ [floor] ∧ Violated before.tableau z) ∧
        (Untroubled ⟨∅, {}⟩ [floor] →
          (after.isFeasible = true ↔ ∀ z, Newest after.tableau z → ¬Violated after.tableau z)) :=
  ⟨slope_succeeds, feasible_iff_newest_row {} [floor] slope slope_succeeds⟩

/-- A call that succeeds may leave a restricted row negative. The artificial row of the slope is solved
for the slack symbol of the floor, and its constant, which counts as zero, is divided by the small
coefficient. -/
theorem success_may_leave_negative_row :
    ¬∀ (store : Store Float) (commands : List (Command Float)) (command : Command Float),
      FiniteInputs store (commands ++ [command]) →
        ((Session.run ⟨∅, store⟩ commands).step command).error? = none →
          ((Session.run ⟨∅, store⟩ commands).step command).state.solver.isFeasible = true := by
  intro all
  have feasible := all {} [floor] slope (finiteInputs_of_all (by decide +kernel)) slope_succeeds
  revert feasible
  decide +kernel

end Cassowary.Feasibility
