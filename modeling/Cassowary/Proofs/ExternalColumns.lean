import Cassowary.Proofs.Upkeep

/-!
Which rows hold external columns. The rows of restricted symbols and the objectives start without any,
and a pivot between restricted symbols brings none in. A marker that leaves through the row of a
variable is the exception: the row is chosen when the marker's cells in all restricted rows count as
zero, but such a cell is replaced like any other, and may carry the columns of the row along.
-/

namespace Cassowary.ExternalColumns
open Endings MapEntries RowSymbols Separation Bookkeeping Drafting SolverBooks SessionBooks Upkeep
open Tableau Solver

variable {α : Type}

section Tableaus
variable {t : Tableau α} {r row : Row α} {s z : Symbol}

/-- A row without external columns. -/
def Inner (row : Row α) : Prop := ∀ z ∈ row.cells.keys, z.isExternal = false

/-- The objectives and the rows of restricted symbols. -/
def innerRows (t : Tableau α) : List (Row α) :=
  t.objective :: t.artificial.toList ++
    (t.rows.toList.filter fun entry => entry.1.isRestricted).map Prod.snd

/-- No restricted row and no objective has an external column. -/
def Confined (t : Tableau α) : Prop := ∀ row ∈ innerRows t, Inner row

/-- A confined tableau with none but restricted symbols in its queue. -/
structure Guarded (t : Tableau α) : Prop where
  confined : Confined t
  queue : ∀ z ∈ t.infeasible, z.isRestricted = true

instance : Decidable (Confined t) :=
  inferInstanceAs (Decidable (∀ row ∈ innerRows t, ∀ z ∈ row.cells.keys, z.isExternal = false))

theorem inner_iff : Inner r ↔ ∀ z, r.holds z = true → z.isExternal = false := by
  simp only [Inner, holds_iff_mem_keys]

theorem not_holds_of_inner (inner : Inner r) (external : z.isExternal = true) :
    r.holds z = false := by
  by_contra held
  have := inner_iff.mp inner z (by simpa using held)
  rw [external] at this
  cases this

theorem inner_of_holds {r' : Row α} (inner : Inner r)
    (fewer : ∀ z, r'.holds z = true → r.holds z = true) : Inner r' :=
  inner_iff.mpr fun z held => inner_iff.mp inner z (fewer z held)

theorem inner_remove (inner : Inner r) : Inner (r.remove s) :=
  inner_of_holds inner fun _ held => (holds_remove.mp held).2

theorem mem_innerRows : row ∈ innerRows t ↔ row = t.objective ∨ t.artificial = some row ∨
    ∃ s, s.isRestricted = true ∧ t.rows.find? s = some row := by
  simp only [innerRows, List.cons_append, List.mem_cons, List.mem_append, Option.mem_toList,
    List.mem_map, List.mem_filter, Prod.exists, exists_eq_right, mem_toList_iff]
  simp only [and_comm]

theorem inner_objective (confined : Confined t) : Inner t.objective :=
  confined _ (mem_innerRows.mpr (.inl rfl))

theorem inner_row (confined : Confined t) (found : t.rows.find? s = some row)
    (restricted : s.isRestricted = true) : Inner row :=
  confined row (mem_innerRows.mpr (.inr (.inr ⟨s, restricted, found⟩)))

/-! ## Operations that do not pivot -/

/-- A tableau whose objectives and restricted rows hold only what such rows of a guarded one hold. -/
theorem guarded_of_rows {t' : Tableau α} (guarded : Guarded t)
    (rows : ∀ row ∈ innerRows t', Inner row ∨ ∃ before ∈ innerRows t,
      ∀ z, row.holds z = true → before.holds z = true)
    (queue : ∀ z ∈ t'.infeasible, z ∈ t.infeasible ∨ z.isRestricted = true) : Guarded t' where
  confined row member := by
    obtain inner | ⟨before, earlier, fewer⟩ := rows row member
    · exact inner
    · exact inner_of_holds (guarded.confined before earlier) fewer
  queue z member := (queue z member).elim (guarded.queue z) id

theorem queue_guarded (guarded : Guarded t) {queue : List Symbol}
    (queued : ∀ z ∈ queue, z ∈ t.infeasible ∨ z.isRestricted = true) :
    Guarded { t with infeasible := queue } :=
  guarded_of_rows guarded (fun row member => .inr ⟨row, member, fun _ held => held⟩) queued

theorem objective_guarded {objective : Row α} (guarded : Guarded t) (inner : Inner objective) :
    Guarded { t with objective } := by
  refine guarded_of_rows guarded (fun row member => ?_) fun _ queued => .inl queued
  rcases mem_innerRows.mp member with rfl | other
  · exact .inl inner
  · exact .inr ⟨row, mem_innerRows.mpr (.inr other), fun _ held => held⟩

theorem forget_guarded (guarded : Guarded t) : Guarded { t with artificial := none } := by
  refine guarded_of_rows guarded (fun row member => .inr ⟨row, ?_, fun _ held => held⟩)
    fun _ queued => .inl queued
  rcases mem_innerRows.mp member with rfl | none | restricted
  · exact mem_innerRows.mpr (.inl rfl)
  · cases none
  · exact mem_innerRows.mpr (.inr (.inr restricted))

theorem dropRow_guarded (guarded : Guarded t) : Guarded (t.dropRow s) := by
  refine guarded_of_rows guarded (fun row member => .inr ⟨row, ?_, fun _ held => held⟩)
    fun _ queued => .inl queued
  rcases mem_innerRows.mp member with rfl | artificial | ⟨z, restricted, found⟩
  · exact mem_innerRows.mpr (.inl rfl)
  · exact mem_innerRows.mpr (.inr (.inl artificial))
  · simp only [dropRow, OrderedMap.find?_erase] at found
    split at found
    · cases found
    · exact mem_innerRows.mpr (.inr (.inr ⟨z, restricted, found⟩))

theorem dropColumn_guarded (guarded : Guarded t) : Guarded (t.dropColumn s) := by
  refine guarded_of_rows guarded (fun row member => .inr ?_) fun _ queued => .inl queued
  rcases mem_innerRows.mp member with rfl | artificial | ⟨z, restricted, found⟩
  · exact ⟨t.objective, mem_innerRows.mpr (.inl rfl), fun _ held => (holds_remove.mp held).2⟩
  · exact ⟨row, mem_innerRows.mpr (.inr (.inl artificial)), fun _ held => held⟩
  · simp only [dropColumn, OrderedMap.find?_mapValues, Option.map_eq_some_iff] at found
    obtain ⟨before, found, rfl⟩ := found
    exact ⟨before, mem_innerRows.mpr (.inr (.inr ⟨z, restricted, found⟩)),
      fun _ held => (holds_remove.mp held).2⟩

theorem dropSymbol_guarded (guarded : Guarded t) : Guarded (t.dropSymbol s) := by
  unfold dropSymbol
  split
  · exact dropRow_guarded guarded
  · exact dropColumn_guarded guarded

theorem dropResidue_guarded (goal : Goal) (guarded : Guarded t) : Guarded (t.dropResidue s goal) := by
  cases goal with
  | primary => exact objective_guarded guarded (inner_remove (inner_objective guarded.confined))
  | artificial =>
    refine guarded_of_rows guarded (fun row member => .inr ?_) fun _ queued => .inl queued
    rcases mem_innerRows.mp member with rfl | artificial | restricted
    · exact ⟨t.objective, mem_innerRows.mpr (.inl rfl), fun _ held => held⟩
    · obtain ⟨before, opened, rfl⟩ := Option.map_eq_some_iff.mp artificial
      exact ⟨before, mem_innerRows.mpr (.inr (.inl opened)), fun _ held => (holds_remove.mp held).2⟩
    · exact ⟨row, mem_innerRows.mpr (.inr (.inr restricted)), fun _ held => held⟩

/-- Opening the artificial phase brings in one row, which is its objective too. -/
theorem open_guarded (guarded : Guarded t) (inner : Inner row) :
    Guarded { t with rows := t.rows.insert s row, artificial := some row } := by
  refine guarded_of_rows guarded (fun row' member => ?_) fun _ queued => .inl queued
  rcases mem_innerRows.mp member with rfl | opened | ⟨z, restricted, found⟩
  · exact .inr ⟨t.objective, mem_innerRows.mpr (.inl rfl), fun _ held => held⟩
  · cases opened
    exact .inl inner
  · dsimp only at found
    rw [OrderedMap.find?_insert] at found
    split at found
    · cases found
      exact .inl inner
    · exact .inr ⟨row', mem_innerRows.mpr (.inr (.inr ⟨z, restricted, found⟩)), fun _ held => held⟩

variable [Scalar α]

theorem empty_guarded : Guarded (∅ : Tableau α) where
  confined row member z held := by
    rcases mem_innerRows.mp member with rfl | none | ⟨s, -, none⟩
    · cases held
    · cases none
    · cases none
  queue z none := nomatch none

/-! ## Pivots -/

theorem inner_insertSymbol {x : α} (inner : Inner r) (restricted : z.isExternal = false) :
    Inner (r.insertSymbol z x) :=
  inner_iff.mpr fun _ held => (holds_insertSymbol held).elim (fun same => same ▸ restricted)
    (inner_iff.mp inner _)

theorem inner_insertRow {x : α} (inner : Inner r) (added : Inner row) :
    Inner (r.insertRow row x) :=
  inner_iff.mpr fun z held => (holds_insertRow held).elim (inner_iff.mp inner z)
    (inner_iff.mp added z)

theorem inner_substitute (inner : Inner r) (replacing : Inner row) : Inner (r.substitute s row) :=
  inner_iff.mpr fun z held => (holds_substitute held).elim (fun kept => inner_iff.mp inner z kept.2)
    fun taken => inner_iff.mp replacing z taken.2

/-- Only restricted symbols are queued. -/
theorem substitute_queue (queue : ∀ z ∈ t.infeasible, z.isRestricted = true) :
    ∀ z ∈ (t.substitute s row).infeasible, z.isRestricted = true := by
  intro z member
  rcases List.mem_append.mp member with negative | before
  · obtain ⟨entry, listed, rfl⟩ := List.mem_map.mp (List.mem_reverse.mp negative)
    have below := (List.mem_filter.mp listed).2
    rw [violated, Bool.and_eq_true] at below
    exact below.1
  · exact queue z before

/-- Replacing a symbol by a row keeps a tableau guarded if it brings no external column into the rows
that are free of them. -/
theorem enter_guarded_of (guarded : Guarded t)
    (others : ∀ r, Inner r → Inner (r.substitute z row))
    (own : z.isRestricted = true → Inner row) : Guarded (t.enter z row) where
  confined row' member := by
    rcases mem_innerRows.mp member with rfl | artificial | ⟨y, restricted, found⟩
    · exact others _ (inner_objective guarded.confined)
    · obtain ⟨before, opened, rfl⟩ := Option.map_eq_some_iff.mp artificial
      exact others _ (guarded.confined _ (mem_innerRows.mpr (.inr (.inl opened))))
    · simp only [enter, substitute, OrderedMap.find?_insert, OrderedMap.find?_mapValues] at found
      split at found
      · rename_i same
        cases found
        exact own (same ▸ restricted)
      · obtain ⟨before, earlier, rfl⟩ := Option.map_eq_some_iff.mp found
        exact others _ (inner_row guarded.confined earlier restricted)
  queue := substitute_queue guarded.queue

theorem enter_guarded (guarded : Guarded t) (inner : Inner row) : Guarded (t.enter z row) :=
  enter_guarded_of guarded (fun _ before => inner_substitute before inner) fun _ => inner

/-- A variable may enter with any row, since no restricted row holds it. -/
theorem enter_external_guarded (guarded : Guarded t) (external : z.isExternal = true) :
    Guarded (t.enter z row) := by
  refine enter_guarded_of guarded (fun r inner => ?_) fun restricted => ?_
  · rwa [Row.substitute_of_not_holds (not_holds_of_inner inner external)]
  · exact absurd restricted (Symbol.not_isRestricted_iff.mpr external)

/-- A pivot on the row of a restricted symbol is one between restricted symbols. -/
theorem exchange_guarded {entering leaving : Symbol} (guarded : Guarded t)
    (found : t.rows.find? leaving = some row) (restricted : leaving.isRestricted = true) :
    Guarded (t.exchange entering leaving row).state := by
  have inner : Inner row := inner_row guarded.confined found restricted
  unfold exchange
  dsimp only
  split
  · exact dropRow_guarded guarded
  · rename_i fine
    have holds := (ends_of_error_none
      (solveForSymbols_ends (ε := PivotEvent) row leaving entering) fine).2
    refine enter_guarded (dropRow_guarded guarded) (inner_iff.mpr fun z held => ?_)
    rcases (holds z held).2 with rfl | kept
    · exact Symbol.isRestricted_iff.mp restricted
    · exact inner_iff.mp inner z kept

theorem primalStep?_guarded {goal : Goal} {o : Outcome PivotEvent (Tableau α)} (guarded : Guarded t)
    (stepped : t.primalStep? goal = some o) : Guarded o.state := by
  obtain ⟨objective, entering, -, -, ⟨-, rfl⟩ | ⟨leaving, row, left, rfl⟩⟩ :=
    PivotRuns.primalStep?_eq_some stepped
  · exact dropResidue_guarded goal guarded
  · obtain ⟨found, pick, best, rfl⟩ := PivotRuns.leavingRow?_eq_some left
    obtain ⟨s, row', -, restricted, -, rfl⟩ := PivotRuns.mem_leavingPicks.mp (Pick.best?_mem best)
    exact exchange_guarded guarded found restricted

theorem optimize_guarded (goal : Goal) (guarded : Guarded t) : Guarded (t.optimize goal).state :=
  state_of_ends <| ends_mono
    (PivotRuns.optimize_ends (fun _ guarded => guarded)
      (fun _ _ guarded stepped => ends_of_state (primalStep?_guarded guarded stepped)) guarded)
    (fun _ ended => ended.1) fun _ _ ended => ended.2

theorem dualOptimize_guarded (guarded : Guarded t) : Guarded t.dualOptimize.state := by
  refine PivotRuns.dualOptimize_keeps (fun t queue guarded fewer =>
    queue_guarded guarded fun z queued => .inl (fewer z queued)) ?_ guarded
  intro t leaving row queue entering guarded next _
  obtain ⟨found, -, queued, fewer⟩ := PivotRuns.nextInfeasible?_eq_some next
  exact exchange_guarded (queue_guarded guarded fun z queued => .inl (fewer z queued)) found
    (guarded.queue leaving queued)

theorem retireArtificial_guarded (guarded : Guarded t) (restricted : s.isRestricted = true) :
    Guarded (t.retireArtificial s).state := by
  unfold retireArtificial
  split
  · exact dropColumn_guarded guarded
  · rename_i row found
    split
    · exact dropRow_guarded guarded
    · split
      · exact dropRow_guarded guarded
      · exact Outcome.andThen_state (exchange_guarded guarded found restricted)
          fun _ guarded => dropColumn_guarded guarded

theorem enterArtificial_guarded (guarded : Guarded t) (inner : Inner row)
    (restricted : s.isRestricted = true) : Guarded (t.enterArtificial s row).state := by
  unfold enterArtificial
  refine Outcome.andThen_state (optimize_guarded .artificial (open_guarded guarded inner))
    fun t guarded => ?_
  refine Outcome.andThen_state (retireArtificial_guarded (forget_guarded guarded) restricted)
    fun t guarded => ?_
  split <;> exact guarded

/-! ## Taking markers out -/

/-- Whether a row takes external columns over when a symbol is replaced: it holds the symbol, and the
replacing row an external symbol whose share of that cell counts. -/
def carries (r : Row α) (s : Symbol) (replacing : Row α) : Bool :=
  (r.cells.find? s).any fun x => replacing.cells.toList.any fun cell =>
    cell.1.isExternal && !Scalar.nearZero (0 + cell.2 * x)

/-- Whether taking out a marker spills external columns: it is not basic and leaves through the row of
a variable, which a restricted row or an objective takes columns over from. -/
def spills (t : Tableau α) (marker : Symbol) : Bool :=
  !t.rows.contains marker && (t.markerRow? marker).any fun chosen =>
    chosen.1.isExternal && chosen.2.holds marker && (innerRows t).any
      (carries · marker (chosen.2.solveForSymbols (ε := PivotEvent) chosen.1 marker).state)

private theorem holds_insertCells_of_ne {cells : List (Symbol × α)}
    (apart : ∀ cell ∈ cells, cell.1 ≠ z) : (r.insertCells cells).holds z = r.holds z := by
  induction cells generalizing r with
  | nil => rfl
  | cons cell rest ih =>
    have first : z ≠ cell.1 := fun same => apart cell (by simp) same.symm
    exact (ih fun later member => apart later (List.mem_cons_of_mem _ member)).trans
      (holds_insertSymbol_of_ne first)

/-- A symbol that is new to a row is held after merging cells when its own cell counts. -/
private theorem holds_insertCells_iff {cells : List (Symbol × α)}
    (distinct : (cells.map Prod.fst).Nodup) (absent : r.holds z = false) :
    (r.insertCells cells).holds z = true ↔
      ∃ x, (z, x) ∈ cells ∧ Scalar.nearZero (0 + x) = false := by
  induction cells generalizing r with
  | nil => simp [Row.insertCells, absent]
  | cons cell rest ih =>
    obtain ⟨fresh, restDistinct⟩ := List.nodup_cons.mp distinct
    by_cases same : cell.1 = z
    · subst same
      have apart : ∀ later ∈ rest, later.1 ≠ cell.1 := fun later member same =>
        fresh (List.mem_map.mpr ⟨later, member, same⟩)
      have own : (r.insertSymbol cell.1 cell.2).holds cell.1 = true ↔
          Scalar.nearZero (0 + cell.2) = false := by
        unfold Row.insertSymbol Row.holds
        rw [coefficient_of_not_holds absent]
        dsimp only
        split <;> simp_all [OrderedMap.contains]
      have others : ∀ x, (cell.1, x) ∈ cell :: rest ↔ x = cell.2 := fun x => by
        refine List.mem_cons.trans ⟨fun member => ?_, fun same => .inl (same ▸ rfl)⟩
        exact member.elim (congrArg Prod.snd) fun later => absurd rfl (apart (cell.1, x) later)
      show ((r.insertSymbol cell.1 cell.2).insertCells rest).holds cell.1 = true ↔ _
      rw [holds_insertCells_of_ne apart, own]
      simp only [others, exists_eq_left]
    · have absent' : (r.insertSymbol cell.1 cell.2).holds z = false :=
        (holds_insertSymbol_of_ne (Ne.symm same)).trans absent
      refine (ih restDistinct absent').trans (exists_congr fun x => and_congr_left fun _ => ?_)
      refine ⟨List.mem_cons_of_mem _, fun member => (List.mem_cons.mp member).resolve_left ?_⟩
      exact fun here => same (congrArg Prod.fst here).symm

/-- Replacing a symbol leaves a row free of external columns just when it carries none over. -/
theorem inner_substitute_iff (inner : Inner r) :
    Inner (r.substitute s row) ↔ carries r s row = false := by
  unfold Row.substitute carries
  cases found : r.cells.find? s with
  | none => simpa using inner
  | some x =>
    have absent : ∀ z, z.isExternal = true →
        ((r.remove s).addConstant (row.scale x).constant).holds z = false := fun z external =>
      not_holds_of_inner (inner_remove inner) external
    have brought : ∀ z, z.isExternal = true → (((r.remove s).insertRow row x).holds z = true ↔
        ∃ q, (z, q) ∈ row.cells.toList ∧ Scalar.nearZero (0 + q * x) = false) := by
      intro z external
      refine (holds_insertCells_iff (row.scale x).cells.distinct (absent z external)).trans ?_
      simp [Row.scale, OrderedMap.mapValues]
    rw [inner_iff, Option.any_some, List.any_eq_false]
    refine ⟨fun none cell member => ?_, fun none z held => ?_⟩
    · intro counts
      simp only [Bool.and_eq_true, Bool.not_eq_true'] at counts
      have := none cell.1 ((brought _ counts.1).mpr ⟨cell.2, member, counts.2⟩)
      rw [counts.1] at this
      cases this
    · by_contra external
      simp only [Bool.not_eq_false] at external
      obtain ⟨q, member, counts⟩ := (brought z external).mp held
      exact none (z, q) member (by simp [external, counts])

/-- A marker that does not leave through the row of a variable that holds it spills nothing. -/
private theorem evict_within {marker : Symbol} (guarded : Guarded t)
    (within : ∀ leaving row, t.rows.find? marker = none → t.markerRow? marker = some (leaving, row) →
      leaving.isExternal = true → row.holds marker = false) :
    Guarded (t.evict marker).state ∧ spills t marker = false := by
  cases column : t.rows.find? marker with
  | some row =>
    have basic := contains_of_find? column
    refine ⟨?_, by simp [spills, basic]⟩
    unfold evict
    rw [if_pos basic]
    exact dropRow_guarded guarded
  | none =>
    have notBasic : ¬t.rows.contains marker = true := by simp [not_contains_iff.mpr column]
    unfold evict
    rw [if_neg notBasic]
    cases chosen : t.markerRow? marker with
    | none => exact ⟨guarded, by simp [spills, chosen]⟩
    | some entry =>
      obtain ⟨leaving, row⟩ := entry
      have found := (PivotRuns.markerRow?_eq_some chosen).1
      have absent := within leaving row column chosen
      refine ⟨Outcome.andThen_state ?_ fun _ guarded => dropRow_guarded guarded, ?_⟩
      · by_cases restricted : leaving.isRestricted = true
        · exact exchange_guarded guarded found restricted
        · have missing := absent (Symbol.not_isRestricted_iff.mp restricted)
          have apart : marker ≠ leaving := by
            rintro rfl
            exact notBasic (contains_of_find? found)
          unfold exchange
          dsimp only
          split
          · exact dropRow_guarded guarded
          · rename_i fine
            have present := (ends_of_error_none (solveForSymbols_ends row leaving marker) fine).1
            rw [missing] at present
            exact absurd (present.resolve_left apart) Bool.false_ne_true
      · by_contra spilled
        simp only [spills, chosen, Option.any_some, Bool.and_eq_true, Bool.not_eq_false] at spilled
        have missing := absent spilled.2.1.1
        rw [missing] at spilled
        exact Bool.false_ne_true spilled.2.1.2

private theorem innerRows_substitute (t : Tableau α) (s : Symbol) (row : Row α) :
    innerRows (t.substitute s row) = (innerRows t).map (·.substitute s row) := by
  have filtered : (t.substitute s row).rows.toList.filter (fun entry => entry.1.isRestricted) =
      (t.rows.toList.filter fun entry => entry.1.isRestricted).map
        fun entry => (entry.1, entry.2.substitute s row) := List.filter_map
  rw [innerRows, filtered]
  cases opened : t.artificial <;> simp [innerRows, substitute, opened, Function.comp_def]

omit [Scalar α] in
private theorem innerRows_dropRow (external : s.isExternal = true) :
    innerRows (t.dropRow s) = innerRows t := by
  have others : (t.rows.erase s).toList.filter (fun entry => entry.1.isRestricted) =
      t.rows.toList.filter fun entry => entry.1.isRestricted := by
    refine (List.filter_filter ..).trans (List.filter_congr fun entry _ => ?_)
    by_cases same : entry.1 = s
    · simp [same, Symbol.isRestricted, external]
    · simp [same]
  simp [innerRows, dropRow, others]

/-- Taking a marker out of a guarded tableau keeps it confined just when it spills nothing. -/
theorem evict_confined_iff (guarded : Guarded t) (marker : Symbol) :
    (Confined (t.evict marker).state ↔ spills t marker = false) ∧
      ∀ z ∈ (t.evict marker).state.infeasible, z.isRestricted = true := by
  by_cases through : ∃ leaving row, t.rows.find? marker = none ∧
      t.markerRow? marker = some (leaving, row) ∧ leaving.isExternal = true ∧ row.holds marker = true
  · obtain ⟨leaving, row, column, chosen, external, held⟩ := through
    have notBasic : ¬Basic t marker := by simp [Basic, not_contains_iff.mpr column]
    obtain ⟨solved, went, evicted⟩ := evict_through notBasic chosen held
    rw [evicted]
    refine ⟨?_, substitute_queue guarded.queue⟩
    have spilled : spills t marker = (innerRows t).any (carries · marker solved) := by
      simp [spills, not_contains_iff.mpr column, chosen, external, held, went, Outcome.ok]
    have left : innerRows ((Outcome.ok ((t.dropRow leaving).substitute marker solved)).report
        (PivotEvent.primal marker leaving)).state =
        (innerRows (t.dropRow leaving)).map (·.substitute marker solved) := innerRows_substitute ..
    rw [Confined, left, innerRows_dropRow external, spilled, List.forall_mem_map,
      List.any_eq_false]
    refine forall₂_congr fun r member => ?_
    rw [inner_substitute_iff (guarded.confined r member), Bool.not_eq_true]
  · obtain ⟨kept, none⟩ := evict_within guarded fun leaving row column chosen external => by
      by_contra held
      exact through ⟨leaving, row, column, chosen, external, by simpa using held⟩
    exact ⟨iff_of_true kept.confined none, kept.queue⟩

end Tableaus

/-! ## Operations of the solver -/

variable [Scalar α] {s : Solver α} {c : Constraint α} {h : Handle}

theorem release_guarded (e : Expression α) (guarded : Guarded s.tableau) :
    Guarded (s.release e).tableau :=
  release_keeps (fun _ _ guarded => dropRow_guarded guarded) e guarded

theorem withdraw_guarded (tag : Tag) (guarded : Guarded s.tableau) :
    Guarded (s.withdraw c tag).tableau := by
  have discharged : ∀ (symbols : List Symbol) {r : Row α}, Inner r → Inner (symbols.foldl Row.remove r) := by
    intro symbols
    induction symbols with
    | nil => exact fun inner => inner
    | cons first rest ih => exact fun inner => ih (inner_remove inner)
  exact release_guarded (s := s.mapTableau (·.discharge tag)) c.expression
    (objective_guarded guarded (discharged tag.symbols (inner_objective guarded.confined)))

theorem settle_guarded (guarded : Guarded s.tableau) : Guarded s.settle.state.tableau :=
  Outcome.andThen_state (P := Guarded) (optimize_guarded .primary guarded)
    fun _ guarded => dualOptimize_guarded guarded

theorem draft_guarded (guarded : Guarded s.tableau) : Guarded (s.draft c).solver.tableau := by
  rw [draft_tableau]
  refine objective_guarded guarded (inner_iff.mpr fun z held => ?_)
  rcases holds_insertCells held with ⟨cell, member, rfl⟩ | before
  · obtain ⟨error, own, rfl⟩ := List.mem_map.mp member
    exact (draft_symbol (List.mem_filter.mp own).1).1
  · exact inner_iff.mp (inner_objective guarded.confined) z before

/-- A drafted row may be solved for a variable, and for any symbol if it holds no variable. -/
theorem draft_enter_guarded {d : Draft α} {subject : Symbol} (guarded : Guarded d.solver.tableau)
    (apt : subject.isExternal = true ∨ Inner d.row) : Guarded (d.enter subject).state.tableau := by
  unfold Draft.enter
  dsimp only
  split
  · exact guarded
  · rename_i fine
    have holds := (ends_of_error_none solveFor_ends fine).2
    rcases apt with external | inner
    · exact enter_external_guarded guarded external
    · exact enter_guarded guarded (inner_of_holds inner fun z held => ((holds z).mp held).2)

theorem install_guarded {d : Draft α} (guarded : Guarded d.solver.tableau) :
    Guarded (d.install c).state.tableau := by
  have inner : d.row.cells.keys.find? Symbol.isExternal = none → Inner d.row := fun none z member => by
    simpa using List.find?_eq_none.mp none z member
  unfold Draft.install
  split
  · rename_i subject chosen
    refine draft_enter_guarded guarded ?_
    cases first : d.row.cells.keys.find? Symbol.isExternal with
    | none => exact .inr (inner first)
    | some z =>
      rw [Draft.subject?, first, Option.some_or] at chosen
      cases chosen
      exact .inl (List.find?_some first)
  · rename_i none
    have row := inner (Option.or_eq_none_iff.mp none).1
    split
    · unfold Draft.enterArtificial
      dsimp only
      split
      · exact enterArtificial_guarded (t := d.solver.tableau) guarded row rfl
      · exact withdraw_guarded (s := { d.solver with minted := d.solver.minted + 1 }) d.tag guarded
    · split
      · exact draft_enter_guarded guarded (.inr row)
      · exact withdraw_guarded d.tag guarded

theorem post_guarded (guarded : Guarded s.tableau) : Guarded (s.post h c).state.tableau := by
  unfold post
  split
  · exact guarded
  · refine Outcome.andThen_state (P := fun s : Solver α => Guarded s.tableau)
      (install_guarded (draft_guarded guarded)) fun s₁ guarded₁ => ?_
    exact Outcome.andThen_state (P := fun s : Solver α => Guarded s.tableau)
      (settle_guarded (s := { s₁ with postings := s₁.postings.insert h ⟨c, (s.draft c).tag⟩ }) guarded₁)
      fun _ guarded => guarded

theorem refund_guarded {t : Tableau α} {tag : Tag} {weight : α} (guarded : Guarded t)
    (internal : ∀ z ∈ tag.symbols, z.isExternal = false) : Guarded (t.refund tag weight) := by
  have mine : ∀ z ∈ tag.errors, z.isExternal = false := fun z error =>
    internal z (List.mem_filter.mp error).1
  refine objective_guarded guarded ?_
  have inner := inner_objective guarded.confined
  generalize t.objective = objective at inner
  generalize tag.errors = errors at mine
  induction errors generalizing objective with
  | nil => exact inner
  | cons error rest ih =>
    have own := mine error (by simp)
    refine ih _ ?_ fun z later => mine z (List.mem_cons_of_mem _ later)
    dsimp only
    split
    · rename_i row found
      exact inner_insertRow inner
        (inner_row guarded.confined found (Symbol.isRestricted_iff.mpr own))
    · exact inner_insertSymbol inner own

/-- Whether removing the constraint under a handle spills external columns. -/
def retractionSpills (s : Solver α) (h : Handle) : Bool :=
  (s.postings.find? h).any fun posting =>
    spills (s.tableau.refund posting.tag posting.constraint.strength.value) posting.tag.marker

theorem retract_guarded (orderly : Orderly s) (guarded : Guarded s.tableau)
    (sealed : retractionSpills s h = false) : Guarded (s.retract h).state.tableau := by
  unfold retract
  split
  · exact guarded
  · rename_i c tag found
    have refunded : Guarded (s.tableau.refund tag c.strength.value) :=
      refund_guarded guarded fun z member => (tag_symbol orderly.books.postings found member).1
    have none : spills (s.tableau.refund tag c.strength.value) tag.marker = false := by
      simpa [retractionSpills, found] using sealed
    obtain ⟨confined, queue⟩ := evict_confined_iff refunded tag.marker
    have evicted : Guarded ((s.tableau.refund tag c.strength.value).evict tag.marker).state :=
      ⟨confined.mpr none, queue⟩
    refine Outcome.andThen_state (P := fun s : Solver α => Guarded s.tableau) evicted
      fun s₁ guarded₁ => ?_
    refine Outcome.andThen_state (P := fun s : Solver α => Guarded s.tableau)
      (settle_guarded ?_) fun s₂ guarded₂ => release_guarded c.expression guarded₂
    cases tag.other with
    | none => exact guarded₁
    | some other => exact dropSymbol_guarded guarded₁

theorem shiftRow_guarded {t : Tableau α} {z : Symbol} {row : Row α} {delta : α} (guarded : Guarded t)
    (found : t.rows.find? z = some row) (internal : z.isExternal = false) :
    Guarded (t.shiftRow z row delta) := by
  have restricted := Symbol.isRestricted_iff.mpr internal
  have inner : Inner row := inner_row guarded.confined found restricted
  refine guarded_of_rows guarded (fun row' member => ?_) fun y queued => ?_
  · rcases mem_innerRows.mp member with objective | artificial | ⟨y, restricted', found'⟩
    · exact .inr ⟨row', mem_innerRows.mpr (.inl objective), fun _ held => held⟩
    · exact .inr ⟨row', mem_innerRows.mpr (.inr (.inl artificial)), fun _ held => held⟩
    · simp only [shiftRow, OrderedMap.find?_insert] at found'
      split at found'
      · cases found'
        exact .inl inner
      · exact .inl (inner_row guarded.confined found' restricted')
  · unfold shiftRow at queued
    dsimp only at queued
    split at queued
    · rcases List.mem_cons.mp queued with rfl | before
      · exact .inr restricted
      · exact .inl before
    · exact .inl queued

theorem shiftColumn_guarded {t : Tableau α} {z : Symbol} {delta : α} (guarded : Guarded t) :
    Guarded (t.shiftColumn z delta) := by
  refine guarded_of_rows guarded (fun row' member => ?_) fun y queued => ?_
  · rcases mem_innerRows.mp member with objective | artificial | ⟨y, restricted, found⟩
    · exact .inr ⟨row', mem_innerRows.mpr (.inl objective), fun _ held => held⟩
    · exact .inr ⟨row', mem_innerRows.mpr (.inr (.inl artificial)), fun _ held => held⟩
    · simp only [shiftColumn, OrderedMap.find?_mapValues, Option.map_eq_some_iff] at found
      obtain ⟨before, found, rfl⟩ := found
      refine .inl (inner_of_holds (inner_row guarded.confined found restricted) fun _ held => ?_)
      split at held <;> exact held
  · rcases List.mem_append.mp queued with lowered | before
    · obtain ⟨entry, listed, rfl⟩ := List.mem_map.mp (List.mem_reverse.mp lowered)
      have below := (List.mem_filter.mp listed).2
      simp only [violated, Bool.and_eq_true] at below
      exact .inr below.2.1
    · exact .inl before

theorem shiftTarget_guarded {t : Tableau α} {tag : Tag} {delta : α} (guarded : Guarded t)
    (internal : ∀ z ∈ tag.symbols, z.isExternal = false) : Guarded (t.shiftTarget tag delta) := by
  unfold shiftTarget
  split
  · exact shiftRow_guarded guarded ‹_› (internal _ (by simp [Tag.symbols]))
  · split
    · rename_i other row found
      obtain ⟨other', present, mapped⟩ := Option.bind_eq_some_iff.mp found
      obtain ⟨row', held, same⟩ := Option.map_eq_some_iff.mp mapped
      cases same
      exact shiftRow_guarded guarded held (internal other (by simp [Tag.symbols, present]))
    · exact shiftColumn_guarded guarded

theorem suggest_guarded (orderly : Orderly s) (guarded : Guarded s.tableau) (v : Variable)
    (target : α) : Guarded (s.suggest v target).state.tableau := by
  unfold suggest
  split
  · exact guarded
  · rename_i edit found
    obtain ⟨old, strength, -, posted⟩ := orderly.books.edits.posted v edit found
    exact dualOptimize_guarded (shiftTarget_guarded guarded fun z member =>
      (tag_symbol orderly.books.postings posted member).1)

theorem addEdit_guarded (guarded : Guarded s.tableau) (store : Store α) (v : Variable)
    (strength : Strength α) : Guarded (s.addEdit store v strength).state.tableau := by
  unfold addEdit
  split
  · exact guarded
  · dsimp only
    split
    · exact guarded
    · refine Outcome.andThen_state (P := fun s : Solver α => Guarded s.tableau) (post_guarded guarded)
        fun s₁ guarded₁ => ?_
      split <;> exact guarded₁

theorem removeEdit_guarded (orderly : Orderly s) (guarded : Guarded s.tableau) (v : Variable)
    (sealed : ∀ edit, s.edits.find? v = some edit → retractionSpills s edit.handle = false) :
    Guarded (s.removeEdit v).state.tableau := by
  unfold removeEdit
  split
  · exact guarded
  · rename_i edit found
    exact Outcome.andThen_state (P := fun s : Solver α => Guarded s.tableau)
      (retract_guarded (eraseEdit_orderly orderly v) guarded (sealed edit found))
      fun _ guarded => guarded

theorem addAll_guarded (constraints : List (Nat × Constraint α)) (guarded : Guarded s.tableau) :
    Guarded (s.addAll constraints).state.tableau := by
  induction constraints generalizing s with
  | nil => exact guarded
  | cons posted rest ih =>
    exact Outcome.andThen_state (P := fun s : Solver α => Guarded s.tableau) (post_guarded guarded)
      fun _ guarded => ih guarded

/-! ## Commands and runs -/

/-- The handle of the constraint that a command removes. -/
def retracted? (s : Solver α) : Command α → Option Handle
  | .remove id => some (.posted id)
  | .removeEdit v | .setEdit v _ => (s.edits.find? v).map Edit.handle
  | _ => none

/-- The command removes no constraint in a way that spills external columns. -/
def Sealed (session : Session α) (command : Command α) : Prop :=
  (retracted? session.solver command).any (retractionSpills session.solver) = false

instance (session : Session α) (command : Command α) : Decidable (Sealed session command) :=
  inferInstanceAs (Decidable (_ = false))

theorem step_guarded {session : Session α} {command : Command α} (orderly : Orderly session.solver)
    (guarded : Guarded session.solver.tableau) (sealed : Sealed session command) :
    Guarded (session.step command).state.solver.tableau := by
  have edit : ∀ v, ((session.solver.edits.find? v).map Edit.handle).any
        (retractionSpills session.solver) = false →
      Guarded (session.solver.removeEdit v).state.tableau := fun v sealed =>
    removeEdit_guarded orderly guarded v fun edit found => by simpa [found] using sealed
  cases command with
  | add id c => exact post_guarded guarded
  | addAll constraints => exact addAll_guarded constraints guarded
  | remove id => exact retract_guarded orderly guarded sealed
  | addEdit v strength => exact addEdit_guarded guarded _ v strength
  | setEdit v strength =>
    show Guarded (session.solver.setEdit session.store v strength).state.tableau
    unfold setEdit
    split
    · exact Outcome.andThen_state (P := fun s : Solver α => Guarded s.tableau) (edit v sealed)
        fun _ guarded => addEdit_guarded guarded _ v strength
    · exact addEdit_guarded guarded _ v strength
  | removeEdit v => exact edit v sealed
  | suggest v target => exact suggest_guarded orderly guarded v target
  | update => exact guarded
  | reset => exact empty_guarded
  | setValue v x => exact guarded

/-- Whatever the arithmetic does and whatever errors a run meets, no restricted row and no objective has
an external column as long as no removal spills any, and the next eviction of a marker keeps it so just
when it spills none. -/
theorem restricted_rows_hold_no_external_columns (store : Store α) (commands : List (Command α))
    (sealed : Throughout Sealed ⟨∅, store⟩ commands) :
    let s := (Session.run ⟨∅, store⟩ commands).solver
    Confined s.tableau ∧ ∀ h posting, s.postings.find? h = some posting →
      let t := s.tableau.refund posting.tag posting.constraint.strength.value
      (Confined (t.evict posting.tag.marker).state ↔ retractionSpills s h = false) := by
  intro s
  obtain ⟨orderly, guarded⟩ : Orderly s ∧ Guarded s.tableau := by
    refine run_keeps_always (fun session => Orderly session.solver ∧ Guarded session.solver.tableau)
      ?_ ⟨fresh_orderly 0, empty_guarded⟩ sealed
    rintro session command ⟨orderly, guarded⟩ sealed
    exact ⟨step_orderly orderly command, step_guarded orderly guarded sealed⟩
  refine ⟨guarded.confined, fun h posting found => ?_⟩
  have refunded :
      Guarded (s.tableau.refund posting.tag posting.constraint.strength.value) :=
    refund_guarded guarded fun z member => (tag_symbol orderly.books.postings found member).1
  have spilled : retractionSpills s h =
      spills (s.tableau.refund posting.tag posting.constraint.strength.value) posting.tag.marker := by
    simp [retractionSpills, found]
  rw [spilled]
  exact (evict_confined_iff refunded posting.tag.marker).1

/-- Two quantities with a fixed sum and some bounds, one of which is given up again. -/
def split : List (Command Float) :=
  let x : Expression Float := .ofVariable ⟨0, none⟩
  let y : Expression Float := .ofVariable ⟨1, none⟩
  [.add 0 (.relate (x + y) .equal (.ofScalar 10)),
    .add 1 (.relate x .greaterOrEqual (.ofScalar 2)),
    .add 2 (.make (y - .ofScalar 3) .lessOrEqual .weak),
    .add 3 (.relate y .greaterOrEqual (.ofScalar 0)),
    .remove 3]

theorem split_sealed : Throughout Sealed ⟨∅, {}⟩ split := by decide +kernel

theorem restricted_rows_hold_no_external_columns_split :
    Throughout Sealed ⟨∅, {}⟩ split ∧
      let s := (Session.run ⟨∅, {}⟩ split).solver
      Confined s.tableau ∧ ∀ h posting, s.postings.find? h = some posting →
        let t := s.tableau.refund posting.tag posting.constraint.strength.value
        (Confined (t.evict posting.tag.marker).state ↔ retractionSpills s h = false) :=
  ⟨split_sealed, restricted_rows_hold_no_external_columns {} split split_sealed⟩

/-- A steep bound on one quantity and a bound on another, which an inequality weighs against each other.
Then the steep bound is given up. -/
def steep : List (Command Float) :=
  let x : Expression Float := .ofVariable ⟨0, none⟩
  let w : Expression Float := .ofVariable ⟨1, none⟩
  [.add 0 (.relate (x.scale 1000) .greaterOrEqual (.ofScalar 0)),
    .add 1 (.relate w .greaterOrEqual (.ofScalar 0)),
    .add 2 (.make ⟨[⟨⟨0, none⟩, 0.01⟩, ⟨⟨1, none⟩, -100000⟩], 1⟩ .lessOrEqual .required),
    .remove 0]

/-- With doubles a removal may bring an external column into a restricted row, although all calls
succeed. The slack symbol of the steep bound has a cell of 1e-10 in the row of the other bound's slack
symbol, so it leaves through the row of the variable, whose own cell is 1000 once it is solved. -/
theorem restricted_row_may_hold_external_column :
    ¬∀ (store : Store Float) (commands : List (Command Float)), FiniteInputs store commands →
      (∀ error ∈ Session.errors ⟨∅, store⟩ commands,
        error = none ∨ error = some .unsatisfiableConstraint) →
      Confined (Session.run ⟨∅, store⟩ commands).solver.tableau := by
  intro all
  have fine : ∀ error ∈ Session.errors ⟨∅, {}⟩ steep,
      error = none ∨ error = some .unsatisfiableConstraint := by decide +kernel
  have confined := all {} steep (finiteInputs_of_all (by decide +kernel)) fine
  revert confined
  decide +kernel

end Cassowary.ExternalColumns
