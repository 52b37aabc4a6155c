import Cassowary.Proofs.Objectives
import Cassowary.Proofs.Removals

/-!
Symbols that leave the basis, and the near-zero cells that come in with those that enter it. Merging drops
a cell that comes to count as zero, but solving a row rescales its cells and drops none, and the solved row
is stored as it is. A near-zero cell of a row was therefore either there before, with the same coefficient,
or the row was newly solved, which makes its symbol enter the basis. A symbol that was basic before can
only enter it after leaving it.
-/

namespace Cassowary.Departures
open Endings MapEntries RowSymbols Separation Removals Objectives Tableau

variable {α : Type} [Scalar α] {P : Symbol → Prop} {t t' t'' : Tableau α} {row : Row α}
  {key z : Symbol} {x : α} {gone gone' : List Symbol}

/-- A row stores a cell although its coefficient counts as zero. -/
def Faint (t : Tableau α) (key z : Symbol) (x : α) : Prop :=
  ∃ row, t.rows.find? key = some row ∧ row.cells.find? z = some x ∧ Scalar.nearZero x = true

/-- No row stores a cell whose coefficient counts as zero. -/
def Clear (t : Tableau α) : Prop :=
  ∀ entry ∈ t.rows.toList, ∀ cell ∈ entry.2.cells.toList, Scalar.nearZero cell.2 = false

instance : Decidable (Clear t) :=
  inferInstanceAs (Decidable (∀ entry ∈ t.rows.toList, ∀ cell ∈ entry.2.cells.toList, _))

theorem clear_iff : Clear t ↔ ∀ key z x, ¬Faint t key z x := by
  constructor
  · rintro clear key z x ⟨row, found, held, faint⟩
    have counts := clear (key, row) (mem_toList_iff.mpr found) (z, x) (mem_toList_iff.mpr held)
    rw [faint] at counts
    cases counts
  · intro none entry member cell held
    by_contra faint
    exact none entry.1 cell.1 cell.2
      ⟨entry.2, mem_toList_iff.mp member, mem_toList_iff.mp held, by simpa using faint⟩

theorem faint_basic (faint : Faint t key z x) : Basic t key := by
  obtain ⟨row, found, -⟩ := faint
  exact basic_of_find? found

/-- Every near-zero cell afterwards was there before, or is in the row of a symbol that was not basic
before or that has left the basis in the meantime. -/
def Inherits (gone : List Symbol) (t t' : Tableau α) : Prop :=
  ∀ key z x, Faint t' key z x → Faint t key z x ∨ ¬Basic t key ∨ key ∈ gone

/-- Besides, what was basic before is basic still or has left the basis in the meantime. -/
structure Follows (gone : List Symbol) (t t' : Tableau α) : Prop where
  inherits : Inherits gone t t'
  stays : ∀ key, Basic t key → Basic t' key ∨ key ∈ gone

theorem inherits_trans (first : Follows gone t t') (second : Inherits gone' t' t'') :
    Inherits (gone' ++ gone) t t'' := by
  intro key z x faint
  obtain before | fresh | left := second key z x faint
  · exact (first.inherits key z x before).imp_right (·.imp_right (List.mem_append_right _))
  · by_cases basic : Basic t key
    · have left := (first.stays key basic).resolve_left fresh
      exact .inr (.inr (List.mem_append_right _ left))
    · exact .inr (.inl basic)
  · exact .inr (.inr (List.mem_append_left _ left))

theorem follows_trans (first : Follows gone t t') (second : Follows gone' t' t'') :
    Follows (gone' ++ gone) t t'' where
  inherits := inherits_trans first second.inherits
  stays key basic := by
    obtain still | left := first.stays key basic
    · exact (second.stays key still).imp_right (List.mem_append_left _)
    · exact .inr (List.mem_append_right _ left)

theorem inherits_mono (inherits : Inherits gone t t') (more : gone ⊆ gone') : Inherits gone' t t' :=
  fun key z x faint => (inherits key z x faint).imp_right (·.imp_right fun left => more left)

theorem follows_mono (follows : Follows gone t t') (more : gone ⊆ gone') : Follows gone' t t' where
  inherits := inherits_mono follows.inherits more
  stays key basic := (follows.stays key basic).imp_right fun left => more left

/-- A symbol that was not basic before need not be listed. -/
theorem follows_without (follows : Follows (key :: gone) t t') (column : ¬Basic t key) :
    Follows gone t t' where
  inherits other z x faint := by
    obtain before | fresh | left := follows.inherits other z x faint
    · exact .inl before
    · exact .inr (.inl fresh)
    · obtain rfl | left := List.mem_cons.mp left
      · exact .inr (.inl column)
      · exact .inr (.inr left)
  stays other basic := by
    refine (follows.stays other basic).imp_right fun left => ?_
    obtain rfl | left := List.mem_cons.mp left
    · exact absurd basic column
    · exact left

/-- Symbols that are not basic afterwards need not be listed for the cells. -/
theorem inherits_of_absent (inherits : Inherits (gone' ++ gone) t t')
    (absent : ∀ key ∈ gone', ¬Basic t' key) : Inherits gone t t' := by
  intro key z x faint
  obtain before | fresh | left := inherits key z x faint
  · exact .inl before
  · exact .inr (.inl fresh)
  · obtain dropped | left := List.mem_append.mp left
    · exact absurd (faint_basic faint) (absent key dropped)
    · exact .inr (.inr left)

/-! ## Changes of rows -/

/-- A tableau with no other rows than before has no other near-zero cells. -/
theorem inherits_of_fewer
    (fewer : ∀ key row, t'.rows.find? key = some row → t.rows.find? key = some row) :
    Inherits gone t t' := by
  rintro key z x ⟨row, found, held, faint⟩
  exact .inl ⟨row, fewer key row found, held, faint⟩

theorem follows_of_rows (rows : t'.rows = t.rows) : Follows gone t t' where
  inherits := inherits_of_fewer fun key row found => rows ▸ found
  stays key basic := .inl (by rwa [Basic, rows])

theorem dropRow_follows (t : Tableau α) (key : Symbol) : Follows [key] t (t.dropRow key) where
  inherits := inherits_of_fewer fun other row found => by
    rw [dropRow, OrderedMap.find?_erase] at found
    split at found
    · cases found
    · exact found
  stays other basic := by
    by_cases same : other = key
    · exact .inr (by simp [same])
    · exact .inl (dropRow_basic.mpr ⟨same, basic⟩)

/-- Changing every row in a way that stores no new near-zero cell. -/
theorem change_follows {f : Symbol → Row α → Row α} (rows : t'.rows = t.rows.mapValues f)
    (inherited : ∀ key row z x, (f key row).cells.find? z = some x →
      Scalar.nearZero x = true → row.cells.find? z = some x) : Follows [] t t' where
  inherits := by
    rintro key z x ⟨row, found, held, faint⟩
    rw [rows, OrderedMap.find?_mapValues, Option.map_eq_some_iff] at found
    obtain ⟨before, found, rfl⟩ := found
    exact .inl ⟨before, found, inherited key before z x held faint, faint⟩
  stays key basic := .inl (by rwa [Basic, rows, contains_mapValues])

/-- A new row may store any cells. -/
theorem insert_follows (rows : t'.rows = t.rows.insert key row) (column : ¬Basic t key) :
    Follows [] t t' where
  inherits := by
    rintro other z x ⟨row', found, held, faint⟩
    rw [rows, OrderedMap.find?_insert] at found
    split at found
    · rename_i same
      exact .inr (.inl (same ▸ column))
    · exact .inl ⟨row', found, held, faint⟩
  stays other basic := .inl (by rw [Basic, rows, contains_insert]; exact .inr basic)

theorem substitute_follows (t : Tableau α) (key : Symbol) (row : Row α) :
    Follows [] t (t.substitute key row) :=
  change_follows rfl fun _ _ _ _ found faint => find?_substitute_faint found faint

theorem enter_follows (row : Row α) (column : ¬Basic t key) : Follows [] t (t.enter key row) := by
  have apart : ¬Basic (t.substitute key row) key := by simpa [Basic, substitute] using column
  exact follows_trans (substitute_follows t key row) (insert_follows rfl apart)

theorem dropColumn_follows (t : Tableau α) (key : Symbol) : Follows [] t (t.dropColumn key) := by
  refine change_follows (f := fun _ row => row.remove key) rfl fun _ row z x found _ => ?_
  rw [Row.remove, OrderedMap.find?_erase] at found
  split at found
  · cases found
  · exact found

theorem dropSymbol_follows (t : Tableau α) (key : Symbol) : Follows [key] t (t.dropSymbol key) := by
  unfold dropSymbol
  split
  · exact dropRow_follows t key
  · exact follows_mono (dropColumn_follows t key) (List.nil_subset _)

theorem shiftRow_follows (delta : α) (found : t.rows.find? key = some row) :
    Follows [] t (t.shiftRow key row delta) where
  inherits := by
    rintro other z x ⟨row', found', held, faint⟩
    rw [shiftRow, OrderedMap.find?_insert] at found'
    split at found'
    · rename_i same
      cases found'
      exact .inl ⟨row, same ▸ found, held, faint⟩
    · exact .inl ⟨row', found', held, faint⟩
  stays other basic := .inl (contains_insert.mpr (.inr basic))

/-- Moving constants changes no cell. -/
theorem shiftTarget_follows (t : Tableau α) (tag : Tag) (delta : α) :
    Follows [] t (t.shiftTarget tag delta) := by
  unfold shiftTarget
  split
  · exact shiftRow_follows _ ‹_›
  · split
    · rename_i other row found
      obtain ⟨other', -, mapped⟩ := Option.bind_eq_some_iff.mp found
      obtain ⟨row', held, same⟩ := Option.map_eq_some_iff.mp mapped
      cases same
      exact shiftRow_follows _ held
    · refine change_follows (f := fun _ row =>
        if Scalar.nearZero (row.coefficient tag.marker) then row
        else row.addConstant (delta * row.coefficient tag.marker)) rfl fun _ row z x held _ => ?_
      split at held <;> exact held

/-! ## Pivots -/

/-- The symbol that leaves the basis in a pivot. -/
def leaver? : PivotEvent → Option Symbol
  | .primal _ leaving => some leaving
  | .dual _ leaving => some leaving
  | .residueDropped _ => none

/-- An operation reports every symbol that leaves the basis while it works. -/
def Reports {ε σ : Type} (leaver? : ε → Option Symbol) (view : σ → Tableau α) (t : Tableau α)
    (o : Outcome ε σ) : Prop :=
  Tells o (fun events s => Follows (events.filterMap leaver?) t (view s))
    (fun events s => Inherits (events.filterMap leaver?) t (view s))

section Reports
variable {ε σ : Type} {leaver? : ε → Option Symbol} {view : σ → Tableau α} {o : Outcome ε σ}

theorem reports_of_state (follows : Follows (o.events.filterMap leaver?) t (view o.state)) :
    Reports leaver? view t o :=
  ends_mono (ends_of_state (P := fun s => Follows (o.events.filterMap leaver?) t (view s)) follows)
    (fun _ follows => follows) fun _ _ follows => follows.inherits

theorem inherits_of_reports (reports : Reports leaver? view t o) :
    Inherits (o.events.filterMap leaver?) t (view o.state) := by
  unfold Reports Tells at reports
  exact state_of_ends (P := fun s => Inherits (o.events.filterMap leaver?) t (view s))
    (ends_mono reports (fun _ follows => follows.inherits) fun _ _ inherits => inherits)

theorem reports_andThen {next : σ → Outcome ε σ} (first : Reports leaver? view t o)
    (second : Reports leaver? view (view o.state) (next o.state)) :
    Reports leaver? view t (o.andThen next) := by
  unfold Reports Tells at first second
  refine tells_andThen (ends_mono
    (ends_and (ends_of_state (P := fun s => s = o.state) rfl) first) ?_ fun _ _ both => both.2)
  rintro _ ⟨rfl, follows⟩
  refine ends_mono second (fun s later => ?_) fun _ s later => ?_
  · dsimp only at later ⊢
    rw [List.filterMap_append]
    exact follows_trans follows later
  · dsimp only at later ⊢
    rw [List.filterMap_append]
    exact inherits_trans follows later

/-- What an operation starts with may come of changes of which there is nothing to report. -/
theorem reports_of_follows (before : Follows [] t t') (reports : Reports leaver? view t' o) :
    Reports leaver? view t o := by
  unfold Reports Tells at reports ⊢
  refine ends_mono reports (fun s later => ?_) fun _ s later => ?_
  · exact follows_mono (follows_trans before later) (by simp)
  · exact inherits_mono (inherits_trans before later) (by simp)

end Reports

theorem exchange_events (entering leaving : Symbol) (row : Row α) :
    (t.exchange entering leaving row).events = [] := by
  unfold exchange
  dsimp only
  split <;> rfl

theorem exchange_follows {entering : Symbol} (leaving : Symbol) (row : Row α)
    (column : ¬Basic t entering) : Follows [leaving] t (t.exchange entering leaving row).state := by
  have rest : ¬Basic (t.dropRow leaving) entering := fun basic => column (dropRow_basic.mp basic).2
  unfold exchange
  dsimp only
  split
  · exact dropRow_follows t leaving
  · exact follows_trans (dropRow_follows t leaving) (enter_follows _ rest)

theorem primalStep?_follows {goal : Goal} {o : Outcome PivotEvent (Tableau α)} (tidy : Tidy P t)
    (stepped : t.primalStep? goal = some o) : Follows (o.events.filterMap leaver?) t o.state := by
  obtain ⟨objective, entering, sought, chosen, ⟨-, rfl⟩ | ⟨leaving, row, -, rfl⟩⟩ :=
    PivotRuns.primalStep?_eq_some stepped
  · exact follows_of_rows (by cases goal <;> rfl)
  · have events : ((t.exchange entering leaving row).report (.primal entering leaving)).events =
        [.primal entering leaving] := congrArg (_ :: ·) (exchange_events entering leaving row)
    rw [events]
    exact exchange_follows leaving row (entering_column tidy sought chosen)

/-- The loop of the primal method reports the pivots of its rounds on top of those before it. -/
theorem optimizeWithin_follows (goal : Goal) (limit : Nat) (events : List PivotEvent)
    (tidy : Tidy P t) : ∃ new, (optimizeWithin goal limit t events).events = new ++ events ∧
      Follows (new.filterMap leaver?) t (optimizeWithin goal limit t events).state := by
  -- By induction on the rounds that are left, whatever the earlier rounds have reported.
  induction limit generalizing t events with
  | zero => exact ⟨[], rfl, follows_of_rows rfl⟩
  | succ limit ih =>
    unfold optimizeWithin
    split
    · exact ⟨[], rfl, follows_of_rows rfl⟩
    · rename_i next reported stepped
      have first := primalStep?_follows tidy stepped
      obtain ⟨new, same, later⟩ := ih (reported ++ events) (primalStep?_tidy tidy stepped)
      refine ⟨new ++ reported, by rw [same, List.append_assoc], ?_⟩
      rw [List.filterMap_append]
      exact follows_trans first later
    · rename_i next error reported stepped
      exact ⟨reported, rfl, primalStep?_follows tidy stepped⟩

theorem optimize_reports (goal : Goal) (tidy : Tidy P t) : Reports leaver? id t (t.optimize goal) := by
  obtain ⟨new, same, follows⟩ := optimizeWithin_follows goal pivotLimit [] tidy
  have events : (t.optimize goal).events = new := same.trans (List.append_nil new)
  exact reports_of_state (events ▸ follows)

theorem repair_follows {leaving entering : Symbol} {queue : List Symbol} (tidy : Tidy P t)
    (next : nextInfeasible? t.rows t.infeasible = some (leaving, row, queue))
    (chosen : Tableau.repairingSymbol? { t with infeasible := queue } row = some entering) :
    let o := (Tableau.exchange { t with infeasible := queue } entering leaving row).report
      (.dual entering leaving)
    Follows (o.events.filterMap leaver?) t o.state ∧ Tidy P o.state := by
  intro o
  have found := (PivotRuns.nextInfeasible?_eq_some next).1
  have column := (repairing_column tidy found chosen).2
  have events : o.events = [.dual entering leaving] :=
    congrArg (_ :: ·) (exchange_events (t := { t with infeasible := queue }) entering leaving row)
  have shorter : Follows [] t { t with infeasible := queue } := follows_of_rows rfl
  refine ⟨events ▸ follows_trans shorter (exchange_follows leaving row column), ?_⟩
  exact exchange_tidy entering (queue_tidy tidy queue) (line_of_find? found)
    (tidy.basic _ (basic_of_find? found))

/-- So does the loop of the dual method. -/
theorem dualOptimizeWithin_follows (limit : Nat) (events : List PivotEvent) (tidy : Tidy P t) :
    ∃ new, (dualOptimizeWithin limit t events).events = new ++ events ∧
      Follows (new.filterMap leaver?) t (dualOptimizeWithin limit t events).state := by
  induction limit generalizing t events with
  | zero =>
    unfold dualOptimizeWithin
    split
    · exact ⟨[], rfl, follows_of_rows rfl⟩
    · dsimp only
      split
      · exact ⟨[], rfl, follows_of_rows rfl⟩
      · exact ⟨[], rfl, follows_of_rows rfl⟩
  | succ limit ih =>
    unfold dualOptimizeWithin
    split
    · exact ⟨[], rfl, follows_of_rows rfl⟩
    · rename_i leaving row queue infeasible
      dsimp only
      split
      · exact ⟨[], rfl, follows_of_rows rfl⟩
      · rename_i entering chosen
        obtain ⟨first, pivoted⟩ := repair_follows tidy infeasible chosen
        split
        · rename_i next reported stepped
          rw [stepped] at first pivoted
          obtain ⟨new, same, later⟩ := ih (reported ++ events) pivoted
          refine ⟨new ++ reported, by rw [same, List.append_assoc], ?_⟩
          rw [List.filterMap_append]
          exact follows_trans first later
        · rename_i next error reported stepped
          rw [stepped] at first
          exact ⟨reported, rfl, first⟩

theorem dualOptimize_reports (tidy : Tidy P t) : Reports leaver? id t t.dualOptimize := by
  obtain ⟨new, same, follows⟩ := dualOptimizeWithin_follows pivotLimit [] tidy
  have events : t.dualOptimize.events = new := same.trans (List.append_nil new)
  exact reports_of_state (events ▸ follows)

theorem settling_reports (tidy : Tidy P t) : Reports leaver? id t (settling t) :=
  reports_andThen (optimize_reports .primary tidy) (dualOptimize_reports (optimize_tidy .primary tidy))

/-- A marker that leaves the tableau is not reported itself, but the symbol is that makes way for it. -/
theorem evict_tells (t : Tableau α) (marker : Symbol) : Tells (t.evict marker)
    (fun events => Follows (marker :: events.filterMap leaver?) t)
    (fun events => Inherits (events.filterMap leaver?) t) := by
  unfold evict
  split
  · exact dropRow_follows t marker
  · rename_i column
    split
    · exact (follows_of_rows rfl).inherits
    · rename_i leaving row found
      have pivot := exchange_follows leaving row column
      have events := exchange_events (t := t) marker leaving row
      cases stopped : (t.exchange marker leaving row).error? with
      | some error =>
        simp only [Tells, Ends, Outcome.report, Outcome.andThen, stopped, events]
        exact pivot.inherits
      | none =>
        simp only [Tells, Ends, Outcome.report, Outcome.andThen, stopped, events]
        exact follows_trans pivot (dropRow_follows _ marker)

theorem retireArtificial_events (t : Tableau α) (symbol : Symbol) :
    (t.retireArtificial symbol).events = [] := by
  unfold retireArtificial
  split
  · rfl
  · split
    · rfl
    · split
      · rfl
      · rename_i row _ _ _ entering _
        have events := exchange_events (t := t) entering symbol row
        cases stopped : (t.exchange entering symbol row).error? <;>
          simp [Outcome.andThen, Outcome.ok, stopped, events]

theorem retireArtificial_follows {symbol : Symbol} (tidy : Tidy P t) :
    Ends (t.retireArtificial symbol) (Follows [symbol] t) (fun _ _ => True) := by
  unfold retireArtificial
  split
  · exact follows_mono (dropColumn_follows t symbol) (List.nil_subset _)
  · rename_i row found
    split
    · exact dropRow_follows t symbol
    · split
      · trivial
      · rename_i entering pivot
        have column : ¬Basic t entering :=
          (tidy.line row (line_of_find? found) _ (pivotable?_eq_some pivot).2).2
        rw [ends_andThen]
        refine ends_mono (ends_of_state (exchange_follows symbol row column)) (fun t' pivoted => ?_)
          fun _ _ _ => trivial
        exact follows_trans pivoted (dropColumn_follows t' symbol)

/-- The artificial symbol comes and goes without being reported, and was not basic before. -/
theorem enterArtificial_tells {symbol : Symbol} (tidy : Tidy P t) (columnar : OverColumns P t row)
    (fresh : ¬P symbol) : Tells (t.enterArtificial symbol row)
      (fun events => Follows (events.filterMap leaver?) t) (fun _ _ => True) := by
  have column : ¬Basic t symbol := fun basic => fresh (tidy.basic symbol basic)
  have opened := open_tidy tidy columnar fresh
  have brought : Follows [] t
      { t with rows := t.rows.insert symbol row, artificial := some row } := insert_follows rfl column
  have phase := optimize_reports .artificial opened
  unfold Reports Tells at phase
  unfold enterArtificial
  refine tells_andThen (ends_mono (ends_and (ends_of_state (optimize_tidy .artificial opened)) phase)
    ?_ fun _ _ _ => trivial)
  rintro t₁ ⟨tidy₁, follows₁⟩
  refine tells_andThen (ends_mono (retireArtificial_follows (forget_tidy tidy₁)) ?_
    fun _ _ _ => trivial)
  intro t₂ follows₂
  split
  · have closed : Follows [] t₁ { t₁ with artificial := none } := follows_of_rows rfl
    have all := follows_trans (follows_trans brought follows₁) (follows_trans closed follows₂)
    refine follows_without (follows_mono all ?_) column
    simp [Outcome.ok, retireArtificial_events]
  · trivial

end Cassowary.Departures
