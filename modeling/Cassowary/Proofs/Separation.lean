import Cassowary.Proofs.PivotRuns
import Cassowary.Proofs.RowSymbols

/-!
Basic symbols stay out of the columns. A tableau is tidy over a set of symbols when its rows and
objectives hold only symbols of that set and none that is basic. Every method keeps a tableau tidy,
whatever its arithmetic does and however it ends: the proofs follow symbols and never a coefficient.
-/

namespace Cassowary.Separation
open Endings MapEntries PivotRuns RowSymbols Tableau

variable {α : Type} {P : Symbol → Prop} {t : Tableau α} {r row : Row α} {s z : Symbol}

/-- The symbol heads a row. -/
def Basic (t : Tableau α) (s : Symbol) : Prop := t.rows.contains s = true

/-- The rows that speak about the columns: those of the tableau and its objectives. -/
def Line (t : Tableau α) (r : Row α) : Prop :=
  (∃ s, t.rows.find? s = some r) ∨ r = t.objective ∨ t.artificial = some r

/-- A row over symbols of the set that are not basic. -/
def OverColumns (P : Symbol → Prop) (t : Tableau α) (r : Row α) : Prop :=
  ∀ s, r.holds s = true → P s ∧ ¬Basic t s

/-- Basic symbols are of the set, and each row is over the columns of the set. -/
structure Tidy (P : Symbol → Prop) (t : Tableau α) : Prop where
  basic : ∀ s, Basic t s → P s
  line : ∀ r, Line t r → OverColumns P t r

theorem basic_of_find? (found : t.rows.find? s = some r) : Basic t s := contains_of_find? found

theorem line_of_find? (found : t.rows.find? s = some r) : Line t r := .inl ⟨s, found⟩

theorem line_objective : Line t t.objective := .inr (.inl rfl)

/-- A row of the tableau does not hold its own symbol or that of any other row. -/
theorem not_holds_basic (tidy : Tidy P t) (line : Line t r) (basic : Basic t s) :
    r.holds s = false := by
  by_contra held
  exact (tidy.line r line s (by simpa using held)).2 basic

theorem tidy_mono {Q : Symbol → Prop} (tidy : Tidy P t) (wider : ∀ s, P s → Q s) : Tidy Q t where
  basic s basic := wider s (tidy.basic s basic)
  line r line s held := ⟨wider s (tidy.line r line s held).1, (tidy.line r line s held).2⟩

/-- A tableau whose rows are a tidy tableau's, with other objectives over its columns. -/
theorem tidy_of_rows {t' : Tableau α} (tidy : Tidy P t) (rows : t'.rows = t.rows)
    (lines : ∀ r, Line t' r → Line t r ∨ OverColumns P t r) : Tidy P t' where
  basic s basic := tidy.basic s (by rwa [Basic, ← rows])
  line r line s held := by
    rw [Basic, rows]
    rcases lines r line with old | columnar
    · exact tidy.line r old s held
    · exact columnar s held

/-- A symbol that has left the tableau can be left out of the set. -/
theorem tidy_forget (tidy : Tidy P t) (notBasic : ¬Basic t s)
    (notHeld : ∀ r, Line t r → r.holds s = false) : Tidy (fun z => z ≠ s ∧ P z) t where
  basic z basic := ⟨fun same => notBasic (same ▸ basic), tidy.basic z basic⟩
  line r line z held := by
    obtain ⟨inside, apart⟩ := tidy.line r line z held
    refine ⟨⟨?_, inside⟩, apart⟩
    rintro rfl
    rw [notHeld r line] at held
    cases held

@[simp] theorem dropRow_basic : Basic (t.dropRow s) z ↔ z ≠ s ∧ Basic t z := contains_erase

theorem dropRow_line (line : Line (t.dropRow s) r) : Line t r := by
  rcases line with ⟨key, found⟩ | objective
  · refine .inl ⟨key, ?_⟩
    simp only [dropRow, OrderedMap.find?_erase] at found
    split at found
    · cases found
    · exact found
  · exact .inr objective

theorem dropRow_tidy (tidy : Tidy P t) : Tidy P (t.dropRow s) where
  basic z basic := tidy.basic z (dropRow_basic.mp basic).2
  line r line z held := by
    obtain ⟨inside, apart⟩ := tidy.line r (dropRow_line line) z held
    exact ⟨inside, fun basic => apart (dropRow_basic.mp basic).2⟩

/-- With its row a basic symbol is gone, for no other row holds it. -/
theorem dropRow_forgets (tidy : Tidy P t) (basic : Basic t s) :
    Tidy (fun z => z ≠ s ∧ P z) (t.dropRow s) :=
  tidy_forget (dropRow_tidy tidy) (fun still => (dropRow_basic.mp still).1 rfl)
    fun _ line => not_holds_basic tidy (dropRow_line line) basic

@[simp] theorem dropColumn_basic : Basic (t.dropColumn s) z ↔ Basic t z := by
  simp [Basic, dropColumn]

theorem dropColumn_line (line : Line (t.dropColumn s) r) :
    ∃ before, Line t before ∧ (r = before.remove s ∨ t.artificial = some r ∧ r = before) := by
  rcases line with ⟨key, found⟩ | rfl | artificial
  · simp only [dropColumn, OrderedMap.find?_mapValues, Option.map_eq_some_iff] at found
    obtain ⟨before, found, rfl⟩ := found
    exact ⟨before, .inl ⟨key, found⟩, .inl rfl⟩
  · exact ⟨t.objective, line_objective, .inl rfl⟩
  · exact ⟨r, .inr (.inr artificial), .inr ⟨artificial, rfl⟩⟩

theorem dropColumn_tidy (tidy : Tidy P t) : Tidy P (t.dropColumn s) where
  basic z basic := tidy.basic z (dropColumn_basic.mp basic)
  line r line z held := by
    rw [dropColumn_basic]
    obtain ⟨before, old, rfl | ⟨-, rfl⟩⟩ := dropColumn_line line
    · exact tidy.line before old z (holds_remove.mp held).2
    · exact tidy.line _ old z held

/-- A column that is taken out is gone once no artificial objective is open. -/
theorem dropColumn_forgets (tidy : Tidy P t) (column : ¬Basic t s) (closed : t.artificial = none) :
    Tidy (fun z => z ≠ s ∧ P z) (t.dropColumn s) := by
  refine tidy_forget (dropColumn_tidy tidy) (mt dropColumn_basic.mp column) fun r line => ?_
  obtain ⟨before, -, rfl | ⟨held, -⟩⟩ := dropColumn_line line
  · exact not_holds_remove_self
  · rw [closed] at held
    cases held

theorem dropSymbol_tidy (tidy : Tidy P t) : Tidy P (t.dropSymbol s) := by
  unfold dropSymbol
  split
  · exact dropRow_tidy tidy
  · exact dropColumn_tidy tidy

theorem dropSymbol_forgets (tidy : Tidy P t) (closed : t.artificial = none) :
    Tidy (fun z => z ≠ s ∧ P z) (t.dropSymbol s) := by
  unfold dropSymbol
  split
  · exact dropRow_forgets tidy ‹_›
  · exact dropColumn_forgets tidy ‹_› closed

theorem dropResidue_tidy (tidy : Tidy P t) (goal : Goal) : Tidy P (t.dropResidue s goal) := by
  refine tidy_of_rows tidy (by cases goal <;> rfl) fun r line => ?_
  cases goal with
  | primary =>
    rcases line with row | rfl | artificial
    · exact .inl (.inl row)
    · exact .inr fun z held => tidy.line _ line_objective z (holds_remove.mp held).2
    · exact .inl (.inr (.inr artificial))
  | artificial =>
    rcases line with row | objective | artificial
    · exact .inl (.inl row)
    · exact .inl (.inr (.inl objective))
    · obtain ⟨before, old, rfl⟩ := Option.map_eq_some_iff.mp artificial
      exact .inr fun z held => tidy.line _ (.inr (.inr old)) z (holds_remove.mp held).2

theorem queue_tidy (tidy : Tidy P t) (queue : List Symbol) :
    Tidy P { t with infeasible := queue } :=
  tidy_of_rows tidy rfl fun _ line => .inl line

theorem forget_tidy (tidy : Tidy P t) : Tidy P { t with artificial := none } :=
  tidy_of_rows tidy rfl fun r line => by
    rcases line with row | objective | none
    · exact .inl (.inl row)
    · exact .inl (.inr (.inl objective))
    · cases none

/-- Opening the artificial phase admits one symbol more. -/
theorem open_tidy (tidy : Tidy P t) (columnar : OverColumns P t row) (fresh : ¬P s) :
    Tidy (fun z => z = s ∨ P z)
      { t with rows := t.rows.insert s row, artificial := some row } where
  basic z basic := (contains_insert.mp basic).imp_right (tidy.basic z)
  line r line z held := by
    have known : OverColumns P t r := by
      rcases line with ⟨key, found⟩ | rfl | artificial
      · dsimp only at found
        rw [OrderedMap.find?_insert] at found
        split at found
        · cases found
          exact columnar
        · exact tidy.line r (.inl ⟨key, found⟩)
      · exact tidy.line _ line_objective
      · cases artificial
        exact columnar
    obtain ⟨inside, column⟩ := known z held
    refine ⟨.inr inside, fun basic => ?_⟩
    rcases contains_insert.mp basic with rfl | old
    · exact fresh inside
    · exact column old

variable [Scalar α]

theorem substitute_line (line : Line (t.substitute s row) r) :
    ∃ before, Line t before ∧ r = before.substitute s row := by
  rcases line with ⟨key, found⟩ | rfl | artificial
  · simp only [substitute, OrderedMap.find?_mapValues, Option.map_eq_some_iff] at found
    obtain ⟨before, found, rfl⟩ := found
    exact ⟨before, .inl ⟨key, found⟩, rfl⟩
  · exact ⟨t.objective, line_objective, rfl⟩
  · obtain ⟨before, old, rfl⟩ := Option.map_eq_some_iff.mp artificial
    exact ⟨before, .inr (.inr old), rfl⟩

theorem enter_line (line : Line (t.enter s row) r) :
    r = row ∨ ∃ before, Line t before ∧ r = before.substitute s row := by
  rcases line with ⟨key, found⟩ | objective
  · simp only [enter, OrderedMap.find?_insert] at found
    split at found
    · exact .inl (Option.some.inj found).symm
    · exact .inr (substitute_line (.inl ⟨key, found⟩))
  · exact .inr (substitute_line (.inr objective))

@[simp] theorem enter_basic : Basic (t.enter s row) z ↔ z = s ∨ Basic t z := by
  simp [Basic, enter, substitute]

/-- A symbol may become basic when its row is over the columns and does not hold it. -/
theorem enter_tidy (tidy : Tidy P t) (admitted : P s) (columnar : OverColumns P t row)
    (apart : row.holds s = false) : Tidy P (t.enter s row) where
  basic z basic := by
    rcases enter_basic.mp basic with rfl | old
    · exact admitted
    · exact tidy.basic z old
  line r line z held := by
    have fromRow : row.holds z = true → P z ∧ ¬Basic (t.enter s row) z := by
      intro taken
      refine ⟨(columnar z taken).1, fun basic => ?_⟩
      rcases enter_basic.mp basic with rfl | old
      · rw [apart] at taken
        cases taken
      · exact (columnar z taken).2 old
    rcases enter_line line with rfl | ⟨before, old, rfl⟩
    · exact fromRow held
    · rcases holds_substitute held with ⟨other, kept⟩ | ⟨-, taken⟩
      · obtain ⟨inside, column⟩ := tidy.line before old z kept
        exact ⟨inside, fun basic => (enter_basic.mp basic).elim other column⟩
      · exact fromRow taken

/-- After a pivot the entering symbol is basic in place of the leaving one, and the artificial
objective is there if it was before. -/
theorem exchange_leaves (entering leaving : Symbol) (row : Row α) :
    Ends (t.exchange entering leaving row)
      (fun t' => (∀ z, Basic t' z ↔ z = entering ∨ z ≠ leaving ∧ Basic t z) ∧
        (t.artificial = none → t'.artificial = none)) (fun _ _ => True) := by
  unfold exchange
  dsimp only
  split
  · trivial
  · rw [ends_ok]
    refine ⟨fun z => ?_, fun closed => ?_⟩
    · rw [enter_basic, dropRow_basic]
    · simp [enter, substitute, dropRow, closed]

/-- A pivot on any row of the tableau keeps it tidy, also when it fails. -/
theorem exchange_tidy {leaving : Symbol} (entering : Symbol) (tidy : Tidy P t) (line : Line t row)
    (admitted : P leaving) : Tidy P (t.exchange entering leaving row).state := by
  have rest : Tidy P (t.dropRow leaving) := dropRow_tidy tidy
  have solved := solveForSymbols_ends (ε := PivotEvent) row leaving entering
  unfold exchange
  dsimp only
  split
  · exact rest
  · rename_i fine
    obtain ⟨present, holds⟩ := ends_of_error_none solved fine
    refine enter_tidy rest ?_ ?_ ?_
    · rcases present with rfl | held
      · exact admitted
      · exact (tidy.line row line entering held).1
    · intro z held
      rcases (holds z held).2 with rfl | kept
      · exact ⟨admitted, fun basic => (dropRow_basic.mp basic).1 rfl⟩
      · obtain ⟨inside, column⟩ := tidy.line row line z kept
        exact ⟨inside, fun basic => column (dropRow_basic.mp basic).2⟩
    · by_contra held
      exact (holds entering (by simpa using held)).1 rfl

/-- The symbol that is to enter the basis in a primal round is a column. -/
theorem entering_column {goal : Goal} {objective : Row α} {entering : Symbol} (tidy : Tidy P t)
    (sought : t.objectiveRow? goal = some objective)
    (chosen : enteringSymbol? objective = some entering) : ¬Basic t entering := by
  obtain ⟨-, x, found, -⟩ := enteringSymbol?_eq_some chosen
  have line : Line t objective := by
    cases goal with
    | primary =>
      cases sought
      exact line_objective
    | artificial => exact .inr (.inr sought)
  exact (tidy.line objective line entering (holds_iff.mpr ⟨x, found⟩)).2

/-- The symbol that is to repair a row is a column of that row. -/
theorem repairing_column {entering leaving : Symbol} (tidy : Tidy P t)
    (found : t.rows.find? leaving = some row) (chosen : t.repairingSymbol? row = some entering) :
    row.holds entering = true ∧ ¬Basic t entering := by
  obtain ⟨pick, best, rfl⟩ := repairingSymbol?_eq_some chosen
  obtain ⟨s, x, held, -, -, rfl⟩ := mem_repairPicks.mp (Pick.best?_mem best)
  have present := holds_iff.mpr ⟨x, held⟩
  exact ⟨present, (tidy.line row (line_of_find? found) s present).2⟩

theorem primalStep?_tidy {goal : Goal} {o : Outcome PivotEvent (Tableau α)} (tidy : Tidy P t)
    (stepped : t.primalStep? goal = some o) : Tidy P o.state := by
  obtain ⟨objective, entering, -, -, ⟨-, rfl⟩ | ⟨leaving, row, found, rfl⟩⟩ :=
    primalStep?_eq_some stepped
  · exact dropResidue_tidy tidy goal
  · have held := (leavingRow?_eq_some found).1
    exact exchange_tidy _ tidy (line_of_find? held) (tidy.basic _ (basic_of_find? held))

theorem optimize_tidy (goal : Goal) (tidy : Tidy P t) : Tidy P (t.optimize goal).state :=
  state_of_ends <| ends_mono
    (optimize_ends (fun _ tidy => tidy)
      (fun _ _ tidy stepped => ends_of_state (primalStep?_tidy tidy stepped)) tidy)
    (fun _ ended => ended.1) (fun _ _ ended => ended.2)

theorem dualOptimize_tidy (tidy : Tidy P t) : Tidy P t.dualOptimize.state := by
  refine dualOptimize_keeps (fun t queue tidy _ => queue_tidy tidy queue) ?_ tidy
  intro t leaving row queue entering tidy next _
  have found := (nextInfeasible?_eq_some next).1
  exact exchange_tidy _ (queue_tidy tidy queue) (line_of_find? found)
    (tidy.basic _ (basic_of_find? found))

theorem evict_tidy {marker : Symbol} (tidy : Tidy P t) : Tidy P (t.evict marker).state := by
  unfold evict
  split
  · exact dropRow_tidy tidy
  · split
    · exact tidy
    · rename_i leaving row found
      have held := (markerRow?_eq_some found).1
      exact Outcome.andThen_state
        (exchange_tidy _ tidy (line_of_find? held) (tidy.basic _ (basic_of_find? held)))
        fun _ tidy => dropRow_tidy tidy

/-- A marker leaves no trace when taking it out succeeds. -/
theorem evict_forgets {marker : Symbol} (tidy : Tidy P t) :
    Ends (t.evict marker) (Tidy fun z => z ≠ marker ∧ P z) (fun _ _ => True) := by
  unfold evict
  split
  · exact dropRow_forgets tidy ‹_›
  · split
    · trivial
    · rename_i leaving row found
      have held := (markerRow?_eq_some found).1
      have exchanged := exchange_tidy marker tidy (line_of_find? held)
        (tidy.basic _ (basic_of_find? held))
      rw [ends_report, ends_andThen]
      refine ends_mono (ends_and (ends_of_state exchanged) (exchange_leaves marker leaving row)) ?_
        fun _ _ _ => trivial
      rintro t' ⟨tidy', leaves, -⟩
      exact dropRow_forgets tidy' ((leaves marker).mpr (.inl rfl))

/-- Entering a column and dropping its row again replaces it everywhere. -/
theorem dropRow_enter (column : ¬Basic t s) : (t.enter s row).dropRow s = t.substitute s row := by
  have absent : (t.substitute s row).rows.find? s = none := by
    rw [Basic, Bool.not_eq_true, not_contains_iff] at column
    simp [substitute, column]
  unfold dropRow enter
  dsimp only
  rw [erase_insert, erase_of_absent absent]

/-- A column that is to leave is replaced everywhere by what it equals by the row that gives way to it,
and that row is gone. -/
theorem evict_through {marker leaving : Symbol} (column : ¬Basic t marker)
    (chosen : t.markerRow? marker = some (leaving, row)) (held : row.holds marker = true) :
    ∃ solved, (row.solveForSymbols leaving marker : Outcome PivotEvent (Row α)) = .ok solved ∧
      t.evict marker = (Outcome.ok ((t.dropRow leaving).substitute marker solved)).report
        (.primal marker leaving) := by
  have apart : marker ≠ leaving := by
    rintro rfl
    exact column (basic_of_find? (markerRow?_eq_some chosen).1)
  obtain ⟨solved, went⟩ := solveForSymbols_succeeds (ε := PivotEvent) held apart
  refine ⟨solved, went, ?_⟩
  have left : ¬Basic (t.dropRow leaving) marker := fun basic => column (dropRow_basic.mp basic).2
  have exchanged : t.exchange marker leaving row = .ok ((t.dropRow leaving).enter marker solved) := by
    unfold exchange
    rw [went]
    rfl
  unfold evict
  rw [if_neg (show ¬t.rows.contains marker = true from column), chosen, ← dropRow_enter left]
  dsimp only
  rw [exchanged]
  rfl

/-- The artificial symbol vanishes again when the phase ends well. -/
theorem retireArtificial_ends (tidy : Tidy (fun z => z = s ∨ P z) t) (closed : t.artificial = none) :
    Ends (t.retireArtificial s) (Tidy P) (fun _ _ => True) := by
  have left : ∀ z, z ≠ s ∧ (z = s ∨ P z) → P z := fun z inside => inside.2.resolve_left inside.1
  unfold retireArtificial
  split
  · rename_i absent
    have column : ¬Basic t s := by simp [Basic, not_contains_iff.mpr absent]
    exact tidy_mono (dropColumn_forgets tidy column closed) left
  · rename_i row found
    have basic : Basic t s := basic_of_find? found
    split
    · exact tidy_mono (dropRow_forgets tidy basic) left
    · split
      · trivial
      · rename_i entering pivot
        have columnar := tidy.line row (line_of_find? found)
        have apart : entering ≠ s := by
          rintro rfl
          exact (columnar _ (pivotable?_eq_some pivot).2).2 basic
        rw [ends_andThen]
        refine ends_mono (ends_and (ends_of_state (exchange_tidy entering tidy
          (line_of_find? found) (.inl rfl))) (exchange_leaves entering _ _))
          ?_ fun _ _ _ => trivial
        rintro t' ⟨tidy', leaves⟩
        refine tidy_mono (dropColumn_forgets tidy' ?_ (leaves.2 closed)) left
        rw [leaves.1]
        rintro (same | ⟨other, -⟩)
        · exact apart same.symm
        · exact other rfl

/-- Whatever the phase does, a row that comes in through it brings no symbol of its own. -/
theorem enterArtificial_ends (tidy : Tidy P t) (columnar : OverColumns P t row) (fresh : ¬P s) :
    Ends (t.enterArtificial s row) (Tidy P) (fun _ _ => True) := by
  unfold enterArtificial
  rw [ends_andThen]
  refine ends_mono (ends_of_state (optimize_tidy .artificial (open_tidy tidy columnar fresh)))
    (fun t' tidy' => ?_) fun _ _ _ => trivial
  rw [ends_andThen]
  refine ends_mono (retireArtificial_ends (forget_tidy tidy') rfl) (fun t'' tidy'' => ?_)
    fun _ _ _ => trivial
  split
  · exact tidy''
  · trivial

end Cassowary.Separation
