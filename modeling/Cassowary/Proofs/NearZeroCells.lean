import Cassowary.Proofs.Departures
import Cassowary.Proofs.Ownership

/-!
Where the near-zero cells of a solver come from. The pivots that a solver reports name the symbols that
leave the basis, and those that it drops without reporting them are never seen again. So every near-zero
cell that a command leaves in a row was there before or came with the row, newly solved.
-/

namespace Cassowary.NearZeroCells
open Endings MapEntries RowSymbols Separation Bookkeeping Drafting SolverBooks SessionBooks Upkeep
open Rollback Conservation Ownership Removals Objectives Departures Tableau Solver

variable {α : Type} [Scalar α] {P : Symbol → Prop} {t : Tableau α} {z : Symbol}
  {gone : List Symbol}

/-! ## Operations -/

/-- The symbol that leaves the basis in a pivot that a solver reports. -/
def departing? : Event α → Option Symbol
  | .pivot event => leaver? event
  | _ => none

variable {s s' : Solver α} {c : Constraint α} {h : Handle} {v : Variable}

omit [Scalar α] in
theorem departing_pivots (events : List PivotEvent) :
    (events.map (Event.pivot (α := α))).filterMap departing? = events.filterMap leaver? := by
  rw [List.filterMap_map]
  rfl

theorem onTableau_reports {f : Tableau α → Outcome PivotEvent (Tableau α)}
    (reports : Reports leaver? id s.tableau (f s.tableau)) :
    Reports departing? Solver.tableau s.tableau (s.onTableau f) := by
  unfold Reports Tells onTableau at *
  rw [ends_embed]
  simpa only [Outcome.embed, departing_pivots, id_eq] using reports

theorem settle_reports (tidy : Tidy P s.tableau) :
    Reports departing? Solver.tableau s.tableau s.settle :=
  onTableau_reports (settling_reports tidy)

/-- Withdrawing a draft leaves no row that was not there. -/
theorem withdraw_inherits (s : Solver α) (c : Constraint α) (tag : Tag) :
    Inherits gone s.tableau (s.withdraw c tag).tableau := by
  refine inherits_of_fewer ?_
  refine release_keeps (P := fun t : Tableau α =>
    ∀ key row, t.rows.find? key = some row → s.tableau.rows.find? key = some row) ?_ c.expression
    (s := s.mapTableau (·.discharge tag)) (fun _ _ found => found)
  intro t z kept key row found
  refine kept key row ?_
  rw [dropRow, OrderedMap.find?_erase] at found
  split at found
  · cases found
  · exact found

theorem draft_enter_reports {d : Draft α} {subject : Symbol}
    (columnar : OverColumns P d.solver.tableau d.row) :
    Reports departing? Solver.tableau d.solver.tableau (d.enter subject) := by
  have solved := solveFor_ends (ε := Event α) (r := d.row) (s := subject)
  unfold Draft.enter
  dsimp only
  split
  · exact (follows_of_rows rfl).inherits
  · rename_i fine
    obtain ⟨present, -⟩ := ends_of_error_none solved fine
    exact enter_follows _ (columnar subject present).2

theorem install_reports {d : Draft α} (orderly : Orderly d.solver)
    (columnar : OverColumns (Minted d.solver.minted) d.solver.tableau d.row) :
    Reports departing? Solver.tableau d.solver.tableau (d.install c) := by
  unfold Draft.install
  split
  · exact draft_enter_reports columnar
  · split
    · have fresh : ¬Minted d.solver.minted ⟨d.solver.minted + 1, .slack⟩ := fun minted =>
        Nat.not_succ_le_self _ minted.2
      have phase := enterArtificial_tells orderly.tidy columnar fresh
      unfold Draft.enterArtificial
      dsimp only
      split
      · rename_i fine
        have follows := ends_of_error_none phase fine
        unfold Reports Tells
        refine ends_of_error?_none fine ?_
        simpa only [onTableau, Outcome.embed, departing_pivots] using follows
      · rename_i error stopped
        unfold Reports Tells Ends
        simp only [Outcome.report, stopped]
        exact withdraw_inherits { d.solver with minted := d.solver.minted + 1 } c d.tag
    · split
      · exact draft_enter_reports columnar
      · exact withdraw_inherits d.solver c d.tag

theorem post_reports (orderly : Orderly s) (h : Handle) (c : Constraint α) :
    Reports departing? Solver.tableau s.tableau (s.post h c) := by
  have drafted := draft_orderly (c := c) orderly
  have columnar := draft_over (c := c) orderly.books.tracked orderly.tidy
  have rows : (s.draft c).solver.tableau.rows = s.tableau.rows := by
    rw [draft_tableau]
    rfl
  unfold post
  split
  · exact (follows_of_rows rfl).inherits
  · have installed := install_reports (c := c) drafted columnar
    have tidied : Orderly ((s.draft c).install c).state := by
      refine state_of_ends (ends_mono (install_handled (c := c) drafted columnar) ?_ ?_)
      · exact fun _ done => done.1
      · exact fun _ _ failed => failed.1
    refine reports_of_follows (follows_of_rows rows) (reports_andThen installed ?_)
    refine reports_andThen (settle_reports (s := { (((s.draft c).install c).state : Solver α) with
      postings := _ }) tidied.tidy) ?_
    exact follows_of_rows rfl

/-! ## Symbols that do not come back -/

/-- The symbol has been given out and is nowhere to be found any more. -/
structure Lost (s : Solver α) (z : Symbol) : Prop where
  minted : Minted s.minted z
  untracked : ∀ v entry, s.tracked.find? v = some entry → entry.symbol ≠ z
  tidy : Tidy (fun y => y ≠ z ∧ Minted s.minted y) s.tableau

omit [Scalar α] in
theorem lost_not_basic (lost : Lost s z) : ¬Basic s.tableau z := fun basic =>
  (lost.tidy.basic z basic).1 rfl

omit [Scalar α] in
theorem lost_of_shrinks (shrinks : Shrinks s s') (lost : Lost s z) : Lost s' z where
  minted := shrinks.minted ▸ lost.minted
  untracked v entry found := by
    obtain ⟨uses, earlier⟩ := shrinks.kept v entry found
    exact lost.untracked v ⟨entry.symbol, uses⟩ earlier
  tidy := by
    rw [shrinks.minted]
    exact shrinks.tidy _ lost.tidy

theorem untrack_follows (orderly : Orderly s) (v : Variable) :
    ∃ dropped, Follows dropped s.tableau (s.untrack v).tableau ∧
      ∀ z ∈ dropped, Lost (s.untrack v) z := by
  have kept : ∀ s' : Solver α, s'.tableau.rows = s.tableau.rows →
      ∃ dropped, Follows dropped s.tableau s'.tableau ∧ ∀ z ∈ dropped, Lost s' z :=
    fun s' rows => ⟨[], follows_of_rows rows, by simp⟩
  cases held : s.tracked.find? v with
  | none => exact kept _ (by rw [untrack_of_absent held])
  | some entry =>
    obtain ⟨-, eq⟩ | ⟨-, eq⟩ := untrack_eq held
    · by_cases basic : Basic s.tableau entry.symbol
      · refine ⟨[entry.symbol], eq ▸ dropRow_follows s.tableau entry.symbol, ?_⟩
        rintro z member
        obtain rfl := List.mem_singleton.mp member
        rw [eq]
        refine ⟨(orderly.books.tracked.symbol v entry held).2, ?_, dropRow_forgets orderly.tidy basic⟩
        intro w entry' found same
        dsimp only at found
        rw [OrderedMap.find?_erase] at found
        split at found
        · cases found
        · rename_i apart
          exact apart (orderly.books.tracked.distinct v w entry entry' held found same.symm)
      · refine kept _ ?_
        rw [eq]
        exact erase_of_absent (not_contains_iff.mp (by simpa [Basic] using basic))
    · exact kept _ (by rw [eq])

/-- Giving references up drops rows of symbols that are gone with them. -/
theorem release_follows (orderly : Orderly s) (e : Expression α) :
    ∃ dropped, Follows dropped s.tableau (s.release e).tableau ∧
      ∀ z ∈ dropped, Lost (s.release e) z := by
  unfold release
  induction e.relevantTerms generalizing s with
  | nil => exact ⟨[], follows_of_rows rfl, by simp⟩
  | cons term rest ih =>
    have shrinks := untrack_shrinks s term.var
    obtain ⟨first, follows, lost⟩ := untrack_follows orderly term.var
    obtain ⟨later, follows', lost'⟩ := ih (orderly_of_shrinks shrinks orderly)
    refine ⟨later ++ first, follows_trans follows follows', fun z member => ?_⟩
    obtain last | early := List.mem_append.mp member
    · exact lost' z last
    · exact lost_of_shrinks (foldl_untrack_shrinks rest _) (lost z early)

/-! ## Removals -/

/-- What a removal does to the tableau before the references of the constraint are given up. -/
def clearing (t : Tableau α) (p : Posting α) : Outcome PivotEvent (Tableau α) :=
  ((t.refund p.tag p.constraint.strength.value).evict p.tag.marker).andThen fun t =>
    settling (p.tag.other.elim t t.dropSymbol)

theorem retract_eq {p : Posting α} (found : s.postings.find? h = some p) : s.retract h =
    ((clearing s.tableau p).embed
      (fun t => { s with postings := s.postings.erase h, tableau := t }) .pivot).andThen fun s =>
        let s := s.release p.constraint.expression
        (Outcome.ok s).report (.removed p.constraint.relation s.rows.length s.constraintCount) := by
  unfold retract clearing
  rw [found]
  cases stopped : ((s.tableau.refund p.tag p.constraint.strength.value).evict p.tag.marker).error? with
  | some error => simp [onTableau, Outcome.andThen, Outcome.embed, stopped]
  | none =>
    simp only [onTableau, settle, settling, mapTableau, Outcome.andThen, Outcome.embed, stopped]
    split <;> simp_all

theorem clearing_tells (standing : Standing s) {p : Posting α} (found : s.postings.find? h = some p) :
    Tells (clearing s.tableau p)
      (fun events t => Follows (p.tag.symbols ++ events.filterMap leaver?) s.tableau t ∧
        Tidy (fun z => z ∉ p.tag.symbols ∧ Minted s.minted z) t)
      (fun events t => Inherits (events.filterMap leaver?) s.tableau t) := by
  have refunded := refunded_tidy standing.orderly found
  have evicted := ends_and (evict_tells (s.tableau.refund p.tag p.constraint.strength.value) p.tag.marker)
    (ends_and (evict_forgets refunded) (closed_upheld.evict p.tag.marker refunded standing.closed))
  have same : Follows [] s.tableau (s.tableau.refund p.tag p.constraint.strength.value) :=
    follows_of_rows rfl
  refine tells_andThen (ends_mono evicted ?_ ?_)
  · rintro t₁ ⟨follows₁, tidy₁, closed₁⟩
    have follows₂ : Follows p.tag.other.toList t₁ (p.tag.other.elim t₁ t₁.dropSymbol) := by
      cases p.tag.other with
      | none => exact follows_of_rows rfl
      | some other => exact dropSymbol_follows t₁ other
    have tidy₂ : Tidy (fun z => z ∉ p.tag.symbols ∧ Minted s.minted z)
        (p.tag.other.elim t₁ t₁.dropSymbol) := dropSymbol_clears tidy₁ closed₁
    have before := follows_trans (follows_trans same follows₁) follows₂
    -- The latest departures come first, and the tag's own symbols were dropped between two reports.
    have listed : ∀ later early : List PivotEvent, later.filterMap leaver? ++
        (p.tag.other.toList ++ (p.tag.marker :: early.filterMap leaver? ++ [])) ⊆
          p.tag.symbols ++ (later ++ early).filterMap leaver? := by
      intro later early z member
      simp only [Tag.symbols, List.filterMap_append, List.mem_append, List.mem_cons,
        List.not_mem_nil, or_false] at member ⊢
      tauto
    have tidy₃ : Tidy _ (settling _).state := Outcome.andThen_state (optimize_tidy .primary tidy₂)
      fun _ tidy => dualOptimize_tidy tidy
    have settled := settling_reports tidy₂
    unfold Reports Tells at settled
    refine ends_mono (ends_and (ends_of_state tidy₃) settled) ?_ ?_
    · rintro t₃ ⟨tidy₃, follows₃⟩
      exact ⟨follows_mono (follows_trans before follows₃) (listed _ _), tidy₃⟩
    · rintro error t₃ ⟨tidy₃, inherits₃⟩
      exact inherits_of_absent (inherits_mono (inherits_trans before inherits₃) (listed _ _))
        fun z member basic => (tidy₃.basic z basic).1 member
  · rintro error t₁ ⟨inherits, -⟩
    exact inherits_mono (inherits_trans same inherits) (by simp)

/-- An operation may drop symbols without reporting them that are lost when it succeeds. -/
def Retires (t : Tableau α) (o : Outcome (Event α) (Solver α)) : Prop :=
  Tells o
    (fun events s => ∃ dropped, Follows (dropped ++ events.filterMap departing?) t s.tableau ∧
      ∀ z ∈ dropped, Lost s z)
    (fun events s => Inherits (events.filterMap departing?) t s.tableau)

theorem inherits_of_retires {o : Outcome (Event α) (Solver α)} (retires : Retires t o) :
    Inherits (o.events.filterMap departing?) t o.state.tableau := by
  refine state_of_ends (P := fun s : Solver α =>
    Inherits (o.events.filterMap departing?) t s.tableau) ?_
  unfold Retires Tells at retires
  refine ends_mono retires ?_ fun _ _ inherits => inherits
  rintro s ⟨dropped, follows, lost⟩
  exact inherits_of_absent follows.inherits fun z member => lost_not_basic (lost z member)

/-- What follows a successful retirement need not mind what was dropped, if that does not come back. -/
theorem inherits_after_retires {t' : Tableau α} {o : Outcome (Event α) (Solver α)}
    (retires : Retires t o) (fine : o.error? = none) (later : Inherits gone o.state.tableau t')
    (spurned : ∀ z, Lost o.state z → ¬Basic t' z) :
    Inherits (gone ++ o.events.filterMap departing?) t t' := by
  unfold Retires Tells at retires
  obtain ⟨dropped, follows, lost⟩ := ends_of_error_none retires fine
  have listed : gone ++ (dropped ++ o.events.filterMap departing?) ⊆
      dropped ++ (gone ++ o.events.filterMap departing?) := by
    intro z member
    simp only [List.mem_append] at member ⊢
    tauto
  exact inherits_of_absent (inherits_mono (inherits_trans follows later) listed)
    fun z member => spurned z (lost z member)

theorem retract_retires (standing : Standing s)
    (unbacked : ∀ v edit, s.edits.find? v = some edit → edit.handle ≠ h) :
    Retires s.tableau (s.retract h) := by
  cases found : s.postings.find? h with
  | none =>
    unfold retract
    rw [found]
    exact (follows_of_rows rfl).inherits
  | some p =>
    have mine : ∀ z ∈ p.tag.symbols, z.isExternal = false ∧ Minted s.minted z :=
      fun z member => tag_symbol standing.orderly.books.postings found member
    have cleared := clearing_tells standing found
    unfold Tells at cleared
    rw [retract_eq found]
    refine tells_andThen ?_
    rw [ends_embed]
    refine ends_mono cleared ?_ ?_
    · rintro t ⟨follows, tidy⟩
      have orderly : Orderly { s with postings := s.postings.erase h, tableau := t } :=
        erase_orderly standing.orderly unbacked (tidy_mono tidy fun _ inside => inside.2)
      obtain ⟨released, follows', lost⟩ := release_follows orderly p.constraint.expression
      have shrinks := release_shrinks { s with postings := s.postings.erase h, tableau := t }
        p.constraint.expression
      refine ⟨released ++ p.tag.symbols, ?_, fun z member => ?_⟩
      · refine follows_mono (follows_trans follows follows') ?_
        show _ ⊆ released ++ p.tag.symbols ++
          ((clearing s.tableau p).events.map Event.pivot).filterMap departing?
        rw [departing_pivots, List.append_assoc]
        exact List.Subset.refl _
      · obtain later | own := List.mem_append.mp member
        · exact lost z later
        · refine lost_of_shrinks shrinks ⟨(mine z own).2, fun v entry tracked same => ?_,
            tidy_mono tidy fun y inside => ⟨fun same => inside.1 (same ▸ own), inside.2⟩⟩
          have external := (orderly.books.tracked.symbol v entry tracked).1
          rw [same, (mine z own).1] at external
          cases external
    · intro error t inherits
      simpa only [Outcome.embed, departing_pivots] using inherits

/-- A symbol that is lost does not come back with a constraint that is posted. -/
theorem post_spurns (orderly : Orderly s) (lost : Lost s z) (h : Handle) (c : Constraint α) :
    ¬Basic (s.post h c).state.tableau z := by
  have drafted := draft_orderly (c := c) orderly
  have more : ∀ y, Minted s.minted y → Minted (s.draft c).solver.minted y := fun y minted =>
    minted_mono minted (Nat.le_of_lt draft_minted_le)
  have tidy : Tidy (fun y => y ≠ z ∧ Minted (s.draft c).solver.minted y) s.tableau :=
    tidy_mono lost.tidy fun y inside => ⟨inside.1, more y inside.2⟩
  -- The draft gives out numbers past the newest only, so a symbol that is lost is none of its own.
  have own : ∀ y ∈ (s.draft c).tag.symbols,
      (y ≠ z ∧ Minted (s.draft c).solver.minted y) ∧ ¬Basic s.tableau y := by
    intro y member
    obtain ⟨-, newer, minted⟩ := draft_symbol member
    refine ⟨⟨?_, minted⟩, draft_symbol_column orderly.tidy member⟩
    rintro rfl
    exact absurd lost.minted.2 (Nat.not_le_of_lt newer)
  have admitted : ∀ v entry, (s.draft c).solver.tracked.find? v = some entry →
      entry.symbol ≠ z ∧ Minted (s.draft c).solver.minted entry.symbol := by
    intro v entry found
    refine ⟨?_, ((draft_well orderly.books.tracked).symbol v entry found).2⟩
    obtain ⟨uses, earlier⟩ | newer := (rowOf_grows s c.expression).fresh v entry found
    · exact lost.untracked v ⟨entry.symbol, uses⟩ earlier
    · rintro rfl
      exact absurd lost.minted.2 (Nat.not_le_of_lt newer)
  have columnar := draft_over_of tidy own admitted
  have fresh : ¬((⟨(s.draft c).solver.minted + 1, .slack⟩ : Symbol) ≠ z ∧
      Minted (s.draft c).solver.minted ⟨(s.draft c).solver.minted + 1, .slack⟩) := fun inside =>
    Nat.not_succ_le_self _ inside.2.2
  have column : ¬Basic (s.draft c).solver.tableau z := by
    rw [draft_tableau]
    exact lost_not_basic lost
  have installed := ends_and (install_tidy (c := c) (draft_tidy_of tidy own) columnar fresh)
    (install_handled (c := c) drafted (draft_over orderly.books.tracked orderly.tidy))
  unfold post
  split
  · exact lost_not_basic lost
  · refine state_of_ends (P := fun s' : Solver α => ¬Basic s'.tableau z) ?_
    dsimp only
    rw [ends_andThen]
    refine ends_mono installed ?_ ?_
    · rintro s₁ ⟨tidy₁, -⟩
      refine ends_of_state (Outcome.andThen_state (P := fun s' : Solver α => ¬Basic s'.tableau z) ?_
        fun _ column => column)
      have settled := settle_tidy (s := { s₁ with
        postings := s₁.postings.insert h ⟨c, (s.draft c).tag⟩ }) tidy₁
      exact fun basic => (settled.basic z basic).1 rfl
    · rintro error s₁ ⟨-, -, ⟨-, rfl⟩ | ⟨minted, -, rfl⟩⟩
      · exact column
      · exact release_keeps (P := fun t : Tableau α => ¬Basic t z)
          (fun t y column basic => column (dropRow_basic.mp basic).2) c.expression
          (s := { (s.draft c).solver with minted }.mapTableau (·.discharge (s.draft c).tag)) column

/-! ## Commands -/

theorem addEdit_reports (orderly : Orderly s) (store : Store α) (v : Variable)
    (strength : Strength α) :
    Reports departing? Solver.tableau s.tableau (s.addEdit store v strength) := by
  unfold addEdit
  split
  · exact (follows_of_rows rfl).inherits
  · dsimp only
    split
    · exact (follows_of_rows rfl).inherits
    · refine reports_andThen (post_reports orderly _ _) ?_
      split
      · exact (follows_of_rows rfl).inherits
      · exact follows_of_rows rfl

theorem addEdit_spurns (orderly : Orderly s) (lost : Lost s z) (store : Store α) (v : Variable)
    (strength : Strength α) : ¬Basic (s.addEdit store v strength).state.tableau z := by
  unfold addEdit
  split
  · exact lost_not_basic lost
  · dsimp only
    split
    · exact lost_not_basic lost
    · refine Outcome.andThen_state (P := fun s' : Solver α => ¬Basic s'.tableau z)
        (post_spurns orderly lost _ _) fun s₁ column => ?_
      split <;> exact column

/-- Ending an edit drops symbols as retracting its equation does. -/
theorem removeEdit_retires (standing : Standing s) (v : Variable) :
    Retires s.tableau (s.removeEdit v) := by
  unfold removeEdit
  split
  · exact (follows_of_rows rfl).inherits
  · rename_i edit found
    have erased : Standing { s with edits := s.edits.erase v } :=
      edits_standing standing (eraseEdit_orderly standing.orderly v)
    have retracted := tells_mapError
      (fun error => if error = .unknownConstraint then .internal .missingEdit else error)
      (retract_retires erased (eraseEdit_unbacked standing.orderly found))
    exact tells_andThen (ends_mono retracted (fun _ told => told) fun _ _ told => told)

theorem setEdit_inherits (standing : Standing s) (store : Store α) (v : Variable)
    (strength : Strength α) :
    Inherits ((s.setEdit store v strength).events.filterMap departing?) s.tableau
      (s.setEdit store v strength).state.tableau := by
  unfold setEdit
  split
  · have removed := removeEdit_retires standing v
    have orderly := removeEdit_orderly standing.orderly v
    cases stopped : (s.removeEdit v).error? with
    | some error =>
      have inherits := inherits_of_retires removed
      simpa only [Outcome.andThen, stopped] using inherits
    | none =>
      have inherits := inherits_of_reports (addEdit_reports orderly store v strength)
      simp only [Outcome.andThen, stopped, List.filterMap_append]
      exact inherits_after_retires removed stopped inherits fun z lost =>
        addEdit_spurns orderly lost store v strength
  · exact inherits_of_reports (addEdit_reports standing.orderly store v strength)

theorem suggest_reports (orderly : Orderly s) (v : Variable) (target : α) :
    Reports departing? Solver.tableau s.tableau (s.suggest v target) := by
  unfold suggest
  split
  · exact (follows_of_rows rfl).inherits
  · rename_i edit found
    have shifted := shiftTarget_tidy edit.tag (target - edit.target) orderly.tidy
    have repaired := onTableau_reports (s := { s with
      tableau := s.tableau.shiftTarget edit.tag (target - edit.target)
      edits := s.edits.insert v { edit with target } }) (dualOptimize_reports shifted)
    exact reports_of_follows (shiftTarget_follows s.tableau edit.tag (target - edit.target)) repaired

theorem addAll_reports (constraints : List (Nat × Constraint α)) (orderly : Orderly s) :
    Reports departing? Solver.tableau s.tableau (s.addAll constraints) := by
  induction constraints generalizing s with
  | nil => exact follows_of_rows rfl
  | cons posted rest ih =>
    refine reports_andThen (post_reports orderly _ _) (ih (state_of_ends ?_))
    exact ends_mono (post_ends orderly (posted_serial _ _)) (fun _ done => done.1)
      fun _ _ stopped => stopped.1

/-- Every near-zero cell that a command leaves behind was there before, or is in the row of a symbol that
was not basic before or has left the basis while the command was carried out. -/
theorem step_inherits (session : Session α) (command : Command α) (standing : Standing session.solver) :
    Inherits ((session.step command).events.filterMap departing?) session.solver.tableau
      (session.step command).state.solver.tableau := by
  have orderly := standing.orderly
  have plain : ∀ {o : Outcome (Event α) (Solver α)},
      Inherits (o.events.filterMap departing?) session.solver.tableau o.state.tableau →
      Inherits ((session.withSolver o).events.filterMap departing?) session.solver.tableau
        (session.withSolver o).state.solver.tableau := fun inherits => by
    simpa only [Session.withSolver, Outcome.embed, List.map_id] using inherits
  cases command with
  | add id c => exact plain (inherits_of_reports (post_reports orderly _ c))
  | addAll constraints => exact plain (inherits_of_reports (addAll_reports constraints orderly))
  | remove id =>
    exact plain (inherits_of_retires (retract_retires standing (posted_unbacked orderly id)))
  | addEdit v strength => exact plain (inherits_of_reports (addEdit_reports orderly _ v strength))
  | setEdit v strength => exact plain (setEdit_inherits standing _ v strength)
  | removeEdit v =>
    exact plain (inherits_of_retires (removeEdit_retires standing v))
  | suggest v target => exact plain (inherits_of_reports (suggest_reports orderly v target))
  | update => exact (follows_of_rows rfl).inherits
  | reset =>
    refine inherits_of_fewer fun key row found => ?_
    cases found
  | setValue v x => exact (follows_of_rows rfl).inherits

/-- The row of the symbol was newly solved by the command: the symbol was not basic before, or it has
left the basis in a pivot of the command. -/
def NewlySolved (session : Session α) (command : Command α) (key : Symbol) : Prop :=
  ¬Basic session.solver.tableau key ∨
    key ∈ (session.step command).events.filterMap departing?

/-- No row that the command newly solves stores a near-zero cell. -/
def Crisp (session : Session α) (command : Command α) : Prop :=
  ∀ key z x, NewlySolved session command key →
    ¬Faint (session.step command).state.solver.tableau key z x

theorem step_clear_iff {session : Session α} {command : Command α} (standing : Standing session.solver)
    (clear : Clear session.solver.tableau) :
    Clear (session.step command).state.solver.tableau ↔ Crisp session command := by
  rw [clear_iff] at clear ⊢
  constructor
  · exact fun none key z x _ => none key z x
  · intro crisp key z x faint
    obtain before | solved := step_inherits session command standing key z x faint
    · exact clear key z x before
    · exact crisp key z x solved faint

/-- After every run, whatever the arithmetic does and whatever errors the run meets, the objective stores
no near-zero cell, and a command leaves one in a row only where there was the same before or where it has
newly solved the row. So no row ever stores one just when no row does that a command newly solves. -/
theorem near_zero_cells_come_with_solved_rows (store : Store α) (commands : List (Command α)) :
    let session := Session.run ⟨∅, store⟩ commands
    Significant session.solver.tableau.objective ∧
      (∀ command key z x, Faint (session.step command).state.solver.tableau key z x →
        Faint session.solver.tableau key z x ∨ NewlySolved session command key) ∧
      ((∀ before, before <+: commands → Clear (Session.run ⟨∅, store⟩ before).solver.tableau) ↔
        Throughout Crisp ⟨∅, store⟩ commands) := by
  refine ⟨run_significant store commands,
    fun command => step_inherits _ command (run_standing store commands), ?_⟩
  refine always_iff_throughout (fun session => Standing session.solver)
    (fun session => Clear session.solver.tableau) step_standing
    (fun session command standing clear _ => step_clear_iff standing clear) (fresh_standing 0) ?_
    (throughout_of_forall (fun _ _ => trivial) _ _)
  rintro entry ⟨⟩

/-- With doubles a near-zero cell may be stored although all calls succeed: solving the row of a steep
floor for its variable leaves the floor's slack symbol with a coefficient of 1e-9. -/
theorem near_zero_cell_may_be_stored :
    ¬∀ (store : Store Float) (commands : List (Command Float)), FiniteInputs store commands →
      Clear (Session.run ⟨∅, store⟩ commands).solver.tableau := by
  intro all
  have clear := all {} steepFloor (finiteInputs_of_all (by decide +kernel))
  revert clear
  decide +kernel

end Cassowary.NearZeroCells
