import Cassowary.Proofs.SolverBooks

/-!
The books through edits and whole commands. An edit is backed by a constraint under a handle of its
own, so ending an edit and removing a caller's constraint never touch each other. Whatever errors a
session meets, its solver stays orderly.
-/

namespace Cassowary.SessionBooks
open Endings MapEntries Separation Bookkeeping Drafting SolverBooks Tableau Solver

variable {α : Type} [Scalar α] {s s' : Solver α} {v : Variable} {tag : Tag}

omit [Scalar α] in
theorem unedited_of_not_hasEdit (notEdited : ¬s.hasEdit v = true) : s.edits.find? v = none :=
  not_contains_iff.mp (by simpa [hasEdit] using notEdited)

theorem insertEdit_orderly {edit : Edit α} {target : α} {strength : Strength α}
    (orderly : Orderly s) (handle : ∃ k, edit.handle = .edit k)
    (soft : strength.isRequired = false)
    (posted : s.postings.find? edit.handle =
      some ⟨editConstraint v target strength, edit.tag⟩) :
    Orderly { s with edits := s.edits.insert v edit } := by
  refine ⟨⟨orderly.books.tracked, orderly.books.postings, ⟨fun w edit' found => ?_,
    fun w edit' found => ?_⟩⟩, orderly.tidy⟩
  · dsimp only at found
    rw [OrderedMap.find?_insert] at found
    split at found
    · cases found
      exact handle
    · exact orderly.books.edits.handle w edit' found
  · dsimp only at found
    rw [OrderedMap.find?_insert] at found
    split at found
    · rename_i same
      cases found
      exact ⟨target, strength, soft, same ▸ posted⟩
    · exact orderly.books.edits.posted w edit' found

theorem eraseEdit_orderly (orderly : Orderly s) (v : Variable) :
    Orderly { s with edits := s.edits.erase v } := by
  have subset : ∀ w edit, (s.edits.erase v).find? w = some edit → s.edits.find? w = some edit := by
    intro w edit found
    rw [OrderedMap.find?_erase] at found
    split at found
    · cases found
    · exact found
  exact ⟨⟨orderly.books.tracked, orderly.books.postings,
    ⟨fun w edit found => orderly.books.edits.handle w edit (subset w edit found),
      fun w edit found => orderly.books.edits.posted w edit (subset w edit found)⟩⟩, orderly.tidy⟩

/-- Ending an edit leaves its constraint backing no other. -/
theorem eraseEdit_unbacked {edit : Edit α} (orderly : Orderly s)
    (found : s.edits.find? v = some edit) (w : Variable) (edit' : Edit α)
    (found' : (s.edits.erase v).find? w = some edit') : edit'.handle ≠ edit.handle := by
  rw [OrderedMap.find?_erase] at found'
  split at found'
  · cases found'
  · rename_i apart
    exact fun same => apart (edit_of_handle orderly.books.edits found found' same.symm)

theorem addEdit_orderly (orderly : Orderly s) (store : Store α) (v : Variable)
    (strength : Strength α) : Orderly (s.addEdit store v strength).state := by
  apply state_of_ends
  unfold addEdit
  split
  · exact orderly
  · dsimp only
    split
    · exact orderly
    · rename_i notRequired
      rw [ends_andThen]
      refine ends_mono (post_ends orderly (edit_serial s)) ?_ fun _ _ stopped => stopped.1
      rintro s₁ ⟨orderly₁, -, posted⟩
      split
      · exact orderly₁
      · rename_i posting found
        have here := found
        rw [posted.postings, OrderedMap.find?_insert, if_pos rfl] at here
        cases here
        exact insertEdit_orderly orderly₁ ⟨s.minted, rfl⟩ (by simpa using notRequired) found

theorem removeEdit_orderly (orderly : Orderly s) (v : Variable) :
    Orderly (s.removeEdit v).state := by
  apply state_of_ends
  unfold removeEdit
  split
  · exact orderly
  · rename_i edit found
    dsimp only
    rw [ends_andThen, ends_mapError]
    exact ends_mono (retract_ends (eraseEdit_orderly orderly v) (eraseEdit_unbacked orderly found))
      (fun _ done => done.1) fun _ _ stopped => stopped.1

theorem setEdit_orderly (orderly : Orderly s) (store : Store α) (v : Variable)
    (strength : Strength α) : Orderly (s.setEdit store v strength).state := by
  unfold setEdit
  split
  · exact Outcome.andThen_state (removeEdit_orderly orderly v)
      fun _ orderly => addEdit_orderly orderly store v strength
  · exact addEdit_orderly orderly store v strength

theorem shiftTarget_tidy {P : Symbol → Prop} {t : Tableau α} (tag : Tag) (delta : α)
    (tidy : Tidy P t) :
    Tidy P (t.shiftTarget tag delta) := by
  have shifted : ∀ z row x, t.rows.find? z = some row → Tidy P (t.shiftRow z row x) := by
    intro z row x found
    refine ⟨fun y basic => ?_, fun r line y held => ?_⟩
    · rcases contains_insert.mp basic with rfl | old
      · exact tidy.basic _ (basic_of_find? found)
      · exact tidy.basic y old
    · have known : P y ∧ ¬Basic t y := by
        rcases line with ⟨key, here⟩ | objective
        · rw [shiftRow, OrderedMap.find?_insert] at here
          split at here
          · cases here
            exact tidy.line row (line_of_find? found) y held
          · exact tidy.line r (.inl ⟨key, here⟩) y held
        · exact tidy.line r (.inr objective) y held
      refine ⟨known.1, fun basic => known.2 ?_⟩
      rcases contains_insert.mp basic with rfl | old
      · exact basic_of_find? found
      · exact old
  have moved : ∀ column, Tidy P (t.shiftColumn column delta) := by
    intro column
    refine ⟨fun y basic => ?_, fun r line y held => ?_⟩
    · exact tidy.basic y (by simpa [Basic, shiftColumn] using basic)
    · have same : Basic (t.shiftColumn column delta) y ↔ Basic t y := by
        simp [Basic, shiftColumn]
      rw [same]
      rcases line with ⟨key, here⟩ | objective
      · simp only [shiftColumn, OrderedMap.find?_mapValues, Option.map_eq_some_iff] at here
        obtain ⟨before, found, rfl⟩ := here
        refine tidy.line before (line_of_find? found) y ?_
        split at held
        · exact held
        · exact held
      · exact tidy.line r (.inr objective) y held
  unfold shiftTarget
  split
  · exact shifted _ _ _ ‹_›
  · split
    · rename_i other row found
      obtain ⟨other', -, mapped⟩ := Option.bind_eq_some_iff.mp found
      obtain ⟨row', held, same⟩ := Option.map_eq_some_iff.mp mapped
      cases same
      exact shifted _ _ _ held
    · exact moved _

theorem suggest_orderly (orderly : Orderly s) (v : Variable) (target : α) :
    Orderly (s.suggest v target).state := by
  unfold suggest
  split
  · exact orderly
  · rename_i edit found
    obtain ⟨old, strength, soft, posted⟩ := orderly.books.edits.posted v edit found
    have moved : Orderly { s with edits := s.edits.insert v { edit with target } } :=
      insertEdit_orderly orderly (orderly.books.edits.handle v edit found) soft posted
    exact orderly_of_tableau (s := { s with edits := s.edits.insert v { edit with target } }) moved
      (Nat.le_refl _) (dualOptimize_tidy (shiftTarget_tidy _ _ orderly.tidy))

/-! ## Steps and runs -/

theorem addAll_orderly (constraints : List (Nat × Constraint α)) (orderly : Orderly s) :
    Orderly (s.addAll constraints).state := by
  induction constraints generalizing s with
  | nil => exact orderly
  | cons posted rest ih =>
    refine Outcome.andThen_state (state_of_ends ?_) fun _ orderly => ih orderly
    exact ends_mono (post_ends orderly (posted_serial _ _)) (fun _ done => done.1)
      fun _ _ stopped => stopped.1

/-- A posted handle backs no edit. -/
theorem posted_unbacked (orderly : Orderly s) (id : Nat) (v : Variable) (edit : Edit α)
    (found : s.edits.find? v = some edit) : edit.handle ≠ .posted id := by
  obtain ⟨k, same⟩ := orderly.books.edits.handle v edit found
  rw [same]
  rintro ⟨⟩

/-- Every command leaves an orderly solver behind, whatever errors it meets. -/
theorem step_orderly {session : Session α} (orderly : Orderly session.solver)
    (command : Command α) : Orderly (session.step command).state.solver := by
  cases command with
  | add id c =>
    apply state_of_ends (o := session.solver.post (.posted id) c)
    exact ends_mono (post_ends orderly (posted_serial _ _)) (fun _ done => done.1)
      fun _ _ stopped => stopped.1
  | addAll constraints => exact addAll_orderly constraints orderly
  | remove id =>
    apply state_of_ends (o := session.solver.retract (.posted id))
    exact ends_mono (retract_ends orderly (posted_unbacked orderly id)) (fun _ done => done.1)
      fun _ _ stopped => stopped.1
  | addEdit v strength => exact addEdit_orderly orderly _ v strength
  | setEdit v strength => exact setEdit_orderly orderly _ v strength
  | removeEdit v => exact removeEdit_orderly orderly v
  | suggest v target => exact suggest_orderly orderly v target
  | update => exact orderly
  | reset => exact fresh_orderly _
  | setValue v x => exact orderly

theorem suggest_accounted (accounted : Accounted s) (v : Variable) (target : α) :
    Accounted (s.suggest v target).state := by
  unfold suggest
  split
  · exact accounted
  · exact accounted

/-! ## Runs -/

/-- No command of a run meets an internal error. -/
def Untroubled (session : Session α) (commands : List (Command α)) : Prop :=
  ∀ cause, some (.internal cause) ∉ session.errors commands

theorem untroubled_of_errors {session : Session α} {commands : List (Command α)}
    (errors : ∀ error ∈ session.errors commands, error = none) : Untroubled session commands :=
  fun _ member => by cases errors _ member

/-- Each command of a run is allowed in the session that it meets. -/
def Throughout (allowed : Session α → Command α → Prop) :
    Session α → List (Command α) → Prop
  | _, [] => True
  | session, command :: rest =>
    allowed session command ∧ Throughout allowed (session.step command).state rest

instance decidableThroughout {allowed : Session α → Command α → Prop}
    [decide : ∀ session command, Decidable (allowed session command)] :
    ∀ session commands, Decidable (Throughout allowed session commands)
  | _, [] => .isTrue trivial
  | session, command :: rest =>
    have : Decidable (Throughout allowed (session.step command).state rest) :=
      decidableThroughout _ rest
    inferInstanceAs (Decidable (_ ∧ _))

theorem throughout_of_forall {allowed : Session α → Command α → Prop}
    (all : ∀ session command, allowed session command) (session : Session α)
    (commands : List (Command α)) : Throughout allowed session commands := by
  induction commands generalizing session with
  | nil => trivial
  | cons command rest ih => exact ⟨all session command, ih _⟩

theorem throughout_append {allowed : Session α → Command α → Prop} {session : Session α}
    {before after : List (Command α)} :
    Throughout allowed session (before ++ after) ↔
      Throughout allowed session before ∧ Throughout allowed (session.run before) after := by
  induction before generalizing session with
  | nil => exact (iff_of_eq (true_and _)).symm
  | cons command rest ih => exact (and_congr_right fun _ => ih).trans and_assoc.symm

/-- What every allowed command keeps, a run without internal errors keeps. -/
theorem run_keeps (Kept : Session α → Prop) {allowed : Session α → Command α → Prop}
    (step : ∀ session command, Kept session → allowed session command →
      Ends (session.step command) Kept (Unless Kept))
    {session : Session α} {commands : List (Command α)} (start : Kept session)
    (untroubled : Untroubled session commands) (throughout : Throughout allowed session commands) :
    Kept (session.run commands) := by
  induction commands generalizing session with
  | nil => exact start
  | cons command rest ih =>
    have next : Kept (session.step command).state :=
      state_of_ends_unless (step session command start throughout.1) fun cause stopped =>
        untroubled cause (List.mem_cons.mpr (.inl stopped.symm))
    exact ih next (fun cause later => untroubled cause (List.mem_cons_of_mem _ later)) throughout.2

/-- What every allowed command keeps, whatever error it meets, a run of allowed commands keeps. -/
theorem run_keeps_always (Kept : Session α → Prop) {allowed : Session α → Command α → Prop}
    (step : ∀ session command, Kept session → allowed session command →
      Kept (session.step command).state)
    {session : Session α} {commands : List (Command α)} (start : Kept session)
    (throughout : Throughout allowed session commands) : Kept (session.run commands) := by
  induction commands generalizing session with
  | nil => exact start
  | cons command rest ih => exact ih (step session command start throughout.1) throughout.2

/-- What every command keeps, whatever error it meets, every run keeps. -/
theorem run_always (Kept : Session α → Prop)
    (step : ∀ session command, Kept session → Kept (session.step command).state)
    {session : Session α} (start : Kept session) (commands : List (Command α)) :
    Kept (session.run commands) :=
  run_keeps_always Kept (fun session command kept _ => step session command kept) start
    (throughout_of_forall (fun _ _ => trivial) session commands)

theorem throughout_of_untroubled {session : Session α} {commands : List (Command α)}
    (untroubled : Untroubled session commands) :
    Throughout (fun session command => ∀ cause, (session.step command).error? ≠ some (.internal cause))
      session commands := by
  induction commands generalizing session with
  | nil => trivial
  | cons command rest ih =>
    refine ⟨fun cause stopped => untroubled cause (List.mem_cons.mpr (.inl stopped.symm)), ih ?_⟩
    exact fun cause later => untroubled cause (List.mem_cons_of_mem _ later)

/-- A property that a step keeps exactly when its command is allowed holds at all times of a run exactly
when all its commands are. -/
theorem always_iff_throughout (Sure Kept : Session α → Prop)
    {possible allowed : Session α → Command α → Prop}
    (next : ∀ session command, Sure session → Sure (session.step command).state)
    (step : ∀ session command, Sure session → Kept session → possible session command →
      (Kept (session.step command).state ↔ allowed session command))
    {session : Session α} {commands : List (Command α)} (sure : Sure session) (start : Kept session)
    (throughout : Throughout possible session commands) :
    (∀ before, before <+: commands → Kept (session.run before)) ↔
      Throughout allowed session commands := by
  induction commands generalizing session with
  | nil =>
    refine iff_of_true (fun before initial => ?_) trivial
    rw [List.prefix_nil.mp initial]
    exact start
  | cons command rest ih =>
    have here := step session command sure start throughout.1
    constructor
    · intro always
      have kept := always [command] (List.prefix_append [command] rest)
      refine ⟨here.mp kept, (ih (next session command sure) kept throughout.2).mp ?_⟩
      intro before initial
      exact always (command :: before) (List.cons_prefix_cons.mpr ⟨rfl, initial⟩)
    · rintro ⟨allowed, later⟩ before initial
      obtain rfl | ⟨after, rfl, shorter⟩ := List.prefix_cons_iff.mp initial
      · exact start
      · exact (ih (next session command sure) (here.mpr allowed) throughout.2).mpr later after shorter

theorem run_orderly (store : Store α) (commands : List (Command α)) :
    Orderly (Session.run ⟨∅, store⟩ commands).solver :=
  run_always (fun session => Orderly session.solver)
    (fun _ command orderly => step_orderly orderly command) (fresh_orderly 0) commands

/-- After every run, whatever the arithmetic does and whatever errors the run meets, no symbol that
heads a row is a column of a row or of the objective. -/
theorem columns_are_not_basic (store : Store α) (commands : List (Command α)) :
    let t := (Session.run ⟨∅, store⟩ commands).solver.tableau
    (∀ entry ∈ t.rows.toList, ∀ z ∈ entry.2.cells.keys, z ∉ t.rows.keys) ∧
      ∀ z ∈ t.objective.cells.keys, z ∉ t.rows.keys := by
  intro t
  have tidy : Tidy _ t := (run_orderly store commands).tidy
  have apart : ∀ r, Line t r → ∀ z ∈ r.cells.keys, z ∉ t.rows.keys := by
    intro r line z column basic
    have held : r.holds z = true := RowSymbols.holds_iff_mem_keys.mpr column
    exact (tidy.line r line z held).2 (OrderedMap.mem_keys_iff.mp basic)
  exact ⟨fun entry member => apart _ (line_of_find? (mem_toList_iff.mp member)),
    apart _ line_objective⟩

end Cassowary.SessionBooks
