import Cassowary.Proofs.SessionBooks

/-!
What every command upholds. Commands do a handful of things to a tableau and to the references that are
counted: a property that each of these upholds holds after every command, whatever the arithmetic does.
What is promised may depend on how the command ends, since an internal error leaves a tableau behind
that was given up in the middle of a pass.
-/

namespace Cassowary.Upkeep
open Endings MapEntries Separation Bookkeeping Drafting SolverBooks SessionBooks Tableau Solver

variable {α : Type} [Scalar α]

/-- A property of settled tableaus that every operation upholds, with the weaker one that holds while
an operation is at work and what is left of it after an internal error, along with a property of the
variables that are tracked. -/
structure Upheld (Settled Holds Left : Tableau α → Prop)
    (Counts : OrderedMap Variable Tracked → Prop) : Prop where
  empty : Settled ∅ ∧ Counts ∅
  holds : ∀ {t}, Settled t → Holds t
  left : ∀ {t}, Holds t → Left t
  objective : ∀ {t} objective, Settled t → Settled { t with objective }
  dropRow : ∀ {t} z, Settled t → Settled (t.dropRow z)
  enter : ∀ {P t z} row, Tidy P t → ¬Basic t z → Holds t → Holds (t.enter z row)
  enterArtificial : ∀ {P t z row}, Tidy P t → OverColumns P t row → ¬P z → Holds t →
    Ends (t.enterArtificial z row) Holds (fun _ _ => True)
  evict : ∀ {P t} z, Tidy P t → Holds t → Ends (t.evict z) Holds (fun _ => Left)
  dropSymbol : ∀ {t} z, Holds t → Holds (t.dropSymbol z)
  settle : ∀ {P t}, Tidy P t → Holds t →
    Ends ((t.optimize .primary).andThen dualOptimize) Settled (fun _ => Left)
  shift : ∀ {P t} tag delta, Tidy P t → Holds t →
    Ends (t.shiftTarget tag delta).dualOptimize Settled (fun _ => Left)
  track : ∀ {s : Solver α} v, Counts s.tracked → Counts (s.track v).1.tracked
  untrack : ∀ {s : Solver α} v, Counts s.tracked → Counts (s.untrack v).tracked

section Upheld
variable {Settled Holds Left : Tableau α → Prop} {Counts : OrderedMap Variable Tracked → Prop}
  {s : Solver α} {c : Constraint α} {h : Handle} {v : Variable} {tag : Tag}

/-- An operation ends with a settled tableau unless an internal error stops it. -/
def Upholds (Settled Left : Tableau α → Prop) (Counts : OrderedMap Variable Tracked → Prop)
    (o : Outcome (Event α) (Solver α)) : Prop :=
  Ends o (fun s => Settled s.tableau ∧ Counts s.tracked)
    (fun error s => Left s.tableau ∧ Counts s.tracked ∧ (error.isInternal = false → Settled s.tableau))

variable (upheld : Upheld Settled Holds Left Counts)
include upheld

/-- An operation that is refused before it does anything. -/
theorem upholds_fail (settled : Settled s.tableau) (counts : Counts s.tracked) (error : SolverError) :
    Upholds Settled Left Counts (.fail s error) :=
  ⟨upheld.left (upheld.holds settled), counts, fun _ => settled⟩

private theorem foldl_insertTerm_counts (terms : List (Term α)) (state : Solver α × Row α)
    (counts : Counts state.1.tracked) : Counts (terms.foldl insertTerm state).1.tracked := by
  induction terms generalizing state with
  | nil => exact counts
  | cons term rest ih => exact ih _ (upheld.track term.var counts)

theorem draft_upholds (settled : Settled s.tableau) (counts : Counts s.tracked) :
    Settled (s.draft c).solver.tableau ∧ Counts (s.draft c).solver.tracked := by
  rw [draft_tableau, draft_tracked]
  exact ⟨upheld.objective _ settled,
    foldl_insertTerm_counts upheld c.expression.relevantTerms (s, _) counts⟩

theorem release_upholds (e : Expression α) (settled : Settled s.tableau) (counts : Counts s.tracked) :
    Settled (s.release e).tableau ∧ Counts (s.release e).tracked := by
  refine ⟨release_keeps (fun _ z => upheld.dropRow z) e settled, ?_⟩
  unfold release
  clear settled
  induction e.relevantTerms generalizing s with
  | nil => exact counts
  | cons term rest ih => exact ih (upheld.untrack term.var counts)

theorem withdraw_upholds (tag : Tag) (settled : Settled s.tableau) (counts : Counts s.tracked) :
    Settled (s.withdraw c tag).tableau ∧ Counts (s.withdraw c tag).tracked :=
  release_upholds (s := s.mapTableau (·.discharge tag)) upheld c.expression
    (upheld.objective _ settled) counts

/-- A draft that is brought in may leave the tableau unsettled, one that is not leaves it settled. -/
theorem install_upholds {d : Draft α} (orderly : Orderly d.solver)
    (columnar : OverColumns (Minted d.solver.minted) d.solver.tableau d.row)
    (settled : Settled d.solver.tableau) (counts : Counts d.solver.tracked) :
    Ends (d.install c) (fun s => Holds s.tableau ∧ Counts s.tracked)
      (fun _ s => Settled s.tableau ∧ Counts s.tracked) := by
  have entered : ∀ subject, Ends (d.enter subject) (fun s => Holds s.tableau ∧ Counts s.tracked)
      (fun _ s => Settled s.tableau ∧ Counts s.tracked) := by
    intro subject
    unfold Draft.enter
    dsimp only
    split
    · exact ⟨settled, counts⟩
    · rename_i fine
      have present := (ends_of_error_none RowSymbols.solveFor_ends fine).1
      exact ⟨upheld.enter _ orderly.tidy (columnar subject present).2 (upheld.holds settled), counts⟩
  unfold Draft.install
  split
  · exact entered _
  · split
    · have fresh : ¬Minted d.solver.minted ⟨d.solver.minted + 1, .slack⟩ := fun minted =>
        Nat.not_succ_le_self _ minted.2
      have phase := upheld.enterArtificial orderly.tidy columnar fresh (upheld.holds settled)
      unfold Draft.enterArtificial
      dsimp only
      split
      · rename_i fine
        exact ends_of_error?_none fine ⟨ends_of_error_none phase fine, counts⟩
      · rename_i error stopped
        unfold Ends
        simp only [Outcome.report, stopped]
        exact withdraw_upholds (s := { d.solver with minted := d.solver.minted + 1 }) upheld d.tag
          settled counts
    · split
      · exact entered _
      · exact withdraw_upholds upheld d.tag settled counts

theorem settle_upholds (orderly : Orderly s) (holds : Holds s.tableau) (counts : Counts s.tracked) :
    Upholds Settled Left Counts s.settle := by
  have settled := upheld.settle orderly.tidy holds
  unfold settle onTableau Upholds
  rw [ends_embed]
  have internal := settle_ends (s := s)
  unfold settle onTableau at internal
  rw [ends_embed] at internal
  exact ends_mono (ends_and settled internal) (fun _ both => ⟨both.1, counts⟩)
    fun _ _ both => ⟨both.1, counts, of_internal both.2.1⟩

theorem post_upholds (orderly : Orderly s) (settled : Settled s.tableau) (counts : Counts s.tracked)
    (serial : ∀ k, h = .edit k → k ≤ s.minted) : Upholds Settled Left Counts (s.post h c) := by
  unfold post Upholds
  split
  · exact upholds_fail upheld settled counts _
  · rename_i notTaken
    have free : s.postings.find? h = none := not_contains_iff.mp (by simpa using notTaken)
    have drafted := draft_orderly (c := c) orderly
    have columnar := draft_over (c := c) orderly.books.tracked orderly.tidy
    obtain ⟨settled', counts'⟩ := draft_upholds (c := c) upheld settled counts
    dsimp only
    rw [ends_andThen]
    refine ends_mono (ends_and (install_handled (c := c) drafted columnar)
      (install_upholds (c := c) upheld drafted columnar settled' counts')) ?_ ?_
    · rintro s₁ ⟨⟨orderly₁, more, same⟩, holds₁, counts₁⟩
      have orderly₂ : Orderly { s₁ with
          postings := s₁.postings.insert h ⟨c, (s.draft c).tag⟩ } := by
        rw [same]
        exact posted_orderly orderly free serial more orderly₁.tidy
      rw [ends_andThen]
      exact ends_mono (settle_upholds upheld orderly₂ holds₁ counts₁) (fun _ settled => settled)
        fun _ _ left => left
    · rintro error s₁ ⟨-, settled₁, counts₁⟩
      exact upholds_fail upheld settled₁ counts₁ error

theorem retract_upholds (orderly : Orderly s) (settled : Settled s.tableau) (counts : Counts s.tracked)
    (unbacked : ∀ v edit, s.edits.find? v = some edit → edit.handle ≠ h) :
    Upholds Settled Left Counts (s.retract h) := by
  unfold retract Upholds
  split
  · exact upholds_fail upheld settled counts _
  · rename_i c tag found
    have refunded : Tidy (Minted s.minted) (s.tableau.refund tag c.strength.value) :=
      refund_tidy orderly.tidy fun z member =>
        (tag_symbol orderly.books.postings found member).2
    have kept : Holds (s.tableau.refund tag c.strength.value) :=
      upheld.holds (upheld.objective _ settled)
    dsimp only
    rw [ends_andThen, onTableau, ends_embed]
    refine ends_mono (ends_and (ends_and (ends_of_state (evict_tidy refunded))
      (PivotRuns.evict_error_internal _ _)) (upheld.evict tag.marker refunded kept)) ?_ ?_
    · rintro t₁ ⟨⟨tidy₁, -⟩, holds₁⟩
      have both : Tidy (Minted s.minted) (tag.other.elim t₁ t₁.dropSymbol) ∧
          Holds (tag.other.elim t₁ t₁.dropSymbol) := by
        cases tag.other with
        | none => exact ⟨tidy₁, holds₁⟩
        | some other => exact ⟨dropSymbol_tidy tidy₁, upheld.dropSymbol other holds₁⟩
      have orderly₂ : Orderly { s with
          postings := s.postings.erase h, tableau := tag.other.elim t₁ t₁.dropSymbol } :=
        erase_orderly orderly unbacked both.1
      rw [ends_andThen]
      refine ends_mono (settle_upholds upheld orderly₂ both.2 counts) ?_ fun _ _ left => left
      rintro s₃ ⟨settled, counts₃⟩
      exact release_upholds upheld c.expression settled counts₃
    · rintro error t₁ ⟨⟨-, internal⟩, left⟩
      exact ⟨left, counts, of_internal internal⟩

theorem addEdit_upholds (orderly : Orderly s) (settled : Settled s.tableau) (counts : Counts s.tracked)
    (store : Store α) (v : Variable) (strength : Strength α) :
    Upholds Settled Left Counts (s.addEdit store v strength) := by
  unfold addEdit
  split
  · exact upholds_fail upheld settled counts _
  · dsimp only
    split
    · exact upholds_fail upheld settled counts _
    · unfold Upholds
      rw [ends_andThen]
      refine ends_mono (post_upholds upheld orderly settled counts (edit_serial s)) ?_
        fun _ _ left => left
      rintro s₁ ⟨settled₁, counts₁⟩
      split
      · exact upholds_fail upheld settled₁ counts₁ _
      · exact ⟨settled₁, counts₁⟩

theorem removeEdit_upholds (orderly : Orderly s) (settled : Settled s.tableau)
    (counts : Counts s.tracked) (v : Variable) : Upholds Settled Left Counts (s.removeEdit v) := by
  unfold removeEdit
  split
  · exact upholds_fail upheld settled counts _
  · rename_i edit found
    unfold Upholds
    dsimp only
    rw [ends_andThen, ends_mapError]
    refine ends_mono (retract_upholds (s := { s with edits := s.edits.erase v }) upheld
      (eraseEdit_orderly orderly v) settled counts (eraseEdit_unbacked orderly found))
      (fun _ settled => settled) ?_
    rintro error s₁ ⟨left, counts₁, kept⟩
    refine ⟨left, counts₁, fun external => kept ?_⟩
    split at external
    · cases external
    · exact external

theorem setEdit_upholds (orderly : Orderly s) (settled : Settled s.tableau) (counts : Counts s.tracked)
    (store : Store α) (v : Variable) (strength : Strength α) :
    Upholds Settled Left Counts (s.setEdit store v strength) := by
  unfold setEdit
  split
  · unfold Upholds
    rw [ends_andThen]
    refine ends_mono (ends_and (ends_of_state (removeEdit_orderly orderly v))
      (removeEdit_upholds upheld orderly settled counts v)) ?_ fun _ _ both => both.2
    rintro s₁ ⟨orderly₁, settled₁, counts₁⟩
    exact addEdit_upholds upheld orderly₁ settled₁ counts₁ store v strength
  · exact addEdit_upholds upheld orderly settled counts store v strength

theorem suggest_upholds (orderly : Orderly s) (settled : Settled s.tableau) (counts : Counts s.tracked)
    (v : Variable) (target : α) : Upholds Settled Left Counts (s.suggest v target) := by
  unfold suggest
  split
  · exact upholds_fail upheld settled counts _
  · rename_i edit found
    unfold Upholds onTableau
    rw [ends_embed]
    refine ends_mono (ends_and
      (upheld.shift edit.tag (target - edit.target) orderly.tidy (upheld.holds settled))
      (PivotRuns.dualOptimize_settles _)) ?_ ?_
    · rintro t ⟨settled, -⟩
      exact ⟨settled, counts⟩
    · rintro error t ⟨left, internal⟩
      exact ⟨left, counts, of_internal internal⟩

theorem addAll_upholds (constraints : List (Nat × Constraint α)) (orderly : Orderly s)
    (settled : Settled s.tableau) (counts : Counts s.tracked) :
    Upholds Settled Left Counts (s.addAll constraints) := by
  induction constraints generalizing s with
  | nil => exact ⟨settled, counts⟩
  | cons posted rest ih =>
    have serial := posted_serial s posted.1
    unfold addAll Upholds
    rw [ends_andThen]
    refine ends_mono (ends_and (post_ends (c := posted.2) orderly serial)
      (post_upholds (c := posted.2) upheld orderly settled counts serial)) ?_ fun _ _ both => both.2
    rintro s₁ ⟨⟨orderly₁, -⟩, settled₁, counts₁⟩
    exact ih orderly₁ settled₁ counts₁

/-! ## Commands and runs -/

/-- Every command ends with a settled tableau unless an internal error stops it. -/
theorem step_upholds {session : Session α} (orderly : Orderly session.solver)
    (settled : Settled session.solver.tableau) (counts : Counts session.solver.tracked)
    (command : Command α) :
    Ends (session.step command)
      (fun after => Settled after.solver.tableau ∧ Counts after.solver.tracked)
      (fun error after => Left after.solver.tableau ∧ Counts after.solver.tracked ∧
        (error.isInternal = false → Settled after.solver.tableau)) := by
  cases command with
  | add id c => exact post_upholds upheld orderly settled counts (posted_serial _ id)
  | addAll constraints => exact addAll_upholds upheld constraints orderly settled counts
  | remove id => exact retract_upholds upheld orderly settled counts (posted_unbacked orderly id)
  | addEdit v strength => exact addEdit_upholds upheld orderly settled counts _ v strength
  | setEdit v strength => exact setEdit_upholds upheld orderly settled counts _ v strength
  | removeEdit v => exact removeEdit_upholds upheld orderly settled counts v
  | suggest v target => exact suggest_upholds upheld orderly settled counts v target
  | update => exact ⟨settled, counts⟩
  | reset => exact upheld.empty
  | setValue v x => exact ⟨settled, counts⟩

/-- The property together with the order of the books, on which it relies. -/
def Upkept (Settled : Tableau α → Prop) (Counts : OrderedMap Variable Tracked → Prop)
    (session : Session α) : Prop :=
  Orderly session.solver ∧ Settled session.solver.tableau ∧ Counts session.solver.tracked

theorem empty_upkept (store : Store α) : Upkept Settled Counts ⟨∅, store⟩ :=
  ⟨fresh_orderly 0, upheld.empty⟩

/-- A property that also an internal error leaves behind holds after every run. -/
theorem run_upholds (leaves : ∀ t, Left t → Settled t) (store : Store α)
    (commands : List (Command α)) : Upkept Settled Counts (Session.run ⟨∅, store⟩ commands) := by
  refine run_always (Upkept Settled Counts) ?_ (empty_upkept upheld store) commands
  rintro session command ⟨orderly, settled, counts⟩
  refine ⟨step_orderly orderly command, state_of_ends (ends_mono
    (step_upholds upheld orderly settled counts command) (fun _ done => done) ?_)⟩
  exact fun _ _ left => ⟨leaves _ left.1, left.2.1⟩

/-- Without internal errors the property holds after every run. -/
theorem run_upholds_untroubled (store : Store α) {commands : List (Command α)}
    (untroubled : Untroubled ⟨∅, store⟩ commands) :
    Upkept Settled Counts (Session.run ⟨∅, store⟩ commands) := by
  refine run_keeps (Upkept Settled Counts) ?_ (empty_upkept upheld store) untroubled
    (throughout_of_forall (fun _ _ => trivial) _ _)
  rintro session command ⟨orderly, settled, counts⟩ -
  exact ends_mono (ends_and (ends_of_state (step_orderly orderly command))
    (step_upholds upheld orderly settled counts command))
    (fun _ done => done) fun _ _ left external => ⟨left.1, left.2.2.2 external, left.2.2.1⟩

end Upheld

/-! ## Inputs -/

/-- The numbers that a caller hands over with a command. -/
def inputs : Command α → List α
  | .add _ c => numbers c
  | .addAll constraints => constraints.flatMap fun posted => numbers posted.2
  | .addEdit _ strength => [strength.value]
  | .setEdit _ strength => [strength.value]
  | .suggest _ target => [target]
  | .setValue _ x => [x]
  | _ => []
where
  numbers (c : Constraint α) : List α :=
    c.strength.value :: c.expression.constant :: c.expression.terms.map Term.coefficient

/-- Neither the values that are stored at first nor those that commands hand over are infinite or not
a number. -/
def FiniteInputs (store : Store Float) (commands : List (Command Float)) : Prop :=
  (∀ v, (store.value v).isFinite = true) ∧
    ∀ command ∈ commands, ∀ x ∈ inputs command, x.isFinite = true

theorem finiteInputs_of_all {commands : List (Command Float)}
    (all : (commands.all fun command => (inputs command).all Float.isFinite) = true) :
    FiniteInputs {} commands := by
  refine ⟨fun v => ?_, fun command member x given => ?_⟩
  · show Float.isFinite 0 = true
    decide +kernel
  · exact List.all_eq_true.mp (List.all_eq_true.mp all command member) x given

end Cassowary.Upkeep
