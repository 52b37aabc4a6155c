import Cassowary.Proofs.SessionBooks

/-!
The objective through every operation. Pivots change the objective by replacing a symbol, and columns are
taken out of it, so a property of rows that these two keep is kept by every method, however it ends. Apart
from that the objective only changes when errors are charged for and when charges are taken back, which
merges coefficients into it, and merging drops a cell that comes to count as zero.
-/

namespace Cassowary.Objectives
open Endings MapEntries RowSymbols Separation Bookkeeping Drafting SolverBooks SessionBooks Tableau Solver

variable {α : Type} [Scalar α] {Q : Row α → Prop} {t : Tableau α} {s : Solver α} {r other row : Row α}
  {z : Symbol} {x : α} {c : Constraint α} {h : Handle} {tag : Tag}

/-- A property of rows that taking a symbol out and replacing one keep. -/
structure Durable (Q : Row α → Prop) : Prop where
  remove : ∀ {r} z, Q r → Q (r.remove z)
  substitute : ∀ {r} z other, Q r → Q (r.substitute z other)

/-! ## Methods -/

section Durable
variable (durable : Durable Q)
include durable

theorem exchange_objective (entering leaving : Symbol) (row : Row α) (kept : Q t.objective) :
    Q (t.exchange entering leaving row).state.objective := by
  unfold exchange
  dsimp only
  split
  · exact kept
  · exact durable.substitute _ _ kept

theorem dropResidue_objective (goal : Goal) (kept : Q t.objective) :
    Q (t.dropResidue z goal).objective := by
  cases goal with
  | primary => exact durable.remove _ kept
  | artificial => exact kept

theorem optimize_objective (goal : Goal) (kept : Q t.objective) :
    Q (t.optimize goal).state.objective := by
  refine state_of_ends <| ends_mono (PivotRuns.optimize_ends (Q := fun t => Q t.objective)
    (fun _ kept => kept) ?_ kept) (fun _ ended => ended.1) fun _ _ ended => ended.2
  intro t o kept stepped
  obtain ⟨objective, entering, -, -, ⟨-, rfl⟩ | ⟨leaving, row, -, rfl⟩⟩ :=
    PivotRuns.primalStep?_eq_some stepped
  · exact dropResidue_objective durable goal kept
  · exact ends_of_state (exchange_objective durable entering leaving row kept)

theorem dualOptimize_objective (kept : Q t.objective) : Q t.dualOptimize.state.objective := by
  refine PivotRuns.dualOptimize_keeps (Q := fun t => Q t.objective) (fun _ _ kept _ => kept) ?_ kept
  intro t leaving row queue entering kept _ _
  exact exchange_objective (t := { t with infeasible := queue }) durable entering leaving row kept

theorem evict_objective (marker : Symbol) (kept : Q t.objective) :
    Q (t.evict marker).state.objective := by
  unfold evict
  split
  · exact kept
  · split
    · exact kept
    · exact Outcome.andThen_state (P := fun t : Tableau α => Q t.objective)
        (exchange_objective durable _ _ _ kept) fun _ kept => kept

theorem dropSymbol_objective (kept : Q t.objective) : Q (t.dropSymbol z).objective := by
  unfold dropSymbol
  split
  · exact kept
  · exact durable.remove _ kept

theorem retireArtificial_objective (symbol : Symbol) (kept : Q t.objective) :
    Q (t.retireArtificial symbol).state.objective := by
  unfold retireArtificial
  split
  · exact durable.remove _ kept
  · split
    · exact kept
    · split
      · exact kept
      · exact Outcome.andThen_state (P := fun t : Tableau α => Q t.objective)
          (exchange_objective durable _ _ _ kept) fun _ kept => durable.remove _ kept

theorem enterArtificial_objective (symbol : Symbol) (row : Row α) (kept : Q t.objective) :
    Q (t.enterArtificial symbol row).state.objective := by
  unfold enterArtificial
  refine Outcome.andThen_state (P := fun t : Tableau α => Q t.objective)
    (optimize_objective durable .artificial kept) fun t kept => ?_
  refine Outcome.andThen_state (P := fun t : Tableau α => Q t.objective)
    (retireArtificial_objective durable symbol (t := { t with artificial := none }) kept)
    fun t kept => ?_
  split <;> exact kept

/-! ## Operations -/

theorem settle_objective (kept : Q s.tableau.objective) : Q s.settle.state.tableau.objective :=
  Outcome.andThen_state (P := fun t : Tableau α => Q t.objective)
    (optimize_objective durable .primary kept) fun _ kept => dualOptimize_objective durable kept

theorem withdraw_objective (tag : Tag) (kept : Q s.tableau.objective) :
    Q (s.withdraw c tag).tableau.objective := by
  have discharged : Q (tag.symbols.foldl Row.remove s.tableau.objective) := by
    generalize s.tableau.objective = objective at kept
    induction tag.symbols generalizing objective with
    | nil => exact kept
    | cons first rest ih => exact ih _ (durable.remove first kept)
  exact release_keeps (P := fun t : Tableau α => Q t.objective) (fun _ _ kept => kept) c.expression
    (s := s.mapTableau (·.discharge tag)) discharged

/-- What holds of the objective with the errors of a draft charged holds once the draft is brought in or
withdrawn. -/
theorem install_objective {d : Draft α} (kept : Q d.solver.tableau.objective) :
    Q (d.install c).state.tableau.objective := by
  have entered : ∀ subject, Q (d.enter subject).state.tableau.objective := by
    intro subject
    unfold Draft.enter
    dsimp only
    split
    · exact kept
    · exact durable.substitute _ _ kept
  unfold Draft.install
  split
  · exact entered _
  · split
    · unfold Draft.enterArtificial
      dsimp only
      split
      · exact enterArtificial_objective durable _ _ kept
      · exact withdraw_objective durable
          (s := { d.solver with minted := d.solver.minted + 1 }) d.tag kept
    · split
      · exact entered _
      · exact withdraw_objective durable d.tag kept

theorem post_objective (kept : Q s.tableau.objective)
    (charged : Q (s.draft c).solver.tableau.objective) :
    Q (s.post h c).state.tableau.objective := by
  unfold post
  split
  · exact kept
  · exact Outcome.andThen_state (P := fun s : Solver α => Q s.tableau.objective)
      (install_objective durable charged) fun s₁ kept =>
        Outcome.andThen_state (P := fun s : Solver α => Q s.tableau.objective)
          (settle_objective durable
            (s := { s₁ with postings := s₁.postings.insert h ⟨c, (s.draft c).tag⟩ }) kept)
          fun _ kept => kept

theorem retract_objective (kept : s.postings.find? h = none → Q s.tableau.objective)
    (refunded : ∀ p, s.postings.find? h = some p →
      Q (s.tableau.refund p.tag p.constraint.strength.value).objective) :
    Q (s.retract h).state.tableau.objective := by
  unfold retract
  split
  · exact kept ‹_›
  · rename_i c tag found
    refine Outcome.andThen_state (P := fun s : Solver α => Q s.tableau.objective)
      (evict_objective durable tag.marker (refunded _ found)) fun s₁ kept => ?_
    have dropped : Q (tag.other.elim s₁.tableau s₁.tableau.dropSymbol).objective := by
      cases tag.other with
      | none => exact kept
      | some other => exact dropSymbol_objective durable kept
    refine Outcome.andThen_state (P := fun s : Solver α => Q s.tableau.objective)
      (settle_objective durable (s := s₁.mapTableau _) dropped) fun s₂ kept => ?_
    exact release_keeps (P := fun t : Tableau α => Q t.objective) (fun _ _ kept => kept) c.expression kept

theorem suggest_objective (v : Variable) (target : α) (kept : Q s.tableau.objective) :
    Q (s.suggest v target).state.tableau.objective := by
  unfold suggest
  split
  · exact kept
  · rename_i edit found
    refine dualOptimize_objective durable (t := s.tableau.shiftTarget edit.tag _) ?_
    unfold shiftTarget
    split
    · exact kept
    · split <;> exact kept

end Durable

/-! ## Cells that count -/

/-- No cell of the row counts as zero. -/
def Significant (r : Row α) : Prop :=
  ∀ z x, r.cells.find? z = some x → Scalar.nearZero x = false

theorem significant_ofConstant : Significant (.ofConstant x) := by
  rintro z y ⟨⟩

theorem significant_remove (significant : Significant r) : Significant (r.remove z) := by
  intro y w found
  rw [Row.remove, OrderedMap.find?_erase] at found
  split at found
  · cases found
  · exact significant y w found

/-- Merging a coefficient stores no cell that counts as zero: the cells that do were there before. -/
theorem find?_insertSymbol_faint {y : Symbol} {w : α}
    (found : (r.insertSymbol z x).cells.find? y = some w) (faint : Scalar.nearZero w = true) :
    r.cells.find? y = some w := by
  unfold Row.insertSymbol at found
  dsimp only at found
  split at found
  · rw [OrderedMap.find?_erase] at found
    split at found
    · cases found
    · exact found
  · rename_i counts
    rw [OrderedMap.find?_insert] at found
    split at found
    · cases found
      exact absurd faint counts
    · exact found

theorem find?_insertCells_faint {cells : List (Symbol × α)} {y : Symbol} {w : α}
    (found : (r.insertCells cells).cells.find? y = some w) (faint : Scalar.nearZero w = true) :
    r.cells.find? y = some w := by
  induction cells generalizing r with
  | nil => exact found
  | cons cell rest ih => exact find?_insertSymbol_faint (ih found) faint

/-- Replacing a symbol stores no cell that counts as zero either. -/
theorem find?_substitute_faint {y : Symbol} {w : α}
    (found : (r.substitute z other).cells.find? y = some w) (faint : Scalar.nearZero w = true) :
    r.cells.find? y = some w := by
  unfold Row.substitute at found
  split at found
  · exact found
  · have before : (r.remove z).cells.find? y = some w :=
      find?_insertCells_faint (r := (r.remove z).addConstant _) found faint
    rw [Row.remove, OrderedMap.find?_erase] at before
    split at before
    · cases before
    · exact before

/-- A row whose cells that count as zero were there before is significant if the one before is. -/
theorem significant_of_faint {r' : Row α} (significant : Significant r)
    (inherited : ∀ z x, r'.cells.find? z = some x → Scalar.nearZero x = true →
      r.cells.find? z = some x) : Significant r' := by
  intro z x found
  by_contra faint
  have same := inherited z x found (by simpa using faint)
  exact faint (significant z x same)

theorem significant_durable : Durable (Significant (α := α)) where
  remove _ significant := significant_remove significant
  substitute _ _ significant :=
    significant_of_faint significant fun _ _ found faint => find?_substitute_faint found faint

theorem significant_insertSymbol (significant : Significant r) : Significant (r.insertSymbol z x) :=
  significant_of_faint significant fun _ _ found faint => find?_insertSymbol_faint found faint

theorem significant_insertCells {cells : List (Symbol × α)} (significant : Significant r) :
    Significant (r.insertCells cells) :=
  significant_of_faint significant fun _ _ found faint => find?_insertCells_faint found faint

theorem significant_draft (significant : Significant s.tableau.objective) :
    Significant (s.draft c).solver.tableau.objective := by
  rw [draft_tableau]
  exact significant_insertCells significant

theorem significant_refund {weight : α} (significant : Significant t.objective) :
    Significant (t.refund tag weight).objective := by
  unfold refund
  dsimp only
  generalize t.objective = objective at significant
  induction tag.errors generalizing objective with
  | nil => exact significant
  | cons error rest ih =>
    refine ih _ ?_
    dsimp only
    split
    · exact significant_insertCells (r := objective.addConstant _) significant
    · exact significant_insertSymbol significant

theorem post_significant (significant : Significant s.tableau.objective) :
    Significant (s.post h c).state.tableau.objective :=
  post_objective significant_durable significant (significant_draft significant)

theorem retract_significant (significant : Significant s.tableau.objective) :
    Significant (s.retract h).state.tableau.objective :=
  retract_objective significant_durable (fun _ => significant) fun _ _ =>
    significant_refund significant

theorem addEdit_significant (store : Store α) (v : Variable) (strength : Strength α)
    (significant : Significant s.tableau.objective) :
    Significant (s.addEdit store v strength).state.tableau.objective := by
  unfold addEdit
  split
  · exact significant
  · dsimp only
    split
    · exact significant
    · refine Outcome.andThen_state (P := fun s : Solver α => Significant s.tableau.objective)
        (post_significant significant) fun s₁ significant => ?_
      split <;> exact significant

theorem removeEdit_significant (v : Variable) (significant : Significant s.tableau.objective) :
    Significant (s.removeEdit v).state.tableau.objective := by
  unfold removeEdit
  split
  · exact significant
  · refine Outcome.andThen_state (P := fun s : Solver α => Significant s.tableau.objective)
      ?_ fun _ significant => significant
    exact retract_significant (s := { s with edits := s.edits.erase v }) significant

theorem step_significant (session : Session α) (command : Command α)
    (significant : Significant session.solver.tableau.objective) :
    Significant (session.step command).state.solver.tableau.objective := by
  cases command with
  | add id c => exact post_significant significant
  | addAll constraints =>
    show Significant (session.solver.addAll constraints).state.tableau.objective
    generalize session.solver = s at significant
    induction constraints generalizing s with
    | nil => exact significant
    | cons posted rest ih =>
      exact Outcome.andThen_state (P := fun s : Solver α => Significant s.tableau.objective)
        (post_significant significant) fun s₁ significant => ih s₁ significant
  | remove id => exact retract_significant significant
  | addEdit v strength => exact addEdit_significant _ v strength significant
  | setEdit v strength =>
    show Significant (session.solver.setEdit session.store v strength).state.tableau.objective
    unfold setEdit
    split
    · exact Outcome.andThen_state (P := fun s : Solver α => Significant s.tableau.objective)
        (removeEdit_significant v significant)
        fun _ significant => addEdit_significant _ v strength significant
    · exact addEdit_significant _ v strength significant
  | removeEdit v => exact removeEdit_significant v significant
  | suggest v target => exact suggest_objective significant_durable v target significant
  | update => exact significant
  | reset => exact significant_ofConstant
  | setValue v x => exact significant

/-- Whatever the arithmetic does and whatever errors a run meets, the objective never stores a cell that
counts as zero. -/
theorem run_significant (store : Store α) (commands : List (Command α)) :
    Significant (Session.run ⟨∅, store⟩ commands).solver.tableau.objective :=
  run_always (fun session => Significant session.solver.tableau.objective)
    (fun session command significant => step_significant session command significant)
    significant_ofConstant commands

end Cassowary.Objectives
