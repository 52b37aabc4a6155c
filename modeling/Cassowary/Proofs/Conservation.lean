import Cassowary.Proofs.Rollback

/-!
What runs without internal errors conserve. Whatever a command is, it posts and retracts constraints,
moves targets and enters edits in the books, and a constraint that is refused leaves nothing behind but
used-up numbers. A property that these few moves conserve therefore holds after every run in which no
internal error occurs, whatever the arithmetic does.
-/

namespace Cassowary.Conservation
open Endings Separation Bookkeeping Drafting SolverBooks SessionBooks Upkeep Rollback Solver

variable {α : Type} [Scalar α] {K : Solver α → Prop} {s : Solver α} {c : Constraint α} {h : Handle}

/-- What holds of a solver after every run, whatever errors the run met. -/
structure Standing (s : Solver α) : Prop where
  orderly : Orderly s
  closed : Closed s.tableau
  used : Used s.tracked

/-- A property that does not look at the edits, that skipping numbers cannot break, and that posting,
retracting and suggesting keep when they succeed. -/
structure Conserved (K : Solver α → Prop) : Prop where
  reset : ∀ {s}, K s → K s.reset
  numbers : ∀ {s minted}, K s → s.minted ≤ minted → K { s with minted }
  edits : ∀ {s} edits, K s → K { s with edits }
  post : ∀ {s h} c, Standing s → K s → (∀ k, h = .edit k → k ≤ s.minted) →
    Ends (s.post h c) K (fun _ _ => True)
  retract : ∀ {s h}, Standing s → K s →
    (∀ v edit, s.edits.find? v = some edit → edit.handle ≠ h) →
    Ends (s.retract h) K (fun _ _ => True)
  suggest : ∀ {s} v target, Standing s → K s → Ends (s.suggest v target) K (fun _ _ => True)

/-- A property that is conserved so, except that retracting a constraint keeps it only where the
constraint may be removed. -/
structure ConservedWhile
    (removable : Tableau α → OrderedMap Handle (Posting α) → Handle → Prop) (K : Solver α → Prop) :
    Prop where
  reset : ∀ {s}, K s → K s.reset
  numbers : ∀ {s minted}, K s → s.minted ≤ minted → K { s with minted }
  edits : ∀ {s} edits, K s → K { s with edits }
  post : ∀ {s h} c, Standing s → K s → (∀ k, h = .edit k → k ≤ s.minted) →
    Ends (s.post h c) K (fun _ _ => True)
  retract : ∀ {s h}, Standing s → K s → removable s.tableau s.postings h →
    (∀ v edit, s.edits.find? v = some edit → edit.handle ≠ h) →
    Ends (s.retract h) K (fun _ _ => True)
  suggest : ∀ {s} v target, Standing s → K s → Ends (s.suggest v target) K (fun _ _ => True)

/-- The command removes only what may be removed. -/
def Removes (removable : Tableau α → OrderedMap Handle (Posting α) → Handle → Prop)
    (session : Session α) : Command α → Prop
  | .remove id => removable session.solver.tableau session.solver.postings (.posted id)
  | .removeEdit v | .setEdit v _ => ∀ edit, session.solver.edits.find? v = some edit →
      removable session.solver.tableau session.solver.postings edit.handle
  | _ => True

/-- The property together with what holds anyway. -/
def Good (K : Solver α → Prop) (s : Solver α) : Prop := Standing s ∧ K s

/-- An operation ends with a good solver unless an internal error stops it. -/
def Conserves (K : Solver α → Prop) (o : Outcome (Event α) (Solver α)) : Prop :=
  Ends o (Good K) (Unless (Good K))

theorem fresh_standing (minted : Nat) : Standing (fresh minted : Solver α) where
  orderly := fresh_orderly minted
  closed := rfl
  used v entry found := by cases found

theorem edits_standing (standing : Standing s) {edits : OrderedMap Variable (Edit α)}
    (orderly : Orderly { s with edits }) : Standing { s with edits } :=
  ⟨orderly, standing.closed, standing.used⟩

/-- Every command leaves a standing solver behind, whatever errors it meets. -/
theorem step_standing (session : Session α) (command : Command α) (standing : Standing session.solver) :
    Standing (session.step command).state.solver := by
  have upheld := step_upholds closed_upheld standing.orderly standing.closed standing.used command
  obtain ⟨closed, used⟩ := state_of_ends <|
    ends_mono upheld (fun _ done => done) fun _ _ left => ⟨left.1, left.2.1⟩
  exact ⟨step_orderly standing.orderly command, closed, used⟩

theorem run_standing (store : Store α) (commands : List (Command α)) :
    Standing (Session.run ⟨∅, store⟩ commands).solver :=
  run_always (fun session => Standing session.solver) step_standing (fresh_standing 0) commands

section ConservedWhile
variable {removable : Tableau α → OrderedMap Handle (Posting α) → Handle → Prop}
  (conserved : ConservedWhile removable K)
include conserved

theorem post_conserves (good : Good K s) (serial : ∀ k, h = .edit k → k ≤ s.minted) :
    Conserves K (s.post h c) := by
  obtain ⟨standing, kept⟩ := good
  have ended := ends_and (post_ends (c := c) standing.orderly serial)
    (post_upholds (c := c) closed_upheld standing.orderly standing.closed standing.used serial)
  refine ends_mono (ends_and ended (conserved.post c standing kept serial)) ?_ ?_
  · rintro s' ⟨⟨⟨orderly', -⟩, closed', used'⟩, kept'⟩
    exact ⟨⟨orderly', closed', used'⟩, kept'⟩
  · rintro error s' ⟨⟨⟨orderly', -, left⟩, closed', used', -⟩, -⟩ external
    refine ⟨⟨orderly', closed', used'⟩, ?_⟩
    obtain rfl | withdrawn := left external
    · exact kept
    · obtain ⟨more, same⟩ := withdrawn_eq standing.orderly standing.used withdrawn
      rw [same]
      exact conserved.numbers kept more

theorem addAll_conserves (constraints : List (Nat × Constraint α)) (good : Good K s) :
    Conserves K (s.addAll constraints) := by
  induction constraints generalizing s with
  | nil => exact good
  | cons posted rest ih =>
    unfold addAll Conserves
    rw [ends_andThen]
    exact ends_mono (post_conserves conserved good (posted_serial _ _))
      (fun _ good => ih good) fun _ _ left => left

theorem retract_conserves (good : Good K s) (removed : removable s.tableau s.postings h)
    (unbacked : ∀ v edit, s.edits.find? v = some edit → edit.handle ≠ h) :
    Conserves K (s.retract h) := by
  have ⟨standing, kept⟩ := good
  have ended := ends_and (retract_ends standing.orderly unbacked)
    (retract_upholds closed_upheld standing.orderly standing.closed standing.used unbacked)
  refine ends_mono (ends_and ended (conserved.retract standing kept removed unbacked)) ?_ ?_
  · rintro s' ⟨⟨⟨orderly', -⟩, closed', used'⟩, kept'⟩
    exact ⟨⟨orderly', closed', used'⟩, kept'⟩
  · rintro error s' ⟨⟨⟨-, -, left⟩, -⟩, -⟩ external
    rw [left external]
    exact good

theorem addEdit_conserves (good : Good K s) (store : Store α) (v : Variable)
    (strength : Strength α) : Conserves K (s.addEdit store v strength) := by
  apply ends_given (ends_of_state (addEdit_orderly good.1.orderly store v strength))
  unfold addEdit
  split
  · exact fun _ => good
  · dsimp only
    split
    · exact fun _ => good
    · rw [ends_andThen]
      refine ends_mono (post_conserves conserved good (edit_serial s)) ?_ fun _ _ left => left
      rintro s₁ ⟨standing₁, kept₁⟩
      split
      · exact fun _ => ⟨standing₁, kept₁⟩
      · rw [ends_report, ends_ok]
        exact fun orderly₂ => ⟨edits_standing standing₁ orderly₂, conserved.edits _ kept₁⟩

theorem removeEdit_conserves (good : Good K s) (v : Variable)
    (removed : ∀ edit, s.edits.find? v = some edit → removable s.tableau s.postings edit.handle) :
    Conserves K (s.removeEdit v) := by
  unfold removeEdit
  split
  · exact fun _ => good
  · rename_i edit found
    have orderly := eraseEdit_orderly good.1.orderly v
    have erased : Good K { s with edits := s.edits.erase v } :=
      ⟨edits_standing good.1 orderly, conserved.edits _ good.2⟩
    unfold Conserves
    dsimp only
    rw [ends_andThen, ends_mapError]
    refine ends_mono (retract_conserves conserved erased (removed edit found)
      (eraseEdit_unbacked good.1.orderly found)) (fun _ good => good) ?_
    intro error s₁ left external
    split at external
    · cases external
    · exact left external

theorem setEdit_conserves (good : Good K s) (store : Store α) (v : Variable)
    (strength : Strength α)
    (removed : ∀ edit, s.edits.find? v = some edit → removable s.tableau s.postings edit.handle) :
    Conserves K (s.setEdit store v strength) := by
  unfold setEdit
  split
  · unfold Conserves
    rw [ends_andThen]
    exact ends_mono (removeEdit_conserves conserved good v removed)
      (fun _ good => addEdit_conserves conserved good store v strength) fun _ _ left => left
  · exact addEdit_conserves conserved good store v strength

/-- A suggestion fails before it does anything or through the dual method. -/
theorem suggest_conserves (good : Good K s) (v : Variable) (target : α) :
    Conserves K (s.suggest v target) := by
  have ⟨standing, kept⟩ := good
  have ended := ends_and (ends_of_state (suggest_orderly standing.orderly v target))
    (suggest_upholds closed_upheld standing.orderly standing.closed standing.used v target)
  refine ends_given (ends_and ended (conserved.suggest v target standing kept)) ?_
  unfold suggest
  split
  · exact fun _ => good
  · unfold onTableau
    rw [ends_embed]
    refine ends_mono (PivotRuns.dualOptimize_settles _) ?_ fun _ _ internal => of_internal internal
    rintro t - ⟨⟨orderly', closed', used'⟩, kept'⟩
    exact ⟨⟨orderly', closed', used'⟩, kept'⟩

/-- Without an internal error a command that removes only what may be removed leaves a good solver
behind. -/
theorem step_conserves (session : Session α) (command : Command α) (good : Good K session.solver)
    (removes : Removes removable session command) :
    Ends (session.step command) (fun after => Good K after.solver)
      (Unless fun after => Good K after.solver) := by
  cases command with
  | add id c => exact post_conserves conserved good (posted_serial _ _)
  | addAll constraints => exact addAll_conserves conserved constraints good
  | remove id => exact retract_conserves conserved good removes (posted_unbacked good.1.orderly id)
  | addEdit v strength => exact addEdit_conserves conserved good _ v strength
  | setEdit v strength => exact setEdit_conserves conserved good _ v strength removes
  | removeEdit v => exact removeEdit_conserves conserved good v removes
  | suggest v target => exact suggest_conserves conserved good v target
  | update => exact good
  | reset => exact ⟨fresh_standing _, conserved.reset good.2⟩
  | setValue v x => exact good

end ConservedWhile

theorem conservedWhile_of_conserved (conserved : Conserved K) :
    ConservedWhile (fun _ _ _ => True) K where
  reset := conserved.reset
  numbers := conserved.numbers
  edits := conserved.edits
  post := conserved.post
  retract standing kept _ unbacked := conserved.retract standing kept unbacked
  suggest := conserved.suggest

/-- A run without internal errors that starts with a good solver ends with one. -/
theorem run_conserves (conserved : Conserved K) {session : Session α} {commands : List (Command α)}
    (good : Good K session.solver) (untroubled : Untroubled session commands) :
    Good K (session.run commands).solver := by
  apply run_keeps (fun session => Good K session.solver) _ good untroubled
    (throughout_of_forall (fun _ _ => trivial) _ _)
  intro session command good _
  refine step_conserves (conservedWhile_of_conserved conserved) session command good ?_
  cases command <;> simp [Removes]

/-- A run whose errors are all external meets no internal error. -/
theorem untroubled_of_external {session : Session α} {commands : List (Command α)}
    (external : (session.errors commands).all (fun error => !error.any SolverError.isInternal) = true) :
    Untroubled session commands := by
  intro cause member
  have fine := List.all_eq_true.mp external _ member
  cases fine

end Cassowary.Conservation
