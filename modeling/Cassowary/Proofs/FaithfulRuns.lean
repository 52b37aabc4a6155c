import Cassowary.Proofs.Fidelity

/-!
Runs of a faithful solver. Commands do nothing to a tableau but post, retract and suggest, so a property
that these three carry along holds after every run. After every run the tableau says exactly what the
constraints in the solver say.
-/

namespace Cassowary.FaithfulRuns
open Endings MapEntries RowSymbols Separation Bookkeeping Drafting SolverBooks SessionBooks ExactRows
open Solutions RatioTests SimplexRuns Evictions ArtificialPhase Insertions Meaning Representations
open Suggestions Fidelity Tableau Solver
open scoped Exact

variable {s s' : Solver Rat} {c : Constraint Rat} {h : Handle} {v : Variable} {tag : Tag}

/-- A property that posting acceptable constraints, retracting removable ones and suggesting keep. -/
structure Carried (Kept : Tableau Rat → OrderedMap Handle (Posting Rat) → Prop)
    (acceptable : Constraint Rat → Prop) (removable : Tableau Rat → Posting Rat → Prop) : Prop where
  fresh : Kept ∅ ∅
  post : ∀ {s s' h c}, Faithful s → Kept s.tableau s.postings → acceptable c → Brought s h c s' →
    Kept s'.tableau s'.postings
  withdraw : ∀ {s s' c}, Faithful s → Kept s.tableau s.postings → Withdrawn (s.draft c) c s' →
    Kept s'.tableau s'.postings
  retract : ∀ {s h p t t'}, Faithful s → Kept s.tableau s.postings → s.postings.find? h = some p →
    removable s.tableau p → Taken s p t t' → Kept t' (s.postings.erase h)
  suggest : ∀ {s v edit target t'}, Faithful s → Kept s.tableau s.postings →
    s.edits.find? v = some edit → Shifted s target edit t' → Feasible t' → Kept t' s.postings
  edit : ∀ v target strength, acceptable (editConstraint v target strength)
  soft : ∀ t p, p.constraint.isRequired = false → removable t p

/-- Commands that add acceptable constraints and remove removable ones only. -/
def Allowed (acceptable : Constraint Rat → Prop) (removable : Tableau Rat → Posting Rat → Prop)
    (session : Session Rat) : Command Rat → Prop
  | .add _ c => acceptable c
  | .addAll constraints => ∀ posted ∈ constraints, acceptable posted.2
  | .remove id => ∀ p, session.solver.postings.find? (.posted id) = some p →
      removable session.solver.tableau p
  | _ => True

section Carried
variable {Kept : Tableau Rat → OrderedMap Handle (Posting Rat) → Prop}
  {acceptable : Constraint Rat → Prop} {removable : Tableau Rat → Posting Rat → Prop}

/-- A faithful solver with the property that is carried along. -/
def Good (Kept : Tableau Rat → OrderedMap Handle (Posting Rat) → Prop) (s : Solver Rat) : Prop :=
  Faithful s ∧ Kept s.tableau s.postings

variable (carried : Carried Kept acceptable removable)
include carried

theorem post_carries (good : Good Kept s) (serial : ∀ k, h = .edit k → k ≤ s.minted)
    (accepted : acceptable c) : Ends (s.post h c) (Good Kept) (Unless (Good Kept)) := by
  refine ends_mono (post_faithful good.1 serial) ?_ ?_
  · rintro s' ⟨faithful', brought⟩
    exact ⟨faithful', carried.post good.1 good.2 accepted brought⟩
  · intro error s' left external
    obtain ⟨faithful', -, rfl | withdrawn⟩ := left external
    · exact good
    · exact ⟨faithful', carried.withdraw good.1 good.2 withdrawn⟩

theorem addAll_carries (constraints : List (Nat × Constraint Rat)) (good : Good Kept s)
    (accepted : ∀ posted ∈ constraints, acceptable posted.2) :
    Ends (s.addAll constraints) (Good Kept) (Unless (Good Kept)) := by
  induction constraints generalizing s with
  | nil => exact good
  | cons posted rest ih =>
    unfold addAll
    rw [ends_andThen]
    exact ends_mono (post_carries carried good (posted_serial _ _)
      (accepted posted (by simp)))
      (fun _ good₁ => ih good₁ fun later member => accepted later (List.mem_cons_of_mem _ member))
      fun _ _ left => left

theorem remove_carries (id : Nat) (good : Good Kept s)
    (removable : ∀ p, s.postings.find? (.posted id) = some p → removable s.tableau p) :
    Ends (s.retract (.posted id)) (Good Kept) (Unless (Good Kept)) := by
  refine ends_mono (retract_faithful good.1.orderly good.1.accounted good.1.sound good.1.feasible
    good.1.orderly.books.edits good.1.represents (posted_unbacked good.1.orderly id)
    fun _ _ _ => Iff.rfl) ?_ ?_
  · rintro s' ⟨faithful', postings, p, t, found, taken⟩
    refine ⟨faithful', ?_⟩
    rw [postings]
    exact carried.retract good.1 good.2 found (removable p found) taken
  · intro error s' left external
    rw [(left external).2.2]
    exact good

theorem addEdit_carries (good : Good Kept s) (store : Store Rat) (v : Variable)
    (strength : Strength Rat) :
    Ends (s.addEdit store v strength) (Good Kept) (Unless (Good Kept)) := by
  have tidy := addEdit_orderly good.1.orderly store v strength
  apply ends_given (ends_of_state tidy)
  unfold addEdit
  split
  · exact fun _ => good
  · rename_i notEdited
    have unedited := unedited_of_not_hasEdit notEdited
    dsimp only
    split
    · exact fun _ => good
    · rw [ends_andThen]
      have serial := edit_serial s
      refine ends_mono (ends_and (post_ends good.1.orderly serial)
        (post_carries carried good serial (carried.edit v (store.value v) strength.clip))) ?_
        fun _ _ both => both.2
      rintro s₁ ⟨⟨orderly₁, free, posted⟩, faithful₁, kept⟩
      split
      · exact fun _ => ⟨faithful₁, kept⟩
      · rename_i posting found
        rw [ends_report, ends_ok]
        intro orderly₂
        exact ⟨insertEdit_faithful good.1 unedited free posted faithful₁ orderly₂, kept⟩

theorem removeEdit_carries (good : Good Kept s) (v : Variable) :
    Ends (s.removeEdit v) (Good Kept) (Unless (Good Kept)) := by
  unfold removeEdit
  split
  · exact fun _ => good
  · rename_i edit found
    have faithful := good.1
    obtain ⟨q, k, backing, -, -, soft, -⟩ := edit_posting faithful.orderly found
    dsimp only
    rw [ends_andThen, ends_mapError]
    refine ends_mono (retract_faithful (eraseEdit_orderly faithful.orderly v)
      faithful.accounted faithful.sound faithful.feasible faithful.orderly.books.edits
      faithful.represents (eraseEdit_unbacked faithful.orderly found) fun w edit' apart => ?_) ?_ ?_
    · dsimp only
      rw [OrderedMap.find?_erase]
      split
      · rename_i same
        subst same
        refine ⟨fun before => ?_, (by cases ·)⟩
        cases found.symm.trans before
        exact absurd rfl apart
      · exact Iff.rfl
    · rintro s' ⟨faithful', postings, p, t, held, taken⟩
      cases backing.symm.trans held
      rw [ends_report, ends_ok]
      refine ⟨faithful', ?_⟩
      rw [postings]
      exact carried.retract (s := s) faithful good.2 backing (carried.soft _ _ soft)
        ⟨taken.evicted, taken.indifferent, taken.resettled⟩
    · intro error s' left external
      have internal : error.isInternal = false := by
        split at external
        · cases external
        · exact external
      have missing := (left internal).2.1
      dsimp only at missing
      rw [backing] at missing
      cases missing

theorem setEdit_carries (good : Good Kept s) (store : Store Rat) (v : Variable)
    (strength : Strength Rat) :
    Ends (s.setEdit store v strength) (Good Kept) (Unless (Good Kept)) := by
  unfold setEdit
  split
  · rw [ends_andThen]
    exact ends_mono (removeEdit_carries carried good v)
      (fun _ good₁ => addEdit_carries carried good₁ store v strength) fun _ _ left => left
  · exact addEdit_carries carried good store v strength

theorem suggest_carries (good : Good Kept s) (v : Variable) (target : Rat) :
    Ends (s.suggest v target) (Good Kept) (Unless (Good Kept)) := by
  refine ends_mono (suggest_faithful good.1 v target) ?_ fun _ _ left external => ?_
  · rintro s' ⟨faithful', postings, edit, found, shifted⟩
    refine ⟨faithful', ?_⟩
    rw [postings]
    exact carried.suggest good.1 good.2 found shifted faithful'.feasible
  · rw [left external]
    exact good

/-- Without an internal error every allowed command leaves a good solver behind. -/
theorem step_carries (session : Session Rat) (command : Command Rat)
    (good : Good Kept session.solver) (allowed : Allowed acceptable removable session command) :
    Ends (session.step command) (fun after => Good Kept after.solver)
      (Unless fun after => Good Kept after.solver) := by
  cases command with
  | add id c => exact post_carries carried good (posted_serial _ _) allowed
  | addAll constraints => exact addAll_carries carried constraints good allowed
  | remove id => exact remove_carries carried id good allowed
  | addEdit v strength => exact addEdit_carries carried good _ v strength
  | setEdit v strength => exact setEdit_carries carried good _ v strength
  | removeEdit v => exact removeEdit_carries carried good v
  | suggest v target => exact suggest_carries carried good v target
  | update => exact good
  | reset => exact ⟨fresh_faithful _, carried.fresh⟩
  | setValue v x => exact good

/-- A run of allowed commands without internal errors ends with a good solver. -/
theorem run_carries (store : Store Rat) {commands : List (Command Rat)}
    (untroubled : Untroubled ⟨∅, store⟩ commands)
    (throughout : Throughout (Allowed acceptable removable) ⟨∅, store⟩ commands) :
    Good Kept (Session.run ⟨∅, store⟩ commands).solver :=
  run_keeps (fun session => Good Kept session.solver)
    (fun session command good allowed => step_carries carried session command good allowed)
    ⟨fresh_faithful 0, carried.fresh⟩ untroubled throughout

end Carried

/-- A run without internal errors ends with a faithful solver. -/
theorem run_faithful (store : Store Rat) {commands : List (Command Rat)}
    (untroubled : Untroubled ⟨∅, store⟩ commands) :
    Faithful (Session.run ⟨∅, store⟩ commands).solver := by
  have nothing : Carried (fun _ _ => True) (fun _ => True) (fun _ _ => True) := by
    constructor <;> intros <;> trivial
  refine (run_carries nothing store untroubled (throughout_of_forall ?_ _ _)).1
  intro session command
  cases command <;> simp [Allowed]

/-! ## The tableau and the constraints -/

/-- A symbol that stands for a tracked variable or belongs to a constraint in the solver. -/
def InUse (s : Solver Rat) (z : Symbol) : Prop :=
  (∃ v entry, s.tracked.find? v = some entry ∧ entry.symbol = z) ∨
    ∃ c tag, Live s c tag ∧ z ∈ tag.symbols

theorem represents_live (faithful : Faithful s) (ρ : Valuation) :
    Solves s.tableau ρ ↔ ∀ c tag, Live s c tag → Equation c tag (reading s.tracked ρ) ρ := by
  rw [faithful.represents ρ]
  constructor
  · rintro equations c tag ⟨h, p, found, rfl, rfl⟩
    exact equations h p found
  · exact fun equations h p found => equations _ _ ⟨h, p, found, rfl, rfl⟩

/-- The symbols of a constraint in the solver were minted for it. -/
theorem live_minted (orderly : Orderly s) (live : Live s c tag) :
    ∃ k, tag = Tag.mint c.relation c.isRequired k := by
  obtain ⟨h, p, found, rfl, rfl⟩ := live
  obtain ⟨k, same, -⟩ := orderly.books.postings.tag h p found
  exact ⟨k, by rw [current_relation, current_isRequired]; exact same⟩

/-- The rows of a faithful solver hold symbols in use only. -/
theorem rows_in_use (faithful : Faithful s) {z key : Symbol} {row : Row Rat}
    (found : s.tableau.rows.find? key = some row) (occurs : z = key ∨ row.holds z = true) :
    InUse s z := by
  by_contra unused
  have indifferent : Indifferent (Solves s.tableau) z := by
    intro ρ x solves
    rw [faithful.represents] at solves ⊢
    intro h p posted
    refine (posting_equation_congr faithful.orderly.books.edits faithful.accounted posted
      (fun y mine => ?_) fun w entry tracked _ => ?_).mpr (solves h p posted)
    · refine Function.update_of_ne ?_ _ _
      rintro rfl
      exact unused (.inr ⟨_, _, ⟨h, p, posted, rfl, rfl⟩, mine⟩)
    · refine Function.update_of_ne ?_ _ _
      rintro rfl
      exact unused (.inl ⟨w, entry, tracked, rfl⟩)
  obtain ⟨column, absent⟩ := absent_of_indifferent faithful.sound.tidy indifferent
  obtain rfl | held := occurs
  · exact column (basic_of_find? found)
  · exact (holds_iff_coefficient (faithful.sound.pruned key row found)).mp held (absent key row found)

/-- Whatever a run did, unless an internal error stopped it the tableau says exactly what the
constraints in the solver say: its solutions, of whatever sign, are those of their equations, and it
mentions no symbol that is not in use. -/
theorem tableau_solutions_are_constraint_solutions (store : Store Rat)
    (commands : List (Command Rat)) (untroubled : Untroubled ⟨∅, store⟩ commands) :
    let s := (Session.run ⟨∅, store⟩ commands).solver
    (∀ ρ, Solves s.tableau ρ ↔ ∀ c tag, Live s c tag → Equation c tag (reading s.tracked ρ) ρ) ∧
      (∀ c tag, Live s c tag → ∃ k, tag = Tag.mint c.relation c.isRequired k) ∧
      ∀ z key row, s.tableau.rows.find? key = some row → z = key ∨ row.holds z = true →
        InUse s z := by
  have faithful := run_faithful store untroubled
  exact ⟨represents_live faithful, fun _ _ live => live_minted faithful.orderly live,
    fun _ _ _ found occurs => rows_in_use faithful found occurs⟩

/-- Two columns share a hundred. The left one would rather be narrow, and then it is dragged until only
the limit of the right one is in the way, which is removed. -/
def draggedColumns : List (Command Rat) :=
  let left : Expression Rat := .ofVariable ⟨0, none⟩
  let right : Expression Rat := .ofVariable ⟨1, none⟩
  [.add 0 (.relate (left + right) .equal (.ofScalar 100)),
    .add 1 (.relate left .greaterOrEqual (.ofScalar 10)),
    .add 2 (.relate right .greaterOrEqual (.ofScalar 20)),
    .add 3 ((Constraint.relate left .lessOrEqual (.ofScalar 30)).withStrength .weak),
    .addEdit ⟨0, none⟩ .strong, .suggest ⟨0, none⟩ 95, .remove 2, .suggest ⟨0, none⟩ 99]

theorem draggedColumns_untroubled : Untroubled ⟨∅, {}⟩ draggedColumns :=
  untroubled_of_errors (by decide +kernel)

theorem tableau_solutions_are_constraint_solutions_dragged :
    Untroubled ⟨∅, {}⟩ draggedColumns ∧
      let s := (Session.run ⟨∅, {}⟩ draggedColumns).solver
      (∀ ρ, Solves s.tableau ρ ↔
        ∀ c tag, Live s c tag → Equation c tag (reading s.tracked ρ) ρ) ∧
        (∀ c tag, Live s c tag → ∃ k, tag = Tag.mint c.relation c.isRequired k) ∧
        ∀ z key row, s.tableau.rows.find? key = some row → z = key ∨ row.holds z = true →
          InUse s z :=
  ⟨draggedColumns_untroubled,
    tableau_solutions_are_constraint_solutions {} _ draggedColumns_untroubled⟩

end Cassowary.FaithfulRuns
