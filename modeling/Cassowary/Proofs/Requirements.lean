import Cassowary.Proofs.FaithfulRuns

/-!
When required constraints hold. The values of a faithful solver satisfy every required inequality. A
required equation is satisfied while its dummy symbol is zero, and dummy symbols stay zero in a run that
spares them: one that takes out no required equation through the row of another symbol while the row of
a dummy symbol depends on it.
-/

namespace Cassowary.Requirements
open Endings MapEntries RowSymbols Separation Bookkeeping Drafting SolverBooks SessionBooks ExactRows
open Solutions RatioTests SimplexRuns Evictions ArtificialPhase Insertions Meaning Representations
open Suggestions Fidelity FaithfulRuns Tableau Solver
open scoped Exact

variable {s s' : Solver Rat} {c : Constraint Rat} {h : Handle} {tag : Tag} {z : Symbol} {k : Nat}
  {p : Posting Rat} {t : Tableau Rat}

instance (c : Constraint Rat) (σ : Assignment) : Decidable (Satisfied c σ) := by
  unfold Satisfied
  split <;> infer_instance

/-- The values of a faithful solver satisfy a required constraint unless it is an equation whose dummy
symbol is not zero. -/
theorem satisfied_iff (faithful : Faithful s) (live : Live s c tag) (required : c.isRequired = true) :
    Satisfied c s.value ↔ (c.relation = .equal → s.tableau.value tag.marker = 0) := by
  have equation := (represents_live faithful _).mp (solves_value faithful.sound.tidy) c tag live
  rw [← value_eq_reading] at equation
  obtain ⟨k, rfl⟩ := live_minted faithful.orderly live
  rw [required] at equation ⊢
  unfold Satisfied
  unfold Equation at equation
  cases relation : c.relation <;> simp only [relation, Tag.mint] at equation ⊢
  · have nonneg := value_nonneg faithful.feasible (s := ⟨k + 1, .slack⟩) rfl
    simp only [reduceCtorEq, false_implies, iff_true]
    linarith
  · simp only [forall_const]
    constructor <;> intro zero <;> linarith
  · have nonneg := value_nonneg faithful.feasible (s := ⟨k + 1, .slack⟩) rfl
    simp only [reduceCtorEq, false_implies, iff_true]
    linarith

/-- A basic dummy symbol is that of a required equation in the solver. -/
theorem dummy_in_use (faithful : Faithful s) (basic : Basic s.tableau z) (dummy : z.isDummy = true) :
    ∃ c tag, Live s c tag ∧ c.isRequired = true ∧ c.relation = .equal ∧ z = tag.marker := by
  obtain ⟨row, found⟩ := contains_iff.mp basic
  obtain ⟨v, entry, tracked, rfl⟩ | ⟨c, tag, live, member⟩ := rows_in_use faithful found (.inl rfl)
  · have external := (faithful.orderly.books.tracked.symbol v entry tracked).1
    rw [Symbol.not_external_of_dummy dummy] at external
    cases external
  · obtain ⟨k, rfl⟩ := live_minted faithful.orderly live
    obtain ⟨relation, required, same⟩ := mint_dummy member dummy
    exact ⟨c, _, live, required, relation, same⟩

/-- All required constraints are satisfied just when all dummy symbols are zero. -/
theorem all_satisfied_iff (faithful : Faithful s) :
    (∀ c tag, Live s c tag → c.isRequired = true → Satisfied c s.value) ↔
      ∀ z, z.isDummy = true → s.tableau.value z = 0 := by
  constructor
  · intro satisfied z dummy
    by_cases basic : Basic s.tableau z
    · obtain ⟨c, tag, live, required, relation, rfl⟩ := dummy_in_use faithful basic dummy
      exact (satisfied_iff faithful live required).mp (satisfied c tag live required) relation
    · exact value_of_column basic
  · intro zero c tag live required
    refine (satisfied_iff faithful live required).mpr fun relation => zero _ ?_
    obtain ⟨k, rfl⟩ := live_minted faithful.orderly live
    rw [relation, required]
    rfl

/-! ## Runs that spare the dummy symbols -/

/-- A constraint can go without a dummy symbol leaving zero. -/
def Sparing (t : Tableau Rat) (p : Posting Rat) : Prop :=
  p.constraint.isRequired = true → Spared t p.tag.marker

theorem spared_of_sparing (orderly : Orderly s) (found : s.postings.find? h = some p)
    (sparing : Sparing s.tableau p) : Spared s.tableau p.tag.marker := by
  by_cases required : p.constraint.isRequired = true
  · exact sparing required
  · obtain ⟨k, same, -⟩ := orderly.books.postings.tag h p found
    refine .inl ?_
    by_contra dummy
    rw [same, Bool.not_eq_false] at dummy
    exact required (mint_dummy List.mem_cons_self dummy).2.1

theorem dropSymbol_settled (settled : Settled t) : Settled (t.dropSymbol z) := by
  unfold dropSymbol
  split
  · exact settled_of_fewer settled dropRow_fewer
  · exact dropColumn_settled settled

theorem draft_settled (settled : Settled s.tableau) : Settled (s.draft c).solver.tableau := by
  unfold Settled
  rwa [draft_rows]

theorem withdrawn_settled (faithful : Faithful s) (settled : Settled s.tableau)
    (withdrawn : Withdrawn (s.draft c) c s') : Settled s'.tableau := by
  have tableau := (withdrawn_accounted faithful.orderly faithful.accounted withdrawn).2
  have rows : s'.tableau.rows = s.tableau.rows := by
    rw [tableau]
    exact draft_rows
  unfold Settled
  rwa [rows]

theorem brought_settled (settled : Settled s.tableau) (brought : Brought s h c s') :
    Settled s'.tableau := by
  obtain ⟨t, entered, resettled⟩ := brought.tableau
  exact resettled.settled (entered.settled (draft_settled settled))

theorem taken_settled {t₁ t₂ : Tableau Rat} (settled : Settled s.tableau)
    (spared : Spared s.tableau p.tag.marker) (taken : Taken s p t₁ t₂) : Settled t₂ := by
  have left : Settled t₁ := taken.evicted.settled spared settled
  apply taken.resettled.settled
  cases p.tag.other with
  | none => exact left
  | some z => exact dropSymbol_settled left

/-- Settled dummy symbols are carried along by everything but retractions that do not spare them. -/
theorem settled_carried : Carried (fun t _ => Settled t) (fun _ => True) Sparing where
  fresh := by rintro s row ⟨⟩
  post _ settled _ brought := brought_settled settled brought
  withdraw faithful settled withdrawn := withdrawn_settled faithful settled withdrawn
  retract faithful settled found sparing taken :=
    taken_settled settled (spared_of_sparing faithful.orderly found sparing) taken
  suggest _ settled _ shifted _ := by
    obtain ⟨z, x, t, -, moved, repaired⟩ := shifted
    exact repaired.settled (moved.settled settled)
  edit _ _ _ := trivial
  soft _ _ soft required := by
    rw [soft] at required
    cases required

/-- A constraint that is not a required equation. -/
def NotRequiredEquation (_ : Tableau Rat) (p : Posting Rat) : Prop :=
  ¬(p.constraint.isRequired = true ∧ p.constraint.relation = .equal)

theorem marker_not_dummy (orderly : Orderly s) (found : s.postings.find? h = some p)
    (removable : NotRequiredEquation s.tableau p) : p.tag.marker.isDummy = false := by
  obtain ⟨k, same, -⟩ := orderly.books.postings.tag h p found
  by_contra dummy
  rw [same, Bool.not_eq_false] at dummy
  obtain ⟨relation, required, -⟩ := mint_dummy List.mem_cons_self dummy
  exact removable ⟨required, relation⟩

theorem notRequiredEquation_of_all (all : (s.postings.find? h).all (fun p =>
    !(p.constraint.isRequired && p.constraint.relation = .equal)) = true) (p : Posting Rat)
    (found : s.postings.find? h = some p) : NotRequiredEquation s.tableau p := by
  rw [found, Option.all_some] at all
  rintro ⟨required, equal⟩
  simp [required, equal] at all

/-- The removal of anything but required equations spares the dummy symbols. -/
theorem settled_carried_inequality :
    Carried (fun t _ => Settled t) (fun _ => True) NotRequiredEquation :=
  { settled_carried with
    retract := fun faithful settled found removable taken =>
      settled_carried.retract faithful settled found
        (fun _ => .inl (marker_not_dummy faithful.orderly found removable)) taken
    soft := fun _ _ soft required => by
      rw [soft] at required
      cases required.1 }

/-- After every run without internal errors the values satisfy each required inequality, they satisfy
all required constraints just when no dummy symbol has left zero, and none has if every removal of the
run spared them. -/
theorem required_constraints_hold (store : Store Rat) (commands : List (Command Rat))
    (untroubled : Untroubled ⟨∅, store⟩ commands) :
    let s := (Session.run ⟨∅, store⟩ commands).solver
    (∀ c tag, Live s c tag → c.isRequired = true → c.relation ≠ .equal → Satisfied c s.value) ∧
      ((∀ c tag, Live s c tag → c.isRequired = true → Satisfied c s.value) ↔
        ∀ z, z.isDummy = true → s.tableau.value z = 0) ∧
      (Throughout (Allowed (fun _ => True) Sparing) ⟨∅, store⟩ commands →
        ∀ c tag, Live s c tag → c.isRequired = true → Satisfied c s.value) := by
  have faithful := run_faithful store untroubled
  refine ⟨fun c tag live required inequality => ?_, all_satisfied_iff faithful, fun sparing => ?_⟩
  · exact (satisfied_iff faithful live required).mpr fun equation => absurd equation inequality
  · have settled := (run_carries settled_carried store untroubled sparing).2
    exact (all_satisfied_iff faithful).mpr fun z dummy => value_dummy settled dummy

/-! ## A removal that breaks a requirement -/

/-- Two variables are required to be equal and each to be five, of which one requirement is redundant.
Then one of the two that say five is removed, and the row of a slack symbol makes room for it. -/
def redundantEquations : List (Command Rat) :=
  let x : Expression Rat := .ofVariable ⟨0, none⟩
  let y : Expression Rat := .ofVariable ⟨1, none⟩
  [.add 0 (.relate x .equal y), .add 1 (.relate x .equal (.ofScalar 5)),
    .add 2 (.relate y .equal (.ofScalar 5)), .add 3 (.relate x .greaterOrEqual (.ofScalar 0)),
    .remove 1]

theorem redundantEquations_untroubled : Untroubled ⟨∅, {}⟩ redundantEquations :=
  untroubled_of_errors (by decide +kernel)

theorem required_constraints_hold_redundant :
    Untroubled ⟨∅, {}⟩ redundantEquations ∧
      let s := (Session.run ⟨∅, {}⟩ redundantEquations).solver
      (∀ c tag, Live s c tag → c.isRequired = true → c.relation ≠ .equal → Satisfied c s.value) ∧
        ((∀ c tag, Live s c tag → c.isRequired = true → Satisfied c s.value) ↔
          ∀ z, z.isDummy = true → s.tableau.value z = 0) ∧
        (Throughout (Allowed (fun _ => True) Sparing) ⟨∅, {}⟩ redundantEquations →
          ∀ c tag, Live s c tag → c.isRequired = true → Satisfied c s.value) :=
  ⟨redundantEquations_untroubled, required_constraints_hold {} _ redundantEquations_untroubled⟩

/-- A required constraint that looking it up shows to be violated. -/
theorem violated_of_posting (found : (s.postings.find? h).any (fun p =>
    p.constraint.isRequired && !decide (Satisfied (current s.edits h p.constraint) s.value)) = true) :
    ∃ c tag, Live s c tag ∧ c.isRequired = true ∧ ¬Satisfied c s.value := by
  obtain ⟨p, held, violated⟩ := (Option.any_eq_true _ _).mp found
  simp only [Bool.and_eq_true, Bool.not_eq_true', decide_eq_false_iff_not] at violated
  exact ⟨_, _, ⟨h, p, held, rfl, rfl⟩, current_isRequired.trans violated.1, violated.2⟩

/-- Required constraints do not hold after every run without internal errors. -/
theorem removal_may_break_requirement : ¬∀ (store : Store Rat) (commands : List (Command Rat)),
    Untroubled ⟨∅, store⟩ commands → ∀ c tag,
      Live (Session.run ⟨∅, store⟩ commands).solver c tag → c.isRequired = true →
        Satisfied c (Session.run ⟨∅, store⟩ commands).solver.value := by
  intro all
  obtain ⟨c, tag, live, required, violated⟩ := violated_of_posting
    (s := (Session.run ⟨∅, {}⟩ redundantEquations).solver) (h := .posted 2) (by decide +kernel)
  exact violated (all {} redundantEquations redundantEquations_untroubled c tag live required)

end Cassowary.Requirements
