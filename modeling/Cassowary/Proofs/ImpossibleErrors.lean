import Cassowary.Proofs.EditReplacement

/-!
Errors that cannot happen. A row is only ever solved for a symbol that it holds, since every choice of a
symbol reads it off the row it is going to be solved in, and no pivot makes a symbol basic that is so
already. An edit and its equation come and go together: the equation is posted before the edit is entered
in the books, and the edit is struck out before its equation, so that an error in between leaves at most
an equation without an edit. All this holds in whatever state earlier errors have left the solver.
-/

namespace Cassowary.ImpossibleErrors
open Endings MapEntries RowSymbols Separation Bookkeeping Drafting SolverBooks SessionBooks Rollback
open Removals FailedRemovals SoftConstraints EditReplacement Tableau Solver

variable {α : Type} [Scalar α] {P : Symbol → Prop} {t : Tableau α} {row : Row α} {z : Symbol}
  {s : Solver α} {c : Constraint α} {h : Handle} {v : Variable}

/-- An error other than a missing pivot symbol or the missing equation of an edit. -/
def Possible (error : SolverError) : Prop :=
  error ≠ .internal .absentSymbol ∧ error ≠ .internal .missingEdit

/-- The operation meets neither of the two errors. -/
def Coherent {ε σ : Type} (o : Outcome ε σ) : Prop :=
  Ends o (fun _ => True) fun error _ => Possible error

theorem possible_of_external {error : SolverError} (external : error.isInternal = false) :
    Possible error := by
  constructor <;> rintro rfl <;> cases external

theorem possible_of_stuck {error : SolverError} (stuck : Stuck error) : Possible error := by
  obtain rfl | rfl := stuck <;> constructor <;> rintro ⟨⟩

theorem coherent_of_succeeded {ε σ : Type} {o : Outcome ε σ} (fine : o.error? = none) : Coherent o :=
  ends_of_error?_none fine trivial

/-! ## Insertion -/

theorem retireArtificial_coherent (tidy : Tidy P t) : Coherent (t.retireArtificial z) := by
  unfold retireArtificial
  split
  · trivial
  · rename_i row found
    split
    · trivial
    · split
      · exact possible_of_external rfl
      · rename_i entering chosen
        have held := (pivotable?_eq_some chosen).2
        have apart : entering ≠ z := by
          rintro rfl
          rw [not_holds_basic tidy (line_of_find? found) (basic_of_find? found)] at held
          cases held
        refine coherent_of_succeeded ?_
        rw [Outcome.andThen_error?, exchange_succeeds held apart]
        rfl

theorem enterArtificial_coherent (zero : ZeroCounts α) (tidy : Tidy P t)
    (columnar : OverColumns P t row) (fresh : ¬P z) : Coherent (t.enterArtificial z row) := by
  have primal := optimize_fails .artificial zero (open_tidy tidy columnar fresh)
  unfold enterArtificial Coherent
  rw [ends_andThen]
  refine ends_mono primal (fun t₁ tidy₁ => ?_) fun _ _ limit => possible_of_stuck (.inr limit)
  rw [ends_andThen]
  refine ends_mono (retireArtificial_coherent (forget_tidy tidy₁)) (fun t₂ _ => ?_) fun _ _ fine => fine
  split
  · trivial
  · exact possible_of_external rfl

theorem draft_enter_coherent {d : Draft α} {subject : Symbol} (held : d.row.holds subject = true) :
    Coherent (d.enter subject) := by
  have solved := solveFor_ends (ε := Event α) (r := d.row) (s := subject)
  unfold Draft.enter
  dsimp only
  split
  · rename_i error stopped
    have absent := (ends_of_error_some solved stopped).2
    rw [held] at absent
    cases absent
  · trivial

/-- A drafted row holds the symbol it is to be solved for. -/
theorem subject?_held {d : Draft α} {subject : Symbol} (zero : ZeroCounts α)
    (chosen : d.subject? = some subject) : d.row.holds subject = true := by
  unfold Draft.subject? at chosen
  obtain external | ⟨-, own⟩ := Option.or_eq_some_iff.mp chosen
  · exact holds_iff_mem_keys.mpr (List.mem_of_find?_eq_some external)
  · have falls := List.find?_some own
    simp only [Bool.and_eq_true] at falls
    exact holds_of_negative zero falls.2

theorem install_coherent (zero : ZeroCounts α) (units : UnitsCount α) (orderly : Orderly s) :
    Coherent ((s.draft c).install c) := by
  have drafted := draft_orderly (c := c) orderly
  have columnar := draft_over (c := c) orderly.books.tracked orderly.tidy
  unfold Draft.install
  split
  · rename_i subject chosen
    exact draft_enter_coherent (subject?_held zero chosen)
  · split
    · have fresh : ¬Minted (s.draft c).solver.minted ⟨(s.draft c).solver.minted + 1, .slack⟩ :=
        fun minted => Nat.not_succ_le_self _ minted.2
      have phase := enterArtificial_coherent zero drafted.tidy columnar fresh
      unfold Draft.enterArtificial
      dsimp only
      split
      · rename_i fine
        exact coherent_of_succeeded fine
      · rename_i error stopped
        have possible : Possible error := ends_of_error_some phase stopped
        unfold Coherent Ends
        simp only [Outcome.report, stopped]
        exact possible
    · split
      · exact draft_enter_coherent (draft_holds_marker units orderly)
      · exact possible_of_external rfl

theorem settle_coherent (zero : ZeroCounts α) (tidy : Tidy P s.tableau) : Coherent s.settle := by
  unfold settle onTableau Coherent
  rw [ends_embed]
  exact ends_mono (settling_fails zero tidy) (fun _ _ => trivial) fun _ _ stuck =>
    possible_of_stuck stuck

theorem post_coherent (zero : ZeroCounts α) (units : UnitsCount α) (orderly : Orderly s) :
    Coherent (s.post h c) := by
  unfold post Coherent
  split
  · exact possible_of_external rfl
  · dsimp only
    rw [ends_andThen]
    refine ends_mono (ends_and (install_coherent (c := c) zero units orderly)
      (install_handled (c := c) (draft_orderly orderly)
        (draft_over orderly.books.tracked orderly.tidy))) (fun s₁ both => ?_) fun _ _ both => both.1
    rw [ends_andThen]
    exact ends_mono (settle_coherent zero (s := { s₁ with postings := _ }) both.2.1.tidy)
      (fun _ _ => trivial) fun _ _ fine => fine

/-! ## Removal and edits -/

theorem retract_coherent (zero : ZeroCounts α) (orderly : Orderly s) : Coherent (s.retract h) := by
  cases found : s.postings.find? h with
  | none =>
    unfold retract
    rw [found]
    exact possible_of_external rfl
  | some p =>
    refine ends_mono (retract_fails zero orderly found) (fun _ _ => trivial) ?_
    rintro error s' ⟨-, ⟨rfl, -⟩ | ⟨stuck, -⟩⟩
    · constructor <;> rintro ⟨⟩
    · exact possible_of_stuck stuck

/-- The equation of an edit that is begun has just been posted. -/
theorem addEdit_coherent (zero : ZeroCounts α) (units : UnitsCount α) (orderly : Orderly s)
    (store : Store α) (v : Variable) (strength : Strength α) :
    Coherent (s.addEdit store v strength) := by
  unfold addEdit
  split
  · exact possible_of_external rfl
  · dsimp only
    split
    · exact possible_of_external rfl
    · unfold Coherent
      rw [ends_andThen]
      refine ends_mono (ends_and (post_coherent zero units orderly)
        (post_ends orderly (edit_serial s))) ?_ fun _ _ both => both.1
      rintro s₁ ⟨-, -, -, posted⟩
      split
      · rename_i missing
        rw [posted.postings, OrderedMap.find?_insert, if_pos rfl] at missing
        cases missing
      · trivial

/-- The equation of an edit that is ended is still in the solver. -/
theorem removeEdit_coherent (zero : ZeroCounts α) (orderly : Orderly s) (v : Variable) :
    Coherent (s.removeEdit v) := by
  unfold removeEdit
  split
  · exact possible_of_external rfl
  · rename_i edit found
    obtain ⟨target, strength, -, posted⟩ := orderly.books.edits.posted v edit found
    dsimp only
    unfold Coherent
    rw [ends_andThen, ends_mapError]
    refine ends_mono (ends_and (retract_coherent (h := edit.handle) zero (eraseEdit_orderly orderly v))
      (retract_fails zero (eraseEdit_orderly orderly v) posted)) (fun _ _ => trivial) ?_
    rintro error s' ⟨possible, -, abandoned⟩
    have known : error ≠ .unknownConstraint := by
      rintro rfl
      cases abandoned_internal abandoned
    rwa [if_neg known]

theorem setEdit_coherent (zero : ZeroCounts α) (units : UnitsCount α) (orderly : Orderly s)
    (store : Store α) (v : Variable) (strength : Strength α) :
    Coherent (s.setEdit store v strength) := by
  unfold setEdit
  split
  · unfold Coherent
    rw [ends_andThen]
    exact ends_mono (ends_and (ends_of_state (removeEdit_orderly orderly v))
      (removeEdit_coherent zero orderly v))
      (fun s₁ both => addEdit_coherent zero units both.1 store v strength) fun _ _ both => both.2
  · exact addEdit_coherent zero units orderly store v strength

theorem suggest_coherent (orderly : Orderly s) (v : Variable) (target : α) :
    Coherent (s.suggest v target) := by
  unfold suggest
  split
  · exact possible_of_external rfl
  · unfold onTableau Coherent
    rw [ends_embed]
    exact ends_mono (dualOptimize_fails (shiftTarget_tidy _ _ orderly.tidy)) (fun _ _ => trivial)
      fun _ _ stuck => possible_of_stuck stuck

/-! ## Steps and runs -/

theorem addAll_coherent (zero : ZeroCounts α) (units : UnitsCount α)
    (constraints : List (Nat × Constraint α)) (orderly : Orderly s) :
    Coherent (s.addAll constraints) := by
  induction constraints generalizing s with
  | nil => trivial
  | cons posted rest ih =>
    unfold addAll Coherent
    rw [ends_andThen]
    exact ends_mono (ends_and (post_ends orderly (posted_serial _ _)) (post_coherent zero units orderly))
      (fun _ both => ih both.1.1) fun _ _ both => both.2

/-- No command meets either error in an orderly solver. -/
theorem step_coherent (zero : ZeroCounts α) (units : UnitsCount α) {session : Session α}
    (orderly : Orderly session.solver) (command : Command α) : Coherent (session.step command) := by
  cases command with
  | add id c => exact post_coherent zero units orderly
  | addAll constraints => exact addAll_coherent zero units constraints orderly
  | remove id => exact retract_coherent zero orderly
  | addEdit v strength => exact addEdit_coherent zero units orderly _ v strength
  | setEdit v strength => exact setEdit_coherent zero units orderly _ v strength
  | removeEdit v => exact removeEdit_coherent zero orderly v
  | suggest v target => exact suggest_coherent orderly v target
  | update => trivial
  | reset => trivial
  | setValue v x => trivial

theorem errors_possible (zero : ZeroCounts α) (units : UnitsCount α) {session : Session α}
    (orderly : Orderly session.solver) (commands : List (Command α)) :
    ∀ error, some error ∈ session.errors commands → Possible error := by
  induction commands generalizing session with
  | nil => rintro error ⟨⟩
  | cons command rest ih =>
    intro error met
    rcases List.mem_cons.mp met with now | later
    · exact ends_of_error_some (step_coherent zero units orderly command) now.symm
    · exact ih (step_orderly orderly command) error later

/-! ## Edits -/

/-- The equation of an edit is among the constraints, under the tag of the edit, which consists of two
different errors. -/
def Backed (s : Solver α) (v : Variable) (edit : Edit α) : Prop :=
  ∃ target strength other, s.postings.find? edit.handle =
      some ⟨editConstraint v target strength, edit.tag⟩ ∧
    edit.tag.other = some other ∧ edit.tag.marker.isError = true ∧ other.isError = true ∧
    edit.tag.marker ≠ other

/-- What the two errors depend on in an arithmetic: how it reads zero and one, and that strengths above
the required one are required as well. Its operations may return anything elsewhere. -/
structure Grounded (α : Type) [Scalar α] : Prop where
  zero : ZeroCounts α
  units : UnitsCount α
  lowest : (⟨0⟩ : Strength α).isRequired = false
  highest : ∀ x : α, (Strength.required : Strength α).value < x →
    (Strength.required : Strength α).value ≤ x

theorem float_le_of_lt {x y : Float} (less : x < y) : x ≤ y := by
  have less : x.toModel < y.toModel := of_decide_eq_true less
  have below : x.toModel.unpack.compare y.toModel.unpack = some .lt := eq_of_beq less
  have atMost : x.toModel ≤ y.toModel := by
    change (x.toModel.unpack.compare y.toModel.unpack).any (·.isLE) = true
    rw [below]
    rfl
  exact decide_eq_true atMost

theorem float_grounded : Grounded Float where
  zero := float_zeroCounts
  units := float_unitsCount
  lowest := by decide +kernel
  highest _ := float_le_of_lt

/-- Bringing a strength into range does not make it required. -/
theorem clip_unrequired (grounded : Grounded α) {strength : Strength α}
    (soft : strength.isRequired = false) : strength.clip.isRequired = false := by
  by_cases low : strength.value < 0
  · have same : strength.clip = ⟨0⟩ := by simp [Strength.clip, Scalar.clamp, low]
    rw [same]
    exact grounded.lowest
  · by_cases high : (Strength.required : Strength α).value < strength.value
    · simp [Strength.isRequired, grounded.highest _ high] at soft
    · have same : strength.clip = strength := by simp [Strength.clip, Scalar.clamp, low, high]
      rwa [same]

/-- The equation of an edit is not required, so its tag has two errors. -/
theorem edit_backed (grounded : Grounded α) (orderly : Orderly s) {edit : Edit α}
    (found : s.edits.find? v = some edit) : Backed s v edit := by
  obtain ⟨target, strength, soft, posted⟩ := orderly.books.edits.posted v edit found
  obtain ⟨k, tag, -⟩ := orderly.books.postings.tag _ _ posted
  have notRequired : (editConstraint v target strength).isRequired = false :=
    clip_unrequired grounded soft
  have tag : edit.tag = ⟨⟨k + 1, .error⟩, some ⟨k + 2, .error⟩⟩ := by
    dsimp only at tag
    rwa [notRequired] at tag
  refine ⟨target, strength, ⟨k + 2, .error⟩, posted, ?_⟩
  simp [tag, Symbol.isError]

/-- However the arithmetic behaves, and whatever errors a run has met, no command of the run fails for
want of a pivot symbol or of the equation of an edit. Each edit of the solver that it leads to has its
equation among the constraints, under the very tag that the edit keeps, and that tag consists of two
different error symbols. -/
theorem missing_symbols_and_edits_impossible (grounded : Grounded α) (store : Store α)
    (commands : List (Command α)) :
    let s := (Session.run ⟨∅, store⟩ commands).solver
    (∀ error, some error ∈ Session.errors ⟨∅, store⟩ commands →
      error ≠ .internal .absentSymbol ∧ error ≠ .internal .missingEdit) ∧
    ∀ v edit, s.edits.find? v = some edit → Backed s v edit :=
  ⟨errors_possible grounded.zero grounded.units (fresh_orderly 0) commands,
    fun _ _ found => edit_backed grounded (run_orderly store commands) found⟩

theorem missing_symbols_and_edits_impossible_float :
    Grounded Float ∧ ∀ (store : Store Float) (commands : List (Command Float)),
      let s := (Session.run ⟨∅, store⟩ commands).solver
      (∀ error, some error ∈ Session.errors ⟨∅, store⟩ commands →
        error ≠ .internal .absentSymbol ∧ error ≠ .internal .missingEdit) ∧
      ∀ v edit, s.edits.find? v = some edit → Backed s v edit :=
  ⟨float_grounded, missing_symbols_and_edits_impossible float_grounded⟩

end Cassowary.ImpossibleErrors
