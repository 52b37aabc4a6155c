import Cassowary.Proofs.Rollback

/-!
Constraints that may be violated. The tag of such a constraint brings in two new symbols with opposite
signs, so that whichever way its row is signed one of them has a negative coefficient, and the row can
be solved for it unless it is solved for a variable. Such a constraint is never refused, and the same
goes for edits, whatever state earlier errors have left the solver in.
-/

namespace Cassowary.SoftConstraints
open Endings MapEntries RowSymbols Separation Bookkeeping Drafting SolverBooks SessionBooks Rollback
open Tableau Solver

variable {α : Type} [Scalar α] {s : Solver α} {c : Constraint α} {h : Handle} {r : Row α}
  {z y : Symbol} {x : α}

/-- One and its negative count and keep their signs, and the range of strengths that are not required
ends below the required strength. -/
structure UnitsCompare (α : Type) [Scalar α] : Prop where
  counts : UnitsCount α
  negative : Scalar.isNegative (0 + -1 : α) = true
  reversed : Scalar.isNegative (-(0 + 1) : α) = true
  lowest : (Strength.clip ⟨(0 : α)⟩).isRequired = false
  highest : (Strength.required : Strength α).isRequired = true

theorem float_unitsCompare : UnitsCompare Float := by
  constructor
  · exact float_unitsCount
  all_goals decide +kernel

/-- Bringing a strength into range a second time does not make it required. -/
theorem clip_clip_soft (units : UnitsCompare α) {strength : Strength α}
    (soft : strength.clip.isRequired = false) : strength.clip.clip.isRequired = false := by
  by_cases low : strength.value < 0
  · have same : strength.clip = ⟨0⟩ := by simp [Strength.clip, Scalar.clamp, low]
    rw [same]
    exact units.lowest
  · by_cases high : (Strength.required : Strength α).value < strength.value
    · have same : strength.clip = .required := by simp [Strength.clip, Scalar.clamp, low, high]
      rw [same, units.highest] at soft
      cases soft
    · have same : strength.clip = strength := by simp [Strength.clip, Scalar.clamp, low, high]
      rwa [same, same] at *

/-! ## Subjects -/

theorem find?_insertSymbol (absent : r.holds z = false) (counts : Scalar.nearZero (0 + x) = false) :
    (r.insertSymbol z x).cells.find? z = some (0 + x) := by
  simp [Row.insertSymbol, coefficient_of_not_holds absent, counts]

theorem find?_insertSymbol_of_ne (apart : z ≠ y) :
    (r.insertSymbol z x).cells.find? y = r.cells.find? y := by
  unfold Row.insertSymbol
  dsimp only
  split <;> simp [apart]

/-- Merging two units of opposite sign into a row that holds neither symbol. -/
theorem find?_insertUnits {w : α} (absent : r.holds z = false) (absent' : r.holds y = false)
    (apart : z ≠ y) (counts : Scalar.nearZero (0 + x) = false)
    (counts' : Scalar.nearZero (0 + w) = false) :
    (r.insertCells [(z, x), (y, w)]).cells.find? z = some (0 + x) ∧
      (r.insertCells [(z, x), (y, w)]).cells.find? y = some (0 + w) := by
  have kept : (r.insertSymbol z x).holds y = false := by
    rwa [holds_insertSymbol_of_ne (Ne.symm apart)]
  simp only [Row.insertCells, List.foldl_cons, List.foldl_nil]
  rw [find?_insertSymbol_of_ne (Ne.symm apart), find?_insertSymbol kept counts']
  exact ⟨find?_insertSymbol absent counts, rfl⟩

/-- The tag of a constraint that is not required has two pivotable symbols. -/
theorem mint_soft (relation : Relation) (k : Nat) : ∃ marker error : Symbol,
    Tag.mint relation false k = ⟨marker, some error⟩ ∧ marker ≠ error ∧
      marker.isPivotable = true ∧ error.isPivotable = true := by
  cases relation <;> exact ⟨_, _, rfl, by simp, rfl, rfl⟩

/-- One of the symbols comes into the row with one and one with its negative. -/
theorem opposite_cells (units : UnitsCompare α) (relation : Relation) {marker error : Symbol}
    (apart : marker ≠ error) (absent : r.holds marker = false) (absent' : r.holds error = false) :
    let row := r.insertCells (Tag.cells relation ⟨marker, some error⟩)
    ∃ up ∈ [marker, error], ∃ down ∈ [marker, error],
      row.cells.find? up = some (0 + 1) ∧ row.cells.find? down = some (0 + -1) := by
  have rising := find?_insertUnits absent absent' apart units.counts.one units.counts.negative
  have falling := find?_insertUnits absent absent' apart units.counts.negative units.counts.one
  cases relation with
  | lessOrEqual => exact ⟨marker, by simp, error, by simp, rising⟩
  | equal => exact ⟨error, by simp, marker, by simp, falling.2, falling.1⟩
  | greaterOrEqual => exact ⟨error, by simp, marker, by simp, falling.2, falling.1⟩

/-- The row of a constraint that is not required offers a symbol of its tag to be solved for. -/
theorem draft_offers (units : UnitsCompare α) (orderly : Orderly s) (soft : c.isRequired = false) :
    ∃ z ∈ (s.draft c).tag.symbols,
      z.isPivotable = true ∧ Scalar.isNegative ((s.draft c).row.coefficient z) = true := by
  obtain ⟨marker, error, minted, apart, pivotable, pivotable'⟩ :=
    mint_soft c.relation (s.rowOf c.expression).1.minted
  have tag : (s.draft c).tag = ⟨marker, some error⟩ := by rw [draft_tag, soft, minted]
  have absent : ∀ z ∈ (s.draft c).tag.symbols, (s.rowOf c.expression).2.holds z = false :=
    fun z member => rowOf_unheld orderly.books.tracked orderly.tidy member
  have fits : ∀ z ∈ [marker, error], z ∈ (s.draft c).tag.symbols ∧ z.isPivotable = true := by
    intro z member
    rw [tag]
    simp only [List.mem_cons, List.not_mem_nil, or_false] at member
    rcases member with rfl | rfl
    · exact ⟨by simp [Tag.symbols], pivotable⟩
    · exact ⟨by simp [Tag.symbols], pivotable'⟩
  obtain ⟨up, rises, down, falls, one, negative⟩ := opposite_cells units c.relation apart
    (absent marker (fits marker (by simp)).1) (absent error (fits error (by simp)).1)
  have row : (s.draft c).row =
      (let row := (s.rowOf c.expression).2.insertCells (Tag.cells c.relation ⟨marker, some error⟩)
       if Scalar.isNegative row.constant then row.reverseSign else row) := by rw [← tag]; rfl
  rw [row]
  dsimp only
  split
  · refine ⟨up, (fits up rises).1, (fits up rises).2, ?_⟩
    simp [Row.coefficient, Row.reverseSign, OrderedMap.findD, one, units.reversed]
  · refine ⟨down, (fits down falls).1, (fits down falls).2, ?_⟩
    simp [Row.coefficient, OrderedMap.findD, negative, units.negative]

/-- The row is solved for a variable or for one of the two symbols, without an artificial one. -/
theorem soft_enters (units : UnitsCompare α) (orderly : Orderly s) (soft : c.isRequired = false) :
    ∃ subject, (s.draft c).subject? = some subject ∧
      (s.draft c).install c = (s.draft c).enter subject := by
  obtain ⟨z, own, pivotable, negative⟩ := draft_offers units orderly soft
  have offered : ∃ y, (s.draft c).tag.symbols.find? (fun s' => s'.isPivotable &&
      Scalar.isNegative ((s.draft c).row.coefficient s')) = some y :=
    Option.isSome_iff_exists.mp (List.find?_isSome.mpr ⟨z, own, by simp [pivotable, negative]⟩)
  have chosen : ∃ subject, (s.draft c).subject? = some subject := by
    obtain ⟨y, offered⟩ := offered
    unfold Draft.subject?
    cases external : (s.draft c).row.cells.keys.find? Symbol.isExternal with
    | some subject => exact ⟨subject, rfl⟩
    | none => exact ⟨y, offered⟩
  obtain ⟨subject, chosen⟩ := chosen
  refine ⟨subject, chosen, ?_⟩
  unfold Draft.install
  rw [chosen]

/-! ## Errors -/

/-- The operation does not fail for lack of a solution. -/
def NotRefused (o : Outcome (Event α) (Solver α)) : Prop :=
  Ends o (fun _ => True) (fun error _ => error ≠ .unsatisfiableConstraint)

omit [Scalar α] in
theorem error_of_notRefused {o : Outcome (Event α) (Solver α)} (fine : NotRefused o) :
    o.error? ≠ some .unsatisfiableConstraint := fun refused =>
  ends_of_error_some fine refused rfl

theorem external_of_internal {error : SolverError} (internal : error.isInternal = true) :
    error ≠ .unsatisfiableConstraint := by
  rintro rfl
  cases internal

theorem settle_notRefused (s : Solver α) : NotRefused s.settle :=
  ends_mono settle_ends (fun _ _ => trivial) fun _ _ stopped => external_of_internal stopped.1

theorem post_notRefused (units : UnitsCompare α) (orderly : Orderly s)
    (soft : c.isRequired = false) : NotRefused (s.post h c) := by
  obtain ⟨subject, -, entered⟩ := soft_enters units orderly soft
  have ending := draft_enter_ends (draft_tidy (c := c) orderly.tidy)
    (draft_over orderly.books.tracked orderly.tidy) subject
  unfold post NotRefused
  split
  · simp
  · dsimp only
    rw [ends_andThen, entered]
    refine ends_mono ending (fun s₁ _ => ?_) fun _ _ stopped => external_of_internal stopped.1
    rw [ends_andThen]
    exact ends_mono (settle_notRefused _) (fun _ _ => trivial) fun _ _ fine => fine

theorem retract_notRefused (s : Solver α) (h : Handle) : NotRefused (s.retract h) := by
  unfold retract NotRefused
  split
  · simp
  · dsimp only
    rw [ends_andThen, onTableau, ends_embed]
    refine ends_mono (PivotRuns.evict_error_internal _ _) (fun t₁ _ => ?_)
      fun _ _ internal => external_of_internal internal
    rw [ends_andThen]
    exact ends_mono (settle_notRefused _) (fun _ _ => trivial) fun _ _ fine => fine

theorem addEdit_notRefused (units : UnitsCompare α) (orderly : Orderly s) (store : Store α)
    (v : Variable) (strength : Strength α) : NotRefused (s.addEdit store v strength) := by
  unfold addEdit NotRefused
  split
  · simp
  · dsimp only
    split
    · simp
    · rename_i notRequired
      have soft : (editConstraint v (store.value v) strength.clip).isRequired = false :=
        clip_clip_soft units (by simpa using notRequired)
      rw [ends_andThen]
      refine ends_mono (post_notRefused units orderly soft) (fun s₁ _ => ?_) fun _ _ fine => fine
      split
      · simp
      · trivial

theorem removeEdit_notRefused (s : Solver α) (v : Variable) : NotRefused (s.removeEdit v) := by
  unfold removeEdit NotRefused
  split
  · simp
  · dsimp only
    rw [ends_andThen, ends_mapError]
    refine ends_mono (retract_notRefused _ _) (fun _ _ => trivial) fun error _ fine => ?_
    split
    · simp
    · exact fine

theorem setEdit_notRefused (units : UnitsCompare α) (orderly : Orderly s) (store : Store α)
    (v : Variable) (strength : Strength α) : NotRefused (s.setEdit store v strength) := by
  unfold setEdit
  split
  · unfold NotRefused
    rw [ends_andThen]
    refine ends_mono (ends_and (ends_of_state (removeEdit_orderly orderly v))
      (removeEdit_notRefused s v)) ?_ fun _ _ both => both.2
    exact fun s₁ both => addEdit_notRefused units both.1 store v strength
  · exact addEdit_notRefused units orderly store v strength

theorem suggest_notRefused (s : Solver α) (v : Variable) (target : α) :
    NotRefused (s.suggest v target) := by
  unfold suggest NotRefused
  split
  · simp
  · rw [onTableau, ends_embed]
    exact ends_mono (PivotRuns.dualOptimize_settles _) (fun _ _ => trivial)
      fun _ _ internal => external_of_internal internal

/-- In every state that calls on doubles lead to, errors and all, a constraint whose strength in range is
not required enters the tableau solved for a symbol of its own row, without an artificial one. Neither
it nor any operation on an edit is refused as unsatisfiable. -/
theorem soft_constraints_are_never_refused (store : Store Float) (commands : List (Command Float))
    (e : Expression Float) (relation : Relation) (strength : Strength Float)
    (soft : strength.clip.isRequired = false) (id : Nat) (v : Variable) (weight : Strength Float)
    (target : Float) :
    let session := Session.run ⟨∅, store⟩ commands
    let c := Constraint.make e relation strength
    let d := session.solver.draft c
    (∃ subject, d.subject? = some subject ∧ d.install c = d.enter subject) ∧
      ∀ command ∈ [.add id c, .addEdit v weight, .setEdit v weight, .suggest v target, .removeEdit v],
        (session.step command).error? ≠ some .unsatisfiableConstraint := by
  intro session c d
  have orderly : Orderly session.solver := run_orderly store commands
  have notRequired : c.isRequired = false := soft
  refine ⟨soft_enters float_unitsCompare orderly notRequired, ?_⟩
  simp only [List.forall_mem_cons]
  refine ⟨?_, ?_, ?_, ?_, ?_, by simp⟩
  · exact error_of_notRefused (post_notRefused float_unitsCompare orderly notRequired)
  · exact error_of_notRefused (addEdit_notRefused float_unitsCompare orderly session.store v weight)
  · exact error_of_notRefused (setEdit_notRefused float_unitsCompare orderly session.store v weight)
  · exact error_of_notRefused (suggest_notRefused session.solver v target)
  · exact error_of_notRefused (removeEdit_notRefused session.solver v)

/-- The removal fails with an internal error and leaves a row behind, for which the next floor is refused
as unsatisfiable. -/
def troubled : List (Command Float) :=
  [.add 0 (.make ⟨[⟨⟨0, none⟩, 1e9⟩], 0⟩ .greaterOrEqual .required), .remove 0,
    .add 1 (.relate (.ofVariable ⟨0, none⟩) .greaterOrEqual (.ofScalar 3))]

theorem soft_constraints_are_never_refused_troubled :
    (Strength.weak : Strength Float).clip.isRequired = false ∧
      let session := Session.run ⟨∅, {}⟩ troubled
      let c := Constraint.make (.ofVariable ⟨0, none⟩ - .ofScalar 1) .equal .weak
      let d := session.solver.draft c
      (∃ subject, d.subject? = some subject ∧ d.install c = d.enter subject) ∧
        ∀ command ∈ [.add 3 c, .addEdit ⟨0, none⟩ .strong, .setEdit ⟨0, none⟩ .strong,
            .suggest ⟨0, none⟩ 7, .removeEdit ⟨0, none⟩],
          (session.step command).error? ≠ some .unsatisfiableConstraint :=
  ⟨by decide +kernel, soft_constraints_are_never_refused {} troubled _ .equal .weak
    (by decide +kernel) 3 ⟨0, none⟩ .strong 7⟩

end Cassowary.SoftConstraints
