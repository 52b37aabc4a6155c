import Cassowary.Proofs.ArtificialPhase
import Cassowary.Proofs.Meaning
import Cassowary.Proofs.Rollback

/-!
Insertion in exact arithmetic. The row of a draft is zero exactly where the constraint's equation holds,
and posting the constraint adds that equation to the tableau. A constraint is refused only if its
equation fails in every solution that has no negative symbol and violates no required equation.
-/

namespace Cassowary.Insertions
open Endings MapEntries RowSymbols Separation Bookkeeping Drafting SolverBooks ExactRows Solutions
open RatioTests SimplexRuns ArtificialPhase Meaning Rollback Tableau Solver
open scoped Exact

variable {P : Symbol → Prop} {t t' : Tableau Rat} {row solved r : Row Rat} {ρ : Valuation}
  {s s' : Solver Rat} {c : Constraint Rat} {e : Expression Rat} {h : Handle} {y z : Symbol} {x : Rat}

/-! ## Rows of drafts -/

theorem eval_insertVariable (solves : Solves t ρ) :
    eval (t.insertVariable row z x) ρ = eval row ρ + x * ρ z := by
  unfold insertVariable
  split
  · rename_i basic found
    rw [eval_insertRow, solves z basic found]
  · exact eval_insertSymbol

private theorem eval_insertTerms (terms : List (Term Rat)) (state : Solver Rat × Row Rat)
    (solves : Solves state.1.tableau ρ) :
    eval (terms.foldl insertTerm state).2 ρ = eval state.2 ρ +
      (terms.map fun term => term.coefficient *
        reading (terms.foldl insertTerm state).1.tracked ρ term.var).sum := by
  induction terms generalizing state with
  | nil => simp
  | cons term rest ih =>
    have grows := track_grows state.1 term.var
    have step := ih (insertTerm state term) (by
      rw [show (insertTerm state term).1.tableau = state.1.tableau from grows.tableau]
      exact solves)
    have inserted : eval (insertTerm state term).2 ρ =
        eval state.2 ρ + term.coefficient * ρ (state.1.track term.var).2 :=
      eval_insertVariable (grows.tableau ▸ solves)
    -- Whatever the later terms track, the variable keeps the symbol it has now.
    obtain ⟨uses, found⟩ := track_find? state.1 term.var
    obtain ⟨uses', still⟩ :=
      (insertTerms_grows rest (insertTerm state term)).kept term.var _ found
    have symbol : reading ((term :: rest).foldl insertTerm state).1.tracked ρ term.var =
        ρ (state.1.track term.var).2 := by
      rw [List.foldl_cons, reading, still, Option.elim_some]
    rw [List.map_cons, List.sum_cons, symbol, List.foldl_cons, step, inserted]
    ring

/-- On solutions the row of an expression has the value of the expression. -/
theorem eval_rowOf (solves : Solves s.tableau ρ) :
    eval (s.rowOf e).2 ρ = worth e (reading (s.rowOf e).1.tracked ρ) := by
  rw [worth_eq_relevant, add_comm]
  have folded := eval_insertTerms e.relevantTerms (s, .ofConstant e.constant) solves
  rwa [eval_ofConstant] at folded

private theorem insertTerms_pruned (terms : List (Term Rat)) (state : Solver Rat × Row Rat)
    (pruned : Pruned state.2) : Pruned (terms.foldl insertTerm state).2 := by
  induction terms generalizing state with
  | nil => exact pruned
  | cons term rest ih =>
    apply ih (insertTerm state term)
    unfold insertTerm insertVariable
    dsimp only
    split
    · exact pruned_insertRow pruned
    · exact pruned_insertSymbol pruned

theorem rowOf_pruned : Pruned (s.rowOf e).2 := insertTerms_pruned _ _ pruned_ofConstant

theorem draft_row : (s.draft c).row =
    (let row := (s.rowOf c.expression).2.insertCells ((s.draft c).tag.cells c.relation)
     if Scalar.isNegative row.constant then row.reverseSign else row) := rfl

theorem draft_pruned : Pruned (s.draft c).row := by
  rw [draft_row]
  dsimp only
  split
  · exact pruned_reverseSign (pruned_insertCells rowOf_pruned)
  · exact pruned_insertCells rowOf_pruned

theorem rational_unitsCount : UnitsCount Rat := by
  constructor <;> simp

theorem draft_marker (orderly : Orderly s) :
    (s.draft c).row.holds (s.draft c).tag.marker = true :=
  draft_holds_marker rational_unitsCount orderly

theorem draft_nonneg : 0 ≤ (s.draft c).row.constant := by
  rw [draft_row]
  dsimp only
  split
  · rename_i negative
    exact neg_nonneg.mpr (isNegative_iff.mp negative).le
  · rename_i positive
    exact isNegative_eq_false.mp (by simpa using positive)

/-- On solutions the row of a draft is zero where the equation of the constraint holds. -/
theorem draft_equation (solves : Solves s.tableau ρ) : eval (s.draft c).row ρ = 0 ↔
    Equation c (s.draft c).tag (reading (s.draft c).solver.tracked ρ) ρ := by
  have plain : eval ((s.rowOf c.expression).2.insertCells ((s.draft c).tag.cells c.relation)) ρ =
      worth c.expression (reading (s.draft c).solver.tracked ρ) +
        (((s.draft c).tag.cells c.relation).map fun cell => cell.2 * ρ cell.1).sum := by
    rw [eval_insertCells, eval_rowOf solves, draft_tracked]
  rw [equation_iff, ← plain, draft_row]
  dsimp only
  split
  · rw [eval_reverseSign, neg_eq_zero]
  · rfl

theorem draft_rows : (s.draft c).solver.tableau.rows = s.tableau.rows := by
  rw [draft_tableau]
  rfl

theorem draft_sound (sound : Sound (Minted s.minted) s.tableau) :
    Sound (Minted (s.draft c).solver.minted) (s.draft c).solver.tableau :=
  sound_of_rows sound (draft_tidy sound.tidy) draft_rows (by rw [draft_tableau]; rfl)

theorem draft_feasible (feasible : Feasible s.tableau) :
    Feasible (s.draft c).solver.tableau := by
  unfold Feasible
  rwa [draft_rows]

/-- No row holds a symbol of a new tag. -/
theorem draft_unheld (tidy : Tidy (Minted s.minted) s.tableau) (member : z ∈ (s.draft c).tag.symbols)
    {key : Symbol} (found : (s.draft c).solver.tableau.rows.find? key = some r) :
    r.coefficient z = 0 := by
  rw [draft_rows] at found
  apply coefficient_of_not_holds
  by_contra held
  have old := (tidy.line r (line_of_find? found) z (by simpa using held)).1.2
  exact absurd old (Nat.not_le_of_lt (draft_symbol member).2.1)

/-! ## Entering with a subject -/

/-- What makes a symbol fit to be solved for: no restricted row changes, and the symbol itself does not
become negative nor depend on what it may not depend on. -/
structure Fit (t : Tableau Rat) (row : Row Rat) (z : Symbol) : Prop where
  unheld : ∀ s r, t.rows.find? s = some r → s.isRestricted = true → r.coefficient z = 0
  own : z.isRestricted = true → 0 ≤ -row.constant / row.coefficient z ∧
    ∀ y, y.isExternal = true → row.coefficient y = 0
  dummy : z.isDummy = true → row.constant = 0 ∧ ∀ y, y.isDummy = false → row.coefficient y = 0

section Solved
variable (value : ∀ ρ, eval solved ρ = ρ z - eval row ρ / row.coefficient z)
include value

theorem solved_constant : solved.constant = -row.constant / row.coefficient z := by
  rw [constant_eq, value, eval_zero, Pi.zero_apply]
  ring

/-- What the row does not hold, it does not hold once it is solved. -/
theorem solved_coefficient (apart : y ≠ z) (zero : row.coefficient y = 0) :
    solved.coefficient y = 0 := by
  rw [coefficient_eq, value, value, eval_update, zero, Function.update_of_ne (Ne.symm apart)]
  simp

end Solved

/-- Solving a row for a fit symbol brings the row in. -/
theorem enter_entered (sound : Sound P t) (feasible : Feasible t) (columnar : OverColumns P t row)
    (pruned : Pruned row) (present : row.coefficient z ≠ 0) (fit : Fit t row z)
    {ε : Type} (went : (row.solveFor z : Outcome ε (Row Rat)) = .ok solved) :
    Entered P row t (t.enter z solved) := by
  obtain ⟨solved', went', value, pruned'⟩ := solveFor_exact (ε := ε) present
  cases went.symm.trans went'
  have shape := solveFor_ends (ε := ε) (r := row) (s := z)
  rw [went, ends_ok] at shape
  obtain ⟨held, holds⟩ := shape
  have column := (columnar z held).2
  have tidy : Tidy P (t.enter z solved) := by
    refine enter_tidy sound.tidy (columnar z held).1
      (fun y taken => columnar y ((holds y).mp taken).2) ?_
    by_contra taken
    exact ((holds z).mp (by simpa using taken)).1 rfl
  refine ⟨⟨tidy, fun s r found => enter_pruned sound (pruned' pruned) found,
    fun s r found restricted y external => ?_, enter_queued sound⟩, fun s r found restricted => ?_,
    fun ρ => ?_, fun ρ solves zero => ?_, fun settled s r found dummy => ?_⟩
  · obtain ⟨rfl, rfl⟩ | old := enter_fewer sound fit.unheld found restricted
    · exact solved_coefficient value (Symbol.ne_of_isRestricted external restricted)
        ((fit.own restricted).2 y external)
    · exact sound.free s r old restricted y external
  · obtain ⟨rfl, rfl⟩ | old := enter_fewer sound fit.unheld found restricted
    · rw [solved_constant value]
      exact (fit.own restricted).1
    · exact feasible s r old restricted
  · have equation : ρ z = eval solved ρ ↔ eval row ρ = 0 := by
      rw [value, eq_sub_iff_add_eq, add_eq_left, div_eq_zero_iff, or_iff_left present]
    rw [solves_enter column, equation, and_comm]
  · change eval (t.objective.substitute z solved) ρ = _
    rw [eval_substitute, value, zero]
    ring
  · obtain ⟨rfl, rfl⟩ | old :=
      enter_fewer sound fit.unheld found (restricted_of_dummy dummy)
    · obtain ⟨zero, only⟩ := fit.dummy dummy
      refine ⟨by rw [solved_constant value, zero, neg_zero, zero_div], fun y notDummy => ?_⟩
      refine solved_coefficient value ?_ (only y notDummy)
      rintro rfl
      rw [notDummy] at dummy
      cases dummy
    · exact settled s r old dummy

/-- The row is not zero in any admissible solution if the dummy symbols are settled. -/
def Refused (t : Tableau Rat) (row : Row Rat) : Prop :=
  Settled t → ∀ ρ, Admissible t ρ → eval row ρ ≠ 0

/-- A draft was brought into the solver, or refused for good reason. -/
def Installed (s : Solver Rat) (c : Constraint Rat) (o : Outcome (Event Rat) (Solver Rat)) : Prop :=
  Ends o
    (fun s' => Entered (Minted s'.minted) (s.draft c).row (s.draft c).solver.tableau s'.tableau)
    (fun error _ => error.isInternal = false → error = .unsatisfiableConstraint ∧
      Refused (s.draft c).solver.tableau (s.draft c).row)

section Install
variable (sound : Sound (Minted s.minted) s.tableau) (feasible : Feasible s.tableau)
  (tracked : TrackedWell s.minted s.tracked)

include sound feasible tracked in
/-- Solving a draft for a symbol that it holds, and that is fit if it does. -/
theorem draft_enter_entered
    (fit : (s.draft c).row.coefficient z ≠ 0 → Fit (s.draft c).solver.tableau (s.draft c).row z) :
    Installed s c ((s.draft c).enter z) := by
  have shape := solveFor_ends (ε := Event Rat) (r := (s.draft c).row) (s := z)
  unfold Draft.enter
  dsimp only
  split
  · rename_i error stopped
    obtain ⟨rfl, -⟩ := ends_of_error_some shape stopped
    exact of_internal rfl
  · rename_i fine
    have held := (ends_of_error_none shape fine).1
    have present := (holds_iff_coefficient draft_pruned).mp held
    obtain ⟨solved, went, -, -⟩ := solveFor_exact (ε := Event Rat) present
    have entered := enter_entered (draft_sound sound) (draft_feasible feasible)
      (draft_over tracked sound.tidy) draft_pruned present (fit present) went
    rw [went]
    exact entered

/-- A row in which no variable was found has none. -/
theorem coefficient_of_no_external (missing : row.cells.keys.find? Symbol.isExternal = none)
    (external : z.isExternal = true) : row.coefficient z = 0 := by
  apply coefficient_of_not_holds
  by_contra held
  have stays := List.find?_eq_none.mp missing z (holds_iff_mem_keys.mp (by simpa using held))
  exact stays external

/-- The subject of a draft is in its row and no dummy. -/
theorem subject?_eq_some {d : Draft Rat} (chosen : d.subject? = some z) :
    d.row.holds z = true ∧ z.isDummy = false := by
  unfold Draft.subject? at chosen
  rcases Option.or_eq_some_iff.mp chosen with first | ⟨-, own⟩
  · have external := List.find?_some first
    exact ⟨holds_iff_mem_keys.mpr (List.mem_of_find?_eq_some first),
      Symbol.not_dummy_of_external external⟩
  · have suited := List.find?_some own
    rw [Bool.and_eq_true, isNegative_iff] at suited
    exact ⟨holds_of_coefficient suited.2.ne, (Symbol.isPivotable_iff.mp suited.1).2⟩

include sound in
/-- The subject of a draft is fit: it is a variable, or a symbol of the tag that the row needs positive
while it has no variable. -/
theorem subject_fit (chosen : (s.draft c).subject? = some z) :
    Fit (s.draft c).solver.tableau (s.draft c).row z := by
  have noDummy : ¬z.isDummy = true := by simp [(subject?_eq_some chosen).2]
  unfold Draft.subject? at chosen
  cases sought : (s.draft c).row.cells.keys.find? Symbol.isExternal with
  | some subject =>
    rw [sought, Option.some_or] at chosen
    cases chosen
    have external := List.find?_some sought
    exact ⟨fun key r found restricted =>
      (draft_sound sound).free key r found restricted z external,
      fun restricted => absurd restricted (Symbol.not_isRestricted_iff.mpr external),
      fun dummy => absurd dummy noDummy⟩
  | none =>
    rw [sought, Option.none_or] at chosen
    have member := List.mem_of_find?_eq_some chosen
    have suited := List.find?_some chosen
    rw [Bool.and_eq_true, isNegative_iff] at suited
    exact ⟨fun key r found _ => draft_unheld sound.tidy member found,
      fun _ => ⟨div_nonneg_of_nonpos (neg_nonpos.mpr draft_nonneg) suited.2.le,
        fun y external => coefficient_of_no_external sought external⟩,
      fun dummy => absurd dummy noDummy⟩

include sound feasible tracked in
/-- A draft without a variable in its row is ready for the artificial phase. -/
theorem draft_ready (free : ∀ y, y.isExternal = true → (s.draft c).row.coefficient y = 0) :
    Ready (Minted (s.draft c).solver.minted) (s.draft c).solver.tableau
      ⟨(s.draft c).solver.minted + 1, .slack⟩ (s.draft c).row :=
  ⟨draft_sound sound, draft_feasible feasible, draft_over tracked sound.tidy, draft_pruned, free,
    draft_nonneg, fun minted => Nat.not_succ_le_self _ minted.2, rfl⟩

include sound feasible tracked in
/-- A draft without a subject that does not consist of dummy symbols goes through the artificial phase. -/
theorem draft_enterArtificial_entered
    (free : ∀ y, y.isExternal = true → (s.draft c).row.coefficient y = 0)
    (mixed : (s.draft c).row.allDummies = false) :
    Installed s c ((s.draft c).enterArtificial c) := by
  obtain ⟨z, member, notDummy⟩ : ∃ z, z ∈ (s.draft c).row.cells.keys ∧ z.isDummy = false := by
    simpa [Row.allDummies] using mixed
  have present := (holds_iff_coefficient draft_pruned).mp (holds_iff_mem_keys.mpr member)
  have phase := enterArtificial_entered (draft_ready sound feasible tracked free)
  unfold Draft.enterArtificial
  dsimp only
  split
  · rename_i fine
    unfold Installed Ends
    rw [fine]
    obtain ⟨sound', feasible', solves, objective, settled⟩ := ends_of_error_none phase fine
    exact ⟨sound_mono sound' fun z minted => minted_mono minted (Nat.le_succ _), feasible',
      solves, objective, settled⟩
  · rename_i error stopped
    unfold Installed Ends
    simp only [Outcome.report, stopped]
    intro external
    obtain ⟨unsatisfiable, hopeless⟩ := ends_of_error_some phase stopped external
    exact ⟨unsatisfiable, fun settled => hopeless settled ⟨z, notDummy, present⟩⟩

/-- A row of dummy symbols is its constant in every admissible solution. -/
theorem refused_of_dummies (pruned : Pruned row)
    (only : ∀ z, row.coefficient z ≠ 0 → z.isDummy = true) (large : row.constant ≠ 0) :
    Refused t row := by
  intro _ ρ admissible zero
  apply large
  rw [← zero, ← eval_zero]
  refine eval_congr fun z held => ?_
  rw [Pi.zero_apply, admissible.zero z (only z ((holds_iff_coefficient pruned).mp held))]

/-- A draft without a subject has no variable in its row. -/
theorem free_of_no_subject (missing : (s.draft c).subject? = none) (y : Symbol)
    (external : y.isExternal = true) : (s.draft c).row.coefficient y = 0 :=
  coefficient_of_no_external (Option.or_eq_none_iff.mp missing).1 external

include sound feasible tracked in
/-- Installing a draft brings its row in, or refuses it for good reason. -/
theorem install_entered : Installed s c ((s.draft c).install c) := by
  unfold Draft.install
  split
  · rename_i subject chosen
    exact draft_enter_entered sound feasible tracked fun _ => subject_fit sound chosen
  · rename_i missing
    have free := free_of_no_subject missing
    split
    · rename_i mixed
      exact draft_enterArtificial_entered sound feasible tracked free (by simpa using mixed)
    · rename_i notMixed
      have only : ∀ z, (s.draft c).row.coefficient z ≠ 0 → z.isDummy = true := by
        intro z present
        have all : ∀ z ∈ (s.draft c).row.cells.keys, z.isDummy = true := by
          simpa [Row.allDummies] using notMixed
        exact all z (holds_iff_mem_keys.mp (holds_of_coefficient present))
      split
      · rename_i small
        have zero := nearZero_iff.mp small
        refine draft_enter_entered sound feasible tracked fun _ => ⟨fun key r found _ =>
          draft_unheld sound.tidy (by simp [Tag.symbols]) found, fun _ => ⟨?_, free⟩,
          fun _ => ⟨zero, fun y notDummy => ?_⟩⟩
        · rw [zero, neg_zero, zero_div]
        · by_contra present
          rw [only y present] at notDummy
          cases notDummy
      · rename_i large
        exact fun _ => ⟨rfl, refused_of_dummies draft_pruned only (large <| nearZero_iff.mpr ·)⟩

end Install

/-! ## Posting -/

/-- Settling a solver settles its tableau. -/
theorem solver_settle_resettled (sound : Sound P s.tableau) (feasible : Feasible s.tableau) :
    Ends s.settle (fun s' => s'.minted = s.minted ∧ Resettled P s.tableau s'.tableau)
      (fun error _ => error.isInternal = true) := by
  unfold settle onTableau
  rw [ends_embed]
  exact ends_mono (settle_resettled sound feasible) (fun _ done => ⟨rfl, done⟩)
    fun _ _ internal => internal

/-- Posting installs the draft of a constraint and settles. It fails for a handle that is taken and for
a constraint that is refused. -/
theorem post_entered (sound : Sound (Minted s.minted) s.tableau) (feasible : Feasible s.tableau)
    (tracked : TrackedWell s.minted s.tracked) :
    Ends (s.post h c)
      (fun s' => ∃ t, Entered (Minted s'.minted) (s.draft c).row (s.draft c).solver.tableau t ∧
        Resettled (Minted s'.minted) t s'.tableau)
      (fun error _ => error.isInternal = false →
        (error = .duplicateConstraint ∧ s.postings.contains h = true) ∨
        (error = .unsatisfiableConstraint ∧ s.postings.contains h = false ∧
          Refused (s.draft c).solver.tableau (s.draft c).row)) := by
  unfold post
  split
  · rename_i taken
    exact fun _ => .inl ⟨rfl, taken⟩
  · rename_i free
    dsimp only
    rw [ends_andThen]
    refine ends_mono (install_entered (c := c) sound feasible tracked) (fun s₁ entered => ?_)
      fun error _ refused external => .inr ?_
    · rw [ends_andThen]
      have start : Sound (Minted s₁.minted) { s₁ with
          postings := s₁.postings.insert h ⟨c, (s.draft c).tag⟩ }.tableau := entered.sound
      refine ends_mono (solver_settle_resettled start entered.feasible) ?_
        fun _ _ internal => of_internal internal
      rintro s₂ ⟨same, resettled⟩
      rw [ends_report, ends_ok, same]
      exact ⟨s₁.tableau, entered, resettled⟩
    · obtain ⟨unsatisfiable, reason⟩ := refused external
      exact ⟨unsatisfiable, by simpa using free, reason⟩

end Cassowary.Insertions
