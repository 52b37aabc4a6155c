import Cassowary.Proofs.Solutions
import Cassowary.Proofs.SessionBooks

/-!
What the constraints in a solver say. A constraint is an equation between the variables it mentions and
the symbols of its tag, and a comparison once those symbols are known to be non-negative or zero. The
equation behind an edit is read with the last target of the edit, whatever it was posted with. Which
constraints and targets these are after a run is what `Ledgers` is about.
-/

namespace Cassowary.Meaning
open MapEntries RowSymbols Separation Bookkeeping Drafting SolverBooks ExactRows Solutions Tableau Solver
open scoped Exact

/-- A value for every variable. -/
abbrev Assignment := Variable → Rat

/-- The value of an expression under an assignment. -/
def worth (e : Expression Rat) (σ : Assignment) : Rat :=
  (e.terms.map fun term => term.coefficient * σ term.var).sum + e.constant

/-- A constraint holds under an assignment. -/
def Satisfied (c : Constraint Rat) (σ : Assignment) : Prop :=
  match c.relation with
  | .lessOrEqual => worth c.expression σ ≤ 0
  | .equal => worth c.expression σ = 0
  | .greaterOrEqual => 0 ≤ worth c.expression σ

/-- By how much a constraint is violated under an assignment. -/
def violation (c : Constraint Rat) (σ : Assignment) : Rat :=
  match c.relation with
  | .lessOrEqual => max 0 (worth c.expression σ)
  | .equal => |worth c.expression σ|
  | .greaterOrEqual => max 0 (-worth c.expression σ)

/-- The equation by which a constraint defines the symbols of its tag. A tag has a second symbol just
when the constraint may be violated. -/
def Equation (c : Constraint Rat) (tag : Tag) (σ : Assignment) (ρ : Valuation) : Prop :=
  match c.relation, tag.other with
  | .lessOrEqual, none => worth c.expression σ + ρ tag.marker = 0
  | .greaterOrEqual, none => worth c.expression σ - ρ tag.marker = 0
  | .lessOrEqual, some error => worth c.expression σ + ρ tag.marker - ρ error = 0
  | .greaterOrEqual, some error => worth c.expression σ - ρ tag.marker + ρ error = 0
  | .equal, none => worth c.expression σ + ρ tag.marker = 0
  | .equal, some minus => worth c.expression σ = ρ tag.marker - ρ minus

/-- The variables as a valuation of their symbols has them, zero for those that have none. -/
def reading (tracked : OrderedMap Variable Tracked) (ρ : Valuation) : Assignment := fun v =>
  (tracked.find? v).elim 0 fun entry => ρ entry.symbol

/-- The edit that a constraint stands behind. -/
def editOf? (edits : OrderedMap Variable (Edit Rat)) (h : Handle) : Option (Variable × Edit Rat) :=
  edits.toList.find? fun entry => entry.2.handle = h

/-- A constraint as it stands. The equation behind an edit holds its variable at the last target. -/
def current (edits : OrderedMap Variable (Edit Rat)) (h : Handle) (c : Constraint Rat) :
    Constraint Rat :=
  match editOf? edits h with
  | none => c
  | some (v, edit) => { c with expression := .ofVariable v - .ofScalar edit.target }

/-- A constraint that is in the solver, as it stands, with its tag. -/
def Live (s : Solver Rat) (c : Constraint Rat) (tag : Tag) : Prop :=
  ∃ h p, s.postings.find? h = some p ∧ c = current s.edits h p.constraint ∧ tag = p.tag

/-- The solutions of the tableau are the solutions of the constraints' equations, read with the targets
of the given edits. -/
def Represents (edits : OrderedMap Variable (Edit Rat)) (s : Solver Rat) : Prop :=
  ∀ ρ, Solves s.tableau ρ ↔ ∀ h p, s.postings.find? h = some p →
    Equation (current edits h p.constraint) p.tag (reading s.tracked ρ) ρ

variable {s s' : Solver Rat} {c : Constraint Rat} {e : Expression Rat} {h : Handle} {v : Variable}
  {tag : Tag} {σ τ : Assignment} {ρ μ : Valuation} {z : Symbol} {x : Rat}

/-- Over a store this is the value that the solver's own evaluation gives. -/
theorem worth_eq_value (store : Store Rat) : worth e store.value = e.value store := by
  have summed : ∀ (terms : List (Term Rat)) (start : Rat),
      terms.foldl (fun sum t => sum + t.value store) start =
        start + (terms.map fun term => term.coefficient * store.value term.var).sum := by
    intro terms
    induction terms with
    | nil => simp
    | cons term rest ih =>
      intro start
      rw [List.foldl_cons, ih, List.map_cons, List.sum_cons, Term.value]
      ring
  rw [worth, Expression.value, summed, neg_zero, zero_add]

/-- A constraint is satisfied by the values of a store just when its own check says so. -/
theorem isSatisfied_iff (store : Store Rat) :
    c.isSatisfied store = true ↔ Satisfied c store.value := by
  unfold Constraint.isSatisfied Satisfied
  dsimp only
  rw [← worth_eq_value]
  cases c.relation <;> simp [tolerance_eq]

theorem value_eq_reading (s : Solver Rat) : s.value = reading s.tracked s.tableau.value := rfl

/-- Terms that count as zero do not matter. -/
theorem worth_eq_relevant : worth e σ =
    (e.relevantTerms.map fun term => term.coefficient * σ term.var).sum + e.constant := by
  have filtered : ∀ terms : List (Term Rat),
      (terms.map fun term => term.coefficient * σ term.var).sum =
        ((terms.filter fun term => !Scalar.nearZero term.coefficient).map fun term =>
          term.coefficient * σ term.var).sum := by
    intro terms
    induction terms with
    | nil => rfl
    | cons term rest ih =>
      by_cases zero : term.coefficient = 0
      · rw [List.map_cons, List.sum_cons, ih, zero, zero_mul, zero_add,
          List.filter_cons_of_neg (by simp [zero])]
      · rw [List.filter_cons_of_pos (by simpa using zero), List.map_cons, List.map_cons,
          List.sum_cons, List.sum_cons, ih]
  rw [worth, filtered]
  rfl

theorem worth_congr (same : ∀ term ∈ e.relevantTerms, σ term.var = τ term.var) :
    worth e σ = worth e τ := by
  rw [worth_eq_relevant, worth_eq_relevant]
  congr 2
  exact List.map_congr_left fun term member => by rw [same term member]

/-- The cells of the tag turn the expression into an equation with zero. -/
theorem equation_iff : Equation c tag σ ρ ↔
    worth c.expression σ + ((tag.cells c.relation).map fun cell => cell.2 * ρ cell.1).sum = 0 := by
  unfold Equation Tag.cells
  cases c.relation <;> cases tag.other <;> simp <;> constructor <;> intro equal <;> linarith

theorem equation_congr (symbols : ∀ z ∈ tag.symbols, ρ z = μ z)
    (readings : ∀ term ∈ c.expression.relevantTerms, σ term.var = τ term.var) :
    Equation c tag σ ρ ↔ Equation c tag τ μ := by
  have cells : ((tag.cells c.relation).map fun cell : Symbol × Rat => cell.2 * ρ cell.1) =
      (tag.cells c.relation).map fun cell => cell.2 * μ cell.1 :=
    List.map_congr_left fun cell member => by rw [symbols cell.1 (tag_cells_mem member)]
  rw [equation_iff, equation_iff, worth_congr readings, cells]

/-- Whatever the other symbols are, one value of the marker makes the equation true. -/
theorem equation_solvable (apart : tag.other ≠ some tag.marker) :
    ∃ x, Equation c tag σ (Function.update ρ tag.marker x) := by
  unfold Equation
  cases other : tag.other with
  | none =>
    cases c.relation <;> simp only [Function.update_self]
    · exact ⟨-worth c.expression σ, by ring⟩
    · exact ⟨-worth c.expression σ, by ring⟩
    · exact ⟨worth c.expression σ, by ring⟩
  | some z =>
    have others : ∀ x, Function.update ρ tag.marker x z = ρ z := fun x =>
      Function.update_of_ne (by rintro rfl; exact apart other) _ _
    cases c.relation <;> simp only [Function.update_self, others]
    · exact ⟨-worth c.expression σ + ρ z, by ring⟩
    · exact ⟨worth c.expression σ + ρ z, by ring⟩
    · exact ⟨worth c.expression σ + ρ z, by ring⟩

/-- No other value of the marker does. -/
theorem equation_determines_marker {y : Rat} (apart : tag.other ≠ some tag.marker)
    (first : Equation c tag σ (Function.update ρ tag.marker x))
    (second : Equation c tag σ (Function.update ρ tag.marker y)) : x = y := by
  unfold Equation at first second
  cases other : tag.other with
  | none =>
    simp only [other, Function.update_self] at first second
    cases relation : c.relation <;> simp only [relation] at first second <;> linarith
  | some z =>
    have others : ∀ x, Function.update ρ tag.marker x z = ρ z := fun x =>
      Function.update_of_ne (by rintro rfl; exact apart other) _ _
    simp only [other, Function.update_self] at first second
    cases relation : c.relation <;> simp only [relation, others] at first second <;> linarith

/-! ## Constraints as they stand -/

variable {edits edits' : OrderedMap Variable (Edit Rat)} {edit : Edit Rat}
  {postings postings' : OrderedMap Handle (Posting Rat)} {p : Posting Rat}

@[simp] theorem current_relation : (current edits h c).relation = c.relation := by
  unfold current
  split <;> rfl

@[simp] theorem current_strength : (current edits h c).strength = c.strength := by
  unfold current
  split <;> rfl

@[simp] theorem current_isRequired : (current edits h c).isRequired = c.isRequired := by
  rw [Constraint.isRequired, current_strength]
  rfl

theorem editOf?_eq_some (found : editOf? edits h = some (v, edit)) :
    edits.find? v = some edit ∧ edit.handle = h :=
  ⟨mem_toList_iff.mp (List.mem_of_find?_eq_some found), by simpa using List.find?_some found⟩

theorem editOf?_of_find? (well : EditsWell postings edits) (found : edits.find? v = some edit) :
    editOf? edits edit.handle = some (v, edit) := by
  refine find?_toList_of_only found (by simp) fun w other held same => ?_
  exact edit_of_handle well held found (by simpa using same)

theorem current_of_edit (well : EditsWell postings edits) (found : edits.find? v = some edit) :
    current edits edit.handle c =
      { c with expression := .ofVariable v - .ofScalar edit.target } := by
  rw [current, editOf?_of_find? well found]

theorem current_of_unbacked
    (unbacked : ∀ v edit, edits.find? v = some edit → edit.handle ≠ h) : current edits h c = c := by
  unfold current
  split
  · rfl
  · rename_i v edit sought
    obtain ⟨found, same⟩ := editOf?_eq_some sought
    exact absurd same (unbacked v edit found)

/-- Edits matter to a constraint only if it stands behind one of them. -/
theorem current_congr (well : EditsWell postings edits) (well' : EditsWell postings' edits')
    (same : ∀ v edit, edit.handle = h → (edits.find? v = some edit ↔ edits'.find? v = some edit)) :
    current edits h c = current edits' h c := by
  have sought : editOf? edits h = editOf? edits' h := by
    cases here : editOf? edits h with
    | some entry =>
      obtain ⟨found, rfl⟩ := editOf?_eq_some here
      exact (editOf?_of_find? well' ((same _ _ rfl).mp found)).symm
    | none =>
      cases there : editOf? edits' h with
      | none => rfl
      | some entry =>
        obtain ⟨found, rfl⟩ := editOf?_eq_some there
        rw [editOf?_of_find? well ((same _ _ rfl).mpr found)] at here
        cases here
  rw [current, current, sought]

/-- A new target changes no term. -/
theorem current_relevantTerms (well : EditsWell postings edits)
    (found : postings.find? h = some p) :
    (current edits h p.constraint).expression.relevantTerms =
      p.constraint.expression.relevantTerms := by
  unfold current
  split
  · rfl
  · rename_i v edit sought
    obtain ⟨backed, rfl⟩ := editOf?_eq_some sought
    obtain ⟨target, strength, -, posted⟩ := well.posted v edit backed
    cases found.symm.trans posted
    rfl

/-- A constraint in the solver mentions tracked variables only. -/
theorem tracked_of_posting (accounted : Accounted s) (found : s.postings.find? h = some p)
    {term : Term Rat} (member : term ∈ p.constraint.expression.relevantTerms) :
    ∃ entry, s.tracked.find? term.var = some entry := by
  apply tracked_of_demand accounted
  have own : 0 < mentions p.constraint.expression term.var :=
    List.countP_pos_iff.mpr ⟨term, member, by simp⟩
  have less : references s.postings term.var = mentions p.constraint.expression term.var +
      references (s.postings.erase h) term.var := total_erase found
  omega

/-- The equation of a constraint in the solver depends on its own symbols and on those of tracked
variables only. -/
theorem posting_equation_congr (well : EditsWell s.postings edits) (accounted : Accounted s)
    (found : s.postings.find? h = some p) (symbols : ∀ z ∈ p.tag.symbols, ρ z = μ z)
    (readings : ∀ v entry, s.tracked.find? v = some entry →
      v ∈ p.constraint.expression.relevantTerms.map Term.var → ρ entry.symbol = μ entry.symbol) :
    Equation (current edits h p.constraint) p.tag (reading s.tracked ρ) ρ ↔
      Equation (current edits h p.constraint) p.tag (reading s.tracked μ) μ := by
  refine equation_congr symbols fun term member => ?_
  rw [current_relevantTerms well found] at member
  obtain ⟨entry, tracked⟩ := tracked_of_posting accounted found member
  simp only [reading, tracked, Option.elim_some]
  exact readings _ entry tracked (List.mem_map_of_mem member)

end Cassowary.Meaning
