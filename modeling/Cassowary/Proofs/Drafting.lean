import Cassowary.Proofs.Bookkeeping

/-!
Drafting and withdrawing constraints. A draft enters its variables and its tag in the books, brings
only new symbols besides the tableau's columns into its row, and charges only its own errors;
withdrawing it gives everything back but the numbers that were used up. Nothing here depends on the
arithmetic.
-/

namespace Cassowary.Drafting
open Endings MapEntries RowSymbols Separation Bookkeeping Tableau Solver

variable {α : Type} [Scalar α]

/-- The tags of the constraints were minted for them, and no symbol serves two constraints. The
handles that the solver makes for edits are numbered by the symbols given out. -/
structure PostingsWell (minted : Nat) (postings : OrderedMap Handle (Posting α)) : Prop where
  tag : ∀ h p, postings.find? h = some p → ∃ k,
    p.tag = Tag.mint p.constraint.relation p.constraint.isRequired k ∧
      k + p.tag.symbols.length ≤ minted
  distinct : ∀ h h' p p' z, postings.find? h = some p → postings.find? h' = some p' →
    z ∈ p.tag.symbols → z ∈ p'.tag.symbols → h = h'
  serial : ∀ k p, postings.find? (.edit k) = some p → k < minted

/-- Each edit is backed by the equation that holds its variable at some target, and that equation is
not required. -/
structure EditsWell (postings : OrderedMap Handle (Posting α))
    (edits : OrderedMap Variable (Edit α)) : Prop where
  handle : ∀ v edit, edits.find? v = some edit → ∃ k, edit.handle = .edit k
  posted : ∀ v edit, edits.find? v = some edit → ∃ target strength, strength.isRequired = false ∧
    postings.find? edit.handle = some ⟨editConstraint v target strength, edit.tag⟩

/-- The books of a solver agree with each other. -/
structure Books (s : Solver α) : Prop where
  tracked : TrackedWell s.minted s.tracked
  postings : PostingsWell s.minted s.postings
  edits : EditsWell s.postings s.edits

/-- How many terms of the constraints in the solver refer to a variable. -/
def references (postings : OrderedMap Handle (Posting α)) (v : Variable) : Nat :=
  total (fun _ posting => mentions posting.constraint.expression v) postings

variable {s : Solver α} {c : Constraint α} {e : Expression α} {h h' : Handle} {v w : Variable}
  {z : Symbol} {demand : Variable → Nat}

/-- The symbols of a new tag are internal and newer than any given out. -/
theorem mint_symbols {relation : Relation} {required : Bool} {minted : Nat}
    (member : z ∈ (Tag.mint relation required minted).symbols) :
    z.isExternal = false ∧ minted < z.id ∧
      z.id ≤ minted + (Tag.mint relation required minted).symbols.length := by
  cases relation <;> cases required <;>
    simp only [Tag.mint, Tag.symbols, Option.toList, List.mem_cons, List.not_mem_nil, or_false,
      List.length_cons, List.length_nil] at member ⊢ <;>
    rcases member with rfl | rfl <;> simp [Symbol.isExternal]

/-- Only a required equation has a dummy symbol. -/
theorem mint_dummy {relation : Relation} {required : Bool} {minted : Nat}
    (member : z ∈ (Tag.mint relation required minted).symbols) (dummy : z.isDummy = true) :
    relation = .equal ∧ required = true ∧ z = (Tag.mint relation required minted).marker := by
  cases relation <;> cases required <;>
    simp only [Tag.mint, Tag.symbols, Option.toList, List.mem_cons, List.not_mem_nil,
      or_false] at member ⊢ <;>
    rcases member with rfl | rfl <;> simp_all [Symbol.isDummy]

theorem mint_length_pos {relation : Relation} {required : Bool} {minted : Nat} :
    0 < (Tag.mint relation required minted).symbols.length := by
  simp [Tag.symbols]

theorem tag_symbol {minted : Nat} {postings : OrderedMap Handle (Posting α)} {p : Posting α}
    (well : PostingsWell minted postings) (found : postings.find? h = some p)
    (member : z ∈ p.tag.symbols) : z.isExternal = false ∧ Minted minted z := by
  obtain ⟨k, same, bound⟩ := well.tag h p found
  rw [same] at member
  obtain ⟨internal, newer, older⟩ := mint_symbols member
  rw [← same] at older
  exact ⟨internal, Nat.lt_of_le_of_lt (Nat.zero_le k) newer, Nat.le_trans older bound⟩

/-- Different edits are backed by different constraints. -/
theorem edit_of_handle {postings : OrderedMap Handle (Posting α)}
    {edits : OrderedMap Variable (Edit α)} {edit edit' : Edit α} (well : EditsWell postings edits)
    (found : edits.find? v = some edit) (found' : edits.find? w = some edit')
    (same : edit.handle = edit'.handle) : v = w := by
  obtain ⟨target, strength, -, posted⟩ := well.posted v edit found
  obtain ⟨target', strength', -, posted'⟩ := well.posted w edit' found'
  rw [same, posted'] at posted
  have terms := congrArg (fun p : Option (Posting α) =>
    p.map fun p => p.constraint.expression.terms.map Term.var) posted
  have heads : [w] = [v] := Option.some.inj terms
  exact (List.cons.inj heads).1.symm

/-! ## Rows of expressions -/

theorem insertVariable_over {P : Symbol → Prop} {t : Tableau α} {row : Row α} {x : α}
    (tidy : Tidy P t) (columnar : OverColumns P t row) (admitted : P z) :
    OverColumns P t (t.insertVariable row z x) := by
  intro y held
  unfold insertVariable at held
  split at held
  · rename_i basic found
    exact (holds_insertRow held).elim (columnar y) (tidy.line basic (line_of_find? found) y)
  · rename_i column
    rcases holds_insertSymbol held with rfl | before
    · refine ⟨admitted, fun basic => ?_⟩
      rw [Basic, not_contains_iff.mpr column] at basic
      cases basic
    · exact columnar y before

theorem insertTerms_grows (terms : List (Term α)) (state : Solver α × Row α) :
    Grows state.1 (terms.foldl insertTerm state).1 := by
  induction terms generalizing state with
  | nil => exact grows_refl _
  | cons term rest ih => exact grows_trans (track_grows state.1 term.var) (ih (insertTerm state term))

theorem rowOf_grows (s : Solver α) (e : Expression α) : Grows s (s.rowOf e).1 :=
  insertTerms_grows e.relevantTerms (s, .ofConstant e.constant)

private theorem foldl_insertTerm_well (terms : List (Term α)) (state : Solver α × Row α)
    (well : TrackedWell state.1.minted state.1.tracked) :
    TrackedWell (terms.foldl insertTerm state).1.minted (terms.foldl insertTerm state).1.tracked := by
  induction terms generalizing state with
  | nil => exact well
  | cons term rest ih => exact ih _ (track_well well)

theorem rowOf_well (well : TrackedWell s.minted s.tracked) :
    TrackedWell (s.rowOf e).1.minted (s.rowOf e).1.tracked :=
  foldl_insertTerm_well e.relevantTerms (s, _) well

private theorem foldl_insertTerm_counted (terms : List (Term α)) (state : Solver α × Row α)
    (counted : Counted state.1.tracked demand) :
    Counted (terms.foldl insertTerm state).1.tracked
      fun v => demand v + terms.countP fun term => term.var = v := by
  induction terms generalizing state demand with
  | nil => simpa using counted
  | cons term rest ih =>
    have later := ih (insertTerm state term) (track_counted (v := term.var) counted)
    intro v
    simpa [List.countP_cons, add_assoc, add_comm, add_left_comm] using later v

theorem rowOf_counted (counted : Counted s.tracked demand) :
    Counted (s.rowOf e).1.tracked fun v => demand v + mentions e v :=
  foldl_insertTerm_counted e.relevantTerms (s, _) counted

private theorem foldl_insertTerm_over {P : Symbol → Prop} (terms : List (Term α))
    (state : Solver α × Row α) (tidy : Tidy P state.1.tableau)
    (columnar : OverColumns P state.1.tableau state.2)
    (admitted : ∀ v entry, (terms.foldl insertTerm state).1.tracked.find? v = some entry →
      P entry.symbol) :
    OverColumns P state.1.tableau (terms.foldl insertTerm state).2 := by
  induction terms generalizing state with
  | nil => exact columnar
  | cons term rest ih =>
    have same : (insertTerm state term).1.tableau = state.1.tableau :=
      (track_grows state.1 term.var).tableau
    have own : P (state.1.track term.var).2 := by
      obtain ⟨uses, found⟩ := track_find? state.1 term.var
      obtain ⟨uses', later⟩ := (insertTerms_grows rest (insertTerm state term)).kept _ _ found
      exact admitted _ _ later
    have tidy' : Tidy P (insertTerm state term).1.tableau := same ▸ tidy
    have columnar' : OverColumns P (insertTerm state term).1.tableau (insertTerm state term).2 :=
      insertVariable_over tidy' (same ▸ columnar) own
    rw [← same]
    exact ih _ tidy' columnar' admitted

/-- The row of an expression is over the columns of the tableau and the variables' symbols. -/
theorem rowOf_over_of {P : Symbol → Prop} (tidy : Tidy P s.tableau)
    (admitted : ∀ v entry, (s.rowOf e).1.tracked.find? v = some entry → P entry.symbol) :
    OverColumns P s.tableau (s.rowOf e).2 :=
  foldl_insertTerm_over e.relevantTerms (s, _) tidy (fun _ held => by cases held) admitted

theorem rowOf_over (well : TrackedWell s.minted s.tracked)
    (tidy : Tidy (Minted s.minted) s.tableau) :
    OverColumns (Minted (s.rowOf e).1.minted) s.tableau (s.rowOf e).2 :=
  rowOf_over_of (tidy_mono tidy fun _ minted => minted_mono minted (rowOf_grows s e).minted)
    fun v entry found => ((rowOf_well well).symbol v entry found).2

/-! ## Drafts -/

theorem tag_cells_mem {relation : Relation} {tag : Tag} {cell : Symbol × α}
    (member : cell ∈ tag.cells relation) : cell.1 ∈ tag.symbols := by
  obtain ⟨marker, other⟩ := tag
  cases relation <;> cases other <;> simp [Tag.cells, Tag.symbols] at member ⊢ <;> grind

theorem draft_tag : (s.draft c).tag = Tag.mint c.relation c.isRequired (s.rowOf c.expression).1.minted :=
  rfl

theorem draft_minted : (s.draft c).solver.minted =
    (s.rowOf c.expression).1.minted + (s.draft c).tag.symbols.length := rfl

theorem draft_tracked : (s.draft c).solver.tracked = (s.rowOf c.expression).1.tracked := rfl

theorem draft_postings : (s.draft c).solver.postings = s.postings :=
  (rowOf_grows s c.expression).postings

theorem draft_edits : (s.draft c).solver.edits = s.edits := (rowOf_grows s c.expression).edits

/-- The tableau of a draft is the old one with the errors charged. -/
theorem draft_tableau : (s.draft c).solver.tableau =
    s.tableau.charge (s.draft c).tag c.strength.value :=
  congrArg (Tableau.charge · (s.draft c).tag c.strength.value) (rowOf_grows s c.expression).tableau

theorem draft_minted_le : s.minted < (s.draft c).solver.minted := by
  have grown := (rowOf_grows s c.expression).minted
  have tag : 0 < (s.draft c).tag.symbols.length := mint_length_pos
  rw [draft_minted]
  omega

/-- The symbols of a draft's tag are internal and none was given out before. -/
theorem draft_symbol (member : z ∈ (s.draft c).tag.symbols) :
    z.isExternal = false ∧ s.minted < z.id ∧ Minted (s.draft c).solver.minted z := by
  have grown := (rowOf_grows s c.expression).minted
  obtain ⟨internal, newer, older⟩ := mint_symbols member
  rw [draft_minted]
  exact ⟨internal, by omega, Nat.lt_of_le_of_lt (Nat.zero_le _) newer, older⟩

theorem draft_well (well : TrackedWell s.minted s.tracked) :
    TrackedWell (s.draft c).solver.minted (s.draft c).solver.tracked :=
  tracked_well_mono (rowOf_well well) (Nat.le_add_right ..)

theorem draft_counted (counted : Counted s.tracked demand) :
    Counted (s.draft c).solver.tracked fun v => demand v + mentions c.expression v :=
  rowOf_counted counted

/-- A draft can be posted. -/
theorem draft_posted (books : Books s)
    (serial : ∀ k, h = .edit k → k ≤ s.minted) :
    PostingsWell (s.draft c).solver.minted (s.postings.insert h ⟨c, (s.draft c).tag⟩) := by
  have more : s.minted < (s.draft c).solver.minted := draft_minted_le
  refine ⟨fun g p found => ?_, fun g g' p p' z found found' member member' => ?_,
    fun k p found => ?_⟩
  · rw [OrderedMap.find?_insert] at found
    split at found
    · cases found
      exact ⟨_, draft_tag, Nat.le_of_eq draft_minted.symm⟩
    · obtain ⟨k, same, bound⟩ := books.postings.tag g p found
      exact ⟨k, same, by omega⟩
  · rw [OrderedMap.find?_insert] at found found'
    split at found <;> split at found'
    · exact Eq.trans (Eq.symm ‹_›) ‹_›
    · cases found
      have old := (tag_symbol books.postings found' member').2.2
      exact absurd old (Nat.not_le_of_lt (draft_symbol member).2.1)
    · cases found'
      have old := (tag_symbol books.postings found member).2.2
      exact absurd old (Nat.not_le_of_lt (draft_symbol member').2.1)
    · exact books.postings.distinct g g' p p' z found found' member member'
  · rw [OrderedMap.find?_insert] at found
    split at found
    · exact Nat.lt_of_le_of_lt (serial k ‹_›) more
    · exact Nat.lt_trans (books.postings.serial k p found) more

theorem charge_holds {t : Tableau α} {tag : Tag} {weight : α}
    (held : (t.charge tag weight).objective.holds z = true) :
    z ∈ tag.symbols ∨ t.objective.holds z = true := by
  refine (holds_insertCells held).imp_left fun ⟨cell, member, same⟩ => ?_
  obtain ⟨error, mine, rfl⟩ := List.mem_map.mp member
  exact same ▸ (List.mem_filter.mp mine).1

/-- A draft keeps the tableau tidy over every set that its tag belongs to. -/
theorem draft_tidy_of {P : Symbol → Prop} (tidy : Tidy P s.tableau)
    (own : ∀ z ∈ (s.draft c).tag.symbols, P z ∧ ¬Basic s.tableau z) :
    Tidy P (s.draft c).solver.tableau := by
  rw [draft_tableau]
  refine tidy_of_rows tidy rfl fun r line => ?_
  rcases line with row | rfl | artificial
  · exact .inl (.inl row)
  · refine .inr fun z held => ?_
    rcases charge_holds held with new | old
    · exact own z new
    · exact tidy.line _ line_objective z old
  · exact .inl (.inr (.inr artificial))

/-- The symbols of a draft's tag are not basic. -/
theorem draft_symbol_column (tidy : Tidy (Minted s.minted) s.tableau)
    (member : z ∈ (s.draft c).tag.symbols) : ¬Basic s.tableau z := fun basic =>
  absurd (tidy.basic z basic).2 (Nat.not_le_of_lt (draft_symbol member).2.1)

theorem draft_tidy (tidy : Tidy (Minted s.minted) s.tableau) :
    Tidy (Minted (s.draft c).solver.minted) (s.draft c).solver.tableau :=
  draft_tidy_of
    (tidy_mono tidy fun _ minted => minted_mono minted (Nat.le_of_lt draft_minted_le))
    fun _ member => ⟨(draft_symbol member).2.2, draft_symbol_column tidy member⟩

/-- The row of an expression does not hold the symbols that are only given out after it. -/
theorem rowOf_unheld (well : TrackedWell s.minted s.tracked)
    (tidy : Tidy (Minted s.minted) s.tableau) (member : z ∈ (s.draft c).tag.symbols) :
    (s.rowOf c.expression).2.holds z = false := by
  by_contra held
  have old := (rowOf_over well tidy z (by simpa using held)).1.2
  exact absurd old (Nat.not_le_of_lt (mint_symbols member).2.1)

/-- The row of a draft holds what the row of its expression and its tag bring, whatever its sign. -/
theorem draft_holds : (s.draft c).row.holds z =
    ((s.rowOf c.expression).2.insertCells ((s.draft c).tag.cells c.relation)).holds z := by
  unfold draft
  dsimp only
  split <;> simp

/-- The row of a draft is over the columns of the tableau, its variables and its tag. -/
theorem draft_over_of {P : Symbol → Prop} (tidy : Tidy P s.tableau)
    (own : ∀ z ∈ (s.draft c).tag.symbols, P z ∧ ¬Basic s.tableau z)
    (admitted : ∀ v entry, (s.draft c).solver.tracked.find? v = some entry → P entry.symbol) :
    OverColumns P (s.draft c).solver.tableau (s.draft c).row := by
  intro z held
  have known : P z ∧ ¬Basic s.tableau z := by
    rw [draft_holds] at held
    rcases holds_insertCells held with ⟨cell, member, rfl⟩ | before
    · exact own _ (tag_cells_mem member)
    · exact rowOf_over_of tidy admitted z before
  rwa [draft_tableau]

theorem draft_over (well : TrackedWell s.minted s.tracked)
    (tidy : Tidy (Minted s.minted) s.tableau) :
    OverColumns (Minted (s.draft c).solver.minted) (s.draft c).solver.tableau (s.draft c).row :=
  draft_over_of
    (tidy_mono tidy fun _ minted => minted_mono minted (Nat.le_of_lt draft_minted_le))
    (fun _ member => ⟨(draft_symbol member).2.2, draft_symbol_column tidy member⟩)
    fun v entry found => ((draft_well well).symbol v entry found).2

end Cassowary.Drafting
