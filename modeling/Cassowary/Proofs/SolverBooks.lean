import Cassowary.Proofs.Drafting
import Cassowary.Session

/-!
The books through every operation. An orderly solver has agreeing books and a tableau that is tidy over
the symbols given out. Every operation leaves an orderly solver behind, also when it fails, and as long
as no internal error stops an operation the references are counted exactly.
-/

namespace Cassowary.SolverBooks
open Endings MapEntries RowSymbols Separation Bookkeeping Drafting Tableau Solver

variable {α : Type} [Scalar α]

structure Orderly (s : Solver α) : Prop where
  books : Books s
  tidy : Tidy (Minted s.minted) s.tableau

/-- Each variable is tracked for as many terms as the constraints in the solver refer to it with. -/
def Accounted (s : Solver α) : Prop := Counted s.tracked (references s.postings)

variable {s s' : Solver α} {c : Constraint α} {h : Handle} {v : Variable} {tag : Tag}

theorem empty_tidy {P : Symbol → Prop} : Tidy P (∅ : Tableau α) := by
  constructor
  · rintro z ⟨⟩
  · rintro r (⟨z, ⟨⟩⟩ | rfl | none) z held
    · exact absurd held Bool.false_ne_true
    · cases none

theorem fresh_orderly (minted : Nat) : Orderly (fresh minted : Solver α) := by
  refine ⟨⟨⟨?_, ?_⟩, ⟨?_, ?_, ?_⟩, ⟨?_, ?_⟩⟩, empty_tidy⟩
  · rintro v entry ⟨⟩
  · rintro v w entry entry' ⟨⟩
  · rintro g p ⟨⟩
  · rintro g g' p p' z ⟨⟩
  · rintro k p ⟨⟩
  · rintro v edit ⟨⟩
  · rintro v edit ⟨⟩

theorem fresh_accounted (minted : Nat) : Accounted (fresh minted : Solver α) := fun _ => rfl

theorem postings_well_mono {few many : Nat} {postings : OrderedMap Handle (Posting α)}
    (well : PostingsWell few postings) (more : few ≤ many) : PostingsWell many postings where
  tag g p found := by
    obtain ⟨k, same, bound⟩ := well.tag g p found
    exact ⟨k, same, Nat.le_trans bound more⟩
  distinct := well.distinct
  serial k p found := Nat.lt_of_lt_of_le (well.serial k p found) more

/-- The books do not mention the tableau, and numbers may be skipped. -/
theorem orderly_of_tableau {minted : Nat} {tableau : Tableau α} (orderly : Orderly s)
    (more : s.minted ≤ minted) (tidy : Tidy (Minted minted) tableau) :
    Orderly { s with minted, tableau } :=
  ⟨⟨tracked_well_mono orderly.books.tracked more, postings_well_mono orderly.books.postings more,
    orderly.books.edits⟩, tidy⟩

theorem orderly_of_shrinks (shrinks : Shrinks s s') (orderly : Orderly s) : Orderly s' := by
  refine ⟨⟨shrinks_well shrinks orderly.books.tracked, ?_, ?_⟩, ?_⟩
  · rw [shrinks.minted, shrinks.postings]
    exact orderly.books.postings
  · rw [shrinks.postings, shrinks.edits]
    exact orderly.books.edits
  · rw [shrinks.minted]
    exact shrinks.tidy _ orderly.tidy

theorem settle_tidy {P : Symbol → Prop} (tidy : Tidy P s.tableau) : Tidy P s.settle.state.tableau :=
  Outcome.andThen_state (optimize_tidy _ tidy) fun _ tidy => dualOptimize_tidy tidy

theorem settle_orderly (orderly : Orderly s) : Orderly s.settle.state :=
  orderly_of_tableau orderly (Nat.le_refl _) (settle_tidy orderly.tidy)

/-- Settling touches nothing but the tableau, and only an internal error can stop it. -/
theorem settle_ends : Ends s.settle (fun s' => s' = { s with tableau := s'.tableau })
    (fun error s' => error.isInternal = true ∧ s' = { s with tableau := s'.tableau }) := by
  have primal : Ends (s.tableau.optimize .primary)
      (fun t => True ∧ t.primalStep? .primary = none) (fun error _ => error.isInternal = true ∧ True) :=
    PivotRuns.optimize_ends (fun _ _ => trivial) (fun _ _ _ _ => ends_of_state trivial) trivial
  unfold settle onTableau
  rw [ends_embed, ends_andThen]
  refine ends_mono primal (fun t _ => ?_) fun _ _ stopped => ⟨stopped.1, rfl⟩
  exact ends_mono (PivotRuns.dualOptimize_settles t) (fun _ _ => rfl) fun _ _ internal =>
    ⟨internal, rfl⟩

/-! ## Insertion -/

theorem draft_orderly (orderly : Orderly s) : Orderly (s.draft c).solver where
  books := {
    tracked := draft_well orderly.books.tracked
    postings := by
      rw [draft_postings]
      exact postings_well_mono orderly.books.postings (Nat.le_of_lt draft_minted_le)
    edits := by
      rw [draft_postings, draft_edits]
      exact orderly.books.edits }
  tidy := draft_tidy orderly.tidy

omit [Scalar α] in
private theorem foldl_remove_holds (symbols : List Symbol) {r : Row α} {z : Symbol}
    (held : (symbols.foldl Row.remove r).holds z = true) :
    z ∉ symbols ∧ r.holds z = true := by
  induction symbols generalizing r with
  | nil => exact ⟨by simp, held⟩
  | cons first rest ih =>
    obtain ⟨later, before⟩ := ih held
    obtain ⟨apart, before⟩ := holds_remove.mp before
    exact ⟨by simp [apart, later], before⟩

omit [Scalar α] in
theorem discharge_tidy {P : Symbol → Prop} {t : Tableau α} (tidy : Tidy P t) (tag : Tag) :
    Tidy P (t.discharge tag) := by
  refine tidy_of_rows tidy rfl fun r line => ?_
  rcases line with row | rfl | artificial
  · exact .inl (.inl row)
  · exact .inr fun z held => tidy.line _ line_objective z (foldl_remove_holds _ held).2
  · exact .inl (.inr (.inr artificial))

theorem withdraw_shrinks (s : Solver α) (c : Constraint α) (tag : Tag) :
    Shrinks s (s.withdraw c tag) := by
  have discharged : Shrinks s (s.mapTableau (·.discharge tag)) :=
    ⟨rfl, rfl, rfl, fun _ entry found => ⟨entry.uses, found⟩, fun _ tidy => discharge_tidy tidy tag⟩
  exact shrinks_trans discharged (release_shrinks _ _)

/-- A solver that has withdrawn the draft of a constraint, with some numbers used up. -/
def Withdrawn (d : Draft α) (c : Constraint α) (s' : Solver α) : Prop :=
  ∃ minted, d.solver.minted ≤ minted ∧ s' = { d.solver with minted }.withdraw c d.tag

theorem withdrawn_postings (withdrawn : Withdrawn (s.draft c) c s') : s'.postings = s.postings := by
  obtain ⟨minted, -, rfl⟩ := withdrawn
  exact (withdraw_shrinks _ c _).postings.trans draft_postings

theorem withdrawn_edits (withdrawn : Withdrawn (s.draft c) c s') : s'.edits = s.edits := by
  obtain ⟨minted, -, rfl⟩ := withdrawn
  exact (withdraw_shrinks _ c _).edits.trans draft_edits

/-- A draft was brought in, which touches nothing but the tableau and the number of symbols given out, or
it was withdrawn unless an internal error came first. -/
def Handled (d : Draft α) (c : Constraint α) (o : Outcome (Event α) (Solver α)) : Prop :=
  Ends o
    (fun s' => Orderly s' ∧ d.solver.minted ≤ s'.minted ∧
      s' = { d.solver with minted := s'.minted, tableau := s'.tableau })
    (fun error s' => Orderly s' ∧ (error.isInternal = true ∧ s' = d.solver ∨ Withdrawn d c s'))

/-- Solving a drafted row for a symbol and entering it keeps a tableau tidy over every set that the row
keeps to. -/
theorem draft_enter_ends {P : Symbol → Prop} {d : Draft α} (tidy : Tidy P d.solver.tableau)
    (columnar : OverColumns P d.solver.tableau d.row) (subject : Symbol) :
    Ends (d.enter subject)
      (fun s' => Tidy P s'.tableau ∧ s' = { d.solver with tableau := s'.tableau })
      (fun error s' => error.isInternal = true ∧ s' = d.solver) := by
  have solved := solveFor_ends (ε := Event α) (r := d.row) (s := subject)
  unfold Draft.enter
  dsimp only
  split
  · rename_i error stopped
    obtain ⟨rfl, -⟩ := ends_of_error_some solved stopped
    exact ⟨rfl, rfl⟩
  · rename_i fine
    obtain ⟨present, holds⟩ := ends_of_error_none solved fine
    refine ⟨enter_tidy tidy (columnar subject present).1
      (fun z held => columnar z ((holds z).mp held).2) ?_, rfl⟩
    by_contra held
    exact ((holds subject).mp (by simpa using held)).1 rfl

section Drafts
variable {d : Draft α} (orderly : Orderly d.solver)
  (columnar : OverColumns (Minted d.solver.minted) d.solver.tableau d.row)
include orderly columnar

theorem enter_handled (subject : Symbol) : Handled d c (d.enter subject) := by
  refine ends_mono (draft_enter_ends orderly.tidy columnar subject) ?_ ?_
  · rintro s' ⟨tidy, same⟩
    rw [same]
    exact ⟨orderly_of_tableau orderly (Nat.le_refl _) tidy, Nat.le_refl _, rfl⟩
  · rintro error s' ⟨internal, rfl⟩
    exact ⟨orderly, .inl ⟨internal, rfl⟩⟩

theorem enterArtificial_handled : Handled d c (d.enterArtificial c) := by
  have fresh : ¬Minted d.solver.minted ⟨d.solver.minted + 1, .slack⟩ := fun minted =>
    Nat.not_succ_le_self _ minted.2
  have phase := enterArtificial_ends orderly.tidy columnar fresh
  have more : ∀ z, Minted d.solver.minted z → Minted (d.solver.minted + 1) z := fun z minted =>
    minted_mono minted (Nat.le_succ _)
  unfold Draft.enterArtificial
  dsimp only
  split
  · rename_i fine
    have tidy := ends_of_error_none phase fine
    unfold Handled Ends
    rw [fine]
    exact ⟨orderly_of_tableau (s := d.solver) orderly (Nat.le_succ _) (tidy_mono tidy more),
      Nat.le_succ _, rfl⟩
  · rename_i error stopped
    have left : Orderly ({ d.solver with minted := d.solver.minted + 1 }.withdraw c d.tag) :=
      orderly_of_shrinks (withdraw_shrinks _ c d.tag)
        (orderly_of_tableau (s := d.solver) orderly (Nat.le_succ _) (tidy_mono orderly.tidy more))
    unfold Handled Ends
    simp only [Outcome.report, stopped]
    exact ⟨left, .inr ⟨_, Nat.le_succ _, rfl⟩⟩

theorem install_handled : Handled d c (d.install c) := by
  unfold Draft.install
  split
  · exact enter_handled orderly columnar _
  · split
    · exact enterArtificial_handled orderly columnar
    · split
      · exact enter_handled orderly columnar _
      · exact ⟨orderly_of_shrinks (withdraw_shrinks d.solver c d.tag) orderly,
          .inr ⟨_, Nat.le_refl _, rfl⟩⟩

end Drafts

/-- Withdrawing a draft gives its references back and leaves the rows as they were. -/
theorem withdrawn_accounted (orderly : Orderly s) (accounted : Accounted s)
    (withdrawn : Withdrawn (s.draft c) c s') :
    Accounted s' ∧ s'.tableau = (s.draft c).solver.tableau.discharge (s.draft c).tag := by
  have postings := withdrawn_postings withdrawn
  obtain ⟨minted, -, rfl⟩ := withdrawn
  have counted : Counted (s.draft c).solver.tracked
      fun v => references s.postings v + mentions c.expression v := draft_counted accounted
  constructor
  · rw [Accounted, postings]
    exact release_counted counted
  · refine release_tableau (s := { (s.draft c).solver with minted }.mapTableau
      (·.discharge (s.draft c).tag)) counted fun v entry found none basic => ?_
    rcases (rowOf_grows s c.expression).fresh v entry found with ⟨uses, earlier⟩ | newer
    · exact absurd (demand_pos accounted earlier).2 (by omega)
    · have old : Basic s.tableau entry.symbol := by
        have here : Basic (s.draft c).solver.tableau entry.symbol := basic
        rwa [draft_tableau] at here
      exact absurd (orderly.tidy.basic _ old).2 (Nat.not_le_of_lt newer)

/-- What posting leaves in the books. -/
structure Posted (s : Solver α) (h : Handle) (c : Constraint α) (s' : Solver α) : Prop where
  postings : s'.postings = s.postings.insert h ⟨c, (s.draft c).tag⟩
  edits : s'.edits = s.edits
  tracked : s'.tracked = (s.draft c).solver.tracked

/-- A solver with a draft posted, whatever its tableau is. -/
theorem posted_orderly {minted : Nat} {tableau : Tableau α} (orderly : Orderly s)
    (free : s.postings.find? h = none) (serial : ∀ k, h = .edit k → k ≤ s.minted)
    (more : (s.draft c).solver.minted ≤ minted) (tidy : Tidy (Minted minted) tableau) :
    Orderly { (s.draft c).solver with
      minted, tableau, postings := (s.draft c).solver.postings.insert h ⟨c, (s.draft c).tag⟩ } := by
  have drafted := draft_orderly (c := c) orderly
  refine ⟨⟨tracked_well_mono drafted.books.tracked more, ?_, ?_⟩, tidy⟩
  · dsimp only
    rw [draft_postings]
    exact postings_well_mono (draft_posted orderly.books serial) more
  · dsimp only
    rw [draft_postings, draft_edits]
    refine ⟨orderly.books.edits.handle, fun v edit found => ?_⟩
    obtain ⟨target, strength, soft, posted⟩ := orderly.books.edits.posted v edit found
    refine ⟨target, strength, soft, ?_⟩
    have apart : h ≠ edit.handle := by
      rintro rfl
      rw [free] at posted
      cases posted
    rw [OrderedMap.find?_insert, if_neg apart, posted]

theorem posted_accounted (accounted : Accounted s) (free : s.postings.find? h = none)
    (posted : Posted s h c s') : Accounted s' := by
  rw [Accounted, posted.tracked, posted.postings]
  intro v
  have here := draft_counted (c := c) accounted v
  have more : references (s.postings.insert h ⟨c, (s.draft c).tag⟩) v =
      references s.postings v + mentions c.expression v := total_insert_of_absent free
  rw [more]
  exact here

omit [Scalar α] in
/-- The handle of a constraint that callers add has no serial number. -/
theorem posted_serial (s : Solver α) (id : Nat) : ∀ k, Handle.posted id = .edit k → k ≤ s.minted := by
  rintro k ⟨⟩

omit [Scalar α] in
/-- The handle of a new edit is the count of the numbers that were given out. -/
theorem edit_serial (s : Solver α) : ∀ k, Handle.edit s.minted = .edit k → k ≤ s.minted := by
  rintro k ⟨⟩
  exact Nat.le_refl _

theorem post_ends (orderly : Orderly s) (serial : ∀ k, h = .edit k → k ≤ s.minted) :
    Ends (s.post h c)
      (fun s' => Orderly s' ∧ s.postings.find? h = none ∧ Posted s h c s')
      (fun error s' => Orderly s' ∧ s'.edits = s.edits ∧
        (error.isInternal = false → s' = s ∨ Withdrawn (s.draft c) c s')) := by
  unfold post
  split
  · exact ⟨orderly, rfl, fun _ => .inl rfl⟩
  · rename_i notTaken
    have free : s.postings.find? h = none := not_contains_iff.mp (by simpa using notTaken)
    dsimp only
    rw [ends_andThen]
    refine ends_mono (install_handled (c := c) (draft_orderly orderly)
      (draft_over orderly.books.tracked orderly.tidy)) ?_ ?_
    · rintro s₁ ⟨orderly₁, more, same⟩
      have orderly₂ : Orderly { s₁ with
          postings := s₁.postings.insert h ⟨c, (s.draft c).tag⟩ } := by
        rw [same]
        exact posted_orderly orderly free serial more orderly₁.tidy
      have posted : Posted s h c { s₁ with
          postings := s₁.postings.insert h ⟨c, (s.draft c).tag⟩ } := by
        rw [same]
        exact ⟨congrArg (OrderedMap.insert · h _) draft_postings, draft_edits, rfl⟩
      rw [ends_andThen]
      have settled : Orderly (Solver.settle _).state := settle_orderly orderly₂
      refine ends_mono (ends_and (ends_of_state settled)
        (settle_ends (s := { s₁ with postings := s₁.postings.insert h ⟨c, (s.draft c).tag⟩ })))
        ?_ ?_
      · rintro s₃ ⟨orderly₃, eq⟩
        rw [ends_report, ends_ok]
        refine ⟨orderly₃, free, ?_⟩
        rw [eq]
        exact ⟨posted.postings, posted.edits, posted.tracked⟩
      · rintro error s₃ ⟨orderly₃, internal, eq⟩
        refine ⟨orderly₃, ?_, of_internal internal⟩
        rw [eq]
        exact posted.edits
    · rintro error s₁ ⟨orderly₁, ⟨internal, rfl⟩ | withdrawn⟩
      · exact ⟨orderly₁, draft_edits, of_internal internal⟩
      · exact ⟨orderly₁, withdrawn_edits withdrawn, fun _ => .inr withdrawn⟩

/-- Posting puts a constraint into the books, and one that is refused is not there. -/
theorem post_books (orderly : Orderly s) (serial : ∀ k, h = .edit k → k ≤ s.minted) :
    Ends (s.post h c)
      (fun s' => s.postings.find? h = none ∧ s'.edits = s.edits ∧
        s'.postings = s.postings.insert h ⟨c, (s.draft c).tag⟩)
      (Unless fun s' => s'.edits = s.edits ∧ s'.postings = s.postings) := by
  refine ends_mono (post_ends orderly serial) ?_ ?_
  · rintro s' ⟨-, free, posted⟩
    exact ⟨free, posted.edits, posted.postings⟩
  · rintro error s' ⟨-, edits, left⟩ external
    obtain rfl | withdrawn := left external
    · exact ⟨rfl, rfl⟩
    · exact ⟨edits, withdrawn_postings withdrawn⟩

/-- Whatever stops it, posting leaves the accounts exact unless the error is internal. -/
theorem post_accounted (orderly : Orderly s) (accounted : Accounted s)
    (serial : ∀ k, h = .edit k → k ≤ s.minted) :
    Ends (s.post h c) Accounted (Unless Accounted) := by
  refine ends_mono (post_ends orderly serial) ?_ ?_
  · rintro s' ⟨-, free, posted⟩
    exact posted_accounted accounted free posted
  · rintro error s' ⟨-, -, left⟩ external
    rcases left external with rfl | withdrawn
    · exact accounted
    · exact (withdrawn_accounted orderly accounted withdrawn).1

/-! ## Removal -/

theorem refund_tidy {P : Symbol → Prop} {t : Tableau α} {weight : α} (tidy : Tidy P t)
    (admitted : ∀ z ∈ tag.symbols, P z) : Tidy P (t.refund tag weight) := by
  have folded : OverColumns P t (t.refund tag weight).objective := by
    have mine : ∀ z ∈ tag.errors, P z := fun z error => admitted z (List.mem_filter.mp error).1
    have columnar : OverColumns P t t.objective := tidy.line _ line_objective
    unfold refund
    dsimp only
    generalize t.objective = objective at columnar
    generalize tag.errors = errors at mine
    induction errors generalizing objective with
    | nil => exact columnar
    | cons error rest ih =>
      refine ih _ (fun z held => ?_) fun z later => mine z (List.mem_cons_of_mem _ later)
      dsimp only at held
      split at held
      · rename_i row found
        exact (holds_insertRow held).elim (columnar z) (tidy.line row (line_of_find? found) z)
      · rename_i column
        rcases holds_insertSymbol held with rfl | before
        · refine ⟨mine _ (by simp), fun basic => ?_⟩
          rw [Basic, not_contains_iff.mpr column] at basic
          cases basic
        · exact columnar z before
  refine tidy_of_rows tidy rfl fun r line => ?_
  rcases line with row | rfl | artificial
  · exact .inl (.inl row)
  · exact .inr folded
  · exact .inl (.inr (.inr artificial))

/-- A constraint that backs no edit can be taken out of the books. -/
theorem erase_orderly {tableau : Tableau α} (orderly : Orderly s)
    (unbacked : ∀ v edit, s.edits.find? v = some edit → edit.handle ≠ h)
    (tidy : Tidy (Minted s.minted) tableau) :
    Orderly { s with postings := s.postings.erase h, tableau } := by
  have subset : ∀ g p, (s.postings.erase h).find? g = some p → s.postings.find? g = some p := by
    intro g p found
    rw [OrderedMap.find?_erase] at found
    split at found
    · cases found
    · exact found
  refine ⟨⟨orderly.books.tracked, ?_, ?_⟩, tidy⟩
  · exact ⟨fun g p found => orderly.books.postings.tag g p (subset g p found),
      fun g g' p p' z found found' =>
        orderly.books.postings.distinct g g' p p' z (subset g p found) (subset g' p' found'),
      fun k p found => orderly.books.postings.serial k p (subset _ p found)⟩
  · refine ⟨orderly.books.edits.handle, fun v edit found => ?_⟩
    obtain ⟨target, strength, soft, posted⟩ := orderly.books.edits.posted v edit found
    refine ⟨target, strength, soft, ?_⟩
    rw [OrderedMap.find?_erase, if_neg (Ne.symm (unbacked v edit found)), posted]

/-- What retracting leaves in the books. -/
def Retracted (s : Solver α) (h : Handle) (s' : Solver α) : Prop :=
  ∃ posting tableau, s.postings.find? h = some posting ∧
    s' = { s with postings := s.postings.erase h, tableau }.release posting.constraint.expression

theorem retract_ends (orderly : Orderly s)
    (unbacked : ∀ v edit, s.edits.find? v = some edit → edit.handle ≠ h) :
    Ends (s.retract h) (fun s' => Orderly s' ∧ Retracted s h s')
      (fun error s' => Orderly s' ∧ s'.edits = s.edits ∧ (error.isInternal = false → s' = s)) := by
  unfold retract
  split
  · exact ⟨orderly, rfl, fun _ => rfl⟩
  · rename_i c tag found
    have refunded : Tidy (Minted s.minted) (s.tableau.refund tag c.strength.value) :=
      refund_tidy orderly.tidy fun z member =>
        (tag_symbol orderly.books.postings found member).2
    have evicted := PivotRuns.evict_error_internal
      (s.tableau.refund tag c.strength.value) tag.marker
    dsimp only
    rw [ends_andThen, onTableau, ends_embed]
    refine ends_mono (ends_and (ends_of_state (evict_tidy refunded)) evicted) ?_ ?_
    · rintro t₁ ⟨tidy₁, -⟩
      have tidy₂ : Tidy (Minted s.minted) (tag.other.elim t₁ t₁.dropSymbol) := by
        cases tag.other with
        | none => exact tidy₁
        | some other => exact dropSymbol_tidy tidy₁
      have orderly₂ : Orderly { s with
          postings := s.postings.erase h, tableau := tag.other.elim t₁ t₁.dropSymbol } :=
        erase_orderly orderly unbacked tidy₂
      rw [ends_andThen]
      refine ends_mono (ends_and (ends_of_state (settle_orderly orderly₂)) settle_ends) ?_ ?_
      · rintro s₃ ⟨orderly₃, same⟩
        rw [ends_report, ends_ok]
        refine ⟨orderly_of_shrinks (release_shrinks s₃ _) orderly₃, ⟨c, tag⟩, s₃.tableau, found, ?_⟩
        exact congrArg (Solver.release · c.expression) same
      · rintro error s₃ ⟨orderly₃, internal, same⟩
        refine ⟨orderly₃, ?_, of_internal internal⟩
        rw [same]
        rfl
    · rintro error t₁ ⟨tidy₁, internal⟩
      exact ⟨erase_orderly orderly unbacked tidy₁, rfl, of_internal internal⟩

/-- Retracting strikes a constraint out of the books, also when it fails. -/
theorem retract_books (s : Solver α) (h : Handle) :
    (s.retract h).state.edits = s.edits ∧ (s.retract h).state.postings = s.postings.erase h := by
  unfold retract
  split
  · rename_i absent
    exact ⟨rfl, (erase_of_absent absent).symm⟩
  · rename_i c tag found
    let Struck (s' : Solver α) : Prop := s'.edits = s.edits ∧ s'.postings = s.postings.erase h
    refine Outcome.andThen_state (P := Struck) ⟨rfl, rfl⟩ fun s₁ struck => ?_
    refine Outcome.andThen_state (P := Struck) struck fun s₂ struck => ?_
    have shrinks := release_shrinks s₂ c.expression
    exact ⟨shrinks.edits.trans struck.1, shrinks.postings.trans struck.2⟩

theorem retracted_accounted (accounted : Accounted s) (retracted : Retracted s h s') :
    Accounted s' := by
  obtain ⟨posting, tableau, found, rfl⟩ := retracted
  have postings : (Solver.release { s with postings := s.postings.erase h, tableau }
      posting.constraint.expression).postings = s.postings.erase h := (release_shrinks _ _).postings
  rw [Accounted, postings]
  refine release_counted (s := { s with postings := s.postings.erase h, tableau }) fun v => ?_
  have less : references s.postings v =
      mentions posting.constraint.expression v + references (s.postings.erase h) v :=
    total_erase found
  have here := accounted v
  rw [less, Nat.add_comm] at here
  exact here

theorem retract_accounted (orderly : Orderly s) (accounted : Accounted s)
    (unbacked : ∀ v edit, s.edits.find? v = some edit → edit.handle ≠ h) :
    Ends (s.retract h) Accounted (Unless Accounted) := by
  refine ends_mono (retract_ends orderly unbacked) ?_ ?_
  · rintro s' ⟨-, retracted⟩
    exact retracted_accounted accounted retracted
  · rintro error s' ⟨-, -, left⟩ external
    rw [left external]
    exact accounted

end Cassowary.SolverBooks
