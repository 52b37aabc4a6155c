import Cassowary.Proofs.RenumberedPivots
import Cassowary.Solver.Edit

/-!
Renumbered solvers. The number that a solver gives out next is greater by the offset as well, so a new
symbol of a renumbered solver is the renumbered new symbol. Every operation of a solver commutes with
renumbering, and what callers can read off a solver stays the same.
-/

namespace Cassowary

/-- The serial number of an edit is one of the numbers that are given out. -/
def Handle.raise (k : Nat) : Handle → Handle
  | .posted id => .posted id
  | .edit serial => .edit (serial + k)

theorem Handle.raise_injective (k : Nat) : Function.Injective (Handle.raise k) := by
  intro h h' same
  cases h <;> cases h' <;> simp_all [raise]

/-! ## Tags -/

namespace Tag

variable {α : Type} [Scalar α] {k : Nat} {tag : Tag}

def raise (k : Nat) (tag : Tag) : Tag := ⟨tag.marker.raise k, tag.other.map (Symbol.raise k)⟩

@[simp] theorem marker_raise : (tag.raise k).marker = tag.marker.raise k := rfl

@[simp] theorem other_raise : (tag.raise k).other = tag.other.map (Symbol.raise k) := rfl

@[simp] theorem symbols_raise : (tag.raise k).symbols = tag.symbols.map (Symbol.raise k) := by
  obtain ⟨marker, _ | other⟩ := tag <;> rfl

@[simp] theorem errors_raise : (tag.raise k).errors = tag.errors.map (Symbol.raise k) := by
  simp [errors, List.filter_map, Function.comp_def]

@[simp] theorem cells_raise (relation : Relation) : ((tag.raise k).cells relation : List (Symbol × α)) =
    (tag.cells relation).map (Prod.map (Symbol.raise k) id) := by
  obtain ⟨marker, _ | other⟩ := tag <;> cases relation <;> rfl

@[simp] theorem mint_raise (relation : Relation) (required : Bool) (minted : Nat) :
    mint relation required (minted + k) = (mint relation required minted).raise k := by
  cases relation <;> cases required <;> simp [mint, raise, Symbol.raise] <;> omega

end Tag

/-! ## Tableau operations of a solver -/

namespace Tableau

variable {α : Type} [Scalar α] {k : Nat} {t : Tableau α} {s : Symbol} {r : Row α} {x : α} {tag : Tag}

@[simp] theorem insertVariable_raise :
    (t.raise k).insertVariable (r.raise k) (s.raise k) x = (t.insertVariable r s x).raise k := by
  cases found : t.rows.find? s <;> simp [insertVariable, found]

@[simp] theorem charge_raise : (t.raise k).charge (tag.raise k) x = (t.charge tag x).raise k := by
  have charged := Row.insertCells_raise (k := k) (r := t.objective)
    (tag.errors.map fun error => (error, x))
  simp_all [charge, raise, Function.comp_def]

omit [Scalar α] in
@[simp] theorem discharge_raise :
    (t.raise k).discharge (tag.raise k) = (t.discharge tag).raise k := by
  have discharged : (tag.symbols.map (Symbol.raise k)).foldl Row.remove (t.objective.raise k) =
      (tag.symbols.foldl Row.remove t.objective).raise k := by
    rw [List.foldl_map]
    exact List.foldl_hom (Row.raise k) fun _ _ => Row.remove_raise
  simp [discharge, discharged, raise]

@[simp] theorem refund_raise : (t.raise k).refund (tag.raise k) x = (t.refund tag x).raise k := by
  unfold refund
  rw [Tag.errors_raise, List.foldl_map, objective_raise]
  refine congrArg (mk _ · _ _) (List.foldl_hom (Row.raise k) fun objective error => ?_)
  cases found : t.rows.find? error <;> simp [found]

@[simp] theorem shiftRow_raise :
    (t.raise k).shiftRow (s.raise k) (r.raise k) x = (t.shiftRow s r x).raise k := by
  by_cases negative : Scalar.isNegative (r.addConstant x).constant = true <;>
    simp [shiftRow, negative, raise]

@[simp] theorem shiftColumn_raise :
    (t.raise k).shiftColumn (s.raise k) x = (t.shiftColumn s x).raise k := by
  have rows : ((t.raise k).rows.mapValues fun _ row =>
      let share := row.coefficient (s.raise k)
      if Scalar.nearZero share then row else row.addConstant (x * share)) =
      (t.rows.mapValues fun _ row =>
        let share := row.coefficient s
        if Scalar.nearZero share then row else row.addConstant (x * share)).relabel _
          (Symbol.raise_injective k) (Row.raise k) := by
    apply OrderedMap.mapValues_relabel
    intro _ row
    by_cases small : Scalar.nearZero (row.coefficient s) = true <;> simp [small]
  unfold shiftColumn
  dsimp only at rows ⊢
  rw [rows]
  simp [raise, List.filter_map, Function.comp_def]

@[simp] theorem shiftTarget_raise :
    (t.raise k).shiftTarget (tag.raise k) x = (t.shiftTarget tag x).raise k := by
  cases basic : t.rows.find? tag.marker with
  | some row => simp [shiftTarget, basic]
  | none =>
    cases partner : tag.other with
    | none => simp [shiftTarget, basic, partner]
    | some other => cases found : t.rows.find? other <;> simp [shiftTarget, basic, partner, found]

end Tableau

/-! ## Solvers -/

variable {α : Type}

/-- The event with every symbol renumbered. -/
def Event.raise (k : Nat) : Event α → Event α
  | .pivot event => .pivot (event.raise k)
  | event => event

def Posting.raise (k : Nat) (p : Posting α) : Posting α := { p with tag := p.tag.raise k }

def Tracked.raise (k : Nat) (entry : Tracked) : Tracked := { entry with symbol := entry.symbol.raise k }

@[simp] theorem Tracked.symbol_raise (k : Nat) (entry : Tracked) :
    (entry.raise k).symbol = entry.symbol.raise k := rfl

@[simp] theorem Tracked.uses_raise (k : Nat) (entry : Tracked) : (entry.raise k).uses = entry.uses :=
  rfl

def Edit.raise (k : Nat) (edit : Edit α) : Edit α :=
  { edit with tag := edit.tag.raise k, handle := edit.handle.raise k }

namespace Solver

/-- The solver that has given out more symbols, all of them greater by an offset. -/
def raise (k : Nat) (s : Solver α) : Solver α where
  minted := s.minted + k
  tableau := s.tableau.raise k
  postings := s.postings.relabel (Handle.raise k) (Handle.raise_injective k) (Posting.raise k)
  tracked := s.tracked.mapValues fun _ => Tracked.raise k
  edits := s.edits.mapValues fun _ => Edit.raise k

def Draft.raise (k : Nat) (d : Draft α) : Draft α :=
  ⟨d.solver.raise k, d.row.raise k, d.tag.raise k⟩

variable {k : Nat} {s : Solver α} {c : Constraint α} {h : Handle} {v : Variable}

@[simp] theorem minted_raise : (s.raise k).minted = s.minted + k := rfl

@[simp] theorem tableau_raise : (s.raise k).tableau = s.tableau.raise k := rfl

@[simp] theorem postings_raise : (s.raise k).postings =
    s.postings.relabel (Handle.raise k) (Handle.raise_injective k) (Posting.raise k) := rfl

@[simp] theorem tracked_raise : (s.raise k).tracked = s.tracked.mapValues fun _ => Tracked.raise k :=
  rfl

@[simp] theorem edits_raise : (s.raise k).edits = s.edits.mapValues fun _ => Edit.raise k := rfl

theorem mapTableau_raise (f : Tableau α → Tableau α) {f' : Tableau α → Tableau α}
    (alike : f' (s.tableau.raise k) = (f s.tableau).raise k) :
    (s.raise k).mapTableau f' = (s.mapTableau f).raise k :=
  congrArg (fun t => { s.raise k with tableau := t }) alike

theorem onTableau_raise (f : Tableau α → Outcome PivotEvent (Tableau α))
    {f' : Tableau α → Outcome PivotEvent (Tableau α)}
    (alike : f' (s.tableau.raise k) =
      (f s.tableau).embed (Tableau.raise k) (PivotEvent.raise k)) :
    (s.raise k).onTableau f' = (s.onTableau f).embed (raise k) (Event.raise k) := by
  unfold onTableau
  rw [tableau_raise, alike]
  simp [Outcome.embed, raise, Event.raise, Function.comp_def]

theorem insertTracked_raise (entry : Tracked) :
    { s.raise k with tracked := (s.raise k).tracked.insert v (entry.raise k) } =
      { s with tracked := s.tracked.insert v entry }.raise k := by
  simp [raise]

theorem insertEdit_raise (edit : Edit α) :
    { s.raise k with edits := (s.raise k).edits.insert v (edit.raise k) } =
      { s with edits := s.edits.insert v edit }.raise k := by
  simp [raise]

theorem insertPosting_raise (p : Posting α) :
    { s.raise k with postings := (s.raise k).postings.insert (h.raise k) (p.raise k) } =
      { s with postings := s.postings.insert h p }.raise k := by
  simp [raise]

/-! ## Tracking -/

/-- A new variable gets the renumbered new symbol. -/
theorem track_raise : (s.raise k).track v = Prod.map (raise k) (Symbol.raise k) (s.track v) := by
  cases found : s.tracked.find? v with
  | some entry =>
    simp only [track, tracked_raise, OrderedMap.find?_mapValues, found, Option.map_some]
    exact Prod.ext (insertTracked_raise ⟨entry.symbol, entry.uses + 1⟩) rfl
  | none =>
    have next : s.minted + k + 1 = s.minted + 1 + k := Nat.add_right_comm ..
    simp only [track, tracked_raise, minted_raise, OrderedMap.find?_mapValues, found, next,
      Option.map_none]
    exact Prod.ext (insertTracked_raise (s := { s with minted := s.minted + 1 })
      ⟨⟨s.minted + 1, .external⟩, 1⟩) rfl

theorem untrack_raise : (s.raise k).untrack v = (s.untrack v).raise k := by
  cases found : s.tracked.find? v with
  | none => simp [untrack, found]
  | some entry =>
    by_cases last : entry.uses ≤ 1
    · simp [untrack, found, last, raise]
    · simp only [untrack, tracked_raise, OrderedMap.find?_mapValues, found, Option.map_some,
        Tracked.uses_raise, last, ↓reduceIte]
      exact insertTracked_raise ⟨entry.symbol, entry.uses - 1⟩

/-! ## What callers see -/

theorem rows_raise : (s.raise k).rows = s.rows.map (Prod.map (Symbol.raise k) (Row.raise k)) := rfl

theorem contains_postings_raise :
    (s.raise k).postings.contains (h.raise k) = s.postings.contains h := by
  simp

@[simp] theorem contains_raise (id : Nat) : (s.raise k).contains id = s.contains id :=
  contains_postings_raise (h := .posted id)

@[simp] theorem constraintCount_raise : (s.raise k).constraintCount = s.constraintCount := by
  simp [constraintCount]

@[simp] theorem hasEdit_raise : (s.raise k).hasEdit v = s.hasEdit v := by
  simp [hasEdit, OrderedMap.contains]

@[simp] theorem editCount_raise : (s.raise k).editCount = s.editCount := by
  simp [editCount]

variable [Scalar α]

@[simp] theorem isFeasible_raise : (s.raise k).isFeasible = s.isFeasible := Tableau.isFeasible_raise

@[simp] theorem value_raise : (s.raise k).value v = s.value v := by
  cases found : s.tracked.find? v <;> simp [value, found, Tracked.raise]

/-- The values that a solver writes do not depend on the numbers of the symbols. -/
theorem update_raise {store store' : Store α} (same : ∀ w, store'.value w = store.value w) :
    ((s.raise k).update store').value v = (s.update store).value v := by
  unfold update
  simp only [tracked_raise, OrderedMap.mapValues, List.foldl_map, Tracked.raise, tableau_raise,
    Tableau.value_raise]
  induction s.tracked.toList generalizing store store' with
  | nil => exact same v
  | cons entry rest ih =>
    refine ih fun w => ?_
    simp [same]

/-- A solver that has given out some symbols already is a renumbered new one. -/
theorem fresh_eq_raise (minted : Nat) : fresh minted = (∅ : Solver α).raise minted :=
  congrArg (Solver.mk · ∅ ∅ ∅ ∅) (Nat.zero_add minted).symm

theorem settle_raise : (s.raise k).settle = s.settle.embed (raise k) (Event.raise k) := by
  apply onTableau_raise fun t => (t.optimize .primary).andThen Tableau.dualOptimize
  rw [Tableau.optimize_raise]
  exact Outcome.andThen_embed (fun t => Tableau.dualOptimize_raise) _

/-! ## Drafting -/

theorem release_raise (e : Expression α) : (s.raise k).release e = (s.release e).raise k :=
  List.foldl_hom (raise k) fun _ _ => untrack_raise

theorem insertTerm_raise (state : Solver α × Row α) (term : Term α) :
    insertTerm (Prod.map (raise k) (Row.raise k) state) term =
      Prod.map (raise k) (Row.raise k) (insertTerm state term) := by
  simp [insertTerm, track_raise]

theorem rowOf_raise (e : Expression α) :
    (s.raise k).rowOf e = Prod.map (raise k) (Row.raise k) (s.rowOf e) := by
  have seed : (s.raise k, Row.ofConstant e.constant) =
      Prod.map (raise k) (Row.raise k) (s, Row.ofConstant e.constant) := rfl
  unfold rowOf
  rw [seed]
  exact List.foldl_hom _ insertTerm_raise

/-- The draft of a constraint has the renumbered tag and the renumbered row. -/
theorem draft_raise : (s.raise k).draft c = (s.draft c).raise k := by
  unfold draft
  simp only [rowOf_raise, Prod.map_fst, Prod.map_snd, minted_raise, Tag.mint_raise, Tag.cells_raise,
    Tag.symbols_raise, List.length_map, Row.insertCells_raise, Row.constant_raise, tableau_raise,
    Tableau.charge_raise, Row.reverseSign_raise]
  by_cases negative : Scalar.isNegative ((s.rowOf c.expression).2.insertCells
      ((Tag.mint c.relation c.isRequired (s.rowOf c.expression).1.minted).cells
        c.relation)).constant = true
  · simp [negative, Draft.raise, raise, Nat.add_right_comm]
  · simp [negative, Draft.raise, raise, Nat.add_right_comm]

theorem withdraw_raise (tag : Tag) :
    (s.raise k).withdraw c (tag.raise k) = (s.withdraw c tag).raise k := by
  unfold withdraw
  rw [mapTableau_raise (·.discharge tag) Tableau.discharge_raise, release_raise]

theorem subject?_raise (d : Draft α) : (d.raise k).subject? = d.subject?.map (Symbol.raise k) := by
  simp [Draft.subject?, Draft.raise, Row.keys_cells_raise, List.find?_map, Option.map_or,
    Function.comp_def]

/-! ## Adding constraints -/

theorem enter_raise (d : Draft α) (subject : Symbol) :
    (d.raise k).enter (subject.raise k) = (d.enter subject).embed (raise k) (Event.raise k) := by
  unfold Draft.enter Draft.raise
  dsimp only
  rw [Row.solveFor_raise (Event.raise k)]
  simp only [Outcome.error?_embed, Outcome.state_embed]
  split
  · rfl
  · exact congrArg Outcome.ok (mapTableau_raise (·.enter subject _) Tableau.enter_raise)

/-- The artificial symbol of a renumbered draft is the renumbered one. -/
theorem enterArtificial_raise (d : Draft α) :
    (d.raise k).enterArtificial c = (d.enterArtificial c).embed (raise k) (Event.raise k) := by
  have counted : { (d.raise k).solver with minted := (d.raise k).solver.minted + 1 } =
      raise k { d.solver with minted := d.solver.minted + 1 } :=
    congrArg (Solver.mk · _ _ _ _) (Nat.add_right_comm ..)
  unfold Draft.enterArtificial
  rw [counted]
  generalize { d.solver with minted := d.solver.minted + 1 } = s
  have symbol : (⟨(s.raise k).minted, .slack⟩ : Symbol) = Symbol.raise k ⟨s.minted, .slack⟩ := rfl
  have row : (d.raise k).row = d.row.raise k := rfl
  have entered : (s.raise k).onTableau
      (·.enterArtificial (Symbol.raise k ⟨s.minted, .slack⟩) (d.row.raise k)) =
        (s.onTableau (·.enterArtificial ⟨s.minted, .slack⟩ d.row)).embed (raise k) (Event.raise k) :=
    onTableau_raise _ Tableau.enterArtificial_raise
  dsimp only
  rw [symbol, row, entered, Outcome.error?_embed]
  split
  · rfl
  · simp [Draft.raise, withdraw_raise, Outcome.report, Outcome.embed, Event.raise]

theorem install_raise (d : Draft α) :
    (d.raise k).install c = (d.install c).embed (raise k) (Event.raise k) := by
  have row : (d.raise k).row = d.row.raise k := rfl
  unfold Draft.install
  rw [subject?_raise, row, Row.allDummies_raise, Row.constant_raise]
  cases d.subject? with
  | some subject => exact enter_raise d subject
  | none =>
    dsimp only [Option.map_none]
    split
    · exact enterArtificial_raise d
    · split
      · exact enter_raise d d.tag.marker
      · simp [Draft.raise, withdraw_raise, Outcome.embed_report, Event.raise]

theorem post_raise : (s.raise k).post (h.raise k) c =
    (s.post h c).embed (raise k) (Event.raise k) := by
  unfold post
  rw [contains_postings_raise, draft_raise]
  split
  · rfl
  · dsimp only
    rw [install_raise]
    refine Outcome.andThen_embed (fun s₁ => ?_) _
    have recorded := insertPosting_raise (k := k) (s := s₁) (h := h) ⟨c, (s.draft c).tag⟩
    refine (congrArg (fun s' : Solver α => s'.settle.andThen _) recorded).trans ?_
    rw [settle_raise]
    refine Outcome.andThen_embed (fun s₂ => ?_) _
    simp [rows_raise, Outcome.embed_report, Event.raise]

theorem add_raise (id : Nat) : (s.raise k).add id c =
    (s.add id c).embed (raise k) (Event.raise k) :=
  post_raise (h := .posted id)

theorem addAll_raise (constraints : List (Nat × Constraint α)) : (s.raise k).addAll constraints =
    (s.addAll constraints).embed (raise k) (Event.raise k) := by
  induction constraints generalizing s with
  | nil => rfl
  | cons first rest ih =>
    unfold addAll
    rw [add_raise]
    exact Outcome.andThen_embed (fun _ => ih) _

/-! ## Removing constraints -/

theorem retract_raise : (s.raise k).retract (h.raise k) =
    (s.retract h).embed (raise k) (Event.raise k) := by
  cases found : s.postings.find? h with
  | none => simp [retract, found]
  | some posting =>
    obtain ⟨c, tag⟩ := posting
    have refunded : { s.raise k with
        postings := (s.raise k).postings.erase (h.raise k)
        tableau := (s.raise k).tableau.refund (tag.raise k) c.strength.value } =
      raise k { s with
        postings := s.postings.erase h, tableau := s.tableau.refund tag c.strength.value } := by
      simp [raise]
    have found' : (s.raise k).postings.find? (h.raise k) = some ⟨c, tag.raise k⟩ := by
      simp [found, Posting.raise]
    simp only [retract, found, found', refunded]
    rw [onTableau_raise (·.evict tag.marker) Tableau.evict_raise]
    refine Outcome.andThen_embed (fun s₁ => ?_) _
    have partner : (tag.raise k).other.elim (s₁.tableau.raise k) (s₁.tableau.raise k).dropSymbol =
        (tag.other.elim s₁.tableau s₁.tableau.dropSymbol).raise k := by
      cases same : tag.other <;> simp [same]
    rw [mapTableau_raise (fun t => tag.other.elim t t.dropSymbol) partner, settle_raise]
    refine Outcome.andThen_embed (fun s₂ => ?_) _
    simp [release_raise, rows_raise, Outcome.embed_report, Event.raise]

theorem remove_raise (id : Nat) : (s.raise k).remove id =
    (s.remove id).embed (raise k) (Event.raise k) :=
  retract_raise (h := .posted id)

/-! ## Edits -/

theorem addEdit_raise {store store' : Store α} (same : store'.value v = store.value v)
    (strength : Strength α) : (s.raise k).addEdit store' v strength =
      (s.addEdit store v strength).embed (raise k) (Event.raise k) := by
  unfold addEdit
  rw [hasEdit_raise, same]
  split
  · rfl
  · dsimp only
    split
    · rfl
    · rw [minted_raise, show Handle.edit (s.minted + k) = (Handle.edit s.minted).raise k from rfl,
        post_raise]
      refine Outcome.andThen_embed (fun s₁ => ?_) _
      cases found : s₁.postings.find? (.edit s.minted) with
      | none => simp [found]
      | some posting =>
        have recorded := insertEdit_raise (k := k) (s := s₁) (v := v)
          ⟨posting.tag, .edit s.minted, store.value v⟩
        have found' : (s₁.raise k).postings.find? ((Handle.edit s.minted).raise k) =
            some (posting.raise k) := by
          simp [found]
        rw [found']
        exact congrArg (fun s' => (Outcome.ok s').report _) recorded

theorem removeEdit_raise : (s.raise k).removeEdit v =
    (s.removeEdit v).embed (raise k) (Event.raise k) := by
  cases found : s.edits.find? v with
  | none => simp [removeEdit, found]
  | some edit =>
    have erased : { s.raise k with edits := (s.raise k).edits.erase v } =
        raise k { s with edits := s.edits.erase v } := by
      simp [raise]
    have found' : (s.raise k).edits.find? v = some (edit.raise k) := by simp [found]
    simp only [removeEdit, found, found', erased]
    rw [show (edit.raise k).handle = edit.handle.raise k from rfl, retract_raise,
      ← Outcome.embed_mapError]
    refine Outcome.andThen_embed (fun s₁ => ?_) _
    rfl

theorem setEdit_raise {store store' : Store α} (same : store'.value v = store.value v)
    (strength : Strength α) : (s.raise k).setEdit store' v strength =
      (s.setEdit store v strength).embed (raise k) (Event.raise k) := by
  unfold setEdit
  rw [hasEdit_raise]
  split
  · rw [removeEdit_raise]
    exact Outcome.andThen_embed (fun _ => addEdit_raise same strength) _
  · exact addEdit_raise same strength

theorem suggest_raise (target : α) : (s.raise k).suggest v target =
    (s.suggest v target).embed (raise k) (Event.raise k) := by
  cases found : s.edits.find? v with
  | none => simp [suggest, found]
  | some edit =>
    have moved := insertEdit_raise (k := k) (s := s) (v := v) { edit with target }
    have found' : (s.raise k).edits.find? v = some (edit.raise k) := by simp [found]
    simp only [suggest, found, found']
    refine (congrArg (fun s' : Solver α => (s'.mapTableau fun t =>
      t.shiftTarget (edit.tag.raise k) (target - edit.target)).onTableau _) moved).trans ?_
    rw [mapTableau_raise (·.shiftTarget edit.tag (target - edit.target)) Tableau.shiftTarget_raise]
    exact onTableau_raise _ Tableau.dualOptimize_raise

end Solver

end Cassowary
