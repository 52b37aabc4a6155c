import Cassowary.Proofs.Separation
import Cassowary.Solver.Edit

/-!
The books of a solver: which symbol stands for which variable, how many terms refer to it, and which
symbols belong to which constraint. Drafting a constraint enters it in the books and releasing its
expression strikes it out again, term by term. Nothing here depends on the arithmetic.
-/

namespace Cassowary.Bookkeeping
open Endings MapEntries RowSymbols Separation Solver

variable {α : Type}

/-- A symbol that has been given out. -/
def Minted (minted : Nat) (s : Symbol) : Prop := 0 < s.id ∧ s.id ≤ minted

/-- Each tracked variable has an external symbol of its own. -/
structure TrackedWell (minted : Nat) (tracked : OrderedMap Variable Tracked) : Prop where
  symbol : ∀ v entry, tracked.find? v = some entry →
    entry.symbol.isExternal = true ∧ Minted minted entry.symbol
  distinct : ∀ v w entry entry', tracked.find? v = some entry → tracked.find? w = some entry' →
    entry.symbol = entry'.symbol → v = w

/-- Each variable is tracked as long as it is demanded, with as many uses as it is demanded. -/
def Counted (tracked : OrderedMap Variable Tracked) (demand : Variable → Nat) : Prop :=
  ∀ v, match tracked.find? v with
    | none => demand v = 0
    | some entry => entry.uses = demand v ∧ 0 < demand v

theorem demand_pos {tracked : OrderedMap Variable Tracked} {demand : Variable → Nat} {v : Variable}
    {entry : Tracked} (counted : Counted tracked demand) (found : tracked.find? v = some entry) :
    entry.uses = demand v ∧ 0 < demand v := by
  have here := counted v
  rwa [found] at here

theorem tracked_of_demand {tracked : OrderedMap Variable Tracked} {demand : Variable → Nat}
    {v : Variable} (counted : Counted tracked demand) (demanded : 0 < demand v) :
    ∃ entry, tracked.find? v = some entry := by
  have here := counted v
  cases found : tracked.find? v with
  | none => rw [found] at here; exact absurd here (by omega)
  | some entry => exact ⟨entry, rfl⟩

theorem minted_mono {few many : Nat} {s : Symbol} (minted : Minted few s) (more : few ≤ many) :
    Minted many s :=
  ⟨minted.1, Nat.le_trans minted.2 more⟩

theorem tracked_well_mono {few many : Nat} {tracked : OrderedMap Variable Tracked}
    (well : TrackedWell few tracked) (more : few ≤ many) : TrackedWell many tracked where
  symbol v entry found := (well.symbol v entry found).imp_right (minted_mono · more)
  distinct := well.distinct

/-- A solver that tracks more than another and has changed nothing else. A variable that was tracked
keeps its symbol, and a new one has a symbol that was not given out before. -/
structure Grows (s s' : Solver α) : Prop where
  minted : s.minted ≤ s'.minted
  tableau : s'.tableau = s.tableau
  postings : s'.postings = s.postings
  edits : s'.edits = s.edits
  kept : ∀ v entry, s.tracked.find? v = some entry →
    ∃ uses, s'.tracked.find? v = some ⟨entry.symbol, uses⟩
  fresh : ∀ v entry, s'.tracked.find? v = some entry →
    (∃ uses, s.tracked.find? v = some ⟨entry.symbol, uses⟩) ∨ s.minted < entry.symbol.id

theorem grows_refl (s : Solver α) : Grows s s :=
  ⟨Nat.le_refl _, rfl, rfl, rfl, fun _ entry found => ⟨entry.uses, found⟩,
    fun _ entry found => .inl ⟨entry.uses, found⟩⟩

theorem grows_trans {s s' s'' : Solver α} (first : Grows s s') (second : Grows s' s'') :
    Grows s s'' where
  minted := Nat.le_trans first.minted second.minted
  tableau := second.tableau.trans first.tableau
  postings := second.postings.trans first.postings
  edits := second.edits.trans first.edits
  kept v entry found := by
    obtain ⟨uses, later⟩ := first.kept v entry found
    exact second.kept v ⟨entry.symbol, uses⟩ later
  fresh v entry found := by
    rcases second.fresh v entry found with ⟨uses, earlier⟩ | new
    · exact first.fresh v ⟨entry.symbol, uses⟩ earlier
    · exact .inr (Nat.lt_of_le_of_lt first.minted new)

variable {s : Solver α} {v : Variable} {demand : Variable → Nat}

/-- Tracking a variable finds its symbol or mints one. -/
theorem track_eq (s : Solver α) (v : Variable) :
    (∃ entry, s.tracked.find? v = some entry ∧ s.track v =
      ({ s with tracked := s.tracked.insert v ⟨entry.symbol, entry.uses + 1⟩ }, entry.symbol)) ∨
    (s.tracked.find? v = none ∧ s.track v =
      ({ s with minted := s.minted + 1,
                tracked := s.tracked.insert v ⟨⟨s.minted + 1, .external⟩, 1⟩ },
        ⟨s.minted + 1, .external⟩)) := by
  unfold track
  cases found : s.tracked.find? v with
  | none => exact .inr ⟨rfl, rfl⟩
  | some entry => exact .inl ⟨entry, rfl, rfl⟩

theorem track_find? (s : Solver α) (v : Variable) :
    ∃ uses, (s.track v).1.tracked.find? v = some ⟨(s.track v).2, uses⟩ := by
  obtain ⟨entry, -, same⟩ | ⟨-, same⟩ := track_eq s v
  · exact ⟨entry.uses + 1, by simp [same]⟩
  · exact ⟨1, by simp [same]⟩

theorem track_grows (s : Solver α) (v : Variable) : Grows s (s.track v).1 := by
  obtain ⟨entry, held, same⟩ | ⟨absent, same⟩ := track_eq s v
  · rw [same]
    refine ⟨Nat.le_refl _, rfl, rfl, rfl, fun w entry' found => ?_, fun w entry' found => ?_⟩
    · by_cases here : v = w
      · subst here
        cases held.symm.trans found
        exact ⟨entry.uses + 1, by simp⟩
      · exact ⟨entry'.uses, by simpa [here] using found⟩
    · by_cases here : v = w
      · subst here
        simp only [OrderedMap.find?_insert, ↓reduceIte, Option.some.injEq] at found
        subst found
        exact .inl ⟨entry.uses, held⟩
      · exact .inl ⟨entry'.uses, by simpa [here] using found⟩
  · rw [same]
    refine ⟨Nat.le_succ _, rfl, rfl, rfl, fun w entry' found => ?_, fun w entry' found => ?_⟩
    · have here : v ≠ w := by
        rintro rfl
        rw [absent] at found
        cases found
      exact ⟨entry'.uses, by simpa [here] using found⟩
    · by_cases here : v = w
      · subst here
        simp only [OrderedMap.find?_insert, ↓reduceIte, Option.some.injEq] at found
        subst found
        exact .inr (Nat.lt_succ_self _)
      · exact .inl ⟨entry'.uses, by simpa [here] using found⟩

theorem track_well (well : TrackedWell s.minted s.tracked) :
    TrackedWell (s.track v).1.minted (s.track v).1.tracked := by
  have minted : Minted (s.track v).1.minted (s.track v).2 ∧
      (s.track v).2.isExternal = true := by
    obtain ⟨entry, held, same⟩ | ⟨-, same⟩ := track_eq s v
    · rw [same]
      exact (well.symbol v entry held).symm
    · rw [same]
      exact ⟨⟨Nat.succ_pos _, Nat.le_refl _⟩, rfl⟩
  have others : ∀ w, v ≠ w → (s.track v).1.tracked.find? w = s.tracked.find? w := by
    intro w here
    obtain ⟨entry, -, same⟩ | ⟨-, same⟩ := track_eq s v <;> simp [same, here]
  have own : ∀ w entry, s.tracked.find? w = some entry → entry.symbol = (s.track v).2 → v = w := by
    intro w entry found equal
    obtain ⟨entry', held, same⟩ | ⟨-, same⟩ := track_eq s v
    · rw [same] at equal
      exact well.distinct v w _ _ held found equal.symm
    · rw [same] at equal
      have bound := (well.symbol w entry found).2.2
      rw [equal] at bound
      exact absurd bound (Nat.not_succ_le_self _)
  obtain ⟨uses, here⟩ := track_find? s v
  refine ⟨fun w entry found => ?_, fun w w' entry entry' found found' equal => ?_⟩
  · by_cases same : v = w
    · subst same
      cases here.symm.trans found
      exact minted.symm
    · rw [others w same] at found
      exact (well.symbol w entry found).imp_right (minted_mono · (track_grows s v).minted)
  · by_cases same : v = w <;> by_cases same' : v = w'
    · exact same.symm.trans same'
    · subst same
      cases here.symm.trans found
      rw [others w' same'] at found'
      exact own w' entry' found' equal.symm
    · subst same'
      cases here.symm.trans found'
      rw [others w same] at found
      exact (own w entry found equal).symm
    · rw [others w same] at found
      rw [others w' same'] at found'
      exact well.distinct w w' entry entry' found found' equal

theorem track_counted (counted : Counted s.tracked demand) :
    Counted (s.track v).1.tracked fun w => demand w + if v = w then 1 else 0 := by
  intro w
  have here := counted w
  by_cases same : v = w
  · subst same
    obtain ⟨entry, held, same⟩ | ⟨absent, same⟩ := track_eq s v
    · rw [held] at here
      simp only [same, OrderedMap.find?_insert, ↓reduceIte] at here ⊢
      omega
    · rw [absent] at here
      simp only [same, OrderedMap.find?_insert, ↓reduceIte] at here ⊢
      omega
  · obtain ⟨entry, -, same'⟩ | ⟨-, same'⟩ := track_eq s v <;>
      simpa [same', same] using here

/-- Giving a reference up strikes the last one out, with the row of its symbol. -/
theorem untrack_eq {entry : Tracked} (held : s.tracked.find? v = some entry) :
    (entry.uses ≤ 1 ∧ s.untrack v =
      { s with tracked := s.tracked.erase v, tableau := s.tableau.dropRow entry.symbol }) ∨
    (1 < entry.uses ∧ s.untrack v =
      { s with tracked := s.tracked.insert v ⟨entry.symbol, entry.uses - 1⟩ }) := by
  unfold untrack
  simp only [held]
  by_cases last : entry.uses ≤ 1
  · exact .inl ⟨last, if_pos last⟩
  · exact .inr ⟨Nat.lt_of_not_le last, if_neg last⟩

theorem untrack_of_absent (absent : s.tracked.find? v = none) : s.untrack v = s := by
  simp [untrack, absent]

theorem untrack_counted (counted : Counted s.tracked fun w => demand w + if v = w then 1 else 0) :
    Counted (s.untrack v).tracked demand := by
  intro w
  have here := counted w
  obtain ⟨entry, held⟩ := tracked_of_demand (v := v) counted (by simp)
  have uses := (demand_pos counted held).1
  simp only [↓reduceIte] at uses
  by_cases same : v = w
  · subst same
    obtain ⟨last, eq⟩ | ⟨more, eq⟩ := untrack_eq held
    · simp only [eq, OrderedMap.find?_erase, ↓reduceIte]
      omega
    · simp only [eq, OrderedMap.find?_insert, ↓reduceIte]
      omega
  · obtain ⟨-, eq⟩ | ⟨-, eq⟩ := untrack_eq held <;>
      simpa [eq, same] using here

/-- A solver that tracks less than another. What it still tracks has kept its symbol. -/
structure Shrinks (s s' : Solver α) : Prop where
  minted : s'.minted = s.minted
  postings : s'.postings = s.postings
  edits : s'.edits = s.edits
  kept : ∀ v entry, s'.tracked.find? v = some entry →
    ∃ uses, s.tracked.find? v = some ⟨entry.symbol, uses⟩
  tidy : ∀ P, Tidy P s.tableau → Tidy P s'.tableau

theorem shrinks_refl (s : Solver α) : Shrinks s s :=
  ⟨rfl, rfl, rfl, fun _ entry found => ⟨entry.uses, found⟩, fun _ tidy => tidy⟩

theorem shrinks_trans {s s' s'' : Solver α} (first : Shrinks s s') (second : Shrinks s' s'') :
    Shrinks s s'' where
  minted := second.minted.trans first.minted
  postings := second.postings.trans first.postings
  edits := second.edits.trans first.edits
  kept v entry found := by
    obtain ⟨uses, earlier⟩ := second.kept v entry found
    exact first.kept v ⟨entry.symbol, uses⟩ earlier
  tidy P tidy := second.tidy P (first.tidy P tidy)

theorem untrack_shrinks (s : Solver α) (v : Variable) : Shrinks s (s.untrack v) := by
  cases held : s.tracked.find? v with
  | none =>
    rw [untrack_of_absent held]
    exact shrinks_refl s
  | some entry =>
    obtain ⟨-, eq⟩ | ⟨-, eq⟩ := untrack_eq held
    · rw [eq]
      refine ⟨rfl, rfl, rfl, fun w entry' found => ?_, fun P tidy => dropRow_tidy tidy⟩
      simp only [OrderedMap.find?_erase] at found
      split at found
      · cases found
      · exact ⟨entry'.uses, found⟩
    · rw [eq]
      refine ⟨rfl, rfl, rfl, fun w entry' found => ?_, fun P tidy => tidy⟩
      simp only [OrderedMap.find?_insert] at found
      split at found
      · rename_i same
        cases found
        subst same
        exact ⟨entry.uses, held⟩
      · exact ⟨entry'.uses, found⟩

theorem shrinks_well {s s' : Solver α} (shrinks : Shrinks s s')
    (well : TrackedWell s.minted s.tracked) : TrackedWell s'.minted s'.tracked where
  symbol v entry found := by
    obtain ⟨uses, earlier⟩ := shrinks.kept v entry found
    rw [shrinks.minted]
    exact well.symbol v ⟨entry.symbol, uses⟩ earlier
  distinct v w entry entry' found found' equal := by
    obtain ⟨uses, earlier⟩ := shrinks.kept v entry found
    obtain ⟨uses', earlier'⟩ := shrinks.kept w entry' found'
    exact well.distinct v w _ _ earlier earlier' equal

variable [Scalar α] {e : Expression α} {c : Constraint α}

/-- How many terms of an expression refer to a variable. -/
def mentions (e : Expression α) (v : Variable) : Nat :=
  e.relevantTerms.countP fun term => term.var = v

omit [Scalar α] in
theorem foldl_untrack_shrinks (terms : List (Term α)) (s : Solver α) :
    Shrinks s (terms.foldl (fun s term => s.untrack term.var) s) := by
  induction terms generalizing s with
  | nil => exact shrinks_refl s
  | cons term rest ih => exact shrinks_trans (untrack_shrinks s term.var) (ih _)

theorem release_shrinks (s : Solver α) (e : Expression α) : Shrinks s (s.release e) :=
  foldl_untrack_shrinks e.relevantTerms s

/-- Giving references up drops rows of a tableau at most. -/
theorem release_keeps {P : Tableau α → Prop} (dropRow : ∀ t z, P t → P (t.dropRow z))
    (e : Expression α) (kept : P s.tableau) : P (s.release e).tableau := by
  unfold release
  induction e.relevantTerms generalizing s with
  | nil => exact kept
  | cons term rest ih =>
    have next : P (s.untrack term.var).tableau := by
      cases found : s.tracked.find? term.var with
      | none => rwa [untrack_of_absent found]
      | some entry =>
        obtain ⟨-, eq⟩ | ⟨-, eq⟩ := untrack_eq found
        · rw [eq]
          exact dropRow _ _ kept
        · rwa [eq]
    exact ih next

omit [Scalar α] in
private theorem foldl_untrack_counted (terms : List (Term α)) {s : Solver α}
    (counted : Counted s.tracked fun v => demand v + terms.countP fun term => term.var = v) :
    Counted (terms.foldl (fun s term => s.untrack term.var) s).tracked demand := by
  induction terms generalizing s with
  | nil => simpa using counted
  | cons term rest ih =>
    refine ih (untrack_counted ?_)
    intro v
    simpa [List.countP_cons, add_assoc] using counted v

theorem release_counted (counted : Counted s.tracked fun v => demand v + mentions e v) :
    Counted (s.release e).tracked demand :=
  foldl_untrack_counted e.relevantTerms counted

omit [Scalar α] in
private theorem foldl_untrack_tableau (terms : List (Term α)) {s : Solver α}
    (counted : Counted s.tracked fun v => demand v + terms.countP fun term => term.var = v)
    (columns : ∀ v entry, s.tracked.find? v = some entry → demand v = 0 →
      ¬Basic s.tableau entry.symbol) :
    (terms.foldl (fun s term => s.untrack term.var) s).tableau = s.tableau := by
  induction terms generalizing s with
  | nil => rfl
  | cons term rest ih =>
    have counted' : Counted (s.untrack term.var).tracked
        fun v => demand v + rest.countP fun term => term.var = v := by
      apply untrack_counted
      intro v
      simpa [List.countP_cons, add_assoc] using counted v
    -- The row is dropped with the last reference only, and then nothing demands the variable.
    have same : (s.untrack term.var).tableau = s.tableau := by
      obtain ⟨entry, held⟩ := tracked_of_demand (v := term.var) counted
        (by simp only [List.countP_cons, decide_true, ↓reduceIte]; omega)
      obtain ⟨last, eq⟩ | ⟨-, eq⟩ := untrack_eq held
      · have uses := (demand_pos counted held).1
        simp only [List.countP_cons, decide_true, ↓reduceIte] at uses
        have column := columns term.var entry held (by omega)
        rw [eq]
        exact congrArg (fun rows => { s.tableau with rows })
          (erase_of_absent (not_contains_iff.mp (by simpa [Basic] using column)))
      · rw [eq]
    rw [List.foldl_cons, ih counted', same]
    intro v entry found none
    obtain ⟨uses, earlier⟩ := (untrack_shrinks s term.var).kept v entry found
    rw [same]
    exact columns v ⟨entry.symbol, uses⟩ earlier none

/-- Releasing an expression leaves the tableau as it is if no variable that is then demanded no
longer is basic. -/
theorem release_tableau (counted : Counted s.tracked fun v => demand v + mentions e v)
    (columns : ∀ v entry, s.tracked.find? v = some entry → demand v = 0 →
      ¬Basic s.tableau entry.symbol) :
    (s.release e).tableau = s.tableau :=
  foldl_untrack_tableau e.relevantTerms counted columns

end Cassowary.Bookkeeping
