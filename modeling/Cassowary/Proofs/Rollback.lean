import Cassowary.Proofs.Upkeep

/-!
Refused constraints leave no trace. A draft counts references, gives out symbols and charges errors
before anything is decided, and withdrawing it has to give back just that: the same references in the
same order, the same objective and the same rows. Only the numbers of the symbols are used up. This
holds in every state, also where an internal error has left references uncounted.
-/

namespace Cassowary.Rollback
open Endings MapEntries RowSymbols Separation Bookkeeping Drafting SolverBooks SessionBooks Upkeep
open Tableau Solver

variable {α : Type} {s s' : Solver α} {t : Tableau α} {v : Variable} {z : Symbol} {tag : Tag}

/-! ## References -/

/-- Every tracked variable is referred to. -/
def Used (tracked : OrderedMap Variable Tracked) : Prop :=
  ∀ v entry, tracked.find? v = some entry → 0 < entry.uses

/-- The number of references that are counted for a variable. -/
def uses (tracked : OrderedMap Variable Tracked) (v : Variable) : Nat :=
  (tracked.find? v).elim 0 Tracked.uses

theorem counted_of_used {tracked : OrderedMap Variable Tracked} (used : Used tracked) :
    Counted tracked (uses tracked) := by
  intro v
  unfold uses
  cases found : tracked.find? v with
  | none => rfl
  | some entry => exact ⟨rfl, used v entry found⟩

theorem used_of_counted {tracked : OrderedMap Variable Tracked} {demand : Variable → Nat}
    (counted : Counted tracked demand) : Used tracked := fun v entry found => by
  obtain ⟨same, positive⟩ := demand_pos counted found
  rwa [same]

theorem track_used (used : Used s.tracked) : Used (s.track v).1.tracked :=
  used_of_counted (track_counted (counted_of_used used))

theorem untrack_used (used : Used s.tracked) : Used (s.untrack v).tracked := by
  intro w entry found
  cases held : s.tracked.find? v with
  | none =>
    rw [untrack_of_absent held] at found
    exact used w entry found
  | some before =>
    obtain ⟨-, eq⟩ | ⟨more, eq⟩ := untrack_eq held
    · simp only [eq, OrderedMap.find?_erase] at found
      split at found
      · cases found
      · exact used w entry found
    · simp only [eq, OrderedMap.find?_insert] at found
      split at found
      · cases found
        exact Nat.sub_pos_of_lt more
      · exact used w entry found

theorem track_keys (s : Solver α) (v : Variable) :
    s.tracked.keys <+: (s.track v).1.tracked.keys := by
  have grown : ∀ entry, s.tracked.keys <+: (s.tracked.insert v entry).keys := by
    intro entry
    rw [OrderedMap.keys_insert]
    split
    · exact List.prefix_rfl
    · exact List.prefix_append ..
  obtain ⟨entry, -, same⟩ | ⟨-, same⟩ := track_eq s v <;>
    · rw [same]
      exact grown _

/-- Giving references up strikes variables out and changes no order. -/
theorem untrack_keys (s : Solver α) (v : Variable) :
    ∃ kept, (s.untrack v).tracked.keys = s.tracked.keys.filter kept := by
  have all : s.tracked.keys = s.tracked.keys.filter fun _ => true := by simp
  cases found : s.tracked.find? v with
  | none => exact ⟨_, (congrArg (·.tracked.keys) (untrack_of_absent found)).trans all⟩
  | some entry =>
    obtain ⟨-, eq⟩ | ⟨-, eq⟩ := untrack_eq found
    · exact ⟨_, (congrArg (·.tracked.keys) eq).trans (OrderedMap.keys_erase ..)⟩
    · have present : v ∈ s.tracked.keys := OrderedMap.mem_keys_iff.mpr (by rw [found]; rfl)
      refine ⟨_, (congrArg (·.tracked.keys) eq).trans (Eq.trans ?_ all)⟩
      exact (OrderedMap.keys_insert ..).trans (if_pos present)

/-- A list that filtering leaves of one it begins is that list if it has the same members. -/
theorem filter_eq_of_prefix {β : Type} {before after : List β} {kept : β → Bool}
    (grown : before <+: after) (distinct : after.Nodup)
    (same : ∀ x, x ∈ after.filter kept ↔ x ∈ before) : after.filter kept = before := by
  obtain ⟨new, rfl⟩ := grown
  have apart := (List.nodup_append.mp distinct).2.2
  have old : before.filter kept = before := List.filter_eq_self.mpr fun x member =>
    (List.mem_filter.mp ((same x).mpr member)).2
  have none : new.filter kept = [] := List.filter_eq_nil_iff.mpr fun x member chosen =>
    apart x ((same x).mp (List.mem_filter.mpr ⟨List.mem_append_right _ member, chosen⟩)) x member rfl
  rw [List.filter_append, old, none, List.append_nil]

variable [Scalar α] {c : Constraint α} {e : Expression α} {h : Handle}

theorem rowOf_keys (s : Solver α) (e : Expression α) :
    s.tracked.keys <+: (s.rowOf e).1.tracked.keys := by
  have folded : ∀ (terms : List (Term α)) (state : Solver α × Row α),
      state.1.tracked.keys <+: (terms.foldl insertTerm state).1.tracked.keys := by
    intro terms
    induction terms with
    | nil => exact fun _ => List.prefix_rfl
    | cons term rest ih => exact fun state => (track_keys state.1 term.var).trans (ih (insertTerm state term))
  exact folded e.relevantTerms (s, _)

theorem release_keys (s : Solver α) (e : Expression α) :
    ∃ kept, (s.release e).tracked.keys = s.tracked.keys.filter kept := by
  unfold release
  induction e.relevantTerms generalizing s with
  | nil => exact ⟨fun _ => true, by simp⟩
  | cons term rest ih =>
    obtain ⟨kept, eq⟩ := untrack_keys s term.var
    obtain ⟨kept', eq'⟩ := ih (s.untrack term.var)
    exact ⟨_, eq'.trans ((congrArg (List.filter kept') eq).trans List.filter_filter)⟩

/-- Releasing an expression gives back the references that its row counted, and the variables that
were tracked before are those that are tracked again, in their order. -/
theorem release_rowOf (used : Used s.tracked) (tracked : s'.tracked = (s.rowOf e).1.tracked) :
    (s'.release e).tracked = s.tracked := by
  have counted : Counted s'.tracked fun v => uses s.tracked v + mentions e v :=
    tracked ▸ rowOf_counted (counted_of_used used)
  have left : Counted (s'.release e).tracked (uses s.tracked) := release_counted counted
  have found : ∀ v, (s'.release e).tracked.find? v = s.tracked.find? v := by
    intro v
    cases before : s.tracked.find? v with
    | none =>
      cases after : (s'.release e).tracked.find? v with
      | none => rfl
      | some entry =>
        have positive := (demand_pos left after).2
        simp only [uses, before, Option.elim_none] at positive
        cases positive
    | some entry =>
      have demand : uses s.tracked v = entry.uses := by rw [uses, before]; rfl
      obtain ⟨⟨symbol, count⟩, after⟩ :=
        tracked_of_demand left (demand ▸ used v entry before)
      obtain ⟨more, here⟩ := (release_shrinks s' e).kept v _ after
      obtain ⟨more', there⟩ := (rowOf_grows s e).kept v entry before
      rw [tracked, there] at here
      cases here
      have same : count = entry.uses := (demand_pos left after).1.trans demand
      rw [after, same]
  refine ext_of_find? ?_ found
  obtain ⟨kept, eq⟩ := release_keys s' e
  rw [tracked] at eq
  rw [eq]
  refine filter_eq_of_prefix (rowOf_keys s e) (s.rowOf e).1.tracked.distinct fun v => ?_
  rw [← eq, OrderedMap.mem_keys_iff, OrderedMap.mem_keys_iff, found]

/-! ## The tableau -/

omit [Scalar α] in
private theorem foldl_remove_cells (symbols : List Symbol) (r : Row α) :
    (symbols.foldl Row.remove r).constant = r.constant ∧
      (symbols.foldl Row.remove r).cells.toList = r.cells.toList.filter (·.1 ∉ symbols) := by
  induction symbols generalizing r with
  | nil => simp
  | cons first rest ih =>
    obtain ⟨constant, cells⟩ := ih (r.remove first)
    refine ⟨constant, cells.trans ?_⟩
    simp [Row.remove, OrderedMap.erase, List.filter_filter, Bool.and_comm]

/-- Merging a coefficient concerns the cell of its symbol only. -/
theorem insertSymbol_others (r : Row α) {symbols : List Symbol} (member : z ∈ symbols) (x : α) :
    (r.insertSymbol z x).cells.toList.filter (·.1 ∉ symbols) =
      r.cells.toList.filter (·.1 ∉ symbols) := by
  have without : ∀ m : OrderedMap Symbol α, m.toList.filter (·.1 ∉ symbols) =
      (m.erase z).toList.filter (·.1 ∉ symbols) := by
    intro m
    rw [OrderedMap.erase, List.filter_filter]
    refine List.filter_congr fun cell _ => ?_
    by_cases same : cell.1 = z <;> simp [same, member]
  unfold Row.insertSymbol
  dsimp only
  split
  · exact (without r.cells).symm
  · rw [without, erase_insert, ← without]

/-- Merging and then removing some symbols leaves a row without them as it was. -/
theorem remove_insertCells {r : Row α} {cells : List (Symbol × α)} {symbols : List Symbol}
    (members : ∀ cell ∈ cells, cell.1 ∈ symbols) (absent : ∀ z ∈ symbols, r.holds z = false) :
    symbols.foldl Row.remove (r.insertCells cells) = r := by
  have others : (r.insertCells cells).constant = r.constant ∧
      (r.insertCells cells).cells.toList.filter (·.1 ∉ symbols) =
        r.cells.toList.filter (·.1 ∉ symbols) := by
    clear absent
    induction cells generalizing r with
    | nil => exact ⟨rfl, rfl⟩
    | cons cell rest ih =>
      obtain ⟨constant, same⟩ := @ih (r.insertSymbol cell.1 cell.2) fun cell member =>
        members cell (List.mem_cons_of_mem _ member)
      exact ⟨constant, same.trans (insertSymbol_others r (members cell List.mem_cons_self) cell.2)⟩
  have none : r.cells.toList.filter (·.1 ∉ symbols) = r.cells.toList := by
    refine List.filter_eq_self.mpr fun cell member => ?_
    have held := holds_of_mem member
    simp only [decide_eq_true_eq]
    intro inside
    rw [absent cell.1 inside] at held
    cases held
  obtain ⟨constant, cells'⟩ := foldl_remove_cells symbols (r.insertCells cells)
  have same := OrderedMap.ext (cells'.trans (others.2.trans none))
  rw [others.1] at constant
  revert same constant
  generalize symbols.foldl Row.remove (r.insertCells cells) = left
  obtain ⟨constant, cells⟩ := left
  rintro rfl rfl
  rfl

/-- Taking the charges for a new tag back leaves the tableau as it was. -/
theorem discharge_charge (weight : α) (absent : ∀ z ∈ tag.symbols, t.objective.holds z = false) :
    (t.charge tag weight).discharge tag = t := by
  refine congrArg (fun objective => { t with objective }) (remove_insertCells ?_ absent)
  intro cell member
  obtain ⟨error, mine, rfl⟩ := List.mem_map.mp member
  exact (List.mem_filter.mp mine).1

/-- The charges for a draft's errors are the first that the objective has of their symbols. -/
theorem discharge_draft (orderly : Orderly s) (weight : α) :
    (s.tableau.charge (s.draft c).tag weight).discharge (s.draft c).tag = s.tableau := by
  refine discharge_charge _ fun z member => ?_
  by_contra held
  have old := (orderly.tidy.line _ line_objective z (by simpa using held)).1.2
  exact absurd old (Nat.not_le_of_lt (draft_symbol member).2.1)

/-- A solver that has drafted a constraint and given out more numbers perhaps. -/
structure Drafted (s : Solver α) (c : Constraint α) (d : Solver α) : Prop where
  tracked : d.tracked = (s.rowOf c.expression).1.tracked
  tableau : d.tableau = s.tableau.charge (s.draft c).tag c.strength.value
  postings : d.postings = s.postings
  edits : d.edits = s.edits

variable {d : Solver α}

theorem withdraw_tracked (used : Used s.tracked) (drafted : Drafted s c d) (tag : Tag) :
    (d.withdraw c tag).tracked = s.tracked := by
  unfold withdraw
  exact release_rowOf used drafted.tracked

/-- Withdrawing a draft drops no row: what the draft tracks first has a new symbol, which is not
basic. -/
theorem withdraw_tableau (orderly : Orderly s) (used : Used s.tracked) (drafted : Drafted s c d) :
    (d.withdraw c (s.draft c).tag).tableau = s.tableau := by
  have counted : Counted d.tracked fun v => uses s.tracked v + mentions c.expression v :=
    drafted.tracked ▸ rowOf_counted (counted_of_used used)
  have rows : d.tableau.rows = s.tableau.rows := by rw [drafted.tableau]; rfl
  have released : (d.withdraw c (s.draft c).tag).tableau = d.tableau.discharge (s.draft c).tag := by
    unfold withdraw
    refine release_tableau (s := d.mapTableau (·.discharge (s.draft c).tag)) counted
      fun v entry found none basic => ?_
    have known : (s.rowOf c.expression).1.tracked.find? v = some entry := drafted.tracked ▸ found
    rcases (rowOf_grows s c.expression).fresh v entry known with ⟨count, earlier⟩ | newer
    · exact absurd (demand_pos (counted_of_used used) earlier).2 (by omega)
    · have old : Basic s.tableau entry.symbol := by
        unfold Basic
        rwa [← rows]
      exact absurd (orderly.tidy.basic _ old).2 (Nat.not_le_of_lt newer)
  rw [released, drafted.tableau, discharge_draft orderly]

/-- Withdrawing a draft restores the solver but for the numbers that it used up. -/
theorem withdrawn_eq (orderly : Orderly s) (used : Used s.tracked)
    (withdrawn : Withdrawn (s.draft c) c s') :
    s.minted ≤ s'.minted ∧ s' = { s with minted := s'.minted } := by
  obtain ⟨minted, more, rfl⟩ := withdrawn
  have drafted : Drafted s c { (s.draft c).solver with minted } :=
    ⟨draft_tracked, draft_tableau, draft_postings, draft_edits⟩
  have shrinks := withdraw_shrinks { (s.draft c).solver with minted } c (s.draft c).tag
  have tracked := withdraw_tracked used drafted (s.draft c).tag
  have tableau := withdraw_tableau orderly used drafted
  have postings := shrinks.postings.trans drafted.postings
  have edits := shrinks.edits.trans drafted.edits
  have grown : s.minted ≤ minted := Nat.le_trans (Nat.le_of_lt draft_minted_le) more
  refine ⟨shrinks.minted ▸ grown, ?_⟩
  revert tracked tableau postings edits
  generalize { (s.draft c).solver with minted }.withdraw c (s.draft c).tag = left
  obtain ⟨minted', tableau, postings, tracked, edits⟩ := left
  rintro rfl rfl rfl rfl
  rfl

/-! ## Contradictions -/

/-- One and its negative do not count as zero. -/
structure UnitsCount (α : Type) [Scalar α] : Prop where
  one : Scalar.nearZero (0 + 1 : α) = false
  negative : Scalar.nearZero (0 + -1 : α) = false

theorem float_unitsCount : UnitsCount Float := by
  constructor <;> decide +kernel

theorem insertSymbol_holds_self {r : Row α} {x : α} (absent : r.holds z = false)
    (counts : Scalar.nearZero (0 + x) = false) : (r.insertSymbol z x).holds z = true := by
  simp [Row.insertSymbol, coefficient_of_not_holds absent, counts, Row.holds, OrderedMap.contains]

/-- The cells of a tag bring its marker in. -/
theorem insertCells_holds_marker (counts : UnitsCount α) {r : Row α} {relation : Relation}
    {required : Bool} {k : Nat}
    (absent : r.holds (Tag.mint relation required k).marker = false) :
    (r.insertCells ((Tag.mint relation required k).cells relation)).holds
      (Tag.mint relation required k).marker = true := by
  have one : (r.insertSymbol (Tag.mint relation required k).marker 1).holds
      (Tag.mint relation required k).marker = true := insertSymbol_holds_self absent counts.one
  have negative : (r.insertSymbol (Tag.mint relation required k).marker (-1)).holds
      (Tag.mint relation required k).marker = true := insertSymbol_holds_self absent counts.negative
  cases relation <;> cases required <;>
    simp only [Tag.mint, Tag.cells, Row.insertCells, List.foldl_cons, List.foldl_nil] at one negative ⊢
  case lessOrEqual.false => rwa [holds_insertSymbol_of_ne (by simp)]
  case lessOrEqual.true => exact one
  case equal.false => rwa [holds_insertSymbol_of_ne (by simp)]
  case equal.true => exact one
  case greaterOrEqual.false => rwa [holds_insertSymbol_of_ne (by simp)]
  case greaterOrEqual.true => exact negative

/-- The row of a draft holds the marker of its tag. -/
theorem draft_holds_marker (counts : UnitsCount α) (orderly : Orderly s) :
    (s.draft c).row.holds (s.draft c).tag.marker = true := by
  rw [draft_holds]
  exact insertCells_holds_marker counts
    (rowOf_unheld orderly.books.tracked orderly.tidy List.mem_cons_self)

section Dummies
variable (counts : UnitsCount α) (orderly : Orderly s) (dummies : (s.draft c).row.allDummies = true)
include counts orderly dummies

/-- A draft without other symbols than dummies is that of a required equation. -/
theorem tag_of_allDummies : ∃ k, (s.draft c).tag = .mint .equal true k := by
  have dummy : (s.draft c).tag.marker.isDummy = true :=
    List.all_eq_true.mp dummies _ (holds_iff_mem_keys.mp (draft_holds_marker counts orderly))
  obtain ⟨relation, required, -⟩ := mint_dummy List.mem_cons_self dummy
  exact ⟨_, by rw [draft_tag, relation, required]⟩

/-- So there is no symbol that its row could be solved for. -/
theorem no_subject_of_allDummies : (s.draft c).subject? = none := by
  obtain ⟨k, tag⟩ := tag_of_allDummies counts orderly dummies
  have noVariable : (s.draft c).row.cells.keys.find? Symbol.isExternal = none :=
    List.find?_eq_none.mpr fun z member => by
      simp [Symbol.not_external_of_dummy (List.all_eq_true.mp dummies z member)]
  unfold Draft.subject?
  rw [noVariable, tag]
  rfl

/-- It was charged nothing either, so that withdrawing it is giving its references back. -/
theorem withdraw_of_allDummies :
    (s.draft c).solver.withdraw c (s.draft c).tag = (s.draft c).solver.release c.expression := by
  have errorless : (s.draft c).tag.errors = [] := by
    obtain ⟨k, tag⟩ := tag_of_allDummies counts orderly dummies
    rw [tag]
    rfl
  have uncharged : s.tableau.charge (s.draft c).tag c.strength.value = s.tableau := by
    unfold charge
    rw [errorless]
    rfl
  have same : (s.draft c).solver.tableau.discharge (s.draft c).tag = (s.draft c).solver.tableau := by
    rw [draft_tableau, discharge_draft orderly, uncharged]
  exact congrArg (fun tableau => Solver.release { (s.draft c).solver with tableau } c.expression) same

/-- A draft of dummies that contradict the required equations is refused at once, and nothing is done
about it but giving its references back. -/
theorem install_of_contradiction (contradicts : Scalar.nearZero (s.draft c).row.constant = false) :
    (s.draft c).install c =
      (Outcome.fail ((s.draft c).solver.release c.expression) .unsatisfiableConstraint).report
        (.unsatisfiable c) := by
  unfold Draft.install
  rw [no_subject_of_allDummies counts orderly dummies, dummies, contradicts,
    withdraw_of_allDummies counts orderly dummies]
  rfl

end Dummies

/-! ## Runs -/

/-- No artificial objective is left open. -/
def Closed (t : Tableau α) : Prop := t.artificial = none

theorem exchange_closed (entering leaving : Symbol) (row : Row α) (closed : Closed t) :
    Closed (t.exchange entering leaving row).state := by
  unfold exchange Closed
  dsimp only
  split
  · exact closed
  · simp [Outcome.ok, enter, substitute, dropRow, show t.artificial = none from closed]

theorem primal_closed (closed : Closed t) : Closed (t.optimize .primary).state := by
  refine state_of_ends <| ends_mono (PivotRuns.optimize_ends (Q := Closed) (R := Closed)
    (fun _ closed => closed) ?_ closed) (fun _ ended => ended.1) fun _ _ ended => ended.2
  intro t o closed stepped
  obtain ⟨objective, entering, -, -, ⟨-, rfl⟩ | ⟨leaving, row, -, rfl⟩⟩ :=
    PivotRuns.primalStep?_eq_some stepped
  · exact closed
  · exact ends_of_state (exchange_closed entering leaving row closed)

theorem dual_closed (closed : Closed t) : Closed t.dualOptimize.state := by
  refine state_of_ends <| ends_mono (PivotRuns.dualOptimize_ends (Q := Closed) (R := Closed)
    (fun _ _ closed => closed) (fun t leaving row queue entering closed _ _ =>
      ends_of_state (exchange_closed (t := { t with infeasible := queue }) _ _ _ closed)) closed)
    ?_ fun _ _ ended => ended.2
  rintro _ ⟨t, closed, -, rfl⟩
  exact closed

omit [Scalar α] in
theorem dropSymbol_closed (z : Symbol) (closed : Closed t) : Closed (t.dropSymbol z) := by
  unfold dropSymbol
  split <;> exact closed

/-- The artificial phase closes its objective whatever comes of it. -/
theorem enterArtificial_closed (z : Symbol) (row : Row α) :
    Ends (t.enterArtificial z row) Closed (fun _ _ => True) := by
  have retired : ∀ t : Tableau α, Closed t →
      Ends (t.retireArtificial z) Closed (fun _ _ => True) := by
    intro t closed
    unfold retireArtificial
    split
    · exact closed
    · split
      · exact closed
      · split
        · trivial
        · rw [ends_andThen]
          exact ends_mono (ends_of_state (exchange_closed _ _ _ closed)) (fun _ closed => closed)
            fun _ _ _ => trivial
  unfold enterArtificial
  rw [ends_andThen]
  refine ends_mono (ends_of_state (P := fun _ => True) trivial) (fun t' _ => ?_) fun _ _ _ => trivial
  rw [ends_andThen]
  refine ends_mono (retired _ rfl) (fun t'' closed => ?_) fun _ _ _ => trivial
  split
  · exact closed
  · trivial

/-- Whatever errors a run meets, no artificial objective stays open and no variable stays tracked that
nothing refers to. -/
theorem closed_upheld : Upheld (α := α) Closed Closed Closed Used where
  empty := ⟨rfl, fun v entry found => by cases found⟩
  holds closed := closed
  left closed := closed
  objective _ closed := closed
  dropRow _ closed := closed
  enter row _ _ closed := by
    simp [Closed, enter, substitute, show _ = none from closed]
  enterArtificial _ _ _ _ := enterArtificial_closed _ _
  evict z _ closed := by
    refine ends_of_state ?_
    unfold evict
    split
    · exact closed
    · split
      · exact closed
      · exact Outcome.andThen_state (exchange_closed _ _ _ closed) fun _ closed => closed
  dropSymbol z closed := dropSymbol_closed z closed
  settle _ closed := ends_of_state <|
    Outcome.andThen_state (primal_closed closed) fun _ closed => dual_closed closed
  shift tag delta _ closed := by
    refine ends_of_state (dual_closed ?_)
    unfold shiftTarget
    split
    · exact closed
    · split <;> exact closed
  track _ used := track_used used
  untrack _ used := untrack_used used

/-- After every run on arithmetic in which one counts, whatever errors the run meets, a new constraint
whose row contradicts the required equations is refused before anything is pivoted, and giving its
references back is all that is done about it. -/
theorem contradiction_only_releases (counts : UnitsCount α) (store : Store α)
    (commands : List (Command α)) (id : Nat) (c : Constraint α) :
    let s := (Session.run ⟨∅, store⟩ commands).solver
    let d := s.draft c
    s.contains id = false → d.row.allDummies = true → Scalar.nearZero d.row.constant = false →
      s.add id c = (Outcome.fail (d.solver.release c.expression) .unsatisfiableConstraint).report
        (.unsatisfiable c) := by
  intro s d absent dummies contradicts
  have free : ¬s.postings.contains (.posted id) = true := by
    rw [contains] at absent
    simp [absent]
  unfold add post
  dsimp only
  rw [if_neg free, install_of_contradiction counts (run_orderly store commands) dummies contradicts]
  rfl

/-- A quantity that is one cannot be two. -/
example :
    let x : Expression Float := .ofVariable ⟨0, none⟩
    let s := (Session.run ⟨∅, {}⟩ [.add 0 (.relate x .equal (.ofScalar 1))]).solver
    let d := s.draft (.relate x .equal (.ofScalar 2))
    s.contains 1 = false ∧ d.row.allDummies = true ∧ Scalar.nearZero d.row.constant = false := by
  decide +kernel

/-- After every run, whatever the arithmetic does and whatever errors the run meets, a constraint that
is refused as a duplicate or as unsatisfiable leaves the solver as it was, in every order, and only the
count of the symbols that were given out may have grown. No artificial objective is open then. -/
theorem refused_constraint_leaves_no_trace (store : Store α) (commands : List (Command α)) (id : Nat)
    (c : Constraint α) :
    let s := (Session.run ⟨∅, store⟩ commands).solver
    let o := s.add id c
    o.error? = some .duplicateConstraint ∨ o.error? = some .unsatisfiableConstraint →
      s.minted ≤ o.state.minted ∧ o.state = { s with minted := o.state.minted } ∧
        s.tableau.artificial = none := by
  intro s o refused
  obtain ⟨orderly, closed, used⟩ :=
    run_upholds closed_upheld (fun _ closed => closed) store commands
  have ended := post_ends (h := .posted id) (c := c) orderly fun k same => by cases same
  have left : o.state = s ∨ Withdrawn (s.draft c) c o.state := by
    rcases refused with duplicate | unsatisfiable
    · exact (ends_of_error_some ended duplicate).2.2 rfl
    · exact (ends_of_error_some ended unsatisfiable).2.2 rfl
  rcases left with same | withdrawn
  · rw [same]
    exact ⟨Nat.le_refl _, rfl, closed⟩
  · obtain ⟨more, same⟩ := withdrawn_eq orderly used withdrawn
    exact ⟨more, same, closed⟩

/-- Two quantities between zero and four, in a solver that has failed to remove a constraint before. -/
def boxedAfterFailure : List (Command Float) :=
  let x : Expression Float := .ofVariable ⟨0, none⟩
  let y : Expression Float := .ofVariable ⟨1, none⟩
  let z : Expression Float := .ofVariable ⟨2, none⟩
  [.add 4 (.relate (z.scale 1e9) .greaterOrEqual (.ofScalar 0)), .remove 4,
    .add 0 (.relate x .greaterOrEqual (.ofScalar 0)), .add 1 (.relate y .greaterOrEqual (.ofScalar 0)),
    .add 2 (.relate x .lessOrEqual (.ofScalar 4)), .add 3 (.relate y .lessOrEqual (.ofScalar 4))]

/-- The two quantities add up to ten at least. -/
def excessiveSum : Constraint Float :=
  .relate (.ofVariable ⟨0, none⟩ + .ofVariable ⟨1, none⟩) .greaterOrEqual (.ofScalar 10)

/-- Two pivots of the artificial phase find out that they cannot. -/
theorem excessiveSum_refused :
    ((Session.run ⟨∅, {}⟩ boxedAfterFailure).solver.add 5 excessiveSum).error? =
      some .unsatisfiableConstraint := by
  decide +kernel

theorem refused_constraint_leaves_no_trace_boxed :
    let s := (Session.run ⟨∅, {}⟩ boxedAfterFailure).solver
    let o := s.add 5 excessiveSum
    (o.error? = some .duplicateConstraint ∨ o.error? = some .unsatisfiableConstraint) ∧
      s.minted ≤ o.state.minted ∧ o.state = { s with minted := o.state.minted } ∧
        s.tableau.artificial = none :=
  ⟨.inr excessiveSum_refused,
    refused_constraint_leaves_no_trace {} boxedAfterFailure 5 excessiveSum (.inr excessiveSum_refused)⟩

end Cassowary.Rollback
