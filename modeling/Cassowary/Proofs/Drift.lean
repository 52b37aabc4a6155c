import Cassowary.Proofs.Doubles
import Cassowary.Proofs.SoftConstraints

/-!
How far an edited variable strays from what is suggested for it. The tableau does not keep targets: each
suggestion adds the difference of two targets to the constant that the earlier ones have left. Where the
edit is alone in the tableau, the constant is all that a suggestion changes, so that every rounding error
stays for good. On doubles the errors add up to less than the tolerance as long as there are not too many
suggestions that are too large, and a single one that is far larger than the next may spoil everything.
-/

namespace Cassowary.Drift
open Endings MapEntries RowSymbols Separation Bookkeeping Drafting SolverBooks SessionBooks
open Rollback SoftConstraints Tableau Solver

section Alone
variable {α : Type} [Scalar α] {t : Tableau α} {s : Solver α} {v : Variable} {value target : α}
  {strength : Strength α} {key z m o : Symbol} {row : Row α}

/-- The row of one symbol is all that there is in the tableau, and nothing waits for its repair. -/
structure Lone (key : Symbol) (row : Row α) (t : Tableau α) : Prop where
  only : t.rows.toList = [(key, row)]
  idle : t.infeasible = []

/-- The edit of a variable has the tableau for itself: the only row is that of the variable, which follows
the marker of the edit's equation one to one. -/
def Alone (s : Solver α) (v : Variable) (value target : α) : Prop :=
  ∃ edit entry row, s.edits.find? v = some edit ∧ s.tracked.find? v = some entry ∧
    Lone entry.symbol row s.tableau ∧ edit.target = target ∧ row.constant = value ∧
    row.coefficient edit.tag.marker = 1

omit [Scalar α] in
theorem lone_find? (lone : Lone key row t) (z : Symbol) :
    t.rows.find? z = if key = z then some row else none := by
  unfold OrderedMap.find?
  rw [lone.only]
  rfl

theorem alone_value (alone : Alone s v value target) : s.value v = value := by
  obtain ⟨edit, entry, row, -, tracked, lone, -, constant, -⟩ := alone
  simp [Solver.value, Tableau.value, tracked, lone_find? lone, constant]

/-! ## Suggestions -/

/-- The constant that is left when the target of a lonely edit moves step by step. -/
def follow (value target : α) : List α → α
  | [] => value
  | next :: rest => follow (value + (next - target) * 1) next rest

/-- Without queued rows the dual method has nothing to do. -/
theorem dualOptimize_of_idle (idle : t.infeasible = []) : t.dualOptimize = .ok t := by
  have none : nextInfeasible? t.rows t.infeasible = none := by rw [idle]; rfl
  unfold dualOptimize dualOptimizeWithin
  rw [none]
  obtain ⟨rows, objective, artificial, infeasible⟩ := t
  cases idle
  rfl

/-- Where the row of a variable is the only one, moving a target moves the constant of that row. -/
theorem shiftTarget_lone {tag : Tag} (delta : α) (lone : Lone key row t)
    (external : key.isExternal = true) (internal : ∀ z ∈ tag.symbols, z.isExternal = false)
    (counts : Scalar.nearZero (row.coefficient tag.marker) = false) :
    Lone key (row.addConstant (delta * row.coefficient tag.marker)) (t.shiftTarget tag delta) := by
  have column : ∀ z ∈ tag.symbols, t.rows.find? z = none := by
    intro z own
    rw [lone_find? lone, if_neg]
    rintro rfl
    rw [internal key own] at external
    cases external
  have other : (tag.other.bind fun other => (t.rows.find? other).map (other, ·)) = none := by
    cases present : tag.other with
    | none => rfl
    | some other => simp [column other (by simp [Tag.symbols, present])]
  unfold shiftTarget
  rw [column tag.marker List.mem_cons_self, other]
  constructor <;>
    simp [shiftColumn, OrderedMap.mapValues, lone.only, lone.idle, counts, violated,
      Symbol.isRestricted, external]

/-- A suggestion for a lonely edit succeeds, adds the difference of the targets to the constant and does
nothing else. -/
theorem suggest_alone (counts : Scalar.nearZero (1 : α) = false) (orderly : Orderly s)
    (alone : Alone s v value target) (next : α) :
    (s.suggest v next).error? = none ∧
      Alone (s.suggest v next).state v (value + (next - target) * 1) next := by
  obtain ⟨edit, entry, row, edited, tracked, lone, rfl, rfl, share⟩ := alone
  obtain ⟨old, strength, -, posted⟩ := orderly.books.edits.posted v edit edited
  have moved := shiftTarget_lone (next - edit.target) lone
    (orderly.books.tracked.symbol v entry tracked).1
    (fun z own => (tag_symbol orderly.books.postings posted own).1) (share ▸ counts)
  unfold suggest
  rw [edited]
  simp only [onTableau, mapTableau, dualOptimize_of_idle moved.idle]
  refine ⟨rfl, { edit with target := next }, entry, _, ?_, tracked, moved, rfl, ?_, share⟩
  · simp [Outcome.embed, Outcome.ok]
  · rw [share]
    rfl

/-- Suggestions for a lonely edit succeed, and the constant follows their differences. -/
theorem run_alone (counts : Scalar.nearZero (1 : α) = false) {session : Session α}
    (orderly : Orderly session.solver) (alone : Alone session.solver v value target)
    (targets : List α) :
    (∀ error ∈ session.errors (targets.map (.suggest v)), error = none) ∧
      Alone (session.run (targets.map (.suggest v))).solver v (follow value target targets)
        (targets.getLastD target) := by
  induction targets generalizing session value target with
  | nil => exact ⟨fun _ none => (nomatch none), alone⟩
  | cons next rest ih =>
    obtain ⟨fine, alone'⟩ := suggest_alone counts orderly alone next
    have orderly' : Orderly (session.step (.suggest v next)).state.solver := step_orderly orderly _
    obtain ⟨fines, last⟩ := ih orderly' alone'
    refine ⟨fun error met => ?_, by rw [List.getLastD_cons]; exact last⟩
    rcases List.mem_cons.mp met with rfl | later
    · exact fine
    · exact fines error later

/-! ## Adding the edit -/

/-- The tableau has no rows, and nothing waits for its repair. -/
def Bare (t : Tableau α) : Prop := t.rows.toList = [] ∧ t.infeasible = []

/-- What solving the equation of an edit for its variable relies on. -/
structure UnitsDivide (α : Type) [Scalar α] : Prop where
  compare : UnitsCompare α
  one : Scalar.nearZero (1 : α) = false
  kept : (0 + -1) * (-1 / (0 + 1)) = (1 : α)
  reversed : -(0 + -1) * (-1 / -(0 + 1)) = (1 : α)

/-- The constant of an edit's row at first. The equation is given a constant that is not negative and then
solved for the variable. -/
def begun (target : α) : α :=
  let constant := 0 + target * -1
  if Scalar.isNegative constant then -constant * (-1 / -(0 + 1)) else constant * (-1 / (0 + 1))

/-- The equation of an edit whose variable is not basic, over the variable's symbol and those of its tag. -/
def editRow (target : α) (z m o : Symbol) : Row α :=
  ((Row.ofConstant (0 + target * -1)).insertSymbol z 1).insertCells [(m, -1), (o, 1)]

theorem editRow_cells (target : α) (counts : UnitsCount α) (apart : z ≠ m) (apart' : z ≠ o)
    (distinct : m ≠ o) :
    (editRow target z m o).cells.find? z = some (0 + 1) ∧
      (editRow target z m o).cells.find? m = some (0 + -1) := by
  have absent : ∀ y, z ≠ y →
      ((Row.ofConstant (0 + target * -1)).insertSymbol z 1).holds y = false := fun y apart =>
    holds_insertSymbol_of_ne (Ne.symm apart)
  refine ⟨?_, (find?_insertUnits (absent m apart) (absent o apart') distinct counts.negative
    counts.one).1⟩
  simp only [editRow, Row.insertCells, List.foldl_cons, List.foldl_nil]
  rw [find?_insertSymbol_of_ne (Ne.symm apart'), find?_insertSymbol_of_ne (Ne.symm apart),
    find?_insertSymbol rfl counts.one]

theorem editRow_holds {y : Symbol} (held : (editRow target z m o).holds y = true) :
    y = z ∨ y = m ∨ y = o := by
  rcases holds_insertCells held with ⟨cell, member, rfl⟩ | before
  · simp only [List.mem_cons, List.not_mem_nil, or_false] at member
    rcases member with rfl | rfl <;> simp
  · exact .inl ((holds_insertSymbol before).resolve_right (by simp))

/-- An equation with the sign that keeps its constant from being negative. -/
def upright (row : Row α) : Row α := if Scalar.isNegative row.constant then row.reverseSign else row

theorem holds_upright (row : Row α) (y : Symbol) : (upright row).holds y = row.holds y := by
  unfold upright
  split
  · exact holds_reverseSign
  · rfl

/-- The variable is the only free symbol in the equation of its edit. -/
theorem editRow_first (target : α) (counts : UnitsCount α) (external : z.isExternal = true)
    (internal : m.isExternal = false) (internal' : o.isExternal = false) (distinct : m ≠ o) :
    (upright (editRow target z m o)).cells.keys.find? Symbol.isExternal = some z := by
  have apart : ∀ {y : Symbol}, y.isExternal = false → z ≠ y := by
    rintro _ internal rfl
    rw [external] at internal
    cases internal
  have held : (upright (editRow target z m o)).holds z = true := by
    rw [holds_upright]
    exact holds_iff.mpr
      ⟨_, (editRow_cells target counts (apart internal) (apart internal') distinct).1⟩
  obtain ⟨y, found⟩ := Option.isSome_iff_exists.mp (List.find?_isSome.mpr
    ⟨z, holds_iff_mem_keys.mp held, external⟩)
  have free : y.isExternal = true := List.find?_some found
  have here := holds_iff_mem_keys.mpr (List.mem_of_find?_eq_some found)
  rw [holds_upright] at here
  rcases editRow_holds here with rfl | rfl | rfl
  · exact found
  · rw [internal] at free
    cases free
  · rw [internal'] at free
    cases free

/-- Solved for the variable, the equation of an edit follows its marker one to one. -/
theorem solveFor_editRow {ε : Type} (target : α) (units : UnitsDivide α) (apart : z ≠ m)
    (apart' : z ≠ o) (distinct : m ≠ o) :
    ∃ solved, (upright (editRow target z m o)).solveFor z = (.ok solved : Outcome ε (Row α)) ∧
      solved.constant = begun target ∧ solved.coefficient m = 1 := by
  obtain ⟨own, marker⟩ := editRow_cells target units.compare.counts apart apart' distinct
  by_cases negative : Scalar.isNegative (0 + target * -1) = true
  · have same : upright (editRow target z m o) = (editRow target z m o).reverseSign := if_pos negative
    have found : (upright (editRow target z m o)).cells.find? z = some (-(0 + 1)) := by
      rw [same, Row.reverseSign, OrderedMap.find?_mapValues, own, Option.map_some]
    refine ⟨_, by rw [Row.solveFor, found], ?_, ?_⟩
    · rw [begun, if_pos negative, same]
      rfl
    · simp [same, Row.coefficient, Row.scale, Row.remove, Row.reverseSign, OrderedMap.findD, marker,
        apart, units.reversed]
  · have same : upright (editRow target z m o) = editRow target z m o := if_neg negative
    have found : (upright (editRow target z m o)).cells.find? z = some (0 + 1) := by rw [same, own]
    refine ⟨_, by rw [Row.solveFor, found], ?_, ?_⟩
    · rw [begun, if_neg negative, same]
      rfl
    · simp [same, Row.coefficient, Row.scale, Row.remove, OrderedMap.findD, marker, apart, units.kept]

theorem rowOf_edit (one : Scalar.nearZero (1 : α) = false) (bare : Bare s.tableau) (v : Variable)
    (target : α) (strength : Strength α) :
    s.rowOf (editConstraint v target strength).expression =
      ((s.track v).1, (Row.ofConstant (0 + target * -1)).insertSymbol (s.track v).2 1) := by
  have column : (s.track v).1.tableau.rows.find? (s.track v).2 = none := by
    rw [(track_grows s v).tableau, OrderedMap.find?, bare.1]
    rfl
  have relevant : (editConstraint v target strength).expression.relevantTerms = [.ofVariable v] := by
    show List.filter _ [Term.ofVariable v] = _
    simp [Term.ofVariable, one]
  unfold rowOf
  rw [relevant]
  simp only [List.foldl_cons, List.foldl_nil, insertTerm, insertVariable, Term.ofVariable, column]
  rfl

theorem draft_editRow (one : Scalar.nearZero (1 : α) = false) (bare : Bare s.tableau)
    (soft : (editConstraint v target strength).isRequired = false) :
    ∃ k, (s.draft (editConstraint v target strength)).tag = ⟨⟨k + 1, .error⟩, some ⟨k + 2, .error⟩⟩ ∧
      (s.draft (editConstraint v target strength)).row =
        upright (editRow target (s.track v).2 ⟨k + 1, .error⟩ ⟨k + 2, .error⟩) := by
  obtain ⟨k, tag⟩ : ∃ k, (s.draft (editConstraint v target strength)).tag =
      ⟨⟨k + 1, .error⟩, some ⟨k + 2, .error⟩⟩ := ⟨_, by rw [draft_tag, soft]; rfl⟩
  have built : (s.rowOf (editConstraint v target strength).expression).2 =
      (Row.ofConstant (0 + target * -1)).insertSymbol (s.track v).2 1 := by
    rw [rowOf_edit one bare]
  have cells : (s.draft (editConstraint v target strength)).tag.cells .equal =
      [(⟨k + 1, .error⟩, (-1 : α)), (⟨k + 2, .error⟩, 1)] := by
    rw [tag]
    rfl
  refine ⟨k, tag, ?_⟩
  rw [editRow, ← cells, ← built]
  rfl

/-- The draft of an edit's equation is solved for the variable. -/
theorem draft_edit (units : UnitsDivide α) (orderly : Orderly s) (bare : Bare s.tableau)
    (soft : (editConstraint v target strength).isRequired = false) :
    let d := s.draft (editConstraint v target strength)
    ∃ solved, d.install (editConstraint v target strength) =
        .ok (d.solver.mapTableau (·.enter (s.track v).2 solved)) ∧
      solved.constant = begun target ∧ solved.coefficient d.tag.marker = 1 := by
  intro d
  obtain ⟨uses, tracked⟩ := track_find? s v
  have external := ((track_well orderly.books.tracked).symbol v _ tracked).1
  obtain ⟨k, tag, row⟩ := draft_editRow units.one bare soft
  have distinct : (⟨k + 1, .error⟩ : Symbol) ≠ ⟨k + 2, .error⟩ := by simp
  have internal : ∀ n, (s.track v).2 ≠ ⟨n, .error⟩ := by
    intro n same
    rw [same] at external
    cases external
  obtain ⟨solved, solving, constant, share⟩ := solveFor_editRow (ε := Event α) target units
    (internal (k + 1)) (internal (k + 2)) distinct
  have first := editRow_first target units.compare.counts external rfl rfl distinct
  rw [← row] at solving first
  have subject : d.subject? = some (s.track v).2 := by
    rw [Draft.subject?, first]
    rfl
  refine ⟨solved, ?_, constant, by rw [tag]; exact share⟩
  unfold Draft.install
  rw [subject]
  simp only [Draft.enter, d, solving]
  rfl

/-- The first row that enters a bare tableau is alone there. -/
theorem enter_lone (bare : Bare t) (key : Symbol) (row : Row α) : Lone key row (t.enter key row) := by
  have none : t.rows = ∅ := OrderedMap.ext bare.1
  constructor
  · simp [enter, substitute, none]
    rfl
  · simp [enter, substitute, none, bare.2]
    rfl

/-- Settling leaves the row of a variable alone: it bounds no column and needs no repair. -/
theorem settle_lone (external : key.isExternal = true) (lone : Lone key row s.tableau) :
    Ends s.settle (fun s' => Lone key row s'.tableau) (fun _ _ => True) := by
  have optimized : Ends (s.tableau.optimize .primary)
      (fun t => Lone key row t ∧ t.primalStep? .primary = none)
      (fun error _ => error.isInternal = true ∧ True) := by
    refine PivotRuns.optimize_ends (fun _ _ => trivial) (fun t o lone stepped => ?_) lone
    obtain ⟨objective, entering, -, -, ⟨-, rfl⟩ | ⟨leaving, row', found, rfl⟩⟩ :=
      PivotRuns.primalStep?_eq_some stepped
    · exact ⟨lone.only, lone.idle⟩
    · obtain ⟨-, pick, best, rfl⟩ := PivotRuns.leavingRow?_eq_some found
      obtain ⟨y, r, held, restricted, -, rfl⟩ := PivotRuns.mem_leavingPicks.mp (Pick.best?_mem best)
      rw [lone_find? lone] at held
      split at held
      · rename_i same
        rw [← same, Symbol.isRestricted, external] at restricted
        cases restricted
      · cases held
  unfold Solver.settle onTableau
  rw [ends_embed, ends_andThen]
  refine ends_mono optimized (fun t both => ?_) fun _ _ _ => trivial
  rw [dualOptimize_of_idle both.1.idle, ends_ok]
  exact both.1

/-- An edit that is added to a bare tableau is alone there. -/
theorem addEdit_alone (units : UnitsDivide α) (orderly : Orderly s) (bare : Bare s.tableau)
    (store : Store α) (v : Variable) (strength : Strength α) :
    Ends (s.addEdit store v strength)
      (fun s' => Alone s' v (begun (store.value v)) (store.value v)) (fun _ _ => True) := by
  unfold addEdit
  split
  · trivial
  · dsimp only
    split
    · trivial
    · rename_i notRequired
      have soft : (editConstraint v (store.value v) strength.clip).isRequired = false :=
        clip_clip_soft units.compare (by simpa using notRequired)
      obtain ⟨solved, installed, constant, share⟩ := draft_edit units orderly bare soft
      obtain ⟨uses, tracked⟩ := track_find? s v
      have external := ((track_well orderly.books.tracked).symbol v _ tracked).1
      have lone : Ends (s.post (.edit s.minted) (editConstraint v (store.value v) strength.clip))
          (fun s' => Lone (s.track v).2 solved s'.tableau) (fun _ _ => True) := by
        unfold post
        split
        · trivial
        · dsimp only
          rw [installed, ends_andThen, ends_ok, ends_andThen]
          refine ends_mono (settle_lone external ?_) (fun _ lone => lone) fun _ _ _ => trivial
          refine enter_lone ?_ _ _
          rw [draft_tableau]
          exact bare
      rw [ends_andThen]
      refine ends_mono (ends_and (post_ends orderly (edit_serial s)) lone) ?_ fun _ _ _ => trivial
      rintro s₁ ⟨⟨-, -, posted⟩, lone₁⟩
      rw [posted.postings, OrderedMap.find?_insert, if_pos rfl]
      have known : s₁.tracked.find? v = some ⟨(s.track v).2, uses⟩ := by
        rw [posted.tracked, draft_tracked, rowOf_edit units.one bare]
        exact tracked
      refine ⟨⟨_, .edit s.minted, store.value v⟩, _, solved, ?_, known, lone₁, rfl, constant, share⟩
      simp [Outcome.report, Outcome.ok]

end Alone

/-! ## Rounding errors -/

section Errors
open Doubles
variable {value target next one : Float} {targets : List Float} {gap top : Rat} {n : Nat}
  {v : Variable}

theorem float_unitsDivide : UnitsDivide Float where
  compare := float_unitsCompare
  one := by decide +kernel
  kept := by decide +kernel
  reversed := by decide +kernel

/-- A finite double that is no larger than some number. -/
def Within (top : Rat) (x : Float) : Prop := x.isFinite = true ∧ |exact x| ≤ top

/-- What the errors of some suggestions may add up to, from the gap that there was at first. -/
def allowance (gap top : Rat) (n : Nat) : Rat := gap + n * (gap + 2 * top) / 2 ^ 52

/-- One suggestion adds two rounding errors: that of the difference of the targets and that of the sum. -/
theorem step_near (unit : SignedOne .positive one) (finite : value.isFinite = true)
    (before : Within top target) (after : Within top next) (near : |exact value - exact target| ≤ gap)
    (range : gap + 4 * top ≤ 2 ^ (1023 : Int)) :
    (value + (next - target) * one).isFinite = true ∧
      |exact (value + (next - target) * one) - exact next| ≤ gap + (gap + 7 / 2 * top) / 2 ^ 53 := by
  have gap_nonneg := (abs_nonneg _).trans near
  have top_nonneg := (abs_nonneg _).trans before.2
  have apart : |exact next - exact target| ≤ 2 * top := by
    have sum := abs_sub (exact next) (exact target)
    linarith [before.2, after.2]
  obtain ⟨finite', rounding⟩ := exact_sub after.1 before.1
    (apart.trans (le_trans (by linarith) range))
  obtain ⟨finite', same⟩ := exact_mul_one finite' unit
  rw [← same] at rounding
  generalize (next - target) * one = delta at *
  have off : |exact delta - (exact next - exact target)| ≤ 2 * top / 2 ^ 53 := by
    rw [le_div_iff₀ (by positivity)]
    exact rounding.trans apart
  have sum : |exact value + exact delta| ≤ gap + top + 2 * top / 2 ^ 53 := by
    have split : exact value + exact delta = (exact value - exact target) +
        (exact delta - (exact next - exact target)) + exact next := by ring
    rw [split]
    have parts := abs_add_three (exact value - exact target)
      (exact delta - (exact next - exact target)) (exact next)
    linarith [after.2]
  obtain ⟨finite'', rounding'⟩ := exact_add finite finite'
    (sum.trans (le_trans (by linarith) range))
  refine ⟨finite'', ?_⟩
  have off' : |exact (value + delta) - (exact value + exact delta)| ≤
      (gap + top + 2 * top / 2 ^ 53) / 2 ^ 53 := by
    rw [le_div_iff₀ (by positivity)]
    exact rounding'.trans sum
  have split : exact (value + delta) - exact next = (exact (value + delta) - (exact value + exact delta)) +
      (exact value - exact target) + (exact delta - (exact next - exact target)) := by ring
  rw [split]
  have parts := abs_add_three (exact (value + delta) - (exact value + exact delta))
    (exact value - exact target) (exact delta - (exact next - exact target))
  linarith

/-- An edit begins exactly at its target. -/
theorem begun_exact (finite : target.isFinite = true) :
    (begun target).isFinite = true ∧ exact (begun target) = exact target := by
  obtain ⟨finite', negated⟩ := exact_mul_minusOne finite (y := -1) (by rfl)
  obtain ⟨finite', constant⟩ := exact_zero_add finite'
  unfold begun
  dsimp only
  split
  · obtain ⟨finite', reversed⟩ := exact_neg finite'
    obtain ⟨finite', same⟩ := exact_mul_one finite' (y := -1 / -(0 + 1)) (by rfl)
    exact ⟨finite', same.trans (by rw [reversed, constant, negated, neg_neg])⟩
  · obtain ⟨finite', reversed⟩ := exact_mul_minusOne finite' (y := -1 / (0 + 1)) (by rfl)
    exact ⟨finite', reversed.trans (by rw [constant, negated, neg_neg])⟩

theorem allowance_le (gap_nonneg : 0 ≤ gap) (top_nonneg : 0 ≤ top) (few : n ≤ 2 ^ 50) :
    allowance gap top n ≤ 5 / 4 * gap + top / 2 := by
  have few : (n : Rat) ≤ 2 ^ 50 := by exact_mod_cast few
  have product := mul_le_mul_of_nonneg_right few (by positivity : 0 ≤ gap + 2 * top)
  unfold allowance
  linarith

/-- The allowance of one more suggestion covers its two rounding errors. -/
theorem allowance_step (gap_nonneg : 0 ≤ gap) (top_nonneg : 0 ≤ top) (few : n ≤ 2 ^ 50) :
    allowance gap top n + (allowance gap top n + 7 / 2 * top) / 2 ^ 53 ≤ allowance gap top (n + 1) := by
  have small := allowance_le gap_nonneg top_nonneg few
  have more : allowance gap top (n + 1) = allowance gap top n + (gap + 2 * top) / 2 ^ 52 := by
    unfold allowance
    push_cast
    ring
  rw [more]
  linarith

theorem follow_allowed (unit : SignedOne .positive (1 : Float)) (finite : value.isFinite = true)
    (bounded : ∀ x ∈ target :: targets, Within top x) (gap_nonneg : 0 ≤ gap)
    (near : |exact value - exact target| ≤ allowance gap top n)
    (few : n + targets.length ≤ 2 ^ 50) (range : gap + top ≤ 2 ^ (1020 : Int)) :
    (follow value target targets).isFinite = true ∧
      |exact (follow value target targets) - exact (targets.getLastD target)| ≤
        allowance gap top (n + targets.length) := by
  induction targets generalizing value target n with
  | nil => exact ⟨finite, near⟩
  | cons next rest ih =>
    have before := bounded target List.mem_cons_self
    have later : ∀ x ∈ next :: rest, Within top x := fun x given =>
      bounded x (List.mem_cons_of_mem _ given)
    have top_nonneg := (abs_nonneg _).trans before.2
    rw [List.length_cons] at few
    have soon : n ≤ 2 ^ 50 := by omega
    have small := allowance_le gap_nonneg top_nonneg soon
    have wide : 8 * (gap + top) ≤ 2 ^ (1023 : Int) :=
      calc 8 * (gap + top) ≤ 2 ^ (3 : Int) * 2 ^ (1020 : Int) := by
            gcongr
            norm_num
        _ = 2 ^ (1023 : Int) := (Rounding.two_zpow_add 3 1020).symm
    obtain ⟨finite', near'⟩ := step_near unit finite before (later next List.mem_cons_self) near
      (le_trans (by linarith) wide)
    rw [List.getLastD_cons, List.length_cons, ← Nat.add_assoc, Nat.add_right_comm]
    exact ih finite' later (near'.trans (allowance_step gap_nonneg top_nonneg soon)) (by omega)

/-- The errors of all suggestions stay within the allowance. -/
theorem follow_near (unit : SignedOne .positive (1 : Float)) (finite : value.isFinite = true)
    (bounded : ∀ x ∈ target :: targets, Within top x) (near : |exact value - exact target| ≤ gap)
    (few : targets.length ≤ 2 ^ 50) (range : gap + top ≤ 2 ^ (1020 : Int)) :
    (follow value target targets).isFinite = true ∧
      |exact (follow value target targets) - exact (targets.getLastD target)| ≤
        allowance gap top targets.length := by
  have start : |exact value - exact target| ≤ allowance gap top 0 := by simpa [allowance] using near
  have followed := follow_allowed unit finite bounded ((abs_nonneg _).trans near) start
    (by rwa [Nat.zero_add]) range
  rwa [Nat.zero_add] at followed

/-- The tolerance, to the last bit. -/
theorem exact_tolerance : exact (Scalar.tolerance : Float) = 6044629098073146 / 2 ^ 79 :=
  (exact_of_positive 6044629098073146 (-79) (by decide) (by rfl)).trans (by norm_num)

/-- An edit that begins at its target stays within the tolerance of it. -/
theorem begun_near (bounded : ∀ x ∈ target :: targets, Within top x) (few : targets.length ≤ 2 ^ 50)
    (light : (targets.length + 1) * top ≤ 2 ^ 24) :
    |exact (follow (begun target) target targets) - exact (targets.getLastD target)| <
      exact (Scalar.tolerance : Float) := by
  have before := bounded target List.mem_cons_self
  obtain ⟨finite, exactly⟩ := begun_exact before.1
  have near : |exact (begun target) - exact target| ≤ 0 := by rw [exactly, sub_self, abs_zero]
  have top_nonneg := (abs_nonneg _).trans before.2
  have product : 0 ≤ targets.length * top := by positivity
  have range : 0 + top ≤ 2 ^ (1020 : Int) :=
    calc 0 + top ≤ 2 ^ (24 : Int) := by linarith
      _ ≤ 2 ^ (1020 : Int) := zpow_le_zpow_right₀ one_le_two (by norm_num)
  calc |exact (follow (begun target) target targets) - exact (targets.getLastD target)|
      ≤ allowance 0 top targets.length := (follow_near (by rfl) finite bounded near few range).2
    _ < exact (Scalar.tolerance : Float) := by
      rw [exact_tolerance]
      unfold allowance
      linarith

/-! ## Sessions -/

theorem added_alone {session : Session Float} {strength : Strength Float}
    (orderly : Orderly session.solver) (bare : Bare session.solver.tableau)
    (added : (session.step (.addEdit v strength)).error? = none) :
    Alone (session.step (.addEdit v strength)).state.solver v (begun (session.store.value v))
      (session.store.value v) :=
  ends_of_error_none (addEdit_alone float_unitsDivide orderly bare session.store v strength) added

/-- How far a variable strays from what is suggested for it on doubles, whatever the session has seen
before. If its edit is added where the tableau has no rows, or if the edit has come to have the tableau for
itself otherwise, then every suggestion succeeds and adds the rounded difference of two targets to the
value of the variable. In the former case the variable takes the suggested value up to less than the
tolerance, as long as the number of targets times the largest of them does not exceed two to the power of
24. In the latter the gap that there was grows by no more than what the rounding of that many sums and
differences may add up to. -/
theorem suggestions_drift_slowly (store : Store Float) (commands : List (Command Float)) (v : Variable)
    (targets : List Float) :
    let session := Session.run ⟨∅, store⟩ commands
    (∀ strength, Bare session.solver.tableau → (session.step (.addEdit v strength)).error? = none →
      let start := session.store.value v
      let edited := (session.step (.addEdit v strength)).state
      let value := (edited.run (targets.map (.suggest v))).solver.value v
      (∀ error ∈ edited.errors (targets.map (.suggest v)), error = none) ∧
        value = follow (begun start) start targets ∧
        ∀ top, (∀ x ∈ start :: targets, Within top x) → targets.length ≤ 2 ^ 50 →
          (targets.length + 1) * top ≤ 2 ^ 24 →
          |exact value - exact (targets.getLastD start)| < exact (Scalar.tolerance : Float)) ∧
    ∀ former target, Alone session.solver v former target →
      let value := (session.run (targets.map (.suggest v))).solver.value v
      (∀ error ∈ session.errors (targets.map (.suggest v)), error = none) ∧
        value = follow former target targets ∧
        ∀ gap top, former.isFinite = true → |exact former - exact target| ≤ gap →
          (∀ x ∈ target :: targets, Within top x) → targets.length ≤ 2 ^ 50 →
          gap + top ≤ 2 ^ (1020 : Int) →
          |exact value - exact (targets.getLastD target)| ≤
            gap + targets.length * (gap + 2 * top) / 2 ^ 52 := by
  intro session
  have orderly : Orderly session.solver := run_orderly store commands
  refine ⟨fun strength bare added => ?_, fun former target alone => ?_⟩
  · intro start edited value
    obtain ⟨fine, after⟩ := run_alone float_unitsDivide.one (step_orderly orderly _)
      (added_alone orderly bare added) targets
    have followed : value = follow (begun start) start targets := alone_value after
    refine ⟨fine, followed, fun top bounded few light => ?_⟩
    rw [followed]
    exact begun_near bounded few light
  · intro value
    obtain ⟨fine, after⟩ := run_alone float_unitsDivide.one orderly alone targets
    have followed : value = follow former target targets := alone_value after
    refine ⟨fine, followed, fun gap top finite near bounded few range => ?_⟩
    rw [followed]
    exact (follow_near (by rfl) finite bounded near few range).2

/-- A session that has done nothing but make a variable editable. -/
def pickedUp : Session Float := (Session.step ⟨∅, {}⟩ (.addEdit ⟨0, none⟩ .strong)).state

theorem pickedUp_alone : Alone pickedUp.solver ⟨0, none⟩ (begun 0) 0 :=
  added_alone (fresh_orderly 0) ⟨rfl, rfl⟩ (by decide +kernel)

theorem exact_zero : exact 0.0 = 0 := rfl

theorem exact_tenth : exact 0.1 = 3602879701896397 / 2 ^ 55 :=
  (exact_of_positive 7205759403792794 (-56) (by decide) (by rfl)).trans (by norm_num)

theorem exact_hundred : exact 100 = 100 :=
  (exact_of_positive 7036874417766400 (-46) (by decide) (by rfl)).trans (by norm_num)

theorem suggestions_drift_slowly_short :
    let targets : List Float := [100, 0.1]
    let after := pickedUp.run (targets.map (.suggest ⟨0, none⟩))
    (∀ x ∈ 0 :: targets, Within 100 x) ∧ Bare (∅ : Tableau Float) ∧
      Alone pickedUp.solver ⟨0, none⟩ (begun 0) 0 ∧
      (∀ error ∈ pickedUp.errors (targets.map (.suggest ⟨0, none⟩)), error = none) ∧
      |exact (after.solver.value ⟨0, none⟩) - exact 0.1| < exact (Scalar.tolerance : Float) ∧
      |exact (after.solver.value ⟨0, none⟩) - exact 0.1| ≤ 0 + (2 : Nat) * (0 + 2 * 100) / 2 ^ 52 := by
  intro targets after
  have bounded : ∀ x ∈ 0 :: targets, Within 100 x := by
    have exact_start : exact 0 = 0 := exact_zero
    simp only [targets, List.forall_mem_cons, Within, exact_start, exact_hundred, exact_tenth]
    exact ⟨⟨by decide +kernel, by norm_num⟩, ⟨by decide +kernel, by norm_num⟩,
      ⟨by decide +kernel, by norm_num⟩, by simp⟩
  have few : targets.length ≤ 2 ^ 50 := by decide
  obtain ⟨fine, -, near⟩ := (suggestions_drift_slowly {} [] ⟨0, none⟩ targets).1 .strong
    ⟨rfl, rfl⟩ (by decide +kernel)
  obtain ⟨finite, exactly⟩ := begun_exact (bounded 0 List.mem_cons_self).1
  have slow := ((suggestions_drift_slowly {} [.addEdit ⟨0, none⟩ .strong] ⟨0, none⟩ targets).2
    (begun 0) 0 pickedUp_alone).2.2 0 100 finite (by rw [exactly, sub_self, abs_zero]) bounded few
    (le_trans (by norm_num) (zpow_le_zpow_right₀ one_le_two (by norm_num : (7 : Int) ≤ 1020)))
  exact ⟨bounded, ⟨rfl, rfl⟩, pickedUp_alone, fine,
    near 100 bounded few (by norm_num [targets]), slow⟩

/-- A suggestion that is followed by a far smaller one may leave the variable off by more than the
tolerance. The difference of the two is rounded to the negative of the larger one, so that the variable
ends at zero. -/
theorem suggestions_may_drift :
    ¬∀ (store : Store Float) (commands : List (Command Float)) (v : Variable) (strength : Strength Float)
      (targets : List Float),
      let session := Session.run ⟨∅, store⟩ commands
      Bare session.solver.tableau → (session.store.value v).isFinite = true →
        (session.step (.addEdit v strength)).error? = none → (∀ x ∈ targets, x.isFinite = true) →
          let after := (session.step (.addEdit v strength)).state.run (targets.map (.suggest v))
          |exact (after.solver.value v) - exact (targets.getLastD (session.store.value v))| <
            exact (Scalar.tolerance : Float) := by
  intro all
  have near := all {} [] ⟨0, none⟩ .strong [1e17, 0.1] ⟨rfl, rfl⟩ (by decide +kernel) (by decide +kernel)
    (by decide +kernel)
  have lost : (pickedUp.run ([1e17, 0.1].map (.suggest ⟨0, none⟩))).solver.value ⟨0, none⟩ = 0.0 := by
    decide +kernel
  have off : |exact ((pickedUp.run ([1e17, 0.1].map (.suggest ⟨0, none⟩))).solver.value ⟨0, none⟩) -
      exact 0.1| < exact (Scalar.tolerance : Float) := near
  rw [lost, exact_zero, exact_tenth, exact_tolerance] at off
  norm_num at off

end Errors

end Cassowary.Drift
