import Cassowary.Proofs.Separation
import Cassowary.Session

/-!
Which rows a suggestion can touch. Moving the target of an edit moves rows that mention its error
symbols. Every repair that follows pivots within rows that are connected with those by the symbols they
share, so a row that is not connected with the edit stays as it is, whatever the arithmetic does.
-/

namespace Cassowary.Connections
open Endings MapEntries PivotRuns RowSymbols Tableau Solver

variable {α : Type}

/-- A row mentions the symbol it is the row of and those it holds. -/
def Mentions (key : Symbol) (row : Row α) (z : Symbol) : Prop := z = key ∨ row.holds z = true

/-- The rows that are connected with some symbols: those that mention one of them, and those that share
a symbol with a connected row. -/
inductive Connected (t : Tableau α) (origins : List Symbol) : Symbol → Row α → Prop where
  | origin {key z : Symbol} {row : Row α} (found : t.rows.find? key = some row) (member : z ∈ origins)
      (mentioned : Mentions key row z) : Connected t origins key row
  | shared {near key z : Symbol} {nearRow row : Row α} (connected : Connected t origins near nearRow)
      (found : t.rows.find? key = some row) (there : Mentions near nearRow z)
      (here : Mentions key row z) : Connected t origins key row

/-- The symbols that connect rows: the origins and all that a connected row mentions. -/
def Connecting (t : Tableau α) (origins : List Symbol) (z : Symbol) : Prop :=
  z ∈ origins ∨ ∃ key row, Connected t origins key row ∧ Mentions key row z

/-- The error symbols of the edit of a variable. -/
def editSymbols (s : Solver α) (v : Variable) : List Symbol :=
  (s.edits.find? v).elim [] fun edit => edit.tag.symbols

theorem mentions_iff_mem {key z : Symbol} {row : Row α} :
    Mentions key row z ↔ z ∈ key :: row.cells.keys := by
  rw [List.mem_cons, ← holds_iff_mem_keys, Mentions]

/-- If each row is over a set of symbols or mentions none of it, then the rows that are connected with
symbols of the set are over the set. -/
theorem mentions_within {t : Tableau α} {origins : List Symbol} {S : Symbol → Prop}
    (start : ∀ z ∈ origins, S z)
    (split : ∀ key row, t.rows.find? key = some row →
      (∀ z, Mentions key row z → S z) ∨ ∀ z, Mentions key row z → ¬S z) {key : Symbol} {row : Row α}
    (connected : Connected t origins key row) : ∀ z, Mentions key row z → S z := by
  induction connected with
  | origin found member mentioned =>
    exact (split _ _ found).resolve_right fun none => none _ mentioned (start _ member)
  | shared _ found there here ih =>
    exact (split _ _ found).resolve_right fun none => none _ here (ih _ there)

variable [Scalar α] {S : Symbol → Prop} {kept : List (Symbol × Row α)} {t : Tableau α}
  {row : Row α} {z : Symbol}

/-- Rows that are not negative and mention no symbol of a set. -/
def Aside (S : Symbol → Prop) (kept : List (Symbol × Row α)) : Prop :=
  ∀ entry ∈ kept, violated entry.1 entry.2 = false ∧ ∀ z, S z → ¬Mentions entry.1 entry.2 z

/-- The tableau lists some rows in order, all others are over the symbols of a set, and only symbols of
the set are queued. -/
structure Framed (S : Symbol → Prop) (kept : List (Symbol × Row α)) (t : Tableau α) : Prop where
  listed : kept.Sublist t.rows.toList
  within : ∀ key row, t.rows.find? key = some row →
    (key, row) ∈ kept ∨ ∀ z, Mentions key row z → S z
  queued : ∀ z ∈ t.infeasible, S z

/-- A negative row is none of the kept ones. -/
theorem not_kept_of_violated {entry : Symbol × Row α} (aside : Aside S kept)
    (below : violated entry.1 entry.2 = true) : entry ∉ kept := fun member => by
  rw [(aside entry member).1] at below
  cases below

/-- The row of a symbol of the set is over the set. -/
theorem mentions_of_inside (aside : Aside S kept) (framed : Framed S kept t)
    (found : t.rows.find? z = some row) (inside : S z) : ∀ y, Mentions z row y → S y :=
  (framed.within z row found).resolve_left fun member => (aside _ member).2 z inside (.inl rfl)

/-! ## Operations on a framed tableau -/

/-- The kept rows are still listed when a symbol of the set loses its row. -/
private theorem kept_erase (aside : Aside S kept) (listed : kept.Sublist t.rows.toList)
    (inside : S z) : kept.Sublist (t.rows.erase z).toList := by
  have others : kept.filter (fun entry => entry.1 ≠ z) = kept :=
    List.filter_eq_self.mpr fun entry member => by
      simpa using fun same : entry.1 = z => (aside entry member).2 z inside (.inl same.symm)
  exact others ▸ listed.filter _

theorem dropRow_framed (aside : Aside S kept) (framed : Framed S kept t) (inside : S z) :
    Framed S kept (t.dropRow z) where
  listed := kept_erase aside framed.listed inside
  within key row found := by
    simp only [dropRow, OrderedMap.find?_erase] at found
    split at found
    · cases found
    · exact framed.within key row found
  queued := framed.queued

/-- A row over the set may be put in place of any row of the set, or at the end. -/
theorem insert_framed (aside : Aside S kept) (framed : Framed S kept t)
    (inside : ∀ y, Mentions z row y → S y) :
    Framed S kept { t with rows := t.rows.insert z row } where
  listed := by
    have listed := kept_erase aside framed.listed (inside z (.inl rfl))
    rw [← show (t.rows.insert z row).erase z = t.rows.erase z from erase_insert] at listed
    exact listed.trans List.filter_sublist
  within key held found := by
    dsimp only at found
    rw [OrderedMap.find?_insert] at found
    split at found
    · rename_i same
      cases found
      exact .inr (same ▸ inside)
    · exact framed.within key held found
  queued := framed.queued

omit [Scalar α] in
/-- Changing all rows by a function that leaves the kept ones alone and stays within the set. The rows
that are queued on top are none of the kept ones. -/
private theorem change_framed (framed : Framed S kept t)
    (change : Row α → Row α) (same : ∀ entry ∈ kept, change entry.2 = entry.2)
    (inside : ∀ key row, t.rows.find? key = some row → (∀ y, Mentions key row y → S y) →
      ∀ y, Mentions key (change row) y → S y)
    {objective : Row α} {artificial : Option (Row α)} {queue : List Symbol}
    (queued : ∀ z ∈ queue, S z ∨ ∃ row, (t.rows.mapValues fun _ => change).find? z = some row ∧
      (z, row) ∉ kept) :
    Framed S kept { rows := t.rows.mapValues fun _ => change, objective, artificial,
                    infeasible := queue } := by
  have within : ∀ key row, (t.rows.mapValues fun _ => change).find? key = some row →
      (key, row) ∈ kept ∨ ∀ z, Mentions key row z → S z := by
    intro key row found
    rw [OrderedMap.find?_mapValues, Option.map_eq_some_iff] at found
    obtain ⟨before, found, rfl⟩ := found
    refine (framed.within key before found).imp (fun member => ?_) (inside key before found)
    rwa [same _ member]
  refine ⟨?_, within, fun z member => ?_⟩
  · have unchanged : kept.map (fun entry => (entry.1, change entry.2)) = kept :=
      (List.map_congr_left fun entry member => by rw [same entry member, id]).trans (List.map_id kept)
    exact unchanged ▸ framed.listed.map fun entry => (entry.1, change entry.2)
  · rcases queued z member with inside | ⟨row, found, left⟩
    · exact inside
    · exact ((within z row found).resolve_left left) z (.inl rfl)

/-- Replacing a symbol of the set by a row over the set leaves the kept rows alone. -/
theorem substitute_framed (aside : Aside S kept) (framed : Framed S kept t) (inside : S z)
    (columnar : ∀ y, row.holds y = true → S y) : Framed S kept (t.substitute z row) := by
  refine change_framed framed (·.substitute z row) ?_ ?_ fun y member => ?_
  · intro entry member
    refine Row.substitute_of_not_holds ?_ row
    simpa [Mentions] using fun held => (aside entry member).2 z inside (.inr held)
  · rintro key before - within y (rfl | held)
    · exact within y (.inl rfl)
    · rcases holds_substitute held with ⟨-, kept⟩ | ⟨-, taken⟩
      · exact within y (.inr kept)
      · exact columnar y taken
  · rcases List.mem_append.mp member with negative | before
    · obtain ⟨entry, listed, rfl⟩ := List.mem_map.mp (List.mem_reverse.mp negative)
      obtain ⟨listed, below⟩ := List.mem_filter.mp listed
      exact .inr ⟨entry.2, mem_toList_iff.mp listed, not_kept_of_violated aside below⟩
    · exact .inl (framed.queued y before)

/-- A pivot on the row of a symbol of the set stays within the set, also when it fails. -/
theorem exchange_framed {entering leaving : Symbol} (aside : Aside S kept) (framed : Framed S kept t)
    (found : t.rows.find? leaving = some row) (inside : S leaving) :
    Framed S kept (t.exchange entering leaving row).state := by
  have within := mentions_of_inside aside framed found inside
  have rest : Framed S kept (t.dropRow leaving) := dropRow_framed aside framed inside
  unfold exchange
  dsimp only
  split
  · exact rest
  · rename_i fine
    obtain ⟨present, holds⟩ := ends_of_error_none
      (solveForSymbols_ends (ε := PivotEvent) row leaving entering) fine
    have enters : S entering := within entering present
    have solved : ∀ y, (row.solveForSymbols (ε := PivotEvent) leaving entering).state.holds y = true →
        S y := fun y held => within y (holds y held).2
    refine insert_framed aside (substitute_framed aside rest enters solved) ?_
    rintro y (rfl | held)
    · exact enters
    · exact solved y held

/-- The dual method repairs queued rows only, and queues none of the kept ones. -/
theorem dualOptimize_framed (aside : Aside S kept) (framed : Framed S kept t) :
    Framed S kept t.dualOptimize.state := by
  have shorter : ∀ (t : Tableau α) queue, Framed S kept t → (∀ z ∈ queue, z ∈ t.infeasible) →
      Framed S kept { t with infeasible := queue } := fun t queue framed fewer =>
    ⟨framed.listed, framed.within, fun z member => framed.queued z (fewer z member)⟩
  refine dualOptimize_keeps shorter (fun t leaving row queue entering framed next _ => ?_) framed
  obtain ⟨found, -, queued, fewer⟩ := nextInfeasible?_eq_some next
  exact exchange_framed aside (shorter t queue framed fewer) found (framed.queued leaving queued)

theorem shiftRow_framed {delta : α} (aside : Aside S kept) (framed : Framed S kept t)
    (found : t.rows.find? z = some row) (inside : S z) :
    Framed S kept (t.shiftRow z row delta) := by
  have within := mentions_of_inside aside framed found inside
  have moved : Framed S kept { t with rows := t.rows.insert z (row.addConstant delta) } :=
    insert_framed aside framed within
  refine ⟨moved.listed, moved.within, fun y member => ?_⟩
  unfold shiftRow at member
  dsimp only at member
  split at member
  · rcases List.mem_cons.mp member with rfl | before
    · exact inside
    · exact framed.queued y before
  · exact framed.queued y member

/-- Only rows that hold a column move along it, as long as zero counts as zero. -/
theorem shiftColumn_framed {delta : α} (zero : Scalar.nearZero (0 : α) = true)
    (aside : Aside S kept) (framed : Framed S kept t) (inside : S z) :
    Framed S kept (t.shiftColumn z delta) := by
  let move (row : Row α) : Row α :=
    if Scalar.nearZero (row.coefficient z) then row
    else row.addConstant (delta * row.coefficient z)
  refine change_framed framed move ?_ ?_ fun y member => ?_
  · intro entry member
    have absent : entry.2.holds z = false := by
      simpa [Mentions] using fun held => (aside entry member).2 z inside (.inr held)
    simp only [move, coefficient_of_not_holds absent, zero, if_true]
  · rintro key before - within y (rfl | held)
    · exact within y (.inl rfl)
    · refine within y (.inr ?_)
      dsimp only [move] at held
      split at held <;> exact held
  · rcases List.mem_append.mp member with negative | before
    · obtain ⟨entry, listed, rfl⟩ := List.mem_map.mp (List.mem_reverse.mp negative)
      obtain ⟨listed, below⟩ := List.mem_filter.mp listed
      have negative := (Bool.and_eq_true _ _ ▸ below).2
      exact .inr ⟨entry.2, mem_toList_iff.mp listed, not_kept_of_violated aside negative⟩
    · exact .inl (framed.queued y before)

theorem shiftTarget_framed {tag : Tag} {delta : α} (zero : Scalar.nearZero (0 : α) = true)
    (aside : Aside S kept) (framed : Framed S kept t) (inside : ∀ z ∈ tag.symbols, S z) :
    Framed S kept (t.shiftTarget tag delta) := by
  have marker : S tag.marker := inside _ (by simp [Tag.symbols])
  unfold shiftTarget
  split
  · exact shiftRow_framed aside framed ‹_› marker
  · split
    · rename_i other row found
      obtain ⟨other', present, mapped⟩ := Option.bind_eq_some_iff.mp found
      obtain ⟨row', held, same⟩ := Option.map_eq_some_iff.mp mapped
      cases same
      exact shiftRow_framed aside framed held (inside other (by simp [Tag.symbols, present]))
    · exact shiftColumn_framed zero aside framed marker

/-! ## Suggestions -/

omit [Scalar α] in
/-- A row that is not connected with some symbols mentions nothing that connects. -/
theorem not_mentions_of_apart {origins : List Symbol} {key : Symbol}
    (found : t.rows.find? key = some row) (apart : ¬Connected t origins key row)
    (connecting : Connecting t origins z) : ¬Mentions key row z := by
  intro mentioned
  rcases connecting with member | ⟨near, nearRow, connected, there⟩
  · exact apart (.origin found member mentioned)
  · exact apart (.shared connected found there mentioned)

/-- In a feasible tableau with an empty queue the rows that are not connected with some symbols stand
aside, and frame the others. -/
theorem framed_of_feasible {origins : List Symbol} (feasible : t.isFeasible = true)
    (idle : t.infeasible = []) (listed : kept.Sublist t.rows.toList)
    (apart : ∀ entry ∈ t.rows.toList, entry ∈ kept ↔ ¬Connected t origins entry.1 entry.2) :
    Aside (Connecting t origins) kept ∧ Framed (Connecting t origins) kept t := by
  refine ⟨fun entry member => ⟨?_, fun z connecting => ?_⟩, listed, fun key row found => ?_, ?_⟩
  · simpa using List.all_eq_true.mp feasible entry (listed.subset member)
  · have present := listed.subset member
    exact not_mentions_of_apart (mem_toList_iff.mp present) ((apart entry present).mp member)
      connecting
  · by_cases connected : Connected t origins key row
    · exact .inr fun z mentioned => .inr ⟨key, row, connected, mentioned⟩
    · exact .inl ((apart _ (mem_toList_iff.mpr found)).mpr connected)
  · rw [idle]
    exact fun z member => nomatch member

open Classical in
/-- Whatever the arithmetic does, a suggestion in a feasible tableau with an empty queue leaves every
row that is not connected with the edit as it is, in the same order, whether or not the suggestion
succeeds. All that is asked of the arithmetic is that the coefficient of an absent symbol counts as
zero. -/
theorem suggestion_keeps_unconnected_rows (zero : Scalar.nearZero (0 : α) = true) (s : Solver α)
    (feasible : s.isFeasible = true) (idle : s.tableau.infeasible = []) (v : Variable) (x : α) :
    let after := (s.suggest v x).state
    (s.rows.filter fun entry => ¬Connected s.tableau (editSymbols s v) entry.1 entry.2).Sublist
        after.rows ∧
      ∀ key row, s.tableau.rows.find? key = some row →
        ¬Connected s.tableau (editSymbols s v) key row →
          after.tableau.rows.find? key = some row := by
  intro after
  let kept := s.rows.filter fun entry => ¬Connected s.tableau (editSymbols s v) entry.1 entry.2
  have listed : kept.Sublist after.rows := by
    obtain ⟨aside, framed⟩ : Aside (Connecting s.tableau (editSymbols s v)) kept ∧
        Framed (Connecting s.tableau (editSymbols s v)) kept s.tableau :=
      framed_of_feasible feasible idle List.filter_sublist fun entry member => by
        simp only [kept, List.mem_filter, decide_eq_true_eq]
        exact and_iff_right member
    cases found : s.edits.find? v with
    | none =>
      have same : after = s := by simp [after, suggest, found, Outcome.fail]
      rw [same]
      exact framed.listed
    | some edit =>
      have inside : ∀ z ∈ edit.tag.symbols, Connecting s.tableau (editSymbols s v) z := fun z member =>
        .inl (by simpa [editSymbols, found] using member)
      have shifted : Framed (Connecting s.tableau (editSymbols s v)) kept
          (s.tableau.shiftTarget edit.tag (x - edit.target)) :=
        shiftTarget_framed zero aside framed inside
      have moved := dualOptimize_framed aside shifted
      have same : after.tableau =
          (s.tableau.shiftTarget edit.tag (x - edit.target)).dualOptimize.state := by
        simp only [after, suggest, found]
        rfl
      rw [Solver.rows, same]
      exact moved.listed
  refine ⟨listed, fun key row found apart => OrderedMap.find?_eq_some_iff.mpr (listed.subset ?_)⟩
  exact List.mem_filter.mpr ⟨mem_toList_iff.mpr found, by simpa using apart⟩

/-- A variable that is edited below a bound, and another that is held at 42. -/
@[irreducible] def dragged : Solver Float :=
  (Session.run ⟨∅, {}⟩ [.addEdit ⟨0, none⟩ .medium,
    .add 0 (.relate (.ofVariable ⟨0, none⟩) .lessOrEqual (.ofScalar 5)),
    .add 1 (.relate (.ofVariable ⟨1, none⟩) .equal (.ofScalar 42))]).solver

/-- Symbols up to the fourth belong to the edit and the bound, and no row mixes them with others. -/
theorem dragged_split : ∀ entry ∈ dragged.rows,
    (∀ z ∈ entry.1 :: entry.2.cells.keys, z.id ≤ 4) ∨
      ∀ z ∈ entry.1 :: entry.2.cells.keys, ¬z.id ≤ 4 := by
  decide +kernel

open Classical in
/-- A target beyond the bound is repaired by a pivot, which leaves the row of the other variable. -/
theorem suggestion_keeps_unconnected_rows_dragged :
    let after := (dragged.suggest ⟨0, none⟩ 7).state
    let other : Symbol := ⟨5, .external⟩
    Scalar.nearZero (0 : Float) = true ∧ dragged.isFeasible = true ∧
      dragged.tableau.infeasible = [] ∧
      ((dragged.rows.filter fun entry =>
          ¬Connected dragged.tableau (editSymbols dragged ⟨0, none⟩) entry.1 entry.2).Sublist
            after.rows ∧
        ∀ key row, dragged.tableau.rows.find? key = some row →
          ¬Connected dragged.tableau (editSymbols dragged ⟨0, none⟩) key row →
            after.tableau.rows.find? key = some row) ∧
      dragged.tableau.rows.contains other = true ∧
      after.tableau.rows.find? other = dragged.tableau.rows.find? other := by
  intro after other
  have zero : Scalar.nearZero (0 : Float) = true := by decide +kernel
  have feasible : dragged.isFeasible = true := by decide +kernel
  have idle : dragged.tableau.infeasible = [] := by decide +kernel
  have present : dragged.tableau.rows.contains other = true := by decide +kernel
  have kept := suggestion_keeps_unconnected_rows zero dragged feasible idle ⟨0, none⟩ 7
  refine ⟨zero, feasible, idle, kept, present, ?_⟩
  obtain ⟨row, found⟩ := contains_iff.mp present
  rw [found]
  refine kept.2 other row found fun connected => ?_
  have within := mentions_within (S := fun z => z.id ≤ 4) (by decide +kernel) ?_ connected other
    (.inl rfl)
  · exact absurd within (by decide)
  · intro key row found
    simpa only [mentions_iff_mem] using dragged_split (key, row) (mem_toList_iff.mpr found)

end Cassowary.Connections
