import Cassowary.Proofs.Endings
import Cassowary.Proofs.MapEntries
import Cassowary.Tableau.Dual
import Cassowary.Tableau.Marker
import Cassowary.Tableau.Primal

/-!
What the pivoting loops do, told once. A loop keeps whatever each of its pivots keeps, and when it
ends without an error nothing is left for it to do. The rows and symbols that a pivot is made on are
read off the choices here, so that later proofs never open the loops or the choices again.
-/

namespace Cassowary.PivotRuns
open Endings MapEntries Tableau

variable {α : Type} [Scalar α] {t : Tableau α} {row : Row α} {entering leaving : Symbol}
  {Q R : Tableau α → Prop}

/-- The only thing that can go wrong in a pivot is a row without the entering symbol. -/
theorem exchange_error_internal (t : Tableau α) (entering leaving : Symbol) (row : Row α) :
    Ends (t.exchange entering leaving row) (fun _ => True)
      (fun error _ => error.isInternal = true) := by
  unfold exchange
  dsimp only
  split
  · rename_i error stopped
    unfold Row.solveForSymbols Row.solveFor at stopped
    split at stopped
    · cases stopped
      rfl
    · cases stopped
  · trivial

theorem evict_error_internal (t : Tableau α) (marker : Symbol) :
    Ends (t.evict marker) (fun _ => True) (fun error _ => error.isInternal = true) := by
  unfold evict
  split
  · trivial
  · split
    · rfl
    · rw [ends_report, ends_andThen]
      exact exchange_error_internal ..

/-- The leaving row is one of the tableau's, chosen among the candidates. -/
theorem leavingRow?_eq_some (found : t.leavingRow? entering = some (leaving, row)) :
    t.rows.find? leaving = some row ∧
      ∃ pick, Pick.best? (t.leavingPicks entering) = some pick ∧ pick.symbol = leaving := by
  simp only [leavingRow?, Option.bind_eq_bind, Option.bind_eq_some_iff] at found
  obtain ⟨pick, best, row', held, same⟩ := found
  cases same
  exact ⟨held, pick, best, rfl⟩

/-- Every candidate for leaving is a restricted row that shrinks as the entering symbol grows. -/
theorem mem_leavingPicks {pick : Pick α} :
    pick ∈ t.leavingPicks entering ↔ ∃ s row, t.rows.find? s = some row ∧
      s.isRestricted = true ∧ Scalar.isNegative (row.coefficient entering) = true ∧
      pick = { ratio := -row.constant / row.coefficient entering, symbol := s } := by
  simp only [leavingPicks, List.mem_map, List.mem_filter, Bool.and_eq_true, Prod.exists,
    OrderedMap.find?_eq_some_iff, and_assoc, eq_comm (a := pick)]

/-- Rows of dummies only are not favoured for leaving. -/
theorem leavingPicks_plain {pick : Pick α} (member : pick ∈ t.leavingPicks entering) :
    pick.allDummies = false := by
  obtain ⟨s, row, -, -, -, rfl⟩ := mem_leavingPicks.mp member
  rfl

/-- Without a leaving row no restricted row shrinks as the entering symbol grows. -/
theorem leavingRow?_eq_none (missing : t.leavingRow? entering = none) {s : Symbol}
    (found : t.rows.find? s = some row) (restricted : s.isRestricted = true) :
    Scalar.isNegative (row.coefficient entering) = false := by
  by_contra negative
  have member := mem_leavingPicks.mpr
    ⟨s, row, found, restricted, by simpa using negative, rfl⟩
  cases best : Pick.best? (t.leavingPicks entering) with
  | none =>
    rw [Pick.best?_eq_none_iff.mp best] at member
    cases member
  | some pick =>
    obtain ⟨s', row', held, -, -, rfl⟩ := mem_leavingPicks.mp (Pick.best?_mem best)
    simp [leavingRow?, best, held] at missing

/-- The entering column improves the objective and is not a dummy. -/
theorem enteringSymbol?_eq_some {objective : Row α}
    (found : enteringSymbol? objective = some entering) :
    entering.isDummy = false ∧ ∃ x, objective.cells.find? entering = some x ∧
      Scalar.isNegative x = true := by
  obtain ⟨cell, member, rfl⟩ := List.mem_map.mp (Symbol.oldest?_eq_some found).1
  simp only [List.mem_filter, Bool.and_eq_true, Bool.not_eq_true'] at member
  exact ⟨member.2.1, cell.2, mem_toList_iff.mp member.1, member.2.2⟩

/-- Without an entering column only dummy symbols could improve the objective. -/
theorem enteringSymbol?_eq_none {objective : Row α} (missing : enteringSymbol? objective = none)
    {s : Symbol} {x : α} (found : objective.cells.find? s = some x) (notDummy : s.isDummy = false) :
    Scalar.isNegative x = false := by
  by_contra negative
  have member : s ∈ (objective.cells.toList.filter fun cell =>
      !cell.1.isDummy && Scalar.isNegative cell.2).map Prod.fst :=
    List.mem_map.mpr ⟨(s, x), List.mem_filter.mpr
      ⟨mem_toList_iff.mpr found, by simpa [notDummy] using negative⟩, rfl⟩
  unfold enteringSymbol? Symbol.oldest? at missing
  split at missing
  · rename_i nothing
    rw [nothing] at member
    cases member
  · cases missing

/-- A round of the primal method drops a column that no row bounds, or pivots on the leaving row. -/
theorem primalStep?_eq_some {goal : Goal} {o : Outcome PivotEvent (Tableau α)}
    (stepped : t.primalStep? goal = some o) :
    ∃ objective entering, t.objectiveRow? goal = some objective ∧
      enteringSymbol? objective = some entering ∧
      ((t.leavingRow? entering = none ∧
          o = (Outcome.ok (t.dropResidue entering goal)).report (.residueDropped entering)) ∨
        ∃ leaving row, t.leavingRow? entering = some (leaving, row) ∧
          o = (t.exchange entering leaving row).report (.primal entering leaving)) := by
  simp only [primalStep?, Option.bind_eq_bind, Option.bind_eq_some_iff] at stepped
  obtain ⟨objective, sought, entering, chosen, rest⟩ := stepped
  refine ⟨objective, entering, sought, chosen, ?_⟩
  split at rest
  · rename_i missing
    exact .inl ⟨missing, (Option.some.inj rest).symm⟩
  · rename_i leaving row found
    exact .inr ⟨leaving, row, found, (Option.some.inj rest).symm⟩

theorem primalStep?_error_internal {goal : Goal} {o : Outcome PivotEvent (Tableau α)}
    (stepped : t.primalStep? goal = some o) :
    Ends o (fun _ => True) (fun error _ => error.isInternal = true) := by
  obtain ⟨objective, entering, -, -, ⟨-, rfl⟩ | ⟨leaving, row, -, rfl⟩⟩ := primalStep?_eq_some stepped
  · trivial
  · exact exchange_error_internal t entering leaving row

/-- The primal loop keeps what each round keeps, and ends when no round is left. It fails at its limit
or as a round fails. -/
theorem optimizeWithin_ends {goal : Goal} {failed : SolverError → Tableau α → Prop}
    (limited : ∀ t, Q t → failed (.internal .pivotLimit) t)
    (kept : ∀ t o, Q t → t.primalStep? goal = some o → Ends o Q failed) (limit : Nat)
    (events : List PivotEvent) (start : Q t) :
    Ends (optimizeWithin goal limit t events) (fun t' => Q t' ∧ t'.primalStep? goal = none)
      failed := by
  induction limit generalizing t events with
  | zero => exact limited t start
  | succ limit ih =>
    unfold optimizeWithin
    split
    · rename_i stuck
      exact ⟨start, stuck⟩
    · rename_i next reported stepped
      exact ih _ (kept t _ start stepped)
    · rename_i next error reported stepped
      exact kept t _ start stepped

theorem optimize_ends {goal : Goal} (weaker : ∀ t, Q t → R t)
    (kept : ∀ t o, Q t → t.primalStep? goal = some o → Ends o Q (fun _ => R)) (start : Q t) :
    Ends (t.optimize goal) (fun t' => Q t' ∧ t'.primalStep? goal = none)
      (fun error t' => error.isInternal = true ∧ R t') :=
  optimizeWithin_ends (fun t holds => ⟨rfl, weaker t holds⟩)
    (fun t o holds stepped => ends_mono
      (ends_and (primalStep?_error_internal stepped) (kept t o holds stepped))
      (fun _ both => both.2) fun _ _ both => both) pivotLimit [] start

/-- The next row to repair is queued and negative, and those still queued were queued before. -/
theorem nextInfeasible?_eq_some {rows : OrderedMap Symbol (Row α)} {queue rest : List Symbol}
    (found : nextInfeasible? rows queue = some (leaving, row, rest)) :
    rows.find? leaving = some row ∧ Scalar.isNegative row.constant = true ∧
      leaving ∈ queue ∧ ∀ s ∈ rest, s ∈ queue := by
  have later : ∀ {first : Symbol} {queue : List Symbol},
      (rows.find? leaving = some row ∧ Scalar.isNegative row.constant = true ∧
        leaving ∈ queue ∧ ∀ s ∈ rest, s ∈ queue) →
      rows.find? leaving = some row ∧ Scalar.isNegative row.constant = true ∧
        leaving ∈ first :: queue ∧ ∀ s ∈ rest, s ∈ first :: queue := by
    rintro first queue ⟨held, negative, member, kept⟩
    exact ⟨held, negative, List.mem_cons_of_mem _ member,
      fun s still => List.mem_cons_of_mem _ (kept s still)⟩
  induction queue with
  | nil => cases found
  | cons s queue ih =>
    unfold nextInfeasible? at found
    split at found
    · exact later (ih found)
    · rename_i headed held
      split at found
      · rename_i negative
        cases found
        exact ⟨held, negative, by simp, fun s still => List.mem_cons_of_mem _ still⟩
      · exact later (ih found)

/-- With nothing to repair no queued symbol heads a negative row. -/
theorem nextInfeasible?_eq_none {rows : OrderedMap Symbol (Row α)} {queue : List Symbol}
    (missing : nextInfeasible? rows queue = none) {s : Symbol} (queued : s ∈ queue)
    (found : rows.find? s = some row) : Scalar.isNegative row.constant = false := by
  induction queue with
  | nil => cases queued
  | cons first queue ih =>
    unfold nextInfeasible? at missing
    rcases List.mem_cons.mp queued with rfl | later
    · simp only [found] at missing
      split at missing
      · cases missing
      · rename_i negative
        simpa using negative
    · split at missing
      · exact ih missing later
      · split at missing
        · cases missing
        · exact ih missing later

/-- Every candidate for repairing a row is a column that grows with it and is not a dummy. -/
theorem mem_repairPicks {pick : Pick α} :
    pick ∈ t.repairPicks row ↔ ∃ s x, row.cells.find? s = some x ∧ s.isDummy = false ∧
      Scalar.isPositive x = true ∧
      pick = { ratio := t.objective.coefficient s / x, symbol := s } := by
  simp only [repairPicks, List.mem_map, List.mem_filter, Bool.and_eq_true, Bool.not_eq_true',
    Prod.exists, OrderedMap.find?_eq_some_iff, and_assoc, eq_comm (a := pick)]

theorem repairingSymbol?_eq_some (found : t.repairingSymbol? row = some entering) :
    ∃ pick, Pick.best? (t.repairPicks row) = some pick ∧ pick.symbol = entering := by
  simpa [repairingSymbol?] using found

/-- The dual loop keeps what each repair keeps, and ends when no queued row is negative. It fails for
lack of a column, at its limit or as a repair fails. -/
theorem dualOptimizeWithin_ends {failed : SolverError → Tableau α → Prop}
    (unrepaired : ∀ (t : Tableau α) leaving row queue, Q t →
      nextInfeasible? t.rows t.infeasible = some (leaving, row, queue) →
      t.repairingSymbol? row = none →
      failed (.internal .noEnteringSymbol) { t with infeasible := queue })
    (limited : ∀ (t : Tableau α) leaving row queue, Q t →
      nextInfeasible? t.rows t.infeasible = some (leaving, row, queue) →
      failed (.internal .pivotLimit) { t with infeasible := queue })
    (kept : ∀ (t : Tableau α) leaving row queue entering, Q t →
      nextInfeasible? t.rows t.infeasible = some (leaving, row, queue) →
      t.repairingSymbol? row = some entering →
      Ends ({ t with infeasible := queue }.exchange entering leaving row) Q failed)
    (limit : Nat) (events : List PivotEvent) (start : Q t) :
    Ends (dualOptimizeWithin limit t events)
      (fun t' => ∃ t, Q t ∧ nextInfeasible? t.rows t.infeasible = none ∧
        t' = { t with infeasible := [] }) failed := by
  induction limit generalizing t events with
  | zero =>
    unfold dualOptimizeWithin
    split
    · rename_i stuck
      exact ⟨t, start, stuck, rfl⟩
    · rename_i leaving row queue found
      dsimp only
      split
      · rename_i missing
        exact unrepaired t leaving row queue start found missing
      · exact limited t leaving row queue start found
  | succ limit ih =>
    unfold dualOptimizeWithin
    split
    · rename_i stuck
      exact ⟨t, start, stuck, rfl⟩
    · rename_i leaving row queue found
      dsimp only
      split
      · rename_i missing
        exact unrepaired t leaving row queue start found missing
      · rename_i entering chosen
        have pivot := kept t leaving row queue entering start found chosen
        split
        · rename_i next reported went
          rw [← ends_report (.dual entering leaving), went] at pivot
          exact ih _ pivot
        · rename_i next error reported went
          rw [← ends_report (.dual entering leaving), went] at pivot
          exact pivot

theorem dualOptimize_ends (weaker : ∀ (t : Tableau α) queue, Q t → R { t with infeasible := queue })
    (kept : ∀ (t : Tableau α) leaving row queue entering, Q t →
      nextInfeasible? t.rows t.infeasible = some (leaving, row, queue) →
      t.repairingSymbol? row = some entering →
      Ends ({ t with infeasible := queue }.exchange entering leaving row) Q (fun _ => R))
    (start : Q t) :
    Ends t.dualOptimize
      (fun t' => ∃ t, Q t ∧ nextInfeasible? t.rows t.infeasible = none ∧
        t' = { t with infeasible := [] })
      (fun error t' => error.isInternal = true ∧ R t') :=
  dualOptimizeWithin_ends (fun t _ _ queue holds _ _ => ⟨rfl, weaker t queue holds⟩)
    (fun t _ _ queue holds _ => ⟨rfl, weaker t queue holds⟩)
    (fun t leaving row queue entering holds next chosen => ends_mono
      (ends_and (exchange_error_internal _ entering leaving row)
        (kept t leaving row queue entering holds next chosen))
      (fun _ both => both.2) fun _ _ both => both) pivotLimit [] start

/-- The dual method keeps what shortening the queue and each repair keep, however it ends. -/
theorem dualOptimize_keeps
    (shorter : ∀ (t : Tableau α) queue, Q t → (∀ z ∈ queue, z ∈ t.infeasible) →
      Q { t with infeasible := queue })
    (kept : ∀ (t : Tableau α) leaving row queue entering, Q t →
      nextInfeasible? t.rows t.infeasible = some (leaving, row, queue) →
      t.repairingSymbol? row = some entering →
      Q ({ t with infeasible := queue }.exchange entering leaving row).state)
    (start : Q t) : Q t.dualOptimize.state := by
  have queued : ∀ (t : Tableau α) leaving row queue, Q t →
      nextInfeasible? t.rows t.infeasible = some (leaving, row, queue) →
      Q { t with infeasible := queue } := fun t _ _ queue holds next =>
    shorter t queue holds (nextInfeasible?_eq_some next).2.2.2
  have ends : Ends t.dualOptimize
      (fun t' => ∃ t, Q t ∧ nextInfeasible? t.rows t.infeasible = none ∧
        t' = { t with infeasible := [] }) (fun _ => Q) :=
    dualOptimizeWithin_ends
      (fun t leaving row queue holds next _ => queued t leaving row queue holds next) queued
      (fun t leaving row queue entering holds next chosen =>
        ends_of_state (kept t leaving row queue entering holds next chosen)) pivotLimit [] start
  refine state_of_ends (ends_mono ends ?_ fun _ _ holds => holds)
  rintro _ ⟨t, holds, -, rfl⟩
  exact shorter t [] holds fun z none => nomatch none

/-- The dual method ends with nothing left to repair, unless an internal error stops it. -/
theorem dualOptimize_settles (t : Tableau α) :
    Ends t.dualOptimize (fun t' => t'.infeasible = []) (fun error _ => error.isInternal = true) := by
  refine ends_mono (dualOptimize_ends (Q := fun _ => True) (R := fun _ => True)
    (fun _ _ _ => trivial) (fun _ _ _ _ _ _ _ _ => ends_of_state trivial) trivial) ?_
    fun _ _ stopped => stopped.1
  rintro _ ⟨t, -, -, rfl⟩
  rfl

/-- The rows a marker is looked for in are those where its coefficient counts. -/
theorem mem_rowsHolding {marker : Symbol} {entry : Symbol × Row α} :
    entry ∈ t.rowsHolding marker ↔ t.rows.find? entry.1 = some entry.2 ∧
      Scalar.nearZero (entry.2.coefficient marker) = false := by
  simp [rowsHolding, List.mem_filter, mem_toList_iff]

theorem mem_shrinkingPicks {marker : Symbol} {pick : Pick α} :
    pick ∈ t.shrinkingPicks marker ↔ ∃ s row, t.rows.find? s = some row ∧
      Scalar.nearZero (row.coefficient marker) = false ∧ s.isRestricted = true ∧
      Scalar.isNegative (row.coefficient marker) = true ∧
      pick = { ratio := -row.constant / row.coefficient marker, symbol := s,
               allDummies := row.allDummies } := by
  simp only [shrinkingPicks, List.mem_map, List.mem_filter, mem_rowsHolding, Bool.and_eq_true,
    Prod.exists, and_assoc, eq_comm (a := pick)]

theorem mem_growingPicks {marker : Symbol} {pick : Pick α} :
    pick ∈ t.growingPicks marker ↔ ∃ s row, t.rows.find? s = some row ∧
      Scalar.nearZero (row.coefficient marker) = false ∧ s.isRestricted = true ∧
      Scalar.isNegative (row.coefficient marker) = false ∧
      pick = { ratio := row.constant / row.coefficient marker, symbol := s,
               allDummies := row.allDummies } := by
  simp only [growingPicks, List.mem_map, List.mem_filter, mem_rowsHolding, Bool.and_eq_true,
    Bool.not_eq_true', Prod.exists, and_assoc, eq_comm (a := pick)]

/-- A marker leaves through the best shrinking row, for lack of one through the best growing row, and
for lack of both through a row of a variable. -/
theorem markerRow?_eq_some {marker : Symbol}
    (found : t.markerRow? marker = some (leaving, row)) :
    t.rows.find? leaving = some row ∧ Scalar.nearZero (row.coefficient marker) = false ∧
      ((∃ pick, Pick.best? (t.shrinkingPicks marker) = some pick ∧ pick.symbol = leaving) ∨
        t.shrinkingPicks marker = [] ∧
          ((∃ pick, Pick.best? (t.growingPicks marker) = some pick ∧ pick.symbol = leaving) ∨
            t.growingPicks marker = [] ∧ leaving.isExternal = true)) := by
  simp only [markerRow?, Option.bind_eq_bind, Option.bind_eq_some_iff] at found
  obtain ⟨symbol, chosen, row', held, same⟩ := found
  cases same
  cases shrinking : Pick.best? (t.shrinkingPicks marker) with
  | some pick =>
    simp only [shrinking, Option.some_or, Option.map_some, Option.some.injEq] at chosen
    obtain ⟨s, r, found, counts, -, -, rfl⟩ := mem_shrinkingPicks.mp (Pick.best?_mem shrinking)
    cases chosen
    cases held.symm.trans found
    exact ⟨held, counts, .inl ⟨_, rfl, rfl⟩⟩
  | none =>
    have none := Pick.best?_eq_none_iff.mp shrinking
    cases growing : Pick.best? (t.growingPicks marker) with
    | some pick =>
      simp only [shrinking, growing, Option.none_or, Option.map_some, Option.some_or,
        Option.some.injEq] at chosen
      obtain ⟨s, r, found, counts, -, -, rfl⟩ := mem_growingPicks.mp (Pick.best?_mem growing)
      cases chosen
      cases held.symm.trans found
      exact ⟨held, counts, .inr ⟨none, .inl ⟨_, rfl, rfl⟩⟩⟩
    | none =>
      simp only [shrinking, growing, Option.none_or, Option.map_none] at chosen
      obtain ⟨entry, member, rfl⟩ := List.mem_map.mp (List.mem_of_getLast? chosen)
      obtain ⟨holding, external⟩ := List.mem_filter.mp member
      obtain ⟨found, counts⟩ := mem_rowsHolding.mp holding
      cases held.symm.trans found
      exact ⟨held, counts, .inr ⟨none, .inr ⟨Pick.best?_eq_none_iff.mp growing, external⟩⟩⟩

/-- The symbol whose row is to give way to a marker. -/
def giving? (t : Tableau α) (marker : Symbol) : Option Symbol :=
  (((Pick.best? (t.shrinkingPicks marker)).or (Pick.best? (t.growingPicks marker))).map Pick.symbol).or
    (t.lastExternal? marker)

theorem giving?_eq_some {marker key : Symbol} (chosen : giving? t marker = some key) :
    ∃ row, t.rows.find? key = some row := by
  simp only [giving?, Option.or_eq_some_iff, Option.map_eq_some_iff] at chosen
  obtain ⟨pick, shrinking | ⟨-, growing⟩, rfl⟩ | ⟨-, last⟩ := chosen
  · obtain ⟨s, row, found, -, -, -, rfl⟩ := mem_shrinkingPicks.mp (Pick.best?_mem shrinking)
    exact ⟨row, found⟩
  · obtain ⟨s, row, found, -, -, -, rfl⟩ := mem_growingPicks.mp (Pick.best?_mem growing)
    exact ⟨row, found⟩
  · obtain ⟨entry, member, rfl⟩ := List.mem_map.mp (List.mem_of_getLast? last)
    exact ⟨_, (mem_rowsHolding.mp (List.mem_filter.mp member).1).1⟩

/-- Every row in which the coefficient counts is a candidate of one of the three kinds. -/
theorem giving?_ne_none {marker key : Symbol} (found : t.rows.find? key = some row)
    (counts : Scalar.nearZero (row.coefficient marker) = false) : giving? t marker ≠ none := by
  intro missing
  simp only [giving?, Option.or_eq_none_iff, Option.map_eq_none_iff, Pick.best?_eq_none_iff,
    lastExternal?, List.getLast?_eq_none_iff] at missing
  obtain ⟨⟨noShrinking, noGrowing⟩, noExternal⟩ := missing
  cases external : key.isExternal with
  | true =>
    have candidate : key ∈
        ((t.rowsHolding marker).filter fun entry => entry.1.isExternal).map Prod.fst :=
      List.mem_map.mpr ⟨(key, row), List.mem_filter.mpr
        ⟨mem_rowsHolding.mpr ⟨found, counts⟩, external⟩, rfl⟩
    rw [noExternal] at candidate
    cases candidate
  | false =>
    have restricted := Symbol.isRestricted_iff.mpr external
    cases negative : Scalar.isNegative (row.coefficient marker) with
    | true =>
      have candidate := mem_shrinkingPicks.mpr ⟨key, row, found, counts, restricted, negative, rfl⟩
      rw [noShrinking] at candidate
      cases candidate
    | false =>
      have candidate := mem_growingPicks.mpr ⟨key, row, found, counts, restricted, negative, rfl⟩
      rw [noGrowing] at candidate
      cases candidate

/-- As soon as the coefficient of a marker counts in some row there is a row for it to leave through. -/
theorem markerRow?_eq_none {marker key : Symbol} (missing : t.markerRow? marker = none)
    (found : t.rows.find? key = some row) : Scalar.nearZero (row.coefficient marker) = true := by
  by_contra counts
  obtain ⟨giving, chosen⟩ :=
    Option.ne_none_iff_exists'.mp (giving?_ne_none found (by simpa using counts))
  obtain ⟨row', held⟩ := giving?_eq_some chosen
  have given : t.markerRow? marker = some (giving, row') := by
    show ((giving? t marker).bind fun key => (t.rows.find? key).bind fun row => some (key, row)) = _
    rw [chosen, Option.bind_some, held, Option.bind_some]
  cases missing.symm.trans given

end Cassowary.PivotRuns
