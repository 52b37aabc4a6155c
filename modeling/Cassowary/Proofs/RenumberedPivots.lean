import Cassowary.Proofs.Renumbering
import Cassowary.Tableau.Dual
import Cassowary.Tableau.Marker
import Cassowary.Tableau.Primal

/-!
Pivoting in a renumbered tableau. A choice among columns or rows falls on the renumbered symbol, so the
primal and the dual method, the artificial phase and the eviction of a marker make the same pivots with
other numbers, meet the same errors and leave the renumbered tableau.
-/

namespace Cassowary

/-- The event with every symbol renumbered. -/
def PivotEvent.raise (k : Nat) : PivotEvent → PivotEvent
  | .primal entering leaving => .primal (entering.raise k) (leaving.raise k)
  | .dual entering leaving => .dual (entering.raise k) (leaving.raise k)
  | .residueDropped column => .residueDropped (column.raise k)

namespace Tableau

variable {α : Type} {k : Nat}

/-- The tableau with every symbol renumbered. -/
def raise (k : Nat) (t : Tableau α) : Tableau α where
  rows := t.rows.relabel (Symbol.raise k) (Symbol.raise_injective k) (Row.raise k)
  objective := t.objective.raise k
  artificial := t.artificial.map (Row.raise k)
  infeasible := t.infeasible.map (Symbol.raise k)

variable {t : Tableau α} {s z : Symbol} {r : Row α}

@[simp] theorem rows_raise : (t.raise k).rows =
    t.rows.relabel (Symbol.raise k) (Symbol.raise_injective k) (Row.raise k) := rfl

@[simp] theorem objective_raise : (t.raise k).objective = t.objective.raise k := rfl

@[simp] theorem artificial_raise : (t.raise k).artificial = t.artificial.map (Row.raise k) := rfl

@[simp] theorem infeasible_raise : (t.raise k).infeasible = t.infeasible.map (Symbol.raise k) := rfl

/-- A tableau whose parts are renumbered is a renumbered tableau. -/
theorem mk_raise (rows : OrderedMap Symbol (Row α)) (objective : Row α) (artificial : Option (Row α))
    (infeasible : List Symbol) :
    (⟨rows.relabel _ (Symbol.raise_injective k) (Row.raise k), objective.raise k,
        artificial.map (Row.raise k), infeasible.map (Symbol.raise k)⟩ : Tableau α) =
      raise k ⟨rows, objective, artificial, infeasible⟩ := rfl

@[simp] theorem dropRow_raise : (t.raise k).dropRow (s.raise k) = (t.dropRow s).raise k := by
  simp [dropRow, raise]

@[simp] theorem dropColumn_raise :
    (t.raise k).dropColumn (s.raise k) = (t.dropColumn s).raise k := by
  have rows : (t.raise k).rows.mapValues (fun _ row => row.remove (s.raise k)) =
      (t.rows.mapValues fun _ row => row.remove s).relabel _ (Symbol.raise_injective k)
        (Row.raise k) := by
    apply OrderedMap.mapValues_relabel
    simp
  unfold dropColumn
  rw [rows]
  simp [raise]

@[simp] theorem dropSymbol_raise :
    (t.raise k).dropSymbol (s.raise k) = (t.dropSymbol s).raise k := by
  by_cases basic : t.rows.contains s = true <;> simp [dropSymbol, basic]

@[simp] theorem objectiveRow?_raise (goal : Goal) :
    (t.raise k).objectiveRow? goal = (t.objectiveRow? goal).map (Row.raise k) := by
  cases goal <;> rfl

@[simp] theorem dropResidue_raise (goal : Goal) :
    (t.raise k).dropResidue (s.raise k) goal = (t.dropResidue s goal).raise k := by
  cases goal <;> simp [dropResidue, raise, Function.comp_def]

variable [Scalar α]

@[simp] theorem value_raise : (t.raise k).value (s.raise k) = t.value s := by
  cases found : t.rows.find? s <;> simp [value, found]

@[simp] theorem violated_raise : violated (s.raise k) (r.raise k) = violated s r := rfl

@[simp] theorem isFeasible_raise : (t.raise k).isFeasible = t.isFeasible := by
  simp [isFeasible, Function.comp_def]

/-! ## Changes of the basis -/

@[simp] theorem violations_raise (rows : OrderedMap Symbol (Row α)) :
    violations (rows.relabel (Symbol.raise k) (Symbol.raise_injective k) (Row.raise k)) =
      (violations rows).map (Symbol.raise k) := by
  simp [violations, List.filter_map, Function.comp_def]

@[simp] theorem substitute_raise :
    (t.raise k).substitute (s.raise k) (r.raise k) = (t.substitute s r).raise k := by
  have rows : (t.raise k).rows.mapValues (fun _ other => other.substitute (s.raise k) (r.raise k)) =
      (t.rows.mapValues fun _ other => other.substitute s r).relabel _ (Symbol.raise_injective k)
        (Row.raise k) := by
    apply OrderedMap.mapValues_relabel
    simp
  unfold substitute
  rw [rows]
  simp [raise, Function.comp_def]

@[simp] theorem enter_raise :
    (t.raise k).enter (s.raise k) (r.raise k) = (t.enter s r).raise k := by
  unfold enter
  rw [substitute_raise]
  simp [raise]

theorem exchange_raise : (t.raise k).exchange (s.raise k) (z.raise k) (r.raise k) =
    (t.exchange s z r).embed (raise k) (PivotEvent.raise k) := by
  unfold exchange
  rw [Row.solveForSymbols_raise (PivotEvent.raise k)]
  simp only [Outcome.error?_embed, Outcome.state_embed]
  split <;> simp

/-! ## The primal method -/

@[simp] theorem enteringSymbol?_raise :
    enteringSymbol? (r.raise k) = (enteringSymbol? r).map (Symbol.raise k) := by
  rw [enteringSymbol?, enteringSymbol?, ← Symbol.oldest?_raise]
  simp [Row.toList_cells_raise, List.filter_map, Function.comp_def]

@[simp] theorem leavingPicks_raise :
    (t.raise k).leavingPicks (s.raise k) = (t.leavingPicks s).map (Pick.raise k) := by
  simp [leavingPicks, List.filter_map, Function.comp_def, Pick.raise]

@[simp] theorem leavingRow?_raise : (t.raise k).leavingRow? (s.raise k) =
    (t.leavingRow? s).map (Prod.map (Symbol.raise k) (Row.raise k)) := by
  cases best : Pick.best? (t.leavingPicks s) with
  | none => simp [leavingRow?, best]
  | some pick => cases found : t.rows.find? pick.symbol <;> simp [leavingRow?, best, found]

theorem primalStep?_raise (goal : Goal) : (t.raise k).primalStep? goal =
    (t.primalStep? goal).map (·.embed (raise k) (PivotEvent.raise k)) := by
  cases objective : t.objectiveRow? goal with
  | none => simp [primalStep?, objective]
  | some objective' =>
    cases entering : enteringSymbol? objective' with
    | none => simp [primalStep?, objective, entering]
    | some column =>
      cases leaving : t.leavingRow? column with
      | none => simp [primalStep?, objective, entering, leaving, Outcome.embed_report, PivotEvent.raise]
      | some row =>
        simp [primalStep?, objective, entering, leaving, Outcome.embed_report, exchange_raise,
          PivotEvent.raise]

theorem optimizeWithin_raise (goal : Goal) (limit : Nat) (events : List PivotEvent) :
    (t.raise k).optimizeWithin goal limit (events.map (PivotEvent.raise k)) =
      (t.optimizeWithin goal limit events).embed (raise k) (PivotEvent.raise k) := by
  induction limit generalizing t events with
  | zero => rfl
  | succ limit ih =>
    rcases round : t.primalStep? goal with _ | ⟨next, _ | error, reported⟩
    · simp [optimizeWithin, primalStep?_raise, round, Outcome.embed]
    · simp [optimizeWithin, primalStep?_raise, round, Outcome.embed, ← List.map_append, ih]
    · simp [optimizeWithin, primalStep?_raise, round, Outcome.embed]

theorem optimize_raise (goal : Goal) : (t.raise k).optimize goal =
    (t.optimize goal).embed (raise k) (PivotEvent.raise k) :=
  optimizeWithin_raise goal pivotLimit []

/-! ## The dual method -/

theorem dual_raise : PivotEvent.dual (s.raise k) (z.raise k) = (PivotEvent.dual s z).raise k := rfl

@[simp] theorem repairPicks_raise :
    (t.raise k).repairPicks (r.raise k) = (t.repairPicks r).map (Pick.raise k) := by
  simp [repairPicks, Row.toList_cells_raise, List.filter_map, Function.comp_def, Pick.raise]

@[simp] theorem repairingSymbol?_raise :
    (t.raise k).repairingSymbol? (r.raise k) = (t.repairingSymbol? r).map (Symbol.raise k) := by
  simp [repairingSymbol?, Function.comp_def]

@[simp] theorem nextInfeasible?_raise (rows : OrderedMap Symbol (Row α)) (queue : List Symbol) :
    nextInfeasible? (rows.relabel _ (Symbol.raise_injective k) (Row.raise k))
        (queue.map (Symbol.raise k)) =
      (nextInfeasible? rows queue).map fun found =>
        (found.1.raise k, found.2.1.raise k, found.2.2.map (Symbol.raise k)) := by
  induction queue with
  | nil => rfl
  | cons s rest ih =>
    cases found : rows.find? s with
    | none => simp [nextInfeasible?, found, ih]
    | some row =>
      by_cases negative : Scalar.isNegative row.constant = true <;>
        simp [nextInfeasible?, found, negative, ih]

/-- The loop looks at the renumbered rows in the same order and makes the renumbered pivots. -/
theorem dualOptimizeWithin_raise (limit : Nat) (events : List PivotEvent) :
    (t.raise k).dualOptimizeWithin limit (events.map (PivotEvent.raise k)) =
      (t.dualOptimizeWithin limit events).embed (raise k) (PivotEvent.raise k) := by
  fun_induction dualOptimizeWithin limit t events with
  | case1 limit t events settled =>
    rw [dualOptimizeWithin]
    simp only [rows_raise, infeasible_raise, nextInfeasible?_raise, settled]
    rfl
  | case2 limit t events leaving row queue next rest stuck =>
    rw [dualOptimizeWithin]
    simp [next, mk_raise, rest, stuck, Outcome.embed]
  | case3 t events leaving row queue next rest entering repairing =>
    rw [dualOptimizeWithin]
    simp [next, mk_raise, rest, repairing, Outcome.embed]
  -- A round of the renumbered tableau is the renumbered round, whichever way it ends.
  | case4 t events leaving row queue next rest entering repairing limit t' reported round ih =>
    rw [dualOptimizeWithin]
    simp only [rest] at round repairing
    simp only [rows_raise, objective_raise, artificial_raise, infeasible_raise, mk_raise,
      nextInfeasible?_raise, next, repairingSymbol?_raise, repairing, Option.map_some,
      exchange_raise, dual_raise, ← Outcome.embed_report, round]
    simpa [Outcome.embed] using ih
  | case5 t events leaving row queue next rest entering repairing limit t' error reported round =>
    rw [dualOptimizeWithin]
    simp only [rest] at round repairing
    simp only [rows_raise, objective_raise, artificial_raise, infeasible_raise, mk_raise,
      nextInfeasible?_raise, next, repairingSymbol?_raise, repairing, Option.map_some,
      exchange_raise, dual_raise, ← Outcome.embed_report, round]
    simp [Outcome.embed]

theorem dualOptimize_raise : (t.raise k).dualOptimize =
    t.dualOptimize.embed (raise k) (PivotEvent.raise k) :=
  dualOptimizeWithin_raise pivotLimit []

/-! ## The artificial phase -/

theorem retireArtificial_raise : (t.raise k).retireArtificial (s.raise k) =
    (t.retireArtificial s).embed (raise k) (PivotEvent.raise k) := by
  cases found : t.rows.find? s with
  | none => simp [retireArtificial, found]
  | some row =>
    by_cases constant : row.isConstant = true
    · simp [retireArtificial, found, constant]
    · cases entering : row.pivotable? with
      | none => simp [retireArtificial, found, constant, entering]
      | some column =>
        simp only [retireArtificial, rows_raise, OrderedMap.find?_relabel, found, Option.map_some,
          Row.isConstant_raise, constant, Bool.false_eq_true, ↓reduceIte, Row.pivotable?_raise,
          entering, exchange_raise]
        exact Outcome.andThen_embed (fun _ => by simp) _

theorem enterArtificial_raise : (t.raise k).enterArtificial (s.raise k) (r.raise k) =
    (t.enterArtificial s r).embed (raise k) (PivotEvent.raise k) := by
  have opened : { t.raise k with
      rows := (t.raise k).rows.insert (s.raise k) (r.raise k), artificial := some (r.raise k) } =
        raise k { t with rows := t.rows.insert s r, artificial := some r } := by
    simp [raise]
  unfold enterArtificial
  dsimp only
  rw [opened, optimize_raise]
  refine Outcome.andThen_embed (fun t => ?_) _
  have residual : (t.raise k).artificial.elim 0 Row.constant = t.artificial.elim 0 Row.constant := by
    cases same : t.artificial <;> simp [same]
  rw [residual]
  have retired := retireArtificial_raise (k := k) (t := { t with artificial := none }) (s := s)
  refine (congrArg (Outcome.andThen · _) retired).trans (Outcome.andThen_embed (fun t => ?_) _)
  split <;> rfl

/-! ## Markers -/

@[simp] theorem rowsHolding_raise : (t.raise k).rowsHolding (s.raise k) =
    (t.rowsHolding s).map (Prod.map (Symbol.raise k) (Row.raise k)) := by
  simp [rowsHolding, List.filter_map, Function.comp_def]

@[simp] theorem shrinkingPicks_raise :
    (t.raise k).shrinkingPicks (s.raise k) = (t.shrinkingPicks s).map (Pick.raise k) := by
  simp [shrinkingPicks, List.filter_map, Function.comp_def, Pick.raise]

@[simp] theorem growingPicks_raise :
    (t.raise k).growingPicks (s.raise k) = (t.growingPicks s).map (Pick.raise k) := by
  simp [growingPicks, List.filter_map, Function.comp_def, Pick.raise]

@[simp] theorem lastExternal?_raise :
    (t.raise k).lastExternal? (s.raise k) = (t.lastExternal? s).map (Symbol.raise k) := by
  simp [lastExternal?, List.filter_map, Function.comp_def]

@[simp] theorem markerRow?_raise : (t.raise k).markerRow? (s.raise k) =
    (t.markerRow? s).map (Prod.map (Symbol.raise k) (Row.raise k)) := by
  simp only [markerRow?, shrinkingPicks_raise, growingPicks_raise, Pick.best?_raise, ← Option.map_or,
    lastExternal?_raise, Option.map_map]
  have chosen (picked : Option (Pick α)) (last : Option Symbol) :
      ((picked.map (Pick.symbol ∘ Pick.raise k)).or (last.map (Symbol.raise k))) =
        ((picked.map Pick.symbol).or last).map (Symbol.raise k) := by
    cases picked <;> simp
  rw [chosen]
  rcases ((Pick.best? (t.shrinkingPicks s)).or _ |>.map Pick.symbol).or _ with _ | leaving
  · rfl
  · cases found : t.rows.find? leaving <;> simp [found]

theorem evict_raise : (t.raise k).evict (s.raise k) =
    (t.evict s).embed (raise k) (PivotEvent.raise k) := by
  by_cases basic : t.rows.contains s = true
  · simp [evict, basic]
  · rcases leaving : t.markerRow? s with _ | ⟨z, row⟩
    · simp [evict, basic, leaving]
    · have left : ((t.exchange s z row).embed (raise k) (PivotEvent.raise k)).andThen
          (fun t => .ok (t.dropRow (s.raise k))) =
            ((t.exchange s z row).andThen fun t => .ok (t.dropRow s)).embed (raise k)
              (PivotEvent.raise k) :=
        Outcome.andThen_embed (fun _ => by simp) _
      simp [evict, basic, leaving, exchange_raise, left, Outcome.embed_report, PivotEvent.raise]

end Tableau

end Cassowary
