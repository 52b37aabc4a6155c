import Mathlib.Data.List.Nodup
import Mathlib.Logic.Function.Basic
import Cassowary.Outcome
import Cassowary.Tableau.Pick

/-!
Renumbering symbols. Adding the same offset to the number of every symbol keeps their kinds, tells them
apart as before and leaves their order alone, and nothing that is done with rows and candidates depends
on more than that: each operation commutes with renumbering.
-/

namespace Cassowary

/-! ## Symbols -/

namespace Symbol

/-- The symbol of the same kind whose number is greater by an offset. -/
def raise (k : Nat) (s : Symbol) : Symbol := ⟨s.id + k, s.kind⟩

variable {k : Nat} {s t : Symbol}

theorem raise_injective (k : Nat) : Function.Injective (raise k) := by
  rintro ⟨i, kind⟩ ⟨j, kind'⟩ same
  simpa [raise] using same

@[simp] theorem id_raise : (s.raise k).id = s.id + k := rfl

@[simp] theorem isExternal_raise : (s.raise k).isExternal = s.isExternal := rfl

@[simp] theorem isError_raise : (s.raise k).isError = s.isError := rfl

@[simp] theorem isDummy_raise : (s.raise k).isDummy = s.isDummy := rfl

@[simp] theorem isRestricted_raise : (s.raise k).isRestricted = s.isRestricted := rfl

@[simp] theorem isPivotable_raise : (s.raise k).isPivotable = s.isPivotable := rfl

theorem older_raise (s t : Symbol) : older (s.raise k) (t.raise k) = (older s t).raise k := by
  by_cases younger : t.id < s.id <;> simp [older, younger]

/-- The oldest symbol stays the oldest. -/
@[simp] theorem oldest?_raise (symbols : List Symbol) :
    oldest? (symbols.map (raise k)) = (oldest? symbols).map (raise k) := by
  cases symbols with
  | nil => rfl
  | cons first rest => exact congrArg some (List.foldl_map_hom older_raise)

end Symbol

/-! ## Maps -/

namespace OrderedMap

variable {κ κ' ν ν' μ μ' : Type} {f : κ → κ'} {g : ν → ν'} {injective : Function.Injective f}

/-- Renames the keys of a map, changes its values and keeps the order. -/
def relabel (f : κ → κ') (injective : Function.Injective f) (g : ν → ν') (m : OrderedMap κ ν) :
    OrderedMap κ' ν' where
  toList := m.toList.map (Prod.map f g)
  distinct := by
    have renamed : ((m.toList.map Prod.fst).map f).Nodup := m.distinct.map injective
    simpa [Function.comp_def] using renamed

@[simp] theorem toList_relabel (m : OrderedMap κ ν) :
    (m.relabel f injective g).toList = m.toList.map (Prod.map f g) := rfl

@[simp] theorem keys_relabel (m : OrderedMap κ ν) :
    (m.relabel f injective g).keys = m.keys.map f := by
  simp [keys, Function.comp_def]

@[simp] theorem size_relabel (m : OrderedMap κ ν) : (m.relabel f injective g).size = m.size := by
  simp [size]

@[simp] theorem isEmpty_relabel (m : OrderedMap κ ν) :
    (m.relabel f injective g).isEmpty = m.isEmpty := by
  simp [isEmpty]

@[simp] theorem size_mapValues (h : κ → ν → μ) (m : OrderedMap κ ν) :
    (m.mapValues h).size = m.size := by
  simp [size, mapValues]

/-- Values are changed alike before and after renaming. -/
theorem mapValues_relabel {h : κ → ν → μ} {h' : κ' → ν' → μ'} {g' : μ → μ'}
    (alike : ∀ key value, h' (f key) (g value) = g' (h key value)) (m : OrderedMap κ ν) :
    (m.relabel f injective g).mapValues h' = (m.mapValues h).relabel f injective g' := by
  apply ext
  simp [mapValues, Function.comp_def, Prod.map, alike]

variable [DecidableEq κ] [DecidableEq κ'] {key : κ} {value : ν}

private theorem seek_relabel (injective : Function.Injective f) (entries : List (κ × ν)) :
    seek (f key) (entries.map (Prod.map f g)) = (seek key entries).map g := by
  induction entries with
  | nil => rfl
  | cons entry rest ih =>
    obtain ⟨k, v⟩ := entry
    by_cases found : k = key
    · simp [seek, found]
    · simp [seek, found, injective.eq_iff, ih]

@[simp] theorem find?_relabel (m : OrderedMap κ ν) :
    (m.relabel f injective g).find? (f key) = (m.find? key).map g :=
  seek_relabel injective m.toList

@[simp] theorem contains_relabel (m : OrderedMap κ ν) :
    (m.relabel f injective g).contains (f key) = m.contains key := by
  simp [contains]

private theorem place_relabel (injective : Function.Injective f) (entries : List (κ × ν)) :
    place (f key) (g value) (entries.map (Prod.map f g)) =
      (place key value entries).map (Prod.map f g) := by
  induction entries with
  | nil => rfl
  | cons entry rest ih =>
    obtain ⟨k, v⟩ := entry
    by_cases found : k = key
    · simp [place, found]
    · simp [place, found, injective.eq_iff, ih]

@[simp] theorem insert_relabel (m : OrderedMap κ ν) :
    (m.relabel f injective g).insert (f key) (g value) =
      (m.insert key value).relabel f injective g :=
  ext (place_relabel injective m.toList)

@[simp] theorem erase_relabel (m : OrderedMap κ ν) :
    (m.relabel f injective g).erase (f key) = (m.erase key).relabel f injective g := by
  apply ext
  simp [erase, List.filter_map, Function.comp_def, injective.eq_iff]

/-- Values that are changed without regard to their keys are inserted alike. -/
@[simp] theorem insert_mapValues (g : ν → ν') (m : OrderedMap κ ν) :
    (m.mapValues fun _ => g).insert key (g value) = (m.insert key value).mapValues fun _ => g :=
  ext (place_relabel Function.injective_id m.toList)

@[simp] theorem erase_mapValues (h : κ → ν → μ) (m : OrderedMap κ ν) :
    (m.mapValues h).erase key = (m.erase key).mapValues h := by
  apply ext
  simp [erase, mapValues, List.filter_map, Function.comp_def]

end OrderedMap

/-! ## Outcomes -/

namespace Outcome

variable {ε η σ τ : Type} {state : σ → τ} {event : ε → η}

@[simp] theorem state_embed (o : Outcome ε σ) : (o.embed state event).state = state o.state := rfl

@[simp] theorem error?_embed (o : Outcome ε σ) : (o.embed state event).error? = o.error? := rfl

@[simp] theorem embed_ok (s : σ) : (ok s : Outcome ε σ).embed state event = ok (state s) := rfl

@[simp] theorem embed_fail (s : σ) (error : SolverError) :
    (fail s error : Outcome ε σ).embed state event = fail (state s) error := rfl

theorem embed_report (o : Outcome ε σ) (e : ε) :
    (o.report e).embed state event = (o.embed state event).report (event e) := rfl

theorem embed_mapError (o : Outcome ε σ) (f : SolverError → SolverError) :
    (o.mapError f).embed state event = (o.embed state event).mapError f := rfl

/-- What goes on alike from states that correspond ends alike. -/
theorem andThen_embed {next : σ → Outcome ε σ} {next' : τ → Outcome η τ}
    (alike : ∀ s, next' (state s) = (next s).embed state event) (o : Outcome ε σ) :
    (o.embed state event).andThen next' = (o.andThen next).embed state event := by
  obtain ⟨s, _ | error, events⟩ := o
  · simp [andThen, embed, alike]
  · rfl

end Outcome

/-! ## Rows -/

namespace Row

variable {α : Type}

/-- The row with every symbol renumbered. -/
def raise (k : Nat) (r : Row α) : Row α :=
  ⟨r.constant, r.cells.relabel (Symbol.raise k) (Symbol.raise_injective k) id⟩

variable {k : Nat} {r : Row α} {s : Symbol} {x : α}

@[simp] theorem constant_raise : (r.raise k).constant = r.constant := rfl

theorem toList_cells_raise :
    (r.raise k).cells.toList = r.cells.toList.map (Prod.map (Symbol.raise k) id) := rfl

theorem keys_cells_raise : (r.raise k).cells.keys = r.cells.keys.map (Symbol.raise k) := by
  simp [raise]

@[simp] theorem find?_cells_raise : (r.raise k).cells.find? (s.raise k) = r.cells.find? s := by
  simp [raise]

@[simp] theorem isConstant_raise : (r.raise k).isConstant = r.isConstant := by
  simp [isConstant, raise]

@[simp] theorem allDummies_raise : (r.raise k).allDummies = r.allDummies := by
  simp [allDummies, keys_cells_raise, Function.comp_def]

@[simp] theorem pivotable?_raise : (r.raise k).pivotable? = r.pivotable?.map (Symbol.raise k) := by
  simp [pivotable?, keys_cells_raise, List.find?_map, Function.comp_def]

theorem mapValues_cells_raise (change : α → α) :
    (r.raise k).cells.mapValues (fun _ x => change x) =
      (r.cells.mapValues fun _ x => change x).relabel _ (Symbol.raise_injective k) id := by
  apply OrderedMap.mapValues_relabel
  simp

@[simp] theorem remove_raise : (r.raise k).remove (s.raise k) = (r.remove s).raise k := by
  simp [remove, raise]

variable [Scalar α]

@[simp] theorem coefficient_raise : (r.raise k).coefficient (s.raise k) = r.coefficient s := by
  simp [coefficient, OrderedMap.findD]

@[simp] theorem addConstant_raise : (r.raise k).addConstant x = (r.addConstant x).raise k := rfl

@[simp] theorem insertSymbol_raise :
    (r.raise k).insertSymbol (s.raise k) x = (r.insertSymbol s x).raise k := by
  unfold insertSymbol
  rw [coefficient_raise]
  dsimp only
  split
  · exact congrArg (Row.mk _) (OrderedMap.erase_relabel r.cells)
  · exact congrArg (Row.mk _) (OrderedMap.insert_relabel r.cells)

@[simp] theorem insertCells_raise (cells : List (Symbol × α)) :
    (r.raise k).insertCells (cells.map (Prod.map (Symbol.raise k) id)) =
      (r.insertCells cells).raise k := by
  simp only [insertCells, List.foldl_map]
  exact List.foldl_hom (raise k) fun _ _ => insertSymbol_raise

@[simp] theorem scale_raise : (r.raise k).scale x = (r.scale x).raise k :=
  congrArg (Row.mk _) (mapValues_cells_raise _)

@[simp] theorem insertRow_raise (other : Row α) :
    (r.raise k).insertRow (other.raise k) x = (r.insertRow other x).raise k := by
  simp [insertRow, toList_cells_raise]

@[simp] theorem reverseSign_raise : (r.raise k).reverseSign = r.reverseSign.raise k :=
  congrArg (Row.mk _) (mapValues_cells_raise _)

theorem solveFor_raise {ε η : Type} (event : ε → η) :
    ((r.raise k).solveFor (s.raise k) : Outcome η (Row α)) =
      (r.solveFor s : Outcome ε (Row α)).embed (raise k) event := by
  cases found : r.cells.find? s <;> simp [solveFor, found]

theorem solveForSymbols_raise {ε η : Type} (event : ε → η) {z : Symbol} :
    ((r.raise k).solveForSymbols (s.raise k) (z.raise k) : Outcome η (Row α)) =
      (r.solveForSymbols s z : Outcome ε (Row α)).embed (raise k) event := by
  simp [solveForSymbols, solveFor_raise event]

@[simp] theorem substitute_raise (other : Row α) :
    (r.raise k).substitute (s.raise k) (other.raise k) = (r.substitute s other).raise k := by
  cases found : r.cells.find? s <;> simp [substitute, found]

end Row

/-! ## Candidates -/

namespace Pick

variable {α : Type} {k : Nat}

/-- The candidate with its symbol renumbered. -/
def raise (k : Nat) (p : Pick α) : Pick α := { p with symbol := p.symbol.raise k }

@[simp] theorem symbol_raise (p : Pick α) : (p.raise k).symbol = p.symbol.raise k := rfl

variable [Scalar α]

theorem better_raise (p q : Pick α) : better (p.raise k) (q.raise k) = (better p q).raise k := by
  have same : (q.raise k).beats (p.raise k) = q.beats p := by simp [beats, raise]
  by_cases beaten : q.beats p = true <;> simp [better, same, beaten]

/-- Renumbering does not change which candidate is chosen. -/
@[simp] theorem best?_raise (picks : List (Pick α)) :
    best? (picks.map (raise k)) = (best? picks).map (raise k) := by
  cases picks with
  | nil => rfl
  | cons first rest => exact congrArg some (List.foldl_map_hom better_raise)

end Pick

end Cassowary
