import Cassowary.Proofs.Representations

/-!
Suggestions in exact arithmetic. Moving the target of an edit moves the solutions along one of the two
errors of its equation. The columns of the two errors are opposite, so it does not matter which of them
takes the difference up. What becomes negative by it is queued and repaired.
-/

namespace Cassowary.Suggestions
open Endings MapEntries RowSymbols Separation Bookkeeping Drafting SolverBooks SessionBooks ExactRows
open Solutions RatioTests SimplexRuns Insertions Meaning Representations Tableau Solver
open scoped Exact

variable {P : Symbol → Prop} {t t' : Tableau Rat} {row r : Row Rat} {ρ : Valuation}
  {s s' : Solver Rat} {c : Constraint Rat} {h : Handle} {v : Variable} {tag : Tag} {y z : Symbol}
  {edit : Edit Rat} {p : Posting Rat} {delta target x : Rat}

/-- A tableau whose solutions have been moved along a symbol. -/
structure Moved (P : Symbol → Prop) (z : Symbol) (x : Rat) (t t' : Tableau Rat) : Prop where
  sound : Sound P t'
  covered : Covered t'
  settled : Settled t → Settled t'
  objective : t'.objective = t.objective
  solves : ∀ ρ, Solves t' ρ ↔ Solves t (Function.update ρ z (ρ z + x))

theorem shiftRow_cases (found : (t.shiftRow z row x).rows.find? y = some r) :
    (y = z ∧ r = row.addConstant x) ∨ t.rows.find? y = some r := by
  rw [shiftRow, OrderedMap.find?_insert] at found
  split at found
  · exact .inl ⟨Eq.symm ‹_›, (Option.some.inj found).symm⟩
  · exact .inr found

theorem shiftRow_solves (tidy : Tidy P t) (found : t.rows.find? z = some row) :
    Solves (t.shiftRow z row (-x)) ρ ↔ Solves t (Function.update ρ z (ρ z + x)) := by
  have here : (t.shiftRow z row (-x)).rows.find? z = some (row.addConstant (-x)) := by
    simp [shiftRow]
  have rest : ((t.shiftRow z row (-x)).dropRow z).rows = (t.dropRow z).rows := erase_insert
  have absent : row.coefficient z = 0 := coefficient_of_not_holds
    (not_holds_basic tidy (line_of_find? found) (basic_of_find? found))
  rw [solves_dropRow here, solves_dropRow found, solves_of_rows rest, dropRow_blind tidy found,
    eval_addConstant, Function.update_self, eval_update, absent, zero_mul, add_zero,
    ← sub_eq_add_neg, eq_sub_iff_add_eq]

/-- Moving the constant of one restricted row. -/
theorem shiftRow_moved (sound : Sound P t) (feasible : Feasible t)
    (tidy : Tidy P (t.shiftRow z row (-x))) (found : t.rows.find? z = some row)
    (restricted : z.isRestricted = true) (notDummy : z.isDummy = false) :
    Moved P z x t (t.shiftRow z row (-x)) where
  sound := by
    refine ⟨tidy, fun y r held => ?_, fun y r held internal => ?_, fun y queued => ?_⟩
    · obtain ⟨-, rfl⟩ | old := shiftRow_cases held
      · exact sound.pruned z row found
      · exact sound.pruned y r old
    · obtain ⟨-, rfl⟩ | old := shiftRow_cases held
      · exact sound.free z row found restricted
      · exact sound.free y r old internal
    · unfold shiftRow at queued
      dsimp only at queued
      split at queued
      · rcases List.mem_cons.mp queued with rfl | old
        · exact restricted
        · exact sound.queued y old
      · exact sound.queued y queued
  covered := by
    intro y r held internal negative
    obtain ⟨rfl, rfl⟩ | old := shiftRow_cases held
    · unfold shiftRow
      dsimp only
      rw [if_pos (isNegative_iff.mpr negative)]
      exact List.mem_cons_self
    · exact absurd negative (not_lt.mpr (feasible y r old internal))
  settled settled y r held dummy := by
    obtain ⟨rfl, -⟩ | old := shiftRow_cases held
    · rw [notDummy] at dummy
      cases dummy
    · exact settled y r old dummy
  objective := rfl
  solves _ := shiftRow_solves sound.tidy found

theorem shiftColumn_cases (found : (t.shiftColumn z delta).rows.find? y = some r) :
    ∃ before, t.rows.find? y = some before ∧ r.cells = before.cells ∧
      r.constant = before.constant + delta * before.coefficient z ∧
      (before.coefficient z = 0 → r = before) := by
  simp only [shiftColumn, OrderedMap.find?_mapValues, Option.map_eq_some_iff] at found
  obtain ⟨before, held, rfl⟩ := found
  refine ⟨before, held, ?_⟩
  split
  · rename_i small
    have zero := nearZero_iff.mp small
    exact ⟨rfl, by rw [zero, mul_zero, add_zero], fun _ => rfl⟩
  · rename_i large
    exact ⟨rfl, rfl, fun zero => absurd (nearZero_iff.mpr zero) large⟩

/-- Moving a row by its share of a column is evaluating it with the column moved. -/
theorem eval_shifted (cells : r.cells = row.cells)
    (constant : r.constant = row.constant + delta * row.coefficient z) :
    eval r ρ = eval row (Function.update ρ z (ρ z + delta)) := by
  rw [eval_update, eval, eval, cells, constant]
  ring

theorem shiftColumn_solves (column : ¬Basic t z) :
    Solves (t.shiftColumn z delta) ρ ↔ Solves t (Function.update ρ z (ρ z + delta)) := by
  have apart : ∀ {y r}, t.rows.find? y = some r → y ≠ z := by
    rintro y r found rfl
    exact column (basic_of_find? found)
  constructor
  · intro solves y before found
    obtain ⟨r, held⟩ : ∃ r, (t.shiftColumn z delta).rows.find? y = some r := by
      simp [shiftColumn, found]
    obtain ⟨before', old, cells, constant, -⟩ := shiftColumn_cases held
    cases found.symm.trans old
    rw [Function.update_of_ne (apart found), ← eval_shifted cells constant]
    exact solves y r held
  · intro solves y r held
    obtain ⟨before, old, cells, constant, -⟩ := shiftColumn_cases held
    have here := solves y before old
    rwa [Function.update_of_ne (apart old), ← eval_shifted cells constant] at here

theorem shiftColumn_covered (feasible : Feasible t) : Covered (t.shiftColumn z delta) := by
  intro y r held restricted negative
  obtain ⟨before, old, cells, constant, unmoved⟩ := shiftColumn_cases held
  by_cases share : before.coefficient z = 0
  · rw [unmoved share] at negative
    exact absurd negative (not_lt.mpr (feasible y before old restricted))
  · refine List.mem_append_left _ (List.mem_reverse.mpr (List.mem_map.mpr ⟨(y, r), ?_, rfl⟩))
    have same : r.coefficient z = before.coefficient z := by
      rw [Row.coefficient, cells]
      rfl
    refine List.mem_filter.mpr ⟨mem_toList_iff.mpr held, ?_⟩
    simp [violated, restricted, same, share, negative]

/-- Moving every row by its share of a column. -/
theorem shiftColumn_moved (sound : Sound P t) (feasible : Feasible t)
    (tidy : Tidy P (t.shiftColumn z delta)) (column : ¬Basic t z) (notDummy : z.isDummy = false) :
    Moved P z delta t (t.shiftColumn z delta) where
  sound := by
    refine ⟨tidy, fun y r held => ?_, fun y r held restricted z external => ?_, fun y queued => ?_⟩
    · obtain ⟨before, old, cells, -⟩ := shiftColumn_cases held
      unfold Pruned
      rw [cells]
      exact sound.pruned y before old
    · obtain ⟨before, old, cells, -⟩ := shiftColumn_cases held
      rw [Row.coefficient, cells]
      exact sound.free y before old restricted z external
    · rcases List.mem_append.mp queued with lowered | old
      · obtain ⟨entry, member, rfl⟩ := List.mem_map.mp (List.mem_reverse.mp lowered)
        have counts := (List.mem_filter.mp member).2
        simp only [violated, Bool.and_eq_true] at counts
        exact counts.2.1
      · exact sound.queued y old
  covered := shiftColumn_covered feasible
  settled settled y r held dummy := by
    obtain ⟨before, old, -, -, unmoved⟩ := shiftColumn_cases held
    have here := settled y before old dummy
    rw [unmoved (here.2 z notDummy)]
    exact here
  objective := rfl
  solves _ := shiftColumn_solves column

/-- Moving the target of an equation moves the solutions along one of its errors. -/
theorem shiftTarget_moved (delta : Rat) (sound : Sound P t) (feasible : Feasible t)
    (errors : ∀ z ∈ tag.symbols, z.isError = true) :
    Moved P tag.marker delta t (t.shiftTarget tag delta) ∨
      ∃ z, tag.other = some z ∧ Moved P z (-delta) t (t.shiftTarget tag delta) := by
  have kind : ∀ {z}, z ∈ tag.symbols → z.isRestricted = true ∧ z.isDummy = false :=
    fun member => ⟨Symbol.isRestricted_iff.mpr (Symbol.not_external_of_error (errors _ member)),
      Symbol.not_dummy_of_error (errors _ member)⟩
  have tidy := shiftTarget_tidy tag delta sound.tidy
  obtain ⟨restricted, notDummy⟩ := kind (z := tag.marker) (by simp [Tag.symbols])
  unfold shiftTarget at tidy ⊢
  split at tidy
  · rename_i row found
    exact .inl (shiftRow_moved sound feasible tidy found restricted notDummy)
  · rename_i missing
    split at tidy
    · rename_i other row found
      obtain ⟨z, same, mapped⟩ := Option.bind_eq_some_iff.mp found
      obtain ⟨row', held, pair⟩ := Option.map_eq_some_iff.mp mapped
      cases pair
      obtain ⟨restricted, notDummy⟩ := kind (z := other) (by simp [Tag.symbols, same])
      rw [← neg_neg delta] at tidy
      refine .inr ⟨other, same, ?_⟩
      have moved := shiftRow_moved sound feasible tidy held restricted notDummy
      rwa [neg_neg] at moved
    · exact .inl (shiftColumn_moved sound feasible tidy (not_basic_iff.mpr missing) notDummy)

/-! ## Suggestions to a solver -/

theorem clip_soft {strength : Strength Rat} (soft : strength.isRequired = false) :
    strength.clip.isRequired = false := by
  have low : (0 : Rat) < (Strength.required : Strength Rat).value := by
    simp [Strength.required]
  simp only [Strength.isRequired, decide_eq_false_iff_not, not_le] at soft ⊢
  unfold Strength.clip Scalar.clamp
  dsimp only
  split
  · exact low
  · rw [if_neg (not_lt.mpr soft.le)]
    exact soft

/-- The equation behind an edit is not required and has two errors. -/
theorem edit_posting (orderly : Orderly s) (found : s.edits.find? v = some edit) :
    ∃ p k, s.postings.find? edit.handle = some p ∧ p.tag = edit.tag ∧
      p.constraint.relation = .equal ∧ p.constraint.isRequired = false ∧
      edit.tag = ⟨⟨k + 1, .error⟩, some ⟨k + 2, .error⟩⟩ := by
  obtain ⟨target, strength, soft, posted⟩ := orderly.books.edits.posted v edit found
  obtain ⟨k, same, -⟩ := orderly.books.postings.tag _ _ posted
  have notRequired : (editConstraint v target strength).isRequired = false := clip_soft soft
  dsimp only at same
  rw [notRequired] at same
  exact ⟨_, k, posted, rfl, rfl, notRequired, same⟩

/-- The error that takes up the difference between two targets, and by how much it does. -/
def Along (tag : Tag) (delta : Rat) (z : Symbol) (x : Rat) : Prop :=
  (z = tag.marker ∧ x = delta) ∨ (tag.other = some z ∧ x = -delta)

theorem along_symbol (along : Along tag delta z x) : z ∈ tag.symbols := by
  rw [Tag.symbols]
  obtain ⟨rfl, -⟩ | ⟨other, -⟩ := along
  · simp
  · simp [other]

theorem edit_errors (orderly : Orderly s) (found : s.edits.find? v = some edit) :
    ∀ z ∈ edit.tag.symbols, z.isError = true := by
  obtain ⟨p, k, -, -, -, -, tag⟩ := edit_posting orderly found
  simp [tag, Tag.symbols, Symbol.isError]

/-- Moving the target of an edit moves the solutions along one of its errors. -/
theorem edit_moved (delta : Rat) (orderly : Orderly s) (sound : Sound P s.tableau)
    (feasible : Feasible s.tableau) (found : s.edits.find? v = some edit) :
    ∃ z x, Along edit.tag delta z x ∧ Moved P z x s.tableau (s.tableau.shiftTarget edit.tag delta) := by
  obtain moved | ⟨z, other, moved⟩ :=
    shiftTarget_moved delta sound feasible (edit_errors orderly found)
  · exact ⟨_, _, .inl ⟨rfl, rfl⟩, moved⟩
  · exact ⟨z, _, .inr ⟨other, rfl⟩, moved⟩

/-- A suggestion moves the solutions along an error of the edit and repairs the tableau. -/
theorem suggest_moved (orderly : Orderly s) (sound : Sound (Minted s.minted) s.tableau)
    (feasible : Feasible s.tableau) :
    Ends (s.suggest v target)
      (fun s' => ∃ edit z x t, s.edits.find? v = some edit ∧
        Along edit.tag (target - edit.target) z x ∧ Moved (Minted s.minted) z x s.tableau t ∧
        Repaired (Minted s.minted) t s'.tableau ∧ Feasible s'.tableau ∧
        s' = { s with edits := s.edits.insert v { edit with target }, tableau := s'.tableau })
      (fun error s' => error.isInternal = false → s' = s) := by
  unfold suggest
  split
  · exact fun _ => rfl
  · rename_i edit found
    obtain ⟨z, x, along, moved⟩ := edit_moved (target - edit.target) orderly sound feasible found
    dsimp only
    unfold onTableau
    rw [ends_embed]
    refine ends_mono (dualOptimize_repaired moved.sound moved.covered) ?_ ?_
    · rintro t' ⟨repaired, feasible'⟩
      exact ⟨edit, z, x, _, found, along, moved, repaired, feasible', rfl⟩
    · exact fun _ _ internal => of_internal internal

theorem worth_edit {σ : Assignment} :
    worth (.ofVariable v - .ofScalar target) σ = σ v - target := by
  have shape : (.ofVariable v - .ofScalar target : Expression Rat) =
      ⟨[⟨v, 1⟩], 0 + target * -1⟩ := rfl
  rw [shape, worth]
  simp
  ring

/-- Moving an error by the difference turns the equation of the old target into that of the new one. -/
theorem moved_equation {σ : Assignment} (apart : tag.other ≠ some tag.marker)
    (soft : ∃ minus, tag.other = some minus) (relation : c.relation = .equal)
    (along : Along tag (target - edit.target) z x) :
    Equation { c with expression := .ofVariable v - .ofScalar edit.target } tag σ
        (Function.update ρ z (ρ z + x)) ↔
      Equation { c with expression := .ofVariable v - .ofScalar target } tag σ ρ := by
  obtain ⟨minus, other⟩ := soft
  have distinct : tag.marker ≠ minus := fun same => apart (same ▸ other)
  unfold Equation
  rw [relation, other]
  dsimp only
  rw [worth_edit, worth_edit]
  obtain ⟨rfl, rfl⟩ | ⟨same, rfl⟩ := along
  · rw [Function.update_self, Function.update_of_ne (Ne.symm distinct)]
    constructor <;> intro equal <;> linarith
  · cases other.symm.trans same
    rw [Function.update_self, Function.update_of_ne distinct]
    constructor <;> intro equal <;> linarith

/-- After a suggestion the solver represents the edit with its new target. -/
theorem suggest_represents {s' : Solver Rat} (orderly : Orderly s) (accounted : Accounted s)
    (represents : Represents s.edits s) (found : s.edits.find? v = some edit)
    (along : Along edit.tag (target - edit.target) z x) (moved : Moved P z x s.tableau t)
    (repaired : Repaired P t t') (orderly' : Orderly s')
    (same : s' = { s with edits := s.edits.insert v { edit with target }, tableau := t' }) :
    Represents s'.edits s' := by
  obtain ⟨p, k, posted, tag, relation, -, shape⟩ := edit_posting orderly found
  have member : z ∈ p.tag.symbols := tag ▸ along_symbol along
  have edits : s'.edits = s.edits.insert v { edit with target } := by rw [same]
  have postings : s'.postings = s.postings := by rw [same]
  have tracked : s'.tracked = s.tracked := by rw [same]
  have tableau : s'.tableau = t' := by rw [same]
  have well' : EditsWell s.postings s'.edits := postings ▸ orderly'.books.edits
  have found' : s'.edits.find? v = some { edit with target } := by rw [edits]; simp
  intro ρ
  rw [tableau, repaired.solves, moved.solves, represents, tracked, postings,
    forall_erase posted, forall_erase posted]
  refine and_congr ?_ ?_
  · have backed : current s'.edits edit.handle p.constraint =
        { p.constraint with expression := .ofVariable v - .ofScalar target } :=
      current_of_edit well' found'
    rw [current_of_edit orderly.books.edits found, backed, reading_update orderly posted member, tag]
    exact moved_equation (tag ▸ tag_apart orderly posted) ⟨_, by rw [shape]⟩ relation along
  · refine (others_indifferent_tag orderly accounted orderly.books.edits posted member).trans ?_
    refine forall_congr' fun g => forall₂_congr fun q held => ?_
    have apart := (erase_found held).1
    have unmoved : current s.edits g q.constraint = current s'.edits g q.constraint := by
      refine current_congr orderly.books.edits well' fun w edit' here => ?_
      rw [edits, OrderedMap.find?_insert]
      split
      · rename_i own
        subst own
        refine ⟨fun before => ?_, fun after => ?_⟩
        · cases found.symm.trans before
          exact absurd here apart
        · cases after
          exact absurd here apart
      · exact Iff.rfl
    rw [unmoved]

end Cassowary.Suggestions
