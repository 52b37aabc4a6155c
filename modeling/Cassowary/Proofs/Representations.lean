import Cassowary.Proofs.Evictions
import Cassowary.Proofs.Insertions

/-!
The tableau says what the constraints say. Posting a constraint adds its equation to the solutions of
the tableau, withdrawing and retracting it take nothing else away, and a suggestion moves the constants
by just what the new target asks for. Symbols that no equation mentions any more are gone from the rows.
-/

namespace Cassowary.Representations
open Endings MapEntries RowSymbols Separation Bookkeeping Drafting SolverBooks SessionBooks ExactRows
open Solutions RatioTests SimplexRuns Evictions ArtificialPhase Insertions Meaning Tableau Solver
open scoped Exact

variable {P : Symbol → Prop} {t t' : Tableau Rat} {row r : Row Rat} {ρ μ : Valuation}
  {s s' : Solver Rat} {c : Constraint Rat} {h : Handle} {v : Variable} {tag : Tag} {z : Symbol}
  {edits : OrderedMap Variable (Edit Rat)} {tracked : OrderedMap Variable Tracked}
  {p : Posting Rat} {delta : Rat}

/-- A constraint's equation is the same in all books in which its variables have the same symbols. -/
theorem equation_reading (well : EditsWell s.postings edits) (accounted : Accounted s)
    (found : s.postings.find? h = some p)
    (kept : ∀ v entry, s.tracked.find? v = some entry →
      v ∈ p.constraint.expression.relevantTerms.map Term.var →
      ∃ uses, tracked.find? v = some ⟨entry.symbol, uses⟩) :
    Equation (current edits h p.constraint) p.tag (reading tracked ρ) ρ ↔
      Equation (current edits h p.constraint) p.tag (reading s.tracked ρ) ρ := by
  refine equation_congr (fun _ _ => rfl) fun term member => ?_
  rw [current_relevantTerms well found] at member
  obtain ⟨entry, here⟩ := tracked_of_posting accounted found member
  obtain ⟨uses, there⟩ := kept _ entry here (List.mem_map_of_mem member)
  simp only [reading, here, there, Option.elim_some]

/-- What represents the constraints still does so when solutions, constraints and the symbols of
variables are the same. -/
theorem represents_of_shrinks (well : EditsWell s.postings edits) (accounted : Accounted s)
    (accounted' : Accounted s') (postings : s'.postings = s.postings)
    (solves : ∀ ρ, Solves s'.tableau ρ ↔ Solves s.tableau ρ)
    (kept : ∀ v entry entry', s.tracked.find? v = some entry →
      s'.tracked.find? v = some entry' → entry'.symbol = entry.symbol)
    (represents : Represents edits s) : Represents edits s' := by
  intro ρ
  rw [solves ρ, represents ρ, postings]
  refine forall_congr' fun h => forall₂_congr fun p found => ?_
  refine (equation_reading well accounted found fun v entry here mentioned => ?_).symm
  obtain ⟨term, member, rfl⟩ := List.mem_map.mp mentioned
  obtain ⟨⟨symbol, uses⟩, there⟩ := tracked_of_posting accounted' (postings ▸ found) member
  obtain rfl : symbol = entry.symbol := kept _ entry _ here there
  exact ⟨uses, there⟩

/-! ## Posting -/

/-- No edit is backed by a constraint that is not there. -/
theorem free_unbacked (orderly : Orderly s) (free : s.postings.find? h = none) (v : Variable)
    (edit : Edit Rat) (found : s.edits.find? v = some edit) : edit.handle ≠ h := by
  rintro rfl
  obtain ⟨_, _, -, here⟩ := orderly.books.edits.posted v edit found
  rw [free] at here
  cases here

/-- The draft of a constraint adds its equation to those of the constraints that are there. -/
theorem draft_equations (orderly : Orderly s) (accounted : Accounted s)
    (represents : Represents s.edits s) (free : s.postings.find? h = none) :
    Solves (s.draft c).solver.tableau ρ ∧ eval (s.draft c).row ρ = 0 ↔
      ∀ g p, (s.postings.insert h ⟨c, (s.draft c).tag⟩).find? g = some p →
        Equation (current s.edits g p.constraint) p.tag
          (reading (s.draft c).solver.tracked ρ) ρ := by
  have drafted : Solves (s.draft c).solver.tableau ρ ↔ Solves s.tableau ρ :=
    solves_of_rows draft_rows
  have own : Solves s.tableau ρ → (eval (s.draft c).row ρ = 0 ↔
      Equation (current s.edits h c) (s.draft c).tag
        (reading (s.draft c).solver.tracked ρ) ρ) := fun solves => by
    rw [current_of_unbacked (free_unbacked orderly free), draft_equation solves]
  rw [drafted, forall_insert free, and_congr_right own, represents ρ, and_comm]
  refine and_congr_right fun _ => forall_congr' fun g => forall₂_congr fun p found => ?_
  refine (equation_reading orderly.books.edits accounted found fun v entry here _ => ?_).symm
  exact (rowOf_grows s c.expression).kept v entry here

/-- Posting a constraint adds its equation. -/
theorem post_represents (orderly : Orderly s) (accounted : Accounted s)
    (represents : Represents s.edits s) (free : s.postings.find? h = none) (posted : Posted s h c s')
    (entered : Entered P (s.draft c).row (s.draft c).solver.tableau t)
    (resettled : Resettled P t s'.tableau) : Represents s'.edits s' := by
  intro ρ
  rw [resettled.solves, entered.solves, posted.edits, posted.postings, posted.tracked]
  exact draft_equations orderly accounted represents free

/-- Withdrawing a draft leaves the solutions alone. -/
theorem withdrawn_represents (orderly : Orderly s) (accounted : Accounted s)
    (represents : Represents s.edits s) (withdrawn : Withdrawn (s.draft c) c s') :
    Represents s'.edits s' := by
  obtain ⟨accounted', tableau⟩ := withdrawn_accounted orderly accounted withdrawn
  rw [withdrawn_edits withdrawn]
  refine represents_of_shrinks orderly.books.edits accounted accounted' (withdrawn_postings withdrawn)
    (fun ρ => ?_) (fun v entry entry' here there => ?_) represents
  · rw [tableau]
    exact solves_of_rows draft_rows
  · obtain ⟨minted, -, rfl⟩ := withdrawn
    have shrinks := withdraw_shrinks { (s.draft c).solver with minted } c (s.draft c).tag
    obtain ⟨uses, drafted⟩ := shrinks.kept v entry' there
    obtain ⟨uses', grown⟩ := (rowOf_grows s c.expression).kept v entry here
    exact (Tracked.mk.inj (Option.some.inj (drafted.symm.trans grown))).1

/-! ## Retracting -/

/-- The equations of the constraints other than one. -/
def Others (edits : OrderedMap Variable (Edit Rat)) (s : Solver Rat) (h : Handle) (ρ : Valuation) :
    Prop :=
  ∀ g p, (s.postings.erase h).find? g = some p →
    Equation (current edits g p.constraint) p.tag (reading s.tracked ρ) ρ

theorem erase_found {g : Handle} (found : (s.postings.erase h).find? g = some p) :
    h ≠ g ∧ s.postings.find? g = some p := by
  rw [OrderedMap.find?_erase] at found
  split at found
  · cases found
  · exact ⟨‹_›, found⟩

/-- The symbols of a constraint do not occur in the equations of the others. -/
theorem others_indifferent_tag (orderly : Orderly s) (accounted : Accounted s)
    (well : EditsWell s.postings edits) (found : s.postings.find? h = some p)
    (member : z ∈ p.tag.symbols) {x : Rat} :
    Others edits s h (Function.update ρ z x) ↔ Others edits s h ρ := by
  refine forall_congr' fun g => forall₂_congr fun q held => ?_
  obtain ⟨apart, here⟩ := erase_found held
  refine posting_equation_congr well accounted here (fun y mine => ?_) fun w entry tracked _ => ?_
  · refine Function.update_of_ne ?_ _ _
    rintro rfl
    exact apart (orderly.books.postings.distinct h g p q y found here member mine)
  · refine Function.update_of_ne ?_ _ _
    rintro rfl
    have internal := (tag_symbol orderly.books.postings found member).1
    rw [(orderly.books.tracked.symbol w entry tracked).1] at internal
    cases internal

/-- The symbol of a variable that the other constraints do not refer to does not occur in them. -/
theorem others_indifferent_variable (orderly : Orderly s) (accounted : Accounted s)
    (well : EditsWell s.postings edits) {entry : Tracked} (tracked : s.tracked.find? v = some entry)
    (unreferenced : references (s.postings.erase h) v = 0) {x : Rat} :
    Others edits s h (Function.update ρ entry.symbol x) ↔ Others edits s h ρ := by
  refine forall_congr' fun g => forall₂_congr fun q held => ?_
  have here := (erase_found held).2
  refine posting_equation_congr well accounted here (fun y mine => ?_) fun w entry' tracked' mentioned =>
    ?_
  · refine Function.update_of_ne ?_ _ _
    rintro rfl
    have internal := (tag_symbol orderly.books.postings here mine).1
    rw [(orderly.books.tracked.symbol v entry tracked).1] at internal
    cases internal
  · refine Function.update_of_ne (fun same => ?_) _ _
    cases orderly.books.tracked.distinct w v entry' entry tracked' tracked same
    obtain ⟨term, member, rfl⟩ := List.mem_map.mp mentioned
    have own : 0 < mentions q.constraint.expression term.var :=
      List.countP_pos_iff.mpr ⟨term, member, by simp⟩
    have less : references (s.postings.erase h) term.var =
      mentions q.constraint.expression term.var +
        references ((s.postings.erase h).erase g) term.var := total_erase held
    omega

/-- Moving a symbol of a tag moves no variable. -/
theorem reading_update (orderly : Orderly s) (found : s.postings.find? h = some p)
    (member : z ∈ p.tag.symbols) {x : Rat} :
    reading s.tracked (Function.update ρ z x) = reading s.tracked ρ := by
  funext w
  cases tracked : s.tracked.find? w with
  | none => simp only [reading, tracked, Option.elim_none]
  | some entry =>
    simp only [reading, tracked, Option.elim_some]
    refine Function.update_of_ne (fun same => ?_) _ _
    have internal := (tag_symbol orderly.books.postings found member).1
    rw [← same, (orderly.books.tracked.symbol w entry tracked).1] at internal
    cases internal

theorem mint_apart {relation : Relation} {required : Bool} {minted : Nat} :
    (Tag.mint relation required minted).other ≠ some (Tag.mint relation required minted).marker := by
  cases relation <;> cases required <;> simp [Tag.mint]

theorem tag_apart (orderly : Orderly s) (found : s.postings.find? h = some p) :
    p.tag.other ≠ some p.tag.marker := by
  obtain ⟨k, same, -⟩ := orderly.books.postings.tag h p found
  rw [same]
  exact mint_apart

/-- Once its marker is evicted the equation of a constraint is gone, and those of the others are left. -/
theorem evicted_solves (orderly : Orderly s) (accounted : Accounted s)
    (well : EditsWell s.postings edits) (represents : Represents edits s)
    (found : s.postings.find? h = some p) (rows : t.rows = s.tableau.rows)
    (evicted : Evicted P p.tag.marker t t') : Solves t' ρ ↔ Others edits s h ρ := by
  have split : ∀ ρ, Solves t ρ ↔
      Equation (current edits h p.constraint) p.tag (reading s.tracked ρ) ρ ∧
        Others edits s h ρ := by
    intro ρ
    rw [solves_of_rows rows, represents ρ, forall_erase found]
    rfl
  have own : p.tag.marker ∈ p.tag.symbols := by simp [Tag.symbols]
  rw [evicted.solves]
  constructor
  · rintro ⟨x, solves⟩
    exact (others_indifferent_tag orderly accounted well found own).mp ((split _).mp solves).2
  · intro others
    obtain ⟨x, equation⟩ := equation_solvable (c := current edits h p.constraint)
      (σ := reading s.tracked ρ) (ρ := ρ) (tag_apart orderly found)
    refine ⟨x, (split _).mpr ⟨?_, ?_⟩⟩
    · rw [reading_update orderly found own]
      exact equation
    · exact (others_indifferent_tag orderly accounted well found own).mpr others

/-- A symbol that the solutions do not depend on is not basic, and dropping it changes no solution. -/
theorem dropSymbol_solves (tidy : Tidy P t) (indifferent : Indifferent (Solves t) z) :
    ¬Basic t z ∧ ∀ ρ, Solves (t.dropSymbol z) ρ ↔ Solves t ρ := by
  have column := (absent_of_indifferent tidy indifferent).1
  refine ⟨column, fun ρ => ?_⟩
  have dropped : t.dropSymbol z = t.dropColumn z := if_neg column
  rw [dropped, solves_dropColumn column]
  refine ⟨fun solves => ?_, indifferent ρ 0⟩
  have back := indifferent _ (ρ z) solves
  rwa [Function.update_idem, Function.update_eq_self] at back

/-- What is left when both symbols of a constraint are gone. -/
theorem dropped_solves (orderly : Orderly s) (accounted : Accounted s)
    (well : EditsWell s.postings edits) (found : s.postings.find? h = some p) (tidy : Tidy P t)
    (solves : ∀ ρ, Solves t ρ ↔ Others edits s h ρ) :
    Solves (p.tag.other.elim t t.dropSymbol) ρ ↔ Others edits s h ρ := by
  cases other : p.tag.other with
  | none => exact solves ρ
  | some z =>
    have member : z ∈ p.tag.symbols := by simp [Tag.symbols, other]
    refine ((dropSymbol_solves tidy fun ρ x held => ?_).2 ρ).trans (solves ρ)
    rw [solves] at held ⊢
    exact (others_indifferent_tag orderly accounted well found member).mpr held

/-- Releasing the variables of a constraint whose equation is gone leaves the tableau as it is. -/
theorem released_tableau (orderly : Orderly s) (accounted : Accounted s)
    (well : EditsWell s.postings edits) (found : s.postings.find? h = some p) (tidy : Tidy P t)
    (solves : ∀ ρ, Solves t ρ ↔ Others edits s h ρ) :
    (Solver.release { s with postings := s.postings.erase h, tableau := t }
      p.constraint.expression).tableau = t := by
  have less : ∀ v, references s.postings v =
      references (s.postings.erase h) v + mentions p.constraint.expression v := fun v =>
    (total_erase found).trans (Nat.add_comm _ _)
  have counted : Counted s.tracked fun v =>
      references (s.postings.erase h) v + mentions p.constraint.expression v := fun v => by
    have here := accounted v
    rwa [less] at here
  refine release_tableau (s := { s with postings := s.postings.erase h, tableau := t }) counted
    fun v entry tracked none => ?_
  · refine (absent_of_indifferent tidy fun ρ x held => ?_).1
    rw [solves] at held ⊢
    exact (others_indifferent_variable orderly accounted well tracked none).mpr held

/-- Without its constraint a solver represents the others. -/
theorem retracted_represents (orderly : Orderly s) (accounted : Accounted s)
    (well : EditsWell s.postings edits) (found : s.postings.find? h = some p) (tidy : Tidy P t)
    (solves : ∀ ρ, Solves t ρ ↔ Others edits s h ρ) (accounted' : Accounted s')
    (released : s' = Solver.release { s with postings := s.postings.erase h, tableau := t }
      p.constraint.expression) : Represents edits s' := by
  have shrinks := release_shrinks { s with postings := s.postings.erase h, tableau := t }
    p.constraint.expression
  rw [← released] at shrinks
  have tableau : s'.tableau = t := by
    rw [released]
    exact released_tableau orderly accounted well found tidy solves
  intro ρ
  rw [tableau, solves ρ, Others, shrinks.postings]
  refine forall_congr' fun g => forall₂_congr fun q held => ?_
  refine (equation_reading well accounted (erase_found held).2 fun v entry here mentioned => ?_).symm
  obtain ⟨term, member, rfl⟩ := List.mem_map.mp mentioned
  obtain ⟨⟨symbol, uses⟩, there⟩ :=
    tracked_of_posting accounted' (h := g) (p := q) (by rw [shrinks.postings]; exact held) member
  obtain ⟨uses', before⟩ := shrinks.kept _ _ there
  cases here.symm.trans before
  exact ⟨uses, there⟩

end Cassowary.Representations
