import Cassowary.Proofs.Suggestions

/-!
Solvers that say what their constraints say. A faithful solver has a feasible tableau whose solutions
are those of its constraints' equations. Posting, retracting and suggesting leave a faithful solver
behind unless they meet an internal error, and what they did to the tableau is told once for all.
-/

namespace Cassowary.Fidelity
open Endings MapEntries RowSymbols Separation Bookkeeping Drafting SolverBooks SessionBooks ExactRows
open Solutions RatioTests SimplexRuns Evictions ArtificialPhase Insertions Meaning Representations
open Suggestions Tableau Solver
open scoped Exact

variable {s s' : Solver Rat} {c : Constraint Rat} {h : Handle} {v : Variable} {tag : Tag}
  {t : Tableau Rat} {P : Symbol → Prop} {edits : OrderedMap Variable (Edit Rat)}

structure Faithful (s : Solver Rat) : Prop where
  orderly : Orderly s
  accounted : Accounted s
  sound : Sound (Minted s.minted) s.tableau
  feasible : Feasible s.tableau
  represents : Represents s.edits s

theorem fresh_faithful (minted : Nat) : Faithful (fresh minted) where
  orderly := fresh_orderly minted
  accounted := fresh_accounted minted
  sound := by
    refine ⟨(fresh_orderly minted).tidy, ?_, ?_, ?_⟩
    · rintro s row ⟨⟩
    · rintro s row ⟨⟩
    · rintro s ⟨⟩
  feasible := by rintro s row ⟨⟩
  represents := by
    refine fun ρ => ⟨fun _ => ?_, fun _ => ?_⟩
    · rintro h p ⟨⟩
    · rintro s row ⟨⟩

/-! ## Posting -/

theorem withdrawn_faithful (faithful : Faithful s) (orderly' : Orderly s')
    (withdrawn : Withdrawn (s.draft c) c s') : Faithful s' := by
  obtain ⟨accounted', tableau⟩ := withdrawn_accounted faithful.orderly faithful.accounted withdrawn
  have rows : s'.tableau.rows = s.tableau.rows := by
    rw [tableau]
    exact draft_rows
  refine ⟨orderly', accounted', sound_of_rows faithful.sound orderly'.tidy rows ?_, ?_,
    withdrawn_represents faithful.orderly faithful.accounted faithful.represents withdrawn⟩
  · rw [tableau]
    show (s.draft c).solver.tableau.infeasible = _
    rw [draft_tableau]
    rfl
  · unfold Feasible
    rw [rows]
    exact faithful.feasible

/-- What posting a constraint has done once it succeeded. -/
structure Brought (s : Solver Rat) (h : Handle) (c : Constraint Rat) (s' : Solver Rat) : Prop where
  free : s.postings.find? h = none
  posted : Posted s h c s'
  tableau : ∃ t, Entered (Minted s'.minted) (s.draft c).row (s.draft c).solver.tableau t ∧
    Resettled (Minted s'.minted) t s'.tableau

/-- Why posting a constraint may fail without an internal error. -/
def Reason (s : Solver Rat) (h : Handle) (c : Constraint Rat) (error : SolverError) : Prop :=
  (error = .duplicateConstraint ∧ s.postings.contains h = true) ∨
    (error = .unsatisfiableConstraint ∧ s.postings.contains h = false ∧
      Refused (s.draft c).solver.tableau (s.draft c).row)

/-- Posting leaves a faithful solver behind, and one that fails without an internal error leaves the
solver as it was or withdraws the draft. -/
theorem post_faithful (faithful : Faithful s) (serial : ∀ k, h = .edit k → k ≤ s.minted) :
    Ends (s.post h c) (fun s' => Faithful s' ∧ Brought s h c s')
      (fun error s' => error.isInternal = false → Faithful s' ∧ Reason s h c error ∧
        (s' = s ∨ Withdrawn (s.draft c) c s')) := by
  refine ends_mono (ends_and (post_ends (c := c) faithful.orderly serial)
    (post_entered (h := h) (c := c) faithful.sound faithful.feasible
      faithful.orderly.books.tracked)) ?_ ?_
  · rintro s' ⟨⟨orderly', free, posted⟩, t, entered, resettled⟩
    exact ⟨⟨orderly', posted_accounted faithful.accounted free posted, resettled.sound,
      resettled.feasible, post_represents faithful.orderly faithful.accounted faithful.represents
        free posted entered resettled⟩, free, posted, t, entered, resettled⟩
  · rintro error s' ⟨⟨orderly', -, left⟩, reason⟩ external
    refine ⟨?_, reason external, left external⟩
    obtain rfl | withdrawn := left external
    · exact faithful
    · exact withdrawn_faithful faithful orderly' withdrawn

/-- An edit starts at the target that its constraint was posted with. -/
theorem insertEdit_faithful {strength : Strength Rat} {x : Rat} {posted₁ : Tag} (faithful : Faithful s)
    (unedited : s.edits.find? v = none) (free : s.postings.find? (.edit s.minted) = none)
    (posted : Posted s (.edit s.minted) (editConstraint v x strength) s') (faithful' : Faithful s')
    (orderly : Orderly { s' with edits := s'.edits.insert v ⟨posted₁, .edit s.minted, x⟩ }) :
    Faithful { s' with edits := s'.edits.insert v ⟨posted₁, .edit s.minted, x⟩ } := by
  refine ⟨orderly, faithful'.accounted, faithful'.sound, faithful'.feasible, fun ρ => ?_⟩
  refine (faithful'.represents ρ).trans ?_
  refine forall_congr' fun g => forall₂_congr fun q held => ?_
  have same : current s'.edits g q.constraint =
      current (s'.edits.insert v ⟨posted₁, .edit s.minted, x⟩) g q.constraint := by
    by_cases own : g = .edit s.minted
    · subst own
      have unbacked : ∀ w edit, s'.edits.find? w = some edit → edit.handle ≠ .edit s.minted := by
        rintro w edit here same
        rw [posted.edits] at here
        obtain ⟨_, _, -, backed⟩ := faithful.orderly.books.edits.posted w edit here
        rw [same, free] at backed
        cases backed
      have new : (s'.edits.insert v ⟨posted₁, .edit s.minted, x⟩).find? v =
          some ⟨posted₁, .edit s.minted, x⟩ := by simp
      rw [posted.postings, OrderedMap.find?_insert, if_pos rfl] at held
      cases held
      have backed : current (s'.edits.insert v ⟨posted₁, .edit s.minted, x⟩) (.edit s.minted)
          (editConstraint v x strength) = editConstraint v x strength :=
        current_of_edit orderly.books.edits new
      exact (current_of_unbacked unbacked).trans backed.symm
    · refine current_congr faithful'.orderly.books.edits orderly.books.edits fun w edit here => ?_
      rw [OrderedMap.find?_insert]
      split
      · rename_i same
        subst same
        rw [posted.edits, unedited]
        refine ⟨(by cases ·), fun after => ?_⟩
        cases after
        exact absurd here.symm own
      · exact Iff.rfl
  rw [same]

/-! ## Retracting -/

theorem dropSymbol_sound {z : Symbol} (sound : Sound P t) : Sound P (t.dropSymbol z) := by
  unfold dropSymbol
  split
  · exact dropRow_sound sound
  · exact dropColumn_sound sound

theorem dropSymbol_feasible {z : Symbol} (feasible : Feasible t) : Feasible (t.dropSymbol z) := by
  unfold dropSymbol
  split
  · exact feasible_of_fewer feasible dropRow_fewer
  · exact dropColumn_feasible feasible

/-- Once the marker is evicted, dropping the other symbol of a tag leaves a feasible tableau. -/
theorem dropped_feasible {t' : Tableau Rat} {z : Symbol} (tag : Tag) (evicted : Evicted P z t t') :
    Sound P (tag.other.elim t' t'.dropSymbol) ∧ Feasible (tag.other.elim t' t'.dropSymbol) := by
  cases tag.other with
  | none => exact ⟨evicted.sound, evicted.feasible⟩
  | some z => exact ⟨dropSymbol_sound evicted.sound, dropSymbol_feasible evicted.feasible⟩

/-- What retracting does to the tableau: the marker is evicted, the other symbol dropped, and what is
left is settled. -/
theorem retract_evicted (orderly : Orderly s) (sound : Sound (Minted s.minted) s.tableau)
    (feasible : Feasible s.tableau) :
    Ends (s.retract h)
      (fun s' => ∃ p t₁ t₂, s.postings.find? h = some p ∧
        Evicted (Minted s.minted) p.tag.marker
          (s.tableau.refund p.tag p.constraint.strength.value) t₁ ∧
        Resettled (Minted s.minted) (p.tag.other.elim t₁ t₁.dropSymbol) t₂ ∧
        s' = Solver.release { s with postings := s.postings.erase h, tableau := t₂ }
          p.constraint.expression)
      (fun error s' => error.isInternal = false →
        error = .unknownConstraint ∧ s.postings.find? h = none ∧ s' = s) := by
  unfold retract
  split
  · rename_i missing
    exact fun _ => ⟨rfl, missing, rfl⟩
  · rename_i c tag found
    have refunded : Sound (Minted s.minted) (s.tableau.refund tag c.strength.value) :=
      sound_of_rows sound (refund_tidy orderly.tidy fun z member =>
        (tag_symbol orderly.books.postings found member).2) rfl rfl
    have feasible' : Feasible (s.tableau.refund tag c.strength.value) := feasible
    dsimp only
    rw [ends_andThen, onTableau, ends_embed]
    refine ends_mono (evict_evicted refunded feasible') (fun t₁ evicted => ?_)
      fun _ _ internal => of_internal internal
    have left := dropped_feasible tag evicted
    rw [ends_andThen]
    unfold settle onTableau
    rw [ends_embed]
    refine ends_mono (settle_resettled left.1 left.2) (fun t₂ resettled => ?_)
      fun _ _ internal => of_internal internal
    rw [ends_report, ends_ok]
    exact ⟨⟨c, tag⟩, t₁, t₂, found, evicted, resettled, rfl⟩

/-- What retracting a constraint has done to the tableau once it succeeded. No solution depended on
the second symbol of the tag any more when it was dropped. -/
structure Taken (s : Solver Rat) (p : Posting Rat) (t₁ t₂ : Tableau Rat) : Prop where
  evicted : Evicted (Minted s.minted) p.tag.marker
    (s.tableau.refund p.tag p.constraint.strength.value) t₁
  indifferent : ∀ z, p.tag.other = some z → Indifferent (Solves t₁) z
  resettled : Resettled (Minted s.minted) (p.tag.other.elim t₁ t₁.dropSymbol) t₂

/-- Once its marker is evicted no solution depends on the second symbol of a tag. -/
theorem evicted_indifferent {p : Posting Rat} {t₁ : Tableau Rat} {z : Symbol} (orderly : Orderly s)
    (accounted : Accounted s) (well : EditsWell s.postings edits) (represents : Represents edits s)
    (found : s.postings.find? h = some p) (rows : t.rows = s.tableau.rows)
    (evicted : Evicted P p.tag.marker t t₁) (other : p.tag.other = some z) :
    Indifferent (Solves t₁) z := by
  intro ρ x solves
  rw [evicted_solves orderly accounted well represents found rows evicted] at solves ⊢
  have member : z ∈ p.tag.symbols := by simp [Tag.symbols, other]
  exact (others_indifferent_tag orderly accounted well found member).mpr solves

/-- Retracting a constraint leaves a faithful solver behind. The edit of a constraint that stands
behind one may have been forgotten already. -/
theorem retract_faithful (orderly : Orderly s) (accounted : Accounted s)
    (sound : Sound (Minted s.minted) s.tableau) (feasible : Feasible s.tableau)
    (well : EditsWell s.postings edits) (represents : Represents edits s)
    (unbacked : ∀ v edit, s.edits.find? v = some edit → edit.handle ≠ h)
    (agree : ∀ v edit, edit.handle ≠ h → (edits.find? v = some edit ↔ s.edits.find? v = some edit)) :
    Ends (s.retract h)
      (fun s' => Faithful s' ∧ s'.postings = s.postings.erase h ∧
        ∃ p t, s.postings.find? h = some p ∧ Taken s p t s'.tableau)
      (fun error s' => error.isInternal = false →
        error = .unknownConstraint ∧ s.postings.find? h = none ∧ s' = s) := by
  refine ends_mono (ends_and (retract_ends orderly unbacked)
    (retract_evicted (h := h) orderly sound feasible)) ?_ fun _ _ both => both.2
  rintro s' ⟨⟨orderly', retracted⟩, p, t₁, t₂, found, evicted, resettled, released⟩
  have accounted' := retracted_accounted accounted retracted
  have alone : ∀ ρ, Solves t₁ ρ ↔ Others edits s h ρ := fun ρ =>
    evicted_solves (t := s.tableau.refund p.tag p.constraint.strength.value) orderly accounted well
      represents found rfl evicted
  have gone : ∀ ρ, Solves t₂ ρ ↔ Others edits s h ρ := fun ρ =>
    (resettled.solves ρ).trans (dropped_solves orderly accounted well found evicted.sound.tidy alone)
  have tableau : s'.tableau = t₂ := by
    rw [released]
    exact released_tableau orderly accounted well found resettled.sound.tidy gone
  have shrinks := release_shrinks { s with postings := s.postings.erase h, tableau := t₂ }
    p.constraint.expression
  rw [← released] at shrinks
  have represents' : Represents edits s' := retracted_represents orderly accounted well found
    resettled.sound.tidy gone accounted' released
  refine ⟨⟨orderly', accounted', ?_, ?_, fun ρ => (represents' ρ).trans ?_⟩, shrinks.postings, p, t₁,
    found, evicted, fun z other => ?_, tableau ▸ resettled⟩
  · rw [tableau, shrinks.minted]
    exact resettled.sound
  · rw [tableau]
    exact resettled.feasible
  · refine forall_congr' fun g => forall₂_congr fun q held => ?_
    rw [shrinks.postings] at held
    have apart := (erase_found held).1
    rw [current_congr well orderly'.books.edits fun w edit here => ?_]
    rw [shrinks.edits]
    exact agree w edit (here ▸ Ne.symm apart)
  · exact evicted_indifferent (t := s.tableau.refund p.tag p.constraint.strength.value) orderly
      accounted well represents found rfl evicted other

/-! ## Suggestions -/

/-- What a suggestion has done to the tableau once it succeeded. -/
def Shifted (s : Solver Rat) (target : Rat) (edit : Edit Rat) (t' : Tableau Rat) : Prop :=
  ∃ z x t, Along edit.tag (target - edit.target) z x ∧ Moved (Minted s.minted) z x s.tableau t ∧
    Repaired (Minted s.minted) t t'

theorem suggest_faithful (faithful : Faithful s) (v : Variable) (target : Rat) :
    Ends (s.suggest v target)
      (fun s' => Faithful s' ∧ s'.postings = s.postings ∧
        ∃ edit, s.edits.find? v = some edit ∧ Shifted s target edit s'.tableau)
      (fun error s' => error.isInternal = false → s' = s) := by
  refine ends_mono (ends_and (ends_of_state (suggest_orderly faithful.orderly v target))
    (suggest_moved (v := v) faithful.orderly faithful.sound faithful.feasible))
    ?_ fun _ _ both => both.2
  rintro s' ⟨orderly', edit, z, x, t, found, along, moved, repaired, feasible', same⟩
  have represents' := suggest_represents faithful.orderly faithful.accounted faithful.represents found
    along moved repaired orderly' same
  have minted : s'.minted = s.minted := by rw [same]
  have tracked : s'.tracked = s.tracked := by rw [same]
  have postings : s'.postings = s.postings := by rw [same]
  refine ⟨⟨orderly', ?_, minted ▸ repaired.sound, feasible', represents'⟩, postings, edit, found, z,
    x, t, along, moved, repaired⟩
  rw [Accounted, tracked, postings]
  exact faithful.accounted

end Cassowary.Fidelity
