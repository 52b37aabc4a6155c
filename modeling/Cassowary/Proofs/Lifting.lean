import Mathlib.Algebra.Order.Group.MinMax
import Cassowary.Proofs.FaithfulRuns

/-!
Assignments as solutions of the tableau. The value of every symbol can be read off the values of the
variables: a slack is the room that a constraint leaves and an error is the amount by which it is
violated. An assignment that satisfies the required constraints becomes an admissible solution that way.
-/

namespace Cassowary.Lifting
open MapEntries RowSymbols Separation Bookkeeping Drafting SolverBooks ExactRows Solutions RatioTests
open ArtificialPhase Meaning Representations Fidelity FaithfulRuns Tableau Solver
open scoped Exact

variable {s : Solver Rat} {c : Constraint Rat} {h : Handle} {v : Variable} {tag : Tag} {z : Symbol}
  {k : Nat} {p : Posting Rat} {σ : Assignment} {ρ : Valuation} {entry : Tracked}

/-- What an assignment makes of the symbols of a constraint. The marker gets what there is on its side
of the relation and the other symbol what there is on the far side. -/
def gap (c : Constraint Rat) (tag : Tag) (σ : Assignment) : Valuation := fun z =>
  let near := if c.relation = .lessOrEqual then -worth c.expression σ else worth c.expression σ
  if z = tag.marker then max near 0 else max (-near) 0

theorem gap_nonneg : 0 ≤ gap c tag σ z := by
  unfold gap
  dsimp only
  split <;> exact le_max_right _ _

/-- An assignment makes the equation of a constraint true unless the constraint is required and violated. -/
theorem gap_equation (minted : tag = .mint c.relation c.isRequired k)
    (satisfied : c.isRequired = true → Satisfied c σ) : Equation c tag σ (gap c tag σ) := by
  subst minted
  have parts := max_zero_sub_max_neg_zero_eq_self (worth c.expression σ)
  unfold Satisfied at satisfied
  unfold Equation gap
  cases required : c.isRequired <;> cases relation : c.relation <;>
    simp only [required, relation, Tag.mint, Symbol.mk.injEq, Nat.add_left_cancel_iff, reduceCtorEq,
      OfNat.ofNat_ne_one, and_true, and_false, if_true, if_false, forall_const, neg_neg]
      at satisfied ⊢
  · linarith
  · linarith
  · linarith
  · rw [max_eq_left (neg_nonneg.mpr satisfied)]
    ring
  · rw [satisfied, max_self, add_zero]
  · rw [max_eq_left satisfied]
    ring

/-- The solution that an assignment stands for. -/
def lift (s : Solver Rat) (σ : Assignment) : Valuation := fun z =>
  if z.isExternal then
    (s.tracked.toList.find? fun entry => entry.2.symbol = z).elim 0 fun entry => σ entry.1
  else
    (s.postings.toList.find? fun entry => z ∈ entry.2.tag.symbols).elim 0 fun entry =>
      gap (current s.edits entry.1 entry.2.constraint) entry.2.tag σ z

theorem lift_tracked (orderly : Orderly s) (found : s.tracked.find? v = some entry) :
    lift s σ entry.symbol = σ v := by
  have sought : s.tracked.toList.find? (fun other => other.2.symbol = entry.symbol) =
      some (v, entry) := by
    refine find?_toList_of_only found (by simp) fun w other held same => ?_
    exact orderly.books.tracked.distinct w v other entry held found (by simpa using same)
  rw [lift, if_pos (orderly.books.tracked.symbol v entry found).1, sought, Option.elim_some]

theorem lift_posted (orderly : Orderly s) (found : s.postings.find? h = some p)
    (member : z ∈ p.tag.symbols) :
    lift s σ z = gap (current s.edits h p.constraint) p.tag σ z := by
  have sought : s.postings.toList.find? (fun other => z ∈ other.2.tag.symbols) = some (h, p) := by
    refine find?_toList_of_only found (by simpa using member) fun g q held own => ?_
    exact orderly.books.postings.distinct g h q p z held found (by simpa using own) member
  have restricted := (tag_symbol orderly.books.postings found member).1
  rw [lift, if_neg (by simp [restricted]), sought, Option.elim_some]

/-- On the variables that a constraint mentions the solution reads as the assignment does. -/
theorem reading_lift (orderly : Orderly s) (accounted : Accounted s)
    (found : s.postings.find? h = some p) {term : Term Rat}
    (member : term ∈ (current s.edits h p.constraint).expression.relevantTerms) :
    reading s.tracked (lift s σ) term.var = σ term.var := by
  rw [current_relevantTerms orderly.books.edits found] at member
  obtain ⟨entry, tracked⟩ := tracked_of_posting accounted found member
  rw [reading, tracked, Option.elim_some, lift_tracked orderly tracked]

/-- The solution makes the equations of all constraints true if the assignment satisfies the required
ones. -/
theorem lift_equation (orderly : Orderly s) (accounted : Accounted s)
    (satisfied : ∀ c tag, Live s c tag → c.isRequired = true → Satisfied c σ)
    (found : s.postings.find? h = some p) :
    Equation (current s.edits h p.constraint) p.tag (reading s.tracked (lift s σ)) (lift s σ) := by
  have live : Live s (current s.edits h p.constraint) p.tag := ⟨h, p, found, rfl, rfl⟩
  obtain ⟨k, minted⟩ := live_minted orderly live
  refine (equation_congr (fun z member => lift_posted orderly found member)
    fun term member => reading_lift orderly accounted found member).mpr ?_
  exact gap_equation minted (satisfied _ _ live)

theorem lift_nonneg (restricted : z.isRestricted = true) : 0 ≤ lift s σ z := by
  rw [lift, if_neg (by simp [Symbol.isRestricted_iff.mp restricted])]
  cases s.postings.toList.find? fun entry => z ∈ entry.2.tag.symbols with
  | none => exact le_refl _
  | some entry => exact gap_nonneg

theorem lift_dummy (orderly : Orderly s)
    (satisfied : ∀ c tag, Live s c tag → c.isRequired = true → Satisfied c σ)
    (dummy : z.isDummy = true) : lift s σ z = 0 := by
  rw [lift, if_neg (by simp [Symbol.not_external_of_dummy dummy])]
  cases sought : s.postings.toList.find? fun entry => z ∈ entry.2.tag.symbols with
  | none => rfl
  | some entry =>
    obtain ⟨h, p⟩ := entry
    have found := mem_toList_iff.mp (List.mem_of_find?_eq_some sought)
    have member : z ∈ p.tag.symbols := by simpa using List.find?_some sought
    have live : Live s (current s.edits h p.constraint) p.tag := ⟨h, p, found, rfl, rfl⟩
    obtain ⟨k, minted⟩ := live_minted orderly live
    rw [minted] at member
    obtain ⟨relation, required, marker⟩ := mint_dummy member dummy
    have holds := satisfied _ _ live required
    rw [Satisfied, relation] at holds
    rw [Option.elim_some, gap, relation, holds]
    simp

/-- An assignment that satisfies the required constraints is an admissible solution. -/
theorem lift_admissible (faithful : Faithful s)
    (satisfied : ∀ c tag, Live s c tag → c.isRequired = true → Satisfied c σ) :
    Admissible s.tableau (lift s σ) where
  solves := (faithful.represents _).mpr fun _ _ found =>
    lift_equation faithful.orderly faithful.accounted satisfied found
  nonneg _ restricted := lift_nonneg restricted
  zero _ dummy := lift_dummy faithful.orderly satisfied dummy

end Cassowary.Lifting
