import Cassowary.Row

/-!
Choosing among candidates for a pivot by their ratios. Ratios are compared within the tolerance, and of
candidates whose ratios agree the one with the lower number wins, after those whose rows hold nothing
but dummy symbols. Candidates are looked at in order and only the best so far is kept.
-/

namespace Cassowary

structure Pick (α : Type) where
  ratio : α
  symbol : Symbol
  allDummies : Bool := false

namespace Pick

variable {α : Type} [Scalar α]

/-- Whether a candidate is to be preferred to the best one so far. -/
def beats (p best : Pick α) : Bool :=
  if p.ratio < best.ratio - Scalar.tolerance then true
  else if !Scalar.approxEq p.ratio best.ratio then false
  else if p.allDummies != best.allDummies then p.allDummies
  else p.symbol.id < best.symbol.id

/-- The preferred one of two candidates. -/
def better (best p : Pick α) : Pick α := if p.beats best then p else best

/-- The candidate that is left after looking at all in order. -/
def best? : List (Pick α) → Option (Pick α)
  | [] => none
  | p :: rest => some (rest.foldl better p)

private theorem foldl_better_mem (p : Pick α) (rest : List (Pick α)) :
    rest.foldl better p ∈ p :: rest := by
  induction rest generalizing p with
  | nil => simp
  | cons q rest ih =>
    rcases List.mem_cons.mp (ih (better p q)) with first | later
    · rw [List.foldl_cons, first, better]
      split <;> simp
    · simp [later]

/-- What is chosen is one of the candidates. -/
theorem best?_mem {picks : List (Pick α)} {p : Pick α} (found : best? picks = some p) :
    p ∈ picks := by
  cases picks with
  | nil => simp [best?] at found
  | cons first rest =>
    obtain rfl := Option.some.inj found
    exact foldl_better_mem first rest

/-- There is a choice as soon as there is a candidate. -/
@[simp] theorem best?_eq_none_iff {picks : List (Pick α)} : best? picks = none ↔ picks = [] := by
  cases picks <;> simp [best?]

end Pick

end Cassowary
