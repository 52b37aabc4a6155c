import Cassowary.Scalar

/-!
How much a constraint matters. A strength packs three tiers into one weight, each tier a thousand times
heavier than the one below it, and the required strength lies above all others and is never traded
against anything. Priorities are the five named levels that stand for common strengths.
-/

namespace Cassowary

structure Strength (α : Type) where
  value : α
  deriving DecidableEq, Repr

namespace Strength

variable {α : Type} [Scalar α]

/-- Every tier at its top. -/
def required : Strength α := ⟨(1001001000 : Nat)⟩

def strong : Strength α := ⟨(1000000 : Nat)⟩

def medium : Strength α := ⟨(1000 : Nat)⟩

def weak : Strength α := ⟨1⟩

instance : Inhabited (Strength α) := ⟨required⟩

/-- Limits a strength to the range from zero to required. -/
def clip (s : Strength α) : Strength α := ⟨Scalar.clamp s.value 0 required.value⟩

/-- A strength of the caller's choice, brought into range. -/
def ofValue (x : α) : Strength α := clip ⟨x⟩

/-- One tier of a strength: the weighted value, limited to the range from zero to a thousand. -/
def tier (x weight : α) : α := Scalar.clamp (x * weight) 0 (1000 : Nat)

/-- Packs three tiers, heaviest first, into one strength. -/
def create (strong medium weak weight : α) : Strength α :=
  ⟨tier strong weight * (1000000 : Nat) + tier medium weight * (1000 : Nat) + tier weak weight⟩

/-- A constraint of this strength may never be violated. -/
def isRequired (s : Strength α) : Bool := decide (required.value ≤ s.value)

instance : LT (Strength α) := ⟨fun s t => s.value < t.value⟩

instance : BEq (Strength α) := ⟨fun s t => s.value == t.value⟩

/-- The order of two strengths, if their values compare at all. -/
def compare? (s t : Strength α) : Option Ordering :=
  if s.value < t.value then some .lt
  else if s.value == t.value then some .eq
  else if t.value < s.value then some .gt
  else none

end Strength

inductive Priority where
  | weak
  | low
  | medium
  | high
  | required
  deriving DecidableEq, Repr

namespace Priority

instance : Inhabited Priority := ⟨required⟩

/-- The number by which priorities are ordered. -/
def level : Priority → Nat
  | weak => 1
  | low => 250
  | medium => 500
  | high => 750
  | required => 1000

instance : Ord Priority := ⟨fun p q => compare p.level q.level⟩

def all : List Priority := [weak, low, medium, high, required]

def name : Priority → String
  | weak => "Weak"
  | low => "Low"
  | medium => "Medium"
  | high => "High"
  | required => "Required"

def ofName? (text : String) : Option Priority := all.find? (·.name = text)

/-- A name tells which priority is meant. -/
@[simp] theorem ofName?_name (p : Priority) : ofName? p.name = some p := by
  cases p <;> rfl

end Priority

/-- The strength a priority stands for. The two lowest priorities are equally weak. -/
def Strength.ofPriority {α : Type} [Scalar α] : Priority → Strength α
  | .required => required
  | .high => strong
  | .medium => medium
  | .low | .weak => weak

end Cassowary
