import Cassowary.OrderedMap
import Cassowary.Scalar

/-!
The unknowns a caller names, and the store of values they currently hold. Variables are told apart by
number: two of the same name are different unknowns. A solver never writes to a variable by itself, it
produces the store that results.
-/

namespace Cassowary

structure Variable where
  id : Nat
  name : Option String := none
  deriving DecidableEq, Repr

/-- The value last given to each variable. A variable that was given none holds zero. -/
structure Store (α : Type) where
  values : OrderedMap Variable α := ∅

namespace Store

variable {α : Type} [Scalar α]

def value (store : Store α) (v : Variable) : α := store.values.findD v 0

def set (store : Store α) (v : Variable) (x : α) : Store α := ⟨store.values.insert v x⟩

@[simp] theorem value_set (store : Store α) (v w : Variable) (x : α) :
    (store.set v x).value w = if v = w then x else store.value w := by
  by_cases same : v = w <;> simp [value, set, OrderedMap.findD, same]

end Store

end Cassowary
