/-!
The unknowns of a tableau. A symbol is known by a number that is never given out twice, and its kind
says what it stands for and which roles it may play in a pivot. Numbers decide every tie.
-/

namespace Cassowary

inductive SymbolKind where
  /-- A variable of the caller, free to take any sign. -/
  | external
  /-- The gap that an inequality leaves. -/
  | slack
  /-- The amount by which a constraint that is not required is violated. -/
  | error
  /-- The marker of a required equation, which never enters the basis to improve an objective. -/
  | dummy
  deriving DecidableEq, Repr

/-- The letter that names a symbol of this kind. -/
def SymbolKind.letter : SymbolKind → Char
  | .external => 'v'
  | .slack => 's'
  | .error => 'e'
  | .dummy => 'd'

def SymbolKind.name : SymbolKind → String
  | .external => "External"
  | .slack => "Slack"
  | .error => "Error"
  | .dummy => "Dummy"

structure Symbol where
  id : Nat
  kind : SymbolKind
  deriving DecidableEq, Repr

namespace Symbol

def isExternal (s : Symbol) : Bool := s.kind = .external

def isSlack (s : Symbol) : Bool := s.kind = .slack

def isError (s : Symbol) : Bool := s.kind = .error

def isDummy (s : Symbol) : Bool := s.kind = .dummy

/-- Every symbol but an external one has to stay non-negative. -/
def isRestricted (s : Symbol) : Bool := !s.isExternal

/-- Slack and error symbols may be pivoted into the basis. -/
def isPivotable (s : Symbol) : Bool := s.isSlack || s.isError

variable {s t : Symbol}

theorem isRestricted_iff : s.isRestricted = true ↔ s.isExternal = false := by
  simp [isRestricted]

theorem not_isRestricted_iff : ¬s.isRestricted = true ↔ s.isExternal = true := by
  simp [isRestricted]

theorem ne_of_isRestricted (external : s.isExternal = true) (restricted : t.isRestricted = true) :
    s ≠ t := by
  rintro rfl
  exact not_isRestricted_iff.mpr external restricted

theorem not_external_of_dummy (dummy : s.isDummy = true) : s.isExternal = false := by
  have kind : s.kind = .dummy := of_decide_eq_true dummy
  simp [isExternal, kind]

theorem not_external_of_error (error : s.isError = true) : s.isExternal = false := by
  have kind : s.kind = .error := of_decide_eq_true error
  simp [isExternal, kind]

theorem not_dummy_of_external (external : s.isExternal = true) : s.isDummy = false := by
  have kind : s.kind = .external := of_decide_eq_true external
  simp [isDummy, kind]

theorem not_dummy_of_error (error : s.isError = true) : s.isDummy = false := by
  have kind : s.kind = .error := of_decide_eq_true error
  simp [isDummy, kind]

/-- A symbol is either external or pivotable or a dummy. -/
theorem isPivotable_iff : s.isPivotable = true ↔ s.isExternal = false ∧ s.isDummy = false := by
  unfold isPivotable isSlack isError isExternal isDummy
  cases s.kind <;> decide

/-- The name of a symbol: the letter of its kind and its number. -/
def name (s : Symbol) : String := String.singleton s.kind.letter ++ Nat.repr s.id

/-- Symbols are ordered by age. -/
instance : Ord Symbol := ⟨fun s t => compare s.id t.id⟩

/-- The older of two symbols, the first on a tie. -/
def older (s t : Symbol) : Symbol := if t.id < s.id then t else s

/-- The oldest of some symbols. -/
def oldest? : List Symbol → Option Symbol
  | [] => none
  | s :: rest => some (rest.foldl older s)

private theorem foldl_older_mem (s : Symbol) (rest : List Symbol) :
    rest.foldl older s ∈ s :: rest := by
  induction rest generalizing s with
  | nil => simp
  | cons t rest ih =>
    rcases List.mem_cons.mp (ih (older s t)) with first | later
    · rw [List.foldl_cons, first, older]
      split <;> simp
    · simp [later]

private theorem foldl_older_le (s : Symbol) (rest : List Symbol) :
    ∀ t ∈ s :: rest, (rest.foldl older s).id ≤ t.id := by
  induction rest generalizing s with
  | nil => simp
  | cons next rest ih =>
    intro t member
    have first : (older s next).id ≤ s.id ∧ (older s next).id ≤ next.id := by
      unfold older
      split <;> omega
    have reached := ih (older s next) (older s next) (by simp)
    rw [List.foldl_cons]
    rcases List.mem_cons.mp member with rfl | member
    · omega
    · rcases List.mem_cons.mp member with rfl | member
      · omega
      · exact ih (older s next) t (by simp [member])

/-- The oldest symbol is one of them, and none of them is older. -/
theorem oldest?_eq_some {symbols : List Symbol} {s : Symbol} (found : oldest? symbols = some s) :
    s ∈ symbols ∧ ∀ t ∈ symbols, s.id ≤ t.id := by
  cases symbols with
  | nil => simp [oldest?] at found
  | cons first rest =>
    obtain rfl := Option.some.inj found
    exact ⟨foldl_older_mem first rest, foldl_older_le first rest⟩

end Symbol

end Cassowary
