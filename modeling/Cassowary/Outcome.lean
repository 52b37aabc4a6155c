import Cassowary.Error

/-!
The outcome of an operation that may fail partway. Whether it failed or not, an operation leaves a
state behind and has reported some events; a failure ends what follows it and undoes nothing.
-/

namespace Cassowary

/-- What an operation leaves behind: its state, the error that stopped it if any, and the events it
reported, latest first. -/
structure Outcome (ε σ : Type) where
  state : σ
  error? : Option SolverError := none
  events : List ε := []

namespace Outcome

variable {ε η σ τ : Type}

def ok (state : σ) : Outcome ε σ := { state }

def fail (state : σ) (error : SolverError) : Outcome ε σ := { state, error? := some error }

def succeeded (o : Outcome ε σ) : Bool := o.error?.isNone

/-- Reports one more event. -/
def report (o : Outcome ε σ) (event : ε) : Outcome ε σ := { o with events := event :: o.events }

/-- Goes on from the state that was left unless an error stopped the operation. -/
def andThen (o : Outcome ε σ) (next : σ → Outcome ε σ) : Outcome ε σ :=
  match o.error? with
  | some _ => o
  | none => let later := next o.state; { later with events := later.events ++ o.events }

/-- Reads an outcome as one of a larger state with its own events. -/
def embed (o : Outcome ε σ) (state : σ → τ) (event : ε → η) : Outcome η τ :=
  ⟨state o.state, o.error?, o.events.map event⟩

/-- Exchanges the error for another and keeps the rest. -/
def mapError (o : Outcome ε σ) (f : SolverError → SolverError) : Outcome ε σ :=
  { o with error? := o.error?.map f }

/-- A property that every step keeps holds after a sequence of two. -/
theorem andThen_state {P : σ → Prop} {o : Outcome ε σ} {next : σ → Outcome ε σ}
    (first : P o.state) (second : ∀ s, P s → P (next s).state) : P (o.andThen next).state := by
  unfold andThen
  split
  · exact first
  · exact second _ first

theorem andThen_error? (o : Outcome ε σ) (next : σ → Outcome ε σ) :
    (o.andThen next).error? = o.error?.or (next o.state).error? := by
  unfold andThen
  cases same : o.error? <;> simp [same]

end Outcome

end Cassowary
