import Cassowary.Outcome

/-!
How an operation that may fail partway ends. One statement covers both endings: what holds of the
state when all went well, and what holds of the state and the error when something stopped it.
-/

namespace Cassowary.Endings

variable {ε η σ τ : Type}

/-- The operation either reached its end in a state that is `done`, or an error stopped it and the
state it left is `failed` for that error. -/
def Ends (o : Outcome ε σ) (done : σ → Prop) (failed : SolverError → σ → Prop) : Prop :=
  match o.error? with
  | none => done o.state
  | some error => failed error o.state

/-- Nothing has to be shown of an internal error where only external ones count. -/
theorem of_internal {error : SolverError} {A : Prop} (internal : error.isInternal = true)
    (external : error.isInternal = false) : A := by
  rw [internal] at external
  cases external

/-- An error that is none of the internal ones is external. -/
theorem external_of_ne {error : SolverError} (fine : ∀ cause, error ≠ .internal cause) :
    error.isInternal = false := by
  cases error with
  | internal cause => exact absurd rfl (fine cause)
  | _ => rfl

/-- What is promised of a failed operation's state unless the error is an internal one. -/
def Unless (P : σ → Prop) : SolverError → σ → Prop :=
  fun error state => error.isInternal = false → P state

variable {o : Outcome ε σ} {done : σ → Prop} {failed : SolverError → σ → Prop}

@[simp] theorem ends_ok (state : σ) : Ends (.ok state : Outcome ε σ) done failed ↔ done state :=
  Iff.rfl

@[simp] theorem ends_fail (state : σ) (error : SolverError) :
    Ends (.fail state error : Outcome ε σ) done failed ↔ failed error state := Iff.rfl

@[simp] theorem ends_report (event : ε) : Ends (o.report event) done failed ↔ Ends o done failed :=
  Iff.rfl

@[simp] theorem ends_embed (state : σ → τ) (event : ε → η) {done : τ → Prop}
    {failed : SolverError → τ → Prop} :
    Ends (o.embed state event) done failed ↔
      Ends o (fun s => done (state s)) (fun error s => failed error (state s)) := Iff.rfl

@[simp] theorem ends_mapError (f : SolverError → SolverError) :
    Ends (o.mapError f) done failed ↔ Ends o done (fun error => failed (f error)) := by
  cases same : o.error? <;> simp [Ends, Outcome.mapError, same]

/-- A sequence ends well when the first part ends where the second can go on. -/
@[simp] theorem ends_andThen (next : σ → Outcome ε σ) :
    Ends (o.andThen next) done failed ↔ Ends o (fun s => Ends (next s) done failed) failed := by
  cases same : o.error? <;> simp [Ends, Outcome.andThen, same]

theorem ends_mono {done' : σ → Prop} {failed' : SolverError → σ → Prop} (ends : Ends o done failed)
    (onDone : ∀ s, done s → done' s) (onFailed : ∀ error s, failed error s → failed' error s) :
    Ends o done' failed' := by
  unfold Ends at *
  split
  · rename_i none
    simp only [none] at ends
    exact onDone _ ends
  · rename_i error some
    simp only [some] at ends
    exact onFailed _ _ ends

theorem ends_and {done' : σ → Prop} {failed' : SolverError → σ → Prop} (ends : Ends o done failed)
    (ends' : Ends o done' failed') :
    Ends o (fun s => done s ∧ done' s) (fun error s => failed error s ∧ failed' error s) := by
  unfold Ends at *
  split <;> simp_all

/-- What is known of the end of an operation may be used to tell more about it. -/
theorem ends_given {known : σ → Prop} {known' : SolverError → σ → Prop} (ends : Ends o known known')
    (more : Ends o (fun s => known s → done s) failed) : Ends o done failed :=
  ends_mono (ends_and ends more) (fun _ both => both.2 both.1) fun _ _ both => both.2

/-- A property of the state that is left, however the operation ended. -/
theorem ends_of_state {P : σ → Prop} (left : P o.state) : Ends o P (fun _ => P) := by
  unfold Ends
  split <;> exact left

theorem state_of_ends {P : σ → Prop} (ends : Ends o P (fun _ => P)) : P o.state := by
  unfold Ends at ends
  split at ends <;> exact ends

theorem ends_of_error?_none (fine : o.error? = none) (left : done o.state) : Ends o done failed := by
  simpa [Ends, fine] using left

theorem ends_of_error_none (ends : Ends o done failed) (fine : o.error? = none) : done o.state := by
  simpa [Ends, fine] using ends

theorem ends_of_error_some {error : SolverError} (ends : Ends o done failed)
    (stopped : o.error? = some error) : failed error o.state := by
  simpa [Ends, stopped] using ends

/-- Without an internal error the promise holds on both endings. -/
theorem state_of_ends_unless {P : σ → Prop} (ends : Ends o P (Unless P))
    (fine : ∀ cause, o.error? ≠ some (.internal cause)) : P o.state := by
  cases stopped : o.error? with
  | none => exact ends_of_error_none ends stopped
  | some error =>
    exact ends_of_error_some ends stopped <| external_of_ne fun cause same =>
      fine cause (stopped.trans (congrArg some same))

/-- What holds at the end of an operation of the events it reported and the state it left. -/
def Tells (o : Outcome ε σ) (done failed : List ε → σ → Prop) : Prop :=
  Ends o (done o.events) (fun _ => failed o.events)

theorem tells_mapError {done failed : List ε → σ → Prop} (f : SolverError → SolverError)
    (tells : Tells o done failed) : Tells (o.mapError f) done failed := by
  unfold Tells at *
  rw [ends_mapError]
  exact tells

/-- The events of the second part of a sequence come on top of those of the first. -/
theorem tells_andThen {done failed : List ε → σ → Prop} {next : σ → Outcome ε σ}
    (tells : Ends o (fun s => Tells (next s) (fun events => done (events ++ o.events))
      (fun events => failed (events ++ o.events))) (fun _ => failed o.events)) :
    Tells (o.andThen next) done failed := by
  cases stopped : o.error? <;> simp only [Tells, Ends, Outcome.andThen, stopped] at tells ⊢ <;>
    exact tells

end Cassowary.Endings
