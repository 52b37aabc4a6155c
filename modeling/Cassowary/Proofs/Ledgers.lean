import Cassowary.Proofs.Meaning

/-!
What callers have asked for. A ledger is kept beside a session from the commands, from whether they
succeed and from the values in the store: the constraints that were added and not removed since, and for
each variable that is edited the strength of its edit and the target suggested last, or else the value
that was stored when the edit began. Unless an internal error comes in between, the books of a solver say
just what the ledger says, so that its constraints, as they stand, are those asked for.
-/

namespace Cassowary.Ledgers
open Endings MapEntries Bookkeeping Drafting SolverBooks SessionBooks Meaning Solver

/-- How a variable is to be held by its edit. -/
structure Hold (α : Type) where
  strength : Strength α
  target : α

/-- What callers have asked for and not taken back. -/
structure Ledger (α : Type) where
  constraints : Nat → Option (Constraint α)
  edits : Variable → Option (Hold α)

namespace Ledger

variable {α : Type}

/-- Nothing has been asked for. -/
def blank : Ledger α := ⟨fun _ => none, fun _ => none⟩

/-- Enters what is asked for under a number. -/
def put (ledger : Ledger α) (id : Nat) (c : Option (Constraint α)) : Ledger α :=
  { ledger with constraints := Function.update ledger.constraints id c }

/-- Enters how a variable is to be held. -/
def hold (ledger : Ledger α) (v : Variable) (h : Option (Hold α)) : Ledger α :=
  { ledger with edits := Function.update ledger.edits v h }

@[simp] theorem put_constraints (ledger : Ledger α) (id other : Nat) (c : Option (Constraint α)) :
    (ledger.put id c).constraints other = if other = id then c else ledger.constraints other :=
  Function.update_apply ..

@[simp] theorem hold_edits (ledger : Ledger α) (v w : Variable) (h : Option (Hold α)) :
    (ledger.hold v h).edits w = if w = v then h else ledger.edits w :=
  Function.update_apply ..

theorem hold_self {ledger : Ledger α} {v : Variable} {h : Option (Hold α)}
    (same : ledger.edits v = h) : ledger.hold v h = ledger := by
  rw [hold, ← same, Function.update_eq_self]

theorem hold_hold (ledger : Ledger α) (v : Variable) (h h' : Option (Hold α)) :
    (ledger.hold v h).hold v h' = ledger.hold v h' := by
  rw [hold, hold, hold, Function.update_idem]

variable [Scalar α]

/-- Enters constraints up to the first that is refused. -/
def putAll (ledger : Ledger α) (s : Solver α) : List (Nat × Constraint α) → Ledger α
  | [] => ledger
  | (id, c) :: rest =>
    if (s.add id c).succeeded then (ledger.put id (some c)).putAll (s.add id c).state rest
    else ledger

/-- Keeps the ledger through one command. Only beginning something can be refused: what a command ends
is not there afterwards in any case, and a replacement ends the edit there was before it can be refused. -/
def record (ledger : Ledger α) (session : Session α) (command : Command α) : Ledger α :=
  let taken := (session.step command).succeeded
  match command with
  | .add id c => if taken then ledger.put id (some c) else ledger
  | .addAll constraints => ledger.putAll session.solver constraints
  | .remove id => ledger.put id none
  | .addEdit v strength =>
    if taken then ledger.hold v (some ⟨strength.clip, session.store.value v⟩) else ledger
  | .setEdit v strength =>
    if taken then ledger.hold v (some ⟨strength.clip, session.store.value v⟩)
    else ledger.hold v none
  | .removeEdit v => ledger.hold v none
  | .suggest v target => ledger.hold v ((ledger.edits v).map ({ · with target }))
  | .update | .setValue _ _ => ledger
  | .reset => blank

/-- Keeps the ledger through a run. -/
def follow (ledger : Ledger α) (session : Session α) : List (Command α) → Ledger α
  | [] => ledger
  | command :: rest =>
    (ledger.record session command).follow (session.step command).state rest

/-- The constraints that are asked for, an edit's equation at its last target among them. -/
def Asks (ledger : Ledger α) (c : Constraint α) : Prop :=
  (∃ id, ledger.constraints id = some c) ∨
    ∃ v hold, ledger.edits v = some hold ∧ c = editConstraint v hold.target hold.strength

end Ledger

variable {α : Type} [Scalar α] {s s' : Solver α} {ledger : Ledger α} {v : Variable} {id : Nat}
  {postings : OrderedMap Handle (Posting α)} {edits : OrderedMap Variable (Edit α)} {edit : Edit α}
  {p : Posting α} {c : Constraint α}

/-! ## Books that say what a ledger says -/

/-- A variable is held as asked: its edit is at the target, and the equation behind the edit, whatever
value it was posted with, has the strength. -/
def Held (postings : OrderedMap Handle (Posting α)) (edits : OrderedMap Variable (Edit α))
    (v : Variable) : Option (Hold α) → Prop
  | none => edits.find? v = none
  | some hold => ∃ edit start, edits.find? v = some edit ∧ edit.target = hold.target ∧
      postings.find? edit.handle = some ⟨editConstraint v start hold.strength, edit.tag⟩

/-- The books say what the ledger says and nothing else. -/
structure Records (postings : OrderedMap Handle (Posting α)) (edits : OrderedMap Variable (Edit α))
    (ledger : Ledger α) : Prop where
  posted : ∀ id, (postings.find? (.posted id)).map Posting.constraint = ledger.constraints id
  held : ∀ v, Held postings edits v (ledger.edits v)
  backing : ∀ k p, postings.find? (.edit k) = some p →
    ∃ v edit, edits.find? v = some edit ∧ edit.handle = .edit k

/-- How a variable is held depends on its own edit and the equation behind it only. -/
theorem held_congr {postings' : OrderedMap Handle (Posting α)} {edits' : OrderedMap Variable (Edit α)}
    {hold : Option (Hold α)} (held : Held postings edits v hold)
    (same : edits'.find? v = edits.find? v)
    (kept : ∀ edit, edits.find? v = some edit → ∀ p, postings.find? edit.handle = some p →
      postings'.find? edit.handle = some p) : Held postings' edits' v hold := by
  cases hold with
  | none => exact same.trans held
  | some hold =>
    obtain ⟨edit, start, found, target, backed⟩ := held
    exact ⟨edit, start, same.trans found, target, kept edit found _ backed⟩

/-- What is entered for one variable leaves the others as they are held. -/
theorem held_of_entered {h : Option (Hold α)} (own : Held postings edits v h)
    (others : ∀ w, w ≠ v → Held postings edits w (ledger.edits w)) (w : Variable) :
    Held postings edits w ((ledger.hold v h).edits w) := by
  rw [Ledger.hold_edits]
  split
  · rename_i same
    exact same ▸ own
  · rename_i apart
    exact others w apart

section Books
variable (records : Records postings edits ledger)
include records

/-- Where a variable is edited the ledger says how it is held. -/
theorem hold_of_edit (found : edits.find? v = some edit) :
    ∃ hold start, ledger.edits v = some hold ∧ edit.target = hold.target ∧
      postings.find? edit.handle = some ⟨editConstraint v start hold.strength, edit.tag⟩ := by
  have held := records.held v
  cases noted : ledger.edits v with
  | none =>
    rw [noted] at held
    cases held.symm.trans found
  | some hold =>
    rw [noted] at held
    obtain ⟨edit', start, found', target, backed⟩ := held
    cases found.symm.trans found'
    exact ⟨hold, start, rfl, target, backed⟩

/-- Where it is not, the ledger says nothing of it. -/
theorem no_hold_of_unedited (unedited : edits.find? v = none) : ledger.edits v = none := by
  have held := records.held v
  cases noted : ledger.edits v with
  | none => rfl
  | some hold =>
    rw [noted] at held
    obtain ⟨edit, start, found, -⟩ := held
    cases unedited.symm.trans found

/-- What callers have under a number changes, and nothing else does. -/
theorem records_put (well : EditsWell postings edits) {postings' : OrderedMap Handle (Posting α)}
    (p? : Option (Posting α))
    (changed : ∀ h, postings'.find? h = if Handle.posted id = h then p? else postings.find? h) :
    Records postings' edits (ledger.put id (p?.map Posting.constraint)) where
  posted other := by
    rw [changed, Ledger.put_constraints]
    by_cases same : other = id
    · rw [if_pos (congrArg Handle.posted same.symm), if_pos same]
    · rw [if_neg fun eq => same (Handle.posted.inj eq).symm, if_neg same]
      exact records.posted other
  held v := by
    refine held_congr (records.held v) rfl fun edit found p backed => ?_
    obtain ⟨k, serial⟩ := well.handle v edit found
    rw [changed, if_neg (by simp [serial]), backed]
  backing k p found := by
    rw [changed, if_neg (by simp)] at found
    exact records.backing k p found

/-- An edit begins, under a serial number that is free. -/
theorem records_begin {k : Nat} {tag : Tag} (strength : Strength α) (target : α)
    (unedited : edits.find? v = none) (free : postings.find? (.edit k) = none) :
    Records (postings.insert (.edit k) ⟨editConstraint v target strength, tag⟩)
      (edits.insert v ⟨tag, .edit k, target⟩) (ledger.hold v (some ⟨strength, target⟩)) where
  posted id := by
    rw [OrderedMap.find?_insert, if_neg (by simp)]
    exact records.posted id
  held := by
    refine held_of_entered ⟨⟨tag, .edit k, target⟩, target, by simp, rfl, by simp⟩ fun w apart => ?_
    refine held_congr (records.held w) (by simp [Ne.symm apart]) fun edit found q backed => ?_
    have other : .edit k ≠ edit.handle := fun eq => by
      rw [← eq, free] at backed
      cases backed
    rw [OrderedMap.find?_insert, if_neg other, backed]
  backing j q found := by
    by_cases same : Handle.edit k = .edit j
    · exact ⟨v, ⟨tag, .edit k, target⟩, by simp, same⟩
    · rw [OrderedMap.find?_insert, if_neg same] at found
      obtain ⟨w, edit, held, serial⟩ := records.backing j q found
      have apart : v ≠ w := by
        rintro rfl
        cases unedited.symm.trans held
      exact ⟨w, edit, by simpa [apart] using held, serial⟩

/-- An edit ends together with its equation. -/
theorem records_end (well : EditsWell postings edits) (found : edits.find? v = some edit) :
    Records (postings.erase edit.handle) (edits.erase v) (ledger.hold v none) where
  posted id := by
    obtain ⟨k, serial⟩ := well.handle v edit found
    rw [OrderedMap.find?_erase, if_neg (by simp [serial])]
    exact records.posted id
  held := by
    refine held_of_entered (by simp [Held]) fun w apart => ?_
    refine held_congr (records.held w) (by simp [Ne.symm apart]) fun edit' found' q backed => ?_
    have other : edit.handle ≠ edit'.handle := fun eq =>
      apart (edit_of_handle well found' found eq.symm)
    rw [OrderedMap.find?_erase, if_neg other, backed]
  backing j q left := by
    rw [OrderedMap.find?_erase] at left
    split at left
    · cases left
    · rename_i apart
      obtain ⟨w, edit', held, serial⟩ := records.backing j q left
      refine ⟨w, edit', ?_, serial⟩
      have others : v ≠ w := by
        rintro rfl
        cases found.symm.trans held
        exact apart serial
      rw [OrderedMap.find?_erase, if_neg others, held]

/-- An edit gets another target. -/
theorem records_suggest (found : edits.find? v = some edit) (target : α) :
    Records postings (edits.insert v { edit with target })
      (ledger.hold v ((ledger.edits v).map ({ · with target }))) where
  posted := records.posted
  held := by
    obtain ⟨hold, start, noted, -, backed⟩ := hold_of_edit records found
    rw [noted]
    refine held_of_entered ⟨{ edit with target }, start, by simp, rfl, backed⟩ fun w apart => ?_
    exact held_congr (records.held w) (by simp [Ne.symm apart]) fun _ _ _ backed => backed
  backing k p posted := by
    obtain ⟨w, edit', held, serial⟩ := records.backing k p posted
    by_cases same : v = w
    · subst same
      cases found.symm.trans held
      exact ⟨v, { edit with target }, by simp, serial⟩
    · exact ⟨w, edit', by simpa [same] using held, serial⟩

end Books

/-! ## Operations -/

/-- The books of a solver say what the ledger says. -/
def Ledger.Matches (ledger : Ledger α) (s : Solver α) : Prop := Records s.postings s.edits ledger

theorem blank_matches (minted : Nat) : Ledger.blank.Matches (fresh minted : Solver α) :=
  ⟨fun _ => rfl, fun _ => rfl, fun _ _ found => by cases found⟩

/-- What matches after a command that may be refused. -/
theorem matches_answered {o : Outcome (Event α) (Solver α)} {taken refused : Ledger α}
    (ended : Ends o taken.Matches (Unless refused.Matches))
    (fine : ∀ cause, o.error? ≠ some (.internal cause)) :
    (if o.succeeded then taken else refused).Matches o.state := by
  cases stopped : o.error? with
  | none =>
    rw [if_pos (by simp [Outcome.succeeded, stopped])]
    exact ends_of_error_none ended stopped
  | some error =>
    rw [if_neg (by simp [Outcome.succeeded, stopped])]
    exact ends_of_error_some ended stopped <| external_of_ne fun cause same =>
      fine cause (stopped.trans (congrArg some same))

section Operations
variable (orderly : Orderly s) (held : ledger.Matches s)
include orderly held

theorem add_matches (id : Nat) (c : Constraint α) :
    Ends (s.add id c) (ledger.put id (some c)).Matches (Unless ledger.Matches) := by
  refine ends_mono (post_books orderly (posted_serial s id)) ?_ fun _ s' left external => ?_
  · rintro s' ⟨-, edits, postings⟩
    rw [Ledger.Matches, edits, postings]
    exact records_put held orderly.books.edits (some _) fun _ => OrderedMap.find?_insert ..
  · obtain ⟨edits, postings⟩ := left external
    rwa [Ledger.Matches, edits, postings]

theorem addEdit_matches (store : Store α) (v : Variable) (strength : Strength α) :
    Ends (s.addEdit store v strength)
      (ledger.hold v (some ⟨strength.clip, store.value v⟩)).Matches (Unless ledger.Matches) := by
  unfold addEdit
  split
  · exact fun _ => held
  · rename_i notEdited
    have unedited := unedited_of_not_hasEdit notEdited
    dsimp only
    split
    · exact fun _ => held
    · rw [ends_andThen]
      refine ends_mono (post_books orderly (edit_serial s)) ?_ fun _ s₁ left external => ?_
      · rintro s₁ ⟨free, edits, postings⟩
        rw [postings, OrderedMap.find?_insert, if_pos rfl]
        dsimp only
        rw [ends_report, ends_ok, Ledger.Matches, edits]
        exact records_begin held strength.clip (store.value v) unedited free
      · obtain ⟨edits, postings⟩ := left external
        rwa [Ledger.Matches, edits, postings]

omit orderly in
/-- A suggestion is on record even if its repair fails. -/
theorem suggest_matches (v : Variable) (target : α) :
    (ledger.hold v ((ledger.edits v).map ({ · with target }))).Matches (s.suggest v target).state := by
  unfold suggest
  split
  · rename_i unedited
    rw [Ledger.hold_self (by rw [no_hold_of_unedited held unedited]; rfl)]
    exact held
  · rename_i edit found
    exact records_suggest held found target

theorem remove_matches (id : Nat) : (ledger.put id none).Matches (s.remove id).state := by
  obtain ⟨edits, postings⟩ := retract_books s (.posted id)
  rw [Ledger.Matches, remove, edits, postings]
  exact records_put held orderly.books.edits none fun _ => OrderedMap.find?_erase ..

theorem removeEdit_matches (v : Variable) : (ledger.hold v none).Matches (s.removeEdit v).state := by
  unfold removeEdit
  split
  · rename_i unedited
    rw [Ledger.hold_self (no_hold_of_unedited held unedited)]
    exact held
  · rename_i edit found
    refine Outcome.andThen_state ?_ fun _ kept => kept
    obtain ⟨edits, postings⟩ := retract_books { s with edits := s.edits.erase v } edit.handle
    dsimp only [Outcome.mapError]
    rw [Ledger.Matches, edits, postings]
    exact records_end held orderly.books.edits found

theorem setEdit_matches (store : Store α) (v : Variable) (strength : Strength α) :
    Ends (s.setEdit store v strength) (ledger.hold v (some ⟨strength.clip, store.value v⟩)).Matches
      (Unless (ledger.hold v none).Matches) := by
  unfold setEdit
  split
  · have removed := ends_and (ends_of_state (removeEdit_orderly orderly v))
      (ends_of_state (removeEdit_matches orderly held v))
    rw [ends_andThen]
    refine ends_mono removed ?_ fun _ _ left _ => left.2
    rintro s₁ ⟨orderly₁, held₁⟩
    have begun := addEdit_matches orderly₁ held₁ store v strength
    rwa [Ledger.hold_hold] at begun
  · rename_i notEdited
    have unedited := unedited_of_not_hasEdit notEdited
    rw [Ledger.hold_self (no_hold_of_unedited held unedited)]
    exact addEdit_matches orderly held store v strength

/-- The constraints of a list are on record up to the first that was refused. -/
theorem addAll_matches (constraints : List (Nat × Constraint α))
    (fine : ∀ cause, (s.addAll constraints).error? ≠ some (.internal cause)) :
    (ledger.putAll s constraints).Matches (s.addAll constraints).state := by
  induction constraints generalizing s ledger with
  | nil => exact held
  | cons posted rest ih =>
    obtain ⟨id, c⟩ := posted
    have ended := add_matches orderly held id c
    unfold addAll Outcome.andThen at fine ⊢
    cases stopped : (s.add id c).error? with
    | none =>
      rw [Ledger.putAll, if_pos (by simp [Outcome.succeeded, stopped])]
      simp only [stopped] at fine ⊢
      exact ih (state_of_ends (ends_mono (post_ends orderly (posted_serial s id))
        (fun _ done => done.1) fun _ _ failed => failed.1)) (ends_of_error_none ended stopped) fine
    | some error =>
      rw [Ledger.putAll, if_neg (by simp [Outcome.succeeded, stopped])]
      simp only [stopped] at fine ⊢
      exact ends_of_error_some ended stopped <| external_of_ne fun cause same =>
        fine cause (congrArg some same)

end Operations

/-! ## Runs -/

/-- Unless an internal error stops it, a command does to the books what it does to the ledger. -/
theorem step_matches {session : Session α} (orderly : Orderly session.solver)
    (held : ledger.Matches session.solver) (command : Command α)
    (fine : ∀ cause, (session.step command).error? ≠ some (.internal cause)) :
    (ledger.record session command).Matches (session.step command).state.solver := by
  cases command with
  | add id c => exact matches_answered (add_matches orderly held id c) fine
  | addAll constraints => exact addAll_matches orderly held constraints fine
  | remove id => exact remove_matches orderly held id
  | addEdit v strength => exact matches_answered (addEdit_matches orderly held _ v strength) fine
  | setEdit v strength => exact matches_answered (setEdit_matches orderly held _ v strength) fine
  | removeEdit v => exact removeEdit_matches orderly held v
  | suggest v target => exact suggest_matches held v target
  | update => exact held
  | reset => exact blank_matches _
  | setValue v x => exact held

theorem run_matches {session : Session α} (orderly : Orderly session.solver)
    (held : ledger.Matches session.solver) {commands : List (Command α)}
    (untroubled : Untroubled session commands) :
    (ledger.follow session commands).Matches (session.run commands).solver := by
  induction commands generalizing session ledger with
  | nil => exact held
  | cons command rest ih =>
    refine ih (step_orderly orderly command) (step_matches orderly held command ?_) ?_
    · exact fun cause stopped => untroubled cause (List.mem_cons.mpr (.inl stopped.symm))
    · exact fun cause later => untroubled cause (List.mem_cons_of_mem _ later)

/-- After every run without internal errors, whatever the arithmetic does, the books say just what was
asked for and not taken back: the constraints under the callers' numbers are those that were added and
not removed since, an edited variable is held at its last target, and every other constraint in the
solver stands behind such an edit. -/
theorem books_follow_ledger (store : Store α) {commands : List (Command α)}
    (untroubled : Untroubled ⟨∅, store⟩ commands) :
    (Ledger.blank.follow ⟨∅, store⟩ commands).Matches (Session.run ⟨∅, store⟩ commands).solver :=
  run_matches (fresh_orderly 0) (blank_matches 0) untroubled

/-- A second edit of a variable is refused and the first one keeps its target. -/
example :
    let v : Variable := ⟨0, none⟩
    let commands : List (Command Float) :=
      [.setValue v 3, .addEdit v .strong, .suggest v 7, .setValue v 5, .addEdit v .weak]
    ((Ledger.blank.follow ⟨∅, {}⟩ commands).edits v).map (·.target == 7) = some true := by
  decide +kernel

/-! ## The last target -/

/-- The command gives the edit of a variable a target: it suggests it, or it begins the edit while the
store has that value. -/
def Aims (session : Session α) (v : Variable) (target : α) (command : Command α) : Prop :=
  match command with
  | .suggest w x => w = v ∧ x = target
  | .addEdit w _ | .setEdit w _ =>
    w = v ∧ session.store.value w = target ∧ (session.step command).succeeded = true
  | _ => False

/-- The command begins an edit of a variable, moves its target or ends it. -/
def Disturbs (session : Session α) (v : Variable) (command : Command α) : Prop :=
  match command with
  | .addEdit w _ => w = v ∧ (session.step command).succeeded = true
  | .suggest w _ | .setEdit w _ | .removeEdit w => w = v
  | .reset => True
  | _ => False

theorem putAll_edits (constraints : List (Nat × Constraint α)) :
    (ledger.putAll s constraints).edits = ledger.edits := by
  induction constraints generalizing ledger s with
  | nil => rfl
  | cons posted rest ih =>
    unfold Ledger.putAll
    split
    · exact ih
    · rfl

omit [Scalar α] in
theorem of_hold {w : Variable} {h : Option (Hold α)} {hold : Hold α}
    (noted : (ledger.hold w h).edits v = some hold) :
    w = v ∧ h = some hold ∨ w ≠ v ∧ ledger.edits v = some hold := by
  rw [Ledger.hold_edits] at noted
  split at noted
  · exact .inl ⟨Eq.symm ‹_›, noted⟩
  · exact .inr ⟨Ne.symm ‹_›, noted⟩

/-- The target that the ledger has for a variable after a command was given by the command, or the
ledger had it before and the command does not concern it. -/
theorem record_target {session : Session α} {command : Command α} {hold : Hold α}
    (noted : (ledger.record session command).edits v = some hold) :
    Aims session v hold.target command ∨ ¬Disturbs session v command ∧
      ∃ before, ledger.edits v = some before ∧ before.target = hold.target := by
  have kept : ledger.edits v = some hold →
      ∃ before, ledger.edits v = some before ∧ before.target = hold.target :=
    fun noted => ⟨hold, noted, rfl⟩
  cases command with
  | add number c =>
    refine .inr ⟨not_false, kept ?_⟩
    dsimp only [Ledger.record] at noted
    split at noted <;> exact noted
  | addAll constraints => exact .inr ⟨not_false, kept (putAll_edits constraints ▸ noted)⟩
  | remove => exact .inr ⟨not_false, kept noted⟩
  | addEdit w strength =>
    dsimp only [Ledger.record] at noted
    split at noted
    · rename_i taken
      obtain ⟨same, begun⟩ | ⟨apart, noted⟩ := of_hold noted
      · cases begun
        exact .inl ⟨same, rfl, taken⟩
      · exact .inr ⟨fun disturbs => apart disturbs.1, kept noted⟩
    · rename_i refused
      exact .inr ⟨fun disturbs => refused disturbs.2, kept noted⟩
  | setEdit w strength =>
    dsimp only [Ledger.record] at noted
    split at noted
    · rename_i taken
      obtain ⟨same, begun⟩ | ⟨apart, noted⟩ := of_hold noted
      · cases begun
        exact .inl ⟨same, rfl, taken⟩
      · exact .inr ⟨apart, kept noted⟩
    · obtain ⟨-, ended⟩ | ⟨apart, noted⟩ := of_hold noted
      · cases ended
      · exact .inr ⟨apart, kept noted⟩
  | removeEdit w =>
    obtain ⟨-, ended⟩ | ⟨apart, noted⟩ := of_hold noted
    · cases ended
    · exact .inr ⟨apart, kept noted⟩
  | suggest w target =>
    obtain ⟨same, moved⟩ | ⟨apart, noted⟩ := of_hold noted
    · obtain ⟨before, -, rfl⟩ := Option.map_eq_some_iff.mp moved
      exact .inl ⟨same, rfl⟩
    · exact .inr ⟨apart, kept noted⟩
  | update => exact .inr ⟨not_false, kept noted⟩
  | reset => cases noted
  | setValue => exact .inr ⟨not_false, kept noted⟩

theorem follow_target {session : Session α} {commands : List (Command α)} {hold : Hold α}
    (noted : (ledger.follow session commands).edits v = some hold) :
    (∃ before command after, commands = before ++ command :: after ∧
      Aims (session.run before) v hold.target command ∧
      Throughout (¬Disturbs · v ·) ((session.run before).step command).state after) ∨
    (Throughout (¬Disturbs · v ·) session commands ∧
      ∃ before, ledger.edits v = some before ∧ before.target = hold.target) := by
  induction commands generalizing session ledger with
  | nil => exact .inr ⟨trivial, hold, noted, rfl⟩
  | cons command rest ih =>
    obtain ⟨before, last, after, rfl, aims, quiet⟩ | ⟨quiet, first, noted, same⟩ := ih noted
    · exact .inl ⟨command :: before, last, after, rfl, aims, quiet⟩
    · obtain aims | ⟨undisturbed, earlier⟩ := record_target noted
      · exact .inl ⟨[], command, rest, rfl, same ▸ aims, quiet⟩
      · exact .inr ⟨⟨undisturbed, quiet⟩, same ▸ earlier⟩

/-- After every run without internal errors, the target of an edit is that of the last suggestion for
it, or else the value that the store had for its variable when the edit began. -/
theorem target_is_last_suggested (store : Store α) {commands : List (Command α)}
    (untroubled : Untroubled ⟨∅, store⟩ commands)
    (found : (Session.run ⟨∅, store⟩ commands).solver.edits.find? v = some edit) :
    ∃ before command after, commands = before ++ command :: after ∧
      let session := Session.run ⟨∅, store⟩ before
      Aims session v edit.target command ∧
        Throughout (¬Disturbs · v ·) (session.step command).state after := by
  obtain ⟨hold, -, noted, target, -⟩ := hold_of_edit (books_follow_ledger store untroubled) found
  rw [target]
  exact (follow_target noted).resolve_right fun ⟨_, before, nothing, _⟩ => by cases nothing

/-! ## Constraints as they stand -/

section Rational
open scoped Exact

variable {s : Solver Rat} {ledger : Ledger Rat} {c : Constraint Rat}

theorem live_iff_asks (orderly : Orderly s) (records : ledger.Matches s) :
    (∃ tag, Live s c tag) ↔ ledger.Asks c := by
  have well := orderly.books.edits
  constructor
  · rintro ⟨tag, h, p, found, rfl, rfl⟩
    cases h with
    | posted id =>
      refine .inl ⟨id, ?_⟩
      rw [current_of_unbacked (posted_unbacked orderly id), ← records.posted, found]
      rfl
    | edit k =>
      obtain ⟨v, edit, held, serial⟩ := records.backing k p found
      obtain ⟨hold, start, noted, target, backed⟩ := hold_of_edit records held
      rw [← serial] at found
      cases found.symm.trans backed
      refine .inr ⟨v, hold, noted, ?_⟩
      rw [← serial, current_of_edit well held, target]
      rfl
  · rintro (⟨id, noted⟩ | ⟨v, hold, noted, rfl⟩)
    · rw [← records.posted] at noted
      obtain ⟨p, found, rfl⟩ := Option.map_eq_some_iff.mp noted
      exact ⟨p.tag, .posted id, p, found,
        (current_of_unbacked (posted_unbacked orderly id)).symm, rfl⟩
    · have held := records.held v
      rw [noted] at held
      obtain ⟨edit, start, found, target, backed⟩ := held
      refine ⟨edit.tag, edit.handle, _, backed, ?_, rfl⟩
      rw [current_of_edit well found, target]
      rfl

/-- After every run without internal errors the live constraints, read with the targets of the edits, are
the constraints that callers have asked for and not taken back. -/
theorem live_constraints_are_asked_for (store : Store Rat) {commands : List (Command Rat)}
    (untroubled : Untroubled ⟨∅, store⟩ commands) (c : Constraint Rat) :
    (∃ tag, Live (Session.run ⟨∅, store⟩ commands).solver c tag) ↔
      (Ledger.blank.follow ⟨∅, store⟩ commands).Asks c :=
  live_iff_asks (run_orderly store commands) (books_follow_ledger store untroubled)

end Rational

end Cassowary.Ledgers
