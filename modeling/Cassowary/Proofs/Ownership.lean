import Mathlib.Data.List.Nodup
import Cassowary.Proofs.Conservation

/-!
Who owns the symbols of a tableau. A slack, error or dummy symbol comes in with the tag of a constraint
and has to be gone from every row and objective when the constraint is removed, whichever of the tag's
symbols are basic then; the symbol of an artificial phase has to be gone when the phase ends. No two
owners share a symbol, since every number is given out once.
-/

namespace Cassowary.Ownership
open Endings MapEntries RowSymbols Separation Bookkeeping Drafting SolverBooks SessionBooks Upkeep
open Rollback Conservation Tableau Solver

variable {α : Type} [Scalar α] {P : Symbol → Prop} {s : Solver α} {c : Constraint α} {h : Handle}
  {z : Symbol} {p : Posting α}

/-- The symbol belongs to the tag of a constraint in the solver. -/
def Owned (postings : OrderedMap Handle (Posting α)) (z : Symbol) : Prop :=
  ∃ h p, postings.find? h = some p ∧ z ∈ p.tag.symbols

/-- What a tableau may hold: the symbols of variables, and those that constraints in the solver own. -/
def Housed (postings : OrderedMap Handle (Posting α)) (z : Symbol) : Prop :=
  z.isExternal = true ∨ Owned postings z

/-! ## Posting -/

/-- A draft that is brought in brings no symbols but those of its row. -/
theorem install_tidy {d : Draft α} (tidy : Tidy P d.solver.tableau)
    (columnar : OverColumns P d.solver.tableau d.row)
    (fresh : ¬P ⟨d.solver.minted + 1, .slack⟩) :
    Ends (d.install c) (fun s' => Tidy P s'.tableau) (fun _ _ => True) := by
  have entered : ∀ subject, Ends (d.enter subject) (fun s' => Tidy P s'.tableau)
      (fun _ _ => True) := fun subject =>
    ends_mono (draft_enter_ends tidy columnar subject) (fun _ left => left.1) fun _ _ _ => trivial
  unfold Draft.install
  split
  · exact entered _
  · split
    · have phase := enterArtificial_ends tidy columnar fresh
      unfold Draft.enterArtificial
      dsimp only
      split
      · rename_i fine
        exact ends_of_error?_none fine (ends_of_error_none phase fine)
      · rename_i error stopped
        unfold Ends
        simp only [Outcome.report, stopped]
    · split
      · exact entered _
      · trivial

theorem settle_keeps (tidy : Tidy P s.tableau) :
    Ends s.settle (fun s' => Tidy P s'.tableau ∧ s' = { s with tableau := s'.tableau })
      (fun _ _ => True) :=
  ends_mono (ends_and (ends_of_state (P := fun s' => Tidy P s'.tableau) (settle_tidy tidy))
    settle_ends) (fun _ both => both) fun _ _ _ => trivial

/-- Posting a constraint keeps the tableau tidy over every set that the symbols of its tag and those of
variables belong to, and that the artificial symbol does not. -/
theorem post_tidy (orderly : Orderly s) (tidy : Tidy P s.tableau)
    (own : ∀ z ∈ (s.draft c).tag.symbols, P z) (external : ∀ z, z.isExternal = true → P z)
    (fresh : ¬P ⟨(s.draft c).solver.minted + 1, .slack⟩) :
    Ends (s.post h c) (fun s' => s.minted ≤ s'.minted ∧ Tidy P s'.tableau) (fun _ _ => True) := by
  have drafted := draft_orderly (c := c) orderly
  have columns : ∀ z ∈ (s.draft c).tag.symbols, P z ∧ ¬Basic s.tableau z := fun z member =>
    ⟨own z member, draft_symbol_column orderly.tidy member⟩
  have columnar : OverColumns P (s.draft c).solver.tableau (s.draft c).row :=
    draft_over_of tidy columns fun v entry found =>
      external _ (drafted.books.tracked.symbol v entry found).1
  unfold post
  split
  · trivial
  · dsimp only
    rw [ends_andThen]
    refine ends_mono (ends_and (install_handled (c := c) drafted
      (draft_over orderly.books.tracked orderly.tidy))
      (install_tidy (c := c) (draft_tidy_of tidy columns) columnar fresh)) ?_ fun _ _ _ => trivial
    rintro s₁ ⟨⟨-, more, -⟩, tidy₁⟩
    rw [ends_andThen]
    refine ends_mono (settle_keeps tidy₁) ?_ fun _ _ _ => trivial
    rintro s₂ ⟨tidy₂, same⟩
    rw [ends_report, ends_ok]
    refine ⟨?_, tidy₂⟩
    rw [same]
    exact Nat.le_trans (Nat.le_of_lt draft_minted_le) more

/-! ## Retracting -/

omit [Scalar α] in
/-- Once the marker is gone, the second symbol of the tag goes too. -/
theorem dropSymbol_clears {t : Tableau α} {tag : Tag} (tidy : Tidy (fun z => z ≠ tag.marker ∧ P z) t)
    (closed : Closed t) :
    Tidy (fun z => z ∉ tag.symbols ∧ P z) (tag.other.elim t t.dropSymbol) := by
  obtain ⟨marker, other⟩ := tag
  cases other with
  | none => exact tidy_mono tidy fun z inside => ⟨by simpa [Tag.symbols] using inside.1, inside.2⟩
  | some error =>
    refine tidy_mono (dropSymbol_forgets tidy closed) fun z inside => ⟨?_, inside.2.2⟩
    simpa [Tag.symbols] using ⟨inside.2.1, inside.1⟩

/-- Retracting a constraint takes the symbols of its tag out of the tableau. -/
theorem retract_tidy (closed : Closed s.tableau) (tidy : Tidy P s.tableau)
    (found : s.postings.find? h = some p) (owned : ∀ z ∈ p.tag.symbols, P z) :
    Ends (s.retract h) (fun s' => Tidy (fun z => z ∉ p.tag.symbols ∧ P z) s'.tableau)
      (fun _ _ => True) := by
  obtain ⟨c, marker, other⟩ := p
  have refunded : Tidy P (s.tableau.refund ⟨marker, other⟩ c.strength.value) :=
    refund_tidy tidy owned
  unfold retract
  rw [found]
  dsimp only
  rw [ends_andThen, onTableau, ends_embed]
  refine ends_mono (ends_and (evict_forgets refunded)
    (closed_upheld.evict marker refunded closed)) ?_ fun _ _ _ => trivial
  rintro t₁ ⟨tidy₁, closed₁⟩
  have tidy₂ : Tidy (fun z => z ∉ Tag.symbols ⟨marker, other⟩ ∧ P z)
      (other.elim t₁ t₁.dropSymbol) := dropSymbol_clears tidy₁ closed₁
  rw [ends_andThen]
  refine ends_mono (settle_keeps tidy₂) ?_ fun _ _ _ => trivial
  rintro s₃ ⟨tidy₃, -⟩
  exact (release_shrinks s₃ _).tidy _ tidy₃

/-! ## Numbers -/

/-- The tags of two constraints share no number, and neither does a tag with a variable. -/
structure Numbered (postings : OrderedMap Handle (Posting α))
    (tracked : OrderedMap Variable Tracked) : Prop where
  tags : ∀ h h' p p' z z', postings.find? h = some p → postings.find? h' = some p' →
    z ∈ p.tag.symbols → z' ∈ p'.tag.symbols → z.id = z'.id → h = h'
  apart : ∀ h p z v entry, postings.find? h = some p → z ∈ p.tag.symbols →
    tracked.find? v = some entry → z.id ≠ entry.symbol.id

/-- The symbols of a draft's tag are newer than those of the variables that its row tracks. -/
theorem draft_symbol_newer (orderly : Orderly s) {v : Variable} {entry : Tracked}
    (found : (s.draft c).solver.tracked.find? v = some entry)
    (member : z ∈ (s.draft c).tag.symbols) : entry.symbol.id < z.id := by
  have older := ((rowOf_well (e := c.expression) orderly.books.tracked).symbol v entry found).2.2
  have newer := (mint_symbols member).2.1
  omega

theorem posted_numbered {s' : Solver α} (orderly : Orderly s)
    (numbered : Numbered s.postings s.tracked) (posted : Posted s h c s') :
    Numbered s'.postings s'.tracked := by
  rw [posted.postings, posted.tracked]
  have old : ∀ {g q z}, s.postings.find? g = some q → z ∈ q.tag.symbols → z.id ≤ s.minted :=
    fun found member => (tag_symbol orderly.books.postings found member).2.2
  have new : ∀ {z}, z ∈ (s.draft c).tag.symbols → s.minted < z.id :=
    fun member => (draft_symbol member).2.1
  constructor
  · intro g g' q q' z z' found found' member member' same
    rw [OrderedMap.find?_insert] at found found'
    split at found <;> split at found'
    · exact Eq.trans (Eq.symm ‹_›) ‹_›
    · cases found
      have := old found' member'
      have := new member
      omega
    · cases found'
      have := old found member
      have := new member'
      omega
    · exact numbered.tags g g' q q' z z' found found' member member' same
  · intro g q z v entry found member tracked
    rw [OrderedMap.find?_insert] at found
    split at found
    · cases found
      have := draft_symbol_newer orderly tracked member
      omega
    · rcases (rowOf_grows s c.expression).fresh v entry tracked with ⟨uses, earlier⟩ | newer
      · exact numbered.apart g q z v ⟨entry.symbol, uses⟩ found member earlier
      · have := old found member
        omega

theorem retracted_numbered {s' : Solver α} (numbered : Numbered s.postings s.tracked)
    (retracted : Retracted s h s') : Numbered s'.postings s'.tracked := by
  obtain ⟨posting, tableau, -, rfl⟩ := retracted
  have shrinks := release_shrinks { s with postings := s.postings.erase h, tableau }
    posting.constraint.expression
  have kept : ∀ {g q}, (s.postings.erase h).find? g = some q → s.postings.find? g = some q := by
    intro g q found
    rw [OrderedMap.find?_erase] at found
    split at found
    · cases found
    · exact found
  rw [shrinks.postings]
  constructor
  · exact fun g g' q q' z z' found found' => numbered.tags g g' q q' z z' (kept found) (kept found')
  · intro g q z v entry found member tracked
    obtain ⟨uses, earlier⟩ := shrinks.kept v entry tracked
    exact numbered.apart g q z v ⟨entry.symbol, uses⟩ (kept found) member earlier

/-! ## Runs -/

/-- Every symbol in the tableau has its owner and every owner its numbers, and the count of the numbers
that were given out has reached some bound. -/
structure Lodged (bound : Nat) (s : Solver α) : Prop where
  counter : bound ≤ s.minted
  tidy : Tidy (Housed s.postings) s.tableau
  numbered : Numbered s.postings s.tracked

theorem post_lodged {bound : Nat} (orderly : Orderly s) (lodged : Lodged bound s)
    (serial : ∀ k, h = .edit k → k ≤ s.minted) :
    Ends (s.post h c) (Lodged bound) (fun _ _ => True) := by
  have fresh : ¬((⟨(s.draft c).solver.minted + 1, .slack⟩ : Symbol) ∈ (s.draft c).tag.symbols ∨
      Housed s.postings ⟨(s.draft c).solver.minted + 1, .slack⟩) := by
    have more : s.minted < (s.draft c).solver.minted := draft_minted_le
    rintro (new | external | ⟨g, q, found, member⟩)
    · exact Nat.not_succ_le_self _ (draft_symbol new).2.2.2
    · cases external
    · have old : (s.draft c).solver.minted + 1 ≤ s.minted :=
        (tag_symbol orderly.books.postings found member).2.2
      omega
  have tidied := post_tidy (h := h) (c := c)
    (P := fun z => z ∈ (s.draft c).tag.symbols ∨ Housed s.postings z) orderly
    (tidy_mono lodged.tidy fun _ => .inr) (fun _ => .inl) (fun _ external => .inr (.inl external)) fresh
  refine ends_mono (ends_and (post_ends orderly serial) tidied) ?_ fun _ _ _ => trivial
  rintro s' ⟨⟨-, free, posted⟩, more, tidy'⟩
  refine ⟨Nat.le_trans lodged.counter more, tidy_mono tidy' ?_,
    posted_numbered orderly lodged.numbered posted⟩
  rw [posted.postings]
  rintro z (new | external | ⟨g, q, found, member⟩)
  · exact .inr ⟨h, ⟨c, (s.draft c).tag⟩, by simp, new⟩
  · exact .inl external
  · have apart : h ≠ g := by
      rintro rfl
      rw [free] at found
      cases found
    exact .inr ⟨g, q, by simpa [apart] using found, member⟩

theorem retract_lodged {bound : Nat} (standing : Standing s) (lodged : Lodged bound s)
    (unbacked : ∀ v edit, s.edits.find? v = some edit → edit.handle ≠ h) :
    Ends (s.retract h) (Lodged bound) (fun _ _ => True) := by
  cases found : s.postings.find? h with
  | none =>
    unfold retract
    rw [found]
    trivial
  | some p =>
    refine ends_mono (ends_and (retract_ends standing.orderly unbacked)
      (retract_tidy standing.closed lodged.tidy found fun z member => .inr ⟨h, p, found, member⟩)) ?_
      fun _ _ _ => trivial
    rintro s' ⟨⟨-, retracted⟩, tidy'⟩
    have numbered := retracted_numbered lodged.numbered retracted
    obtain ⟨posting, tableau, -, rfl⟩ := retracted
    have shrinks := release_shrinks { s with postings := s.postings.erase h, tableau }
      posting.constraint.expression
    refine ⟨by rw [shrinks.minted]; exact lodged.counter, tidy_mono tidy' ?_, numbered⟩
    rw [shrinks.postings]
    rintro z ⟨gone, external | ⟨g, q, held, member⟩⟩
    · exact .inl external
    · have apart : h ≠ g := by
        rintro rfl
        cases found.symm.trans held
        exact gone member
      exact .inr ⟨g, q, by simpa [apart] using held, member⟩

theorem fresh_lodged {bound minted : Nat} (reached : bound ≤ minted) :
    Lodged bound (fresh minted : Solver α) where
  counter := reached
  tidy := empty_tidy
  numbered := ⟨by rintro g g' q q' z z' ⟨⟩, by rintro g q z v entry ⟨⟩⟩

theorem lodged_conserved (bound : Nat) : Conserved (Lodged (α := α) bound) where
  reset lodged := fresh_lodged lodged.counter
  numbers lodged more := ⟨Nat.le_trans lodged.counter more, lodged.tidy, lodged.numbered⟩
  edits _ lodged := ⟨lodged.counter, lodged.tidy, lodged.numbered⟩
  post _ standing lodged serial := post_lodged standing.orderly lodged serial
  retract standing lodged unbacked := retract_lodged standing lodged unbacked
  suggest v target _ lodged := by
    unfold suggest
    split
    · trivial
    · rw [onTableau, ends_embed]
      refine ends_mono (ends_of_state (dualOptimize_tidy (shiftTarget_tidy _ _ lodged.tidy))) ?_
        fun _ _ _ => trivial
      exact fun t tidy => ⟨lodged.counter, tidy, lodged.numbered⟩

/-- No row waits for its repair. -/
def Idle (t : Tableau α) : Prop := t.infeasible = []

theorem dualOptimize_idle (t : Tableau α) : Ends t.dualOptimize Idle (fun _ _ => True) :=
  ends_mono (PivotRuns.dualOptimize_settles t) (fun _ idle => idle) fun _ _ _ => trivial

/-- Every operation ends with the dual method, which empties the queue. -/
theorem idle_upheld : Upheld (α := α) Idle (fun _ => True) (fun _ => True) (fun _ => True) where
  empty := ⟨rfl, trivial⟩
  holds _ := trivial
  left _ := trivial
  objective _ idle := idle
  dropRow _ idle := idle
  enter _ _ _ _ := trivial
  enterArtificial _ _ _ _ := ends_of_state trivial
  evict _ _ _ := ends_of_state trivial
  dropSymbol _ _ := trivial
  settle _ _ := by
    rw [ends_andThen]
    exact ends_mono (ends_of_state (P := fun _ => True) trivial) (fun t _ => dualOptimize_idle t)
      fun _ _ _ => trivial
  shift _ _ _ _ := dualOptimize_idle _
  track _ _ := trivial
  untrack _ _ := trivial

/-- The places where a solver can hold a symbol. -/
inductive Mentioned (s : Solver α) (z : Symbol) : Prop where
  | basic (heads : Basic s.tableau z)
  | line {r : Row α} (line : Line s.tableau r) (held : r.holds z = true)
  | queued (waits : z ∈ s.tableau.infeasible)
  | tag {h : Handle} {p : Posting α} (posted : s.postings.find? h = some p)
    (member : z ∈ p.tag.symbols)
  | tracked {v : Variable} {entry : Tracked} (found : s.tracked.find? v = some entry)
    (same : z = entry.symbol)
  | edit {v : Variable} {edit : Edit α} (edited : s.edits.find? v = some edit)
    (member : z ∈ edit.tag.symbols)

theorem mentioned_minted (orderly : Orderly s) (idle : Idle s.tableau) (mentioned : Mentioned s z) :
    Minted s.minted z := by
  cases mentioned with
  | basic heads => exact orderly.tidy.basic z heads
  | line line held => exact (orderly.tidy.line _ line z held).1
  | queued waits =>
    rw [idle] at waits
    cases waits
  | tag posted member => exact (tag_symbol orderly.books.postings posted member).2
  | tracked found same => exact same ▸ (orderly.books.tracked.symbol _ _ found).2
  | edit edited member =>
    obtain ⟨target, strength, -, posted⟩ := orderly.books.edits.posted _ _ edited
    exact (tag_symbol orderly.books.postings posted member).2

/-- The symbols that constraints in the solver own, one constraint after the other. -/
def ownedSymbols (s : Solver α) : List Symbol := s.postings.values.flatMap fun p => p.tag.symbols

/-- The symbols of the tracked variables. -/
def variableSymbols (s : Solver α) : List Symbol := s.tracked.values.map Tracked.symbol

omit [Scalar α] in
theorem mem_ownedSymbols : z ∈ ownedSymbols s ↔ Owned s.postings z := by
  simp only [ownedSymbols, OrderedMap.values, List.mem_flatMap, List.mem_map, Prod.exists, Owned,
    OrderedMap.find?_eq_some_iff]
  constructor
  · rintro ⟨p, ⟨h, q, listed, rfl⟩, member⟩
    exact ⟨h, q, listed, member⟩
  · rintro ⟨h, p, listed, member⟩
    exact ⟨p, ⟨h, p, listed, rfl⟩, member⟩

theorem mint_numbers_nodup (relation : Relation) (required : Bool) (k : Nat) :
    ((Tag.mint relation required k).symbols.map Symbol.id).Nodup := by
  cases relation <;> cases required <;> simp [Tag.mint, Tag.symbols]

theorem owned_numbers_nodup (orderly : Orderly s) (numbered : Numbered s.postings s.tracked) :
    ((ownedSymbols s).map Symbol.id).Nodup := by
  unfold ownedSymbols
  rw [List.map_flatMap, List.nodup_flatMap]
  constructor
  · intro p member
    obtain ⟨⟨h, q⟩, held, rfl⟩ := List.mem_map.mp member
    obtain ⟨k, same, -⟩ := orderly.books.postings.tag h q (mem_toList_iff.mp held)
    rw [same]
    exact mint_numbers_nodup _ _ k
  · refine pairwise_values fun entry member entry' member' differ => ?_
    intro number mine its
    obtain ⟨z, own, rfl⟩ := List.mem_map.mp mine
    obtain ⟨z', own', same⟩ := List.mem_map.mp its
    exact differ (numbered.tags _ _ _ _ z z' (mem_toList_iff.mp member) (mem_toList_iff.mp member')
      own own' same.symm)

theorem variable_numbers_nodup (orderly : Orderly s) :
    ((variableSymbols s).map Symbol.id).Nodup := by
  unfold variableSymbols
  rw [List.map_map]
  refine List.pairwise_map.mpr (pairwise_values fun entry member entry' member' differ same => ?_)
  have found := mem_toList_iff.mp member
  have found' := mem_toList_iff.mp member'
  have kind := (orderly.books.tracked.symbol _ _ found).1
  have kind' := (orderly.books.tracked.symbol _ _ found').1
  simp only [Symbol.isExternal, decide_eq_true_eq] at kind kind'
  have equal : entry.2.symbol = entry'.2.symbol := by
    cases first : entry.2.symbol
    cases second : entry'.2.symbol
    simp_all
  exact differ (orderly.books.tracked.distinct _ _ _ _ found found' equal)

theorem numbers_nodup (orderly : Orderly s) (numbered : Numbered s.postings s.tracked) :
    ((ownedSymbols s ++ variableSymbols s).map Symbol.id).Nodup := by
  rw [List.map_append, List.nodup_append]
  refine ⟨owned_numbers_nodup orderly numbered, variable_numbers_nodup orderly, ?_⟩
  rintro _ mine _ its rfl
  obtain ⟨z, owned, same⟩ := List.mem_map.mp mine
  obtain ⟨p, member, own⟩ := List.mem_flatMap.mp owned
  obtain ⟨⟨h, q⟩, posted, rfl⟩ := List.mem_map.mp member
  obtain ⟨y, named, rfl⟩ := List.mem_map.mp its
  obtain ⟨entry, listed, rfl⟩ := List.mem_map.mp named
  obtain ⟨⟨v, entry'⟩, found, rfl⟩ := List.mem_map.mp listed
  exact numbered.apart h q z v entry' (mem_toList_iff.mp posted) own (mem_toList_iff.mp found) same

/-- After every run without internal errors, whatever the arithmetic does, each slack, error or dummy
symbol of a row or of the objective belongs to the tag of a constraint in the solver. The symbols of the
tags and those of the variables have pairwise different numbers, and no number anywhere in the solver is
zero or greater than the count of those given out, so that the next one is new. The count never goes
back while the run goes on, also when the solver is reset. -/
theorem internal_symbols_have_one_owner (store : Store α) (commands : List (Command α))
    (untroubled : Untroubled ⟨∅, store⟩ commands) :
    let session := Session.run ⟨∅, store⟩ commands
    let s := session.solver
    (∀ z, z.isExternal = false → (Basic s.tableau z ∨ ∃ r, Line s.tableau r ∧ r.holds z = true) →
        z ∈ ownedSymbols s) ∧
      ((ownedSymbols s ++ variableSymbols s).map Symbol.id).Nodup ∧
      (∀ z, Mentioned s z → 1 ≤ z.id ∧ z.id ≤ s.minted) ∧
      ∀ later, Untroubled session later → s.minted ≤ (session.run later).solver.minted := by
  intro session s
  obtain ⟨standing, lodged⟩ : Good (Lodged 0) s :=
    run_conserves (lodged_conserved 0) ⟨fresh_standing 0, fresh_lodged (Nat.le_refl 0)⟩ untroubled
  have idle : Idle s.tableau := (run_upholds_untroubled idle_upheld store untroubled).2.1
  refine ⟨?_, numbers_nodup standing.orderly lodged.numbered,
    fun z => mentioned_minted standing.orderly idle, ?_⟩
  · intro z internal occurs
    have housed : Housed s.postings z := by
      rcases occurs with heads | ⟨r, line, held⟩
      · exact lodged.tidy.basic z heads
      · exact (lodged.tidy.line r line z held).1
    rcases housed with external | owned
    · rw [internal] at external
      cases external
    · exact mem_ownedSymbols.mpr owned
  · intro later further
    have good : Good (Lodged s.minted) s :=
      ⟨standing, Nat.le_refl _, lodged.tidy, lodged.numbered⟩
    exact (run_conserves (lodged_conserved s.minted) good further).2.counter

/-- A soft floor and a dragged variable, a sum that is refused, and after a reset a new layout of which
the first constraint is removed again. -/
def rearranged : List (Command Float) :=
  let x : Expression Float := .ofVariable ⟨0, none⟩
  let y : Expression Float := .ofVariable ⟨1, none⟩
  [.add 0 ((Constraint.relate x .greaterOrEqual (.ofScalar 3)).withStrength .weak),
    .addEdit ⟨0, none⟩ .strong, .suggest ⟨0, none⟩ 5,
    .add 1 (.relate (x + y) .lessOrEqual (.ofScalar 4)), .add 2 (.relate y .greaterOrEqual (.ofScalar 0)),
    .add 3 (.relate x .greaterOrEqual (.ofScalar 9)), .removeEdit ⟨0, none⟩, .remove 1, .reset,
    .add 4 (.relate x .equal y), .add 5 (.relate (x + y) .greaterOrEqual (.ofScalar 2)), .remove 4]

theorem rearranged_untroubled : Untroubled ⟨∅, {}⟩ rearranged :=
  untroubled_of_external (by decide +kernel)

theorem internal_symbols_have_one_owner_rearranged :
    Untroubled ⟨∅, {}⟩ rearranged ∧
      let session := Session.run ⟨∅, {}⟩ rearranged
      let s := session.solver
      (∀ z, z.isExternal = false → (Basic s.tableau z ∨ ∃ r, Line s.tableau r ∧ r.holds z = true) →
          z ∈ ownedSymbols s) ∧
        ((ownedSymbols s ++ variableSymbols s).map Symbol.id).Nodup ∧
        (∀ z, Mentioned s z → 1 ≤ z.id ∧ z.id ≤ s.minted) ∧
        ∀ later, Untroubled session later → s.minted ≤ (session.run later).solver.minted :=
  ⟨rearranged_untroubled, internal_symbols_have_one_owner {} rearranged rearranged_untroubled⟩

end Cassowary.Ownership
