import ViciaDb.Graph.OverlayRuns

namespace ViciaDb

namespace PendingOverlay

open List

variable (hash : EavtKey → UInt64) (rejectDuplicates : Bool)

def insertFacts : PendingOverlay × List Nat → List Fact → Option String × PendingOverlay × List Nat
  | state, [] => (none, state)
  | state, fact :: facts =>
    match insertFact hash rejectDuplicates state fact with
    | .ok state => insertFacts state facts
    | .error message => (some message, state)

def insertBatchInPlace (overlay : PendingOverlay) (facts : List Fact) :
    Except String Nat × PendingOverlay :=
  match insertFacts hash rejectDuplicates (overlay, []) facts with
  | (none, overlay, inserted) => (.ok inserted.length, overlay.insertIndexes inserted)
  | (some message, overlay, _) => (.error message, overlay)

variable {hash rejectDuplicates} {overlay : PendingOverlay} {facts : List Fact}
  {state : PendingOverlay × List Nat}

theorem insertFacts_foldlM : facts.foldlM (insertFact hash rejectDuplicates) state =
      match insertFacts hash rejectDuplicates state facts with
      | (none, after) => .ok after
      | (some message, _) => .error message := by
  induction facts generalizing state with
  | nil => rfl
  | cons fact facts ih =>
    rw [foldlM_cons, insertFacts]
    cases insertFact hash rejectDuplicates state fact with
    | ok next => exact ih
    | error message => rfl

theorem insertBatch_eq_inPlace : overlay.insertBatch hash facts rejectDuplicates =
      (insertBatchInPlace hash rejectDuplicates overlay facts).1.map fun inserted =>
        (inserted, (insertBatchInPlace hash rejectDuplicates overlay facts).2) := by
  rw [insertBatch, insertFacts_foldlM, insertBatchInPlace]
  rcases insertFacts hash rejectDuplicates (overlay, []) facts with ⟨_ | message, after⟩ <;> rfl

theorem insertFact_ok {fact : Fact} {next : PendingOverlay × List Nat}
    (step : insertFact hash rejectDuplicates state fact = .ok next) :
    next = state ∨ state.1.records.length < 2 ^ 32 ∧
      state.1.records.length < next.1.records.length := by
  obtain ⟨overlay, inserted⟩ := state
  simp only [insertFact] at step
  split at step
  · exact .inl (Except.ok.inj step).symm
  · split at step
    next room =>
      cases step
      exact .inr ⟨room, by simp⟩
    next => cases step

theorem insertFact_error {fact : Fact} {message : String}
    (step : insertFact hash rejectDuplicates state fact = .error message) :
    2 ^ 32 ≤ state.1.records.length := by
  obtain ⟨overlay, inserted⟩ := state
  simp only [insertFact] at step
  split at step
  · cases step
  · split at step
    next => cases step
    next full => exact Nat.le_of_not_lt full

theorem insertFacts_spec {failure : Option String} {after : PendingOverlay × List Nat}
    (ran : insertFacts hash rejectDuplicates state facts = (failure, after)) :
    (after = state ∨ state.1.records.length < 2 ^ 32 ∧
      state.1.records.length < after.1.records.length) ∧
    (failure.isSome = true → 2 ^ 32 ≤ after.1.records.length) := by
  induction facts generalizing state with
  | nil =>
    cases ran
    exact ⟨.inl rfl, nofun⟩
  | cons fact facts ih =>
    rw [insertFacts] at ran
    cases step : insertFact hash rejectDuplicates state fact with
    | error message =>
      rw [step] at ran
      cases ran
      exact ⟨.inl rfl, fun _ => insertFact_error step⟩
    | ok next =>
      rw [step] at ran
      obtain ⟨grown, stopped⟩ := ih ran
      refine ⟨?_, stopped⟩
      rcases insertFact_ok step with rfl | ⟨room, pushed⟩
      · exact grown
      · rcases grown with rfl | ⟨_, later⟩
        · exact .inr ⟨room, pushed⟩
        · exact .inr ⟨room, pushed.trans later⟩

/-- The facts a batch has to record: all of them or, when duplicates are rejected, those that have no
    equal record in the overlay or earlier in the batch. -/
def newFacts (hash : EavtKey → UInt64) (rejectDuplicates : Bool) (overlay : PendingOverlay)
    (facts : List Fact) : List Fact :=
  if rejectDuplicates then
    loadFacts [] (facts.filter fun fact => (overlay.findDuplicate hash fact).isNone)
  else facts

/-- The overlay after any batches, failed ones included. -/
def afterBatches (hash : EavtKey → UInt64) (batches : List (List Fact × Bool)) : PendingOverlay :=
  batches.foldl (fun overlay batch => (insertBatchInPlace hash batch.2 overlay batch.1).2) empty

def Pointing (overlay : PendingOverlay) : Prop :=
  ∀ h, ∀ id ∈ overlay.duplicates h, id < overlay.records.length

theorem loadFacts_cons (fact : Fact) (pending facts : List Fact) :
    loadFacts (fact :: pending) facts =
      fact :: loadFacts pending (facts.filter fun other => !fact.sameRecord other) := by
  induction facts generalizing pending with
  | nil => rfl
  | cons other facts ih =>
    by_cases same : fact.sameRecord other = true
    · have skipped : loadFact (fact :: pending) other = fact :: pending := by
        rw [loadFact, any_cons, same, Bool.true_or, if_pos rfl]
      rw [filter_cons_of_neg (by rw [same]; decide), ← ih, loadFacts, foldl_cons, skipped]
      rfl
    · rw [Bool.not_eq_true] at same
      have taken : loadFact (fact :: pending) other = fact :: loadFact pending other := by
        rw [loadFact, any_cons, same, Bool.false_or, loadFact]
        split <;> rfl
      rw [filter_cons_of_pos (by rw [same]; rfl), loadFacts, foldl_cons, taken]
      exact ih _

theorem insertFact_pushed {fact : Fact} {next : PendingOverlay × List Nat} (pointing : Pointing state.1)
    (fresh : ((state.1.findDuplicate hash fact).isSome && rejectDuplicates) = false)
    (step : insertFact hash rejectDuplicates state fact = .ok next) :
    Pointing next.1 ∧ next.1.records = state.1.records ++ [fact] ∧
      ∀ other, (next.1.findDuplicate hash other).isNone =
        ((state.1.findDuplicate hash other).isNone && !fact.sameRecord other) := by
  obtain ⟨overlay, inserted⟩ := state
  simp only [insertFact, fresh, Bool.false_eq_true, if_false] at step
  split at step
  swap
  · cases step
  cases step
  refine ⟨?_, rfl, ?_⟩
  · intro h id filed
    rw [length_append, length_singleton]
    dsimp only at filed
    split at filed
    · rcases mem_append.mp filed with old | new
      · exact Nat.lt_succ_of_lt (pointing h id old)
      · rw [mem_singleton.mp new]
        exact Nat.lt_succ_self _
    · exact Nat.lt_succ_of_lt (pointing h id filed)
  · intro other
    have old : ∀ h, (overlay.duplicates h).find? (fun id =>
        (recordOf (overlay.records ++ [fact]) id).sameRecord other) =
        (overlay.duplicates h).find? fun id => (recordOf overlay.records id).sameRecord other := by
      intro h
      rw [← head?_filter, ← head?_filter]
      congr 1
      exact filter_congr fun id filed => by rw [recordOf_append (pointing h id filed)]
    have last : recordOf (overlay.records ++ [fact]) overlay.records.length = fact := by
      simp [recordOf]
    simp only [findDuplicate]
    split
    · rw [find?_append, old, Option.isNone_or, find?_singleton, last]
      cases fact.sameRecord other <;> rfl
    · rename_i apart
      have different : fact.sameRecord other = false := by
        rw [← Bool.not_eq_true]
        intro same
        exact apart (congrArg hash (eavtKey_of_sameRecord same).symm)
      rw [old, different, Bool.not_false, Bool.and_true]

theorem newFacts_of_fresh {fact : Fact}
    (fresh : ((state.1.findDuplicate hash fact).isSome && rejectDuplicates) = false) :
    newFacts hash rejectDuplicates state.1 (fact :: facts) = fact :: if rejectDuplicates then
      loadFacts [] ((facts.filter fun f => (state.1.findDuplicate hash f).isNone).filter fun f => !fact.sameRecord f)
    else facts := by
  unfold newFacts
  cases rejectDuplicates with
  | false => rfl
  | true =>
    rw [Bool.and_true, Option.isSome_eq_false_iff] at fresh
    rw [if_pos rfl, filter_cons_of_pos (p := fun f => (state.1.findDuplicate hash f).isNone) fresh]
    exact loadFacts_cons fact [] _

theorem newFacts_cons {fact : Fact} {next : PendingOverlay × List Nat} (pointing : Pointing state.1)
    (fresh : ((state.1.findDuplicate hash fact).isSome && rejectDuplicates) = false)
    (step : insertFact hash rejectDuplicates state fact = .ok next) :
    newFacts hash rejectDuplicates state.1 (fact :: facts) =
      fact :: newFacts hash rejectDuplicates next.1 facts := by
  obtain ⟨-, -, found⟩ := insertFact_pushed pointing fresh step
  rw [newFacts_of_fresh fresh, newFacts, filter_filter]
  congr 3
  exact filter_congr fun other _ => by rw [found, Bool.and_comm]

/-- A batch is recorded to its end when there is room for its new facts, or when it has none. -/
theorem insertFacts_none_iff (pointing : Pointing state.1) :
    (insertFacts hash rejectDuplicates state facts).1 = none ↔
      newFacts hash rejectDuplicates state.1 facts = [] ∨
        state.1.records.length + (newFacts hash rejectDuplicates state.1 facts).length ≤ 2 ^ 32 := by
  induction facts generalizing state with
  | nil =>
    refine iff_of_true rfl (.inl ?_)
    unfold newFacts
    split <;> rfl
  | cons fact facts ih =>
    cases fresh : (state.1.findDuplicate hash fact).isSome && rejectDuplicates with
    | true =>
      obtain ⟨known, rejects⟩ := Bool.and_eq_true_iff.mp fresh
      have step : insertFact hash rejectDuplicates state fact = .ok state := by
        obtain ⟨overlay, inserted⟩ := state
        simp only [insertFact, fresh, if_true]
      have same : newFacts hash rejectDuplicates state.1 (fact :: facts) =
          newFacts hash rejectDuplicates state.1 facts := by
        rw [newFacts, newFacts, if_pos rejects, if_pos rejects, filter_cons_of_neg]
        rw [Option.isNone_iff_eq_none]
        exact Option.isSome_iff_ne_none.mp known
      rw [insertFacts, step, same]
      exact ih pointing
    | false =>
      rw [insertFacts]
      cases step : insertFact hash rejectDuplicates state fact with
      | ok next =>
        obtain ⟨pointing', pushed, -⟩ := insertFact_pushed pointing fresh step
        have room : state.1.records.length < 2 ^ 32 := by
          rcases insertFact_ok step with same | ⟨room, -⟩
          · rw [same] at pushed
            exact absurd (congrArg length pushed) (by simp)
          · exact room
        refine (ih pointing').trans ?_
        rw [newFacts_cons pointing fresh step, pushed, length_append, length_singleton, length_cons]
        constructor
        · rintro (none | fits)
          · rw [none]
            exact .inr room
          · exact .inr (by omega)
        · rintro (none | fits)
          · cases none
          · exact .inr (by omega)
      | error message =>
        have full := insertFact_error step
        rw [newFacts_of_fresh fresh, length_cons]
        refine iff_of_false nofun ?_
        rintro (none | fits)
        · cases none
        · omega

theorem insertFacts_pointing (pointing : Pointing state.1) :
    Pointing (insertFacts hash rejectDuplicates state facts).2.1 := by
  induction facts generalizing state with
  | nil => exact pointing
  | cons fact facts ih =>
    rw [insertFacts]
    cases step : insertFact hash rejectDuplicates state fact with
    | error message => exact pointing
    | ok next =>
      refine ih ?_
      cases fresh : (state.1.findDuplicate hash fact).isSome && rejectDuplicates with
      | false => exact (insertFact_pushed pointing fresh step).1
      | true =>
        obtain ⟨overlay, inserted⟩ := state
        simp only [insertFact, fresh, if_true] at step
        cases step
        exact pointing

theorem afterBatches_pointing (hash : EavtKey → UInt64) (batches : List (List Fact × Bool)) :
    Pointing (afterBatches hash batches) := by
  suffices holds : ∀ overlay : PendingOverlay, Pointing overlay → Pointing (batches.foldl
      (fun overlay batch => (insertBatchInPlace hash batch.2 overlay batch.1).2) overlay) from
    holds empty fun h id filed => by cases filed
  induction batches with
  | nil => exact fun overlay pointing => pointing
  | cons batch batches ih =>
    intro overlay pointing
    refine ih _ ?_
    have kept : Pointing (insertFacts hash batch.2 (overlay, []) batch.1).2.1 :=
      insertFacts_pointing pointing
    simp only [insertBatchInPlace]
    rcases ran : insertFacts hash batch.2 (overlay, []) batch.1 with ⟨_ | message, after⟩
    · rw [ran] at kept
      exact kept
    · rw [ran] at kept
      exact kept

/-- After any batches, a batch that fails leaves the overlay as it was exactly when the overlay had no
    room at all, or when the batch does not fail because all its new facts have room. -/
theorem failed_batch_unchanged_iff (hash : EavtKey → UInt64) (batches : List (List Fact × Bool))
    (rejectDuplicates : Bool) (facts : List Fact) :
    (∀ message, (insertBatchInPlace hash rejectDuplicates (afterBatches hash batches) facts).1 =
        .error message →
      (insertBatchInPlace hash rejectDuplicates (afterBatches hash batches) facts).2 =
        afterBatches hash batches) ↔
    2 ^ 32 ≤ (afterBatches hash batches).records.length ∨
      (afterBatches hash batches).records.length +
        (newFacts hash rejectDuplicates (afterBatches hash batches) facts).length ≤ 2 ^ 32 := by
  have pointing := afterBatches_pointing hash batches
  generalize afterBatches hash batches = overlay at pointing ⊢
  have room : (insertFacts hash rejectDuplicates (overlay, []) facts).1 = none ↔ _ :=
    insertFacts_none_iff pointing
  rw [insertBatchInPlace]
  rcases ran : insertFacts hash rejectDuplicates (overlay, []) facts with ⟨_ | message, after⟩
  · rw [ran] at room
    refine iff_of_true nofun ?_
    rcases room.mp rfl with none | fits
    · rw [none]
      exact Nat.le_total _ _
    · exact .inr fits
  · obtain ⟨grown, stopped⟩ := insertFacts_spec ran
    have full := stopped rfl
    rw [ran] at room
    have beyond : ¬ overlay.records.length + (newFacts hash rejectDuplicates overlay facts).length ≤ 2 ^ 32 :=
      fun fits => by cases room.mpr (.inr fits)
    simp only [Except.error.injEq, forall_eq', beyond, or_false]
    constructor
    · intro same
      rwa [same] at full
    · intro already
      rcases grown with rfl | ⟨less, _⟩
      · rfl
      · exact absurd already (Nat.not_le_of_lt less)

theorem insertFact_push (hash : EavtKey → UInt64) (state : PendingOverlay × List Nat) (fact : Fact)
    (room : state.1.records.length < 2 ^ 32) :
    ∃ next, insertFact hash false state fact = .ok next ∧
      next.1.records = state.1.records ++ [fact] ∧ next.1.eavt = state.1.eavt := by
  obtain ⟨overlay, inserted⟩ := state
  simp only [insertFact, Bool.and_false, Bool.false_eq_true, if_false, if_pos room]
  exact ⟨_, rfl, rfl, rfl⟩

theorem insertFacts_room (hash : EavtKey → UInt64) (state : PendingOverlay × List Nat)
    (facts : List Fact) (room : state.1.records.length + facts.length ≤ 2 ^ 32) :
    ∃ after, insertFacts hash false state facts = (none, after) ∧
      after.1.records = state.1.records ++ facts := by
  induction facts generalizing state with
  | nil => exact ⟨state, rfl, (append_nil _).symm⟩
  | cons fact facts ih =>
    rw [length_cons] at room
    obtain ⟨next, step, pushed, _⟩ := insertFact_push hash state fact (by omega)
    obtain ⟨after, ran, records⟩ := ih next (by
      rw [pushed, length_append, length_singleton]
      omega)
    refine ⟨after, ?_, by rw [records, pushed, append_assoc, singleton_append]⟩
    rw [insertFacts, step]
    exact ran

theorem half_recorded (hash : EavtKey → UInt64) (fact : Fact) {batch : List Fact}
    (size : batch.length + 1 = 2 ^ 32) : ∃ overlay after,
    run hash [(batch, false)] = .ok overlay ∧
    insertBatchInPlace hash false overlay [fact, fact] =
      (.error "pending overlay exceeds u32 fact identity space", after) ∧
    after.records = overlay.records ++ [fact] ∧ after.eavt = overlay.eavt := by
  obtain ⟨filled, ran, records⟩ := insertFacts_room hash (empty, []) batch (by
    rw [← size]
    change 0 + batch.length ≤ _
    omega)
  have records : filled.1.records = batch := records
  let overlay := filled.1.insertIndexes filled.2
  have stored : overlay.records = batch := records
  obtain ⟨next, step, pushed, index⟩ := insertFact_push hash (overlay, []) fact (by
    rw [stored, ← size]
    exact Nat.lt_succ_self _)
  have full : ¬ next.1.records.length < 2 ^ 32 := by
    rw [pushed, stored, length_append, length_singleton, size]
    exact Nat.lt_irrefl _
  have refused : insertFact hash false next fact =
      .error "pending overlay exceeds u32 fact identity space" := by
    simp only [insertFact, Bool.and_false, Bool.false_eq_true, if_false, if_neg full]
  refine ⟨overlay, next.1, ?_, ?_, pushed, index⟩
  · rw [run, foldlM_cons, insertBatch, insertFacts_foldlM, ran]
    rfl
  · rw [insertBatchInPlace, insertFacts, step]
    dsimp only
    rw [insertFacts, refused]

theorem failed_batch_half_recorded : ∃ overlay after,
    run (fun _ => 0) [(List.replicate (2 ^ 32 - 1) noFact, false)] = .ok overlay ∧
    insertBatchInPlace (fun _ => 0) false overlay [noFact, noFact] =
      (.error "pending overlay exceeds u32 fact identity space", after) ∧
    after.records = overlay.records ++ [noFact] ∧ after.eavt = overlay.eavt := by
  refine half_recorded _ noFact ?_
  rw [length_replicate]
  decide

end PendingOverlay

end ViciaDb
