import ViciaDb.Db.Recovery
import ViciaDb.Lib.ExceptList

namespace ViciaDb

open ByteReader Wal Option List
open UInt64 (le_of_lt le_refl le_trans)

variable {codec : Codec}

def NumbersIncrease (attempts : List Attempt) : Prop :=
  attempts.Pairwise fun earlier later =>
    earlier.outcome = .acknowledged → earlier.entry.txCount < later.entry.txCount

instance (attempts : List Attempt) : Decidable (NumbersIncrease attempts) :=
  inferInstanceAs (Decidable (List.Pairwise _ _))

def Event.recordsFacts : Event → Bool
  | .write _ batch .completes => !batch.facts.isEmpty
  | _ => true

structure Numbered (s : System) : Prop where
  increase : NumbersIncrease s.attempts
  stamped : ∀ a ∈ s.attempts, ∀ f ∈ a.entry.facts, f.txCount = a.entry.txCount
  records : ∀ a ∈ s.attempts, a.outcome = .acknowledged → a.entry.facts ≠ []
  saved : ∀ f ∈ s.disk.committed, f.txCount ≤ s.disk.lastCheckpointedTxCount
  pending : ∀ handle, s.handle = some handle → ∀ f ∈ handle.pending, f.txCount ≤ handle.txCounter

theorem numbered_initial : Numbered System.initial := by
  refine ⟨.nil, ?_, ?_, ?_, ?_⟩ <;> simp [System.initial]

section Counter

variable {s : System} {handle : Handle}

theorem le_maxTxCount_foldl (facts : List Fact) (start : UInt64) :
    start ≤ facts.foldl (fun m f => if m < f.txCount then f.txCount else m) start ∧
      ∀ f ∈ facts, f.txCount ≤ facts.foldl (fun m f => if m < f.txCount then f.txCount else m) start := by
  induction facts generalizing start with
  | nil => simp
  | cons fact facts ih =>
    rw [foldl_cons, forall_mem_cons]
    obtain ⟨first, rest⟩ := ih (if start < fact.txCount then fact.txCount else start)
    have both : start ≤ (if start < fact.txCount then fact.txCount else start) ∧
        fact.txCount ≤ if start < fact.txCount then fact.txCount else start := by
      split
      · rename_i less
        exact ⟨le_of_lt less, le_refl _⟩
      · rename_i notLess
        exact ⟨le_refl _, UInt64.not_lt.mp notLess⟩
    exact ⟨le_trans both.1 first, le_trans both.2 first, rest⟩

theorem le_maxTxCount {facts : List Fact} {f : Fact} (member : f ∈ facts) :
    f.txCount ≤ maxTxCount facts :=
  (le_maxTxCount_foldl facts 0).2 f member

theorem Numbered.le_txCounter (numbered : Numbered s) (consistent : Consistent codec s)
    (isOpen : s.handle = some handle) {a : Attempt} (attempted : a ∈ s.attempts)
    (acknowledged : a.outcome = .acknowledged) : a.entry.txCount ≤ handle.txCounter := by
  obtain ⟨kept, logged, tail, accounts, loaded⟩ := consistent
  obtain ⟨f, fact⟩ := exists_mem_of_ne_nil _ (numbered.records a attempted acknowledged)
  have present : ∃ g ∈ s.disk.committed ++ handle.pending, g.sameRecord f := by
    rcases accounts.covered a attempted acknowledged with inside | inside
    · obtain ⟨g, member, same⟩ := accounts.committed.1 a inside f fact
      exact ⟨g, mem_append_left _ member, same⟩
    · exact (loaded handle isOpen).present a inside f fact
  obtain ⟨g, member, same⟩ := present
  rw [← numbered.stamped a attempted f fact, ← sameRecord_txCount same]
  rcases mem_append.mp member with member | member
  · exact le_trans (numbered.saved g member) (loaded handle isOpen).counter
  · exact numbered.pending handle isOpen g member

end Counter

theorem entry_stamped {handle : Handle} {txId : UInt64} {batch : Batch} :
    ∀ f ∈ (handle.entry txId batch).facts, f.txCount = handle.nextTxCount := by
  intro f member
  obtain ⟨g, -, rfl⟩ := mem_map.mp member
  rfl

section Steps

variable {s s' : System} {handle : Handle} {txId : UInt64} {batch : Batch}

theorem Numbered.attempt (numbered : Numbered s) (consistent : Consistent codec s)
    (isOpen : s.handle = some handle) (counts : handle.txCounter.toNat < 2^64 - 1) {disk : Disk}
    (committed : disk.committed = s.disk.committed)
    (last : disk.lastCheckpointedTxCount = s.disk.lastCheckpointedTxCount) (outcome : Outcome)
    (records : outcome = .acknowledged → batch.facts ≠ []) {after : Option Handle}
    (pending : ∀ handle', after = some handle' → handle'.txCounter = handle.txCounter + 1 ∧
      ∀ f ∈ handle'.pending, f ∈ handle.pending ∨ f ∈ (handle.entry txId batch).facts) (syncedLen : Nat) :
    Numbered ⟨disk, after, syncedLen, s.attempts ++ [⟨handle.entry txId batch, outcome⟩]⟩ := by
  obtain ⟨isNext, grows⟩ := nextTxCount_eq counts
  refine ⟨?_, ?_, ?_, ?_, ?_⟩
  · refine pairwise_append.mpr ⟨numbered.increase, pairwise_singleton _ _, ?_⟩
    intro a attempted b isNew acknowledged
    rw [mem_singleton.mp isNew]
    change a.entry.txCount < handle.nextTxCount
    rw [isNext]
    exact UInt64.lt_of_le_of_lt (numbered.le_txCounter consistent isOpen attempted acknowledged) grows
  · intro a attempted f fact
    rcases mem_append.mp attempted with attempted | isNew
    · exact numbered.stamped a attempted f fact
    · rw [mem_singleton.mp isNew] at fact ⊢
      exact entry_stamped f fact
  · intro a attempted acknowledged
    rcases mem_append.mp attempted with attempted | isNew
    · exact numbered.records a attempted acknowledged
    · rw [mem_singleton.mp isNew] at acknowledged ⊢
      exact fun none => records acknowledged (map_eq_nil_iff.mp none)
  · rw [committed, last]
    exact numbered.saved
  · intro handle' isAfter f member
    obtain ⟨counter, origin⟩ := pending handle' isAfter
    rw [counter]
    rcases origin f member with old | new
    · exact le_trans (numbered.pending handle isOpen f old) (le_of_lt grows)
    · rw [entry_stamped f new, isNext]
      exact le_refl _

theorem Numbered.crash (numbered : Numbered s) {cut : Nat} (crashes : s.crash cut = some s') :
    Numbered s' := by
  unfold System.crash at crashes
  split at crashes
  · cases crashes
    exact ⟨numbered.increase, numbered.stamped, numbered.records, numbered.saved, by simp⟩
  · cases crashes

theorem Numbered.save (numbered : Numbered s) (isOpen : s.handle = some handle)
    (counter : s.disk.lastCheckpointedTxCount ≤ handle.txCounter) :
    ∀ f ∈ (saveFacts handle s.disk).committed,
      f.txCount ≤ (saveFacts handle s.disk).lastCheckpointedTxCount := by
  intro f member
  rcases mem_append.mp member with member | member
  · exact le_trans (numbered.saved f member) counter
  · exact numbered.pending handle isOpen f member

theorem openDb_numbers {disk disk' : Disk} (opened : openDb codec disk = .ok (handle, disk')) :
    disk'.committed = disk.committed ∧
      disk'.lastCheckpointedTxCount = disk.lastCheckpointedTxCount ∧
      ∀ f ∈ handle.pending, f.txCount ≤ handle.txCounter := by
  unfold openDb replayWal at opened
  cases wal : disk.wal with
  | none =>
    simp only [wal, bind, Except.bind, pure, Except.pure, Except.ok.injEq, Prod.mk.injEq] at opened
    obtain ⟨rfl, rfl⟩ := opened
    exact ⟨rfl, rfl, by simp⟩
  | some file =>
    simp only [wal, Except.bind_eq_ok_iff, pure, Except.pure, Except.ok.injEq] at opened
    obtain ⟨_, ⟨_, -, rfl⟩, file', -, result⟩ := opened
    cases result
    refine ⟨rfl, rfl, fun f member => ?_⟩
    have below := le_maxTxCount member
    split
    · rename_i less
      exact le_trans below (le_of_lt less)
    · exact below

theorem Numbered.step (numbered : Numbered s) (consistent : Consistent codec s) {event : Event}
    (safe : careful codec s event = true) (records : event.recordsFacts = true)
    (steps : ViciaDb.step codec s event = some s') : Numbered s' := by
  obtain ⟨kept, logged, tail, accounts, loaded⟩ := consistent
  have consistent : Consistent codec s := ⟨kept, logged, tail, accounts, loaded⟩
  cases event with
  | opens =>
    simp only [ViciaDb.step] at steps
    split at steps
    · rename_i opened
      cases steps
      obtain ⟨committed, last, pending⟩ := openDb_numbers opened
      refine ⟨numbered.increase, numbered.stamped, numbered.records, ?_, ?_⟩
      · rw [committed, last]
        exact numbered.saved
      · rintro _ ⟨⟩
        exact pending
    · cases steps
  | crash cut => exact numbered.crash steps
  | write txId batch io =>
    obtain ⟨handle, isOpen, ⟨⟩⟩ := bind_eq_some_iff.mp steps
    obtain ⟨wrote, frame⟩ := executeWrite_wrote txId batch io accounts.file (loaded handle isOpen).opened
    simp only [careful, isOpen, Bool.and_eq_true, decide_eq_true_eq] at safe
    rcases hr : executeWrite codec handle s.disk txId batch io with ⟨result, handle', disk'⟩
    rw [hr] at wrote frame
    simp only [System.write, hr]
    generalize hp : handle'.pending = pending' at wrote
    generalize hw : disk'.wal = wal' at wrote
    cases wrote with
    | nothing file | part serialized body fails =>
      refine numbered.attempt consistent isOpen safe.1 frame.committed frame.lastCheckpointed _ (by simp) ?_ _
      rintro _ ⟨⟩
      exact ⟨frame.txCounter, fun f member => .inl (hp ▸ member)⟩
    | all serialized body completes =>
      subst completes
      refine numbered.attempt consistent isOpen safe.1 frame.committed frame.lastCheckpointed _
        (fun _ => by simpa [Event.recordsFacts] using records) ?_ _
      rintro _ ⟨⟩
      exact ⟨frame.txCounter, fun f member => mem_loadFacts (hp ▸ member)⟩
  | checkpoint =>
    obtain ⟨handle, isOpen, ⟨⟩⟩ := bind_eq_some_iff.mp steps
    cases idle : nothingToFlush handle with
    | true =>
      simp only [System.checkpoint, doCheckpoint, idle, ↓reduceIte]
      exact ⟨numbered.increase, numbered.stamped, numbered.records, numbered.saved, isOpen ▸ numbered.pending⟩
    | false =>
      simp only [System.checkpoint, doCheckpoint, idle, Bool.false_eq_true, ↓reduceIte]
      refine ⟨numbered.increase, numbered.stamped, numbered.records,
        numbered.save isOpen (loaded handle isOpen).counter, ?_⟩
      rintro _ ⟨⟩
      simp
  | crashInWrite txId batch io cut =>
    obtain ⟨handle, isOpen, crashes⟩ := bind_eq_some_iff.mp steps
    obtain ⟨-, frame⟩ := executeWrite_wrote txId batch io accounts.file (loaded handle isOpen).opened
    simp only [careful, isOpen, Bool.and_eq_true, decide_eq_true_eq] at safe
    refine Numbered.crash ?_ crashes
    exact numbered.attempt consistent isOpen safe.1 frame.committed frame.lastCheckpointed
      .interrupted (by simp) (by simp) _
  | crashInCheckpoint cut =>
    obtain ⟨handle, isOpen, crashes⟩ := bind_eq_some_iff.mp steps
    refine Numbered.crash ?_ crashes
    refine ⟨numbered.increase, numbered.stamped, numbered.records, ?_, by simp [System.interruptCheckpoint]⟩
    simp only [System.interruptCheckpoint]
    split
    · exact numbered.saved
    · exact numbered.save isOpen (loaded handle isOpen).counter

theorem Numbered.run (roundTrips : codec.RoundTrips) (numbered : Numbered s) (consistent : Consistent codec s)
    (events : List Event) (safe : carefulRun codec s events = true)
    (records : events.all Event.recordsFacts = true) (runs : ViciaDb.run codec s events = some s') :
    Numbered s' := by
  induction events generalizing s with
  | nil =>
    cases runs
    exact numbered
  | cons event events ih =>
    obtain ⟨next, steps, rest⟩ := bind_eq_some_iff.mp runs
    simp only [carefulRun, steps, Bool.and_eq_true] at safe
    simp only [all_cons, Bool.and_eq_true] at records
    exact ih (numbered.step consistent safe.1 records.1 steps)
      (consistent.step roundTrips safe.1 steps) safe.2 records.2 rest

end Steps

/-- Over every careful run whose completed appends carry facts, each number is handed out after
    all acknowledged ones below it. -/
theorem careful_run_numbersIncrease (roundTrips : codec.RoundTrips) (events : List Event) (s : System)
    (safe : carefulRun codec System.initial events = true) (records : events.all Event.recordsFacts = true)
    (runs : run codec System.initial events = some s) : NumbersIncrease s.attempts :=
  (numbered_initial.run roundTrips consistent_initial events safe records runs).increase

theorem careful_run_numbersIncrease_carefulEvents :
    ∃ s, run Postcard.postcard System.initial carefulEvents = some s ∧ s.attempts.length = 4 ∧
      NumbersIncrease s.attempts := by
  have runs : (run Postcard.postcard System.initial carefulEvents).map
      (fun s => s.attempts.length) = some 4 := by decide +kernel
  obtain ⟨s, ran, count⟩ := map_eq_some_iff.mp runs
  exact ⟨s, ran, count, careful_run_numbersIncrease Postcard.postcard_roundTrips carefulEvents s
    (by decide +kernel) (by decide) ran⟩

def emptyThenCrash : List Event :=
  [.opens, .write 1000 ⟨[], by decide⟩ .completes, .crash 100, .opens,
    .write 1001 (agesBatch 1 30) .completes]

theorem emptyThenCrash_reuses_number :
    carefulRun Postcard.postcard System.initial emptyThenCrash = true ∧
      ∃ s, run Postcard.postcard System.initial emptyThenCrash = some s ∧
        s.attempts.map (fun a => (a.entry.txCount, a.outcome)) =
          [(1, .acknowledged), (1, .acknowledged)] ∧ ¬ NumbersIncrease s.attempts := by
  refine ⟨by decide +kernel, ?_⟩
  have runs : (run Postcard.postcard System.initial emptyThenCrash).map
      (fun s => (s.attempts.map (fun a => (a.entry.txCount, a.outcome)),
        decide (NumbersIncrease s.attempts))) =
      some ([(1, .acknowledged), (1, .acknowledged)], false) := by decide +kernel
  obtain ⟨s, ran, pair⟩ := map_eq_some_iff.mp runs
  obtain ⟨numbers, fails⟩ := Prod.mk.inj pair
  exact ⟨s, ran, numbers, of_decide_eq_false fails⟩

end ViciaDb
