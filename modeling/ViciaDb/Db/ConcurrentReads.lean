import ViciaDb.Db.TxNumbers
import ViciaDb.Query.AccessPlan

namespace ViciaDb

open List

inductive CommitStep where
  | allocate
  | append
  | load (fact : Fact)
  | checkpoint
  deriving DecidableEq

structure SharedStore where
  txCounter : UInt64
  log : FactLog

def SharedStore.apply (store : SharedStore) : CommitStep → SharedStore
  | .allocate => { store with txCounter := store.txCounter + 1 }
  | .append => store
  | .load fact => { store with log := ⟨store.log.committed, loadFact store.log.pending fact⟩ }
  | .checkpoint => { store with log := ⟨store.log.committed ++ store.log.pending, []⟩ }

def commitSteps (entry : Wal.WalEntry) (checkpoints : Bool) : List CommitStep :=
  [.allocate, .append] ++ entry.facts.map .load ++ if checkpoints then [.checkpoint] else []

inductive PlannedRead where
  | all
  | lookup (asked : QueryLookup)
  deriving DecidableEq, Repr

def QueryAccessPlan.reads : QueryAccessPlan → List PlannedRead
  | .fullScan => [.all]
  | .selective lookups => lookups.map PlannedRead.lookup

def PlannedRead.on (log : FactLog) (maxFacts : Nat) : PlannedRead → Except String (List Fact)
  | .all => getAllFactsBounded log maxFacts
  | .lookup asked => asked.read log maxFacts

/-- A query on its way through the reads of its plan. What a single read returns is taken as it
    is. -/
structure QueryReader where
  plan : QueryAccessPlan
  maxFacts : Nat
  todo : List PlannedRead
  gathered : Except String (List Fact)

def QueryReader.start (plan : QueryAccessPlan) (maxFacts : Nat) : QueryReader :=
  ⟨plan, maxFacts, plan.reads, .ok []⟩

def QueryReader.step (log : FactLog) (reader : QueryReader) : QueryReader :=
  match reader.todo with
  | [] => reader
  | read :: todo =>
    { reader with
      todo
      gathered := do
        let facts ← reader.gathered
        let candidates ← read.on log reader.maxFacts
        if reader.plan.reads.length = 1 then return candidates
        else addCandidates reader.maxFacts facts candidates }

def QueryReader.Saw (reader : QueryReader) (seen : List Fact) : Prop :=
  reader.todo = [] ∧ reader.gathered = .ok seen

inductive Actor where
  | writer
  | reader (index : Nat)
  deriving DecidableEq, Repr

structure Interleaving where
  store : SharedStore
  writer : List CommitStep
  readers : List QueryReader

def Interleaving.step (s : Interleaving) : Actor → Interleaving
  | .writer =>
    match s.writer with
    | [] => s
    | next :: rest => { s with store := s.store.apply next, writer := rest }
  | .reader index => { s with readers := s.readers.modify index (QueryReader.step s.store.log) }

def Interleaving.run (s : Interleaving) (schedule : List Actor) : Interleaving :=
  schedule.foldl step s

def Interleaving.begin (handle : Handle) (committed : List Fact) (entry : Wal.WalEntry)
    (checkpoints : Bool) (queries : List (QueryAccessPlan × Nat)) : Interleaving where
  store := ⟨handle.txCounter, ⟨committed, handle.pending⟩⟩
  writer := commitSteps entry checkpoints
  readers := queries.map fun query => .start query.1 query.2

def PlannedRead.asksFor (fact : Fact) : PlannedRead → Bool
  | .all => true
  | .lookup (.entity id) => decide (fact.entity = id)
  | .lookup (.attr name) => decide (fact.attr = name)

def QueryAccessPlan.asksFor (plan : QueryAccessPlan) (fact : Fact) : Bool :=
  plan.reads.any (·.asksFor fact)

def Sees (seen : List Fact) (fact : Fact) : Prop := ∃ g ∈ seen, g.sameRecord fact = true

instance (seen : List Fact) (fact : Fact) : Decidable (Sees seen fact) :=
  inferInstanceAs (Decidable (∃ g ∈ seen, _))

def SeesNoneOrAll (plan : QueryAccessPlan) (facts seen : List Fact) : Prop :=
  (∀ f ∈ facts, plan.asksFor f = true → ¬ Sees seen f) ∨
    ∀ f ∈ facts, plan.asksFor f = true → Sees seen f

instance (plan : QueryAccessPlan) (facts seen : List Fact) :
    Decidable (SeesNoneOrAll plan facts seen) := inferInstanceAs (Decidable (_ ∨ _))

def CommitsAtomically (handle : Handle) (committed : List Fact) (entry : Wal.WalEntry)
    (checkpoints : Bool) : Prop :=
  ∀ queries schedule, ∀ reader ∈
      ((Interleaving.begin handle committed entry checkpoints queries).run schedule).readers,
    ∀ seen, reader.Saw seen → SeesNoneOrAll reader.plan entry.facts seen

section Atomicity

variable {handle : Handle} {committed : List Fact} {txId : UInt64} {batch : Batch}

theorem seesNoneOrAll_of_one {facts : List Fact} (one : ∀ f ∈ facts, ∀ g ∈ facts, f.sameRecord g = true)
    (plan : QueryAccessPlan) (seen : List Fact) : SeesNoneOrAll plan facts seen := by
  by_cases some : ∃ f ∈ facts, Sees seen f
  · right
    intro g inFacts _
    obtain ⟨f, member, h, inSeen, same⟩ := some
    exact ⟨h, inSeen, Fact.sameRecord_trans same (one f member g inFacts)⟩
  · left
    exact fun f member _ sees => some ⟨f, member, sees⟩

def betweenInserts : List Actor := [.writer, .writer, .writer, .reader 0]

theorem run_betweenInserts {entry : Wal.WalEntry} {first : Fact} {rest : List Fact}
    (facts : entry.facts = first :: rest) (checkpoints : Bool) (maxFacts : Nat)
    (enough : committed.length + (loadFact handle.pending first).length ≤ maxFacts) :
    ((Interleaving.begin handle committed entry checkpoints [(.fullScan, maxFacts)]).run
      betweenInserts).readers =
      [⟨.fullScan, maxFacts, [], .ok (committed ++ loadFact handle.pending first)⟩] := by
  have scan : getAllFactsBounded ⟨committed, loadFact handle.pending first⟩ maxFacts =
      .ok (committed ++ loadFact handle.pending first) := by
    rw [getAllFactsBounded, if_neg]
    · rfl
    · simpa [FactLog.records] using enough
  simp only [Interleaving.begin, Interleaving.run, betweenInserts, commitSteps, facts,
    foldl_cons, foldl_nil, Interleaving.step, map_cons, map_nil,
    cons_append, nil_append, SharedStore.apply, modify_zero_cons, QueryReader.step,
    QueryReader.start, QueryAccessPlan.reads, PlannedRead.on, scan]
  rfl

/-- A commit is atomic for the queries beside it exactly when it stores one record: a scan may come
    between two inserts. -/
theorem commitsAtomically_iff (checkpoints : Bool)
    (older : ∀ g ∈ committed ++ handle.pending, g.txCount < handle.nextTxCount) :
    CommitsAtomically handle committed (handle.entry txId batch) checkpoints ↔
      ∀ f ∈ (handle.entry txId batch).facts, ∀ g ∈ (handle.entry txId batch).facts,
        f.sameRecord g = true := by
  constructor
  · intro atomic
    cases facts : (handle.entry txId batch).facts with
    | nil => simp
    | cons first rest =>
      have stamped := @entry_stamped handle txId batch
      have readers := @run_betweenInserts handle committed _ _ _ facts checkpoints _ (Nat.le_refl _)
      have outcome := atomic _ betweenInserts _ (by rw [readers]; exact mem_singleton_self _) _
        ⟨rfl, rfl⟩
      rw [facts] at outcome stamped
      have seesFirst : Sees (committed ++ loadFact handle.pending first) first := by
        obtain ⟨g, member, same⟩ := loadFact_mem handle.pending first first (.inr rfl)
        exact ⟨g, mem_append_right _ member, same⟩
      rcases outcome with none | all
      · exact absurd seesFirst (none first mem_cons_self rfl)
      -- everything seen is older or the first fact, so every fact has its record
      have isFirst : ∀ g ∈ first :: rest, first.sameRecord g = true := by
        intro g inFacts
        obtain ⟨h, seen, same⟩ := all g inFacts rfl
        have old : h ∈ committed ++ handle.pending ∨ h = first := by
          rcases mem_append.mp seen with seen | seen
          · exact .inl (mem_append_left _ seen)
          · exact (mem_loadFact seen).imp_left (mem_append_right _)
        rcases old with old | rfl
        · have less := older h old
          rw [← stamped g inFacts, ← sameRecord_txCount same] at less
          exact absurd less (UInt64.lt_irrefl _)
        · exact same
      intro f inFacts g inFacts'
      exact Fact.sameRecord_trans (Fact.sameRecord_symm (isFirst f inFacts)) (isFirst g inFacts')
  · intro one queries schedule reader member seen saw
    exact seesNoneOrAll_of_one one reader.plan seen

theorem commitsAtomically_iff_oneFact : CommitsAtomically ⟨[], 0, false, 0, false⟩ []
      (Handle.entry ⟨[], 0, false, 0, false⟩ 1000 (agesBatch 1 30)) false :=
  (commitsAtomically_iff false (by simp)).mpr (by decide)

def twoAges : Batch where
  facts := (agesBatch 1 30).facts ++ (agesBatch 2 40).facts
  fits := by decide

/-- A scan during the commit of two facts into a new database returns one of them. -/
theorem twoAges_seen_in_part : ∃ reader ∈ ((Interleaving.begin ⟨[], 0, false, 0, false⟩ []
        (Handle.entry ⟨[], 0, false, 0, false⟩ 1000 twoAges) false
        [(.fullScan, 100)]).run betweenInserts).readers,
      ∃ seen, reader.Saw seen ∧ seen.map Fact.entity = [1] ∧
        ¬ SeesNoneOrAll reader.plan
          (Handle.entry ⟨[], 0, false, 0, false⟩ 1000 twoAges).facts seen := by
  rw [run_betweenInserts rfl false 100 (by decide)]
  exact ⟨_, mem_singleton_self _, _, ⟨rfl, rfl⟩, by decide, by decide⟩

end Atomicity

end ViciaDb
