import ViciaDb.Db.TxNumbers
import ViciaDb.Graph.Temporal

namespace ViciaDb

open Wal List
open UInt64 (le_of_lt le_refl le_trans zero_le)

section Model

structure TxState where
  committed : List Fact
  lastCheckpointedTxCount : UInt64
  log : List WalEntry
  pending : List Fact
  txCounter : UInt64

/-- `tx_id_now` reads the clock. A failed append uses a count up, a checkpoint may die before it deletes
    the log, and a restart finds the log or a part of it. -/
inductive TxStep where
  | transact (reading : UInt64) (batch : Batch)
  | failedAppend
  | checkpoint (deletesLog : Bool)
  | restart (kept : Nat)

namespace TxState

def initial : TxState := ⟨[], 0, [], [], 0⟩

def handle (s : TxState) : Handle := ⟨s.pending, s.txCounter, true, s.log.length, true⟩

def contents (s : TxState) : List Fact := s.committed ++ s.pending

def restart (s : TxState) (kept : Nat) : TxState :=
  let entries := (s.log.take kept).filter fun entry => decide (s.lastCheckpointedTxCount < entry.txCount)
  let pending := loadFacts [] (entries.flatMap WalEntry.facts)
  { s with
    log := s.log.take kept
    pending
    txCounter := if maxTxCount pending < s.lastCheckpointedTxCount then s.lastCheckpointedTxCount
      else maxTxCount pending }

def step (s : TxState) : TxStep → TxState
  | .transact reading batch =>
    let entry := s.handle.entry reading batch
    { s with
      log := s.log ++ [entry]
      pending := loadFacts s.pending entry.facts
      txCounter := s.txCounter + 1 }
  | .failedAppend => { s with txCounter := s.txCounter + 1 }
  | .checkpoint deletesLog =>
    { s with
      committed := s.committed ++ s.pending
      lastCheckpointedTxCount := s.txCounter
      log := if deletesLog then [] else s.log
      pending := [] }
  | .restart kept => s.restart kept

def run (steps : List TxStep) : TxState := steps.foldl step initial

end TxState

def TxStep.reading? : TxStep → Option UInt64
  | .transact reading _ => some reading
  | _ => none

structure PrefixViews (facts : List Fact) : Prop where
  closed : ∀ (t : Int64), ∀ f ∈ facts, ∀ g ∈ facts, g.txCount < f.txCount →
    (AsOf.timestamp t).admits f = true → (AsOf.timestamp t).admits g = true
  counted : ∀ t, ∃ n, filterFactsAsOf facts (.timestamp t) = filterFactsAsOf facts (.counter n)

end Model

section Views

structure Chronological (facts : List Fact) : Prop where
  ordered : ∀ f ∈ facts, ∀ g ∈ facts, f.txCount ≤ g.txCount → f.txId ≤ g.txId
  positive : ∀ f ∈ facts, 0 < f.txCount

theorem AsOf.admits_timestamp {t : Int64} {f g : Fact} (earlier : g.txId ≤ f.txId)
    (admits : (AsOf.timestamp t).admits f = true) : (AsOf.timestamp t).admits g = true := by
  simp only [AsOf.admits, decide_eq_true_eq] at admits ⊢
  exact le_trans earlier admits

theorem maxTxCount_foldl_attained (facts : List Fact) (start : UInt64) :
    facts.foldl (fun m f => if m < f.txCount then f.txCount else m) start = start ∨
      ∃ f ∈ facts, f.txCount = facts.foldl (fun m f => if m < f.txCount then f.txCount else m) start := by
  induction facts generalizing start with
  | nil => exact .inl rfl
  | cons fact facts ih =>
    rw [foldl_cons]
    rcases ih (if start < fact.txCount then fact.txCount else start) with same | ⟨f, member, same⟩
    · by_cases less : start < fact.txCount
      · right
        rw [if_pos less] at same ⊢
        exact ⟨fact, mem_cons_self, same.symm⟩
      · left
        rw [if_neg less] at same ⊢
        exact same
    · exact .inr ⟨f, mem_cons_of_mem _ member, same⟩

theorem maxTxCount_attained (facts : List Fact) :
    maxTxCount facts = 0 ∨ ∃ f ∈ facts, f.txCount = maxTxCount facts :=
  maxTxCount_foldl_attained facts 0

theorem Chronological.prefixViews {facts : List Fact} (chronological : Chronological facts) :
    PrefixViews facts := by
  obtain ⟨ordered, positive⟩ := chronological
  refine ⟨fun t f f' g g' less => AsOf.admits_timestamp (ordered g g' f f' (le_of_lt less)),
    fun t => ⟨maxTxCount (filterFactsAsOf facts (.timestamp t)), ?_⟩⟩
  refine filter_congr fun f member => ?_
  rw [Bool.eq_iff_iff]
  constructor
  · intro admits
    exact decide_eq_true (le_maxTxCount (mem_filter.mpr ⟨member, admits⟩))
  intro counted
  have below : f.txCount ≤ maxTxCount (filterFactsAsOf facts (.timestamp t)) :=
    of_decide_eq_true counted
  rcases maxTxCount_attained (filterFactsAsOf facts (.timestamp t)) with none | ⟨g, seen, last⟩
  · rw [none] at below
    exact absurd (positive f member) (UInt64.not_lt.mpr below)
  · obtain ⟨member', admits⟩ := mem_filter.mp seen
    rw [← last] at below
    exact AsOf.admits_timestamp (ordered f member g member' below) admits

end Views

section Runs

namespace TxState

variable {s : TxState} {now : UInt64} {count : Nat}

def everything (s : TxState) : List Fact := s.contents ++ s.log.flatMap WalEntry.facts

structure Clocked (s : TxState) (now : UInt64) (count : Nat) : Prop where
  chronological : Chronological s.everything
  past : ∀ f ∈ s.everything, f.txId ≤ now
  numbered : ∀ f ∈ s.everything, f.txCount ≤ s.txCounter
  saved : ∀ f ∈ s.committed, f.txCount ≤ s.lastCheckpointedTxCount
  last : s.lastCheckpointedTxCount ≤ s.txCounter
  stamped : ∀ e ∈ s.log, ∀ f ∈ e.facts, f.txCount = e.txCount
  few : s.txCounter.toNat ≤ count

theorem mem_everything {f : Fact} : f ∈ s.everything ↔
    f ∈ s.committed ∨ f ∈ s.pending ∨ ∃ e ∈ s.log, f ∈ e.facts := by
  simp [everything, contents]

section

variable (clocked : s.Clocked now count)
include clocked

theorem Clocked.transact {reading : UInt64} (later : now ≤ reading) (batch : Batch)
    (more : count < 2 ^ 64 - 1) : (s.step (.transact reading batch)).Clocked reading (count + 1) := by
  have few := clocked.few
  obtain ⟨next, grows⟩ := nextTxCount_eq (show s.handle.txCounter.toNat < 2 ^ 64 - 1 by
    show s.txCounter.toNat < _
    omega)
  have grows : s.txCounter < s.txCounter + 1 := grows
  have stamp : ∀ f ∈ (s.handle.entry reading batch).facts,
      f.txCount = s.txCounter + 1 ∧ f.txId = reading := by
    intro f member
    obtain ⟨g, -, rfl⟩ := mem_map.mp member
    exact ⟨next, rfl⟩
  have origin : ∀ f ∈ (s.step (.transact reading batch)).everything,
      f ∈ s.everything ∨ f.txCount = s.txCounter + 1 ∧ f.txId = reading := by
    intro f member
    rcases mem_everything.mp member with saved | waiting | ⟨e, logged, inside⟩
    · exact .inl (mem_everything.mpr (.inl saved))
    · rcases mem_loadFacts waiting with old | new
      · exact .inl (mem_everything.mpr (.inr (.inl old)))
      · exact .inr (stamp f new)
    · rcases mem_append.mp logged with old | new
      · exact .inl (mem_everything.mpr (.inr (.inr ⟨e, old, inside⟩)))
      · rw [mem_singleton.mp new] at inside
        exact .inr (stamp f inside)
  have least : 0 < s.txCounter + 1 := UInt64.lt_of_le_of_lt zero_le grows
  refine ⟨⟨?_, ?_⟩, ?_, ?_, clocked.saved, le_trans clocked.last (le_of_lt grows), ?_, ?_⟩
  · intro f member g member' le
    rcases origin f member with old | ⟨number, rfl⟩
    · rcases origin g member' with old' | ⟨-, time⟩
      · exact clocked.chronological.ordered f old g old' le
      · rw [time]
        exact le_trans (clocked.past f old) later
    · rcases origin g member' with old' | ⟨-, time⟩
      · rw [number] at le
        exact absurd (le_trans le (clocked.numbered g old')) (UInt64.not_le.mpr grows)
      · rw [time]
        exact le_refl _
  · intro f member
    rcases origin f member with old | ⟨number, -⟩
    · exact clocked.chronological.positive f old
    · rw [number]
      exact least
  · intro f member
    rcases origin f member with old | ⟨-, time⟩
    · exact le_trans (clocked.past f old) later
    · rw [time]
      exact le_refl _
  · intro f member
    rcases origin f member with old | ⟨number, -⟩
    · exact le_trans (clocked.numbered f old) (le_of_lt grows)
    · rw [number]
      exact le_refl _
  · intro e logged f inside
    rcases mem_append.mp logged with old | new
    · exact clocked.stamped e old f inside
    · rw [mem_singleton.mp new] at inside ⊢
      exact ((stamp f inside).1).trans next.symm
  · show (s.txCounter + 1).toNat ≤ count + 1
    rw [UInt64.toNat_add, UInt64.toNat_one]
    omega

theorem Clocked.shrink {s' : TxState} (origin : ∀ f ∈ s'.everything, f ∈ s.everything)
    (numbered : ∀ f ∈ s'.everything, f.txCount ≤ s'.txCounter)
    (saved : ∀ f ∈ s'.committed, f.txCount ≤ s'.lastCheckpointedTxCount)
    (last : s'.lastCheckpointedTxCount ≤ s'.txCounter) (log : ∀ e ∈ s'.log, e ∈ s.log)
    (few : s'.txCounter.toNat ≤ count + 1) : s'.Clocked now (count + 1) :=
  ⟨⟨fun f member g member' => clocked.chronological.ordered f (origin f member) g (origin g member'),
    fun f member => clocked.chronological.positive f (origin f member)⟩,
    fun f member => clocked.past f (origin f member), numbered, saved, last,
    fun e logged => clocked.stamped e (log e logged), few⟩

theorem Clocked.failedAppend (more : count < 2 ^ 64 - 1) :
    (s.step .failedAppend).Clocked now (count + 1) := by
  have few := clocked.few
  have next : (s.txCounter + 1).toNat = s.txCounter.toNat + 1 := by
    rw [UInt64.toNat_add, UInt64.toNat_one]
    omega
  have grows : s.txCounter ≤ s.txCounter + 1 := by
    rw [UInt64.le_iff_toNat_le]
    omega
  refine clocked.shrink (fun f member => member) (fun f member => ?_) clocked.saved
    (le_trans clocked.last grows) (fun e logged => logged) ?_
  · exact le_trans (clocked.numbered f member) grows
  · show (s.txCounter + 1).toNat ≤ count + 1
    omega

theorem Clocked.checkpoint (deletesLog : Bool) :
    (s.step (.checkpoint deletesLog)).Clocked now (count + 1) := by
  have log : ∀ e ∈ (s.step (.checkpoint deletesLog)).log, e ∈ s.log := by
    intro e logged
    cases deletesLog with
    | true => cases logged
    | false => exact logged
  have origin : ∀ f ∈ (s.step (.checkpoint deletesLog)).everything, f ∈ s.everything := by
    intro f member
    rcases mem_everything.mp member with saved | waiting | ⟨e, logged, inside⟩
    · rcases mem_append.mp saved with old | new
      · exact mem_everything.mpr (.inl old)
      · exact mem_everything.mpr (.inr (.inl new))
    · cases waiting
    · exact mem_everything.mpr (.inr (.inr ⟨e, log e logged, inside⟩))
  refine clocked.shrink origin (fun f member => clocked.numbered f (origin f member)) ?_
    (le_refl _) log (Nat.le_succ_of_le clocked.few)
  intro f saved
  exact clocked.numbered f (origin f (mem_everything.mpr (.inl saved)))

theorem Clocked.restart (kept : Nat) : (s.step (.restart kept)).Clocked now (count + 1) := by
  have log : ∀ e ∈ (s.restart kept).log, e ∈ s.log := fun e => mem_of_mem_take
  have replayed : ∀ f ∈ (s.restart kept).pending, ∃ e ∈ s.log, f ∈ e.facts := by
    intro f member
    rcases mem_loadFacts member with none | found
    · cases none
    · obtain ⟨e, later, inside⟩ := mem_flatMap.mp found
      exact ⟨e, log e (mem_of_mem_filter later), inside⟩
  have origin : ∀ f ∈ (s.restart kept).everything, f ∈ s.everything := by
    intro f member
    rcases mem_everything.mp member with saved | waiting | ⟨e, logged, inside⟩
    · exact mem_everything.mpr (.inl saved)
    · exact mem_everything.mpr (.inr (.inr (replayed f waiting)))
    · exact mem_everything.mpr (.inr (.inr ⟨e, log e logged, inside⟩))
  have restored := le_maxTxCount_restored (maxTxCount (s.restart kept).pending) s.lastCheckpointedTxCount
  have reached : maxTxCount (s.restart kept).pending ≤ (s.restart kept).txCounter := by
    show _ ≤ if _ then _ else _
    split
    · rename_i less
      exact le_of_lt less
    · exact le_refl _
  -- an entry the main file does not cover is replayed, and its record counts
  have numbered : ∀ f ∈ (s.restart kept).everything, f.txCount ≤ (s.restart kept).txCounter := by
    intro f member
    rcases mem_everything.mp member with saved | waiting | ⟨e, logged, inside⟩
    · exact le_trans (clocked.saved f saved) restored
    · exact le_trans (le_maxTxCount waiting) reached
    · by_cases covered : s.lastCheckpointedTxCount < e.txCount
      · have found : e ∈ (s.log.take kept).filter
            fun entry => decide (s.lastCheckpointedTxCount < entry.txCount) :=
          mem_filter.mpr ⟨logged, decide_eq_true covered⟩
        obtain ⟨g, loaded, same⟩ := loadFacts_mem [] _ f (.inr (mem_flatMap.mpr ⟨e, found, inside⟩))
        rw [← sameRecord_txCount same]
        exact le_trans (le_maxTxCount loaded) reached
      · rw [clocked.stamped e (log e logged) f inside]
        exact le_trans (UInt64.not_lt.mp covered) restored
  refine clocked.shrink origin numbered clocked.saved restored log (Nat.le_succ_of_le ?_)
  refine Nat.le_trans ?_ clocked.few
  rw [← UInt64.le_iff_toNat_le]
  show (if _ then _ else _) ≤ s.txCounter
  split
  · exact clocked.last
  show maxTxCount (s.restart kept).pending ≤ s.txCounter
  rcases maxTxCount_attained (s.restart kept).pending with none | ⟨g, loaded, last⟩
  · rw [none]
    exact zero_le
  · rw [← last]
    exact clocked.numbered g (mem_everything.mpr (.inr (.inr (replayed g loaded))))

end

theorem clocked_initial : initial.Clocked 0 0 := by
  refine ⟨⟨?_, ?_⟩, ?_, ?_, ?_, le_refl _, ?_, Nat.le_refl _⟩ <;>
    simp [initial, everything, contents]

theorem Clocked.run (clocked : s.Clocked now count) (steps : List TxStep)
    (clock : (now :: steps.filterMap TxStep.reading?).Pairwise (· ≤ ·))
    (more : count + steps.length < 2 ^ 64) :
    ∃ now', (steps.foldl step s).Clocked now' (count + steps.length) := by
  induction steps generalizing s now count with
  | nil => exact ⟨now, clocked⟩
  | cons next steps ih =>
    rw [length_cons] at more
    have rest : ∃ now', (s.step next).Clocked now' (count + 1) ∧
        (now' :: steps.filterMap TxStep.reading?).Pairwise (· ≤ ·) := by
      cases next with
      | transact reading batch =>
        rw [filterMap_cons, TxStep.reading?] at clock
        obtain ⟨later, clock⟩ := pairwise_cons.mp clock
        exact ⟨reading, clocked.transact (later _ mem_cons_self) batch (by omega), clock⟩
      | failedAppend => exact ⟨now, clocked.failedAppend (by omega), clock⟩
      | checkpoint deletesLog => exact ⟨now, clocked.checkpoint deletesLog, clock⟩
      | restart kept => exact ⟨now, clocked.restart kept, clock⟩
    obtain ⟨now', clocked', clock'⟩ := rest
    obtain ⟨now'', done⟩ := ih clocked' clock' (by omega)
    exact ⟨now'', by rwa [length_cons, Nat.add_comm steps.length, ← Nat.add_assoc]⟩

end TxState

/-- Timestamps cut the history where counts do as long as the clock does not go back. -/
theorem prefixViews_of_monotone_clock (steps : List TxStep)
    (clock : (steps.filterMap TxStep.reading?).Pairwise (· ≤ ·)) (few : steps.length < 2 ^ 64) :
    PrefixViews (TxState.run steps).contents := by
  obtain ⟨now, clocked⟩ := TxState.clocked_initial.run steps
    (pairwise_cons.mpr ⟨fun reading _ => zero_le, clock⟩) (by omega)
  refine Chronological.prefixViews ⟨fun f member g member' => ?_, fun f member => ?_⟩
  · exact clocked.chronological.ordered f (mem_append_left _ member) g (mem_append_left _ member')
  · exact clocked.chronological.positive f (mem_append_left _ member)

theorem prefixViews_of_monotone_clock_restart :
    PrefixViews (TxState.run [.transact 50 (agesBatch 1 30), .checkpoint true,
      .transact 100 (agesBatch 2 40), .restart 1]).contents :=
  prefixViews_of_monotone_clock _ (by decide) (by decide)

/-- The clock is set back between two transactions. -/
theorem later_transaction_alone :
    let steps := [.transact 100 (agesBatch 1 30), .transact 50 (agesBatch 2 40)]
    (filterFactsAsOf (TxState.run steps).contents (.timestamp 60)).map (fun f => f.txCount) = [2] ∧
      ¬ PrefixViews (TxState.run steps).contents := by
  refine ⟨by decide, fun views => ?_⟩
  have closed := views.closed 60 (stampFact 50 2 ((agesBatch 2 40).facts.head (by decide))) (by decide)
    (stampFact 100 1 ((agesBatch 1 30).facts.head (by decide))) (by decide)
  exact absurd (closed (by decide) (by decide)) (by decide)

end Runs

end ViciaDb
