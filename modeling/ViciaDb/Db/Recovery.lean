import ViciaDb.Db.LogFile
import ViciaDb.Wal.Postcard

namespace ViciaDb

open ByteReader Wal List
open Option (bind_eq_bind bind_eq_some_iff)
open ViciaDb (openDb)

variable {codec : Codec}

section WriteStep

inductive Wrote (codec : Codec) (entry : WalEntry) (io : AppendIo) (logged : List Attempt)
    (tail : Bytes) (pending : List Fact) : Except String Unit → List Fact → Option Bytes → Prop
  | nothing {message : String} {wal : Option Bytes} (file : LogFile codec wal logged tail) :
      Wrote codec entry io logged tail pending (.error message) pending wal
  | part {message : String} {file bytes : Bytes}
      (serialized : serializeEntry codec entry.txCount entry.facts = .ok bytes)
      (body : LogBody codec file logged tail) (fails : io ≠ .completes) :
      Wrote codec entry io logged tail pending (.error message) pending
        (some (file ++ writtenBytes bytes io))
  | all {file bytes : Bytes}
      (serialized : serializeEntry codec entry.txCount entry.facts = .ok bytes)
      (body : LogBody codec file logged tail) (completes : io = .completes) :
      Wrote codec entry io logged tail pending (.ok ()) (loadFacts pending entry.facts)
        (some (file ++ writtenBytes bytes io))

structure WriteFrame (handle handle' : Handle) (disk disk' : Disk) : Prop where
  committed : disk'.committed = disk.committed
  lastCheckpointed : disk'.lastCheckpointedTxCount = disk.lastCheckpointedTxCount
  txCounter : handle'.txCounter = handle.txCounter + 1
  opened : handle'.walOpen = true → ∃ file, disk'.wal = some file ∧ walHeaderSize ≤ file.length

variable {handle : Handle} {disk : Disk} {io : AppendIo} {logged : List Attempt} {tail : Bytes}

variable {file : Bytes} {wal : Option Bytes}

theorem appendEntry_wrote {entry : WalEntry} (original handle : Handle)
    (counted : handle.txCounter = original.txCounter + 1) (body : LogBody codec file logged tail) :
    Wrote codec entry io logged tail handle.pending
        (appendEntry codec handle disk file entry io).1
        (appendEntry codec handle disk file entry io).2.1.pending
        (appendEntry codec handle disk file entry io).2.2.wal ∧
      WriteFrame original (appendEntry codec handle disk file entry io).2.1 disk
        (appendEntry codec handle disk file entry io).2.2 := by
  have long := body.length_le
  cases serialized : serializeEntry codec entry.txCount entry.facts with
  | error message =>
    simp only [appendEntry, serialized]
    exact ⟨.nothing (.whole body), ⟨rfl, rfl, counted, fun _ => ⟨file, rfl, long⟩⟩⟩
  | ok bytes =>
    have longer : ∀ written, ∃ file', some (file ++ written) = some file' ∧ walHeaderSize ≤ file'.length :=
      fun written => ⟨_, rfl, by rw [length_append]; omega⟩
    cases io with
    | completes =>
      simp only [appendEntry, serialized]
      exact ⟨.all serialized body rfl, ⟨rfl, rfl, counted, fun _ => longer _⟩⟩
    | appendFails written =>
      simp only [appendEntry, serialized]
      exact ⟨.part serialized body (by simp), ⟨rfl, rfl, counted, fun _ => longer _⟩⟩
    | createFails written =>
      simp only [appendEntry, serialized]
      exact ⟨.nothing (.whole body), ⟨rfl, rfl, counted, fun _ => ⟨file, rfl, long⟩⟩⟩

theorem LogFile.openOrCreate (file : LogFile codec wal logged tail) :
    ∃ opened, Wal.openOrCreate wal = .ok opened ∧ LogBody codec opened logged tail := by
  cases file with
  | absent => exact ⟨walHeader, rfl, .empty⟩
  | short part => exact ⟨walHeader, by simp [Wal.openOrCreate, part], .empty⟩
  | whole body => exact ⟨_, body.openOrCreate, body⟩

theorem LogFile.partialHeader (file : LogFile codec wal logged tail) (written : Nat) :
    LogFile codec (partialHeader written wal) logged tail := by
  have header : LogFile codec (some (walHeader.take written)) [] [] := by
    by_cases part : written < walHeaderSize
    · exact .short (by rw [length_take]; omega)
    · rw [take_of_length_le (by rw [walHeader_length]; omega)]
      exact .whole .empty
  cases file with
  | absent => exact header
  | short part => simpa [ViciaDb.partialHeader, part] using header
  | whole body =>
    simpa [ViciaDb.partialHeader, Nat.not_lt.mpr body.length_le] using LogFile.whole body

theorem LogFile.body_of_long (log : LogFile codec (some file) logged tail)
    (long : walHeaderSize ≤ file.length) : LogBody codec file logged tail := by
  cases log with
  | short part => omega
  | whole body => exact body

theorem executeWrite_wrote (txId : UInt64) (batch : Batch) (io : AppendIo)
    (log : LogFile codec disk.wal logged tail)
    (opened : handle.walOpen = true → ∃ file, disk.wal = some file ∧ walHeaderSize ≤ file.length) :
    Wrote codec (handle.entry txId batch) io logged tail handle.pending
        (executeWrite codec handle disk txId batch io).1
        (executeWrite codec handle disk txId batch io).2.1.pending
        (executeWrite codec handle disk txId batch io).2.2.wal ∧
      WriteFrame handle (executeWrite codec handle disk txId batch io).2.1 disk
        (executeWrite codec handle disk txId batch io).2.2 := by
  cases walOpen : handle.walOpen with
  | true =>
    obtain ⟨file, present, long⟩ := opened walOpen
    rw [present] at log
    simp only [executeWrite, walOpen, present]
    exact appendEntry_wrote handle { handle with txCounter := handle.txCounter + 1, walOpen := true }
      rfl (log.body_of_long long)
  | false =>
    obtain ⟨file, created, body⟩ := log.openOrCreate
    cases io with
    | createFails written =>
      simp only [executeWrite, walOpen]
      exact ⟨.nothing (log.partialHeader written), ⟨rfl, rfl, rfl, fun isOpen => by cases isOpen⟩⟩
    | completes | appendFails written =>
      simp only [executeWrite, walOpen, created]
      exact appendEntry_wrote handle
        { handle with txCounter := handle.txCounter + 1, walOpen := true } rfl body

end WriteStep

section Invariant

structure Accounts (codec : Codec) (s : System) (kept logged : List Attempt) (tail : Bytes) :
    Prop where
  known : ∀ a, a ∈ kept ∨ a ∈ logged → a ∈ s.attempts ∧ a.outcome ≠ .failed
  covered : ∀ a ∈ s.attempts, a.outcome = .acknowledged → a ∈ kept ∨ a ∈ logged
  committed : Holds s.disk.committed kept
  fresh : ∀ a ∈ logged, s.disk.lastCheckpointedTxCount < a.entry.txCount ∨ a ∈ kept
  file : LogFile codec s.disk.wal logged tail
  synced : ∃ first second, logged = first ++ second ∧
    (∀ a ∈ second, a.outcome ≠ .acknowledged) ∧
    (first = [] ∨ walHeaderSize + (encodeAll (entryBytes codec)
      (first.map Attempt.entry)).length ≤ s.syncedLen)

structure Loaded (disk : Disk) (handle : Handle) (logged : List Attempt) : Prop where
  origin : ∀ g ∈ handle.pending, ∃ a ∈ logged, g ∈ a.entry.facts
  present : ∀ a ∈ logged, ∀ f ∈ a.entry.facts,
    ∃ g ∈ disk.committed ++ handle.pending, g.sameRecord f
  counter : disk.lastCheckpointedTxCount ≤ handle.txCounter
  opened : handle.walOpen = true → ∃ file, disk.wal = some file ∧ walHeaderSize ≤ file.length

def Consistent (codec : Codec) (s : System) : Prop :=
  ∃ kept logged tail, Accounts codec s kept logged tail ∧
    ∀ handle, s.handle = some handle → Loaded s.disk handle logged

theorem consistent_initial : Consistent codec System.initial := by
  refine ⟨[], [], [], ⟨?_, ?_, ?_, ?_, .absent, [], [], rfl, ?_, .inl rfl⟩, ?_⟩ <;>
    simp [System.initial, Holds]

variable {s : System} {kept logged : List Attempt} {tail : Bytes}

theorem Holds.append {left right : List Fact} {kept logged : List Attempt}
    (committed : Holds left kept) (origin : ∀ g ∈ right, ∃ a ∈ logged, g ∈ a.entry.facts)
    (present : ∀ a ∈ logged, ∀ f ∈ a.entry.facts, ∃ g ∈ left ++ right, g.sameRecord f) :
    Holds (left ++ right) (kept ++ logged) := by
  constructor
  · intro a member f fact
    rcases mem_append.mp member with member | member
    · obtain ⟨g, found, same⟩ := committed.1 a member f fact
      exact ⟨g, mem_append_left _ found, same⟩
    · exact present a member f fact
  · intro g member
    rcases mem_append.mp member with member | member
    · obtain ⟨a, found, fact⟩ := committed.2 g member
      exact ⟨a, mem_append_left _ found, fact⟩
    · obtain ⟨a, found, fact⟩ := origin g member
      exact ⟨a, mem_append_right _ found, fact⟩

theorem Accounts.cut (accounts : Accounts codec s kept logged tail) (cut : Nat)
    (allowed : s.syncedLen ≤ cut) :
    ∃ logged' tail', Accounts codec { s with disk := s.disk.cutWal cut, handle := none }
      kept logged' tail' := by
  obtain ⟨stay, lost, front, split, file, complete⟩ := accounts.file.cut cut
  obtain ⟨first, second, splitSynced, unacknowledged, bound⟩ := accounts.synced
  have within : first <+: stay := by
    rcases bound with rfl | bound
    · exact nil_prefix
    · exact complete first second splitSynced (Nat.le_trans bound allowed)
  obtain ⟨rest, rfl⟩ := within
  have shorter : rest <+: second := by
    rw [splitSynced, append_assoc, append_cancel_left_eq] at split
    exact ⟨lost, split.symm⟩
  have member : ∀ a ∈ first ++ rest, a ∈ logged := fun a inside => by
    rw [split]; exact mem_append_left _ inside
  refine ⟨first ++ rest, front, ⟨?_, ?_, accounts.committed, ?_, file, first, rest, rfl, ?_, bound⟩⟩
  · exact fun a inside => accounts.known a (inside.imp_right (member a))
  · intro a attempted acknowledged
    refine (accounts.covered a attempted acknowledged).imp_right fun inside => ?_
    rw [splitSynced] at inside
    rcases mem_append.mp inside with inside | inside
    · exact mem_append_left _ inside
    · exact absurd acknowledged (unacknowledged a inside)
  · exact fun a inside => accounts.fresh a (member a inside)
  · exact fun a inside => unacknowledged a (shorter.subset inside)

theorem le_maxTxCount_restored (counter last : UInt64) :
    last ≤ if counter < last then last else counter := by
  split
  · exact UInt64.le_refl last
  · rename_i notLess
    exact UInt64.not_lt.mp notLess

variable {logged : List Attempt}

theorem mem_replayed {last : UInt64} {g : Fact} (member : g ∈ loadFacts [] (((logged.map Attempt.entry).filter
      fun entry => decide (last < entry.txCount)).flatMap WalEntry.facts)) :
    ∃ a ∈ logged, g ∈ a.entry.facts := by
  rcases mem_loadFacts member with member | member
  · cases member
  · obtain ⟨entry, inside, fact⟩ := mem_flatMap.mp member
    obtain ⟨a, attempted, rfl⟩ := mem_map.mp (mem_filter.mp inside).1
    exact ⟨a, attempted, fact⟩

theorem replayed_mem {last : UInt64} {f : Fact} {a : Attempt}
    (attempted : a ∈ logged) (fresh : last < a.entry.txCount) (fact : f ∈ a.entry.facts) :
    ∃ g ∈ loadFacts [] (((logged.map Attempt.entry).filter
      fun entry => decide (last < entry.txCount)).flatMap WalEntry.facts), g.sameRecord f := by
  apply loadFacts_mem
  right
  refine mem_flatMap.mpr ⟨a.entry, mem_filter.mpr ⟨?_, by simpa using fresh⟩, fact⟩
  exact mem_map_of_mem attempted

theorem Accounts.openDb (accounts : Accounts codec s kept logged tail) :
    ∃ handle disk, openDb codec s.disk = .ok (handle, disk) ∧
      disk.committed = s.disk.committed ∧
      disk.lastCheckpointedTxCount = s.disk.lastCheckpointedTxCount ∧
      LogFile codec disk.wal logged tail ∧ Loaded disk handle logged := by
  have log := accounts.file
  have fresh := accounts.fresh
  have committed := accounts.committed
  obtain ⟨disk, _, _, _⟩ := s
  obtain ⟨facts, last, wal⟩ := disk
  cases log with
  | absent =>
    refine ⟨_, _, rfl, rfl, rfl, .absent, ⟨?_, ?_, UInt64.le_refl _, ?_⟩⟩ <;> simp
  | short part =>
    have reader : Wal.openReader _ = .ok () := if_neg (Nat.not_le.mpr part)
    have writer : Wal.openOrCreate (some _) = .ok walHeader := if_pos part
    simp only [openDb, replayWal, reader, writer, visitEntries_short part, bind,
      Except.bind, pure, Except.pure]
    refine ⟨_, _, rfl, rfl, rfl, .whole .empty, ⟨?_, ?_, le_maxTxCount_restored _ _, ?_⟩⟩
    · simp [loadFacts]
    · simp
    · exact fun _ => ⟨walHeader, rfl, Nat.le_of_eq walHeader_length.symm⟩
  | whole body =>
    simp only [openDb, replayWal, body.openReader, body.openOrCreate, body.visitEntries,
      bind, Except.bind, pure, Except.pure]
    refine ⟨_, _, rfl, rfl, rfl, .whole body, ⟨?_, ?_, le_maxTxCount_restored _ _, ?_⟩⟩
    · exact fun g member => mem_replayed member
    · intro a attempted f fact
      rcases fresh a attempted with newer | older
      · obtain ⟨g, loaded, same⟩ := replayed_mem attempted newer fact
        exact ⟨g, mem_append_right _ loaded, same⟩
      · obtain ⟨g, found, same⟩ := committed.1 a older f fact
        exact ⟨g, mem_append_left _ found, same⟩
    · exact fun _ => ⟨_, rfl, body.length_le⟩

theorem Consistent.recovers (consistent : Consistent codec s) (cut : Nat) (allowed : s.syncedLen ≤ cut) :
    Recovers codec s cut := by
  obtain ⟨kept, logged, tail, accounts, _⟩ := consistent
  obtain ⟨logged', tail', after⟩ := accounts.cut cut allowed
  obtain ⟨handle, disk, opens, facts, _, _, loaded⟩ := after.openDb
  refine ⟨handle, disk, kept ++ logged', opens, ?_, ?_, ?_⟩
  · exact fun a member => after.known a (mem_append.mp member)
  · intro a attempted acknowledged
    exact mem_append.mpr (after.covered a attempted acknowledged)
  · have committed := after.committed
    rw [← facts] at committed
    exact committed.append loaded.origin loaded.present

end Invariant

section Steps

variable {s s' : System} {kept logged : List Attempt} {tail tail' : Bytes} {handle : Handle}

variable {txId : UInt64} {batch : Batch} {bytes : Bytes} {handle' : Handle} {disk' : Disk}
    {cut : Nat} {disk : Disk}

theorem Accounts.record (accounts : Accounts codec s kept logged tail)
    (committed : disk.committed = s.disk.committed)
    (last : disk.lastCheckpointedTxCount = s.disk.lastCheckpointedTxCount)
    (file : LogFile codec disk.wal logged tail') (after : Option Handle) (a : Attempt)
    (unacknowledged : a.outcome ≠ .acknowledged) :
    Accounts codec { s with disk, handle := after, attempts := s.attempts ++ [a] }
      kept logged tail' := by
  refine ⟨?_, ?_, ?_, ?_, file, accounts.synced⟩
  · intro b inside
    obtain ⟨attempted, outcome⟩ := accounts.known b inside
    exact ⟨mem_append_left _ attempted, outcome⟩
  · intro b attempted acknowledged
    rcases mem_append.mp attempted with attempted | attempted
    · exact accounts.covered b attempted acknowledged
    · rw [mem_singleton.mp attempted] at acknowledged
      exact absurd acknowledged unacknowledged
  · rw [committed]
    exact accounts.committed
  · rw [last]
    exact accounts.fresh

theorem Accounts.log (accounts : Accounts codec s kept logged tail)
    (committed : disk.committed = s.disk.committed)
    (last : disk.lastCheckpointedTxCount = s.disk.lastCheckpointedTxCount) (a : Attempt)
    (file : LogFile codec disk.wal (logged ++ [a]) tail') (after : Option Handle)
    (notFailed : a.outcome ≠ .failed) (fresh : s.disk.lastCheckpointedTxCount < a.entry.txCount)
    (syncedLen : Nat) (synced : ∃ first second, logged ++ [a] = first ++ second ∧
      (∀ b ∈ second, b.outcome ≠ .acknowledged) ∧
      (first = [] ∨ walHeaderSize + (encodeAll (entryBytes codec)
        (first.map Attempt.entry)).length ≤ syncedLen)) :
    Accounts codec { disk, handle := after, syncedLen, attempts := s.attempts ++ [a] }
      kept (logged ++ [a]) tail' := by
  refine ⟨?_, ?_, ?_, ?_, file, synced⟩
  · intro b inside
    rw [mem_append, mem_singleton, ← or_assoc] at inside
    rcases inside with inside | rfl
    · obtain ⟨attempted, outcome⟩ := accounts.known b inside
      exact ⟨mem_append_left _ attempted, outcome⟩
    · exact ⟨by simp, notFailed⟩
  · intro b attempted acknowledged
    rcases mem_append.mp attempted with attempted | attempted
    · exact (accounts.covered b attempted acknowledged).imp_right (mem_append_left _)
    · exact Or.inr (mem_append_right _ attempted)
  · rw [committed]
    exact accounts.committed
  · intro b inside
    rw [last]
    rcases mem_append.mp inside with inside | inside
    · exact accounts.fresh b inside
    · rw [mem_singleton.mp inside]
      exact Or.inl fresh

theorem counter_succ {counter : UInt64} (counts : counter.toNat < 2^64 - 1) :
    (counter + 1).toNat = counter.toNat + 1 := by
  rw [UInt64.toNat_add, UInt64.toNat_one]
  omega

theorem nextTxCount_eq {handle : Handle} (counts : handle.txCounter.toNat < 2^64 - 1) :
    handle.nextTxCount = handle.txCounter + 1 ∧ handle.txCounter < handle.txCounter + 1 := by
  have notLast : handle.txCounter ≠ UInt64.ofNat (2^64 - 1) := by
    intro last
    rw [last] at counts
    exact absurd counts (by decide)
  rw [Handle.nextTxCount, if_neg notLast, UInt64.lt_iff_toNat_lt, counter_succ counts]
  exact ⟨rfl, Nat.lt_succ_self _⟩

theorem Loaded.nextTxCount_fresh (loaded : Loaded disk handle logged)
    (counts : handle.txCounter.toNat < 2^64 - 1) :
    disk.lastCheckpointedTxCount < handle.nextTxCount ∧
      handle.txCounter ≤ handle.txCounter + 1 := by
  obtain ⟨next, grows⟩ := nextTxCount_eq counts
  rw [next]
  exact ⟨UInt64.lt_of_le_of_lt loaded.counter grows, UInt64.le_of_lt grows⟩

theorem entry_facts_length (txId : UInt64) (batch : Batch) :
    (handle.entry txId batch).facts.length = batch.facts.length := by
  simp [Handle.entry]

variable (serialized : serializeEntry codec (handle.entry txId batch).txCount (handle.entry txId
  batch).facts = .ok bytes)

include serialized in
theorem unreadable_part (roundTrips : codec.RoundTrips) {written : Nat}
    (leaves : tail = [] ∨ readEntry codec (tail ++ bytes.take written) = none)
    (unfinished : written < bytes.length ∨ maxFactsPerEntry < batch.facts.length) :
    readEntry codec (tail ++ bytes.take written) = none := by
  have fits : (handle.entry txId batch).facts.length < 2^64 := by
    rw [entry_facts_length]; exact batch.fits
  rcases leaves with rfl | leaves
  · rw [nil_append]
    rcases unfinished with short | many
    · exact readEntry_take roundTrips _ bytes serialized fits written short
    · have refused := readEntry_tooMany _ bytes serialized (by rw [entry_facts_length]; exact many) fits []
      rw [append_nil, ← take_append_drop written bytes] at refused
      exact stable_readEntry.front_none refused
  · exact leaves

theorem writtenBytes_eq_take (bytes : Bytes) (io : AppendIo) :
    ∃ written, writtenBytes bytes io = bytes.take written := by
  cases io with
  | completes => exact ⟨bytes.length, by simp [writtenBytes]⟩
  | appendFails written => exact ⟨written, rfl⟩
  | createFails _ => exact ⟨0, by simp [writtenBytes]⟩

theorem leavesTornTail_cases {written : Bytes}
    (file : LogFile codec disk.wal logged tail) (leaves : leavesTornTail codec disk written = true) :
    tail = [] ∨ readEntry codec (tail ++ written) = none := by
  rw [leavesTornTail, file.tornTail, Bool.or_eq_true, decide_eq_true_eq, Option.isNone_iff_eq_none] at leaves
  exact leaves

theorem consistent_failed (accounts : Accounts codec s kept logged tail)
    (loaded : Loaded s.disk handle logged) (frame : WriteFrame handle handle' s.disk disk')
    (grows : handle.txCounter ≤ handle.txCounter + 1) (pending : handle'.pending = handle.pending)
    (file : LogFile codec disk'.wal logged tail') (entry : WalEntry) :
    Consistent codec { s with
      disk := disk', handle := some handle', attempts := s.attempts ++ [⟨entry, .failed⟩] } := by
  refine ⟨kept, logged, tail', accounts.record frame.committed frame.lastCheckpointed file _ _ (by simp), ?_⟩
  rintro _ ⟨⟩
  refine ⟨?_, ?_, ?_, frame.opened⟩
  · rw [pending]
    exact loaded.origin
  · rw [pending, frame.committed]
    exact loaded.present
  · rw [frame.lastCheckpointed, frame.txCounter]
    exact UInt64.le_trans loaded.counter grows

theorem Loaded.append (loaded : Loaded disk handle logged)
    (frame : WriteFrame handle handle' disk disk') (grows : handle.txCounter ≤ handle.txCounter + 1)
    (a : Attempt) (pending : handle'.pending = loadFacts handle.pending a.entry.facts) :
    Loaded disk' handle' (logged ++ [a]) := by
  refine ⟨?_, ?_, ?_, frame.opened⟩
  · intro g member
    rw [pending] at member
    rcases mem_loadFacts member with old | new
    · obtain ⟨b, attempted, fact⟩ := loaded.origin g old
      exact ⟨b, mem_append_left _ attempted, fact⟩
    · exact ⟨a, mem_append_right _ (mem_singleton.mpr rfl), new⟩
  · intro b attempted f fact
    rw [pending, frame.committed]
    have loadedFact : ∀ h, h ∈ handle.pending ∨ h ∈ a.entry.facts →
        ∃ g ∈ disk.committed ++ loadFacts handle.pending a.entry.facts, g.sameRecord h := by
      intro h known
      obtain ⟨g, member, same⟩ := loadFacts_mem _ _ h known
      exact ⟨g, mem_append_right _ member, same⟩
    rcases mem_append.mp attempted with attempted | attempted
    · obtain ⟨g, member, same⟩ := loaded.present b attempted f fact
      rcases mem_append.mp member with member | member
      · exact ⟨g, mem_append_left _ member, same⟩
      · obtain ⟨h, inside, same'⟩ := loadedFact g (Or.inl member)
        exact ⟨h, inside, Fact.sameRecord_trans same' same⟩
    · rw [mem_singleton.mp attempted] at fact
      exact loadedFact f (Or.inr fact)
  · rw [frame.lastCheckpointed, frame.txCounter]
    exact UInt64.le_trans loaded.counter grows

include serialized in
theorem consistent_acknowledged (roundTrips : codec.RoundTrips) (accounts : Accounts codec s kept logged [])
    (loaded : Loaded s.disk handle logged) (frame : WriteFrame handle handle' s.disk disk')
    (counts : handle.txCounter.toNat < 2^64 - 1) {file : Bytes} (body : LogBody codec file logged [])
    (few : batch.facts.length ≤ maxFactsPerEntry)
    (pending : handle'.pending = loadFacts handle.pending (handle.entry txId batch).facts)
    (wal : disk'.wal = some (file ++ bytes)) :
    Consistent codec
      { disk := disk', handle := some handle', syncedLen := walLength disk',
        attempts := s.attempts ++ [⟨handle.entry txId batch, .acknowledged⟩] } := by
  obtain ⟨fresh, grows⟩ := loaded.nextTxCount_fresh counts
  have longer := body.append_entry roundTrips ⟨handle.entry txId batch, .acknowledged⟩ serialized
    (by rw [entry_facts_length]; exact few)
  refine ⟨kept, _, [], accounts.log frame.committed frame.lastCheckpointed _
    (by rw [wal]; exact .whole longer) _ (by simp) fresh _ ⟨_, [], (append_nil _).symm,
    by simp, Or.inr ?_⟩, ?_⟩
  · rw [walLength, wal, Option.getD_some, longer.bytes, length_append, walHeader_length, append_nil]
  rintro _ ⟨⟩
  exact loaded.append frame grows ⟨handle.entry txId batch, .acknowledged⟩ pending

theorem consistent_write (roundTrips : codec.RoundTrips) (txId : UInt64) (batch : Batch)
    (io : AppendIo) (accounts : Accounts codec s kept logged tail) (isOpen : s.handle = some handle)
    (loaded : Loaded s.disk handle logged) (safe : careful codec s (.write txId batch io) = true) :
    Consistent codec (s.write codec handle txId batch io) := by
  obtain ⟨wrote, frame⟩ := executeWrite_wrote txId batch io accounts.file loaded.opened
  simp only [careful, isOpen, Bool.and_eq_true, decide_eq_true_eq] at safe
  obtain ⟨counts, safe⟩ := safe
  obtain ⟨_, grows⟩ := loaded.nextTxCount_fresh counts
  rcases hr : executeWrite codec handle s.disk txId batch io with ⟨result, handle', disk'⟩
  rw [hr] at wrote frame
  simp only [System.write, hr]
  generalize hp : handle'.pending = pending' at wrote
  generalize hw : disk'.wal = wal' at wrote
  cases wrote with
  | nothing file => exact consistent_failed accounts loaded frame grows hp (by rw [hw]; exact file) _
  | part serialized body fails =>
    apply consistent_failed accounts loaded frame grows hp
    rw [hw]
    apply LogFile.whole
    apply body.append_unreadable
    cases io with
    | completes => exact absurd rfl fails
    | createFails written => rw [writtenBytes, append_nil]; exact body.stop
    | appendFails written =>
      simp only [serialized, Bool.and_eq_true, decide_eq_true_eq] at safe
      exact unreadable_part serialized roundTrips (leavesTornTail_cases accounts.file safe.2) (Or.inl safe.1)
  | all serialized body completes =>
    subst completes
    simp only [serialized, Bool.and_eq_true, decide_eq_true_eq, accounts.file.tornTail] at safe
    obtain ⟨rfl, few⟩ := safe
    exact consistent_acknowledged serialized roundTrips accounts loaded frame counts body few hp hw

theorem accounts_interruptWrite (roundTrips : codec.RoundTrips) (txId : UInt64) (batch : Batch)
    (io : AppendIo) (cut : Nat) (accounts : Accounts codec s kept logged tail)
    (isOpen : s.handle = some handle) (loaded : Loaded s.disk handle logged)
    (safe : careful codec s (.crashInWrite txId batch io cut) = true) :
    ∃ logged' tail', Accounts codec (s.interruptWrite codec handle txId batch io)
      kept logged' tail' := by
  obtain ⟨wrote, frame⟩ := executeWrite_wrote txId batch io accounts.file loaded.opened
  simp only [careful, isOpen, Bool.and_eq_true, decide_eq_true_eq] at safe
  obtain ⟨counts, safe⟩ := safe
  obtain ⟨fresh, _⟩ := loaded.nextTxCount_fresh counts
  rcases hr : executeWrite codec handle s.disk txId batch io with ⟨result, handle', disk'⟩
  rw [hr] at wrote frame
  simp only [System.interruptWrite, hr]
  have written : ∀ file bytes, serializeEntry codec (handle.entry txId batch).txCount
      (handle.entry txId batch).facts = .ok bytes → LogBody codec file logged tail →
      disk'.wal = some (file ++ writtenBytes bytes io) →
      ∃ logged' tail', Accounts codec { s with
        disk := disk', handle := none
        attempts := s.attempts ++ [⟨handle.entry txId batch, .interrupted⟩] }
        kept logged' tail' := by
    intro file bytes serialized body wal
    simp only [serialized] at safe
    have leaves := leavesTornTail_cases accounts.file safe
    obtain ⟨count, part⟩ := writtenBytes_eq_take bytes io
    rw [part] at leaves wal
    by_cases unreadable : readEntry codec (tail ++ bytes.take count) = none
    · exact ⟨logged, _, accounts.record frame.committed frame.lastCheckpointed
        (by rw [wal]; exact .whole (body.append_unreadable unreadable)) _ _ (by simp)⟩
    -- the tail was empty and the whole of a readable entry was written
    obtain rfl : tail = [] := leaves.resolve_right unreadable
    have finished : ¬ (count < bytes.length ∨ maxFactsPerEntry < batch.facts.length) :=
      fun unfinished => unreadable (unreadable_part serialized roundTrips (Or.inl rfl) unfinished)
    simp only [not_or, Nat.not_lt] at finished
    rw [take_of_length_le finished.1] at wal
    have longer := body.append_entry roundTrips ⟨handle.entry txId batch, .interrupted⟩ serialized
      (by rw [entry_facts_length]; exact finished.2)
    obtain ⟨first, second, split, unacknowledged, bound⟩ := accounts.synced
    refine ⟨_, [], accounts.log frame.committed frame.lastCheckpointed _
      (by rw [wal]; exact .whole longer) none (by simp) fresh s.syncedLen
      ⟨first, second ++ [_], by rw [split, append_assoc], ?_, bound⟩⟩
    intro a inside
    rcases mem_append.mp inside with inside | inside
    · exact unacknowledged a inside
    · rw [mem_singleton.mp inside]
      simp
  generalize hw : disk'.wal = wal' at wrote
  generalize handle'.pending = pending' at wrote
  cases wrote with
  | nothing file =>
    exact ⟨logged, tail, accounts.record frame.committed frame.lastCheckpointed
      (by rw [hw]; exact file) _ _ (by simp)⟩
  | part serialized body fails | all serialized body completes => exact written _ _ serialized body hw

section

variable (accounts : Accounts codec s kept logged tail)
include accounts

theorem Accounts.save (loaded : Loaded s.disk handle logged) (after : Option Handle) :
    Accounts codec { s with disk := saveFacts handle s.disk, handle := after }
      (kept ++ logged) logged tail := by
  refine ⟨?_, ?_, accounts.committed.append loaded.origin loaded.present, ?_, accounts.file, accounts.synced⟩
  · intro a inside
    rw [mem_append, or_assoc, or_self] at inside
    exact accounts.known a inside
  · intro a attempted acknowledged
    exact Or.inl (mem_append.mpr (accounts.covered a attempted acknowledged))
  · exact fun a inside => Or.inr (mem_append_right _ inside)

theorem Accounts.retireWal (saved : ∀ a ∈ logged, a ∈ kept) (after : Option Handle) :
    Accounts codec { s with disk := { s.disk with wal := none }, handle := after, syncedLen := 0 }
      kept [] [] := by
  refine ⟨?_, ?_, accounts.committed, by simp, .absent, [], [], rfl, by simp, Or.inl rfl⟩
  · intro a inside
    exact accounts.known a (inside.imp_right (by simp))
  · intro a attempted acknowledged
    exact Or.inl ((accounts.covered a attempted acknowledged).elim id (saved a))

theorem consistent_checkpoint (loaded : Loaded s.disk handle logged) :
    Consistent codec (s.checkpoint handle) := by
  cases idle : nothingToFlush handle with
  | true =>
    simp only [System.checkpoint, doCheckpoint, idle, ↓reduceIte]
    have synced : ∃ first second, logged = first ++ second ∧ (∀ a ∈ second, a.outcome ≠ .acknowledged) ∧
        (first = [] ∨ walHeaderSize + (encodeAll (entryBytes codec)
          (first.map Attempt.entry)).length ≤
            if s.disk.wal = none then 0 else s.syncedLen) := by
      have file := accounts.file
      split
      · rename_i absent
        rw [absent] at file
        cases file
        exact ⟨[], [], rfl, by simp, Or.inl rfl⟩
      · exact accounts.synced
    refine ⟨kept, logged, tail, ⟨accounts.known, accounts.covered, accounts.committed,
      accounts.fresh, accounts.file, synced⟩, ?_⟩
    rintro _ ⟨⟩
    exact loaded
  | false =>
    simp only [System.checkpoint, doCheckpoint, idle, Bool.false_eq_true, ↓reduceIte]
    refine ⟨kept ++ logged, [], [], (accounts.save loaded none).retireWal
      (fun a inside => mem_append_right _ inside) _, ?_⟩
    rintro _ ⟨⟩
    exact ⟨by simp, by simp, UInt64.le_refl _, by simp⟩

theorem Accounts.withoutHandle : Accounts codec { s with handle := none } kept logged tail :=
  ⟨accounts.known, accounts.covered, accounts.committed, accounts.fresh, accounts.file,
    accounts.synced⟩

theorem accounts_interruptCheckpoint (loaded : Loaded s.disk handle logged) :
    ∃ kept', Accounts codec (s.interruptCheckpoint handle) kept' logged tail := by
  unfold System.interruptCheckpoint
  split
  · exact ⟨kept, accounts.withoutHandle⟩
  · exact ⟨_, accounts.save loaded none⟩

theorem Accounts.crash (crashes : s.crash cut = some s') : Consistent codec s' := by
  unfold System.crash at crashes
  split at crashes
  · rename_i allowed
    obtain ⟨logged', tail', after⟩ := accounts.cut cut allowed
    cases crashes
    exact ⟨kept, logged', tail', after, by simp⟩
  · cases crashes

theorem consistent_opens (opens : step codec s .opens = some s') : Consistent codec s' := by
  obtain ⟨handle, disk, opened, committed, last, file, loaded⟩ := accounts.openDb
  cases closed : s.handle with
  | some handle => simp [step, closed] at opens
  | none =>
    simp only [step, closed, opened, Option.some.injEq] at opens
    subst opens
    refine ⟨kept, logged, tail, ⟨accounts.known, accounts.covered, ?_, ?_, file, accounts.synced⟩, ?_⟩
    · rw [committed]
      exact accounts.committed
    · rw [last]
      exact accounts.fresh
    · rintro _ ⟨⟩
      exact loaded

end

theorem Consistent.step (roundTrips : codec.RoundTrips) (consistent : Consistent codec s) {event : Event}
    (safe : careful codec s event = true) (steps : ViciaDb.step codec s event = some s') :
    Consistent codec s' := by
  obtain ⟨kept, logged, tail, accounts, loaded⟩ := consistent
  cases event with
  | opens => exact consistent_opens accounts steps
  | crash cut => exact accounts.crash steps
  | write txId batch io =>
    obtain ⟨handle, isOpen, ⟨⟩⟩ := Option.bind_eq_some_iff.mp steps
    exact consistent_write roundTrips txId batch io accounts isOpen (loaded handle isOpen) safe
  | checkpoint =>
    obtain ⟨handle, isOpen, ⟨⟩⟩ := Option.bind_eq_some_iff.mp steps
    exact consistent_checkpoint accounts (loaded handle isOpen)
  | crashInWrite txId batch io cut =>
    obtain ⟨handle, isOpen, crashes⟩ := Option.bind_eq_some_iff.mp steps
    obtain ⟨logged', tail', after⟩ := accounts_interruptWrite roundTrips txId batch io cut accounts
      isOpen (loaded handle isOpen) safe
    exact after.crash crashes
  | crashInCheckpoint cut =>
    obtain ⟨handle, isOpen, crashes⟩ := Option.bind_eq_some_iff.mp steps
    obtain ⟨kept', after⟩ := accounts_interruptCheckpoint accounts (loaded handle isOpen)
    exact after.crash crashes

theorem Consistent.run (roundTrips : codec.RoundTrips) (consistent : Consistent codec s) (events : List Event)
    (safe : carefulRun codec s events = true) (runs : ViciaDb.run codec s events = some s') :
    Consistent codec s' := by
  induction events generalizing s with
  | nil =>
    cases runs
    exact consistent
  | cons event events ih =>
    obtain ⟨next, steps, rest⟩ := Option.bind_eq_some_iff.mp runs
    simp only [carefulRun, steps, Bool.and_eq_true] at safe
    exact ih (consistent.step roundTrips safe.1 steps) safe.2 rest

/-- In every careful run, whatever a further crash cuts off the unacknowledged tail, reopening recovers
    every acknowledged transaction and no failed one. -/
theorem careful_run_recovers (roundTrips : codec.RoundTrips) (events : List Event) (s : System)
    (safe : carefulRun codec System.initial events = true) (runs : run codec System.initial events = some s)
    (cut : Nat) (allowed : s.syncedLen ≤ cut) : Recovers codec s cut :=
  (consistent_initial.run roundTrips events safe runs).recovers cut allowed

def agesBatch (entity : EntityId) (age : Int64) : Batch where
  facts := [⟨entity, ":person/age", .integer age, 0, 0, validFromUseTxTime, validTimeForever, true⟩]
  fits := by simp

def carefulEvents : List Event :=
  [.opens, .write 1000 (agesBatch 1 30) .completes, .write 1001 (agesBatch 2 40) (.appendFails 2),
    .crash 103, .opens, .write 1002 (agesBatch 3 50) .completes, .checkpoint,
    .write 1003 (agesBatch 4 60) .completes]

theorem careful_run_recovers_carefulEvents :
    ∃ s, run Postcard.postcard System.initial carefulEvents = some s ∧
      s.attempts.length = 4 ∧ Recovers Postcard.postcard s s.syncedLen := by
  have runs : (run Postcard.postcard System.initial carefulEvents).map
      (fun s => s.attempts.length) = some 4 := by decide +kernel
  obtain ⟨s, ran, count⟩ := Option.map_eq_some_iff.mp runs
  exact ⟨s, ran, count, careful_run_recovers Postcard.postcard_roundTrips carefulEvents s
    (by decide +kernel) ran _ (Nat.le_refl _)⟩

def lossyEvents : List Event :=
  [.opens, .write 1000 (agesBatch 1 30) .completes, .write 1001 (agesBatch 2 40) (.appendFails 2),
    .write 1002 (agesBatch 3 50) .completes]

def lostOnReopen (codec : Codec) (s : System) (cut : Nat) : Bool :=
  match openDb codec (s.disk.cutWal cut) with
  | .error _ => true
  | .ok (handle, disk) => s.attempts.any fun a => decide (a.outcome = .acknowledged) &&
      a.entry.facts.any fun f => !(disk.committed ++ handle.pending).any (·.sameRecord f)

theorem not_recovers_of_lost {s : System} (lost : lostOnReopen codec s cut = true) :
    ¬ Recovers codec s cut := by
  rintro ⟨handle, disk, kept, opens, _, covered, holds⟩
  simp only [lostOnReopen, opens, any_eq_true, Bool.and_eq_true, decide_eq_true_eq,
    Bool.not_eq_true', any_eq_false] at lost
  obtain ⟨a, attempted, acknowledged, f, fact, missing⟩ := lost
  obtain ⟨g, present, same⟩ := holds.1 a (covered a attempted acknowledged) f fact
  exact missing g present same

/-- Nothing is cut off the log, and the third transaction is gone although it was acknowledged. -/
theorem acknowledged_write_lost : ∃ s, run Postcard.postcard System.initial lossyEvents = some s ∧
      ¬ Recovers Postcard.postcard s s.syncedLen := by
  have runs : (run Postcard.postcard System.initial lossyEvents).map
      (fun s => lostOnReopen Postcard.postcard s s.syncedLen) = some true := by decide +kernel
  obtain ⟨s, ran, lost⟩ := Option.map_eq_some_iff.mp runs
  exact ⟨s, ran, not_recovers_of_lost lost⟩

end Steps

end ViciaDb
