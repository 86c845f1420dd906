import ViciaDb.Db.Recovery

namespace ViciaDb

open ByteReader Wal List

inductive Action where
  | write (txId : UInt64) (batch : Batch)
  | checkpoint

def Action.event : Action → Event
  | .write txId batch => .write txId batch .completes
  | .checkpoint => .checkpoint

section Defs

variable (codec : Codec)

def entryAt (counter txId : UInt64) (batch : Batch) : WalEntry where
  txCount := counter + 1
  facts := batch.facts.map (stampFact txId (counter + 1))

def accepts (entry : WalEntry) : Bool :=
  (serializeEntry codec entry.txCount entry.facts).toOption.isSome

def unsaved (counter : UInt64) (log : List WalEntry) : List Action → List WalEntry
  | [] => log
  | .write txId batch :: rest =>
    let entry := entryAt counter txId batch
    unsaved (counter + 1) (if accepts codec entry then log ++ [entry] else log) rest
  | .checkpoint :: rest => unsaved counter [] rest

end Defs

variable {codec : Codec}

inductive LogOf (codec : Codec) : Option Bytes → List WalEntry → Prop
  | absent : LogOf codec none []
  | present (entries : List WalEntry) :
      LogOf codec (some (walHeader ++ encodeAll (entryBytes codec) entries)) entries

structure Ledger (codec : Codec) (s : System) (handle : Handle) (kept logged : List Attempt) :
    Prop where
  isOpen : s.handle = some handle
  known : ∀ a, a ∈ kept ∨ a ∈ logged → a ∈ s.attempts ∧ a.outcome = .acknowledged
  covered : ∀ a ∈ s.attempts, a.outcome = .acknowledged → a ∈ kept ∨ a ∈ logged
  committed : Holds s.disk.committed kept
  stamped : ∀ a, a ∈ kept ∨ a ∈ logged → ∀ f ∈ a.entry.facts, f.txCount = a.entry.txCount
  old : ∀ a ∈ kept, a.entry.txCount ≤ s.disk.lastCheckpointedTxCount
  fresh : ∀ a ∈ logged, s.disk.lastCheckpointedTxCount < a.entry.txCount ∧
    a.entry.txCount ≤ handle.txCounter
  increasing : logged.Pairwise fun a b => a.entry.txCount < b.entry.txCount
  log : LogOf codec s.disk.wal (logged.map Attempt.entry)
  sized : ∀ a ∈ logged, accepts codec a.entry = true ∧ a.entry.facts.length < 2^64
  loaded : Loaded s.disk handle logged
  flushed : nothingToFlush handle = true → logged = []

section Write

variable {s : System} {handle : Handle} {disk : Disk} {kept logged : List Attempt}
  {entries : List WalEntry}

theorem LogOf.openOrCreate {wal : Option Bytes} (log : LogOf codec wal entries) :
    Wal.openOrCreate wal = .ok (walHeader ++ encodeAll (entryBytes codec) entries) := by
  cases log with
  | absent => simp [Wal.openOrCreate]
  | present =>
    have long : ¬ (walHeader ++ encodeAll (entryBytes codec) entries).length < walHeaderSize := by
      rw [length_append, walHeader_length]
      omega
    rw [Wal.openOrCreate, if_neg long, validateWalHeader_append]
    rfl

theorem executeWrite_completes (log : LogOf codec disk.wal entries)
    (opened : handle.walOpen = true → ∃ file, disk.wal = some file ∧ walHeaderSize ≤ file.length)
    (txId : UInt64) (batch : Batch) :
    executeWrite codec handle disk txId batch .completes =
      appendEntry codec { handle with txCounter := handle.txCounter + 1, walOpen := true } disk
        (walHeader ++ encodeAll (entryBytes codec) entries) (handle.entry txId batch)
        .completes := by
  cases walOpen : handle.walOpen with
  | true =>
    obtain ⟨file, present, -⟩ := opened walOpen
    have same : file = walHeader ++ encodeAll (entryBytes codec) entries := by
      rw [present] at log
      cases log
      rfl
    simp only [executeWrite, walOpen, present, same]
  | false =>
    simp only [executeWrite, walOpen, log.openOrCreate]

variable (counts : handle.txCounter.toNat < 2^64 - 1)

include counts in
theorem entry_eq_entryAt (txId : UInt64) (batch : Batch) :
    handle.entry txId batch = entryAt handle.txCounter txId batch := by
  rw [Handle.entry, entryAt, (nextTxCount_eq counts).1]

theorem entryAt_stamped (counter txId : UInt64) (batch : Batch) :
    ∀ f ∈ (entryAt counter txId batch).facts, f.txCount = (entryAt counter txId batch).txCount := by
  intro f member
  obtain ⟨g, -, rfl⟩ := mem_map.mp member
  rfl

section

variable (ledger : Ledger codec s handle kept logged)
include ledger

include counts in
theorem Ledger.refuse (a : Attempt) (failed : a.outcome = .failed) :
    Ledger codec
      { s with
        disk := { s.disk with
          wal := some (walHeader ++ encodeAll (entryBytes codec) (logged.map Attempt.entry)) }
        handle := some { handle with txCounter := handle.txCounter + 1, walOpen := true }
        attempts := s.attempts ++ [a] }
      { handle with txCounter := handle.txCounter + 1, walOpen := true } kept logged := by
  have grows : handle.txCounter ≤ handle.txCounter + 1 := by
    rw [UInt64.le_iff_toNat_le, counter_succ counts]
    omega
  refine ⟨rfl, ?_, ?_, ledger.committed, ledger.stamped, ledger.old, ?_, ledger.increasing,
    .present _, ledger.sized, ⟨ledger.loaded.origin, ledger.loaded.present, ?_, ?_⟩, ?_⟩
  · intro b inside
    obtain ⟨attempted, acknowledged⟩ := ledger.known b inside
    exact ⟨mem_append_left _ attempted, acknowledged⟩
  · intro b attempted acknowledged
    rcases mem_append.mp attempted with attempted | attempted
    · exact ledger.covered b attempted acknowledged
    · rw [mem_singleton.mp attempted, failed] at acknowledged
      cases acknowledged
  · exact fun b inside => ⟨(ledger.fresh b inside).1, UInt64.le_trans (ledger.fresh b inside).2 grows⟩
  · exact UInt64.le_trans ledger.loaded.counter grows
  · exact fun _ => ⟨_, rfl, by rw [length_append, walHeader_length]; omega⟩
  · exact fun idle => ledger.flushed idle

include counts in
theorem Ledger.acknowledge (txId : UInt64) (batch : Batch) {handle' : Handle} {disk' : Disk}
    (frame : WriteFrame handle handle' s.disk disk')
    (accepted : accepts codec (entryAt handle.txCounter txId batch) = true)
    (pending : handle'.pending = loadFacts handle.pending (entryAt handle.txCounter txId batch).facts)
    (dirty : handle'.dirty = true)
    (wal : LogOf codec disk'.wal (logged.map Attempt.entry ++ [entryAt handle.txCounter txId batch])) :
    Ledger codec
      { disk := disk', handle := some handle', syncedLen := walLength disk',
        attempts := s.attempts ++ [⟨entryAt handle.txCounter txId batch, .acknowledged⟩] }
      handle' kept (logged ++ [⟨entryAt handle.txCounter txId batch, .acknowledged⟩]) := by
  have grows : handle.txCounter < handle.txCounter + 1 := by
    rw [UInt64.lt_iff_toNat_lt, counter_succ counts]
    omega
  have counted : handle'.txCounter = handle.txCounter + 1 := frame.txCounter
  refine ⟨rfl, ?_, ?_, ?_, ?_, ?_, ?_, ?_, ?_, ?_,
    ledger.loaded.append frame (UInt64.le_of_lt grows) _ pending, ?_⟩
  · intro b inside
    rw [mem_append, ← or_assoc] at inside
    rcases inside with inside | inside
    · obtain ⟨attempted, acknowledged⟩ := ledger.known b inside
      exact ⟨mem_append_left _ attempted, acknowledged⟩
    · rw [mem_singleton.mp inside]
      exact ⟨mem_append_right _ (mem_singleton.mpr rfl), rfl⟩
  · intro b attempted acknowledged
    rw [mem_append, ← or_assoc]
    exact (mem_append.mp attempted).imp_left fun old => ledger.covered b old acknowledged
  · rw [frame.committed]
    exact ledger.committed
  · intro b inside
    rw [mem_append, ← or_assoc] at inside
    rcases inside with inside | inside
    · exact ledger.stamped b inside
    · rw [mem_singleton.mp inside]
      exact entryAt_stamped _ _ _
  · rw [frame.lastCheckpointed]
    exact ledger.old
  · intro b inside
    rw [frame.lastCheckpointed, counted]
    rcases mem_append.mp inside with inside | inside
    · obtain ⟨fresh, bound⟩ := ledger.fresh b inside
      exact ⟨fresh, UInt64.le_trans bound (UInt64.le_of_lt grows)⟩
    · rw [mem_singleton.mp inside]
      exact ⟨UInt64.lt_of_le_of_lt ledger.loaded.counter grows, UInt64.le_refl _⟩
  · refine pairwise_append.mpr ⟨ledger.increasing, pairwise_singleton _ _, ?_⟩
    intro b inside c added
    rw [mem_singleton.mp added]
    exact UInt64.lt_of_le_of_lt (ledger.fresh b inside).2 grows
  · rw [map_append]
    exact wal
  · intro b inside
    rcases mem_append.mp inside with inside | inside
    · exact ledger.sized b inside
    · rw [mem_singleton.mp inside]
      exact ⟨accepted, by simpa [entryAt] using batch.fits⟩
  · intro idle
    simp [nothingToFlush, dirty] at idle

include counts in
theorem Ledger.write (txId : UInt64) (batch : Batch) :
    ∃ handle' logged', Ledger codec (s.write codec handle txId batch .completes) handle' kept
        logged' ∧ handle'.txCounter = handle.txCounter + 1 ∧
      logged'.map Attempt.entry =
        if accepts codec (entryAt handle.txCounter txId batch) then
          logged.map Attempt.entry ++ [entryAt handle.txCounter txId batch]
        else logged.map Attempt.entry := by
  have done := executeWrite_completes ledger.log ledger.loaded.opened txId batch
  rw [entry_eq_entryAt counts] at done
  cases serialized : serializeEntry codec (entryAt handle.txCounter txId batch).txCount
      (entryAt handle.txCounter txId batch).facts with
  | error message =>
    have refused : accepts codec (entryAt handle.txCounter txId batch) = false := by
      simp [accepts, serialized, Except.toOption]
    simp only [appendEntry, serialized] at done
    simp only [System.write, done, refused, Bool.false_eq_true, ↓reduceIte]
    exact ⟨_, logged, ledger.refuse counts _ rfl, rfl, rfl⟩
  | ok bytes =>
    have accepted : accepts codec (entryAt handle.txCounter txId batch) = true := by
      simp [accepts, serialized, Except.toOption]
    have encoded : entryBytes codec (entryAt handle.txCounter txId batch) = bytes := by
      simp only [entryBytes, serialized]
    simp only [appendEntry, serialized] at done
    simp only [System.write, done, accepted, ↓reduceIte, entry_eq_entryAt counts]
    refine ⟨_, _, ledger.acknowledge counts txId batch ⟨rfl, rfl, rfl, ?_⟩ accepted rfl rfl ?_, rfl, by simp⟩
    · exact fun _ => ⟨_, rfl, by simp only [length_append, walHeader_length]; omega⟩
    rw [← encoded, append_assoc]
    have bytes : encodeAll (entryBytes codec) (logged.map Attempt.entry) ++
        entryBytes codec (entryAt handle.txCounter txId batch) =
        encodeAll (entryBytes codec)
          (logged.map Attempt.entry ++ [entryAt handle.txCounter txId batch]) := by simp
    rw [bytes]
    exact .present _

theorem Ledger.checkpoint : ∃ handle' kept', Ledger codec (s.checkpoint handle) handle' kept' [] ∧
      handle'.txCounter = handle.txCounter := by
  cases idle : nothingToFlush handle with
  | true =>
    obtain rfl := ledger.flushed idle
    simp only [System.checkpoint, doCheckpoint, idle, ↓reduceIte]
    exact ⟨handle, kept, ⟨rfl, ledger.known, ledger.covered, ledger.committed, ledger.stamped,
      ledger.old, ledger.fresh, ledger.increasing, ledger.log, ledger.sized, ledger.loaded,
      fun _ => rfl⟩, rfl⟩
  | false =>
    simp only [System.checkpoint, doCheckpoint, idle, Bool.false_eq_true, ↓reduceIte]
    refine ⟨_, kept ++ logged, ⟨rfl, ?_, ?_,
      ledger.committed.append ledger.loaded.origin ledger.loaded.present, ?_, ?_, by simp, .nil,
      .absent, by simp, ⟨by simp, by simp, UInt64.le_refl _, by simp⟩, fun _ => rfl⟩, rfl⟩
    · intro a inside
      simp only [mem_append, not_mem_nil, or_false] at inside
      exact ledger.known a inside
    · intro a attempted acknowledged
      exact Or.inl (mem_append.mpr (ledger.covered a attempted acknowledged))
    · intro a inside
      simp only [mem_append, not_mem_nil, or_false] at inside
      exact ledger.stamped a inside
    · intro a inside
      rcases mem_append.mp inside with inside | inside
      · exact UInt64.le_trans (ledger.old a inside) ledger.loaded.counter
      · exact (ledger.fresh a inside).2

theorem Ledger.run (actions : List Action) (counts : handle.txCounter.toNat + actions.length < 2^64) :
    ∃ s' handle' kept' logged',
      ViciaDb.run codec s (actions.map Action.event) = some s' ∧
      Ledger codec s' handle' kept' logged' ∧
      logged'.map Attempt.entry =
        unsaved codec handle.txCounter (logged.map Attempt.entry) actions := by
  induction actions generalizing s handle kept logged with
  | nil => exact ⟨s, handle, kept, logged, rfl, ledger, rfl⟩
  | cons action rest ih =>
    rw [length_cons] at counts
    cases action with
    | write txId batch =>
      obtain ⟨handle', logged', after, counter, entries⟩ :=
        ledger.write (by omega) txId batch
      obtain ⟨s', last, kept', logged'', ran, final, same⟩ := ih after (by
        rw [counter, counter_succ (by omega)]
        omega)
      refine ⟨s', last, kept', logged'', ?_, final, ?_⟩
      · simpa [ViciaDb.run, step, Action.event, ledger.isOpen] using ran
      · rw [same, counter, entries]
        rfl
    | checkpoint =>
      obtain ⟨handle', kept', after, counter⟩ := ledger.checkpoint
      obtain ⟨s', last, kept'', logged'', ran, final, same⟩ := ih after (by
        rw [counter]
        omega)
      refine ⟨s', last, kept'', logged'', ?_, final, ?_⟩
      · simpa [ViciaDb.run, step, Action.event, ledger.isOpen] using ran
      · rw [same, counter]
        rfl

end

def System.opened : System :=
  { System.initial with
    handle := some { pending := [], txCounter := 0, walOpen := false, walEntryCount := 0,
                     dirty := false } }

theorem run_opens (events : List Event) :
    ViciaDb.run codec System.initial (.opens :: events) = ViciaDb.run codec System.opened events :=
  rfl

variable (codec) in
theorem ledger_opened : ∃ handle, Ledger codec System.opened handle [] [] ∧ handle.txCounter = 0 :=
  ⟨_, ⟨rfl, by simp, by simp [System.opened, System.initial], by simp [System.opened,
    System.initial, Holds], by simp, by simp, by simp, .nil, .absent, by simp,
    ⟨by simp, by simp, UInt64.le_refl _, by simp⟩, fun _ => rfl⟩, rfl⟩

end Write

section Reopen

variable {s : System} {handle : Handle} {kept logged : List Attempt}

theorem reads_accepted (roundTrips : codec.RoundTrips) {entry : WalEntry}
    (accepted : accepts codec entry = true) (few : entry.facts.length ≤ maxFactsPerEntry) :
    entryBytes codec entry ≠ [] ∧
      ∀ more, readEntry codec (entryBytes codec entry ++ more) = some (entry, more) := by
  cases serialized : serializeEntry codec entry.txCount entry.facts with
  | error message => simp [accepts, serialized, Except.toOption] at accepted
  | ok bytes => exact reads_serialized roundTrips serialized few

theorem visitEntries_refused (roundTrips : codec.RoundTrips) {front back : List WalEntry}
    {large : WalEntry} (sized : ∀ entry ∈ front ++ large :: back, accepts codec entry = true)
    (few : ∀ entry ∈ front, entry.facts.length ≤ maxFactsPerEntry)
    (many : maxFactsPerEntry < large.facts.length) (fits : large.facts.length < 2^64) :
    visitEntries codec (walHeader ++ encodeAll (entryBytes codec) (front ++ large :: back)) =
      (front, encodeAll (entryBytes codec) (large :: back)) := by
  have reads : Reads (readEntry codec) (entryBytes codec) front := fun entry member =>
    reads_accepted roundTrips (sized entry (mem_append_left _ member)) (few entry member)
  have stop : readEntry codec (encodeAll (entryBytes codec) (large :: back)) = none := by
    have accepted := sized large (by simp)
    cases serialized : serializeEntry codec large.txCount large.facts with
    | error message => simp [accepts, serialized, Except.toOption] at accepted
    | ok bytes =>
      rw [encodeAll_cons, entryBytes, serialized]
      exact readEntry_tooMany large bytes serialized many fits _
  rw [visitEntries, ← walHeader_length, drop_left, encodeAll_append]
  exact readAll_encodeAll front _ reads stop

theorem openDb_visited {disk : Disk} {front : List WalEntry} {tail bytes : Bytes}
    (wal : disk.wal = some (walHeader ++ bytes))
    (visited : visitEntries codec (walHeader ++ bytes) = (front, tail)) :
    ∃ handle', openDb codec disk = .ok (handle', disk) ∧ handle'.pending =
      loadFacts [] ((front.filter
        fun entry => decide (disk.lastCheckpointedTxCount < entry.txCount)).flatMap
          WalEntry.facts) := by
  have long : ¬ (walHeader ++ bytes).length < walHeaderSize := by
    rw [length_append, walHeader_length]
    omega
  have reader : openReader (walHeader ++ bytes) = .ok () := by
    rw [openReader, validateWalHeader_append, ite_self]
  have writer : openOrCreate (some (walHeader ++ bytes)) = .ok (walHeader ++ bytes) := by
    rw [openOrCreate, if_neg long, validateWalHeader_append]
    rfl
  obtain ⟨committed, last, file⟩ := disk
  subst wal
  simp only [openDb, replayWal, reader, writer, visited, bind, Except.bind, pure, Except.pure]
  exact ⟨_, rfl, rfl⟩

theorem cutWal_walLength (disk : Disk) : disk.cutWal (walLength disk) = disk := by
  obtain ⟨committed, last, wal⟩ := disk
  cases wal with
  | none => rfl
  | some file => simp [Disk.cutWal, walLength]

theorem Ledger.recovers (ledger : Ledger codec s handle kept logged) (roundTrips : codec.RoundTrips)
    (few : ∀ entry ∈ logged.map Attempt.entry, entry.facts.length ≤ maxFactsPerEntry) :
    Recovers codec s (walLength s.disk) := by
  have file : LogFile codec s.disk.wal logged [] := by
    have log := ledger.log
    generalize s.disk.wal = wal at log
    generalize entries : logged.map Attempt.entry = list at log
    cases log with
    | absent =>
      obtain rfl := map_eq_nil_iff.mp entries
      exact .absent
    | present =>
      refine .whole ⟨by rw [entries, append_nil], ?_, readEntry_nil⟩
      intro entry member
      obtain ⟨a, inside, rfl⟩ := mem_map.mp member
      exact reads_accepted roundTrips (ledger.sized a inside).1 (few _ member)
  have accounts : Accounts codec { s with syncedLen := walLength s.disk } kept logged [] := by
    refine ⟨fun a inside => ?_, ledger.covered, ledger.committed,
      fun a inside => .inl (ledger.fresh a inside).1, file, logged, [], by simp, by simp, ?_⟩
    · obtain ⟨attempted, acknowledged⟩ := ledger.known a inside
      exact ⟨attempted, by simp [acknowledged]⟩
    have log := ledger.log
    rw [walLength]
    generalize s.disk.wal = wal at log
    generalize entries : logged.map Attempt.entry = list at log
    cases log with
    | absent => exact .inl (map_eq_nil_iff.mp entries)
    | present =>
      right
      rw [Option.getD_some, length_append, walHeader_length]
  exact Consistent.recovers (s := { s with syncedLen := walLength s.disk })
    ⟨kept, logged, [], accounts, fun handle' isOpen => by
      rw [ledger.isOpen] at isOpen
      cases isOpen
      exact ledger.loaded⟩ (walLength s.disk) (Nat.le_refl _)

theorem Ledger.reopens_front (ledger : Ledger codec s handle kept logged) (roundTrips : codec.RoundTrips)
    {front back : List Attempt} {large : Attempt} (split : logged = front ++ large :: back)
    (few : ∀ a ∈ front, a.entry.facts.length ≤ maxFactsPerEntry)
    (many : maxFactsPerEntry < large.entry.facts.length) :
    ∃ handle', openDb codec s.disk = .ok (handle', s.disk) ∧
      ∀ g ∈ handle'.pending, ∃ a ∈ front, g ∈ a.entry.facts := by
  have entries : logged.map Attempt.entry =
      front.map Attempt.entry ++ large.entry :: back.map Attempt.entry := by simp [split]
  have wal : s.disk.wal = some (walHeader ++ encodeAll (entryBytes codec)
      (front.map Attempt.entry ++ large.entry :: back.map Attempt.entry)) := by
    have log := ledger.log
    rw [entries] at log
    generalize s.disk.wal = wal at log
    generalize list : front.map Attempt.entry ++ large.entry :: back.map Attempt.entry = all at log
    cases log with
    | absent => simp at list
    | present => rfl
  have sized : ∀ entry ∈ front.map Attempt.entry ++ large.entry :: back.map Attempt.entry,
      accepts codec entry = true := by
    intro entry member
    rw [← entries] at member
    obtain ⟨a, inside, rfl⟩ := mem_map.mp member
    exact (ledger.sized a inside).1
  have visited := visitEntries_refused roundTrips sized
    (fun entry member => by
      obtain ⟨a, inside, rfl⟩ := mem_map.mp member
      exact few a inside)
    many (ledger.sized large (by simp [split])).2
  obtain ⟨handle', opens, pending⟩ := openDb_visited wal visited
  refine ⟨handle', opens, fun g member => ?_⟩
  rw [pending] at member
  exact mem_replayed member

theorem Ledger.loses (ledger : Ledger codec s handle kept logged) (roundTrips : codec.RoundTrips)
    (large : ∃ a ∈ logged, maxFactsPerEntry < a.entry.facts.length) :
    ¬ Recovers codec s (walLength s.disk) := by
  obtain ⟨front, a, back, split, many, few⟩ : ∃ front a back, logged = front ++ a :: back ∧
      maxFactsPerEntry < a.entry.facts.length ∧
      ∀ b ∈ front, b.entry.facts.length ≤ maxFactsPerEntry := by
    obtain ⟨a, first⟩ := Option.isSome_iff_exists.mp (List.find?_isSome.mpr
      (by simpa using large : ∃ a ∈ logged, decide (maxFactsPerEntry < a.entry.facts.length) = true))
    obtain ⟨many, front, back, split, few⟩ := List.find?_eq_some_iff_append.mp first
    exact ⟨front, a, back, split, of_decide_eq_true many, fun b member => by simpa using few b member⟩
  obtain ⟨handle', opens, origin⟩ := ledger.reopens_front roundTrips split few many
  have inLog : a ∈ logged := by simp [split]
  rintro ⟨handle'', disk, known, reopened, -, covered, holds⟩
  rw [cutWal_walLength, opens, Except.ok.injEq, Prod.mk.injEq] at reopened
  obtain ⟨rfl, rfl⟩ := reopened
  obtain ⟨attempted, acknowledged⟩ := ledger.known a (.inr inLog)
  obtain ⟨f, fact⟩ := exists_mem_of_length_pos (Nat.zero_lt_of_lt many)
  obtain ⟨g, present, same⟩ := holds.1 a (covered a attempted acknowledged) f fact
  have count : g.txCount = a.entry.txCount := by
    simp only [Fact.sameRecord, Bool.and_eq_true, decide_eq_true_eq] at same
    rw [← ledger.stamped a (.inr inLog) f fact]
    exact same.1.1.2
  rcases mem_append.mp present with old | replayed
  · obtain ⟨b, inKept, inside⟩ := ledger.committed.2 g old
    rw [ledger.stamped b (.inl inKept) g inside] at count
    have before := UInt64.lt_of_le_of_lt (ledger.old b inKept) (ledger.fresh a inLog).1
    rw [count] at before
    exact UInt64.lt_irrefl _ before
  · obtain ⟨b, inFront, inside⟩ := origin g replayed
    have earlier : b ∈ logged := by simp [split, inFront]
    rw [ledger.stamped b (.inr earlier) g inside] at count
    have ordered := ledger.increasing
    rw [split, pairwise_append] at ordered
    have before := ordered.2.2 b inFront a mem_cons_self
    rw [count] at before
    exact UInt64.lt_irrefl _ before

end Reopen

/-- After a session without failures and a kill that loses no byte, all acknowledged transactions come
    back exactly when the reader takes every batch since the checkpoint. -/
theorem acknowledged_recovers_iff (roundTrips : codec.RoundTrips) (actions : List Action)
    (counts : actions.length < 2^64) :
    ∃ s, run codec System.initial (.opens :: actions.map Action.event) = some s ∧
      (Recovers codec s (walLength s.disk) ↔
        ∀ entry ∈ unsaved codec 0 [] actions, entry.facts.length ≤ maxFactsPerEntry) := by
  obtain ⟨handle, ledger, counter⟩ := ledger_opened codec
  obtain ⟨s, last, kept, logged, ran, final, entries⟩ := ledger.run actions (by
    rw [counter, UInt64.toNat_zero]
    omega)
  rw [counter, map_nil] at entries
  refine ⟨s, by rw [run_opens]; exact ran, ?_⟩
  rw [← entries]
  constructor
  · intro recovers entry member
    by_contra large
    obtain ⟨a, inside, rfl⟩ := mem_map.mp member
    exact final.loses roundTrips ⟨a, inside, Nat.lt_of_not_le large⟩ recovers
  · exact final.recovers roundTrips

section Examples

def savedBetween : List Action :=
  [.write 1000 (agesBatch 1 30), .checkpoint, .write 1001 (agesBatch 2 40)]

theorem acknowledged_recovers_iff_savedBetween :
    ∃ s, run Postcard.postcard System.initial (.opens :: savedBetween.map Action.event) = some s ∧
      Recovers Postcard.postcard s (walLength s.disk) := by
  obtain ⟨s, ran, recovers⟩ :=
    acknowledged_recovers_iff Postcard.postcard_roundTrips savedBetween (by decide)
  exact ⟨s, ran, recovers.mpr (by decide +kernel)⟩

theorem serializeFacts_succeeds {facts : List Fact}
    (small : ∀ f ∈ facts, (codec.toBytes f).length ≤ maxFactBytes) :
    ∃ body, serializeFacts codec facts = .ok body := by
  induction facts with
  | nil => exact ⟨[], rfl⟩
  | cons fact facts ih =>
    rw [forall_mem_cons] at small
    obtain ⟨rest, serialized⟩ := ih small.2
    simp only [serializeFacts, Nat.not_lt.mpr small.1, ↓reduceIte, serialized]
    exact ⟨_, rfl⟩

theorem accepts_of_small {entry : WalEntry}
    (small : ∀ f ∈ entry.facts, (codec.toBytes f).length ≤ maxFactBytes) : accepts codec entry = true := by
  obtain ⟨body, serialized⟩ := serializeFacts_succeeds small
  rw [accepts, serializeEntry, serialized]
  rfl

def millionAndOne : Batch where
  facts := List.replicate 1000001
    ⟨1, ":person/age", .integer 30, 0, 0, validFromUseTxTime, validTimeForever, true⟩
  fits := by
    rw [length_replicate]
    decide

theorem millionAndOne_accepted :
    accepts Postcard.postcard (entryAt 0 1000 millionAndOne) = true := by
  apply accepts_of_small
  intro f member
  rw [entryAt, millionAndOne, map_replicate] at member
  rw [eq_of_mem_replicate member]
  decide +kernel

/-- The large batch and the one after it are acknowledged, and a reopening has neither. -/
theorem large_batch_lost : ∃ s handle, run Postcard.postcard System.initial
        [.opens, .write 1000 millionAndOne .completes, .write 1001 (agesBatch 2 40) .completes] =
          some s ∧
      ⟨entryAt 0 1000 millionAndOne, .acknowledged⟩ ∈ s.attempts ∧
      ⟨entryAt 1 1001 (agesBatch 2 40), .acknowledged⟩ ∈ s.attempts ∧
      openDb Postcard.postcard s.disk = .ok (handle, s.disk) ∧ handle.pending = [] ∧
      ¬ Recovers Postcard.postcard s (walLength s.disk) := by
  obtain ⟨first, ledger, counter⟩ := ledger_opened Postcard.postcard
  obtain ⟨s, last, kept, logged, ran, final, entries⟩ := ledger.run
    [.write 1000 millionAndOne, .write 1001 (agesBatch 2 40)] (by rw [counter]; decide)
  have second : accepts Postcard.postcard (entryAt 1 1001 (agesBatch 2 40)) = true := by
    decide +kernel
  have both : logged.map Attempt.entry = [entryAt 0 1000 millionAndOne, entryAt 1 1001 (agesBatch 2 40)] := by
    rw [entries, counter]
    simp only [unsaved, millionAndOne_accepted, ↓reduceIte, map_nil, nil_append]
    rw [show (0 : UInt64) + 1 = 1 from rfl, second]
    rfl
  have many : maxFactsPerEntry < (entryAt 0 1000 millionAndOne).facts.length := by
    rw [entryAt, length_map, millionAndOne, length_replicate]
    decide
  obtain ⟨a, rest, rfl, large, others⟩ := map_eq_cons_iff.mp both
  obtain ⟨b, others, rfl, small, none⟩ := map_eq_cons_iff.mp others
  obtain rfl := map_eq_nil_iff.mp none
  obtain ⟨handle, opens, origin⟩ := final.reopens_front Postcard.postcard_roundTrips
    (nil_append _).symm (by simp) (large ▸ many)
  obtain ⟨entryA, outcomeA⟩ := a
  obtain ⟨entryB, outcomeB⟩ := b
  obtain ⟨attemptedA, rfl⟩ := final.known _ (.inr mem_cons_self)
  obtain ⟨attemptedB, rfl⟩ := final.known _ (.inr (mem_cons_of_mem _ mem_cons_self))
  obtain rfl : entryA = _ := large
  obtain rfl : entryB = _ := small
  refine ⟨s, handle, ?_, attemptedA, attemptedB, opens, ?_,
    final.loses Postcard.postcard_roundTrips ⟨_, mem_cons_self, many⟩⟩
  · rw [run_opens]
    exact ran
  · rw [eq_nil_iff_forall_not_mem]
    intro g member
    obtain ⟨c, inside, -⟩ := origin g member
    cases inside

end Examples

end ViciaDb
