import ViciaDb.Wal.RoundTrip

namespace ViciaDb

open ByteReader Wal

def validFromUseTxTime : Int64 := Int64.minValue

/-- What survives the process: the facts of the main file, the transaction count its header
    records, and the write-ahead log beside it. -/
structure Disk where
  committed : List Fact
  lastCheckpointedTxCount : UInt64
  wal : Option Bytes
  deriving DecidableEq, Repr

structure Handle where
  pending : List Fact
  txCounter : UInt64
  walOpen : Bool
  walEntryCount : Nat
  dirty : Bool
  deriving DecidableEq, Repr

structure Batch where
  facts : List Fact
  fits : facts.length < 2^64

inductive AppendIo where
  | completes
  | createFails (written : Nat)
  | appendFails (written : Nat)
  deriving DecidableEq, Repr

section Open

variable (codec : Codec)

def maxTxCount (facts : List Fact) : UInt64 :=
  facts.foldl (fun m f => if m < f.txCount then f.txCount else m) 0

def replayWal (disk : Disk) : Except String (List Fact × UInt64 × Nat) :=
  match disk.wal with
  | none => .ok ([], disk.lastCheckpointedTxCount, 0)
  | some file => do
    openReader file
    let entries := (visitEntries codec file).1.filter
      fun entry => decide (disk.lastCheckpointedTxCount < entry.txCount)
    let pending := loadFacts [] (entries.flatMap WalEntry.facts)
    let counter := maxTxCount pending
    return (pending, if counter < disk.lastCheckpointedTxCount then disk.lastCheckpointedTxCount
      else counter, entries.length)

def openDb (disk : Disk) : Except String (Handle × Disk) := do
  let (pending, txCounter, walEntryCount) ← replayWal codec disk
  match disk.wal with
  | none => return ({ pending, txCounter, walOpen := false, walEntryCount, dirty := false }, disk)
  | some file =>
    let file ← openOrCreate (some file)
    return ({ pending, txCounter, walOpen := true, walEntryCount, dirty := false },
      { disk with wal := some file })

end Open

section Write

variable (codec : Codec)

def Handle.nextTxCount (handle : Handle) : UInt64 :=
  if handle.txCounter = UInt64.ofNat (2^64 - 1) then handle.txCounter else handle.txCounter + 1

def stampFact (txId txCount : UInt64) (fact : Fact) : Fact :=
  { fact with
    txId, txCount,
    validFrom := if fact.validFrom = validFromUseTxTime then txId.toInt64 else fact.validFrom }

def Handle.entry (handle : Handle) (txId : UInt64) (batch : Batch) : WalEntry where
  txCount := handle.nextTxCount
  facts := batch.facts.map (stampFact txId handle.nextTxCount)

def partialHeader (written : Nat) : Option Bytes → Option Bytes
  | none => some (walHeader.take written)
  | some file => if file.length < walHeaderSize then some (walHeader.take written) else some file

/-- The append and what follows it. A failed append leaves the overlay as it was, and the bytes
    it wrote stay in the file. -/
def appendEntry (handle : Handle) (disk : Disk) (file : Bytes) (entry : WalEntry) (io : AppendIo) :
    Except String Unit × Handle × Disk :=
  match serializeEntry codec entry.txCount entry.facts with
  | .error message => (.error message, handle, { disk with wal := some file })
  | .ok bytes =>
    match io with
    | .completes =>
      (.ok (),
        { handle with
          pending := loadFacts handle.pending entry.facts
          walEntryCount := handle.walEntryCount + 1
          dirty := true },
        { disk with wal := some (file ++ bytes) })
    | .appendFails written =>
      (.error "append failed", handle, { disk with wal := some (file ++ bytes.take written) })
    | .createFails _ => (.error "append failed", handle, { disk with wal := some file })

def executeWrite (handle : Handle) (disk : Disk) (txId : UInt64) (batch : Batch) (io : AppendIo) :
    Except String Unit × Handle × Disk :=
  let entry := handle.entry txId batch
  let allocated := { handle with txCounter := handle.txCounter + 1 }
  match handle.walOpen, disk.wal with
  | true, some file => appendEntry codec allocated disk file entry io
  | true, none => (.error "WAL not initialized", allocated, disk)
  | false, wal =>
    match io with
    | .createFails written =>
      (.error "create failed", allocated, { disk with wal := partialHeader written wal })
    | io =>
      match openOrCreate wal with
      | .error message => (.error message, allocated, disk)
      | .ok file => appendEntry codec { allocated with walOpen := true } disk file entry io

end Write

section Checkpoint

/-- What `save` of the main file shows once its page 0 is written. A checkpoint is interrupted here between
    that write and the deletion of the log. -/
def saveFacts (handle : Handle) (disk : Disk) : Disk :=
  { disk with
    committed := disk.committed ++ handle.pending
    lastCheckpointedTxCount := handle.txCounter }

def nothingToFlush (handle : Handle) : Bool := decide (handle.walEntryCount = 0) && !handle.dirty

def doCheckpoint (handle : Handle) (disk : Disk) : Handle × Disk :=
  if nothingToFlush handle then (handle, disk)
  else
    ({ handle with pending := [], walOpen := false, walEntryCount := 0, dirty := false },
      { saveFacts handle disk with wal := none })

end Checkpoint

inductive Outcome where
  | acknowledged | failed | interrupted
  deriving DecidableEq, Repr

structure Attempt where
  entry : WalEntry
  outcome : Outcome
  deriving DecidableEq, Repr

/-- `syncedLen` is the length of the log at its last acknowledged append; a crash keeps that much. -/
structure System where
  disk : Disk
  handle : Option Handle
  syncedLen : Nat
  attempts : List Attempt
  deriving DecidableEq, Repr

def System.initial : System where
  disk := { committed := [], lastCheckpointedTxCount := 0, wal := none }
  handle := none
  syncedLen := 0
  attempts := []

inductive Event where
  | opens
  | write (txId : UInt64) (batch : Batch) (io : AppendIo)
  | checkpoint
  | crash (cut : Nat)
  | crashInWrite (txId : UInt64) (batch : Batch) (io : AppendIo) (cut : Nat)
  | crashInCheckpoint (cut : Nat)

def Disk.cutWal (disk : Disk) (cut : Nat) : Disk := { disk with wal := disk.wal.map (·.take cut) }

section Steps

variable (codec : Codec)

def walLength (disk : Disk) : Nat := (disk.wal.getD []).length

def System.write (s : System) (handle : Handle) (txId : UInt64) (batch : Batch) (io : AppendIo) :
    System :=
  match executeWrite codec handle s.disk txId batch io with
  | (.ok (), handle', disk) =>
    { disk, handle := some handle', syncedLen := walLength disk,
      attempts := s.attempts ++ [⟨handle.entry txId batch, .acknowledged⟩] }
  | (.error _, handle', disk) =>
    { s with
      disk, handle := some handle'
      attempts := s.attempts ++ [⟨handle.entry txId batch, .failed⟩] }

def System.interruptWrite (s : System) (handle : Handle) (txId : UInt64) (batch : Batch)
    (io : AppendIo) : System :=
  { s with
    disk := (executeWrite codec handle s.disk txId batch io).2.2
    handle := none
    attempts := s.attempts ++ [⟨handle.entry txId batch, .interrupted⟩] }

def System.checkpoint (s : System) (handle : Handle) : System :=
  let (handle', disk) := doCheckpoint handle s.disk
  { s with disk, handle := some handle', syncedLen := if disk.wal = none then 0 else s.syncedLen }

def System.interruptCheckpoint (s : System) (handle : Handle) : System :=
  { s with
    disk := if nothingToFlush handle then s.disk else saveFacts handle s.disk
    handle := none }

def System.crash (s : System) (cut : Nat) : Option System :=
  if s.syncedLen ≤ cut then some { s with disk := s.disk.cutWal cut, handle := none } else none

def step (s : System) : Event → Option System
  | .opens =>
    match s.handle, openDb codec s.disk with
    | none, .ok (handle, disk) => some { s with disk, handle := some handle }
    | _, _ => none
  | .write txId batch io => do return s.write codec (← s.handle) txId batch io
  | .checkpoint => do return s.checkpoint (← s.handle)
  | .crash cut => s.crash cut
  | .crashInWrite txId batch io cut => do
    (s.interruptWrite codec (← s.handle) txId batch io).crash cut
  | .crashInCheckpoint cut => do (s.interruptCheckpoint (← s.handle)).crash cut

def run (s : System) : List Event → Option System
  | [] => some s
  | event :: events => do run (← step codec s event) events

def tornTail (disk : Disk) : Bytes :=
  match disk.wal with
  | none => []
  | some file => (visitEntries codec file).2

def writtenBytes (bytes : Bytes) : AppendIo → Bytes
  | .completes => bytes
  | .appendFails written => bytes.take written
  | .createFails _ => []

def leavesTornTail (disk : Disk) (written : Bytes) : Bool :=
  decide (tornTail codec disk = []) || (readEntry codec (tornTail codec disk ++ written)).isNone

/-- A write that goes on: the counter has a next value, an acknowledged append follows a whole entry the
    reader takes, a failed one lacks part of its bytes. -/
def careful (s : System) : Event → Bool
  | .write txId batch io =>
    match s.handle with
    | none => true
    | some handle =>
      decide (handle.txCounter.toNat < 2^64 - 1) &&
        match serializeEntry codec (handle.entry txId batch).txCount (handle.entry txId batch).facts,
          io with
        | .ok _, .completes =>
          decide (tornTail codec s.disk = []) && decide (batch.facts.length ≤ maxFactsPerEntry)
        | .ok bytes, .appendFails written =>
          decide (written < bytes.length) && leavesTornTail codec s.disk (bytes.take written)
        | _, _ => true
  | .crashInWrite txId batch io _ =>
    match s.handle with
    | none => true
    | some handle =>
      decide (handle.txCounter.toNat < 2^64 - 1) &&
        match serializeEntry codec (handle.entry txId batch).txCount
          (handle.entry txId batch).facts with
        | .ok bytes => leavesTornTail codec s.disk (writtenBytes bytes io)
        | .error _ => true
  | _ => true

def carefulRun (s : System) : List Event → Bool
  | [] => true
  | event :: events =>
    careful codec s event &&
      match step codec s event with
      | none => true
      | some s' => carefulRun s' events

def Holds (contents : List Fact) (kept : List Attempt) : Prop :=
  (∀ a ∈ kept, ∀ f ∈ a.entry.facts, ∃ g ∈ contents, g.sameRecord f) ∧
    ∀ g ∈ contents, ∃ a ∈ kept, g ∈ a.entry.facts

def Recovers (s : System) (cut : Nat) : Prop :=
  ∃ handle disk kept, openDb codec (s.disk.cutWal cut) = .ok (handle, disk) ∧
    (∀ a ∈ kept, a ∈ s.attempts ∧ a.outcome ≠ .failed) ∧
    (∀ a ∈ s.attempts, a.outcome = .acknowledged → a ∈ kept) ∧
    Holds (disk.committed ++ handle.pending) kept

end Steps

end ViciaDb
