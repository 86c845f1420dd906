import ViciaDb.Lib.PartitionPoint
import ViciaDb.Lib.SlottedPage
import ViciaDb.Storage.IndexKeys

namespace ViciaDb.BTree

open ByteReader SlottedPage

def pageSize : Nat := 4096
def pageTypeLeaf : UInt8 := 0x21
def pageTypeInternal : UInt8 := 0x22
def pageTypePrefixLeaf : UInt8 := 0x23
def leafHeaderSize : Nat := 12
def internalHeaderSize : Nat := 12
def slotSize : Nat := 4
def prefixRestartInterval : Nat := 16
def prefixRecordHeaderSize : Nat := 4

def isLeafPageType (pageType : UInt8) : Bool :=
  pageType = pageTypeLeaf || pageType = pageTypePrefixLeaf

section Fields

def readU16At (page : Bytes) (offset : Nat) : Except String Nat :=
  match numberAt 2 page offset with
  | some n => .ok n
  | none => .error s!"out of bounds: read_u16 at {offset} (len {page.length})"

def readU64At (page : Bytes) (offset : Nat) : Except String Nat :=
  match numberAt 8 page offset with
  | some n => .ok n
  | none => .error s!"out of bounds: read_u64 at {offset} (len {page.length})"

def sliceOutOfBounds (what : String) (offset length pageLen : Nat) : String :=
  s!"{what} slice out of bounds: offset={offset} len={length} page_len={pageLen}"

def slotSlice (outOfBounds : Nat → Nat → Nat → String) (dir : Nat) (page : Bytes) (slot : Nat) :
    Except String Bytes := do
  let offset ← readU16At page (dir + slot * slotSize)
  let length ← readU16At page (dir + slot * slotSize + 2)
  match readAt page offset length with
  | some bytes => .ok bytes
  | none => .error (outOfBounds offset length page.length)

end Fields

section Writers

def sharedLength (previous entry : Bytes) : Nat :=
  ((previous.zip entry).takeWhile fun pair => pair.1 = pair.2).length

def sharedAt (previous : Option Bytes) (index : Nat) (entry : Bytes) : Nat :=
  if index % prefixRestartInterval = 0 then 0 else sharedLength (previous.getD []) entry

def prefixRecordLayout (previous : Option Bytes) (index : Nat) (entry : Bytes) :
    Except String (Nat × Nat × Nat) :=
  let shared := sharedAt previous index entry
  if 65535 < shared then .error "leaf prefix exceeds u16"
  else if 65535 < entry.length then .error "leaf entry length exceeds u16"
  else .ok (shared, entry.length, prefixRecordHeaderSize + (entry.length - shared))

def compressedBytes : Option Bytes → Nat → List Bytes → Except String Nat
  | _, _, [] => .ok 0
  | previous, index, entry :: entries => do
    let (_, _, storedLen) ← prefixRecordLayout previous index entry
    let rest ← compressedBytes (some entry) (index + 1) entries
    return storedLen + rest

def prefixRecords : Option Bytes → Nat → List Bytes → Except String (List Bytes)
  | _, _, [] => .ok []
  | previous, index, entry :: entries => do
    let (shared, decodedLen, _) ← prefixRecordLayout previous index entry
    let rest ← prefixRecords (some entry) (index + 1) entries
    return (leBytes 2 shared ++ leBytes 2 decodedLen ++ entry.drop shared) :: rest

def placeRecords (dir : Nat) (page : Bytes) (records : List Bytes) : Except String Bytes :=
  match putRecords dir page records with
  | some page => .ok page
  | none => .error "attempt to subtract with overflow"

def leafHeader (pageType : UInt8) (entryCount nextLeaf : Nat) : Bytes :=
  [pageType, if pageType = pageTypePrefixLeaf then UInt8.ofNat prefixRestartInterval else 0] ++
    leBytes 2 entryCount ++ leBytes 8 nextLeaf

def writeLeafPage (entries : List Bytes) (nextLeaf : Nat) : Except String Bytes := do
  let compressed ← compressedBytes none 0 entries
  let pageType := if compressed < totalLength entries then pageTypePrefixLeaf else pageTypeLeaf
  if 65535 < entries.length then .error s!"too many entries: {entries.length}"
  else
    let page := leafHeader pageType entries.length nextLeaf ++
      List.replicate (pageSize - leafHeaderSize) 0
    if pageType = pageTypePrefixLeaf then
      placeRecords leafHeaderSize page (← prefixRecords none 0 entries)
    else placeRecords leafHeaderSize page entries

def internalHeader (keyCount rightmostChild : Nat) (children : List Nat) : Bytes :=
  [pageTypeInternal, 0] ++ leBytes 2 keyCount ++ leBytes 8 rightmostChild ++
    encodeAll (leBytes 8) children

def writeInternalPage (childIds : List Nat) (sepBytes : List Bytes) : Except String Bytes :=
  match childIds.getLast? with
  | none => .error "internal page has no children"
  | some rightmostChild =>
    if 65535 < sepBytes.length then .error s!"too many sep keys: {sepBytes.length}"
    else
      let header := internalHeader sepBytes.length rightmostChild childIds.dropLast
      placeRecords (internalHeaderSize + sepBytes.length * 8)
        (header ++ List.replicate (pageSize - header.length) 0) sepBytes

end Writers

section Cursor

variable {κ : Type} (kind : IndexKind κ)

structure LeafEntryCursor (κ : Type) where
  page : Bytes
  pageType : UInt8
  entryCount : Nat
  slot : Nat
  previous : Bytes
  buffered : Option (κ × FactRef)

def openLeaf (page : Bytes) : Except String (UInt8 × Nat) :=
  match page.head? with
  | none => .error "empty leaf page"
  | some pageType =>
    if !isLeafPageType pageType then .error ("expected leaf page, found type 0x" ++ hexByte pageType)
    else if pageType = pageTypePrefixLeaf ∧ page[1]? ≠ some (UInt8.ofNat prefixRestartInterval) then
      .error "unsupported prefix leaf restart interval"
    else do
      let entryCount ← readU16At page 2
      if page.length < leafHeaderSize + entryCount * slotSize then
        .error "leaf slot directory is truncated"
      else return (pageType, entryCount)

def storedEntry (outOfBounds : Nat → Nat → Nat → String) (page : Bytes) (entryCount slot : Nat) :
    Except String Bytes :=
  if entryCount ≤ slot then .error s!"leaf slot {slot} exceeds entry count {entryCount}"
  else slotSlice outOfBounds leafHeaderSize page slot

def reconstructPrefixEntry (outOfBounds : Nat → Nat → Nat → String) (page : Bytes)
    (entryCount slot : Nat) (previous : Bytes) : Except String Bytes := do
  let stored ← storedEntry outOfBounds page entryCount slot
  if stored.length < prefixRecordHeaderSize then .error "compressed leaf record is truncated"
  else
    let shared ← readU16At stored 0
    let decodedLen ← readU16At stored 2
    if slot % prefixRestartInterval = 0 ∧ shared ≠ 0 then
      .error "compressed leaf restart record has a prefix"
    else if previous.length < shared ∨ decodedLen < shared then
      .error "compressed leaf prefix is out of bounds"
    else
      let suffix := stored.drop prefixRecordHeaderSize
      if shared + suffix.length ≠ decodedLen then .error "compressed leaf decoded length mismatch"
      else return previous.take shared ++ suffix

def restartCount (entryCount : Nat) : Nat :=
  (entryCount + prefixRestartInterval - 1) / prefixRestartInterval

namespace LeafEntryCursor

def new (page : Bytes) : Except String (LeafEntryCursor κ) := do
  let (pageType, entryCount) ← openLeaf page
  return { page, pageType, entryCount, slot := 0, previous := [], buffered := none }

def decodeRaw (cursor : LeafEntryCursor κ) (slot : Nat) : Except String (κ × FactRef) := do
  let bytes ← storedEntry (sliceOutOfBounds "entry") cursor.page cursor.entryCount slot
  fromBytes kind.readEntry bytes

def decodePrefixAt (cursor : LeafEntryCursor κ) (previous : Bytes) (slot : Nat) :
    Except String ((κ × FactRef) × Bytes) := do
  let bytes ← reconstructPrefixEntry (sliceOutOfBounds "entry") cursor.page cursor.entryCount slot
    previous
  return (← fromBytes kind.readEntry bytes, bytes)

def decodePrefixNext (cursor : LeafEntryCursor κ) :
    Except String ((κ × FactRef) × LeafEntryCursor κ) := do
  let (entry, previous) ← decodePrefixAt kind cursor cursor.previous cursor.slot
  return (entry, { cursor with slot := cursor.slot + 1, previous })

def rawBelow (cursor : LeafEntryCursor κ) (start : κ) (slot : Nat) : Except String Bool := do
  let (key, _) ← decodeRaw kind cursor slot
  return (kind.cmp key start).isLT

def seekRawLowerBound (cursor : LeafEntryCursor κ) (start : κ) :
    Except String (LeafEntryCursor κ) := do
  let low ← PartitionPoint.search (rawBelow kind cursor start) cursor.entryCount
  if low < cursor.entryCount then
    let entry ← decodeRaw kind cursor low
    return { cursor with buffered := some entry, slot := low + 1 }
  else return { cursor with slot := low }

def walkBlock (start : κ) : Nat → LeafEntryCursor κ → Except String (LeafEntryCursor κ)
  | 0, cursor => .ok cursor
  | fuel + 1, cursor =>
    if cursor.slot < cursor.entryCount then do
      let (entry, next) ← decodePrefixNext kind cursor
      if (kind.cmp entry.1 start).isGE then return { next with buffered := some entry }
      else if (cursor.slot + 1) % prefixRestartInterval = 0 then return next
      else walkBlock start fuel next
    else .ok cursor

def restartNotAbove (cursor : LeafEntryCursor κ) (start : κ) (block : Nat) : Except String Bool := do
  let (entry, _) ← decodePrefixAt kind cursor [] (block * prefixRestartInterval)
  return (kind.cmp entry.1 start).isLE

def seekPrefixLowerBound (cursor : LeafEntryCursor κ) (start : κ) :
    Except String (LeafEntryCursor κ) :=
  if cursor.entryCount = 0 then .ok cursor
  else do
    let low ← PartitionPoint.search (restartNotAbove kind cursor start)
      (restartCount cursor.entryCount)
    let blockStart := (low - 1) * prefixRestartInterval
    walkBlock kind start prefixRestartInterval { cursor with slot := blockStart, previous := [] }

def seekLowerBound (cursor : LeafEntryCursor κ) (start : κ) : Except String (LeafEntryCursor κ) :=
  if cursor.pageType = pageTypePrefixLeaf then seekPrefixLowerBound kind cursor start
  else seekRawLowerBound kind cursor start

def nextEntry (cursor : LeafEntryCursor κ) :
    Except String (Option ((κ × FactRef) × LeafEntryCursor κ)) :=
  match cursor.buffered with
  | some entry => .ok (some (entry, { cursor with buffered := none }))
  | none =>
    if cursor.entryCount ≤ cursor.slot then .ok none
    else if cursor.pageType = pageTypePrefixLeaf then do
      return some (← decodePrefixNext kind cursor)
    else do
      let entry ← decodeRaw kind cursor cursor.slot
      return some (entry, { cursor with slot := cursor.slot + 1 })

end LeafEntryCursor

end Cursor

end ViciaDb.BTree
