import ViciaDb.Storage.DeltaSegment

namespace ViciaDb

open ByteReader SlottedPage PagedBytes BTree PackedPages Wal.Postcard List
open Except (ensure ensure_bind_eq_ok_iff ensure_eq_ok_iff bind_eq_ok_iff)

structure FileHeader where
  pageCount : Nat
  nodeCount : Nat
  lastCheckpointedTxCount : UInt64
  roots : IndexRoots
  indexChecksum : UInt32
  factPageCount : Nat
  deriving DecidableEq, Repr

def FileHeader.new : FileHeader where
  pageCount := 1
  nodeCount := 0
  lastCheckpointedTxCount := 0
  roots := ⟨0, 0, 0, 0⟩
  indexChecksum := 0
  factPageCount := 0

section Slot

variable (crc32 : Bytes → UInt32)

structure HeaderManifestSlot where
  generation : Nat
  manifestPageStart : Nat
  manifestPageCount : Nat
  manifestLen : Nat
  manifestChecksum : UInt32
  slotChecksum : UInt32
  deriving DecidableEq, Repr

def HeaderManifestSlot.empty : HeaderManifestSlot := ⟨0, 0, 0, 0, 0, 0⟩

def HeaderManifestSlot.computeChecksum (slot : HeaderManifestSlot) : UInt32 :=
  crc32 (leBytes 8 slot.generation ++ leBytes 8 slot.manifestPageStart ++
    leBytes 8 slot.manifestPageCount ++ leBytes 8 slot.manifestLen ++
    leBytes 4 slot.manifestChecksum.toNat)

def HeaderManifestSlot.new (generation manifestPageStart manifestPageCount manifestLen : Nat)
    (manifestChecksum : UInt32) : Except String HeaderManifestSlot := do
  ensure (generation ≠ 0) "Header manifest slot generation must be non-zero"
  ensure (manifestPageStart ≠ 0) "Header manifest payload must not start on page 0"
  ensure (manifestPageCount ≠ 0) "Header manifest payload page count must be non-zero"
  ensure (manifestLen ≠ 0) "Header manifest payload length must be non-zero"
  ensure (manifestPageStart + manifestPageCount < 2 ^ 64)
    "Header manifest payload page range overflow"
  let slot : HeaderManifestSlot :=
    ⟨generation, manifestPageStart, manifestPageCount, manifestLen, manifestChecksum, 0⟩
  return { slot with slotChecksum := slot.computeChecksum crc32 }

def HeaderManifestSlot.isEmpty (slot : HeaderManifestSlot) : Bool := decide (slot = empty)

def HeaderManifestSlot.checksumValid (slot : HeaderManifestSlot) : Bool :=
  slot.isEmpty || decide (slot.slotChecksum = slot.computeChecksum crc32)

def HeaderManifestSlot.isSelectable (slot : HeaderManifestSlot) : Bool :=
  !slot.isEmpty && slot.checksumValid crc32 && decide (0 < slot.generation) &&
    decide (0 < slot.manifestPageStart) && decide (0 < slot.manifestPageCount) &&
    decide (0 < slot.manifestLen) && decide (slot.manifestPageStart + slot.manifestPageCount < 2 ^ 64)

end Slot

section Manifest

structure DeltaManifestSegment where
  segmentPageStart : Nat
  segmentPageCount : Nat
  factPageStart : Nat
  factPageCount : Nat
  lowTxCount : UInt64
  highTxCount : UInt64
  deriving DecidableEq, Repr

def DeltaManifestSegment.fromSegmentHeader (segmentPageStart segmentPageCount : Nat)
    (header : DeltaSegmentHeader) : Except String DeltaManifestSegment := do
  ensure (segmentPageCount ≠ 0) "Delta manifest segment page count must be non-zero"
  return ⟨segmentPageStart, segmentPageCount, header.factPageStart, header.factPageCount,
    header.lowTxCount, header.highTxCount⟩

structure DeltaBaseIdentity where
  pageCount : Nat
  factPageCount : Nat
  checkpointTxCount : UInt64
  indexChecksum : UInt32
  roots : IndexRoots
  deriving DecidableEq, Repr

def DeltaBaseIdentity.fromHeader (header : FileHeader) : DeltaBaseIdentity where
  pageCount := header.pageCount
  factPageCount := header.factPageCount
  checkpointTxCount := header.lastCheckpointedTxCount
  indexChecksum := header.indexChecksum
  roots := header.roots

def IndexRoots.Present (roots : IndexRoots) : Prop :=
  roots.eavt ≠ 0 ∧ roots.aevt ≠ 0 ∧ roots.avet ≠ 0 ∧ roots.vaet ≠ 0

instance (roots : IndexRoots) : Decidable roots.Present := inferInstanceAs (Decidable (_ ∧ _))

def DeltaBaseIdentity.validateForSegments (identity : DeltaBaseIdentity)
    (segments : List DeltaManifestSegment) : Except String Unit :=
  if segments = [] then .ok ()
  else do
    ensure (identity.pageCount ≠ 0) "Delta manifest base page_count must be non-zero"
    ensure identity.roots.Present "Delta manifest base identity requires all base index roots"
    ensure (∀ segment ∈ segments, identity.pageCount ≤ segment.segmentPageStart)
      "Delta manifest segment starts before base page_count"

def DeltaBaseIdentity.validateAgainstHeader (identity : DeltaBaseIdentity) (header : FileHeader) :
    Except String Unit := do
  ensure (identity.pageCount ≤ header.pageCount)
    "Delta manifest base page_count exceeds file page_count"
  ensure (identity.factPageCount = header.factPageCount)
    "Delta manifest base fact_page_count does not match header"
  ensure (identity.checkpointTxCount ≤ header.lastCheckpointedTxCount)
    "Delta manifest base checkpoint tx_count exceeds header checkpoint tx_count"
  ensure (identity.indexChecksum = header.indexChecksum)
    "Delta manifest base checksum does not match header"
  ensure (identity.roots = header.roots) "Delta manifest base roots do not match header"

structure DeltaManifest where
  codecVersion : UInt16
  generation : Nat
  baseIdentity : DeltaBaseIdentity
  lowTxCount : UInt64
  highTxCount : UInt64
  segments : List DeltaManifestSegment
  deriving DecidableEq, Repr

def deltaManifestMagic : Bytes := [0x4D, 0x47, 0x44, 0x4D, 0x46, 0x30, 0x30, 0x31]
def deltaManifestCommitMarker : Bytes := [0x4D, 0x47, 0x44, 0x4D, 0x44, 0x4F, 0x4E, 0x45]
def deltaManifestCodecVersion : UInt16 := 1
def deltaManifestPrefixLen : Nat := 16

def segmentTxRange : List DeltaManifestSegment → UInt64 × UInt64
  | [] => (0, 0)
  | first :: rest =>
    rest.foldl (fun range segment =>
      (min range.1 segment.lowTxCount, max range.2 segment.highTxCount))
      (first.lowTxCount, first.highTxCount)

def validateFollows : Option DeltaManifestSegment → DeltaManifestSegment → Except String Unit
  | none, _ => .ok ()
  | some previous, segment => do
    ensure (previous.lowTxCount < segment.lowTxCount)
      "Delta manifest segments must be ordered by tx_count"
    ensure (previous.highTxCount < segment.lowTxCount)
      "Delta manifest segment tx ranges must not overlap"
    ensure (previous.segmentPageStart < segment.segmentPageStart)
      "Delta manifest segments must be ordered by page range"
    ensure (previous.segmentPageStart + previous.segmentPageCount ≤ segment.segmentPageStart)
      "Delta manifest segment page ranges must not overlap"

def validateSegments : Option DeltaManifestSegment → List DeltaManifestSegment → Except String Unit
  | _, [] => .ok ()
  | previous, segment :: rest => do
    ensure (segment.segmentPageCount ≠ 0) "Delta manifest segment page count must be non-zero"
    ensure (segment.segmentPageStart + segment.segmentPageCount < 2 ^ 64)
      "Delta manifest segment page range overflow"
    ensure (segment.factPageStart + segment.factPageCount < 2 ^ 64)
      "Delta manifest fact page range overflow"
    ensure (segment.lowTxCount ≤ segment.highTxCount)
      "Delta manifest segment tx range is invalid"
    validateFollows previous segment
    validateSegments (some segment) rest

def DeltaManifest.validate (manifest : DeltaManifest) : Except String Unit := do
  ensure (manifest.codecVersion = deltaManifestCodecVersion)
    "Unsupported delta manifest codec version"
  let expected := segmentTxRange manifest.segments
  ensure (manifest.lowTxCount = expected.1)
    "Delta manifest low tx_count does not match referenced segments"
  ensure (expected.2 ≤ manifest.highTxCount)
    "Delta manifest high tx_count is below referenced segment high tx_count"
  ensure (manifest.highTxCount = expected.2)
    "Delta manifest high tx_count does not match referenced segments"
  manifest.baseIdentity.validateForSegments manifest.segments
  ensure (manifest.segments = [] ∨ manifest.baseIdentity.checkpointTxCount < manifest.lowTxCount)
    "Delta manifest base checkpoint tx_count must precede segment tx range"
  validateSegments none manifest.segments

def DeltaManifest.new (generation : Nat) (baseIdentity : DeltaBaseIdentity)
    (segments : List DeltaManifestSegment) : Except String DeltaManifest := do
  let manifest : DeltaManifest := ⟨deltaManifestCodecVersion, generation, baseIdentity,
    (segmentTxRange segments).1, (segmentTxRange segments).2, segments⟩
  manifest.validate
  return manifest

end Manifest

section ManifestBytes

variable (crc32 : Bytes → UInt32)

def encU32 (n : UInt32) : Bytes := varint 4 n.toNat

def readU32 : Reader UInt32 := do return UInt32.ofNat (← readVarint 4)

def DeltaManifestSegment.toBytes (segment : DeltaManifestSegment) : Bytes :=
  encNat segment.segmentPageStart ++ (encNat segment.segmentPageCount ++
    (encNat segment.factPageStart ++ (encNat segment.factPageCount ++
      (encU64 segment.lowTxCount ++ encU64 segment.highTxCount))))

def DeltaManifestSegment.read : Reader DeltaManifestSegment := do
  let segmentPageStart ← readNat
  let segmentPageCount ← readNat
  let factPageStart ← readNat
  let factPageCount ← readNat
  let lowTxCount ← readU64
  let highTxCount ← readU64
  return ⟨segmentPageStart, segmentPageCount, factPageStart, factPageCount, lowTxCount, highTxCount⟩

def DeltaBaseIdentity.toBytes (identity : DeltaBaseIdentity) : Bytes :=
  encNat identity.pageCount ++ (encNat identity.factPageCount ++
    (encU64 identity.checkpointTxCount ++ (encU32 identity.indexChecksum ++
      (encNat identity.roots.eavt ++ (encNat identity.roots.aevt ++
        (encNat identity.roots.avet ++ encNat identity.roots.vaet))))))

def DeltaBaseIdentity.read : Reader DeltaBaseIdentity := do
  let pageCount ← readNat
  let factPageCount ← readNat
  let checkpointTxCount ← readU64
  let indexChecksum ← readU32
  let eavtRoot ← readNat
  let aevtRoot ← readNat
  let avetRoot ← readNat
  let vaetRoot ← readNat
  return ⟨pageCount, factPageCount, checkpointTxCount, indexChecksum,
    ⟨eavtRoot, aevtRoot, avetRoot, vaetRoot⟩⟩

def DeltaManifest.toBytes (manifest : DeltaManifest) : Bytes :=
  encU16 manifest.codecVersion ++ (encNat manifest.generation ++ (manifest.baseIdentity.toBytes ++
    (encU64 manifest.lowTxCount ++ (encU64 manifest.highTxCount ++
      encList DeltaManifestSegment.toBytes manifest.segments))))

def DeltaManifest.read : Reader DeltaManifest := do
  let codecVersion ← readU16
  let generation ← readNat
  let baseIdentity ← DeltaBaseIdentity.read
  let lowTxCount ← readU64
  let highTxCount ← readU64
  let segments ← readList DeltaManifestSegment.read
  return ⟨codecVersion, generation, baseIdentity, lowTxCount, highTxCount, segments⟩

def DeltaManifest.framed (manifest : DeltaManifest) : Bytes :=
  leBytes 8 manifest.toBytes.length ++ manifest.toBytes

def DeltaManifest.encode (manifest : DeltaManifest) : Except String Bytes := do
  manifest.validate
  ensure (manifest.toBytes.length < 2 ^ 64) "Delta manifest payload exceeds u64 length"
  return closeBody crc32 deltaManifestCommitMarker (deltaManifestMagic ++ manifest.framed)

def DeltaManifest.decode (bytes : Bytes) : Except String DeltaManifest := do
  let body ← openBody crc32 "Delta manifest" deltaManifestPrefixLen deltaManifestMagic
    deltaManifestCommitMarker bytes
  let payloadLen ← numberOrFail "delta manifest payload length" 8 body 8
  ensure (deltaManifestPrefixLen + payloadLen = body.length)
    "Delta manifest length field does not match body length"
  let manifest ← fromBytes DeltaManifest.read ((body.drop deltaManifestPrefixLen).take payloadLen)
  manifest.validate
  return manifest

def manifestPages (manifest : DeltaManifest) (pageStart : Nat) :
    Except String (List Bytes × HeaderManifestSlot) := do
  ensure (pageStart ≠ 0) "Delta manifest payload must not start on page 0"
  let bytes ← manifest.encode crc32
  let pages := toPages pageSize bytes
  let descriptor ← HeaderManifestSlot.new crc32 manifest.generation pageStart pages.length
    bytes.length (crc32 bytes)
  return (pages, descriptor)

def fullPage (invalidSize : String) (pages : Pages) (pageId : Nat) : Except String Bytes := do
  let page ← pages.load pageId
  ensure (page.length = pageSize) invalidSize
  return page

def readManifestFromDescriptor (pages : Pages) (header : FileHeader)
    (descriptor : HeaderManifestSlot) : Except String DeltaManifest := do
  ensure (descriptor.manifestPageStart + descriptor.manifestPageCount < 2 ^ 64)
    "Delta manifest payload page range overflow"
  ensure (descriptor.manifestPageStart + descriptor.manifestPageCount ≤ header.pageCount)
    "Delta manifest payload page range out of bounds"
  ensure (descriptor.manifestLen ≤ descriptor.manifestPageCount * pageSize)
    "Delta manifest payload length exceeds descriptor pages"
  let bytes ← readRun (fullPage "Delta manifest page has invalid size" pages)
    descriptor.manifestPageStart descriptor.manifestPageCount
  let bytes := bytes.take descriptor.manifestLen
  ensure (crc32 bytes = descriptor.manifestChecksum)
    "Delta manifest payload checksum mismatch"
  let manifest ← DeltaManifest.decode crc32 bytes
  ensure (manifest.generation = descriptor.generation)
    "Delta manifest generation does not match header descriptor"
  return manifest

def readDeltaSegmentFromDescriptor (pages : Pages) (header : FileHeader)
    (descriptor : DeltaManifestSegment) : Except String DeltaSegment := do
  ensure (descriptor.segmentPageStart + descriptor.segmentPageCount < 2 ^ 64)
    "Delta segment page range overflow"
  ensure (descriptor.segmentPageStart + descriptor.segmentPageCount ≤ header.pageCount)
    "Delta segment page range out of bounds"
  let bytes ← readRun (fullPage "Delta segment page has invalid size" pages)
    descriptor.segmentPageStart descriptor.segmentPageCount
  let segment ← DeltaSegment.decodeFromPageBytes crc32 bytes
  ensure (segment.header.factPageStart = descriptor.factPageStart ∧
      segment.header.factPageCount = descriptor.factPageCount ∧
      segment.header.lowTxCount = descriptor.lowTxCount ∧
      segment.header.highTxCount = descriptor.highTxCount)
    "Delta segment header does not match manifest descriptor"
  return segment

def loadDeltaSegmentsFromManifest (pages : Pages) (header : FileHeader) (manifest : DeltaManifest) :
    Except String (List DeltaSegment) :=
  manifest.segments.mapM (readDeltaSegmentFromDescriptor crc32 pages header)

end ManifestBytes

section ManifestRoundTrip

variable {crc32 : Bytes → UInt32} {manifest : DeltaManifest} {bytes : Bytes}

theorem codes_u32 : Codes readU32 encU32 := by
  intro n more
  have bound : n.toNat < 128 ^ 5 := Nat.lt_trans n.toNat_lt (by decide)
  rw [readU32, encU32, bind_of_some (readVarint_append 4 4 _ bound (Nat.le_refl 4) more), UInt32.ofNat_toNat]
  rfl

theorem DeltaManifestSegment.codes :
    Codes DeltaManifestSegment.read DeltaManifestSegment.toBytes := by
  intro segment more
  simp only [toBytes, append_assoc]
  rw [read, codes_nat.bind, codes_nat.bind, codes_nat.bind, codes_nat.bind, codes_u64.bind, codes_u64.bind]
  rfl

theorem DeltaBaseIdentity.codes : Codes DeltaBaseIdentity.read DeltaBaseIdentity.toBytes := by
  intro identity more
  simp only [toBytes, append_assoc]
  rw [read, codes_nat.bind, codes_nat.bind, codes_u64.bind, codes_u32.bind, codes_nat.bind, codes_nat.bind,
    codes_nat.bind, codes_nat.bind]
  rfl

theorem DeltaManifest.codes : Codes DeltaManifest.read DeltaManifest.toBytes := by
  intro manifest more
  simp only [toBytes, append_assoc]
  rw [read, codes_u16.bind, codes_nat.bind, DeltaBaseIdentity.codes.bind, codes_u64.bind,
    codes_u64.bind, (codes_list DeltaManifestSegment.codes).bind]
  rfl

theorem DeltaManifest.encode_eq_ok_iff : manifest.encode crc32 = .ok bytes ↔
    manifest.validate = .ok () ∧ manifest.toBytes.length < 2 ^ 64 ∧
      closeBody crc32 deltaManifestCommitMarker (deltaManifestMagic ++ manifest.framed) = bytes := by
  rw [encode, bind_eq_ok_iff]
  simp only [ensure_bind_eq_ok_iff, pure, Except.pure, Except.ok.injEq]
  constructor
  · rintro ⟨u, valid, rest⟩
    exact ⟨valid, rest⟩
  · rintro ⟨valid, rest⟩
    exact ⟨(), valid, rest⟩

theorem DeltaManifest.length_body :
    (deltaManifestMagic ++ manifest.framed).length = deltaManifestPrefixLen + manifest.toBytes.length := by
  simp only [framed, length_append, length_leBytes]
  change 8 + _ = 16 + _
  omega

theorem DeltaManifest.decode_encode (encoded : manifest.encode crc32 = .ok bytes) :
    decode crc32 bytes = .ok manifest := by
  obtain ⟨valid, small, rfl⟩ := encode_eq_ok_iff.mp encoded
  have long : deltaManifestPrefixLen ≤ (deltaManifestMagic ++ manifest.framed).length := by
    rw [length_body]
    omega
  have opened := openBody_closeBody crc32 "Delta manifest" deltaManifestMagic deltaManifestCommitMarker
    manifest.framed rfl long
  have number : numberAt 8 (deltaManifestMagic ++ manifest.framed) 8 = some manifest.toBytes.length :=
    numberAt_append 8 deltaManifestMagic manifest.toBytes small
  have payload : ((deltaManifestMagic ++ manifest.framed).drop deltaManifestPrefixLen).take
      manifest.toBytes.length = manifest.toBytes := by
    rw [framed, ← append_assoc, drop_left', take_length]
    simp only [length_append, length_leBytes]
    rfl
  simp only [decode, opened, bind, Except.bind, numberOrFail_of_number number, length_body,
    ensure, if_true, payload, fromBytes_of_codes DeltaManifest.codes, valid]
  rfl

theorem HeaderManifestSlot.new_eq_ok_iff {generation start count len : Nat} {checksum : UInt32}
    {slot : HeaderManifestSlot} :
    HeaderManifestSlot.new crc32 generation start count len checksum = .ok slot ↔
      generation ≠ 0 ∧ start ≠ 0 ∧ count ≠ 0 ∧ len ≠ 0 ∧ start + count < 2 ^ 64 ∧
        slot = ⟨generation, start, count, len, checksum,
          computeChecksum crc32 ⟨generation, start, count, len, checksum, 0⟩⟩ := by
  simp only [new, ensure_bind_eq_ok_iff, pure, Except.pure, Except.ok.injEq]
  rw [eq_comm (b := slot)]

end ManifestRoundTrip

section PageReads

variable {crc32 : Bytes → UInt32} {pages pages' : Pages} {header header' : FileHeader}
  {manifest : DeltaManifest} {descriptor : HeaderManifestSlot} {start : Nat} {list : List Bytes}

def HoldsPages (pages : Pages) (start : Nat) (list : List Bytes) : Prop :=
  ∀ i page, list[i]? = some page → pages (start + i) = some page

theorem manifestPages_eq_ok_iff : manifestPages crc32 manifest start = .ok (list, descriptor) ↔
    start ≠ 0 ∧ ∃ bytes, manifest.encode crc32 = .ok bytes ∧ list = toPages pageSize bytes ∧
      HeaderManifestSlot.new crc32 manifest.generation start list.length bytes.length (crc32 bytes) =
        .ok descriptor := by
  simp only [manifestPages, bind_eq_ok_iff, ensure_eq_ok_iff, exists_const, pure,
    Except.pure, Except.ok.injEq, Prod.mk.injEq]
  constructor
  · rintro ⟨nonzero, bytes, encoded, slot, made, rfl, rfl⟩
    exact ⟨nonzero, bytes, encoded, rfl, made⟩
  · rintro ⟨nonzero, bytes, encoded, rfl, made⟩
    exact ⟨nonzero, bytes, encoded, descriptor, made, rfl, rfl⟩

theorem validate_of_decode {bytes : Bytes} (decoded : DeltaManifest.decode crc32 bytes = .ok manifest) :
    manifest.validate = .ok () := by
  simp only [DeltaManifest.decode, bind_eq_ok_iff, ensure_eq_ok_iff, exists_and_left,
    exists_const, pure, Except.pure, Except.ok.injEq] at decoded
  obtain ⟨body, -, len, -, -, read, -, u, valid, rfl⟩ := decoded
  exact valid

end PageReads

end ViciaDb
