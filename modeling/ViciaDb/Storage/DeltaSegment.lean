import ViciaDb.Lib.PagedBytes
import ViciaDb.Storage.DeltaIndex

namespace ViciaDb

open ByteReader SlottedPage PagedBytes BTree PackedPages Wal.Postcard List
open Except (ensure ensure_bind_eq_ok_iff bind_eq_ok_iff)

section Wire

variable {α β : Type}

def encNat (n : Nat) : Bytes := varint n n

def readNat : Reader Nat
  | [] => none
  | b :: bs =>
    if b.toNat < 128 then some (b.toNat, bs)
    else (readNat bs).map fun rest => (b.toNat - 128 + 128 * rest.1, rest.2)

variable {read : Reader α} {enc : α → Bytes}

theorem readNat_varint (fuel n : Nat) (bound : n < 128 ^ (fuel + 1)) (more : Bytes) :
    readNat (varint fuel n ++ more) = some (n, more) := by
  induction fuel generalizing n with
  | zero =>
    rw [varint, cons_append, readNat, toNat_last bound, if_pos (by omega)]
    rfl
  | succ fuel ih =>
    rw [varint]
    split
    · rename_i small
      rw [cons_append, readNat, toNat_last small, if_pos small]
      rfl
    · have rest : n / 128 < 128 ^ (fuel + 1) := Nat.div_lt_of_lt_mul (Nat.pow_succ' ▸ bound)
      have value : n % 128 + 128 - 128 + 128 * (n / 128) = n := by omega
      rw [cons_append, readNat, toNat_continued, if_neg (by omega), ih _ rest, Option.map_some, value]

theorem codes_nat : Codes readNat encNat := fun n more =>
  readNat_varint n n (Nat.lt_trans (Nat.lt_succ_self n) (Nat.lt_pow_self (by decide))) more

def encList (enc : α → Bytes) (items : List α) : Bytes := encNat items.length ++ encodeAll enc items

def readTimes (read : Reader α) : Nat → Reader (List α)
  | 0 => pure []
  | count + 1 => do
    let a ← read
    return a :: (← readTimes read count)

def readList (read : Reader α) : Reader (List α) := do readTimes read (← readNat)

theorem readTimes_encodeAll (codes : Codes read enc) (items : List α) (more : Bytes) :
    readTimes read items.length (encodeAll enc items ++ more) = some (items, more) := by
  induction items with
  | nil => rfl
  | cons a items ih =>
    rw [length_cons, readTimes, encodeAll_cons, append_assoc, codes.bind, bind_of_some ih]
    rfl

theorem codes_list (codes : Codes read enc) : Codes (readList read) (encList enc) := by
  intro items more
  rw [encList, append_assoc, readList, codes_nat.bind]
  exact readTimes_encodeAll codes items more

def encOption (enc : α → Bytes) : Option α → Bytes
  | none => [0]
  | some a => 1 :: enc a

def readOption (read : Reader α) : Reader (Option α) := do
  match (← readByte).toNat with
  | 0 => return none
  | 1 => return some (← read)
  | _ => failure

theorem codes_option (codes : Codes read enc) : Codes (readOption read) (encOption enc) := by
  intro item more
  cases item with
  | none => rfl
  | some a =>
    rw [encOption, cons_append, readOption, bind_of_some (readByte_cons _ _)]
    exact codes.bind

def encPair (first : α → Bytes) (second : β → Bytes) (pair : α × β) : Bytes :=
  first pair.1 ++ second pair.2

def readPair (first : Reader α) (second : Reader β) : Reader (α × β) := do
  let a ← first
  let b ← second
  return (a, b)

theorem codes_pair {first : Reader α} {second : Reader β} {enc' : β → Bytes} (codes : Codes first enc)
    (codes' : Codes second enc') : Codes (readPair first second) (encPair enc enc') := by
  intro pair more
  rw [encPair, append_assoc, readPair, codes.bind, codes'.bind]
  rfl

end Wire

section Framed

variable (crc32 : Bytes → UInt32)

def trailerLen : Nat := 12

def closeBody (marker body : Bytes) : Bytes := body ++ (leBytes 4 (crc32 body).toNat ++ marker)

def openBody (label : String) (minLen : Nat) (magic marker bytes : Bytes) : Except String Bytes := do
  ensure (minLen + trailerLen ≤ bytes.length) (label ++ " is too short")
  let body := bytes.take (bytes.length - trailerLen)
  let trailer := bytes.drop (bytes.length - trailerLen)
  ensure (trailer.drop 4 = marker) (label ++ " missing commit marker")
  ensure (ofLeBytes (trailer.take 4) = (crc32 body).toNat) (label ++ " checksum mismatch")
  ensure (body.take magic.length = magic) (label ++ " magic mismatch")
  return body

def numberOrFail (label : String) (width : Nat) (bytes : Bytes) (pos : Nat) : Except String Nat :=
  match numberAt width bytes pos with
  | some n => .ok n
  | none => .error (label ++ " out of bounds")

theorem openBody_closeBody (label : String) {minLen : Nat} (magic marker rest : Bytes)
    (fits : marker.length = 8) (long : minLen ≤ (magic ++ rest).length) :
    openBody crc32 label minLen magic marker (closeBody crc32 marker (magic ++ rest)) =
      .ok (magic ++ rest) := by
  have length : (closeBody crc32 marker (magic ++ rest)).length = (magic ++ rest).length + trailerLen := by
    rw [closeBody, length_append, @List.length_append _ (leBytes _ _), length_leBytes, fits]
    rfl
  have checksum : (crc32 (magic ++ rest)).toNat < 256 ^ 4 := UInt32.toNat_lt _
  rw [openBody, length, Nat.add_sub_cancel]
  simp only [closeBody, take_left, drop_left]
  simp only [ensure_bind_eq_ok_iff, length_leBytes, take_left', drop_left',
    ofLeBytes_leBytes 4 _ checksum, true_and, Nat.add_le_add_iff_right, long]
  rfl

end Framed

section Segment

structure DeltaKeyRange (κ : Type) where
  min : κ
  max : κ
  deriving DecidableEq, Repr

structure DeltaSegmentKeyRanges where
  eavt : Option (DeltaKeyRange EavtKey)
  aevt : Option (DeltaKeyRange AevtKey)
  avet : Option (DeltaKeyRange AvetKey)
  vaet : Option (DeltaKeyRange VaetKey)
  deriving DecidableEq, Repr

structure DeltaSegmentHeader where
  codecVersion : UInt16
  factCount : Nat
  factPageStart : Nat
  factPageCount : Nat
  lowTxCount : UInt64
  highTxCount : UInt64
  eavtCount : Nat
  aevtCount : Nat
  avetCount : Nat
  vaetCount : Nat
  keyRanges : DeltaSegmentKeyRanges
  deriving DecidableEq, Repr

structure DeltaSegmentPayload where
  facts : List (FactRef × Fact)
  entries : IndexContents

structure DeltaSegment where
  header : DeltaSegmentHeader
  payload : DeltaSegmentPayload

def deltaSegmentMagic : Bytes := [0x4D, 0x47, 0x44, 0x53, 0x47, 0x30, 0x30, 0x31]
def deltaSegmentCommitMarker : Bytes := [0x4D, 0x47, 0x44, 0x53, 0x44, 0x4F, 0x4E, 0x45]
def deltaSegmentCodecVersion : UInt16 := 1
def deltaSegmentPrefixLen : Nat := 20

variable {κ : Type}

def buildIndexEntries (rows : List (FactRef × Fact)) : IndexContents :=
  let facts := rows.map Prod.snd
  let refs := rows.map Prod.fst
  { eavt := extendFromEntries eavt [] (keyed (some ∘ eavtKey) facts refs)
    aevt := extendFromEntries aevt [] (keyed (some ∘ aevtKey) facts refs)
    avet := extendFromEntries avet [] (keyed (some ∘ avetKey) facts refs)
    vaet := extendFromEntries vaet [] (keyed vaetKey facts refs) }

def keyRange (entries : List (κ × FactRef)) : Option (DeltaKeyRange κ) := do
  let first ← entries.head?
  let last ← entries.getLast?
  return ⟨first.1, last.1⟩

def DeltaSegmentPayload.keyRanges (payload : DeltaSegmentPayload) : DeltaSegmentKeyRanges where
  eavt := keyRange payload.entries.eavt
  aevt := keyRange payload.entries.aevt
  avet := keyRange payload.entries.avet
  vaet := keyRange payload.entries.vaet

def txRange (rows : List (FactRef × Fact)) : UInt64 × UInt64 :=
  match rows.map (·.2.txCount) with
  | [] => (0, 0)
  | first :: rest => rest.foldl (fun range tx => (min range.1 tx, max range.2 tx)) (first, first)

def DeltaSegmentHeader.fromPayload (payload : DeltaSegmentPayload) (factPageStart factPageCount : Nat) :
    DeltaSegmentHeader where
  codecVersion := deltaSegmentCodecVersion
  factCount := payload.facts.length
  factPageStart := factPageStart
  factPageCount := factPageCount
  lowTxCount := (txRange payload.facts).1
  highTxCount := (txRange payload.facts).2
  eavtCount := payload.entries.eavt.length
  aevtCount := payload.entries.aevt.length
  avetCount := payload.entries.avet.length
  vaetCount := payload.entries.vaet.length
  keyRanges := payload.keyRanges

def validateFactRows (start stop : Nat) : List FactRef → List (FactRef × Fact) → Except String Unit
  | _, [] => .ok ()
  | seen, (ref, _) :: rows => do
    ensure (start ≤ ref.pageId.toNat ∧ ref.pageId.toNat < stop)
      "delta fact row page reference out of bounds"
    ensure (ref ∉ seen) "Delta segment duplicate fact reference"
    validateFactRows start stop (ref :: seen) rows

def validateIndexRefs (label : String) (refs : List FactRef) (entries : List (κ × FactRef)) :
    Except String Unit :=
  ensure (∀ entry ∈ entries, entry.2 ∈ refs) (label ++ " entry references missing fact")

def DeltaSegment.validate (segment : DeltaSegment) : Except String Unit := do
  let header := segment.header
  let facts := segment.payload.facts
  let entries := segment.payload.entries
  ensure (header.codecVersion = deltaSegmentCodecVersion)
    "Unsupported delta segment codec version"
  ensure (header.factCount = facts.length) "Delta segment fact count mismatch"
  ensure (header.eavtCount = entries.eavt.length) "Delta segment EAVT count mismatch"
  ensure (header.aevtCount = entries.aevt.length) "Delta segment AEVT count mismatch"
  ensure (header.avetCount = entries.avet.length) "Delta segment AVET count mismatch"
  ensure (header.vaetCount = entries.vaet.length) "Delta segment VAET count mismatch"
  ensure (header.keyRanges = segment.payload.keyRanges)
    "Delta segment key range metadata mismatch"
  ensure (header.lowTxCount = (txRange facts).1 ∧ header.highTxCount = (txRange facts).2)
    "Delta segment tx_count range mismatch"
  ensure (header.factPageStart + header.factPageCount < 2 ^ 64)
    "Delta segment fact page range overflow"
  validateFactRows header.factPageStart (header.factPageStart + header.factPageCount) [] facts
  let refs := facts.map Prod.fst
  validateIndexRefs "EAVT" refs entries.eavt
  validateIndexRefs "AEVT" refs entries.aevt
  validateIndexRefs "AVET" refs entries.avet
  validateIndexRefs "VAET" refs entries.vaet
  let expected := buildIndexEntries facts
  ensure (entries.eavt = expected.eavt ∧ entries.aevt = expected.aevt ∧
      entries.avet = expected.avet ∧ entries.vaet = expected.vaet)
    "Delta segment index entries do not match facts"

def DeltaSegment.fromParts (header : DeltaSegmentHeader) (payload : DeltaSegmentPayload) :
    Except String DeltaSegment := do
  let segment : DeltaSegment := ⟨header, payload⟩
  segment.validate
  return segment

def packedRefs (facts : List Fact) (factPageStart : Nat) : Except String (Nat × List FactRef) :=
  if facts = [] then .ok (0, [])
  else do
    let (pages, refs) ← packFacts facts factPageStart
    return (pages.length, refs)

def DeltaSegment.fromFacts (facts : List Fact) (factPageStart : Nat) : Except String DeltaSegment := do
  let (factPageCount, refs) ← packedRefs facts factPageStart
  let rows := refs.zip facts
  let payload : DeltaSegmentPayload := ⟨rows, buildIndexEntries rows⟩
  fromParts (DeltaSegmentHeader.fromPayload payload factPageStart factPageCount) payload

end Segment

section SegmentBytes

variable (crc32 : Bytes → UInt32) {κ : Type}

def DeltaKeyRange.toBytes (kind : IndexKind κ) (range : DeltaKeyRange κ) : Bytes :=
  kind.toBytes range.min ++ kind.toBytes range.max

def DeltaKeyRange.read (kind : IndexKind κ) : Reader (DeltaKeyRange κ) := do
  let min ← kind.read
  let max ← kind.read
  return { min, max }

def DeltaSegmentKeyRanges.toBytes (ranges : DeltaSegmentKeyRanges) : Bytes :=
  encOption (DeltaKeyRange.toBytes ViciaDb.eavt) ranges.eavt ++
    (encOption (DeltaKeyRange.toBytes ViciaDb.aevt) ranges.aevt ++
      (encOption (DeltaKeyRange.toBytes ViciaDb.avet) ranges.avet ++
        encOption (DeltaKeyRange.toBytes ViciaDb.vaet) ranges.vaet))

def DeltaSegmentKeyRanges.read : Reader DeltaSegmentKeyRanges := do
  let eavt ← readOption (DeltaKeyRange.read ViciaDb.eavt)
  let aevt ← readOption (DeltaKeyRange.read ViciaDb.aevt)
  let avet ← readOption (DeltaKeyRange.read ViciaDb.avet)
  let vaet ← readOption (DeltaKeyRange.read ViciaDb.vaet)
  return { eavt, aevt, avet, vaet }

def DeltaSegmentHeader.toBytes (header : DeltaSegmentHeader) : Bytes :=
  encU16 header.codecVersion ++ (encNat header.factCount ++ (encNat header.factPageStart ++
    (encNat header.factPageCount ++ (encU64 header.lowTxCount ++ (encU64 header.highTxCount ++
      (encNat header.eavtCount ++ (encNat header.aevtCount ++ (encNat header.avetCount ++
        (encNat header.vaetCount ++ header.keyRanges.toBytes)))))))))

def DeltaSegmentHeader.read : Reader DeltaSegmentHeader := do
  let codecVersion ← readU16
  let factCount ← readNat
  let factPageStart ← readNat
  let factPageCount ← readNat
  let lowTxCount ← readU64
  let highTxCount ← readU64
  let eavtCount ← readNat
  let aevtCount ← readNat
  let avetCount ← readNat
  let vaetCount ← readNat
  let keyRanges ← DeltaSegmentKeyRanges.read
  return ⟨codecVersion, factCount, factPageStart, factPageCount, lowTxCount, highTxCount, eavtCount,
    aevtCount, avetCount, vaetCount, keyRanges⟩

def DeltaSegmentPayload.toBytes (payload : DeltaSegmentPayload) : Bytes :=
  encList (encPair FactRef.toBytes encFact) payload.facts ++
    (encList ViciaDb.eavt.entryBytes payload.entries.eavt ++
      (encList ViciaDb.aevt.entryBytes payload.entries.aevt ++
        (encList ViciaDb.avet.entryBytes payload.entries.avet ++
          encList ViciaDb.vaet.entryBytes payload.entries.vaet)))

def DeltaSegmentPayload.read : Reader DeltaSegmentPayload := do
  let facts ← readList (readPair FactRef.read readFact)
  let eavt ← readList ViciaDb.eavt.readEntry
  let aevt ← readList ViciaDb.aevt.readEntry
  let avet ← readList ViciaDb.avet.readEntry
  let vaet ← readList ViciaDb.vaet.readEntry
  return { facts, entries := { eavt, aevt, avet, vaet } }

def DeltaSegment.framed (segment : DeltaSegment) : Bytes :=
  leBytes 4 segment.header.toBytes.length ++ (leBytes 8 segment.payload.toBytes.length ++
    (segment.header.toBytes ++ segment.payload.toBytes))

def DeltaSegment.encode (segment : DeltaSegment) : Except String Bytes := do
  segment.validate
  ensure (segment.header.toBytes.length < 2 ^ 32) "Delta segment header exceeds u32 length"
  ensure (segment.payload.toBytes.length < 2 ^ 64) "Delta segment payload exceeds u64 length"
  return closeBody crc32 deltaSegmentCommitMarker (deltaSegmentMagic ++ segment.framed)

def DeltaSegment.decode (bytes : Bytes) : Except String DeltaSegment := do
  let body ← openBody crc32 "Delta segment" deltaSegmentPrefixLen deltaSegmentMagic
    deltaSegmentCommitMarker bytes
  let headerLen ← numberOrFail "delta segment header length" 4 body 8
  let payloadLen ← numberOrFail "delta segment payload length" 8 body 12
  ensure (deltaSegmentPrefixLen + headerLen + payloadLen = body.length)
    "Delta segment length fields do not match body length"
  let header ← fromBytes DeltaSegmentHeader.read ((body.drop deltaSegmentPrefixLen).take headerLen)
  let payload ← fromBytes DeltaSegmentPayload.read
    ((body.drop (deltaSegmentPrefixLen + headerLen)).take payloadLen)
  DeltaSegment.fromParts header payload

def DeltaSegment.decodeFromPageBytes (bytes : Bytes) : Except String DeltaSegment := do
  ensure (deltaSegmentPrefixLen + trailerLen ≤ bytes.length)
    "Delta segment page bytes are too short"
  ensure (bytes.take deltaSegmentMagic.length = deltaSegmentMagic) "Delta segment magic mismatch"
  let headerLen ← numberOrFail "delta segment header length" 4 bytes 8
  let payloadLen ← numberOrFail "delta segment payload length" 8 bytes 12
  let exactLen := deltaSegmentPrefixLen + headerLen + payloadLen + trailerLen
  ensure (exactLen ≤ bytes.length) "Delta segment encoded length exceeds descriptor pages"
  DeltaSegment.decode crc32 (bytes.take exactLen)

def segmentPages (segment : DeltaSegment) (pageStart : Nat) : Except String (List Bytes) := do
  ensure (pageStart ≠ 0) "Delta segment must not start on page 0"
  return toPages pageSize (← segment.encode crc32)

end SegmentBytes

section RoundTrip

variable {crc32 : Bytes → UInt32} {κ : Type} {segment : DeltaSegment} {bytes : Bytes}

theorem DeltaKeyRange.codes (kind : IndexKind κ) :
    Codes (DeltaKeyRange.read kind) (DeltaKeyRange.toBytes kind) := by
  intro range more
  rw [toBytes, append_assoc, read, kind.reads.bind, kind.reads.bind]
  rfl

theorem DeltaSegmentKeyRanges.codes : Codes DeltaSegmentKeyRanges.read DeltaSegmentKeyRanges.toBytes := by
  intro ranges more
  simp only [toBytes, append_assoc]
  rw [read, (codes_option (DeltaKeyRange.codes _)).bind, (codes_option (DeltaKeyRange.codes _)).bind,
    (codes_option (DeltaKeyRange.codes _)).bind,
    (codes_option (DeltaKeyRange.codes _)).bind]
  rfl

theorem DeltaSegmentHeader.codes : Codes DeltaSegmentHeader.read DeltaSegmentHeader.toBytes := by
  intro header more
  simp only [toBytes, append_assoc]
  rw [read, codes_u16.bind, codes_nat.bind, codes_nat.bind, codes_nat.bind, codes_u64.bind, codes_u64.bind,
    codes_nat.bind, codes_nat.bind, codes_nat.bind,
    codes_nat.bind, DeltaSegmentKeyRanges.codes.bind]
  rfl

theorem DeltaSegmentPayload.codes : Codes DeltaSegmentPayload.read DeltaSegmentPayload.toBytes := by
  intro payload more
  simp only [toBytes, append_assoc]
  rw [read, (codes_list (codes_pair FactRef.codes codes_fact)).bind,
    (codes_list (IndexKind.codes_entry _)).bind,
    (codes_list (IndexKind.codes_entry _)).bind,
    (codes_list (IndexKind.codes_entry _)).bind,
    (codes_list (IndexKind.codes_entry _)).bind]
  rfl

theorem numberOrFail_of_number {label : String} {width pos n : Nat}
    (found : numberAt width bytes pos = some n) : numberOrFail label width bytes pos = .ok n := by
  rw [numberOrFail, found]

theorem DeltaSegment.encode_eq_ok_iff : segment.encode crc32 = .ok bytes ↔
    segment.validate = .ok () ∧ segment.header.toBytes.length < 2 ^ 32 ∧
      segment.payload.toBytes.length < 2 ^ 64 ∧
      closeBody crc32 deltaSegmentCommitMarker (deltaSegmentMagic ++ segment.framed) = bytes := by
  rw [encode, bind_eq_ok_iff]
  simp only [ensure_bind_eq_ok_iff, pure, Except.pure, Except.ok.injEq]
  constructor
  · rintro ⟨u, valid, rest⟩
    exact ⟨valid, rest⟩
  · rintro ⟨valid, rest⟩
    exact ⟨(), valid, rest⟩

theorem length_closeBody (crc32 : Bytes → UInt32) {marker : Bytes} (fits : marker.length = 8) (body : Bytes) :
    (closeBody crc32 marker body).length = body.length + trailerLen := by
  rw [closeBody, length_append, @List.length_append _ (leBytes _ _), length_leBytes, fits]
  rfl

theorem DeltaSegment.framed_lengths (small : segment.header.toBytes.length < 2 ^ 32)
    (small' : segment.payload.toBytes.length < 2 ^ 64) (more : Bytes) :
    numberAt 4 (deltaSegmentMagic ++ segment.framed ++ more) 8 = some segment.header.toBytes.length ∧
      numberAt 8 (deltaSegmentMagic ++ segment.framed ++ more) 12 =
        some segment.payload.toBytes.length := by
  constructor
  · rw [framed, append_assoc, append_assoc]
    exact numberAt_append 4 deltaSegmentMagic _ small
  have front : (deltaSegmentMagic ++ leBytes 4 segment.header.toBytes.length).length = 12 := by
    rw [length_append, length_leBytes]
    rfl
  have number := numberAt_append 8 (deltaSegmentMagic ++ leBytes 4 segment.header.toBytes.length)
    (segment.header.toBytes ++ segment.payload.toBytes ++ more) small'
  rw [front] at number
  rw [← number, framed]
  simp only [append_assoc]

theorem DeltaSegment.length_body : (deltaSegmentMagic ++ segment.framed).length =
      deltaSegmentPrefixLen + segment.header.toBytes.length + segment.payload.toBytes.length := by
  simp only [framed, length_append, length_leBytes]
  change 8 + _ = 20 + _ + _
  omega

theorem DeltaSegment.drop_frame : (deltaSegmentMagic ++ segment.framed).drop deltaSegmentPrefixLen =
    segment.header.toBytes ++ segment.payload.toBytes := by
  rw [framed, ← append_assoc (leBytes 4 _), ← append_assoc deltaSegmentMagic]
  apply drop_left'
  simp only [length_append, length_leBytes]
  rfl

theorem DeltaSegment.decode_encode (encoded : segment.encode crc32 = .ok bytes) :
    decode crc32 bytes = .ok segment := by
  obtain ⟨valid, small, small', rfl⟩ := encode_eq_ok_iff.mp encoded
  have long : deltaSegmentPrefixLen ≤ (deltaSegmentMagic ++ segment.framed).length := by
    rw [length_body]
    omega
  have opened := openBody_closeBody crc32 "Delta segment" deltaSegmentMagic deltaSegmentCommitMarker
    segment.framed rfl long
  obtain ⟨first, second⟩ := framed_lengths small small' []
  rw [append_nil] at first second
  have header : ((deltaSegmentMagic ++ segment.framed).drop deltaSegmentPrefixLen).take
      segment.header.toBytes.length = segment.header.toBytes := by
    rw [drop_frame, take_left]
  have payload : ((deltaSegmentMagic ++ segment.framed).drop
      (deltaSegmentPrefixLen + segment.header.toBytes.length)).take segment.payload.toBytes.length =
        segment.payload.toBytes := by
    rw [← drop_drop, drop_frame, drop_left, take_length]
  simp only [decode, opened, bind, Except.bind, numberOrFail_of_number first,
    numberOrFail_of_number second, length_body, ensure, if_true, header, payload,
    fromBytes_of_codes DeltaSegmentHeader.codes, fromBytes_of_codes DeltaSegmentPayload.codes,
    fromParts, valid]
  rfl

theorem DeltaSegment.decodeFromPageBytes_encode (encoded : segment.encode crc32 = .ok bytes)
    (padding : Bytes) : decodeFromPageBytes crc32 (bytes ++ padding) = .ok segment := by
  have decoded := decode_encode encoded
  obtain ⟨-, small, small', rfl⟩ := encode_eq_ok_iff.mp encoded
  have length := length_closeBody crc32 (rfl : deltaSegmentCommitMarker.length = 8)
    (deltaSegmentMagic ++ segment.framed)
  rw [length_body] at length
  have whole : closeBody crc32 deltaSegmentCommitMarker (deltaSegmentMagic ++ segment.framed) ++ padding =
      deltaSegmentMagic ++ segment.framed ++
        (leBytes 4 (crc32 (deltaSegmentMagic ++ segment.framed)).toNat ++ deltaSegmentCommitMarker ++
          padding) := by
    simp only [closeBody, append_assoc]
  obtain ⟨first, second⟩ := framed_lengths small small'
    (leBytes 4 (crc32 (deltaSegmentMagic ++ segment.framed)).toNat ++ deltaSegmentCommitMarker ++ padding)
  rw [← whole] at first second
  have magic : (closeBody crc32 deltaSegmentCommitMarker (deltaSegmentMagic ++ segment.framed) ++
      padding).take deltaSegmentMagic.length = deltaSegmentMagic := by
    rw [whole, append_assoc, take_left]
  have exact : (closeBody crc32 deltaSegmentCommitMarker (deltaSegmentMagic ++ segment.framed) ++
      padding).take (deltaSegmentPrefixLen + segment.header.toBytes.length +
        segment.payload.toBytes.length + trailerLen) =
      closeBody crc32 deltaSegmentCommitMarker (deltaSegmentMagic ++ segment.framed) :=
    take_left' length
  simp only [decodeFromPageBytes, bind, Except.bind, numberOrFail_of_number first,
    numberOrFail_of_number second, magic, exact, decoded, ensure, if_true, length_append,
    length]
  rw [if_pos (by omega)]
  simp only []
  rw [if_pos (by omega)]

end RoundTrip

section Keys

variable {κ : Type} {kind : IndexKind κ} {key : Fact → Option κ} {facts : List Fact}
  {refs : List FactRef}

theorem keyed_cons_none {fact : Fact} (none : key fact = .none) (ref : FactRef) :
    keyed key (fact :: facts) (ref :: refs) = keyed key facts refs := by
  simp [keyed, none]

theorem keyed_cons_some {fact : Fact} {k : κ} (found : key fact = some k) (ref : FactRef) :
    keyed key (fact :: facts) (ref :: refs) = (k, ref) :: keyed key facts refs := by
  simp [keyed, found]

end Keys

end ViciaDb
