import ViciaDb.Storage.DeltaManifest

namespace ViciaDb

open ByteReader SlottedPage PagedBytes BTree PackedPages Wal.Postcard List Except
open Std.ReflCmp (compare_self)
open UInt64 (le_refl le_trans)

section Entries

variable {κ : Type} {kind : IndexKind κ}

/-- The entries are the index of the rows: in key order, each with the reference of a row that has
    its key, and every key of a row is there. -/
structure IndexesRows (kind : IndexKind κ) (key : Fact → Option κ) (rows : List (FactRef × Fact))
    (entries : List (κ × FactRef)) : Prop where
  increasing : Increasing kind entries
  ofRow : ∀ entry ∈ entries, ∃ row ∈ rows, row.1 = entry.2 ∧
    ∃ k, key row.2 = some k ∧ kind.cmp k entry.1 = .eq
  ofKey : ∀ row ∈ rows, ∀ k, key row.2 = some k → ∃ entry ∈ entries, kind.cmp k entry.1 = .eq

theorem extendFromEntries_holds {map : List (κ × FactRef)} (added : List (κ × FactRef))
    (sorted : Increasing kind map) :
    Increasing kind (extendFromEntries kind map added) ∧
      (∀ entry ∈ extendFromEntries kind map added,
        ∃ old ∈ map ++ added, old.2 = entry.2 ∧ kind.cmp old.1 entry.1 = .eq) ∧
      ∀ old ∈ map ++ added, ∃ entry ∈ extendFromEntries kind map added,
        kind.cmp old.1 entry.1 = .eq := by
  induction added generalizing map with
  | nil =>
    rw [append_nil]
    exact ⟨sorted, fun entry member => ⟨entry, member, rfl, compare_self⟩,
      fun old member => ⟨old, member, compare_self⟩⟩
  | cons first added ih =>
    obtain ⟨increasing, sound, complete⟩ :=
      ih (@SortedMap.sorted_insert κ FactRef kind.cmp _ first.1 first.2 map sorted)
    obtain ⟨⟨filed, isFiled, same⟩, kept⟩ := SortedMap.keys_of_insert kind.cmp first.1 first.2 map
    refine ⟨increasing, fun entry member => ?_, fun old member => ?_⟩
    · obtain ⟨old, inMap, ref, key⟩ := sound entry member
      rcases mem_append.mp inMap with inMap | inAdded
      · rcases SortedMap.of_mem_insert inMap with known | ⟨value, equal⟩
        · exact ⟨old, mem_append_left _ known, ref, key⟩
        · refine ⟨first, by simp, value.symm.trans ref, ?_⟩
          exact Std.TransCmp.eq_trans equal key
      · exact ⟨old, by simp [inAdded], ref, key⟩
    · have present : ∃ other ∈ SortedMap.insert kind.cmp first.1 first.2 map ++ added,
          kind.cmp old.1 other.1 = .eq := by
        rcases mem_append.mp member with inMap | inAdded
        · obtain ⟨other, inserted, known⟩ := kept old inMap
          exact ⟨other, mem_append_left _ inserted, known ▸ compare_self⟩
        · rcases mem_cons.mp inAdded with rfl | inAdded
          · exact ⟨filed, mem_append_left _ isFiled, same⟩
          · exact ⟨old, mem_append_right _ inAdded, compare_self⟩
      obtain ⟨other, inside, equal⟩ := present
      obtain ⟨entry, found, key⟩ := complete other inside
      exact ⟨entry, found, Std.TransCmp.eq_trans equal key⟩

variable {key : Fact → Option κ} {rows : List (FactRef × Fact)} {entries : List (κ × FactRef)}

theorem mem_keyed_rows {entry : κ × FactRef} :
    entry ∈ keyed key (rows.map Prod.snd) (rows.map Prod.fst) ↔
      ∃ row ∈ rows, row.1 = entry.2 ∧ key row.2 = some entry.1 := by
  induction rows with
  | nil => simp [keyed]
  | cons row rows ih =>
    cases found : key row.2 with
    | none =>
      rw [map_cons, map_cons, keyed_cons_none found, ih]
      simp [found]
    | some k =>
      rw [map_cons, map_cons, keyed_cons_some found, mem_cons, ih,
        exists_mem_cons_iff, found, Option.some.injEq]
      refine or_congr_left ⟨?_, ?_⟩
      · rintro rfl
        exact ⟨rfl, rfl⟩
      · rintro ⟨ref, rfl⟩
        exact Prod.ext rfl ref.symm

theorem indexesRows_of_built
    (built : entries = extendFromEntries kind [] (keyed key (rows.map Prod.snd) (rows.map Prod.fst))) :
    IndexesRows kind key rows entries := by
  subst built
  obtain ⟨increasing, sound, complete⟩ := @extendFromEntries_holds κ kind []
    (keyed key (rows.map Prod.snd) (rows.map Prod.fst)) .nil
  refine ⟨increasing, fun entry member => ?_, fun row member k found => ?_⟩
  · obtain ⟨old, inKeyed, ref, same⟩ := sound entry member
    obtain ⟨row, inRows, place, isKey⟩ := mem_keyed_rows.mp inKeyed
    exact ⟨row, inRows, place.trans ref, old.1, isKey, same⟩
  · exact complete (k, row.1) (mem_keyed_rows.mpr ⟨row, member, rfl, found⟩)

/-- The range is from the least key to the greatest one. -/
structure IsKeyRange (kind : IndexKind κ) (range : Option (DeltaKeyRange κ))
    (entries : List (κ × FactRef)) : Prop where
  empty : range = none ↔ entries = []
  lowest : ∀ bounds, range = some bounds → ∃ entry ∈ entries, entry.1 = bounds.min
  highest : ∀ bounds, range = some bounds → ∃ entry ∈ entries, entry.1 = bounds.max
  bounds : ∀ bounds, range = some bounds → ∀ entry ∈ entries,
    (kind.cmp bounds.min entry.1).isLE ∧ (kind.cmp entry.1 bounds.max).isLE

theorem isKeyRange_keyRange (increasing : Increasing kind entries) :
    IsKeyRange kind (keyRange entries) entries := by
  rcases eq_nil_or_concat entries with rfl | ⟨front, last, split⟩
  · exact ⟨⟨fun _ => rfl, fun _ => rfl⟩, by rintro _ ⟨⟩, by rintro _ ⟨⟩, by rintro _ ⟨⟩⟩
  rw [concat_eq_append] at split
  cases entries with
  | nil => cases front <;> cases split
  | cons first rest =>
    have found : keyRange (first :: rest) = some ⟨first.1, last.1⟩ := by
      rw [keyRange, List.head?_cons, split, List.getLast?_concat]
      rfl
    rw [found]
    refine ⟨⟨by rintro ⟨⟩, by rintro ⟨⟩⟩, ?_, ?_, ?_⟩
    · rintro _ ⟨⟩
      exact ⟨first, mem_cons_self, rfl⟩
    · rintro _ ⟨⟩
      exact ⟨last, by rw [split]; simp, rfl⟩
    rintro _ ⟨⟩ entry member
    constructor
    · rcases mem_cons.mp member with rfl | inRest
      · simp [compare_self]
      · rw [(pairwise_cons.mp increasing).1 entry inRest]
        rfl
    · rw [split] at member increasing
      rcases mem_append.mp member with inFront | isLast
      · rw [(pairwise_append.mp increasing).2.2 entry inFront last (by simp)]
        rfl
      · rw [mem_singleton.mp isLast]
        simp [compare_self]

end Entries

variable {segments : List DeltaManifestSegment} {rows : List (FactRef × Fact)}

section Ranges

structure IsRange (pairs : List (UInt64 × UInt64)) (low high : UInt64) : Prop where
  bounds : ∀ pair ∈ pairs, low ≤ pair.1 ∧ pair.2 ≤ high
  lowest : ∃ pair ∈ pairs, pair.1 = low
  highest : ∃ pair ∈ pairs, pair.2 = high

theorem max_bounds (a b : UInt64) : a ≤ max a b ∧ b ≤ max a b ∧ (max a b = a ∨ max a b = b) := by
  have choice : max a b = if a ≤ b then b else a := rfl
  rw [choice]
  split
  · rename_i le
    exact ⟨le, le_refl _, .inr rfl⟩
  · rename_i greater
    exact ⟨le_refl _, UInt64.le_of_lt (UInt64.not_le.mp greater), .inl rfl⟩

def rangeOf (start : UInt64 × UInt64) (pairs : List (UInt64 × UInt64)) : UInt64 × UInt64 :=
  pairs.foldl (fun range pair => (min range.1 pair.1, max range.2 pair.2)) start

theorem isRange_rangeOf (start : UInt64 × UInt64) (pairs : List (UInt64 × UInt64)) :
    IsRange (start :: pairs) (rangeOf start pairs).1 (rangeOf start pairs).2 := by
  induction pairs generalizing start with
  | nil =>
    refine ⟨fun pair member => ?_, ⟨start, by simp, rfl⟩, ⟨start, by simp, rfl⟩⟩
    rw [mem_singleton.mp member]
    exact ⟨le_refl _, le_refl _⟩
  | cons pair pairs ih =>
    obtain ⟨bounds, ⟨least, isLeast, low⟩, ⟨greatest, isGreatest, high⟩⟩ :=
      ih (min start.1 pair.1, max start.2 pair.2)
    obtain ⟨firstLow, firstHigh⟩ := bounds _ mem_cons_self
    obtain ⟨left, right, either⟩ := max_bounds start.2 pair.2
    refine ⟨fun other member => ?_, ?_, ?_⟩
    · rcases mem_cons.mp member with rfl | member
      · exact ⟨le_trans firstLow Std.min_le_left, le_trans left firstHigh⟩
      · rcases mem_cons.mp member with rfl | member
        · exact ⟨le_trans firstLow Std.min_le_right, le_trans right firstHigh⟩
        · exact bounds other (mem_cons_of_mem _ member)
    · rcases mem_cons.mp isLeast with rfl | isLeast
      · have choice : min start.1 pair.1 = start.1 ∨ min start.1 pair.1 = pair.1 := Std.min_eq_or
        rcases choice with isStart | isPair
        · exact ⟨start, by simp, isStart.symm.trans low⟩
        · exact ⟨pair, by simp, isPair.symm.trans low⟩
      · exact ⟨least, by simp [isLeast], low⟩
    · rcases mem_cons.mp isGreatest with rfl | isGreatest
      · rcases either with isStart | isPair
        · exact ⟨start, by simp, isStart.symm.trans high⟩
        · exact ⟨pair, by simp, isPair.symm.trans high⟩
      · exact ⟨greatest, by simp [isGreatest], high⟩

theorem isRange_txRange (some : rows ≠ []) :
    IsRange (rows.map fun row => (row.2.txCount, row.2.txCount)) (txRange rows).1 (txRange rows).2 := by
  cases rows with
  | nil => exact absurd rfl some
  | cons first rest =>
    have fold : txRange (first :: rest) = rangeOf (first.2.txCount, first.2.txCount)
        (rest.map fun row => (row.2.txCount, row.2.txCount)) := by
      simp only [txRange, rangeOf, map_cons, foldl_map]
    rw [fold]
    exact isRange_rangeOf _ _

theorem isRange_segmentTxRange (some : segments ≠ []) :
    IsRange (segments.map fun segment => (segment.lowTxCount, segment.highTxCount))
      (segmentTxRange segments).1 (segmentTxRange segments).2 := by
  cases segments with
  | nil => exact absurd rfl some
  | cons first rest =>
    have fold : segmentTxRange (first :: rest) = rangeOf (first.lowTxCount, first.highTxCount)
        (rest.map fun segment => (segment.lowTxCount, segment.highTxCount)) := by
      rw [segmentTxRange, rangeOf, foldl_map]
    rw [fold]
    exact isRange_rangeOf _ _

end Ranges

section Segment

variable {segment : DeltaSegment}

structure DeltaSegment.Valid (segment : DeltaSegment) : Prop where
  version : segment.header.codecVersion = deltaSegmentCodecVersion
  factCount : segment.header.factCount = segment.payload.facts.length
  eavtCount : segment.header.eavtCount = segment.payload.entries.eavt.length
  aevtCount : segment.header.aevtCount = segment.payload.entries.aevt.length
  avetCount : segment.header.avetCount = segment.payload.entries.avet.length
  vaetCount : segment.header.vaetCount = segment.payload.entries.vaet.length
  eavtRange : IsKeyRange eavt segment.header.keyRanges.eavt segment.payload.entries.eavt
  aevtRange : IsKeyRange aevt segment.header.keyRanges.aevt segment.payload.entries.aevt
  avetRange : IsKeyRange avet segment.header.keyRanges.avet segment.payload.entries.avet
  vaetRange : IsKeyRange vaet segment.header.keyRanges.vaet segment.payload.entries.vaet
  noFacts : segment.payload.facts = [] → segment.header.lowTxCount = 0 ∧ segment.header.highTxCount = 0
  txRange : segment.payload.facts ≠ [] →
    IsRange (segment.payload.facts.map fun row => (row.2.txCount, row.2.txCount))
      segment.header.lowTxCount segment.header.highTxCount
  pages64 : segment.header.factPageStart + segment.header.factPageCount < 2 ^ 64
  inside : ∀ row ∈ segment.payload.facts, segment.header.factPageStart ≤ row.1.pageId.toNat ∧
    row.1.pageId.toNat < segment.header.factPageStart + segment.header.factPageCount
  apart : (segment.payload.facts.map Prod.fst).Nodup
  eavt : IndexesRows eavt (some ∘ eavtKey) segment.payload.facts segment.payload.entries.eavt
  aevt : IndexesRows aevt (some ∘ aevtKey) segment.payload.facts segment.payload.entries.aevt
  avet : IndexesRows avet (some ∘ avetKey) segment.payload.facts segment.payload.entries.avet
  vaet : IndexesRows vaet vaetKey segment.payload.facts segment.payload.entries.vaet

theorem validateFactRows_eq_ok_iff {start stop : Nat} {seen : List FactRef} :
    validateFactRows start stop seen rows = .ok () ↔
      (∀ row ∈ rows, start ≤ row.1.pageId.toNat ∧ row.1.pageId.toNat < stop) ∧
        (rows.map Prod.fst).Nodup ∧ ∀ ref ∈ rows.map Prod.fst, ref ∉ seen := by
  induction rows generalizing seen with
  | nil => simp [validateFactRows]
  | cons row rows ih =>
    rw [validateFactRows, ensure_bind_eq_ok_iff, ensure_bind_eq_ok_iff, ih]
    simp only [map_cons, nodup_cons, forall_mem_cons]
    constructor
    · rintro ⟨inside, fresh, insideRest, apart, unseen⟩
      exact ⟨⟨inside, insideRest⟩, ⟨fun again => unseen _ again mem_cons_self, apart⟩, fresh,
        fun ref member known => unseen ref member (mem_cons_of_mem _ known)⟩
    · rintro ⟨⟨inside, insideRest⟩, ⟨once, apart⟩, fresh, unseen⟩
      refine ⟨inside, fresh, insideRest, apart, fun ref member => ?_⟩
      rw [mem_cons, not_or]
      exact ⟨fun same => once (same ▸ member), unseen ref member⟩

theorem DeltaSegment.valid_of_validate (checked : segment.validate = .ok ()) : segment.Valid := by
  simp only [validate, bind_eq_ok_iff, ensure_eq_ok_iff, exists_and_left, exists_const] at checked
  obtain ⟨version, factCount, eavtCount, aevtCount, avetCount, vaetCount, keyRanges, ⟨low, high⟩,
    pages64, ⟨_, rows, -, -, -, -, -, -, -, -, eavt, aevt, avet, vaet⟩⟩ := checked
  obtain ⟨inside, apart, -⟩ := validateFactRows_eq_ok_iff.mp rows
  have eavtIndex := indexesRows_of_built eavt
  have aevtIndex := indexesRows_of_built aevt
  have avetIndex := indexesRows_of_built avet
  have vaetIndex := indexesRows_of_built vaet
  refine ⟨version, factCount, eavtCount, aevtCount, avetCount, vaetCount,
    keyRanges ▸ isKeyRange_keyRange eavtIndex.increasing, keyRanges ▸ isKeyRange_keyRange aevtIndex.increasing,
    keyRanges ▸ isKeyRange_keyRange avetIndex.increasing, keyRanges ▸ isKeyRange_keyRange vaetIndex.increasing,
    ?_, ?_, pages64,
    inside, apart, eavtIndex, aevtIndex, avetIndex, vaetIndex⟩
  · intro none
    rw [low, high, none]
    exact ⟨rfl, rfl⟩
  · intro some
    rw [low, high]
    exact isRange_txRange some

theorem DeltaSegment.validate_of_decode {crc32 : Bytes → UInt32} {bytes : Bytes}
    (decoded : DeltaSegment.decode crc32 bytes = .ok segment) : segment.validate = .ok () := by
  simp only [decode, fromParts, bind_eq_ok_iff, ensure_eq_ok_iff, exists_and_left,
    exists_const, pure, Except.pure, Except.ok.injEq] at decoded
  obtain ⟨body, -, headerLen, -, payloadLen, -, -, header, -, payload, -, u, valid, rfl⟩ := decoded
  exact valid

end Segment

section Manifest

variable {manifest : DeltaManifest}

def DeltaManifestSegment.Before (first second : DeltaManifestSegment) : Prop :=
  first.highTxCount < second.lowTxCount ∧
    first.segmentPageStart + first.segmentPageCount ≤ second.segmentPageStart

/-- The bounds of a manifest agree with its segments, which lie behind the base, apart and in
    order. -/
structure DeltaManifest.Valid (manifest : DeltaManifest) : Prop where
  version : manifest.codecVersion = deltaManifestCodecVersion
  noSegments : manifest.segments = [] → manifest.lowTxCount = 0 ∧ manifest.highTxCount = 0
  txRange : manifest.segments ≠ [] →
    IsRange (manifest.segments.map fun segment => (segment.lowTxCount, segment.highTxCount))
      manifest.lowTxCount manifest.highTxCount
  base : manifest.segments ≠ [] → manifest.baseIdentity.pageCount ≠ 0 ∧
    manifest.baseIdentity.roots.Present ∧
    manifest.baseIdentity.checkpointTxCount < manifest.lowTxCount
  behindBase : ∀ segment ∈ manifest.segments,
    manifest.baseIdentity.pageCount ≤ segment.segmentPageStart
  each : ∀ segment ∈ manifest.segments, segment.segmentPageCount ≠ 0 ∧
    segment.segmentPageStart + segment.segmentPageCount < 2 ^ 64 ∧
    segment.factPageStart + segment.factPageCount < 2 ^ 64 ∧
    segment.lowTxCount ≤ segment.highTxCount
  ordered : manifest.segments.Pairwise DeltaManifestSegment.Before

theorem DeltaManifestSegment.Before.trans {first second third : DeltaManifestSegment}
    (before : first.Before second) (after : second.Before third)
    (range : second.lowTxCount ≤ second.highTxCount) : first.Before third := by
  refine ⟨UInt64.lt_trans before.1 (UInt64.lt_of_le_of_lt range after.1), ?_⟩
  have left := before.2
  have right := after.2
  omega

theorem validateSegments_eq_ok {previous : Option DeltaManifestSegment}
    (valid : validateSegments previous segments = .ok ()) :
    (∀ segment ∈ segments, segment.segmentPageCount ≠ 0 ∧
        segment.segmentPageStart + segment.segmentPageCount < 2 ^ 64 ∧
        segment.factPageStart + segment.factPageCount < 2 ^ 64 ∧
        segment.lowTxCount ≤ segment.highTxCount) ∧
      segments.Pairwise DeltaManifestSegment.Before ∧
      ∀ earlier, previous = some earlier → ∀ segment ∈ segments, earlier.Before segment := by
  induction segments generalizing previous with
  | nil => simp
  | cons segment segments ih =>
    simp only [validateSegments, bind_eq_ok_iff, ensure_eq_ok_iff, exists_and_left, exists_const] at valid
    obtain ⟨some, pages64, facts64, range, u, follows, rest⟩ := valid
    obtain ⟨each, ordered, later⟩ := ih rest
    refine ⟨forall_mem_cons.mpr ⟨⟨some, pages64, facts64, range⟩, each⟩,
      pairwise_cons.mpr ⟨later segment rfl, ordered⟩, ?_⟩
    rintro earlier rfl
    simp only [validateFollows, bind_eq_ok_iff, ensure_eq_ok_iff, exists_and_left, exists_const] at follows
    have first : earlier.Before segment := ⟨follows.2.1, follows.2.2.2⟩
    exact forall_mem_cons.mpr ⟨first, fun other member => first.trans (later segment rfl other member) range⟩

theorem DeltaManifest.valid_of_validate (checked : manifest.validate = .ok ()) : manifest.Valid := by
  simp only [validate, DeltaBaseIdentity.validateForSegments, bind_eq_ok_iff,
    ensure_eq_ok_iff, exists_and_left, exists_const] at checked
  obtain ⟨version, low, -, high, u, base, checkpoint, segments⟩ := checked
  obtain ⟨each, ordered, -⟩ := validateSegments_eq_ok segments
  refine ⟨version, ?_, ?_, ?_, ?_, each, ordered⟩
  · intro none
    rw [low, high, none]
    exact ⟨rfl, rfl⟩
  · intro some
    rw [low, high]
    exact isRange_segmentTxRange some
  · intro some
    simp only [if_neg some, bind_eq_ok_iff, ensure_eq_ok_iff, exists_and_left, exists_const] at base
    exact ⟨base.1, base.2.1, checkpoint.resolve_left some⟩
  · intro segment member
    have some : manifest.segments ≠ [] := ne_nil_of_mem member
    simp only [if_neg some, bind_eq_ok_iff, ensure_eq_ok_iff, exists_and_left, exists_const] at base
    exact base.2.2 segment member

end Manifest

section Formats

variable (crc32 : Bytes → UInt32) {pages : Pages}

/-- The pages from `start` on begin with the bytes; what follows them there is arbitrary. -/
def BeginWith (pages : Pages) (start count : Nat) (bytes : Bytes) : Prop :=
  ∃ list garbage, list.length = count ∧ HoldsPages pages start list ∧
    (∀ page ∈ list, page.length = pageSize) ∧ list.flatten = bytes ++ garbage

theorem BeginWith.readRun {start count : Nat} {bytes : Bytes} (begins : BeginWith pages start count bytes)
    (invalidSize : String) :
    ∃ garbage, PagedBytes.readRun (fullPage invalidSize pages) start count = .ok (bytes ++ garbage) := by
  obtain ⟨list, garbage, rfl, held, full, flat⟩ := begins
  refine ⟨garbage, ?_⟩
  rw [readRun_of_pages start list, flat]
  intro i page found
  rw [fullPage, Pages.load, held i page found]
  simp only [bind, Except.bind, ensure, full page (mem_of_getElem? found), if_true]
  rfl

theorem toPages_ne_nil {bytes : Bytes} (some : bytes ≠ []) : (toPages pageSize bytes).length ≠ 0 := by
  have long := le_pageCount_mul (by decide : 0 < pageSize) bytes.length
  have := length_pos_iff.mpr some
  rw [length_toPages]
  intro zero
  rw [zero] at long
  omega

theorem closeBody_ne_nil (crc32 : Bytes → UInt32) (body : Bytes) {marker : Bytes} (fits : marker.length = 8) :
    closeBody crc32 marker body ≠ [] := by
  intro empty
  have := congrArg List.length empty
  rw [length_closeBody crc32 fits, length_nil, trailerLen] at this
  omega

theorem DeltaSegment.encode_of_validate {segment : DeltaSegment} (valid : segment.validate = .ok ())
    (small : segment.header.toBytes.length < 2 ^ 32) (small' : segment.payload.toBytes.length < 2 ^ 64) :
    segment.encode crc32 =
      .ok (closeBody crc32 deltaSegmentCommitMarker (deltaSegmentMagic ++ segment.framed)) :=
  encode_eq_ok_iff.mpr ⟨valid, small, small', rfl⟩

theorem DeltaManifest.encode_of_validate {manifest : DeltaManifest} (valid : manifest.validate = .ok ())
    (small : manifest.toBytes.length < 2 ^ 64) :
    manifest.encode crc32 =
      .ok (closeBody crc32 deltaManifestCommitMarker (deltaManifestMagic ++ manifest.framed)) :=
  encode_eq_ok_iff.mpr ⟨valid, small, rfl⟩

theorem DeltaManifest.slot_of_encode {manifest : DeltaManifest} {bytes : Bytes} {start : Nat}
    (encoded : manifest.encode crc32 = .ok bytes) (generation : manifest.generation ≠ 0) (nonzero : start ≠ 0)
    (ids64 : start + (toPages pageSize bytes).length < 2 ^ 64) :
    ∃ slot, HeaderManifestSlot.new crc32 manifest.generation start (toPages pageSize bytes).length
      bytes.length (crc32 bytes) = .ok slot := by
  obtain ⟨-, -, rfl⟩ := encode_eq_ok_iff.mp encoded
  have some := closeBody_ne_nil crc32 (deltaManifestMagic ++ manifest.framed)
    (rfl : deltaManifestCommitMarker.length = 8)
  exact ⟨_, HeaderManifestSlot.new_eq_ok_iff.mpr ⟨generation, nonzero, toPages_ne_nil some,
    fun none => some (length_eq_zero_iff.mp none), ids64, rfl⟩⟩

theorem DeltaManifestSegment.fromSegmentHeader_of_pages (start : Nat) {count : Nat}
    (header : DeltaSegmentHeader) (some : count ≠ 0) :
    DeltaManifestSegment.fromSegmentHeader start count header =
      .ok ⟨start, count, header.factPageStart, header.factPageCount, header.lowTxCount,
        header.highTxCount⟩ := by
  rw [fromSegmentHeader, ensure, if_pos some]
  rfl

variable {crc32} in
theorem DeltaSegment.read_of_encode {segment : DeltaSegment} {bytes : Bytes} {start : Nat}
    {described : DeltaManifestSegment} {header : FileHeader} (encoded : segment.encode crc32 = .ok bytes)
    (made : DeltaManifestSegment.fromSegmentHeader start (toPages pageSize bytes).length segment.header =
      .ok described) (ids64 : start + (toPages pageSize bytes).length < 2 ^ 64)
    (inside : start + (toPages pageSize bytes).length ≤ header.pageCount)
    (begins : BeginWith pages start (toPages pageSize bytes).length bytes) :
    readDeltaSegmentFromDescriptor crc32 pages header described = .ok segment := by
  obtain ⟨garbage, run⟩ := begins.readRun "Delta segment page has invalid size"
  simp only [DeltaManifestSegment.fromSegmentHeader, ensure_bind_eq_ok_iff, pure, Except.pure,
    Except.ok.injEq] at made
  obtain ⟨-, rfl⟩ := made
  simp only [readDeltaSegmentFromDescriptor, ensure, ids64, inside, if_true, bind, Except.bind,
    run, DeltaSegment.decodeFromPageBytes_encode encoded, and_self]
  rfl

variable {crc32} in
theorem DeltaManifest.read_of_encode {manifest : DeltaManifest} {bytes : Bytes} {start : Nat}
    {slot : HeaderManifestSlot} {header : FileHeader} (encoded : manifest.encode crc32 = .ok bytes)
    (isSlot : HeaderManifestSlot.new crc32 manifest.generation start (toPages pageSize bytes).length
      bytes.length (crc32 bytes) = .ok slot)
    (inside : start + (toPages pageSize bytes).length ≤ header.pageCount)
    (begins : BeginWith pages start (toPages pageSize bytes).length bytes) :
    readManifestFromDescriptor crc32 pages header slot = .ok manifest := by
  obtain ⟨garbage, run⟩ := begins.readRun "Delta manifest page has invalid size"
  obtain ⟨-, -, -, -, ids64, rfl⟩ := HeaderManifestSlot.new_eq_ok_iff.mp isSlot
  have fits : bytes.length ≤ (toPages pageSize bytes).length * pageSize := by
    rw [length_toPages]
    exact le_pageCount_mul (by decide) _
  simp only [readManifestFromDescriptor, ensure, ids64, inside, fits, if_true, bind, Except.bind,
    run, take_left', DeltaManifest.decode_encode encoded]
  rfl

def friendSegment : DeltaSegment :=
  let rows : List (FactRef × Fact) := [(⟨5, 0⟩, friendFact)]
  let payload : DeltaSegmentPayload := ⟨rows, buildIndexEntries rows⟩
  ⟨.fromPayload payload 5 1, payload⟩

end Formats

end ViciaDb
