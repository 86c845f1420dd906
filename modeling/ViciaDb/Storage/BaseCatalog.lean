import ViciaDb.Storage.BaseCheckpoint
import ViciaDb.Storage.PageIntegrity

namespace ViciaDb

open ByteReader SlottedPage PagedBytes BTree List Except

variable {crc32 : Bytes → UInt32} {pages : Pages} {generation start count : Nat}

section Checksums

theorem coveredPages_of_filled (filled : Filled pages start (start + count)) (numbered : generation ≠ 0)
    (behind : start ≠ 0) :
    ∃ bytes checksums, coveredPages crc32 pages generation start count = .ok (bytes, checksums) ∧
      checksums.length = count ∧ ∀ i < count, ∃ page checksum, pages (start + i) = some page ∧
        checksums[i]? = some checksum ∧
        computeIntegrityPageChecksum crc32 generation (start + i) page = .ok checksum := by
  induction count generalizing start with
  | zero => exact ⟨[], [], rfl, rfl, by omega⟩
  | succ count ih =>
    obtain ⟨page, there, length⟩ := filled start (Nat.le_refl _) (by omega)
    obtain ⟨bytes, checksums, covered, counted, each⟩ :=
      ih (fun i low high => filled i (by omega) (by omega)) (Nat.succ_ne_zero start)
    obtain ⟨checksum, computed⟩ :
        ∃ checksum, computeIntegrityPageChecksum crc32 generation start page = .ok checksum := by
      simp only [computeIntegrityPageChecksum, ensure, numbered, behind, length, ne_eq,
        not_false_eq_true, if_true, bind, Except.bind]
      exact ⟨_, rfl⟩
    refine ⟨page ++ bytes, checksum :: checksums, ?_, by rw [length_cons, counted], fun i inside => ?_⟩
    · simp only [coveredPages, Pages.load, there, ensure, length, if_true, bind, Except.bind,
        computed, covered]
      rfl
    · cases i with
      | zero => exact ⟨page, _, there, rfl, computed⟩
      | succ i =>
        obtain ⟨other, checksum, there', found, computed'⟩ := each i (by omega)
        rw [Nat.succ_add_eq_add_succ] at there' computed'
        exact ⟨other, checksum, there', found, computed'⟩

/-- A page verifies against the checksum that was computed from it. -/
theorem verifyPage_of_checksum {catalog : BasePageIntegrityCatalog} {i : Nat} {page : Bytes}
    {checksum : UInt32} (found : catalog.pageChecksums[i]? = some checksum)
    (computed : computeIntegrityPageChecksum crc32 catalog.baseGeneration
      (catalog.coveredPageStart + i) page = .ok checksum) :
    catalog.verifyPage crc32 (catalog.coveredPageStart + i) page = .ok () := by
  simp only [BasePageIntegrityCatalog.verifyPage, BasePageIntegrityCatalog.checksumForPage,
    ensure, Nat.le_add_right, if_true, bind, Except.bind, Nat.add_sub_cancel_left, found,
    computed, pure, Except.pure]

theorem verifiedPages_of_verifies {catalog : BasePageIntegrityCatalog} {i : Nat} {page : Bytes}
    (there : pages i = some page) (verified : catalog.verifyPage crc32 i page = .ok ()) :
    verifiedPages crc32 (some catalog) pages i = some page := by
  simp [verifiedPages, there, verified, Except.isOk, Except.toBool]

theorem verifiedPages_of_lt {catalog : BasePageIntegrityCatalog} {i : Nat}
    (below : i < catalog.coveredPageStart) : verifiedPages crc32 (some catalog) pages i = none := by
  simp [verifiedPages, BasePageIntegrityCatalog.verifyPage, BasePageIntegrityCatalog.checksumForPage,
    ensure, Nat.not_le_of_lt below, bind, Except.bind, Except.isOk, Except.toBool]

theorem verifiedPages_congr {catalog : Option BasePageIntegrityCatalog} {pages' : Pages} {i : Nat}
    (agree : pages' i = pages i) :
    verifiedPages crc32 catalog pages' i = verifiedPages crc32 catalog pages i := by
  cases catalog with
  | none => exact agree
  | some catalog => simp only [verifiedPages, agree]

end Checksums

section ReadBack

theorem readCatalogPages_pageAt {bytes : Bytes} {pageId : Nat}
    (held : ∀ i < count, pages (pageId + i) = some (pageAt pageSize bytes i))
    (enough : bytes.length ≤ count * pageSize) :
    readCatalogPages pages pageId count bytes.length = .ok (bytes, 0) := by
  induction count generalizing pageId bytes with
  | zero =>
    obtain rfl : bytes = [] := by simpa using enough
    rfl
  | succ count ih =>
    have rest := @ih (bytes.drop pageSize) (pageId + 1)
      (fun i inside => by
        rw [← pageAt_succ, Nat.add_assoc, Nat.add_comm 1]
        exact held (i + 1) (by omega))
      (by rw [length_drop]; rw [Nat.succ_mul] at enough; omega)
    have there := held 0 (by omega)
    rw [pageAt, Nat.zero_mul, drop_zero] at there
    have part : (bytes.take pageSize).length = min bytes.length pageSize := by rw [length_take, Nat.min_comm]
    have left : bytes.length - min bytes.length pageSize = (bytes.drop pageSize).length := by
      rw [length_drop]
      omega
    change (pages.load pageId >>= _) = _
    rw [show pages.load pageId = .ok _ by rw [Pages.load, show pages pageId = _ from there]]
    change (ensure _ _ >>= _) = _
    refine ensure_bind_eq_ok_iff.mpr ⟨?_, ensure_bind_eq_ok_iff.mpr ⟨?_, bind_eq_ok_iff.mpr ⟨_, left ▸ rest, ?_⟩⟩⟩
    · rw [length_append, length_replicate]
      omega
    · rw [← part, drop_left]
      exact fun byte member => eq_of_mem_replicate member
    · change Except.ok (_, 0) = _
      rw [← part, take_left, take_append_drop]

structure BasePageIntegrityCatalog.Writable (catalog : BasePageIntegrityCatalog) : Prop where
  numbered : catalog.baseGeneration ≠ 0
  generation64 : catalog.baseGeneration < 2 ^ 64
  behind : catalog.coveredPageStart ≠ 0
  some : catalog.coveredPageCount ≠ 0
  few : catalog.coveredPageCount ≤ maxBaseIntegrityCoveredPages
  ids64 : catalog.coveredPageStart + catalog.coveredPageCount < 2 ^ 64

variable {catalog : BasePageIntegrityCatalog}

theorem BasePageIntegrityCatalog.Writable.layout (writable : catalog.Writable) :
    validateCatalogLayout catalog.baseGeneration catalog.coveredPageStart catalog.coveredPageCount =
      .ok () := by
  rw [validateCatalogLayout, if_neg writable.some]
  simp only [bind_eq_ok_iff, ensure_eq_ok_iff, exists_const]
  exact ⟨writable.numbered, writable.behind, writable.ids64⟩

theorem BasePageIntegrityCatalog.Writable.limit (writable : catalog.Writable) :
    encodedLenForCount catalog.coveredPageCount = .ok (catalogHeaderLen + 4 * catalog.coveredPageCount) := by
  rw [encodedLenForCount, ensure, if_pos writable.few]
  rfl

theorem integrityNumber_append (label : String) (width : Nat) (front more : Bytes) {pos n : Nat}
    (place : front.length = pos) (bound : n < 256 ^ width) :
    integrityNumber label width (front ++ (leBytes width n ++ more)) pos = .ok n := by
  rw [integrityNumber, ← place, numberAt_append width front more bound]

theorem BasePageIntegrityCatalog.decode_encode (writable : catalog.Writable) :
    ∃ bytes, catalog.encode = .ok bytes ∧ bytes.length = catalogHeaderLen + 4 * catalog.coveredPageCount ∧
      decode bytes = .ok catalog := by
  have count64 : catalog.coveredPageCount < 2 ^ 64 := Nat.lt_of_le_of_lt (Nat.le_add_left _ _) writable.ids64
  have start64 : catalog.coveredPageStart < 2 ^ 64 := Nat.lt_of_le_of_lt (Nat.le_add_right _ _) writable.ids64
  have sized : (catalog.pageChecksums.map UInt32.toNat).length = catalog.coveredPageCount := length_map _
  have body : (catalog.pageChecksums.flatMap fun checksum => leBytes 4 checksum.toNat) =
      encodeAll (leBytes 4) (catalog.pageChecksums.map UInt32.toNat) := by
    rw [encodeAll, map_map]
    rfl
  obtain ⟨bytes, isBytes⟩ : ∃ bytes, bytes = pageIntegrityCatalogMagic ++
      leBytes 4 pageIntegrityCatalogCodecVersion ++ leBytes 4 pageIntegrityCatalogReserved ++
      leBytes 8 catalog.baseGeneration ++ leBytes 8 catalog.coveredPageStart ++
      leBytes 8 catalog.coveredPageCount ++
        encodeAll (leBytes 4) (catalog.pageChecksums.map UInt32.toNat) := ⟨_, rfl⟩
  have length : bytes.length = catalogHeaderLen + 4 * catalog.coveredPageCount := by
    rw [isBytes]
    simp only [length_append, length_leBytes, length_encodeAll_leBytes, sized, Nat.mul_comm _ 4]
    rfl
  have magic : bytes.take 8 = pageIntegrityCatalogMagic := by
    rw [isBytes]
    simp only [append_assoc]
    exact take_left' rfl
  have version : integrityNumber "catalog codec version" 4 bytes 8 =
      .ok pageIntegrityCatalogCodecVersion := by
    rw [isBytes]
    simp only [append_assoc]
    exact integrityNumber_append _ 4 pageIntegrityCatalogMagic _ rfl (by decide)
  have reserved : integrityNumber "catalog reserved field" 4 bytes 12 =
      .ok pageIntegrityCatalogReserved := by
    rw [isBytes, append_assoc, append_assoc, append_assoc, append_assoc]
    exact integrityNumber_append _ 4 (pageIntegrityCatalogMagic ++ _) _ rfl (by decide)
  have generation : integrityNumber "catalog base generation" 8 bytes 16 =
      .ok catalog.baseGeneration := by
    rw [isBytes, append_assoc, append_assoc, append_assoc]
    exact integrityNumber_append _ 8 (pageIntegrityCatalogMagic ++ _ ++ _) _ rfl writable.generation64
  have first : integrityNumber "catalog covered page start" 8 bytes 24 =
      .ok catalog.coveredPageStart := by
    rw [isBytes, append_assoc, append_assoc]
    exact integrityNumber_append _ 8 (pageIntegrityCatalogMagic ++ _ ++ _ ++ _) _ rfl start64
  have counted : integrityNumber "catalog covered page count" 8 bytes 32 =
      .ok catalog.coveredPageCount := by
    rw [isBytes, append_assoc]
    exact integrityNumber_append _ 8 (pageIntegrityCatalogMagic ++ _ ++ _ ++ _ ++ _) _ rfl count64
  have sums : ((List.range catalog.coveredPageCount).mapM fun i =>
      integrityNumber "catalog page checksum" 4 bytes (catalogHeaderLen + 4 * i)) =
        .ok (catalog.pageChecksums.map UInt32.toNat) := by
    rw [← sized]
    refine mapM_range_ok fun i n found => ?_
    have read := readAt_encodeAll (length_leBytes 4) found
    obtain ⟨checksum, -, rfl⟩ := mem_map.mp (mem_of_getElem? found)
    rw [← readAt_append_right (pageIntegrityCatalogMagic ++ leBytes 4 pageIntegrityCatalogCodecVersion ++
      leBytes 4 pageIntegrityCatalogReserved ++ leBytes 8 catalog.baseGeneration ++
      leBytes 8 catalog.coveredPageStart ++ leBytes 8 catalog.coveredPageCount), ← isBytes] at read
    have there : numberAt 4 bytes (catalogHeaderLen + i * 4) = some checksum.toNat :=
      numberAt_of_readAt read (UInt32.toNat_lt _)
    rw [Nat.mul_comm, integrityNumber, there]
  refine ⟨bytes, ?_, length, ?_⟩
  · simp only [encode, writable.layout, writable.limit, bind, Except.bind, body, isBytes]
    rfl
  · simp only [decode, ensure, length, Nat.le_add_right, if_true, magic, version, reserved,
      generation, first, counted, writable.layout, writable.limit, sums, bind, Except.bind, build, map_map]
    have back : catalog.pageChecksums.map (UInt32.ofNat ∘ UInt32.toNat) = catalog.pageChecksums := by
      simp [Function.comp_def]
    have layout := writable.layout
    rw [coveredPageCount] at layout
    rw [back, layout]
    rfl

end ReadBack

section Write

/-- What a written catalog promises: readers that verify see the covered pages, and nothing below
    them. -/
structure Catalogued (crc32 : Bytes → UInt32) (pages pages' : Pages) (generation start count : Nat)
    (written : BaseIntegrityWrite) : Prop where
  shown : ∀ i, start ≤ i → i < start + count →
    verifiedPages crc32 (some written.catalog) pages' i = pages i
  hidden : ∀ i < start, verifiedPages crc32 (some written.catalog) pages' i = none
  layout : written.descriptor.validateLayout = .ok ()
  checksum : written.descriptor.checksumValid crc32
  covered : written.descriptor.coveredPageStart = start
  published : start + count ≤ written.publishedPageCount
  readsBack : readBaseIntegrityCatalog crc32 pages' written.descriptor = .ok written.catalog
  numbered : written.catalog.baseGeneration = generation
  checks : ∀ i checksum, written.catalog.checksumForPage i = .ok checksum → i < 2 ^ 64 ∧
    ∃ page, pages i = some page ∧ computeIntegrityPageChecksum crc32 generation i page = .ok checksum
  encoded : ∃ bytes, written.catalog.encode = .ok bytes ∧ written.descriptor.catalogChecksum = crc32 bytes ∧
    ∀ i < written.descriptor.catalogPageCount,
      pages' (written.descriptor.catalogPageStart + i) = some (pageAt pageSize bytes i)

structure Coverable (pages : Pages) (generation start count next : Nat) : Prop where
  numbered : generation ≠ 0
  generation64 : generation < 2 ^ 64
  behind : start ≠ 0
  some : count ≠ 0
  few : count ≤ maxBaseIntegrityCoveredPages
  filled : Filled pages start (start + count)
  apart : start + count ≤ next
  ids64 : next + count < 2 ^ 64

theorem writeBaseIntegrityCatalog_of_coverable {next : Nat} (coverable : Coverable pages generation start count next) :
    ∃ pages' written, (∀ expected : Option UInt32, expected.all (written.aggregateChecksum == ·) →
        writeBaseIntegrityCatalog crc32 pages generation start count next expected = .ok (pages', written)) ∧
      Catalogued crc32 pages pages' generation start count written := by
  obtain ⟨numbered, generation64, behind, some, few, filled, apart, ids64⟩ := coverable
  obtain ⟨covered, checksums, run, counted, each⟩ :=
    @coveredPages_of_filled crc32 _ _ _ _ filled numbered behind
  generalize isCatalog : (⟨generation, start, checksums⟩ : BasePageIntegrityCatalog) = catalog
  have covers : catalog.coveredPageCount = count := isCatalog ▸ counted
  have writable : catalog.Writable := by
    subst isCatalog
    exact ⟨numbered, generation64, behind, covers.trans_ne some, by rw [covers]; exact few,
      by rw [covers]; change start + count < 2 ^ 64; omega⟩
  obtain ⟨bytes, encoded, length, decoded⟩ := catalog.decode_encode writable
  rw [covers] at length
  have paged : bytes.length ≤ pageCount pageSize bytes.length * pageSize ∧
      (pageCount pageSize bytes.length - 1) * pageSize < bytes.length ∧
      pageCount pageSize bytes.length ≠ 0 ∧ pageCount pageSize bytes.length ≤ count := by
    simp only [length, pageCount, catalogHeaderLen, pageSize]
    omega
  generalize total : pageCount pageSize bytes.length = pageTotal at paged
  obtain ⟨enough, canonical, nonzero, short⟩ := paged
  have layout : ∀ sum, BasePageIntegrityDescriptor.validateLayout ⟨generation, start, count, next, pageTotal,
      bytes.length, crc32 bytes, sum⟩ = .ok () := by
    intro sum
    rw [BasePageIntegrityDescriptor.validateLayout]
    split
    · rfl
    simp only [ensure_bind_eq_ok_iff, ensure_eq_ok_iff]
    simp only [BasePageIntegrityDescriptor.coveredPageEnd, BasePageIntegrityDescriptor.catalogPageEnd]
    simp only [maxBaseIntegrityCoveredPages] at few
    simp only [pageSize] at enough canonical ⊢
    have capacity : pageTotal * 4096 < 2 ^ 64 :=
      Nat.lt_of_le_of_lt (Nat.mul_le_mul_right 4096 (short.trans few)) (by decide)
    exact ⟨numbered, ⟨behind, some⟩, by omega, apart, ⟨nonzero, by omega⟩, capacity, enough,
      canonical, by omega⟩
  generalize isDescriptor : (⟨generation, start, count, next, pageTotal, bytes.length, crc32 bytes,
    BasePageIntegrityDescriptor.computeChecksum crc32 ⟨generation, start, count, next, pageTotal,
      bytes.length, crc32 bytes, 0⟩⟩ : BasePageIntegrityDescriptor) = descriptor
  have known : descriptor ≠ .empty :=
    isDescriptor ▸ fun same => numbered (congrArg BasePageIntegrityDescriptor.baseGeneration same)
  have made : BasePageIntegrityDescriptor.new crc32 generation start count next pageTotal bytes.length
      (crc32 bytes) = .ok descriptor := by
    rw [BasePageIntegrityDescriptor.new, layout 0, ← isDescriptor]
    rfl
  have valid : descriptor.checksumValid crc32 := .inr (by rw [← isDescriptor]; rfl)
  have limit := writable.limit
  rw [covers, ← length] at limit
  have held : ∀ i < pageTotal, writePages pages next (toPages pageSize bytes) (next + i) =
      .some (pageAt pageSize bytes i) := fun i inside => by
    refine writePages_at pages next ?_
    rw [toPages, getElem?_map, getElem?_range (total ▸ inside)]
    rfl
  have read := readCatalogPages_pageAt held enough
  have back : readBaseIntegrityCatalog crc32 (writePages pages next (toPages pageSize bytes))
      descriptor = .ok catalog := by
    simp only [readBaseIntegrityCatalog, ensure, if_pos known, if_pos valid, bind, Except.bind]
    simp only [← isDescriptor, limit, if_true, read, decoded, and_self]
    simp only [← isCatalog, BasePageIntegrityCatalog.coveredPageCount, counted, and_self, if_true]
    rfl
  refine ⟨writePages pages next (toPages pageSize bytes),
    ⟨catalog, descriptor, crc32 covered, descriptor.catalogPageEnd⟩, fun expected agrees => ?_, ?_, ?_,
    isDescriptor ▸ layout _, valid, ?_, ?_, back, ?_, ?_, bytes, encoded, ?_⟩
  · have layout' := writable.layout
    have inside : start + count < 2 ^ 64 := by omega
    rw [← isCatalog] at layout'
    simp only [writeBaseIntegrityCatalog, if_neg some, ensure, if_pos inside, if_pos apart,
      limit, run, if_pos agrees, BasePageIntegrityCatalog.build, bind, Except.bind]
    rw [show validateCatalogLayout generation start checksums.length = .ok () from layout']
    simp only [pure, Except.pure, isCatalog, encoded, total, made, back, if_true]
  · intro i low high
    obtain ⟨page, checksum, there, found, computed⟩ := each (i - start) (by omega)
    have place : start + (i - start) = i := by omega
    have verified : catalog.verifyPage crc32 i page = .ok () := by
      subst isCatalog
      have checked := @verifyPage_of_checksum crc32 ⟨generation, start, checksums⟩ _ _ _ found computed
      rwa [place] at checked
    rw [place] at there
    rw [there]
    exact verifiedPages_of_verifies ((writePages_of_lt _ _ _ (by omega)).trans there) verified
  · exact fun i below => verifiedPages_of_lt (by rw [← isCatalog]; exact below)
  · rw [← isDescriptor]
  · rw [← isDescriptor]
    exact apart.trans (Nat.le_add_right _ _)
  · rw [← isCatalog]
  · intro i checksum found
    simp only [← isCatalog, BasePageIntegrityCatalog.checksumForPage, ensure_bind_eq_ok_iff] at found
    obtain ⟨low, found⟩ := found
    split at found
    · cases found
      rename_i there
      have bound := (List.getElem?_eq_some_iff.mp there).1
      obtain ⟨page, _, isPage, same, computed⟩ := each (i - start) (by omega)
      rw [same] at there
      cases there
      rw [show start + (i - start) = i by omega] at isPage computed
      exact ⟨by omega, page, isPage, computed⟩
    · cases found
  · rw [← isDescriptor]
    exact ⟨rfl, held⟩

end Write

section Guard

def pageInput (generation pageId : Nat) (page : Bytes) : Bytes :=
  pageChecksumDomain ++ leBytes 8 generation ++ leBytes 8 pageId ++ page

/-- The checksum keeps the two inputs apart. -/
def Tells (crc32 : Bytes → UInt32) (a b : Bytes) : Prop := crc32 a = crc32 b → a = b

theorem pageInput_inj {generation' i j : Nat} {page page' : Bytes} (bounds : generation < 2 ^ 64 ∧ i < 2 ^ 64)
    (bounds' : generation' < 2 ^ 64 ∧ j < 2 ^ 64)
    (same : pageInput generation i page = pageInput generation' j page') :
    generation = generation' ∧ i = j ∧ page = page' := by
  obtain ⟨front, pages⟩ := append_inj same rfl
  obtain ⟨front, ids⟩ := append_inj front rfl
  have generations := (append_inj front rfl).2
  exact ⟨beBytes_inj bounds.1 bounds'.1 (congrArg reverse generations),
    beBytes_inj bounds.2 bounds'.2 (congrArg reverse ids), pages⟩

theorem computeIntegrityPageChecksum_eq_ok {i : Nat} {page : Bytes} {checksum : UInt32}
    (computed : computeIntegrityPageChecksum crc32 generation i page = .ok checksum) :
    crc32 (pageInput generation i page) = checksum := by
  simp only [computeIntegrityPageChecksum, ensure_bind_eq_ok_iff] at computed
  exact Except.ok.inj computed.2.2.2

/-- The pages of a catalog are its payload, cut into pages and filled up with zeros. -/
theorem pageAt_of_readCatalogPages {bytes : Bytes} {pageId remaining left : Nat}
    (read : readCatalogPages pages pageId count remaining = .ok (bytes, left)) :
    bytes.length ≤ remaining ∧ ∀ i < count, pages (pageId + i) = some (pageAt pageSize bytes i) := by
  induction count generalizing pageId remaining bytes with
  | zero =>
    cases read
    exact ⟨Nat.zero_le _, by omega⟩
  | succ count ih =>
    change (pages.load pageId >>= _) = _ at read
    obtain ⟨page, loaded, read⟩ := bind_eq_ok_iff.mp read
    change (ensure _ _ >>= _) = _ at read
    obtain ⟨full, read⟩ := ensure_bind_eq_ok_iff.mp read
    obtain ⟨zeros, read⟩ := ensure_bind_eq_ok_iff.mp read
    obtain ⟨⟨rest, _⟩, next, read⟩ := bind_eq_ok_iff.mp read
    cases read
    have there : pages pageId = some page := by
      rw [Pages.load] at loaded
      split at loaded <;> cases loaded
      assumption
    obtain ⟨few, held⟩ := ih next
    have part : (page.take (min remaining pageSize)).length = min remaining pageSize := by
      rw [length_take, full]
      omega
    -- only the last page has padding
    have cut : (page.take (min remaining pageSize) ++ rest).take pageSize = page.take (min remaining pageSize) ∧
        (page.take (min remaining pageSize) ++ rest).drop pageSize = rest := by
      rcases Nat.le_total pageSize remaining with long | short
      · have whole := part.trans (Nat.min_eq_right long)
        exact ⟨take_left' whole, drop_left' whole⟩
      · obtain rfl : rest = [] := length_eq_zero_iff.mp (by omega)
        rw [append_nil]
        exact ⟨take_of_length_le (by omega), drop_eq_nil_of_le (by omega)⟩
    refine ⟨by rw [length_append, part]; omega, fun i inside => ?_⟩
    cases i with
    | zero =>
      have tail : page.drop (min remaining pageSize) = replicate (pageSize - min remaining pageSize) 0 :=
        eq_replicate_iff.mpr ⟨by rw [length_drop, full], zeros⟩
      simp only [pageAt, Nat.zero_mul, drop_zero, cut.1, part, ← tail, take_append_drop]
      exact there
    | succ i =>
      rw [pageAt_succ, cut.2, Nat.add_comm i, ← Nat.add_assoc]
      exact held i (by omega)

/-- What stands for page `i` in the catalog is taken for a page of another position, generation or content
    only where the checksum cannot tell them apart. -/
def Only (crc32 : Bytes → UInt32) (pages : Pages) (generation i generation' j : Nat) (page : Bytes) : Prop :=
  ∃ original, pages i = some original ∧
    (Tells crc32 (pageInput generation' j page) (pageInput generation i original) →
      generation' = generation ∧ j = i ∧ page = original)

def Binds (crc32 : Bytes → UInt32) (pages : Pages) (generation : Nat) (catalog : BasePageIntegrityCatalog) : Prop :=
  ∀ i checksum, catalog.checksumForPage i = .ok checksum → ∀ generation' j page, generation' < 2 ^ 64 → j < 2 ^ 64 →
    computeIntegrityPageChecksum crc32 generation' j page = .ok checksum →
    Only crc32 pages generation i generation' j page

structure Guards (crc32 : Bytes → UInt32) (pages pages' : Pages) (generation start count : Nat)
    (written : BaseIntegrityWrite) : Prop extends Catalogued crc32 pages pages' generation start count written where
  binds : Binds crc32 pages generation written.catalog
  passes : ∀ i page, written.catalog.verifyPage crc32 i page = .ok () → Only crc32 pages generation i generation i page
  unchanged : ∀ encoded, written.catalog.encode = .ok encoded → ∀ damaged bytes left catalog,
    readCatalogPages damaged written.descriptor.catalogPageStart written.descriptor.catalogPageCount
      written.descriptor.catalogLen = .ok (bytes, left) → Tells crc32 bytes encoded →
    readBaseIntegrityCatalog crc32 damaged written.descriptor = .ok catalog →
    ∀ i < written.descriptor.catalogPageCount, damaged (written.descriptor.catalogPageStart + i) =
      pages' (written.descriptor.catalogPageStart + i)

variable {pages' : Pages} {written : BaseIntegrityWrite} (generation64 : generation < 2 ^ 64)
  (catalogued : Catalogued crc32 pages pages' generation start count written)

include generation64 catalogued

theorem Catalogued.binds : Binds crc32 pages generation written.catalog := by
  intro i checksum recorded generation' j page below below' computed
  obtain ⟨inside, original, there, computed'⟩ := catalogued.checks i checksum recorded
  refine ⟨original, there, fun tells => pageInput_inj ⟨below, below'⟩ ⟨generation64, inside⟩ (tells ?_)⟩
  rw [computeIntegrityPageChecksum_eq_ok computed, computeIntegrityPageChecksum_eq_ok computed']

theorem Catalogued.guards : Guards crc32 pages pages' generation start count written := by
  have binds := catalogued.binds generation64
  refine ⟨catalogued, binds, fun i page passes => ?_, ?_⟩
  · simp only [BasePageIntegrityCatalog.verifyPage, bind_eq_ok_iff, ensure_eq_ok_iff] at passes
    obtain ⟨checksum, recorded, _, computed, rfl⟩ := passes
    rw [catalogued.numbered] at computed
    exact binds i _ recorded _ _ _ generation64 (catalogued.checks i _ recorded).1 computed
  · intro encoded isEncoded damaged bytes left catalog read tells accepted i inside
    obtain ⟨encoded', isEncoded', checksum, held⟩ := catalogued.encoded
    rw [isEncoded] at isEncoded'
    cases isEncoded'
    rw [held i inside]
    simp only [readBaseIntegrityCatalog, bind_eq_ok_iff, ensure_eq_ok_iff, exists_and_left, exists_const] at accepted
    obtain ⟨-, -, _, -, rfl, _, read', -, same, -⟩ := accepted
    rw [read] at read'
    cases read'
    rw [← tells (same.trans checksum)]
    exact (pageAt_of_readCatalogPages read).2 i inside

end Guard

/-- A written catalog reads back, and it lets through only the pages it was written for. -/
theorem writeBaseIntegrityCatalog_guards (crc32 : Bytes → UInt32) (pages : Pages) (generation start count next : Nat)
    (coverable : Coverable pages generation start count next) :
    ∃ pages' written, (∀ expected : Option UInt32, expected.all (written.aggregateChecksum == ·) →
        writeBaseIntegrityCatalog crc32 pages generation start count next expected = .ok (pages', written)) ∧
      Guards crc32 pages pages' generation start count written := by
  obtain ⟨pages', written, wrote, catalogued⟩ := writeBaseIntegrityCatalog_of_coverable coverable
  exact ⟨pages', written, wrote, catalogued.guards coverable.generation64⟩

def byteSum (bytes : Bytes) : UInt32 := UInt32.ofNat (bytes.map UInt8.toNat).sum

theorem writeBaseIntegrityCatalog_guards_byteSum : ∃ pages' written,
    writeBaseIntegrityCatalog byteSum (fun _ => some (replicate 4096 0)) 1 1 1 2 none = .ok (pages', written) ∧
      written.catalog.verifyPage byteSum 1 (7 :: replicate 4095 0) ≠ .ok () := by
  obtain ⟨pages', written, wrote, guards⟩ := writeBaseIntegrityCatalog_guards byteSum
    (fun _ => some (replicate 4096 0)) 1 1 1 2 ⟨by decide, by decide, by decide, by decide, by decide,
      fun _ _ _ => ⟨_, rfl, length_replicate⟩, by decide, by decide⟩
  refine ⟨pages', written, wrote none rfl, fun passes => ?_⟩
  obtain ⟨_, ⟨⟩, only⟩ := guards.passes 1 _ passes
  exact absurd (only fun same => absurd same (by decide +kernel)).2.2 (by decide +kernel)


end ViciaDb
