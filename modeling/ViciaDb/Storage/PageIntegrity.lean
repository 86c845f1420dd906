import ViciaDb.Storage.DeltaManifest

namespace ViciaDb

open ByteReader SlottedPage PagedBytes BTree PackedPages Wal.Postcard
open Except (ensure)

section Catalog

variable (crc32 : Bytes → UInt32)

def pageIntegrityCatalogMagic : Bytes := [0x4D, 0x47, 0x50, 0x47, 0x43, 0x30, 0x30, 0x31]
def pageIntegrityCatalogCodecVersion : Nat := 1
def pageIntegrityCatalogReserved : Nat := 0
def catalogHeaderLen : Nat := 40
def maxBaseIntegrityCatalogBytes : Nat := 64 * 1024 * 1024
def maxBaseIntegrityCoveredPages : Nat := 16777206

def pageChecksumDomain : Bytes :=
  [0x4D, 0x47, 0x50, 0x47, 0x43, 0x30, 0x30, 0x31, 0x3A, 0x62, 0x61, 0x73, 0x65, 0x2D, 0x70, 0x61,
    0x67, 0x65, 0x3A, 0x76, 0x31, 0x00]

/-- One checksum for each page of a published base, bound to its generation and to the page. -/
structure BasePageIntegrityCatalog where
  baseGeneration : Nat
  coveredPageStart : Nat
  pageChecksums : List UInt32
  deriving DecidableEq, Repr

def BasePageIntegrityCatalog.coveredPageCount (catalog : BasePageIntegrityCatalog) : Nat :=
  catalog.pageChecksums.length

def validateCatalogLayout (baseGeneration coveredPageStart coveredPageCount : Nat) :
    Except String Unit :=
  if coveredPageCount = 0 then
    ensure (baseGeneration = 0 ∧ coveredPageStart = 1)
      ("Empty base page integrity catalog requires generation 0, page start 1, " ++
        "and page count 0")
  else do
    ensure (baseGeneration ≠ 0)
      "Non-empty base page integrity catalog requires a non-zero generation"
    ensure (coveredPageStart ≠ 0) "Base page integrity catalog must not cover header page 0"
    ensure (coveredPageStart + coveredPageCount < 2 ^ 64)
      "Base page integrity catalog page range overflow"

def BasePageIntegrityCatalog.build (baseGeneration coveredPageStart : Nat)
    (pageChecksums : List UInt32) : Except String BasePageIntegrityCatalog := do
  validateCatalogLayout baseGeneration coveredPageStart pageChecksums.length
  return { baseGeneration, coveredPageStart, pageChecksums }

def computeIntegrityPageChecksum (baseGeneration pageId : Nat) (page : Bytes) :
    Except String UInt32 := do
  ensure (baseGeneration ≠ 0) "Base page integrity checksum requires a non-zero generation"
  ensure (pageId ≠ 0) "Base page integrity checksum does not cover header page 0"
  ensure (page.length = pageSize)
    s!"Base page integrity checksum requires exactly {pageSize} page bytes, got {page.length}"
  return crc32 (pageChecksumDomain ++ leBytes 8 baseGeneration ++ leBytes 8 pageId ++ page)

def BasePageIntegrityCatalog.checksumForPage (catalog : BasePageIntegrityCatalog) (pageId : Nat) :
    Except String UInt32 := do
  ensure (catalog.coveredPageStart ≤ pageId)
    s!"Base page integrity catalog does not cover page {pageId}"
  match catalog.pageChecksums[pageId - catalog.coveredPageStart]? with
  | some checksum => return checksum
  | none => .error s!"Base page integrity catalog does not cover page {pageId}"

def BasePageIntegrityCatalog.verifyPage (catalog : BasePageIntegrityCatalog) (pageId : Nat)
    (page : Bytes) : Except String Unit := do
  let expected ← catalog.checksumForPage pageId
  let actual ← computeIntegrityPageChecksum crc32 catalog.baseGeneration pageId page
  ensure (actual = expected) s!"Base page integrity checksum mismatch for page {pageId}"

def encodedLenForCount (coveredPageCount : Nat) : Except String Nat := do
  ensure (coveredPageCount ≤ maxBaseIntegrityCoveredPages)
    (s!"Base page integrity catalog exceeds the supported {maxBaseIntegrityCatalogBytes}-byte " ++
      "metadata limit")
  return catalogHeaderLen + 4 * coveredPageCount

def BasePageIntegrityCatalog.encode (catalog : BasePageIntegrityCatalog) : Except String Bytes := do
  validateCatalogLayout catalog.baseGeneration catalog.coveredPageStart catalog.coveredPageCount
  let _ ← encodedLenForCount catalog.coveredPageCount
  return pageIntegrityCatalogMagic ++ leBytes 4 pageIntegrityCatalogCodecVersion ++
    leBytes 4 pageIntegrityCatalogReserved ++ leBytes 8 catalog.baseGeneration ++
    leBytes 8 catalog.coveredPageStart ++ leBytes 8 catalog.coveredPageCount ++
    catalog.pageChecksums.flatMap fun checksum => leBytes 4 checksum.toNat

def integrityNumber (label : String) (width : Nat) (bytes : Bytes) (pos : Nat) : Except String Nat :=
  match numberAt width bytes pos with
  | some n => .ok n
  | none => .error ("Base page integrity " ++ label ++ " is truncated")

def BasePageIntegrityCatalog.decode (encoded : Bytes) : Except String BasePageIntegrityCatalog := do
  ensure (catalogHeaderLen ≤ encoded.length)
    (s!"Base page integrity catalog is truncated: expected at least {catalogHeaderLen} bytes, " ++
      s!"got {encoded.length}")
  ensure (encoded.take 8 = pageIntegrityCatalogMagic)
    "Base page integrity catalog magic mismatch"
  let codecVersion ← integrityNumber "catalog codec version" 4 encoded 8
  ensure (codecVersion = pageIntegrityCatalogCodecVersion)
    s!"Unsupported base page integrity catalog codec version {codecVersion}"
  let reserved ← integrityNumber "catalog reserved field" 4 encoded 12
  ensure (reserved = pageIntegrityCatalogReserved)
    "Base page integrity catalog reserved field must be zero"
  let baseGeneration ← integrityNumber "catalog base generation" 8 encoded 16
  let coveredPageStart ← integrityNumber "catalog covered page start" 8 encoded 24
  let coveredPageCount ← integrityNumber "catalog covered page count" 8 encoded 32
  validateCatalogLayout baseGeneration coveredPageStart coveredPageCount
  let expectedLen ← encodedLenForCount coveredPageCount
  ensure (encoded.length = expectedLen)
    (s!"Base page integrity catalog length mismatch: expected {expectedLen} bytes, " ++
      s!"got {encoded.length}")
  let pageChecksums ← (List.range coveredPageCount).mapM fun i =>
    integrityNumber "catalog page checksum" 4 encoded (catalogHeaderLen + 4 * i)
  BasePageIntegrityCatalog.build baseGeneration coveredPageStart (pageChecksums.map UInt32.ofNat)

end Catalog

section Descriptor

variable (crc32 : Bytes → UInt32)

structure BasePageIntegrityDescriptor where
  baseGeneration : Nat
  coveredPageStart : Nat
  coveredPageCount : Nat
  catalogPageStart : Nat
  catalogPageCount : Nat
  catalogLen : Nat
  catalogChecksum : UInt32
  descriptorChecksum : UInt32
  deriving DecidableEq, Repr

def BasePageIntegrityDescriptor.empty : BasePageIntegrityDescriptor := ⟨0, 0, 0, 0, 0, 0, 0, 0⟩

def BasePageIntegrityDescriptor.coveredPageEnd (descriptor : BasePageIntegrityDescriptor) : Nat :=
  descriptor.coveredPageStart + descriptor.coveredPageCount

def BasePageIntegrityDescriptor.catalogPageEnd (descriptor : BasePageIntegrityDescriptor) : Nat :=
  descriptor.catalogPageStart + descriptor.catalogPageCount

def BasePageIntegrityDescriptor.computeChecksum (descriptor : BasePageIntegrityDescriptor) : UInt32 :=
  crc32 (leBytes 8 descriptor.baseGeneration ++ leBytes 8 descriptor.coveredPageStart ++
    leBytes 8 descriptor.coveredPageCount ++ leBytes 8 descriptor.catalogPageStart ++
    leBytes 8 descriptor.catalogPageCount ++ leBytes 8 descriptor.catalogLen ++
    leBytes 4 descriptor.catalogChecksum.toNat)

def BasePageIntegrityDescriptor.checksumValid (descriptor : BasePageIntegrityDescriptor) : Prop :=
  descriptor = empty ∨ descriptor.descriptorChecksum = descriptor.computeChecksum crc32

instance (descriptor : BasePageIntegrityDescriptor) : Decidable (descriptor.checksumValid crc32) :=
  inferInstanceAs (Decidable (_ ∨ _))

def BasePageIntegrityDescriptor.validateLayout (descriptor : BasePageIntegrityDescriptor) :
    Except String Unit :=
  if descriptor = empty then .ok ()
  else do
    ensure (descriptor.baseGeneration ≠ 0)
      "Base integrity descriptor generation must be non-zero"
    ensure (descriptor.coveredPageStart ≠ 0 ∧ descriptor.coveredPageCount ≠ 0)
      "Base integrity descriptor must cover non-header pages"
    ensure (descriptor.coveredPageEnd < 2 ^ 64) "Base integrity covered page range overflow"
    ensure (descriptor.coveredPageEnd ≤ descriptor.catalogPageStart)
      "Base integrity catalog must not overlap covered pages"
    ensure (descriptor.catalogPageCount ≠ 0 ∧ descriptor.catalogLen ≠ 0)
      "Base integrity catalog page count and length must be non-zero"
    ensure (descriptor.catalogPageCount * pageSize < 2 ^ 64)
      "Base integrity catalog capacity overflow"
    ensure (descriptor.catalogLen ≤ descriptor.catalogPageCount * pageSize)
      "Base integrity catalog length exceeds its page capacity"
    ensure ((descriptor.catalogPageCount - 1) * pageSize < descriptor.catalogLen)
      "Base integrity catalog page count is not canonical for its length"
    ensure (descriptor.catalogPageEnd < 2 ^ 64) "Base integrity catalog page range overflow"

def BasePageIntegrityDescriptor.new (baseGeneration coveredPageStart coveredPageCount
    catalogPageStart catalogPageCount catalogLen : Nat) (catalogChecksum : UInt32) :
    Except String BasePageIntegrityDescriptor := do
  let descriptor : BasePageIntegrityDescriptor := ⟨baseGeneration, coveredPageStart,
    coveredPageCount, catalogPageStart, catalogPageCount, catalogLen, catalogChecksum, 0⟩
  descriptor.validateLayout
  return { descriptor with descriptorChecksum := descriptor.computeChecksum crc32 }

end Descriptor

section Files

variable (crc32 : Bytes → UInt32)

/-- The payload of the catalog's pages. What follows it on its last page must be zero. -/
def readCatalogPages (pages : Pages) : Nat → Nat → Nat → Except String (Bytes × Nat)
  | _, 0, remaining => .ok ([], remaining)
  | pageId, count + 1, remaining => do
    let page ← pages.load pageId
    ensure (page.length = pageSize)
      s!"Base integrity catalog page {pageId} has invalid length {page.length}"
    let payloadLen := min remaining pageSize
    ensure (∀ byte ∈ page.drop payloadLen, byte = 0)
      "Base integrity catalog padding must be zero"
    let (rest, left) ← readCatalogPages pages (pageId + 1) count (remaining - payloadLen)
    return (page.take payloadLen ++ rest, left)

def readBaseIntegrityCatalog (pages : Pages) (descriptor : BasePageIntegrityDescriptor) :
    Except String BasePageIntegrityCatalog := do
  ensure (descriptor ≠ .empty) "Base integrity catalog descriptor is empty"
  ensure (descriptor.checksumValid crc32) "Base integrity catalog descriptor checksum mismatch"
  let expectedLen ← encodedLenForCount descriptor.coveredPageCount
  ensure (descriptor.catalogLen = expectedLen)
    "Base integrity catalog length does not match its covered page count"
  let (bytes, remaining) ← readCatalogPages pages descriptor.catalogPageStart
    descriptor.catalogPageCount expectedLen
  ensure (remaining = 0 ∧ bytes.length = expectedLen) "Base integrity catalog is truncated"
  ensure (crc32 bytes = descriptor.catalogChecksum) "Base integrity catalog checksum mismatch"
  let catalog ← BasePageIntegrityCatalog.decode bytes
  ensure (catalog.baseGeneration = descriptor.baseGeneration ∧
      catalog.coveredPageStart = descriptor.coveredPageStart ∧
      catalog.coveredPageCount = descriptor.coveredPageCount)
    "Base integrity catalog identity does not match page 0 descriptor"
  return catalog

structure BaseIntegrityWrite where
  catalog : BasePageIntegrityCatalog
  descriptor : BasePageIntegrityDescriptor
  aggregateChecksum : UInt32
  publishedPageCount : Nat

def coveredPages (pages : Pages) (baseGeneration : Nat) :
    Nat → Nat → Except String (Bytes × List UInt32)
  | _, 0 => .ok ([], [])
  | pageId, count + 1 => do
    let page ← pages.load pageId
    ensure (page.length = pageSize)
      s!"Base integrity page {pageId} has invalid length {page.length}"
    let checksum ← computeIntegrityPageChecksum crc32 baseGeneration pageId page
    let (bytes, checksums) ← coveredPages pages baseGeneration (pageId + 1) count
    return (page ++ bytes, checksum :: checksums)

def hex32 (n : UInt32) : String :=
  let digits := Nat.toDigits 16 n.toNat
  "0x" ++ String.ofList (List.replicate (8 - digits.length) '0' ++ digits)

/-- The catalog of the pages as they now stand. It is written behind them and read back. -/
def writeBaseIntegrityCatalog (pages : Pages) (baseGeneration coveredPageStart coveredPageCount
    catalogPageStart : Nat) (expected : Option UInt32) : Except String (Pages × BaseIntegrityWrite) :=
  if coveredPageCount = 0 then do
    let catalog ← BasePageIntegrityCatalog.build 0 1 []
    return (pages, ⟨catalog, .empty, expected.getD 0, catalogPageStart⟩)
  else do
    ensure (coveredPageStart + coveredPageCount < 2 ^ 64)
      "Base integrity covered page range overflow"
    ensure (coveredPageStart + coveredPageCount ≤ catalogPageStart)
      "Base integrity catalog overlaps covered base pages"
    let _ ← encodedLenForCount coveredPageCount
    let (bytes, checksums) ← coveredPages crc32 pages baseGeneration coveredPageStart coveredPageCount
    ensure (expected.all (crc32 bytes == ·))
      s!"Base checksum mismatch during v11 migration: expected {hex32 (expected.getD 0)}, got {hex32 (crc32 bytes)}"
    let catalog ← BasePageIntegrityCatalog.build baseGeneration coveredPageStart checksums
    let encoded ← catalog.encode
    let descriptor ← BasePageIntegrityDescriptor.new crc32 baseGeneration coveredPageStart
      coveredPageCount catalogPageStart (pageCount pageSize encoded.length) encoded.length
      (crc32 encoded)
    let pages := writePages pages catalogPageStart (toPages pageSize encoded)
    let decoded ← readBaseIntegrityCatalog crc32 pages descriptor
    ensure (decoded = catalog)
      "Base integrity catalog read-back does not match written catalog"
    return (pages, ⟨catalog, descriptor, crc32 bytes, descriptor.catalogPageEnd⟩)

def verifyBaseIntegrityPages (pages : Pages) (catalog : BasePageIntegrityCatalog) :
    Except String Unit :=
  (List.range catalog.coveredPageCount).forM fun offset => do
    let page ← pages.load (catalog.coveredPageStart + offset)
    catalog.verifyPage crc32 (catalog.coveredPageStart + offset) page

def verifiedPages (catalog : Option BasePageIntegrityCatalog) (pages : Pages) : Pages :=
  match catalog with
  | none => pages
  | some catalog => fun pageId => (pages pageId).filter fun page =>
    (catalog.verifyPage crc32 pageId page).isOk

end Files

end ViciaDb
