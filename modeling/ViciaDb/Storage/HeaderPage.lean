import ViciaDb.Lib.FixedFields
import ViciaDb.Storage.PageIntegrity

namespace ViciaDb

open ByteReader BTree
open Except (ensure)

def slotWidths : List Nat := [8, 8, 8, 8, 4, 4]

theorem ofNat_of_fits {value width : Nat} (four : width = 4) (small : value < 256 ^ width) :
    (UInt32.ofNat value).toNat = value := by
  subst four
  rw [UInt32.toNat_ofNat']
  exact Nat.mod_eq_of_lt small

def HeaderManifestSlot.layout : FieldRecord HeaderManifestSlot where
  widths := slotWidths
  fields slot := [slot.generation, slot.manifestPageStart, slot.manifestPageCount, slot.manifestLen,
    slot.manifestChecksum.toNat, slot.slotChecksum.toNat]
  build
    | [generation, start, count, len, checksum, slotChecksum] =>
      some ⟨generation, start, count, len, UInt32.ofNat checksum, UInt32.ofNat slotChecksum⟩
    | _ => none
  length_fields _ := rfl
  build_fields slot := by simp
  fields_build values slot fit built := by
    obtain - | ⟨-, - | ⟨-, - | ⟨-, - | ⟨-, - | ⟨checksum, - | ⟨slotChecksum, ⟨⟩⟩⟩⟩⟩⟩⟩ := fit
    cases built
    rw [ofNat_of_fits rfl checksum, ofNat_of_fits rfl slotChecksum]

def HeaderManifestSlot.toBytes (slot : HeaderManifestSlot) : Bytes := layout.toBytes slot

def HeaderManifestSlot.fromBytes (bytes : Bytes) : Except String HeaderManifestSlot :=
  (layout.fromBytes bytes).elim (.error "Header manifest slot length is invalid") .ok

structure ProjectionCatalogSlot where
  generation : Nat
  catalogPageStart : Nat
  catalogPageCount : Nat
  catalogLen : Nat
  catalogChecksum : UInt32
  slotChecksum : UInt32
  deriving DecidableEq, Repr

namespace ProjectionCatalogSlot

def empty : ProjectionCatalogSlot := ⟨0, 0, 0, 0, 0, 0⟩

def layout : FieldRecord ProjectionCatalogSlot where
  widths := slotWidths
  fields slot := [slot.generation, slot.catalogPageStart, slot.catalogPageCount, slot.catalogLen,
    slot.catalogChecksum.toNat, slot.slotChecksum.toNat]
  build
    | [generation, start, count, len, checksum, slotChecksum] =>
      some ⟨generation, start, count, len, UInt32.ofNat checksum, UInt32.ofNat slotChecksum⟩
    | _ => none
  length_fields _ := rfl
  build_fields slot := by simp
  fields_build values slot fit built := by
    obtain - | ⟨-, - | ⟨-, - | ⟨-, - | ⟨-, - | ⟨checksum, - | ⟨slotChecksum, ⟨⟩⟩⟩⟩⟩⟩⟩ := fit
    cases built
    rw [ofNat_of_fits rfl checksum, ofNat_of_fits rfl slotChecksum]

def toBytes (slot : ProjectionCatalogSlot) : Bytes := layout.toBytes slot

def fromBytes (bytes : Bytes) : Except String ProjectionCatalogSlot :=
  (layout.fromBytes bytes).elim (.error "Projection catalog slot length is invalid") .ok

variable (crc32 : Bytes → UInt32)

def computeChecksum (slot : ProjectionCatalogSlot) : UInt32 := crc32 (slot.toBytes.take 36)

def isSelectable (slot : ProjectionCatalogSlot) : Prop :=
  slot ≠ empty ∧ slot.slotChecksum = slot.computeChecksum crc32 ∧ 0 < slot.catalogPageStart ∧
    0 < slot.catalogPageCount ∧ 0 < slot.catalogLen ∧ slot.catalogPageStart + slot.catalogPageCount < 2 ^ 64

instance (slot : ProjectionCatalogSlot) : Decidable (slot.isSelectable crc32) :=
  inferInstanceAs (Decidable (_ ∧ _))

end ProjectionCatalogSlot

namespace BasePageIntegrityDescriptor

def layout : FieldRecord BasePageIntegrityDescriptor where
  widths := [8, 8, 8, 8, 8, 8, 4, 4]
  fields descriptor := [descriptor.baseGeneration, descriptor.coveredPageStart, descriptor.coveredPageCount,
    descriptor.catalogPageStart, descriptor.catalogPageCount, descriptor.catalogLen,
    descriptor.catalogChecksum.toNat, descriptor.descriptorChecksum.toNat]
  build
    | [generation, coveredStart, coveredCount, start, count, len, checksum, descriptorChecksum] =>
      some ⟨generation, coveredStart, coveredCount, start, count, len, UInt32.ofNat checksum,
        UInt32.ofNat descriptorChecksum⟩
    | _ => none
  length_fields _ := rfl
  build_fields descriptor := by simp
  fields_build values descriptor fit built := by
    obtain - | ⟨-, - | ⟨-, - | ⟨-, - | ⟨-, - | ⟨-, - | ⟨-, - | ⟨checksum, - | ⟨last, ⟨⟩⟩⟩⟩⟩⟩⟩⟩⟩ := fit
    cases built
    rw [ofNat_of_fits rfl checksum, ofNat_of_fits rfl last]

def toBytes (descriptor : BasePageIntegrityDescriptor) : Bytes := layout.toBytes descriptor

def fromBytes (crc32 : Bytes → UInt32) (bytes : Bytes) : Except String BasePageIntegrityDescriptor := do
  let descriptor ← (layout.fromBytes bytes).elim (.error "Base integrity descriptor length is invalid") .ok
  if descriptor = empty then return descriptor
  else
    descriptor.validateLayout
    ensure (descriptor.checksumValid crc32) "Base integrity descriptor checksum mismatch"
    return descriptor

end BasePageIntegrityDescriptor

namespace HeaderPage

/-- The header with every field it has in the file. The magic bytes and the padding are kept as
    little-endian numbers. -/
structure FileHeader where
  magic : Nat
  version : Nat
  pageCount : Nat
  nodeCount : Nat
  lastCheckpointedTxCount : Nat
  eavtRootPage : Nat
  aevtRootPage : Nat
  avetRootPage : Nat
  vaetRootPage : Nat
  indexChecksum : Nat
  factPageFormat : Nat
  padding : Nat
  factPageCount : Nat
  headerChecksum : Nat
  deriving DecidableEq, Repr

def magicNumber : Nat := ofLeBytes [77, 71, 82, 70]

def maxReadableFormatVersion : Nat := 13

def FileHeader.layout : FieldRecord FileHeader where
  widths := [4, 4, 8, 8, 8, 8, 8, 8, 8, 4, 1, 3, 8, 4]
  fields header := [header.magic, header.version, header.pageCount, header.nodeCount,
    header.lastCheckpointedTxCount, header.eavtRootPage, header.aevtRootPage, header.avetRootPage,
    header.vaetRootPage, header.indexChecksum, header.factPageFormat, header.padding, header.factPageCount,
    header.headerChecksum]
  build
    | [magic, version, pageCount, nodeCount, txCount, eavt, aevt, avet, vaet, checksum, format, padding,
        factPages, headerChecksum] =>
      some ⟨magic, version, pageCount, nodeCount, txCount, eavt, aevt, avet, vaet, checksum, format, padding,
        factPages, headerChecksum⟩
    | _ => none
  length_fields _ := rfl
  build_fields _ := rfl
  fields_build values header fit built := by
    obtain - | ⟨-, - | ⟨-, - | ⟨-, - | ⟨-, - | ⟨-, - | ⟨-, - | ⟨-, - | ⟨-, - | ⟨-, - | ⟨-, - | ⟨-, - | ⟨-, - |
      ⟨-, - | ⟨-, ⟨⟩⟩⟩⟩⟩⟩⟩⟩⟩⟩⟩⟩⟩⟩⟩ := fit
    cases built
    rfl

def FileHeader.toBytes (header : FileHeader) : Bytes := layout.toBytes header

def FileHeader.fromBytes (bytes : Bytes) : Except String FileHeader :=
  if bytes.length < 64 then .error s!"Invalid header: too short (got {bytes.length} bytes, need 64)"
  else match FileHeader.layout.read bytes with
    | none => .error "header too short"
    | some header =>
      if header.magic ≠ magicNumber then .error "Invalid magic number: not a .graph file"
      else if header.version ≤ 3 then
        .ok { header with
          eavtRootPage := 0, aevtRootPage := 0, avetRootPage := 0, vaetRootPage := 0, indexChecksum := 0
          factPageFormat := 0, padding := 0, factPageCount := 0, headerChecksum := 0 }
      else if bytes.length < 72 then
        .error s!"Invalid v4/v5/v6 header: expected at least 72 bytes, got {bytes.length}"
      else if 6 ≤ header.version ∧ bytes.length < 80 then
        .error s!"Invalid v6 header: expected 80 bytes, got {bytes.length}"
      else if 7 ≤ header.version ∧ bytes.length < 84 then
        .error s!"Invalid v7+ header: expected 84 bytes, got {bytes.length}"
      else .ok { header with
        factPageCount := if 6 ≤ header.version then header.factPageCount else 0
        headerChecksum := if 7 ≤ header.version then header.headerChecksum else 0 }

def FileHeader.validate (header : FileHeader) : Except String Unit := do
  ensure (header.magic = magicNumber) "Invalid magic number"
  ensure (1 ≤ header.version ∧ header.version ≤ maxReadableFormatVersion)
    s!"Unsupported format version: {header.version} (supported: 1-{maxReadableFormatVersion})"
  ensure (header.pageCount ≠ 0) "page_count must be greater than 0"
  ensure (header.eavtRootPage = 0 ∨ header.eavtRootPage < header.pageCount)
    s!"eavt_root_page ({header.eavtRootPage}) must be less than page_count ({header.pageCount})"
  ensure (header.factPageCount ≤ header.pageCount)
    s!"fact_page_count ({header.factPageCount}) cannot exceed page_count ({header.pageCount})"

structure HeaderExtension where
  primary : HeaderManifestSlot
  secondary : HeaderManifestSlot
  baseFactPageStart : Nat
  baseLayoutChecksum : UInt32
  baseIntegrity : BasePageIntegrityDescriptor
  projectionPrimary : ProjectionCatalogSlot
  projectionSecondary : ProjectionCatalogSlot
  deriving DecidableEq, Repr

def headerExtensionOffset : Nat := 84

def unsupportedExtension : String := "Unsupported header extension file format version"

/-- `MGHEX001` to `MGHEX003`, and the length that goes with it -/
def extensionKind : Nat → Except String (Bytes × Nat)
  | 10 => .ok ([77, 71, 72, 69, 88, 48, 48, 49], 104)
  | 11 | 12 => .ok ([77, 71, 72, 69, 88, 48, 48, 50], 160)
  | 13 => .ok ([77, 71, 72, 69, 88, 48, 48, 51], 240)
  | _ => .error unsupportedExtension

section Extension

variable (crc32 : Bytes → UInt32)

def computeBaseLayoutChecksum (baseFactPageStart : Nat) : UInt32 := crc32 (leBytes 8 baseFactPageStart)

namespace HeaderExtension

def new (primary secondary : HeaderManifestSlot) : HeaderExtension :=
  ⟨primary, secondary, 1, computeBaseLayoutChecksum crc32 1, .empty, .empty, .empty⟩

def withProjectionCatalogSlots (extension : HeaderExtension) (primary secondary : ProjectionCatalogSlot) :
    Except String HeaderExtension := do
  ensure ((primary = .empty ∨ primary.isSelectable crc32) ∧
    (secondary = .empty ∨ secondary.isSelectable crc32)) "Projection catalog slot is invalid"
  return { extension with projectionPrimary := primary, projectionSecondary := secondary }

def withBaseFactPageStart (extension : HeaderExtension) (baseFactPageStart : Nat) :
    Except String HeaderExtension := do
  ensure (baseFactPageStart ≠ 0) "Base fact pages must not start on page 0"
  ensure (extension.baseIntegrity = .empty ∨
      extension.baseIntegrity.coveredPageStart = baseFactPageStart)
    "Base integrity coverage must start at the base fact page"
  return { extension with
    baseFactPageStart, baseLayoutChecksum := computeBaseLayoutChecksum crc32 baseFactPageStart }

def withBaseIntegrity (extension : HeaderExtension) (baseIntegrity : BasePageIntegrityDescriptor) :
    Except String HeaderExtension := do
  baseIntegrity.validateLayout
  ensure (baseIntegrity.checksumValid crc32) "Base integrity descriptor checksum mismatch"
  ensure (baseIntegrity = .empty ∨ baseIntegrity.coveredPageStart = extension.baseFactPageStart)
    "Base integrity coverage must start at the base fact page"
  return { extension with baseIntegrity }

def integrityBytes (extension : HeaderExtension) (version : Nat) : Except String Bytes :=
  if 11 ≤ version then .ok extension.baseIntegrity.toBytes
  else if extension.baseIntegrity = .empty then .ok []
  else .error "v10 header extension cannot encode v11 base integrity metadata"

def projectionBytes (extension : HeaderExtension) (version : Nat) : Except String Bytes :=
  if 13 ≤ version then .ok (extension.projectionPrimary.toBytes ++ extension.projectionSecondary.toBytes)
  else if extension.projectionPrimary = .empty ∧ extension.projectionSecondary = .empty then .ok []
  else .error "v12 header extension cannot encode projection catalog slots"

def toBytesForVersion (extension : HeaderExtension) (version : Nat) : Except String Bytes := do
  let (magic, _) ← extensionKind version
  let integrity ← extension.integrityBytes version
  let projections ← extension.projectionBytes version
  return magic ++ (leBytes 4 version ++ (extension.primary.toBytes ++ (extension.secondary.toBytes ++
    (leBytes 8 extension.baseFactPageStart ++ (leBytes 4 extension.baseLayoutChecksum.toNat ++
      (integrity ++ projections))))))

def readBaseLayout (rawStart rawChecksum : Nat) : Except String Nat :=
  if rawStart = 0 ∧ rawChecksum = 0 then .ok 1
  else do
    ensure (rawStart ≠ 0) "Header extension base fact page start must be non-zero"
    ensure (rawChecksum = (computeBaseLayoutChecksum crc32 rawStart).toNat)
      "Header extension base layout checksum mismatch"
    return rawStart

def readIntegrity (version : Nat) (bytes : Bytes) : Except String BasePageIntegrityDescriptor :=
  if 11 ≤ version then BasePageIntegrityDescriptor.fromBytes crc32 (slice bytes 104 56) else .ok .empty

def readProjections (version : Nat) (bytes : Bytes) : Except String (ProjectionCatalogSlot × ProjectionCatalogSlot) :=
  if 13 ≤ version then do
    let primary ← ProjectionCatalogSlot.fromBytes (slice bytes 160 40)
    let secondary ← ProjectionCatalogSlot.fromBytes (slice bytes 200 40)
    return (primary, secondary)
  else .ok (.empty, .empty)

def readSections (version : Nat) (bytes : Bytes) : Except String HeaderExtension := do
  let primary ← HeaderManifestSlot.fromBytes (slice bytes 12 40)
  let secondary ← HeaderManifestSlot.fromBytes (slice bytes 52 40)
  let start ← readBaseLayout crc32 (ofLeBytes (slice bytes 92 8)) (ofLeBytes (slice bytes 100 4))
  let integrity ← readIntegrity crc32 version bytes
  ensure (integrity = .empty ∨ integrity.coveredPageStart = start)
    "Base integrity coverage does not match the base fact page start"
  let (projectionPrimary, projectionSecondary) ← readProjections version bytes
  return ⟨primary, secondary, start, computeBaseLayoutChecksum crc32 start, integrity, projectionPrimary,
    projectionSecondary⟩

def readFromPage0 (version : Nat) (page : Bytes) : Except String (Option HeaderExtension) :=
  if page.length < headerExtensionOffset then .error "Page 0 is too short for legacy header"
  else if version < 10 then .ok none
  else do
    let (magic, length) ← extensionKind version
    let bytes := slice page headerExtensionOffset length
    ensure (bytes.length = length) "Header extension is truncated"
    ensure (bytes.any (· ≠ 0)) s!"Header extension is missing for v{version} header"
    ensure (slice bytes 0 8 = magic) "Header extension magic mismatch"
    ensure (ofLeBytes (slice bytes 8 4) = version) unsupportedExtension
    return some (← readSections crc32 version bytes)

end HeaderExtension

def buildHeaderPageWithExtension (header : FileHeader) (extension : HeaderExtension) : Except String Bytes := do
  header.validate
  ensure (10 ≤ header.version ∧ header.version ≤ 13) "Header extension requires v10 through v13 file format"
  let page := header.toBytes ++ List.replicate (pageSize - header.toBytes.length) 0
  let bytes ← extension.toBytesForVersion header.version
  return page.take headerExtensionOffset ++ bytes ++ page.drop (headerExtensionOffset + bytes.length)

end Extension

end HeaderPage

end ViciaDb
