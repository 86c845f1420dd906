import ViciaDb.Storage.PageIntegrity

namespace ViciaDb

open ByteReader SlottedPage PagedBytes BTree PackedPages Wal.Postcard
open Except (ensure)

section PageZero

variable (crc32 : Bytes → UInt32)

structure HeaderExtension where
  primary : HeaderManifestSlot
  secondary : HeaderManifestSlot
  baseFactPageStart : Nat
  baseIntegrity : BasePageIntegrityDescriptor
  deriving DecidableEq, Repr

def HeaderExtension.new (primary secondary : HeaderManifestSlot) : HeaderExtension :=
  ⟨primary, secondary, 1, .empty⟩

def HeaderExtension.empty : HeaderExtension := .new .empty .empty

def HeaderExtension.withBaseFactPageStart (extension : HeaderExtension) (baseFactPageStart : Nat) :
    Except String HeaderExtension := do
  ensure (baseFactPageStart ≠ 0) "Base fact pages must not start on page 0"
  ensure (extension.baseIntegrity = .empty ∨
      extension.baseIntegrity.coveredPageStart = baseFactPageStart)
    "Base integrity coverage must start at the base fact page"
  return { extension with baseFactPageStart }

def HeaderExtension.withBaseIntegrity (extension : HeaderExtension)
    (baseIntegrity : BasePageIntegrityDescriptor) : Except String HeaderExtension := do
  baseIntegrity.validateLayout
  ensure (baseIntegrity.checksumValid crc32) "Base integrity descriptor checksum mismatch"
  ensure (baseIntegrity = .empty ∨
      baseIntegrity.coveredPageStart = extension.baseFactPageStart)
    "Base integrity coverage must start at the base fact page"
  return { extension with baseIntegrity }

/-- The checks `read_from_page0` makes on the fields it has read. -/
def HeaderExtension.validate (extension : HeaderExtension) : Except String Unit := do
  ensure (extension.baseFactPageStart ≠ 0)
    "Header extension base fact page start must be non-zero"
  extension.baseIntegrity.validateLayout
  ensure (extension.baseIntegrity.checksumValid crc32)
    "Base integrity descriptor checksum mismatch"
  ensure (extension.baseIntegrity = .empty ∨
      extension.baseIntegrity.coveredPageStart = extension.baseFactPageStart)
    "Base integrity coverage does not match the base fact page start"

def FileHeader.validate (header : FileHeader) : Except String Unit := do
  ensure (header.pageCount ≠ 0) "page_count must be greater than 0"
  ensure (header.roots.eavt = 0 ∨ header.roots.eavt < header.pageCount)
    s!"eavt_root_page ({header.roots.eavt}) must be less than page_count ({header.pageCount})"
  ensure (header.factPageCount ≤ header.pageCount)
    s!"fact_page_count ({header.factPageCount}) cannot exceed page_count ({header.pageCount})"

/-- Page 0. It is written whole, and its own magic, version and checksum are not modelled. -/
structure Page0 where
  header : FileHeader
  extension : HeaderExtension
  deriving DecidableEq, Repr

def buildHeaderPage (header : FileHeader) (extension : HeaderExtension) : Except String Page0 := do
  header.validate
  return ⟨header, extension⟩

structure MainFile where
  page0 : Page0
  pages : Pages

def MainFile.fresh : MainFile := ⟨⟨.new, .empty⟩, fun _ => none⟩

end PageZero

section Selection

variable (crc32 : Bytes → UInt32)

inductive HeaderManifestSlotName where
  | primary | secondary
  deriving DecidableEq, Repr

inductive HeaderManifestSlotSelection where
  | noDeltaManifest
  | use (slot : HeaderManifestSlotName) (descriptor : HeaderManifestSlot)
  | recoveryRequired
  deriving DecidableEq, Repr

inductive PersistedManifestRecoveryReason where
  | corruptManifestSlot | noValidManifest
  deriving DecidableEq, Repr

def PersistedManifestRecoveryReason.text : PersistedManifestRecoveryReason → String
  | .corruptManifestSlot => "corrupt manifest slot"
  | .noValidManifest => "no valid manifest"

inductive PersistedManifestSelection where
  | noDeltaManifest
  | use (slot : HeaderManifestSlotName) (manifest : DeltaManifest)
  | recoveryRequired (reason : PersistedManifestRecoveryReason)
  deriving DecidableEq, Repr

def HeaderManifestSlot.invalid (slot : HeaderManifestSlot) : Bool :=
  !slot.isEmpty && !slot.isSelectable crc32

def selectHeaderManifestSlot (extension : HeaderExtension) : HeaderManifestSlotSelection :=
  let primary := extension.primary
  let secondary := extension.secondary
  if primary.isSelectable crc32 then
    if secondary.isSelectable crc32 ∧ primary.generation < secondary.generation then
      .use .secondary secondary
    else .use .primary primary
  else if secondary.isSelectable crc32 then .use .secondary secondary
  else if primary.isEmpty ∧ secondary.isEmpty then .noDeltaManifest
  else .recoveryRequired

def manifestCandidates (extension : HeaderExtension) :
    List (HeaderManifestSlotName × HeaderManifestSlot) :=
  let primary := (HeaderManifestSlotName.primary, extension.primary)
  let secondary := (HeaderManifestSlotName.secondary, extension.secondary)
  match extension.primary.isSelectable crc32, extension.secondary.isSelectable crc32 with
  | true, true =>
    if extension.primary.generation < extension.secondary.generation then [secondary, primary]
    else [primary, secondary]
  | true, false => [primary]
  | false, true => [secondary]
  | false, false => []

structure UsableManifest where
  slot : HeaderManifestSlotName
  descriptor : HeaderManifestSlot
  manifest : DeltaManifest
  segments : List DeltaSegment

def readUsable (pages : Pages) (header : FileHeader)
    (candidate : HeaderManifestSlotName × HeaderManifestSlot) : Except String UsableManifest := do
  let manifest ← readManifestFromDescriptor crc32 pages header candidate.2
  let segments ← loadDeltaSegmentsFromManifest crc32 pages header manifest
  return ⟨candidate.1, candidate.2, manifest, segments⟩

def firstUsable (pages : Pages) (header : FileHeader) :
    List (HeaderManifestSlotName × HeaderManifestSlot) → Option UsableManifest
  | [] => none
  | candidate :: rest =>
    match readUsable crc32 pages header candidate with
    | .ok usable => some usable
    | .error _ => firstUsable pages header rest

def loadUsableDeltaSelection (pages : Pages) (page0 : Page0) :
    HeaderManifestSlotSelection × PersistedManifestSelection × List DeltaSegment :=
  let extension := page0.extension
  match manifestCandidates crc32 extension with
  | [] =>
    if extension.primary.invalid crc32 || extension.secondary.invalid crc32 then
      (.recoveryRequired, .recoveryRequired .corruptManifestSlot, [])
    else (.noDeltaManifest, .noDeltaManifest, [])
  | candidates =>
    match firstUsable crc32 pages page0.header candidates with
    | some usable =>
      (.use usable.slot usable.descriptor, .use usable.slot usable.manifest, usable.segments)
    | none => (.recoveryRequired, .recoveryRequired .noValidManifest, [])

end Selection

section Load

variable (crc32 : Bytes → UInt32)

/-- An open main file: the selected manifest with its segments, the place of the base facts, the catalog
    of base pages and the roots of the index reader. -/
structure Resident where
  headerSelection : HeaderManifestSlotSelection
  deltaSelection : PersistedManifestSelection
  deltaSegments : List DeltaSegment
  committedFactPages : Nat
  committedFactPageStart : Nat
  baseIntegrity : Option BasePageIntegrityCatalog
  roots : IndexRoots
  lastCheckpointedTxCount : UInt64

def validateRoot (name : String) (descriptor : BasePageIntegrityDescriptor) (root : Nat) :
    Except String Unit :=
  ensure (root ≠ 0 ∧ descriptor.coveredPageStart ≤ root ∧ root < descriptor.coveredPageEnd)
    (name ++ " root is outside base integrity coverage")

def validateBaseIntegrityDescriptor (page0 : Page0) :
    Except String (Option BasePageIntegrityDescriptor) :=
  let header := page0.header
  let extension := page0.extension
  let descriptor := extension.baseIntegrity
  if descriptor = .empty then do
    ensure (header.factPageCount = 0 ∧ header.nodeCount = 0 ∧ header.roots = ⟨0, 0, 0, 0⟩ ∧
        extension.baseFactPageStart = 1 ∧ header.pageCount = 1)
      "Non-canonical empty or unprotected v11 database"
    return none
  else do
    ensure (descriptor.coveredPageStart = extension.baseFactPageStart)
      "Base integrity coverage does not match base fact page start"
    ensure (descriptor.catalogPageEnd < 2 ^ 64) "Base integrity catalog page range overflow"
    ensure (descriptor.catalogPageEnd ≤ header.pageCount)
      "Base integrity catalog exceeds published page count"
    let expectedCatalogLen ← encodedLenForCount descriptor.coveredPageCount
    ensure (descriptor.catalogLen = expectedCatalogLen)
      "Base integrity catalog length does not match its covered page count"
    ensure (descriptor.coveredPageEnd < 2 ^ 64) "Base integrity covered page range overflow"
    ensure (extension.baseFactPageStart + header.factPageCount < 2 ^ 64)
      "Base fact page range overflow"
    ensure (extension.baseFactPageStart + header.factPageCount ≤ descriptor.coveredPageEnd)
      "Base fact page range exceeds integrity coverage"
    ensure (header.factPageCount ≠ 0)
      "Protected v11 base must declare at least one packed fact page"
    validateRoot "EAVT" descriptor header.roots.eavt
    validateRoot "AEVT" descriptor header.roots.aevt
    validateRoot "AVET" descriptor header.roots.avet
    validateRoot "VAET" descriptor header.roots.vaet
    return some descriptor

def loadBaseIntegrity (file : MainFile) : Except String (Option BasePageIntegrityCatalog) := do
  match ← validateBaseIntegrityDescriptor file.page0 with
  | none => return none
  | some descriptor => return some (← readBaseIntegrityCatalog crc32 file.pages descriptor)

def checkSelection (header : FileHeader) : PersistedManifestSelection → Except String Unit
  | .noDeltaManifest => .ok ()
  | .recoveryRequired reason => .error ("Delta manifest recovery required: " ++ reason.text)
  | .use _ manifest =>
    if manifest.segments = [] then .ok ()
    else do
      ensure (header.roots.eavt ≠ 0) "Delta manifest requires base index roots"
      manifest.baseIdentity.validateAgainstHeader header

/-- Opening a main file of the current format. A base with fact pages has its roots, so the branch that
    rebuilds missing indexes is never taken. -/
def load (file : MainFile) : Except String Resident := do
  let header := file.page0.header
  let extension := file.page0.extension
  header.validate
  extension.validate crc32
  ensure (header.factPageCount = 0 ∨
      extension.baseFactPageStart ≠ 0 ∧ extension.baseFactPageStart < max header.pageCount 1)
    "Header base fact page start is out of bounds"
  let baseIntegrity ← loadBaseIntegrity crc32 file
  let (headerSelection, deltaSelection, deltaSegments) :=
    loadUsableDeltaSelection crc32 file.pages file.page0
  checkSelection header deltaSelection
  return {
    headerSelection, deltaSelection, deltaSegments, baseIntegrity
    committedFactPages := header.factPageCount
    committedFactPageStart := extension.baseFactPageStart
    roots := header.roots
    lastCheckpointedTxCount := header.lastCheckpointedTxCount }

end Load

section Readers

variable (crc32 : Bytes → UInt32)

def FactRef.cmp : FactRef → FactRef → Ordering :=
  compareLex (compareOn FactRef.pageId) (compareOn FactRef.slotIndex)

def deltaFacts (segments : List DeltaSegment) : List (FactRef × Fact) :=
  (segments.flatMap fun segment => segment.payload.facts).foldl
    (fun map row => SortedMap.insert FactRef.cmp row.1 row.2 map) []

variable (pages : Pages) (resident : Resident)

def Resident.basePages : Pages := verifiedPages crc32 resident.baseIntegrity pages

def resolveCommitted (ref : FactRef) : Except String Fact :=
  match SortedMap.find FactRef.cmp ref (deltaFacts resident.deltaSegments) with
  | some fact => .ok fact
  | none => resolve (resident.basePages crc32 pages) ref

def committedFacts : Except String (List Fact) := do
  let base ← readAllFromPages (resident.basePages crc32 pages) resident.committedFactPageStart
    resident.committedFactPages
  return base ++ (deltaFacts resident.deltaSegments).map Prod.snd

end Readers

section DeltaCheckpoint

variable (crc32 : Bytes → UInt32)

def nextManifestExtension (extension : HeaderExtension) (selection : HeaderManifestSlotSelection)
    (descriptor : HeaderManifestSlot) : Except String (HeaderExtension × HeaderManifestSlotName) := do
  let (slots, published) : HeaderExtension × HeaderManifestSlotName :=
    match selection with
    | .use .primary _ => (.new extension.primary descriptor, .secondary)
    | .use .secondary _ => (.new descriptor extension.secondary, .primary)
    | .noDeltaManifest | .recoveryRequired => (.new descriptor .empty, .primary)
  let placed ← slots.withBaseFactPageStart extension.baseFactPageStart
  let next ← placed.withBaseIntegrity crc32 extension.baseIntegrity
  return (next, published)

def manifestBefore (page0 : Page0) (resident : Resident) :
    Except String (DeltaBaseIdentity × List DeltaManifestSegment) :=
  match resident.deltaSelection with
  | .use _ manifest => do
    ensure (manifest.segments.length = resident.deltaSegments.length)
      "Resident delta segment count does not match the selected manifest"
    return (manifest.baseIdentity, manifest.segments)
  | _ => do
    ensure (resident.deltaSegments.length = 0)
      "Resident delta segments exist without a selected manifest"
    return (.fromHeader page0.header, [])

def saturatingSucc (n : UInt64) : UInt64 := if n = UInt64.ofNat (2 ^ 64 - 1) then n else n + 1

def manifestGeneration (header : FileHeader) (currentTxCount : UInt64) : Nat :=
  (max (max currentTxCount (saturatingSucc header.lastCheckpointedTxCount)) 1).toNat

/-- A checkpoint that appends: the pages of the segment and its manifest behind the published ones, and
    the page 0 that shows them. -/
structure DeltaPlan where
  segment : DeltaSegment
  manifest : DeltaManifest
  descriptor : HeaderManifestSlot
  slot : HeaderManifestSlotName
  pages : List Bytes
  page0 : Page0

def planDelta (page0 : Page0) (resident : Resident) (pending : List Fact) (currentTxCount : UInt64) :
    Except String DeltaPlan := do
  let header := page0.header
  let (baseIdentity, segments) ← manifestBefore page0 resident
  let segment ← DeltaSegment.fromFacts pending header.pageCount
  let written ← segmentPages crc32 segment header.pageCount
  let described ← DeltaManifestSegment.fromSegmentHeader header.pageCount written.length segment.header
  let manifest ← DeltaManifest.new (manifestGeneration header currentTxCount) baseIdentity
    (segments ++ [described])
  let manifestPageStart := header.pageCount + written.length
  let (manifestPages, descriptor) ← manifestPages crc32 manifest manifestPageStart
  let (extension, slot) ← nextManifestExtension crc32 page0.extension resident.headerSelection descriptor
  let published ← buildHeaderPage
    { header with
      pageCount := manifestPageStart + manifestPages.length
      nodeCount := header.nodeCount + pending.length
      lastCheckpointedTxCount := currentTxCount } extension
  return ⟨segment, manifest, descriptor, slot, written ++ manifestPages, published⟩

def DeltaPlan.publish (plan : DeltaPlan) (file : MainFile) (resident : Resident) :
    MainFile × Resident :=
  (⟨plan.page0, writePages file.pages file.page0.header.pageCount plan.pages⟩,
    { resident with
      headerSelection := .use plan.slot plan.descriptor
      deltaSelection := .use plan.slot plan.manifest
      deltaSegments := resident.deltaSegments ++ [plan.segment]
      lastCheckpointedTxCount := plan.page0.header.lastCheckpointedTxCount })

def appendsDelta (page0 : Page0) (resident : Resident) (pending : List Fact) : Bool :=
  !pending.isEmpty && decide page0.header.roots.Present &&
    match resident.deltaSelection with
    | .recoveryRequired _ => false
    | _ => true

end DeltaCheckpoint

section FullCheckpoint

variable (crc32 : Bytes → UInt32) {κ : Type}

def mergeSortedIters (kind : IndexKind κ) (committed pending : List (κ × FactRef)) :
    List (κ × FactRef) :=
  committed.merge pending fun a b => ((kind.cmp a.1 b.1).then (FactRef.cmp a.2 b.2)).isLE

def mergeContents (committed pending : IndexContents) : IndexContents where
  eavt := mergeSortedIters eavt committed.eavt pending.eavt
  aevt := mergeSortedIters aevt committed.aevt pending.aevt
  avet := mergeSortedIters avet committed.avet pending.avet
  vaet := mergeSortedIters vaet committed.vaet pending.vaet

def streamTree (kind : IndexKind κ) (header : FileHeader) (pages : Pages) (root : Nat) :
    Except String (List (κ × FactRef)) :=
  if root = 0 then .ok [] else streamAllEntries kind header.pageCount pages root

def committedContents (file : MainFile) : Except String IndexContents := do
  let header := file.page0.header
  let eavt ← streamTree eavt header file.pages header.roots.eavt
  let aevt ← streamTree aevt header file.pages header.roots.aevt
  let avet ← streamTree avet header file.pages header.roots.avet
  let vaet ← streamTree vaet header file.pages header.roots.vaet
  return { eavt, aevt, avet, vaet }

def nextBaseGeneration (resident : Resident) : Except String Nat := do
  let generation := match resident.baseIntegrity with
    | none => 0
    | some catalog => catalog.baseGeneration
  ensure (generation + 1 < 2 ^ 64) "Base integrity generation overflow"
  return generation + 1

def publishBase (pages : Pages) (contents : IndexContents) (generation start factPageCount nodeCount : Nat)
    (currentTxCount : UInt64) : Except String (MainFile × Resident) := do
  let (pages, roots, next) ← buildIndexes contents pages (start + factPageCount)
  let (pages, integrity) ← writeBaseIntegrityCatalog crc32 pages generation start (next - start) next none
  let header : FileHeader := {
    pageCount := integrity.publishedPageCount
    nodeCount := nodeCount
    lastCheckpointedTxCount := currentTxCount
    roots := roots
    indexChecksum := integrity.aggregateChecksum
    factPageCount := factPageCount }
  let placed ← HeaderExtension.empty.withBaseFactPageStart start
  let extension ← placed.withBaseIntegrity crc32 integrity.descriptor
  let page0 ← buildHeaderPage header extension
  return (⟨page0, pages⟩, {
    headerSelection := selectHeaderManifestSlot crc32 extension
    deltaSelection := .noDeltaManifest
    deltaSegments := []
    committedFactPages := factPageCount
    committedFactPageStart := start
    baseIntegrity := some integrity.catalog
    roots := roots
    lastCheckpointedTxCount := currentTxCount })

def saveFull (file : MainFile) (resident : Resident) (pending : List Fact) (currentTxCount : UInt64) :
    Except String (MainFile × Resident) := do
  let generation ← nextBaseGeneration resident
  let start := resident.committedFactPageStart
  let newFactStart := start + resident.committedFactPages
  match resident.baseIntegrity with
  | none => pure ()
  | some catalog => verifyBaseIntegrityPages crc32 file.pages catalog
  let committed ← committedContents file
  let (factPages, refs) ← packFacts pending newFactStart
  publishBase crc32 (writePages file.pages newFactStart factPages)
    (mergeContents committed (indexContents pending refs)) generation start
    (resident.committedFactPages + factPages.length)
    (file.page0.header.nodeCount + pending.length) currentTxCount

def recompact (file : MainFile) (resident : Resident) (pending : List Fact) (currentTxCount : UInt64) :
    Except String (MainFile × Resident) := do
  let generation ← nextBaseGeneration resident
  let start := file.page0.header.pageCount
  ensure (start ≠ 0) "Recompact base candidate cannot start on page 0"
  let committed ← committedFacts crc32 file.pages resident
  let facts := committed ++ pending
  let (factPages, refs) ← packFacts facts start
  publishBase crc32 (writePages file.pages start factPages) (indexContents facts refs) generation start
    factPages.length facts.length currentTxCount

end FullCheckpoint

section Save

variable (crc32 : Bytes → UInt32)

inductive CheckpointOutcome where
  | noop | deltaSegment | fullRebuild | fullRebuildFromVisibleDelta
  deriving DecidableEq, Repr

def PersistedManifestSelection.isUse : PersistedManifestSelection → Bool
  | .use _ _ => true
  | _ => false

def saveRoute (page0 : Page0) (resident : Resident) (pending : List Fact) : CheckpointOutcome :=
  if appendsDelta page0 resident pending then .deltaSegment
  else if resident.deltaSelection.isUse then .fullRebuildFromVisibleDelta
  else .fullRebuild

def save (file : MainFile) (resident : Resident) (pending : List Fact) (currentTxCount : UInt64) :
    Except String (MainFile × Resident) :=
  match saveRoute file.page0 resident pending with
  | .deltaSegment => do
    let plan ← planDelta crc32 file.page0 resident pending currentTxCount
    return plan.publish file resident
  | .fullRebuildFromVisibleDelta => recompact crc32 file resident pending currentTxCount
  | .fullRebuild | .noop => saveFull crc32 file resident pending currentTxCount

end Save

end ViciaDb
