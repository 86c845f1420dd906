import ViciaDb.Storage.BaseCheckpoint
import ViciaDb.Storage.DeltaFormat
import ViciaDb.Storage.PersistentFacts

namespace ViciaDb

open List ByteReader PagedBytes BTree PackedPages Except

variable {crc32 : Bytes → UInt32} {pages pages' : Pages} {header : FileHeader}
  {file : MainFile} {resident : Resident} {start count bound : Nat}

/-- The pages below `bound` are as they were. -/
def KeepsBelow (bound : Nat) (pages pages' : Pages) : Prop := ∀ i < bound, pages' i = pages i

theorem inside_of_validate {page0 : Page0} {descriptor : BasePageIntegrityDescriptor}
    (valid : validateBaseIntegrityDescriptor page0 = .ok (some descriptor)) :
    descriptor = page0.extension.baseIntegrity ∧ descriptor ≠ .empty ∧
      descriptor.catalogPageEnd ≤ page0.header.pageCount ∧
      page0.extension.baseFactPageStart + page0.header.factPageCount ≤ descriptor.coveredPageEnd := by
  rw [validateBaseIntegrityDescriptor] at valid
  split at valid
  · simp [bind_eq_ok_iff, pure, Except.pure] at valid
  · rename_i nonempty
    simp only [bind_eq_ok_iff, ensure_eq_ok_iff, exists_and_left, exists_const, pure, Except.pure,
      Except.ok.injEq, Option.some.injEq] at valid
    obtain ⟨-, -, catalogEnd, _, -, -, -, -, factEnd, -, _, -, _, -, _, -, _, -, rfl⟩ := valid
    exact ⟨rfl, nonempty, catalogEnd, factEnd⟩

namespace KeepsBelow

section

variable (kept : KeepsBelow bound pages pages')

include kept

theorem page (below : start < bound) : pages'.load start = pages.load start := by
  rw [Pages.load, Pages.load, kept start below]

theorem run (message : String) (inside : start + count ≤ bound) :
    readRun (fullPage message pages') start count = readRun (fullPage message pages) start count := by
  induction count generalizing start with
  | zero => rfl
  | succ count ih => rw [readRun, readRun, fullPage, fullPage, kept.page (by omega), ih (by omega)]

theorem catalogPages (inside : start + count ≤ bound) (remaining : Nat) :
    readCatalogPages pages' start count remaining = readCatalogPages pages start count remaining := by
  induction count generalizing start remaining with
  | zero => rfl
  | succ count ih =>
    change (pages'.load start >>= _) = (pages.load start >>= _)
    rw [kept.page (by omega)]
    refine bind_congr fun page => bind_congr fun _ => bind_congr fun _ => ?_
    exact congrArg (· >>= _) (ih (by omega) _)

theorem factPages (inside : start + count ≤ bound) :
    readAllFromPages pages' start count = readAllFromPages pages start count := by
  induction count generalizing start with
  | zero => rfl
  | succ count ih => rw [readAllFromPages, readAllFromPages, kept.page (by omega), ih (by omega)]

theorem verified (catalog : Option BasePageIntegrityCatalog) :
    KeepsBelow bound (verifiedPages crc32 catalog pages) (verifiedPages crc32 catalog pages') := by
  intro i below
  cases catalog with
  | none => exact kept i below
  | some catalog => simp only [verifiedPages, kept i below]

end

theorem usable (kept : KeepsBelow header.pageCount pages pages') :
    readUsable crc32 pages' header = readUsable crc32 pages header := by
  have manifest : readManifestFromDescriptor crc32 pages' header =
      readManifestFromDescriptor crc32 pages header := by
    funext descriptor
    by_cases inside : descriptor.manifestPageStart + descriptor.manifestPageCount ≤ header.pageCount
    · simp only [readManifestFromDescriptor, kept.run _ inside]
    · simp only [readManifestFromDescriptor, ensure, inside, if_false, bind, Except.bind]
  have segment : readDeltaSegmentFromDescriptor crc32 pages' header =
      readDeltaSegmentFromDescriptor crc32 pages header := by
    funext descriptor
    by_cases inside : descriptor.segmentPageStart + descriptor.segmentPageCount ≤ header.pageCount
    · simp only [readDeltaSegmentFromDescriptor, kept.run _ inside]
    · simp only [readDeltaSegmentFromDescriptor, ensure, inside, if_false, bind, Except.bind]
  funext candidate
  simp only [readUsable, loadDeltaSegmentsFromManifest, manifest, segment]

theorem selection {page0 : Page0} (kept : KeepsBelow page0.header.pageCount pages pages') :
    loadUsableDeltaSelection crc32 pages' page0 = loadUsableDeltaSelection crc32 pages page0 := by
  have tried : ∀ candidates, firstUsable crc32 pages' page0.header candidates =
      firstUsable crc32 pages page0.header candidates := by
    intro candidates
    induction candidates with
    | nil => rfl
    | cons candidate rest ih => rw [firstUsable, firstUsable, kept.usable, ih]
  simp only [loadUsableDeltaSelection, tried]

variable (kept : KeepsBelow file.page0.header.pageCount file.pages pages')

include kept

theorem integrity : loadBaseIntegrity crc32 ⟨file.page0, pages'⟩ = loadBaseIntegrity crc32 file := by
  simp only [loadBaseIntegrity]
  cases valid : validateBaseIntegrityDescriptor file.page0 with
  | error => rfl
  | ok found =>
    cases found with
    | none => rfl
    | some descriptor =>
      simp only [bind, Except.bind, readBaseIntegrityCatalog,
        kept.catalogPages (inside_of_validate valid).2.2.1]

/-- Opening a file looks at no page at or above its page count. -/
theorem opens : load crc32 ⟨file.page0, pages'⟩ = load crc32 file := by
  simp only [load, kept.integrity, kept.selection]

end KeepsBelow

/-- The fact pages of an open file lie below its page count. -/
theorem factEnd_of_load (loads : load crc32 file = .ok resident) :
    resident.committedFactPageStart + resident.committedFactPages ≤ file.page0.header.pageCount ∨
      resident.committedFactPages = 0 := by
  simp only [load, bind_eq_ok_iff, ensure_eq_ok_iff, exists_and_left, exists_const, pure, Except.pure,
    Except.ok.injEq] at loads
  obtain ⟨_, -, _, extension, -, _, integrity, _, -, rfl⟩ := loads
  rw [loadBaseIntegrity] at integrity
  obtain ⟨found, valid, -⟩ := bind_eq_ok_iff.mp integrity
  -- Without a catalog there are no fact pages; with one they end before it.
  cases found with
  | none =>
    rw [validateBaseIntegrityDescriptor] at valid
    split at valid
    · simp only [bind_eq_ok_iff, ensure_eq_ok_iff, exists_and_left, exists_const] at valid
      exact .inr valid.1.1
    · simp [bind_eq_ok_iff, pure, Except.pure] at valid
  | some descriptor =>
    obtain ⟨rfl, nonempty, catalogEnd, factEnd⟩ := inside_of_validate valid
    simp only [HeaderExtension.validate, BasePageIntegrityDescriptor.validateLayout, if_neg nonempty,
      bind_eq_ok_iff, ensure_eq_ok_iff, exists_and_left, exists_const] at extension
    have behind := extension.2.1.2.2.2.1
    rw [BasePageIntegrityDescriptor.catalogPageEnd] at catalogEnd
    exact .inl (factEnd.trans (by omega))

/-- A delta checkpoint that dies before page 0 is replaced leaves a file that opens as before, with the
    same committed facts, whatever stands on the pages it was writing. -/
theorem torn_checkpoint_unseen (crc32 : Bytes → UInt32) (file : MainFile) (resident : Resident)
    (plan : DeltaPlan) (torn : Pages)
    (unwritten : ∀ i, (plan.publish file resident).1.pages i = file.pages i → torn i = file.pages i) :
    load crc32 ⟨file.page0, torn⟩ = load crc32 file ∧ ∀ opened, load crc32 file = .ok opened →
      committedFacts crc32 torn opened = committedFacts crc32 file.pages opened := by
  have kept : KeepsBelow file.page0.header.pageCount file.pages torn :=
    fun i below => unwritten i (writePages_of_lt _ _ _ below)
  refine ⟨kept.opens, fun opened loads => ?_⟩
  rw [committedFacts, committedFacts, Resident.basePages, Resident.basePages]
  rcases factEnd_of_load loads with inside | none
  · rw [(kept.verified _).factPages inside]
  · rw [none]
    rfl

/-- A new file, with half a page of a checkpoint behind its page 0. -/
theorem torn_checkpoint_unseen_fresh :
    load (fun _ => 0) ⟨MainFile.fresh.page0, fun i => if i = 1 then some [1] else none⟩ =
        load (fun _ => 0) .fresh ∧
      ∃ opened, load (fun _ => 0) .fresh = .ok opened ∧ opened.committedFactPages = 0 := by
  let plan : DeltaPlan := ⟨friendSegment, ⟨1, 1, .fromHeader .new, 0, 0, []⟩, .empty, .primary,
    [[1, 2], [3, 4]], MainFile.fresh.page0⟩
  have torn := torn_checkpoint_unseen (fun _ => 0) .fresh
    ⟨.noDeltaManifest, .noDeltaManifest, [], 0, 1, none, ⟨0, 0, 0, 0⟩, 0⟩ plan
    (fun i => if i = 1 then some [1] else none)
  refine ⟨(torn fun i same => ?_).1, _, rfl, rfl⟩
  by_cases first : i = 1
  · subst first
    cases same
  · simp [first, MainFile.fresh]

end ViciaDb
