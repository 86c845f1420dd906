import ViciaDb.Storage.BTree

namespace ViciaDb.BTree

open ByteReader SlottedPage List

section Records

variable {entries : List Bytes}

theorem length_zip_takeWhile_le (a b : Bytes) : sharedLength a b ≤ a.length ∧
    sharedLength a b ≤ b.length := by
  have part := (takeWhile_sublist (l := a.zip b) fun pair => pair.1 = pair.2).length_le
  rw [length_zip] at part
  unfold sharedLength
  omega

theorem take_sharedLength (a b : Bytes) : a.take (sharedLength a b) = b.take (sharedLength a b) := by
  induction a generalizing b with
  | nil => simp [sharedLength]
  | cons x a ih =>
    cases b with
    | nil => simp [sharedLength]
    | cons y b =>
      by_cases same : x = y
      · have step : sharedLength (x :: a) (y :: b) = sharedLength a b + 1 := by
          simp [sharedLength, same]
        rw [step, take_succ_cons, take_succ_cons, same, ih]
      · have step : sharedLength (x :: a) (y :: b) = 0 := by simp [sharedLength, same]
        rw [step, take_zero, take_zero]

theorem sharedAt_le (previous : Option Bytes) (index : Nat) (entry : Bytes) :
    sharedAt previous index entry ≤ (previous.getD []).length ∧
      sharedAt previous index entry ≤ entry.length := by
  unfold sharedAt
  split
  · exact ⟨Nat.zero_le _, Nat.zero_le _⟩
  · exact length_zip_takeWhile_le _ _

def prefixRecord (previous : Option Bytes) (index : Nat) (entry : Bytes) : Bytes :=
  leBytes 2 (sharedAt previous index entry) ++ leBytes 2 entry.length ++
    entry.drop (sharedAt previous index entry)

theorem length_prefixRecord (previous : Option Bytes) (index : Nat) (entry : Bytes) :
    (prefixRecord previous index entry).length =
      prefixRecordHeaderSize + (entry.length - sharedAt previous index entry) := by
  simp only [prefixRecord, prefixRecordHeaderSize, length_append, length_leBytes, length_drop]

theorem prefixRecordLayout_eq_ok {previous : Option Bytes} {index : Nat} {entry : Bytes}
    (short : entry.length < 65536) :
    prefixRecordLayout previous index entry = .ok (sharedAt previous index entry, entry.length,
      (prefixRecord previous index entry).length) := by
  have bound := (sharedAt_le previous index entry).2
  rw [prefixRecordLayout, length_prefixRecord]
  simp only [if_neg (by omega : ¬ 65535 < sharedAt previous index entry),
    if_neg (by omega : ¬ 65535 < entry.length)]

def before (previous : Option Bytes) (entries : List Bytes) : Nat → Option Bytes
  | 0 => previous
  | i + 1 => entries[i]?

def prefixRecordsFrom : Option Bytes → Nat → List Bytes → List Bytes
  | _, _, [] => []
  | previous, index, entry :: entries =>
    prefixRecord previous index entry :: prefixRecordsFrom (some entry) (index + 1) entries

theorem prefixRecords_eq_ok (previous : Option Bytes) (index : Nat)
    (short : ∀ entry ∈ entries, entry.length < 65536) :
    prefixRecords previous index entries = .ok (prefixRecordsFrom previous index entries) := by
  induction entries generalizing previous index with
  | nil => rfl
  | cons entry entries ih =>
    rw [prefixRecords, prefixRecordLayout_eq_ok (short entry (by simp))]
    simp only [bind, Except.bind, ih _ _ fun e member => short e (by simp [member])]
    rfl

theorem compressedBytes_eq_ok (previous : Option Bytes) (index : Nat)
    (short : ∀ entry ∈ entries, entry.length < 65536) :
    compressedBytes previous index entries =
      .ok (totalLength (prefixRecordsFrom previous index entries)) := by
  induction entries generalizing previous index with
  | nil => rfl
  | cons entry entries ih =>
    rw [compressedBytes, prefixRecordLayout_eq_ok (short entry (by simp))]
    simp only [bind, Except.bind, ih _ _ fun e member => short e (by simp [member])]
    simp [prefixRecordsFrom, pure, Except.pure]

@[simp] theorem length_prefixRecordsFrom (previous : Option Bytes) (index : Nat) (entries : List Bytes) :
    (prefixRecordsFrom previous index entries).length = entries.length := by
  induction entries generalizing previous index with
  | nil => rfl
  | cons entry entries ih => simp [prefixRecordsFrom, ih]

theorem getElem?_prefixRecordsFrom (previous : Option Bytes) (index : Nat) {i : Nat} {entry : Bytes}
    (found : entries[i]? = some entry) :
    (prefixRecordsFrom previous index entries)[i]? =
      some (prefixRecord (before previous entries i) (index + i) entry) := by
  induction entries generalizing previous index i with
  | nil => simp at found
  | cons first entries ih =>
    cases i with
    | zero =>
      obtain rfl : first = entry := by simpa using found
      rfl
    | succ i =>
      rw [prefixRecordsFrom, List.getElem?_cons_succ, ih (some first) (index + 1) (by simpa using found)]
      cases i with
      | zero => rfl
      | succ i =>
        simp only [before, List.getElem?_cons_succ]
        congr 2
        omega

theorem prefixRecordsFrom_concat (previous : Option Bytes) (index : Nat) (entries : List Bytes)
    (entry : Bytes) : prefixRecordsFrom previous index (entries ++ [entry]) =
      prefixRecordsFrom previous index entries ++
        [prefixRecord (before previous entries entries.length) (index + entries.length) entry] := by
  induction entries generalizing previous index with
  | nil => rfl
  | cons first entries ih =>
    rw [cons_append, prefixRecordsFrom, ih, prefixRecordsFrom, cons_append]
    cases entries with
    | nil => rfl
    | cons second entries =>
      simp only [before, length_cons, List.getElem?_cons_succ]
      congr 4
      omega

end Records

section LeafPages

def storedForm (pageType : UInt8) (entries : List Bytes) (i : Nat) (entry : Bytes) : Bytes :=
  if pageType = pageTypePrefixLeaf then prefixRecord (before none entries i) i entry else entry

structure LeafReads (page : Bytes) (pageType : UInt8) (entries : List Bytes) (nextLeaf : Nat) :
    Prop where
  head : page[0]? = some pageType
  isLeaf : isLeafPageType pageType = true
  interval : pageType = pageTypePrefixLeaf →
    page[1]? = some (UInt8.ofNat prefixRestartInterval)
  count : numberAt 2 page 2 = some entries.length
  next : numberAt 8 page 4 = some nextLeaf
  directory : leafHeaderSize + entries.length * slotSize ≤ page.length
  short : ∀ entry ∈ entries, entry.length < 65536
  stored : ∀ i entry, entries[i]? = some entry →
    ∃ pos, SlotHolds leafHeaderSize page i (storedForm pageType entries i entry) pos

variable {page : Bytes} {entries : List Bytes} {nextLeaf : Nat}

theorem LeafReads.first {pageType : UInt8} (reads : LeafReads page pageType entries nextLeaf) :
    page.head? = some pageType := by rw [List.head?_eq_getElem?, reads.head]

theorem length_leafHeader (pageType : UInt8) (entryCount nextLeaf : Nat) :
    (leafHeader pageType entryCount nextLeaf).length = leafHeaderSize := by
  simp [leafHeader, leafHeaderSize]

theorem leafReads_of_records {page' : Bytes} {pageType : UInt8} {records : List Bytes}
    (isLeaf : isLeafPageType pageType = true) (next64 : nextLeaf < 2 ^ 64) (few : entries.length < 65536)
    (short : ∀ entry ∈ entries, entry.length < 65536)
    (blank : page = leafHeader pageType entries.length nextLeaf ++
      List.replicate (pageSize - leafHeaderSize) 0) (length : page'.length = page.length)
    (frame : ∀ pos len, pos + len ≤ leafHeaderSize → readAt page' pos len = readAt page pos len)
    (room : leafHeaderSize + entries.length * slotSize ≤ pageSize)
    (same : ∀ i entry, entries[i]? = some entry → records[i]? = some (storedForm pageType entries i entry))
    (reads : ∀ i record, records[i]? = some record → ∃ pos, SlotHolds leafHeaderSize page' i record pos) :
    LeafReads page' pageType entries nextLeaf := by
  have headerLength := length_leafHeader pageType entries.length nextLeaf
  have pageLength : page.length = pageSize := by
    rw [blank, length_append, headerLength, length_replicate]
    rfl
  have field : ∀ pos len, pos + len ≤ leafHeaderSize →
      readAt page' pos len = readAt (leafHeader pageType entries.length nextLeaf) pos len := by
    intro pos len inside
    rw [frame pos len inside, blank, readAt_append_left _ (by omega)]
  constructor
  · rw [← readAt_one_eq_some_iff, field 0 1 (by decide)]
    simp [readAt, leafHeader]
  · exact isLeaf
  · intro compressed
    rw [← readAt_one_eq_some_iff, field 1 1 (by decide)]
    simp [readAt, leafHeader, compressed]
  · apply numberAt_of_readAt _ few
    rw [field 2 2 (by decide)]
    simp [readAt, leafHeader]
  · apply numberAt_of_readAt _ next64
    rw [field 4 8 (by decide)]
    simp [readAt, leafHeader, take_of_length_le]
  · omega
  · exact short
  · exact fun i entry found => reads i _ (same i entry found)

theorem placeRecords_spec (dir : Nat) (records : List Bytes) (length : page.length = pageSize)
    (fits : dir + records.length * slotSize + totalLength records ≤ pageSize) :
    ∃ page', placeRecords dir page records = .ok page' ∧ page'.length = page.length ∧
      (∀ pos len, pos + len ≤ dir → readAt page' pos len = readAt page pos len) ∧
      ∀ i record, records[i]? = some record → ∃ pos, SlotHolds dir page' i record pos := by
  have small : page.length < 65536 := by rw [length]; decide
  have room : dir + 4 * records.length + totalLength records ≤ page.length := by
    rw [length, Nat.mul_comm]
    exact fits
  obtain ⟨page', placed, rest⟩ := putRecords_spec small records room
  exact ⟨page', by rw [placeRecords, placed], rest⟩

theorem writeLeafPage_spec (next64 : nextLeaf < 2 ^ 64) (short : ∀ entry ∈ entries, entry.length < 65536)
    (fits : leafHeaderSize + entries.length * slotSize +
      min (totalLength entries) (totalLength (prefixRecordsFrom none 0 entries)) ≤ pageSize) :
    ∃ page pageType, writeLeafPage entries nextLeaf = .ok page ∧ page.length = pageSize ∧
      LeafReads page pageType entries nextLeaf := by
  have room : leafHeaderSize + entries.length * slotSize ≤ pageSize := by omega
  have few : entries.length < 65536 := by
    simp only [leafHeaderSize, slotSize, pageSize] at room
    omega
  have blankLength : ∀ pageType, (leafHeader pageType entries.length nextLeaf ++
      List.replicate (pageSize - leafHeaderSize) 0).length = pageSize := by
    intro pageType
    rw [length_append, length_leafHeader, length_replicate]
    rfl
  rw [writeLeafPage, compressedBytes_eq_ok none 0 short]
  simp only [bind, Except.bind, if_neg (by omega : ¬ 65535 < entries.length)]
  by_cases smaller : totalLength (prefixRecordsFrom none 0 entries) < totalLength entries
  · rw [if_pos smaller, if_pos rfl, prefixRecords_eq_ok none 0 short]
    obtain ⟨page, placed, length, frame, reads⟩ := placeRecords_spec leafHeaderSize
      (prefixRecordsFrom none 0 entries) (blankLength pageTypePrefixLeaf)
      (by rw [length_prefixRecordsFrom]; omega)
    refine ⟨page, pageTypePrefixLeaf, placed, by rw [length, blankLength], ?_⟩
    refine leafReads_of_records rfl next64 few short rfl length frame room ?_ reads
    intro i entry found
    rw [getElem?_prefixRecordsFrom none 0 found, Nat.zero_add]
    rfl
  · rw [if_neg smaller, if_neg (by decide)]
    obtain ⟨page, placed, length, frame, reads⟩ := placeRecords_spec leafHeaderSize
      entries (blankLength pageTypeLeaf) (by omega)
    refine ⟨page, pageTypeLeaf, placed, by rw [length, blankLength], ?_⟩
    refine leafReads_of_records rfl next64 few short rfl length frame room ?_ reads
    intro i entry found
    exact found

theorem LeafReads.patchNext {pageType : UInt8}
    {nextId : Nat} (reads : LeafReads page pageType entries nextLeaf)
    (next64 : nextId < 2 ^ 64) (length : page.length = pageSize) :
    ∃ page', writeAt page 4 (leBytes 8 nextId) = some page' ∧ page'.length = pageSize ∧
      LeafReads page' pageType entries nextId := by
  have fits : 4 + (leBytes 8 nextId).length ≤ page.length := by
    rw [length_leBytes, length]
    decide
  have apart : ∀ pos len, pos + len ≤ 4 ∨ 12 ≤ pos →
      readAt (patch page 4 (leBytes 8 nextId)) pos len = readAt page pos len := by
    intro pos len far
    exact readAt_patch_of_disjoint fits (by rw [length_leBytes]; omega)
  refine ⟨_, if_pos fits, by rw [length_patch fits, length], ?_⟩
  constructor
  · rw [← readAt_one_eq_some_iff, apart 0 1 (by omega), readAt_one_eq_some_iff, reads.head]
  · exact reads.isLeaf
  · intro compressed
    rw [← readAt_one_eq_some_iff, apart 1 1 (by omega), readAt_one_eq_some_iff, reads.interval compressed]
  · rw [numberAt, apart 2 2 (by omega)]
    exact reads.count
  · apply numberAt_of_readAt _ next64
    have written := readAt_patch_self fits
    rwa [length_leBytes] at written
  · rw [length_patch fits]
    exact reads.directory
  · exact reads.short
  · intro i entry found
    obtain ⟨pos, holds⟩ := reads.stored i entry found
    exact ⟨pos, holds.congr (apart _ _ (.inr (Nat.le_add_right _ _))) (apart _ _ (.inr holds.behind))⟩

end LeafPages

end ViciaDb.BTree
