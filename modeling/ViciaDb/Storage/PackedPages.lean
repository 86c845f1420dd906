import ViciaDb.Storage.BTreeCursor

namespace ViciaDb.PackedPages

open ByteReader SlottedPage BTree Wal.Postcard List
open UInt64 (ofNat)
open Wal (maxFactBytes)

def pageTypePacked : UInt8 := 0x02
def packedHeaderSize : Nat := 12

def newPackedPage : Bytes := pageTypePacked :: List.replicate (pageSize - 1) 0

def writeRecordCount (page : Bytes) (count : Nat) : Bytes :=
  (writeAt page 2 (leBytes 2 count)).getD page

/-- The next directory entry goes to `12 + 4 * currentRecordCount`, which the source keeps in a field
    of its own. -/
structure PackedFactPacker where
  startPageId : Nat
  completedPageCount : Nat
  pages : List Bytes
  currentPage : Bytes
  currentRecordCount : Nat
  dataOffset : Nat

def PackedFactPacker.new (startPageId : Nat) : PackedFactPacker where
  startPageId := startPageId
  completedPageCount := 0
  pages := []
  currentPage := newPackedPage
  currentRecordCount := 0
  dataOffset := pageSize

def PackedFactPacker.dirOffset (packer : PackedFactPacker) : Nat :=
  packedHeaderSize + 4 * packer.currentRecordCount

def PackedFactPacker.flush (packer : PackedFactPacker) : PackedFactPacker :=
  { packer with
    pages := packer.pages ++ [writeRecordCount packer.currentPage packer.currentRecordCount]
    completedPageCount := packer.completedPageCount + 1
    currentPage := newPackedPage
    currentRecordCount := 0
    dataOffset := pageSize }

def PackedFactPacker.place (packer : PackedFactPacker) (serialised : Bytes) :
    Except String (PackedFactPacker × FactRef) :=
  match putRecord packedHeaderSize
    (packer.currentPage, packer.dataOffset, packer.currentRecordCount) serialised with
  | none => .error "packed page too short"
  | some (page, dataOffset, recordCount) =>
    let pageId := packer.startPageId + packer.completedPageCount
    if 2 ^ 64 ≤ pageId then .error "packed fact page id overflow"
    else
      .ok ({ packer with
        currentPage := page
        currentRecordCount := recordCount
        dataOffset := dataOffset },
        ⟨UInt64.ofNat pageId, UInt16.ofNat packer.currentRecordCount⟩)

def PackedFactPacker.makeRoom (packer : PackedFactPacker) (len : Nat) : PackedFactPacker :=
  let free := packer.dataOffset - (packer.dirOffset + 4)
  if free < len ∨ packer.currentRecordCount = 65535 then packer.flush else packer

def PackedFactPacker.push (packer : PackedFactPacker) (fact : Fact) :
    Except String (PackedFactPacker × FactRef) :=
  let serialised := encFact fact
  let len := serialised.length
  if Wal.maxFactBytes < len then
    .error s!"Fact serialised size {len} bytes exceeds maximum slot size {Wal.maxFactBytes} bytes"
  else (packer.makeRoom len).place serialised

def PackedFactPacker.finish (packer : PackedFactPacker) : List Bytes :=
  packer.pages ++ [writeRecordCount packer.currentPage packer.currentRecordCount]

def PackedFactPacker.pushAll : PackedFactPacker → List Fact →
    Except String (PackedFactPacker × List FactRef)
  | packer, [] => .ok (packer, [])
  | packer, fact :: facts => do
    let (packer, ref) ← packer.push fact
    let (packer, refs) ← packer.pushAll facts
    return (packer, ref :: refs)

def packFacts (facts : List Fact) (startPageId : Nat) : Except String (List Bytes × List FactRef) := do
  let (packer, refs) ← (PackedFactPacker.new startPageId).pushAll facts
  return (packer.finish, refs)

def openPacked (page : Bytes) : Except String Nat :=
  if page.length < pageSize then
    .error s!"Page too short: {page.length} bytes (expected {pageSize})"
  else
    match page.head? with
    | none => .error "packed page empty"
    | some pageType =>
      if pageType ≠ pageTypePacked then
        .error ("Expected packed page (0x02), got 0x" ++ hexByte pageType)
      else readU16At page 2

def readSlot (page : Bytes) (slot : Nat) : Except String Fact := do
  let recordCount ← openPacked page
  if recordCount ≤ slot then
    .error s!"Slot {slot} out of bounds (page has {recordCount} records)"
  else
    let offset ← readU16At page (packedHeaderSize + 4 * slot)
    let length ← readU16At page (packedHeaderSize + 4 * slot + 2)
    if pageSize < offset + length then
      .error s!"Record at slot {slot} extends beyond page boundary"
    else
      match readAt page offset length with
      | none => .error s!"packed page record {offset} out of bounds"
      | some bytes => fromBytes readFact bytes

def pageFacts (pageId : Nat) (page : Bytes) : Except String (List Fact) :=
  if page.length ≠ pageSize then
    .error s!"Committed fact page {pageId} has invalid length {page.length} (expected {pageSize})"
  else if page.head?.getD 0 ≠ pageTypePacked then
    .error (s!"Committed fact page {pageId} has invalid page type 0x" ++ hexByte (page.head?.getD 0))
  else do
    let recordCount ← readU16At page 2
    (List.range recordCount).mapM (readSlot page)

def readAllFromPages (pages : Pages) (firstPageId : Nat) : Nat → Except String (List Fact)
  | 0 => .ok []
  | numPages + 1 => do
    let page ← pages.load firstPageId
    let facts ← pageFacts firstPageId page
    return facts ++ (← readAllFromPages pages (firstPageId + 1) numPages)

section Packing

def packedBytes (facts : List Fact) : Nat :=
  packedHeaderSize + 4 * facts.length + totalLength (facts.map encFact)

def groupFrom (cur : List Fact) : List Fact → List (List Fact)
  | [] => [cur]
  | fact :: facts =>
    if pageSize < packedBytes (cur ++ [fact]) then cur :: groupFrom [fact] facts
    else groupFrom (cur ++ [fact]) facts

def refsFrom (pageId : Nat) (cur : List Fact) : List Fact → List FactRef
  | [] => []
  | fact :: facts =>
    if pageSize < packedBytes (cur ++ [fact]) then
      ⟨UInt64.ofNat (pageId + 1), 0⟩ :: refsFrom (pageId + 1) [fact] facts
    else ⟨UInt64.ofNat pageId, UInt16.ofNat cur.length⟩ :: refsFrom pageId (cur ++ [fact]) facts

structure PackedReads (page : Bytes) (facts : List Fact) : Prop where
  length : page.length = pageSize
  head : page[0]? = some pageTypePacked
  count : numberAt 2 page 2 = some facts.length
  slots : ∀ i fact, facts[i]? = some fact → ∃ pos, SlotHolds packedHeaderSize page i (encFact fact) pos

structure Packing (packer : PackedFactPacker) (startPageId : Nat) (done : List (List Fact))
    (cur : List Fact) : Prop where
  start : packer.startPageId = startPageId
  completed : packer.completedPageCount = done.length
  pages : List.Forall₂ PackedReads packer.pages done
  count : packer.currentRecordCount = cur.length
  length : packer.currentPage.length = pageSize
  head : packer.currentPage[0]? = some pageTypePacked
  offset : packer.dataOffset + totalLength (cur.map encFact) = pageSize
  room : packedBytes cur ≤ pageSize
  slots : ∀ i fact, cur[i]? = some fact → ∃ pos, packer.dataOffset ≤ pos ∧
    SlotHolds packedHeaderSize packer.currentPage i (encFact fact) pos

variable {packer : PackedFactPacker} {startPageId : Nat} {done : List (List Fact)} {cur : List Fact}

variable {fact : Fact} {packer' : PackedFactPacker} {ref : FactRef} {facts : List Fact}
    {refs : List FactRef}

theorem length_newPackedPage : newPackedPage.length = pageSize := by
  rw [newPackedPage, length_cons, length_replicate]
  rfl

theorem packing_new (startPageId : Nat) :
    Packing (PackedFactPacker.new startPageId) startPageId [] [] where
  start := rfl
  completed := rfl
  pages := .nil
  count := rfl
  length := length_newPackedPage
  head := rfl
  offset := rfl
  room := by decide
  slots := by simp

variable (packing : Packing packer startPageId done cur)

include packing in
theorem Packing.few : cur.length < 65535 := by
  have room := packing.room
  simp only [packedBytes, packedHeaderSize, pageSize] at room
  omega

include packing in
theorem Packing.closed :
    PackedReads (writeRecordCount packer.currentPage packer.currentRecordCount) cur := by
  have fits : 2 + (leBytes 2 cur.length).length ≤ packer.currentPage.length := by
    rw [length_leBytes, packing.length]
    decide
  have few := packing.few
  rw [writeRecordCount, packing.count, writeAt, if_pos fits, Option.getD_some]
  refine ⟨(length_patch fits).trans packing.length, ?_, ?_, ?_⟩
  · rw [getElem?_patch fits, if_neg (by omega), packing.head]
  · apply numberAt_of_readAt _ (by omega)
    have there := readAt_patch_self fits
    rwa [length_leBytes] at there
  · intro i fact found
    obtain ⟨pos, -, holds⟩ := packing.slots i fact found
    have kept : ∀ {pos len}, packedHeaderSize ≤ pos → readAt _ pos len = _ := fun behind =>
      readAt_patch_of_disjoint fits (.inr (Nat.le_trans (by simp [packedHeaderSize]) behind))
    exact ⟨pos, holds.congr (kept (Nat.le_add_right _ _)) (kept holds.behind)⟩

include packing in
theorem Packing.flush : Packing packer.flush startPageId (done ++ [cur]) [] where
  start := packing.start
  completed := by
    rw [length_append]
    exact congrArg (· + 1) packing.completed
  pages := rel_append packing.pages (.cons packing.closed .nil)
  count := rfl
  length := length_newPackedPage
  head := rfl
  offset := rfl
  room := by decide
  slots := by simp

theorem packedBytes_concat (cur : List Fact) (fact : Fact) :
    packedBytes (cur ++ [fact]) = packedBytes cur + 4 + (encFact fact).length := by
  simp only [packedBytes, length_append, length_singleton, map_append, map_cons,
    map_nil, totalLength_append, totalLength_cons, totalLength_nil]
  omega

include packing in
theorem place_spec (fits : packedBytes (cur ++ [fact]) ≤ pageSize) :
    ∃ packer', packer.place (encFact fact) =
        (if 2 ^ 64 ≤ startPageId + done.length then .error "packed fact page id overflow"
        else .ok (packer', ⟨ofNat (startPageId + done.length), UInt16.ofNat cur.length⟩)) ∧
      Packing packer' startPageId done (cur ++ [fact]) := by
  have offset := packing.offset
  have roomy : packedHeaderSize + 4 * (cur.length + 1) + (encFact fact).length ≤ packer.dataOffset := by
    rw [packedBytes_concat, packedBytes] at fits
    omega
  have small : packer.currentPage.length < 65536 := by rw [packing.length]; decide
  have inside : packer.dataOffset ≤ packer.currentPage.length := by
    rw [packing.length]
    omega
  obtain ⟨page, put, length, frame, holds⟩ :=
    putRecord_spec small (encFact fact) packer.dataOffset cur.length inside roomy
  refine ⟨{ packer with
    currentPage := page
    currentRecordCount := cur.length + 1
    dataOffset := packer.dataOffset - (encFact fact).length }, ?_, ?_⟩
  · rw [PackedFactPacker.place, packing.count, put, packing.start, packing.completed]
  constructor
  · exact packing.start
  · exact packing.completed
  · exact packing.pages
  · rw [length_append, length_singleton]
  · exact length.trans packing.length
  · rw [← readAt_one_eq_some_iff]
    rw [frame 0 1 (.inl (by simp only [packedHeaderSize]; omega)), readAt_one_eq_some_iff]
    exact packing.head
  · simp only [map_append, map_cons, map_nil, totalLength_append, totalLength_cons, totalLength_nil]
    omega
  · exact fits
  · intro i other found
    rcases Nat.lt_or_ge i cur.length with old | new
    · rw [List.getElem?_append_left old] at found
      obtain ⟨pos, above, there⟩ := packing.slots i other found
      exact ⟨pos, Nat.le_trans (Nat.sub_le _ _) above,
        there.congr (frame _ _ (.inl (by omega))) (frame _ _ (.inr above))⟩
    rw [List.getElem?_append_right new] at found
    obtain ⟨small, same⟩ := List.getElem?_eq_some_iff.mp found
    rw [length_singleton] at small
    obtain rfl : i = cur.length := by omega
    obtain rfl : fact = other := by simpa using same
    exact ⟨_, Nat.le_refl _, holds⟩

theorem length_encFact_pos (fact : Fact) : 0 < (encFact fact).length := by
  simp only [encFact, encBool, length_append, length_singleton]
  omega

include packing in
theorem makeRoom_spec : packer.makeRoom (encFact fact).length =
      if pageSize < packedBytes (cur ++ [fact]) then packer.flush else packer := by
  have offset := packing.offset
  have few := packing.few
  have room := packing.room
  have some := length_encFact_pos fact
  rw [PackedFactPacker.makeRoom, PackedFactPacker.dirOffset, packing.count, packedBytes_concat]
  simp only [packedBytes] at room ⊢
  congr 1
  rw [eq_iff_iff]
  omega

include packing in
theorem push_spec (small : (encFact fact).length ≤ maxFactBytes) (inside : startPageId + done.length < 2 ^ 64) :
    ∃ packer', if pageSize < packedBytes (cur ++ [fact]) then
        packer.push fact = (if 2 ^ 64 ≤ startPageId + done.length + 1 then .error "packed fact page id overflow"
          else .ok (packer', ⟨ofNat (startPageId + done.length + 1), 0⟩)) ∧
          Packing packer' startPageId (done ++ [cur]) [fact]
      else
        packer.push fact = .ok (packer',
            ⟨ofNat (startPageId + done.length), UInt16.ofNat cur.length⟩) ∧
          Packing packer' startPageId done (cur ++ [fact]) := by
  have accepted : ¬ maxFactBytes < (encFact fact).length := by omega
  simp only [PackedFactPacker.push, if_neg accepted, makeRoom_spec packing]
  split
  · have alone : packedBytes ([] ++ [fact]) ≤ pageSize := by
      rw [packedBytes_concat]
      simp only [maxFactBytes] at small
      simp only [packedBytes, packedHeaderSize, pageSize, length_nil, map_nil, totalLength_nil]
      omega
    obtain ⟨packer', placed, packing'⟩ := place_spec packing.flush alone
    rw [length_append, length_singleton, ← Nat.add_assoc] at placed
    exact ⟨packer', placed, packing'⟩
  · obtain ⟨packer', placed, packing'⟩ := place_spec packing (Nat.le_of_not_lt ‹_›)
    exact ⟨packer', placed.trans (if_neg (by omega)), packing'⟩

theorem groupFrom_head (cur facts : List Fact) :
    ∃ more rest, groupFrom cur facts = (cur ++ more) :: rest := by
  induction facts generalizing cur with
  | nil => exact ⟨[], [], by simp [groupFrom]⟩
  | cons fact facts ih =>
    rw [groupFrom]
    split
    · exact ⟨[], groupFrom [fact] facts, by simp⟩
    · obtain ⟨more, rest, split⟩ := ih (cur ++ [fact])
      exact ⟨fact :: more, rest, by simp [split]⟩

theorem length_groupFrom_pos (cur facts : List Fact) : 0 < (groupFrom cur facts).length := by
  obtain ⟨more, rest, split⟩ := groupFrom_head cur facts
  rw [split, length_cons]
  omega

theorem pushAll_spec (facts : List Fact) (packing : Packing packer startPageId done cur)
    (small : ∀ fact ∈ facts, (encFact fact).length ≤ maxFactBytes) (inside : startPageId + done.length < 2 ^ 64) :
    if startPageId + done.length + (groupFrom cur facts).length ≤ 2 ^ 64 then
      ∃ packer', packer.pushAll facts = .ok (packer', refsFrom (startPageId + done.length) cur facts) ∧
        List.Forall₂ PackedReads packer'.finish (done ++ groupFrom cur facts)
    else packer.pushAll facts = .error "packed fact page id overflow" := by
  induction facts generalizing packer done cur with
  | nil =>
    rw [if_pos (by simp only [groupFrom, length_singleton]; omega)]
    exact ⟨packer, rfl, rel_append packing.pages (.cons packing.closed .nil)⟩
  | cons fact facts ih =>
    obtain ⟨first, smaller⟩ := forall_mem_cons.mp small
    obtain ⟨packer', pushed⟩ := push_spec packing first inside
    rw [PackedFactPacker.pushAll, refsFrom, groupFrom]
    split at pushed
    · rename_i full
      obtain ⟨step, packing'⟩ := pushed
      have alone := length_groupFrom_pos [fact] facts
      rw [if_pos full, if_pos full, length_cons, step]
      by_cases last : 2 ^ 64 ≤ startPageId + done.length + 1
      · rw [if_neg (by omega), if_pos last]
        rfl
      have rest := ih packing' smaller (by rw [length_append, length_singleton]; omega)
      rw [length_append, length_singleton, ← Nat.add_assoc, Nat.add_right_comm _ 1] at rest
      rw [if_neg last, ← Nat.add_assoc]
      split at rest <;> rename_i fits
      · obtain ⟨final, run, reads⟩ := rest
        rw [if_pos fits]
        refine ⟨final, ?_, by rwa [append_cons]⟩
        simp only [bind, Except.bind, run]
        rfl
      · rw [if_neg fits]
        simp only [bind, Except.bind, rest]
    · rename_i roomy
      obtain ⟨step, packing'⟩ := pushed
      have rest := ih packing' smaller inside
      rw [if_neg roomy, if_neg roomy, step]
      split at rest <;> rename_i fits
      · obtain ⟨final, run, reads⟩ := rest
        rw [if_pos fits]
        refine ⟨final, ?_, reads⟩
        simp only [bind, Except.bind, run]
        rfl
      · rw [if_neg fits]
        simp only [bind, Except.bind, rest]

theorem packFacts_spec (facts : List Fact) (startPageId : Nat)
    (small : ∀ fact ∈ facts, (encFact fact).length ≤ maxFactBytes)
    (ids64 : startPageId + (groupFrom [] facts).length ≤ 2 ^ 64) :
    ∃ pages, packFacts facts startPageId = .ok (pages, refsFrom startPageId [] facts) ∧
      List.Forall₂ PackedReads pages (groupFrom [] facts) := by
  have some := length_groupFrom_pos [] facts
  have run := pushAll_spec facts (packing_new startPageId) small (by simp only [length_nil]; omega)
  rw [length_nil, Nat.add_zero, if_pos ids64] at run
  obtain ⟨packer, run, reads⟩ := run
  exact ⟨packer.finish, by rw [packFacts, run]; rfl, reads⟩

theorem packFacts_overflow {facts : List Fact} (small : ∀ fact ∈ facts, (encFact fact).length ≤ maxFactBytes)
    (inside : startPageId < 2 ^ 64) (beyond : 2 ^ 64 < startPageId + (groupFrom [] facts).length) :
    packFacts facts startPageId = .error "packed fact page id overflow" := by
  have run := pushAll_spec facts (packing_new startPageId) small inside
  rw [length_nil, Nat.add_zero, if_neg (Nat.not_le_of_lt beyond)] at run
  rw [packFacts, run]
  rfl

end Packing

section Reading

variable {page : Bytes} {facts : List Fact}

variable {pages : Pages} {firstPageId : Nat}

theorem PackedReads.head? (reads : PackedReads page facts) : page.head? = some pageTypePacked := by
  rw [List.head?_eq_getElem?, reads.head]

theorem PackedReads.openPacked (reads : PackedReads page facts) :
    openPacked page = .ok facts.length := by
  rw [PackedPages.openPacked, if_neg (by rw [reads.length]; omega), reads.head?]
  simp only [ne_eq, not_true_eq_false, if_false]
  exact readU16At_of_number reads.count

theorem readSlot_of_reads {slot : Nat} {fact : Fact} (reads : PackedReads page facts)
    (found : facts[slot]? = some fact) : readSlot page slot = .ok fact := by
  obtain ⟨pos, holds⟩ := reads.slots slot fact found
  obtain ⟨inside, -⟩ := List.getElem?_eq_some_iff.mp found
  obtain ⟨bound, -, -⟩ := readAt_eq_some_iff.mp holds.placed
  rw [reads.length] at bound
  rw [readSlot, reads.openPacked]
  simp only [bind, Except.bind, if_neg (by omega : ¬ facts.length ≤ slot),
    readU16At_of_number holds.offset, readU16At_of_number holds.length,
    if_neg (by omega : ¬ pageSize < pos + (encFact fact).length), holds.placed]
  exact fromBytes_of_codes codes_fact fact

theorem pageFacts_of_reads (pageId : Nat) (reads : PackedReads page facts) :
    pageFacts pageId page = .ok facts := by
  rw [pageFacts, if_neg (by simp [reads.length]), reads.head?, Option.getD_some, if_neg (by simp),
    readU16At_of_number reads.count]
  exact mapM_range_ok fun _ _ found => readSlot_of_reads reads found

def HoldGroups (pages : Pages) (firstPageId : Nat) (groups : List (List Fact)) : Prop :=
  ∀ i facts, groups[i]? = some facts → ∃ page, pages (firstPageId + i) = some page ∧
    PackedReads page facts

theorem HoldGroups.tail {groups : List (List Fact)} (holds : HoldGroups pages firstPageId (facts :: groups)) :
    HoldGroups pages (firstPageId + 1) groups := by
  intro i facts found
  obtain ⟨page, there, reads⟩ := holds (i + 1) facts found
  exact ⟨page, by rw [← there]; congr 1; omega, reads⟩

theorem readAllFromPages_of_groups (groups : List (List Fact)) (holds : HoldGroups pages firstPageId groups) :
    readAllFromPages pages firstPageId groups.length = .ok groups.flatten := by
  induction groups generalizing firstPageId with
  | nil => rfl
  | cons facts groups ih =>
    obtain ⟨page, there, reads⟩ := holds 0 facts rfl
    rw [length_cons, readAllFromPages, Pages.load, ← Nat.add_zero firstPageId, there]
    simp only [bind, Except.bind, pageFacts_of_reads _ reads, Nat.add_zero, ih holds.tail]
    rfl

end Reading

section References

variable {fact : Fact} {ref : FactRef} {group : List Fact}

theorem flatten_groupFrom (cur facts : List Fact) : (groupFrom cur facts).flatten = cur ++ facts := by
  induction facts generalizing cur with
  | nil => simp [groupFrom]
  | cons fact facts ih =>
    rw [groupFrom]
    split
    · rw [flatten_cons, ih]
      rfl
    · rw [ih, append_assoc]
      rfl

theorem length_refsFrom (pageId : Nat) (cur facts : List Fact) :
    (refsFrom pageId cur facts).length = facts.length := by
  induction facts generalizing pageId cur with
  | nil => rfl
  | cons fact facts ih =>
    rw [refsFrom]
    split <;> simp [ih]

theorem length_groupFrom_le (cur facts : List Fact) :
    (groupFrom cur facts).length ≤ facts.length + 1 := by
  induction facts generalizing cur with
  | nil => simp [groupFrom]
  | cons fact facts ih =>
    have alone := ih [fact]
    have added := ih (cur ++ [fact])
    rw [groupFrom, length_cons]
    split
    · rw [length_cons]
      omega
    · omega

theorem mem_zip_refsFrom {pageId : Nat} {cur facts : List Fact}
    (member : (fact, ref) ∈ facts.zip (refsFrom pageId cur facts)) :
    ∃ k group slot, (groupFrom cur facts)[k]? = some group ∧ group[slot]? = some fact ∧
      ref = ⟨ofNat (pageId + k), UInt16.ofNat slot⟩ := by
  induction facts generalizing pageId cur with
  | nil => simp at member
  | cons first facts ih =>
    rw [refsFrom] at member
    rw [groupFrom]
    split at member
    · rw [if_pos ‹_›]
      rw [zip_cons_cons, mem_cons] at member
      rcases member with same | member
      · obtain ⟨rfl, rfl⟩ := Prod.mk.inj same
        obtain ⟨more, rest, split⟩ := groupFrom_head [fact] facts
        exact ⟨1, [fact] ++ more, 0, by rw [split]; rfl, by simp, rfl⟩
      · obtain ⟨k, group, slot, there, inGroup, rfl⟩ := ih member
        exact ⟨k + 1, group, slot, there, inGroup, by congr 2; omega⟩
    · rw [if_neg ‹_›]
      rw [zip_cons_cons, mem_cons] at member
      rcases member with same | member
      · obtain ⟨rfl, rfl⟩ := Prod.mk.inj same
        obtain ⟨more, rest, split⟩ := groupFrom_head (cur ++ [fact]) facts
        exact ⟨0, cur ++ [fact] ++ more, cur.length, by rw [split]; rfl, by simp, rfl⟩
      · exact ih member

theorem packedBytes_singleton (small : (encFact fact).length ≤ maxFactBytes) :
    packedBytes [fact] ≤ pageSize := by
  simp only [maxFactBytes] at small
  simp only [packedBytes, packedHeaderSize, pageSize, length_singleton, map_cons,
    map_nil, totalLength_cons, totalLength_nil]
  omega

theorem packedBytes_of_mem_groupFrom {cur facts : List Fact} (room : packedBytes cur ≤ pageSize)
    (small : ∀ fact ∈ facts, (encFact fact).length ≤ maxFactBytes) (member : group ∈ groupFrom cur facts) :
    packedBytes group ≤ pageSize := by
  induction facts generalizing cur with
  | nil =>
    obtain rfl : group = cur := by simpa [groupFrom] using member
    exact room
  | cons fact facts ih =>
    have smaller : ∀ other ∈ facts, (encFact other).length ≤ maxFactBytes :=
      fun other inside => small other (by simp [inside])
    rw [groupFrom] at member
    split at member
    · rcases mem_cons.mp member with rfl | member
      · exact room
      · exact ih (packedBytes_singleton (small fact (by simp))) smaller member
    · exact ih (by omega) smaller member

theorem length_lt_of_packedBytes (room : packedBytes group ≤ pageSize) : group.length < 65536 := by
  simp only [packedBytes, packedHeaderSize, pageSize] at room
  omega

theorem readSlot_of_mem_zip {pages : Pages} {startPageId : Nat} {facts : List Fact}
    (member : (fact, ref) ∈ facts.zip (refsFrom startPageId [] facts))
    (holds : HoldGroups pages startPageId (groupFrom [] facts))
    (small : ∀ fact ∈ facts, (encFact fact).length ≤ maxFactBytes)
    (ids64 : startPageId + (groupFrom [] facts).length ≤ 2 ^ 64) :
    ∃ page, pages ref.pageId.toNat = some page ∧ readSlot page ref.slotIndex.toNat = .ok fact := by
  obtain ⟨k, group, slot, there, inGroup, rfl⟩ := mem_zip_refsFrom member
  obtain ⟨page, found, reads⟩ := holds k group there
  obtain ⟨bound, -⟩ := List.getElem?_eq_some_iff.mp there
  obtain ⟨slotBound, -⟩ := List.getElem?_eq_some_iff.mp inGroup
  have few := length_lt_of_packedBytes
    (packedBytes_of_mem_groupFrom (by decide) small (mem_of_getElem? there))
  have pageId : (ofNat (startPageId + k)).toNat = startPageId + k :=
    UInt64.toNat_ofNat_of_lt' (by simp only [UInt64.size]; omega)
  have slotIndex : (UInt16.ofNat slot).toNat = slot :=
    UInt16.toNat_ofNat_of_lt' (by simp only [UInt16.size]; omega)
  exact ⟨page, by rw [pageId, found], by rw [slotIndex]; exact readSlot_of_reads reads inGroup⟩

end References

end ViciaDb.PackedPages
