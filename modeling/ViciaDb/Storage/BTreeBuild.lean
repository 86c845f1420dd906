import ViciaDb.Storage.BTreeRead

namespace ViciaDb.BTree

open ByteReader SlottedPage List
open Node (info)

section LeafPhase

variable {κ : Type} {kind : IndexKind κ} {origin : Pages} {startPageId : Nat} {build : LeafBuild}
  {leaves : List (Leaf κ)} {cur : List (κ × FactRef)}

/-- The pages from `first` on and below `stop` are there, of full length. -/
def Filled (pages : Pages) (first stop : Nat) : Prop :=
  ∀ pageId, first ≤ pageId → pageId < stop → ∃ page, pages pageId = some page ∧ page.length = pageSize

theorem Filled.append {pages pages' : Pages} {first middle stop : Nat} (front : Filled pages first middle)
    (same : ∀ pageId < middle, pages' pageId = pages pageId) (back : Filled pages' middle stop) :
    Filled pages' first stop := by
  intro pageId low high
  rcases Nat.lt_or_ge pageId middle with below | above
  · rw [same pageId below]
    exact front pageId low below
  · exact back pageId above high

def Leaf.info (kind : IndexKind κ) (leaf : Leaf κ) : NodeInfo := (leaf.pageId, kind.toBytes leaf.key)

def Leaf.Written (kind : IndexKind κ) (pages : Pages) (nextLeaf : Nat) (leaf : Leaf κ) : Prop :=
  ∃ page pageType, pages leaf.pageId = some page ∧ page.length = pageSize ∧
    LeafReads page pageType (leaf.entries.map kind.entryBytes) nextLeaf

structure Packed (kind : IndexKind κ) (origin : Pages) (startPageId : Nat) (build : LeafBuild)
    (leaves : List (Leaf κ)) (cur : List (κ × FactRef)) : Prop where
  nextPage : build.nextPage = startPageId + leaves.length
  infos : build.leafInfos = leaves.map (Leaf.info kind)
  ids : leaves.map Leaf.pageId = List.range' startPageId leaves.length
  written : ∀ leaf ∈ leaves, leaf.Written kind build.pages 0
  frame : ∀ pageId, pageId < startPageId ∨ build.nextPage ≤ pageId →
    build.pages pageId = origin pageId
  entries : build.curEntries = cur.map kind.entryBytes
  raw : build.curRawBytes = totalLength build.curEntries
  compressed : build.curPrefixBytes = totalLength (prefixRecordsFrom none 0 build.curEntries)
  firstKey : build.curFirstKey = cur.head?.map fun entry => kind.toBytes entry.1
  short : ∀ entry ∈ cur, (kind.entryBytes entry).length < 65536
  fits : leafHeaderSize + cur.length * slotSize + min build.curRawBytes build.curPrefixBytes ≤
    pageSize

variable {first : κ × FactRef} {rest : List (κ × FactRef)} {fillBytes : Nat} {entry : κ × FactRef}

theorem packed_start : Packed kind origin startPageId (LeafBuild.start origin startPageId) [] [] where
  nextPage := rfl
  infos := rfl
  ids := rfl
  written := by simp
  frame := fun _ _ => rfl
  entries := rfl
  raw := rfl
  compressed := rfl
  firstKey := rfl
  short := by simp
  fits := (by decide : leafHeaderSize + 0 * slotSize + min 0 0 ≤ pageSize)

theorem pageId_lt_of_ids {leaf : Leaf κ} (ids : leaves.map Leaf.pageId =
    List.range' startPageId leaves.length) (member : leaf ∈ leaves) :
    startPageId ≤ leaf.pageId ∧ leaf.pageId < startPageId + leaves.length := by
  have inRange : leaf.pageId ∈ List.range' startPageId leaves.length := by
    rw [← ids]
    exact mem_map_of_mem member
  simpa using inRange

theorem flush_spec (packed : Packed kind origin startPageId build leaves (first :: rest)) :
    ∃ build', build.flush = .ok build' ∧ Packed kind origin startPageId build'
      (leaves ++ [⟨build.nextPage, first, rest⟩]) [] := by
  have short : ∀ bytes ∈ build.curEntries, bytes.length < 65536 := by
    rw [packed.entries]
    intro bytes member
    obtain ⟨entry, inCur, rfl⟩ := mem_map.mp member
    exact packed.short entry inCur
  obtain ⟨page, pageType, written, length, reads⟩ := writeLeafPage_spec (by decide : 0 < 2 ^ 64) short
    (by
      have fits := packed.fits
      rw [packed.raw, packed.compressed] at fits
      rw [packed.entries, length_map, ← packed.entries]
      exact fits)
  rw [LeafBuild.flush, written, packed.firstKey]
  refine ⟨_, rfl, ?_⟩
  constructor
  · simp [packed.nextPage, Nat.add_assoc]
  · simp only [packed.infos, map_append]
    rfl
  · rw [map_append, packed.ids, length_append, length_singleton, List.range'_concat, packed.nextPage]
    simp
  · intro leaf member
    rcases mem_append.mp member with member | member
    · obtain ⟨-, small⟩ := pageId_lt_of_ids packed.ids member
      obtain ⟨page', pageType', there, rest⟩ := packed.written leaf member
      refine ⟨page', pageType', ?_, rest⟩
      exact (build.pages.write_of_ne page (by rw [packed.nextPage]; omega)).trans there
    · obtain rfl : leaf = ⟨build.nextPage, first, rest⟩ := by simpa using member
      rw [packed.entries] at reads
      exact ⟨page, pageType, build.pages.write_self _ page, length, reads⟩
  · intro pageId outside
    change pageId < startPageId ∨ build.nextPage + 1 ≤ pageId at outside
    have next := packed.nextPage
    exact (build.pages.write_of_ne page (by omega)).trans (packed.frame pageId (by omega))
  · rfl
  · rfl
  · rfl
  · rfl
  · simp
  · exact (by decide : leafHeaderSize + 0 * slotSize + min 0 0 ≤ pageSize)

theorem before_length (entries : List Bytes) : before none entries entries.length = entries.getLast? := by
  cases entries with
  | nil => rfl
  | cons first entries => simp [before, List.getLast?_eq_getElem?]

structure Trim (kind : IndexKind κ) (fillBytes : Nat) (leaves : List (Leaf κ))
    (cur : List (κ × FactRef)) : Prop where
  inLeaves : ∀ leaf ∈ leaves, ∀ entry ∈ leaf.rest, (kind.entryBytes entry).length ≤ fillBytes
  inCur : ∀ entry ∈ cur.tail, (kind.entryBytes entry).length ≤ fillBytes

theorem Trim.flush {pageId : Nat} (trim : Trim kind fillBytes leaves (first :: rest)) :
    Trim kind fillBytes (leaves ++ [⟨pageId, first, rest⟩]) [] where
  inLeaves := by
    intro leaf member
    rcases mem_append.mp member with member | member
    · exact trim.inLeaves leaf member
    · obtain rfl : leaf = ⟨pageId, first, rest⟩ := by simpa using member
      exact trim.inCur
  inCur := by simp

theorem length_le_prefixRecordsFrom {entries : List Bytes} {entry : Bytes} (previous : Option Bytes)
    (index : Nat) (member : entry ∈ entries) :
    entry.length ≤ (previous.getD []).length +
      totalLength (prefixRecordsFrom previous index entries) := by
  induction entries generalizing previous index with
  | nil => simp at member
  | cons first entries ih =>
    have shared := sharedAt_le previous index first
    have record := length_prefixRecord previous index first
    rw [prefixRecordsFrom, totalLength_cons]
    rcases mem_cons.mp member with rfl | member
    · omega
    · have rest := ih (some first) (index + 1) member
      rw [Option.getD_some] at rest
      omega

theorem makeRoom_spec (filled : fillBytes ≤ pageSize)
    (packed : Packed kind origin startPageId build leaves cur)
    (small : (kind.entryBytes entry).length ≤ pageSize - leafHeaderSize - slotSize) :
    ∃ build' leaves' cur', build.makeRoom fillBytes (kind.entryBytes entry) = .ok build' ∧
      Packed kind origin startPageId build' leaves' cur' ∧
      leaves'.flatMap Leaf.entries ++ cur' = leaves.flatMap Leaf.entries ++ cur ∧
      build'.projected (kind.entryBytes entry) (prefixRecord build'.curEntries.getLast?
        build'.curEntries.length (kind.entryBytes entry)).length ≤ pageSize ∧
      (Trim kind fillBytes leaves cur → Trim kind fillBytes leaves' cur') ∧
      (cur' ≠ [] → build'.projected (kind.entryBytes entry) (prefixRecord build'.curEntries.getLast?
        build'.curEntries.length (kind.entryBytes entry)).length ≤ fillBytes) := by
  have short : (kind.entryBytes entry).length < 65536 := by
    simp only [pageSize, leafHeaderSize, slotSize] at small
    omega
  rw [LeafBuild.makeRoom, prefixRecordLayout_eq_ok short]
  simp only [bind, Except.bind]
  have alone : ∀ build' : LeafBuild, build'.curEntries = [] → build'.curRawBytes = 0 →
      build'.projected (kind.entryBytes entry) (prefixRecord build'.curEntries.getLast?
        build'.curEntries.length (kind.entryBytes entry)).length ≤ pageSize := by
    intro build' empty raw
    simp only [LeafBuild.projected, empty, raw, length_nil]
    simp only [pageSize, leafHeaderSize, slotSize] at small ⊢
    omega
  cases cur with
  | nil =>
    have empty : build.curEntries = [] := packed.entries
    have raw : build.curRawBytes = 0 := by rw [packed.raw, empty]; rfl
    have room := alone build empty raw
    rw [if_neg (by rintro ⟨large, -⟩; omega), if_neg (by rintro ⟨-, some⟩; exact some empty)]
    exact ⟨build, leaves, [], rfl, packed, rfl, room, id, fun some => absurd rfl some⟩
  | cons first rest =>
    have some : build.curEntries ≠ [] := by rw [packed.entries]; simp
    rw [if_neg (by rintro ⟨-, none⟩; exact some none)]
    split
    · obtain ⟨build', flushed, packed'⟩ := flush_spec packed
      have empty : build'.curEntries = [] := packed'.entries
      refine ⟨build', _, [], flushed, packed', ?_, alone build' empty ?_, Trim.flush,
        fun some => absurd rfl some⟩
      · simp [Leaf.entries]
      · rw [packed'.raw, empty]
        rfl
    · rename_i under
      have low := Nat.le_of_not_lt fun above => under ⟨above, some⟩
      exact ⟨build, leaves, first :: rest, rfl, packed, rfl, Nat.le_trans low filled, id, fun _ => low⟩

theorem push_spec (filled : fillBytes ≤ pageSize) (packed : Packed kind origin startPageId build leaves cur)
    (small : (kind.entryBytes entry).length ≤ pageSize - leafHeaderSize - slotSize) :
    ∃ build' leaves' cur',
      build.push fillBytes (kind.entryBytes entry, kind.toBytes entry.1) = .ok build' ∧
      Packed kind origin startPageId build' leaves' cur' ∧
      leaves'.flatMap Leaf.entries ++ cur' = leaves.flatMap Leaf.entries ++ cur ++ [entry] ∧
      (Trim kind fillBytes leaves cur → Trim kind fillBytes leaves' cur') := by
  have short : (kind.entryBytes entry).length < 65536 := by
    simp only [pageSize, leafHeaderSize, slotSize] at small
    omega
  obtain ⟨build', leaves', cur', made, packed', same, room, trims, low⟩ := makeRoom_spec filled packed small
  have count : build'.curEntries.length = cur'.length := by rw [packed'.entries, length_map]
  have records : prefixRecordsFrom none 0 (build'.curEntries ++ [kind.entryBytes entry]) =
      prefixRecordsFrom none 0 build'.curEntries ++ [prefixRecord build'.curEntries.getLast?
        build'.curEntries.length (kind.entryBytes entry)] := by
    rw [prefixRecordsFrom_concat, before_length, Nat.zero_add]
  refine ⟨_, leaves', cur' ++ [entry], by
    rw [LeafBuild.push, made]
    simp only [bind, Except.bind]
    rw [prefixRecordLayout_eq_ok short]
    rfl, ?_, by rw [← append_assoc, same], ?_⟩
  constructor
  · exact packed'.nextPage
  · exact packed'.infos
  · exact packed'.ids
  · exact packed'.written
  · exact packed'.frame
  · simp [packed'.entries]
  · simp [packed'.raw]
  · simp [packed'.compressed, records]
  · cases cur' with
    | nil | cons first rest => simp [packed'.firstKey]
  · intro other member
    rcases mem_append.mp member with member | member
    · exact packed'.short other member
    · obtain rfl : other = entry := by simpa using member
      exact short
  · rw [length_append, length_singleton, ← count]
    exact room
  · intro trim
    refine ⟨(trims trim).inLeaves, ?_⟩
    intro other member
    cases cur' with
    | nil => simp at member
    | cons first rest =>
      rcases mem_append.mp member with member | member
      · exact (trims trim).inCur other member
      obtain rfl : other = entry := by simpa using member
      have bytes : (kind.entryBytes other).length ≤ (Option.getD none ([] : Bytes)).length +
          totalLength (prefixRecordsFrom none 0 (build'.curEntries ++ [kind.entryBytes other])) :=
        length_le_prefixRecordsFrom none 0 (by simp)
      have low := low (by simp)
      rw [records, totalLength_append] at bytes
      simp only [LeafBuild.projected, packed'.compressed] at low
      simp only [Option.getD_none, length_nil, totalLength_cons, totalLength_nil] at bytes
      omega

theorem foldlM_push_spec (filled : fillBytes ≤ pageSize) (entries : List (κ × FactRef))
    (packed : Packed kind origin startPageId build leaves cur)
    (small : ∀ entry ∈ entries, (kind.entryBytes entry).length ≤ pageSize - leafHeaderSize - slotSize) :
    ∃ build' leaves' cur',
      (btreeEntries kind entries).foldlM (LeafBuild.push fillBytes) build = .ok build' ∧
      Packed kind origin startPageId build' leaves' cur' ∧
      leaves'.flatMap Leaf.entries ++ cur' = leaves.flatMap Leaf.entries ++ cur ++ entries ∧
      (Trim kind fillBytes leaves cur → Trim kind fillBytes leaves' cur') := by
  induction entries generalizing build leaves cur with
  | nil => exact ⟨build, leaves, cur, rfl, packed, by simp, id⟩
  | cons entry entries ih =>
    obtain ⟨build', leaves', cur', pushed, packed', same, trims⟩ :=
      push_spec filled packed (small entry (by simp))
    obtain ⟨final, leaves'', cur'', run, packed'', same', trims'⟩ :=
      ih packed' fun other member => small other (by simp [member])
    refine ⟨final, leaves'', cur'', ?_, packed'', by rw [same', same]; simp, trims' ∘ trims⟩
    rw [btreeEntries, map_cons, foldlM_cons, pushed]
    exact run

end LeafPhase

section Links

variable {κ : Type} {kind : IndexKind κ}

theorem patchNextLeaf_spec (pages : Pages) {leaves : List (Leaf κ)}
    (written : ∀ leaf ∈ leaves, leaf.Written kind pages 0)
    (ordered : (leaves.map Leaf.pageId).Pairwise (· < ·)) (ids64 : ∀ leaf ∈ leaves, leaf.pageId < 2 ^ 64) :
    ∃ pages', patchNextLeaf pages (leaves.map (Leaf.info kind)) = .ok pages' ∧
      Chained kind pages' (leaves.map Leaf.run) ∧
      (∀ pageId, (∀ leaf ∈ leaves, leaf.pageId ≠ pageId) → pages' pageId = pages pageId) ∧
      ∀ leaf ∈ leaves, ∃ page, pages' leaf.pageId = some page ∧ page.length = pageSize := by
  induction leaves generalizing pages with
  | nil => exact ⟨pages, rfl, trivial, fun _ _ => rfl, by simp⟩
  | cons leaf leaves ih =>
    obtain ⟨page, pageType, there, length, reads⟩ := written leaf (by simp)
    cases leaves with
    | nil =>
      refine ⟨pages, rfl, ⟨⟨page, pageType, there, reads⟩, by simp, trivial⟩, fun _ _ => rfl, ?_⟩
      exact forall_mem_singleton.mpr ⟨page, there, length⟩
    | cons next leaves =>
      rw [map_cons, pairwise_cons] at ordered
      obtain ⟨least, ordered⟩ := ordered
      have later : leaf.pageId < next.pageId := least next.pageId (by simp)
      obtain ⟨patched, wrote, length', reads'⟩ :=
        reads.patchNext (ids64 next (by simp)) length
      obtain ⟨pages', run, chained, frame, full⟩ := ih (pages.write leaf.pageId patched)
        (by
          intro other member
          obtain ⟨page', pageType', there', rest⟩ := written other (by simp [member])
          have apart := least other.pageId (mem_map_of_mem member)
          exact ⟨page', pageType', (pages.write_of_ne patched (by omega)).trans there', rest⟩)
        ordered (fun other member => ids64 other (by simp [member]))
      have kept : pages' leaf.pageId = some patched := by
        rw [frame leaf.pageId, Pages.write_self]
        intro other member same
        have := least other.pageId (mem_map_of_mem member)
        omega
      refine ⟨pages', ?_, ⟨⟨patched, pageType, kept, reads'⟩, ?_, chained⟩, ?_,
        forall_mem_cons.mpr ⟨⟨patched, kept, length'⟩, full⟩⟩
      · simp only [map_cons, Leaf.info] at run ⊢
        rw [patchNextLeaf, Pages.load, there]
        simp only [bind, Except.bind, wrote]
        exact run
      · intro _
        change next.pageId ≠ 0
        omega
      · intro pageId other
        rw [frame pageId fun leaf member => other leaf (by simp [member]),
          pages.write_of_ne patched fun same => other leaf (by simp) same.symm]

end Links

section Levels

variable {κ : Type} {kind : IndexKind κ}

def separators (kind : IndexKind κ) (others : List (Node κ)) : List Bytes :=
  others.map fun node => kind.toBytes node.key

def childrenFit (kind : IndexKind κ) (others : List (Node κ)) : Prop :=
  internalHeaderSize + others.length * 8 + others.length * slotSize +
    totalLength (separators kind others) ≤ pageSize

def maxSeparator : Nat := pageSize - internalHeaderSize - 8 - slotSize

variable {fillBytes height : Nat}

theorem fillInternal_spec (filled : fillBytes + 8 ≤ pageSize) (first : Node κ) (others rest : List (Node κ))
    (fits : childrenFit kind others) (small : ∀ node ∈ rest, (kind.toBytes node.key).length ≤ maxSeparator) :
    ∃ more left, rest = more ++ left ∧
      fillInternal fillBytes ((first :: others).map Node.pageId) (separators kind others)
        (totalLength (separators kind others)) (rest.map (info kind)) =
          .ok ((first :: others ++ more).map Node.pageId, separators kind (others ++ more),
            left.map (info kind)) ∧
      childrenFit kind (others ++ more) ∧ (others = [] → rest ≠ [] → more ≠ []) := by
  induction rest generalizing others with
  | nil => exact ⟨[], [], rfl, by simp [fillInternal], by simpa using fits, by simp⟩
  | cons node rest ih =>
    have short := small node (by simp)
    have count : (separators kind others).length = others.length := length_map _
    have added : totalLength (separators kind (others ++ [node])) =
        totalLength (separators kind others) + (kind.toBytes node.key).length := by
      simp [separators]
    simp only [childrenFit, maxSeparator, internalHeaderSize, slotSize, pageSize] at *
    have head : (node :: rest).map (info kind) =
        (node.pageId, kind.toBytes node.key) :: rest.map (info kind) := rfl
    rw [head, fillInternal]
    simp only [length_map, length_cons, Nat.add_sub_cancel, count, internalHeaderSize, slotSize, pageSize]
    split
    · rename_i large
      have none : others = [] := by simpa [separators] using large.2
      have length : others.length = 0 := by rw [none]; rfl
      have total : totalLength (separators kind others) = 0 := by rw [none]; rfl
      omega
    · rename_i notLarge
      split
      · rename_i full
        refine ⟨[], node :: rest, rfl, by simp [info], by simpa using fits, ?_⟩
        intro none
        exact absurd (by rw [none]; rfl) full.2
      · rename_i notFull
        have fits' : 12 + (others ++ [node]).length * 8 + (others ++ [node]).length * 4 +
            totalLength (separators kind (others ++ [node])) ≤ 4096 := by
          rw [added, length_append, length_singleton]
          by_cases none : others = []
          · have length : others.length = 0 := by rw [none]; rfl
            have total : totalLength (separators kind others) = 0 := by rw [none]; rfl
            omega
          · have some : separators kind others ≠ [] := by simpa [separators] using none
            have under : ¬ fillBytes < 12 + others.length * 8 + (others.length + 1) * 4 +
                totalLength (separators kind others) + (kind.toBytes node.key).length :=
              fun above => notFull ⟨above, some⟩
            omega
        obtain ⟨more, left, split, run, fits'', -⟩ := ih (others ++ [node]) fits'
          fun other member => small other (by simp [member])
        refine ⟨node :: more, left, by rw [split]; rfl, ?_, by simpa using fits'', by simp⟩
        rw [added] at run
        simpa [separators] using run

theorem buildLevel_spec {bound : Nat} (filled : fillBytes + 8 ≤ pageSize) (fuel nextPage : Nat)
    (pages : Pages) (level : List (Node κ)) (enough : level.length ≤ fuel)
    (spans : ∀ node ∈ level, Spans kind pages bound height node) (above : bound ≤ nextPage)
    (ids64 : bound ≤ 2 ^ 64) (small : ∀ node ∈ level.tail, (kind.toBytes node.key).length ≤ maxSeparator) :
    ∃ (pages' : Pages) (level' : List (Node κ)), buildLevel fillBytes fuel pages nextPage (level.map (info kind)) =
        .ok (pages', nextPage + level'.length, level'.map (info kind)) ∧
      (∀ pageId, pageId < nextPage ∨ nextPage + level'.length ≤ pageId →
        pages' pageId = pages pageId) ∧
      Filled pages' nextPage (nextPage + level'.length) ∧
      (∀ node ∈ level', Spans kind pages' (nextPage + level'.length) (height + 1) node) ∧
      level'.flatMap Node.leaves = level.flatMap Node.leaves ∧
      2 * level'.length ≤ level.length + 1 := by
  induction fuel generalizing nextPage pages level with
  | zero =>
    obtain rfl : level = [] := length_eq_zero_iff.mp (by omega)
    exact ⟨pages, [], rfl, fun _ _ => rfl, fun _ _ _ => by simp at *; omega, by simp, rfl, by simp⟩
  | succ fuel ih =>
    cases level with
    | nil => exact ⟨pages, [], rfl, fun _ _ => rfl, fun _ _ _ => by simp at *; omega, by simp, rfl, by simp⟩
    | cons first rest =>
      obtain ⟨more, left, split, fill, fits, takes⟩ := fillInternal_spec filled first [] rest
        (by simp [childrenFit, separators, internalHeaderSize, pageSize]) small
      rw [nil_append] at fits fill
      rw [cons_append, nil_append] at fill
      have lengths : rest.length = more.length + left.length := by rw [split, length_append]
      have children : ∀ child ∈ first :: more, Spans kind pages bound height child :=
        fun child member => spans child (by
          rw [split, ← cons_append]
          exact mem_append_left _ member)
      have children64 : ∀ pageId ∈ (first :: more).map Node.pageId, pageId < 2 ^ 64 := by
        intro pageId member
        obtain ⟨child, inChildren, rfl⟩ := mem_map.mp member
        have below := (children child inChildren).small
        omega
      have sepCount : (separators kind more).length = more.length := length_map _
      obtain ⟨page, wrote, length, reads⟩ := writeInternalPage_spec
        (by rw [length_map, length_cons, sepCount] :
          ((first :: more).map Node.pageId).length = (separators kind more).length + 1)
        children64 (by rw [sepCount]; exact fits)
      obtain ⟨pages', level', run, frame, filled', spans', leaves, half⟩ := ih (nextPage + 1)
        (pages.write nextPage page) left (by simp only [length_cons] at enough; omega)
        (fun node member => (spans node (by rw [split]; simp [member])).mono (Nat.le_refl _)
          fun pageId below => pages.write_of_ne page (by omega))
        (by omega)
        (fun node member => small node (by
          rw [tail_cons, split]
          simp [mem_of_mem_tail member]))
      have total : nextPage + 1 + level'.length = nextPage + (level'.length + 1) := by omega
      rw [total] at run frame filled' spans'
      have kept : ∀ pageId < nextPage, pages' pageId = pages pageId := fun pageId below =>
        (frame pageId (by omega)).trans (pages.write_of_ne page (by omega))
      refine ⟨pages', ⟨nextPage, first.head, first.tail ++ more.flatMap Node.leaves⟩ :: level', ?_, ?_,
        ?_, ?_, ?_, ?_⟩
      · rw [map_cons, info, buildLevel]
        have filling : fillInternal fillBytes [first.pageId] [] 0 (rest.map (info kind)) =
            .ok ((first :: more).map Node.pageId, separators kind more, left.map (info kind)) :=
          fill
        simp only [bind, Except.bind, filling, wrote, run]
        rfl
      · intro pageId outside
        rw [length_cons] at outside
        rw [frame pageId (by omega), pages.write_of_ne page (by omega)]
      · intro pageId low high
        rcases Nat.eq_or_lt_of_le low with rfl | above
        · exact ⟨page, by rw [frame nextPage (by omega), Pages.write_self], length⟩
        · exact filled' pageId above high
      · intro node member
        rcases mem_cons.mp member with rfl | member
        · refine ⟨by simp, first, more, by simp [Node.leaves], ?_, page, ?_, reads⟩
          · intro child inChildren
            exact (children child inChildren).mono (by simp; omega) fun pageId below =>
              kept pageId (by omega)
          · rw [frame nextPage (by omega), Pages.write_self]
        · exact spans' node member
      · rw [flatMap_cons, leaves, split]
        simp [Node.leaves]
      · by_cases none : rest = []
        · have nothing : more.length = 0 ∧ left.length = 0 := by
            rw [none, length_nil] at lengths
            omega
          rw [nothing.2] at half
          simp only [length_cons]
          omega
        · have some : 0 < more.length := length_pos_iff.mpr (takes rfl none)
          simp only [length_cons]
          omega

theorem head_mem_tail {level : List (Node κ)} {node : Node κ} (member : node ∈ level.tail) :
    node.head ∈ (level.flatMap Node.leaves).tail := by
  cases level with
  | nil => simp at member
  | cons first rest =>
    rw [flatMap_cons, Node.leaves, cons_append, tail_cons, mem_append]
    exact .inr (mem_flatMap.mpr ⟨node, member, by simp [Node.leaves]⟩)

theorem buildLevels_spec (filled : fillBytes + 8 ≤ pageSize) (fuel nextPage : Nat) (pages : Pages)
    (level : List (Node κ)) (some : level ≠ []) (enough : level.length ≤ fuel)
    (spans : ∀ node ∈ level, Spans kind pages nextPage height node)
    (ids64 : nextPage + 2 * level.length ≤ 2 ^ 64)
    (small : ∀ leaf ∈ (level.flatMap Node.leaves).tail, (kind.toBytes leaf.key).length ≤ maxSeparator) :
    ∃ (pages' : Pages) (root : Node κ) (free height' : Nat),
      buildLevels fillBytes fuel pages nextPage (level.map (info kind)) =
        .ok (pages', root.pageId, free) ∧
      (∀ pageId, pageId < nextPage ∨ free ≤ pageId → pages' pageId = pages pageId) ∧
      Filled pages' nextPage free ∧ Spans kind pages' free height' root ∧ root.leaves = level.flatMap Node.leaves ∧
      nextPage ≤ free ∧ height' + nextPage ≤ height + free ∧
      free + 2 ≤ nextPage + 2 * level.length := by
  induction fuel generalizing nextPage height pages level with
  | zero => exact absurd (length_eq_zero_iff.mp (by omega)) some
  | succ fuel ih =>
    match level with
    | [root] =>
      exact ⟨pages, root, nextPage, height, rfl, fun _ _ => rfl, fun _ _ _ => by omega, spans root (by simp), by simp,
        Nat.le_refl _, Nat.le_refl _, by simp⟩
    | first :: second :: rest =>
      obtain ⟨pages₁, level', run, frame, full, spans', leaves, half⟩ := buildLevel_spec filled _ nextPage
        pages (first :: second :: rest) (Nat.le_refl _) spans (Nat.le_refl _) (by omega)
        (fun node member => small node.head (head_mem_tail member))
      have some' : level' ≠ [] := by
        rintro rfl
        simp [Node.leaves] at leaves
      have pos : 0 < level'.length := length_pos_iff.mpr some'
      simp only [length_cons] at half enough ids64 ⊢
      obtain ⟨pages', root, free, height', run', frame', full', spansRoot, leaves', le, low, free'⟩ :=
        ih (nextPage + level'.length) pages₁ level' some' (by omega) spans' (by omega)
          (by rw [leaves]; exact small)
      refine ⟨pages', root, free, height', ?_, ?_, full.append (fun pageId below => frame' pageId (.inl below)) full',
        spansRoot, leaves'.trans leaves, by omega, by omega, by omega⟩
      · rw [map_cons, map_cons, buildLevels]
        · simp only [map_cons, length_cons, length_map] at run ⊢
          simp only [bind, Except.bind, run, run']
        · simp
      · intro pageId outside
        rw [frame' pageId (by omega), frame pageId (by omega)]

end Levels

section Whole

variable {κ : Type} {kind : IndexKind κ} {origin : Pages} {startPageId : Nat} {build : LeafBuild}
  {leaves : List (Leaf κ)}

def Leaf.node (leaf : Leaf κ) : Node κ := ⟨leaf.pageId, leaf, []⟩

variable {leaf : Leaf κ} {pages : Pages} {entries : List (κ × FactRef)} {fillBytes : Nat}

theorem flatMap_node (leaves : List (Leaf κ)) : (leaves.map Leaf.node).flatMap Node.leaves = leaves := by
  rw [flatMap_map]
  exact flatMap_singleton' leaves

theorem length_le_entries (leaves : List (Leaf κ)) :
    leaves.length ≤ (leaves.flatMap Leaf.entries).length := by
  induction leaves with
  | nil => simp
  | cons leaf leaves ih =>
    simp only [flatMap_cons, length_append, length_cons, Leaf.entries]
    omega

theorem key_mem_tail (member : leaf ∈ leaves.tail) :
    leaf.first ∈ (leaves.flatMap Leaf.entries).tail := by
  cases leaves with
  | nil => simp at member
  | cons first rest =>
    rw [flatMap_cons, Leaf.entries, cons_append, tail_cons, mem_append]
    exact .inr (mem_flatMap.mpr ⟨leaf, member, by simp [Leaf.entries]⟩)

theorem Chained.congr {pages' : Pages} {run : List (Nat × List (κ × FactRef))}
    (chained : Chained kind pages run) (same : ∀ leaf ∈ run, pages' leaf.1 = pages leaf.1) :
    Chained kind pages' run := by
  induction run with
  | nil => trivial
  | cons leaf run ih =>
    obtain ⟨⟨page, pageType, there, reads⟩, next, rest⟩ := chained
    exact ⟨⟨page, pageType, (same leaf (by simp)).trans there, reads⟩, next,
      ih rest fun other member => same other (by simp [member])⟩

theorem Chained.written (chained : Chained kind pages (leaves.map Leaf.run)) (member : leaf ∈ leaves) :
    ∃ page pageType nextLeaf, pages leaf.pageId = some page ∧
      LeafReads page pageType (leaf.entries.map kind.entryBytes) nextLeaf := by
  induction leaves with
  | nil => simp at member
  | cons first leaves ih =>
    obtain ⟨⟨page, pageType, there, reads⟩, -, rest⟩ := chained
    rcases mem_cons.mp member with rfl | member
    · exact ⟨page, pageType, _, there, reads⟩
    · exact ih rest member

structure Built (kind : IndexKind κ) (origin : Pages) (startPageId : Nat)
    (entries : List (κ × FactRef)) (result : Pages × Nat × Nat) : Prop where
  keeps : ∀ pages', (∀ pageId < result.2.2, pages' pageId = result.1 pageId) →
    Holds kind pages' (result.2.2 - startPageId) result.2.1 entries
  grows : startPageId < result.2.2
  few : result.2.2 ≤ startPageId + 3 * entries.length + 1
  frame : ∀ pageId, pageId < startPageId ∨ result.2.2 ≤ pageId → result.1 pageId = origin pageId
  filled : Filled result.1 startPageId result.2.2
  rooted : result.2.1 < result.2.2

theorem Built.holds {result : Pages × Nat × Nat} (built : Built kind origin startPageId entries result) :
    Holds kind result.1 (result.2.2 - startPageId) result.2.1 entries :=
  built.keeps result.1 fun _ _ => rfl

theorem link_spec (filled : fillBytes + 8 ≤ pageSize)
    (packed : Packed kind origin startPageId build leaves []) (some : leaves ≠ [])
    (small : ∀ leaf ∈ leaves.tail, (kind.toBytes leaf.key).length ≤ maxSeparator)
    (ids64 : startPageId + 3 * leaves.length ≤ 2 ^ 64) :
    ∃ result, (do
        let pages ← patchNextLeaf build.pages build.leafInfos
        buildLevels fillBytes build.leafInfos.length pages build.nextPage build.leafInfos) = .ok result ∧
      Built kind origin startPageId (leaves.flatMap Leaf.entries) result := by
  have inside := fun leaf (member : leaf ∈ leaves) => pageId_lt_of_ids packed.ids member
  have pos : 0 < leaves.length := length_pos_iff.mpr some
  have next := packed.nextPage
  obtain ⟨pages, patched, chained, frame, full⟩ := patchNextLeaf_spec build.pages packed.written
    (by rw [packed.ids]; exact pairwise_lt_range') (fun leaf member => by
      have := inside leaf member
      omega)
  have single : ∀ node ∈ leaves.map Leaf.node, Spans kind pages build.nextPage 0 node := by
    intro node member
    obtain ⟨leaf, inLeaves, rfl⟩ := mem_map.mp member
    exact ⟨by rw [next]; exact (inside leaf inLeaves).2, rfl, rfl, chained.written inLeaves⟩
  obtain ⟨pages', root, free, height, run, frame', full', spans, leaves', le, low, few⟩ :=
    buildLevels_spec filled leaves.length build.nextPage pages (leaves.map Leaf.node) (by simpa)
      (by simp) single (by rw [length_map]; omega) (by rw [flatMap_node]; exact small)
  rw [flatMap_node] at leaves'
  rw [length_map] at few
  have infos : build.leafInfos = (leaves.map Leaf.node).map (info kind) := by
    rw [packed.infos, map_map]
    rfl
  have count : build.leafInfos.length = leaves.length := by rw [infos, length_map, length_map]
  have grows : startPageId < free := by omega
  refine ⟨(pages', root.pageId, free), ?_, ?_, grows, ?_, ?_, ?_, spans.small⟩
  · rw [count, packed.infos, patched]
    simp only [bind, Except.bind]
    rw [← packed.infos, infos]
    exact run
  · intro pages'' same
    change ∀ pageId < free, pages'' pageId = pages' pageId at same
    rw [← leaves'] at chained packed pos ⊢
    have ids := packed.ids
    refine .node (spans.mono (Nat.le_refl _) same) (chained.congr ?_) ?_ ?_ ?_
    · intro leaf member
      obtain ⟨leaf, inLeaves, rfl⟩ := mem_map.mp member
      have below := pageId_lt_of_ids ids inLeaves
      rw [leaves'] at below
      exact (same leaf.pageId (by omega)).trans (frame' leaf.pageId (by omega))
    · rw [ids]
      exact nodup_range'
    · change height < free - startPageId
      rw [leaves'] at pos
      omega
    · change root.leaves.length ≤ free - startPageId
      rw [leaves']
      omega
  · have := length_le_entries leaves
    change free ≤ _
    omega
  · intro pageId outside
    change pageId < startPageId ∨ free ≤ pageId at outside
    have elsewhere : ∀ leaf ∈ leaves, leaf.pageId ≠ pageId := by
      intro leaf member
      have := inside leaf member
      omega
    change pages' pageId = origin pageId
    rw [frame' pageId (by omega), frame pageId elsewhere, packed.frame pageId (by omega)]
  · refine Filled.append (fun pageId low high => ?_) (fun pageId below => frame' pageId (.inl below)) full'
    have isLeaf : pageId ∈ leaves.map Leaf.pageId := by
      rw [packed.ids, mem_range'_1]
      omega
    obtain ⟨leaf, member, rfl⟩ := mem_map.mp isLeaf
    exact full leaf member

theorem emptyTree_spec (kind : IndexKind κ) (pages : Pages) (startPageId : Nat) :
    ∃ page, writeLeafPage [] 0 = .ok page ∧ Built kind pages startPageId []
      (pages.write startPageId page, startPageId, startPageId + 1) := by
  obtain ⟨page, pageType, wrote, length, reads⟩ := writeLeafPage_spec (by decide : 0 < 2 ^ 64)
    (by simp : ∀ entry ∈ ([] : List Bytes), entry.length < 65536) (by decide)
  refine ⟨page, wrote, ?_, ?_, ?_, ?_, ?_, Nat.lt_succ_self _⟩
  · intro pages' same
    change ∀ pageId < startPageId + 1, pages' pageId = pages.write startPageId page pageId at same
    refine .empty ⟨⟨page, pageType, ?_, reads⟩, by simp, trivial⟩
      (by omega : 0 < startPageId + 1 - startPageId)
    rw [same startPageId (Nat.lt_succ_self _), Pages.write_self]
  · exact Nat.lt_succ_self startPageId
  · exact Nat.le_refl (startPageId + 1)
  · intro pageId outside
    change pageId < startPageId ∨ startPageId + 1 ≤ pageId at outside
    exact pages.write_of_ne page (by omega)
  · intro pageId low high
    change pageId < startPageId + 1 at high
    obtain rfl : pageId = startPageId := by omega
    exact ⟨page, Pages.write_self _ _ _, length⟩

theorem flushLast_spec {cur : List (κ × FactRef)} (packed : Packed kind origin startPageId build leaves cur) :
    ∃ build' leaves', build.flushLast = .ok build' ∧
      Packed kind origin startPageId build' leaves' [] ∧
      leaves'.flatMap Leaf.entries = leaves.flatMap Leaf.entries ++ cur ∧
      ∀ fillBytes, Trim kind fillBytes leaves cur → Trim kind fillBytes leaves' [] := by
  cases cur with
  | nil =>
    have empty : build.curEntries = [] := packed.entries
    exact ⟨build, leaves, if_pos empty, packed, by simp, fun _ => id⟩
  | cons first rest =>
    have some : build.curEntries ≠ [] := by rw [packed.entries]; simp
    obtain ⟨build', flushed, packed'⟩ := flush_spec packed
    exact ⟨build', _, (if_neg some).trans flushed, packed', by simp [Leaf.entries],
      fun _ => Trim.flush⟩

theorem finish_spec {cur : List (κ × FactRef)}
    (filled : fillBytes + 8 ≤ pageSize) (packed : Packed kind origin startPageId build leaves cur)
    (all : leaves.flatMap Leaf.entries ++ cur = entries)
    (separated : ∀ entry ∈ entries.tail, (kind.toBytes entry.1).length ≤ maxSeparator)
    (ids64 : startPageId + 3 * entries.length ≤ 2 ^ 64) :
    ∃ result, build.finish fillBytes = .ok result ∧
      Built kind origin startPageId entries result := by
  rw [LeafBuild.finish]
  split
  · rename_i nothing
    have noLeaves : leaves = [] := by
      have infos := packed.infos
      rw [nothing.2] at infos
      exact map_eq_nil_iff.mp infos.symm
    have noEntries : cur = [] := by
      have entries := packed.entries
      rw [nothing.1] at entries
      exact map_eq_nil_iff.mp entries.symm
    obtain rfl : entries = [] := by rw [← all, noLeaves, noEntries]; rfl
    have next : build.nextPage = startPageId := by rw [packed.nextPage, noLeaves]; rfl
    obtain ⟨page, wrote, built⟩ := emptyTree_spec kind build.pages startPageId
    rw [wrote, next]
    refine ⟨_, rfl, built.keeps, built.grows, built.few, ?_, built.filled, built.rooted⟩
    intro pageId outside
    rw [built.frame pageId outside]
    exact packed.frame pageId (by omega)
  · rename_i something
    obtain ⟨build', leaves', flushed, packed', same, -⟩ := flushLast_spec packed
    have total : leaves'.flatMap Leaf.entries = entries := same.trans all
    have some : leaves' ≠ [] := by
      rintro rfl
      rw [flatMap_nil] at total
      subst total
      obtain ⟨noLeaves, noEntries⟩ := append_eq_nil_iff.mp all
      have := length_le_entries leaves
      rw [noLeaves, length_nil, Nat.le_zero, length_eq_zero_iff] at this
      exact something ⟨by rw [packed.entries, noEntries]; rfl, by rw [packed.infos, this]; rfl⟩
    have few := length_le_entries leaves'
    rw [total] at few
    obtain ⟨result, linked, built⟩ := link_spec filled packed' some
      (fun leaf member => separated leaf.first (by rw [← total]; exact key_mem_tail member)) (by omega)
    rw [total] at built
    exact ⟨result, by rw [flushed]; exact linked, built⟩

theorem buildBtreeFromKeyEntries_spec (options : BtreeBuildOptions) (entries : List (κ × FactRef))
    (pages : Pages) (startPageId : Nat) (filled : options.fillBytes + 8 ≤ pageSize)
    (small : ∀ entry ∈ entries, (kind.entryBytes entry).length ≤ pageSize - leafHeaderSize - slotSize)
    (separated : ∀ entry ∈ entries.tail, (kind.toBytes entry.1).length ≤ maxSeparator)
    (ids64 : startPageId + 3 * entries.length ≤ 2 ^ 64) :
    ∃ result, buildBtreeFromKeyEntries kind options entries pages startPageId = .ok result ∧
      Built kind pages startPageId entries result := by
  have start : Packed kind pages startPageId (LeafBuild.start pages startPageId) [] [] := packed_start
  obtain ⟨build, leaves, cur, pushed, packed, same, -⟩ := foldlM_push_spec
    (Nat.le_of_add_right_le filled) entries start small
  obtain ⟨result, finished, built⟩ := finish_spec filled packed same separated ids64
  exact ⟨result, by rw [buildBtreeFromKeyEntries, buildBtreeWithOptions, pushed]; exact finished, built⟩

end Whole

end ViciaDb.BTree
