import ViciaDb.Storage.BaseImage

namespace ViciaDb

open ByteReader SlottedPage BTree PackedPages Wal.Postcard List
open LeafBuild (start)

variable {κ : Type} {kind : IndexKind κ} {entries : List (κ × FactRef)}

section Sizes

def leafSeparators (kind : IndexKind κ) (entries : List (κ × FactRef)) : List Bytes :=
  let leaves := do
    let build ← (btreeEntries kind entries).foldlM (LeafBuild.push BtreeBuildOptions.default.fillBytes)
      (LeafBuild.start (fun _ => none) 0)
    build.flushLast
  match leaves with
  | .ok build => (build.leafInfos.map Prod.snd).tail
  | .error _ => []

/-- Every entry fits a leaf page, and every separator an internal page with the two children it
    divides. -/
structure Fits (kind : IndexKind κ) (entries : List (κ × FactRef)) : Prop where
  leaf : ∀ entry ∈ entries, leafHeaderSize + slotSize + (kind.entryBytes entry).length ≤ pageSize
  separator : ∀ sep ∈ leafSeparators kind entries,
    internalHeaderSize + 8 + slotSize + sep.length ≤ pageSize

structure SmallKeys (kind : IndexKind κ) (entries : List (κ × FactRef)) : Prop where
  entry : ∀ entry ∈ entries, (kind.entryBytes entry).length ≤ 4080
  key : ∀ entry ∈ entries.tail, (kind.toBytes entry.1).length ≤ 4072

theorem leafPhase_spec (small : ∀ entry ∈ entries, (kind.entryBytes entry).length ≤ 4080) :
    ∃ leaves : List (Leaf κ), leaves.flatMap Leaf.entries = entries ∧
      leafSeparators kind entries = leaves.tail.map (fun leaf => kind.toBytes leaf.key) ∧
      ∀ leaf ∈ leaves, ∀ entry ∈ leaf.rest, (kind.entryBytes entry).length ≤ 4072 := by
  have start : Packed kind (fun _ => none) 0 (start (fun _ => none) 0) [] [] := packed_start
  obtain ⟨build, leaves, cur, pushed, packed, same, trims⟩ := foldlM_push_spec
    (by decide : BtreeBuildOptions.default.fillBytes ≤ pageSize) entries start small
  obtain ⟨build', leaves', flushed, packed', same', trims'⟩ := flushLast_spec packed
  have trim := trims' _ (trims ⟨by simp, by simp⟩)
  refine ⟨leaves', by rw [same', same]; simp, ?_, fun leaf member entry inRest => ?_⟩
  · simp only [leafSeparators, bind, Except.bind, pushed, flushed, packed'.infos]
    rw [map_map, ← map_tail]
    rfl
  · exact Nat.le_trans (trim.inLeaves leaf member entry inRest) (by decide)

theorem length_toBytes_le_entryBytes (entry : κ × FactRef) :
    (kind.toBytes entry.1).length ≤ (kind.entryBytes entry).length := by
  rw [IndexKind.entryBytes, length_append]
  omega

theorem fits_iff_smallKeys : Fits kind entries ↔ SmallKeys kind entries := by
  have capacity : ∀ n, leafHeaderSize + slotSize + n ≤ pageSize ↔ n ≤ 4080 := by
    simp only [leafHeaderSize, slotSize, pageSize]
    omega
  have capacity' : ∀ n, internalHeaderSize + 8 + slotSize + n ≤ pageSize ↔ n ≤ 4072 := by
    simp only [internalHeaderSize, slotSize, pageSize]
    omega
  constructor
  · rintro ⟨leafFits, separatorFits⟩
    have small := fun entry member => (capacity _).mp (leafFits entry member)
    obtain ⟨leaves, rfl, separators, rest⟩ := leafPhase_spec small
    refine ⟨small, ?_⟩
    -- an entry behind the first one begins a later leaf or stands inside a leaf
    have inside : ∀ leaf ∈ leaves, ∀ entry ∈ leaf.rest, (kind.toBytes entry.1).length ≤ 4072 :=
      fun leaf member entry inRest =>
        Nat.le_trans (length_toBytes_le_entryBytes entry) (rest leaf member entry inRest)
    have begins : ∀ leaf ∈ leaves.tail, (kind.toBytes leaf.key).length ≤ 4072 := by
      intro leaf member
      apply (capacity' _).mp
      apply separatorFits
      rw [separators]
      exact mem_map_of_mem member
    intro entry member
    cases leaves with
    | nil => simp at member
    | cons first others =>
      rw [flatMap_cons, Leaf.entries, cons_append, tail_cons, mem_append] at member
      rcases member with member | member
      · exact inside first (by simp) entry member
      · obtain ⟨leaf, inOthers, inLeaf⟩ := mem_flatMap.mp member
        rcases mem_cons.mp inLeaf with rfl | inRest
        · exact begins leaf inOthers
        · exact inside leaf (by simp [inOthers]) entry inRest
  · rintro ⟨small, keys⟩
    obtain ⟨leaves, rfl, separators, -⟩ := leafPhase_spec small
    refine ⟨fun entry member => (capacity _).mpr (small entry member), fun sep member => ?_⟩
    rw [separators] at member
    obtain ⟨leaf, inTail, rfl⟩ := mem_map.mp member
    exact (capacity' _).mpr (keys leaf.first (key_mem_tail inTail))

end Sizes

section Trees

theorem holds_mono {pages : Pages} {reach reach' root : Nat}
    (holds : BTree.Holds kind pages reach root entries) (le : reach ≤ reach') :
    BTree.Holds kind pages reach' root entries := by
  cases holds with
  | empty chained enough => exact .empty chained (by omega)
  | node spans chained apart low few => exact .node spans chained apart (by omega) (by omega)

theorem SmallKeys.build (small : SmallKeys kind entries) (pages : Pages) (startPageId : Nat)
    (ids64 : startPageId + 3 * entries.length ≤ 2 ^ 64) :
    ∃ result, buildBtreeFromKeyEntries kind .default entries pages startPageId = .ok result ∧
      Built kind pages startPageId entries result :=
  buildBtreeFromKeyEntries_spec .default entries pages startPageId (by decide) small.entry small.key
    ids64

structure IndexesHold (pages : Pages) (reach : Nat) (roots : IndexRoots) (contents : IndexContents) :
    Prop where
  eavt : BTree.Holds eavt pages reach roots.eavt contents.eavt
  aevt : BTree.Holds aevt pages reach roots.aevt contents.aevt
  avet : BTree.Holds avet pages reach roots.avet contents.avet
  vaet : BTree.Holds vaet pages reach roots.vaet contents.vaet

structure IndexesSmall (contents : IndexContents) : Prop where
  eavt : SmallKeys eavt contents.eavt
  aevt : SmallKeys aevt contents.aevt
  avet : SmallKeys avet contents.avet
  vaet : SmallKeys vaet contents.vaet

theorem buildIndexes_spec {contents : IndexContents} {count : Nat} (small : IndexesSmall contents)
    (lengths : contents.eavt.length ≤ count ∧ contents.aevt.length ≤ count ∧
      contents.avet.length ≤ count ∧ contents.vaet.length ≤ count) (pages : Pages) (indexStart : Nat)
    (ids64 : indexStart + 12 * count + 3 ≤ 2 ^ 64) :
    ∃ pages' roots next, buildIndexes contents pages indexStart = .ok (pages', roots, next) ∧
      (∀ later, (∀ pageId < next, later pageId = pages' pageId) → IndexesHold later next roots contents) ∧
      (∀ pageId < indexStart, pages' pageId = pages pageId) ∧ Filled pages' indexStart next ∧
      roots.eavt < next ∧ indexStart ≤ next ∧ next ≤ indexStart + 12 * count + 4 := by
  obtain ⟨⟨pages₁, root₁, next₁⟩, run₁, built₁⟩ := small.eavt.build pages indexStart (by omega)
  have few₁ : next₁ ≤ indexStart + 3 * contents.eavt.length + 1 := built₁.few
  have grows₁ : indexStart < next₁ := built₁.grows
  obtain ⟨⟨pages₂, root₂, next₂⟩, run₂, built₂⟩ := small.aevt.build pages₁ next₁ (by omega)
  have few₂ : next₂ ≤ next₁ + 3 * contents.aevt.length + 1 := built₂.few
  have grows₂ : next₁ < next₂ := built₂.grows
  obtain ⟨⟨pages₃, root₃, next₃⟩, run₃, built₃⟩ := small.avet.build pages₂ next₂ (by omega)
  have few₃ : next₃ ≤ next₂ + 3 * contents.avet.length + 1 := built₃.few
  have grows₃ : next₂ < next₃ := built₃.grows
  obtain ⟨⟨pages₄, root₄, next₄⟩, run₄, built₄⟩ := small.vaet.build pages₃ next₃ (by omega)
  have grows₄ : next₃ < next₄ := built₄.grows
  have frame₄ : ∀ pageId < next₃, pages₄ pageId = pages₃ pageId :=
    fun pageId below => built₄.frame pageId (.inl below)
  have frame₃ : ∀ pageId < next₂, pages₄ pageId = pages₂ pageId := fun pageId below =>
    (frame₄ pageId (by omega)).trans (built₃.frame pageId (.inl below))
  have frame₂ : ∀ pageId < next₁, pages₄ pageId = pages₁ pageId := fun pageId below =>
    (frame₃ pageId (by omega)).trans (built₂.frame pageId (.inl below))
  have rooted : root₁ < next₁ := built₁.rooted
  have filled₂ := built₁.filled.append (fun pageId below => built₂.frame pageId (.inl below)) built₂.filled
  have filled₃ := filled₂.append (fun pageId below => built₃.frame pageId (.inl below)) built₃.filled
  have filled₄ := filled₃.append (fun pageId below => built₄.frame pageId (.inl below)) built₄.filled
  refine ⟨pages₄, ⟨root₁, root₂, root₃, root₄⟩, next₄, ?_, fun later same => ⟨?_, ?_, ?_, ?_⟩, ?_, filled₄, ?_, by omega, ?_⟩
  · rw [buildIndexes]
    simp only [bind, Except.bind, run₁, run₂, run₃, run₄]
    rfl
  · exact holds_mono (built₁.keeps later fun i (below : i < next₁) =>
      (same i (by omega)).trans (frame₂ i below)) (by change next₁ - indexStart ≤ next₄; omega)
  · exact holds_mono (built₂.keeps later fun i (below : i < next₂) =>
      (same i (by omega)).trans (frame₃ i below)) (by change next₂ - next₁ ≤ next₄; omega)
  · exact holds_mono (built₃.keeps later fun i (below : i < next₃) =>
      (same i (by omega)).trans (frame₄ i below)) (by change next₃ - next₂ ≤ next₄; omega)
  · exact holds_mono (built₄.keeps later same) (by change next₄ - next₃ ≤ next₄; omega)
  · exact fun pageId below =>
      (frame₂ pageId (by omega)).trans (built₁.frame pageId (.inl below))
  · exact rooted.trans (by omega)
  · have few₄ : next₄ ≤ next₃ + 3 * contents.vaet.length + 1 := built₄.few
    omega

theorem writePages_of_lt (pages : Pages) (pageId : Nat) (list : List Bytes) {other : Nat}
    (below : other < pageId) : writePages pages pageId list other = pages other := by
  induction list generalizing pages pageId with
  | nil => rfl
  | cons page list ih =>
    rw [writePages, ih _ _ (by omega), pages.write_of_ne page (by omega)]

theorem writePages_at (pages : Pages) (pageId : Nat) {list : List Bytes} {i : Nat} {page : Bytes}
    (found : list[i]? = some page) : writePages pages pageId list (pageId + i) = some page := by
  induction list generalizing pages pageId i with
  | nil => simp at found
  | cons first list ih =>
    rw [writePages]
    cases i with
    | zero =>
      obtain rfl : first = page := by simpa using found
      exact (writePages_of_lt _ (pageId + 1) list (by omega)).trans (pages.write_self pageId first)
    | succ i =>
      rw [List.getElem?_cons_succ] at found
      rw [← ih (pages.write pageId first) (pageId + 1) found]
      congr 1
      omega

end Trees

section Lookups

def Single (kind : IndexKind κ) (key : κ) (entries : List (κ × FactRef)) : Prop :=
  entries.Pairwise fun a b => ¬ (kind.cmp a.1 key = .eq ∧ kind.cmp b.1 key = .eq)

instance (kind : IndexKind κ) : Std.TransCmp fun a b : κ × FactRef => kind.cmp a.1 b.1 where
  eq_swap := Std.OrientedCmp.eq_swap
  isLE_trans := Std.TransCmp.isLE_trans

theorem pairwise_sortEntries (kind : IndexKind κ) (entries : List (κ × FactRef)) :
    (sortEntries kind entries).Pairwise fun a b => (kind.cmp a.1 b.1).isLE = true := by
  apply pairwise_mergeSort
  · intro a b c
    exact Std.TransCmp.isLE_trans
  · exact isLE_or

theorem sortedFor_sortEntries {start : κ} (single : Single kind start (sortEntries kind entries)) :
    SortedFor kind start (sortEntries kind entries) :=
  (pairwise_sortEntries kind entries).and single

variable {key : Fact → Option κ}

theorem mem_indexEntries {facts : List Fact} {refs : List FactRef} {entry : κ × FactRef} :
    entry ∈ indexEntries kind key facts refs ↔
      ∃ fact, (fact, entry.2) ∈ facts.zip refs ∧ key fact = some entry.1 := by
  obtain ⟨k, ref⟩ := entry
  rw [indexEntries, sortEntries, mem_mergeSort, keyed, mem_filterMap]
  constructor
  · rintro ⟨⟨fact, ref'⟩, member, made⟩
    obtain ⟨k', found, same⟩ := Option.map_eq_some_iff.mp made
    obtain ⟨rfl, rfl⟩ := Prod.mk.inj same
    exact ⟨fact, member, found⟩
  · rintro ⟨fact, member, found⟩
    exact ⟨(fact, ref), member, by simp only at found; simp [found]⟩

end Lookups

section Checkpoint

theorem length_indexEntries_le (kind : IndexKind κ) (key : Fact → Option κ) (facts : List Fact)
    (refs : List FactRef) : (indexEntries kind key facts refs).length ≤ facts.length := by
  rw [indexEntries, sortEntries, length_mergeSort, keyed]
  refine Nat.le_trans (length_filterMap_le _ _) ?_
  rw [length_zip]
  omega

theorem holdGroups_writePages (pages : Pages) (startPageId : Nat) {list : List Bytes}
    {groups : List (List Fact)} (reads : List.Forall₂ PackedReads list groups) :
    HoldGroups (writePages pages startPageId list) startPageId groups := by
  intro i facts found
  obtain ⟨bound, same⟩ := List.getElem?_eq_some_iff.mp found
  obtain ⟨lengths, each⟩ := forall₂_iff_get.mp reads
  have read := each i (lengths ▸ bound) bound
  rw [get_eq_getElem, get_eq_getElem, same] at read
  exact ⟨_, writePages_at pages startPageId (List.getElem?_eq_getElem (lengths ▸ bound)), read⟩

end Checkpoint

section LongFacts

theorem buildBtreeFromKeyEntries_of_long (options : BtreeBuildOptions) {first : κ × FactRef}
    (rest : List (κ × FactRef)) (pages : Pages) (startPageId : Nat)
    (long : 4080 < (kind.entryBytes first).length) (short : (kind.entryBytes first).length < 65536) :
    buildBtreeFromKeyEntries kind options (first :: rest) pages startPageId =
      .error "B-tree leaf entry does not fit in one page" := by
  have full : pageSize < (start pages startPageId).projected (kind.entryBytes first)
      (prefixRecord (start pages startPageId).curEntries.getLast?
        (start pages startPageId).curEntries.length (kind.entryBytes first)).length := by
    rw [length_prefixRecord]
    simp only [LeafBuild.projected, start, length_nil, List.getLast?_nil, sharedAt,
      Nat.zero_mod, if_true, pageSize, leafHeaderSize, slotSize, prefixRecordHeaderSize]
    omega
  rw [buildBtreeFromKeyEntries, buildBtreeWithOptions, btreeEntries, map_cons, foldlM_cons,
    LeafBuild.push, LeafBuild.makeRoom, prefixRecordLayout_eq_ok short]
  simp only [bind, Except.bind]
  rw [if_pos ⟨full, rfl⟩]

theorem length_utf8Bytes (s : String) : (utf8Bytes s).length = s.toByteArray.size := by
  rw [utf8Bytes, Array.length_toList]
  rfl

theorem length_utf8Bytes_replicate (n : Nat) :
    (utf8Bytes (String.ofList (List.replicate n 'a'))).length = n := by
  rw [length_utf8Bytes, String.toByteArray_ofList]
  induction n with
  | zero => rfl
  | succ n ih =>
    have one : ['a'].utf8Encode.size = 1 := by decide
    rw [replicate_succ, utf8Encode_cons, ByteArray.size_append, ih, one, Nat.add_comm]

theorem length_varint_of_lt {n : Nat} (fuel : Nat) (low : 128 ≤ n) (high : n < 16384) :
    (varint (fuel + 2) n).length = 2 := by
  rw [varint, if_neg (by omega), length_cons, varint, if_pos (by omega)]
  rfl

theorem length_encBytes {bytes : Bytes} (low : 128 ≤ bytes.length) (high : bytes.length < 16384) :
    (encBytes bytes).length = bytes.length + 2 := by
  obtain ⟨fuel, same⟩ : ∃ fuel, bytes.length = fuel + 2 := ⟨bytes.length - 2, by omega⟩
  rw [encBytes, length_append]
  have size : (varint bytes.length bytes.length).length = 2 := by
    have := length_varint_of_lt fuel low high
    rwa [← same] at this
  omega

def textFact (text : String) : Fact where
  entity := 1
  attr := ":t"
  value := .string text
  txId := 1
  txCount := 1
  validFrom := 0
  validTo := 0
  asserted := true

variable {text : String}

theorem length_textFields : (encUuid 1).length = 17 ∧ (encString ":t").length = 3 ∧ (encU64 1).length = 1 ∧
    (encI64 0).length = 1 ∧ (encBool true).length = 1 := by decide

theorem length_encFact_textFact (size : (utf8Bytes text).length = 4052) :
    (encFact (textFact text)).length = 4080 := by
  obtain ⟨entity, attr, count, time, flag⟩ := length_textFields
  have value : (encString text).length = 4054 := by
    rw [encString, length_encBytes (by omega) (by omega), size]
  simp only [encFact, textFact, encValue, length_append, length_cons, entity, attr, count, time, flag, value]

/-- One such fact has a page of its own. -/
theorem packedBytes_textFact (size : (utf8Bytes text).length = 4052) :
    ¬ pageSize < packedBytes [textFact text] ∧ pageSize < packedBytes [textFact text, textFact text] := by
  simp only [packedBytes, length_cons, length_nil, map_cons, map_nil, totalLength_cons, totalLength_nil,
    length_encFact_textFact size]
  decide

theorem length_entry_textFact (size : (utf8Bytes text).length = 4052) {ref : FactRef}
    (short : ref.toBytes.length = 2) : (eavt.entryBytes (eavtKey (textFact text), ref)).length = 4082 := by
  obtain ⟨entity, attr, count, time, flag⟩ := length_textFields
  have value : (encBytes (encodeValue (.string text))).length = 4055 := by
    rw [encodeValue, length_encBytes (by rw [length_cons]; omega)
      (by rw [length_cons]; omega), length_cons, size]
  rw [IndexKind.entryBytes, length_append, short]
  simp only [eavt, EavtKey.toBytes, eavtKey, textFact, length_append, entity, attr, count, time, flag, value]

def longText : String := String.ofList (List.replicate 4052 'a')

theorem length_longText : (utf8Bytes longText).length = 4052 := length_utf8Bytes_replicate 4052

def friendFact : Fact := ⟨1, ":friend", .ref 2, 1, 1, 0, 0, true⟩

end LongFacts

end ViciaDb
