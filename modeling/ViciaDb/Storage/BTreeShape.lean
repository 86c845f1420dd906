import ViciaDb.Storage.BTreeScan

namespace ViciaDb.BTree

open ByteReader SlottedPage List

section InternalPages

structure InternalReads (page : Bytes) (childIds : List Nat) (sepBytes : List Bytes) : Prop where
  head : page[0]? = some pageTypeInternal
  count : numberAt 2 page 2 = some sepBytes.length
  child : ∀ i pageId, i < sepBytes.length → childIds[i]? = some pageId →
    numberAt 8 page (internalHeaderSize + i * 8) = some pageId
  rightmost : ∀ pageId, childIds[sepBytes.length]? = some pageId → numberAt 8 page 4 = some pageId
  sep : ∀ i sep, sepBytes[i]? = some sep →
    ∃ pos, SlotHolds (internalHeaderSize + sepBytes.length * 8) page i sep pos

theorem length_encodeAll_leBytes (width : Nat) (ns : List Nat) :
    (encodeAll (leBytes width) ns).length = ns.length * width := by
  induction ns with
  | nil => simp
  | cons n ns ih => rw [encodeAll_cons, length_append, ih, length_leBytes, length_cons,
      Nat.succ_mul, Nat.add_comm]

theorem writeInternalPage_spec {childIds : List Nat} {sepBytes : List Bytes}
    (matching : childIds.length = sepBytes.length + 1) (ids64 : ∀ pageId ∈ childIds, pageId < 2 ^ 64)
    (fits : internalHeaderSize + sepBytes.length * 8 + sepBytes.length * slotSize +
      totalLength sepBytes ≤ pageSize) :
    ∃ page, writeInternalPage childIds sepBytes = .ok page ∧ page.length = pageSize ∧
      InternalReads page childIds sepBytes := by
  have few : sepBytes.length < 65536 := by
    simp only [internalHeaderSize, slotSize, pageSize] at fits
    omega
  have last : childIds.getLast? = childIds[sepBytes.length]? := by
    rw [List.getLast?_eq_getElem?, matching, Nat.add_sub_cancel]
  obtain ⟨rightmost, isLast⟩ : ∃ pageId, childIds[sepBytes.length]? = some pageId :=
    ⟨_, List.getElem?_eq_getElem (by omega)⟩
  generalize header : internalHeader sepBytes.length rightmost childIds.dropLast = bytes
  have headerLength : bytes.length = internalHeaderSize + sepBytes.length * 8 := by
    rw [← header, internalHeader, length_append, length_encodeAll_leBytes, length_dropLast, matching]
    simp [internalHeaderSize]
  have blankLength : (bytes ++ List.replicate (pageSize - bytes.length) 0).length = pageSize := by
    rw [length_append, length_replicate]
    omega
  obtain ⟨page, placed, length, frame, reads⟩ := placeRecords_spec
    (internalHeaderSize + sepBytes.length * 8) sepBytes blankLength fits
  refine ⟨page, ?_, length.trans blankLength, ?_⟩
  · rw [writeInternalPage, last, isLast]
    simp only [if_neg (by omega : ¬ 65535 < sepBytes.length), header, placed]
  have field : ∀ pos len, pos + len ≤ bytes.length → readAt page pos len = readAt bytes pos len := by
    intro pos len inside
    rw [frame pos len (by omega), readAt_append_left _ inside]
  have front : bytes = ([pageTypeInternal, 0] ++ leBytes 2 sepBytes.length ++ leBytes 8 rightmost) ++
      encodeAll (leBytes 8) childIds.dropLast := header.symm
  have room : internalHeaderSize ≤ bytes.length := by omega
  constructor
  · rw [← readAt_one_eq_some_iff, field 0 1 (by simp only [internalHeaderSize] at room; omega), front]
    simp [readAt]
  · apply numberAt_of_readAt _ few
    rw [field 2 2 (by simp only [internalHeaderSize] at room; omega), front, readAt_append_left _ (by simp)]
    simp [readAt]
  · intro i pageId small found
    apply numberAt_of_readAt _ (ids64 pageId (mem_of_getElem? found))
    have kept : childIds.dropLast[i]? = some pageId := by
      rw [List.getElem?_dropLast, if_pos (by omega), found]
    have start : internalHeaderSize = ([pageTypeInternal, 0] ++ leBytes 2 sepBytes.length ++
        leBytes 8 rightmost).length := by
      simp [internalHeaderSize]
    rw [field _ _ (by omega), front, start, readAt_append_right]
    exact readAt_encodeAll (length_leBytes 8) kept
  · intro pageId found
    obtain rfl : rightmost = pageId := Option.some.inj (isLast.symm.trans found)
    apply numberAt_of_readAt _ (ids64 rightmost (mem_of_getElem? found))
    rw [field 4 8 (by simp only [internalHeaderSize] at room; omega), front, readAt_append_left _ (by simp)]
    simp [readAt, take_of_length_le]
  · exact reads

end InternalPages

section Nodes

variable {κ : Type}

structure Leaf (κ : Type) where
  pageId : Nat
  first : κ × FactRef
  rest : List (κ × FactRef)

def Leaf.entries (leaf : Leaf κ) : List (κ × FactRef) := leaf.first :: leaf.rest

def Leaf.key (leaf : Leaf κ) : κ := leaf.first.1

structure Node (κ : Type) where
  pageId : Nat
  head : Leaf κ
  tail : List (Leaf κ)

def Node.leaves (node : Node κ) : List (Leaf κ) := node.head :: node.tail

def Node.key (node : Node κ) : κ := node.head.key

def Node.info (kind : IndexKind κ) (node : Node κ) : NodeInfo := (node.pageId, kind.toBytes node.key)

variable (kind : IndexKind κ) (pages : Pages) (bound : Nat)

def Spans : Nat → Node κ → Prop
  | 0, node => node.pageId < bound ∧ node.tail = [] ∧ node.head.pageId = node.pageId ∧
      ∃ page pageType nextLeaf, pages node.pageId = some page ∧
        LeafReads page pageType (node.head.entries.map kind.entryBytes) nextLeaf
  | height + 1, node => node.pageId < bound ∧
      ∃ first others, node.leaves = (first :: others).flatMap Node.leaves ∧
        (∀ child ∈ first :: others, Spans height child) ∧
        ∃ page, pages node.pageId = some page ∧
          InternalReads page ((first :: others).map Node.pageId)
            (others.map fun child => kind.toBytes child.key)

variable {kind pages bound}

theorem Spans.small {height : Nat} {node : Node κ} (spans : Spans kind pages bound height node) :
    node.pageId < bound := by
  cases height with
  | zero | succ height => exact spans.1

theorem Spans.mono {pages' : Pages} {bound' height : Nat} {node : Node κ}
    (spans : Spans kind pages bound height node) (le : bound ≤ bound')
    (same : ∀ pageId < bound, pages' pageId = pages pageId) : Spans kind pages' bound' height node := by
  induction height generalizing node with
  | zero =>
    obtain ⟨small, single, isHead, page, pageType, nextLeaf, there, reads⟩ := spans
    exact ⟨by omega, single, isHead, page, pageType, nextLeaf, by rw [same _ small, there], reads⟩
  | succ height ih =>
    obtain ⟨small, first, others, leaves, children, page, there, reads⟩ := spans
    exact ⟨by omega, first, others, leaves, fun child member => ih (children child member), page,
      by rw [same _ small, there], reads⟩

def Ascending (kind : IndexKind κ) (leaves : List (Leaf κ)) : Prop :=
  leaves.Pairwise fun a b => (kind.cmp a.key b.key).isLE = true

theorem Ascending.children {children : List (Node κ)}
    (ascending : Ascending kind (children.flatMap Node.leaves)) :
    (∀ child ∈ children, Ascending kind child.leaves) ∧
      children.Pairwise fun a b => ∀ leaf ∈ a.leaves, ∀ leaf' ∈ b.leaves,
        (kind.cmp leaf.key leaf'.key).isLE = true :=
  pairwise_flatMap.mp ascending

end Nodes

section Descent

variable {κ : Type} {kind : IndexKind κ} {pages : Pages} {bound : Nat}

variable {node first : Node κ} {others : List (Node κ)} {height : Nat}

theorem head_of_leaves (leaves : node.leaves = (first :: others).flatMap Node.leaves) :
    node.head = first.head := by
  rw [flatMap_cons, Node.leaves, Node.leaves, cons_append, List.cons.injEq] at leaves
  exact leaves.1

theorem findLeftmostLeaf_spec (spans : Spans kind pages bound height node) (fuel : Nat)
    (enough : height < fuel) : findLeftmostLeaf pages fuel node.pageId = .ok node.head.pageId := by
  induction height generalizing node fuel with
  | zero =>
    obtain ⟨fuel, rfl⟩ := Nat.exists_eq_add_of_lt enough
    obtain ⟨-, -, isHead, page, pageType, nextLeaf, there, reads⟩ := spans
    rw [findLeftmostLeaf, Pages.load, there]
    simp only [bind, Except.bind, reads.first, reads.isLeaf, if_true, isHead]
    rfl
  | succ height ih =>
    obtain ⟨fuel, rfl⟩ := Nat.exists_eq_add_of_lt enough
    obtain ⟨-, first, others, leaves, children, page, there, reads⟩ := spans
    have head : page.head? = some pageTypeInternal := by rw [List.head?_eq_getElem?, reads.head]
    have child : numberAt 8 page (if (others.map fun child => kind.toBytes child.key).length = 0
        then 4 else internalHeaderSize) = some first.pageId := by
      cases others with
      | nil => exact reads.rightmost first.pageId rfl
      | cons other others => exact reads.child 0 first.pageId (by simp) rfl
    rw [findLeftmostLeaf, Pages.load, there]
    simp only [bind, Except.bind, head, if_neg (by decide : ¬ isLeafPageType pageTypeInternal = true),
      if_true, readU16At_of_number reads.count]
    rw [readU64At, child, head_of_leaves leaves]
    exact ih (children first (by simp)) _ (by omega)

theorem childForKey_spec {page : Bytes} (key : κ)
    (reads : InternalReads page ((first :: others).map Node.pageId)
      (others.map fun child => kind.toBytes child.key))
    (ordered : others.Pairwise fun a b => (kind.cmp a.key b.key).isLE = true) :
    ∃ before child after, first :: others = before ++ child :: after ∧
      childForKey kind page key = .ok child.pageId ∧
      (before ≠ [] → (kind.cmp child.key key).isLE = true) ∧
      ∀ other ∈ after, kind.cmp key other.key = .lt := by
  have count : (others.map fun child => kind.toBytes child.key).length = others.length :=
    length_map _
  obtain ⟨point, small, searched, passed, stops⟩ := PartitionPoint.search_spec
    (fun middle => do
      let sep ← slotSlice (sliceOutOfBounds "sep") (internalHeaderSize + others.length * 8) page middle
      let sepKey ← fromBytes kind.read sep
      return !(kind.cmp key sepKey).isLT)
    (fun i => others[i]?.any fun child => !(kind.cmp key child.key).isLT) others.length
    (by
      intro i inside
      have found := List.getElem?_eq_getElem inside
      obtain ⟨pos, holds⟩ := reads.sep i (kind.toBytes others[i].key) (by
        rw [List.getElem?_map, found, Option.map_some])
      rw [count] at holds
      rw [slotSlice_of_holds _ holds]
      simp only [bind, Except.bind, fromBytes_of_codes kind.reads, found]
      rfl)
    (by
      intro i j le inside holds
      have right := List.getElem?_eq_getElem inside
      have left := List.getElem?_eq_getElem (Nat.lt_of_le_of_lt le inside)
      simp only [left, right, Option.any_some, Bool.not_eq_true', Bool.eq_false_iff] at holds ⊢
      rcases Nat.lt_or_eq_of_le le with less | rfl
      · intro smaller
        have order := pairwise_iff_getElem.mp ordered i j (by omega) inside less
        rw [Ordering.isLT_iff_eq_lt] at smaller
        rw [Std.TransCmp.lt_of_lt_of_isLE smaller order] at holds
        exact holds rfl
      · exact holds)
  have inside : point < (first :: others).length := by simp; omega
  have found : ((first :: others).map Node.pageId)[point]? = some (first :: others)[point].pageId := by
    rw [List.getElem?_map, List.getElem?_eq_getElem inside, Option.map_some]
  refine ⟨(first :: others).take point, (first :: others)[point], (first :: others).drop (point + 1),
    ?_, ?_, ?_, ?_⟩
  · rw [← drop_eq_getElem_cons inside, take_append_drop]
  · rw [childForKey, readU16At_of_number reads.count, count]
    simp only [bind, Except.bind]
    simp only [bind, Except.bind] at searched
    have anyRightmost : ∃ pageId, readU64At page 4 = .ok pageId := by
      obtain ⟨pageId, last⟩ : ∃ pageId, ((first :: others).map Node.pageId)[others.length]? =
          some pageId := ⟨_, List.getElem?_eq_getElem (by simp)⟩
      rw [← count] at last
      exact ⟨pageId, by rw [readU64At, reads.rightmost pageId last]⟩
    obtain ⟨rightmost, readRightmost⟩ := anyRightmost
    rw [readRightmost]
    simp only [searched]
    split
    · rename_i less
      rw [readU64At, reads.child point _ (by rw [count]; exact less) found]
    rename_i atEnd
    have last : point = (others.map fun child => kind.toBytes child.key).length := by
      rw [count]
      omega
    have read := reads.rightmost (first :: others)[point].pageId (by rw [← last]; exact found)
    rw [readU64At, read] at readRightmost
    cases readRightmost
    rfl
  · intro some
    cases point with
    | zero => simp at some
    | succ k =>
      have holds := passed k (by omega)
      rw [List.getElem?_eq_getElem (by omega), Option.any_some] at holds
      rw [getElem_cons_succ]
      rw [← Std.OrientedCmp.isGE_iff_isLE]
      revert holds
      cases kind.cmp key others[k].key <;> decide
  · intro other member
    rw [drop_succ_cons] at member
    obtain ⟨i, there⟩ := mem_iff_getElem?.mp member
    rw [List.getElem?_drop] at there
    obtain ⟨within, -⟩ := List.getElem?_eq_some_iff.mp there
    have fails := stops (point + i) (by omega) within
    rw [there, Option.any_some, Bool.not_eq_false', Ordering.isLT_iff_eq_lt] at fails
    exact fails

/-- Where a key belongs among the leaves: in the last one that does not begin after it, or in the
    first. -/
def Located (kind : IndexKind κ) (key : κ) (before : List (Leaf κ)) (leaf : Leaf κ)
    (after : List (Leaf κ)) : Prop :=
  (before ≠ [] → (kind.cmp leaf.key key).isLE = true) ∧
    ∀ other ∈ after, kind.cmp key other.key = .lt

theorem findLeafForKey_spec (key : κ) (spans : Spans kind pages bound height node)
    (ascending : Ascending kind node.leaves) (fuel : Nat) (enough : height < fuel) :
    ∃ before leaf after, node.leaves = before ++ leaf :: after ∧
      findLeafForKey kind pages key fuel node.pageId = .ok leaf.pageId ∧
      Located kind key before leaf after := by
  induction height generalizing node fuel with
  | zero =>
    obtain ⟨fuel, rfl⟩ := Nat.exists_eq_add_of_lt enough
    obtain ⟨-, single, isHead, page, pageType, nextLeaf, there, reads⟩ := spans
    refine ⟨[], node.head, [], by rw [Node.leaves, single]; rfl, ?_, by simp, by simp⟩
    rw [findLeafForKey, Pages.load, there]
    simp only [bind, Except.bind, reads.first, reads.isLeaf, if_true, isHead]
    rfl
  | succ height ih =>
    obtain ⟨fuel, rfl⟩ := Nat.exists_eq_add_of_lt enough
    obtain ⟨-, first, others, leaves, children, page, there, reads⟩ := spans
    have head : page.head? = some pageTypeInternal := by rw [List.head?_eq_getElem?, reads.head]
    rw [leaves] at ascending ⊢
    obtain ⟨inner, across⟩ := ascending.children
    have ordered : others.Pairwise fun a b => (kind.cmp a.key b.key).isLE = true :=
      (pairwise_cons.mp across).2.imp fun less =>
        less _ (by simp [Node.leaves]) _ (by simp [Node.leaves])
    obtain ⟨before, child, after, split, chosen, notLarger, larger⟩ :=
      childForKey_spec key reads ordered
    have member : child ∈ first :: others := by rw [split]; simp
    obtain ⟨before', leaf, after', split', found, notLarger', larger'⟩ :=
      ih (children child member) (inner child member) (height + 1 + fuel) (by omega)
    refine ⟨before.flatMap Node.leaves ++ before', leaf, after' ++ after.flatMap Node.leaves, ?_, ?_, ?_, ?_⟩
    · rw [split, flatMap_append, flatMap_cons, split']
      simp
    · rw [findLeafForKey, Pages.load, there]
      simp only [bind, Except.bind, head, if_neg (by decide : ¬ isLeafPageType pageTypeInternal = true),
        if_true, chosen, found]
    · intro some
      by_cases front : before' = []
      · -- the leaf is the child's first one, and the child is not the node's first
        have isHead : leaf = child.head := by
          rw [front, Node.leaves, nil_append, List.cons.injEq] at split'
          exact split'.1.symm
        rw [isHead]
        apply notLarger
        rintro rfl
        simp [front] at some
      · exact notLarger' front
    · intro other later
      rcases mem_append.mp later with later | later
      · exact larger' other later
      obtain ⟨sibling, inAfter, below⟩ := mem_flatMap.mp later
      rcases mem_cons.mp below with rfl | below
      · exact larger sibling inAfter
      · have inNode : sibling ∈ first :: others := by rw [split]; simp [inAfter]
        have order := (pairwise_cons.mp (inner sibling inNode)).1 other below
        exact Std.TransCmp.lt_of_lt_of_isLE (larger sibling inAfter) order

end Descent

end ViciaDb.BTree
