import ViciaDb.Lib.Visitor
import ViciaDb.Storage.BTreePages

namespace ViciaDb.BTree

open ByteReader SlottedPage

/-- The pages of a file. The page cache holds what was last written and is not modelled. -/
abbrev Pages := Nat → Option Bytes

def Pages.write (pages : Pages) (pageId : Nat) (page : Bytes) : Pages :=
  fun other => if other = pageId then some page else pages other

def Pages.load (pages : Pages) (pageId : Nat) : Except String Bytes :=
  match pages pageId with
  | some page => .ok page
  | none => .error s!"Page {pageId} not found"

@[simp] theorem Pages.write_self (pages : Pages) (pageId : Nat) (page : Bytes) :
    pages.write pageId page pageId = some page := if_pos rfl

theorem Pages.write_of_ne (pages : Pages) {pageId other : Nat} (page : Bytes) (ne : other ≠ pageId) :
    pages.write pageId page other = pages other := if_neg ne

structure BtreeBuildOptions where
  fillPercent : Nat
  low : 50 ≤ fillPercent
  high : fillPercent ≤ 100

def BtreeBuildOptions.fillBytes (options : BtreeBuildOptions) : Nat :=
  pageSize * options.fillPercent / 100

def defaultBtreeFillPercent : Nat := 90

def BtreeBuildOptions.default : BtreeBuildOptions := ⟨defaultBtreeFillPercent, by decide, by decide⟩

section Build

abbrev NodeInfo := Nat × Bytes

structure LeafBuild where
  pages : Pages
  nextPage : Nat
  leafInfos : List NodeInfo
  curEntries : List Bytes
  curRawBytes : Nat
  curPrefixBytes : Nat
  curFirstKey : Option Bytes

def LeafBuild.start (pages : Pages) (startPageId : Nat) : LeafBuild where
  pages := pages
  nextPage := startPageId
  leafInfos := []
  curEntries := []
  curRawBytes := 0
  curPrefixBytes := 0
  curFirstKey := none

def LeafBuild.flush (build : LeafBuild) : Except String LeafBuild := do
  let page ← writeLeafPage build.curEntries 0
  match build.curFirstKey with
  | none => .error "BUG: cur_first_key empty when writing leaf page"
  | some firstKey =>
    return {
      pages := build.pages.write build.nextPage page
      nextPage := build.nextPage + 1
      leafInfos := build.leafInfos ++ [(build.nextPage, firstKey)]
      curEntries := []
      curRawBytes := 0
      curPrefixBytes := 0
      curFirstKey := none }

def LeafBuild.projected (build : LeafBuild) (entryBytes : Bytes) (prefixEntryLen : Nat) : Nat :=
  leafHeaderSize + (build.curEntries.length + 1) * slotSize +
    min (build.curRawBytes + entryBytes.length) (build.curPrefixBytes + prefixEntryLen)

def LeafBuild.makeRoom (fillBytes : Nat) (build : LeafBuild) (entryBytes : Bytes) :
    Except String LeafBuild := do
  let (_, _, prefixEntryLen) ←
    prefixRecordLayout build.curEntries.getLast? build.curEntries.length entryBytes
  let projected := build.projected entryBytes prefixEntryLen
  if pageSize < projected ∧ build.curEntries = [] then
    .error "B-tree leaf entry does not fit in one page"
  else if fillBytes < projected ∧ build.curEntries ≠ [] then build.flush
  else .ok build

def LeafBuild.push (fillBytes : Nat) (build : LeafBuild) (entry : Bytes × Bytes) :
    Except String LeafBuild := do
  let (entryBytes, keyBytes) := entry
  let build ← build.makeRoom fillBytes entryBytes
  let (_, _, prefixEntryLen) ←
    prefixRecordLayout build.curEntries.getLast? build.curEntries.length entryBytes
  return { build with
    curFirstKey := some (build.curFirstKey.getD keyBytes)
    curRawBytes := build.curRawBytes + entryBytes.length
    curPrefixBytes := build.curPrefixBytes + prefixEntryLen
    curEntries := build.curEntries ++ [entryBytes] }

def patchNextLeaf : Pages → List NodeInfo → Except String Pages
  | pages, (pageId, _) :: (nextId, key) :: infos => do
    let page ← pages.load pageId
    match writeAt page 4 (leBytes 8 nextId) with
    | none => .error "page too small to write next_leaf"
    | some page => patchNextLeaf (pages.write pageId page) ((nextId, key) :: infos)
  | pages, _ => .ok pages

def fillInternal (fillBytes : Nat) (childIds : List Nat) (sepBytes : List Bytes) (sepDataBytes : Nat) :
    List NodeInfo → Except String (List Nat × List Bytes × List NodeInfo)
  | [] => .ok (childIds, sepBytes, [])
  | (pageId, sep) :: rest =>
    let projected := internalHeaderSize + (childIds.length - 1) * 8 +
      (sepBytes.length + 1) * slotSize + sepDataBytes + sep.length
    if pageSize < projected ∧ sepBytes = [] then .error "B-tree separator does not fit in one page"
    else if fillBytes < projected ∧ sepBytes ≠ [] then .ok (childIds, sepBytes, (pageId, sep) :: rest)
    else fillInternal fillBytes (childIds ++ [pageId]) (sepBytes ++ [sep])
      (sepDataBytes + sep.length) rest

def buildLevel (fillBytes : Nat) :
    Nat → Pages → Nat → List NodeInfo → Except String (Pages × Nat × List NodeInfo)
  | _, pages, nextPage, [] => .ok (pages, nextPage, [])
  | 0, _, _, _ :: _ => .error "out of fuel"
  | fuel + 1, pages, nextPage, (pageId, firstKey) :: rest => do
    let (childIds, sepBytes, rest) ← fillInternal fillBytes [pageId] [] 0 rest
    let page ← writeInternalPage childIds sepBytes
    let (pages, free, infos) ←
      buildLevel fillBytes fuel (pages.write nextPage page) (nextPage + 1) rest
    return (pages, free, (nextPage, firstKey) :: infos)

def buildLevels (fillBytes : Nat) :
    Nat → Pages → Nat → List NodeInfo → Except String (Pages × Nat × Nat)
  | _, pages, nextPage, [(root, _)] => .ok (pages, root, nextPage)
  | 0, _, _, _ => .error "out of fuel"
  | fuel + 1, pages, nextPage, level => do
    let (pages, nextPage, level) ← buildLevel fillBytes level.length pages nextPage level
    buildLevels fillBytes fuel pages nextPage level

def LeafBuild.flushLast (build : LeafBuild) : Except String LeafBuild :=
  if build.curEntries = [] then .ok build else build.flush

def LeafBuild.finish (fillBytes : Nat) (build : LeafBuild) : Except String (Pages × Nat × Nat) :=
  if build.curEntries = [] ∧ build.leafInfos = [] then do
    let page ← writeLeafPage [] 0
    return (build.pages.write build.nextPage page, build.nextPage, build.nextPage + 1)
  else do
    let build ← build.flushLast
    let pages ← patchNextLeaf build.pages build.leafInfos
    buildLevels fillBytes build.leafInfos.length pages build.nextPage build.leafInfos

def buildBtreeWithOptions (options : BtreeBuildOptions) (entries : List (Bytes × Bytes))
    (pages : Pages) (startPageId : Nat) : Except String (Pages × Nat × Nat) := do
  let build ← entries.foldlM (LeafBuild.push options.fillBytes) (LeafBuild.start pages startPageId)
  build.finish options.fillBytes

variable {κ : Type} (kind : IndexKind κ)

def btreeEntries (entries : List (κ × FactRef)) : List (Bytes × Bytes) :=
  entries.map fun entry => (kind.entryBytes entry, kind.toBytes entry.1)

def buildBtreeFromKeyEntries (options : BtreeBuildOptions) (entries : List (κ × FactRef))
    (pages : Pages) (startPageId : Nat) : Except String (Pages × Nat × Nat) :=
  buildBtreeWithOptions options (btreeEntries kind entries) pages startPageId

end Build

section Descent

def findLeftmostLeaf (pages : Pages) : Nat → Nat → Except String Nat
  | 0, _ => .error "out of fuel"
  | fuel + 1, pageId => do
    let page ← pages.load pageId
    match page.head? with
    | none => .error s!"empty page at page_id={pageId}"
    | some pageType =>
      if isLeafPageType pageType then return pageId
      else if pageType = pageTypeInternal then
        let keyCount ← readU16At page 2
        let child ← readU64At page (if keyCount = 0 then 4 else internalHeaderSize)
        findLeftmostLeaf pages fuel child
      else .error ("find_leftmost_leaf: unexpected page type 0x" ++ hexByte pageType ++
        " at page_id=" ++ toString pageId)

variable {κ : Type} (kind : IndexKind κ)

def childForKey (page : Bytes) (key : κ) : Except String Nat := do
  let keyCount ← readU16At page 2
  let rightmostChild ← readU64At page 4
  let low ← PartitionPoint.search (fun middle => do
    let sep ← slotSlice (sliceOutOfBounds "sep") (internalHeaderSize + keyCount * 8) page middle
    let sepKey ← fromBytes kind.read sep
    return !(kind.cmp key sepKey).isLT) keyCount
  if low < keyCount then readU64At page (internalHeaderSize + low * 8) else return rightmostChild

def findLeafForKey (pages : Pages) (key : κ) : Nat → Nat → Except String Nat
  | 0, _ => .error "out of fuel"
  | fuel + 1, pageId => do
    let page ← pages.load pageId
    match page.head? with
    | none => .error s!"empty page at page_id={pageId}"
    | some pageType =>
      if isLeafPageType pageType then return pageId
      else if pageType = pageTypeInternal then
        let child ← childForKey kind page key
        findLeafForKey pages key fuel child
      else .error ("find_leaf_for_key: unexpected page type 0x" ++ hexByte pageType ++
        " at page_id=" ++ toString pageId)

end Descent

section Scans

variable {κ σ : Type} (kind : IndexKind κ)

def loadLeaf (caller : String) (pages : Pages) (leafId : Nat) : Except String (Bytes × Nat) := do
  let page ← pages.load leafId
  match page.head? with
  | none => .error s!"empty page at page_id={leafId}"
  | some pageType =>
    if isLeafPageType pageType then return (page, ← readU64At page 4)
    else .error (caller ++ " at page_id=" ++ toString leafId)

def drainCursor : Nat → LeafEntryCursor κ → Except String (List (κ × FactRef))
  | 0, _ => .error "out of fuel"
  | fuel + 1, cursor => do
    match ← cursor.nextEntry kind with
    | none => return []
    | some (entry, cursor) => return entry :: (← drainCursor fuel cursor)

def streamLeaves (pages : Pages) : Nat → Nat → Except String (List (κ × FactRef))
  | 0, _ => .error "out of fuel"
  | fuel + 1, leafId => do
    let (page, nextLeaf) ← loadLeaf "stream_all_entries: expected leaf page" pages leafId
    let cursor ← LeafEntryCursor.new page
    let entries ← drainCursor kind (cursor.entryCount + 1) cursor
    if nextLeaf = 0 then return entries
    else return entries ++ (← streamLeaves pages fuel nextLeaf)

def streamAllEntries (fuel : Nat) (pages : Pages) (rootPageId : Nat) :
    Except String (List (κ × FactRef)) := do
  let firstLeaf ← findLeftmostLeaf pages fuel rootPageId
  streamLeaves kind pages fuel firstLeaf

def reachesEnd (stop : Option κ) (key : κ) : Bool := stop.any fun stop => (kind.cmp key stop).isGE

def visitCursor (stop : Option κ) (visit : σ → κ × FactRef → Except String (Bool × σ)) :
    Nat → LeafEntryCursor κ → σ → Except String (Bool × Bool × σ)
  | 0, _, _ => .error "out of fuel"
  | fuel + 1, cursor, s => do
    match ← cursor.nextEntry kind with
    | none => return (true, true, s)
    | some (entry, cursor) =>
      if reachesEnd kind stop entry.1 then return (false, true, s)
      else
        match ← visit s entry with
        | (true, s) => visitCursor stop visit fuel cursor s
        | (false, s) => return (false, false, s)

def leafCursor (start : κ) (first : Bool) (page : Bytes) : Except String (LeafEntryCursor κ) := do
  let cursor ← LeafEntryCursor.new page
  if first then cursor.seekLowerBound kind start else return cursor

def visitLeaves (pages : Pages) (start : κ) (stop : Option κ) (startLeaf : Nat)
    (visit : σ → κ × FactRef → Except String (Bool × σ)) :
    Nat → Nat → σ → Except String (Bool × σ)
  | 0, _, _ => .error "out of fuel"
  | fuel + 1, leafId, s => do
    let (page, nextLeaf) ← loadLeaf "range_scan: expected leaf" pages leafId
    let cursor ← leafCursor kind start (leafId = startLeaf) page
    match ← visitCursor kind stop visit (cursor.entryCount + 2) cursor s with
    | (false, answer, s) => return (answer, s)
    | (true, _, s) =>
      if nextLeaf = 0 then return (true, s)
      else visitLeaves pages start stop startLeaf visit fuel nextLeaf s

def visitRangeEntries (fuel : Nat) (pages : Pages) (rootPageId : Nat) (start : κ) (stop : Option κ)
    (visit : σ → κ × FactRef → Except String (Bool × σ)) (s : σ) : Except String (Bool × σ) := do
  let startLeaf ← findLeafForKey kind pages start fuel rootPageId
  visitLeaves kind pages start stop startLeaf visit fuel startLeaf s

def collectCursor (stop : Option κ) :
    Nat → LeafEntryCursor κ → Except String (Bool × List (κ × FactRef))
  | 0, _ => .error "out of fuel"
  | fuel + 1, cursor => do
    match ← cursor.nextEntry kind with
    | none => return (true, [])
    | some (entry, cursor) =>
      if reachesEnd kind stop entry.1 then return (false, [])
      else
        let (more, entries) ← collectCursor stop fuel cursor
        return (more, entry :: entries)

def collectLeaves (pages : Pages) (start : κ) (stop : Option κ) (startLeaf : Nat) :
    Nat → Nat → Except String (List (κ × FactRef))
  | 0, _ => .error "out of fuel"
  | fuel + 1, leafId => do
    let (page, nextLeaf) ← loadLeaf "range_scan: expected leaf" pages leafId
    let cursor ← leafCursor kind start (leafId = startLeaf) page
    let (more, entries) ← collectCursor kind stop (cursor.entryCount + 2) cursor
    if more && nextLeaf ≠ 0 then
      return entries ++ (← collectLeaves pages start stop startLeaf fuel nextLeaf)
    else return entries

def rangeScanEntries (fuel : Nat) (pages : Pages) (rootPageId : Nat) (start : κ)
    (stop : Option κ) : Except String (List (κ × FactRef)) := do
  let startLeaf ← findLeafForKey kind pages start fuel rootPageId
  collectLeaves kind pages start stop startLeaf fuel startLeaf

def rangeScan (fuel : Nat) (pages : Pages) (rootPageId : Nat) (start : κ) (stop : Option κ) :
    Except String (List FactRef) := do
  return (← rangeScanEntries kind fuel pages rootPageId start stop).map Prod.snd

end Scans

section CurrentView

variable {κ σ : Type} (kind : IndexKind κ) (name : String)

def entryAt (page : Bytes) (pageType : UInt8) (entryCount slot : Nat) (previous : Bytes) :
    Except String Bytes :=
  if pageType = pageTypePrefixLeaf then
    reconstructPrefixEntry (fun _ _ _ => "entry slice out of bounds") page entryCount slot previous
  else storedEntry (fun _ _ _ => "entry slice out of bounds") page entryCount slot

def slotBelow (page : Bytes) (pageType : UInt8) (entryCount : Nat) (start : κ) (slot : Nat) :
    Except String Bool := do
  let bytes ← entryAt page pageType entryCount slot []
  let (wire, _) ← decodeEntry name kind.readEntry bytes
  return (kind.cmp wire start).isLT

def seekSlot (page : Bytes) (pageType : UInt8) (entryCount : Nat) (start : κ) :
    Except String Nat :=
  let below := slotBelow kind name page pageType entryCount start
  if pageType = pageTypePrefixLeaf then do
    let low ← PartitionPoint.search (fun middle => below (middle * prefixRestartInterval))
      (restartCount entryCount)
    return (low - 1) * prefixRestartInterval
  else PartitionPoint.search below entryCount

def firstSlot (first : Bool) (page : Bytes) (pageType : UInt8) (entryCount : Nat) (start : κ) :
    Except String Nat :=
  if first && entryCount ≠ 0 then seekSlot kind name page pageType entryCount start else .ok 0

def visitSlots (page : Bytes) (pageType : UInt8) (entryCount : Nat) (start : κ) (stop : Option κ)
    (first : Bool) (visit : σ → κ × FactRef → Except String (Bool × σ)) :
    Nat → Nat → Bytes → σ → Except String (Bool × Bool × σ)
  | 0, _, _, _ => .error "out of fuel"
  | fuel + 1, slot, previous, s =>
    if slot < entryCount then do
      let bytes ← entryAt page pageType entryCount slot previous
      let entry ← decodeEntry name kind.readEntry bytes
      if first && (kind.cmp entry.1 start).isLT then
        visitSlots page pageType entryCount start stop first visit fuel (slot + 1) bytes s
      else if reachesEnd kind stop entry.1 then return (false, true, s)
      else
        match ← visit s entry with
        | (true, s) =>
          visitSlots page pageType entryCount start stop first visit fuel (slot + 1) bytes s
        | (false, s) => return (false, false, s)
    else return (true, true, s)

def visitCurrentLeaves (pages : Pages) (start : κ) (stop : Option κ) (startLeaf : Nat)
    (visit : σ → κ × FactRef → Except String (Bool × σ)) :
    Nat → Nat → σ → Except String (Bool × σ)
  | 0, _, _ => .error "out of fuel"
  | fuel + 1, leafId, s => do
    let (page, nextLeaf) ← loadLeaf "range_scan: expected leaf" pages leafId
    let (pageType, entryCount) ← openLeaf page
    let first := decide (leafId = startLeaf)
    let slot ← firstSlot kind name first page pageType entryCount start
    match ← visitSlots kind name page pageType entryCount start stop first visit (entryCount + 1)
      slot [] s with
    | (false, answer, s) => return (answer, s)
    | (true, _, s) =>
      if nextLeaf = 0 then return (true, s)
      else visitCurrentLeaves pages start stop startLeaf visit fuel nextLeaf s

def visitCurrentRange (fuel : Nat) (pages : Pages) (rootPageId : Nat) (start : κ) (stop : Option κ)
    (visit : σ → κ × FactRef → Except String (Bool × σ)) (s : σ) : Except String (Bool × σ) := do
  let startLeaf ← findLeafForKey kind pages start fuel rootPageId
  visitCurrentLeaves kind name pages start stop startLeaf visit fuel startLeaf s

def visitCurrentEavtRange (fuel : Nat) (pages : Pages) (rootPageId : Nat) (start : EavtKey)
    (stop : Option EavtKey) (visit : σ → EavtKey × FactRef → Except String (Bool × σ)) (s : σ) :
    Except String (Bool × σ) :=
  visitCurrentRange eavt "EAVT" fuel pages rootPageId start stop visit s

def visitCurrentVaetRange (fuel : Nat) (pages : Pages) (rootPageId : Nat) (start : VaetKey)
    (stop : Option VaetKey) (visit : σ → VaetKey × FactRef → Except String (Bool × σ)) (s : σ) :
    Except String (Bool × σ) :=
  visitCurrentRange vaet "VAET" fuel pages rootPageId start stop visit s

def visitCurrentAevtRange (fuel : Nat) (pages : Pages) (rootPageId : Nat) (start : AevtKey)
    (stop : Option AevtKey)
    (visit : σ → CurrentAevtEntryRef × FactRef → Except String (Bool × σ)) (s : σ) :
    Except String (Bool × σ) :=
  visitCurrentRange aevt "AEVT" fuel pages rootPageId start stop
    (fun s entry => visit s (entry.1.project, entry.2)) s

end CurrentView

end ViciaDb.BTree
