import ViciaDb.Db.ValidTimeDiff

namespace ViciaDb

open ByteReader List
open ValidTimeDiffValueState (row)
open Window (covers)

def Block.group (beforeAt afterAt : Int64) (block : Block) : EntityId × ValidTimeDiffGroup :=
  (block.1, block.2.foldl (ValidTimeDiffGroup.noteWindow beforeAt afterAt) ∅)

def groupRows (attr : String) (group : EntityId × ValidTimeDiffGroup) : List ValidTimeDiffRow :=
  group.2.intoRows group.1 attr

def firstWindow (instant : Int64) (items : List (Value × Window)) : Option Window :=
  (items.find? fun item => Window.covers item.2 instant).map Prod.snd

def netRow (beforeAt afterAt : Int64) (entity : EntityId) (attr : String) (items : List (Value × Window))
    (value : Value) : Option ValidTimeDiffRow :=
  let own := items.filter fun item => item.1 == value
  match firstWindow beforeAt own, firstWindow afterAt own with
  | some window, none => some ⟨entity, attr, value, .disappeared, window.1, window.2⟩
  | none, some window => some ⟨entity, attr, value, .appeared, window.1, window.2⟩
  | _, _ => none

def netRows (beforeAt afterAt : Int64) (entity : EntityId) (attr : String) (items : List (Value × Window)) :
    List ValidTimeDiffRow :=
  (items.map Prod.fst).dedup.filterMap (netRow beforeAt afterAt entity attr items)

def ValidTimeDiffRow.canonical (row : ValidTimeDiffRow) : ValidTimeDiffRow :=
  { row with value := canonicalValue row.value }

def canonicalItem (item : Value × Window) : Value × Window := (canonicalValue item.1, item.2)

section OneKey

variable {beforeAt afterAt : Int64}

def noteState (beforeAt afterAt : Int64) (state : Option ValidTimeDiffValueState) (item : Value × Window) :
    Option ValidTimeDiffValueState :=
  let visibleBefore := Window.covers item.2 beforeAt
  let visibleAfter := Window.covers item.2 afterAt
  if !visibleBefore && !visibleAfter then state
  else
    let known := state.getD { value := item.1 }
    some { known with
      before := if visibleBefore && known.before.isNone then some item.2 else known.before
      after := if visibleAfter && known.after.isNone then some item.2 else known.after }

theorem lookup_noteWindow (group : ValidTimeDiffGroup) (item : Value × Window) (key : Bytes) :
    (group.noteWindow beforeAt afterAt item).lookup key =
      if encodeValue item.1 = key then noteState beforeAt afterAt (group.lookup key) item else group.lookup key := by
  rw [ValidTimeDiffGroup.noteWindow, noteState]
  split
  · split <;> rfl
  rw [AList.lookup_insert_ite]
  split
  · rename_i same
    rw [if_pos same.symm, same]
  · rename_i different
    rw [if_neg (Ne.symm different)]

theorem lookup_foldl_noteWindow (items : List (Value × Window)) (group : ValidTimeDiffGroup) (key : Bytes) :
    (items.foldl (ValidTimeDiffGroup.noteWindow beforeAt afterAt) group).lookup key =
      (items.filter fun item => encodeValue item.1 == key).foldl (noteState beforeAt afterAt)
        (group.lookup key) := by
  induction items generalizing group with
  | nil => rfl
  | cons item items ih =>
    rw [foldl_cons, ih, lookup_noteWindow, filter_cons]
    by_cases same : encodeValue item.1 = key
    · rw [if_pos same, if_pos (beq_iff_eq.mpr same)]
      rfl
    · rw [if_neg same, if_neg (by simpa using same)]

theorem foldl_noteState_some (items : List (Value × Window)) (state : ValidTimeDiffValueState) :
    items.foldl (noteState beforeAt afterAt) (some state) = some { state with
      before := state.before.or (firstWindow beforeAt items)
      after := state.after.or (firstWindow afterAt items) } := by
  induction items generalizing state with
  | nil => simp [firstWindow]
  | cons item items ih =>
    obtain ⟨value, before, after⟩ := state
    rw [foldl_cons, noteState]
    dsimp only [Option.getD_some]
    cases seenBefore : covers item.2 beforeAt <;> cases seenAfter : covers item.2 afterAt <;>
      cases before <;> cases after <;> simp [ih, firstWindow, seenBefore, seenAfter]

theorem foldl_noteState (items : List (Value × Window)) :
    items.foldl (noteState beforeAt afterAt) none =
      (items.find? fun item => covers item.2 beforeAt || covers item.2 afterAt).map fun item =>
        ⟨item.1, firstWindow beforeAt items, firstWindow afterAt items⟩ := by
  induction items with
  | nil => rfl
  | cons item items ih =>
    rw [foldl_cons, noteState]
    dsimp only [Option.getD_none]
    cases seenBefore : covers item.2 beforeAt <;> cases seenAfter : covers item.2 afterAt <;>
      simp [ih, foldl_noteState_some, firstWindow, seenBefore, seenAfter]

variable {items : List (Value × Window)}

theorem find?_of_firstWindow {instant : Int64} {window : Window}
    (found : firstWindow instant items = some window) {p : Value × Window → Bool}
    (wider : ∀ item, covers item.2 instant = true → p item = true) : ∃ item ∈ items, items.find? p = some item := by
  obtain ⟨item, isFirst, -⟩ := Option.map_eq_some_iff.mp found
  have seen : (items.find? p).isSome = true := by
    rw [List.find?_isSome]
    have covered := List.find?_some isFirst
    exact ⟨item, mem_of_find?_eq_some isFirst, wider item covered⟩
  obtain ⟨other, isOther⟩ := Option.isSome_iff_exists.mp seen
  exact ⟨other, mem_of_find?_eq_some isOther, isOther⟩

theorem row_of_state {entity : EntityId} {attr : String} {value : Value}
    (alike : ∀ item ∈ items, canonicalValue item.1 = value) :
    ((items.foldl (noteState beforeAt afterAt) none).bind
        (row entity attr)).map ValidTimeDiffRow.canonical =
      match firstWindow beforeAt items, firstWindow afterAt items with
      | some window, none => some ⟨entity, attr, value, .disappeared, window.1, window.2⟩
      | none, some window => some ⟨entity, attr, value, .appeared, window.1, window.2⟩
      | _, _ => none := by
  rw [foldl_noteState]
  cases isBefore : firstWindow beforeAt items with
  | some window =>
    obtain ⟨item, member, found⟩ := @find?_of_firstWindow items beforeAt window isBefore
      (fun item => covers item.2 beforeAt || covers item.2 afterAt) fun item seen => by simp [seen]
    rw [found]
    cases firstWindow afterAt items with
    | some window => rfl
    | none =>
      change some (ValidTimeDiffRow.mk entity attr (canonicalValue item.1) .disappeared window.1 window.2) = _
      rw [alike item member]
  | none =>
    cases isAfter : firstWindow afterAt items with
    | none => cases items.find? _ <;> rfl
    | some window =>
      obtain ⟨item, member, found⟩ := @find?_of_firstWindow items afterAt window isAfter
        (fun item => covers item.2 beforeAt || covers item.2 afterAt) fun item seen => by simp [seen]
      rw [found]
      change some (ValidTimeDiffRow.mk entity attr (canonicalValue item.1) .appeared window.1 window.2) = _
      rw [alike item member]

end OneKey

section Rows

variable {beforeAt afterAt : Int64} {entity : EntityId} {attr : String}

instance {β : Type} : Std.TransCmp fun a b : (_ : Bytes) × β => compare a.1 b.1 :=
  inferInstanceAs (Std.TransCmp (compareOn Sigma.fst))

def sortedKeys (group : ValidTimeDiffGroup) : List Bytes :=
  (group.entries.insertionSort fun a b => (compare a.1 b.1).isLE).map Sigma.fst

theorem intoRows_eq (group : ValidTimeDiffGroup) :
    group.intoRows entity attr = (sortedKeys group).filterMap fun key =>
      (group.lookup key).bind (row entity attr) := by
  rw [ValidTimeDiffGroup.intoRows, sortedKeys, filterMap_map]
  refine filterMap_congr fun entry member => ?_
  have found : group.lookup entry.1 = some entry.2 :=
    AList.mem_lookup_iff.mpr ((perm_insertionSort _ _).mem_iff.mp member)
  rw [Function.comp_apply, found]
  rfl

theorem sortedKeys_perm (group : ValidTimeDiffGroup) : (sortedKeys group).Perm group.keys :=
  (perm_insertionSort _ _).map _

variable {group : ValidTimeDiffGroup}

theorem sortedKeys_eq {keys : List Bytes}
    (increasing : MergeCursor.Increasing compare keys) (known : ∀ key ∈ group, key ∈ keys) :
    sortedKeys group = keys.filter fun key => (group.lookup key).isSome := by
  have listed : ∀ key, key ∈ sortedKeys group ↔ (group.lookup key).isSome = true := fun key =>
    (sortedKeys_perm group).mem_iff.trans AList.lookup_isSome.symm
  have distinct : keys.Nodup := increasing.imp fun {a _} less same => by
    have self : compare a a = .eq := Std.ReflCmp.compare_self
    rw [← same, self] at less
    cases less
  refine MergeCursor.Increasing.eq_of_perm (increasing.sublist filter_sublist) ?_ ?_
  · exact pairwise_map.mpr (pairwise_insertionSort_isLE group.entries)
  · refine (perm_ext_iff_of_nodup ?_ (distinct.filter _)).mpr fun key => ?_
    · exact (sortedKeys_perm group).nodup_iff.mpr group.keys_nodup
    · rw [mem_filter, listed]
      refine ⟨fun found => ⟨known key ?_, found⟩, And.right⟩
      exact AList.lookup_isSome.mp found

theorem rows_by_keys {keys : List Bytes}
    (increasing : MergeCursor.Increasing compare keys) (known : ∀ key ∈ group, key ∈ keys) :
    group.intoRows entity attr = keys.filterMap fun key =>
      (group.lookup key).bind (row entity attr) := by
  rw [intoRows_eq, sortedKeys_eq increasing known, filterMap_filter]
  refine filterMap_congr fun key _ => ?_
  cases group.lookup key <;> rfl

structure OrderedItems (items : List (Value × Window)) : Prop where
  sorted : items.Pairwise fun a b => (compare (encodeValue a.1) (encodeValue b.1)).isLE
  apart : ∀ a ∈ items, ∀ b ∈ items, encodeValue a.1 = encodeValue b.1 → canonicalValue a.1 = canonicalValue b.1

variable {items : List (Value × Window)}

theorem OrderedItems.increasing (ordered : OrderedItems items) :
    MergeCursor.Increasing compare ((items.map fun item => canonicalValue item.1).dedup.map encodeValue) := by
  have sorted : (items.map fun item => canonicalValue item.1).Pairwise
      fun a b => (compare (encodeValue a) (encodeValue b)).isLE := by
    refine pairwise_map.mpr (ordered.sorted.imp fun order => ?_)
    rwa [encodeValue_canonicalValue, encodeValue_canonicalValue]
  have distinct := (sorted.sublist (dedup_sublist _)).and (nodup_dedup _)
  refine pairwise_map.mpr (distinct.imp_of_mem ?_)
  rintro a b inA inB ⟨order, different⟩
  obtain ⟨x, inX, rfl⟩ := mem_map.mp (mem_dedup.mp inA)
  obtain ⟨y, inY, rfl⟩ := mem_map.mp (mem_dedup.mp inB)
  rw [encodeValue_canonicalValue, encodeValue_canonicalValue] at order ⊢
  cases compared : compare (encodeValue x.1) (encodeValue y.1) with
  | lt => rfl
  | gt =>
    rw [compared] at order
    cases order
  | eq => exact absurd (ordered.apart x inX y inY (Std.LawfulEqCmp.eq_of_compare compared)) different

theorem firstWindow_canonical (instant : Int64) (items : List (Value × Window)) :
    firstWindow instant (items.map canonicalItem) = firstWindow instant items := by
  rw [firstWindow, firstWindow, List.find?_map, Option.map_map]
  rfl

theorem groupRows_canonical (ordered : OrderedItems items) :
    (groupRows attr (Block.group beforeAt afterAt (entity, items))).map ValidTimeDiffRow.canonical =
      netRows beforeAt afterAt entity attr (items.map canonicalItem) := by
  have known : ∀ key ∈ items.foldl (ValidTimeDiffGroup.noteWindow beforeAt afterAt) ∅,
      key ∈ (items.map fun item => canonicalValue item.1).dedup.map encodeValue := by
    intro key inGroup
    rw [← AList.lookup_isSome, lookup_foldl_noteWindow] at inGroup
    by_contra missing
    have none : items.filter (fun item => encodeValue item.1 == key) = [] := by
      refine filter_eq_nil_iff.mpr fun item member => ?_
      rw [beq_iff_eq]
      rintro rfl
      refine missing (mem_map.mpr ⟨canonicalValue item.1, mem_dedup.mpr ?_, encodeValue_canonicalValue _⟩)
      exact mem_map_of_mem member
    rw [none] at inGroup
    cases inGroup
  have values : (items.map canonicalItem).map Prod.fst = items.map fun item => canonicalValue item.1 := by
    rw [map_map]
    rfl
  rw [groupRows, Block.group, rows_by_keys ordered.increasing known, filterMap_map, map_filterMap, netRows,
    values]
  refine filterMap_congr fun value member => ?_
  obtain ⟨item, inItems, rfl⟩ := mem_map.mp (mem_dedup.mp member)
  have own : (items.map canonicalItem).filter (fun other => other.1 == canonicalValue item.1) =
      (items.filter fun other => encodeValue other.1 == encodeValue (canonicalValue item.1)).map canonicalItem := by
    rw [filter_map]
    refine congrArg _ (filter_congr fun other inOther => ?_)
    rw [encodeValue_canonicalValue, Bool.eq_iff_iff, Function.comp_apply, beq_iff_eq, beq_iff_eq]
    refine ⟨fun same => ?_, ordered.apart other inOther item inItems⟩
    rw [← encodeValue_canonicalValue other.1, ← encodeValue_canonicalValue item.1]
    exact congrArg encodeValue same
  rw [Function.comp_apply, lookup_foldl_noteWindow, netRow, own, firstWindow_canonical, firstWindow_canonical]
  refine row_of_state fun other inOther => ?_
  obtain ⟨inItems', same⟩ := mem_filter.mp inOther
  rw [encodeValue_canonicalValue, beq_iff_eq] at same
  exact ordered.apart other inItems' item inItems same

end Rows

end ViciaDb
