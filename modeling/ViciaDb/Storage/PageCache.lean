import ViciaDb.Lib.ByteReader
import ViciaDb.Lib.FinmapRows

namespace ViciaDb

open ByteReader List

structure CacheEntry where
  data : Bytes
  dirty : Bool

/-- `order` runs from the least recently used page to the most recently used one. -/
structure CacheInner where
  entries : Finmap fun _ : UInt64 => CacheEntry
  order : List UInt64
  capacity : Nat

def CacheInner.touch (inner : CacheInner) (pageId : UInt64) : CacheInner :=
  if pageId ∈ inner.order then
    if inner.order.getLast? = some pageId then inner
    else { inner with order := inner.order.erase pageId ++ [pageId] }
  else { inner with order := inner.order ++ [pageId] }

def evictPages (capacity : Nat) : (Finmap fun _ : UInt64 => CacheEntry) → List UInt64 →
    (Finmap fun _ : UInt64 => CacheEntry) × List UInt64
  | entries, [] => (entries, [])
  | entries, id :: order =>
    if capacity ≤ entries.keys.card ∧ 0 < capacity then evictPages capacity (entries.erase id) order
    else (entries, id :: order)

def CacheInner.add (inner : CacheInner) (pageId : UInt64) (entry : CacheEntry) : CacheInner :=
  let (entries, order) := evictPages inner.capacity inner.entries inner.order
  { inner with entries := entries.insert pageId entry, order := order ++ [pageId] }

namespace PageCache

def new (capacity : Nat) : CacheInner := ⟨∅, [], capacity⟩

def getOrLoad (inner : CacheInner) (pageId : UInt64) (read : Except String Bytes) :
    Except String Bytes × CacheInner :=
  match inner.entries.lookup pageId, read with
  | some entry, _ => (.ok entry.data, inner)
  | none, .ok data => (.ok data, inner.add pageId ⟨data, false⟩)
  | none, .error e => (.error e, inner)

def putDirty (inner : CacheInner) (pageId : UInt64) (data : Bytes) : CacheInner :=
  if pageId ∈ inner.entries then
    { inner with entries := inner.entries.insert pageId ⟨data, true⟩ }.touch pageId
  else inner.add pageId ⟨data, true⟩

def invalidate (inner : CacheInner) (pageId : UInt64) : CacheInner :=
  { inner with entries := inner.entries.erase pageId, order := inner.order.filter (· ≠ pageId) }

def invalidateFrom (inner : CacheInner) (fromPage : UInt64) : CacheInner :=
  { inner with
    entries := inner.entries.filterKeys (· < fromPage)
    order := inner.order.filter (· < fromPage) }

end PageCache

open PageCache

inductive CacheOp where
  | load (pageId : UInt64) (read : Except String Bytes)
  | put (pageId : UInt64) (data : Bytes)
  | invalidate (pageId : UInt64)
  | invalidateFrom (fromPage : UInt64)

def CacheInner.step (inner : CacheInner) : CacheOp → CacheInner
  | .load pageId read => (getOrLoad inner pageId read).2
  | .put pageId data => putDirty inner pageId data
  | .invalidate pageId => PageCache.invalidate inner pageId
  | .invalidateFrom fromPage => PageCache.invalidateFrom inner fromPage

def CacheInner.stored (inner : CacheInner) (latest : UInt64 → Option Bytes) :
    CacheOp → UInt64 → Option Bytes
  | .load pageId (.ok data) => fun id =>
    if id = pageId ∧ pageId ∉ inner.entries then some data else latest id
  | .load _ (.error _) => latest
  | .put pageId data => fun id => if id = pageId then some data else latest id
  | .invalidate pageId => fun id => if id = pageId then none else latest id
  | .invalidateFrom fromPage => fun id => if id < fromPage then latest id else none

def PageCache.run (capacity : Nat) (ops : List CacheOp) : CacheInner × (UInt64 → Option Bytes) :=
  ops.foldl (fun (inner, latest) op => (inner.step op, inner.stored latest op))
    (new capacity, fun _ => none)

structure CacheInner.Listed (entries : Finmap fun _ : UInt64 => CacheEntry) (order : List UInt64) :
    Prop where
  nodup : order.Nodup
  same : ∀ id, id ∈ order ↔ id ∈ entries

structure CacheInner.Coherent (capacity : Nat) (inner : CacheInner)
    (latest : UInt64 → Option Bytes) : Prop where
  sized : inner.capacity = capacity
  listed : Listed inner.entries inner.order
  within : inner.order.length ≤ capacity
  held : ∀ id entry, inner.entries.lookup id = some entry → latest id = some entry.data

namespace CacheInner

variable {entries : Finmap fun _ : UInt64 => CacheEntry} {order : List UInt64} {inner : CacheInner}
  {latest : UInt64 → Option Bytes} {pageId : UInt64} {entry : CacheEntry} {capacity : Nat}

theorem Listed.card (listed : Listed entries order) : entries.keys.card = order.length := by
  rw [← toFinset_card_of_nodup listed.nodup]
  congr 1
  ext id
  rw [mem_toFinset, listed.same, Finmap.mem_keys]

theorem evictPages_spec (positive : 0 < capacity) (listed : Listed entries order) :
    let (entries', order') := evictPages capacity entries order
    Listed entries' order' ∧ order'.length < capacity ∧
      ∀ id, id ∈ entries' → entries'.lookup id = entries.lookup id := by
  fun_induction evictPages capacity entries order with
  | case1 entries => exact ⟨listed, positive, fun _ _ => rfl⟩
  | case2 entries id order full ih =>
    obtain ⟨notIn, nodup⟩ := nodup_cons.mp listed.nodup
    have rest : Listed (entries.erase id) order := by
      refine ⟨nodup, fun other => ?_⟩
      rw [Finmap.mem_erase, ← listed.same, mem_cons]
      constructor
      · intro member
        exact ⟨fun same => notIn (same ▸ member), .inr member⟩
      · rintro ⟨ne, same | member⟩
        · exact absurd same ne
        · exact member
    obtain ⟨listed', less, kept⟩ := ih rest
    refine ⟨listed', less, fun other member => ?_⟩
    rw [kept other member, Finmap.lookup_erase_ne]
    rintro rfl
    have gone := kept other member
    rw [Finmap.lookup_erase, Finmap.lookup_eq_none] at gone
    exact gone member
  | case3 entries id order room =>
    rw [listed.card] at room
    exact ⟨listed, by omega, fun _ _ => rfl⟩

theorem Listed.insert (listed : Listed entries order) (fresh : pageId ∉ order) :
    Listed (entries.insert pageId entry) (order ++ [pageId]) := by
  refine ⟨?_, fun id => ?_⟩
  · rw [nodup_append]
    exact ⟨listed.nodup, nodup_singleton _, fun a inOrder b same => by
      rintro rfl
      exact fresh (mem_singleton.mp same ▸ inOrder)⟩
  · rw [Finmap.mem_insert, mem_append, mem_singleton, listed.same, or_comm]

section

variable (coherent : inner.Coherent capacity latest)
include coherent

theorem Coherent.add (positive : 0 < capacity) (missing : pageId ∉ inner.entries) (entry : CacheEntry) :
    (inner.add pageId entry).Coherent capacity fun id =>
      if id = pageId then some entry.data else latest id := by
  have spec := evictPages_spec positive coherent.listed
  unfold CacheInner.add
  rw [coherent.sized]
  generalize evictPages capacity inner.entries inner.order = left at spec
  obtain ⟨entries, order⟩ := left
  obtain ⟨listed, less, kept⟩ := spec
  have fresh : pageId ∉ order := by
    rw [listed.same]
    intro member
    have found := kept pageId member
    rw [Finmap.lookup_eq_none.mpr missing, Finmap.lookup_eq_none] at found
    exact found member
  refine ⟨rfl, listed.insert fresh, (length_append ..).trans_le less, fun id found => ?_⟩
  rw [Finmap.lookup_insert_eq_ite]
  split
  · intro same
    rw [Option.some.inj same]
  · intro there
    rw [kept id (Finmap.mem_of_lookup_eq_some there)] at there
    exact coherent.held id found there

theorem Coherent.touch (there : pageId ∈ inner.entries) (data : Bytes) :
    ({ inner with entries := inner.entries.insert pageId ⟨data, true⟩ }.touch pageId).Coherent
      capacity fun id => if id = pageId then some data else latest id := by
  have inOrder := (coherent.listed.same pageId).mpr there
  have keys : ∀ id, id ∈ inner.order ↔ id ∈ inner.entries.insert pageId ⟨data, true⟩ := by
    intro id
    rw [Finmap.mem_insert, coherent.listed.same]
    exact ⟨.inr, fun found => found.elim (fun same => same ▸ there) fun found => found⟩
  have held : ∀ id entry, (inner.entries.insert pageId ⟨data, true⟩).lookup id = some entry →
      (if id = pageId then some data else latest id) = some entry.data := by
    intro id entry
    rw [Finmap.lookup_insert_eq_ite]
    split
    · rintro ⟨⟩
      rfl
    · exact coherent.held id entry
  unfold CacheInner.touch
  rw [if_pos inOrder]
  split
  · exact ⟨coherent.sized, ⟨coherent.listed.nodup, keys⟩, coherent.within, held⟩
  have perm : (inner.order.erase pageId ++ [pageId]).Perm inner.order :=
    perm_append_singleton _ _ |>.trans (perm_cons_erase inOrder).symm
  refine ⟨coherent.sized, ⟨perm.nodup_iff.mpr coherent.listed.nodup, fun id => ?_⟩, ?_, held⟩
  · rw [perm.mem_iff, keys]
  · rw [perm.length_eq]
    exact coherent.within

theorem Coherent.retain (keep : UInt64 → Bool)
    (kept : ∀ id, entries.lookup id = if keep id then inner.entries.lookup id else none) :
    Coherent capacity { inner with entries, order := inner.order.filter keep }
      fun id => if keep id then latest id else none := by
  refine ⟨coherent.sized, ⟨coherent.listed.nodup.filter _, fun id => ?_⟩,
    (length_filter_le _ _).trans coherent.within, fun id entry => ?_⟩
  · rw [mem_filter, coherent.listed.same, ← Finmap.lookup_isSome, ← Finmap.lookup_isSome, kept]
    cases keep id <;> simp
  · rw [kept]
    split
    · exact coherent.held id entry
    · exact nofun

theorem Coherent.step (positive : 0 < capacity) (op : CacheOp) :
    (inner.step op).Coherent capacity (inner.stored latest op) := by
  cases op with
  | load pageId read =>
    simp only [CacheInner.step, getOrLoad]
    cases found : inner.entries.lookup pageId with
    | some entry =>
      have there := Finmap.mem_of_lookup_eq_some found
      cases read with
      | error e => exact coherent
      | ok data => simpa only [stored, there, not_true_eq_false, and_false, if_false] using coherent
    | none =>
      have missing := Finmap.lookup_eq_none.mp found
      cases read with
      | error e => exact coherent
      | ok data => simpa only [stored, missing, not_false_eq_true, and_true] using
          coherent.add positive missing ⟨data, false⟩
  | put pageId data =>
    simp only [CacheInner.step, putDirty]
    split
    · next there => exact coherent.touch there data
    · next missing => exact coherent.add positive missing ⟨data, true⟩
  | invalidate pageId =>
    have kept : ∀ id, (inner.entries.erase pageId).lookup id =
        if decide (id ≠ pageId) then inner.entries.lookup id else none := by
      intro id
      by_cases same : id = pageId
      · subst same
        simp
      · simp [same, Finmap.lookup_erase_ne]
    simpa [stored, CacheInner.step, PageCache.invalidate] using coherent.retain _ kept
  | invalidateFrom fromPage =>
    simpa [stored, CacheInner.step, PageCache.invalidateFrom] using
      coherent.retain (· < fromPage) (Finmap.lookup_filterKeys _ _)

end

end CacheInner

theorem PageCache.run_coherent {capacity : Nat} (positive : 0 < capacity) (ops : List CacheOp) :
    (run capacity ops).1.Coherent capacity (run capacity ops).2 := by
  have start : (new capacity).Coherent capacity fun _ => none :=
    ⟨rfl, ⟨nodup_nil, by simp [new, Finmap.notMem_empty]⟩, Nat.zero_le _, by simp [new]⟩
  unfold run
  generalize new capacity = inner at start ⊢
  generalize (fun _ => none : UInt64 → Option Bytes) = latest at start ⊢
  induction ops generalizing inner latest with
  | nil => exact start
  | cons op ops ih => exact ih _ _ (start.step positive op)

theorem PageCache.cache_reads_latest (capacity : Nat) (positive : 0 < capacity) (ops : List CacheOp) :
    let inner := (run capacity ops).1
    inner.order.Nodup ∧ (∀ id, id ∈ inner.order ↔ id ∈ inner.entries) ∧
      inner.entries.keys.card ≤ capacity ∧
      ∀ id ∈ inner.entries, ∀ read, ∃ data, (run capacity ops).2 id = some data ∧
        getOrLoad inner id read = (.ok data, inner) := by
  intro inner
  have coherent := run_coherent positive ops
  refine ⟨coherent.listed.nodup, coherent.listed.same, ?_, fun id member read => ?_⟩
  · rw [coherent.listed.card]
    exact coherent.within
  · obtain ⟨entry, found⟩ := Finmap.mem_iff.mp member
    refine ⟨entry.data, coherent.held id entry found, ?_⟩
    simp only [getOrLoad, found]

theorem PageCache.cache_reads_latest_evicted :
    let state := run 1 [.put 1 [1], .load 2 (.ok [2]), .put 2 [3]]
    state.1.order = [2] ∧ ∀ read, ∃ data, state.2 2 = some data ∧
      getOrLoad state.1 2 read = (.ok data, state.1) :=
  ⟨rfl, (cache_reads_latest 1 Nat.one_pos _).2.2.2 2 (by decide)⟩

end ViciaDb
