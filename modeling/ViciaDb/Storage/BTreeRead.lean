import ViciaDb.Storage.BTreeShape

namespace ViciaDb.BTree

open ByteReader Visitor List
open Leaf (entries)

variable {κ σ : Type} {kind : IndexKind κ} {pages : Pages}

def Leaf.run (leaf : Leaf κ) : Nat × List (κ × FactRef) := (leaf.pageId, leaf.entries)

/-- The pages hold a tree with the given entries, or one leaf without entries. `bound` is above all its
    pages, and `reach` bounds what a read follows. -/
inductive Holds (kind : IndexKind κ) (pages : Pages) (reach : Nat) :
    Nat → List (κ × FactRef) → Prop
  | empty {root : Nat} (chained : Chained kind pages [(root, [])]) (enough : 0 < reach) :
    Holds kind pages reach root []
  | node {bound height : Nat} {node : Node κ} (spans : Spans kind pages bound height node)
    (chained : Chained kind pages (node.leaves.map Leaf.run))
    (apart : (node.leaves.map Leaf.pageId).Nodup) (low : height < reach)
    (few : node.leaves.length ≤ reach) :
    Holds kind pages reach node.pageId (node.leaves.flatMap Leaf.entries)

theorem Chained.suffix {front back : List (Nat × List (κ × FactRef))}
    (chained : Chained kind pages (front ++ back)) : Chained kind pages back := by
  induction front with
  | nil => exact chained
  | cons leaf front ih => exact ih chained.2.2

theorem runEntries_map_run (leaves : List (Leaf κ)) :
    runEntries (leaves.map Leaf.run) = leaves.flatMap entries := by
  rw [runEntries, flatMap_map]
  rfl

section Sorted

variable {leaves before after : List (Leaf κ)} {leaf : Leaf κ} {start : κ}

theorem SortedFor.divided (sorted : SortedFor kind start (leaves.flatMap entries)) :
    (∀ leaf ∈ leaves, SortedFor kind start leaf.entries) ∧
      leaves.Pairwise fun a b => ∀ e ∈ a.entries, ∀ e' ∈ b.entries, Precedes kind start e e' :=
  pairwise_flatMap.mp sorted

theorem SortedFor.ascending (sorted : SortedFor kind start (leaves.flatMap entries)) :
    Ascending kind leaves :=
  sorted.divided.2.imp fun less =>
    (less _ (by simp [entries]) _ (by simp [entries])).1

section

variable (sorted : SortedFor kind start ((before ++ leaf :: after).flatMap Leaf.entries))
include sorted

theorem below_of_located (located : Located kind start before leaf after) :
    ∀ e ∈ before.flatMap entries, below kind start e = true := by
  intro e member
  obtain ⟨earlier, inBefore, inLeaf⟩ := mem_flatMap.mp member
  have order := (pairwise_append.mp sorted.divided.2).2.2 earlier inBefore leaf (by simp) e
    inLeaf leaf.first (by simp [entries])
  exact order.below (located.1 (ne_nil_of_mem inBefore))

theorem not_below_of_located (located : Located kind start before leaf after) :
    ∀ e ∈ after.flatMap entries, below kind start e = false := by
  intro e member
  obtain ⟨later, inAfter, inLeaf⟩ := mem_flatMap.mp member
  have larger := located.2 later inAfter
  have least : (kind.cmp later.key e.1).isLE = true := by
    rcases mem_cons.mp inLeaf with rfl | inLeaf
    · have same : kind.cmp later.key later.first.1 = .eq := Std.ReflCmp.compare_self
      rw [same]
      rfl
    · have inner := sorted.divided.1 later (by simp [inAfter])
      exact ((pairwise_cons.mp inner).1 e inLeaf).1
  have order : kind.cmp start e.1 = .lt := Std.TransCmp.lt_of_lt_of_isLE larger least
  rw [below, Std.OrientedCmp.gt_of_lt order]
  rfl

theorem shown_of_located (apart : ((before ++ leaf :: after).map Leaf.pageId).Nodup)
    (located : Located kind start before leaf after) :
    ((leaf :: after).map Leaf.run).flatMap (shown kind start leaf.pageId) =
      ((before ++ leaf :: after).flatMap entries).dropWhile (below kind start) := by
  have others : (after.map Leaf.run).flatMap (shown kind start leaf.pageId) = after.flatMap entries := by
    rw [flatMap_map]
    apply flatMap_congr
    intro other member
    rw [shown, if_neg]
    · rfl
    · intro same
      rw [map_append, map_cons] at apart
      have := (nodup_cons.mp (nodup_append.mp apart).2.1).1
      exact this (same ▸ mem_map_of_mem member)
  have first : shown kind start leaf.pageId leaf.run = leaf.entries.dropWhile (below kind start) :=
    if_pos rfl
  rw [map_cons, flatMap_cons, others, first, flatMap_append, flatMap_cons,
    dropWhile_append_of_pos (below_of_located sorted located), dropWhile_append]
  split
  · rename_i nothing
    rw [isEmpty_iff.mp nothing, nil_append]
    cases rest : after.flatMap entries with
    | nil => rfl
    | cons e es =>
      have large := not_below_of_located sorted located e (by rw [rest]; simp)
      rw [dropWhile_cons, if_neg (by simp [large])]
  · rfl

end

end Sorted

section Reads

variable {reach root : Nat} {entries : List (κ × FactRef)} {start : κ}

variable (holds : Holds kind pages reach root entries)

include holds in
theorem streamAllEntries_of_holds (fuel : Nat) (enough : reach ≤ fuel) :
    streamAllEntries kind fuel pages root = .ok entries := by
  cases holds with
  | empty chained enough' =>
    obtain ⟨fuel, rfl⟩ : ∃ n, fuel = n + 1 := ⟨fuel - 1, by omega⟩
    obtain ⟨page, pageType, there, reads⟩ := chained.1
    have leftmost : findLeftmostLeaf pages (fuel + 1) root = .ok root := by
      rw [findLeftmostLeaf, Pages.load, there]
      simp only [bind, Except.bind, reads.first, reads.isLeaf, if_true]
      rfl
    rw [streamAllEntries, leftmost]
    exact streamLeaves_run chained (by simp) (fuel + 1) (by simp)
  | node spans chained apart low few =>
    rw [streamAllEntries, findLeftmostLeaf_spec spans fuel (by omega), ← runEntries_map_run]
    exact streamLeaves_run chained (by simp [Node.leaves]) fuel (by rw [length_map]; omega)

variable (sorted : SortedFor kind start entries)

include holds sorted in
theorem Holds.startLeaf (fuel : Nat) (enough : reach ≤ fuel) :
    ∃ startLeaf leaves, findLeafForKey kind pages start fuel root = .ok startLeaf ∧
      firstId leaves = startLeaf ∧ leaves ≠ [] ∧ leaves.length ≤ fuel ∧ Chained kind pages leaves ∧
      (∀ leaf ∈ leaves, SortedFor kind start leaf.2) ∧
      leaves.flatMap (shown kind start startLeaf) = entries.dropWhile (below kind start) := by
  cases holds with
  | empty chained enough' =>
    obtain ⟨fuel, rfl⟩ : ∃ n, fuel = n + 1 := ⟨fuel - 1, by omega⟩
    obtain ⟨page, pageType, there, reads⟩ := chained.1
    refine ⟨root, [(root, [])], ?_, rfl, by simp, by simp, chained, ?_, by simp [shown]⟩
    · rw [findLeafForKey, Pages.load, there]
      simp only [bind, Except.bind, reads.first, reads.isLeaf, if_true]
      rfl
    · intro leaf member
      obtain rfl : leaf = (root, []) := by simpa using member
      exact List.Pairwise.nil
  | node spans chained apart low few =>
    obtain ⟨before, leaf, after, split, found, located⟩ :=
      findLeafForKey_spec start spans sorted.ascending fuel (by omega)
    rw [split] at sorted chained apart few ⊢
    refine ⟨leaf.pageId, (leaf :: after).map Leaf.run, found, rfl, by simp, ?_, ?_, ?_,
      shown_of_located sorted apart located⟩
    · simp only [length_append, length_cons] at few
      simp only [length_map, length_cons]
      omega
    · rw [map_append] at chained
      exact chained.suffix
    · intro run member
      obtain ⟨other, inLeaves, rfl⟩ := mem_map.mp member
      exact sorted.divided.1 other (by simp [mem_cons.mp inLeaves])

include holds sorted in
theorem rangeScanEntries_of_holds (stop : Option κ) (fuel : Nat) (enough : reach ≤ fuel) :
    rangeScanEntries kind fuel pages root start stop =
      .ok (entries.filter (inRange kind start stop)) := by
  obtain ⟨startLeaf, leaves, found, first, some, few, chained, inner, shows⟩ :=
    holds.startLeaf sorted fuel enough
  rw [rangeScanEntries, found, sorted.filter_inRange, ← shows]
  simp only [bind, Except.bind]
  rw [← first]
  exact collectLeaves_run chained inner some fuel few

include holds sorted in
theorem Holds.visit {loop : Nat → Nat → Nat → σ → Except String (Bool × σ)} {stop : Option κ}
    {visit : σ → κ × FactRef → Except String (Bool × σ)}
    (isLoop : ∀ startLeaf, LeafLoop kind pages start stop startLeaf visit (loop startLeaf))
    (fuel : Nat) (enough : reach ≤ fuel) (s : σ) :
    (findLeafForKey kind pages start fuel root >>= fun startLeaf => loop startLeaf fuel startLeaf s) =
      visitList visit s (entries.filter (inRange kind start stop)) := by
  obtain ⟨startLeaf, leaves, found, first, some, few, chained, inner, shows⟩ :=
    holds.startLeaf sorted fuel enough
  have run := (isLoop startLeaf).run chained inner some fuel few s
  rw [found, sorted.filter_inRange, ← shows, ← map_visitUntil]
  rw [first] at run
  exact run

include holds sorted in
theorem visitRangeEntries_of_holds (stop : Option κ) (fuel : Nat)
    (enough : reach ≤ fuel) (visit : σ → κ × FactRef → Except String (Bool × σ)) (s : σ) :
    visitRangeEntries kind fuel pages root start stop visit s =
      visitList visit s (entries.filter (inRange kind start stop)) :=
  holds.visit sorted (fun _ => leafLoop_visitLeaves) fuel enough s

theorem visitCurrentRange_of_holds (name : String) (holds : Holds kind pages reach root entries)
    (sorted : SortedFor kind start entries) (stop : Option κ) (fuel : Nat)
    (enough : reach ≤ fuel) (visit : σ → κ × FactRef → Except String (Bool × σ)) (s : σ) :
    visitCurrentRange kind name fuel pages root start stop visit s =
      visitList visit s (entries.filter (inRange kind start stop)) :=
  holds.visit sorted (fun _ => leafLoop_visitCurrentLeaves) fuel enough s

end Reads

end ViciaDb.BTree
