import Mathlib.Data.List.Induction
import Mathlib.Data.List.Sort

namespace SortedMap

open List Std

variable {κ β : Type}

def find (cmp : κ → κ → Ordering) (key : κ) (entries : List (κ × β)) : Option β :=
  (entries.find? fun entry => cmp key entry.1 = .eq).map Prod.snd

def insert (cmp : κ → κ → Ordering) (key : κ) (value : β) : List (κ × β) → List (κ × β)
  | [] => [(key, value)]
  | (other, old) :: rest =>
    match cmp key other with
    | .lt => (key, value) :: (other, old) :: rest
    | .eq => (other, value) :: rest
    | .gt => (other, old) :: insert cmp key value rest

def Sorted (cmp : κ → κ → Ordering) (entries : List (κ × β)) : Prop :=
  entries.Pairwise fun a b => cmp a.1 b.1 = .lt

variable {cmp : κ → κ → Ordering} [TransCmp cmp] {key : κ} {value : β}

variable {entries : List (κ × β)}

theorem mem_insert (sorted : Sorted cmp entries)
    (same : ∀ entry ∈ entries, cmp key entry.1 = .eq → entry.1 = key) (entry : κ × β) :
    entry ∈ insert cmp key value entries ↔
      entry = (key, value) ∨ entry ∈ entries ∧ entry.1 ≠ key := by
  have notLt : cmp key key ≠ .lt := by simp [ReflCmp.compare_self]
  induction entries with
  | nil => simp [insert]
  | cons first rest ih =>
    obtain ⟨other, old⟩ := first
    obtain ⟨least, sorted⟩ := pairwise_cons.mp sorted
    have ih := ih sorted fun entry member => same entry (by simp [member])
    rw [insert]
    split
    · rename_i order
      have apart : ∀ entry ∈ (other, old) :: rest, entry.1 ≠ key := by
        intro entry member
        rcases mem_cons.mp member with rfl | member
        · rintro rfl
          exact notLt order
        · rintro rfl
          exact notLt (TransCmp.lt_trans order (least entry member))
      grind
    · rename_i order
      obtain rfl := same (other, old) (by simp) order
      have apart : ∀ entry ∈ rest, entry.1 ≠ other := by
        rintro entry member rfl
        exact notLt (least entry member)
      grind
    · rename_i order
      have : other ≠ key := by
        rintro rfl
        simp [ReflCmp.compare_self] at order
      grind

omit [TransCmp cmp] in
theorem insert_perm (fresh : ∀ entry ∈ entries, cmp key entry.1 ≠ .eq) :
    (insert cmp key value entries).Perm ((key, value) :: entries) := by
  induction entries with
  | nil => exact .refl _
  | cons first rest ih =>
    obtain ⟨other, old⟩ := first
    rw [insert]
    split
    · exact .refl _
    · rename_i same
      exact absurd same (fresh (other, old) (by simp))
    · exact ((ih fun entry member => fresh entry (by simp [member])).cons _).trans (.swap _ _ _)

theorem of_mem_insert {entry : κ × β} (member : entry ∈ insert cmp key value entries) :
    entry ∈ entries ∨ entry.2 = value ∧ cmp key entry.1 = .eq := by
  induction entries with
  | nil =>
    rw [insert, mem_singleton] at member
    exact .inr ⟨congrArg Prod.snd member, member ▸ ReflCmp.compare_self⟩
  | cons first rest ih =>
    rw [insert] at member
    split at member
    · rcases mem_cons.mp member with rfl | member
      · exact .inr ⟨rfl, ReflCmp.compare_self⟩
      · exact .inl member
    · rename_i same
      rcases mem_cons.mp member with rfl | member
      · exact .inr ⟨rfl, same⟩
      · exact .inl (mem_cons_of_mem _ member)
    · rcases mem_cons.mp member with rfl | member
      · exact .inl mem_cons_self
      · exact (ih member).imp_left (mem_cons_of_mem _)

theorem keys_of_insert (cmp : κ → κ → Ordering) [TransCmp cmp] (key : κ) (value : β)
    (entries : List (κ × β)) :
    (∃ entry ∈ insert cmp key value entries, cmp key entry.1 = .eq) ∧
      ∀ old ∈ entries, ∃ entry ∈ insert cmp key value entries, entry.1 = old.1 := by
  induction entries with
  | nil => exact ⟨⟨(key, value), mem_singleton.mpr rfl, ReflCmp.compare_self⟩, by simp⟩
  | cons first rest ih =>
    rw [insert]
    split
    · exact ⟨⟨(key, value), by simp, ReflCmp.compare_self⟩,
        fun old member => ⟨old, mem_cons_of_mem _ member, rfl⟩⟩
    · rename_i same
      refine ⟨⟨_, mem_cons_self, same⟩, fun old member => ?_⟩
      rcases mem_cons.mp member with rfl | member
      · exact ⟨_, mem_cons_self, rfl⟩
      · exact ⟨old, mem_cons_of_mem _ member, rfl⟩
    · obtain ⟨⟨entry, filed, same⟩, kept⟩ := ih
      refine ⟨⟨entry, mem_cons_of_mem _ filed, same⟩, fun old member => ?_⟩
      rcases mem_cons.mp member with rfl | member
      · exact ⟨_, mem_cons_self, rfl⟩
      · obtain ⟨entry, inRest, known⟩ := kept old member
        exact ⟨entry, mem_cons_of_mem _ inRest, known⟩

theorem sorted_insert {entries : List (κ × β)} (sorted : Sorted cmp entries) :
    Sorted cmp (insert cmp key value entries) := by
  induction entries with
  | nil => simp [insert, Sorted]
  | cons first rest ih =>
    obtain ⟨other, old⟩ := first
    obtain ⟨least, sorted⟩ := pairwise_cons.mp sorted
    rw [insert]
    split
    · rename_i order
      refine pairwise_cons.mpr ⟨?_, pairwise_cons.mpr ⟨least, sorted⟩⟩
      intro entry member
      rcases mem_cons.mp member with rfl | member
      · exact order
      · exact TransCmp.lt_trans order (least entry member)
    · exact pairwise_cons.mpr ⟨least, sorted⟩
    · rename_i order
      refine pairwise_cons.mpr ⟨?_, ih sorted⟩
      intro entry member
      rcases of_mem_insert member with inRest | ⟨-, same⟩
      · exact least entry inRest
      · rw [← TransCmp.congr_right same]
        exact OrientedCmp.lt_of_gt order

theorem find_eq_some_iff (sorted : Sorted cmp entries)
    (same : ∀ entry ∈ entries, cmp key entry.1 = .eq → entry.1 = key) :
    find cmp key entries = some value ↔ (key, value) ∈ entries := by
  induction entries with
  | nil => simp [find]
  | cons first rest ih =>
    obtain ⟨other, old⟩ := first
    obtain ⟨least, sorted⟩ := pairwise_cons.mp sorted
    have ih := ih sorted fun entry member => same entry (by simp [member])
    by_cases here : cmp key other = .eq
    · obtain rfl := same (other, old) (by simp) here
      have absent : (other, value) ∉ rest := by
        intro member
        have := least _ member
        simp [ReflCmp.compare_self] at this
      simp only [find, List.find?_cons, here, decide_true, Option.map_some, Option.some.injEq,
        mem_cons, Prod.mk.injEq, true_and, absent, or_false]
      exact eq_comm
    · have different : ¬ (key = other ∧ value = old) := by
        rintro ⟨rfl, -⟩
        exact here ReflCmp.compare_self
      simp only [find, List.find?_cons, here, decide_false, mem_cons, Prod.mk.injEq, different,
        false_or] at ih ⊢
      exact ih

theorem Sorted.eq_of_mem {a b : List (κ × β)} (sortedA : Sorted cmp a) (sortedB : Sorted cmp b)
    (same : ∀ entry, entry ∈ a ↔ entry ∈ b) : a = b := by
  have nodup : ∀ entries : List (κ × β), Sorted cmp entries → entries.Nodup := by
    intro entries sorted
    refine sorted.imp ?_
    rintro x y less rfl
    simp [ReflCmp.compare_self] at less
  have perm : a.Perm b := (perm_ext_iff_of_nodup (nodup a sortedA) (nodup b sortedB)).mpr same
  refine List.Perm.eq_of_pairwise ?_ sortedA sortedB perm
  intro x y _ _ less greater
  simp [OrientedCmp.gt_of_lt less] at greater

theorem find_insert (cmp : κ → κ → Ordering) [TransCmp cmp] (key other : κ) (value : β)
    (entries : List (κ × β)) :
    find cmp key (insert cmp other value entries) =
      if cmp key other = .eq then some value else find cmp key entries := by
  induction entries with
  | nil => by_cases same : cmp key other = .eq <;> simp [find, insert, same]
  | cons first rest ih =>
    obtain ⟨k, old⟩ := first
    rw [insert]
    split
    · by_cases same : cmp key other = .eq <;> simp [find, same]
    · rename_i here
      have congr : cmp key k = cmp key other := TransCmp.congr_right (OrientedCmp.eq_symm here)
      by_cases same : cmp key other = .eq <;> simp [find, congr, same]
    · rename_i later
      by_cases same : cmp key other = .eq
      · have past : cmp key k = .gt := (TransCmp.congr_left same).trans later
        simp only [find, List.find?_cons, past, reduceCtorEq, decide_false] at ih ⊢
        rw [ih]
      · rw [if_neg same] at ih ⊢
        simp only [find, List.find?_cons] at ih ⊢
        split <;> simp_all

theorem find_foldl_insert {added : List (κ × β)} {entry : κ × β} (entries : List (κ × β))
    (distinct : added.Pairwise fun a b => cmp a.1 b.1 ≠ .eq) (member : entry ∈ added) :
    find cmp entry.1 (added.foldl (fun map entry => insert cmp entry.1 entry.2 map) entries) =
      some entry.2 := by
  induction added using List.reverseRecOn with
  | nil => cases member
  | append_singleton front last ih =>
    rw [foldl_append, foldl_cons, foldl_nil, find_insert]
    obtain ⟨distinct, -, apart⟩ := pairwise_append.mp distinct
    rcases mem_append.mp member with inFront | isLast
    · rw [if_neg (apart entry inFront last (by simp))]
      exact ih distinct inFront
    · rw [mem_singleton.mp isLast, if_pos ReflCmp.compare_self]

theorem exists_find_foldl_insert {added : List (κ × β)} {key : κ} (entries : List (κ × β))
    (member : key ∈ added.map Prod.fst) :
    ∃ value, find cmp key (added.foldl (fun map entry => insert cmp entry.1 entry.2 map) entries) =
      some value := by
  induction added using List.reverseRecOn with
  | nil => cases member
  | append_singleton front last ih =>
    rw [foldl_append, foldl_cons, foldl_nil, find_insert]
    split
    · exact ⟨_, rfl⟩
    · rename_i other
      rw [map_append, mem_append] at member
      refine ih (member.resolve_right fun isLast => other ?_)
      rw [mem_singleton.mp isLast]
      exact ReflCmp.compare_self

omit [TransCmp cmp] in
theorem exists_of_find {key : κ} {value : β} {entries : List (κ × β)}
    (found : find cmp key entries = some value) :
    ∃ entry ∈ entries, cmp key entry.1 = .eq ∧ entry.2 = value := by
  obtain ⟨entry, isFound, rfl⟩ := Option.map_eq_some_iff.mp found
  exact ⟨entry, List.mem_of_find?_eq_some isFound, by simpa using List.find?_some isFound, rfl⟩

end SortedMap
