import Mathlib.Data.Finmap

namespace Finmap

variable {κ α : Type} [DecidableEq κ]

def filterKeys (keep : κ → Bool) (row : Finmap fun _ : κ => α) : Finmap fun _ : κ => α where
  entries := row.entries.filter fun entry => keep entry.1
  nodupKeys := by
    rw [← Multiset.nodup_keys]
    exact Multiset.nodup_of_le (Multiset.map_le_map (Multiset.filter_le _ _))
      (Multiset.nodup_keys.mpr row.nodupKeys)

@[simp] theorem lookup_filterKeys (keep : κ → Bool) (row : Finmap fun _ : κ => α) (key : κ) :
    (row.filterKeys keep).lookup key = if keep key then row.lookup key else none := by
  apply Option.ext
  intro value
  by_cases kept : keep key = true
  · simp [kept, lookup_eq_some_iff, filterKeys]
  · simp [kept, lookup_eq_some_iff, filterKeys]

theorem lookup_union (left right : Finmap fun _ : κ => α) (key : κ) :
    (left ∪ right).lookup key = (left.lookup key).or (right.lookup key) := by
  cases found : left.lookup key with
  | none =>
    rw [lookup_union_right (lookup_eq_none.mp found)]
    rfl
  | some value =>
    rw [lookup_union_left (mem_of_lookup_eq_some found), found]
    rfl

theorem lookup_insert_eq_ite (row : Finmap fun _ : κ => α) (key key' : κ) (value : α) :
    (row.insert key value).lookup key' = if key' = key then some value else row.lookup key' := by
  by_cases same : key' = key
  · subst same
    simp
  · simp [same, lookup_insert_of_ne]

def mapValues {β : Type} (f : α → β) (row : Finmap fun _ : κ => α) : Finmap fun _ : κ => β where
  entries := row.entries.map fun entry => ⟨entry.1, f entry.2⟩
  nodupKeys := by
    rw [← Multiset.nodup_keys]
    have same : Multiset.keys (row.entries.map fun entry =>
        (⟨entry.1, f entry.2⟩ : Sigma fun _ : κ => β)) = row.entries.keys := by
      simp [Multiset.keys]
    rw [same]
    exact Multiset.nodup_keys.mpr row.nodupKeys

@[simp] theorem lookup_mapValues {β : Type} (f : α → β) (row : Finmap fun _ : κ => α) (key : κ) :
    (row.mapValues f).lookup key = (row.lookup key).map f := by
  apply Option.ext
  intro value
  simp only [lookup_eq_some_iff, mapValues, Multiset.mem_map, Option.map_eq_some_iff]
  constructor
  · rintro ⟨⟨key', old⟩, member, same⟩
    cases same
    exact ⟨old, member, rfl⟩
  · rintro ⟨old, found, rfl⟩
    exact ⟨⟨key, old⟩, found, rfl⟩

end Finmap
