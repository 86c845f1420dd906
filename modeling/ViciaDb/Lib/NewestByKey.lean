import Mathlib.Data.List.Perm.Basic
import Mathlib.Data.List.Nodup
import Mathlib.Order.Lattice

namespace List

open List

variable {α κ σ : Type} [DecidableEq κ] [LinearOrder σ]

def newestAfter (key : α → κ) (stamp : α → σ) (earlier : List α) : List α → List α
  | [] => []
  | item :: later =>
    if earlier.any (fun other => key other = key item ∧ stamp item ≤ stamp other) ||
        later.any (fun other => key other = key item ∧ stamp item < stamp other) then
      newestAfter key stamp (item :: earlier) later
    else item :: newestAfter key stamp (item :: earlier) later

variable {key : α → κ} {stamp : α → σ}

theorem newestAfter_sublist (earlier items : List α) :
    (newestAfter key stamp earlier items).Sublist items := by
  induction items generalizing earlier with
  | nil => exact List.Sublist.refl _
  | cons item later ih =>
    rw [newestAfter]
    split
    · exact (ih _).cons _
    · exact (ih _).cons_cons _

theorem newestAfter_newest {earlier items : List α} {item : α}
    (kept : item ∈ newestAfter key stamp earlier items) :
    (∀ other ∈ earlier, key other = key item → stamp other < stamp item) ∧
      ∀ other ∈ items, key other = key item → stamp other ≤ stamp item := by
  induction items generalizing earlier with
  | nil => cases kept
  | cons first later ih =>
    rw [newestAfter] at kept
    split at kept
    · obtain ⟨before, after⟩ := ih kept
      grind
    rename_i free
    rcases mem_cons.mp kept with rfl | kept
    · simp only [Bool.or_eq_true, any_eq_true, decide_eq_true_eq] at free
      grind
    obtain ⟨before, after⟩ := ih kept
    clear ih free
    refine ⟨fun other member => before other (mem_cons_of_mem _ member), ?_⟩
    intro other member same
    rcases mem_cons.mp member with rfl | member
    · exact le_of_lt (before other (by simp) same)
    · exact after other member same

theorem exists_newestAfter (earlier items : List α) {item : α} (member : item ∈ items) :
    (∃ kept ∈ newestAfter key stamp earlier items, key kept = key item) ∨
      ∃ other ∈ earlier, key other = key item ∧
        ∀ later ∈ items, key later = key item → stamp later ≤ stamp other := by
  induction items generalizing earlier item with
  | nil => cases member
  | cons first later ih =>
    rw [newestAfter]
    split
    · rename_i dropped
      simp only [Bool.or_eq_true, any_eq_true, decide_eq_true_eq] at dropped
      -- The next item of this key decides; without one the dropped item was covered from before.
      by_cases next : ∃ other ∈ later, key other = key item
      · obtain ⟨other, inLater, same⟩ := next
        have rest := ih (first :: earlier) inLater
        grind
      · have : first = item := by grind
        grind
    · by_cases here : key first = key item
      · exact Or.inl ⟨first, by simp, here⟩
      have inLater : item ∈ later := by grind
      rcases ih (first :: earlier) inLater with ⟨kept, inResult, same⟩ | ⟨other, before, same, covers⟩
      · exact Or.inl ⟨kept, mem_cons_of_mem _ inResult, same⟩
      · refine Or.inr ⟨other, by grind, same, ?_⟩
        intro next member sameNext
        rcases mem_cons.mp member with rfl | member
        · exact absurd sameNext here
        · exact covers next member sameNext

theorem nodup_map_newestAfter (earlier items : List α) :
    ((newestAfter key stamp earlier items).map key).Nodup := by
  induction items generalizing earlier with
  | nil => exact nodup_nil
  | cons item later ih =>
    rw [newestAfter]
    split
    · exact ih _
    rename_i free
    rw [map_cons, nodup_cons]
    refine ⟨?_, ih _⟩
    intro again
    obtain ⟨other, kept, same⟩ := mem_map.mp again
    have newer := (newestAfter_newest kept).1 item (by simp) same.symm
    have inLater := (newestAfter_sublist _ _).mem kept
    simp only [Bool.or_eq_true, any_eq_true, decide_eq_true_eq] at free
    exact free (Or.inr ⟨other, inLater, same, newer⟩)

def newestBy (key : α → κ) (stamp : α → σ) (items : List α) : List α :=
  newestAfter key stamp [] items

theorem newestBy_sublist (items : List α) : (newestBy key stamp items).Sublist items :=
  newestAfter_sublist [] items

theorem newestBy_newest {items : List α} {item : α} (kept : item ∈ newestBy key stamp items) :
    ∀ other ∈ items, key other = key item → stamp other ≤ stamp item :=
  (newestAfter_newest kept).2

theorem nodup_map_newestBy (items : List α) : ((newestBy key stamp items).map key).Nodup :=
  nodup_map_newestAfter [] items

theorem mem_map_newestBy {items : List α} {k : κ} :
    k ∈ (newestBy key stamp items).map key ↔ k ∈ items.map key := by
  constructor
  · exact fun kept => ((newestBy_sublist items).map key).mem kept
  intro present
  obtain ⟨item, member, rfl⟩ := mem_map.mp present
  obtain ⟨kept, inResult, same⟩ | ⟨_, none, _⟩ :
      (∃ kept ∈ newestBy key stamp items, key kept = key item) ∨ _ :=
    exists_newestAfter [] items member
  · exact mem_map.mpr ⟨kept, inResult, same⟩
  · cases none

theorem newestBy_of_nodup {items : List α} (nodup : (items.map key).Nodup) :
    newestBy key stamp items = items := by
  apply (newestBy_sublist items).eq_of_length_le
  have subset : items.map key ⊆ (newestBy key stamp items).map key :=
    fun k present => mem_map_newestBy.mpr present
  simpa using (subperm_of_subset nodup subset).length_le

end List
