import Mathlib.Data.List.Perm.Basic
import Mathlib.Data.List.Sort
import Mathlib.Data.Nat.Log
import ViciaDb.Lib.MergeScan

namespace SortedRuns

open List Std
open TransCmp (isLE_trans)

variable {α : Type} (cmp : α → α → Ordering)

abbrev Levels (α : Type) := List (Option (List α))

def sort (items : List α) : List α := items.mergeSort fun a b => (cmp a b).isLE

def mergeRuns (left right : List α) : List α := left.merge right fun a b => (cmp a b).isLE

def carry : Levels α → List α → Levels α
  | [], run => [some run]
  | none :: rest, run => some run :: rest
  | some existing :: rest, run => none :: carry rest (mergeRuns cmp existing run)

def insertAt : Nat → Levels α → List α → Levels α
  | 0, levels, run => carry cmp levels run
  | level + 1, [], run => none :: insertAt level [] run
  | level + 1, slot :: rest, run => slot :: insertAt level rest run

def insert (levels : Levels α) (run : List α) : Levels α :=
  if run.isEmpty then levels else insertAt cmp (Nat.clog 2 run.length) levels (sort cmp run)

def slice (below before : α → Bool) (run : List α) : List α :=
  (run.take (run.takeWhile before).length).drop (run.takeWhile below).length

def compareHeads (cursors : List (List α)) (selected index : Nat) : Nat :=
  match cursors[index]?, cursors[selected]? with
  | some (candidate :: _), some (current :: _) =>
    if (cmp candidate current).isLT then index else selected
  | _, _ => selected

def selectCursor (cursors : List (List α)) : Nat :=
  (List.range' 1 (cursors.length - 1)).foldl (compareHeads cmp cursors) 0

def swapRemove (cursors : List (List α)) (index : Nat) : List (List α) :=
  match cursors.getLast? with
  | some last => (cursors.set index last).dropLast
  | none => cursors

def advance (cursors : List (List α)) (index : Nat) (rest : List α) : List (List α) :=
  if rest.isEmpty then swapRemove cursors index else cursors.set index rest

def drain (maxEntries : Nat) : Nat → List (List α) → List α → List α × Bool
  | 0, _, result => (result, false)
  | fuel + 1, cursors, result =>
    let selected := selectCursor cmp cursors
    match cursors[selected]? with
    | some (a :: rest) =>
      if maxEntries < result.length + 1 then (result ++ [a], true)
      else drain maxEntries fuel (advance cursors selected rest) (result ++ [a])
    | _ => (result, false)

def range (levels : Levels α) (below before : α → Bool) (maxEntries : Nat) : List α × Bool :=
  let cursors := ((levels.filterMap id).map (slice below before)).filter fun run => !run.isEmpty
  drain cmp maxEntries (cursors.flatten.length + 1) cursors []

def items (levels : Levels α) : List α := (levels.filterMap id).flatten

def Sorted (run : List α) : Prop := run.Pairwise fun a b => (cmp a b).isLE = true

def AllSorted (levels : Levels α) : Prop := ∀ run ∈ levels.filterMap id, Sorted cmp run

section Slice

variable {cmp} {run : List α}

def Closed (cmp : α → α → Ordering) (p : α → Bool) : Prop :=
  ∀ a b, (cmp a b).isLE = true → p b = true → p a = true

theorem takeWhile_eq_filter {p : α → Bool} (closed : Closed cmp p) (sorted : Sorted cmp run) :
    run.takeWhile p = run.filter p :=
  (List.filter_eq_takeWhile (sorted.imp fun {a b} le => closed a b le)).1.symm

theorem slice_eq_filter {below before : α → Bool} (lower : Closed cmp below) (upper : Closed cmp before)
    (sorted : Sorted cmp run) : slice below before run = run.filter fun a => !below a && before a := by
  induction run with
  | nil => rfl
  | cons a run ih =>
    have parts := pairwise_cons.mp sorted
    cases first : below a with
    | true =>
      rw [filter_cons_of_neg (by simp [first]), ← ih parts.2, slice, takeWhile_cons_of_pos first]
      cases second : before a with
      | true =>
        rw [takeWhile_cons_of_pos second]
        rfl
      | false =>
        have none : run.takeWhile before = [] := by
          rw [takeWhile_eq_filter upper parts.2]
          refine filter_eq_nil_iff.mpr fun b member inside => ?_
          rw [upper a b (parts.1 b member) inside] at second
          cases second
        rw [takeWhile_cons_of_neg (by simp [second]), slice, none]
        simp
    | false =>
      have above : ∀ b ∈ a :: run, below b = false := by
        intro b member
        rcases mem_cons.mp member with rfl | member
        · exact first
        · refine Bool.eq_false_iff.mpr fun inside => ?_
          rw [lower a b (parts.1 b member) inside] at first
          cases first
      rw [slice, takeWhile_cons_of_neg (by simp [first]), length_nil, drop_zero,
        ← prefix_iff_eq_take.mp ( takeWhile_prefix _), takeWhile_eq_filter upper sorted]
      exact filter_congr fun b member => by simp [above b member]

end Slice

variable {cmp} [TransCmp cmp] {levels : Levels α} {run : List α}

section Insert

theorem carry_spec (sorted : AllSorted cmp levels) (runSorted : Sorted cmp run) :
    AllSorted cmp (carry cmp levels run) ∧ (items (carry cmp levels run)).Perm (items levels ++ run) := by
  induction levels generalizing run with
  | nil => simpa [carry, AllSorted, items] using runSorted
  | cons slot rest ih =>
    cases slot with
    | none =>
      refine ⟨fun other member => ?_, ?_⟩
      · rcases mem_cons.mp member with rfl | member
        · exact runSorted
        · exact sorted other member
      · exact perm_append_comm
    | some existing =>
      have parts := forall_mem_cons.mp sorted
      have merged : Sorted cmp (mergeRuns cmp existing run) :=
        pairwise_merge (fun _ _ _ => isLE_trans) isLE_or existing run parts.1 runSorted
      obtain ⟨restSorted, perm⟩ := ih parts.2 merged
      refine ⟨restSorted, perm.trans ?_⟩
      have both : (mergeRuns cmp existing run).Perm (existing ++ run) := merge_perm_append _
      show (items rest ++ mergeRuns cmp existing run).Perm (existing ++ items rest ++ run)
      refine (both.append_left _).trans ?_
      rw [← append_assoc]
      exact perm_append_comm.append_right run

theorem insertAt_spec (level : Nat) (sorted : AllSorted cmp levels) (runSorted : Sorted cmp run) :
    AllSorted cmp (insertAt cmp level levels run) ∧
      (items (insertAt cmp level levels run)).Perm (items levels ++ run) := by
  induction level generalizing levels with
  | zero => exact carry_spec sorted runSorted
  | succ level ih =>
    cases levels with
    | nil => exact ih sorted
    | cons slot rest =>
      cases slot with
      | none => exact ih sorted
      | some existing =>
        have parts := forall_mem_cons.mp sorted
        obtain ⟨restSorted, perm⟩ := ih parts.2
        refine ⟨forall_mem_cons.mpr ⟨parts.1, restSorted⟩, ?_⟩
        show (existing ++ items (insertAt cmp level rest run)).Perm (existing ++ items rest ++ run)
        rw [append_assoc]
        exact perm.append_left existing

theorem insert_spec (sorted : AllSorted cmp levels) (run : List α) :
    AllSorted cmp (insert cmp levels run) ∧ (items (insert cmp levels run)).Perm (items levels ++ run) := by
  rw [insert]
  split
  · rename_i empty
    rw [isEmpty_iff.mp empty, append_nil]
    exact ⟨sorted, .refl _⟩
  · obtain ⟨done, perm⟩ := insertAt_spec (Nat.clog 2 run.length) sorted
      (pairwise_mergeSort (fun _ _ _ => isLE_trans) isLE_or run)
    exact ⟨done, perm.trans ((mergeSort_perm run _).append_left _)⟩

end Insert

section Range

variable {cursors : List (List α)}

theorem selectCursor_loop (nonempty : ∀ run ∈ cursors, run ≠ []) (count : Nat)
    (inside : count < cursors.length) :
    ∃ a rest, cursors[(List.range' 1 count).foldl (compareHeads cmp cursors) 0]? = some (a :: rest) ∧
      ∀ i ≤ count, ∀ b more, cursors[i]? = some (b :: more) → (cmp a b).isLE = true := by
  induction count with
  | zero =>
    obtain ⟨a, rest, found⟩ := exists_cons_of_ne_nil (nonempty _ (getElem_mem inside))
    have first : cursors[0]? = some (a :: rest) := by rw [List.getElem?_eq_getElem inside, found]
    refine ⟨a, rest, first, fun i zero b more other => ?_⟩
    rw [Nat.le_zero.mp zero, first] at other
    cases other
    exact ReflCmp.isLE_rfl
  | succ count ih =>
    obtain ⟨a, rest, selected, least⟩ := ih (by omega)
    obtain ⟨c, others, found⟩ := exists_cons_of_ne_nil (nonempty _ (getElem_mem inside))
    have next : cursors[1 + count]? = some (c :: others) := by
      rw [Nat.add_comm, List.getElem?_eq_getElem inside, found]
    rw [List.range'_1_concat, foldl_concat]
    simp only [compareHeads, next, selected]
    have split : ∀ i ≤ count + 1, i ≤ count ∨ i = 1 + count := fun i _ => by omega
    cases less : (cmp c a).isLT with
    | true =>
      refine ⟨c, others, by rw [if_pos rfl, next], fun i bound b more other => ?_⟩
      have below : (cmp c a).isLE = true := Ordering.isLE_of_eq_lt (Ordering.isLT_iff_eq_lt.mp less)
      rcases split i bound with old | rfl
      · exact isLE_trans below (least i old b more other)
      · rw [next] at other
        cases other
        exact ReflCmp.isLE_rfl
    | false =>
      refine ⟨a, rest, by rw [if_neg (by decide), selected], fun i bound b more other => ?_⟩
      rcases split i bound with old | rfl
      · exact least i old b more other
      rw [next] at other
      cases other
      have swap : cmp a c = (cmp c a).swap := OrientedCmp.eq_swap
      rw [swap]
      revert less
      cases cmp c a <;> decide

theorem selectCursor_spec (nonempty : ∀ run ∈ cursors, run ≠ []) (sorted : ∀ run ∈ cursors, Sorted cmp run)
    (some : cursors ≠ []) : ∃ a rest, cursors[selectCursor cmp cursors]? = .some (a :: rest) ∧
      ∀ b ∈ cursors.flatten, (cmp a b).isLE = true := by
  have inside : 0 < cursors.length := length_pos_iff.mpr some
  obtain ⟨a, rest, selected, least⟩ := @selectCursor_loop _ cmp _ _ nonempty (cursors.length - 1) (by omega)
  refine ⟨a, rest, selected, fun b member => ?_⟩
  obtain ⟨run, inCursors, inRun⟩ := mem_flatten.mp member
  obtain ⟨i, bound, rfl⟩ := getElem_of_mem inCursors
  obtain ⟨c, others, found⟩ := exists_cons_of_ne_nil (nonempty _ inCursors)
  have ahead := least i (by omega) c others (by rw [List.getElem?_eq_getElem bound, found])
  have order := sorted _ inCursors
  rw [found] at inRun order
  rcases mem_cons.mp inRun with rfl | later
  · exact ahead
  · exact isLE_trans ahead ((pairwise_cons.mp order).1 b later)

omit [TransCmp cmp] in
theorem swapRemove_perm {index : Nat} (inside : index < cursors.length) :
    (swapRemove cursors index).Perm (cursors.eraseIdx index) := by
  obtain ⟨front, last, rfl⟩ := (eq_nil_or_concat' cursors).resolve_left
    (ne_nil_of_length_pos (Nat.zero_lt_of_lt inside))
  rw [swapRemove, List.getLast?_concat]
  dsimp only
  by_cases early : index < front.length
  · rw [set_append_left _ _ early, dropLast_concat, eraseIdx_append_of_lt_length early]
    exact (set_perm_cons_eraseIdx early last).trans (perm_append_singleton last _).symm
  · have isLast : index = front.length := by
      rw [length_append, length_singleton] at inside
      omega
    subst isLast
    simp [eraseIdx_append_of_length_le]

omit [TransCmp cmp] in
theorem advance_spec {index : Nat} {a : α} {rest : List α} (found : cursors[index]? = some (a :: rest))
    (nonempty : ∀ run ∈ cursors, run ≠ []) (sorted : ∀ run ∈ cursors, Sorted cmp run) :
    (∀ run ∈ advance cursors index rest, run ≠ []) ∧
      (∀ run ∈ advance cursors index rest, Sorted cmp run) ∧
      cursors.flatten.Perm (a :: (advance cursors index rest).flatten) := by
  obtain ⟨inside, isHead⟩ := List.getElem?_eq_some_iff.mp found
  have others : ∀ run ∈ cursors.eraseIdx index, run ∈ cursors := fun run => mem_of_mem_eraseIdx
  have whole : cursors.flatten.Perm (a :: rest ++ (cursors.eraseIdx index).flatten) := by
    have perm := (getElem_cons_eraseIdx_perm inside).symm.flatten
    rwa [isHead] at perm
  have tail : Sorted cmp rest :=
    (pairwise_cons.mp (sorted _ (mem_of_getElem? found))).2
  cases rest with
  | nil =>
    have perm : (advance cursors index []).Perm (cursors.eraseIdx index) := swapRemove_perm inside
    exact ⟨fun run member => nonempty run (others run (perm.mem_iff.mp member)),
      fun run member => sorted run (others run (perm.mem_iff.mp member)),
      whole.trans (perm.flatten.symm.cons a)⟩
  | cons b rest =>
    have perm : (advance cursors index (b :: rest)).Perm ((b :: rest) :: cursors.eraseIdx index) :=
      set_perm_cons_eraseIdx inside _
    refine ⟨fun run member => ?_, fun run member => ?_, whole.trans (perm.flatten.symm.cons a)⟩
    · rcases mem_cons.mp (perm.mem_iff.mp member) with rfl | member
      · exact cons_ne_nil _ _
      · exact nonempty run (others run member)
    · rcases mem_cons.mp (perm.mem_iff.mp member) with rfl | member
      · exact tail
      · exact sorted run (others run member)

variable [LawfulEqCmp cmp]

theorem sort_eq {sorted items : List α} (order : Sorted cmp sorted) (perm : sorted.Perm items) :
    sort cmp items = sorted := by
  have sorting : (sort cmp items).Perm sorted := (mergeSort_perm _ _).trans perm.symm
  refine sorting.eq_of_pairwise (fun a b _ _ le ge => ?_)
    (pairwise_mergeSort (fun _ _ _ => isLE_trans) isLE_or items) order
  exact LawfulEqCmp.eq_of_compare (OrientedCmp.isLE_antisymm le ge)

def bounded (maxEntries : Nat) (all : List α) : List α × Bool :=
  (all.take (maxEntries + 1), decide (maxEntries < all.length))

theorem drain_eq {maxEntries : Nat} (fuel : Nat) (enough : cursors.flatten.length < fuel)
    (nonempty : ∀ run ∈ cursors, run ≠ []) (sorted : ∀ run ∈ cursors, Sorted cmp run) {result : List α}
    (within : result.length ≤ maxEntries) :
    drain cmp maxEntries fuel cursors result = bounded maxEntries (result ++ sort cmp cursors.flatten) := by
  induction fuel generalizing cursors result with
  | zero => omega
  | succ fuel ih =>
    by_cases empty : cursors = []
    · subst empty
      simp [drain, bounded, sort, take_of_length_le (Nat.le_succ_of_le within), within]
    obtain ⟨a, rest, selected, least⟩ := selectCursor_spec nonempty sorted empty
    obtain ⟨nonempty', sorted', perm⟩ := advance_spec selected nonempty sorted
    have order : sort cmp cursors.flatten =
        a :: sort cmp (advance cursors (selectCursor cmp cursors) rest).flatten := by
      have others : (sort cmp (advance cursors (selectCursor cmp cursors) rest).flatten).Perm _ :=
        mergeSort_perm _ _
      refine sort_eq (pairwise_cons.mpr ⟨fun b member => ?_, ?_⟩) ((others.cons a).trans perm.symm)
      · exact least b (perm.mem_iff.mpr (mem_cons_of_mem _ (others.mem_iff.mp member)))
      · exact pairwise_mergeSort (fun _ _ _ => isLE_trans) isLE_or _
    rw [drain, selected, order]
    dsimp only
    split
    · have full : maxEntries = result.length := by omega
      rw [bounded, full]
      simp [take_append, take_of_length_le]
    · rw [perm.length_eq, length_cons] at enough
      refine (ih (by omega) nonempty' sorted' (by simp; omega)).trans ?_
      rw [append_assoc]
      rfl

theorem range_eq {below before : α → Bool} (sorted : AllSorted cmp levels) (lower : Closed cmp below)
    (upper : Closed cmp before) (maxEntries : Nat) :
    range cmp levels below before maxEntries =
      bounded maxEntries (sort cmp ((items levels).filter fun a => !below a && before a)) := by
  have slices : (levels.filterMap id).map (slice below before) =
      (levels.filterMap id).map (List.filter fun a => !below a && before a) :=
    map_congr_left fun run member => slice_eq_filter lower upper (sorted run member)
  rw [range, slices, drain_eq _ (Nat.lt_succ_self _) ?_ ?_ (Nat.zero_le _), nil_append,
    flatten_filter_not_isEmpty, ← filter_flatten]
  · rfl
  · intro run member
    simpa using (mem_filter.mp member).2
  · intro run member
    obtain ⟨whole, inside, rfl⟩ := mem_map.mp (mem_of_mem_filter member)
    exact (sorted whole inside).sublist filter_sublist

end Range

end SortedRuns
