import Mathlib.Data.List.Sort
import Mathlib.Data.List.TakeWhile

namespace List

open List

variable {α : Type}

def mergeScan (lt : α → α → Bool) : List α → List α → List α
  | [], run => run
  | item :: scanned, run =>
    run.takeWhile (lt · item) ++ item :: mergeScan lt scanned (run.dropWhile (lt · item))

variable {p q : α → Bool} {run : List α} {lt lt' : α → α → Bool} {scanned : List α}

theorem mergeScan_eq_merge (lt : α → α → Bool) (scanned run : List α) :
    mergeScan lt scanned run = scanned.merge run fun a b => !lt b a := by
  induction scanned generalizing run with
  | nil => rw [mergeScan, nil_merge]
  | cons item scanned ih =>
    induction run with
    | nil => rw [mergeScan, takeWhile_nil, nil_append, dropWhile_nil, ih, merge_right, merge_right]
    | cons other run more =>
      rw [mergeScan] at more ⊢
      rw [cons_merge_cons, takeWhile_cons, dropWhile_cons]
      cases lt other item with
      | true => exact congrArg (other :: ·) more
      | false => exact congrArg (item :: ·) (ih _)

theorem mergeScan_perm (lt : α → α → Bool) (scanned run : List α) :
    (mergeScan lt scanned run).Perm (scanned ++ run) := by
  rw [mergeScan_eq_merge]
  exact merge_perm_append _

theorem eq_of_map_eq {β : Type} {f : α → β} {xs ys : List α}
    (apart : ∀ x ∈ xs, ∀ y ∈ ys, f x = f y → x = y) (same : xs.map f = ys.map f) : xs = ys := by
  induction xs generalizing ys with
  | nil => exact (map_eq_nil_iff.mp same.symm).symm
  | cons x xs ih =>
    cases ys with
    | nil => cases same
    | cons y ys =>
      rw [map_cons, map_cons, List.cons.injEq] at same
      rw [apart x (by simp) y (by simp) same.1, ih (fun x inXs y inYs => apart x (by simp [inXs]) y
        (by simp [inYs])) same.2]

def SameRuns (lt lt' : α → α → Bool) : List α → List α → Prop
  | [], _ => True
  | item :: scanned, run => run.takeWhile (lt' · item) = run.takeWhile (lt · item) ∧
      SameRuns lt lt' scanned (run.dropWhile (lt · item))

theorem dropWhile_eq_of_takeWhile_eq (same : run.takeWhile p = run.takeWhile q) :
    run.dropWhile p = run.dropWhile q := by
  have left := takeWhile_append_dropWhile (p := p) (l := run)
  rw [same] at left
  exact append_cancel_left (left.trans takeWhile_append_dropWhile.symm)

theorem filter_eq_takeWhile (closed : run.Pairwise fun a b => p b = true → p a = true) :
    run.filter p = run.takeWhile p ∧ run.filter (fun a => !p a) = run.dropWhile p := by
  induction run with
  | nil => exact ⟨rfl, rfl⟩
  | cons item run ih =>
    obtain ⟨first, rest⟩ := pairwise_cons.mp closed
    cases holds : p item with
    | true => simp [holds, ih rest]
    | false =>
      have none : ∀ other ∈ run, p other = false := fun other member =>
        Bool.eq_false_iff.mpr fun inside => by simp [first other member inside] at holds
      simpa [holds, filter_eq_self, filter_eq_nil_iff] using none

theorem takeWhile_eq_takeWhile_iff : run.takeWhile p = run.takeWhile q ↔
    (∀ item ∈ run.takeWhile q, p item = true) ∧ ∀ item ∈ (run.dropWhile q).head?, p item = false := by
  induction run with
  | nil => simp
  | cons item run ih =>
    cases first : q item <;> cases other : p item <;> simp [first, other, ih]

theorem mergeScan_eq_iff (once : scanned.Nodup) (apart : ∀ item ∈ scanned, item ∉ run) :
    mergeScan lt' scanned run = mergeScan lt scanned run ↔ SameRuns lt lt' scanned run := by
  induction scanned generalizing run with
  | nil => simp [mergeScan, SameRuns]
  | cons item scanned ih =>
    have outside : ∀ p : α → Bool, item ∉ run.takeWhile p := fun p member =>
      apart item (by simp) (takeWhile_sublist p |>.mem member)
    have rest : ∀ other ∈ scanned, other ∉ run.dropWhile (lt · item) := fun other member inside =>
      apart other (by simp [member]) ((dropWhile_sublist _).mem inside)
    obtain ⟨fresh, once⟩ := nodup_cons.mp once
    rw [mergeScan, mergeScan, SameRuns, ← ih once rest]
    constructor
    · intro same
      have later : item ∉ mergeScan lt' scanned (run.dropWhile (lt' · item)) := by
        rw [(mergeScan_perm _ _ _).mem_iff, mem_append]
        rintro (member | member)
        · exact fresh member
        · exact apart item (by simp) ((dropWhile_sublist _).mem member)
      obtain ⟨first, -, others⟩ := (append_cons_inj_of_notMem (outside _) later).mp same
      exact ⟨first, by rw [← others, dropWhile_eq_of_takeWhile_eq first]⟩
    · rintro ⟨first, others⟩
      rw [first, dropWhile_eq_of_takeWhile_eq first, others]

variable {cmp : α → α → Ordering} [Std.TransCmp cmp]

theorem mem_head?_iff {item : α} (sorted : run.Pairwise fun a b => cmp a b = .lt) :
    item ∈ run.head? ↔ item ∈ run ∧ ∀ other ∈ run, (cmp other item).isLT = false := by
  cases run with
  | nil => simp
  | cons first run =>
    have above := (pairwise_cons.mp sorted).1
    rw [head?_cons, Option.mem_some, mem_cons, forall_mem_cons]
    constructor
    · rintro rfl
      have self : cmp first first = .eq := Std.ReflCmp.compare_self
      refine ⟨.inl rfl, by rw [self]; rfl, fun other member => ?_⟩
      rw [Std.OrientedCmp.gt_of_lt (above other member)]
      rfl
    · rintro ⟨rfl | member, least, -⟩
      · rfl
      · rw [above item member] at least
        cases least

/-- Leaving the order of two sorted runs to another comparison changes nothing exactly when this
    comparison is right for each item of the run and the next scanned one, and for each scanned item
    and the next of the run. -/
theorem sameRuns_iff (sortedScan : scanned.Pairwise fun a b => cmp a b = .lt)
    (sortedRun : run.Pairwise fun a b => cmp a b = .lt) :
    SameRuns (fun a b => (cmp a b).isLT) lt' scanned run ↔ ∀ item ∈ scanned, ∀ other ∈ run,
      ((cmp other item).isLT = true →
        (∀ item' ∈ scanned, (cmp other item').isLT = true → (cmp item' item).isLT = false) →
          lt' other item = true) ∧
      ((cmp other item).isLT = false →
        (∀ other' ∈ run, (cmp other' item).isLT = false → (cmp other' other).isLT = false) →
          lt' other item = false) := by
  induction scanned generalizing run with
  | nil => simp [SameRuns]
  | cons item scanned ih =>
    obtain ⟨above, sortedScan⟩ := pairwise_cons.mp sortedScan
    have closed : run.Pairwise fun a b => (cmp b item).isLT = true → (cmp a item).isLT = true :=
      sortedRun.imp fun {a b} less below => by
        rw [Ordering.isLT_iff_eq_lt] at below ⊢
        exact Std.TransCmp.lt_trans less below
    obtain ⟨before, behind⟩ := filter_eq_takeWhile closed
    have sortedRest := sortedRun.sublist (dropWhile_sublist fun a => (cmp a item).isLT)
    have inRest : ∀ {other}, other ∈ run.dropWhile (fun a => (cmp a item).isLT) ↔
        other ∈ run ∧ (cmp other item).isLT = false := by
      intro other
      rw [← behind, mem_filter, Bool.not_eq_true']
    have beyond : ∀ later ∈ scanned, ∀ {other}, (cmp other later).isLT = false →
        (cmp other item).isLT = false := by
      intro later member other notBelow
      rw [← Bool.not_eq_true] at notBelow ⊢
      intro below
      rw [Ordering.isLT_iff_eq_lt] at below
      exact notBelow (by rw [Std.TransCmp.lt_trans below (above later member)]; rfl)
    have self : cmp item item = .eq := Std.ReflCmp.compare_self
    have least : ∀ later ∈ item :: scanned, (cmp later item).isLT = false := by
      intro later member
      rcases mem_cons.mp member with rfl | member
      · rw [self]
        rfl
      · rw [Std.OrientedCmp.gt_of_lt (above later member)]
        rfl
    rw [SameRuns, takeWhile_eq_takeWhile_iff, ih sortedScan sortedRest, forall_mem_cons]
    refine and_congr ?_ ?_
    · rw [← before]
      constructor
      · rintro ⟨taken, stopped⟩ other member
        refine ⟨fun below _ => taken other (mem_filter.mpr ⟨member, below⟩), fun notBelow first => ?_⟩
        refine stopped other ((mem_head?_iff sortedRest).mpr ⟨inRest.mpr ⟨member, notBelow⟩, ?_⟩)
        intro other' member'
        obtain ⟨inRun, notBelow'⟩ := inRest.mp member'
        exact first other' inRun notBelow'
      · intro right
        constructor
        · intro other member
          obtain ⟨inRun, below⟩ := mem_filter.mp member
          exact (right other inRun).1 below fun later inScan _ => least later inScan
        · intro other member
          obtain ⟨member, first⟩ := (mem_head?_iff sortedRest).mp member
          obtain ⟨inRun, notBelow⟩ := inRest.mp member
          exact (right other inRun).2 notBelow fun other' inRun' notBelow' =>
            first other' (inRest.mpr ⟨inRun', notBelow'⟩)
    · constructor
      · intro right later inScan other inRun
        constructor
        · intro below next
          -- the scanned item in front is not between, so the other one is not below it
          have notBelow : (cmp other item).isLT = false := by
            rw [← Bool.not_eq_true]
            intro below'
            have between := next item (by simp) below'
            rw [above later inScan] at between
            cases between
          exact (right later inScan other (inRest.mpr ⟨inRun, notBelow⟩)).1 below
            fun item' member => next item' (by simp [member])
        · intro notBelow first
          refine (right later inScan other (inRest.mpr ⟨inRun, beyond later inScan notBelow⟩)).2
            notBelow fun other' member => first other' (inRest.mp member).1
      · intro right later inScan other member
        obtain ⟨inRun, notBelow⟩ := inRest.mp member
        refine ⟨fun below next => (right later inScan other inRun).1 below ?_,
          fun notBelow' first => (right later inScan other inRun).2 notBelow' ?_⟩
        · intro item' member below'
          rcases mem_cons.mp member with rfl | member
          · rw [notBelow] at below'
            cases below'
          · exact next item' member below'
        · intro other' inRun' notBelow''
          exact first other' (inRest.mpr ⟨inRun', beyond later inScan notBelow''⟩) notBelow''

theorem isLE_or (a b : α) : ((cmp a b).isLE || (cmp b a).isLE) = true := by
  have swap : cmp a b = (cmp b a).swap := Std.OrientedCmp.eq_swap
  rw [swap]
  cases cmp b a <;> rfl

theorem mergeScan_isLT (scanned run : List α) : mergeScan (fun a b => (cmp a b).isLT) scanned run =
    scanned.merge run fun a b => (cmp a b).isLE := by
  rw [mergeScan_eq_merge]
  congr 1
  funext a b
  have swap : cmp a b = (cmp b a).swap := Std.OrientedCmp.eq_swap
  rw [swap]
  cases cmp b a <;> rfl

theorem pairwise_mergeScan (sortedScan : scanned.Pairwise fun a b => (cmp a b).isLE)
    (sortedRun : run.Pairwise fun a b => (cmp a b).isLE) :
    (mergeScan (fun a b => (cmp a b).isLT) scanned run).Pairwise fun a b => (cmp a b).isLE := by
  rw [mergeScan_isLT]
  exact pairwise_merge (fun _ _ _ => Std.TransCmp.isLE_trans) isLE_or scanned run sortedScan sortedRun

theorem filter_takeWhile_dropWhile (closed : run.Pairwise fun a b => p b = true → p a = true) :
    (run.takeWhile q).filter p = (run.filter p).takeWhile q ∧
      (run.dropWhile q).filter p = (run.filter p).dropWhile q := by
  induction run with
  | nil => exact ⟨rfl, rfl⟩
  | cons item run ih =>
    obtain ⟨first, rest⟩ := pairwise_cons.mp closed
    obtain ⟨taken, dropped⟩ := ih rest
    by_cases kept : p item = true
    · cases before : q item <;> simp [kept, before, taken, dropped]
    · have none : run.filter p = [] := filter_eq_nil_iff.mpr fun other member later =>
        kept (first other member later)
      rw [none] at taken dropped
      rw [filter_cons_of_neg kept, none, takeWhile_cons, dropWhile_cons]
      split
      · exact ⟨by rw [filter_cons_of_neg kept, taken], dropped⟩
      · exact ⟨rfl, by rw [filter_cons_of_neg kept, none]; rfl⟩

/-- What a merge keeps of items that stand in front of both runs is the merge of these items. -/
theorem filter_mergeScan (lt : α → α → Bool)
    (closedScan : scanned.Pairwise fun a b => p b = true → p a = true)
    (closedRun : run.Pairwise fun a b => p b = true → p a = true) :
    (mergeScan lt scanned run).filter p = mergeScan lt (scanned.filter p) (run.filter p) := by
  induction scanned generalizing run with
  | nil => rfl
  | cons item scanned ih =>
    obtain ⟨first, closedScan⟩ := pairwise_cons.mp closedScan
    obtain ⟨taken, dropped⟩ : _ ∧ (run.dropWhile (lt · item)).filter p = _ :=
      filter_takeWhile_dropWhile closedRun
    have rest := ih closedScan (closedRun.sublist (dropWhile_sublist (lt · item)))
    rw [mergeScan, filter_append]
    by_cases kept : p item = true
    · rw [filter_cons_of_pos kept, filter_cons_of_pos kept, mergeScan, rest, taken, dropped]
    · have none : scanned.filter p = [] := filter_eq_nil_iff.mpr fun other member later =>
        kept (first other member later)
      rw [filter_cons_of_neg kept, filter_cons_of_neg kept, rest, none, mergeScan, mergeScan,
        ← filter_append, takeWhile_append_dropWhile]

theorem length_filter_le_dropLast (p : α → Bool) (xs : List α) :
    (xs.filter p).length ≤ (xs.dropLast.filter p).length + 1 := by
  rcases eq_nil_or_concat xs with rfl | ⟨front, last, rfl⟩
  · exact Nat.zero_le _
  · rw [concat_eq_append, dropLast_concat, filter_append, length_append]
    have := length_filter_le p [last]
    simp only [length_singleton] at this
    omega

section Sorting

variable {cmp : α → α → Ordering} [Std.TransCmp cmp]

theorem pairwise_insertionSort_isLE (xs : List α) :
    (xs.insertionSort fun a b => (cmp a b).isLE).Pairwise fun a b => (cmp a b).isLE := by
  have total : Std.Total fun a b : α => ((cmp a b).isLE = true) := ⟨fun a b => by simpa using isLE_or a b⟩
  have trans : IsTrans α fun a b => ((cmp a b).isLE = true) := ⟨fun a b c => Std.TransCmp.isLE_trans⟩
  exact pairwise_insertionSort _ _

theorem filter_orderedInsert_isLE (p : α → Bool) (a : α) {xs : List α}
    (sorted : xs.Pairwise fun a b => (cmp a b).isLE) :
    (xs.orderedInsert (fun a b => (cmp a b).isLE) a).filter p =
      if p a then (xs.filter p).orderedInsert (fun a b => (cmp a b).isLE) a else xs.filter p := by
  induction xs with
  | nil => simp [filter_cons]
  | cons b xs ih =>
    obtain ⟨least, rest⟩ := pairwise_cons.mp sorted
    by_cases first : (cmp a b).isLE
    · have front : (xs.filter p).orderedInsert (fun a b => (cmp a b).isLE) a = a :: xs.filter p := by
        cases kept : xs.filter p with
        | nil => rfl
        | cons c kept' =>
          have inside : c ∈ xs := mem_of_mem_filter (kept ▸ mem_cons_self)
          rw [orderedInsert_cons, if_pos (Std.TransCmp.isLE_trans first (least c inside))]
      rw [orderedInsert_cons, if_pos first]
      cases here : p a <;> cases there : p b <;> simp [here, there, first, front]
    · rw [orderedInsert_cons, if_neg first, filter_cons, ih rest]
      cases here : p a <;> cases there : p b <;> simp [there, first]

theorem filter_insertionSort_isLE (p : α → Bool) (xs : List α) :
    (xs.insertionSort fun a b => (cmp a b).isLE).filter p =
      (xs.filter p).insertionSort fun a b => (cmp a b).isLE := by
  induction xs with
  | nil => rfl
  | cons a xs ih =>
    rw [insertionSort_cons, filter_orderedInsert_isLE p a (pairwise_insertionSort_isLE xs), ih]
    cases here : p a <;> simp [here]

end Sorting

end List
