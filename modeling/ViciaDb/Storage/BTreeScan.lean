import Mathlib.Data.List.TakeWhile
import ViciaDb.Storage.BTreeCursor

namespace ViciaDb.BTree

open ByteReader SlottedPage LeafEntryCursor Visitor List

section Range

variable {κ σ : Type} {kind : IndexKind κ} {start : κ} {stop : Option κ}

def inRange (kind : IndexKind κ) (start : κ) (stop : Option κ) (entry : κ × FactRef) : Bool :=
  (kind.cmp start entry.1).isLE && stop.all fun stop => (kind.cmp entry.1 stop).isLT

variable {es : List (κ × FactRef)}

theorem not_below_eq (entry : κ × FactRef) :
    (!below kind start entry) = (kind.cmp start entry.1).isLE := by
  have swap : kind.cmp entry.1 start = (kind.cmp start entry.1).swap := Std.OrientedCmp.eq_swap
  rw [below, swap]
  cases kind.cmp start entry.1 <;> rfl

theorem not_reachesEnd_eq (entry : κ × FactRef) :
    (!reachesEnd kind stop entry.1) = stop.all fun stop => (kind.cmp entry.1 stop).isLT := by
  cases stop with
  | none => rfl
  | some stop =>
    simp only [reachesEnd, Option.any_some, Option.all_some]
    cases kind.cmp entry.1 stop <;> rfl

theorem inRange_eq (entry : κ × FactRef) : inRange kind start stop entry =
      (!below kind start entry && !reachesEnd kind stop entry.1) := by
  rw [not_below_eq, not_reachesEnd_eq, inRange]

theorem SortedFor.filter_not_below (sorted : SortedFor kind start es) :
    es.filter (fun e => !below kind start e) = es.dropWhile (below kind start) :=
  (filter_eq_takeWhile (sorted.imp fun precedes small => precedes.below (isLE_of_below small))).2

theorem SortedFor.filter_not_reachesEnd (sorted : SortedFor kind start es) :
    es.filter (fun e => !reachesEnd kind stop e.1) =
      es.takeWhile fun e => !reachesEnd kind stop e.1 := by
  refine (filter_eq_takeWhile (sorted.imp fun {a b} precedes => ?_)).1
  rw [not_reachesEnd_eq, not_reachesEnd_eq]
  cases stop with
  | none => exact id
  | some stop =>
    simp only [Option.all_some, Ordering.isLT_iff_eq_lt]
    exact Std.TransCmp.lt_of_isLE_of_lt precedes.1

theorem SortedFor.filter_inRange (sorted : SortedFor kind start es) :
    es.filter (inRange kind start stop) =
      (es.dropWhile (below kind start)).takeWhile fun e => !reachesEnd kind stop e.1 := by
  have tail : SortedFor kind start (es.dropWhile (below kind start)) :=
    sorted.sublist (dropWhile_sublist _)
  rw [← tail.filter_not_reachesEnd, ← sorted.filter_not_below, filter_filter]
  congr 1
  funext e
  rw [inRange_eq, Bool.and_comm]

end Range

section Leaves

variable {κ σ : Type} {kind : IndexKind κ} {es rest : List (κ × FactRef)} {start : κ}
  {stop : Option κ} {visit : σ → κ × FactRef → Except String (Bool × σ)}

def visitUntil (kind : IndexKind κ) (stop : Option κ)
    (visit : σ → κ × FactRef → Except String (Bool × σ)) :
    σ → List (κ × FactRef) → Except String (Bool × Bool × σ)
  | s, [] => .ok (true, true, s)
  | s, entry :: es =>
    if reachesEnd kind stop entry.1 then .ok (false, true, s)
    else do
      match ← visit s entry with
      | (true, s) => visitUntil kind stop visit s es
      | (false, s) => .ok (false, false, s)

variable {cursor : LeafEntryCursor κ}

theorem visitUntil_append (s : σ) (left right : List (κ × FactRef)) :
    visitUntil kind stop visit s (left ++ right) = (do
      match ← visitUntil kind stop visit s left with
      | (true, _, s) => visitUntil kind stop visit s right
      | (false, answer, s) => .ok (false, answer, s)) := by
  induction left generalizing s with
  | nil => rfl
  | cons entry left ih =>
    rw [cons_append, visitUntil, visitUntil]
    split
    · rfl
    cases visit s entry with
    | error e => rfl
    | ok answer =>
      obtain ⟨go, s'⟩ := answer
      cases go with
      | true => exact ih s'
      | false => rfl

theorem map_visitUntil (s : σ) (es : List (κ × FactRef)) :
    (visitUntil kind stop visit s es).map Prod.snd =
      visitList visit s (es.takeWhile fun e => !reachesEnd kind stop e.1) := by
  induction es generalizing s with
  | nil => rfl
  | cons entry es ih =>
    rw [visitUntil]
    cases reached : reachesEnd kind stop entry.1 with
    | true => simp [reached, Except.map]
    | false =>
      simp only [Bool.false_eq_true, if_false, takeWhile_cons, reached, Bool.not_false, if_true, visitList]
      cases visit s entry with
      | error e => rfl
      | ok answer =>
        obtain ⟨go, s'⟩ := answer
        cases go with
        | true => exact ih s'
        | false => rfl

theorem visitCursor_eq (on : CursorOn kind es cursor)
    (left : remaining es cursor = rest) (fuel : Nat) (enough : rest.length < fuel) (s : σ) :
    visitCursor kind stop visit fuel cursor s = visitUntil kind stop visit s rest := by
  induction fuel generalizing cursor rest s with
  | zero => omega
  | succ fuel ih =>
    cases rest with
    | nil =>
      rw [visitCursor, nextEntry_of_nil on left]
      rfl
    | cons entry rest =>
      obtain ⟨next, read, nextOn, after⟩ := nextEntry_of_cons on left
      rw [visitCursor, read, visitUntil]
      simp only [bind, Except.bind]
      split
      · rfl
      cases visit s entry with
      | error e => rfl
      | ok answer =>
        obtain ⟨go, s'⟩ := answer
        cases go with
        | true => exact ih nextOn after (by simpa using enough) s'
        | false => rfl

theorem drainCursor_eq (on : CursorOn kind es cursor) (left : remaining es cursor = rest)
    (fuel : Nat) (enough : rest.length < fuel) : drainCursor kind fuel cursor = .ok rest := by
  induction fuel generalizing cursor rest with
  | zero => omega
  | succ fuel ih =>
    cases rest with
    | nil =>
      rw [drainCursor, nextEntry_of_nil on left]
      rfl
    | cons entry rest =>
      obtain ⟨next, read, nextOn, after⟩ := nextEntry_of_cons on left
      rw [drainCursor, read]
      simp only [bind, Except.bind, ih nextOn after (by simpa using enough)]
      rfl

theorem collectCursor_eq (on : CursorOn kind es cursor)
    (left : remaining es cursor = rest) (fuel : Nat) (enough : rest.length < fuel) :
    collectCursor kind stop fuel cursor =
      .ok (rest.all fun e => !reachesEnd kind stop e.1,
        rest.takeWhile fun e => !reachesEnd kind stop e.1) := by
  induction fuel generalizing cursor rest with
  | zero => omega
  | succ fuel ih =>
    cases rest with
    | nil =>
      rw [collectCursor, nextEntry_of_nil on left]
      rfl
    | cons entry rest =>
      obtain ⟨next, read, nextOn, after⟩ := nextEntry_of_cons on left
      rw [collectCursor, read]
      simp only [bind, Except.bind]
      cases reached : reachesEnd kind stop entry.1 with
      | true => simp [reached, pure, Except.pure]
      | false =>
        simp only [Bool.false_eq_true, if_false, ih nextOn after (by simpa using enough)]
        simp [reached, pure, Except.pure]

end Leaves

section Slots

variable {κ σ : Type} {kind : IndexKind κ} {name : String} {es : List (κ × FactRef)} {start : κ}
  {stop : Option κ} {visit : σ → κ × FactRef → Except String (Bool × σ)} {page : Bytes}
  {pageType : UInt8} {nextLeaf slot : Nat}

theorem entryAt_of_reads {entry : κ × FactRef} {previous : Bytes}
    (reads : LeafReads page pageType (es.map kind.entryBytes) nextLeaf) (found : es[slot]? = some entry)
    (ready : pageType = pageTypePrefixLeaf → Ready (es.map kind.entryBytes) slot previous) :
    entryAt page pageType es.length slot previous = .ok (kind.entryBytes entry) := by
  have bytes : (es.map kind.entryBytes)[slot]? = some (kind.entryBytes entry) := by
    rw [List.getElem?_map, found, Option.map_some]
  have count : (es.map kind.entryBytes).length = es.length := length_map _
  rw [entryAt, ← count]
  split
  · rename_i compressed
    subst compressed
    exact reconstructPrefixEntry_of_ready _ reads bytes (ready rfl)
  · rename_i plain
    rw [storedEntry_of_reads _ reads bytes, storedForm, if_neg plain]

theorem visitSlots_eq (first : Bool) (reads : LeafReads page pageType (es.map kind.entryBytes) nextLeaf)
    (fuel slot : Nat) (previous : Bytes)
    (ready : pageType = pageTypePrefixLeaf → Ready (es.map kind.entryBytes) slot previous)
    (enough : es.length - slot < fuel) (s : σ) :
    visitSlots kind name page pageType es.length start stop first visit fuel slot previous s =
      visitUntil kind stop visit s
        ((es.drop slot).filter fun e => !(first && below kind start e)) := by
  induction fuel generalizing slot previous s with
  | zero => omega
  | succ fuel ih =>
    rw [visitSlots]
    split
    swap
    · rename_i outside
      rw [drop_eq_nil_of_le (by omega)]
      rfl
    rename_i inside
    have found := List.getElem?_eq_getElem inside
    have bytes : (es.map kind.entryBytes)[slot]? = some (kind.entryBytes es[slot]) := by
      rw [List.getElem?_map, found, Option.map_some]
    have next := ih (slot + 1) _ (fun _ => ready_succ bytes) (by omega)
    rw [drop_eq_getElem_cons inside, entryAt_of_reads reads found ready]
    simp only [bind, Except.bind, decodeEntry_of_codes kind.codes_entry]
    rw [show (kind.cmp es[slot].1 start).isLT = below kind start es[slot] from rfl]
    by_cases passed : (first && below kind start es[slot]) = true
    · rw [if_pos passed, filter_cons_of_neg (by simp [passed]), next]
    rw [if_neg passed, filter_cons_of_pos (by simp only [passed, Bool.not_false]), visitUntil]
    split
    · rfl
    cases visit s es[slot] with
    | error e => rfl
    | ok answer =>
      obtain ⟨go, s'⟩ := answer
      cases go with
      | true => exact next s'
      | false => rfl

theorem seekSlot_spec (name : String) (reads : LeafReads page pageType (es.map kind.entryBytes) nextLeaf)
    (sorted : SortedFor kind start es) :
    ∃ slot, seekSlot kind name page pageType es.length start = .ok slot ∧
      (pageType = pageTypePrefixLeaf → slot % prefixRestartInterval = 0) ∧
      ∀ i e, i < slot → es[i]? = some e → below kind start e = true := by
  unfold seekSlot
  by_cases compressed : pageType = pageTypePrefixLeaf
  · simp only [if_pos compressed]
    obtain ⟨point, bound, searched, passed, -⟩ := PartitionPoint.search_spec
      (fun middle => slotBelow kind name page pageType es.length start
        (middle * prefixRestartInterval))
      (fun m => es[m * prefixRestartInterval]?.any (below kind start)) (restartCount es.length)
      (by
        intro m small
        have found := List.getElem?_eq_getElem (restart_inside small)
        rw [slotBelow, entryAt_of_reads reads found fun _ => Or.inl (Nat.mul_mod_left _ _)]
        simp only [bind, Except.bind, decodeEntry_of_codes kind.codes_entry, found]
        rfl)
      (by
        intro m m' le small holds
        exact sorted.downward_below rfl _ _ (Nat.mul_le_mul_right _ le) (restart_inside small) holds)
    refine ⟨(point - 1) * prefixRestartInterval, by rw [searched]; rfl,
      fun _ => Nat.mul_mod_left _ _, ?_⟩
    intro i e before found
    have some : 0 < point := by
      by_contra none
      simp [Nat.eq_zero_of_not_pos none] at before
    have holds := passed (point - 1) (by omega)
    have inside := restart_inside (by omega : point - 1 < restartCount es.length)
    have := sorted.downward_below rfl i _ (Nat.le_of_lt before) inside holds
    simpa [found] using this
  · simp only [if_neg compressed]
    obtain ⟨point, bound, searched, passed, -⟩ := PartitionPoint.search_spec
      (slotBelow kind name page pageType es.length start)
      (fun i => es[i]?.any (below kind start)) es.length
      (by
        intro i small
        have found := List.getElem?_eq_getElem small
        rw [slotBelow, entryAt_of_reads reads found fun other => absurd other compressed]
        simp only [bind, Except.bind, decodeEntry_of_codes kind.codes_entry, found]
        rfl)
      (sorted.downward_below rfl)
    refine ⟨point, searched, fun other => absurd other compressed, ?_⟩
    intro i e before found
    simpa [found] using passed i before

theorem firstSlot_spec (name : String) (start : κ) (first : Bool)
    (reads : LeafReads page pageType (es.map kind.entryBytes) nextLeaf) (sorted : SortedFor kind start es) :
    ∃ slot, firstSlot kind name first page pageType es.length start = .ok slot ∧
      (pageType = pageTypePrefixLeaf → Ready (es.map kind.entryBytes) slot []) ∧
      ((es.drop slot).filter fun e => !(first && below kind start e)) =
        if first then es.dropWhile (below kind start) else es := by
  cases first with
  | false => exact ⟨0, rfl, fun _ => Or.inl rfl, by simp⟩
  | true =>
    by_cases empty : es = []
    · refine ⟨0, by rw [firstSlot, empty]; rfl, fun _ => Or.inl rfl, by simp [empty]⟩
    have some : es.length ≠ 0 := fun zero => empty (eq_nil_of_length_eq_zero zero)
    obtain ⟨slot, sought, restart, passed⟩ := seekSlot_spec name reads sorted
    refine ⟨slot, by rw [firstSlot, if_pos (by simpa using empty), sought],
      fun compressed => Or.inl (restart compressed), ?_⟩
    simp only [Bool.true_and, if_true]
    have none : (es.take slot).filter (fun e => !below kind start e) = [] := by
      rw [filter_eq_nil_iff]
      intro e member
      obtain ⟨i, found⟩ := mem_iff_getElem?.mp member
      obtain ⟨small, -⟩ := List.getElem?_eq_some_iff.mp found
      rw [length_take] at small
      rw [List.getElem?_take_of_lt (by omega)] at found
      simp [passed i e (by omega) found]
    rw [← sorted.filter_not_below, ← take_append_drop slot es, filter_append, none,
      nil_append, take_append_drop]

end Slots

section Chain

variable {κ σ : Type} {kind : IndexKind κ} {name : String} {pages : Pages} {start : κ}
  {stop : Option κ} {startLeaf : Nat} {visit : σ → κ × FactRef → Except String (Bool × σ)}

def firstId : List (Nat × List (κ × FactRef)) → Nat
  | [] => 0
  | (pageId, _) :: _ => pageId

def Chained (kind : IndexKind κ) (pages : Pages) : List (Nat × List (κ × FactRef)) → Prop
  | [] => True
  | (pageId, es) :: run =>
    (∃ page pageType, pages pageId = some page ∧
      LeafReads page pageType (es.map kind.entryBytes) (firstId run)) ∧
    (run ≠ [] → firstId run ≠ 0) ∧ Chained kind pages run

def runEntries (run : List (Nat × List (κ × FactRef))) : List (κ × FactRef) := run.flatMap Prod.snd

variable {leaves : List (Nat × List (κ × FactRef))}

@[simp] theorem runEntries_cons (leaf : Nat × List (κ × FactRef)) (run : List (Nat × List (κ × FactRef))) :
    runEntries (leaf :: run) = leaf.2 ++ runEntries run :=
  rfl

theorem loadLeaf_of_reads {caller : String} {pageId nextLeaf : Nat} {page : Bytes}
    {pageType : UInt8} {entries : List Bytes} (there : pages pageId = some page)
    (reads : LeafReads page pageType entries nextLeaf) :
    loadLeaf caller pages pageId = .ok (page, nextLeaf) := by
  rw [loadLeaf, Pages.load, there]
  simp only [bind, Except.bind, reads.first, reads.isLeaf, if_true]
  rw [readU64At, reads.next]
  rfl

def shown (kind : IndexKind κ) (start : κ) (startLeaf : Nat) (leaf : Nat × List (κ × FactRef)) :
    List (κ × FactRef) :=
  if leaf.1 = startLeaf then leaf.2.dropWhile (below kind start) else leaf.2

def LeafLoop (kind : IndexKind κ) (pages : Pages) (start : κ) (stop : Option κ) (startLeaf : Nat)
    (visit : σ → κ × FactRef → Except String (Bool × σ))
    (loop : Nat → Nat → σ → Except String (Bool × σ)) : Prop :=
  ∀ fuel pageId page pageType es nextLeaf s, pages pageId = some page →
    LeafReads page pageType (es.map kind.entryBytes) nextLeaf → SortedFor kind start es →
    loop (fuel + 1) pageId s = (do
      match ← visitUntil kind stop visit s (shown kind start startLeaf (pageId, es)) with
      | (false, answer, s) => return (answer, s)
      | (true, _, s) => if nextLeaf = 0 then return (true, s) else loop fuel nextLeaf s)

theorem length_shown_le (kind : IndexKind κ) (start : κ) (startLeaf pageId : Nat) (es : List (κ × FactRef)) :
    (shown kind start startLeaf (pageId, es)).length ≤ es.length := by
  unfold shown
  split
  · exact (dropWhile_sublist _).length_le
  · exact Nat.le_refl _

theorem leafCursor_spec (start : κ) (startLeaf pageId : Nat) {nextLeaf : Nat} {page : Bytes}
    {pageType : UInt8} {es : List (κ × FactRef)}
    (reads : LeafReads page pageType (es.map kind.entryBytes) nextLeaf) (sorted : SortedFor kind start es) :
    ∃ cursor, leafCursor kind start (pageId = startLeaf) page = .ok cursor ∧
      CursorOn kind es cursor ∧ remaining es cursor = shown kind start startLeaf (pageId, es) := by
  obtain ⟨cursor, opened, on, slot, unbuffered⟩ := new_spec reads
  rw [leafCursor, opened]
  simp only [bind, Except.bind, shown, decide_eq_true_eq]
  split
  · exact seekLowerBound_spec on unbuffered sorted
  · exact ⟨cursor, rfl, on, by rw [remaining, unbuffered, slot]; rfl⟩

theorem leafLoop_visitLeaves : LeafLoop kind pages start stop startLeaf visit
    (visitLeaves kind pages start stop startLeaf visit) := by
  intro fuel pageId page pageType es nextLeaf s there reads sorted
  obtain ⟨cursor, placed, on, left⟩ := leafCursor_spec start startLeaf pageId reads sorted
  have enough := length_shown_le kind start startLeaf pageId es
  rw [visitLeaves, loadLeaf_of_reads there reads]
  simp only [bind, Except.bind, placed]
  rewrite [visitCursor_eq on left _ (by rw [on.count]; omega)]
  rfl

theorem leafLoop_visitCurrentLeaves : LeafLoop kind pages start stop startLeaf visit
    (visitCurrentLeaves kind name pages start stop startLeaf visit) := by
  intro fuel pageId page pageType es nextLeaf s there reads sorted
  obtain ⟨slot, placed, ready, left⟩ := firstSlot_spec name start (decide (pageId = startLeaf)) reads sorted
  have count := openLeaf_of_reads reads
  rw [length_map] at count
  rw [visitCurrentLeaves, loadLeaf_of_reads there reads]
  simp only [bind, Except.bind, count, placed]
  simp only [decide_eq_true_eq] at left
  rewrite [visitSlots_eq _ reads _ slot [] ready (by omega), left]
  rfl

theorem LeafLoop.run {loop : Nat → Nat → σ → Except String (Bool × σ)}
    (isLoop : LeafLoop kind pages start stop startLeaf visit loop) (chained : Chained kind pages leaves)
    (sorted : ∀ leaf ∈ leaves, SortedFor kind start leaf.2) (some : leaves ≠ []) (fuel : Nat)
    (enough : leaves.length ≤ fuel) (s : σ) :
    loop fuel (firstId leaves) s =
      (visitUntil kind stop visit s (leaves.flatMap (shown kind start startLeaf))).map Prod.snd := by
  induction leaves generalizing fuel s with
  | nil => exact absurd rfl some
  | cons leaf leaves ih =>
    obtain ⟨pageId, es⟩ := leaf
    obtain ⟨⟨page, pageType, there, reads⟩, linked, chained⟩ := chained
    obtain ⟨fuel, rfl⟩ : ∃ n, fuel = n + 1 := ⟨fuel - 1, by simp at enough; omega⟩
    rw [firstId, isLoop fuel pageId page pageType es _ s there reads
      (sorted (pageId, es) (by simp)), flatMap_cons, visitUntil_append]
    cases visitUntil kind stop visit s (shown kind start startLeaf (pageId, es)) with
    | error e => rfl
    | ok answer =>
      obtain ⟨more, answer, s'⟩ := answer
      cases more with
      | false => rfl
      | true =>
        simp only [bind, Except.bind]
        cases leaves with
        | nil => rfl
        | cons next leaves =>
          rw [if_neg (linked (by simp))]
          exact ih chained (fun leaf member => sorted leaf (by simp [member])) (by simp) fuel
            (by simpa using enough) s'

theorem collectLeaves_run
    (chained : Chained kind pages leaves) (sorted : ∀ leaf ∈ leaves, SortedFor kind start leaf.2)
    (some : leaves ≠ []) (fuel : Nat) (enough : leaves.length ≤ fuel) :
    collectLeaves kind pages start stop startLeaf fuel (firstId leaves) =
      .ok ((leaves.flatMap (shown kind start startLeaf)).takeWhile
        fun e => !reachesEnd kind stop e.1) := by
  induction leaves generalizing fuel with
  | nil => exact absurd rfl some
  | cons leaf leaves ih =>
    obtain ⟨pageId, es⟩ := leaf
    obtain ⟨⟨page, pageType, there, reads⟩, linked, chained⟩ := chained
    obtain ⟨fuel, rfl⟩ : ∃ n, fuel = n + 1 := ⟨fuel - 1, by simp at enough; omega⟩
    obtain ⟨cursor, placed, on, left⟩ :=
      leafCursor_spec start startLeaf pageId reads (sorted (pageId, es) (by simp))
    have count := length_shown_le kind start startLeaf pageId es
    rw [firstId, collectLeaves, loadLeaf_of_reads there reads, flatMap_cons]
    simp only [bind, Except.bind, placed]
    rw [collectCursor_eq on left _ (by rw [on.count]; omega)]
    by_cases all : ∀ e ∈ shown kind start startLeaf (pageId, es), (!reachesEnd kind stop e.1) = true
    · rw [takeWhile_append_of_pos all, takeWhile_eq_self_iff.mpr all, all_eq_true.mpr all]
      cases leaves with
      | nil => simp [firstId, pure, Except.pure]
      | cons next leaves =>
        have rest := ih chained (fun leaf member => sorted leaf (by simp [member])) (by simp)
          fuel (by simpa using enough)
        simp only [Bool.true_and, decide_eq_true_eq, if_pos (linked (by simp)), rest]
        rfl
    · have stopped := Bool.eq_false_iff.mpr fun whole => all (all_eq_true.mp whole)
      have part := fun same => all (takeWhile_eq_self_iff.mp (( takeWhile_prefix _).eq_of_length same))
      rw [stopped, takeWhile_append, if_neg part]
      rfl

theorem streamLeaves_run (chained : Chained kind pages leaves) (some : leaves ≠ []) (fuel : Nat)
    (enough : leaves.length ≤ fuel) :
    streamLeaves kind pages fuel (firstId leaves) = .ok (runEntries leaves) := by
  induction leaves generalizing fuel with
  | nil => exact absurd rfl some
  | cons leaf leaves ih =>
    obtain ⟨pageId, es⟩ := leaf
    obtain ⟨⟨page, pageType, there, reads⟩, linked, chained⟩ := chained
    obtain ⟨fuel, rfl⟩ : ∃ n, fuel = n + 1 := ⟨fuel - 1, by simp at enough; omega⟩
    obtain ⟨cursor, opened, on, slot, unbuffered⟩ := new_spec reads
    have left : remaining es cursor = es := by rw [remaining, unbuffered, slot]; rfl
    rw [firstId, streamLeaves, loadLeaf_of_reads there reads, runEntries_cons]
    simp only [bind, Except.bind, opened]
    rw [drainCursor_eq on left _ (by rw [on.count]; omega)]
    cases leaves with
    | nil => simp [firstId, runEntries, pure, Except.pure]
    | cons next leaves =>
      have rest := ih chained (by simp) fuel (by simpa using enough)
      simp only [if_neg (linked (by simp)), rest]
      rfl

end Chain

end ViciaDb.BTree
