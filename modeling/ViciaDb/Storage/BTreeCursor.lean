import ViciaDb.Storage.BTreeLeaf

namespace ViciaDb.BTree

open ByteReader SlottedPage LeafEntryCursor List Option

section StoredEntries

variable {page : Bytes} {pageType : UInt8} {entries : List Bytes} {nextLeaf slot : Nat}
  {entry previous : Bytes} (outOfBounds : Nat → Nat → Nat → String)

theorem slotSlice_of_holds {dir pos : Nat} {record : Bytes} (holds : SlotHolds dir page slot record pos) :
    slotSlice outOfBounds dir page slot = .ok record := by
  rw [slotSlice, slotSize, Nat.mul_comm slot 4, readU16At, holds.offset, readU16At, holds.length]
  simp only [bind, Except.bind, holds.placed]

theorem storedEntry_of_reads (reads : LeafReads page pageType entries nextLeaf)
    (found : entries[slot]? = some entry) :
    storedEntry outOfBounds page entries.length slot = .ok (storedForm pageType entries slot entry) := by
  obtain ⟨inside, -⟩ := List.getElem?_eq_some_iff.mp found
  obtain ⟨pos, holds⟩ := reads.stored slot entry found
  rw [storedEntry, if_neg (by omega), slotSlice_of_holds outOfBounds holds]

def Ready (entries : List Bytes) (slot : Nat) (previous : Bytes) : Prop :=
  slot % prefixRestartInterval = 0 ∨ before none entries slot = some previous

theorem take_append_drop_sharedAt (entry : Bytes) (ready : Ready entries slot previous) :
    previous.take (sharedAt (before none entries slot) slot entry) ++
      entry.drop (sharedAt (before none entries slot) slot entry) = entry := by
  rcases ready with restart | known
  · simp [sharedAt, restart]
  have front : previous.take (sharedAt (before none entries slot) slot entry) =
      entry.take (sharedAt (before none entries slot) slot entry) := by
    unfold sharedAt
    split
    · simp
    · rw [known, getD_some, take_sharedLength]
  rw [front, take_append_drop]

theorem reconstructPrefixEntry_of_ready (reads : LeafReads page pageTypePrefixLeaf entries nextLeaf)
    (found : entries[slot]? = some entry) (ready : Ready entries slot previous) :
    reconstructPrefixEntry outOfBounds page entries.length slot previous = .ok entry := by
  have short := reads.short entry (mem_of_getElem? found)
  have bounds := sharedAt_le (before none entries slot) slot entry
  have whole := take_append_drop_sharedAt entry ready
  generalize shared : sharedAt (before none entries slot) slot entry = common at bounds whole
  have stored : storedForm pageTypePrefixLeaf entries slot entry =
      leBytes 2 common ++ leBytes 2 entry.length ++ entry.drop common := by
    rw [storedForm, if_pos rfl, prefixRecord, shared]
  have sharedField : readU16At (leBytes 2 common ++ leBytes 2 entry.length ++ entry.drop common) 0 =
      .ok common := by
    rw [readU16At, numberAt_of_readAt (n := common) _ (by omega)]
    simp [readAt]
  have lengthField : readU16At (leBytes 2 common ++ leBytes 2 entry.length ++ entry.drop common) 2 =
      .ok entry.length := by
    rw [readU16At, numberAt_of_readAt (n := entry.length) _ short]
    simp [readAt]
    omega
  have suffix : (leBytes 2 common ++ leBytes 2 entry.length ++ entry.drop common).drop
      prefixRecordHeaderSize = entry.drop common :=
    drop_left' (by simp [prefixRecordHeaderSize])
  have noPrefix : ¬ (slot % prefixRestartInterval = 0 ∧ common ≠ 0) := by
    rintro ⟨restart, some⟩
    apply some
    rw [← shared, sharedAt, if_pos restart]
  have inside : ¬ (previous.length < common ∨ entry.length < common) := by
    rcases ready with restart | known
    · have none : common = 0 := by rw [← shared, sharedAt, if_pos restart]
      omega
    · rw [known, getD_some] at bounds
      omega
  rw [reconstructPrefixEntry, storedEntry_of_reads outOfBounds reads found, stored]
  simp only [bind, Except.bind, sharedField, lengthField, suffix]
  rw [if_neg (by simp [prefixRecordHeaderSize]; omega), if_neg noPrefix, if_neg inside,
    if_neg (by rw [length_drop]; omega), whole]
  rfl

theorem ready_succ (found : entries[slot]? = some entry) : Ready entries (slot + 1) entry :=
  Or.inr found

theorem readU16At_of_number {n : Nat} (read : numberAt 2 page slot = some n) :
    readU16At page slot = .ok n := by
  rw [readU16At, read]

theorem openLeaf_of_reads (reads : LeafReads page pageType entries nextLeaf) :
    openLeaf page = .ok (pageType, entries.length) := by
  have interval : ¬ (pageType = pageTypePrefixLeaf ∧ page[1]? ≠ some (UInt8.ofNat prefixRestartInterval)) :=
    fun ⟨compressed, other⟩ => other (reads.interval compressed)
  have directory : ¬ page.length < leafHeaderSize + entries.length * slotSize :=
    Nat.not_lt.mpr reads.directory
  rw [openLeaf, reads.first]
  simp only [reads.isLeaf, Bool.not_true, Bool.false_eq_true, if_false, if_neg interval,
    readU16At_of_number reads.count, bind, Except.bind, if_neg directory]
  rfl

end StoredEntries

section Cursors

variable {κ : Type} {kind : IndexKind κ} {es : List (κ × FactRef)} {cursor : LeafEntryCursor κ}
  {entry : κ × FactRef} {slot : Nat}

structure CursorOn (kind : IndexKind κ) (es : List (κ × FactRef)) (cursor : LeafEntryCursor κ) :
    Prop where
  reads : ∃ nextLeaf, LeafReads cursor.page cursor.pageType (es.map kind.entryBytes) nextLeaf
  count : cursor.entryCount = es.length
  ready : cursor.pageType = pageTypePrefixLeaf →
    Ready (es.map kind.entryBytes) cursor.slot cursor.previous

def remaining (es : List (κ × FactRef)) (cursor : LeafEntryCursor κ) : List (κ × FactRef) :=
  cursor.buffered.toList ++ es.drop cursor.slot

theorem new_spec {page : Bytes} {pageType : UInt8} {nextLeaf : Nat}
    (reads : LeafReads page pageType (es.map kind.entryBytes) nextLeaf) :
    ∃ cursor : LeafEntryCursor κ, LeafEntryCursor.new page = .ok cursor ∧ CursorOn kind es cursor ∧
      cursor.slot = 0 ∧ cursor.buffered = none := by
  refine ⟨_, by rw [LeafEntryCursor.new, openLeaf_of_reads reads]; rfl, ?_, rfl, rfl⟩
  exact ⟨⟨nextLeaf, reads⟩, length_map _, fun _ => Or.inl rfl⟩

section

variable (on : CursorOn kind es cursor)
include on

theorem decodeRaw_spec (plain : cursor.pageType ≠ pageTypePrefixLeaf) (found : es[slot]? = some entry) :
    decodeRaw kind cursor slot = .ok entry := by
  obtain ⟨nextLeaf, reads⟩ := on.reads
  have bytes : (es.map kind.entryBytes)[slot]? = some (kind.entryBytes entry) := by
    rw [List.getElem?_map, found, map_some]
  have stored := storedEntry_of_reads (sliceOutOfBounds "entry") reads bytes
  rw [length_map, ← on.count, storedForm, if_neg plain] at stored
  rw [decodeRaw, stored]
  exact fromBytes_of_codes kind.codes_entry entry

theorem decodePrefixAt_spec {previous : Bytes} (compressed : cursor.pageType = pageTypePrefixLeaf)
    (found : es[slot]? = some entry) (ready : Ready (es.map kind.entryBytes) slot previous) :
    decodePrefixAt kind cursor previous slot = .ok (entry, kind.entryBytes entry) := by
  obtain ⟨nextLeaf, reads⟩ := on.reads
  have bytes : (es.map kind.entryBytes)[slot]? = some (kind.entryBytes entry) := by
    rw [List.getElem?_map, found, map_some]
  rw [compressed] at reads
  have rebuilt := reconstructPrefixEntry_of_ready (sliceOutOfBounds "entry") reads bytes ready
  rw [length_map, ← on.count] at rebuilt
  rw [decodePrefixAt, rebuilt]
  simp only [bind, Except.bind, fromBytes_of_codes kind.codes_entry entry]
  rfl

theorem decodePrefixNext_spec
    (compressed : cursor.pageType = pageTypePrefixLeaf) (found : es[cursor.slot]? = some entry) :
    ∃ next, decodePrefixNext kind cursor = .ok (entry, next) ∧ CursorOn kind es next ∧
      next.slot = cursor.slot + 1 ∧ next.buffered = cursor.buffered ∧
      next.pageType = cursor.pageType := by
  have bytes : (es.map kind.entryBytes)[cursor.slot]? = some (kind.entryBytes entry) := by
    rw [List.getElem?_map, found, map_some]
  refine ⟨{ cursor with slot := cursor.slot + 1, previous := kind.entryBytes entry }, ?_,
    ⟨on.reads, on.count, fun _ => ready_succ bytes⟩, rfl, rfl, rfl⟩
  rw [decodePrefixNext, decodePrefixAt_spec on compressed found (on.ready compressed)]
  rfl

theorem nextEntry_of_nil (done : remaining es cursor = []) : cursor.nextEntry kind = .ok none := by
  obtain ⟨unbuffered, passed⟩ := append_eq_nil_iff.mp done
  have buffer : cursor.buffered = none := by simpa using unbuffered
  rw [nextEntry, buffer, on.count]
  exact if_pos (drop_eq_nil_iff.mp passed)

theorem nextEntry_of_cons {rest : List (κ × FactRef)} (left : remaining es cursor = entry :: rest) :
    ∃ next, cursor.nextEntry kind = .ok (some (entry, next)) ∧ CursorOn kind es next ∧
      remaining es next = rest := by
  unfold remaining at left
  cases buffer : cursor.buffered with
  | some held =>
    rw [buffer, toList_some, cons_append, nil_append, List.cons.injEq] at left
    obtain ⟨rfl, rfl⟩ := left
    refine ⟨{ cursor with buffered := none }, by rw [nextEntry, buffer],
      ⟨on.reads, on.count, on.ready⟩, rfl⟩
  | none =>
    rw [buffer, toList_none, nil_append] at left
    have inside : cursor.slot < es.length := by
      by_contra outside
      rw [drop_eq_nil_of_le (by omega)] at left
      cases left
    rw [drop_eq_getElem_cons inside, List.cons.injEq] at left
    obtain ⟨rfl, rfl⟩ := left
    have found : es[cursor.slot]? = some es[cursor.slot] := List.getElem?_eq_getElem inside
    have more : ¬ cursor.entryCount ≤ cursor.slot := by rw [on.count]; omega
    by_cases compressed : cursor.pageType = pageTypePrefixLeaf
    · obtain ⟨next, decoded, nextOn, slot, same, -⟩ := decodePrefixNext_spec on compressed found
      refine ⟨next, ?_, nextOn, by rw [remaining, same, buffer, slot]; rfl⟩
      rw [nextEntry, buffer]
      simp only [if_neg more, if_pos compressed, decoded]
      rfl
    · refine ⟨{ cursor with slot := cursor.slot + 1 }, ?_, ⟨on.reads, on.count, ?_⟩, ?_⟩
      · rw [nextEntry, buffer]
        simp only [if_neg more, if_neg compressed, decodeRaw_spec on compressed found]
        rfl
      · exact fun other => absurd other compressed
      · rw [remaining, buffer]
        rfl

end

end Cursors

section Order

variable {κ : Type} {kind : IndexKind κ} {es : List (κ × FactRef)} {start : κ} {i j : Nat}
  {a b : κ × FactRef}

def Increasing (kind : IndexKind κ) (es : List (κ × FactRef)) : Prop :=
  es.Pairwise fun a b => kind.cmp a.1 b.1 = .lt

def Precedes (kind : IndexKind κ) (start : κ) (a b : κ × FactRef) : Prop :=
  (kind.cmp a.1 b.1).isLE = true ∧ ¬ (kind.cmp a.1 start = .eq ∧ kind.cmp b.1 start = .eq)

def SortedFor (kind : IndexKind κ) (start : κ) (es : List (κ × FactRef)) : Prop :=
  es.Pairwise (Precedes kind start)

theorem Increasing.sortedFor (increasing : Increasing kind es) (start : κ) :
    SortedFor kind start es := by
  refine increasing.imp fun {a b} less => ⟨by rw [less]; rfl, ?_⟩
  rintro ⟨left, right⟩
  have same : kind.cmp a.1 b.1 = .eq := Std.TransCmp.eq_trans left (Std.OrientedCmp.eq_symm right)
  rw [less] at same
  cases same

def below (kind : IndexKind κ) (start : κ) (entry : κ × FactRef) : Bool :=
  (kind.cmp entry.1 start).isLT

theorem SortedFor.precedes (sorted : SortedFor kind start es) (less : i < j)
    (left : es[i]? = some a) (right : es[j]? = some b) : Precedes kind start a b := by
  obtain ⟨boundI, rfl⟩ := List.getElem?_eq_some_iff.mp left
  obtain ⟨boundJ, rfl⟩ := List.getElem?_eq_some_iff.mp right
  exact pairwise_iff_getElem.mp sorted i j boundI boundJ less

theorem Precedes.below (precedes : Precedes kind start a b) (le : (kind.cmp b.1 start).isLE = true) :
    below kind start a = true := by
  obtain ⟨order, apart⟩ := precedes
  rw [BTree.below, Ordering.isLT_iff_eq_lt]
  cases compared : kind.cmp a.1 start with
  | lt => rfl
  | eq =>
    have same : kind.cmp b.1 start = .eq := by
      have ge : (kind.cmp start b.1).isLE = true :=
        Std.TransCmp.isLE_trans (by rw [Std.OrientedCmp.eq_symm compared]; rfl) order
      exact Std.OrientedCmp.isLE_antisymm le ge
    exact absurd ⟨compared, same⟩ apart
  | gt =>
    have := Std.TransCmp.isLE_trans order le
    rw [compared] at this
    cases this

theorem isLE_of_below (small : below kind start a = true) : (kind.cmp a.1 start).isLE = true := by
  revert small
  rw [below]
  cases kind.cmp a.1 start <;> decide

theorem SortedFor.isLE_of_le (sorted : SortedFor kind start es) (le : i ≤ j)
    (left : es[i]? = some a) (right : es[j]? = some b) (small : (kind.cmp b.1 start).isLE = true) :
    (kind.cmp a.1 start).isLE = true := by
  rcases Nat.lt_or_eq_of_le le with less | rfl
  · exact isLE_of_below ((sorted.precedes less left right).below small)
  · obtain rfl : a = b := by rw [left] at right; exact Option.some.inj right
    exact small

theorem SortedFor.below_of_le (sorted : SortedFor kind start es) (le : i ≤ j) (left : es[i]? = some a)
    (right : es[j]? = some b) (small : below kind start b = true) : below kind start a = true := by
  rcases Nat.lt_or_eq_of_le le with less | rfl
  · exact (sorted.precedes less left right).below (isLE_of_below small)
  · obtain rfl : a = b := by rw [left] at right; exact Option.some.inj right
    exact small

theorem SortedFor.downward_below {count : Nat} (sorted : SortedFor kind start es) (whole : count = es.length)
    (i j : Nat) (le : i ≤ j) (small : j < count) (holds : es[j]?.any (below kind start) = true) :
    es[i]?.any (below kind start) = true := by
  have right := List.getElem?_eq_getElem (whole ▸ small : j < es.length)
  have left := List.getElem?_eq_getElem (by omega : i < es.length)
  simp only [left, right, any_some] at holds ⊢
  exact sorted.below_of_le le left right holds

theorem dropWhile_eq_drop {α : Type} {p : α → Bool} {xs : List α} {n : Nat}
    (passed : ∀ i x, i < n → xs[i]? = some x → p x = true) (stops : ∀ x, xs[n]? = some x → p x = false) :
    xs.dropWhile p = xs.drop n := by
  induction xs generalizing n with
  | nil => simp
  | cons x xs ih =>
    cases n with
    | zero => rw [dropWhile_cons, if_neg (by simp [stops x rfl]), drop_zero]
    | succ n =>
      rw [dropWhile_cons, if_pos (passed 0 x (by omega) rfl), drop_succ_cons]
      exact ih (fun i y small found => passed (i + 1) y (by omega) found) stops

end Order

section Seek

variable {κ : Type} {kind : IndexKind κ} {es : List (κ × FactRef)} {cursor : LeafEntryCursor κ}
  {start : κ}

theorem seekRawLowerBound_spec (on : CursorOn kind es cursor) (plain : cursor.pageType ≠ pageTypePrefixLeaf)
    (unbuffered : cursor.buffered = none) (sorted : SortedFor kind start es) :
    ∃ next, seekRawLowerBound kind cursor start = .ok next ∧ CursorOn kind es next ∧
      remaining es next = es.dropWhile (below kind start) := by
  obtain ⟨point, bound, searched, passed, stops⟩ := PartitionPoint.search_spec (rawBelow kind cursor start)
    (fun i => es[i]?.any (below kind start)) cursor.entryCount
    (by
      intro i small
      have found := List.getElem?_eq_getElem (on.count ▸ small : i < es.length)
      simp only [rawBelow, decodeRaw_spec on plain found, found, bind, Except.bind]
      rfl)
    (sorted.downward_below on.count)
  have dropped : es.dropWhile (below kind start) = es.drop point := by
    apply dropWhile_eq_drop
    · intro i e small found
      simpa [found] using passed i small
    · intro e found
      obtain ⟨inside, -⟩ := List.getElem?_eq_some_iff.mp found
      simpa [found] using stops point (Nat.le_refl _) (by rw [on.count]; exact inside)
  rw [seekRawLowerBound, searched]
  simp only [bind, Except.bind]
  by_cases more : point < cursor.entryCount
  · have inside : point < es.length := on.count ▸ more
    simp only [if_pos more, decodeRaw_spec on plain (List.getElem?_eq_getElem inside)]
    refine ⟨_, rfl, ⟨on.reads, on.count, fun other => absurd other plain⟩, ?_⟩
    rw [dropped, drop_eq_getElem_cons inside]
    rfl
  · simp only [if_neg more]
    refine ⟨_, rfl, ⟨on.reads, on.count, fun other => absurd other plain⟩, ?_⟩
    rw [dropped, remaining, unbuffered]
    rfl

theorem walkBlock_spec (fuel : Nat) (on : CursorOn kind es cursor)
    (compressed : cursor.pageType = pageTypePrefixLeaf) (unbuffered : cursor.buffered = none)
    (enough : (cursor.slot / prefixRestartInterval + 1) * prefixRestartInterval ≤ cursor.slot + fuel)
    (passed : ∀ i e, i < cursor.slot → es[i]? = some e → below kind start e = true)
    (stops : ∀ e, es[(cursor.slot / prefixRestartInterval + 1) * prefixRestartInterval]? = some e →
      below kind start e = false) :
    ∃ next, walkBlock kind start fuel cursor = .ok next ∧ CursorOn kind es next ∧
      remaining es next = es.dropWhile (below kind start) := by
  simp only [prefixRestartInterval] at enough stops
  induction fuel generalizing cursor with
  | zero => omega
  | succ fuel ih =>
    rw [walkBlock]
    split
    · rename_i more
      have inside : cursor.slot < es.length := on.count ▸ more
      have found := List.getElem?_eq_getElem inside
      obtain ⟨next, decoded, nextOn, slot, buffer, type⟩ := decodePrefixNext_spec on compressed found
      simp only [decoded, bind, Except.bind]
      split
      · rename_i reached
        have first : below kind start es[cursor.slot] = false := by
          revert reached
          rw [below]
          cases kind.cmp es[cursor.slot].1 start <;> decide
        refine ⟨_, rfl, ⟨nextOn.reads, nextOn.count, nextOn.ready⟩, ?_⟩
        have here : ∀ e, es[cursor.slot]? = some e → below kind start e = false := by
          intro e same
          rw [found] at same
          cases same
          exact first
        rw [dropWhile_eq_drop passed here, drop_eq_getElem_cons inside, remaining, slot]
        rfl
      · rename_i smaller
        have small : below kind start es[cursor.slot] = true := by
          revert smaller
          rw [below]
          cases kind.cmp es[cursor.slot].1 start <;> decide
        have passed' : ∀ i e, i < next.slot → es[i]? = some e → below kind start e = true := by
          intro i e before same
          rcases Nat.lt_or_eq_of_le (Nat.lt_succ_iff.mp (slot ▸ before)) with before | rfl
          · exact passed i e before same
          · rw [found] at same
            cases same
            exact small
        split
        · rename_i ends
          simp only [prefixRestartInterval] at ends
          refine ⟨next, rfl, nextOn, ?_⟩
          rw [dropWhile_eq_drop passed' fun e same => stops e (by
            rw [← same, slot]; congr 1; omega), remaining, buffer, unbuffered]
          rfl
        · rename_i inBlock
          simp only [prefixRestartInterval] at inBlock
          have block : next.slot / 16 = cursor.slot / 16 := by omega
          exact ih nextOn (type.trans compressed) (buffer.trans unbuffered) (by omega) passed'
            (by rw [block]; exact stops)
    · rename_i done
      refine ⟨cursor, rfl, on, ?_⟩
      have outside : es.length ≤ cursor.slot := by rw [on.count] at done; omega
      have absent : ∀ e, es[cursor.slot]? = some e → below kind start e = false := by
        intro e same
        rw [List.getElem?_eq_none outside] at same
        cases same
      rw [dropWhile_eq_drop passed absent, remaining, unbuffered]
      rfl

theorem restart_inside {count m : Nat} (small : m < restartCount count) :
    m * prefixRestartInterval < count := by
  simp only [restartCount, prefixRestartInterval] at small ⊢
  omega

theorem restart_of_inside {count m : Nat} (small : m * prefixRestartInterval < count) :
    m < restartCount count := by
  simp only [restartCount, prefixRestartInterval] at small ⊢
  omega

theorem seekPrefixLowerBound_spec (on : CursorOn kind es cursor)
    (compressed : cursor.pageType = pageTypePrefixLeaf) (unbuffered : cursor.buffered = none)
    (sorted : SortedFor kind start es) :
    ∃ next, seekPrefixLowerBound kind cursor start = .ok next ∧ CursorOn kind es next ∧
      remaining es next = es.dropWhile (below kind start) := by
  rw [seekPrefixLowerBound]
  split
  · rename_i empty
    have noEntry : es = [] := eq_nil_of_length_eq_zero (on.count ▸ empty)
    exact ⟨cursor, rfl, on, by simp [remaining, unbuffered, noEntry]⟩
  obtain ⟨point, bound, searched, passed, stops⟩ := PartitionPoint.search_spec
    (restartNotAbove kind cursor start)
    (fun m => es[m * prefixRestartInterval]?.any fun e => (kind.cmp e.1 start).isLE)
    (restartCount cursor.entryCount)
    (by
      intro m small
      have found := List.getElem?_eq_getElem (on.count ▸ restart_inside small)
      have ready : Ready (es.map kind.entryBytes) (m * prefixRestartInterval) [] :=
        Or.inl (Nat.mul_mod_left _ _)
      simp only [restartNotAbove, decodePrefixAt_spec on compressed found ready, found, bind, Except.bind]
      rfl)
    (by
      intro m m' le small holds
      have inside := on.count ▸ restart_inside small
      have order := Nat.mul_le_mul_right prefixRestartInterval le
      have right := List.getElem?_eq_getElem inside
      have left := List.getElem?_eq_getElem (Nat.lt_of_le_of_lt order inside)
      simp only [left, right, any_some] at holds ⊢
      exact sorted.isLE_of_le order left right holds)
  rw [searched]
  simp only [bind, Except.bind]
  have placed : CursorOn kind es
      { cursor with slot := (point - 1) * prefixRestartInterval, previous := [] } :=
    ⟨on.reads, on.count, fun _ => Or.inl (Nat.mul_mod_left _ _)⟩
  refine walkBlock_spec prefixRestartInterval placed compressed unbuffered ?_ ?_ ?_
  · simp only [prefixRestartInterval]
    omega
  · -- the block begins with a key that is not larger, so all before it are smaller
    intro i e before found
    have order : i < (point - 1) * prefixRestartInterval := before
    have inside : (point - 1) * prefixRestartInterval < es.length := by
      rw [← on.count]
      apply restart_inside
      simp only [prefixRestartInterval] at order
      omega
    have first := List.getElem?_eq_getElem inside
    have least := passed (point - 1) (by simp only [prefixRestartInterval] at order; omega)
    simp only [first, any_some] at least
    exact (sorted.precedes order found first).below least
  · -- the next block begins with a larger key
    intro e found
    have after : (point - 1) * prefixRestartInterval / prefixRestartInterval + 1 = max point 1 := by
      simp only [prefixRestartInterval]
      omega
    rw [show ((point - 1) * prefixRestartInterval / prefixRestartInterval + 1) *
      prefixRestartInterval = max point 1 * prefixRestartInterval by rw [after]] at found
    obtain ⟨inside, -⟩ := List.getElem?_eq_some_iff.mp found
    have large := stops point (Nat.le_refl _) (by
      apply restart_of_inside
      rw [on.count]
      simp only [prefixRestartInterval] at inside ⊢
      omega)
    by_contra small
    have holds : (kind.cmp e.1 start).isLE = true := isLE_of_below (by simpa using small)
    have order : point * prefixRestartInterval ≤ max point 1 * prefixRestartInterval :=
      Nat.mul_le_mul_right _ (Nat.le_max_left _ _)
    have first := List.getElem?_eq_getElem (Nat.lt_of_le_of_lt order inside)
    simp only [first, any_some] at large
    rw [sorted.isLE_of_le order first found holds] at large
    cases large

theorem seekLowerBound_spec (on : CursorOn kind es cursor) (unbuffered : cursor.buffered = none)
    (sorted : SortedFor kind start es) :
    ∃ next, cursor.seekLowerBound kind start = .ok next ∧ CursorOn kind es next ∧
      remaining es next = es.dropWhile (below kind start) := by
  rw [seekLowerBound]
  split
  · exact seekPrefixLowerBound_spec on ‹_› unbuffered sorted
  · exact seekRawLowerBound_spec on ‹_› unbuffered sorted

end Seek

end ViciaDb.BTree
