import ViciaDb.Graph.CurrentReducer

namespace ViciaDb

open List

variable {a b : List Fact} {key : WindowKey} {validTime : CurrentValidTime}

variable (apart : ∀ fact ∈ a, ∀ other ∈ b, fact.entity ≠ other.entity)

include apart in
theorem NetAsserted.append : NetAsserted (a ++ b) key ↔ NetAsserted a key ∨ NetAsserted b key := by
  have entityOf : ∀ fact : Fact, fact.windowKey = key → fact.entity = key.eav.entity := by
    rintro fact rfl
    rfl
  have entityOf' : ∀ fact : Fact, fact.cancels key = true → fact.entity = key.eav.entity := by
    intro fact cancels
    simp only [Fact.cancels, Bool.and_eq_true, Bool.or_eq_true, beq_iff_eq] at cancels
    obtain ⟨-, ⟨-, same⟩ | ⟨-, same⟩⟩ := cancels
    · rw [← same]
      rfl
    · rw [← same]
      rfl
  constructor
  · rintro ⟨fact, member, asserted, same, positive, clear⟩
    rcases mem_append.mp member with member | member
    · exact Or.inl ⟨fact, member, asserted, same, positive, fun r inA => clear r (mem_append_left _ inA)⟩
    · exact Or.inr ⟨fact, member, asserted, same, positive, fun r inB => clear r (mem_append_right _ inB)⟩
  · rintro (⟨fact, member, asserted, same, positive, clear⟩ | ⟨fact, member, asserted, same, positive, clear⟩)
    · refine ⟨fact, mem_append_left _ member, asserted, same, positive, ?_⟩
      intro r inBoth cancels
      rcases mem_append.mp inBoth with inA | inB
      · exact clear r inA cancels
      · exact absurd ((entityOf fact same).trans (entityOf' r cancels).symm) (apart fact member r inB)
    · refine ⟨fact, mem_append_right _ member, asserted, same, positive, ?_⟩
      intro r inBoth cancels
      rcases mem_append.mp inBoth with inA | inB
      · exact absurd ((entityOf' r cancels).trans (entityOf fact same).symm) (apart r inA fact member)
      · exact clear r inB cancels

include apart in
theorem Current.append :
    Current validTime (a ++ b) key ↔ Current validTime a key ∨ Current validTime b key := by
  simp only [Current, NetAsserted.append apart, or_and_right]

theorem Current.entity {records : List Fact} (current : Current validTime records key) :
    ∃ fact ∈ records, fact.entity = key.eav.entity := by
  obtain ⟨⟨fact, member, -, rfl, -⟩, -⟩ := current
  exact ⟨fact, member, rfl⟩

structure CurrentRows (validTime : CurrentValidTime) (records rows : List Fact) : Prop where
  nodup : (rows.map Fact.windowKey).Nodup
  mem : ∀ key, key ∈ rows.map Fact.windowKey ↔ Current validTime records key

include apart in
theorem CurrentRows.append {rows rows' : List Fact}
    (left : CurrentRows validTime a rows) (right : CurrentRows validTime b rows') :
    CurrentRows validTime (a ++ b) (rows ++ rows') where
  nodup := by
    rw [map_append]
    refine left.nodup.append right.nodup ?_
    intro key inLeft inRight
    obtain ⟨fact, member, same⟩ := Current.entity ((left.mem key).mp inLeft)
    obtain ⟨fact', member', same'⟩ := Current.entity ((right.mem key).mp inRight)
    exact apart fact member fact' member' (same.trans same'.symm)
  mem key := by
    rw [map_append, mem_append, left.mem, right.mem, Current.append apart]

structure Streamed (validTime : CurrentValidTime) (done group rows : List Fact)
    (cursor : CurrentAttributeCursor) : Prop where
  started : group = [] → done = [] ∧ cursor = {}
  one : ∀ fact ∈ group, cursor.currentEntity = some fact.entity
  apart : ∀ fact ∈ done, ∀ other ∈ group, fact.entity ≠ other.entity
  reduced : ReducesAll group cursor.values
  visited : cursor.visited = rows.map fun fact => (fact.entity, fact.value)
  rowsOf : CurrentRows validTime done rows

section Run

variable {attr : String} {validTime : CurrentValidTime}

variable {done group rows : List Fact} {cursor : CurrentAttributeCursor}

theorem Streamed.init : Streamed validTime [] [] [] {} where
  started _ := ⟨rfl, rfl⟩
  one fact member := by cases member
  apart fact member := by cases member
  reduced := ReducesAll.empty
  visited := rfl
  rowsOf := by
    refine ⟨nodup_nil, fun key => ?_⟩
    simp [Current, NetAsserted]

theorem Streamed.flush
    (before : Streamed validTime done group rows cursor) (plain : PlainEntries attr group) :
    ∃ rows', flushEntity validTime cursor =
        .ok { visited := rows'.map fun fact => (fact.entity, fact.value) } ∧
      CurrentRows validTime (done ++ group) rows' := by
  cases start : group with
  | nil =>
    obtain ⟨rfl, rfl⟩ := before.started start
    exact ⟨[], rfl, Streamed.init.rowsOf⟩
  | cons first others =>
    have here : cursor.currentEntity = some first.entity := before.one first (by simp [start])
    have one : ∀ fact ∈ group, fact.entity = first.entity := fun fact member =>
      Option.some.inj ((before.one fact member).symm.trans here)
    let output := (cursor.values.rows validTime).insertionSort fun a b => (a.compare b).isLE
    have sorted : output.Perm (cursor.values.rows validTime) := perm_insertionSort _ _
    have values : output.mapM CurrentRow.value = .ok (output.map fun row => row.fact.value) :=
      mapM_ok_of_forall fun row member => row_value before.reduced (sorted.mem_iff.mp member)
    have flushed : CurrentRows validTime group (output.map CurrentRow.fact) := by
      have keys := (sorted.map fun row => row.fact.windowKey)
      refine ⟨?_, fun key => ?_⟩
      · rw [map_map]
        exact keys.nodup_iff.mpr (nodup_map_rows plain.tellsApart one before.reduced validTime)
      · rw [map_map, ← mem_map_rows plain.tellsApart one before.reduced]
        exact keys.mem_iff
    refine ⟨rows ++ output.map CurrentRow.fact, ?_, start ▸ before.rowsOf.append before.apart flushed⟩
    have entities : (output.map CurrentRow.fact).map (fun fact => (fact.entity, fact.value)) =
        output.map fun row => (first.entity, row.fact.value) := by
      rw [map_map]
      refine map_congr_left fun row member => ?_
      obtain ⟨inGroup, -⟩ := row_of_mem before.reduced (sorted.mem_iff.mp member)
      simp [one _ inGroup]
    rw [map_append, ← before.visited, entities]
    simp only [flushEntity, here, bind, Except.bind]
    rw [values]
    simp [Function.comp_def]

theorem Streamed.extend {fact : Fact} (before : Streamed validTime done group rows cursor)
    (same : ∀ other ∈ group, other.entity = fact.entity) :
    Streamed validTime done (group ++ [fact]) rows
      { cursor with currentEntity := some fact.entity, values := cursor.values.reduce fact } := by
  refine ⟨by simp, ?_, ?_, before.reduced.step fact, before.visited, before.rowsOf⟩
  · intro other member
    rcases mem_append.mp member with member | member
    · simp [same other member]
    · simp [mem_singleton.mp member]
  · intro other inDone next member
    rcases mem_append.mp member with member | member
    · exact before.apart other inDone next member
    obtain rfl := mem_singleton.mp member
    cases start : group with
    | nil =>
      obtain ⟨rfl, -⟩ := before.started start
      cases inDone
    | cons first others =>
      have inGroup : first ∈ group := by simp [start]
      rw [← same first inGroup]
      exact before.apart other inDone first inGroup

variable {asOf : Option AsOf}

theorem Streamed.step {done group rows : List Fact} {cursor : CurrentAttributeCursor} {fact : Fact}
    (before : Streamed validTime done group rows cursor) (visible : entryVisibleAsOf asOf fact = true)
    (plain : PlainEntries attr group)
    (sorted : (done ++ group ++ [fact]).Pairwise fun a b => a.entity ≤ b.entity) :
    ∃ done' group' rows' next, accept asOf validTime cursor fact = .ok next ∧
      done' ++ group' = done ++ group ++ [fact] ∧ Streamed validTime done' group' rows' next := by
  cases start : group with
  | nil =>
    obtain ⟨rfl, rfl⟩ := before.started start
    subst start
    refine ⟨[], [fact], rows, _, ?_, rfl, before.extend (by simp)⟩
    simp [accept, visible, bind, Except.bind]
  | cons first others =>
    have inGroup : first ∈ group := by simp [start]
    have here := before.one first inGroup
    have one : ∀ other ∈ group, other.entity = first.entity := fun other member =>
      Option.some.inj ((before.one other member).symm.trans here)
    rw [← start]
    by_cases moved : first.entity = fact.entity
    · refine ⟨done, group ++ [fact], rows, _, ?_, by simp,
        before.extend fun other member => (one other member).trans moved⟩
      simp [accept, visible, here, moved, bind, Except.bind]
    obtain ⟨rows', flushed, current⟩ := before.flush plain
    refine ⟨done ++ group, [fact], rows', ⟨some fact.entity,
      (∅ : CurrentAttributeValues).reduce fact, rows'.map fun fact => (fact.entity, fact.value)⟩,
      ?_, rfl, ?_⟩
    · simp [accept, visible, here, moved, flushed, bind, Except.bind]
    refine ⟨by simp, by simp, ?_, ReducesAll.empty.step fact, rfl, current⟩
    -- The group's entity lies strictly below the new one, and no entity before exceeds it.
    intro other member next isFact
    obtain rfl := mem_singleton.mp isFact
    rw [pairwise_append, pairwise_append] at sorted
    obtain ⟨⟨-, -, doneGroup⟩, -, beforeFact⟩ := sorted
    have upper := beforeFact first (by simp [inGroup]) next (by simp)
    rcases mem_append.mp member with inDone | inGroup'
    · have lower := doneGroup other inDone first inGroup
      intro same
      exact moved (BitVec.le_antisymm upper (same ▸ lower))
    · rw [one other inGroup']
      exact moved

theorem Streamed.run {entries : List Fact} (before : Streamed validTime done group rows cursor)
    (plain : PlainEntries attr (done ++ group ++ entries))
    (sorted : (done ++ group ++ entries).Pairwise fun a b => a.entity ≤ b.entity) :
    ∃ done' group' rows' last, entries.foldlM (accept asOf validTime) cursor = .ok last ∧
      done' ++ group' =
        done ++ group ++ entries.filter (entryVisibleAsOf asOf) ∧
      Streamed validTime done' group' rows' last := by
  induction entries generalizing done group rows cursor with
  | nil => exact ⟨done, group, rows, cursor, rfl, by simp, before⟩
  | cons fact entries ih =>
    by_cases visible : entryVisibleAsOf asOf fact = true
    · have prefixSorted := sorted.sublist
        (List.Sublist.append_left (singleton_sublist.mpr (by simp : fact ∈ fact :: entries)) _)
      obtain ⟨done', group', rows', next, accepted, joined, after⟩ := before.step visible
        (plain.mono (by grind)) prefixSorted
      have whole : done' ++ group' ++ entries = done ++ group ++ fact :: entries := by
        rw [joined]
        simp
      obtain ⟨done', group', rows', last, ran, joined', final⟩ := ih after (whole ▸ plain) (whole ▸ sorted)
      refine ⟨done', group', rows', last, ?_, ?_, final⟩
      · rw [foldlM_cons, accepted]
        exact ran
      · rw [joined', joined, filter_cons_of_pos visible]
        simp
    · obtain ⟨done', group', rows', last, ran, joined, final⟩ := ih before
        (plain.mono (by grind)) (sorted.sublist
          (List.Sublist.append_left (sublist_cons_self _ _) _))
      refine ⟨done', group', rows', last, ?_, ?_, final⟩
      · rw [foldlM_cons, accept, if_neg visible]
        exact ran
      · rw [joined, filter_cons_of_neg visible]

variable {attr : String}

theorem attr_le_of_mem_rangeAevt {facts : List Fact} {fact : Fact} (member : fact ∈ rangeAevt attr facts) :
    fact ∈ facts ∧ inAttributeRange attr fact = true ∧
      (compare (utf8Bytes attr) (utf8Bytes fact.attr)).isLE = true := by
  obtain ⟨inFacts, inRange⟩ := mem_filter.mp ((indexRange_perm _ _ _).mem_iff.mp member)
  exact ⟨inFacts, inRange, (Bool.and_eq_true_iff.mp inRange).1⟩

/-- The entries of the attribute itself stand in front of its index range. -/
theorem own_first_rangeAevt (facts : List Fact) :
    (rangeAevt attr facts).Pairwise fun a b => (b.attr == attr) = true → (a.attr == attr) = true := by
  refine (pairwise_indexRange compareAevt (inAttributeRange attr) facts).imp_of_mem ?_
  intro a b inA inB ordered own
  obtain rfl : b.attr = attr := by simpa using own
  have above := (attr_le_of_mem_rangeAevt inA).2.2
  have below : (compare (utf8Bytes a.attr) (utf8Bytes b.attr)).isLE = true :=
    (Ordering.isLE_then_iff_and.mp ordered).1
  have same : utf8Bytes a.attr = utf8Bytes b.attr :=
    Std.LawfulEqCmp.eq_of_compare (Std.OrientedCmp.isLE_antisymm below above)
  simpa using utf8Bytes_inj same

theorem pairwise_own_rangeAevt (facts : List Fact) :
    ((rangeAevt attr facts).filter fun fact => fact.attr == attr).Pairwise fun a b =>
      (compareAevtProjection a b).isLE := by
  refine ((pairwise_indexRange compareAevt (inAttributeRange attr) facts).filter _).imp_of_mem ?_
  intro a b inA inB ordered
  have attrOf : ∀ fact ∈ (rangeAevt attr facts).filter (fun fact => fact.attr == attr),
      fact.attr = attr := fun fact member => by simpa using (mem_filter.mp member).2
  have same : compare (utf8Bytes attr) (utf8Bytes attr) = .eq := Std.ReflCmp.compare_self
  simpa [compareAevt, compareLex, compareOn, attrOf a inA, attrOf b inB, same] using ordered

theorem pairwise_rangeAevt {facts : List Fact}
    (alone : ∀ fact ∈ facts, inAttributeRange attr fact = true → fact.attr = attr) :
    (rangeAevt attr facts).Pairwise fun a b => (compareAevtProjection a b).isLE := by
  have own : (rangeAevt attr facts).filter (fun fact => fact.attr == attr) = rangeAevt attr facts := by
    refine filter_eq_self.mpr fun fact member => ?_
    obtain ⟨inFacts, inRange, -⟩ := attr_le_of_mem_rangeAevt member
    rw [alone fact inFacts inRange, beq_self_eq_true]
  rw [← own]
  exact pairwise_own_rangeAevt facts

theorem entity_le_of_projection {a b : Fact} (ordered : (compareAevtProjection a b).isLE = true) :
    a.entity ≤ b.entity := by
  have entities : (compare a.entity b.entity).isLE = true := by
    cases order : compare a.entity b.entity <;>
      simp_all [compareAevtProjection, compareLex, compareOn]
  simp only [compare, compareOfLessAndEq] at entities
  split at entities
  · exact BitVec.le_of_lt ‹_›
  · split at entities
    · exact BitVec.le_of_eq ‹_›
    · cases entities

/-- The merge compares without the attribute, and still keeps the attribute's own entries in order. -/
theorem pairwise_mergedEntries (log : FactLog) :
    ((mergedEntries log attr).filter fun fact => fact.attr == attr).Pairwise fun a b =>
      a.entity ≤ b.entity := by
  rw [mergedEntries, filter_mergeScan _ (own_first_rangeAevt _) (own_first_rangeAevt _)]
  exact (pairwise_mergeScan (pairwise_own_rangeAevt _) (pairwise_own_rangeAevt _)).imp entity_le_of_projection

theorem mergedEntries_perm_range (log : FactLog) :
    (mergedEntries log attr).Perm (log.records.filter (inAttributeRange attr)) := by
  rw [FactLog.records, filter_append]
  exact (mergeScan_perm _ _ _).trans ((indexRange_perm _ _ _).append (indexRange_perm _ _ _))

theorem foldlM_accept_filter (entries : List Fact) (cursor : CurrentAttributeCursor) :
    (entries.filter (entryVisibleAsOf asOf)).foldlM (accept asOf validTime) cursor =
      entries.foldlM (accept asOf validTime) cursor := by
  induction entries generalizing cursor with
  | nil => rfl
  | cons fact entries ih =>
    by_cases visible : entryVisibleAsOf asOf fact = true
    · rw [filter_cons_of_pos visible, foldlM_cons, foldlM_cons]
      exact bind_congr fun next => ih next
    · rw [filter_cons_of_neg visible, foldlM_cons, ih, accept, if_neg visible]
      rfl

theorem visitCurrentAttributeValues_spec {log : FactLog}
    (alone : ∀ fact ∈ log.records, entryVisibleAsOf asOf fact = true →
      inAttributeRange attr fact = true → fact.attr = attr)
    (numbers : ∀ fact ∈ log.records, entryVisibleAsOf asOf fact = true → fact.attr = attr →
      fact.value.isNan = false) :
    ∃ rows, visitCurrentAttributeValues asOf validTime log attr =
        .ok (rows.map fun fact => (fact.entity, fact.value)) ∧
      CurrentRows validTime ((mergedEntries log attr).filter (entryVisibleAsOf asOf)) rows := by
  let seen := (mergedEntries log attr).filter (entryVisibleAsOf asOf)
  have plain : PlainEntries attr seen := by
    intro fact member
    obtain ⟨inMerge, visible⟩ := mem_filter.mp member
    obtain ⟨inRecords, inRange⟩ := mem_filter.mp ((mergedEntries_perm_range log).mem_iff.mp inMerge)
    have attrOf := alone fact inRecords visible inRange
    exact ⟨attrOf, numbers fact inRecords visible attrOf⟩
  have ownSeen : seen = ((mergedEntries log attr).filter fun fact => fact.attr == attr).filter
      (entryVisibleAsOf asOf) := by
    rw [filter_filter]
    refine filter_congr fun fact inMerge => ?_
    cases visible : entryVisibleAsOf asOf fact with
    | false => rfl
    | true =>
      have attrOf := (plain fact (mem_filter.mpr ⟨inMerge, visible⟩)).1
      simp [attrOf]
  have sorted : seen.Pairwise fun a b => a.entity ≤ b.entity := by
    rw [ownSeen]
    exact (pairwise_mergedEntries log).filter _
  obtain ⟨done, group, rows, last, ran, joined, final⟩ : ∃ done group rows last,
      seen.foldlM (accept asOf validTime) {} = .ok last ∧
      done ++ group = seen.filter (entryVisibleAsOf asOf) ∧
      Streamed validTime done group rows last :=
    Streamed.init.run plain sorted
  rw [foldlM_accept_filter] at ran
  have joined : done ++ group = seen := by
    rw [joined, filter_filter]
    simp only [Bool.and_self]
    rfl
  have plainGroup : PlainEntries attr group := by
    refine plain.mono fun fact member => ?_
    rw [← joined]
    exact mem_append_right _ member
  obtain ⟨rows', flushed, current⟩ := final.flush plainGroup
  refine ⟨rows', ?_, ?_⟩
  · rw [visitCurrentAttributeValues, ran]
    simp only [bind, Except.bind, flushed]
  · rwa [joined] at current

end Run

end ViciaDb
