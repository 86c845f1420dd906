import ViciaDb.Graph.ExactReads

namespace ViciaDb

open List MergeCursor CurrentAttributeValues

abbrev Interval := EntityId × Value × Window

structure EntityGroup where
  currentEntity : Option EntityId := none
  values : CurrentAttributeValues := ∅

/-- The fact is not below the entity the cursor starts at. Facts of other attributes in the range
    come after the attribute asked for. -/
def startsAt (attr : String) (start : EntityId) (fact : Fact) : Bool :=
  decide (fact.attr ≠ attr) || decide (start ≤ fact.entity)

structure AttributeScan where
  start : EntityId
  cursor : Cursor Fact
  group : EntityGroup

section Cursor

variable (asOf : Option AsOf) (validTime : CurrentValidTime) (log : FactLog) (attr : String)

def flushIntervals (group : EntityGroup) : Except String (List Interval) :=
  match group.currentEntity with
  | none => .ok []
  | some entity =>
    ((group.values.rows validTime).insertionSort fun a b => (a.compare b).isLE).mapM fun row => do
      let value ← row.value
      return (entity, value, row.window)

def acceptInterval (state : EntityGroup × List Interval) (fact : Fact) :
    Except String (EntityGroup × List Interval) :=
  if entryVisibleAsOf asOf fact then do
    let (group, visits) ←
      if state.1.currentEntity.any fun entity => entity ≠ fact.entity then do
        let flushed ← flushIntervals validTime state.1
        pure ({}, state.2 ++ flushed)
      else pure state
    return ({ currentEntity := some fact.entity, values := group.values.reduce fact }, visits)
  else .ok state

def currentAttributeCursorStartingAt (start : EntityId) : AttributeScan where
  start := start
  cursor := .start ((rangeAevt attr log.pending).filter (startsAt attr start))
  group := {}

def currentAttributeCursor : AttributeScan := currentAttributeCursorStartingAt log attr 0

def currentAttributeCursorAfter (after : EntityId) : Option AttributeScan :=
  if after = BitVec.allOnes 128 then none
  else some (currentAttributeCursorStartingAt log attr (after + 1))

def stepCurrentAttributeIntervalCursor (maxEntries : Nat) (scan : AttributeScan) :
    Except String (AttributeScan × List Interval × Nat × Bool) := do
  let (taken, cursor, complete) := step (budgetRules compareAevtProjection maxEntries)
    ((rangeAevt attr log.committed).filter (startsAt attr scan.start)) scan.cursor
  let (group, visits) ← taken.foldlM (acceptInterval asOf validTime) (scan.group, [])
  if complete then do
    let flushed ← flushIntervals validTime group
    return ({ scan with cursor, group := {} }, visits ++ flushed, taken.length, true)
  else return ({ scan with cursor, group }, visits, taken.length, false)

def stepAttributeCursor : List Nat → AttributeScan → Except String (Option (List Interval))
  | [], _ => .ok none
  | budget :: budgets, scan => do
    let (scan, visits, _, complete) ← stepCurrentAttributeIntervalCursor asOf validTime log attr budget scan
    if complete then return some visits
    else do
      let rest ← stepAttributeCursor budgets scan
      return rest.map (visits ++ ·)

end Cursor

section Blocks

variable {asOf : Option AsOf} {validTime : CurrentValidTime}

abbrev Block := EntityId × List (Value × Window)

def Block.visits (block : Block) : List Interval := block.2.map fun item => (block.1, item)

def groupItems (validTime : CurrentValidTime) (values : CurrentAttributeValues) : List (Value × Window) :=
  ((values.rows validTime).insertionSort fun a b => (a.compare b).isLE).map fun row =>
    (row.fact.value, row.window)

variable {values : CurrentAttributeValues} {facts : List Fact} {entity : EntityId}

theorem mapM_row_value {group : List Fact} (reduced : ReducesAll group values)
    {β : Type} (f : Value → Window → β) :
    (((values.rows validTime).insertionSort fun a b => (a.compare b).isLE).mapM fun row => do
        return f (← row.value) row.window) =
      .ok ((groupItems validTime values).map fun item => f item.1 item.2) := by
  have perm := perm_insertionSort (fun a b : CurrentRow => (a.compare b).isLE) (values.rows validTime)
  rw [groupItems, map_map]
  refine mapM_ok_of_forall fun row member => ?_
  rw [row_value reduced (perm.mem_iff.mp member)]
  rfl

theorem finishEntityAttribute_items {group : List Fact} (reduced : ReducesAll group values) :
    finishEntityAttribute validTime true values = .ok (groupItems validTime values) :=
  (mapM_row_value reduced Prod.mk).trans (congrArg _ (map_id _))

def EntityGroup.block (validTime : CurrentValidTime) (group : EntityGroup) : List Block :=
  match group.currentEntity with
  | none => []
  | some entity =>
    if groupItems validTime group.values = [] then [] else [(entity, groupItems validTime group.values)]

def acceptBlock (validTime : CurrentValidTime) (state : EntityGroup × List Block) (fact : Fact) :
    EntityGroup × List Block :=
  if state.1.currentEntity.any fun entity => entity ≠ fact.entity then
    (⟨some fact.entity, reduce ∅ fact⟩, state.2 ++ state.1.block validTime)
  else (⟨some fact.entity, state.1.values.reduce fact⟩, state.2)

variable {group : EntityGroup}

theorem flushIntervals_eq (reduced : ReducesAll facts group.values) :
    flushIntervals validTime group = .ok ((group.block validTime).flatMap Block.visits) := by
  rw [flushIntervals, EntityGroup.block]
  cases group.currentEntity with
  | none => rfl
  | some entity =>
    have visits : (if groupItems validTime group.values = [] then []
        else [(entity, groupItems validTime group.values)]).flatMap Block.visits =
          (groupItems validTime group.values).map fun item => (entity, item) := by
      split
      · rename_i empty
        rw [empty]
        rfl
      · exact append_nil _
    rw [visits]
    exact mapM_row_value reduced fun value window => (entity, value, window)

theorem acceptInterval_eq {facts : List Fact} (reduced : ReducesAll facts group.values)
    (blocks : List Block) {fact : Fact} (visible : entryVisibleAsOf asOf fact = true) :
    acceptInterval asOf validTime (group, blocks.flatMap Block.visits) fact =
        .ok ((acceptBlock validTime (group, blocks) fact).1,
          (acceptBlock validTime (group, blocks) fact).2.flatMap Block.visits) ∧
      ∃ facts, ReducesAll facts (acceptBlock validTime (group, blocks) fact).1.values := by
  rw [acceptInterval, if_pos visible, acceptBlock]
  split
  · rw [flushIntervals_eq reduced]
    refine ⟨?_, [fact], ReducesAll.empty.step fact⟩
    rw [flatMap_append]
    rfl
  · exact ⟨rfl, facts ++ [fact], reduced.step fact⟩

theorem foldlM_acceptInterval {facts : List Fact}
    (reduced : ReducesAll facts group.values) (blocks : List Block) (entries : List Fact) :
    entries.foldlM (acceptInterval asOf validTime) (group, blocks.flatMap Block.visits) =
        .ok (((entries.filter (entryVisibleAsOf asOf)).foldl (acceptBlock validTime) (group, blocks)).1,
          ((entries.filter (entryVisibleAsOf asOf)).foldl (acceptBlock validTime) (group, blocks)).2.flatMap
            Block.visits) ∧
      ∃ facts, ReducesAll facts
        ((entries.filter (entryVisibleAsOf asOf)).foldl (acceptBlock validTime) (group, blocks)).1.values := by
  induction entries generalizing group facts blocks with
  | nil => exact ⟨rfl, facts, reduced⟩
  | cons fact entries ih =>
    by_cases visible : entryVisibleAsOf asOf fact = true
    · obtain ⟨accepted, facts', reduced'⟩ := @acceptInterval_eq asOf validTime _ _ reduced blocks _ visible
      rw [foldlM_cons, accepted, filter_cons_of_pos visible]
      exact ih reduced' _
    · rw [foldlM_cons, acceptInterval, if_neg visible, filter_cons_of_neg visible]
      exact ih reduced blocks

theorem foldl_acceptBlock (group : EntityGroup) (blocks : List Block) (facts : List Fact) :
    facts.foldl (acceptBlock validTime) (group, blocks) =
      ((facts.foldl (acceptBlock validTime) (group, [])).1,
        blocks ++ (facts.foldl (acceptBlock validTime) (group, [])).2) := by
  induction facts generalizing group blocks with
  | nil => simp
  | cons fact facts ih =>
    have accepted : acceptBlock validTime (group, blocks) fact =
        ((acceptBlock validTime (group, []) fact).1, blocks ++ (acceptBlock validTime (group, []) fact).2) := by
      rw [acceptBlock, acceptBlock]
      split <;> simp
    rw [foldl_cons, foldl_cons, accepted, ih, ih (acceptBlock validTime (group, []) fact).1
      (acceptBlock validTime (group, []) fact).2, append_assoc]

def blocksFrom (validTime : CurrentValidTime) (group : EntityGroup) (facts : List Fact) : List Block :=
  (facts.foldl (acceptBlock validTime) (group, [])).2 ++
    (facts.foldl (acceptBlock validTime) (group, [])).1.block validTime

theorem blocksFrom_append (group : EntityGroup) (xs ys : List Fact) :
    blocksFrom validTime group (xs ++ ys) =
      (xs.foldl (acceptBlock validTime) (group, [])).2 ++
        blocksFrom validTime (xs.foldl (acceptBlock validTime) (group, [])).1 ys := by
  have prior := @foldl_acceptBlock validTime (xs.foldl (acceptBlock validTime) (group, [])).1
    (xs.foldl (acceptBlock validTime) (group, [])).2 ys
  rw [blocksFrom, blocksFrom, foldl_append, prior, append_assoc]

def entityBlock (validTime : CurrentValidTime) (facts : List Fact) (entity : EntityId) : List Block :=
  EntityGroup.block validTime
    ⟨some entity, (facts.filter fun fact => fact.entity == entity).foldl reduce ∅⟩

theorem entityBlock_nil (none : ∀ fact ∈ facts, fact.entity ≠ entity) :
    entityBlock validTime facts entity = [] := by
  have empty : facts.filter (fun fact => fact.entity == entity) = [] :=
    filter_eq_nil_iff.mpr fun fact member => by simpa using none fact member
  rw [entityBlock, empty]
  rfl

theorem foldl_acceptBlock_one
    (one : ∀ fact ∈ facts, fact.entity = entity) (values : CurrentAttributeValues) (blocks : List Block) :
    facts.foldl (acceptBlock validTime) (⟨some entity, values⟩, blocks) =
      (⟨some entity, facts.foldl reduce values⟩, blocks) := by
  induction facts generalizing values with
  | nil => rfl
  | cons fact facts ih =>
    obtain ⟨first, one⟩ := forall_mem_cons.mp one
    rw [foldl_cons, foldl_cons, ← ih one, acceptBlock]
    simp [first]

theorem foldl_acceptBlock_first (one : ∀ fact ∈ facts, fact.entity = entity) (any : facts ≠ []) :
    facts.foldl (acceptBlock validTime) ({}, []) =
      (⟨some entity, facts.foldl reduce ∅⟩, []) := by
  cases facts with
  | nil => exact absurd rfl any
  | cons fact facts =>
    obtain ⟨rfl, one⟩ := forall_mem_cons.mp one
    rw [foldl_cons, foldl_cons, ← foldl_acceptBlock_one one]
    rfl

theorem blocksFrom_other (other : ∀ fact ∈ facts, fact.entity ≠ entity) :
    blocksFrom validTime ⟨some entity, values⟩ facts =
      EntityGroup.block validTime ⟨some entity, values⟩ ++ blocksFrom validTime {} facts := by
  cases facts with
  | nil => exact (append_nil _).symm
  | cons fact facts =>
    have different : ((some entity).any fun entity => decide (entity ≠ fact.entity)) = true := by
      simpa using (other fact mem_cons_self).symm
    have closes : acceptBlock validTime (⟨some entity, values⟩, []) fact =
        (⟨some fact.entity, reduce ∅ fact⟩,
          EntityGroup.block validTime ⟨some entity, values⟩) := by
      rw [acceptBlock, if_pos different]
      rfl
    have opens : acceptBlock validTime (({} : EntityGroup), []) fact =
        (⟨some fact.entity, reduce ∅ fact⟩, []) := rfl
    rw [blocksFrom, blocksFrom, foldl_cons, foldl_cons, closes, opens, foldl_acceptBlock, append_assoc]

theorem filter_entity_append (sorted : facts.Pairwise fun a b => a.entity ≤ b.entity)
    (least : ∀ fact ∈ facts, entity ≤ fact.entity) :
    facts = facts.filter (fun fact => fact.entity == entity) ++
      facts.filter fun fact => !(fact.entity == entity) := by
  induction facts with
  | nil => rfl
  | cons fact facts ih =>
    obtain ⟨first, sorted⟩ := pairwise_cons.mp sorted
    obtain ⟨here, least⟩ := forall_mem_cons.mp least
    by_cases same : fact.entity = entity
    · rw [filter_cons_of_pos (by simpa using same), filter_cons_of_neg (by simpa using same),
        cons_append, ← ih sorted least]
    have all : ∀ other ∈ fact :: facts, other.entity ≠ entity := by
      refine forall_mem_cons.mpr ⟨same, fun other member isEntity => same ?_⟩
      exact BitVec.le_antisymm (isEntity ▸ first other member) here
    have none : (fact :: facts).filter (fun fact => fact.entity == entity) = [] :=
      filter_eq_nil_iff.mpr fun other member => by simpa using all other member
    have rest : (fact :: facts).filter (fun fact => !(fact.entity == entity)) = fact :: facts :=
      filter_eq_self.mpr fun other member => by simpa using all other member
    rw [none, rest]
    rfl

theorem blocksFrom_eq {entities : List EntityId} (ascending : entities.Pairwise (· < ·))
    (sorted : facts.Pairwise fun a b => a.entity ≤ b.entity)
    (known : ∀ fact ∈ facts, fact.entity ∈ entities) :
    blocksFrom validTime {} facts = entities.flatMap (entityBlock validTime facts) := by
  induction entities generalizing facts with
  | nil =>
    obtain rfl : facts = [] := eq_nil_iff_forall_not_mem.mpr fun fact member =>
      not_mem_nil (known fact member)
    rfl
  | cons entity entities ih =>
    obtain ⟨first, ascending⟩ := pairwise_cons.mp ascending
    have least : ∀ fact ∈ facts, entity ≤ fact.entity := by
      intro fact member
      rcases mem_cons.mp (known fact member) with same | later
      · exact BitVec.le_of_eq same.symm
      · exact BitVec.le_of_lt (first _ later)
    let here := facts.filter fun fact => fact.entity == entity
    let others := facts.filter fun fact => !(fact.entity == entity)
    have split : facts = here ++ others := filter_entity_append sorted least
    have one : ∀ fact ∈ here, fact.entity = entity := fun fact member => by
      simpa using (mem_filter.mp member).2
    have other : ∀ fact ∈ others, fact.entity ≠ entity := fun fact member => by
      simpa using (mem_filter.mp member).2
    have later : blocksFrom validTime {} others = entities.flatMap (entityBlock validTime facts) := by
      rw [ih ascending (sorted.sublist filter_sublist)]
      · refine flatMap_congr fun next member => ?_
        have different : next ≠ entity := fun same => BitVec.lt_irrefl entity (same ▸ first next member)
        have none : here.filter (fun fact => fact.entity == next) = [] :=
          filter_eq_nil_iff.mpr fun fact inHere => by simpa [one fact inHere] using different.symm
        have rest : facts.filter (fun fact => fact.entity == next) =
            others.filter fun fact => fact.entity == next := by
          conv => lhs; rw [split]
          rw [filter_append, none, nil_append]
        rw [entityBlock, entityBlock, rest]
      · intro fact member
        exact (mem_cons.mp (known fact (mem_of_mem_filter member))).resolve_left (other fact member)
    rw [flatMap_cons, ← later]
    by_cases empty : here = []
    · have none : entityBlock validTime facts entity = [] := by
        rw [entityBlock]
        change EntityGroup.block validTime ⟨some entity, here.foldl _ _⟩ = _
        rw [empty]
        rfl
      rw [none, nil_append]
      conv => lhs; rw [split, empty, nil_append]
    · conv => lhs; rw [split]
      rw [blocksFrom_append, foldl_acceptBlock_first one empty, nil_append, blocksFrom_other other]
      rfl

end Blocks

section Ascending

variable {validTime : CurrentValidTime} {facts : List Fact}

theorem mem_entityBlock {entity : EntityId} {block : Block} (member : block ∈ entityBlock validTime facts entity) :
    block.1 = entity ∧ block.2 ≠ [] := by
  rw [entityBlock, EntityGroup.block] at member
  dsimp only at member
  split at member
  · cases member
  · rename_i some
    obtain rfl := mem_singleton.mp member
    exact ⟨rfl, some⟩

section

variable (sorted : facts.Pairwise fun a b => a.entity ≤ b.entity)
include sorted

theorem ascending_entities : (facts.map Fact.entity).dedup.Pairwise (· < ·) := by
  have ordered : (facts.map Fact.entity).dedup.Pairwise (· ≤ ·) :=
    (pairwise_map.mpr sorted).sublist (dedup_sublist _)
  refine (ordered.and (nodup_dedup _)).imp ?_
  rintro a b ⟨lower, different⟩
  exact BitVec.lt_of_le_ne lower different

theorem blocksFrom_entities :
    blocksFrom validTime {} facts = (facts.map Fact.entity).dedup.flatMap (entityBlock validTime facts) :=
  blocksFrom_eq (ascending_entities sorted) sorted fun _ member =>
    mem_dedup.mpr (mem_map_of_mem member)

theorem blocks_nonempty : ∀ block ∈ blocksFrom validTime {} facts, block.2 ≠ [] := by
  rw [blocksFrom_entities sorted]
  intro block member
  obtain ⟨entity, -, inBlock⟩ := mem_flatMap.mp member
  exact (mem_entityBlock inBlock).2

theorem blocks_ascending : (blocksFrom validTime {} facts).Pairwise fun a b => a.1 < b.1 := by
  rw [blocksFrom_entities sorted, pairwise_flatMap]
  refine ⟨fun entity _ => ?_, (ascending_entities sorted).imp ?_⟩
  · rw [entityBlock, EntityGroup.block]
    dsimp only
    split
    · exact .nil
    · exact pairwise_singleton _ _
  · intro a b less block inA other inB
    rwa [(mem_entityBlock inA).1, (mem_entityBlock inB).1]

theorem blocksFrom_filter (start : EntityId) :
    blocksFrom validTime {} (facts.filter fun fact => start ≤ fact.entity) =
      (blocksFrom validTime {} facts).filter fun block => start ≤ block.1 := by
  rw [blocksFrom_entities sorted, blocksFrom_eq (ascending_entities sorted)
    (sorted.sublist filter_sublist) fun fact member =>
      mem_dedup.mpr (mem_map_of_mem (mem_of_mem_filter member)), filter_flatMap]
  refine flatMap_congr fun entity _ => ?_
  by_cases late : start ≤ entity
  · have same : (facts.filter fun fact => start ≤ fact.entity).filter (fun fact => fact.entity == entity) =
        facts.filter fun fact => fact.entity == entity := by
      rw [filter_filter]
      refine filter_congr fun fact _ => ?_
      by_cases here : fact.entity = entity
      · simp [here, late]
      · simp [here]
    rw [entityBlock, same]
    refine (filter_eq_self.mpr fun block member => ?_).symm
    rw [(mem_entityBlock member).1]
    exact decide_eq_true late
  · have none : (entityBlock validTime facts entity).filter (fun block => decide (start ≤ block.1)) = [] :=
      filter_eq_nil_iff.mpr fun block member => by
        rw [(mem_entityBlock member).1, decide_eq_true_eq]
        exact late
    rw [none]
    refine entityBlock_nil fun fact member same => late ?_
    rw [← same]
    exact of_decide_eq_true (mem_filter.mp member).2

end

end Ascending

section Scan

variable {log : FactLog} {attr : String} {asOf : Option AsOf} {validTime : CurrentValidTime} {start : EntityId}

def OwnsRange (attr : String) (facts : List Fact) : Prop :=
  ∀ fact ∈ facts, inAttributeRange attr fact = true → fact.attr = attr

def attributeHistory (attr : String) (facts : List Fact) : List Fact :=
  indexRange compareAevtProjection (fun fact => fact.attr == attr) facts

variable {scan : AttributeScan} {done : List Fact}

theorem separates_attribute (attr : String) :
    SeparatesRange compareAevtProjection fun fact => fact.attr == attr := by
  intro a b inA inB same
  rw [beq_iff_eq] at inA inB
  refine sameRecord_of_compareEavt ?_
  have attrs : compare (utf8Bytes attr) (utf8Bytes attr) = .eq := Std.ReflCmp.compare_self
  simp only [compareAevtProjection, compareLex_eq_eq] at same
  simp only [compareEavt, compareLex_eq_eq]
  refine ⟨same.1, ?_, same.2⟩
  rw [compareOn, inA, inB]
  exact attrs

theorem rangeAevt_alone {facts : List Fact} (alone : OwnsRange attr facts)
    (distinct : DistinctRecords facts) : rangeAevt attr facts = attributeHistory attr facts := by
  have ranged : facts.filter (inAttributeRange attr) = facts.filter fun fact => fact.attr == attr := by
    refine filter_congr fun fact member => ?_
    rw [Bool.eq_iff_iff, beq_iff_eq]
    exact ⟨alone fact member, inAttributeRange_self⟩
  refine (increasing_indexRange (separates_attribute attr) distinct).eq_of_perm (pairwise_rangeAevt alone) ?_
  refine (indexRange_perm _ _ _).trans (List.Perm.trans ?_ (indexRange_perm _ _ _).symm)
  rw [ranged]

theorem pairwise_attributeHistory (facts : List Fact) :
    (attributeHistory attr facts).Pairwise fun a b => a.entity ≤ b.entity :=
  (pairwise_indexRange _ _ _).imp entity_le_of_projection

theorem mem_attributeHistory {facts : List Fact} {fact : Fact} :
    fact ∈ attributeHistory attr facts ↔ fact ∈ facts ∧ fact.attr = attr := by
  rw [attributeHistory, (indexRange_perm _ _ _).mem_iff, mem_filter, beq_iff_eq]

def scanEntries (log : FactLog) (attr : String) (start : EntityId) : List Fact :=
  (attributeHistory attr log.records).filter fun fact => start ≤ fact.entity

theorem scanEntries_zero (log : FactLog) (attr : String) :
    scanEntries log attr 0 = attributeHistory attr log.records :=
  filter_eq_self.mpr fun _ _ => decide_eq_true (Nat.zero_le _)

theorem filter_startsAt (facts : List Fact) :
    (attributeHistory attr facts).filter (startsAt attr start) =
      (attributeHistory attr facts).filter fun fact => start ≤ fact.entity := by
  refine filter_congr fun fact member => ?_
  rw [startsAt, (mem_attributeHistory.mp member).2]
  simp

def scanItems (log : FactLog) (attr : String) (start : EntityId) : List Fact :=
  (rangeAevt attr log.committed).filter (startsAt attr start)

structure ScanRun (asOf : Option AsOf) (validTime : CurrentValidTime) (log : FactLog) (attr : String)
    (start : EntityId) (scan : AttributeScan) (done : List Fact) : Prop where
  starts : scan.start = start
  progress : Progress compareAevtProjection (scanItems log attr start) (scanEntries log attr start)
    scan.cursor done
  group : scan.group = ((done.filter (entryVisibleAsOf asOf)).foldl (acceptBlock validTime) ({}, [])).1

theorem scanRun_start (alone : OwnsRange attr log.records) (distinct : DistinctRecords log.records) :
    ScanRun asOf validTime log attr start (currentAttributeCursorStartingAt log attr start) [] := by
  obtain ⟨aloneC, aloneP⟩ := forall_mem_append.mp alone
  obtain ⟨distinctC, distinctP, -⟩ := pairwise_append.mp distinct
  have entries : scanEntries log attr start = merged compareAevtProjection
      (scanItems log attr start) ((rangeAevt attr log.pending).filter (startsAt attr start)) := by
    rw [scanItems, rangeAevt_alone aloneC distinctC, rangeAevt_alone aloneP distinctP, attributeHistory,
      attributeHistory, merged_indexRange (separates_attribute attr) distinct]
    exact (filter_startsAt _).symm
  refine ⟨rfl, ?_, rfl⟩
  rw [entries]
  exact .start _ ((pairwise_rangeAevt aloneP).sublist filter_sublist)

variable (run : ScanRun asOf validTime log attr start scan done)

include run in
theorem ScanRun.reduces :
    ∃ facts, ReducesAll facts scan.group.values := by
  rw [run.group]
  exact (@foldlM_acceptInterval asOf validTime {} [] ReducesAll.empty [] done).2

include run in
theorem ScanRun.group_append (taken : List Fact) :
    ((taken.filter (entryVisibleAsOf asOf)).foldl (acceptBlock validTime) (scan.group, [])).1 =
      (((done ++ taken).filter (entryVisibleAsOf asOf)).foldl (acceptBlock validTime) ({}, [])).1 := by
  rw [filter_append, foldl_append, run.group, foldl_acceptBlock _
    ((done.filter (entryVisibleAsOf asOf)).foldl (acceptBlock validTime) ({}, [])).2]

structure ScanStepped (asOf : Option AsOf) (validTime : CurrentValidTime) (log : FactLog) (attr : String)
    (start : EntityId) (maxEntries : Nat) (done taken : List Fact) (group : EntityGroup)
    (result : AttributeScan × List Interval × Nat × Bool) : Prop where
  entries : result.2.2.1 = taken.length
  bounded : taken.length ≤ maxEntries
  completes : result.2.2.2 = true → scanEntries log attr start = done ++ taken ∧
    result.2.1 = (blocksFrom validTime group (taken.filter (entryVisibleAsOf asOf))).flatMap Block.visits
  yields : result.2.2.2 = false → taken.length = maxEntries ∧
    ScanRun asOf validTime log attr start result.1 (done ++ taken) ∧
    result.2.1 = ((taken.filter (entryVisibleAsOf asOf)).foldl (acceptBlock validTime) (group, [])).2.flatMap
      Block.visits

include run in
theorem stepInterval_spec (alone : OwnsRange attr log.records) (distinct : DistinctRecords log.records)
    (maxEntries : Nat) :
    ∃ result taken, stepCurrentAttributeIntervalCursor asOf validTime log attr maxEntries scan = .ok result ∧
      ScanStepped asOf validTime log attr start maxEntries done taken scan.group result := by
  have increasing : Increasing compareAevtProjection (scanItems log attr start) := by
    obtain ⟨distinctC, -, -⟩ := pairwise_append.mp distinct
    rw [scanItems, rangeAevt_alone (forall_mem_append.mp alone).1 distinctC]
    exact (increasing_indexRange (separates_attribute attr) distinctC).sublist filter_sublist
  have stepped := run.progress.step increasing maxEntries
  rw [stepCurrentAttributeIntervalCursor, run.starts, ← scanItems]
  generalize step (budgetRules compareAevtProjection maxEntries)
    (scanItems log attr start) scan.cursor = result at stepped
  obtain ⟨taken, cursor, complete⟩ := result
  obtain ⟨facts, reduced⟩ := run.reduces
  obtain ⟨accepted, facts', reduced'⟩ := @foldlM_acceptInterval asOf validTime _ _ reduced [] taken
  change ∃ _ _, (taken.foldlM (acceptInterval asOf validTime)
    (scan.group, ([] : List Block).flatMap Block.visits) >>= _) = _ ∧ _
  rw [accepted]
  have next := run.group_append taken
  generalize isReached : (taken.filter (entryVisibleAsOf asOf)).foldl (acceptBlock validTime)
    (scan.group, []) = reached at reduced' next
  cases complete with
  | true =>
    refine ⟨(⟨start, cursor, {}⟩, reached.2.flatMap Block.visits ++
      (reached.1.block validTime).flatMap Block.visits, taken.length, true), taken, ?_, rfl, stepped.bounded,
      fun _ => ⟨stepped.completes rfl, ?_⟩, nofun⟩
    · simp only [bind, Except.bind, if_true]
      rw [flushIntervals_eq reduced']
      rfl
    · rw [blocksFrom, isReached, flatMap_append]
  | false =>
    obtain ⟨filled, progress⟩ := stepped.yields rfl
    refine ⟨_, taken, rfl, rfl, stepped.bounded, nofun, fun _ => ⟨filled, ?_, ?_⟩⟩
    · exact ⟨rfl, progress, next⟩
    · rw [isReached]

include run in
theorem ScanRun.stepAttributeCursor_spec (alone : OwnsRange attr log.records)
    (distinct : DistinctRecords log.records) (budgets : List Nat) :
    ∃ result, stepAttributeCursor asOf validTime log attr budgets scan = .ok result ∧
      (∀ visits, result = some visits → ∃ rest, scanEntries log attr start = done ++ rest ∧
        visits = (blocksFrom validTime scan.group (rest.filter (entryVisibleAsOf asOf))).flatMap Block.visits) ∧
      (result = none → done.length + budgets.sum ≤ (scanEntries log attr start).length) := by
  induction budgets generalizing scan done with
  | nil =>
    refine ⟨none, rfl, nofun, fun _ => ?_⟩
    rw [run.progress.passed, length_append]
    exact Nat.le_add_right _ _
  | cons budget budgets ih =>
    obtain ⟨⟨scan', visits, entries, complete⟩, taken, ran, stepped⟩ := stepInterval_spec run alone distinct budget
    rw [stepAttributeCursor, ran]
    cases complete with
    | true =>
      obtain ⟨whole, handed⟩ := stepped.completes rfl
      refine ⟨some visits, rfl, ?_, nofun⟩
      rintro _ ⟨⟩
      exact ⟨taken, whole, handed⟩
    | false =>
      obtain ⟨filled, run', handed⟩ := stepped.yields rfl
      dsimp only at run' handed
      obtain ⟨result, rest, completes, unfinished⟩ := ih run'
      refine ⟨result.map (visits ++ ·), ?_, ?_, fun none => ?_⟩
      · change (stepAttributeCursor asOf validTime log attr budgets scan' >>= _) = _
        rw [rest]
        rfl
      · intro all known
        obtain ⟨later, reached, rfl⟩ := Option.map_eq_some_iff.mp known
        obtain ⟨rest, split, isLater⟩ := completes later reached
        refine ⟨taken ++ rest, by rw [split, append_assoc], ?_⟩
        rw [isLater, handed, run'.group, ← run.group_append, filter_append, blocksFrom_append, flatMap_append]
      · have bound := unfinished (Option.map_eq_none_iff.mp none)
        rw [length_append, filled] at bound
        rw [sum_cons]
        omega

end Scan

end ViciaDb
