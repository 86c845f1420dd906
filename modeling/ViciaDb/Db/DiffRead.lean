import ViciaDb.Db.DiffPages
import ViciaDb.Db.HistoryRead

namespace ViciaDb

open ValidTimeDiffScan List Except
open CurrentAttributeValues (reduce)

section Items

variable {asOf : Option AsOf} {attr : String} {entity : EntityId} {group facts : List Fact}
  {values : CurrentAttributeValues}

theorem orderedItems_group (apart : TellsApart attr group) (reduced : ReducesAll group values) :
    OrderedItems (groupItems .any values) := by
  have perm := perm_insertionSort (fun a b : CurrentRow => (a.compare b).isLE) (values.rows .any)
  have inside : ∀ row ∈ (values.rows .any).insertionSort (fun a b => (a.compare b).isLE),
      row.fact ∈ group ∧ encodeValue row.fact.value = row.encoded := by
    intro row member
    obtain ⟨known, -, bytes, -⟩ := row_of_mem reduced (perm.mem_iff.mp member)
    exact ⟨known, bytes⟩
  constructor
  · refine pairwise_map.mpr ((pairwise_insertionSort_isLE (values.rows .any)).imp_of_mem ?_)
    intro a b inA inB order
    rw [(inside a inA).2, (inside b inB).2]
    rw [CurrentRow.compare, compareLex] at order
    change (compareOn CurrentRow.encoded a b).isLE = true
    rcases Ordering.isLE_then_iff_or.mp order with less | ⟨same, -⟩
    · rw [less]
      rfl
    · rw [same]
      rfl
  · intro a inA b inB
    obtain ⟨row, inRow, rfl⟩ := mem_map.mp inA
    obtain ⟨other, inOther, rfl⟩ := mem_map.mp inB
    exact apart.values _ (inside row inRow).1 _ (inside other inOther).1

theorem groupItems_canonical (apart : TellsApart attr group) (one : ∀ fact ∈ group, fact.entity = entity)
    (reduced : ReducesAll group values) (reports : Reports .any group facts) :
    (groupItems .any values).map canonicalItem = facts.map fun fact => canonicalItem (fact.value, fact.window) := by
  obtain ⟨items, finished, same⟩ := finishEntityAttribute_each apart one reduced reports
  rw [finishEntityAttribute_items reduced] at finished
  cases finished
  exact same

theorem Reports.congr {group' : List Fact} (reports : Reports .any group facts)
    (same : ∀ fact, fact ∈ group' ↔ fact ∈ group) : Reports .any group' facts := by
  refine ⟨fun fact member => (same fact).mpr (reports.members fact member), reports.nodup, fun key => ?_,
    reports.sorted⟩
  rw [reports.current, Current, Current, NetAsserted.congr same]

def netDifferences (txCount : UInt64) (beforeAt afterAt : Int64) (attr : String) (records : List Fact)
    (entity : EntityId) : List ValidTimeDiffRow :=
  netRows beforeAt afterAt entity attr
    ((currentIntervals (some (.counter txCount)) .any entity attr records).map fun fact =>
      canonicalItem (fact.value, fact.window))

theorem block_canonical {txCount : UInt64} {beforeAt afterAt : Int64} {records : List Fact}
    (encodings : EncodingsApart entity attr records)
    (members : ∀ fact, fact ∈ group ↔ (fact ∈ records ∧ fact.entity = entity ∧ fact.attr = attr) ∧
      entryVisibleAsOf (some (.counter txCount)) fact = true) :
    (groupRows attr (Block.group beforeAt afterAt
        (entity, groupItems .any (group.foldl reduce ∅)))).map ValidTimeDiffRow.canonical =
      netDifferences txCount beforeAt afterAt attr records entity := by
  have apart : TellsApart attr group := by
    refine ⟨fun fact member => ((members fact).mp member).1.2.2, fun a inA b inB => ?_⟩
    obtain ⟨⟨knownA, entityA, attrA⟩, -⟩ := (members a).mp inA
    obtain ⟨⟨knownB, entityB, attrB⟩, -⟩ := (members b).mp inB
    exact encodings a knownA b knownB entityA attrA entityB attrB
  have one : ∀ fact ∈ group, fact.entity = entity := fun fact member => ((members fact).mp member).1.2.1
  have reduced : ReducesAll group (group.foldl reduce ∅) :=
    ReducesBy.foldl ReducesBy.empty group
  have reports : Reports .any group (currentIntervals (some (.counter txCount)) .any entity attr records) := by
    refine (@reports_currentIntervals (some (.counter txCount)) .any entity attr records ⟨records, []⟩
      (by rw [FactLog.records, append_nil])).congr fun fact => ?_
    rw [members, mem_filter, ((entityAttributeRange entity attr).entries_perm _).mem_iff, mem_filter,
      FactLog.records, append_nil]
    exact and_congr_left fun _ => and_congr_right fun _ => inEntityAttribute_iff.symm
  rw [groupRows_canonical (orderedItems_group apart reduced), groupItems_canonical apart one reduced reports]
  rfl

end Items

section Requests

variable {validAt : ValidAt} {txCount : UInt64} {request : ValidTimeDiffRequest} {limit : Nat}

structure DiffRequest (validAt : ValidAt) (request : ValidTimeDiffRequest) (limit : Nat) : Prop where
  anyTime : validAt = .anyValidTime
  keyword : isStoredKeyword request.attr = true
  ordered : request.validAtBefore < request.validAtAfter
  rows : 0 < limit ∧ limit ≤ readViewMaxRows
  ids : ∀ ids, request.entities = some ids → ids ≠ [] ∧ ids.length ≤ validTimeDiffMaxIds

def scopePosition (request : ValidTimeDiffRequest) (groups : List (EntityId × ValidTimeDiffGroup)) :
    Option ValidTimeDiffCursorScope :=
  match request.entities with
  | some ids => entitySetPosition (uniqueIds ids) 0 groups
  | none => attributePosition groups

def diffCursor (txCount : UInt64) (request : ValidTimeDiffRequest) (scope : ValidTimeDiffCursorScope) :
    ValidTimeDiffCursor where
  attr := request.attr
  txCount := txCount
  validAtBefore := request.validAtBefore
  validAtAfter := request.validAtAfter
  scope := scope

def diffPosition (txCount : UInt64) (request : ValidTimeDiffRequest)
    (groups : List (EntityId × ValidTimeDiffGroup)) : Option ValidTimeDiffCursor :=
  (scopePosition request groups).map (diffCursor txCount request)

theorem diffRequest_of_ok {after : Option ValidTimeDiffCursor} {scope : Option (List EntityId)}
    (accepted : validateValidTimeDiffRequest validAt txCount { request with after, limit } = .ok scope) :
    DiffRequest validAt request limit := by
  simp only [validateValidTimeDiffRequest, bind_eq_ok_iff, ensure_eq_ok_iff, exists_and_left,
    exists_const] at accepted
  obtain ⟨time, keyword, ordered, rows, _, ids, -⟩ := accepted
  refine ⟨time, keyword, ordered, rows, fun known isKnown => ?_⟩
  rw [isKnown] at ids
  exact ensure_eq_ok_iff.mp ids

theorem validate_of_valid (valid : DiffRequest validAt request limit)
    {groups : List (EntityId × ValidTimeDiffGroup)}
    (inside : ∀ ids, request.entities = some ids → groups.length ≤ (uniqueIds ids).length) :
    validateValidTimeDiffRequest validAt txCount
        { request with after := diffPosition txCount request groups, limit } =
      .ok (request.entities.map uniqueIds) := by
  simp only [validateValidTimeDiffRequest, bind_eq_ok_iff, ensure_eq_ok_iff, exists_and_left, exists_const]
  refine ⟨valid.anyTime, valid.keyword, valid.ordered, valid.rows, (), ?_, (), ?_, rfl⟩
  · cases known : request.entities with
    | none => rfl
    | some ids => exact ensure_eq_ok_iff.mpr (valid.ids ids known)
  have own : ∀ scope, validateDiffScope scope (request.entities.map uniqueIds) = .ok () →
      validateDiffCursor txCount { request with after := diffPosition txCount request groups, limit }
        (request.entities.map uniqueIds) (some (diffCursor txCount request scope)) = .ok () := by
    intro scope inScope
    rw [validateDiffCursor, ensure_bind_eq_ok_iff]
    exact ⟨⟨rfl, rfl, rfl, rfl⟩, inScope⟩
  rw [diffPosition]
  cases position : scopePosition request groups with
  | none => rfl
  | some scope =>
    refine own scope ?_
    rw [scopePosition] at position
    cases known : request.entities with
    | none =>
      rw [known] at position
      obtain ⟨group, -, rfl⟩ := Option.map_eq_some_iff.mp position
      rfl
    | some ids =>
      rw [known] at position
      dsimp only at position
      rw [entitySetPosition] at position
      split at position
      · cases position
      · cases position
        exact ensure_eq_ok_iff.mpr ⟨rfl, by simpa using inside ids known⟩

theorem length_uniqueIds (ids : List EntityId) : (uniqueIds ids).length ≤ ids.length := by
  have bound : ∀ known : List EntityId, (ids.foldl (fun unique id =>
      if unique.contains id then unique else unique ++ [id]) known).length ≤ known.length + ids.length := by
    induction ids with
    | nil => exact fun known => Nat.le_refl _
    | cons id ids ih =>
      intro known
      refine (ih _).trans ?_
      dsimp only
      split
      · rw [length_cons]
        omega
      · rw [length_append, length_singleton, length_cons]
        omega
  exact (bound []).trans (by simp)

end Requests

variable {result : List ValidTimeDiffRow × Option ValidTimeDiffCursor}

section Pages

variable {encodedBytes : List ValidTimeDiffRow → Nat} {validAt : ValidAt} {txCount : UInt64}
  {request : ValidTimeDiffRequest} {limit : Nat} {log : FactLog}
  {front back : List (EntityId × ValidTimeDiffGroup)}

def allBlocks (txCount : UInt64) (request : ValidTimeDiffRequest) (log : FactLog) : List Block :=
  match request.entities with
  | some ids => (uniqueIds ids).map (scopeBlock (some (.counter txCount)) request.attr log)
  | none => blocksAt (some (.counter txCount)) request.attr 0 log

def allGroups (txCount : UInt64) (request : ValidTimeDiffRequest) (log : FactLog) :
    List (EntityId × ValidTimeDiffGroup) :=
  (allBlocks txCount request log).map (Block.group request.validAtBefore request.validAtAfter)

def startScan (txCount : UInt64) (request : ValidTimeDiffRequest) (limit : Nat) (state : ValidTimeDiffScanState) :
    ValidTimeDiffScan :=
  { attr := request.attr, txCount, beforeAt := request.validAtBefore, afterAt := request.validAtAfter, limit
    rows := [], sourceEntries := 0, next := none, state }

structure TurnsPage (txCount : UInt64) (request : ValidTimeDiffRequest) (limit : Nat)
    (front back : List (EntityId × ValidTimeDiffGroup)) (result : Except String ValidTimeDiffScan) : Prop where
  limits : ∀ message, result = .error message → IsDiffLimit limit message
  turns : ∀ ended, result = .ok ended → ∃ mid rest, Paging.Turned (groupRows request.attr)
    (diffPosition txCount request) (fun _ => True) front back (ended.rows, ended.next) mid rest

theorem turnsPage_of_result {state : ValidTimeDiffScanState} {result : Except String ValidTimeDiffScan}
    {position : List (EntityId × ValidTimeDiffGroup) → Option ValidTimeDiffCursorScope}
    (read : PageResult (startScan txCount request limit state) back position result)
    (agrees : ∀ mid, mid ≠ [] → position mid = scopePosition request (front ++ mid)) :
    TurnsPage txCount request limit front back result := by
  cases read with
  | rejected isLimit =>
    exact ⟨fun message same => Except.error.inj same ▸ isLimit, fun ended wrong => by cases wrong⟩
  | @closed ended mid ends =>
    refine ⟨fun message wrong => (by cases wrong), fun other same => ?_⟩
    cases same
    obtain ⟨rest, split⟩ := ends.part
    refine ⟨mid, rest, split.symm, ends.rows, fun none => ?_, fun some => ?_⟩
    · rw [← ends.ends none] at split
      exact append_cancel_left (split.trans (append_nil _).symm)
    · obtain ⟨any, next⟩ := ends.goesOn some
      refine ⟨any, ?_, trivial⟩
      rw [diffPosition, ← agrees mid any]
      exact next

variable (whole : allGroups txCount request log = front ++ back)

include whole in
theorem entitySet_page (distinct : DistinctRecords log.records) {ids : List EntityId}
    (known : request.entities = some ids) :
    TurnsPage txCount request limit front back
      (run log (enoughFuel request) (startScan txCount request limit
        (.entitySet (uniqueIds ids) front.length front.length none ∅))) := by
  rw [allGroups, allBlocks, known, map_map] at whole
  obtain ⟨before, after, split, rfl, rfl⟩ := map_eq_append_iff.mp whole
  have start : EntitySetRun log ((startScan txCount request limit .finished).reached [] 0 (.entitySet
      (before ++ [] ++ after) before.length (before ++ ([] : List EntityId)).length none ∅)) [] after none ∅ :=
    ⟨rfl, Nat.zero_le _, nofun⟩
  have fuel : validTimeDiffMaxSourceEntries - 0 + after.length < enoughFuel request := by
    have fewer := length_uniqueIds ids
    rw [split, length_append] at fewer
    rw [enoughFuel, known]
    dsimp only [Option.getD_some]
    omega
  have read := run_entitySet distinct (enoughFuel request) start fuel
  rw [append_nil, nil_append, ← split] at read
  rw [length_map]
  have groups : scopeGroups log (startScan txCount request limit .finished) after =
      after.map (Block.group request.validAtBefore request.validAtAfter ∘
        scopeBlock (some (.counter txCount)) request.attr log) := by
    rw [scopeGroups, ValidTimeDiffScan.groups, map_map]
    rfl
  rw [groups] at read
  refine turnsPage_of_result read fun mid any => ?_
  rw [scopePosition, known]
  dsimp only
  rw [entitySetPosition, entitySetPosition, if_neg any, if_neg (append_ne_nil_of_right_ne_nil _ any),
    length_append, length_map, Nat.zero_add]

theorem blocksAt_filter (asOf : Option AsOf) (attr : String) (start : EntityId) :
    blocksAt asOf attr start log = (blocksAt asOf attr 0 log).filter fun block => start ≤ block.1 := by
  have sorted : ((attributeHistory attr log.records).filter (entryVisibleAsOf asOf)).Pairwise
      fun a b => a.entity ≤ b.entity := (pairwise_attributeHistory _).sublist filter_sublist
  rw [blocksAt, blocksAt, scanEntries_zero, ← blocksFrom_filter sorted, scanEntries, filter_comm]

theorem ascending_allGroups (known : request.entities = none) :
    (allGroups txCount request log).Pairwise fun a b => a.1 < b.1 := by
  have ascending : (blocksAt (some (.counter txCount)) request.attr 0 log).Pairwise fun a b => a.1 < b.1 :=
    blocks_ascending (((pairwise_attributeHistory _).sublist filter_sublist).sublist filter_sublist)
  rw [allGroups, allBlocks, known]
  exact pairwise_map.mpr ascending

theorem succ_le_iff_of_ne_allOnes {entity other : EntityId} (inside : entity ≠ BitVec.allOnes 128) :
    entity + 1 ≤ other ↔ entity < other := by
  have bound : entity.toNat ≠ 2 ^ 128 - 1 := by
    rw [← BitVec.toNat_allOnes]
    exact fun same => inside (BitVec.eq_of_toNat_eq same)
  bv_omega

include whole in
theorem groups_after (known : request.entities = none) {last : EntityId × ValidTimeDiffGroup}
    (isLast : front.getLast? = some last) (inside : last.1 ≠ BitVec.allOnes 128) :
    (blocksAt (some (.counter txCount)) request.attr (last.1 + 1) log).map
      (Block.group request.validAtBefore request.validAtAfter) = back := by
  have ascending := @ascending_allGroups txCount request log known
  have filtered : (blocksAt (some (.counter txCount)) request.attr (last.1 + 1) log).map
      (Block.group request.validAtBefore request.validAtAfter) =
        (front ++ back).filter fun group => last.1 + 1 ≤ group.1 := by
    rw [blocksAt_filter, ← whole, allGroups, allBlocks, known, filter_map]
    rfl
  rw [whole] at ascending
  obtain ⟨init, rfl⟩ := List.getLast?_eq_some_iff.mp isLast
  obtain ⟨below, -, above⟩ := pairwise_append.mp ascending
  have none : (init ++ [last]).filter (fun group => last.1 + 1 ≤ group.1) = [] := by
    refine filter_eq_nil_iff.mpr fun group member => ?_
    rw [decide_eq_true_eq, succ_le_iff_of_ne_allOnes inside]
    rcases mem_append.mp member with early | isGroup
    · have less := (pairwise_append.mp below).2.2 group early last (mem_singleton_self _)
      bv_omega
    · obtain rfl := mem_singleton.mp isGroup
      exact BitVec.lt_irrefl _
  have all : back.filter (fun group => last.1 + 1 ≤ group.1) = back := by
    refine filter_eq_self.mpr fun group member => decide_eq_true ?_
    rw [succ_le_iff_of_ne_allOnes inside]
    exact above last (mem_append_right _ (mem_singleton_self _)) group member
  rw [filtered, filter_append, none, all]
  rfl

theorem scanStart (alone : OwnsRange request.attr log.records) (distinct : DistinctRecords log.records)
    (start : EntityId) (state : ValidTimeDiffScanState) :
    AttributeRun log start ((startScan txCount request limit state).reached [] 0
        (attributeState (currentAttributeCursorStartingAt log request.attr start) none []))
      (currentAttributeCursorStartingAt log request.attr start) none [] [] :=
  ⟨scanRun_start alone distinct, rfl, rfl, rfl⟩

theorem step_start (resume : Option EntityId) :
    step log (startScan txCount request limit (.attribute none resume none [] none)) =
      match resumedCursor log request.attr resume with
      | none => .ok ((startScan txCount request limit (.attribute none resume none [] none)).close none, true)
      | some active => stepActiveAttribute log
          (startScan txCount request limit (.attribute none resume none [] none)) active none [] none := rfl

theorem attribute_start (alone : OwnsRange request.attr log.records) (distinct : DistinctRecords log.records)
    {start : EntityId} {resume : Option EntityId} (started : resumedCursor log request.attr resume =
      some (currentAttributeCursorStartingAt log request.attr start)) :
    PageResult (startScan txCount request limit .finished)
      ((blocksAt (some (.counter txCount)) request.attr start log).map
        (Block.group request.validAtBefore request.validAtAfter)) attributePosition
      (run log (enoughFuel request) (startScan txCount request limit (.attribute none resume none [] none))) := by
  obtain ⟨fuel, isFuel⟩ : ∃ fuel, enoughFuel request = fuel + 1 := ⟨_, rfl⟩
  have same : run log (fuel + 1) (startScan txCount request limit (.attribute none resume none [] none)) =
      run log (fuel + 1) ((startScan txCount request limit .finished).reached [] 0
        (attributeState (currentAttributeCursorStartingAt log request.attr start) none [])) := by
    rw [run, run]
    rw [step_start, started]
    rfl
  rw [isFuel, same, ← isFuel]
  refine run_attribute alone distinct (enoughFuel request) (scanStart alone distinct start .finished)
    (Nat.zero_le _) ?_
  rw [enoughFuel]
  omega

include whole in
theorem attribute_page (alone : OwnsRange request.attr log.records) (distinct : DistinctRecords log.records)
    (known : request.entities = none) :
    TurnsPage txCount request limit front back
      (run log (enoughFuel request) (startScan txCount request limit
        (.attribute none (front.getLast?.map Prod.fst) none [] none))) := by
  have position : ∀ mid, mid ≠ [] → attributePosition mid = scopePosition request (front ++ mid) := by
    intro mid any
    rw [scopePosition, known]
    rw [attributePosition, attributePosition, List.getLast?_append_of_ne_nil _ any]
  cases isLast : front.getLast? with
  | none =>
    obtain rfl := List.getLast?_eq_none_iff.mp isLast
    have read := @attribute_start txCount request limit log alone distinct 0 none rfl
    refine @turnsPage_of_result txCount request limit [] back .finished _ _ ?_ position
    rw [allGroups, allBlocks, known, nil_append] at whole
    rw [← whole]
    exact read
  | some last =>
    by_cases top : last.1 = BitVec.allOnes 128
    swap
    · have read := @attribute_start txCount request limit log alone distinct (last.1 + 1) (some last.1)
        (if_neg top)
      rw [groups_after whole known isLast top] at read
      exact turnsPage_of_result read position
    have nothing : back = [] := by
      have ascending := @ascending_allGroups txCount request log known
      rw [whole] at ascending
      refine eq_nil_iff_forall_not_mem.mpr fun group member => ?_
      have less := (pairwise_append.mp ascending).2.2 last (mem_of_getLast? isLast) group member
      have highest : last.1.toNat = 2 ^ 128 - 1 := by rw [top, BitVec.toNat_allOnes]
      have := group.1.isLt
      bv_omega
    have ended : run log (enoughFuel request) (startScan txCount request limit
        (.attribute none (some last.1) none [] none)) =
          .ok ((startScan txCount request limit (.attribute none (some last.1) none [] none)).close none) := by
      obtain ⟨fuel, isFuel⟩ : ∃ fuel, enoughFuel request = fuel + 1 := ⟨_, rfl⟩
      have top : resumedCursor log request.attr (some last.1) = none := if_pos top
      rw [isFuel, run, step_start, top]
      rfl
    rw [Option.map_some, ended, nothing]
    exact turnsPage_of_result (.closed (@PageEnds.mk (startScan txCount request limit .finished) [] attributePosition
      _ [] (prefix_refl _) rfl (fun _ => rfl) fun some => absurd rfl some)) position

def startState (request : ValidTimeDiffRequest) (front : List (EntityId × ValidTimeDiffGroup)) :
    ValidTimeDiffScanState :=
  match request.entities with
  | some ids => .entitySet (uniqueIds ids) front.length front.length none ∅
  | none => .attribute none (front.getLast?.map Prod.fst) none [] none

include whole in
theorem begin_eq (valid : DiffRequest validAt request limit) :
    begin_ validAt txCount { request with after := diffPosition txCount request front, limit } =
      .ok (startScan txCount request limit (startState request front)) := by
  have inside : ∀ ids, request.entities = some ids → front.length ≤ (uniqueIds ids).length := by
    intro ids known
    have lengths := congrArg List.length whole
    rw [allGroups, allBlocks, known, length_map, length_map, length_append] at lengths
    omega
  rw [begin_, validate_of_valid valid inside, startState, diffPosition, scopePosition]
  cases known : request.entities with
  | some ids =>
    dsimp only
    cases front with
    | nil => rfl
    | cons group groups =>
      rw [entitySetPosition, if_neg (cons_ne_nil _ _), Nat.zero_add]
      rfl
  | none =>
    rw [attributePosition]
    cases front.getLast? <;> rfl

variable (alone : request.entities = none → OwnsRange request.attr log.records)

include alone in
theorem page_run (distinct : DistinctRecords log.records) (whole : allGroups txCount request log = front ++ back) :
    TurnsPage txCount request limit front back
      (run log (enoughFuel request) (startScan txCount request limit (startState request front))) := by
  rw [startState]
  cases known : request.entities with
  | some ids => exact entitySet_page whole distinct known
  | none => exact attribute_page whole (alone known) distinct known

include whole in
theorem diffPage_eq (valid : DiffRequest validAt request limit) :
    diffPage encodedBytes validAt txCount request log limit (diffPosition txCount request front) =
      (do
        let scan ← run log (enoughFuel request) (startScan txCount request limit (startState request front))
        let page ← finishValidTimeDiffPage encodedBytes scan.rows scan.next
        return (page.rows, page.next)) := by
  rw [diffPage, validTimeDiff, begin_eq whole valid]
  change (run log (enoughFuel request) _ >>= _) >>= _ = _
  rw [bind_assoc]

include alone in
theorem diffPage_turns (distinct : DistinctRecords log.records) (whole : allGroups txCount request log = front ++ back)
    (answered : diffPage encodedBytes validAt txCount request log limit (diffPosition txCount request front) =
      .ok result) :
    ∃ mid rest, Paging.Turned (groupRows request.attr) (diffPosition txCount request) (fun _ => True) front back
      result mid rest := by
  have valid : DiffRequest validAt request limit := by
    simp only [diffPage, validTimeDiff, begin_, bind_eq_ok_iff] at answered
    obtain ⟨_, ⟨_, ⟨_, accepted, -⟩, -⟩, -⟩ := answered
    exact diffRequest_of_ok accepted
  rw [diffPage_eq whole valid] at answered
  simp only [bind_eq_ok_iff] at answered
  obtain ⟨ended, ran, page, finished, same⟩ := answered
  rw [finishValidTimeDiffPage] at finished
  split at finished
  · cases finished
  · cases finished
    cases same
    exact (page_run alone distinct whole).turns ended ran

include alone in
theorem diffPage_limits (distinct : DistinctRecords log.records) (valid : DiffRequest validAt request limit)
    (whole : allGroups txCount request log = front ++ back) {message : String}
    (failed : diffPage encodedBytes validAt txCount request log limit (diffPosition txCount request front) =
      .error message) : IsDiffLimit limit message := by
  rw [diffPage_eq whole valid] at failed
  simp only [bind_eq_error_iff] at failed
  rcases failed with failed | ⟨ended, -, failed | ⟨_, _, failed⟩⟩
  · exact (page_run alone distinct whole).limits message failed
  · rw [finishValidTimeDiffPage] at failed
    split at failed
    · cases failed
      exact .bytes
    · cases failed
  · cases failed

end Pages

section Follow

variable {txCount : UInt64} {request : ValidTimeDiffRequest} {log log' : FactLog} {records : List
    Fact}

/-- The entities of the scope in the order of the rows: as asked for, or all with a visible record,
    ascending. -/
def diffScope (txCount : UInt64) (request : ValidTimeDiffRequest) (records : List Fact) : List EntityId :=
  match request.entities with
  | some ids => uniqueIds ids
  | none => ((records.filter fun fact => fact.attr == request.attr && visibleAt txCount fact).map
      Fact.entity).dedup.insertionSort (· ≤ ·)

def netDiff (txCount : UInt64) (request : ValidTimeDiffRequest) (records : List Fact) : List ValidTimeDiffRow :=
  (diffScope txCount request records).flatMap
    (netDifferences txCount request.validAtBefore request.validAtAfter request.attr records)

theorem allBlocks_congr (distinct : DistinctRecords log.records) (distinct' : DistinctRecords log'.records)
    (same : (log'.records.filter (visibleAt txCount)).Perm (log.records.filter (visibleAt txCount))) :
    allBlocks txCount request log' = allBlocks txCount request log := by
  rw [allBlocks, allBlocks]
  cases request.entities with
  | some ids =>
    refine map_congr_left fun entity _ => ?_
    rw [scopeBlock, scopeBlock]
    have listed := filter_indexRange_eq (separates_entityAttributeRange entity request.attr) distinct' distinct same
    change (entity, groupItems .any (((indexRange _ _ log'.records).filter (visibleAt txCount)).foldl _ ∅)) = _
    rw [listed]
    rfl
  | none =>
    have listed := filter_indexRange_eq (separates_attribute request.attr) distinct' distinct same
    rw [blocksAt, blocksAt, scanEntries_zero, scanEntries_zero]
    change blocksFrom .any {} ((attributeHistory request.attr log'.records).filter (visibleAt txCount)) = _
    rw [attributeHistory, listed]
    rfl

theorem visibleEntities_eq (attr : String) (log : FactLog) :
    (((attributeHistory attr log.records).filter (visibleAt txCount)).map Fact.entity).dedup =
      ((log.records.filter fun fact => fact.attr == attr && visibleAt txCount fact).map
        Fact.entity).dedup.insertionSort (· ≤ ·) := by
  have sorted : ((attributeHistory attr log.records).filter (visibleAt txCount)).Pairwise
      fun a b => a.entity ≤ b.entity := (pairwise_attributeHistory _).sublist filter_sublist
  have perm : ((attributeHistory attr log.records).filter (visibleAt txCount)).Perm
      (log.records.filter fun fact => fact.attr == attr && visibleAt txCount fact) := by
    have both : log.records.filter (fun fact => fact.attr == attr && visibleAt txCount fact) =
        (log.records.filter fun fact => fact.attr == attr).filter (visibleAt txCount) := by
      rw [filter_filter]
      exact filter_congr fun fact _ => Bool.and_comm _ _
    rw [both]
    exact (indexRange_perm _ _ _).filter _
  refine List.Perm.eq_of_pairwise (fun _ _ _ _ => BitVec.le_antisymm)
    ((ascending_entities sorted).imp BitVec.le_of_lt) (pairwise_insertionSort _ _) ?_
  exact ((perm.map _).dedup).trans (perm_insertionSort _ _).symm

theorem allBlocks_attribute (known : request.entities = none) :
    allBlocks txCount request log = (diffScope txCount request log.records).flatMap
      (entityBlock .any ((attributeHistory request.attr log.records).filter (visibleAt txCount))) := by
  rw [allBlocks, diffScope, known]
  rw [blocksAt, scanEntries_zero, ← visibleEntities_eq]
  exact blocksFrom_entities ((pairwise_attributeHistory _).sublist filter_sublist)

theorem length_allGroups : (allGroups txCount request log).length ≤ (diffScope txCount request log.records).length := by
  rw [allGroups, length_map]
  cases known : request.entities with
  | some ids =>
    rw [allBlocks, diffScope, known, length_map]
  | none =>
    rw [allBlocks_attribute known]
    induction diffScope txCount request log.records with
    | nil => exact Nat.le_refl _
    | cons entity entities ih =>
      have one : (entityBlock .any ((attributeHistory request.attr log.records).filter (visibleAt txCount))
          entity).length ≤ 1 := by
        rw [entityBlock, EntityGroup.block]
        dsimp only
        split <;> simp
      rw [flatMap_cons, length_append, length_cons]
      omega

theorem rows_entityBlock (facts : List Fact) (attr : String) (beforeAt afterAt : Int64) (entity : EntityId) :
    ((entityBlock .any facts entity).map (Block.group beforeAt afterAt)).flatMap (groupRows attr) =
      groupRows attr (Block.group beforeAt afterAt (entity, groupItems .any
        ((facts.filter fun fact => fact.entity == entity).foldl reduce ∅))) := by
  rw [entityBlock, EntityGroup.block]
  dsimp only
  split
  · rename_i empty
    rw [empty]
    rfl
  · exact append_nil _

theorem allGroups_canonical (encodings : ∀ entity, EncodingsApart entity request.attr log.records) :
    ((allGroups txCount request log).flatMap (groupRows request.attr)).map ValidTimeDiffRow.canonical =
      netDiff txCount request log.records := by
  rw [allGroups, netDiff, map_flatMap]
  cases known : request.entities with
  | some ids =>
    rw [allBlocks, diffScope, known, flatMap_map, flatMap_map]
    refine flatMap_congr fun entity _ => block_canonical (encodings entity) fun fact => ?_
    rw [mem_filter, (indexRange_perm _ _ _).mem_iff, mem_filter]
    exact and_congr_left fun _ => and_congr_right fun _ => inEntityAttribute_iff
  | none =>
    rw [allBlocks_attribute known, map_flatMap, flatMap_assoc]
    refine flatMap_congr fun entity _ => ?_
    rw [← map_flatMap, rows_entityBlock]
    refine block_canonical (encodings entity) fun fact => ?_
    rw [mem_filter, mem_filter, mem_attributeHistory, beq_iff_eq]
    tauto

theorem diffPosition_nil (txCount : UInt64) (request : ValidTimeDiffRequest) :
    diffPosition txCount request [] = none := by
  rw [diffPosition, scopePosition]
  cases request.entities <;> rfl

section Followed

variable {groups : List (EntityId × ValidTimeDiffGroup)} {requests : List (FactLog × Nat)}
  (sees : ∀ page ∈ requests, DistinctRecords page.1.records ∧ allGroups txCount request page.1 = groups)
  (alone : request.entities = none → ∀ page ∈ requests, OwnsRange request.attr page.1.records)
  {encodedBytes : List ValidTimeDiffRow → Nat} {validAt : ValidAt}

include sees alone

theorem diffPage_turned : ∀ page ∈ requests, ∀ front back result, groups = front ++ back →
    diffPage encodedBytes validAt txCount request page.1 page.2 (diffPosition txCount request front) = .ok result →
    ∃ mid rest, Paging.Turned (groupRows request.attr) (diffPosition txCount request) (fun _ => True) front back
      result mid rest := fun page member _ _ _ split answered =>
  diffPage_turns (fun known => alone known page member) (sees page member).1 ((sees page member).2.trans split)
    answered

theorem followDiffPages_followed
    (followed : followDiffPages encodedBytes validAt txCount request requests none = .ok result) :
    ∃ mid rest, Paging.Followed (groupRows request.attr) (diffPosition txCount request) (fun _ => True) requests []
      groups result mid rest := by
  rw [← diffPosition_nil txCount request] at followed
  exact Paging.follow_spec (diffPage_turned sees alone) (nil_append _).symm (fun _ => trivial) followed

theorem followDiffPages_whole {rows : List ValidTimeDiffRow}
    (followed : followDiffPages encodedBytes validAt txCount request requests none = .ok (rows, none))
    (any : requests ≠ []) : rows = groups.flatMap (groupRows request.attr) := by
  obtain ⟨mid, rest, spec⟩ := followDiffPages_followed sees alone followed
  have isRows := spec.rows
  have nothing := (spec.ends rfl).resolve_right fun ⟨empty, _⟩ => any empty
  dsimp only at isRows
  rw [isRows, spec.split, nothing, append_nil]

end Followed

structure ReadsDiff (validAt : ValidAt) (request : ValidTimeDiffRequest) (listing : List ValidTimeDiffRow)
    (entities : List EntityId) (requests : List (FactLog × Nat))
    (result : Except String (List ValidTimeDiffRow × Option ValidTimeDiffCursor)) : Prop where
  part : ∀ rows last, result = .ok (rows, last) → rows <+: listing
  whole : ∀ rows, result = .ok (rows, none) → requests ≠ [] → rows = listing
  ends : ∀ rows next, result = .ok (rows, some next) → requests.length ≤ entities.length
  limits : (∀ page ∈ requests, DiffRequest validAt request page.2) → ∀ message, result = .error message →
    ∃ limit, IsDiffLimit limit message

/-- Following the pages of a request lists the net differences of the view, whatever the limits, the split
    of the records and what is written in between. -/
theorem followDiffPages_readsDiff {encodedBytes : List ValidTimeDiffRow → Nat} {validAt : ValidAt}
    (distinct : DistinctRecords records) (encodings : ∀ entity, EncodingsApart entity request.attr records) :
    ∃ listing, listing.map ValidTimeDiffRow.canonical = netDiff txCount request records ∧
      ∀ (log : FactLog) (requests : List (FactLog × Nat)), log.records.Perm records →
        Evolves txCount log requests →
        (request.entities = none → ∀ page ∈ requests, OwnsRange request.attr page.1.records) →
        ReadsDiff validAt request listing (diffScope txCount request records) requests
          (followDiffPages encodedBytes validAt txCount request requests none) := by
  let whole : FactLog := ⟨records, []⟩
  have all : whole.records = records := append_nil _
  refine ⟨(allGroups txCount request whole).flatMap (groupRows request.attr), ?_, ?_⟩
  · rw [allGroups_canonical (by rwa [all]), all]
  intro log requests split evolves alone
  have sees : ∀ page ∈ requests, DistinctRecords page.1.records ∧
      allGroups txCount request page.1 = allGroups txCount request whole := by
    intro page member
    obtain ⟨distinct', same⟩ := evolves_sees evolves (distinct.perm split.symm) page member
    refine ⟨distinct', ?_⟩
    rw [allGroups, allGroups, @allBlocks_congr txCount request whole page.1 (by rwa [all]) distinct']
    rw [same, all]
    exact split.filter _
  refine ⟨fun rows last followed => ?_, fun rows followed some => ?_, fun rows next followed => ?_,
    fun valid message failed => ?_⟩
  · obtain ⟨mid, rest, spec⟩ := followDiffPages_followed sees alone followed
    have isRows := spec.rows
    dsimp only at isRows
    rw [isRows, spec.split, flatMap_append]
    exact prefix_append _ _
  · exact followDiffPages_whole sees alone followed some
  · obtain ⟨mid, rest, spec⟩ := followDiffPages_followed sees alone followed
    have enough := (spec.goesOn (Option.some_ne_none next)).1
    have bound := @length_allGroups txCount request whole
    rw [all, spec.split, length_append] at bound
    omega
  · rw [← diffPosition_nil txCount request] at failed
    have fails : ∀ page ∈ requests, ∀ front back message, allGroups txCount request whole = front ++ back →
        diffPage encodedBytes validAt txCount request page.1 page.2 (diffPosition txCount request front) =
          .error message → ∃ limit, IsDiffLimit limit message := fun page member front back message split failed =>
      ⟨page.2, diffPage_limits (fun known => alone known page member) (sees page member).1 (valid page member)
        ((sees page member).2.trans split) failed⟩
    exact Paging.follow_error (diffPage_turned sees alone) fails (nil_append _).symm failed

end Follow

section Example

def strayFact : Fact := ⟨7, ":b/x", .integer 2, 1, 1, 0, 100, true⟩

def strayRequest : ValidTimeDiffRequest := ⟨":a/ÿ", none, 50, 150, none, 10⟩

/-- The scan of an attribute whose last byte has no successor runs on into the next attributes. -/
theorem stray_fact_reported :
    List.isPrefixOf (utf8Bytes strayRequest.attr) (utf8Bytes strayFact.attr) = false ∧
      netDiff 1 strayRequest [strayFact] = [] ∧
      followDiffPages (fun _ => 0) .anyValidTime 1 strayRequest [(⟨[strayFact], []⟩, 10)] none =
        .ok ([⟨7, ":a/ÿ", .integer 2, .disappeared, 0, 100⟩], none) := by
  decide +kernel

def roleRequest : ValidTimeDiffRequest := ⟨":team/role", none, 50, 150, none, 10⟩

def leadFact : Fact := ⟨5, ":team/role", .string "lead", 1, 1, 0, 100, true⟩

def backupFact : Fact := ⟨9, ":team/role", .string "backup", 2, 2, 120, 200, true⟩

def guestFact : Fact := ⟨5, ":team/role", .string "guest", 3, 3, 0, 200, true⟩

def teamLog : FactLog := ⟨[leadFact], [backupFact]⟩

def grownTeamLog : FactLog := { teamLog with pending := loadFacts teamLog.pending [guestFact] }

theorem followDiffPages_readsDiff_roles :
    ∃ listing, listing.map ValidTimeDiffRow.canonical = netDiff 2 roleRequest [leadFact, backupFact] ∧
      followDiffPages (fun _ => 0) .anyValidTime 2 roleRequest
        [(teamLog, 1), (⟨grownTeamLog.records, []⟩, 5)] none = .ok (listing, none) := by
  have later : ∀ fact ∈ [guestFact], 2 < fact.txCount ∧
      ∀ record ∈ teamLog.records, record.txCount < fact.txCount := by decide +kernel
  have evolves : Evolves 2 teamLog [(teamLog, 1), (⟨grownTeamLog.records, []⟩, 5)] :=
    ⟨.refl, (Relation.ReflTransGen.single (.write [guestFact] later)).tail (.checkpoint grownTeamLog), trivial⟩
  have encodings : ∀ entity, EncodingsApart entity ":team/role" [leadFact, backupFact] := by
    intro entity a inA b inB _ _ _ _ same
    have number : ∀ fact ∈ [leadFact, backupFact], fact.value.isNan = false := by decide +kernel
    rw [encodeValue_inj_of_number (number a inA) (number b inB) same]
  obtain ⟨listing, same, reads⟩ := @followDiffPages_readsDiff 2 roleRequest [leadFact, backupFact] (fun _ => 0)
    .anyValidTime (by unfold DistinctRecords; decide +kernel) encodings
  have read := reads teamLog _ (List.Perm.refl _) evolves fun _ => by unfold OwnsRange; decide +kernel
  have ran : followDiffPages (fun _ => 0) .anyValidTime 2 roleRequest
      [(teamLog, 1), (⟨grownTeamLog.records, []⟩, 5)] none =
        .ok ([⟨5, ":team/role", .string "lead", .disappeared, 0, 100⟩,
          ⟨9, ":team/role", .string "backup", .appeared, 120, 200⟩], none) := by decide +kernel
  refine ⟨listing, same, ?_⟩
  rw [ran, read.whole _ ran (by simp)]

end Example

end ViciaDb
