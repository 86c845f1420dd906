import Mathlib.Logic.Relation
import ViciaDb.Db.HistoryPages

namespace ViciaDb

open List
open EntityAttributeHistoryCursor (lastKey)

variable {log : FactLog}

section Pages

variable {encodedBytes : List FactRecord → Nat} {continuationBytes : EntityAttributeHistoryCursor → Nat}
  {validAt : ValidAt} {txCount : UInt64} {entity : EntityId} {attr : String}

def visibleHistory (txCount : UInt64) (entity : EntityId) (attr : String) (log : FactLog) : List Fact :=
  (indexRange compareEavt (inEntityAttribute entity attr) log.records).filter (visibleAt txCount)

def continueAfter (txCount : UInt64) (entity : EntityId) (attr : String) (fact : Fact) :
    EntityAttributeHistoryCursor :=
  { entity, attr, txCount, lastKey := fact }

variable {limit : Nat} {log : FactLog} {after : Option EntityAttributeHistoryCursor}

theorem filter_historyAfter (log : FactLog) (position : Option Fact) :
    (historyAfter log entity attr position).filter (visibleAt txCount) =
      (visibleHistory txCount entity attr log).filter (MergeCursor.behind compareEavt position) := by
  rw [historyAfter, visibleHistory, filter_filter, filter_filter]
  exact filter_congr fun fact _ => Bool.and_comm _ _

def nextPage (txCount : UInt64) (entity : EntityId) (attr : String) (rows : List Fact) (limit : Nat) :
    Option EntityAttributeHistoryCursor :=
  if limit < rows.length then (rows.take limit).getLast?.map (continueAfter txCount entity attr) else none

def historyPage (txCount : UInt64) (entity : EntityId) (attr : String) (rows : List Fact) (limit : Nat) :
    EntityAttributeHistoryPage :=
  { facts := (rows.take limit).map Fact.record, next := nextPage txCount entity attr rows limit }

def pageBytes (encodedBytes : List FactRecord → Nat) (continuationBytes : EntityAttributeHistoryCursor → Nat)
    (txCount : UInt64) (entity : EntityId) (attr : String) (rows : List Fact) (limit : Nat) : Nat :=
  encodedBytes ((rows.take limit).map Fact.record) +
    ((nextPage txCount entity attr rows limit).map continuationBytes).getD 0

theorem finishHistoryPage_eq {rows : List Fact} (positive : 0 < limit) :
    finishEntityAttributeHistoryPage encodedBytes continuationBytes entity attr txCount limit
        ((rows.take (limit + 1)).map historyItem) =
      if entityAttributeHistoryMaxResultBytes <
          pageBytes encodedBytes continuationBytes txCount entity attr rows limit then
        .error s!"entity_attribute_history result exceeds {entityAttributeHistoryMaxResultBytes} bytes; result was rejected without truncation"
      else .ok (historyPage txCount entity attr rows limit) := by
  rw [finishEntityAttributeHistoryPage, pageBytes, historyPage, nextPage]
  have length : ((rows.take (limit + 1)).map historyItem).length = min (limit + 1) rows.length := by
    rw [length_map, length_take]
  have records : ((rows.take limit).map historyItem).map EntityAttributeHistoryItem.record =
      (rows.take limit).map Fact.record := map_map
  by_cases more : limit < rows.length
  · have hasMore : decide (limit < ((rows.take (limit + 1)).map historyItem).length) = true :=
      decide_eq_true (by omega)
    have shorter : ((rows.take (limit + 1)).map historyItem).dropLast = (rows.take limit).map historyItem := by
      rw [← map_dropLast, dropLast_eq_take, length_take, take_take]
      congr 2
      omega
    obtain ⟨last, isLast⟩ : ∃ last, (rows.take limit).getLast? = some last := by
      refine ⟨_, List.getLast?_eq_some_getLast fun empty => ?_⟩
      have := congrArg List.length empty
      rw [length_take, length_nil] at this
      omega
    have lastItem : ((rows.take limit).map historyItem).getLast? = some (historyItem last) := by
      rw [List.getLast?_map, isLast]
      rfl
    simp only [hasMore, if_true, shorter, lastItem, records, if_pos more, isLast]
    rfl
  · have hasMore : decide (limit < ((rows.take (limit + 1)).map historyItem).length) = false :=
      decide_eq_false (by omega)
    have whole : rows.take (limit + 1) = rows.take limit := by
      rw [take_of_length_le (by omega), take_of_length_le (by omega)]
    rw [whole] at hasMore ⊢
    simp only [hasMore, Bool.false_eq_true, if_false, records, if_neg more]
    rfl

structure HistoryRequest (validAt : ValidAt) (attr : String) (limit : Nat) : Prop where
  anyTime : validAt = .anyValidTime
  keyword : isStoredKeyword attr = true
  positive : 0 < limit
  bounded : limit ≤ readViewMaxRows

theorem validateHistory_eq_ok_iff {after : Option EntityAttributeHistoryCursor} {limit : Nat} :
    validateEntityAttributeHistoryRequest validAt txCount entity attr after limit = .ok () ↔
      HistoryRequest validAt attr limit ∧ ∀ cursor, after = some cursor → cursor.entity = entity ∧
        cursor.attr = attr ∧ cursor.txCount = txCount ∧ cursor.lastKey.entity = entity ∧
        cursor.lastKey.attr = attr := by
  rw [validateEntityAttributeHistoryRequest]
  constructor
  · intro valid
    split_ifs at valid with time keyword rows other
    · refine ⟨⟨not_not.mp time, by simpa using keyword, by omega, by omega⟩, ?_⟩
      rintro cursor rfl
      simpa using other
  · rintro ⟨⟨time, keyword, positive, bounded⟩, own⟩
    rw [if_neg (not_not.mpr time), if_neg (by simp [keyword]), if_neg (by omega), if_neg]
    cases after with
    | none => simp
    | some cursor => simpa using own cursor rfl

def rowsAfter (txCount : UInt64) (entity : EntityId) (attr : String) (log : FactLog)
    (after : Option EntityAttributeHistoryCursor) : List Fact :=
  (visibleHistory txCount entity attr log).filter
    (MergeCursor.behind compareEavt (after.map EntityAttributeHistoryCursor.lastKey))

theorem historySteps_start (distinct : DistinctRecords log.records)
    (after : Option EntityAttributeHistoryCursor) {limit : Nat} :
    StepsEnd txCount (historyAfter log entity attr (after.map lastKey))
      (limit + 1) (historySteps log entity attr txCount (limit + 1)
        (entityAttributeHistoryMaxSourceEntries + 1) (entityAttributeHistoryCursor log entity attr
          (after.map lastKey))) := by
  obtain ⟨unseen, run⟩ := @historyRun_start log entity attr txCount distinct (after.map lastKey)
  refine historySteps_spec run (by rw [run.processed]; decide) ?_ _ (Nat.zero_lt_succ _)
    (by rw [run.processed]; decide)
  exact increasing_indexRange (separates_entityAttributeRange entity attr) (pairwise_append.mp distinct).1

theorem entityAttributeHistory_eq_ok (distinct : DistinctRecords log.records) {page : EntityAttributeHistoryPage}
    (returned : entityAttributeHistory encodedBytes continuationBytes validAt txCount entity attr log after
      limit = .ok page) :
    0 < limit ∧ page = historyPage txCount entity attr (rowsAfter txCount entity attr log after) limit := by
  simp only [entityAttributeHistory, Except.bind_eq_ok_iff] at returned
  obtain ⟨_, valid, items, stepped, finished⟩ := returned
  have positive := (validateHistory_eq_ok_iff.mp valid).1.positive
  obtain ⟨rfl, -⟩ := (historySteps_start distinct after).rows items stepped
  rw [filter_historyAfter, finishHistoryPage_eq positive] at finished
  refine ⟨positive, ?_⟩
  split at finished
  · cases finished
  · exact (Except.ok.inj finished).symm

/-- Why the request for a page is rejected: it is not valid, the first 65,536 source entries behind its
    position do not fill the page, or the page is too large. -/
def RejectsPage (encodedBytes : List FactRecord → Nat) (continuationBytes : EntityAttributeHistoryCursor → Nat)
    (validAt : ValidAt) (txCount : UInt64) (entity : EntityId) (attr : String) (log : FactLog)
    (position : Option Fact) (rows : List Fact) (limit : Nat) : Prop :=
  ¬HistoryRequest validAt attr limit ∨
    (entityAttributeHistoryMaxSourceEntries ≤ (historyAfter log entity attr position).length ∧
      (((historyAfter log entity attr position).take entityAttributeHistoryMaxSourceEntries).filter
        (visibleAt txCount)).length ≤ limit) ∨
    entityAttributeHistoryMaxResultBytes <
      pageBytes encodedBytes continuationBytes txCount entity attr rows limit

variable (distinct : DistinctRecords log.records)
  (own : ∀ cursor, after = some cursor → cursor.entity = entity ∧ cursor.attr = attr ∧
    cursor.txCount = txCount ∧ cursor.lastKey.entity = entity ∧ cursor.lastKey.attr = attr)
include distinct own

theorem rejectsPage_of_error {message : String}
    (failed : entityAttributeHistory encodedBytes continuationBytes validAt txCount entity attr log after
      limit = .error message) :
    RejectsPage encodedBytes continuationBytes validAt txCount entity attr log (after.map lastKey)
      (rowsAfter txCount entity attr log after) limit := by
  have ends := @historySteps_start txCount entity attr log distinct after limit
  by_contra admitted
  simp only [RejectsPage, not_or, not_not] at admitted
  obtain ⟨request, work, bytes⟩ := admitted
  simp only [entityAttributeHistory, Except.bind_eq_error_iff] at failed
  rcases failed with invalid | ⟨_, -, exceeded | ⟨items, stepped, tooLarge⟩⟩
  · rw [validateHistory_eq_ok_iff.mpr ⟨request, own⟩] at invalid
    cases invalid
  · obtain ⟨-, many, few⟩ := ends.work message exceeded
    exact work ⟨many, Nat.le_of_lt_succ few⟩
  · obtain ⟨rfl, -⟩ := ends.rows items stepped
    rw [filter_historyAfter, ← rowsAfter, finishHistoryPage_eq request.positive, if_neg bytes] at tooLarge
    cases tooLarge

variable (request : HistoryRequest validAt attr limit)

include request in
theorem entityAttributeHistory_rejects (few : (rowsAfter txCount entity attr log after).length ≤ limit)
    (work : entityAttributeHistoryMaxSourceEntries <
      (historyAfter log entity attr (after.map lastKey)).length) :
    entityAttributeHistory encodedBytes continuationBytes validAt txCount entity attr log after limit =
      .error historySourceWorkExceeded := by
  have ends := @historySteps_start txCount entity attr log distinct after limit
  have valid := (@validateHistory_eq_ok_iff validAt txCount entity attr after limit).mpr ⟨request, own⟩
  simp only [entityAttributeHistory, Except.bind_eq_error_iff]
  refine .inr ⟨(), valid, .inl ?_⟩
  cases stepped : historySteps log entity attr txCount (limit + 1) (entityAttributeHistoryMaxSourceEntries + 1)
      (entityAttributeHistoryCursor log entity attr (after.map lastKey)) with
  | error message => rw [(ends.work message stepped).1]
  | ok items =>
    obtain ⟨rfl, full | within⟩ := ends.rows items stepped
    · rw [filter_historyAfter, length_map, length_take, ← rowsAfter] at full
      omega
    · omega

end Pages

/-- What may happen to the log while a view is open: transactions after the one the view is pinned
    at, and checkpoints. -/
inductive LogStep (txCount : UInt64) : FactLog → FactLog → Prop
  | write {log : FactLog} (facts : List Fact)
      (later : ∀ fact ∈ facts, txCount < fact.txCount ∧ ∀ record ∈ log.records, record.txCount < fact.txCount) :
      LogStep txCount log { log with pending := loadFacts log.pending facts }
  | checkpoint (log : FactLog) : LogStep txCount log { committed := log.records, pending := [] }

def Evolves (txCount : UInt64) : FactLog → List (FactLog × Nat) → Prop
  | _, [] => True
  | log, (next, _) :: requests =>
    Relation.ReflTransGen (LogStep txCount) log next ∧ Evolves txCount next requests

section Evolution

variable {txCount : UInt64} {log log' : FactLog}

theorem distinct_loadFacts {committed pending facts : List Fact}
    (distinct : DistinctRecords (committed ++ pending))
    (later : ∀ fact ∈ facts, ∀ record ∈ committed, record.txCount < fact.txCount) :
    DistinctRecords (committed ++ loadFacts pending facts) := by
  induction facts generalizing pending with
  | nil => exact distinct
  | cons fact facts ih =>
    obtain ⟨first, later⟩ := forall_mem_cons.mp later
    refine ih ?_ later
    rw [loadFact]
    split
    · exact distinct
    rename_i fresh
    rw [← append_assoc]
    refine pairwise_append.mpr ⟨distinct, pairwise_singleton _ _, fun record member other isFact => ?_⟩
    obtain rfl := mem_singleton.mp isFact
    rcases mem_append.mp member with member | member
    · exact Bool.eq_false_iff.mpr fun same =>
        UInt64.lt_irrefl _ (sameRecord_txCount same ▸ first record member)
    · rw [Bool.not_eq_true, any_eq_false] at fresh
      exact Bool.eq_false_iff.mpr (fresh record member)

theorem filter_loadFacts {pending facts : List Fact}
    (later : ∀ fact ∈ facts, visibleAt txCount fact = false) :
    (loadFacts pending facts).filter (visibleAt txCount) = pending.filter (visibleAt txCount) := by
  induction facts generalizing pending with
  | nil => rfl
  | cons fact facts ih =>
    obtain ⟨first, later⟩ := forall_mem_cons.mp later
    refine (ih later).trans ?_
    rw [loadFact]
    split
    · rfl
    · simp [first]

theorem LogStep.keeps (step : LogStep txCount log log') (distinct : DistinctRecords log.records) :
    DistinctRecords log'.records ∧
      log'.records.filter (visibleAt txCount) = log.records.filter (visibleAt txCount) := by
  cases step with
  | write facts later =>
    refine ⟨distinct_loadFacts distinct fun fact member record inCommitted =>
      (later fact member).2 record (mem_append_left _ inCommitted), ?_⟩
    have unseen : ∀ fact ∈ facts, visibleAt txCount fact = false := fun fact member =>
      decide_eq_false (UInt64.not_le.mpr (later fact member).1)
    rw [FactLog.records, FactLog.records, filter_append, filter_append, filter_loadFacts unseen]
  | checkpoint =>
    have same : FactLog.records { committed := log.records, pending := [] } = log.records :=
      append_nil _
    rw [same]
    exact ⟨distinct, rfl⟩

theorem keeps_run (steps : Relation.ReflTransGen (LogStep txCount) log log')
    (distinct : DistinctRecords log.records) :
    DistinctRecords log'.records ∧
      log'.records.filter (visibleAt txCount) = log.records.filter (visibleAt txCount) := by
  induction steps with
  | refl => exact ⟨distinct, rfl⟩
  | tail _ step ih =>
    obtain ⟨between, same⟩ := ih
    obtain ⟨after, same'⟩ := step.keeps between
    exact ⟨after, same'.trans same⟩

theorem visibleHistory_congr {entity : EntityId} {attr : String} (distinct : DistinctRecords log.records)
    (distinct' : DistinctRecords log'.records)
    (same : log'.records.filter (visibleAt txCount) = log.records.filter (visibleAt txCount)) :
    visibleHistory txCount entity attr log' = visibleHistory txCount entity attr log :=
  filter_indexRange_eq (separates_entityAttributeRange entity attr) distinct' distinct (same ▸ List.Perm.refl _)

end Evolution

section Follow

variable {encodedBytes : List FactRecord → Nat} {continuationBytes : EntityAttributeHistoryCursor → Nat}
  {validAt : ValidAt} {txCount : UInt64} {entity : EntityId} {attr : String}

def SeesHistory (txCount : UInt64) (entity : EntityId) (attr : String) (history : List Fact)
    (log : FactLog) : Prop :=
  DistinctRecords log.records ∧ visibleHistory txCount entity attr log = history

theorem SeesHistory.increasing {history : List Fact} (sees : SeesHistory txCount entity attr history log) :
    MergeCursor.Increasing compareEavt history := by
  rw [← sees.2]
  exact (increasing_indexRange (separates_entityAttributeRange entity attr) sees.1).sublist filter_sublist

theorem rowsAfter_eq {front back : List Fact} (sees : SeesHistory txCount entity attr (front ++ back) log) :
    rowsAfter txCount entity attr log (front.getLast?.map (continueAfter txCount entity attr)) = back := by
  rw [rowsAfter, sees.2, Option.map_map]
  have key : lastKey ∘ continueAfter txCount entity attr = id := rfl
  rw [key, Option.map_id, id]
  rcases eq_nil_or_concat front with rfl | ⟨before, last, rfl⟩
  · exact filter_eq_self.mpr fun _ _ => rfl
  · have increasing := sees.increasing
    rw [concat_eq_append, append_assoc] at increasing ⊢
    rw [List.getLast?_concat]
    exact MergeCursor.filter_behind_append increasing

theorem historyRows_turned {front back : List Fact} {request : FactLog × Nat}
    {result : List FactRecord × Option EntityAttributeHistoryCursor}
    (sees : SeesHistory txCount entity attr (front ++ back) request.1)
    (answered : historyRows encodedBytes continuationBytes validAt txCount entity attr request
      (front.getLast?.map (continueAfter txCount entity attr)) = .ok result) :
    Paging.Turned (fun fact => [fact.record]) (fun front => front.getLast?.map (continueAfter txCount entity attr))
      (· ≠ []) front back result (back.take request.2) (back.drop request.2) := by
  obtain ⟨page, returned, same⟩ := Except.bind_eq_ok_iff.mp answered
  cases same
  obtain ⟨positive, rfl⟩ := entityAttributeHistory_eq_ok sees.1 returned
  rw [rowsAfter_eq sees]
  have split := (take_append_drop request.2 back).symm
  by_cases more : request.2 < back.length
  swap
  · exact ⟨split, map_eq_flatMap, fun _ => drop_eq_nil_iff.mpr (not_lt.mp more), absurd (if_neg more)⟩
  have taken : back.take request.2 ≠ [] := by
    rw [Ne, take_eq_nil_iff, ← length_eq_zero_iff]
    omega
  have next : nextPage txCount entity attr back request.2 = _ := if_pos more
  refine ⟨split, map_eq_flatMap, fun none => ?_, fun _ => ⟨taken, ?_, ?_⟩⟩
  · exact absurd (getLast?_eq_none_iff.mp (Option.map_eq_none_iff.mp (next.symm.trans none))) taken
  · rw [List.getLast?_append_of_ne_nil _ taken]
    exact next
  · rw [Ne, drop_eq_nil_iff]
    omega

theorem SeesHistory.own {front back : List Fact} (sees : SeesHistory txCount entity attr (front ++ back) log) :
    ∀ cursor, front.getLast?.map (continueAfter txCount entity attr) = some cursor →
      cursor.entity = entity ∧ cursor.attr = attr ∧ cursor.txCount = txCount ∧
        cursor.lastKey.entity = entity ∧ cursor.lastKey.attr = attr := by
  intro cursor isCursor
  obtain ⟨fact, isLast, rfl⟩ := Option.map_eq_some_iff.mp isCursor
  have known : fact ∈ visibleHistory txCount entity attr log :=
    sees.2 ▸ mem_append_left _ (mem_of_getLast? isLast)
  have inRange := (mem_filter.mp ((indexRange_perm _ _ _).mem_iff.mp (mem_of_mem_filter known))).2
  exact ⟨rfl, rfl, rfl, inEntityAttribute_iff.mp inRange⟩

/-- The requests before the one that is rejected have read their limits of rows each. -/
theorem followPages_rejects {requests : List (FactLog × Nat)} {front back : List Fact} {message : String}
    (sees : ∀ request ∈ requests, SeesHistory txCount entity attr (front ++ back) request.1)
    (failed : followPages encodedBytes continuationBytes validAt txCount entity attr requests
      (front.getLast?.map (continueAfter txCount entity attr)) = .error message) :
    ∃ earlier log limit later, requests = earlier ++ (log, limit) :: later ∧
      RejectsPage encodedBytes continuationBytes validAt txCount entity attr log
        (front ++ back.take (earlier.map Prod.snd).sum).getLast? (back.drop (earlier.map Prod.snd).sum)
        limit := by
  induction requests generalizing front back with
  | nil => cases failed
  | cons request requests ih =>
    obtain ⟨log, limit⟩ := request
    obtain ⟨here, sees⟩ := forall_mem_cons.mp sees
    rcases Except.bind_eq_error_iff.mp failed with rejected | ⟨⟨facts, next⟩, answered, failed⟩
    · refine ⟨[], log, limit, requests, rfl, ?_⟩
      rcases Except.bind_eq_error_iff.mp rejected with rejected | ⟨_, _, ⟨⟩⟩
      have rejects := rejectsPage_of_error here.1 here.own rejected
      rw [rowsAfter_eq here, Option.map_map] at rejects
      have key : lastKey ∘ continueAfter txCount entity attr = id := rfl
      rw [key, Option.map_id, id] at rejects
      simpa using rejects
    · have turned := historyRows_turned here answered
      cases next with
      | none => cases failed
      | some next =>
        obtain ⟨-, isNext, -⟩ := turned.goesOn (Option.some_ne_none next)
        rcases Except.bind_eq_error_iff.mp failed with failed | ⟨_, _, ⟨⟩⟩
        dsimp only at isNext
        rw [isNext] at failed
        rw [turned.split, ← append_assoc] at sees
        obtain ⟨earlier, log', limit', later, rfl, rejects⟩ := ih sees failed
        refine ⟨(log, limit) :: earlier, log', limit', later, rfl, ?_⟩
        rw [map_cons, sum_cons, take_add, ← append_assoc, ← drop_drop]
        exact rejects

theorem evolves_sees {log : FactLog} {requests : List (FactLog × Nat)} (evolves : Evolves txCount log requests)
    (distinct : DistinctRecords log.records) :
    ∀ page ∈ requests, DistinctRecords page.1.records ∧
      page.1.records.filter (visibleAt txCount) = log.records.filter (visibleAt txCount) := by
  induction requests generalizing log with
  | nil => exact fun _ member => by cases member
  | cons page requests ih =>
    obtain ⟨steps, evolves⟩ := evolves
    obtain ⟨distinct', same⟩ := keeps_run steps distinct
    refine forall_mem_cons.mpr ⟨⟨distinct', same⟩, fun other member => ?_⟩
    obtain ⟨distinct'', same'⟩ := ih evolves distinct' other member
    exact ⟨distinct'', same'.trans same⟩

theorem Evolves.sees {start : FactLog} {requests : List (FactLog × Nat)}
    (distinct : DistinctRecords start.records) (evolves : Evolves txCount start requests) :
    ∀ request ∈ requests,
      SeesHistory txCount entity attr (visibleHistory txCount entity attr start) request.1 := by
  intro request member
  obtain ⟨distinct', same⟩ := evolves_sees evolves distinct request member
  exact ⟨distinct', visibleHistory_congr distinct distinct' same⟩

structure ReadsHistory (history : List FactRecord) (requests : List (FactLog × Nat))
    (facts : List FactRecord) (last : Option EntityAttributeHistoryCursor) : Prop where
  inOrder : facts.IsPrefix history
  whole : last = none → facts = history
  goesOn : last ≠ none → requests.length ≤ facts.length ∧ facts.length < history.length

/-- Following the continuations reads the history of the view, whatever is written or checkpointed
    in between, unless a page is rejected. -/
theorem followPages_readsHistory {start : FactLog} (distinct : DistinctRecords start.records)
    {requests : List (FactLog × Nat)} (asked : requests ≠ []) (evolves : Evolves txCount start requests) :
    (∀ facts last, followPages encodedBytes continuationBytes validAt txCount entity attr requests none =
        .ok (facts, last) →
      ReadsHistory ((visibleHistory txCount entity attr start).map Fact.record) requests facts last) ∧
    ∀ message, followPages encodedBytes continuationBytes validAt txCount entity attr requests none =
        .error message →
      ∃ earlier log limit later, requests = earlier ++ (log, limit) :: later ∧
        RejectsPage encodedBytes continuationBytes validAt txCount entity attr log
          ((visibleHistory txCount entity attr start).take (earlier.map Prod.snd).sum).getLast?
          ((visibleHistory txCount entity attr start).drop (earlier.map Prod.snd).sum) limit := by
  have sees := @Evolves.sees txCount entity attr start requests distinct evolves
  constructor
  · intro facts last followed
    obtain ⟨taken, rest, reads⟩ := @Paging.follow_spec _ _ _ _ _ _ _ _ _ (visibleHistory txCount entity attr start)
      _ (fun request member _ _ _ split answered =>
        ⟨_, _, historyRows_turned (split ▸ sees request member) answered⟩) [] _ (nil_append _).symm (absurd rfl) _
      followed
    have isFacts : facts = taken.map Fact.record := reads.rows.trans map_eq_flatMap.symm
    have split := congrArg (List.map Fact.record) reads.split
    rw [map_append, ← isFacts] at split
    refine ⟨⟨_, split.symm⟩, fun none => ?_, fun goes => ?_⟩
    · obtain rfl := (reads.ends none).resolve_right fun ⟨empty, _⟩ => asked empty
      rw [split, map_nil, append_nil]
    · obtain ⟨long, some⟩ := reads.goesOn goes
      have := length_pos_of_ne_nil some
      rw [split, isFacts, length_append, length_map, length_map]
      omega
  · intro message failed
    exact @followPages_rejects encodedBytes continuationBytes validAt txCount entity attr requests []
      (visibleHistory txCount entity attr start) message sees failed

end Follow

section Example

def crowdFact (n : Nat) : Fact :=
  ⟨1, ":a/b", .integer 0, UInt64.ofNat (n + 1), UInt64.ofNat (n + 1), 0, 1, true⟩

def crowdLog (count : Nat) : FactLog := ⟨(List.range count).map crowdFact, []⟩

variable {count : Nat}

theorem records_crowdLog (count : Nat) : (crowdLog count).records = (List.range count).map crowdFact :=
  append_nil _

theorem toNat_crowdFact (bound : count < 2 ^ 64) {n : Nat} (member : n ∈ List.range count) :
    (crowdFact n).txCount.toNat = n + 1 := by
  rw [mem_range] at member
  exact UInt64.toNat_ofNat_of_lt' (by rw [UInt64.size]; omega)

theorem distinct_crowdLog (bound : count < 2 ^ 64) : DistinctRecords (crowdLog count).records := by
  rw [records_crowdLog, DistinctRecords, pairwise_map]
  refine List.Pairwise.imp_of_mem (fun inA inB less => Bool.eq_false_iff.mpr fun same => ?_) pairwise_lt_range
  have := congrArg UInt64.toNat (sameRecord_txCount same)
  rw [toNat_crowdFact bound inA, toNat_crowdFact bound inB] at this
  omega

theorem visibleHistory_crowdLog (bound : count < 2 ^ 64) :
    visibleHistory 0 1 ":a/b" (crowdLog count) = [] := by
  refine filter_eq_nil_iff.mpr fun fact member => ?_
  have known := mem_of_mem_filter ((indexRange_perm _ _ _).mem_iff.mp member)
  rw [records_crowdLog] at known
  obtain ⟨n, inRange, rfl⟩ := mem_map.mp known
  rw [visibleAt, decide_eq_true_eq, UInt64.le_iff_toNat_le, toNat_crowdFact bound inRange]
  exact Nat.not_succ_le_zero n

theorem length_historyAfter_crowdLog (count : Nat) :
    (historyAfter (crowdLog count) 1 ":a/b" none).length = count := by
  have all : (crowdLog count).records.filter (inEntityAttribute 1 ":a/b") = (crowdLog count).records := by
    refine filter_eq_self.mpr fun fact member => ?_
    rw [records_crowdLog] at member
    obtain ⟨n, -, rfl⟩ := mem_map.mp member
    exact inEntityAttribute_iff.mpr ⟨rfl, rfl⟩
  have behind : historyAfter (crowdLog count) 1 ":a/b" none =
      indexRange compareEavt (inEntityAttribute 1 ":a/b") (crowdLog count).records :=
    filter_eq_self.mpr fun _ _ => rfl
  rw [behind, (indexRange_perm _ _ _).length_eq, all, records_crowdLog, length_map, length_range]

/-- A view without a single record of the attribute is refused its first page. -/
theorem crowded_page_rejected : visibleHistory 0 1 ":a/b" (crowdLog 65537) = [] ∧
    entityAttributeHistory (fun _ => 0) (fun _ => 0) .anyValidTime 0 1 ":a/b" (crowdLog 65537) none 1 =
      .error historySourceWorkExceeded := by
  have bound : 65537 < 2 ^ 64 := by decide
  have nothing : rowsAfter 0 1 ":a/b" (crowdLog 65537) none = [] := by
    rw [rowsAfter, visibleHistory_crowdLog bound]
    rfl
  refine ⟨visibleHistory_crowdLog bound, entityAttributeHistory_rejects (distinct_crowdLog bound)
    (by rintro _ ⟨⟩) ⟨rfl, by decide +kernel, by decide, by decide⟩ ?_ ?_⟩
  · rw [nothing]
    exact Nat.zero_le _
  · rw [Option.map_none, length_historyAfter_crowdLog]
    decide

def pagedLog : FactLog := ⟨[crowdFact 0], [crowdFact 1]⟩

def grownLog : FactLog := { pagedLog with pending := loadFacts pagedLog.pending [crowdFact 2] }

theorem followPages_readsHistory_paged : ReadsHistory [(crowdFact 0).record, (crowdFact 1).record]
      [(pagedLog, 1), (⟨grownLog.records, []⟩, 5)]
      [(crowdFact 0).record, (crowdFact 1).record] none := by
  have later : ∀ fact ∈ [crowdFact 2], 2 < fact.txCount ∧
      ∀ record ∈ pagedLog.records, record.txCount < fact.txCount := by decide +kernel
  have evolves : Evolves 2 pagedLog [(pagedLog, 1), (⟨grownLog.records, []⟩, 5)] :=
    ⟨.refl, (Relation.ReflTransGen.single (.write [crowdFact 2] later)).tail (.checkpoint grownLog), trivial⟩
  have reads := (@followPages_readsHistory (fun _ => 0) (fun _ => 0) .anyValidTime 2 1 ":a/b" pagedLog
    (by unfold DistinctRecords; decide +kernel) _ (by simp) evolves).1
    [(crowdFact 0).record, (crowdFact 1).record] none (by decide +kernel)
  have history : visibleHistory 2 1 ":a/b" pagedLog = [crowdFact 0, crowdFact 1] := by decide +kernel
  rwa [history] at reads

end Example

end ViciaDb
