import ViciaDb.Graph.ExactCursors
import ViciaDb.Lib.Paging

namespace ViciaDb

open List MergeCursor

def readViewMaxRows : Nat := 10000

def entityAttributeHistoryMaxSourceEntries : Nat := 65536

def entityAttributeHistoryMaxResultBytes : Nat := 8 * 1024 * 1024

def entityAttributeHistoryStepEntries : Nat := 4096

def PseudoAttr.fromKeyword (keyword : String) : Option PseudoAttr :=
  if keyword = ":db/valid-from" then some .validFrom
  else if keyword = ":db/valid-to" then some .validTo
  else if keyword = ":db/tx-count" then some .txCount
  else if keyword = ":db/tx-id" then some .txId
  else if keyword = ":db/valid-at" then some .validAt
  else none

def isStoredKeyword (attr : String) : Bool :=
  attr.toList.head? == some ':' && attr.toList.contains '/' && !attr.toList.contains (Char.ofNat 0) &&
    (PseudoAttr.fromKeyword attr).isNone

inductive FactValidTime where
  | allValidTime
  | window (validFrom validTo : Int64)
  deriving DecidableEq, Repr

structure FactRecord where
  entity : EntityId
  attr : String
  value : Value
  txId : UInt64
  txCount : UInt64
  validTime : FactValidTime
  asserted : Bool
  deriving DecidableEq, Repr

def factRecordFromEavt (fact : Fact) (value : Value) : FactRecord where
  entity := fact.entity
  attr := fact.attr
  value := value
  txId := fact.txId
  txCount := fact.txCount
  validTime :=
    if !fact.asserted && fact.isUnscoped then .allValidTime else .window fact.validFrom fact.validTo
  asserted := fact.asserted

def historyValue (fact : Fact) : Except String Value :=
  if (encodeValue fact.value).head? = some 0x03 then .ok fact.value
  else decodeIndexValue (encodeValue fact.value)

structure EntityAttributeHistoryItem where
  record : FactRecord
  resumeKey : Fact
  deriving DecidableEq

structure EntityAttributeHistoryCursor where
  entity : EntityId
  attr : String
  txCount : UInt64
  lastKey : Fact
  deriving DecidableEq

structure EntityAttributeHistoryPage where
  facts : List FactRecord
  next : Option EntityAttributeHistoryCursor
  deriving DecidableEq

def rangeEavtPage (pending : List Fact) (position : Option Fact) : List Fact × Bool :=
  let page := pending.filter fun fact => position.all fun key => (compareEavt fact key).isGE
  ((page.take (entityAttributeHistoryMaxSourceEntries + 1)).dropWhile fun fact =>
      position.any fun key => !(compareEavt fact key).isGT,
    decide (entityAttributeHistoryMaxSourceEntries < page.length))

structure HistoryScan where
  cursor : Cursor Fact
  processedEntries : Nat
  items : List EntityAttributeHistoryItem

section Reader

variable (log : FactLog) (entity : EntityId) (attr : String) (asOfTxCount : UInt64)

def committedHistory : List Fact := indexRange compareEavt (inEntityAttribute entity attr) log.committed

def pendingHistory : List Fact := indexRange compareEavt (inEntityAttribute entity attr) log.pending

def entityAttributeHistoryCursor (after : Option Fact) : HistoryScan :=
  let (waiting, more) := rangeEavtPage (pendingHistory log entity attr) after
  { cursor := { last := after, waiting, more, scanned := false }, processedEntries := 0, items := [] }

def visibleAt (fact : Fact) : Bool := fact.txCount ≤ asOfTxCount

def acceptHistory (fact : Fact) : Except String EntityAttributeHistoryItem := do
  let value ← historyValue fact
  return { record := factRecordFromEavt fact value, resumeKey := fact }

def historyRules (scan : HistoryScan) (maxEntries maxRows : Nat) : Rules Fact where
  cmp := compareEavt
  full taken := decide (maxEntries ≤ scan.processedEntries + taken.length) ||
    decide (maxRows ≤ scan.items.length + (taken.filter (visibleAt asOfTxCount)).length)
  notesWaiting := true

def refillHistory (cursor : Cursor Fact) : Cursor Fact :=
  if cursor.waiting.isEmpty && cursor.more then
    let (waiting, more) := rangeEavtPage (pendingHistory log entity attr) cursor.last
    { cursor with waiting, more }
  else cursor

def stepEntityAttributeHistoryCursor (maxEntries maxRows : Nat) (scan : HistoryScan) :
    Except String (HistoryScan × Bool) :=
  if maxEntries = 0 ∨ maxEntries ≤ scan.processedEntries then .ok (scan, false)
  else if maxRows ≤ scan.items.length then .ok (scan, false)
  else do
    let (taken, cursor, complete) := step (historyRules asOfTxCount scan maxEntries maxRows)
      (committedHistory log entity attr) (refillHistory log entity attr scan.cursor)
    let items ← (taken.filter (visibleAt asOfTxCount)).mapM acceptHistory
    return ({ cursor, processedEntries := scan.processedEntries + taken.length, items := scan.items ++ items },
      complete)

def historySourceWorkExceeded : String :=
  s!"entity_attribute_history source work exceeds {entityAttributeHistoryMaxSourceEntries} entries; result was rejected without truncation"

def historySteps (wantedRows : Nat) : Nat → HistoryScan → Except String (List EntityAttributeHistoryItem)
  | 0, _ => .error "entity_attribute_history did not end"
  | fuel + 1, scan => do
    let stepCeiling := min (scan.processedEntries + entityAttributeHistoryStepEntries)
      entityAttributeHistoryMaxSourceEntries
    let (scan, complete) ← stepEntityAttributeHistoryCursor log entity attr asOfTxCount stepCeiling wantedRows scan
    if complete || decide (wantedRows ≤ scan.items.length) then return scan.items
    else if entityAttributeHistoryMaxSourceEntries ≤ scan.processedEntries then
      .error historySourceWorkExceeded
    else historySteps wantedRows fuel scan

end Reader

def validateEntityAttributeHistoryRequest (validAt : ValidAt) (txCount : UInt64) (entity : EntityId)
    (attr : String) (after : Option EntityAttributeHistoryCursor) (limit : Nat) : Except String Unit :=
  if validAt ≠ .anyValidTime then .error "entity_attribute_history requires an AnyValidTime read view"
  else if !isStoredKeyword attr then
    .error s!"entity_attribute_history attribute must be a namespace-qualified stored keyword: {attr}"
  else if limit = 0 ∨ readViewMaxRows < limit then
    .error s!"entity_attribute_history limit must be in 1..={readViewMaxRows}; got {limit}"
  else if after.any fun cursor => decide (cursor.entity ≠ entity ∨ cursor.attr ≠ attr ∨
      cursor.txCount ≠ txCount ∨ cursor.lastKey.entity ≠ entity ∨ cursor.lastKey.attr ≠ attr) then
    .error "entity_attribute_history cursor does not belong to this read view and exact range"
  else .ok ()

section Page

-- the bytes of the encoded rows and of the encoded continuation
variable (encodedBytes : List FactRecord → Nat) (continuationBytes : EntityAttributeHistoryCursor → Nat)

def finishEntityAttributeHistoryPage (entity : EntityId) (attr : String) (txCount : UInt64) (limit : Nat)
    (items : List EntityAttributeHistoryItem) : Except String EntityAttributeHistoryPage := do
  let hasMore := decide (limit < items.length)
  let items := if hasMore then items.dropLast else items
  let next ←
    if hasMore then
      match items.getLast? with
      | some last => .ok (some { entity, attr, txCount, lastKey := last.resumeKey })
      | none => .error "history page continuation has no row"
    else .ok none
  let facts := items.map EntityAttributeHistoryItem.record
  if entityAttributeHistoryMaxResultBytes < encodedBytes facts + (next.map continuationBytes).getD 0 then
    .error s!"entity_attribute_history result exceeds {entityAttributeHistoryMaxResultBytes} bytes; result was rejected without truncation"
  else .ok { facts, next }

def entityAttributeHistory (validAt : ValidAt) (txCount : UInt64) (entity : EntityId) (attr : String)
    (log : FactLog) (after : Option EntityAttributeHistoryCursor) (limit : Nat) :
    Except String EntityAttributeHistoryPage := do
  validateEntityAttributeHistoryRequest validAt txCount entity attr after limit
  let scan := entityAttributeHistoryCursor log entity attr
    (after.map EntityAttributeHistoryCursor.lastKey)
  let items ← historySteps log entity attr txCount (limit + 1) (entityAttributeHistoryMaxSourceEntries + 1) scan
  finishEntityAttributeHistoryPage encodedBytes continuationBytes entity attr txCount limit items

def historyRows (validAt : ValidAt) (txCount : UInt64) (entity : EntityId) (attr : String) (request : FactLog × Nat)
    (after : Option EntityAttributeHistoryCursor) :
    Except String (List FactRecord × Option EntityAttributeHistoryCursor) := do
  let page ← entityAttributeHistory encodedBytes continuationBytes validAt txCount entity attr request.1 after request.2
  return (page.facts, page.next)

def followPages (validAt : ValidAt) (txCount : UInt64) (entity : EntityId) (attr : String) :
    List (FactLog × Nat) → Option EntityAttributeHistoryCursor →
      Except String (List FactRecord × Option EntityAttributeHistoryCursor) :=
  Paging.follow (historyRows encodedBytes continuationBytes validAt txCount entity attr)

end Page

section Scan

variable {log : FactLog} {entity : EntityId} {attr : String} {asOfTxCount : UInt64}

def Fact.record (fact : Fact) : FactRecord := factRecordFromEavt fact fact.value

def historyItem (fact : Fact) : EntityAttributeHistoryItem := { record := fact.record, resumeKey := fact }

variable {rest unseen done : List Fact} {scan : HistoryScan}

theorem acceptHistory_eq (fact : Fact) : acceptHistory fact = .ok (historyItem fact) := by
  have value : historyValue fact = .ok fact.value := by
    rw [historyValue]
    cases isValue : fact.value with
    | float f => rfl
    | _ =>
      rw [decodeIndexValue_encodeValue rfl]
      simp [encodeValue]
  rw [acceptHistory, value]
  rfl

theorem rangeEavtPage_spec {pending : List Fact} (increasing : Increasing compareEavt pending)
    (position : Option Fact) :
    ∃ unseen, (rangeEavtPage pending position).1 ++ unseen =
        pending.filter (behind compareEavt position) ∧
      ((rangeEavtPage pending position).2 = false → unseen = []) ∧
      ((rangeEavtPage pending position).2 = true →
        entityAttributeHistoryMaxSourceEntries ≤ (rangeEavtPage pending position).1.length) := by
  let page := pending.filter fun fact => position.all fun key => (compareEavt fact key).isGE
  have sorted : Increasing compareEavt page := increasing.sublist filter_sublist
  have skips : ∀ facts : List Fact, facts.dropWhile (fun fact => position.any fun key =>
      !(compareEavt fact key).isGT) =
        facts.dropWhile fun fact => !behind compareEavt position fact := by
    intro facts
    cases position <;> rfl
  have listed : (rangeEavtPage pending position).1 =
      (page.take (entityAttributeHistoryMaxSourceEntries + 1)).filter
        (behind compareEavt position) := by
    rw [← dropWhile_not_behind (sorted.sublist (take_sublist _ _)), ← skips]
    rfl
  have all : page.filter (behind compareEavt position) = pending.filter (behind compareEavt position) := by
    rw [filter_filter]
    refine filter_congr fun fact _ => ?_
    cases position with
    | none => rfl
    | some key =>
      cases order : compareEavt fact key <;> simp [behind, order]
  refine ⟨(page.drop (entityAttributeHistoryMaxSourceEntries + 1)).filter
    (behind compareEavt position), ?_, fun whole => ?_, fun cut => ?_⟩
  · rw [listed, ← filter_append, take_append_drop, all]
  · have short : page.length ≤ entityAttributeHistoryMaxSourceEntries :=
      Nat.not_lt.mp (of_decide_eq_false whole)
    rw [drop_eq_nil_of_le (by omega)]
    rfl
  · have long : entityAttributeHistoryMaxSourceEntries < page.length := of_decide_eq_true cut
    have few := length_le_filter_behind
      (sorted.sublist (take_sublist (entityAttributeHistoryMaxSourceEntries + 1) page))
      fun fact member => (mem_filter.mp (mem_of_mem_take member)).2
    rw [length_take, Nat.min_eq_left (by omega)] at few
    rw [listed]
    omega

structure HistoryRun (log : FactLog) (entity : EntityId) (attr : String) (asOfTxCount : UInt64)
    (rest unseen : List Fact) (scan : HistoryScan) (done : List Fact) : Prop where
  ready : Ready compareEavt scan.cursor
  known : unseen = [] ∨ scan.cursor.more = true
  waits : scan.cursor.more = true →
    entityAttributeHistoryMaxSourceEntries ≤ scan.processedEntries + scan.cursor.waiting.length
  passed : rest = done ++ remaining compareEavt (committedHistory log entity attr) scan.cursor unseen
  processed : scan.processedEntries = done.length
  items : scan.items = (done.filter (visibleAt asOfTxCount)).map historyItem
  own : scan.cursor.waiting ⊆ pendingHistory log entity attr

structure HistoryStepped (log : FactLog) (entity : EntityId) (attr : String) (asOfTxCount : UInt64)
    (rest unseen : List Fact) (maxEntries maxRows : Nat) (scan : HistoryScan) (done : List Fact)
    (complete : Bool) : Prop where
  run : HistoryRun log entity attr asOfTxCount rest unseen scan done
  entries : scan.processedEntries ≤ maxEntries
  rows : scan.items.length ≤ maxRows
  finished : complete = true → done = rest
  yields : complete = false → maxEntries ≤ scan.processedEntries ∨ maxRows ≤ scan.items.length
  whole : complete = true → scan.cursor.more = false
  last : scan.cursor.more = false → done = rest → maxEntries ≤ scan.processedEntries →
    ∀ fact, rest.getLast? = some fact → (complete = false → fact ∈ committedHistory log entity attr) ∧
      (complete = true → fact ∈ pendingHistory log entity attr)

variable (run : HistoryRun log entity attr asOfTxCount rest unseen scan done)

variable (room : scan.processedEntries < entityAttributeHistoryMaxSourceEntries)

include run room in
theorem HistoryRun.refill :
    refillHistory log entity attr scan.cursor = scan.cursor := by
  rw [refillHistory, if_neg]
  rintro empty
  rw [Bool.and_eq_true, List.isEmpty_iff] at empty
  have := run.waits empty.2
  rw [empty.1, length_nil] at this
  omega

theorem mapM_acceptHistory (facts : List Fact) : facts.mapM acceptHistory = .ok (facts.map historyItem) :=
  mapM_ok_of_forall fun fact _ => acceptHistory_eq fact

include run in
theorem HistoryRun.advance {taken : List Fact} {cursor : Cursor Fact} (ready : Ready compareEavt cursor)
    (takes : remaining compareEavt (committedHistory log entity attr) scan.cursor unseen =
      taken ++ remaining compareEavt (committedHistory log entity attr) cursor unseen)
    (more : cursor.more = scan.cursor.more)
    (waits : scan.cursor.waiting.length ≤ taken.length + cursor.waiting.length)
    (fewer : cursor.waiting ⊆ scan.cursor.waiting) :
    HistoryRun log entity attr asOfTxCount rest unseen
      ⟨cursor, scan.processedEntries + taken.length,
        scan.items ++ (taken.filter (visibleAt asOfTxCount)).map historyItem⟩ (done ++ taken) := by
  refine ⟨ready, run.known.imp_right more.trans, fun isMore => ?_, ?_, ?_, ?_,
    fun _ member => run.own (fewer member)⟩
  · have := run.waits (more ▸ isMore)
    dsimp only
    omega
  · rw [run.passed, takes, append_assoc]
  · rw [length_append, ← run.processed]
  · rw [filter_append, map_append, ← run.items]

theorem within_historyRules {maxEntries maxRows : Nat} {taken : List Fact}
    (tight : Tight (historyRules asOfTxCount scan maxEntries maxRows) [] taken)
    (room : scan.processedEntries < maxEntries) (rows : scan.items.length < maxRows) :
    scan.processedEntries + taken.length ≤ maxEntries ∧
      scan.items.length + (taken.filter (visibleAt asOfTxCount)).length ≤ maxRows := by
  rcases tight with rfl | notFull
  · exact ⟨room.le, rows.le⟩
  · rw [historyRules] at notFull
    simp only [Bool.or_eq_false_iff, decide_eq_false_iff_not, length_dropLast] at notFull
    have := length_filter_le_dropLast (visibleAt asOfTxCount) taken
    omega

include run in
theorem stepHistory_spec {maxEntries maxRows : Nat}
    (increasing : Increasing compareEavt (committedHistory log entity attr))
    (room : scan.processedEntries < maxEntries)
    (bound : maxEntries ≤ entityAttributeHistoryMaxSourceEntries) (rows : scan.items.length < maxRows) :
    ∃ scan' done' complete,
      stepEntityAttributeHistoryCursor log entity attr asOfTxCount maxEntries maxRows scan =
        .ok (scan', complete) ∧ scan'.cursor.more = scan.cursor.more ∧
      HistoryStepped log entity attr asOfTxCount rest unseen maxEntries maxRows scan' done' complete := by
  rw [stepEntityAttributeHistoryCursor, if_neg (by omega), if_neg (by omega), run.refill (by omega)]
  have trans : Std.TransCmp (historyRules asOfTxCount scan maxEntries maxRows).cmp :=
    inferInstanceAs (Std.TransCmp compareEavt)
  have stepped := @MergeCursor.step_spec _ (historyRules asOfTxCount scan maxEntries maxRows) trans _ _
    increasing run.ready
  have tight := @MergeCursor.step_tight _ (historyRules asOfTxCount scan maxEntries maxRows)
    (committedHistory log entity attr) scan.cursor
  generalize step (historyRules asOfTxCount scan maxEntries maxRows)
    (committedHistory log entity attr) scan.cursor = result at stepped tight
  obtain ⟨taken, cursor, complete⟩ := result
  obtain ⟨entries, items⟩ := within_historyRules tight room rows
  dsimp only at entries items ⊢
  rw [mapM_acceptHistory]
  refine ⟨_, done ++ taken, complete, rfl, stepped.more,
    run.advance stepped.ready (stepped.takes unseen run.known) stepped.more stepped.waits stepped.fewer,
    entries, ?_, ?_, ?_, fun finished => stepped.more.trans (stepped.complete finished).2.2, ?_⟩
  · rw [length_append, length_map]
    exact items
  · intro finished
    obtain ⟨scanned, empty, whole⟩ := stepped.complete finished
    have nothing : unseen = [] := run.known.resolve_right (by rw [whole]; decide)
    have takes := stepped.takes unseen run.known
    rw [run.passed]
    refine congrArg (done ++ ·) (Eq.symm (takes.trans ?_))
    rw [remaining, if_pos scanned, empty, nothing, append_nil, append_nil]
  · intro incomplete
    dsimp only at incomplete ⊢
    rw [length_append, length_map]
    rcases stepped.yields incomplete with full | ⟨empty, more⟩
    · exact (Bool.or_eq_true _ _ ▸ full).imp of_decide_eq_true of_decide_eq_true
    · have waited := stepped.waits
      dsimp only at empty waited
      rw [empty, length_nil] at waited
      have := run.waits more
      omega
  · intro whole ended used fact isLast
    rw [stepped.more] at whole
    have nothing : unseen = [] := run.known.resolve_right (by rw [whole]; decide)
    have takes := run.passed.trans (congrArg (done ++ ·) (stepped.takes unseen run.known))
    rw [← ended, ← append_assoc, nothing, self_eq_append_right] at takes
    have some : taken.getLast? = some fact := by
      rw [← isLast, ← ended]
      cases taken with
      | nil =>
        dsimp only at used
        rw [length_nil] at used
        omega
      | cons first taken => rw [getLast?_append_cons]
    obtain ⟨yields, completes⟩ := stepped.last whole takes fact some
    refine ⟨yields, fun complete => run.own (completes complete ?_)⟩
    exact Bool.or_eq_true _ _ ▸ .inl (decide_eq_true used)

structure StepsEnd (asOfTxCount : UInt64) (rest : List Fact) (wantedRows : Nat)
    (result : Except String (List EntityAttributeHistoryItem)) : Prop where
  rows : ∀ items, result = .ok items →
    items = ((rest.filter (visibleAt asOfTxCount)).take wantedRows).map historyItem ∧
      (items.length = wantedRows ∨ rest.length ≤ entityAttributeHistoryMaxSourceEntries)
  work : ∀ message, result = .error message → message = historySourceWorkExceeded ∧
    entityAttributeHistoryMaxSourceEntries ≤ rest.length ∧
    ((rest.take entityAttributeHistoryMaxSourceEntries).filter (visibleAt asOfTxCount)).length < wantedRows

include run room in
theorem historySteps_spec {wantedRows : Nat}
    (increasing : Increasing compareEavt (committedHistory log entity attr)) (fuel : Nat)
    (rows : scan.items.length < wantedRows)
    (enough : entityAttributeHistoryMaxSourceEntries < scan.processedEntries + fuel) :
    StepsEnd asOfTxCount rest wantedRows
      (historySteps log entity attr asOfTxCount wantedRows fuel scan) := by
  induction fuel generalizing scan done with
  | zero => omega
  | succ fuel ih =>
    rw [historySteps]
    have ceiling : scan.processedEntries < min (scan.processedEntries + entityAttributeHistoryStepEntries)
        entityAttributeHistoryMaxSourceEntries := by
      have : 0 < entityAttributeHistoryStepEntries := by decide
      omega
    obtain ⟨scan', done', complete, ran, -, stepped⟩ :=
      stepHistory_spec run increasing ceiling (Nat.min_le_right _ _) rows
    rw [ran]
    change StepsEnd _ _ _ (if complete || decide (wantedRows ≤ scan'.items.length) then .ok scan'.items
      else if entityAttributeHistoryMaxSourceEntries ≤ scan'.processedEntries then
        .error historySourceWorkExceeded
      else historySteps log entity attr asOfTxCount wantedRows fuel scan')
    have within : done'.length ≤ rest.length := by
      rw [stepped.run.passed, length_append]
      exact Nat.le_add_right _ _
    have processed := stepped.run.processed
    have entries := stepped.entries
    split
    · rename_i ends
      refine ⟨?_, by rintro _ ⟨⟩⟩
      rintro items ⟨⟩
      rw [Bool.or_eq_true, decide_eq_true_eq] at ends
      have isItems := stepped.run.items
      have many := stepped.rows
      rw [isItems, length_map] at many ends ⊢
      by_cases filled : (done'.filter (visibleAt asOfTxCount)).length = wantedRows
      · refine ⟨?_, .inl filled⟩
        rw [stepped.run.passed, filter_append, take_left' filled]
      · have finished := stepped.finished (ends.resolve_right (by omega))
        rw [finished] at many ⊢
        refine ⟨by rw [take_of_length_le many], .inr ?_⟩
        rw [← finished]
        omega
    · rename_i goes
      rw [Bool.not_eq_true, Bool.or_eq_false_iff, decide_eq_false_iff_not] at goes
      have progress := (stepped.yields goes.1).resolve_right goes.2
      split
      · refine ⟨by rintro _ ⟨⟩, ?_⟩
        rintro message ⟨⟩
        have full : done'.length = entityAttributeHistoryMaxSourceEntries := by omega
        refine ⟨rfl, by omega, ?_⟩
        rw [stepped.run.passed, take_left' full]
        have isItems := congrArg List.length stepped.run.items
        rw [length_map] at isItems
        omega
      · exact ih stepped.run (by omega) (by omega) (by omega)

def historyAfter (log : FactLog) (entity : EntityId) (attr : String) (position : Option Fact) : List Fact :=
  (indexRange compareEavt (inEntityAttribute entity attr) log.records).filter
    (behind compareEavt position)

theorem merged_history (distinct : DistinctRecords log.records) (position : Option Fact) :
    merged compareEavt
        ((committedHistory log entity attr).filter (behind compareEavt position))
        ((pendingHistory log entity attr).filter (behind compareEavt position)) =
      historyAfter log entity attr position :=
  merged_indexRange (separates_entityAttributeRange entity attr) distinct

theorem historyRun_start (distinct : DistinctRecords log.records) (position : Option Fact) :
    ∃ unseen, HistoryRun log entity attr asOfTxCount (historyAfter log entity attr position) unseen
      (entityAttributeHistoryCursor log entity attr position) [] := by
  have increasing : Increasing compareEavt (pendingHistory log entity attr) :=
    increasing_indexRange (separates_entityAttributeRange entity attr) (pairwise_append.mp distinct).2.1
  obtain ⟨unseen, whole, uncut, long⟩ := rangeEavtPage_spec increasing position
  have waiting : ∀ fact ∈ (rangeEavtPage (pendingHistory log entity attr) position).1,
      fact ∈ (pendingHistory log entity attr).filter (behind compareEavt position) :=
    fun fact member => whole ▸ mem_append_left _ member
  refine ⟨unseen, ⟨?_, ?_⟩, ?_, ?_, ?_, rfl, rfl, fun fact member => (mem_filter.mp (waiting fact member)).1⟩
  · have sorted := (pairwise_indexRange compareEavt (inEntityAttribute entity attr) log.pending).sublist
      (filter_sublist (p := behind compareEavt position))
    rw [← pendingHistory, ← whole] at sorted
    exact (pairwise_append.mp sorted).1
  · intro taken isLast fact member
    cases isLast
    rw [behind_some.mp (mem_filter.mp (waiting fact member)).2]
    rfl
  · cases more : (rangeEavtPage (pendingHistory log entity attr) position).2 with
    | false => exact .inl (uncut more)
    | true => exact .inr more
  · intro more
    have := long more
    simp only [entityAttributeHistoryCursor]
    omega
  · rw [nil_append, ← merged_history distinct, ← whole]
    rfl

end Scan

end ViciaDb
