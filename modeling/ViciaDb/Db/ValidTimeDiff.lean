import ViciaDb.Db.HistoryPages
import ViciaDb.Graph.IntervalCursor
import ViciaDb.Lib.Paging

namespace ViciaDb

open ByteReader
open Except (ensure)

def validTimeDiffMaxIds : Nat := 128

def validTimeDiffMaxSourceEntries : Nat := 65536

def validTimeDiffStepEntries : Nat := 4096

def validTimeDiffMaxResultBytes : Nat := 8 * 1024 * 1024

inductive ValidTimeDiffChange where
  | appeared
  | disappeared
  deriving DecidableEq, Repr

structure ValidTimeDiffRow where
  entity : EntityId
  attr : String
  value : Value
  change : ValidTimeDiffChange
  validFrom : Int64
  validTo : Int64
  deriving DecidableEq, Repr

inductive ValidTimeDiffCursorScope where
  | entitySet (entities : List EntityId) (nextIndex : Nat)
  | attribute (lastEntity : EntityId)
  deriving DecidableEq, Repr

structure ValidTimeDiffCursor where
  attr : String
  txCount : UInt64
  validAtBefore : Int64
  validAtAfter : Int64
  scope : ValidTimeDiffCursorScope
  deriving DecidableEq, Repr

structure ValidTimeDiffRequest where
  attr : String
  entities : Option (List EntityId)
  validAtBefore : Int64
  validAtAfter : Int64
  after : Option ValidTimeDiffCursor
  limit : Nat

structure ValidTimeDiffPage where
  rows : List ValidTimeDiffRow
  next : Option ValidTimeDiffCursor
  deriving DecidableEq, Repr

def uniqueIds (ids : List EntityId) : List EntityId :=
  ids.foldl (fun unique id => if unique.contains id then unique else unique ++ [id]) []

def validateDiffIds : Option (List EntityId) → Except String Unit
  | none => .ok ()
  | some ids => ensure (ids ≠ [] ∧ ids.length ≤ validTimeDiffMaxIds)
      s!"valid_time_diff entities must be in 1..={validTimeDiffMaxIds}; got {ids.length}"

def validateDiffScope : ValidTimeDiffCursorScope → Option (List EntityId) → Except String Unit
  | .entitySet entities nextIndex, some unique =>
    ensure (entities = unique ∧ nextIndex ≤ unique.length)
      "valid_time_diff cursor does not belong to this entity scope"
  | .attribute _, none => .ok ()
  | _, _ => .error "valid_time_diff cursor scope does not match the request scope"

def validateDiffCursor (txCount : UInt64) (request : ValidTimeDiffRequest) (scope : Option (List EntityId)) :
    Option ValidTimeDiffCursor → Except String Unit
  | none => .ok ()
  | some cursor => do
    ensure (cursor.attr = request.attr ∧ cursor.txCount = txCount ∧
      cursor.validAtBefore = request.validAtBefore ∧ cursor.validAtAfter = request.validAtAfter)
      "valid_time_diff cursor does not belong to this read view and exact request"
    validateDiffScope cursor.scope scope

def validateValidTimeDiffRequest (validAt : ValidAt) (txCount : UInt64) (request : ValidTimeDiffRequest) :
    Except String (Option (List EntityId)) := do
  ensure (validAt = .anyValidTime) "valid_time_diff requires an AnyValidTime read view"
  ensure (isStoredKeyword request.attr = true)
    s!"valid_time_diff attribute must be a namespace-qualified stored keyword: {request.attr}"
  ensure (request.validAtBefore < request.validAtAfter)
    "valid_time_diff instants must satisfy valid_at_before < valid_at_after"
  ensure (0 < request.limit ∧ request.limit ≤ readViewMaxRows)
    s!"valid_time_diff limit must be in 1..={readViewMaxRows}; got {request.limit}"
  validateDiffIds request.entities
  let scope := request.entities.map uniqueIds
  validateDiffCursor txCount request scope request.after
  return scope

structure ValidTimeDiffValueState where
  value : Value
  before : Option Window := none
  after : Option Window := none

abbrev ValidTimeDiffGroup := AList fun _ : Bytes => ValidTimeDiffValueState

def Window.covers (window : Window) (at_ : Int64) : Bool := window.1 ≤ at_ && at_ < window.2

def ValidTimeDiffGroup.noteWindow (beforeAt afterAt : Int64) (group : ValidTimeDiffGroup)
    (item : Value × Window) : ValidTimeDiffGroup :=
  let visibleBefore := Window.covers item.2 beforeAt
  let visibleAfter := Window.covers item.2 afterAt
  if !visibleBefore && !visibleAfter then group
  else
    let state := (group.lookup (encodeValue item.1)).getD { value := item.1 }
    group.insert (encodeValue item.1)
      { state with
        before := if visibleBefore && state.before.isNone then some item.2 else state.before
        after := if visibleAfter && state.after.isNone then some item.2 else state.after }

def ValidTimeDiffValueState.row (entity : EntityId) (attr : String) (state : ValidTimeDiffValueState) :
    Option ValidTimeDiffRow :=
  match state.before, state.after with
  | some window, none =>
    some { entity, attr, value := state.value, change := .disappeared, validFrom := window.1, validTo := window.2 }
  | none, some window =>
    some { entity, attr, value := state.value, change := .appeared, validFrom := window.1, validTo := window.2 }
  | _, _ => none

def ValidTimeDiffGroup.intoRows (entity : EntityId) (attr : String) (group : ValidTimeDiffGroup) :
    List ValidTimeDiffRow :=
  (group.entries.insertionSort fun a b => (compare a.1 b.1).isLE).filterMap fun entry => entry.2.row entity attr

structure EntityAttributeScan where
  cursor : MergeCursor.Cursor Fact
  values : CurrentAttributeValues

inductive ValidTimeDiffScanState where
  | entitySet (entities : List EntityId) (startIndex index : Nat) (cursor : Option EntityAttributeScan)
      (group : ValidTimeDiffGroup)
  | attribute (cursor : Option AttributeScan) (resumeAfter : Option EntityId)
      (current : Option (EntityId × ValidTimeDiffGroup)) (completed : List (EntityId × ValidTimeDiffGroup))
      (emittedLast : Option EntityId)
  | finished

structure ValidTimeDiffScan where
  attr : String
  txCount : UInt64
  beforeAt : Int64
  afterAt : Int64
  limit : Nat
  rows : List ValidTimeDiffRow
  sourceEntries : Nat
  next : Option ValidTimeDiffCursor
  state : ValidTimeDiffScanState

namespace ValidTimeDiffScan

def begin_ (validAt : ValidAt) (txCount : UInt64) (request : ValidTimeDiffRequest) :
    Except String ValidTimeDiffScan := do
  let scope ← validateValidTimeDiffRequest validAt txCount request
  let state : ValidTimeDiffScanState := match scope with
    | some entities =>
      let startIndex := match request.after.map ValidTimeDiffCursor.scope with
        | some (.entitySet _ nextIndex) => nextIndex
        | _ => 0
      .entitySet entities startIndex startIndex none ∅
    | none =>
      let resumeAfter := match request.after.map ValidTimeDiffCursor.scope with
        | some (.attribute lastEntity) => some lastEntity
        | _ => none
      .attribute none resumeAfter none [] none
  return { attr := request.attr, txCount, beforeAt := request.validAtBefore, afterAt := request.validAtAfter
           limit := request.limit, rows := [], sourceEntries := 0, next := none, state }

def cursorAt (scan : ValidTimeDiffScan) (scope : ValidTimeDiffCursorScope) : ValidTimeDiffCursor where
  attr := scan.attr
  txCount := scan.txCount
  validAtBefore := scan.beforeAt
  validAtAfter := scan.afterAt
  scope := scope

def close (scan : ValidTimeDiffScan) (next : Option ValidTimeDiffCursorScope) : ValidTimeDiffScan :=
  { scan with next := next.map scan.cursorAt, state := .finished }

def asOf (scan : ValidTimeDiffScan) : Option AsOf := some (.counter scan.txCount)

def sourceWorkExceeded : String :=
  s!"valid_time_diff source work exceeds {validTimeDiffMaxSourceEntries} entries; result was rejected without truncation"

def groupExceeded (limit : Nat) : String :=
  s!"valid_time_diff entity group exceeds limit {limit}; result was rejected without truncation"

variable (log : FactLog)

def stepEntityCursor (scan : ValidTimeDiffScan) (entity : EntityId) (maxEntries : Nat)
    (active : EntityAttributeScan) :
    Except String (EntityAttributeScan × List (Value × Window) × Nat × Bool) := do
  let (taken, cursor, complete) := MergeCursor.step (MergeCursor.budgetRules compareEavt maxEntries)
    (indexRange compareEavt (inEntityAttribute entity scan.attr) log.committed) active.cursor
  let values := taken.foldl (fun values fact =>
    if entryVisibleAsOf scan.asOf fact then values.reduce fact else values) active.values
  if complete then do
    let items ← finishEntityAttribute .any true values
    return (⟨cursor, ∅⟩, items, taken.length, true)
  else return (⟨cursor, values⟩, [], taken.length, false)

def stepActiveEntity (scan : ValidTimeDiffScan) (entities : List EntityId) (startIndex index : Nat)
    (entity : EntityId) (active : EntityAttributeScan) (group : ValidTimeDiffGroup) :
    Except String (ValidTimeDiffScan × Bool) :=
  let firstGroup := decide (index = startIndex)
  let remaining := validTimeDiffMaxSourceEntries - scan.sourceEntries
  if remaining = 0 then
    if firstGroup then .error sourceWorkExceeded
    else .ok (scan.close (some (.entitySet entities index)), true)
  else do
    let (active, items, entries, complete) ←
      stepEntityCursor log scan entity (min validTimeDiffStepEntries remaining) active
    let group := items.foldl (ValidTimeDiffGroup.noteWindow scan.beforeAt scan.afterAt) group
    let scan := { scan with sourceEntries := scan.sourceEntries + entries }
    if complete then
      let groupRows := group.intoRows entity scan.attr
      if scan.limit < scan.rows.length + groupRows.length then
        if firstGroup then .error (groupExceeded scan.limit)
        else .ok (scan.close (some (.entitySet entities index)), true)
      else
        let scan := { scan with rows := scan.rows ++ groupRows }
        if entities.length ≤ index + 1 then return (scan.close none, true)
        else return ({ scan with state := .entitySet entities startIndex (index + 1) none ∅ }, false)
    else return ({ scan with state := .entitySet entities startIndex index (some active) group }, false)

def stepEntitySet (scan : ValidTimeDiffScan) (entities : List EntityId) (startIndex index : Nat)
    (cursor : Option EntityAttributeScan) (group : ValidTimeDiffGroup) :
    Except String (ValidTimeDiffScan × Bool) :=
  match entities[index]? with
  | none => .ok (scan.close none, true)
  | some entity =>
    match cursor with
    | some active => stepActiveEntity log scan entities startIndex index entity active group
    | none => do
      let fresh ← (entityAttributeRange entity scan.attr).cursor log
      stepActiveEntity log scan entities startIndex index entity ⟨fresh, ∅⟩ ∅

def noteInterval (beforeAt afterAt : Int64)
    (groups : Option (EntityId × ValidTimeDiffGroup) × List (EntityId × ValidTimeDiffGroup))
    (interval : Interval) : Option (EntityId × ValidTimeDiffGroup) × List (EntityId × ValidTimeDiffGroup) :=
  let (current, completed) := groups
  let (entity, item) := interval
  match current with
  | some (openEntity, group) =>
    if openEntity = entity then (some (openEntity, group.noteWindow beforeAt afterAt item), completed)
    else (some (entity, ValidTimeDiffGroup.noteWindow beforeAt afterAt ∅ item), completed ++ [(openEntity, group)])
  | none => (some (entity, ValidTimeDiffGroup.noteWindow beforeAt afterAt ∅ item), completed)

def drainGroups (limit : Nat) (attr : String) :
    List (EntityId × ValidTimeDiffGroup) → List ValidTimeDiffRow → Option EntityId →
      Except String (List ValidTimeDiffRow × Option EntityId × Bool)
  | [], rows, last => .ok (rows, last, false)
  | (entity, group) :: groups, rows, last =>
    let groupRows := group.intoRows entity attr
    if limit < rows.length + groupRows.length then
      match last with
      | none => .error (groupExceeded limit)
      | some _ => .ok (rows, last, true)
    else drainGroups limit attr groups (rows ++ groupRows) (some entity)

def stepActiveAttribute (scan : ValidTimeDiffScan) (active : AttributeScan)
    (current : Option (EntityId × ValidTimeDiffGroup)) (completed : List (EntityId × ValidTimeDiffGroup))
    (emittedLast : Option EntityId) : Except String (ValidTimeDiffScan × Bool) :=
  let remaining := validTimeDiffMaxSourceEntries - scan.sourceEntries
  if remaining = 0 then
    match emittedLast with
    | none => .error sourceWorkExceeded
    | some last => .ok (scan.close (some (.attribute last)), true)
  else do
    let (active, visits, entries, complete) ← stepCurrentAttributeIntervalCursor scan.asOf .any log scan.attr
      (min validTimeDiffStepEntries remaining) active
    let (current, completed) := visits.foldl (noteInterval scan.beforeAt scan.afterAt) (current, completed)
    let (current, completed) := if complete then (none, completed ++ current.toList) else (current, completed)
    let scan := { scan with sourceEntries := scan.sourceEntries + entries }
    let (rows, last, full) ← drainGroups scan.limit scan.attr completed scan.rows emittedLast
    let scan := { scan with rows }
    if full then return (scan.close (last.map .attribute), true)
    else if complete then return (scan.close none, true)
    else return ({ scan with state := .attribute (some active) none current [] last }, false)

def resumedCursor (attr : String) : Option EntityId → Option AttributeScan
  | some lastEntity => currentAttributeCursorAfter log attr lastEntity
  | none => some (currentAttributeCursor log attr)

def stepAttribute (scan : ValidTimeDiffScan) (cursor : Option AttributeScan) (resumeAfter : Option EntityId)
    (current : Option (EntityId × ValidTimeDiffGroup)) (completed : List (EntityId × ValidTimeDiffGroup))
    (emittedLast : Option EntityId) : Except String (ValidTimeDiffScan × Bool) :=
  match cursor.or (resumedCursor log scan.attr resumeAfter) with
  | none => .ok (scan.close none, true)
  | some active => stepActiveAttribute log scan active current completed emittedLast

def step (scan : ValidTimeDiffScan) : Except String (ValidTimeDiffScan × Bool) :=
  match scan.state with
  | .finished => .ok (scan, true)
  | .entitySet entities startIndex index cursor group =>
    stepEntitySet log scan entities startIndex index cursor group
  | .attribute cursor resumeAfter current completed emittedLast =>
    stepAttribute log scan cursor resumeAfter current completed emittedLast

def run : Nat → ValidTimeDiffScan → Except String ValidTimeDiffScan
  | 0, _ => .error "valid_time_diff did not end"
  | fuel + 1, scan => do
    let (scan, complete) ← step log scan
    if complete then return scan else run fuel scan

def enoughFuel (request : ValidTimeDiffRequest) : Nat :=
  validTimeDiffMaxSourceEntries + (request.entities.getD []).length + 2

end ValidTimeDiffScan

section Page

-- the bytes of the encoded rows
variable (encodedBytes : List ValidTimeDiffRow → Nat)

def diffResultExceeded : String :=
  s!"valid_time_diff result exceeds {validTimeDiffMaxResultBytes} bytes; result was rejected without truncation"

def finishValidTimeDiffPage (rows : List ValidTimeDiffRow) (next : Option ValidTimeDiffCursor) :
    Except String ValidTimeDiffPage :=
  if validTimeDiffMaxResultBytes < encodedBytes rows then
    .error diffResultExceeded
  else .ok { rows, next }

def validTimeDiff (validAt : ValidAt) (txCount : UInt64) (log : FactLog) (request : ValidTimeDiffRequest) :
    Except String ValidTimeDiffPage := do
  let scan ← ValidTimeDiffScan.begin_ validAt txCount request
  let scan ← scan.run log (ValidTimeDiffScan.enoughFuel request)
  finishValidTimeDiffPage encodedBytes scan.rows scan.next

def diffPage (validAt : ValidAt) (txCount : UInt64) (request : ValidTimeDiffRequest) (log : FactLog) (limit : Nat)
    (after : Option ValidTimeDiffCursor) : Except String (List ValidTimeDiffRow × Option ValidTimeDiffCursor) := do
  let page ← validTimeDiff encodedBytes validAt txCount log { request with after, limit }
  return (page.rows, page.next)

def followDiffPages (validAt : ValidAt) (txCount : UInt64) (request : ValidTimeDiffRequest) :
    List (FactLog × Nat) → Option ValidTimeDiffCursor →
      Except String (List ValidTimeDiffRow × Option ValidTimeDiffCursor) :=
  Paging.follow fun (log, limit) => diffPage encodedBytes validAt txCount request log limit

end Page

end ViciaDb
