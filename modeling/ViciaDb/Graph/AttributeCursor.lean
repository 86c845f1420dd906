import Mathlib.Data.List.AList
import ViciaDb.Graph.FactLog

namespace ViciaDb

open ByteReader

abbrev Window := Int64 × Int64

def Fact.window (fact : Fact) : Window := (fact.validFrom, fact.validTo)

structure CurrentValueState where
  maxUnscopedRetractTx : Nat := 0
  maxScopedRetractTx : AList fun _ : Window => Nat := ∅
  assertions : AList fun _ : Window => Fact := ∅

def reduceCurrentState (state : CurrentValueState) (fact : Fact) : CurrentValueState :=
  if fact.asserted then
    match state.assertions.lookup fact.window with
    | some winner =>
      if winner.stamp < fact.stamp then
        { state with assertions := state.assertions.insert fact.window fact }
      else state
    | none => { state with assertions := state.assertions.insert fact.window fact }
  else if fact.isUnscoped then
    { state with maxUnscopedRetractTx := max state.maxUnscopedRetractTx fact.stamp }
  else
    { state with
      maxScopedRetractTx := state.maxScopedRetractTx.insert fact.window
        (max ((state.maxScopedRetractTx.lookup fact.window).getD 0) fact.stamp) }

abbrev CurrentAttributeValues := AList fun _ : Bytes => CurrentValueState

def CurrentAttributeValues.state (values : CurrentAttributeValues) (encoded : Bytes) :
    CurrentValueState :=
  (values.lookup encoded).getD {}

def CurrentAttributeValues.reduce (values : CurrentAttributeValues) (fact : Fact) :
    CurrentAttributeValues :=
  values.insert (encodeValue fact.value)
    (reduceCurrentState (values.state (encodeValue fact.value)) fact)

def decodeIndexValue : Bytes → Except String Value
  | [] => .error "empty encoded index value"
  | tag :: payload =>
    if tag = 0x00 ∧ payload = [] then .ok .null
    else if tag = 0x01 ∧ payload.length = 1 then .ok (.boolean (payload.head? == some 1))
    else if tag = 0x02 ∧ payload.length = 8 then
      .ok (.integer ((UInt64.ofNat (ofLeBytes payload.reverse)) ^^^ 0x8000000000000000).toInt64)
    else if tag = 0x04 then
      match String.fromUTF8? ⟨payload.toArray⟩ with
      | some s => .ok (.string s)
      | none => .error "invalid utf-8"
    else if tag = 0x05 then
      match String.fromUTF8? ⟨payload.toArray⟩ with
      | some s => .ok (.keyword s)
      | none => .error "invalid utf-8"
    else if tag = 0x06 ∧ payload.length = 16 then
      .ok (.ref (BitVec.ofNat 128 (ofLeBytes payload.reverse)))
    else if tag = 0x03 then .error "float index values require exact fact resolution"
    else .error ("malformed encoded index value tag 0x" ++ hexByte tag)

structure CurrentRow where
  encoded : Bytes
  window : Window
  fact : Fact

def CurrentRow.value (row : CurrentRow) : Except String Value :=
  if row.encoded.head? = some 0x03 then .ok row.fact.value else decodeIndexValue row.encoded

def CurrentValueState.stands (state : CurrentValueState) (window : Window) (fact : Fact) : Bool :=
  max state.maxUnscopedRetractTx ((state.maxScopedRetractTx.lookup window).getD 0) < fact.stamp

def CurrentAttributeValues.rows (validTime : CurrentValidTime) (values : CurrentAttributeValues) :
    List CurrentRow :=
  values.entries.flatMap fun ⟨encoded, state⟩ =>
    (state.assertions.entries.filter fun ⟨window, fact⟩ =>
      state.stands window fact && validTime.admits window.1 window.2).map fun ⟨window, fact⟩ =>
        ⟨encoded, window, fact⟩

def CurrentRow.compare : CurrentRow → CurrentRow → Ordering :=
  compareLex (compareOn CurrentRow.encoded) <| compareLex (compareOn fun row => row.window.1)
    (compareOn fun row => row.window.2)

def entryVisibleAsOf (asOf : Option AsOf) (fact : Fact) : Bool :=
  asOf.all fun asOf => asOf.admits fact

structure CurrentAttributeCursor where
  currentEntity : Option EntityId := none
  values : CurrentAttributeValues := ∅
  visited : List (EntityId × Value) := []

variable (asOf : Option AsOf) (validTime : CurrentValidTime)

def flushEntity (cursor : CurrentAttributeCursor) : Except String CurrentAttributeCursor :=
  match cursor.currentEntity with
  | none => .ok cursor
  | some entity => do
    let output := (cursor.values.rows validTime).insertionSort fun a b => (a.compare b).isLE
    let values ← output.mapM CurrentRow.value
    .ok { visited := cursor.visited ++ values.map fun value => (entity, value) }

def accept (cursor : CurrentAttributeCursor) (fact : Fact) :
    Except String CurrentAttributeCursor :=
  if entryVisibleAsOf asOf fact then do
    let cursor ←
      if cursor.currentEntity.any fun entity => entity ≠ fact.entity then
        flushEntity validTime cursor
      else .ok cursor
    .ok { cursor with
          currentEntity := some fact.entity
          values := cursor.values.reduce fact }
  else .ok cursor

def mergedEntries (log : FactLog) (attr : String) : List Fact :=
  (rangeAevt attr log.committed).mergeScan (fun a b => (compareAevtProjection a b).isLT)
    (rangeAevt attr log.pending)

def visitCurrentAttributeValues (log : FactLog) (attr : String) :
    Except String (List (EntityId × Value)) := do
  let cursor ← (mergedEntries log attr).foldlM (accept asOf validTime) {}
  let cursor ← flushEntity validTime cursor
  .ok cursor.visited

end ViciaDb
