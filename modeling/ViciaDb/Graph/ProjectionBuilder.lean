import ViciaDb.Graph.IntervalCursor
import ViciaDb.Wal.Postcard

namespace ViciaDb

open ByteReader Wal.Postcard

structure ProjectedInterval where
  value : Bytes
  validFrom : Int64
  validTo : Int64
  deriving DecidableEq

def ProjectedInterval.compare : ProjectedInterval → ProjectedInterval → Ordering :=
  compareLex (compareOn ProjectedInterval.value) <| compareLex (compareOn ProjectedInterval.validFrom)
    (compareOn ProjectedInterval.validTo)

def varintLen : Nat → Nat → Nat
  | 0, _ => 1
  | fuel + 1, n => if n < 128 then 1 else varintLen fuel (n / 128) + 1

structure TemporalColumnBuilder where
  bytes : Bytes := []
  predictors : Vector UInt64 8 := Vector.replicate 8 0
  nextPredictor : Fin 8 := 0

def TemporalColumnBuilder.nearest (column : TemporalColumnBuilder) (bits : UInt64) : Nat × UInt64 :=
  let deltas := column.predictors.toList.zipIdx.map fun (previous, index) => (index, bits ^^^ previous)
  -- of several with one length the first is taken
  (deltas.minOn? fun delta => varintLen 9 delta.2.toNat).getD (0, bits)

def TemporalColumnBuilder.push (column : TemporalColumnBuilder) (value : Int64) : TemporalColumnBuilder :=
  let bits := value.toUInt64
  let (predictor, delta) := column.nearest bits
  { bytes := column.bytes ++ UInt8.ofNat predictor :: varint 9 delta.toNat
    predictors := column.predictors.set column.nextPredictor bits
    nextPredictor := column.nextPredictor + 1 }

structure ProjectionColumns where
  entities : List EntityId := []
  valueOffsets : List UInt32 := []
  valueBytes : Bytes := []
  validFrom : TemporalColumnBuilder := {}
  validTo : TemporalColumnBuilder := {}

structure CurrentProjectionBuilder extends ProjectionColumns where
  validTimeFloor : Int64
  currentEntity : Option EntityId := none
  currentIntervals : List ProjectedInterval := []

structure CurrentProjectionCandidate where
  attr : String
  validTimeFloor : Int64
  publicationGeneration : UInt64
  txCount : UInt64
  entities : List EntityId
  valueOffsets : List UInt32
  valueBytes : Bytes
  validFromBytes : Bytes
  validToBytes : Bytes
  deriving DecidableEq

def candidateExceeded : String := "current projection candidate exceeds the 4 GiB feasibility limit"

def ProjectionColumns.offset (columns : ProjectionColumns) : Except String UInt32 :=
  if columns.valueBytes.length < 2 ^ 32 then .ok (UInt32.ofNat columns.valueBytes.length)
  else .error candidateExceeded

def ProjectionColumns.pushRow (entity : EntityId) (columns : ProjectionColumns) (interval : ProjectedInterval) :
    Except String ProjectionColumns := do
  let offset ← columns.offset
  return { valueOffsets := columns.valueOffsets ++ [offset]
           entities := columns.entities ++ [entity]
           valueBytes := columns.valueBytes ++ interval.value
           validFrom := columns.validFrom.push interval.validFrom
           validTo := columns.validTo.push interval.validTo }

namespace CurrentProjectionBuilder

def flushEntity (builder : CurrentProjectionBuilder) : Except String CurrentProjectionBuilder :=
  match builder.currentEntity with
  | none => .ok builder
  | some entity => do
    let sorted := builder.currentIntervals.insertionSort fun a b => (a.compare b).isLE
    let columns ← sorted.foldlM (ProjectionColumns.pushRow entity) builder.toProjectionColumns
    return { builder with toProjectionColumns := columns, currentEntity := none, currentIntervals := [] }

def push (builder : CurrentProjectionBuilder) (interval : Interval) : Except String CurrentProjectionBuilder :=
  let (entity, value, window) := interval
  if window.2 ≤ builder.validTimeFloor then .ok builder
  else do
    let builder ← if builder.currentEntity.any fun current => current ≠ entity then builder.flushEntity
      else .ok builder
    return { builder with
      currentEntity := some entity
      currentIntervals := builder.currentIntervals ++ [⟨encodeValue value, window.1, window.2⟩] }

def finish (builder : CurrentProjectionBuilder) (attr : String) (publicationGeneration txCount : UInt64) :
    Except String CurrentProjectionCandidate := do
  let builder ← builder.flushEntity
  let offset ← builder.offset
  return { attr, validTimeFloor := builder.validTimeFloor, publicationGeneration, txCount
           entities := builder.entities
           valueOffsets := builder.valueOffsets ++ [offset]
           valueBytes := builder.valueBytes
           validFromBytes := builder.validFrom.bytes
           validToBytes := builder.validTo.bytes }

end CurrentProjectionBuilder

def visitCurrentAttributeIntervals (log : FactLog) (attr : String) : Except String (List Interval) := do
  let steps := List.replicate (log.records.length + 1) usizeMax
  match ← stepAttributeCursor none .any log attr steps (currentAttributeCursor log attr) with
  | some visits => .ok visits
  | none => .error "the cursor did not end"

def buildCurrentProjectionCandidate (publicationGeneration txCount : UInt64) (log : FactLog) (attr : String)
    (validTimeFloor : Int64) : Except String CurrentProjectionCandidate := do
  let visits ← visitCurrentAttributeIntervals log attr
  let builder ← visits.foldlM CurrentProjectionBuilder.push { validTimeFloor }
  builder.finish attr publicationGeneration txCount

end ViciaDb
