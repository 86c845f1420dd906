import ViciaDb.Lib.ByteReader

namespace ByteReader

open List

def fieldBytes : List Nat → List Nat → Bytes
  | width :: widths, value :: values => leBytes width value ++ fieldBytes widths values
  | _, _ => []

def readFields : List Nat → Bytes → List Nat
  | [], _ => []
  | width :: widths, bytes => ofLeBytes (bytes.take width) :: readFields widths (bytes.drop width)

abbrev FieldsFit (widths values : List Nat) : Prop := List.Forall₂ (fun width value => value < 256 ^ width) widths values

theorem ofLeBytes_lt (bytes : Bytes) : ofLeBytes bytes < 256 ^ bytes.length := by
  induction bytes with
  | nil => exact Nat.one_pos
  | cons byte bytes ih =>
    have := byte.toNat_lt
    rw [ofLeBytes, length_cons, Nat.pow_succ]
    omega

theorem leBytes_ofLeBytes (bytes : Bytes) : leBytes bytes.length (ofLeBytes bytes) = bytes := by
  induction bytes with
  | nil => rfl
  | cons byte bytes ih =>
    have small := byte.toNat_lt
    have low : UInt8.ofNat (byte.toNat + 256 * ofLeBytes bytes) = byte := by
      apply UInt8.toNat_inj.mp
      rw [UInt8.toNat_ofNat']
      omega
    have high : (byte.toNat + 256 * ofLeBytes bytes) / 256 = ofLeBytes bytes := by omega
    rw [ofLeBytes, length_cons, leBytes, low, high, ih]

variable {widths values : List Nat}

theorem length_fieldBytes (same : widths.length = values.length) :
    (fieldBytes widths values).length = widths.sum := by
  induction widths generalizing values with
  | nil => cases values <;> rfl
  | cons width widths ih =>
    cases values with
    | nil => cases same
    | cons value values =>
      rw [fieldBytes, length_append, length_leBytes, ih (Nat.succ.inj same), sum_cons]

theorem readFields_fieldBytes (fit : FieldsFit widths values) (more : Bytes) :
    readFields widths (fieldBytes widths values ++ more) = values := by
  induction fit generalizing more with
  | nil => rfl
  | cons small _ ih =>
    rw [fieldBytes, readFields, append_assoc, take_left' (length_leBytes _ _),
      drop_left' (length_leBytes _ _), ofLeBytes_leBytes _ _ small, ih]

variable {bytes : Bytes}

theorem fieldsFit_readFields {widths : List Nat} (long : widths.sum ≤ bytes.length) :
    FieldsFit widths (readFields widths bytes) := by
  induction widths generalizing bytes with
  | nil => exact .nil
  | cons width widths ih =>
    rw [sum_cons] at long
    have small := ofLeBytes_lt (bytes.take width)
    rw [length_take_of_le (by omega)] at small
    exact .cons small (ih (by rw [length_drop]; omega))

theorem fieldBytes_readFields {widths : List Nat} (long : widths.sum ≤ bytes.length) :
    fieldBytes widths (readFields widths bytes) = bytes.take widths.sum := by
  induction widths generalizing bytes with
  | nil => rfl
  | cons width widths ih =>
    rw [sum_cons] at long
    have front := leBytes_ofLeBytes (bytes.take width)
    rw [length_take_of_le (by omega)] at front
    rw [readFields, fieldBytes, front, ih (by rw [length_drop]; omega), sum_cons, take_add]

structure FieldRecord (α : Type) where
  widths : List Nat
  fields : α → List Nat
  build : List Nat → Option α
  length_fields : ∀ record, (fields record).length = widths.length
  build_fields : ∀ record, build (fields record) = some record
  fields_build : ∀ values record, FieldsFit widths values → build values = some record → fields record = values

namespace FieldRecord

variable {α : Type} (layout : FieldRecord α)

def toBytes (record : α) : Bytes := fieldBytes layout.widths (layout.fields record)

def read (bytes : Bytes) : Option α := layout.build (readFields layout.widths bytes)

def fromBytes (bytes : Bytes) : Option α :=
  if bytes.length = layout.widths.sum then layout.read bytes else none

abbrev Fits (record : α) : Prop := FieldsFit layout.widths (layout.fields record)

variable {layout} {record : α}

theorem length_toBytes (record : α) : (layout.toBytes record).length = layout.widths.sum :=
  length_fieldBytes (layout.length_fields record).symm

theorem read_toBytes (fits : layout.Fits record) (more : Bytes) :
    layout.read (layout.toBytes record ++ more) = some record := by
  rw [read, toBytes, readFields_fieldBytes fits, layout.build_fields]

theorem fromBytes_toBytes (fits : layout.Fits record) : layout.fromBytes (layout.toBytes record) = some record := by
  have front := read_toBytes fits []
  rw [append_nil] at front
  rw [fromBytes, if_pos (length_toBytes record), front]

theorem of_read (long : layout.widths.sum ≤ bytes.length) (isRead : layout.read bytes = some record) :
    layout.toBytes record = bytes.take layout.widths.sum ∧ layout.Fits record := by
  have fit := fieldsFit_readFields long
  have values := layout.fields_build _ _ fit isRead
  refine ⟨?_, ?_⟩
  · rw [toBytes, values, fieldBytes_readFields long]
  · rw [Fits, values]
    exact fit

theorem of_fromBytes (isRead : layout.fromBytes bytes = some record) :
    layout.toBytes record = bytes ∧ layout.Fits record := by
  rw [fromBytes] at isRead
  split at isRead
  · rename_i exact
    obtain ⟨same, fits⟩ := of_read exact.ge isRead
    exact ⟨by rw [same, ← exact, take_length], fits⟩
  · cases isRead

end FieldRecord

def slice (bytes : Bytes) (start count : Nat) : Bytes := (bytes.drop start).take count

theorem length_slice {start count : Nat} (inside : start + count ≤ bytes.length) :
    (slice bytes start count).length = count := by
  rw [slice, length_take, length_drop]
  omega

theorem slice_append_drop (bytes : Bytes) {start count after : Nat} (next : start + count = after) :
    slice bytes start count ++ bytes.drop after = bytes.drop start := by
  rw [slice, ← next, ← drop_drop, take_append_drop]

end ByteReader
