import ViciaDb.Wal.Postcard

namespace ViciaDb

open ByteReader Wal.Postcard Std List

structure FactRef where
  pageId : UInt64
  slotIndex : UInt16
  deriving DecidableEq, Repr

structure EavtKey where
  entity : EntityId
  attr : String
  validFrom : Int64
  validTo : Int64
  txCount : UInt64
  valueBytes : Bytes
  txId : UInt64
  asserted : Bool
  deriving DecidableEq, Repr

structure AevtKey where
  attr : String
  entity : EntityId
  validFrom : Int64
  validTo : Int64
  txCount : UInt64
  valueBytes : Bytes
  txId : UInt64
  asserted : Bool
  deriving DecidableEq, Repr

structure AvetKey where
  attr : String
  valueBytes : Bytes
  validFrom : Int64
  validTo : Int64
  entity : EntityId
  txCount : UInt64
  txId : UInt64
  asserted : Bool
  deriving DecidableEq, Repr

structure VaetKey where
  refTarget : EntityId
  attr : String
  validFrom : Int64
  validTo : Int64
  sourceEntity : EntityId
  txCount : UInt64
  txId : UInt64
  asserted : Bool
  deriving DecidableEq, Repr

structure CurrentAevtEntryRef where
  entity : EntityId
  validFrom : Int64
  validTo : Int64
  txCount : UInt64
  valueBytes : Bytes
  txId : UInt64
  asserted : Bool
  deriving DecidableEq, Repr

structure IndexKind (κ : Type) where
  cmp : κ → κ → Ordering
  ordered : TransCmp cmp
  toBytes : κ → Bytes
  read : Reader κ
  reads : Codes read toBytes

instance {κ : Type} (kind : IndexKind κ) : TransCmp kind.cmp := kind.ordered

section Orders

def EavtKey.cmp : EavtKey → EavtKey → Ordering :=
  compareLex (compareOn entity) <| compareLex (compareOn fun key => utf8Bytes key.attr) <|
    compareLex (compareOn validFrom) <| compareLex (compareOn validTo) <|
      compareLex (compareOn txCount) <| compareLex (compareOn valueBytes) <|
        compareLex (compareOn txId) (compareOn asserted)

def AevtKey.project (key : AevtKey) : CurrentAevtEntryRef where
  entity := key.entity
  validFrom := key.validFrom
  validTo := key.validTo
  txCount := key.txCount
  valueBytes := key.valueBytes
  txId := key.txId
  asserted := key.asserted

def CurrentAevtEntryRef.cmp : CurrentAevtEntryRef → CurrentAevtEntryRef → Ordering :=
  compareLex (compareOn entity) <| compareLex (compareOn validFrom) <|
    compareLex (compareOn validTo) <| compareLex (compareOn txCount) <|
      compareLex (compareOn valueBytes) <| compareLex (compareOn txId) (compareOn asserted)

def CurrentAevtEntryRef.cmpOwnedSuffix (entry : CurrentAevtEntryRef) (key : AevtKey) : Ordering :=
  entry.cmp key.project

def AevtKey.cmp : AevtKey → AevtKey → Ordering :=
  compareLex (compareOn fun key => utf8Bytes key.attr)
    (fun a b => a.project.cmpOwnedSuffix b)

def AvetKey.cmp : AvetKey → AvetKey → Ordering :=
  compareLex (compareOn fun key => utf8Bytes key.attr) <| compareLex (compareOn valueBytes) <|
    compareLex (compareOn validFrom) <| compareLex (compareOn validTo) <|
      compareLex (compareOn entity) <| compareLex (compareOn txCount) <|
        compareLex (compareOn txId) (compareOn asserted)

def VaetKey.cmp : VaetKey → VaetKey → Ordering :=
  compareLex (compareOn refTarget) <| compareLex (compareOn fun key => utf8Bytes key.attr) <|
    compareLex (compareOn validFrom) <| compareLex (compareOn validTo) <|
      compareLex (compareOn sourceEntity) <| compareLex (compareOn txCount) <|
        compareLex (compareOn txId) (compareOn asserted)

instance : TransCmp EavtKey.cmp := by
  unfold EavtKey.cmp
  infer_instance

instance : TransCmp CurrentAevtEntryRef.cmp := by
  unfold CurrentAevtEntryRef.cmp
  infer_instance

instance : TransCmp fun a b : AevtKey => a.project.cmpOwnedSuffix b where
  eq_swap {a b} := @Std.OrientedCmp.eq_swap _ CurrentAevtEntryRef.cmp _ a.project b.project
  isLE_trans {a b c} :=
    @Std.TransCmp.isLE_trans _ CurrentAevtEntryRef.cmp _ a.project b.project c.project

instance : TransCmp AevtKey.cmp := by
  unfold AevtKey.cmp
  infer_instance

instance : TransCmp AvetKey.cmp := by
  unfold AvetKey.cmp
  infer_instance

instance : TransCmp VaetKey.cmp := by
  unfold VaetKey.cmp
  infer_instance

end Orders

section Wire

def encU16 (n : UInt16) : Bytes := varint 2 n.toNat

def readU16 : Reader UInt16 := do return UInt16.ofNat (← readVarint 2)

theorem codes_u16 : Codes readU16 encU16 := by
  intro n more
  have bound : n.toNat < 128 ^ 3 := Nat.lt_trans n.toNat_lt (by decide)
  rw [readU16, encU16, bind_of_some (readVarint_append 2 2 _ bound (Nat.le_refl 2) more), UInt16.ofNat_toNat]
  rfl

def FactRef.toBytes (ref : FactRef) : Bytes := encU64 ref.pageId ++ encU16 ref.slotIndex

def FactRef.read : Reader FactRef := do
  let pageId ← readU64
  let slotIndex ← readU16
  return { pageId, slotIndex }

theorem FactRef.codes : Codes FactRef.read FactRef.toBytes := by
  intro ref more
  rw [toBytes, append_assoc, read, codes_u64.bind, codes_u16.bind]
  rfl

def EavtKey.toBytes (key : EavtKey) : Bytes :=
  encUuid key.entity ++ (encString key.attr ++ (encI64 key.validFrom ++ (encI64 key.validTo ++
    (encU64 key.txCount ++ (encBytes key.valueBytes ++ (encU64 key.txId ++
      encBool key.asserted))))))

def EavtKey.read : Reader EavtKey := do
  let entity ← readUuid
  let attr ← readString
  let validFrom ← readI64
  let validTo ← readI64
  let txCount ← readU64
  let valueBytes ← readBytes
  let txId ← readU64
  let asserted ← readBool
  return { entity, attr, validFrom, validTo, txCount, valueBytes, txId, asserted }

theorem EavtKey.codes : Codes EavtKey.read EavtKey.toBytes := by
  intro key more
  simp only [toBytes, append_assoc]
  rw [read, codes_uuid.bind, codes_string.bind, codes_i64.bind, codes_i64.bind, codes_u64.bind,
    codes_bytes.bind, codes_u64.bind, codes_bool.bind]
  rfl

def AevtKey.toBytes (key : AevtKey) : Bytes :=
  encString key.attr ++ (encUuid key.entity ++ (encI64 key.validFrom ++ (encI64 key.validTo ++
    (encU64 key.txCount ++ (encBytes key.valueBytes ++ (encU64 key.txId ++
      encBool key.asserted))))))

def AevtKey.read : Reader AevtKey := do
  let attr ← readString
  let entity ← readUuid
  let validFrom ← readI64
  let validTo ← readI64
  let txCount ← readU64
  let valueBytes ← readBytes
  let txId ← readU64
  let asserted ← readBool
  return { attr, entity, validFrom, validTo, txCount, valueBytes, txId, asserted }

theorem AevtKey.codes : Codes AevtKey.read AevtKey.toBytes := by
  intro key more
  simp only [toBytes, append_assoc]
  rw [read, codes_string.bind, codes_uuid.bind, codes_i64.bind, codes_i64.bind, codes_u64.bind,
    codes_bytes.bind, codes_u64.bind, codes_bool.bind]
  rfl

def AvetKey.toBytes (key : AvetKey) : Bytes :=
  encString key.attr ++ (encBytes key.valueBytes ++ (encI64 key.validFrom ++
    (encI64 key.validTo ++ (encUuid key.entity ++ (encU64 key.txCount ++ (encU64 key.txId ++
      encBool key.asserted))))))

def AvetKey.read : Reader AvetKey := do
  let attr ← readString
  let valueBytes ← readBytes
  let validFrom ← readI64
  let validTo ← readI64
  let entity ← readUuid
  let txCount ← readU64
  let txId ← readU64
  let asserted ← readBool
  return { attr, valueBytes, validFrom, validTo, entity, txCount, txId, asserted }

theorem AvetKey.codes : Codes AvetKey.read AvetKey.toBytes := by
  intro key more
  simp only [toBytes, append_assoc]
  rw [read, codes_string.bind, codes_bytes.bind, codes_i64.bind, codes_i64.bind, codes_uuid.bind,
    codes_u64.bind, codes_u64.bind, codes_bool.bind]
  rfl

def VaetKey.toBytes (key : VaetKey) : Bytes :=
  encUuid key.refTarget ++ (encString key.attr ++ (encI64 key.validFrom ++
    (encI64 key.validTo ++ (encUuid key.sourceEntity ++ (encU64 key.txCount ++ (encU64 key.txId ++
      encBool key.asserted))))))

def VaetKey.read : Reader VaetKey := do
  let refTarget ← readUuid
  let attr ← readString
  let validFrom ← readI64
  let validTo ← readI64
  let sourceEntity ← readUuid
  let txCount ← readU64
  let txId ← readU64
  let asserted ← readBool
  return { refTarget, attr, validFrom, validTo, sourceEntity, txCount, txId, asserted }

theorem VaetKey.codes : Codes VaetKey.read VaetKey.toBytes := by
  intro key more
  simp only [toBytes, append_assoc]
  rw [read, codes_uuid.bind, codes_string.bind, codes_i64.bind, codes_i64.bind, codes_uuid.bind,
    codes_u64.bind, codes_u64.bind, codes_bool.bind]
  rfl

def eavt : IndexKind EavtKey :=
  ⟨EavtKey.cmp, inferInstance, EavtKey.toBytes, EavtKey.read, EavtKey.codes⟩

def aevt : IndexKind AevtKey :=
  ⟨AevtKey.cmp, inferInstance, AevtKey.toBytes, AevtKey.read, AevtKey.codes⟩

def avet : IndexKind AvetKey :=
  ⟨AvetKey.cmp, inferInstance, AvetKey.toBytes, AvetKey.read, AvetKey.codes⟩

def vaet : IndexKind VaetKey :=
  ⟨VaetKey.cmp, inferInstance, VaetKey.toBytes, VaetKey.read, VaetKey.codes⟩

end Wire

section Entries

variable {κ : Type} (kind : IndexKind κ)

def IndexKind.entryBytes (entry : κ × FactRef) : Bytes := kind.toBytes entry.1 ++ entry.2.toBytes

def IndexKind.readEntry : Reader (κ × FactRef) := do
  let key ← kind.read
  let ref ← FactRef.read
  return (key, ref)

def fromBytes {α : Type} (read : Reader α) (bytes : Bytes) : Except String α :=
  match read bytes with
  | some (a, _) => .ok a
  | none => .error "postcard: malformed input"

def decodeEntry {α : Type} (name : String) (read : Reader α) (bytes : Bytes) : Except String α :=
  match read bytes with
  | some (a, []) => .ok a
  | some (_, _ :: _) => .error ("trailing bytes after projected " ++ name ++ " entry")
  | none => .error "postcard: malformed input"

theorem IndexKind.codes_entry : Codes kind.readEntry kind.entryBytes := by
  rintro ⟨key, ref⟩ more
  rw [entryBytes, append_assoc, readEntry, kind.reads.bind, FactRef.codes.bind]
  rfl

theorem fromBytes_of_codes {α : Type} {read : Reader α} {enc : α → Bytes} (codes : Codes read enc) (a : α) :
    fromBytes read (enc a) = .ok a := by
  have whole := codes a []
  rw [append_nil] at whole
  rw [fromBytes, whole]

theorem decodeEntry_of_codes {α : Type} {read : Reader α} {enc : α → Bytes}
    (codes : Codes read enc) (name : String) (a : α) : decodeEntry name read (enc a) = .ok a := by
  have whole := codes a []
  rw [append_nil] at whole
  rw [decodeEntry, whole]

theorem length_varint_le (fuel n : Nat) : (varint fuel n).length ≤ fuel + 1 := by
  induction fuel generalizing n with
  | zero => simp [varint]
  | succ fuel ih =>
    rw [varint]
    split
    · simp
    · simpa using ih (n / 128)

theorem FactRef.length_toBytes_le (ref : FactRef) : ref.toBytes.length ≤ 13 := by
  have page := length_varint_le 9 ref.pageId.toNat
  have slot := length_varint_le 2 ref.slotIndex.toNat
  rw [toBytes, length_append, encU64, encU16]
  omega

end Entries

end ViciaDb
