import ViciaDb.Wal.RoundTrip

namespace ViciaDb.Wal.Postcard

open ByteReader List

def Codes {α : Type} (r : Reader α) (enc : α → Bytes) : Prop :=
  ∀ a more, r (enc a ++ more) = some (a, more)

theorem Codes.bind {α β : Type} {r : Reader α} {enc : α → Bytes} (codes : Codes r enc) {a : α} {more : Bytes}
    {f : α → Reader β} : (r >>= f) (enc a ++ more) = f a more :=
  bind_of_some (codes a more)

section Varint

def varint : Nat → Nat → Bytes
  | 0, n => [UInt8.ofNat n]
  | fuel + 1, n =>
    if n < 128 then [UInt8.ofNat n] else UInt8.ofNat (n % 128 + 128) :: varint fuel (n / 128)

def readByte : Reader UInt8
  | [] => none
  | b :: bs => some (b, bs)

def readVarint : Nat → Reader Nat
  | 0 => do return (← readByte).toNat
  | fuel + 1 => do
    let b ← readByte
    if b.toNat < 128 then return b.toNat
    else return b.toNat - 128 + 128 * (← readVarint fuel)

theorem readByte_cons (b : UInt8) (bs : Bytes) : readByte (b :: bs) = some (b, bs) := rfl

theorem toNat_last {n : Nat} (small : n < 128) : (UInt8.ofNat n).toNat = n := by
  rw [UInt8.toNat_ofNat']
  omega

theorem toNat_continued (n : Nat) : (UInt8.ofNat (n % 128 + 128)).toNat = n % 128 + 128 := by
  rw [UInt8.toNat_ofNat']
  omega

theorem readVarint_small (fuel n : Nat) (small : n < 128) (more : Bytes) :
    readVarint fuel (UInt8.ofNat n :: more) = some (n, more) := by
  have byte := toNat_last small
  cases fuel with
  | zero => rw [readVarint, bind_of_some (readByte_cons _ _), byte]; rfl
  | succ fuel => rw [readVarint, bind_of_some (readByte_cons _ _), byte, if_pos small]; rfl

theorem readVarint_append (fuel fuel' n : Nat) (bound : n < 128 ^ (fuel + 1)) (enough : fuel ≤ fuel')
    (more : Bytes) : readVarint fuel' (varint fuel n ++ more) = some (n, more) := by
  induction fuel generalizing n fuel' with
  | zero => exact readVarint_small fuel' n bound more
  | succ fuel ih =>
    by_cases small : n < 128
    · rw [varint, if_pos small]
      exact readVarint_small fuel' n small more
    obtain ⟨fuel', rfl⟩ : ∃ k, fuel' = k + 1 := ⟨fuel' - 1, by omega⟩
    have rest : n / 128 < 128 ^ (fuel + 1) := Nat.div_lt_of_lt_mul (Nat.pow_succ' ▸ bound)
    have value : n % 128 + 128 - 128 + 128 * (n / 128) = n := by omega
    rw [varint, if_neg small, cons_append, readVarint, bind_of_some (readByte_cons _ _),
      toNat_continued, if_neg (by omega), bind_of_some (ih fuel' _ rest (by omega)), value]
    rfl

end Varint

section Fields

def encU64 (n : UInt64) : Bytes := varint 9 n.toNat

def readU64 : Reader UInt64 := do return UInt64.ofNat (← readVarint 9)

theorem codes_u64 : Codes readU64 encU64 := by
  intro n more
  have bound : n.toNat < 128 ^ 10 := Nat.lt_trans n.toNat_lt (by decide)
  rw [readU64, encU64, bind_of_some (readVarint_append 9 9 _ bound (Nat.le_refl 9) more), UInt64.ofNat_toNat]
  rfl

def zigzag : Int → Nat
  | .ofNat n => 2 * n
  | .negSucc n => 2 * n + 1

def unzigzag (n : Nat) : Int := if n % 2 = 0 then (n / 2 : Nat) else Int.negSucc (n / 2)

theorem unzigzag_zigzag (i : Int) : unzigzag (zigzag i) = i := by
  cases i with
  | ofNat n =>
    have even : 2 * n % 2 = 0 := by omega
    have half : 2 * n / 2 = n := by omega
    simp only [zigzag, unzigzag, even, ↓reduceIte, half, Int.ofNat_eq_natCast]
  | negSucc n =>
    have odd : ¬ (2 * n + 1) % 2 = 0 := by omega
    have half : (2 * n + 1) / 2 = n := by omega
    simp only [zigzag, unzigzag, odd, ↓reduceIte, half]

def encI64 (i : Int64) : Bytes := varint 9 (zigzag i.toInt)

def readI64 : Reader Int64 := do return Int64.ofInt (unzigzag (← readVarint 9))

theorem codes_i64 : Codes readI64 encI64 := by
  intro i more
  have low := i.le_toInt
  have high := i.toInt_lt
  have bound : zigzag i.toInt < 128 ^ 10 := by
    cases value : i.toInt with
    | ofNat n => simp only [zigzag]; rw [value] at high; simp only [Int.ofNat_eq_natCast] at high; omega
    | negSucc n => simp only [zigzag]; rw [value] at low; omega
  rw [readI64, encI64, bind_of_some (readVarint_append 9 9 _ bound (Nat.le_refl 9) more), unzigzag_zigzag,
    Int64.ofInt_toInt]
  rfl

def encBytes (bytes : Bytes) : Bytes := varint bytes.length bytes.length ++ bytes

def readBytes : Reader Bytes := fun bs => (readVarint bs.length >>= readExact) bs

theorem codes_bytes : Codes readBytes encBytes := by
  intro bytes more
  have bound : bytes.length < 128 ^ (bytes.length + 1) :=
    Nat.lt_trans (Nat.lt_succ_self _) (Nat.lt_pow_self (by decide))
  have enough : bytes.length ≤ (encBytes bytes ++ more).length := by
    simp only [encBytes, length_append]; omega
  have length := readVarint_append bytes.length _ bytes.length bound enough (bytes ++ more)
  rw [readBytes, encBytes, append_assoc]
  rw [encBytes, append_assoc] at length
  rw [bind_of_some length]
  exact readExact_append bytes more

def readString : Reader String := do
  match String.fromUTF8? ⟨(← readBytes).toArray⟩ with
  | some s => return s
  | none => failure

def encString (s : String) : Bytes := encBytes (utf8Bytes s)

theorem codes_string : Codes readString encString := by
  intro s more
  have bytes : (⟨(utf8Bytes s).toArray⟩ : ByteArray) = s.toByteArray := rfl
  have valid : String.fromUTF8? s.toByteArray = some s := by
    simp [String.fromUTF8?, String.fromUTF8, s.isValidUTF8]
  rw [readString, encString, codes_bytes.bind, bytes, valid]
  rfl

def encUuid (id : EntityId) : Bytes := encBytes (beBytes 16 id.toNat)

def readUuid : Reader EntityId := do return BitVec.ofNat 128 (ofLeBytes (← readBytes).reverse)

theorem codes_uuid : Codes readUuid encUuid := by
  intro id more
  have value : ofLeBytes (beBytes 16 id.toNat).reverse = id.toNat := by
    rw [beBytes, reverse_reverse]
    exact ofLeBytes_leBytes 16 _ id.isLt
  rw [readUuid, encUuid, codes_bytes.bind, value, BitVec.ofNat_toNat, BitVec.setWidth_eq]
  rfl

def encBool (b : Bool) : Bytes := [if b then 1 else 0]

def readBool : Reader Bool := do return decide ((← readByte) = 1)

theorem codes_bool : Codes readBool encBool := by
  intro b more
  cases b <;> rfl

def encF64 (f : F64) : Bytes := leBytes 8 f.bits.toNat

def readF64 : Reader F64 := do return ⟨UInt64.ofNat (ofLeBytes (← readExact 8))⟩

theorem codes_f64 : Codes readF64 encF64 := by
  intro f more
  rw [readF64, encF64, bind_of_some (readExact_leBytes 8 _ more),
    ofLeBytes_leBytes 8 _ f.bits.toNat_lt, UInt64.ofNat_toNat]
  rfl

def encValue : Value → Bytes
  | .string s => 0 :: encString s
  | .integer i => 1 :: encI64 i
  | .float f => 2 :: encF64 f
  | .boolean b => 3 :: encBool b
  | .ref id => 4 :: encUuid id
  | .keyword k => 5 :: encString k
  | .null => [6]

def readValue : Reader Value := do
  match (← readByte).toNat with
  | 0 => return .string (← readString)
  | 1 => return .integer (← readI64)
  | 2 => return .float (← readF64)
  | 3 => return .boolean (← readBool)
  | 4 => return .ref (← readUuid)
  | 5 => return .keyword (← readString)
  | 6 => return .null
  | _ => failure

theorem codes_value : Codes readValue encValue := by
  intro v more
  rw [readValue]
  cases v <;> rw [encValue, cons_append, bind_of_some (readByte_cons _ _)]
  case string | keyword => exact codes_string.bind
  case integer => exact codes_i64.bind
  case float => exact codes_f64.bind
  case boolean => exact codes_bool.bind
  case ref => exact codes_uuid.bind
  case null => rfl

end Fields

section Facts

def encFact (f : Fact) : Bytes :=
  encUuid f.entity ++ (encString f.attr ++ (encValue f.value ++ (encU64 f.txId ++
    (encU64 f.txCount ++ (encI64 f.validFrom ++ (encI64 f.validTo ++ encBool f.asserted))))))

def readFact : Reader Fact := do
  let entity ← readUuid
  let attr ← readString
  let value ← readValue
  let txId ← readU64
  let txCount ← readU64
  let validFrom ← readI64
  let validTo ← readI64
  let asserted ← readBool
  return { entity, attr, value, txId, txCount, validFrom, validTo, asserted }

theorem codes_fact : Codes readFact encFact := by
  intro f more
  simp only [encFact, append_assoc]
  rw [readFact, codes_uuid.bind, codes_string.bind, codes_value.bind, codes_u64.bind, codes_u64.bind,
    codes_i64.bind, codes_i64.bind, codes_bool.bind]
  rfl

end Facts

def crcBit (crc : Nat) : Nat := if crc % 2 = 1 then (crc / 2) ^^^ 0xEDB88320 else crc / 2

def crcByte (crc : Nat) (b : UInt8) : Nat := Nat.repeat crcBit 8 (crc ^^^ b.toNat)

def crc32 (bytes : Bytes) : UInt32 := UInt32.ofNat (bytes.foldl crcByte 0xFFFFFFFF ^^^ 0xFFFFFFFF)

def postcard : Codec where
  toBytes := encFact
  ofBytes := fun bytes => (readFact bytes).map Prod.fst
  crc32 := crc32

theorem postcard_roundTrips : postcard.RoundTrips := by
  intro fact
  have read := codes_fact fact []
  rw [append_nil] at read
  simp [postcard, read]

/-- The check value of the checksum. -/
example : crc32 [0x31, 0x32, 0x33, 0x34, 0x35, 0x36, 0x37, 0x38, 0x39] = 0xCBF43926 := by
  decide +kernel

end ViciaDb.Wal.Postcard
