import ViciaDb.Graph.CurrentReducer
import ViciaDb.Query.ValueOrder

namespace ViciaDb

open ByteReader

def decodeProjectedValue : Bytes → Except String Value
  | [] => .error "empty current projection value"
  | tag :: payload =>
    if tag = 0x00 ∧ payload = [] then .ok .null
    else if tag = 0x01 ∧ payload = [0] then .ok (.boolean false)
    else if tag = 0x01 ∧ payload = [1] then .ok (.boolean true)
    else if tag = 0x02 ∧ payload.length = 8 then
      .ok (.integer ((UInt64.ofNat (ofLeBytes payload.reverse)) ^^^ 0x8000000000000000).toInt64)
    else if tag = 0x03 ∧ payload.length = 8 then
      let ordered := UInt64.ofNat (ofLeBytes payload.reverse)
      .ok (.float ⟨if ordered >>> 63 = 0 then ~~~ordered else ordered ^^^ 0x8000000000000000⟩)
    else if tag = 0x04 then
      match String.fromUTF8? ⟨payload.toArray⟩ with
      | some s => .ok (.string s)
      | none => .error "invalid utf-8"
    else if tag = 0x05 then
      match String.fromUTF8? ⟨payload.toArray⟩ with
      | some s => .ok (.keyword s)
      | none => .error "invalid utf-8"
    else if tag = 0x06 ∧ payload.length = 16 then
      .ok (.ref (BitVec.ofNat 128 (ofLeBytes payload.reverse)))
    else .error ("malformed current projection value tag 0x" ++ hexByte tag)

theorem decodeProjectedValue_encodeValue {value : Value} (plain : value.isFloat = false) :
    decodeProjectedValue (encodeValue value) = .ok value := by
  have decoded := decodeIndexValue_encodeValue plain
  cases value with
  | float f => cases plain
  | null => rfl
  | boolean b => cases b <;> rfl
  | string s | keyword k => simp [decodeProjectedValue, encodeValue, decode_utf8Bytes]
  | integer n | ref id => simpa [decodeProjectedValue, decodeIndexValue, encodeValue, beBytes] using decoded

section Order

theorem compare_concat {a b : Bytes} (lengths : a.length = b.length) (x y : UInt8) :
    compare (a ++ [x]) (b ++ [y]) = (compare a b).then (compare x y) := by
  induction a generalizing b with
  | nil =>
    cases b with
    | nil => simp
    | cons c b => cases lengths
  | cons c a ih =>
    cases b with
    | nil => cases lengths
    | cons d b =>
      have rest := ih (Nat.succ.inj lengths)
      simp only [List.compare_eq_compareLex] at rest ⊢
      rw [List.cons_append, List.cons_append, List.compareLex_cons_cons, List.compareLex_cons_cons, rest]
      cases compare c d <;> rfl

theorem beBytes_succ (width n : Nat) :
    beBytes (width + 1) n = beBytes width (n / 256) ++ [UInt8.ofNat n] := by
  simp [beBytes, leBytes]

theorem compare_beBytes {width m n : Nat} (smallM : m < 256 ^ width) (smallN : n < 256 ^ width) :
    compare (beBytes width m) (beBytes width n) = compare m n := by
  induction width generalizing m n with
  | zero =>
    obtain rfl : m = 0 := by omega
    obtain rfl : n = 0 := by omega
    rfl
  | succ width ih =>
    have lengths : (beBytes width (m / 256)).length = (beBytes width (n / 256)).length := by
      simp [beBytes]
    have last : ∀ k : Nat, (UInt8.ofNat k).toNat = k % 256 := fun k => UInt8.toNat_ofNat
    have bytes : compare (UInt8.ofNat m) (UInt8.ofNat n) = compare (m % 256) (n % 256) := by
      simp only [compare, compareOfLessAndEq, UInt8.lt_iff_toNat_lt, ← UInt8.toNat_inj, last]
    rw [Nat.pow_succ] at smallM smallN
    rw [beBytes_succ, beBytes_succ, compare_concat lengths, ih (by omega) (by omega), bytes]
    rcases Nat.lt_trichotomy (m / 256) (n / 256) with less | same | more
    · rw [Nat.compare_eq_lt.mpr less, Nat.compare_eq_lt.mpr (by omega : m < n)]
      rfl
    · rw [Nat.compare_eq_eq.mpr same]
      simp only [Ordering.then, compare, compareOfLessAndEq]
      congr 1
      · rw [eq_iff_iff]
        omega
      · congr 1
        rw [eq_iff_iff]
        omega
    · rw [Nat.compare_eq_gt.mpr more, Nat.compare_eq_gt.mpr (by omega : n < m)]
      rfl

theorem toNat_flip (u : UInt64) : (u ^^^ 0x8000000000000000).toNat = (u.toNat + 2 ^ 63) % 2 ^ 64 := by
  have bound := u.toNat_lt
  have high : (0x8000000000000000 : UInt64).toNat = 2 ^ 63 := by decide
  rw [UInt64.toNat_xor, high]
  have front : (u.toNat ^^^ 2 ^ 63) / 2 ^ 63 = u.toNat / 2 ^ 63 ^^^ 1 := by
    rw [Nat.xor_div_two_pow]
    rfl
  have rest : (u.toNat ^^^ 2 ^ 63) % 2 ^ 63 = u.toNat % 2 ^ 63 := by
    rw [Nat.xor_mod_two_pow]
    simp
  rcases (by omega : u.toNat / 2 ^ 63 = 0 ∨ u.toNat / 2 ^ 63 = 1) with zero | one
  · rw [zero] at front
    change _ = 1 at front
    omega
  · rw [one] at front
    change _ = 0 at front
    omega

theorem toNat_flip_integer (i : Int64) :
    ((i.toUInt64 ^^^ 0x8000000000000000).toNat : Int) = i.toInt + 2 ^ 63 := by
  have bits : i.toUInt64.toNat = i.toBitVec.toNat := rfl
  have signed : i.toInt = i.toBitVec.toInt := rfl
  have bound := i.toBitVec.isLt
  rw [toNat_flip, bits, signed, BitVec.toInt_eq_toNat_cond]
  split <;> omega

theorem F64.toNat_sortableBits {f : F64} (number : f.isNan = false) :
    (f.sortableBits.toNat : Int) = if f.isSignNegative then 2 ^ 63 - 1 + f.rank else 2 ^ 63 + f.rank := by
  obtain ⟨bits⟩ := f
  have bound := bits.toNat_lt
  rw [sortableBits, if_neg (by simp [number])]
  simp only [isSignNegative, decide_eq_true_eq, rank, magnitude]
  split
  · rw [UInt64.toNat_not]
    simp only [UInt64.size]
    omega
  · rw [toNat_flip]
    omega

end Order

def Value.precedes : Value → Value → Bool
  | .string a, .string b => (compareStrings a b).isLT
  | .integer a, .integer b => decide (a < b)
  | .float a, .float b => a.lt b
  | .boolean a, .boolean b => !a && b
  | .ref a, .ref b => decide (a < b)
  | .keyword a, .keyword b => (compareStrings a b).isLT
  | _, _ => false

def SameValue (a b : Value) : Prop := a = b ∨ a.isNan = true ∧ b.isNan = true

def Returns (decode : Bytes → Except String Value) (value : Value) : Prop :=
  ∃ decoded, decode (encodeValue value) = .ok decoded ∧ SameValue decoded value

def nanTwin : F64 := ⟨0x8007FFFFFFFFFFFF⟩

theorem compare_cons_self (tag : UInt8) (a b : Bytes) : compare (tag :: a) (tag :: b) = compare a b := by
  simp [List.compare_eq_compareLex]

theorem compare_encodeValue {a b : Value} (less : a.precedes b = true) :
    compare (encodeValue a) (encodeValue b) = .lt := by
  cases a <;> cases b <;> simp only [Value.precedes, Bool.false_eq_true, Ordering.isLT_iff_eq_lt] at less
  case string.string => exact (compare_cons_self _ _ _).trans less
  case keyword.keyword => exact (compare_cons_self _ _ _).trans less
  case integer.integer a b =>
    have sorted := Int64.lt_iff_toInt_lt.mp (of_decide_eq_true less)
    have flipA := toNat_flip_integer a
    have flipB := toNat_flip_integer b
    rw [encodeValue, encodeValue, compare_cons_self,
      compare_beBytes (UInt64.toNat_lt _) (UInt64.toNat_lt _), Nat.compare_eq_lt]
    omega
  case float.float a b =>
    simp only [F64.lt, Bool.and_eq_true, Bool.not_eq_true', decide_eq_true_eq] at less
    obtain ⟨⟨numberA, numberB⟩, sorted⟩ := less
    have bitsA := F64.toNat_sortableBits numberA
    have bitsB := F64.toNat_sortableBits numberB
    rw [encodeValue, encodeValue, compare_cons_self,
      compare_beBytes (UInt64.toNat_lt _) (UInt64.toNat_lt _), Nat.compare_eq_lt]
    simp only [F64.rank] at sorted bitsA bitsB
    split at bitsA <;> split at bitsB <;> simp_all only [if_true, if_false, Bool.false_eq_true] <;> omega
  case boolean.boolean a b =>
    cases a <;> cases b <;> simp at less
    decide
  case ref.ref a b =>
    have sorted := BitVec.lt_def.mp (of_decide_eq_true less)
    rw [encodeValue, encodeValue, compare_cons_self, compare_beBytes a.isLt b.isLt, Nat.compare_eq_lt]
    exact sorted

theorem sortableBits_nan {f : F64} (nan : f.isNan = true) : f.sortableBits = nanTwin.sortableBits := by
  have twin : nanTwin.sortableBits = 0x7FF8000000000000 := by decide
  rw [twin, F64.sortableBits, if_pos nan]

theorem encodeValue_nan {a : Value} (nan : a.isNan = true) : encodeValue a = encodeValue (.float nanTwin) := by
  cases a with
  | float f => rw [encodeValue, encodeValue, sortableBits_nan nan]
  | _ => cases nan

theorem encodeValue_tells_apart_iff (a : Value) :
    (∀ b, encodeValue a = encodeValue b → SameValue a b) ↔ a.isNan = false ∧ a ≠ .float nanTwin := by
  have twinNumber : (Value.float nanTwin).isNan = false := by decide
  have someNan : (Value.float ⟨0x7FF8000000000000⟩).isNan = true := by decide
  constructor
  · intro apart
    refine ⟨Bool.eq_false_iff.mpr fun nan => ?_, fun twin => ?_⟩
    · rcases apart _ (encodeValue_nan nan) with same | both
      · rw [same, twinNumber] at nan
        cases nan
      · rw [twinNumber] at both
        cases both.2
    · subst twin
      rcases apart _ (encodeValue_nan someNan).symm with same | both
      · rw [same, someNan] at twinNumber
        cases twinNumber
      · rw [twinNumber] at both
        cases both.1
  · rintro ⟨number, notTwin⟩ b same
    cases nan : b.isNan with
    | false => exact .inl (encodeValue_inj_of_number number nan same)
    | true =>
      have twin := same.trans (encodeValue_nan nan)
      exact absurd (encodeValue_inj_of_number number twinNumber twin) notTwin

theorem ofLeBytes_beBytes (u : UInt64) : UInt64.ofNat (ofLeBytes (beBytes 8 u.toNat).reverse) = u := by
  rw [beBytes, List.reverse_reverse, ofLeBytes_leBytes _ _ u.toNat_lt, UInt64.ofNat_toNat]

theorem decodeProjectedValue_float (f : F64) : decodeProjectedValue (encodeValue (.float f)) =
    .ok (.float ⟨if f.sortableBits >>> 63 = 0 then ~~~f.sortableBits
      else f.sortableBits ^^^ 0x8000000000000000⟩) := by
  have length : (beBytes 8 f.sortableBits.toNat).length = 8 := by simp [beBytes]
  simp only [decodeProjectedValue, encodeValue, length, ofLeBytes_beBytes]
  simp

theorem shiftRight_eq_zero_iff (u : UInt64) : u >>> 63 = 0 ↔ u.toNat < 2 ^ 63 := by
  have bound := u.toNat_lt
  rw [← UInt64.toNat_inj, UInt64.toNat_shiftRight]
  change u.toNat >>> 63 = 0 ↔ _
  rw [Nat.shiftRight_eq_div_pow]
  omega

theorem decodeProjectedValue_number {f : F64} (number : f.isNan = false) :
    decodeProjectedValue (encodeValue (.float f)) = .ok (.float f) := by
  have bits := F64.toNat_sortableBits number
  have low : f.rank ≤ 0 ∨ f.isSignNegative = false := by
    simp only [F64.rank]
    cases f.isSignNegative <;> simp
  rw [decodeProjectedValue_float, if_congr (shiftRight_eq_zero_iff _) rfl rfl]
  cases sign : f.isSignNegative with
  | true =>
    have small : f.sortableBits.toNat < 2 ^ 63 := by
      simp only [sign, if_true, Bool.true_eq_false, or_false] at bits low
      omega
    rw [if_pos small, F64.sortableBits, if_neg (by simp [number]), if_pos sign, UInt64.not_not]
  | false =>
    have large : ¬ f.sortableBits.toNat < 2 ^ 63 := by
      simp only [sign, Bool.false_eq_true, if_false, F64.rank] at bits
      omega
    rw [if_neg large, F64.sortableBits, if_neg (by simp [number]), if_neg (by simp [sign]),
      UInt64.xor_assoc, UInt64.xor_self, UInt64.xor_zero]

theorem returns_index_iff (a : Value) : Returns decodeIndexValue a ↔ a.isFloat = false := by
  cases a with
  | float f =>
    have refused : decodeIndexValue (encodeValue (.float f)) =
        .error "float index values require exact fact resolution" := by
      simp [decodeIndexValue, encodeValue]
    simp [Returns, refused, Value.isFloat]
  | _ => exact ⟨fun _ => rfl, fun plain => ⟨_, decodeIndexValue_encodeValue plain, .inl rfl⟩⟩

theorem returns_projected_iff (a : Value) : Returns decodeProjectedValue a ↔ a.isNan = false := by
  cases a with
  | float f =>
    constructor
    · rintro ⟨decoded, found, same⟩
      refine Bool.eq_false_iff.mpr fun nan => ?_
      rw [encodeValue_nan nan, decodeProjectedValue_number (by decide)] at found
      cases found
      rcases same with same | both
      · rw [← same] at nan
        exact absurd nan (by decide)
      · exact absurd both.1 (by decide)
    · exact fun number => ⟨_, decodeProjectedValue_number number, .inl rfl⟩
  | _ => exact ⟨fun _ => rfl, fun _ => ⟨_, decodeProjectedValue_encodeValue rfl, .inl rfl⟩⟩

/-- The encoding keeps the order of every kind, and is a value's own unless the value is a NaN or the
    number the NaNs collide with. -/
theorem encodeValue_faithful_iff (a : Value) :
    (∀ b, a.precedes b = true → compare (encodeValue a) (encodeValue b) = .lt) ∧
      ((∀ b, encodeValue a = encodeValue b → SameValue a b) ↔ a.isNan = false ∧ a ≠ .float nanTwin) ∧
      (Returns decodeIndexValue a ↔ a.isFloat = false) ∧
      (Returns decodeProjectedValue a ↔ a.isNan = false) :=
  ⟨fun _ less => compare_encodeValue less, encodeValue_tells_apart_iff a, returns_index_iff a,
    returns_projected_iff a⟩

/-- A NaN and a negative subnormal number share their bytes, and the projection decoder reads the
    number. -/
theorem nan_encoded_as_subnormal :
    encodeValue (.float ⟨0x7FF8000000000000⟩) = encodeValue (.float nanTwin) ∧
      ¬ SameValue (.float ⟨0x7FF8000000000000⟩) (.float nanTwin) ∧
      decodeProjectedValue (encodeValue (.float ⟨0x7FF8000000000000⟩)) = .ok (.float nanTwin) := by
  refine ⟨by decide, ?_, by decide⟩
  rintro (same | both)
  · exact absurd same (by decide)
  · exact absurd both.2 (by decide)

end ViciaDb
