import ViciaDb.Graph.Types
import ViciaDb.Lib.ByteReader

namespace ViciaDb

open ByteReader

def utf8Bytes (s : String) : Bytes := s.toByteArray.data.toList

def usizeMax : Nat := 2 ^ 64 - 1

def beBytes (width n : Nat) : Bytes := (leBytes width n).reverse

def F64.sortableBits (f : F64) : UInt64 :=
  if f.isNan then 0x7FF8000000000000
  else if f.isSignNegative then ~~~f.bits
  else f.bits ^^^ 0x8000000000000000

def encodeValue : Value → Bytes
  | .null => [0x00]
  | .boolean b => [0x01, if b then 1 else 0]
  | .integer n => 0x02 :: beBytes 8 (n.toUInt64 ^^^ 0x8000000000000000).toNat
  | .float f => 0x03 :: beBytes 8 f.sortableBits.toNat
  | .string s => 0x04 :: utf8Bytes s
  | .keyword k => 0x05 :: utf8Bytes k
  | .ref id => 0x06 :: beBytes 16 id.toNat

def hexByte (b : UInt8) : String :=
  String.ofList [Nat.digitChar (b.toNat / 16), Nat.digitChar (b.toNat % 16)]

theorem utf8Bytes_inj {s t : String} (same : utf8Bytes s = utf8Bytes t) : s = t := by
  apply String.toByteArray_inj.mp
  apply ByteArray.ext
  exact Array.toList_inj.mp same

theorem beBytes_inj {width m n : Nat} (boundM : m < 256 ^ width) (boundN : n < 256 ^ width)
    (same : beBytes width m = beBytes width n) : m = n := by
  have bytes : leBytes width m = leBytes width n := List.reverse_inj.mp same
  rw [← ofLeBytes_leBytes width m boundM, bytes, ofLeBytes_leBytes width n boundN]

theorem not_ne_flip {m n : UInt64} (negative : 2 ^ 63 ≤ m.toNat) (positive : n.toNat < 2 ^ 63) :
    ~~~m ≠ n ^^^ 0x8000000000000000 := by
  intro same
  have bits := congrArg (fun u : UInt64 => u.toNat.testBit 63) same
  have low : (~~~m).toNat < 2 ^ 63 := by
    have := UInt64.toNat_lt m
    rw [UInt64.toNat_not]
    simp only [UInt64.size]
    omega
  have top : (0x8000000000000000 : UInt64).toNat.testBit 63 = true := by decide
  simp only [UInt64.toNat_xor, Nat.testBit_xor, Nat.testBit_lt_two_pow low,
    Nat.testBit_lt_two_pow positive, top] at bits
  cases bits

theorem F64.sortableBits_inj {f g : F64} (number : f.isNan = false) (number' : g.isNan = false)
    (same : f.sortableBits = g.sortableBits) : f = g := by
  obtain ⟨f⟩ := f
  obtain ⟨g⟩ := g
  congr 1
  simp only [sortableBits, number, number', isSignNegative] at same
  by_cases signF : 2 ^ 63 ≤ f.toNat <;> by_cases signG : 2 ^ 63 ≤ g.toNat <;>
    simp only [signF, signG] at same
  · simpa using same
  · exact absurd same (not_ne_flip signF (by omega))
  · exact absurd same.symm (not_ne_flip signG (by omega))
  · simpa using same

theorem encodeValue_inj {a b : Value} (plain : a.isFloat = false) (same : encodeValue a = encodeValue b) :
    a = b := by
  cases a with
  | float f => cases plain
  | null => cases b <;> simp_all [encodeValue]
  | boolean x =>
    cases b <;> simp_all [encodeValue]
    rename_i y
    cases x <;> cases y <;> simp_all
  | string s | keyword k =>
    cases b <;> simp_all [encodeValue]
    exact utf8Bytes_inj same
  | integer m =>
    cases b with
    | integer n =>
      have bytes := (List.cons.inj same).2
      have bits := UInt64.toNat_inj.mp (beBytes_inj (UInt64.toNat_lt _) (UInt64.toNat_lt _) bytes)
      have unsigned : m.toUInt64 = n.toUInt64 := (UInt64.xor_left_inj _).mp bits
      exact congrArg (Value.integer ∘ Int64.ofUInt64) unsigned
    | _ => simp [encodeValue] at same
  | ref id =>
    cases b <;> simp_all [encodeValue]
    exact BitVec.eq_of_toNat_eq (beBytes_inj (BitVec.isLt _) (BitVec.isLt _) same)

theorem encodeValue_inj_of_number {a b : Value} (number : a.isNan = false)
    (number' : b.isNan = false) (same : encodeValue a = encodeValue b) : a = b := by
  cases a with
  | float f =>
    cases b with
    | float g =>
      have bytes := (List.cons.inj same).2
      have bits := UInt64.toNat_inj.mp (beBytes_inj (UInt64.toNat_lt _) (UInt64.toNat_lt _) bytes)
      rw [F64.sortableBits_inj number number' bits]
    | _ => simp [encodeValue] at same
  | _ => exact encodeValue_inj rfl same

end ViciaDb
