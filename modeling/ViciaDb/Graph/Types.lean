import Mathlib.Algebra.Group.Nat.Defs
import Mathlib.Data.List.Basic

namespace ViciaDb

abbrev EntityId := BitVec 128

/-- An IEEE 754 double as its bit pattern. Lean's equality is that of bits; the code's comparison is
    `F64.eq`. -/
structure F64 where
  bits : UInt64
  deriving DecidableEq, Repr

namespace F64

def magnitude (f : F64) : Nat := f.bits.toNat % 2^63

def isNan (f : F64) : Bool := decide (0x7FF0000000000000 < f.magnitude)

def isSignNegative (f : F64) : Bool := decide (2^63 ≤ f.bits.toNat)

def rank (f : F64) : Int := if f.isSignNegative then -(f.magnitude : Int) else f.magnitude

def eq (a b : F64) : Bool := !a.isNan && !b.isNan && decide (a.rank = b.rank)

def lt (a b : F64) : Bool := !a.isNan && !b.isNan && decide (a.rank < b.rank)

end F64

inductive Value where
  | string (s : String)
  | integer (i : Int64)
  | float (f : F64)
  | boolean (b : Bool)
  | ref (id : EntityId)
  | keyword (k : String)
  | null
  deriving DecidableEq, Repr

/-- Rust's derived `==`: structural, except that floats compare as IEEE numbers. -/
def Value.eq : Value → Value → Bool
  | .float a, .float b => a.eq b
  | a, b => decide (a = b)

def Value.isFloat : Value → Bool
  | .float _ => true
  | _ => false

def Value.isNan : Value → Bool
  | .float f => f.isNan
  | _ => false

/-- Not a NaN and not the negative zero: the floats that the order and `==` tell apart as their
    bits do. -/
def Value.isOrdinary : Value → Bool
  | .float f => !f.isNan && f.bits != 0x8000000000000000
  | _ => true

theorem Value.isNan_of_isOrdinary {value : Value} (ordinary : value.isOrdinary = true) :
    value.isNan = false := by
  cases value with
  | float f =>
    simp only [isOrdinary, Bool.and_eq_true, Bool.not_eq_true'] at ordinary
    exact ordinary.1
  | _ => rfl

theorem F64.rank_inj {f g : F64} (nonzeroF : f.bits ≠ 0x8000000000000000)
    (nonzeroG : g.bits ≠ 0x8000000000000000) (same : f.rank = g.rank) : f = g := by
  obtain ⟨f⟩ := f
  obtain ⟨g⟩ := g
  have boundF := UInt64.toNat_lt f
  have boundG := UInt64.toNat_lt g
  have nonzeroF : f.toNat ≠ 2 ^ 63 := fun zero => nonzeroF (UInt64.toNat_inj.mp zero)
  have nonzeroG : g.toNat ≠ 2 ^ 63 := fun zero => nonzeroG (UInt64.toNat_inj.mp zero)
  congr 1
  apply UInt64.toNat_inj.mp
  simp only [rank, magnitude, isSignNegative, decide_eq_true_eq] at same
  split at same <;> split at same <;> omega

def validTimeForever : Int64 := Int64.maxValue

def retractAllValidFrom : Int64 := Int64.minValue + 1

structure Fact where
  entity : EntityId
  attr : String
  value : Value
  txId : UInt64
  txCount : UInt64
  validFrom : Int64
  validTo : Int64
  asserted : Bool
  deriving DecidableEq, Repr

end ViciaDb
