import Mathlib.Data.Set.Basic
import ViciaDb.Query.ValueOrder

namespace ViciaDb

open ByteReader

def Value.writes (value : Value) : List Bytes :=
  leBytes 8 value.discriminant :: match value with
    | .string s => [utf8Bytes s, [0xff]]
    | .integer i => [leBytes 8 i.toUInt64.toNat]
    | .float f =>
      if f.isNan then [[0]]
      else if f.isSignNegative then [[1], leBytes 8 (f.bits ^^^ 0x8000000000000000).toNat]
      else [[2], leBytes 8 f.bits.toNat]
    | .boolean b => [[if b then 1 else 0]]
    | .ref id => [beBytes 16 id.toNat]
    | .keyword k => [utf8Bytes k, [0xff]]
    | .null => []

def Value.hash {σ : Type} (write : σ → Bytes → σ) (value : Value) (state : σ) : σ :=
  value.writes.foldl write state

theorem Value.writes_eq_of_hash {a b : Value}
    (same : ∀ {σ : Type} (write : σ → Bytes → σ) state, a.hash write state = b.hash write state) :
    a.writes = b.writes := by
  have collect : ∀ (writes state : List Bytes), writes.foldl (fun s w => s ++ [w]) state =
      state ++ writes := by
    intro writes
    induction writes with
    | nil => simp
    | cons w writes ih => simp [ih]
  have equal := same (fun (s : List Bytes) w => s ++ [w]) []
  rwa [hash, hash, collect, collect] at equal

/-- The laws that `Eq`, `Hash` and `Ord` owe each other, on a set of values. -/
structure Value.Consistent (values : Set Value) : Prop where
  hashed : ∀ a ∈ values, ∀ b ∈ values, a.eq b = true →
    ∀ {σ : Type} (write : σ → Bytes → σ) state, a.hash write state = b.hash write state
  swapped : ∀ a ∈ values, ∀ b ∈ values, b.cmp a = (a.cmp b).swap
  transitive : ∀ a ∈ values, ∀ b ∈ values, ∀ c ∈ values,
    (a.cmp b).isLE = true → (b.cmp c).isLE = true → (a.cmp c).isLE = true
  decided : ∀ a ∈ values, ∀ b ∈ values, a.cmp b = .eq ↔ a.eq b = true

theorem Value.cmp_eq_iff {a b : Value} (numberA : a.isNan = false) (numberB : b.isNan = false) :
    a.cmp b = .eq ↔ a.eq b = true := by
  cases floatA : a.isFloat <;> cases floatB : b.isFloat
  case true.true =>
    cases a <;> cases b <;> try contradiction
    next f g =>
      have numberF : f.isNan = false := numberA
      have numberG : g.isNan = false := numberB
      simp [cmp_float, numberF, numberG, Value.eq, F64.eq]
  case false.false =>
    have equal : a.eq b = true ↔ a = b := by
      cases a <;> cases b <;> simp_all [Value.eq, isFloat]
    rw [equal]
    constructor
    · exact eq_of_cmp_eq (by cases a <;> simp_all [isOrdinary, isFloat])
        (by cases b <;> simp_all [isOrdinary, isFloat])
    · rintro rfl
      exact Std.ReflCmp.compare_self
  all_goals
    cases a <;> cases b <;> try contradiction
    all_goals exact iff_of_false (by rintro ⟨⟩) (by simp [Value.eq])

theorem F64.eq_or_zeros {f g : F64} (same : f.eq g = true) :
    f = g ∨ f = ⟨0⟩ ∧ g = ⟨0x8000000000000000⟩ ∨ f = ⟨0x8000000000000000⟩ ∧ g = ⟨0⟩ := by
  obtain ⟨f⟩ := f
  obtain ⟨g⟩ := g
  have boundF := UInt64.toNat_lt f
  have boundG := UInt64.toNat_lt g
  simp only [eq, rank, magnitude, isSignNegative, Bool.and_eq_true, decide_eq_true_eq] at same
  simp only [mk.injEq, ← UInt64.toNat_inj, UInt64.reduceToNat]
  split at same <;> split at same <;> omega

theorem Value.Consistent.number {values : Set Value} (consistent : Consistent values)
    {value : Value} (mem : value ∈ values) : value.isNan = false := by
  have same := (consistent.decided value mem value mem).mp Std.ReflCmp.compare_self
  cases value with
  | float f =>
    simp only [Value.eq, F64.eq, Bool.and_eq_true, Bool.not_eq_true'] at same
    exact same.1.1
  | _ => rfl

theorem Value.lawful_iff (values : Set Value) :
    Consistent values ↔ (∀ value ∈ values, value.isNan = false) ∧
      ¬ (.float ⟨0⟩ ∈ values ∧ .float ⟨0x8000000000000000⟩ ∈ values) := by
  constructor
  · intro consistent
    refine ⟨fun value => consistent.number, fun ⟨positive, negative⟩ => ?_⟩
    have same := writes_eq_of_hash (consistent.hashed _ positive _ negative (by decide))
    exact absurd same (by decide)
  · rintro ⟨numbers, zeros⟩
    refine ⟨?_, fun a _ b _ => Std.OrientedCmp.eq_swap, fun a _ b _ c _ => Std.TransCmp.isLE_trans,
      fun a memA b memB => cmp_eq_iff (numbers a memA) (numbers b memB)⟩
    intro a memA b memB same σ write state
    suffices equal : a = b by rw [equal]
    cases a <;> cases b
    case float.float f g =>
      rcases F64.eq_or_zeros same with rfl | ⟨rfl, rfl⟩ | ⟨rfl, rfl⟩
      · rfl
      · exact absurd ⟨memA, memB⟩ zeros
      · exact absurd ⟨memB, memA⟩ zeros
    all_goals exact of_decide_eq_true same

theorem zeros_and_nan_inconsistent : (Value.float ⟨0⟩).eq (.float ⟨0x8000000000000000⟩) = true ∧
    (Value.float ⟨0⟩).writes ≠ (Value.float ⟨0x8000000000000000⟩).writes ∧
    (Value.float ⟨0x7FF8000000000000⟩).cmp (.float ⟨0x7FF8000000000000⟩) = .eq ∧
    (Value.float ⟨0x7FF8000000000000⟩).eq (.float ⟨0x7FF8000000000000⟩) = false := by
  decide

end ViciaDb
