import ViciaDb.Storage.Index

namespace ViciaDb

open ByteReader

def F64.partialCmp (a b : F64) : Option Ordering :=
  if a.isNan || b.isNan then none else some (compare a.rank b.rank)

def compareStrings (s t : String) : Ordering := compare (utf8Bytes s) (utf8Bytes t)

def Value.discriminant : Value → Nat
  | .string _ => 0
  | .integer _ => 1
  | .float _ => 2
  | .boolean _ => 3
  | .ref _ => 4
  | .keyword _ => 5
  | .null => 6

def Value.cmp : Value → Value → Ordering
  | .string a, .string b => compareStrings a b
  | .integer a, .integer b => compare a b
  | .float a, .float b =>
    if a.isNan && b.isNan then .eq
    else if a.isNan then .gt
    else if b.isNan then .lt
    else (a.partialCmp b).getD .eq
  | .boolean a, .boolean b => compare a b
  | .ref a, .ref b => compare a b
  | .keyword a, .keyword b => compareStrings a b
  | .null, .null => .eq
  | a, b => compare a.discriminant b.discriminant

def valueTypeName : Value → String
  | .string _ => "String"
  | .integer _ => "Integer"
  | .float _ => "Float"
  | .boolean _ => "Boolean"
  | .ref _ => "Ref"
  | .keyword _ => "Keyword"
  | .null => "Null"

def Value.rank : Value → List Int
  | .string s => (utf8Bytes s).map fun b => (b.toNat : Int)
  | .integer i => [i.toInt]
  | .float f => [if f.isNan then 0x8000000000000000 else f.rank]
  | .boolean b => [if b then 1 else 0]
  | .ref id => [(id.toNat : Int)]
  | .keyword k => (utf8Bytes k).map fun b => (b.toNat : Int)
  | .null => []

theorem compare_map {α : Type} [Ord α] (f : α → Int) (keeps : ∀ a b, compare (f a) (f b) = compare a b)
    (l m : List α) : compare (l.map f) (m.map f) = compare l m := by
  induction l generalizing m with
  | nil => cases m <;> rfl
  | cons a l ih =>
    cases m with
    | nil => rfl
    | cons b m =>
      simp only [List.map_cons, List.compare_eq_compareLex, List.compareLex_cons_cons] at ih ⊢
      rw [keeps, ih]

theorem compare_byte (a b : UInt8) : compare (a.toNat : Int) (b.toNat : Int) = compare a b := by
  simp only [compare, compareOfLessAndEq, UInt8.lt_iff_toNat_lt, ← UInt8.toNat_inj]
  split <;> split <;> simp_all

theorem compare_singleton (a b : Int) : compare [a] [b] = compare a b := by
  simp

theorem F64.rank_lt (f : F64) : f.rank < 0x8000000000000000 := by
  unfold rank magnitude
  split <;> omega

theorem Value.cmp_float (f g : F64) :
    (Value.float f).cmp (.float g) = compare (if f.isNan then 0x8000000000000000 else f.rank)
      (if g.isNan then 0x8000000000000000 else g.rank) := by
  have boundF := f.rank_lt
  have boundG := g.rank_lt
  change (if f.isNan && g.isNan then .eq else if f.isNan then .gt else if g.isNan then .lt
    else (if f.isNan || g.isNan then none else some (compare f.rank g.rank)).getD .eq) = _
  cases f.isNan <;> cases g.isNan
  · rfl
  · exact (Int.compare_eq_lt.mpr boundF).symm
  · exact (Int.compare_eq_gt.mpr boundG).symm
  · rfl

theorem Value.cmp_eq (a b : Value) :
    a.cmp b = compareLex (compareOn discriminant) (compareOn rank) a b := by
  have strings : ∀ s t : String, compareStrings s t =
      compare ((utf8Bytes s).map fun b => (b.toNat : Int))
        ((utf8Bytes t).map fun b => (b.toNat : Int)) := fun s t =>
    (compare_map _ compare_byte _ _).symm
  cases a with
  | string s =>
    cases b with
    | string t => exact strings s t
    | _ => rfl
  | keyword s =>
    cases b with
    | keyword t => exact strings s t
    | _ => rfl
  | float f =>
    cases b with
    | float g =>
      change _ = compare [_] [_]
      rw [compare_singleton, cmp_float]
    | _ => rfl
  | integer m =>
    cases b with
    | integer n =>
      change compare m n = compare [m.toInt] [n.toInt]
      rw [compare_singleton]
      simp only [compare, compareOfLessAndEq, Int64.lt_iff_toInt_lt, ← Int64.toInt_inj]
    | _ => rfl
  | boolean x =>
    cases b with
    | boolean y => cases x <;> cases y <;> rfl
    | _ => rfl
  | ref x =>
    cases b with
    | ref y =>
      change compare x y = compare [(x.toNat : Int)] [(y.toNat : Int)]
      rw [compare_singleton]
      simp only [compare, compareOfLessAndEq, BitVec.lt_def, ← BitVec.toNat_inj, Int.ofNat_lt, Int.ofNat_inj]
    | _ => rfl
  | null => cases b <;> rfl

instance : Std.TransCmp Value.cmp := by
  have same : Value.cmp = compareLex (compareOn Value.discriminant) (compareOn Value.rank) := by
    funext a b
    exact a.cmp_eq b
  rw [same]
  infer_instance

theorem Value.eq_of_cmp_eq {a b : Value} (ordinaryA : a.isOrdinary = true)
    (ordinaryB : b.isOrdinary = true) (same : a.cmp b = .eq) : a = b := by
  have bytes : ∀ s t : String, ((utf8Bytes s).map fun b => (b.toNat : Int)) =
      (utf8Bytes t).map (fun b => (b.toNat : Int)) → s = t := by
    intro s t equal
    apply utf8Bytes_inj
    refine List.map_injective_iff.mpr ?_ equal
    intro x y equal
    exact UInt8.toNat_inj.mp (Int.ofNat_inj.mp equal)
  rw [cmp_eq, compareLex_eq_eq] at same
  have kinds : a.discriminant = b.discriminant := Std.LawfulEqCmp.eq_of_compare same.1
  have ranks : a.rank = b.rank := Std.LawfulEqCmp.eq_of_compare same.2
  clear same
  cases a <;> cases b <;> try cases kinds
  case string.string s t => rw [bytes s t ranks]
  case keyword.keyword s t => rw [bytes s t ranks]
  case integer.integer m n => rw [Int64.toInt_inj.mp (List.cons.inj ranks).1]
  case boolean.boolean x y => cases x <;> cases y <;> first | rfl | cases ranks
  case ref.ref x y => rw [BitVec.toNat_inj.mp (Int.ofNat_inj.mp (List.cons.inj ranks).1)]
  case null.null => rfl
  case float.float f g =>
    simp only [isOrdinary, Bool.and_eq_true, Bool.not_eq_true', bne_iff_ne] at ordinaryA ordinaryB
    have equal := (List.cons.inj ranks).1
    rw [ordinaryA.1, ordinaryB.1] at equal
    rw [F64.rank_inj ordinaryA.2 ordinaryB.2 equal]

end ViciaDb
