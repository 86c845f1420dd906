import ViciaDb.Graph.PendingOverlay
import ViciaDb.Graph.Temporal
import ViciaDb.Lib.MergeScan

namespace ViciaDb

open ByteReader

structure FactLog where
  committed : List Fact
  pending : List Fact

def FactLog.records (log : FactLog) : List Fact := log.committed ++ log.pending

/-- The upper bound of the range scanned for an attribute: its last byte below `0xFF` raised by one, if
    that is a string. -/
def nextStringPrefix (s : String) : Option String :=
  match (utf8Bytes s).reverse.dropWhile (· == 0xFF) with
  | [] => none
  | last :: front => String.fromUTF8? ⟨((last + 1) :: front).reverse.toArray⟩

/-- The fact lies in the index range of the attribute. The bounds' other fields are the least
    ones, so only the attributes decide. -/
def inAttributeRange (attr : String) (fact : Fact) : Bool :=
  (compare (utf8Bytes attr) (utf8Bytes fact.attr)).isLE &&
    match nextStringPrefix attr with
    | some upper => (compare (utf8Bytes fact.attr) (utf8Bytes upper)).isLT
    | none => true

def inEntityRange (entity : EntityId) (fact : Fact) : Bool :=
  entity ≤ fact.entity && fact.entity < entity + 1

def compareTail : Fact → Fact → Ordering :=
  compareLex (compareOn Fact.validFrom) <| compareLex (compareOn Fact.validTo) <|
    compareLex (compareOn Fact.txCount) <| compareLex (compareOn fun fact => encodeValue fact.value) <|
      compareLex (compareOn Fact.txId) (compareOn Fact.asserted)

def compareAevtProjection : Fact → Fact → Ordering :=
  compareLex (compareOn Fact.entity) compareTail

def compareAevt : Fact → Fact → Ordering :=
  compareLex (compareOn fun fact => utf8Bytes fact.attr) compareAevtProjection

def compareEavt : Fact → Fact → Ordering :=
  compareLex (compareOn Fact.entity) <| compareLex (compareOn fun fact => utf8Bytes fact.attr)
    compareTail

def Fact.refTarget (fact : Fact) : Option EntityId :=
  match fact.value with
  | .ref target => some target
  | _ => none

def indexRange (cmp : Fact → Fact → Ordering) (inRange : Fact → Bool) (facts : List Fact) :
    List Fact :=
  (facts.filter inRange).insertionSort fun a b => (cmp a b).isLE

def rangeAevt (attr : String) (facts : List Fact) : List Fact :=
  indexRange compareAevt (inAttributeRange attr) facts

def rangeEavt (entity : EntityId) (facts : List Fact) : List Fact :=
  indexRange compareEavt (inEntityRange entity) facts

def sourceWorkExceeded (maxFacts : Nat) : String :=
  s!"query source work exceeds max-results {maxFacts}; incomplete result rejected"

def getAllFactsBounded (log : FactLog) (maxFacts : Nat) : Except String (List Fact) :=
  if maxFacts < log.records.length then .error (sourceWorkExceeded maxFacts) else .ok log.records

def getFactsByEntityBounded (log : FactLog) (entity : EntityId) (maxFacts : Nat) :
    Except String (List Fact) :=
  let facts := rangeEavt entity log.pending ++ log.committed.filter (inEntityRange entity)
  if maxFacts < facts.length then .error (sourceWorkExceeded maxFacts) else .ok facts

/-- Only the committed facts are checked against the attribute itself; every one in the range
    counts against the limit. -/
def getFactsByAttributeBounded (log : FactLog) (attr : String) (maxFacts : Nat) :
    Except String (List Fact) :=
  let pending := rangeAevt attr log.pending
  let committed := log.committed.filter (inAttributeRange attr)
  if maxFacts < pending.length + committed.length then .error (sourceWorkExceeded maxFacts)
  else .ok (pending ++ committed.filter fun fact => fact.attr == attr)

instance : Std.TransCmp compareTail := by
  unfold compareTail
  infer_instance

instance : Std.TransCmp compareAevtProjection := by
  unfold compareAevtProjection
  infer_instance

instance : Std.TransCmp compareAevt := by
  unfold compareAevt
  infer_instance

instance : Std.TransCmp compareEavt := by
  unfold compareEavt
  infer_instance

theorem compare_append_lt (common : Bytes) {a b : UInt8} (less : a < b) (s t : Bytes) :
    compare (common ++ a :: s) (common ++ b :: t) = .lt := by
  induction common with
  | nil => simp [List.compareLex_cons_cons, compare, compareOfLessAndEq, less]
  | cons c common ih =>
    simpa [List.compare_eq_compareLex, List.compareLex_cons_cons, compare, compareOfLessAndEq] using ih

theorem compare_nextStringPrefix {s upper : String} (next : nextStringPrefix s = some upper) :
    compare (utf8Bytes s) (utf8Bytes upper) = .lt := by
  unfold nextStringPrefix at next
  split at next
  · cases next
  rename_i last front tail
  have stopped : (last == 0xFF) = false := by
    have := List.head_dropWhile_not (fun b : UInt8 => b == 0xFF)
      (by simp [tail] : (utf8Bytes s).reverse.dropWhile _ ≠ [])
    simpa [tail] using this
  have less : last < last + 1 := by
    have : last.toNat < 255 := by
      have bound := UInt8.toNat_lt last
      have : last.toNat ≠ 255 := fun same => by simp [← UInt8.toNat_inj, same] at stopped
      omega
    rw [UInt8.lt_iff_toNat_lt, UInt8.toNat_add]
    simp
    omega
  have whole : utf8Bytes s = front.reverse ++
      last :: ((utf8Bytes s).reverse.takeWhile fun b : UInt8 => b == 0xFF).reverse := by
    have split := List.takeWhile_append_dropWhile (p := fun b : UInt8 => b == 0xFF)
      (l := (utf8Bytes s).reverse)
    rw [tail] at split
    have := congrArg List.reverse split
    simpa using this.symm
  have bytes : utf8Bytes upper = front.reverse ++ [last + 1] := by
    unfold String.fromUTF8? at next
    split at next
    · cases next
      simp [utf8Bytes, String.fromUTF8]
    · cases next
  rw [whole, bytes]
  exact compare_append_lt _ less _ _

theorem inAttributeRange_self {attr : String} {fact : Fact} (same : fact.attr = attr) :
    inAttributeRange attr fact = true := by
  unfold inAttributeRange
  have least : compare (utf8Bytes attr) (utf8Bytes attr) = .eq := Std.ReflCmp.compare_self
  rw [same, least]
  cases next : nextStringPrefix attr with
  | none => rfl
  | some upper => simp [compare_nextStringPrefix next]

theorem inEntityRange_iff {entity : EntityId} {fact : Fact} :
    inEntityRange entity fact = true ↔ fact.entity = entity ∧ entity ≠ BitVec.allOnes 128 := by
  simp only [inEntityRange, Bool.and_eq_true, decide_eq_true_eq]
  constructor
  · rintro ⟨lower, upper⟩
    constructor
    · bv_omega
    · intro isLast
      have : entity.toNat = 2 ^ 128 - 1 := by rw [isLast, BitVec.toNat_allOnes]
      bv_omega
  · rintro ⟨rfl, notLast⟩
    have : fact.entity.toNat ≠ 2 ^ 128 - 1 := by
      rw [← BitVec.toNat_allOnes]
      exact fun same => notLast (BitVec.eq_of_toNat_eq same)
    bv_omega

theorem indexRange_perm (cmp : Fact → Fact → Ordering) (inRange : Fact → Bool) (facts : List Fact) :
    (indexRange cmp inRange facts).Perm (facts.filter inRange) :=
  List.perm_insertionSort _ _

theorem pairwise_indexRange (cmp : Fact → Fact → Ordering) [Std.TransCmp cmp] (inRange : Fact → Bool)
    (facts : List Fact) : (indexRange cmp inRange facts).Pairwise fun a b => (cmp a b).isLE :=
  List.pairwise_insertionSort_isLE _

end ViciaDb
