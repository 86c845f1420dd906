import Mathlib.Data.Nat.Basic
import ViciaDb.Lib.NewestByKey
import ViciaDb.Query.Types

namespace ViciaDb

open List

def AsOf.admits (fact : Fact) : AsOf → Bool
  | .counter n => fact.txCount ≤ n
  | .timestamp t => fact.txId ≤ if t < 0 then 0 else t.toUInt64
  | .slot _ => false

def filterFactsAsOf (facts : List Fact) (asOf : AsOf) : List Fact :=
  facts.filter fun fact => asOf.admits fact

def canonicalValue : Value → Value
  | .float f => .float (if f.isNan then ⟨0x7FF8000000000000⟩ else f)
  | value => value

structure EavKey where
  entity : EntityId
  attr : String
  value : Value
  deriving DecidableEq, Repr

structure WindowKey where
  eav : EavKey
  validFrom : Int64
  validTo : Int64
  deriving DecidableEq, Repr

def Fact.eavKey (fact : Fact) : EavKey := ⟨fact.entity, fact.attr, canonicalValue fact.value⟩

def Fact.windowKey (fact : Fact) : WindowKey := ⟨fact.eavKey, fact.validFrom, fact.validTo⟩

def Fact.stamp (fact : Fact) : Nat := fact.txCount.toNat

def Fact.isUnscoped (fact : Fact) : Bool :=
  fact.validFrom == retractAllValidFrom && fact.validTo == validTimeForever

def latest (select : Fact → Bool) (facts : List Fact) : Nat :=
  facts.foldl (fun highest fact => if select fact then max highest fact.stamp else highest) 0

def unscopedRetractTx (facts : List Fact) (key : EavKey) : Nat :=
  latest (fun fact => !fact.asserted && fact.isUnscoped && fact.eavKey == key) facts

def scopedRetractTx (facts : List Fact) (key : WindowKey) : Nat :=
  latest (fun fact => !fact.asserted && !fact.isUnscoped && fact.windowKey == key) facts

def netAssertedFacts (facts : List Fact) : List Fact :=
  ((facts.filter Fact.asserted).newestBy Fact.windowKey Fact.stamp).filter fun fact =>
    max (unscopedRetractTx facts fact.eavKey) (scopedRetractTx facts fact.windowKey) < fact.stamp

def coalescePointInTimeFacts (facts : List Fact) : List Fact :=
  facts.newestBy Fact.eavKey Fact.stamp

inductive CurrentValidTime where
  | atTime (t : Int64)
  | any
  deriving DecidableEq, Repr

def CurrentValidTime.admits (validFrom validTo : Int64) : CurrentValidTime → Bool
  | .atTime t => validFrom ≤ t && t < validTo
  | .any => true

def currentRelation (validTime : CurrentValidTime) (records : List Fact) : List Fact :=
  let filtered := (netAssertedFacts records).filter fun fact =>
    validTime.admits fact.validFrom fact.validTo
  match validTime with
  | .atTime _ => coalescePointInTimeFacts filtered
  | .any => filtered

def Fact.cancels (retraction : Fact) (key : WindowKey) : Bool :=
  !retraction.asserted && (retraction.isUnscoped && retraction.eavKey == key.eav ||
    !retraction.isUnscoped && retraction.windowKey == key)

def NetAsserted (records : List Fact) (key : WindowKey) : Prop :=
  ∃ fact ∈ records, fact.asserted = true ∧ fact.windowKey = key ∧ 0 < fact.stamp ∧
    ∀ retraction ∈ records, retraction.cancels key = true → retraction.stamp < fact.stamp

def Current (validTime : CurrentValidTime) (records : List Fact) (key : WindowKey) : Prop :=
  NetAsserted records key ∧ validTime.admits key.validFrom key.validTo = true

variable {records : List Fact} {key : WindowKey} {validTime : CurrentValidTime}

theorem latest_lt_iff {select : Fact → Bool} {facts : List Fact} {n : Nat} :
    latest select facts < n ↔ 0 < n ∧ ∀ fact ∈ facts, select fact = true → fact.stamp < n := by
  suffices general : ∀ start, facts.foldl (fun highest fact =>
      if select fact then max highest fact.stamp else highest) start < n ↔
      start < n ∧ ∀ fact ∈ facts, select fact = true → fact.stamp < n from general 0
  induction facts with
  | nil => simp
  | cons fact facts ih =>
    intro start
    rw [foldl_cons, ih]
    by_cases selected : select fact = true
    · simp only [selected, if_true, forall_mem_cons, true_implies, Nat.max_lt, and_assoc]
    · simp [selected]

theorem retracts_lt_iff {records : List Fact} {key : WindowKey} {n : Nat} :
    max (unscopedRetractTx records key.eav) (scopedRetractTx records key) < n ↔
      0 < n ∧ ∀ retraction ∈ records, retraction.cancels key = true → retraction.stamp < n := by
  simp only [Nat.max_lt, unscopedRetractTx, scopedRetractTx, latest_lt_iff, Fact.cancels,
    Bool.and_eq_true, Bool.or_eq_true, Bool.not_eq_true', beq_iff_eq]
  grind

theorem mem_netAssertedFacts {fact : Fact} : fact ∈ netAssertedFacts records ↔
      fact ∈ (records.filter Fact.asserted).newestBy Fact.windowKey Fact.stamp ∧
        0 < fact.stamp ∧ ∀ retraction ∈ records, retraction.cancels fact.windowKey = true →
          retraction.stamp < fact.stamp := by
  rw [netAssertedFacts, mem_filter, decide_eq_true_iff]
  exact and_congr_right fun _ => @retracts_lt_iff records fact.windowKey fact.stamp

theorem netAssertedFacts_sublist (records : List Fact) :
    (netAssertedFacts records).Sublist (records.filter Fact.asserted) :=
  filter_sublist.trans (newestBy_sublist _)

theorem nodup_netAssertedFacts (records : List Fact) :
    ((netAssertedFacts records).map Fact.windowKey).Nodup :=
  (filter_sublist.map _).nodup (nodup_map_newestBy _)

theorem mem_map_netAssertedFacts :
    key ∈ (netAssertedFacts records).map Fact.windowKey ↔ NetAsserted records key := by
  constructor
  · intro present
    obtain ⟨fact, kept, rfl⟩ := mem_map.mp present
    obtain ⟨newest, positive, clear⟩ := mem_netAssertedFacts.mp kept
    obtain ⟨known, asserted⟩ := mem_filter.mp ((newestBy_sublist _).mem newest)
    exact ⟨fact, known, asserted, rfl, positive, clear⟩
  · rintro ⟨fact, known, asserted, rfl, positive, clear⟩
    -- The newest assertion of the window clears every retraction that this one clears.
    have listed : fact.windowKey ∈
        ((records.filter Fact.asserted).newestBy Fact.windowKey Fact.stamp).map Fact.windowKey :=
      mem_map_newestBy.mpr
        (mem_map.mpr ⟨fact, mem_filter.mpr ⟨known, asserted⟩, rfl⟩)
    obtain ⟨newest, kept, same⟩ := mem_map.mp listed
    have atLeast := newestBy_newest kept fact (mem_filter.mpr ⟨known, asserted⟩) same.symm
    refine mem_map.mpr ⟨newest, mem_netAssertedFacts.mpr ⟨kept, by omega, ?_⟩, same⟩
    intro retraction member cancels
    have := clear retraction member (same ▸ cancels)
    omega

theorem NetAsserted.congr {records' : List Fact} (same : ∀ fact, fact ∈ records ↔ fact ∈ records') :
    NetAsserted records key ↔ NetAsserted records' key := by
  simp only [NetAsserted, same]

def NoOverlap (validTime : CurrentValidTime) (records : List Fact) : Prop :=
  ∀ a b, Current validTime records a → Current validTime records b → a.eav = b.eav → a = b

theorem noOverlap_of_windowKey
    (single : ∀ a ∈ records, ∀ b ∈ records, a.eavKey = b.eavKey → a.windowKey = b.windowKey) :
    NoOverlap validTime records := by
  rintro _ _ ⟨⟨a, inA, -, rfl, -⟩, -⟩ ⟨⟨b, inB, -, rfl, -⟩, -⟩ same
  exact single a inA b inB same

theorem mem_map_current : key ∈ ((netAssertedFacts records).filter fun fact =>
        validTime.admits fact.validFrom fact.validTo).map Fact.windowKey ↔
      Current validTime records key := by
  rw [Current, ← mem_map_netAssertedFacts]
  simp only [mem_map, mem_filter]
  constructor
  · rintro ⟨fact, ⟨kept, inside⟩, rfl⟩
    exact ⟨⟨fact, kept, rfl⟩, inside⟩
  · rintro ⟨⟨fact, kept, rfl⟩, inside⟩
    exact ⟨fact, ⟨kept, inside⟩, rfl⟩

theorem currentRelation_sublist (validTime : CurrentValidTime) (records : List Fact) :
    (currentRelation validTime records).Sublist records := by
  have filtered : ((netAssertedFacts records).filter fun fact =>
      validTime.admits fact.validFrom fact.validTo).Sublist records :=
    filter_sublist.trans ((netAssertedFacts_sublist records).trans filter_sublist)
  cases validTime with
  | any => exact filtered
  | atTime t => exact (newestBy_sublist _).trans filtered

theorem currentRelation_eq (apart : validTime = .any ∨ NoOverlap validTime records) :
    currentRelation validTime records = (netAssertedFacts records).filter fun fact =>
      validTime.admits fact.validFrom fact.validTo := by
  cases validTime with
  | any => rfl
  | atTime t =>
    have apart : NoOverlap (.atTime t) records := by simpa using apart
    apply newestBy_of_nodup
    refine List.Nodup.map_on ?_ ((nodup_netAssertedFacts records).of_map.filter _)
    intro a inA b inB same
    have keys : a.windowKey = b.windowKey :=
      apart _ _ (mem_map_current.mp (mem_map_of_mem inA))
        (mem_map_current.mp (mem_map_of_mem inB)) same
    exact inj_on_of_nodup_map (nodup_netAssertedFacts records)
      (mem_filter.mp inA).1 (mem_filter.mp inB).1 keys

end ViciaDb
