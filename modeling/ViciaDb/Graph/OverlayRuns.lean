import ViciaDb.Lib.SortedRuns
import ViciaDb.Query.ValueEncoding
import ViciaDb.Storage.BaseImage

namespace ViciaDb

open SortedRuns List Std
open SortedRuns (sort)

section Model

def noFact : Fact := ⟨0, "", .null, 0, 0, 0, 0, false⟩

def recordOf (records : List Fact) (id : Nat) : Fact := records.getD id noFact

def compareIds {κ : Type} (cmp : κ → κ → Ordering) (key : Fact → κ) (records : List Fact) :
    Nat → Nat → Ordering :=
  compareLex (fun a b => cmp (key (recordOf records a)) (key (recordOf records b))) (compareOn id)

def pendingVaetKey (fact : Fact) : VaetKey where
  refTarget := fact.refTarget.getD 0
  attr := fact.attr
  validFrom := fact.validFrom
  validTo := fact.validTo
  sourceEntity := fact.entity
  txCount := fact.txCount
  txId := fact.txId
  asserted := fact.asserted

structure PendingOverlay where
  records : List Fact
  duplicates : UInt64 → List Nat
  eavt : Levels Nat
  aevt : Levels Nat
  avet : Levels Nat
  vaet : Levels Nat

namespace PendingOverlay

variable (hash : EavtKey → UInt64)

def empty : PendingOverlay := ⟨[], fun _ => [], [], [], [], []⟩

def identityHash (fact : Fact) : UInt64 := hash (eavtKey fact)

def findDuplicate (overlay : PendingOverlay) (fact : Fact) : Option Nat :=
  (overlay.duplicates (identityHash hash fact)).find? fun id =>
    (recordOf overlay.records id).sameRecord fact

def insertFact (rejectDuplicates : Bool) (state : PendingOverlay × List Nat) (fact : Fact) :
    Except String (PendingOverlay × List Nat) :=
  let (overlay, inserted) := state
  if (overlay.findDuplicate hash fact).isSome && rejectDuplicates then .ok state
  else if overlay.records.length < 2 ^ 32 then
    .ok ({ overlay with
      records := overlay.records ++ [fact]
      duplicates := fun h => if h = identityHash hash fact then
        overlay.duplicates h ++ [overlay.records.length] else overlay.duplicates h },
      inserted ++ [overlay.records.length])
  else .error "pending overlay exceeds u32 fact identity space"

def insertIndexes (overlay : PendingOverlay) (inserted : List Nat) : PendingOverlay :=
  { overlay with
    eavt := insert (compareIds EavtKey.cmp eavtKey overlay.records) overlay.eavt inserted
    aevt := insert (compareIds AevtKey.cmp aevtKey overlay.records) overlay.aevt inserted
    avet := insert (compareIds AvetKey.cmp avetKey overlay.records) overlay.avet inserted
    vaet := insert (compareIds VaetKey.cmp pendingVaetKey overlay.records) overlay.vaet
      (inserted.filter fun id => (recordOf overlay.records id).refTarget.isSome) }

def insertBatch (overlay : PendingOverlay) (facts : List Fact) (rejectDuplicates : Bool) :
    Except String (Nat × PendingOverlay) := do
  let (overlay, inserted) ← facts.foldlM (insertFact hash rejectDuplicates) (overlay, [])
  return (inserted.length, overlay.insertIndexes inserted)

def run (batches : List (List Fact × Bool)) : Except String PendingOverlay :=
  batches.foldlM (fun overlay batch => do
    return (← overlay.insertBatch hash batch.1 batch.2).2) empty

variable {κ : Type} (cmp : κ → κ → Ordering) (key : Fact → κ) (records : List Fact) (levels : Levels Nat)

def rangePage (start : κ) (stop : Option κ) (maxEntries : Nat) : List Nat × Bool :=
  range (compareIds cmp key records) levels
    (fun id => (cmp (key (recordOf records id)) start).isLT)
    (fun id => stop.all fun stop => (cmp (key (recordOf records id)) stop).isLT) maxEntries

def rangeIds (start : κ) (stop : Option κ) : List Nat :=
  (rangePage cmp key records levels start stop usizeMax).1

def rangeBounded (name : String) (start : κ) (stop : Option κ) (maxEntries : Nat) :
    Except String (List Nat) :=
  let (entries, overflowed) := rangePage cmp key records levels start stop maxEntries
  if overflowed then .error s!"{name} history work exceeds {maxEntries} entries; use raw Datalog or maintenance context"
  else .ok entries

def ReadsRanges (among : Nat → Bool) : Prop :=
  ∀ start stop, ∃ found : List Nat, found.Nodup ∧
    found.Pairwise (fun a b => (cmp (key (recordOf records a)) (key (recordOf records b))).isLE = true) ∧
    (∀ id, id ∈ found ↔ id < records.length ∧ among id = true ∧
      (cmp start (key (recordOf records id))).isLE = true ∧
      ∀ last ∈ stop, cmp (key (recordOf records id)) last = .lt) ∧
    rangeIds cmp key records levels start stop = found ∧
    (∀ maxEntries, rangePage cmp key records levels start stop maxEntries =
      (found.take (maxEntries + 1), decide (maxEntries < found.length))) ∧
    ∀ name maxEntries, (∃ message, rangeBounded cmp key records levels name start stop maxEntries =
        .error message ∧ maxEntries < found.length) ∨
      rangeBounded cmp key records levels name start stop maxEntries = .ok found ∧
        found.length ≤ maxEntries

structure RangesExact (overlay : PendingOverlay) : Prop where
  eavt : ReadsRanges EavtKey.cmp eavtKey overlay.records overlay.eavt fun _ => true
  aevt : ReadsRanges AevtKey.cmp aevtKey overlay.records overlay.aevt fun _ => true
  vaet : ReadsRanges VaetKey.cmp pendingVaetKey overlay.records overlay.vaet fun id =>
    (recordOf overlay.records id).refTarget.isSome

end PendingOverlay

end Model

section Index

variable {κ : Type} {cmp : κ → κ → Ordering} [TransCmp cmp] {key : Fact → κ} {records : List Fact}
  {levels : Levels Nat} {among : Fact → Bool}

instance : TransCmp (compareIds cmp key records) := by
  have : TransCmp fun a b => cmp (key (recordOf records a)) (key (recordOf records b)) :=
    { eq_swap := OrientedCmp.eq_swap, isLE_trans := TransCmp.isLE_trans }
  unfold compareIds
  infer_instance

omit [TransCmp cmp] in
theorem compareIds_isLE {a b : Nat} (le : (compareIds cmp key records a b).isLE = true) :
    (cmp (key (recordOf records a)) (key (recordOf records b))).isLE = true :=
  (Ordering.isLE_then_iff_and.mp le).1

instance : LawfulEqCmp (compareIds cmp key records) where
  compare_self := ReflCmp.compare_self
  eq_of_compare same := Nat.compare_eq_eq.mp (compareLex_eq_eq.mp same).2

structure Indexed (cmp : κ → κ → Ordering) (key : Fact → κ) (among : Fact → Bool) (records : List Fact)
    (levels : Levels Nat) : Prop where
  sorted : AllSorted (compareIds cmp key records) levels
  ids : (items levels).Perm ((List.range records.length).filter fun id => among (recordOf records id))

theorem recordOf_append {id : Nat} (inside : id < records.length) (more : List Fact) :
    recordOf (records ++ more) id = recordOf records id := by
  rw [recordOf, recordOf, getD_eq_getElem?_getD, getD_eq_getElem?_getD, List.getElem?_append_left inside]

theorem Indexed.insert (indexed : Indexed cmp key among records levels) (more : List Fact) :
    Indexed cmp key among (records ++ more) (SortedRuns.insert (compareIds cmp key (records ++ more)) levels
      ((List.range' records.length more.length).filter fun id => among (recordOf (records ++ more) id))) := by
  have known : ∀ id ∈ items levels, id < records.length := fun id member =>
    mem_range.mp (mem_of_mem_filter (indexed.ids.mem_iff.mp member))
  have sorted : AllSorted (compareIds cmp key (records ++ more)) levels := by
    intro run member
    have below : ∀ id ∈ run, id < records.length := fun id inside =>
      known id (mem_flatten.mpr ⟨run, member, inside⟩)
    refine (indexed.sorted run member).imp_of_mem fun {a b} inA inB le => ?_
    rw [compareIds, compareLex, recordOf_append (below a inA), recordOf_append (below b inB)]
    exact le
  obtain ⟨sorted', perm⟩ := insert_spec sorted
    ((List.range' records.length more.length).filter fun id => among (recordOf (records ++ more) id))
  refine ⟨sorted', perm.trans ?_⟩
  have range : List.range (records ++ more).length =
      List.range records.length ++ List.range' records.length more.length := by
    have joined := @List.range'_append_1 0 records.length more.length
    rw [Nat.zero_add] at joined
    rw [range_eq_range', range_eq_range', length_append, joined]
  rw [range, filter_append]
  refine (indexed.ids.trans (.of_eq ?_)).append_right _
  exact filter_congr fun id member => by rw [recordOf_append (mem_range.mp member)]

theorem Indexed.readsRanges (indexed : Indexed cmp key among records levels) (few : records.length ≤ 2 ^ 32) :
    PendingOverlay.ReadsRanges cmp key records levels fun id => among (recordOf records id) := by
  intro start stop
  let inside : Nat → Bool := fun id => !(cmp (key (recordOf records id)) start).isLT &&
    stop.all fun stop => (cmp (key (recordOf records id)) stop).isLT
  have closed (bound : κ) : Closed (compareIds cmp key records)
      fun id => (cmp (key (recordOf records id)) bound).isLT := fun a b le less =>
    Ordering.isLT_iff_eq_lt.mpr
      (TransCmp.lt_of_isLE_of_lt (compareIds_isLE le) (Ordering.isLT_iff_eq_lt.mp less))
  have upper : Closed (compareIds cmp key records)
      fun id => stop.all fun stop => (cmp (key (recordOf records id)) stop).isLT := by
    intro a b le less
    cases stop with
    | none => rfl
    | some last => exact closed last a b le less
  have page (maxEntries : Nat) : PendingOverlay.rangePage cmp key records levels start stop maxEntries =
      bounded maxEntries (sort (compareIds cmp key records) ((items levels).filter inside)) :=
    range_eq indexed.sorted (closed start) upper maxEntries
  have sorting : (sort (compareIds cmp key records) ((items levels).filter inside)).Perm _ :=
    mergeSort_perm _ _
  have mem (id : Nat) : id ∈ sort (compareIds cmp key records) ((items levels).filter inside) ↔
      (id < records.length ∧ among (recordOf records id) = true) ∧ inside id = true := by
    rw [sorting.mem_iff, mem_filter, indexed.ids.mem_iff, mem_filter, mem_range]
  have short : (sort (compareIds cmp key records) ((items levels).filter inside)).length ≤ usizeMax := by
    have part := length_filter_le inside (items levels)
    have all := length_filter_le (fun id => among (recordOf records id)) (List.range records.length)
    rw [sorting.length_eq]
    rw [indexed.ids.length_eq] at part
    rw [length_range] at all
    simp only [usizeMax]
    omega
  refine ⟨sort (compareIds cmp key records) ((items levels).filter inside), ?_, ?_, ?_, ?_, page, ?_⟩
  · refine sorting.nodup_iff.mpr (List.Nodup.filter _ ?_)
    exact indexed.ids.nodup_iff.mpr (List.Nodup.filter _ nodup_range)
  · exact (pairwise_mergeSort (fun _ _ _ => TransCmp.isLE_trans) isLE_or _).imp compareIds_isLE
  · intro id
    have swap : cmp start (key (recordOf records id)) = (cmp (key (recordOf records id)) start).swap :=
      OrientedCmp.eq_swap
    rw [mem, swap, and_assoc]
    refine and_congr_right fun _ => and_congr_right fun _ => ?_
    rw [Bool.and_eq_true]
    refine and_congr ?_ ?_
    · cases cmp (key (recordOf records id)) start <;> decide
    · cases stop <;> simp [Ordering.isLT_iff_eq_lt]
  · rw [PendingOverlay.rangeIds, page usizeMax]
    exact take_of_length_le (Nat.le_succ_of_le short)
  · intro name maxEntries
    simp only [PendingOverlay.rangeBounded, page maxEntries, bounded]
    by_cases exceeds : maxEntries <
        (sort (compareIds cmp key records) ((items levels).filter inside)).length
    · left
      exact ⟨_, if_pos (decide_eq_true exceeds), exceeds⟩
    · right
      refine ⟨(if_neg (by simpa using exceeds)).trans ?_, Nat.not_lt.mp exceeds⟩
      rw [take_of_length_le (by omega)]

end Index

section Duplicates

variable {hash : EavtKey → UInt64}

def Fact.SameFact (f g : Fact) : Prop := { g with value := f.value } = f ∧ SameValue f.value g.value

def Fact.Collides (f g : Fact) : Prop :=
  { g with value := f.value } = f ∧ (f.value.isNan = true ∧ g.value = .float nanTwin ∨
    f.value = .float nanTwin ∧ g.value.isNan = true)

variable {overlay after : PendingOverlay} {inserted : List Nat} {reject : Bool}

theorem encodeValue_eq_iff (a b : Value) : encodeValue a = encodeValue b ↔
    SameValue a b ∨ (a.isNan = true ∧ b = .float nanTwin ∨ a = .float nanTwin ∧ b.isNan = true) := by
  constructor
  · intro same
    by_cases nan : a.isNan = true
    · by_cases nan' : b.isNan = true
      · exact .inl (.inr ⟨nan, nan'⟩)
      · by_cases twin : b = .float nanTwin
        · exact .inr (.inl ⟨nan, twin⟩)
        · have apart := (encodeValue_tells_apart_iff b).mpr ⟨Bool.eq_false_iff.mpr nan', twin⟩ a same.symm
          exact absurd (apart.elim (fun eq => eq ▸ nan) And.left) nan'
    · by_cases twin : a = .float nanTwin
      · by_cases nan' : b.isNan = true
        · exact .inr (.inr ⟨twin, nan'⟩)
        · exact .inl (.inl (encodeValue_inj_of_number (Bool.eq_false_iff.mpr nan)
            (Bool.eq_false_iff.mpr nan') same))
      · exact .inl ((encodeValue_tells_apart_iff a).mpr ⟨Bool.eq_false_iff.mpr nan, twin⟩ b same)
  · rintro ((rfl | ⟨nan, nan'⟩) | ⟨nan, rfl⟩ | ⟨rfl, nan⟩)
    · rfl
    · rw [encodeValue_nan nan, encodeValue_nan nan']
    · exact encodeValue_nan nan
    · exact (encodeValue_nan nan).symm

theorem sameRecord_iff (f g : Fact) : f.sameRecord g = true ↔ f.SameFact g ∨ f.Collides g := by
  rw [Fact.SameFact, Fact.Collides, ← and_or_left, ← encodeValue_eq_iff]
  obtain ⟨entity, attr, value, txId, txCount, validFrom, validTo, asserted⟩ := f
  simp only [Fact.sameRecord, Bool.and_eq_true, decide_eq_true_eq, Fact.mk.injEq, true_and]
  constructor
  · rintro ⟨⟨⟨⟨⟨⟨⟨rfl, rfl⟩, same⟩, rfl⟩, rfl⟩, rfl⟩, rfl⟩, rfl⟩
    exact ⟨⟨rfl, rfl, rfl, rfl, rfl, rfl, rfl⟩, same⟩
  · rintro ⟨⟨rfl, rfl, rfl, rfl, rfl, rfl, rfl⟩, same⟩
    exact ⟨⟨⟨⟨⟨⟨⟨rfl, rfl⟩, same⟩, rfl⟩, rfl⟩, rfl⟩, rfl⟩, rfl⟩

theorem eavtKey_of_sameRecord {f g : Fact} (same : f.sameRecord g = true) : eavtKey f = eavtKey g := by
  simp only [Fact.sameRecord, Bool.and_eq_true, decide_eq_true_eq] at same
  simp only [eavtKey, EavtKey.mk.injEq]
  grind

def Buckets (hash : EavtKey → UInt64) (overlay : PendingOverlay) : Prop :=
  ∀ h id, id ∈ overlay.duplicates h ↔
    id < overlay.records.length ∧ PendingOverlay.identityHash hash (recordOf overlay.records id) = h

theorem Buckets.findDuplicate_isSome (buckets : Buckets hash overlay) (fact : Fact) :
    (overlay.findDuplicate hash fact).isSome = true ↔ ∃ f ∈ overlay.records, f.sameRecord fact = true := by
  rw [PendingOverlay.findDuplicate, List.find?_isSome]
  constructor
  · rintro ⟨id, filed, same⟩
    obtain ⟨inside, -⟩ := (buckets _ id).mp filed
    rw [recordOf, getD_eq_getElem?_getD, List.getElem?_eq_getElem inside] at same
    exact ⟨_, getElem_mem inside, same⟩
  · rintro ⟨f, member, same⟩
    obtain ⟨id, inside, rfl⟩ := getElem_of_mem member
    have isRecord : recordOf overlay.records id = overlay.records[id] := by
      rw [recordOf, getD_eq_getElem?_getD, List.getElem?_eq_getElem inside, Option.getD_some]
    refine ⟨id, (buckets _ id).mpr ⟨inside, ?_⟩, by rw [isRecord]; exact same⟩
    rw [isRecord, PendingOverlay.identityHash, PendingOverlay.identityHash, eavtKey_of_sameRecord same]

structure Recorded (hash : EavtKey → UInt64) (before after : PendingOverlay) (inserted : List Nat)
    (more : List Fact) : Prop where
  overlay : after = { before with records := before.records ++ more, duplicates := after.duplicates }
  ids : inserted = List.range' before.records.length more.length
  buckets : Buckets hash after
  few : after.records.length ≤ 2 ^ 32

theorem Recorded.insertFact {before : PendingOverlay} {inserted' : List Nat}
    {more : List Fact} (recorded : Recorded hash before overlay inserted more) {fact : Fact}
    (ok : PendingOverlay.insertFact hash reject (overlay, inserted) fact = .ok (after, inserted')) :
    ∃ more', Recorded hash before after inserted' more' := by
  unfold PendingOverlay.insertFact at ok
  dsimp only at ok
  split at ok
  · cases ok
    exact ⟨more, recorded⟩
  split at ok
  swap
  · cases ok
  rename_i room
  cases ok
  have records : overlay.records = before.records ++ more := by rw [recorded.overlay]
  refine ⟨more ++ [fact], ⟨?_, ?_, ?_, ?_⟩⟩
  · rw [← append_assoc, ← records, recorded.overlay]
  · rw [recorded.ids, records, length_append, length_append, length_singleton, List.range'_1_concat]
  · intro h id
    have old := recorded.buckets h id
    rw [length_append, length_singleton]
    by_cases isNew : id = overlay.records.length
    · have here : recordOf (overlay.records ++ [fact]) overlay.records.length = fact := by
        simp [recordOf]
      subst isNew
      rw [here]
      dsimp only
      split
      · rename_i same
        simp [same]
      · rename_i other
        rw [old]
        simp [Ne.symm other]
    · have filed : (id ∈ if h = PendingOverlay.identityHash hash fact then
          overlay.duplicates h ++ [overlay.records.length] else overlay.duplicates h) ↔
          id ∈ overlay.duplicates h := by
        split <;> simp [isNew]
      rw [filed, old]
      by_cases inside : id < overlay.records.length
      · rw [recordOf_append inside]
        simp [inside, Nat.lt_succ_of_lt inside]
      · exact iff_of_false (fun both => inside both.1) (fun both => by omega)
  · rw [length_append, length_singleton]
    omega

theorem Recorded.foldlM {before : PendingOverlay} {inserted' : List Nat} {more : List Fact}
    (recorded : Recorded hash before overlay inserted more) (facts : List Fact)
    (ok : facts.foldlM (PendingOverlay.insertFact hash reject) (overlay, inserted) = .ok (after, inserted')) :
    ∃ more', Recorded hash before after inserted' more' := by
  induction facts generalizing overlay inserted more with
  | nil =>
    cases ok
    exact ⟨more, recorded⟩
  | cons fact facts ih =>
    rw [foldlM_cons] at ok
    obtain ⟨⟨overlay', ids⟩, first, rest⟩ := Except.bind_eq_ok_iff.mp ok
    obtain ⟨more', recorded'⟩ := recorded.insertFact first
    exact ih recorded' rest

structure Settled (hash : EavtKey → UInt64) (overlay : PendingOverlay) : Prop where
  eavt : Indexed EavtKey.cmp eavtKey (fun _ => true) overlay.records overlay.eavt
  aevt : Indexed AevtKey.cmp aevtKey (fun _ => true) overlay.records overlay.aevt
  vaet : Indexed VaetKey.cmp pendingVaetKey (fun fact => fact.refTarget.isSome) overlay.records
    overlay.vaet
  buckets : Buckets hash overlay
  few : overlay.records.length ≤ 2 ^ 32

theorem Settled.start (settled : Settled hash overlay) : Recorded hash overlay overlay [] [] :=
  ⟨by rw [append_nil], rfl, settled.buckets, settled.few⟩

theorem Settled.insertBatch {count : Nat} (settled : Settled hash overlay) {facts : List Fact}
    (ok : overlay.insertBatch hash facts reject = .ok (count, after)) : Settled hash after := by
  obtain ⟨⟨now, inserted⟩, folded, done⟩ := Except.bind_eq_ok_iff.mp ok
  obtain ⟨more, recorded⟩ := settled.start.foldlM facts folded
  cases done
  have records : now.records = overlay.records ++ more := by rw [recorded.overlay]
  have eavt : now.eavt = overlay.eavt := by rw [recorded.overlay]
  have aevt : now.aevt = overlay.aevt := by rw [recorded.overlay]
  have vaet : now.vaet = overlay.vaet := by rw [recorded.overlay]
  have all : (List.range' overlay.records.length more.length).filter (fun _ => true) = inserted := by
    rw [recorded.ids, filter_true]
  refine ⟨?_, ?_, ?_, recorded.buckets, recorded.few⟩
  · have indexed := settled.eavt.insert more
    rw [all, ← records, ← eavt] at indexed
    exact indexed
  · have indexed := settled.aevt.insert more
    rw [all, ← records, ← aevt] at indexed
    exact indexed
  · have indexed := settled.vaet.insert more
    rw [← recorded.ids, ← records, ← vaet] at indexed
    exact indexed

theorem settled_empty : Settled hash .empty := by
  refine ⟨⟨?_, .refl _⟩, ⟨?_, .refl _⟩, ⟨?_, .refl _⟩, ?_, by decide⟩
  · exact fun run member => by cases member
  · exact fun run member => by cases member
  · exact fun run member => by cases member
  · exact fun h id => by simp [PendingOverlay.empty]

theorem Settled.foldlM (settled : Settled hash overlay) (batches : List (List Fact × Bool))
    (ok : batches.foldlM (fun overlay batch => do
      return (← overlay.insertBatch hash batch.1 batch.2).2) overlay = .ok after) : Settled hash after := by
  induction batches generalizing overlay with
  | nil =>
    cases ok
    exact settled
  | cons batch batches ih =>
    rw [foldlM_cons] at ok
    obtain ⟨next, first, rest⟩ := Except.bind_eq_ok_iff.mp ok
    obtain ⟨⟨count, done⟩, inserted, same⟩ := Except.bind_eq_ok_iff.mp first
    cases same
    exact ih (settled.insertBatch inserted) rest

theorem insertFact_eq_self_iff {fact : Fact} :
    PendingOverlay.insertFact hash true (overlay, inserted) fact = .ok (overlay, inserted) ↔
      (overlay.findDuplicate hash fact).isSome = true := by
  unfold PendingOverlay.insertFact
  dsimp only
  rw [Bool.and_true]
  split
  · rename_i known
    exact iff_of_true rfl known
  rename_i unknown
  refine iff_of_false (fun same => ?_) unknown
  split at same
  · have lengths := congrArg (fun state => state.2.length) (Except.ok.inj same)
    rw [length_append, length_singleton] at lengths
    exact absurd lengths (Nat.succ_ne_self _)
  · cases same

/-- The ranges hold whatever was inserted, and a fact is skipped exactly for an equal record, a NaN and
    its twin apart. -/
theorem overlay_exact_iff (hash : EavtKey → UInt64) (batches : List (List Fact × Bool))
    (overlay : PendingOverlay) (ran : PendingOverlay.run hash batches = .ok overlay) :
    overlay.RangesExact ∧
    ∀ (facts : List Fact) (reject : Bool) (now : PendingOverlay) (inserted : List Nat),
      facts.foldlM (PendingOverlay.insertFact hash reject) (overlay, []) = .ok (now, inserted) →
      ∀ fact, ((PendingOverlay.insertFact hash true (now, inserted) fact = .ok (now, inserted) ↔
          ∃ f ∈ now.records, f.SameFact fact) ↔
        ((∃ f ∈ now.records, f.Collides fact) → ∃ f ∈ now.records, f.SameFact fact)) := by
  have settled := settled_empty.foldlM batches ran
  refine ⟨⟨settled.eavt.readsRanges settled.few, settled.aevt.readsRanges settled.few,
    settled.vaet.readsRanges settled.few⟩, fun facts reject now inserted folded fact => ?_⟩
  obtain ⟨more, recorded⟩ := settled.start.foldlM facts folded
  have split : (∃ f ∈ now.records, f.sameRecord fact = true) ↔
      (∃ f ∈ now.records, f.SameFact fact) ∨ ∃ f ∈ now.records, f.Collides fact := by
    simp only [sameRecord_iff, and_or_left, exists_or]
  rw [insertFact_eq_self_iff, recorded.buckets.findDuplicate_isSome fact, split]
  constructor
  · intro exact' collides
    exact exact'.mp (.inr collides)
  · intro implies
    exact ⟨fun either => either.elim id implies, .inl⟩

def twinAgeFact : Fact := ⟨1, ":age", .float nanTwin, 1, 1, 0, 0, true⟩

def nanAgeFact : Fact := ⟨1, ":age", .float ⟨0x7FF8000000000000⟩, 1, 1, 0, 0, true⟩

theorem exists_twinOverlay (hash : EavtKey → UInt64) : ∃ overlay,
    PendingOverlay.run hash [([twinAgeFact], true)] = .ok overlay ∧ overlay.records = [twinAgeFact] :=
  ⟨_, rfl, rfl⟩

theorem overlay_exact_iff_twin : ∃ overlay,
    PendingOverlay.run (fun _ => 0) [([twinAgeFact], true)] = .ok overlay ∧ overlay.RangesExact ∧
    PendingOverlay.insertFact (fun _ => 0) true (overlay, []) twinAgeFact = .ok (overlay, []) := by
  obtain ⟨overlay, ran, records⟩ := exists_twinOverlay fun _ => 0
  obtain ⟨ranges, skips⟩ := overlay_exact_iff (fun _ => 0) [([twinAgeFact], true)] overlay ran
  have same : ∃ f ∈ overlay.records, f.SameFact twinAgeFact :=
    ⟨twinAgeFact, by rw [records]; exact mem_singleton_self _, rfl, .inl rfl⟩
  exact ⟨overlay, ran, ranges, ((skips [] true overlay [] rfl twinAgeFact).mpr fun _ => same).mpr same⟩

/-- A NaN is lost when the number that shares its encoding is there. -/
theorem nan_skipped_after_twin : ∃ overlay,
    PendingOverlay.run (fun _ => 0) [([twinAgeFact], true)] = .ok overlay ∧
    PendingOverlay.insertFact (fun _ => 0) true (overlay, []) nanAgeFact = .ok (overlay, []) ∧
    ¬ ∃ f ∈ overlay.records, f.SameFact nanAgeFact := by
  obtain ⟨overlay, ran, records⟩ := exists_twinOverlay fun _ => 0
  refine ⟨overlay, ran, insertFact_eq_self_iff.mpr ?_, ?_⟩
  · refine ((settled_empty.foldlM _ ran).buckets.findDuplicate_isSome _).mpr ⟨twinAgeFact, ?_, by decide⟩
    rw [records]
    exact mem_singleton_self _
  rintro ⟨f, member, -, same⟩
  rw [records] at member
  rw [mem_singleton.mp member] at same
  rcases same with same | ⟨nan, -⟩
  · exact absurd same (by decide)
  · exact absurd nan (by decide)

end Duplicates

end ViciaDb
