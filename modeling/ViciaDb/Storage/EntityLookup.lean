import ViciaDb.Graph.FactLog
import ViciaDb.Storage.PersistentFacts

namespace ViciaDb

open BTree Visitor List
open BitVec (allOnes)

section Model

def entityBound (entity : EntityId) : EavtKey :=
  ⟨entity, "", Int64.minValue, Int64.minValue, 0, [], 0, false⟩

structure CommittedFactReader where
  resolve : FactRef → Except String Fact
  streamAll : Except String (List Fact)

structure FactData where
  pending : List Fact
  committed : Option CommittedFactReader
  committedIndexReader : Option LayeredIndexReader

namespace LayeredIndexReader

variable {σ : Type} (reader : LayeredIndexReader) (fuel : Nat) (start : EavtKey) (stop : Option EavtKey)

def publishedScanEavt : Except String (List FactRef) :=
  if reader.segments.isEmpty then rangeScan eavt fuel reader.pages reader.roots.eavt start stop
  else reader.rangeScanEavt fuel start stop

def publishedVisitEavt (visit : σ → EavtKey × FactRef → Except String (Bool × σ)) (s : σ) :
    Except String (Bool × σ) :=
  if reader.segments.isEmpty then
    visitCurrentEavtRange fuel reader.pages reader.roots.eavt start stop visit s
  else reader.visitCurrentEavtEntries fuel start stop visit s

end LayeredIndexReader

def sortRefs (refs : List FactRef) : List FactRef :=
  refs.insertionSort fun a b => (FactRef.cmp a b).isLE

def pushBoundedQueryFact (maxFacts : Nat) (facts : List Fact) (fact : Fact) :
    Except String (List Fact) :=
  if maxFacts ≤ facts.length then .error (sourceWorkExceeded maxFacts) else .ok (facts ++ [fact])

namespace FactData

variable (data : FactData) (fuel : Nat) (entity : EntityId)

def resolveFactRef (ref : FactRef) : Except String Fact :=
  if ref.pageId = 0 then .error "pending facts must use PendingFactId, not on-disk FactRef"
  else match data.committed with
    | some reader => reader.resolve ref
    | none => .error s!"no CommittedFactReader but got committed FactRef (page_id={ref.pageId})"

def getFactsByEntity : Except String (List Fact) :=
  if data.pending.isEmpty && data.committedIndexReader.isNone then
    let facts := data.pending.filter fun fact => fact.entity == entity
    match data.committed with
    | none => .ok facts
    | some reader => do
      return facts ++ (← reader.streamAll).filter fun fact => fact.entity == entity
  else
    let facts := rangeEavt entity data.pending
    match data.committedIndexReader with
    | none => .ok facts
    | some reader => do
      let refs ← reader.publishedScanEavt fuel (entityBound entity) (some (entityBound (entity + 1)))
      return facts ++ (← (sortRefs refs).mapM data.resolveFactRef)

/-- The references count against the limit as they are visited, before any is resolved. -/
def getFactsByEntityBounded (maxFacts : Nat) : Except String (List Fact) := do
  let facts ← (rangeEavt entity data.pending).foldlM (pushBoundedQueryFact maxFacts) []
  match data.committedIndexReader with
  | some reader =>
    let (_, refs) ← reader.publishedVisitEavt fuel (entityBound entity)
      (some (entityBound (entity + 1)))
      (fun refs entry => if maxFacts ≤ facts.length + refs.length then
        .error (sourceWorkExceeded maxFacts) else .ok (true, refs ++ [entry.2])) []
    (sortRefs refs).foldlM (fun facts ref => do
      pushBoundedQueryFact maxFacts facts (← data.resolveFactRef ref)) facts
  | none =>
    match data.committed with
    | none => return facts
    | some reader =>
      (← reader.streamAll).foldlM (fun facts fact => if fact.entity == entity then
        pushBoundedQueryFact maxFacts facts fact else .ok facts) facts

structure Holds (rows : List (FactRef × Fact)) : Prop where
  placed : ∀ row ∈ rows, row.1.pageId ≠ 0
  resolves : ∀ row ∈ rows, ∃ reader, data.committed = some reader ∧ reader.resolve row.1 = .ok row.2
  streams : ∀ reader, data.committed = some reader → reader.streamAll = .ok (rows.map Prod.snd)
  indexed : ∀ reader, data.committedIndexReader = some reader →
    (reader.base.eavt ++ (reader.segments.map IndexContents.eavt).flatten).Perm
      (rows.map fun row => (eavtKey row.2, row.1))
  unindexed : data.committedIndexReader = none → rows = []

def factsOf (rows : List (FactRef × Fact)) : List Fact :=
  (data.pending ++ rows.map Prod.snd).filter fun fact => fact.entity == entity

structure LooksUp (rows : List (FactRef × Fact)) : Prop where
  all : ∃ facts, data.getFactsByEntity fuel entity = .ok facts ∧ facts.Perm (data.factsOf entity rows)
  bounded : ∀ maxFacts,
    if maxFacts < (data.factsOf entity rows).length then
      data.getFactsByEntityBounded fuel entity maxFacts = .error (sourceWorkExceeded maxFacts)
    else ∃ facts, data.getFactsByEntityBounded fuel entity maxFacts = .ok facts ∧
      facts.Perm (data.factsOf entity rows)

end FactData

end Model

section Bounds

theorem isLE_compare_entity (a b : EntityId) : (compare a b).isLE = true ↔ a ≤ b := by
  show (compareOfLessAndEq a b).isLE = true ↔ a ≤ b
  unfold compareOfLessAndEq
  split
  · rename_i less
    exact iff_of_true rfl (BitVec.le_of_lt less)
  split
  · rename_i same
    exact iff_of_true rfl (BitVec.le_of_eq same)
  · rename_i notLess different
    refine iff_of_false (by decide) fun le => ?_
    bv_omega

theorem isLE_entityBound (entity : EntityId) (key : EavtKey) :
    (EavtKey.cmp (entityBound entity) key).isLE = decide (entity ≤ key.entity) := by
  have text : (compare (utf8Bytes (entityBound entity).attr) (utf8Bytes key.attr)).isLE = true := by
    show (compare [] (utf8Bytes key.attr)).isLE = true
    cases utf8Bytes key.attr <;> rfl
  have value : (compare (entityBound entity).valueBytes key.valueBytes).isLE = true := by
    show (compare [] key.valueBytes).isLE = true
    cases key.valueBytes <;> rfl
  have flag : (compare (entityBound entity).asserted key.asserted).isLE = true := by
    cases key.asserted <;> rfl
  have least (n : UInt64) : (compare 0 n).isLE = true := Std.isLE_compare.mpr UInt64.zero_le
  have earliest (t : Int64) : (compare Int64.minValue t).isLE = true :=
    Std.isLE_compare.mpr (Int64.minValue_le t)
  rw [Bool.eq_iff_iff, decide_eq_true_eq, ← isLE_compare_entity]
  simp only [EavtKey.cmp, compareLex, compareOn, Ordering.isLE_then_iff_and, text, value, flag,
    true_and, or_true, and_true]
  simp [entityBound, least, earliest]

theorem isLT_entityBound (entity : EntityId) (key : EavtKey) :
    (EavtKey.cmp key (entityBound entity)).isLT = decide (key.entity < entity) := by
  have swap : EavtKey.cmp key (entityBound entity) = (EavtKey.cmp (entityBound entity) key).swap :=
    Std.OrientedCmp.eq_swap
  rw [swap, Ordering.isLT_swap, ← Ordering.not_isLE_eq_isGT, isLE_entityBound, ← decide_not]
  exact decide_eq_decide.mpr (BitVec.not_le)

theorem inRange_entityBound (entity : EntityId) (fact : Fact) (ref : FactRef) :
    inRange eavt (entityBound entity) (some (entityBound (entity + 1))) (eavtKey fact, ref) =
      inEntityRange entity fact := by
  have lower := isLE_entityBound entity (eavtKey fact)
  have upper := isLT_entityBound (entity + 1) (eavtKey fact)
  exact congrArg₂ and lower upper

end Bounds

section Lookups

variable {data : FactData} {rows : List (FactRef × Fact)} {fuel : Nat} {entity : EntityId}
  {reader : LayeredIndexReader}

theorem published_spec (enough : reader.reach ≤ fuel) {start stop : EavtKey}
    (fits : reader.segments = [] ∨ (eavt.cmp start stop).isLE = true) :
    ∃ entries : List (EavtKey × FactRef),
      entries.Perm ((reader.base.eavt ++ (reader.segments.map IndexContents.eavt).flatten).filter
        (inRange eavt start (some stop))) ∧
      reader.publishedScanEavt fuel start (some stop) = .ok (entries.map Prod.snd) ∧
      ∀ (σ : Type) (visit : σ → EavtKey × FactRef → Except String (Bool × σ)) (s : σ),
        reader.publishedVisitEavt fuel start (some stop) visit s = visitList visit s entries := by
  have sorted := reader.inEavt.increasing.sortedFor start
  by_cases empty : reader.segments = []
  · refine ⟨reader.base.eavt.filter (inRange eavt start (some stop)), ?_, ?_, fun σ visit s => ?_⟩
    · simp [empty]
    · rw [LayeredIndexReader.publishedScanEavt, if_pos (by simp [empty]), rangeScan,
        rangeScanEntries_of_holds reader.holds.eavt sorted _ fuel enough]
      rfl
    · rw [LayeredIndexReader.publishedVisitEavt, if_pos (by simp [empty])]
      exact visitCurrentRange_of_holds _ reader.holds.eavt sorted _ _ enough visit s
  · have ordered : KeyRange.Ordered eavt ⟨start, some stop⟩ := by
      intro last member
      cases member
      exact fits.resolve_left empty
    refine ⟨reader.mergedEavt ⟨start, some stop⟩, mergeSort_perm _ _, ?_, fun σ visit s => ?_⟩
    · rw [LayeredIndexReader.publishedScanEavt, if_neg (by simpa using empty)]
      exact layeredRangeScan_eq reader.inEavt ordered reader.holds.eavt enough
    · rw [LayeredIndexReader.publishedVisitEavt, if_neg (by simpa using empty)]
      exact reader.visitCurrentEavtEntries_eq enough ordered visit s

theorem foldlM_pushBounded {maxFacts : Nat} {facts : List Fact} (within : facts.length ≤ maxFacts)
    (more : List Fact) :
    more.foldlM (pushBoundedQueryFact maxFacts) facts =
      if maxFacts < facts.length + more.length then .error (sourceWorkExceeded maxFacts)
      else .ok (facts ++ more) := by
  induction more generalizing facts with
  | nil => simp [Nat.not_lt.mpr within, pure, Except.pure]
  | cons fact more ih =>
    rw [foldlM_cons, pushBoundedQueryFact]
    by_cases full : maxFacts ≤ facts.length
    · rw [if_pos full, if_pos (by rw [length_cons]; omega)]
      rfl
    · rw [if_neg full]
      refine (ih (by simp; omega)).trans ?_
      simp [Nat.add_assoc, Nat.add_comm 1]

variable {refs : List FactRef}

theorem foldlM_resolve {resolve : FactRef → Except String Fact} {maxFacts : Nat} {more : List Fact}
    (resolves : List.Forall₂ (fun ref fact => resolve ref = .ok fact) refs more) (facts : List Fact) :
    refs.foldlM (fun facts ref => do pushBoundedQueryFact maxFacts facts (← resolve ref)) facts =
      more.foldlM (pushBoundedQueryFact maxFacts) facts := by
  induction resolves generalizing facts with
  | nil => rfl
  | cons found _ ih =>
    rw [foldlM_cons, foldlM_cons, found]
    exact bind_congr fun facts => ih facts

theorem visitList_refs {maxFacts held : Nat} (within : held + refs.length ≤ maxFacts)
    (entries : List (EavtKey × FactRef)) :
    visitList (fun refs entry => if maxFacts ≤ held + refs.length then
        .error (sourceWorkExceeded maxFacts) else .ok (true, refs ++ [entry.2])) refs entries =
      if maxFacts < held + refs.length + entries.length then .error (sourceWorkExceeded maxFacts)
      else .ok (true, refs ++ entries.map Prod.snd) := by
  induction entries generalizing refs with
  | nil => simp [Nat.not_lt.mpr within]
  | cons entry entries ih =>
    rw [visitList]
    by_cases full : maxFacts ≤ held + refs.length
    · rw [if_pos full, if_pos (by rw [length_cons]; omega)]
      rfl
    · rw [if_neg full]
      refine (ih (by simp; omega)).trans ?_
      simp [Nat.add_assoc, Nat.add_comm 1]

theorem FactData.Holds.entries {entries : List (EavtKey × FactRef)} (holds : data.Holds rows)
    (indexed : data.committedIndexReader = some reader)
    (perm : entries.Perm ((reader.base.eavt ++ (reader.segments.map IndexContents.eavt).flatten).filter
      (inRange eavt (entityBound entity) (some (entityBound (entity + 1)))))) :
    (entries.map Prod.snd).Perm ((rows.filter fun row => inEntityRange entity row.2).map Prod.fst) := by
  have same := (holds.indexed reader indexed).filter
    (inRange eavt (entityBound entity) (some (entityBound (entity + 1))))
  have inside : (inRange eavt (entityBound entity) (some (entityBound (entity + 1)))) ∘
      (fun row : FactRef × Fact => (eavtKey row.2, row.1)) = fun row => inEntityRange entity row.2 :=
    funext fun row => inRange_entityBound entity row.2 row.1
  rw [filter_map, inside] at same
  refine ((perm.trans same).map Prod.snd).trans (.of_eq ?_)
  rw [map_map]
  rfl

theorem FactData.Holds.resolve_rows (holds : data.Holds rows)
    {part : List (FactRef × Fact)} (among : ∀ row ∈ part, row ∈ rows) (perm : refs.Perm (part.map Prod.fst)) :
    ∃ facts, List.Forall₂ (fun ref fact => data.resolveFactRef ref = .ok fact) refs facts ∧
      facts.Perm (part.map Prod.snd) := by
  have each : List.Forall₂ (fun ref fact => data.resolveFactRef ref = .ok fact) (part.map Prod.fst)
      (part.map Prod.snd) := by
    rw [forall₂_map_left_iff, forall₂_map_right_iff, forall₂_same]
    intro row member
    obtain ⟨loader, committed, found⟩ := holds.resolves row (among row member)
    rw [FactData.resolveFactRef, if_neg (holds.placed row (among row member)), committed]
    exact found
  exact perm_comp_forall₂ perm each

def FactData.FindsRange (data : FactData) (fuel : Nat) (entity : EntityId) (rows : List (FactRef × Fact)) :
    Prop :=
  ∃ facts, data.getFactsByEntity fuel entity = .ok facts ∧
    facts.Perm ((data.pending ++ rows.map Prod.snd).filter (inEntityRange entity)) ∧
    ∀ maxFacts, data.getFactsByEntityBounded fuel entity maxFacts =
      if maxFacts < facts.length then .error (sourceWorkExceeded maxFacts) else .ok facts

theorem findsRange_unindexed (holds : data.Holds rows) (indexed : data.committedIndexReader = none) :
    data.FindsRange fuel entity rows := by
  have pushed (maxFacts : Nat) := @foldlM_pushBounded maxFacts [] (Nat.zero_le _) (rangeEavt entity data.pending)
  have waiting : (rangeEavt entity data.pending).Perm (data.pending.filter (inEntityRange entity)) :=
    indexRange_perm _ _ _
  have rowless := holds.unindexed indexed
  subst rowless
  refine ⟨rangeEavt entity data.pending, ?_, by simpa using waiting, fun maxFacts => ?_⟩
  · rw [FactData.getFactsByEntity, indexed]
    by_cases empty : data.pending = []
    · cases committed : data.committed with
      | none => simp [empty, rangeEavt, indexRange]
      | some loader =>
        simp [empty, rangeEavt, indexRange, holds.streams loader committed, bind, Except.bind,
          pure, Except.pure]
    · simp [empty]
  · rw [FactData.getFactsByEntityBounded, pushed, indexed]
    simp only [length_nil, Nat.zero_add, nil_append]
    split
    · rfl
    · cases committed : data.committed with
      | none => rfl
      | some loader =>
        simp only [bind, Except.bind, holds.streams loader committed]
        rfl

theorem findsRange_indexed (holds : data.Holds rows) (indexed : data.committedIndexReader = some reader)
    (enough : reader.reach ≤ fuel) (ordered : reader.segments = [] ∨
      (eavt.cmp (entityBound entity) (entityBound (entity + 1))).isLE = true) :
    data.FindsRange fuel entity rows := by
  have waiting : (rangeEavt entity data.pending).Perm (data.pending.filter (inEntityRange entity)) :=
    indexRange_perm _ _ _
  obtain ⟨entries, perm, scanned, visited⟩ := published_spec enough ordered
  have sorted : (sortRefs (entries.map Prod.snd)).Perm (entries.map Prod.snd) :=
    perm_insertionSort _ _
  obtain ⟨facts, resolved, found⟩ := holds.resolve_rows (fun row => mem_of_mem_filter)
    (sorted.trans (holds.entries indexed perm))
  have count : entries.length = facts.length := by
    rw [← resolved.length_eq, sorted.length_eq, length_map]
  refine ⟨rangeEavt entity data.pending ++ facts, ?_, ?_, fun maxFacts => ?_⟩
  · rw [FactData.getFactsByEntity, indexed, if_neg (by simp)]
    simp only [scanned, bind, Except.bind, mapM_except_eq_ok_iff.mpr resolved]
    rfl
  · rw [filter_append, filter_map]
    exact waiting.append found
  · rw [FactData.getFactsByEntityBounded,
      @foldlM_pushBounded maxFacts [] (Nat.zero_le _) (rangeEavt entity data.pending), indexed]
    simp only [length_nil, Nat.zero_add, nil_append, length_append]
    by_cases most : maxFacts < (rangeEavt entity data.pending).length
    · rw [if_pos most, if_pos (by omega)]
      rfl
    rw [if_neg most]
    simp only [bind, Except.bind, visited]
    rw [visitList_refs (by simpa using most), count]
    simp only [length_nil, Nat.add_zero, nil_append]
    by_cases more : maxFacts < (rangeEavt entity data.pending).length + facts.length
    · rw [if_pos more, if_pos more]
    · rw [if_neg more, if_neg more]
      refine (foldlM_resolve resolved _).trans ((foldlM_pushBounded (by omega) facts).trans ?_)
      rw [if_neg more]

theorem getFactsByEntity_spec (holds : data.Holds rows)
    (enough : ∀ reader, data.committedIndexReader = some reader → reader.reach ≤ fuel)
    (fits : entity ≠ allOnes 128 ∨ ∀ reader, data.committedIndexReader = some reader → reader.segments = []) :
    data.FindsRange fuel entity rows := by
  cases indexed : data.committedIndexReader with
  | none => exact findsRange_unindexed holds indexed
  | some reader =>
    refine findsRange_indexed holds indexed (enough reader indexed)
      (fits.symm.imp (fun plain => plain reader indexed) fun notLast => ?_)
    refine (isLE_entityBound entity _).trans (decide_eq_true ?_)
    have : entity.toNat ≠ 2 ^ 128 - 1 := by
      rw [← BitVec.toNat_allOnes]
      exact fun same => notLast (BitVec.eq_of_toNat_eq same)
    show entity ≤ entity + 1
    bv_omega

theorem getFactsByEntity_panics {reader : LayeredIndexReader}
    (indexed : data.committedIndexReader = some reader) (enough : reader.reach ≤ fuel)
    (layered : reader.segments ≠ []) :
    data.getFactsByEntity fuel (allOnes 128) =
      .error "range start is greater than range end in BTreeMap" := by
  have inverted : (eavt.cmp (entityBound (allOnes 128))
      (entityBound (allOnes 128 + 1))).isGT = true := by decide
  have scanned : reader.publishedScanEavt fuel (entityBound (allOnes 128))
      (some (entityBound (allOnes 128 + 1))) =
      .error "range start is greater than range end in BTreeMap" := by
    rw [LayeredIndexReader.publishedScanEavt, if_neg (by simpa using layered),
      LayeredIndexReader.rangeScanEavt, layeredRangeScan,
      rangeScanEntries_of_holds reader.holds.eavt (reader.inEavt.increasing.sortedFor _) _ fuel enough,
      rangeDeltaEntries, Option.any_some, if_pos inverted]
    rfl
  rw [FactData.getFactsByEntity, indexed, if_neg (by simp)]
  simp only [scanned, bind, Except.bind]

theorem filter_inEntityRange_last (facts : List Fact) :
    facts.filter (inEntityRange (allOnes 128)) = [] :=
  filter_eq_nil_iff.mpr fun _ _ inside => (inEntityRange_iff.mp inside).2 rfl

/-- The end of the range wraps around for the last id: no fact of it is found, and the segments
    panic. -/
theorem entityLookup_exact_iff (data : FactData) (rows : List (FactRef × Fact)) (holds : data.Holds rows)
    (fuel : Nat) (enough : ∀ reader, data.committedIndexReader = some reader → reader.reach ≤ fuel)
    (entity : EntityId) :
    data.LooksUp fuel entity rows ↔ entity ≠ BitVec.allOnes 128 ∨
      (∀ reader, data.committedIndexReader = some reader → reader.segments = []) ∧
        data.factsOf entity rows = [] := by
  by_cases last : entity = allOnes 128
  · subst last
    simp only [ne_eq, not_true_eq_false, false_or]
    constructor
    · rintro ⟨⟨facts, found, perm⟩, -⟩
      have plain : ∀ reader, data.committedIndexReader = some reader → reader.segments = [] := by
        intro reader indexed
        by_contra layered
        rw [getFactsByEntity_panics indexed (enough reader indexed) layered] at found
        cases found
      obtain ⟨facts', found', perm', -⟩ := getFactsByEntity_spec holds enough (.inr plain)
      cases found.symm.trans found'
      rw [filter_inEntityRange_last] at perm'
      exact ⟨plain, (perm.symm.trans perm').eq_nil⟩
    · rintro ⟨plain, none⟩
      obtain ⟨facts, found, perm, bounded⟩ := getFactsByEntity_spec holds enough (.inr plain)
      rw [filter_inEntityRange_last] at perm
      have empty := perm.eq_nil
      subst empty
      refine ⟨⟨[], found, .of_eq none.symm⟩, fun maxFacts => ?_⟩
      rw [none]
      exact ⟨[], bounded maxFacts, .refl _⟩
  · refine iff_of_true ?_ (.inl last)
    obtain ⟨facts, found, perm, bounded⟩ := getFactsByEntity_spec holds enough (.inl last)
    have same : inEntityRange entity = fun fact => fact.entity == entity := by
      funext fact
      rw [Bool.eq_iff_iff, inEntityRange_iff, beq_iff_eq]
      exact and_iff_left last
    rw [same, ← FactData.factsOf] at perm
    refine ⟨⟨facts, found, perm⟩, fun maxFacts => ?_⟩
    rw [← perm.length_eq, bounded]
    split
    · rfl
    · exact ⟨facts, rfl, perm⟩

theorem exists_layeredData (fact : Fact) : ∃ data : FactData, data.pending = [fact] ∧
    data.Holds [(⟨1, 0⟩, ageFact), (⟨7, 0⟩, groupFact)] ∧
    ∃ reader, data.committedIndexReader = some reader ∧ reader.segments ≠ [] := by
  obtain ⟨reader, base, segments⟩ := exists_ageReader
  let loader : CommittedFactReader :=
    ⟨fun ref => if ref.pageId = 1 then .ok ageFact else .ok groupFact, .ok [ageFact, groupFact]⟩
  refine ⟨⟨[fact], some loader, some reader⟩, rfl, ⟨by decide, ?_, ?_, ?_, by simp⟩, reader, rfl, ?_⟩
  · intro row member
    refine ⟨loader, rfl, ?_⟩
    rcases mem_pair.mp member with rfl | rfl <;> rfl
  · rintro _ ⟨⟩
    rfl
  · rintro _ ⟨⟩
    rw [base, segments]
    exact .refl _
  · simp [segments]

def lastFact : Fact := ⟨BitVec.allOnes 128, ":age", .integer 30, 1, 1, 0, 0, true⟩

theorem getFactsByEntity_last_panics : ∃ (data : FactData) (rows : List (FactRef × Fact)) (fuel : Nat),
    data.Holds rows ∧ (∀ reader, data.committedIndexReader = some reader → reader.reach ≤ fuel) ∧
    data.factsOf (BitVec.allOnes 128) rows = [lastFact] ∧
    data.getFactsByEntity fuel (BitVec.allOnes 128) =
      .error "range start is greater than range end in BTreeMap" := by
  obtain ⟨data, pending, holds, reader, indexed, layered⟩ := exists_layeredData lastFact
  refine ⟨data, _, reader.reach, holds, ?_, ?_, getFactsByEntity_panics indexed (Nat.le_refl _) layered⟩
  · intro other found
    cases indexed.symm.trans found
    exact Nat.le_refl _
  · rw [FactData.factsOf, pending]
    decide

theorem entityLookup_exact_iff_five : ∃ (data : FactData) (rows : List (FactRef × Fact)) (fuel : Nat),
    data.Holds rows ∧ data.factsOf 5 rows = [ageFact] ∧ data.LooksUp fuel 5 rows := by
  obtain ⟨data, pending, holds, reader, indexed, -⟩ := exists_layeredData lastFact
  refine ⟨data, _, reader.reach, holds, ?_, (entityLookup_exact_iff data _ holds reader.reach ?_ 5).mpr
    (.inl (by decide))⟩
  · rw [FactData.factsOf, pending]
    decide
  · intro other found
    cases indexed.symm.trans found
    exact Nat.le_refl _

end Lookups

end ViciaDb
