import ViciaDb.Graph.CursorRun
import ViciaDb.Query.Executor
import ViciaDb.Query.OrderFree

namespace ViciaDb

open List Except Finmap PatternMatcher

variable {ext : Externals}

structure Streamable (query : DatalogQuery) (p : Pattern) (attr : String)
    (entityVar valueVar : Option String) : Prop where
  clauses : query.whereClauses = [.pattern p]
  windows : query.find.any FindSpec.isWindow = false
  aggregates : query.find.any FindSpec.isAggregate = true
  attrOf : p.attr = .real (.keyword attr)
  entity : isStreamable p.entity = true
  value : isStreamable p.value = true
  entityVarOf : entityVar = componentVar p.entity
  valueVarOf : valueVar = componentVar p.value
  named : ¬ (entityVar = none ∧ valueVar = none)

variable {entityVar valueVar : Option String} {attr : String}

theorem ownedAttributeAggregate_eq_some {query : DatalogQuery}
    (owned : ownedAttributeAggregate query = some (attr, entityVar, valueVar)) :
    ∃ p, Streamable query p attr entityVar valueVar := by
  unfold ownedAttributeAggregate at owned
  split at owned
  case h_2 => cases owned
  case h_1 p clauses =>
    split at owned
    · cases owned
    rename_i shape
    split at owned
    case h_2 => cases owned
    case h_1 attr' attrOf =>
      split at owned
      swap
      · cases owned
      rename_i streamable
      dsimp only at owned
      split at owned
      swap
      · cases owned
      rename_i vars
      simp only [Option.some.injEq, Prod.mk.injEq] at owned
      obtain ⟨rfl, rfl, rfl⟩ := owned
      simp only [Bool.or_eq_true, Bool.not_eq_true', not_or, Bool.not_eq_true, Bool.not_eq_false] at shape
      simp only [Bool.and_eq_true] at streamable
      refine ⟨p, clauses, shape.1, shape.2, attrOf, streamable.1, streamable.2, rfl, rfl, ?_⟩
      -- Some aggregate is there, and its variable is one of the two.
      rintro ⟨noEntity, noValue⟩
      obtain ⟨spec, member, isAggregate⟩ := any_eq_true.mp shape.2
      cases spec with
      | aggregate func name =>
        have := all_eq_true.mp vars name (mem_append_left _ (mem_filterMap.mpr ⟨_, member, rfl⟩))
        simp [noEntity, noValue] at this
      | _ => cases isAggregate

theorem matchComponent_streamable {component : EdnValue} (streamable : isStreamable component = true)
    (value : Value) (row : Bindings) :
    matchComponent ext component value row =
      match componentVar component with
      | none => some row
      | some name =>
        match row.lookup (.var name) with
        | some existing => if existing.eq value then some row else none
        | none => some (row.insert (.var name) value) := by
  cases component with
  | symbol s =>
    simp only [isStreamable, Bool.or_eq_true, beq_iff_eq] at streamable
    by_cases wild : isWildcard s = true
    · by_cases var : isVariable s = true <;>
        simp [matchComponent, componentVar, EdnValue.asVariable, Option.filter_some, wild, var]
    have var : isVariable s = true := by
      rcases streamable with rfl | var
      · simp [isWildcard] at wild
      · exact var
    cases found : row.lookup (.var s) <;>
      simp [matchComponent, componentVar, EdnValue.asVariable, Option.filter_some, wild, var, found]
  | _ => cases streamable

def Fact.pair (fact : Fact) : EntityId × Value := (fact.entity, fact.value)

variable {matcher : PatternMatcher}

theorem matchFact_streamable {query : DatalogQuery} {p : Pattern} (shape : Streamable query p attr entityVar valueVar)
    (plain : matcher.retainFactMetadata = false) {fact : Fact}
    (attrOf : fact.attr = attr) :
    (matcher.matchFactAgainstPattern ext fact p).map (fun row name => row.lookup (.var name)) =
      if pairCounts entityVar valueVar fact.pair then some (pairValue entityVar valueVar fact.pair)
      else none := by
  have named := shape.named
  simp only [Fact.pair, matchFactAgainstPattern,
    matchComponent_streamable shape.entity, shape.attrOf, ← shape.entityVarOf, matchAttributeComponent, attrOf,
    beq_self_eq_true, if_true, matchComponent_streamable shape.value, ← shape.valueVarOf, plain]
  cases entityVar with
  | none =>
    cases valueVar with
    | none => simp at named
    | some y =>
      refine congrArg some (funext fun name => ?_)
      simp [pairValue, lookup_insert_eq_ite]
  | some x =>
    cases valueVar with
    | none =>
      refine congrArg some (funext fun name => ?_)
      simp [pairValue, lookup_insert_eq_ite]
    | some y =>
      by_cases one : x = y
      · subst one
        by_cases refers : (Value.ref fact.entity).eq fact.value = true
        · simp only [bind, Option.bind, lookup_empty, lookup_insert, refers, if_true,
            pairCounts, beq_self_eq_true, Bool.not_true, Bool.and_false, Bool.not_false]
          refine congrArg some (funext fun name => ?_)
          simp [pairValue, lookup_insert_eq_ite]
          grind
        · simp [bind, Option.bind, refers, pairCounts]
      · have apart : Key.var y ≠ Key.var x := by simpa using Ne.symm one
        have counts : pairCounts (some x) (some y) (fact.entity, fact.value) = true := by
          simp [pairCounts, one]
        simp only [bind, Option.bind, lookup_empty, lookup_insert_of_ne _ apart, counts, if_true]
        refine congrArg some (funext fun name => ?_)
        simp [pairValue, lookup_insert_eq_ite]
        grind

theorem pushPairs_eq_ok {maxResults : Nat}
    {sink sink' : AggregationSink} {pairs : List ((EntityId × Value) × Nat)}
    (pushed : pushPairs ext entityVar valueVar maxResults sink pairs = .ok sink') :
    (((pairs.map Prod.fst).filter (pairCounts entityVar valueVar)).map
      (pairValue entityVar valueVar)).foldlM (AggregationSink.pushValues ext) sink = .ok sink' := by
  induction pairs generalizing sink with
  | nil => exact pushed
  | cons entry pairs ih =>
    obtain ⟨pair, visited⟩ := entry
    rw [pushPairs] at pushed
    split at pushed
    · cases pushed
    split at pushed
    · rename_i counts
      obtain ⟨next, first, rest⟩ := bind_eq_ok_iff.mp pushed
      simp only [map_cons, filter_cons_of_pos counts, foldlM_cons, first, bind, Except.bind]
      exact ih rest
    · rename_i skipped
      simp only [map_cons, filter_cons_of_neg skipped]
      exact ih pushed

variable {functions : FunctionRegistry} {validTime : CurrentValidTime}

section Paths

variable {executor : DatalogExecutor} {query : DatalogQuery} {p : Pattern} {attr : String}
  {entityVar valueVar : Option String} {results : List (List Value)}

theorem streamingAggregate_eq_ok
    (streamed : executor.streamingAggregate ext query attr entityVar valueVar = .ok results) :
    ∃ validTime pairs finished, validTimeOf query.validAt executor.readNow = .ok validTime ∧
      visitCurrentAttributeValues query.asOf validTime executor.log attr = .ok pairs ∧
      aggregateRows ext query.find query.withVars executor.functions
        ((pairs.filter (pairCounts entityVar valueVar)).map (pairValue entityVar valueVar)) =
          .ok finished ∧
      results = projectFindSpecs finished query.find := by
  obtain ⟨validTime, valid, streamed⟩ := bind_eq_ok_iff.mp streamed
  obtain ⟨pairs, visited, streamed⟩ := bind_eq_ok_iff.mp streamed
  obtain ⟨sink, pushed, streamed⟩ := bind_eq_ok_iff.mp streamed
  obtain ⟨finished, done, streamed⟩ := bind_eq_ok_iff.mp streamed
  have fed := pushPairs_eq_ok pushed
  rw [zipIdx_map_fst] at fed
  refine ⟨validTime, pairs, finished, valid, visited, ?_, ?_⟩
  · exact bind_eq_ok_iff.mpr ⟨sink, fed, done⟩
  · split at streamed
    · cases streamed
    · exact (Except.ok.inj streamed).symm

theorem plan_singleton (p : Pattern) : plan [.pattern p] = [.pattern p] := by
  simp [plan, planPatterns, sortBundles, bundlePatterns, addToBundles, WhereClause.asPlainPattern,
    FactPatternBundle.entries, WhereClause.isExpr]

theorem applyNotClauses_of_none {facts : List Fact} {validAt : Value} {maxResults : Nat}
    {clauses : List WhereClause} {rows : List Bindings} (noNot : clauses.filterMap WhereClause.asNot = [])
    (noNotJoin : clauses.filterMap WhereClause.asNotJoin = []) :
    applyNotClauses ext functions facts validAt maxResults clauses rows = .ok rows := by
  have kept : rows.mapM (keepUnexcluded ext functions facts validAt [] []) = .ok (rows.map some) :=
    mapM_ok_of_forall fun _ _ => rfl
  simp only [applyNotClauses, noNot, noNotJoin, sortBodies, insertionSort_nil, mapM_nil,
    zip_nil_left, bind, Except.bind, pure, Except.pure]
  rw [kept]
  simp [List.reduceOption]

theorem whereRows_streamable (shape : Streamable query p attr entityVar valueVar) {relation : List Fact}
    {rows : List Bindings} (found : executor.whereRows ext query validTime relation = .ok rows) :
    rows = relation.filterMap fun fact => (fromSliceWithValidAtAndMetadata relation
      validTime.value false).matchFactAgainstPattern ext fact p := by
  have plain : clausesUsePerFactPseudoAttr [.pattern p] = false := by
    simp [clausesUsePerFactPseudoAttr, WhereClause.usesPerFactPseudoAttr, shape.attrOf]
  rw [DatalogExecutor.whereRows, shape.clauses, plain] at found
  obtain ⟨planned, joined, found⟩ := bind_eq_ok_iff.mp found
  obtain ⟨rows', ored, found⟩ := bind_eq_ok_iff.mp found
  have noOr : rows' = planned := by
    simp only [applyOrClauses, applyOrClause, bind, Except.bind, Except.ok.injEq] at ored
    exact ored.symm
  have matched : planned = relation.filterMap fun fact =>
      (fromSliceWithValidAtAndMetadata relation validTime.value
        false).matchFactAgainstPattern ext fact p := by
    have clauses : [WhereClause.pattern p].filter WhereClause.isPatternOrExpr = [.pattern p] := rfl
    rw [clauses, plan_singleton, planRows, foldlM_cons, bind_eq_ok_iff] at joined
    obtain ⟨first, seeded, last⟩ := joined
    cases last
    simp only [matchWithHintSeededBounded, if_true, matchPatternBounded, pushBounded] at seeded
    split at seeded
    · cases seeded
    · split at seeded
      · cases seeded
      · exact (Except.ok.inj seeded).symm
  rw [applyNotClauses_of_none rfl rfl] at found
  rw [← Except.ok.inj found, noOr, matched]

theorem sourceFacts_streamable (shape : Streamable query p attr entityVar valueVar)
    (stored : executor.factsOverride = none) :
    executor.sourceFacts ext query =
      getFactsByAttributeBounded executor.log attr (executor.effectiveMaxResults query) := by
  have noEntity : p.namedEntity ext = none := by
    have streamable := shape.entity
    unfold Pattern.namedEntity
    split
    · rename_i found
      simp [found, isStreamable] at streamable
    · rename_i found
      simp [found, isStreamable] at streamable
    · rfl
  have noRules : query.usesRules = false := by
    simp [DatalogQuery.usesRules, shape.clauses, anyRuleInvocation, WhereClause.hasRuleInvocation]
  have lookups : collectLookups ext [.pattern p] [] = some [(.attr attr, ())] := by
    simp [collectLookups, WhereClause.collectLookups, Pattern.addLookup, noEntity, shape.attrOf,
      LookupSet.add, SortedMap.insert]
  have planned : QueryAccessPlan.forQuery ext query = .selective [.attr attr] := by
    simp [QueryAccessPlan.forQuery, noRules, shape.clauses, lookups, QueryLookup.isEntity,
      maxSelectiveLookups]
  simp [DatalogExecutor.sourceFacts, stored, planned, QueryAccessPlan.readFactsBounded, QueryLookup.read]

theorem generalQuery_eq_ok (shape : Streamable query p attr entityVar valueVar)
    (stored : executor.factsOverride = none) (answered : executor.generalQuery ext query = .ok results) :
    ∃ validTime source finished, validTimeOf query.validAt executor.readNow = .ok validTime ∧
      getFactsByAttributeBounded executor.log attr (executor.effectiveMaxResults query) =
        .ok source ∧
      computeAggregation ext ((currentRelation validTime (asOfRecords query.asOf source)).filterMap
        fun fact => (fromSliceWithValidAtAndMetadata
          (currentRelation validTime (asOfRecords query.asOf source)) validTime.value
          false).matchFactAgainstPattern ext fact p) query.find query.withVars executor.functions =
          .ok finished ∧
      results = projectFindSpecs finished query.find := by
  obtain ⟨validTime, checked, answered⟩ := bind_eq_ok_iff.mp answered
  obtain ⟨source, read, answered⟩ := bind_eq_ok_iff.mp answered
  have valid : validTimeOf query.validAt executor.readNow = .ok validTime := by
    unfold DatalogExecutor.checkQuery at checked
    split at checked
    · cases checked
    · obtain ⟨validTime', valid, checked⟩ := bind_eq_ok_iff.mp checked
      split at checked
      · cases checked
      · rwa [Except.ok.inj checked] at valid
  rw [sourceFacts_streamable shape stored] at read
  have known : query.whereClauses.findSome? (unknownPredicate executor.functions) = none := by
    simp [shape.clauses, unknownPredicate]
  unfold DatalogExecutor.answerFrom at answered
  simp only [known] at answered
  obtain ⟨rows, found, answered⟩ := bind_eq_ok_iff.mp answered
  have rowsOf := whereRows_streamable shape found
  unfold applyPostProcessingBounded at answered
  simp only [shape.aggregates, if_true] at answered
  obtain ⟨finished, aggregated, answered⟩ := bind_eq_ok_iff.mp answered
  obtain ⟨windowed, unchanged, answered⟩ := bind_eq_ok_iff.mp answered
  rw [applyWindowFunctions_of_none _ shape.windows] at unchanged
  cases unchanged
  refine ⟨validTime, source, finished, valid, read, rowsOf ▸ aggregated, ?_⟩
  split at answered
  · cases answered
  · exact (Except.ok.inj answered).symm

end Paths

def attributeRecords (log : FactLog) (attr : String) (asOf : Option AsOf) : List Fact :=
  asOfRecords asOf (log.records.filter fun fact => fact.attr = attr)

theorem asOfRecords_eq (asOf : Option AsOf) (records : List Fact) :
    asOfRecords asOf records = records.filter (entryVisibleAsOf asOf) := by
  cases asOf with
  | none => exact (filter_eq_self.mpr fun _ _ => rfl).symm
  | some asOf => rfl

section Records

variable {log : FactLog} {attr : String}

/-- No record of another attribute that the query can see lies in the scanned range. -/
def AloneInRange (log : FactLog) (attr : String) (asOf : Option AsOf) : Prop :=
  ∀ fact ∈ log.records, entryVisibleAsOf asOf fact = true → inAttributeRange attr fact = true →
    fact.attr = attr

instance (asOf : Option AsOf) : Decidable (AloneInRange log attr asOf) :=
  inferInstanceAs (Decidable (∀ fact ∈ log.records, entryVisibleAsOf asOf fact = true →
    inAttributeRange attr fact = true → fact.attr = attr))

variable {asOf : Option AsOf}

theorem filter_visible_range (alone : AloneInRange log attr asOf) :
    (log.records.filter (inAttributeRange attr)).filter (entryVisibleAsOf asOf) =
      attributeRecords log attr asOf := by
  rw [attributeRecords, asOfRecords_eq, filter_filter, filter_filter]
  refine filter_congr fun fact member => ?_
  cases visible : entryVisibleAsOf asOf fact with
  | false => rfl
  | true =>
    rw [Bool.true_and, Bool.true_and]
    by_cases same : fact.attr = attr
    · simp [inAttributeRange_self same, same]
    · have out : inAttributeRange attr fact = false := by
        rw [← Bool.not_eq_true]
        exact fun inside => same (alone fact member visible inside)
      simp [out, same]

theorem mergedEntries_perm (alone : AloneInRange log attr asOf) :
    ((mergedEntries log attr).filter (entryVisibleAsOf asOf)).Perm (attributeRecords log attr asOf) := by
  rw [← filter_visible_range alone]
  exact (mergedEntries_perm_range log).filter _

theorem getFactsByAttributeBounded_perm (alone : AloneInRange log attr asOf) {maxFacts : Nat}
    {source : List Fact} (read : getFactsByAttributeBounded log attr maxFacts = .ok source) :
    (asOfRecords asOf source).Perm (attributeRecords log attr asOf) := by
  unfold getFactsByAttributeBounded at read
  dsimp only at read
  split at read
  · cases read
  cases read
  have committed : ((log.committed.filter (inAttributeRange attr)).filter fun fact =>
      fact.attr == attr).filter (entryVisibleAsOf asOf) =
      (log.committed.filter (inAttributeRange attr)).filter (entryVisibleAsOf asOf) := by
    rw [filter_filter]
    refine filter_congr fun fact member => ?_
    obtain ⟨inCommitted, inRange⟩ := mem_filter.mp member
    cases visible : entryVisibleAsOf asOf fact with
    | false => rfl
    | true => simp [alone fact (mem_append_left _ inCommitted) visible inRange]
  rw [asOfRecords_eq, ← filter_visible_range alone, filter_append, committed, FactLog.records,
    filter_append, filter_append]
  exact perm_append_comm.trans (((indexRange_perm _ _ _).filter _).append_left _)

end Records

variable {validTime : CurrentValidTime} {records rows : List Fact}

theorem currentRows_currentRelation (apart : validTime = .any ∨ NoOverlap validTime records) :
    CurrentRows validTime records (currentRelation validTime records) := by
  rw [currentRelation_eq apart]
  exact ⟨(filter_sublist.map _).nodup (nodup_netAssertedFacts records), fun key => mem_map_current⟩

theorem Current.congr {records' : List Fact} (same : records.Perm records') (key : WindowKey) :
    Current validTime records key ↔ Current validTime records' key := by
  rw [Current, Current, NetAsserted.congr fun fact => same.mem_iff]

theorem CurrentRows.perm {rows' : List Fact}
    (left : CurrentRows validTime records rows) (right : CurrentRows validTime records rows') :
    (rows.map Fact.windowKey).Perm (rows'.map Fact.windowKey) :=
  (perm_ext_iff_of_nodup left.nodup right.nodup).mpr fun key =>
    (left.mem key).trans (right.mem key).symm

theorem CurrentRows.congr {records' : List Fact} (same : records.Perm records')
    (current : CurrentRows validTime records rows) : CurrentRows validTime records' rows :=
  ⟨current.nodup, fun key => (current.mem key).trans (Current.congr same key)⟩

theorem CurrentRows.pairs (current : CurrentRows validTime records rows)
    (numbers : ∀ fact ∈ records, fact.value.isNan = false) :
    rows.map Fact.pair = (rows.map Fact.windowKey).map fun key => (key.eav.entity, key.eav.value) := by
  rw [map_map]
  refine map_congr_left fun fact member => ?_
  obtain ⟨⟨other, inRecords, -, same, -⟩, -⟩ :=
    (current.mem fact.windowKey).mp (mem_map_of_mem member)
  have values : canonicalValue other.value = canonicalValue fact.value :=
    congrArg (fun key => key.eav.value) same
  rw [canonicalValue_of_number (numbers other inRecords)] at values
  have number : fact.value.isNan = false := by
    have otherNumber := numbers other inRecords
    rw [values] at otherNumber
    cases found : fact.value with
    | float f =>
      rw [found] at otherNumber
      by_cases nan : f.isNan = true
      · simp only [canonicalValue, nan, if_true, Value.isNan] at otherNumber
        exact absurd otherNumber (by decide)
      · simpa [Value.isNan] using nan
    | _ => rfl
  simp [Fact.pair, Fact.windowKey, Fact.eavKey, canonicalValue_of_number number]

/-- When both paths see the same rows: the executor reads its storage, and among the records visible to
    the query there are no other attribute in the scanned range, no two windows of a triple at the
    instant, only floats told apart, and aggregates free of the order of the rows. -/
structure StreamsAlike (ext : Externals) (executor : DatalogExecutor) (query : DatalogQuery)
    (attr : String) (entityVar valueVar : Option String) : Prop where
  stored : executor.factsOverride = none
  alone : AloneInRange executor.log attr query.asOf
  apart : ∀ validTime, validTimeOf query.validAt executor.readNow = .ok validTime →
    validTime = .any ∨ NoOverlap validTime (attributeRecords executor.log attr query.asOf)
  ordinary : ∀ fact ∈ attributeRecords executor.log attr query.asOf, fact.value.isOrdinary = true
  free : ∀ spec ∈ aggregateSpecs query.find, OrderFree ext executor.functions spec.func
    ((attributeRecords executor.log attr query.asOf).map fun fact =>
      pairValue entityVar valueVar fact.pair spec.var)

section Equivalence

variable {executor : DatalogExecutor} {query : DatalogQuery} {p : Pattern} {attr : String}
  {entityVar valueVar : Option String}

theorem rows_of_relation (shape : Streamable query p attr entityVar valueVar)
    (plain : matcher.retainFactMetadata = false) {relation : List Fact}
    (attrOf : ∀ fact ∈ relation, fact.attr = attr) :
    (relation.filterMap fun fact => matcher.matchFactAgainstPattern ext fact p).map
        (fun row name => row.lookup (.var name)) =
      ((relation.map Fact.pair).filter (pairCounts entityVar valueVar)).map
        (pairValue entityVar valueVar) := by
  have each : ∀ fact ∈ relation,
      (matcher.matchFactAgainstPattern ext fact p).map (fun row name => row.lookup (.var name)) =
        if pairCounts entityVar valueVar fact.pair then
          some (pairValue entityVar valueVar fact.pair) else none :=
    fun fact member => matchFact_streamable shape plain (attrOf fact member)
  rw [map_filterMap, filterMap_congr each]
  clear each attrOf
  induction relation with
  | nil => rfl
  | cons fact relation ih =>
    by_cases counts : pairCounts entityVar valueVar fact.pair = true
    · simp [counts, ih]
    · simp [counts, ih]

theorem keysApart_of_ordinary {find : List FindSpec} {withVars : List String}
    {rows : List (String → Option Value)}
    (ordinary : ∀ row ∈ rows, ∀ name value, row name = some value → value.isOrdinary = true) :
    KeysApart (AggregationSink.new find withVars functions) rows := by
  have all : ∀ row ∈ rows, ∀ value ∈ (AggregationSink.new find withVars functions).key row,
      value.isOrdinary = true := by
    intro row member value inKey
    obtain ⟨name, -, rfl⟩ := mem_map.mp inKey
    cases found : row name with
    | none => rfl
    | some value => exact ordinary row member name value found
  exact fun a inA b inB same => eq_of_compareKeys_eq (all a inA) (all b inB) same

theorem pairValue_isOrdinary {pair : EntityId × Value} {name : String} {value : Value}
    (ordinary : pair.2.isOrdinary = true) (found : pairValue entityVar valueVar pair name = some value) :
    value.isOrdinary = true := by
  unfold pairValue at found
  split at found
  · cases found
    rfl
  · split at found
    · cases found
      exact ordinary
    · cases found

theorem mem_attributeRecords {log : FactLog} {asOf : Option AsOf} {fact : Fact} :
    fact ∈ attributeRecords log attr asOf ↔
      fact ∈ log.records ∧ entryVisibleAsOf asOf fact = true ∧ fact.attr = attr := by
  rw [attributeRecords, asOfRecords_eq, mem_filter, mem_filter, decide_eq_true_eq, and_assoc,
    and_comm (a := fact.attr = attr)]

theorem pairs_perm (alike : StreamsAlike ext executor query attr entityVar valueVar)
    (valid : validTimeOf query.validAt executor.readNow = .ok validTime) {pairs : List (EntityId × Value)}
    {source : List Fact}
    (visited : visitCurrentAttributeValues query.asOf validTime executor.log attr = .ok pairs)
    (read : getFactsByAttributeBounded executor.log attr (executor.effectiveMaxResults query) = .ok source) :
    pairs.Perm ((currentRelation validTime (asOfRecords query.asOf source)).map Fact.pair) := by
  have seen : ∀ fact ∈ attributeRecords executor.log attr query.asOf, fact.value.isNan = false :=
    fun fact member => Value.isNan_of_isOrdinary (alike.ordinary fact member)
  obtain ⟨rows, emitted, streamed⟩ : ∃ rows : List Fact,
      visitCurrentAttributeValues query.asOf validTime executor.log attr =
        .ok (rows.map fun fact => (fact.entity, fact.value)) ∧
      CurrentRows validTime
        ((mergedEntries executor.log attr).filter (entryVisibleAsOf query.asOf)) rows :=
    visitCurrentAttributeValues_spec alike.alone fun fact member visible same =>
      seen fact (mem_attributeRecords.mpr ⟨member, visible, same⟩)
  rw [visited] at emitted
  cases emitted
  have fetched := getFactsByAttributeBounded_perm alike.alone read
  have apart : validTime = .any ∨ NoOverlap validTime (asOfRecords query.asOf source) := by
    refine (alike.apart validTime valid).imp_right fun none a b currentA currentB => ?_
    exact none a b ((Current.congr fetched a).mp currentA) ((Current.congr fetched b).mp currentB)
  have streamed := streamed.congr (mergedEntries_perm alike.alone)
  have general := (currentRows_currentRelation apart).congr fetched
  have left := streamed.pairs seen
  have right := general.pairs seen
  change (rows.map Fact.pair).Perm _
  rw [left, right]
  exact (streamed.perm general).map _

/-- Counts, distinct counts, minima and maxima are the same in every order of the rows. -/
theorem aggregateRows_order_free (ext : Externals) (functions : FunctionRegistry) (find : List FindSpec)
    (withVars : List String) (rows rows' : List (String → Option Value)) (results results' : List Bindings)
    (same : rows.Perm rows')
    (ordinary : ∀ row ∈ rows, ∀ name value, row name = some value → value.isOrdinary = true)
    (ordered : ∀ spec ∈ aggregateSpecs find, spec.func ∈ ["count", "count-distinct", "min", "max"])
    (done : aggregateRows ext find withVars functions rows = .ok results)
    (done' : aggregateRows ext find withVars functions rows' = .ok results') : results = results' := by
  refine aggregateRows_perm same (keysApart_of_ordinary ordinary) (fun spec member => ?_) done done'
  refine orderFree_of_ordinary (fun value inValues => ?_) (ordered spec member)
  obtain ⟨row, inRows, found⟩ := mem_map.mp inValues
  exact ordinary row inRows spec.var value found

end Equivalence

section Examples

def ageOf (entity : EntityId) (age : Int64) (txCount : UInt64) (asserted : Bool) : Fact where
  entity := entity
  attr := ":age"
  value := .integer age
  txId := txCount
  txCount := txCount
  validFrom := 0
  validTo := validTimeForever
  asserted := asserted

def ages : FactLog where
  committed := [ageOf 1 30 1 true, ageOf 2 41 2 true]
  pending := [ageOf 2 41 3 false, ageOf 2 42 4 true, ageOf 3 42 4 true]

def readerOf (log : FactLog) : DatalogExecutor where
  log := log
  factsOverride := none
  readNowFloor := none
  clock := 50
  functions := .withBuiltins
  maxResults := 100
  maxOutputResults := 100

def aggregateOf (find : List FindSpec) (attr : String) : DatalogQuery where
  find := find
  whereClauses := [.pattern (.plain (.symbol "?e") (.keyword attr) (.symbol "?v"))]
  asOf := none
  validAt := none
  withVars := []
  maxDerivedFacts := none
  maxResults := none

def countAndOldest : DatalogQuery :=
  aggregateOf [.aggregate "count" "?e", .aggregate "max" "?v"] ":age"

theorem ages_streamsAlike :
    StreamsAlike .sample (readerOf ages) countAndOldest ":age" (some "?e") (some "?v") where
  stored := rfl
  alone := by decide +kernel
  apart := fun validTime _ => .inr (noOverlap_of_windowKey (by decide +kernel))
  ordinary := by decide +kernel
  free := by
    have ordinary : ∀ name, ∀ value, some value ∈
        ((attributeRecords (readerOf ages).log ":age" countAndOldest.asOf).map fun fact =>
          pairValue (some "?e") (some "?v") fact.pair name) → value.isOrdinary = true := by
      intro name value member
      obtain ⟨fact, inRecords, found⟩ := mem_map.mp member
      have plain : ∀ fact ∈ attributeRecords (readerOf ages).log ":age" countAndOldest.asOf,
          fact.value.isOrdinary = true := by decide +kernel
      exact pairValue_isOrdinary (plain fact inRecords) found
    intro spec member
    refine orderFree_of_ordinary (ordinary spec.var) ?_
    have funcs : ∀ spec ∈ aggregateSpecs countAndOldest.find,
        spec.func ∈ ["count", "count-distinct", "min", "max"] := by decide
    exact funcs spec member

def agedRow (entity : EntityId) (age : Int64) : String → Option Value :=
  pairValue (some "?e") (some "?v") (entity, .integer age)

theorem aggregateRows_order_free_ages : ∃ results results',
    aggregateRows .sample countAndOldest.find [] .withBuiltins [agedRow 1 30, agedRow 2 41] = .ok results ∧
      aggregateRows .sample countAndOldest.find [] .withBuiltins [agedRow 2 41, agedRow 1 30] = .ok results' ∧
      results = results' ∧ results.length = 1 :=
  ⟨_, _, rfl, rfl, aggregateRows_order_free .sample .withBuiltins countAndOldest.find []
    [agedRow 1 30, agedRow 2 41] _ _ _ (.swap _ _ _)
    (forall_mem_cons.mpr ⟨fun _ _ => pairValue_isOrdinary rfl, forall_mem_singleton.mpr fun _ _ =>
      pairValue_isOrdinary rfl⟩) (by decide) rfl rfl, rfl⟩

def ageAndGroup : FactLog where
  committed := [ageOf 1 30 1 true, { ageOf 1 3 1 true with attr := ":age-group" }]
  pending := []

def ageTwice : FactLog where
  committed := [ageOf 1 30 1 true, { ageOf 1 30 1 true with validFrom := 10 }]
  pending := []

def countAges : DatalogQuery := aggregateOf [.aggregate "count" "?e"] ":age"

end Examples

end ViciaDb
