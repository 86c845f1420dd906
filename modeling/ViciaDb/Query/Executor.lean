import ViciaDb.Graph.AttributeCursor
import ViciaDb.Query.AccessPlan
import ViciaDb.Query.Aggregation
import ViciaDb.Query.OrClauses

namespace ViciaDb

/-- An executor: a storage, or a fixed list of facts in its place, and its limits. `clock` is the instant
    a query reads. -/
structure DatalogExecutor where
  log : FactLog
  factsOverride : Option (List Fact)
  readNowFloor : Option Int64
  clock : Int64
  functions : FunctionRegistry
  maxResults : Nat
  maxOutputResults : Nat

def DatalogExecutor.readNow (executor : DatalogExecutor) : Int64 :=
  match executor.readNowFloor with
  | some floor => if executor.clock < floor then floor else executor.clock
  | none => executor.clock

def slotReachedExecutor : String :=
  "internal: unsubstituted :valid-at bind slot reached the executor"

def validTimeOf (validAt : Option ValidAt) (now : Int64) : Except String CurrentValidTime :=
  match validAt with
  | some (.timestamp t) => .ok (.atTime t)
  | some .anyValidTime => .ok .any
  | some (.slot _) => .error slotReachedExecutor
  | none => .ok (.atTime now)

def CurrentValidTime.value : CurrentValidTime → Value
  | .atTime t => .integer t
  | .any => .null

def DatalogQuery.hasBindingMechanism (query : DatalogQuery) : Bool :=
  !query.whereClauses.isEmpty || query.find.any FindSpec.isAggregate

def componentVar (component : EdnValue) : Option String :=
  component.asVariable.filter fun name => !isWildcard name

def isStreamable : EdnValue → Bool
  | .symbol s => s == "_" || isVariable s
  | _ => false

/-- A query that the streaming aggregate path takes: its attribute and the variables of entity and
    value. -/
def ownedAttributeAggregate (query : DatalogQuery) :
    Option (String × Option String × Option String) :=
  match query.whereClauses with
  | [.pattern p] =>
    if query.find.any FindSpec.isWindow || !query.find.any FindSpec.isAggregate then none
    else
      match p.attr with
      | .real (.keyword attr) =>
        if isStreamable p.entity && isStreamable p.value then
          let entityVar := componentVar p.entity
          let valueVar := componentVar p.value
          let vars := query.find.filterMap (fun spec =>
            match spec with
            | .variable name | .aggregate _ name => some name
            | .window _ => none) ++ query.withVars
          if vars.all fun name => some name == entityVar || some name == valueVar then
            some (attr, entityVar, valueVar)
          else none
        else none
      | _ => none
  | _ => none

def pairValue (entityVar valueVar : Option String) (pair : EntityId × Value) (name : String) :
    Option Value :=
  if some name = entityVar then some (.ref pair.1)
  else if some name = valueVar then some pair.2
  else none

/-- With one variable in both places only the entities that refer to themselves count. -/
def pairCounts (entityVar valueVar : Option String) (pair : EntityId × Value) : Bool :=
  !(entityVar == valueVar && !(Value.ref pair.1).eq pair.2)

variable (ext : Externals)

def pushPairs (entityVar valueVar : Option String) (maxResults : Nat) (sink : AggregationSink) :
    List ((EntityId × Value) × Nat) → Except String AggregationSink
  | [] => .ok sink
  | (pair, visited) :: rest =>
    if maxResults < visited + 1 then .error (sourceWorkExceeded maxResults)
    else if pairCounts entityVar valueVar pair then do
      let sink ← sink.pushValues ext (pairValue entityVar valueVar pair)
      pushPairs entityVar valueVar maxResults sink rest
    else pushPairs entityVar valueVar maxResults sink rest

namespace DatalogExecutor

variable (executor : DatalogExecutor) (query : DatalogQuery)

def effectiveMaxResults : Nat := query.maxResults.getD executor.maxResults

def effectiveMaxOutputResults : Nat :=
  min (executor.effectiveMaxResults query) executor.maxOutputResults

def streamingAggregate (attr : String) (entityVar valueVar : Option String) :
    Except String (List (List Value)) := do
  let validTime ← validTimeOf query.validAt executor.readNow
  let pairs ← visitCurrentAttributeValues query.asOf validTime executor.log attr
  let sink ← pushPairs ext entityVar valueVar (executor.effectiveMaxResults query)
    (AggregationSink.new query.find query.withVars executor.functions) pairs.zipIdx
  let finished ← sink.finish ext
  if executor.effectiveMaxOutputResults query < finished.length then
    .error (resultLimitExceeded (executor.effectiveMaxOutputResults query))
  else .ok (projectFindSpecs finished query.find)

def sourceFacts : Except String (List Fact) :=
  match executor.factsOverride with
  | some facts =>
    if executor.effectiveMaxResults query < facts.length then
      .error (sourceWorkExceeded (executor.effectiveMaxResults query))
    else .ok facts
  | none => (QueryAccessPlan.forQuery ext query).readFactsBounded executor.log
      (executor.effectiveMaxResults query)

end DatalogExecutor

def asOfRecords (asOf : Option AsOf) (records : List Fact) : List Fact :=
  match asOf with
  | some asOf => filterFactsAsOf records asOf
  | none => records

def planRows (functions : FunctionRegistry) (matcher : PatternMatcher) (maxResults : Nat)
    (planned : List WhereClause) : Except String (List Bindings) :=
  planned.foldlM (fun rows clause =>
    match clause with
    | .pattern p => matcher.matchWithHintSeededBounded ext rows p maxResults
    | clause => applyExprToRows ext functions rows clause) [∅]

def WhereClause.isPatternOrExpr : WhereClause → Bool
  | .pattern _ | .expr _ _ => true
  | _ => false

def WhereClause.asNot : WhereClause → Option (List WhereClause)
  | .not body => some body
  | _ => none

def WhereClause.asNotJoin : WhereClause → Option (List String × List WhereClause)
  | .notJoin joinVars body => some (joinVars, body)
  | _ => none

/-- A row as a hash key for exclusion: no fact metadata, keywords as the entities they name. -/
def exclusionKey (row : Bindings) : Bindings :=
  (row.filterKeys fun key => !key.isFact).mapValues (normalizeJoinValue ext)

def bodyRows (facts : List Fact) (validAt : Value) (maxResults : Nat) (body : List WhereClause) :
    Except String (Option (List Bindings)) :=
  match body.filterMap WhereClause.asPlainPattern with
  | [] => .ok none
  | patterns => do
    let matcher := PatternMatcher.fromSliceWithValidAtAndMetadata facts validAt
      (clausesUsePerFactPseudoAttr body)
    let rows ← matcher.matchPatternsBounded ext patterns [∅] maxResults
    .ok (some rows)

/-- Whether a `not` body excludes a row, given the rows of its patterns. The key is read off one of them;
    all have the same variables. -/
def notExcludes (functions : FunctionRegistry) (facts : List Fact) (validAt : Value)
    (body : List WhereClause) (precomputed : Option (List Bindings)) (row : Bindings) :
    Except String Bool :=
  match precomputed with
  | none => notBodyMatches ext functions body row facts validAt
  | some rows =>
    if body.any WhereClause.isExpr then notBodyMatches ext functions body row facts validAt
    else
      match rows.map (exclusionKey ext) with
      | [] => .ok false
      | sample :: others =>
        if sample.keys ⊆ row.keys then
          .ok ((sample :: others).any fun excluded =>
            sameRow ((exclusionKey ext row).filterKeys fun key => key ∈ sample.keys) excluded)
        else notBodyMatches ext functions body row facts validAt

/-- Whether a `not-join` excludes a row: the key is what all precomputed rows bind of the join
    variables. -/
def notJoinExcludes (functions : FunctionRegistry) (facts : List Fact) (joinVars : List String)
    (body : List WhereClause) (precomputed : Option (List Bindings)) (row : Bindings) :
    Except String Bool :=
  match precomputed with
  | none => evaluateNotJoin ext functions joinVars body row facts
  | some rows =>
    if body.any WhereClause.isExpr then evaluateNotJoin ext functions joinVars body row facts
    else
      let keyVars := (joinVars.filter fun name =>
        rows.all fun found => decide (Key.var name ∈ found.keys)).map Key.var
      let keyOf := fun found : Bindings =>
        (exclusionKey ext found).filterKeys fun key => key ∈ keyVars
      if keyVars.isEmpty then .ok !rows.isEmpty
      else if keyVars.all fun key => decide (key ∈ row.keys) then
        .ok (rows.any fun found => sameRow (keyOf row) (keyOf found))
      else evaluateNotJoin ext functions joinVars body row facts

def sortBodies {α : Type} (cost : α → Nat) (bodies : List α) : List α :=
  bodies.insertionSort fun a b => cost a ≤ cost b

def keepUnexcluded (functions : FunctionRegistry) (facts : List Fact) (validAt : Value)
    (nots : List (List WhereClause × Option (List Bindings)))
    (notJoins : List ((List String × List WhereClause) × Option (List Bindings))) (row : Bindings) :
    Except String (Option Bindings) := do
  let byNot ← nots.anyM fun (body, precomputed) =>
    notExcludes ext functions facts validAt body precomputed row
  if byNot then .ok none
  else do
    let byNotJoin ← notJoins.anyM fun ((joinVars, body), precomputed) =>
      notJoinExcludes ext functions facts joinVars body precomputed row
    .ok (if byNotJoin then none else some row)

def applyNotClauses (functions : FunctionRegistry) (facts : List Fact) (validAt : Value)
    (maxResults : Nat) (clauses : List WhereClause) (rows : List Bindings) :
    Except String (List Bindings) := do
  let nots := sortBodies branchCost (clauses.filterMap WhereClause.asNot)
  let notJoins := sortBodies (fun pair => branchCost pair.2) (clauses.filterMap WhereClause.asNotJoin)
  let notRows ← nots.mapM (bodyRows ext facts validAt maxResults)
  let notJoinRows ← notJoins.mapM fun pair => bodyRows ext facts validAt maxResults pair.2
  let kept ← rows.mapM
    (keepUnexcluded ext functions facts validAt (nots.zip notRows) (notJoins.zip notJoinRows))
  .ok kept.reduceOption

namespace DatalogExecutor

variable (executor : DatalogExecutor) (query : DatalogQuery)

def branchContext (facts : List Fact) : BranchContext where
  functions := executor.functions
  facts := facts
  validAt := (validTimeOf query.validAt executor.clock).map CurrentValidTime.value
  maxResults := executor.effectiveMaxResults query

def whereRows (validTime : CurrentValidTime) (relation : List Fact) :
    Except String (List Bindings) := do
  let maxResults := executor.effectiveMaxResults query
  let matcher := PatternMatcher.fromSliceWithValidAtAndMetadata relation validTime.value
    (clausesUsePerFactPseudoAttr query.whereClauses)
  let rows ← planRows ext executor.functions matcher maxResults
    (plan (query.whereClauses.filter WhereClause.isPatternOrExpr))
  let rows ← applyOrClauses ext (executor.branchContext query relation) query.whereClauses rows
  applyNotClauses ext executor.functions relation validTime.value maxResults query.whereClauses rows

def answerFrom (validTime : CurrentValidTime) (source : List Fact) :
    Except String (List (List Value)) := do
  let relation := currentRelation validTime (asOfRecords query.asOf source)
  match query.whereClauses.findSome? (unknownPredicate executor.functions) with
  | some name => .error s!"unknown predicate: '{name}'"
  | none => do
    let rows ← executor.whereRows ext query validTime relation
    applyPostProcessingBounded ext rows query.find query.withVars executor.functions
      (executor.effectiveMaxOutputResults query)

def checkQuery : Except String CurrentValidTime :=
  if !query.hasBindingMechanism then
    .error ("query has no :where clause, rules, or aggregates — nothing binds the variables. " ++
      "Add a :where clause (e.g., [:find ?e ?a ?v :where [?e ?a ?v]]) or use an aggregate.")
  else do
    let validTime ← validTimeOf query.validAt executor.readNow
    if clausesUsePerFactPseudoAttr query.whereClauses && validTime ≠ .any then
      .error ("temporal pseudo-attributes :db/valid-from, :db/valid-to, :db/tx-count, and " ++
        ":db/tx-id require :any-valid-time; add :any-valid-time to your query")
    else .ok validTime

def generalQuery : Except String (List (List Value)) := do
  let validTime ← executor.checkQuery query
  let source ← executor.sourceFacts ext query
  executor.answerFrom ext query validTime source

/-- `execute_query` for a query without rule invocations. -/
def executeQuery : Except String (List (List Value)) :=
  match ownedAttributeAggregate query with
  | some (attr, entityVar, valueVar) => do
    let _ ← executor.checkQuery query
    executor.streamingAggregate ext query attr entityVar valueVar
  | none => executor.generalQuery ext query

end DatalogExecutor

end ViciaDb
