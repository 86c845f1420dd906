import ViciaDb.Query.Expr
import ViciaDb.Query.Matcher
import ViciaDb.Storage.Index

namespace ViciaDb

structure Triple where
  entity : EntityId
  attr : String
  value : Value
  deriving DecidableEq, Repr

def Fact.triple (fact : Fact) : Triple := ⟨fact.entity, fact.attr, fact.value⟩

def Triple.key (t : Triple) : EntityId × String × List UInt8 :=
  (t.entity, t.attr, encodeValue t.value)

structure RuleRegistry where
  rules : List (String × List Rule)

def RuleRegistry.getRules (registry : RuleRegistry) (predicate : String) : List Rule :=
  (registry.rules.lookup predicate).getD []

structure Limits where
  maxIterations : Nat
  maxDerivedFacts : Nat
  maxResults : Nat

def Pattern.plain (entity attr value : EdnValue) : Pattern where
  entity := entity
  attr := .real attr
  value := value
  validFrom := none
  validTo := none

def ruleInvocationToPattern (predicate : String) (args : List EdnValue) : Except String Pattern :=
  match args with
  | [arg0] => .ok (.plain arg0 (.keyword (":" ++ predicate)) (.symbol "?_rule_value"))
  | [arg0, arg1] => .ok (.plain arg0 (.keyword (":" ++ predicate)) arg1)
  | args => .error
      s!"Rule invocation '{predicate}' must have 1 or 2 arguments, got {args.length}"

/-- The pattern a clause is matched as; an invocation with a wrong number of arguments and a clause
    of another kind have none. -/
def WhereClause.asPattern : WhereClause → Option Pattern
  | .pattern p => some p
  | .ruleInvocation predicate args => (ruleInvocationToPattern predicate args).toOption
  | _ => none

def evaluatorValueToEdn : Value → EdnValue
  | .null => .symbol "nil"
  | value => valueToEdn value

def substituteVariable (edn : EdnValue) (binding : Bindings) : Except String EdnValue :=
  match edn.asVariable with
  | some name =>
    match binding.lookup (.var name) with
    | some value => .ok (evaluatorValueToEdn value)
    | none => .error s!"Unbound variable in rule head: {name}"
  | none => .ok edn

/-- A storage that stamps the facts transacted into it: `clock` gives the instant of its nth
    transaction. -/
def transactDerived (clock : Nat → UInt64) (storage : List Fact) (t : Triple) : List Fact :=
  let txId := clock storage.length
  storage ++ [{
    entity := t.entity
    attr := t.attr
    value := t.value
    txId := txId
    txCount := .ofNat (storage.length + 1)
    validFrom := if txId.toNat < 2^63 then txId.toInt64 else Int64.maxValue
    validTo := validTimeForever
    asserted := true }]

variable (ext : Externals)

def instantiateHead (head : List EdnValue) (binding : Bindings) : Except String Triple :=
  match head with
  | .symbol predicate :: entityArg :: rest => do
    let entityEdn ← substituteVariable entityArg binding
    let entity ← (ednToEntityId ext entityEdn).mapError ("Failed to convert entity: " ++ ·)
    let value ← match rest with
      | [] => .ok (.boolean true)
      | valueArg :: _ => do
        let valueEdn ← substituteVariable valueArg binding
        (ednToValue ext valueEdn).mapError ("Failed to convert value: " ++ ·)
    .ok ⟨entity, ":" ++ predicate, value⟩
  | _ :: _ :: _ => .error "Rule head must start with predicate name (symbol)"
  | _ => .error "Rule head must have at least 2 elements: (predicate ?arg1)"

def bodyPatterns : List WhereClause → Except String (List Pattern)
  | [] => .ok []
  | .pattern p :: rest => do
    .ok (p :: (← bodyPatterns rest))
  | .ruleInvocation predicate args :: rest => do
    let p ← ruleInvocationToPattern predicate args
    .ok (p :: (← bodyPatterns rest))
  | .expr _ _ :: rest => bodyPatterns rest
  | .not _ :: _ => .error
      "WhereClause::Not in evaluate_rule: use StratifiedEvaluator for rules with negation"
  | .notJoin _ _ :: _ => .error
      "WhereClause::NotJoin in evaluate_rule: use StratifiedEvaluator for rules with negation"
  | .or _ :: _ | .orJoin _ _ :: _ => .error
      "WhereClause::Or/OrJoin in evaluate_rule: not yet implemented"

def evaluateRule (functions : FunctionRegistry) (rule : Rule) (current : List Fact) :
    Except String (List Triple) := do
  let patterns ← bodyPatterns rule.body
  let exprs := rule.body.filter WhereClause.isExpr
  if patterns.isEmpty && exprs.isEmpty then .ok []
  else
    let rows :=
      if patterns.isEmpty then [∅] else (PatternMatcher.new current).matchPatterns ext patterns
    let rows ← applyExprClausesInEvaluator ext functions rows exprs
    rows.mapM (instantiateHead ext rule.head)

def evaluateIteration (functions : FunctionRegistry) (registry : RuleRegistry)
    (predicates : List String) (current : List Fact) : Except String (List Triple) := do
  let derived ← (predicates.flatMap registry.getRules).mapM
    fun rule => evaluateRule ext functions rule current
  .ok derived.flatten

def newDelta (maxResults : Nat) :
    List Triple → List (EntityId × String × List UInt8) →
      Except String (List Triple × List (EntityId × String × List UInt8))
  | [], seen => .ok ([], seen)
  | t :: rest, seen =>
    if t.key ∈ seen then newDelta maxResults rest seen
    else if maxResults ≤ seen.length then .error s!"Max query results ({maxResults}) exceeded."
    else do
      let (delta, seen) ← newDelta maxResults rest (t.key :: seen)
      .ok (t :: delta, seen)

def evaluateLoop (functions : FunctionRegistry) (registry : RuleRegistry)
    (predicates : List String) (limits : Limits) (clock : Nat → UInt64) :
    Nat → List Fact → List (EntityId × String × List UInt8) → Except String (List Fact)
  | 0, _, _ => .error (s!"Max iterations ({limits.maxIterations}) exceeded. " ++
      "Possible infinite recursion or cycle in rules.")
  | remaining + 1, derived, seen => do
    let newFacts ← evaluateIteration ext functions registry predicates derived
    if limits.maxDerivedFacts < newFacts.length then
      .error (s!"Max derived facts per iteration ({limits.maxDerivedFacts}) exceeded. " ++
        "Rule may be generating too many facts.")
    else do
      let (delta, seen) ← newDelta limits.maxResults newFacts seen
      if delta.isEmpty then .ok derived
      else
        evaluateLoop functions registry predicates limits clock remaining
          (delta.foldl (transactDerived clock) derived) seen

def evaluateRecursiveRules (functions : FunctionRegistry) (registry : RuleRegistry)
    (predicates : List String) (limits : Limits) (clock : Nat → UInt64) (storage : List Fact) :
    Except String (List Fact) :=
  let base := (storage.filter Fact.asserted).map Fact.triple
  evaluateLoop ext functions registry predicates limits clock limits.maxIterations
    (base.foldl (transactDerived clock) []) (base.map Triple.key).dedup

end ViciaDb
