import ViciaDb.Query.Evaluator
import ViciaDb.Query.Optimizer

namespace ViciaDb

mutual

def WhereClause.usesPerFactPseudoAttr : WhereClause → Bool
  | .pattern p =>
    match p.attr with
    | .pseudo pseudo => pseudo.isPerFact
    | .real _ => false
  | .not inner => clausesUsePerFactPseudoAttr inner
  | .notJoin _ inner => clausesUsePerFactPseudoAttr inner
  | .or branches => branchesUsePerFactPseudoAttr branches
  | .orJoin _ branches => branchesUsePerFactPseudoAttr branches
  | .ruleInvocation _ _ | .expr _ _ => false

def clausesUsePerFactPseudoAttr : List WhereClause → Bool
  | [] => false
  | clause :: rest => clause.usesPerFactPseudoAttr || clausesUsePerFactPseudoAttr rest

def branchesUsePerFactPseudoAttr : List (List WhereClause) → Bool
  | [] => false
  | branch :: rest => clausesUsePerFactPseudoAttr branch || branchesUsePerFactPseudoAttr rest

end

def substituteValue (edn : EdnValue) (binding : Bindings) : EdnValue :=
  match edn.asVariable with
  | some name =>
    match binding.lookup (.var name) with
    | some value => evaluatorValueToEdn value
    | none => edn
  | none => edn

def substitutePatternVars (p : Pattern) (binding : Bindings) : Pattern :=
  { p with
    entity := substituteValue p.entity binding
    attr := match p.attr with
      | .real attr => .real (substituteValue attr binding)
      | .pseudo pseudo => .pseudo pseudo
    value := substituteValue p.value binding }

/-- The name of a user predicate an expression clause applies at its top and that is not
    registered. -/
def unknownPredicate (functions : FunctionRegistry) : WhereClause → Option String
  | .expr (.unaryOp (.udf name) _) _ =>
    if (functions.predicates name).isNone then some name else none
  | _ => none

variable (ext : Externals)

def applyExprToRows (functions : FunctionRegistry) (rows : List Bindings) (clause : WhereClause) :
    Except String (List Bindings) :=
  match clause with
  | .expr expr out => do
    let kept ← rows.mapM (applyExpr ext functions expr out)
    .ok kept.reduceOption
  | _ => .ok rows

def applyExprClauses (functions : FunctionRegistry) (rows : List Bindings)
    (clauses : List WhereClause) : Except String (List Bindings) :=
  match clauses.findSome? (unknownPredicate functions) with
  | some name => .error s!"unknown predicate: '{name}'"
  | none => clauses.foldlM (applyExprToRows ext functions) rows

def withOuter (outer row : Bindings) : Bindings := row ∪ outer

/-- `not_body_matches`. An unknown predicate in the body counts as no match. -/
def notBodyMatches (functions : FunctionRegistry) (body : List WhereClause) (outer : Bindings)
    (facts : List Fact) (validAt : Value) : Except String Bool :=
  let patterns := body.filterMap fun clause =>
    clause.asPlainPattern.map fun p => substitutePatternVars p outer
  let matcher := PatternMatcher.fromSliceWithValidAtAndMetadata facts validAt
    (clausesUsePerFactPseudoAttr body)
  let rows :=
    if patterns.isEmpty then [outer]
    else (matcher.matchPatterns ext patterns).map (withOuter outer)
  if (body.findSome? (unknownPredicate functions)).isSome then .ok false
  else do
    let rows ← body.foldlM (applyExprToRows ext functions) rows
    .ok !rows.isEmpty

def WhereClause.substituted (row : Bindings) : WhereClause → Option Pattern
  | .pattern p => some (substitutePatternVars p row)
  | .ruleInvocation predicate args =>
    (ruleInvocationToPattern predicate args).toOption.map fun p => substitutePatternVars p row
  | _ => none

def evaluateNotJoin (functions : FunctionRegistry) (joinVars : List String)
    (clauses : List WhereClause) (binding : Bindings) (facts : List Fact) : Except String Bool := do
  let partialRow := binding.filterKeys fun key =>
    match key with
    | .var name => joinVars.contains name
    | _ => false
  let patterns := clauses.filterMap (WhereClause.substituted partialRow)
  let rows :=
    if patterns.isEmpty then [partialRow]
    else ((PatternMatcher.fromSlice facts).matchPatterns ext patterns).map (withOuter partialRow)
  let rows ← applyExprClausesInEvaluator ext functions rows (clauses.filter WhereClause.isExpr)
  .ok !rows.isEmpty

end ViciaDb
