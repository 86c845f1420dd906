import ViciaDb.Query.NotClauses

namespace ViciaDb

/-- What a branch is evaluated against. `validAt` is the value of `:db/valid-at`, an error while there is
    a bind slot. -/
structure BranchContext where
  functions : FunctionRegistry
  facts : List Fact
  validAt : Except String Value
  maxResults : Nat

structure Branch where
  cost : Nat
  hasNot : Bool
  evaluate : List Bindings → Except String (List Bindings)

def WhereClause.isNot : WhereClause → Bool
  | .not _ | .notJoin _ _ => true
  | _ => false

def visible (row : Bindings) : Bindings := row.filterKeys fun key => !key.isHidden

def sameOn (vars : Finset Key) (a b : Bindings) : Bool :=
  decide (∀ key ∈ vars, (match a.lookup key, b.lookup key with
    | some v, some w => v.hashEq w
    | none, none => true
    | _, _ => false) = true)

def sameRow (a b : Bindings) : Bool := sameOn (a.keys ∪ b.keys) a b

def collectNew (key : Bindings → Bindings) (maxResults : Nat) (results : List Bindings) :
    List Bindings → Except String (List Bindings)
  | [] => .ok results
  | row :: rest =>
    if results.any fun seen => sameRow (key seen) (key row) then
      collectNew key maxResults results rest
    else if maxResults ≤ results.length then .error (PatternMatcher.workExceeded maxResults)
    else collectNew key maxResults (results ++ [row]) rest

def uniteBranches (key : Bindings → Bindings) (keep : Bindings → Option Bindings) (maxResults : Nat)
    (branches : List Branch) (seed : List Bindings) : Except String (List Bindings) :=
  branches.foldlM (fun results branch => do
    let rows ← branch.evaluate seed
    collectNew key maxResults results (rows.filterMap keep)) []

def boundKeys (rows : List Bindings) : Finset Key :=
  rows.foldr (fun row keys => row.keys ∪ keys) ∅

def joinBranches (vars : Finset Key) (maxResults : Nat) (incoming union : List Bindings) :
    Except String (List Bindings) :=
  incoming.foldlM (fun results row =>
    collectNew id maxResults results
      ((union.filter fun found => sameOn vars found row).map fun found => row ∪ found)) []

def sortBranches (branches : List Branch) : List Branch :=
  branches.insertionSort fun a b => a.cost ≤ b.cost

def applyOr (maxResults : Nat) (branches : List Branch) (rows : List Bindings) :
    Except String (List Bindings) :=
  let branches := sortBranches branches
  if branches.any Branch.hasNot then uniteBranches visible some maxResults branches rows
  else do
    let union ← uniteBranches visible some maxResults branches [∅]
    let shared := (boundKeys rows ∩ boundKeys union).filter fun key => !key.isHidden
    if shared = ∅ then .ok union else joinBranches shared maxResults rows union

def applyOrJoin (maxResults : Nat) (joinVars : List String) (branches : List Branch)
    (rows : List Bindings) : Except String (List Bindings) :=
  let branches := sortBranches branches
  let outer := boundKeys rows
  match joinVars.find? fun name => Key.var name ∉ outer with
  | some name => .error s!"or-join variable {name} is not bound in the incoming scope"
  | none => do
    let vars := (joinVars.map Key.var).toFinset
    let projected ← uniteBranches id (fun row =>
      if vars ⊆ row.keys then some (row.filterKeys fun key => key ∈ outer) else none)
      maxResults branches [∅]
    joinBranches vars maxResults rows projected

variable (ext : Externals) (ctx : BranchContext)

def notFilter (validAt : Value) (clauses : List WhereClause) (row : Bindings) :
    Except String Bool :=
  match clauses with
  | [] => .ok true
  | .not body :: rest => do
    if ← notBodyMatches ext ctx.functions body row ctx.facts validAt then .ok false
    else notFilter validAt rest row
  | _ :: rest => notFilter validAt rest row

def notJoinFilter (clauses : List WhereClause) (row : Bindings) : Except String Bool :=
  match clauses with
  | [] => .ok true
  | .notJoin joinVars body :: rest => do
    if ← evaluateNotJoin ext ctx.functions joinVars body row ctx.facts then .ok false
    else notJoinFilter rest row
  | _ :: rest => notJoinFilter rest row

def keepRow (validAt : Value) (clauses : List WhereClause) (row : Bindings) :
    Except String (Option Bindings) := do
  if ← notFilter ext ctx validAt clauses row then
    if ← notJoinFilter ext ctx clauses row then .ok (some row) else .ok none
  else .ok none

def matchBranch (matcher : PatternMatcher) (patterns : List Pattern) (incoming : List Bindings)
    (maxResults : Nat) : Except String (List Bindings) :=
  if patterns.isEmpty then .ok incoming
  else matcher.matchPatternsBounded ext patterns incoming maxResults

/-- `evaluate_branch`, given how the nested `or` clauses of the branch are applied. -/
def evaluateBranchWith (branch : List WhereClause)
    (nested : List Bindings → Except String (List Bindings)) (incoming : List Bindings) :
    Except String (List Bindings) :=
  match incoming with
  | [] => .ok []
  | incoming => do
    let validAt ← ctx.validAt
    let patterns := branch.filterMap WhereClause.asPattern
    let matcher := PatternMatcher.fromSliceWithValidAtAndMetadata ctx.facts validAt
      (clausesUsePerFactPseudoAttr branch)
    let rows ← matchBranch ext matcher patterns incoming ctx.maxResults
    if rows.isEmpty then .ok []
    else do
      let rows ← nested rows
      if rows.isEmpty then .ok []
      else do
        let kept ← rows.mapM (keepRow ext ctx validAt branch)
        applyExprClauses ext ctx.functions kept.reduceOption branch

mutual

def applyOrClause : WhereClause → List Bindings → Except String (List Bindings)
  | .or branches, rows => applyOr ctx.maxResults (branchEvaluators branches) rows
  | .orJoin joinVars branches, rows =>
    applyOrJoin ctx.maxResults joinVars (branchEvaluators branches) rows
  | .pattern _, rows | .ruleInvocation _ _, rows | .not _, rows | .notJoin _ _, rows
  | .expr _ _, rows => .ok rows

def applyOrClauses : List WhereClause → List Bindings → Except String (List Bindings)
  | [], rows => .ok rows
  | clause :: rest, rows => do
    let rows ← applyOrClause clause rows
    applyOrClauses rest rows

def branchEvaluators : List (List WhereClause) → List Branch
  | [] => []
  | branch :: rest =>
    { cost := branchCost branch
      hasNot := branch.any WhereClause.isNot
      evaluate := evaluateBranchWith ext ctx branch (applyOrClauses branch) } ::
      branchEvaluators rest

end

def evaluateBranch (branch : List WhereClause) (incoming : List Bindings) :
    Except String (List Bindings) :=
  evaluateBranchWith ext ctx branch (applyOrClauses ext ctx branch) incoming

end ViciaDb
