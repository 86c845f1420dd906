import Mathlib.Data.List.Sort
import ViciaDb.Query.Expr
import ViciaDb.Query.Matcher

namespace ViciaDb

def EdnValue.isVariable (edn : EdnValue) : Bool := edn.asVariable.isSome

def attrIsIndexBound : AttributeSpec → Bool
  | .real attr => !attr.isVariable
  | .pseudo _ => false

def selectivityScore (p : Pattern) : Nat :=
  (if p.entity.isVariable then 0 else 1) + (if attrIsIndexBound p.attr then 1 else 0) +
    (if p.value.isVariable then 0 else 1)

def patternCost (p : Pattern) : Nat :=
  match selectivityScore p with
  | 3 => 1
  | 2 => 10
  | 1 => 100
  | _ => 10000

def branchCost (branch : List WhereClause) : Nat :=
  ((branch.filterMap fun clause =>
    match clause with
    | .pattern p => some (patternCost p)
    | _ => none).min?).getD 0

def PseudoAttr.isPerFact (pseudo : PseudoAttr) : Bool := pseudo.field.isSome

/-- The variables a pattern may bind for the planner; unlike `Pattern.vars` it counts `?_` names. -/
def patternBoundVars (p : Pattern) : List String :=
  p.entity.asVariable.toList ++
    (match p.attr with
      | .real attr => attr.asVariable.toList
      | .pseudo _ => []) ++
    p.value.asVariable.toList

structure FactPatternBundle where
  first : Pattern
  more : List Pattern

def FactPatternBundle.entries (bundle : FactPatternBundle) : List Pattern :=
  bundle.first :: bundle.more

mutual

def EdnValue.same : EdnValue → EdnValue → Bool
  | .keyword a, .keyword b => a == b
  | .symbol a, .symbol b => a == b
  | .string a, .string b => a == b
  | .integer a, .integer b => a == b
  | .float a, .float b => a.eq b
  | .boolean a, .boolean b => a == b
  | .uuid a, .uuid b => a == b
  | .vector a, .vector b => EdnValue.sameItems a b
  | .list a, .list b => EdnValue.sameItems a b
  | .map a, .map b => EdnValue.sameEntries a b
  | .nil, .nil => true
  | .bindSlot a, .bindSlot b => a == b
  | _, _ => false

def EdnValue.sameItems : List EdnValue → List EdnValue → Bool
  | [], [] => true
  | a :: as, b :: bs => a.same b && EdnValue.sameItems as bs
  | _, _ => false

def EdnValue.sameEntries : List (EdnValue × EdnValue) → List (EdnValue × EdnValue) → Bool
  | [], [] => true
  | (k, v) :: as, (k', v') :: bs => k.same k' && v.same v' && EdnValue.sameEntries as bs
  | _, _ => false

end

/-- Only a bundle that a real pattern opened accepts, and only pseudo patterns of its entity. -/
def FactPatternBundle.acceptsPerFactPseudo (bundle : FactPatternBundle) (p : Pattern) : Bool :=
  match bundle.first.attr, p.attr with
  | .real _, .pseudo pseudo => pseudo.isPerFact && bundle.first.entity.same p.entity
  | _, _ => false

def addToBundles (bundles : List FactPatternBundle) (p : Pattern) : List FactPatternBundle :=
  match bundles.getLast? with
  | some last =>
    if last.acceptsPerFactPseudo p then bundles.dropLast ++ [{ last with more := last.more ++ [p] }]
    else bundles ++ [⟨p, []⟩]
  | none => [⟨p, []⟩]

def bundlePatterns (patterns : List Pattern) : List FactPatternBundle :=
  patterns.foldl addToBundles []

def WhereClause.asPlainPattern : WhereClause → Option Pattern
  | .pattern p => some p
  | _ => none

/-- Where an expression is scheduled: after the first pattern with which all its variables are
    bound, or at the end. -/
def exprPosition (patterns : List Pattern) (vars : List String) : Option Nat :=
  if vars.isEmpty then none
  else (List.range patterns.length).find? fun i =>
    vars.all fun x => ((patterns.take (i + 1)).flatMap patternBoundVars).contains x

def sortBundles (bundles : List FactPatternBundle) : List FactPatternBundle :=
  bundles.insertionSort fun a b => selectivityScore b.first ≤ selectivityScore a.first

def planPatterns (clauses : List WhereClause) : List Pattern :=
  (sortBundles (bundlePatterns (clauses.filterMap WhereClause.asPlainPattern))).flatMap
    FactPatternBundle.entries

def exprVars : WhereClause → List String
  | .expr e _ => e.vars
  | _ => []

def plan (clauses : List WhereClause) : List WhereClause :=
  let patterns := planPatterns clauses
  let exprs := clauses.filter WhereClause.isExpr
  let scheduledAt := fun position : Option Nat =>
    exprs.filter fun clause => exprPosition patterns (exprVars clause) == position
  (patterns.zipIdx.flatMap fun (p, i) => .pattern p :: scheduledAt (some i)) ++ scheduledAt none

end ViciaDb
