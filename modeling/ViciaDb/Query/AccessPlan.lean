import ViciaDb.Graph.FactLog
import ViciaDb.Lib.SortedMap
import ViciaDb.Query.Matcher
import ViciaDb.Query.ValueOrder

namespace ViciaDb

def maxSelectiveLookups : Nat := 16

def maxSelectiveEntityLookups : Nat := 128

inductive QueryLookup where
  | entity (id : EntityId)
  | attr (name : String)
  deriving DecidableEq, Repr

def QueryLookup.cmp : QueryLookup → QueryLookup → Ordering
  | .entity a, .entity b => compare a b
  | .entity _, .attr _ => .lt
  | .attr _, .entity _ => .gt
  | .attr a, .attr b => compareStrings a b

def QueryLookup.isEntity : QueryLookup → Bool
  | .entity _ => true
  | .attr _ => false

abbrev LookupSet := List (QueryLookup × Unit)

def LookupSet.add (lookups : LookupSet) (lookup : QueryLookup) : LookupSet :=
  SortedMap.insert QueryLookup.cmp lookup () lookups

inductive QueryAccessPlan where
  | fullScan
  | selective (lookups : List QueryLookup)
  deriving DecidableEq, Repr

mutual

def WhereClause.hasRuleInvocation : WhereClause → Bool
  | .ruleInvocation _ _ => true
  | .not clauses | .notJoin _ clauses => anyRuleInvocation clauses
  | .or branches | .orJoin _ branches => anyBranchRuleInvocation branches
  | .pattern _ | .expr _ _ => false

def anyRuleInvocation : List WhereClause → Bool
  | [] => false
  | clause :: rest => clause.hasRuleInvocation || anyRuleInvocation rest

def anyBranchRuleInvocation : List (List WhereClause) → Bool
  | [] => false
  | branch :: rest => anyRuleInvocation branch || anyBranchRuleInvocation rest

end

def DatalogQuery.usesRules (query : DatalogQuery) : Bool := anyRuleInvocation query.whereClauses

variable (ext : Externals)

def Pattern.namedEntity (p : Pattern) : Option EntityId :=
  match p.entity with
  | .uuid id => some id
  | .keyword k => (ednToEntityId ext (.keyword k)).toOption
  | _ => none

def Pattern.addLookup (p : Pattern) (lookups : LookupSet) : Option LookupSet :=
  match p.namedEntity ext with
  | some id => some (lookups.add (.entity id))
  | none =>
    match p.attr with
    | .real (.keyword name) => some (lookups.add (.attr name))
    | .pseudo _ => some lookups
    | .real _ => none

mutual

def WhereClause.collectLookups : WhereClause → LookupSet → Option LookupSet
  | .pattern p, lookups => p.addLookup ext lookups
  | .not clauses, lookups | .notJoin _ clauses, lookups => ViciaDb.collectLookups clauses lookups
  | .or branches, lookups | .orJoin _ branches, lookups => collectBranchLookups branches lookups
  | .ruleInvocation _ _, _ => none
  | .expr _ _, lookups => some lookups

def collectLookups : List WhereClause → LookupSet → Option LookupSet
  | [], lookups => some lookups
  | clause :: rest, lookups => do
    let lookups ← clause.collectLookups lookups
    collectLookups rest lookups

def collectBranchLookups : List (List WhereClause) → LookupSet → Option LookupSet
  | [], lookups => some lookups
  | branch :: rest, lookups => do
    let lookups ← collectLookups branch lookups
    collectBranchLookups rest lookups

end

def QueryAccessPlan.forQuery (query : DatalogQuery) : QueryAccessPlan :=
  if query.usesRules then .fullScan
  else
    match collectLookups ext query.whereClauses [] with
    | none => .fullScan
    | some lookups =>
      let lookups := lookups.map Prod.fst
      let limit := if lookups.all QueryLookup.isEntity then maxSelectiveEntityLookups
        else maxSelectiveLookups
      if lookups.isEmpty || limit < lookups.length then .fullScan else .selective lookups

def QueryLookup.read (log : FactLog) (maxFacts : Nat) : QueryLookup → Except String (List Fact)
  | .entity id => getFactsByEntityBounded log id maxFacts
  | .attr name => getFactsByAttributeBounded log name maxFacts

def addCandidates (maxFacts : Nat) (facts : List Fact) :
    List Fact → Except String (List Fact)
  | [] => .ok facts
  | fact :: rest =>
    if facts.any (·.sameRecord fact) then addCandidates maxFacts facts rest
    else if maxFacts ≤ facts.length then .error (sourceWorkExceeded maxFacts)
    else addCandidates maxFacts (facts ++ [fact]) rest

def QueryAccessPlan.readFactsBounded (log : FactLog) (maxFacts : Nat) :
    QueryAccessPlan → Except String (List Fact)
  | .fullScan => getAllFactsBounded log maxFacts
  | .selective [lookup] => lookup.read log maxFacts
  | .selective lookups => lookups.foldlM (fun facts lookup => do
      let candidates ← lookup.read log maxFacts
      addCandidates maxFacts facts candidates) []

end ViciaDb
