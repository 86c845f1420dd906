import ViciaDb.Graph.Types

namespace ViciaDb

inductive EdnValue where
  | keyword (k : String)
  | symbol (s : String)
  | string (s : String)
  | integer (i : Int64)
  | float (f : F64)
  | boolean (b : Bool)
  | uuid (id : EntityId)
  | vector (items : List EdnValue)
  | list (items : List EdnValue)
  | map (entries : List (EdnValue × EdnValue))
  | nil
  | bindSlot (name : String)
  deriving Repr

inductive WindowFunc where
  | sum | count | min | max | avg | rank | rowNumber
  | udf (name : String)
  deriving DecidableEq, Repr

inductive Order where
  | asc | desc
  deriving DecidableEq, Repr

structure WindowSpec where
  func : WindowFunc
  var : Option String
  partitionBy : Option String
  orderBy : String
  order : Order
  deriving DecidableEq, Repr

/-- The compiled regex of `matches?` is a function of its pattern, so only the pattern is kept. -/
inductive BinOp where
  | lt | gt | lte | gte | eq | neq
  | add | sub | mul | div
  | startsWith | endsWith | contains
  | matchesPattern (pattern : String)
  deriving DecidableEq, Repr

inductive UnaryOp where
  | stringQ | integerQ | floatQ | booleanQ | nilQ
  | udf (name : String)
  deriving DecidableEq, Repr

inductive Expr where
  | var (name : String)
  | lit (value : Value)
  | slot (name : String)
  | binOp (op : BinOp) (lhs rhs : Expr)
  | unaryOp (op : UnaryOp) (arg : Expr)
  deriving DecidableEq, Repr

inductive FindSpec where
  | variable (name : String)
  | aggregate (func var : String)
  | window (spec : WindowSpec)
  deriving DecidableEq, Repr

inductive PseudoAttr where
  | validFrom | validTo | txCount | txId | validAt
  deriving DecidableEq, Repr

inductive AttributeSpec where
  | real (attr : EdnValue)
  | pseudo (attr : PseudoAttr)
  deriving Repr

structure Pattern where
  entity : EdnValue
  attr : AttributeSpec
  value : EdnValue
  validFrom : Option Int64
  validTo : Option Int64
  deriving Repr

inductive WhereClause where
  | pattern (p : Pattern)
  | ruleInvocation (predicate : String) (args : List EdnValue)
  | not (clauses : List WhereClause)
  | notJoin (joinVars : List String) (clauses : List WhereClause)
  | expr (e : Expr) (binding : Option String)
  | or (branches : List (List WhereClause))
  | orJoin (joinVars : List String) (branches : List (List WhereClause))
  deriving Repr

inductive AsOf where
  | counter (n : UInt64)
  | timestamp (t : Int64)
  | slot (name : String)
  deriving DecidableEq, Repr

inductive ValidAt where
  | timestamp (t : Int64)
  | anyValidTime
  | slot (name : String)
  deriving DecidableEq, Repr

structure DatalogQuery where
  find : List FindSpec
  whereClauses : List WhereClause
  asOf : Option AsOf
  validAt : Option ValidAt
  withVars : List String
  maxDerivedFacts : Option Nat
  maxResults : Option Nat
  deriving Repr

structure Rule where
  head : List EdnValue
  body : List WhereClause
  deriving Repr

end ViciaDb
