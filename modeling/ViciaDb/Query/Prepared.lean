import Mathlib.Data.List.Dedup
import Mathlib.Data.List.Sort
import ViciaDb.Query.Types

namespace ViciaDb

inductive BindValue where
  | entity (u : EntityId)
  | val (v : Value)
  | txCount (n : UInt64)
  | timestamp (t : Int64)
  | anyValidTime
  deriving DecidableEq, Repr

def bindValueTypeName : BindValue → String
  | .entity _ => "Entity"
  | .val _ => "Val"
  | .txCount _ => "TxCount"
  | .timestamp _ => "Timestamp"
  | .anyValidTime => "AnyValidTime"

abbrev BindingMap := String → Option BindValue

def bindingMap (bindings : List (String × BindValue)) : BindingMap :=
  fun name => bindings.reverse.lookup name

def missingBindValue (name : String) : String := "missing bind value for slot '$" ++ name ++ "'"

def slotTypeError (name position required : String) (other : BindValue) : String :=
  "slot '$" ++ name ++ "' in " ++ position ++ " position requires " ++ required ++ ", got " ++
    bindValueTypeName other

def preparedValueToEdn : Value → EdnValue
  | .string s => .string s
  | .integer i => .integer i
  | .float f => .float f
  | .boolean b => .boolean b
  | .keyword k => .keyword k
  | .ref u => .uuid u
  | .null => .nil

section Resolvers

variable (name : String) (bindings : BindingMap)

def resolveEntitySlot : Except String EdnValue :=
  match bindings name with
  | some (.entity u) => .ok (.uuid u)
  | some other => .error (slotTypeError name "entity" "Entity" other)
  | none => .error (missingBindValue name)

def resolveValueSlot : Except String EdnValue :=
  match bindings name with
  | some (.val v) => .ok (preparedValueToEdn v)
  | some other => .error (slotTypeError name "value" "Val" other)
  | none => .error (missingBindValue name)

def resolveValSlot : Except String Value :=
  match bindings name with
  | some (.val v) => .ok v
  | some other => .error (slotTypeError name "expression" "Val" other)
  | none => .error (missingBindValue name)

def resolveAsOfSlot : Except String AsOf :=
  match bindings name with
  | some (.txCount n) => .ok (.counter n)
  | some (.timestamp t) => .ok (.timestamp t)
  | some other => .error (slotTypeError name ":as-of" "TxCount or Timestamp" other)
  | none => .error (missingBindValue name)

def resolveValidAtSlot : Except String ValidAt :=
  match bindings name with
  | some (.timestamp t) => .ok (.timestamp t)
  | some .anyValidTime => .ok .anyValidTime
  | some other => .error (slotTypeError name ":valid-at" "Timestamp or AnyValidTime" other)
  | none => .error (missingBindValue name)

end Resolvers

def substituteExpr (bindings : BindingMap) : Expr → Except String Expr
  | .slot name => do return .lit (← resolveValSlot name bindings)
  | .binOp op lhs rhs => do
    let lhs ← substituteExpr bindings lhs
    return .binOp op lhs (← substituteExpr bindings rhs)
  | .unaryOp op arg => do return .unaryOp op (← substituteExpr bindings arg)
  | e => .ok e

def substituteEdnValue (bindings : BindingMap) : EdnValue → Except String EdnValue
  | .bindSlot name => resolveValueSlot name bindings
  | e => .ok e

def substituteEntity (bindings : BindingMap) : EdnValue → Except String EdnValue
  | .bindSlot name => resolveEntitySlot name bindings
  | e => .ok e

def substitutePattern (bindings : BindingMap) (p : Pattern) : Except String Pattern := do
  let entity ← substituteEntity bindings p.entity
  let value ← substituteEdnValue bindings p.value
  return { p with entity, value }

mutual

def substituteWhereClause (bindings : BindingMap) : WhereClause → Except String WhereClause
  | .pattern p => do return .pattern (← substitutePattern bindings p)
  | .not clauses => do return .not (← substituteWhereClauses bindings clauses)
  | .notJoin joinVars clauses => do
    return .notJoin joinVars (← substituteWhereClauses bindings clauses)
  | .or branches => do return .or (← substituteBranches bindings branches)
  | .orJoin joinVars branches => do return .orJoin joinVars (← substituteBranches bindings branches)
  | .expr e binding => do return .expr (← substituteExpr bindings e) binding
  | .ruleInvocation predicate args => do
    return .ruleInvocation predicate (← args.mapM (substituteEdnValue bindings))

def substituteWhereClauses (bindings : BindingMap) :
    List WhereClause → Except String (List WhereClause)
  | [] => .ok []
  | c :: cs => do
    let c ← substituteWhereClause bindings c
    return c :: (← substituteWhereClauses bindings cs)

def substituteBranches (bindings : BindingMap) :
    List (List WhereClause) → Except String (List (List WhereClause))
  | [] => .ok []
  | b :: bs => do
    let b ← substituteWhereClauses bindings b
    return b :: (← substituteBranches bindings bs)

end

/-- The field is moved out of the template with `Option::take` and written back only when it
    holds a slot. -/
def substituteAsOf (bindings : BindingMap) : Option AsOf → Except String (Option AsOf)
  | some (.slot name) => do return some (← resolveAsOfSlot name bindings)
  | _ => .ok none

def substituteValidAt (bindings : BindingMap) : Option ValidAt → Except String (Option ValidAt)
  | some (.slot name) => do return some (← resolveValidAtSlot name bindings)
  | _ => .ok none

def substitute (template : DatalogQuery) (bindings : BindingMap) : Except String DatalogQuery := do
  let asOf ← substituteAsOf bindings template.asOf
  let validAt ← substituteValidAt bindings template.validAt
  let whereClauses ← substituteWhereClauses bindings template.whereClauses
  return { template with asOf, validAt, whereClauses }

def collectSlotsFromExpr : Expr → List String
  | .slot name => [name]
  | .binOp _ l r => collectSlotsFromExpr l ++ collectSlotsFromExpr r
  | .unaryOp _ arg => collectSlotsFromExpr arg
  | _ => []

def topLevelSlot : EdnValue → List String
  | .bindSlot name => [name]
  | _ => []

mutual

def collectSlotsFromClause : WhereClause → List String
  | .pattern p => topLevelSlot p.entity ++ topLevelSlot p.value
  | .not inner => collectSlotsFromClauses inner
  | .notJoin _ inner => collectSlotsFromClauses inner
  | .or branches => collectSlotsFromBranches branches
  | .orJoin _ branches => collectSlotsFromBranches branches
  | .expr e _ => collectSlotsFromExpr e
  | .ruleInvocation _ args => args.flatMap topLevelSlot

def collectSlotsFromClauses : List WhereClause → List String
  | [] => []
  | c :: cs => collectSlotsFromClause c ++ collectSlotsFromClauses cs

def collectSlotsFromBranches : List (List WhereClause) → List String
  | [] => []
  | b :: bs => collectSlotsFromClauses b ++ collectSlotsFromBranches bs

end

def asOfSlot : Option AsOf → List String
  | some (.slot name) => [name]
  | _ => []

def validAtSlot : Option ValidAt → List String
  | some (.slot name) => [name]
  | _ => []

def collectSlotNames (query : DatalogQuery) : List String :=
  (asOfSlot query.asOf ++ validAtSlot query.validAt ++
    collectSlotsFromClauses query.whereClauses).dedup.insertionSort (· ≤ ·)

def attributeSlotError (name : String) : String :=
  "bind slot '$" ++ name ++ "' is not permitted in attribute position; " ++
    "the query optimizer selects an index based on the attribute at " ++
    "prepare time and cannot handle a parameterised attribute"

mutual

def validateClauseNoAttrSlots : WhereClause → Except String Unit
  | .pattern p =>
    match p.attr with
    | .real (.bindSlot name) => .error (attributeSlotError name)
    | _ => .ok ()
  | .not inner => validateClausesNoAttrSlots inner
  | .notJoin _ inner => validateClausesNoAttrSlots inner
  | .or branches => validateBranchesNoAttrSlots branches
  | .orJoin _ branches => validateBranchesNoAttrSlots branches
  | .expr _ _ => .ok ()
  | .ruleInvocation _ _ => .ok ()

def validateClausesNoAttrSlots : List WhereClause → Except String Unit
  | [] => .ok ()
  | c :: cs => do
    validateClauseNoAttrSlots c
    validateClausesNoAttrSlots cs

def validateBranchesNoAttrSlots : List (List WhereClause) → Except String Unit
  | [] => .ok ()
  | b :: bs => do
    validateClausesNoAttrSlots b
    validateBranchesNoAttrSlots bs

end

structure PreparedQuery where
  template : DatalogQuery
  slotNames : List String
  deriving Repr

def prepareQuery (query : DatalogQuery) : Except String PreparedQuery := do
  validateClausesNoAttrSlots query.whereClauses
  return { template := query, slotNames := collectSlotNames query }

def PreparedQuery.fill (prepared : PreparedQuery) (bindings : List (String × BindValue)) :
    Except String DatalogQuery :=
  match prepared.slotNames.find? fun name => (bindingMap bindings name).isNone with
  | some name => .error (missingBindValue name)
  | none => substitute prepared.template (bindingMap bindings)

end ViciaDb
