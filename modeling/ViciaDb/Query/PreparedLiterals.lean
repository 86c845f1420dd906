import ViciaDb.Query.Prepared

namespace ViciaDb

section Slots

mutual

def EdnValue.slots : EdnValue → List String
  | .bindSlot name => [name]
  | .vector items => EdnValue.slotsList items
  | .list items => EdnValue.slotsList items
  | .map entries => EdnValue.slotsEntries entries
  | _ => []

def EdnValue.slotsList : List EdnValue → List String
  | [] => []
  | e :: es => e.slots ++ EdnValue.slotsList es

def EdnValue.slotsEntries : List (EdnValue × EdnValue) → List String
  | [] => []
  | (k, v) :: rest => k.slots ++ v.slots ++ EdnValue.slotsEntries rest

end

def EdnValue.nestedSlots : EdnValue → List String
  | .bindSlot _ => []
  | e => e.slots

def AttributeSpec.slots : AttributeSpec → List String
  | .real e => e.slots
  | .pseudo _ => []

def Pattern.slots (p : Pattern) : List String := p.entity.slots ++ p.attr.slots ++ p.value.slots

def Pattern.nestedSlots (p : Pattern) : List String :=
  p.entity.nestedSlots ++ p.attr.slots ++ p.value.nestedSlots

mutual

def WhereClause.slots : WhereClause → List String
  | .pattern p => p.slots
  | .ruleInvocation _ args => args.flatMap EdnValue.slots
  | .not clauses => WhereClause.slotsList clauses
  | .notJoin _ clauses => WhereClause.slotsList clauses
  | .expr e _ => collectSlotsFromExpr e
  | .or branches => WhereClause.slotsBranches branches
  | .orJoin _ branches => WhereClause.slotsBranches branches

def WhereClause.slotsList : List WhereClause → List String
  | [] => []
  | c :: cs => c.slots ++ WhereClause.slotsList cs

def WhereClause.slotsBranches : List (List WhereClause) → List String
  | [] => []
  | b :: bs => WhereClause.slotsList b ++ WhereClause.slotsBranches bs

end

mutual

def WhereClause.nestedSlots : WhereClause → List String
  | .pattern p => p.nestedSlots
  | .ruleInvocation _ args => args.flatMap EdnValue.nestedSlots
  | .not clauses => WhereClause.nestedSlotsList clauses
  | .notJoin _ clauses => WhereClause.nestedSlotsList clauses
  | .expr _ _ => []
  | .or branches => WhereClause.nestedSlotsBranches branches
  | .orJoin _ branches => WhereClause.nestedSlotsBranches branches

def WhereClause.nestedSlotsList : List WhereClause → List String
  | [] => []
  | c :: cs => c.nestedSlots ++ WhereClause.nestedSlotsList cs

def WhereClause.nestedSlotsBranches : List (List WhereClause) → List String
  | [] => []
  | b :: bs => WhereClause.nestedSlotsList b ++ WhereClause.nestedSlotsBranches bs

end

def DatalogQuery.slots (q : DatalogQuery) : List String :=
  asOfSlot q.asOf ++ validAtSlot q.validAt ++ WhereClause.slotsList q.whereClauses

end Slots

section Literals

def BindValue.entityLiteral : BindValue → Option EdnValue
  | .entity u => some (.uuid u)
  | _ => none

def BindValue.valueLiteral : BindValue → Option Value
  | .val v => some v
  | _ => none

def BindValue.asOfLiteral : BindValue → Option AsOf
  | .txCount n => some (.counter n)
  | .timestamp t => some (.timestamp t)
  | _ => none

def BindValue.validAtLiteral : BindValue → Option ValidAt
  | .timestamp t => some (.timestamp t)
  | .anyValidTime => some .anyValidTime
  | _ => none

variable (values : BindingMap)

mutual

def EdnValue.withLiterals : EdnValue → Option EdnValue
  | .bindSlot name => do return preparedValueToEdn (← (← values name).valueLiteral)
  | .vector items => do return .vector (← EdnValue.withLiteralsList items)
  | .list items => do return .list (← EdnValue.withLiteralsList items)
  | .map entries => do return .map (← EdnValue.withLiteralsEntries entries)
  | e => some e

def EdnValue.withLiteralsList : List EdnValue → Option (List EdnValue)
  | [] => some []
  | e :: es => do return (← e.withLiterals) :: (← EdnValue.withLiteralsList es)

def EdnValue.withLiteralsEntries : List (EdnValue × EdnValue) → Option (List (EdnValue × EdnValue))
  | [] => some []
  | (k, v) :: rest => do
    return (← k.withLiterals, ← v.withLiterals) :: (← EdnValue.withLiteralsEntries rest)

end

def EdnValue.withEntityLiterals : EdnValue → Option EdnValue
  | .bindSlot name => do (← values name).entityLiteral
  | e => e.withLiterals values

def AttributeSpec.withLiterals : AttributeSpec → Option AttributeSpec
  | .real e => do return .real (← e.withLiterals values)
  | .pseudo a => some (.pseudo a)

def Pattern.withLiterals (p : Pattern) : Option Pattern := do
  let entity ← p.entity.withEntityLiterals values
  let attr ← p.attr.withLiterals values
  let value ← p.value.withLiterals values
  return { p with entity, attr, value }

def Expr.withLiterals : Expr → Option Expr
  | .slot name => do return .lit (← (← values name).valueLiteral)
  | .binOp op l r => do return .binOp op (← l.withLiterals) (← r.withLiterals)
  | .unaryOp op e => do return .unaryOp op (← e.withLiterals)
  | e => some e

mutual

def WhereClause.withLiterals : WhereClause → Option WhereClause
  | .pattern p => do return .pattern (← p.withLiterals values)
  | .ruleInvocation predicate args => do
    return .ruleInvocation predicate (← EdnValue.withLiteralsList values args)
  | .not clauses => do return .not (← WhereClause.withLiteralsList clauses)
  | .notJoin joinVars clauses => do return .notJoin joinVars (← WhereClause.withLiteralsList clauses)
  | .expr e binding => do return .expr (← e.withLiterals values) binding
  | .or branches => do return .or (← WhereClause.withLiteralsBranches branches)
  | .orJoin joinVars branches => do
    return .orJoin joinVars (← WhereClause.withLiteralsBranches branches)

def WhereClause.withLiteralsList : List WhereClause → Option (List WhereClause)
  | [] => some []
  | c :: cs => do return (← c.withLiterals) :: (← WhereClause.withLiteralsList cs)

def WhereClause.withLiteralsBranches : List (List WhereClause) → Option (List (List WhereClause))
  | [] => some []
  | b :: bs => do return (← WhereClause.withLiteralsList b) :: (← WhereClause.withLiteralsBranches bs)

end

def asOfWithLiteral : Option AsOf → Option (Option AsOf)
  | some (.slot name) => do return some (← (← values name).asOfLiteral)
  | other => some other

def validAtWithLiteral : Option ValidAt → Option (Option ValidAt)
  | some (.slot name) => do return some (← (← values name).validAtLiteral)
  | other => some other

/-- The template with every slot written out; `none` when a slot has no bind value of the type
    its position takes. -/
def DatalogQuery.withLiterals (q : DatalogQuery) : Option DatalogQuery := do
  let asOf ← asOfWithLiteral values q.asOf
  let validAt ← validAtWithLiteral values q.validAt
  let whereClauses ← WhereClause.withLiteralsList values q.whereClauses
  return { q with asOf, validAt, whereClauses }

end Literals

end ViciaDb
