import Mathlib.Data.List.ReduceOption
import ViciaDb.Query.Bindings

namespace ViciaDb

/-- A user aggregate as a function of the values it was stepped over and of their number. -/
abbrev UdfAggregate := List Value → Nat → Value

/-- The registered functions. `predicates` is what `get_predicate` returns, so the sentinels that
    reserve the built-in names are not in it. -/
structure FunctionRegistry where
  predicates : String → Option (Value → Bool)
  aggregates : String → Option UdfAggregate

def FunctionRegistry.withBuiltins : FunctionRegistry where
  predicates := fun _ => none
  aggregates := fun _ => none

/-- `failed` is the `Err(())` that drops a row. `panicked` is Rust's abort on
    `i64::MIN / -1`, which no caller catches. -/
inductive ExprError where
  | failed
  | panicked
  deriving DecidableEq, Repr

def F64.zero : F64 := ⟨0⟩

def F64.le (a b : F64) : Bool := a.lt b || a.eq b

def isTruthy : Value → Bool
  | .boolean b => b
  | .integer i => i != 0
  | .float f => !f.eq F64.zero
  | _ => false

variable (ext : Externals)

def toFloat : Value → Except ExprError F64
  | .integer i => .ok (ext.f64OfI64 i)
  | .float f => .ok f
  | _ => .error .failed

def toFloatPair (l r : Value) : Except ExprError (F64 × F64) := do
  let lf ← toFloat ext l
  let rf ← toFloat ext r
  .ok (lf, rf)

def checkNan (result : F64) : Except ExprError Value :=
  if result.isNan then .error .failed else .ok (.float result)

def divideIntegers (a b : Int64) : Except ExprError Value :=
  if b == 0 then .error .failed
  else if a == Int64.minValue && b == -1 then .error .panicked
  else .ok (.integer (a / b))

def divideFloats (a b : F64) : Except ExprError Value :=
  if b.eq F64.zero || b.isNan then .error .failed else .ok (.float (ext.f64Div a b))

def compareNumbers (holds : F64 → F64 → Bool) (l r : Value) : Except ExprError Value := do
  let (lf, rf) ← toFloatPair ext l r
  .ok (.boolean (holds lf rf))

def arithmetic (onIntegers : Int64 → Int64 → Except ExprError Value)
    (onFloats : F64 → F64 → Except ExprError Value) (l r : Value) : Except ExprError Value :=
  match l, r with
  | .integer a, .integer b => onIntegers a b
  | l, r => do
    let (lf, rf) ← toFloatPair ext l r
    onFloats lf rf

def stringPredicate (holds : List Char → List Char → Bool) (l r : Value) :
    Except ExprError Value :=
  match l, r with
  | .string s, .string t => .ok (.boolean (holds s.toList t.toList))
  | _, _ => .error .failed

def evalBinop (op : BinOp) (l r : Value) : Except ExprError Value :=
  match op with
  | .eq => .ok (.boolean (l.eq r))
  | .neq => .ok (.boolean (!l.eq r))
  | .lt => compareNumbers ext F64.lt l r
  | .gt => compareNumbers ext (fun a b => b.lt a) l r
  | .lte => compareNumbers ext F64.le l r
  | .gte => compareNumbers ext (fun a b => b.le a) l r
  | .add => arithmetic ext (fun a b => .ok (.integer (a + b)))
      (fun a b => checkNan (ext.f64Add a b)) l r
  | .sub => arithmetic ext (fun a b => .ok (.integer (a - b)))
      (fun a b => checkNan (ext.f64Sub a b)) l r
  | .mul => arithmetic ext (fun a b => .ok (.integer (a * b)))
      (fun a b => checkNan (ext.f64Mul a b)) l r
  | .div => arithmetic ext divideIntegers (divideFloats ext) l r
  | .startsWith => stringPredicate (fun s part => part.isPrefixOf s) l r
  | .endsWith => stringPredicate (fun s part => part.isSuffixOf s) l r
  | .contains => stringPredicate (fun s part => s.tails.any part.isPrefixOf) l r
  | .matchesPattern pattern =>
    match l, r with
    | .string s, .string _ => .ok (.boolean (ext.regexIsMatch pattern s))
    | _, _ => .error .failed

def evalUnary (functions : FunctionRegistry) (op : UnaryOp) (value : Value) :
    Except ExprError Value :=
  match op, value with
  | .stringQ, .string _ => .ok (.boolean true)
  | .integerQ, .integer _ => .ok (.boolean true)
  | .floatQ, .float _ => .ok (.boolean true)
  | .booleanQ, .boolean _ => .ok (.boolean true)
  | .nilQ, .null => .ok (.boolean true)
  | .udf name, value =>
    match functions.predicates name with
    | some holds => .ok (.boolean (holds value))
    | none => .error .failed
  | _, _ => .ok (.boolean false)

def evalExpr (functions : FunctionRegistry) (expr : Expr) (row : Bindings) :
    Except ExprError Value :=
  match expr with
  | .var name =>
    match row.lookup (.var name) with
    | some value => .ok value
    | none => .error .failed
  | .lit value => .ok value
  | .slot _ => .error .failed
  | .unaryOp op arg => do
    let value ← evalExpr functions arg row
    evalUnary functions op value
  | .binOp op lhs rhs => do
    let l ← evalExpr functions lhs row
    let r ← evalExpr functions rhs row
    evalBinop ext op l r

def Expr.vars : Expr → List String
  | .var name => [name]
  | .lit _ | .slot _ => []
  | .unaryOp _ arg => arg.vars
  | .binOp _ lhs rhs => lhs.vars ++ rhs.vars

def WhereClause.isExpr : WhereClause → Bool
  | .expr _ _ => true
  | _ => false

def applyExpr (functions : FunctionRegistry) (expr : Expr) (out : Option String)
    (row : Bindings) : Except String (Option Bindings) :=
  match evalExpr ext functions expr row with
  | .ok value =>
    match out with
    | some name => .ok (some (row.insert (.var name) value))
    | none => .ok (if isTruthy value then some row else none)
  | .error .failed => .ok none
  | .error .panicked => .error "attempt to divide with overflow"

def applyExprs (functions : FunctionRegistry) :
    List WhereClause → Bindings → Except String (Option Bindings)
  | [], row => .ok (some row)
  | .expr expr out :: rest, row => do
    match ← applyExpr ext functions expr out row with
    | some row => applyExprs functions rest row
    | none => .ok none
  | _ :: rest, row => applyExprs functions rest row

def applyExprClausesInEvaluator (functions : FunctionRegistry) (rows : List Bindings)
    (clauses : List WhereClause) : Except String (List Bindings) := do
  let kept ← rows.mapM (applyExprs ext functions clauses)
  .ok kept.reduceOption

end ViciaDb
