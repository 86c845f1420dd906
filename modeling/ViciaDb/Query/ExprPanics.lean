import ViciaDb.Lib.ExceptList
import ViciaDb.Query.Expr
import ViciaDb.Query.ValueOrder

namespace ViciaDb

variable (ext : Externals)

section Meaning

/-- The number an operand stands for in a comparison or in mixed arithmetic. -/
inductive Value.IsNumber : Value → F64 → Prop
  | integer (i : Int64) : IsNumber (.integer i) (ext.f64OfI64 i)
  | float (f : F64) : IsNumber (.float f) f

def Value.isInteger : Value → Bool
  | .integer _ => true
  | _ => false

/-- Arithmetic: a relation of mathematical integers for two integers, one of floats otherwise. -/
def Calculates (integers : Int → Int → Int → Prop) (floats : F64 → F64 → F64 → Prop)
    (l r value : Value) : Prop :=
  (∃ a b c, l = .integer a ∧ r = .integer b ∧ value = .integer c ∧
    integers a.toInt b.toInt c.toInt) ∨
  (¬ (l.isInteger ∧ r.isInteger) ∧ ∃ a b c, l.IsNumber ext a ∧ r.IsNumber ext b ∧
    value = .float c ∧ floats a b c)

def Compares (holds : F64 → F64 → Bool) (l r value : Value) : Prop :=
  ∃ a b, l.IsNumber ext a ∧ r.IsNumber ext b ∧ value = .boolean (holds a b)

def ComparesTexts (holds : List Char → List Char → Prop) (l r value : Value) : Prop :=
  ∃ s t answer, l = .string s ∧ r = .string t ∧ value = .boolean answer ∧
    (answer = true ↔ holds s.toList t.toList)

def BinOp.Means (op : BinOp) (l r value : Value) : Prop :=
  match op with
  | .eq => value = .boolean (l.eq r)
  | .neq => value = .boolean (!l.eq r)
  | .lt => Compares ext (fun a b => a.lt b) l r value
  | .gt => Compares ext (fun a b => b.lt a) l r value
  | .lte => Compares ext (fun a b => a.lt b || a.eq b) l r value
  | .gte => Compares ext (fun a b => b.lt a || b.eq a) l r value
  | .add => Calculates ext (fun a b c => c = (a + b).bmod (2 ^ 64))
      (fun a b c => c = ext.f64Add a b ∧ c.isNan = false) l r value
  | .sub => Calculates ext (fun a b c => c = (a - b).bmod (2 ^ 64))
      (fun a b c => c = ext.f64Sub a b ∧ c.isNan = false) l r value
  | .mul => Calculates ext (fun a b c => c = (a * b).bmod (2 ^ 64))
      (fun a b c => c = ext.f64Mul a b ∧ c.isNan = false) l r value
  | .div => Calculates ext (fun a b c => b ≠ 0 ∧ c = a.tdiv b)
      (fun a b c => b.eq .zero = false ∧ b.isNan = false ∧ c = ext.f64Div a b) l r value
  | .startsWith => ComparesTexts (fun s part => part <+: s) l r value
  | .endsWith => ComparesTexts (fun s part => part <:+ s) l r value
  | .contains => ComparesTexts (fun s part => part <:+: s) l r value
  | .matchesPattern pattern => ∃ s t, l = .string s ∧ r = .string t ∧
      value = .boolean (ext.regexIsMatch pattern s)

def UnaryOp.Means (functions : FunctionRegistry) (op : UnaryOp) (operand value : Value) : Prop :=
  match op with
  | .stringQ => value = .boolean (valueTypeName operand = "String")
  | .integerQ => value = .boolean (valueTypeName operand = "Integer")
  | .floatQ => value = .boolean (valueTypeName operand = "Float")
  | .booleanQ => value = .boolean (valueTypeName operand = "Boolean")
  | .nilQ => value = .boolean (valueTypeName operand = "Null")
  | .udf name => ∃ holds, functions.predicates name = some holds ∧ value = .boolean (holds operand)

/-- The value of an expression, said without the evaluator. An expression without a value is one the
    evaluation has to give up. -/
inductive Expr.Means (functions : FunctionRegistry) (row : Bindings) : Expr → Value → Prop
  | var {name value} : row.lookup (.var name) = some value → Means functions row (.var name) value
  | lit {value} : Means functions row (.lit value) value
  | unary {op arg operand value} : Means functions row arg operand →
      op.Means functions operand value → Means functions row (.unaryOp op arg) value
  | binary {op lhs rhs l r value} : Means functions row lhs l → Means functions row rhs r →
      op.Means ext l r value → Means functions row (.binOp op lhs rhs) value

/-- The operands of the divisions an evaluation comes to: the right operand only counts once the left
    one has a value. -/
inductive Expr.Divides (functions : FunctionRegistry) (row : Bindings) (l r : Value) :
    Expr → Prop
  | here {lhs rhs} : lhs.Means ext functions row l → rhs.Means ext functions row r →
      Divides functions row l r (.binOp .div lhs rhs)
  | inLhs {op lhs rhs} : Divides functions row l r lhs →
      Divides functions row l r (.binOp op lhs rhs)
  | inRhs {op lhs rhs value} : lhs.Means ext functions row value →
      Divides functions row l r rhs → Divides functions row l r (.binOp op lhs rhs)
  | inArg {op arg} : Divides functions row l r arg → Divides functions row l r (.unaryOp op arg)

/-- The one quotient of two 64-bit integers that is not one. -/
def Expr.Overflows (functions : FunctionRegistry) (row : Bindings) (expr : Expr) : Prop :=
  Divides ext functions row (.integer Int64.minValue) (.integer (-1)) expr

end Meaning

variable {ext} {functions : FunctionRegistry} {row : Bindings} {l r : Value}

theorem toFloat_eq_ok_iff {v : Value} {f : F64} : toFloat ext v = .ok f ↔ v.IsNumber ext f := by
  constructor
  · intro ok
    cases v with
    | integer i =>
      cases ok
      exact .integer i
    | float g =>
      cases ok
      exact .float f
    | _ => cases ok
  · rintro (i | f) <;> rfl

theorem toFloatPair_bind_eq_ok_iff {next : F64 × F64 → Except ExprError Value} {value : Value} :
    (toFloatPair ext l r >>= next) = .ok value ↔
      ∃ a b, l.IsNumber ext a ∧ r.IsNumber ext b ∧ next (a, b) = .ok value := by
  simp only [toFloatPair, ← toFloat_eq_ok_iff]
  cases toFloat ext l <;> cases toFloat ext r <;> simp [Bind.bind, Except.bind]

theorem arithmetic_eq_ok_iff {onIntegers : Int64 → Int64 → Except ExprError Value}
    {onFloats : F64 → F64 → Except ExprError Value} {integers : Int → Int → Int → Prop}
    {floats : F64 → F64 → F64 → Prop} {value : Value}
    (onInts : ∀ a b, onIntegers a b = .ok value ↔ ∃ c, value = .integer c ∧ integers a.toInt b.toInt c.toInt)
    (onFloat : ∀ a b, onFloats a b = .ok value ↔ ∃ c, value = .float c ∧ floats a b c) :
    arithmetic ext onIntegers onFloats l r = .ok value ↔ Calculates ext integers floats l r value := by
  unfold arithmetic Calculates
  split
  case h_1 a b =>
    rw [onInts]
    simp [Value.isInteger]
  case h_2 mixed =>
    have notInts : ¬ (l.isInteger ∧ r.isInteger) := by
      rintro ⟨left, right⟩
      cases l <;> cases r <;> try contradiction
      exact mixed _ _ rfl rfl
    refine toFloatPair_bind_eq_ok_iff.trans ?_
    simp only [onFloat]
    constructor
    · rintro ⟨a, b, left, right, c, rfl, holds⟩
      exact .inr ⟨notInts, a, b, c, left, right, rfl, holds⟩
    · rintro (⟨a, b, -, rfl, rfl, -⟩ | ⟨-, a, b, c, left, right, rfl, holds⟩)
      · exact absurd ⟨rfl, rfl⟩ notInts
      · exact ⟨a, b, left, right, c, rfl, holds⟩

theorem divideIntegers_eq_ok_iff {a b : Int64} {value : Value} :
    divideIntegers a b = .ok value ↔
      ∃ c : Int64, value = .integer c ∧ b.toInt ≠ 0 ∧ c.toInt = a.toInt.tdiv b.toInt := by
  have zero : b.toInt ≠ 0 ↔ b ≠ 0 := not_congr (Int64.toInt_inj (y := 0))
  unfold divideIntegers
  rw [zero]
  split
  · simp_all
  split
  case isTrue extreme =>
    simp only [Bool.and_eq_true, beq_iff_eq] at extreme
    obtain ⟨rfl, rfl⟩ := extreme
    refine iff_of_false nofun ?_
    rintro ⟨c, -, -, quotient⟩
    have bound := c.toInt_lt
    rw [quotient] at bound
    exact absurd bound (by decide)
  case isFalse nonzero within =>
    have exact : (a / b).toInt = a.toInt.tdiv b.toInt := by
      by_cases least : a = Int64.minValue
      · exact Int64.toInt_div_of_ne_right a b fun minus => within (by simp [least, minus])
      · exact Int64.toInt_div_of_ne_left a b least
    have nonzero : b ≠ 0 := by simpa using nonzero
    simp only [← exact, Int64.toInt_inj, Except.ok.injEq, nonzero, ne_eq, not_false_eq_true, true_and]
    constructor
    · rintro rfl
      exact ⟨a / b, rfl, rfl⟩
    · rintro ⟨c, rfl, rfl⟩
      rfl

theorem checkNan_eq_ok_iff {f : F64} {value : Value} :
    checkNan f = .ok value ↔ ∃ c, value = .float c ∧ c = f ∧ c.isNan = false := by
  unfold checkNan
  cases nan : f.isNan <;> simp [nan, eq_comm]

theorem stringPredicate_eq_ok_iff {holds : List Char → List Char → Bool}
    {spec : List Char → List Char → Prop} {value : Value} (same : ∀ s t, holds s t = true ↔ spec s t) :
    stringPredicate holds l r = .ok value ↔ ComparesTexts spec l r value := by
  unfold stringPredicate ComparesTexts
  split
  case h_1 s t =>
    simp only [← same, Except.ok.injEq, Value.string.injEq]
    constructor
    · rintro rfl
      exact ⟨s, t, _, rfl, rfl, rfl, Iff.rfl⟩
    · rintro ⟨_, _, answer, rfl, rfl, rfl, agree⟩
      rw [Bool.eq_iff_iff.mpr agree]
  case h_2 mixed =>
    refine iff_of_false nofun ?_
    rintro ⟨s, t, -, rfl, rfl, -⟩
    exact mixed s t rfl rfl

theorem evalBinop_eq_ok_iff {op : BinOp} {value : Value} :
    evalBinop ext op l r = .ok value ↔ op.Means ext l r value := by
  cases op with
  | eq | neq => simp [evalBinop, BinOp.Means, eq_comm]
  | lt | gt | lte | gte =>
    refine toFloatPair_bind_eq_ok_iff.trans ?_
    simp only [BinOp.Means, Compares, Except.ok.injEq, eq_comm (b := value), F64.le]
  | add | sub | mul =>
    unfold evalBinop BinOp.Means
    refine arithmetic_eq_ok_iff (fun a b => ?_) fun a b => checkNan_eq_ok_iff
    simp only [← Int64.toInt_add, ← Int64.toInt_sub, ← Int64.toInt_mul, Int64.toInt_inj]
    simp [eq_comm]
  | div =>
    unfold evalBinop BinOp.Means
    refine arithmetic_eq_ok_iff (fun a b => divideIntegers_eq_ok_iff) fun a b => ?_
    unfold divideFloats
    cases zero : b.eq .zero <;> cases nan : b.isNan <;> simp [eq_comm]
  | startsWith =>
    unfold evalBinop BinOp.Means
    exact stringPredicate_eq_ok_iff fun s t => List.isPrefixOf_iff_prefix
  | endsWith =>
    unfold evalBinop BinOp.Means
    exact stringPredicate_eq_ok_iff fun s t => List.isSuffixOf_iff_suffix
  | contains =>
    unfold evalBinop BinOp.Means
    refine stringPredicate_eq_ok_iff fun s t => ?_
    rw [List.any_eq_true, List.infix_iff_prefix_suffix]
    simp only [List.mem_tails, List.isPrefixOf_iff_prefix, and_comm]
  | matchesPattern pattern =>
    cases l <;> cases r <;> simp [evalBinop, BinOp.Means, eq_comm]

theorem evalUnary_eq_ok_iff {op : UnaryOp} {value : Value} :
    evalUnary functions op l = .ok value ↔ op.Means functions l value := by
  cases op with
  | udf name =>
    unfold evalUnary UnaryOp.Means
    dsimp only
    cases functions.predicates name <;> simp [eq_comm (b := value)]
  | _ =>
    unfold evalUnary UnaryOp.Means
    cases l <;> simp only [valueTypeName, Except.ok.injEq, String.reduceEq, decide_true, decide_false] <;>
      exact eq_comm

/-- The evaluator returns a value exactly when the expression has it. -/
theorem evalExpr_eq_ok_iff (expr : Expr) (value : Value) :
    evalExpr ext functions expr row = .ok value ↔ expr.Means ext functions row value := by
  induction expr generalizing value with
  | var name =>
    rw [evalExpr]
    constructor
    · intro ok
      split at ok
      · cases ok
        exact .var (by assumption)
      · cases ok
    · rintro ⟨found⟩
      rw [found]
  | lit literal =>
    rw [evalExpr]
    constructor
    · rintro ⟨⟩
      exact .lit
    · rintro ⟨⟩
      rfl
  | slot name => exact iff_of_false (by simp [evalExpr]) nofun
  | unaryOp op arg ih =>
    rw [evalExpr, Except.bind_eq_ok_iff]
    simp only [ih, evalUnary_eq_ok_iff]
    constructor
    · rintro ⟨operand, inner, outer⟩
      exact .unary inner outer
    · rintro (- | - | ⟨inner, outer⟩)
      exact ⟨_, inner, outer⟩
  | binOp op lhs rhs ihl ihr =>
    rw [evalExpr, Except.bind_eq_ok_iff]
    simp only [Except.bind_eq_ok_iff, ihl, ihr, evalBinop_eq_ok_iff]
    constructor
    · rintro ⟨l, left, r, right, outer⟩
      exact .binary left right outer
    · rintro (- | - | - | ⟨left, right, outer⟩)
      exact ⟨_, left, _, right, outer⟩

theorem toFloatPair_bind_ne_panicked {next : F64 × F64 → Except ExprError Value}
    (quiet : ∀ pair, next pair ≠ .error .panicked) : (toFloatPair ext l r >>= next) ≠ .error .panicked := by
  cases l <;> cases r <;> simp [toFloatPair, toFloat, Bind.bind, Except.bind, quiet]

theorem evalUnary_ne_panicked (op : UnaryOp) : evalUnary functions op l ≠ .error .panicked := by
  cases op with
  | udf name =>
    unfold evalUnary
    dsimp only
    split <;> nofun
  | _ => cases l <;> nofun

theorem arithmetic_panicked_iff {onIntegers : Int64 → Int64 → Except ExprError Value}
    {onFloats : F64 → F64 → Except ExprError Value} (floats : ∀ a b, onFloats a b ≠ .error .panicked) :
    arithmetic ext onIntegers onFloats l r = .error .panicked ↔
      ∃ a b, l = .integer a ∧ r = .integer b ∧ onIntegers a b = .error .panicked := by
  unfold arithmetic
  split
  case h_1 a b => simp
  case h_2 mixed =>
    refine iff_of_false (toFloatPair_bind_ne_panicked fun pair => floats pair.1 pair.2) ?_
    rintro ⟨a, b, rfl, rfl, _⟩
    exact mixed a b rfl rfl

theorem divideIntegers_panicked_iff {a b : Int64} :
    divideIntegers a b = .error .panicked ↔ a = Int64.minValue ∧ b = -1 := by
  unfold divideIntegers
  grind

theorem evalBinop_panicked_iff {op : BinOp} : evalBinop ext op l r = .error .panicked ↔
    op = .div ∧ l = .integer Int64.minValue ∧ r = .integer (-1) := by
  have checked : ∀ result, checkNan result ≠ .error .panicked := by
    intro result
    unfold checkNan
    split <;> simp
  have compared : ∀ holds, compareNumbers ext holds l r ≠ .error .panicked :=
    fun holds => toFloatPair_bind_ne_panicked (by simp)
  have strings : ∀ holds, stringPredicate holds l r ≠ .error .panicked := by
    intro holds
    unfold stringPredicate
    split <;> simp
  cases op with
  | div =>
    unfold evalBinop
    rw [arithmetic_panicked_iff (by unfold divideFloats; grind)]
    simp [divideIntegers_panicked_iff]
  | add | sub | mul =>
    unfold evalBinop
    rw [arithmetic_panicked_iff fun a b => checked _]
    simp
  | matchesPattern pattern => cases l <;> cases r <;> simp [evalBinop]
  | eq | neq => simp [evalBinop]
  | lt | gt | lte | gte => simpa [evalBinop] using compared _
  | startsWith | endsWith | contains => simpa [evalBinop] using strings _

theorem evalExpr_panicked_iff (expr : Expr) :
    evalExpr ext functions expr row = .error .panicked ↔ expr.Overflows ext functions row := by
  induction expr with
  | var name =>
    refine iff_of_false ?_ nofun
    unfold evalExpr
    split <;> simp
  | lit value | slot name => exact iff_of_false (by simp [evalExpr]) nofun
  | unaryOp op arg ih =>
    have inside : (Expr.unaryOp op arg).Overflows ext functions row ↔
        arg.Overflows ext functions row := ⟨fun | .inArg inner => inner, .inArg⟩
    rw [inside, ← ih, evalExpr]
    cases evalExpr ext functions arg row with
    | error e => exact Iff.rfl
    | ok value => exact iff_of_false (evalUnary_ne_panicked op) nofun
  | binOp op lhs rhs ihl ihr =>
    rw [evalExpr]
    cases left : evalExpr ext functions lhs row with
    | error e =>
      refine Iff.trans ?_ ⟨.inLhs ∘ ihl.mp, ?_⟩
      · rw [left]
        exact Iff.rfl
      · rintro (⟨value, _⟩ | inner | ⟨value, _⟩)
        · cases left.symm.trans ((evalExpr_eq_ok_iff _ _).mpr value)
        · exact ihl.mpr inner
        · cases left.symm.trans ((evalExpr_eq_ok_iff _ _).mpr value)
    | ok l =>
      have outside : ¬ lhs.Overflows ext functions row := by
        rw [← ihl, left]
        nofun
      cases right : evalExpr ext functions rhs row with
      | error e =>
        refine Iff.trans ?_ ⟨.inRhs ((evalExpr_eq_ok_iff _ _).mp left) ∘ ihr.mp, ?_⟩
        · rw [right]
          exact Iff.rfl
        · rintro (⟨_, value⟩ | inner | ⟨_, inner⟩)
          · cases right.symm.trans ((evalExpr_eq_ok_iff _ _).mpr value)
          · exact absurd inner outside
          · exact ihr.mpr inner
      | ok r =>
        refine Iff.trans evalBinop_panicked_iff ⟨?_, ?_⟩
        · rintro ⟨rfl, rfl, rfl⟩
          exact .here ((evalExpr_eq_ok_iff _ _).mp left) ((evalExpr_eq_ok_iff _ _).mp right)
        · rintro (⟨value, value'⟩ | inner | ⟨_, inner⟩)
          · exact ⟨rfl, Except.ok.inj (left.symm.trans ((evalExpr_eq_ok_iff _ _).mpr value)),
              Except.ok.inj (right.symm.trans ((evalExpr_eq_ok_iff _ _).mpr value'))⟩
          · exact absurd inner outside
          · cases right.symm.trans (ihr.mpr inner)

theorem evalExpr_returns_iff (ext : Externals) (functions : FunctionRegistry) (expr : Expr) (row : Bindings) :
    ((∃ value, evalExpr ext functions expr row = .ok value) ∨
      evalExpr ext functions expr row = .error .failed) ↔
    ¬ expr.Overflows ext functions row := by
  rw [← evalExpr_panicked_iff]
  cases evalExpr ext functions expr row with
  | ok value => simp
  | error e => cases e <;> simp

theorem minimum_divided_by_minus_one :
    evalExpr .sample .withBuiltins (.binOp .div (.var "?x") (.lit (.integer (-1))))
      (Finmap.singleton (.var "?x") (.integer Int64.minValue)) = .error .panicked := by
  exact (evalExpr_panicked_iff _).mpr (.here (.var Finmap.lookup_singleton_eq) .lit)

end ViciaDb
