import ViciaDb.Lib.SortedMap
import ViciaDb.Query.Expr
import ViciaDb.Query.ValueOrder

namespace ViciaDb

def saturatingAdd (a b : Int64) : Int64 :=
  if a.toInt + b.toInt < Int64.minValue.toInt then Int64.minValue
  else if Int64.maxValue.toInt < a.toInt + b.toInt then Int64.maxValue
  else a + b

variable (ext : Externals)

def valueCmp : Value → Value → Ordering
  | .integer x, .integer y => compare x y
  | .float x, .float y => (x.partialCmp y).getD .eq
  | .integer x, .float y => ((ext.f64OfI64 x).partialCmp y).getD .eq
  | .float x, .integer y => (x.partialCmp (ext.f64OfI64 y)).getD .eq
  | .string x, .string y => compareStrings x y
  | _, _ => .eq

def valueLt : Value → Value → Bool
  | .integer x, .integer y => x < y
  | .float x, .float y => x.lt y
  | .integer x, .float y => (ext.f64OfI64 x).lt y
  | .float x, .integer y => x.lt (ext.f64OfI64 y)
  | .string x, .string y => (compareStrings x y).isLT
  | _, _ => false

abbrev ValueSet := List (Value × Unit)

def ValueSet.add (values : ValueSet) (value : Value) : ValueSet :=
  SortedMap.insert Value.cmp value () values

inductive AggregateAccumulator where
  | count (n : Int64)
  | countDistinct (values : ValueSet)
  | sum (integer : Int64) (floating : F64) (sawFloat : Bool)
  | sumDistinct (values : ValueSet)
  | minMax (current : Option Value) (minimum : Bool)
  | avg (total : F64) (n : Nat)
  | udf (stepped : List Value) (n : Nat)

def unknownAggregate (func : String) : String := s!"unknown aggregate function: '{func}'"

def AggregateAccumulator.new (func : String) (functions : FunctionRegistry) :
    Except String AggregateAccumulator :=
  match func with
  | "count" => .ok (.count 0)
  | "count-distinct" => .ok (.countDistinct [])
  | "sum" => .ok (.sum 0 F64.zero false)
  | "sum-distinct" => .ok (.sumDistinct [])
  | "min" => .ok (.minMax none true)
  | "max" => .ok (.minMax none false)
  | "avg" => .ok (.avg F64.zero 0)
  | func =>
    match functions.aggregates func with
    | some _ => .ok (.udf [] 0)
    | none => .error (unknownAggregate func)

def sumTypeError (value : Value) : String :=
  "sum: expected Integer, Float, or Null, got " ++ valueTypeName value

def pushMinMax (func : String) (current : Option Value) (minimum : Bool) (value : Value) :
    Except String (Option Value) :=
  match value with
  | .integer _ | .float _ | .string _ =>
    match current with
    | none => .ok (some value)
    | some existing =>
      if existing.discriminant ≠ value.discriminant then
        .error (func ++ ": cannot compare " ++ valueTypeName existing ++ " and " ++
          valueTypeName value ++ " values")
      else
        let order := valueCmp ext value existing
        if minimum && order.isLT || !minimum && order.isGT then .ok (some value)
        else .ok (some existing)
  | other =>
    .error (func ++ ": expected Integer, Float, String, or Null, got " ++ valueTypeName other)

def AggregateAccumulator.push (func : String) (value : Option Value) :
    AggregateAccumulator → Except String AggregateAccumulator := fun acc =>
  match value with
  | none | some .null => .ok acc
  | some value =>
    match acc with
    | .count n => .ok (.count (saturatingAdd n 1))
    | .countDistinct values => .ok (.countDistinct (values.add value))
    | .sum integer floating sawFloat =>
      match value with
      | .integer n =>
        .ok (.sum (saturatingAdd integer n) (ext.f64Add floating (ext.f64OfI64 n)) sawFloat)
      | .float f => .ok (.sum integer (ext.f64Add floating f) true)
      | other => .error (sumTypeError other)
    | .sumDistinct values => .ok (.sumDistinct (values.add value))
    | .minMax current minimum => do
      let current ← pushMinMax ext func current minimum value
      .ok (.minMax current minimum)
    | .avg total n =>
      match value with
      | .integer i => .ok (.avg (ext.f64Add total (ext.f64OfI64 i)) (n + 1))
      | .float f => .ok (.avg (ext.f64Add total f) (n + 1))
      | _ => .ok (.avg total n)
    | .udf stepped n => .ok (.udf (stepped ++ [value]) (n + 1))

def sumDistinctValues (values : List Value) : Except String Value :=
  if values.any Value.isFloat then do
    let total ← values.foldlM (fun sum value =>
      match value with
      | .float f => .ok (ext.f64Add sum f)
      | .integer n => .ok (ext.f64Add sum (ext.f64OfI64 n))
      | other => .error (sumTypeError other)) F64.zero
    .ok (.float total)
  else do
    let total ← values.foldlM (fun sum value =>
      match value with
      | .integer n => .ok (saturatingAdd sum n)
      | other => .error (sumTypeError other)) (0 : Int64)
    .ok (.integer total)

def lengthAsInteger (n : Nat) : Int64 :=
  if (n : Int) ≤ Int64.maxValue.toInt then Int64.ofNat n else Int64.maxValue

def AggregateAccumulator.finish (func : String) (functions : FunctionRegistry) :
    AggregateAccumulator → Except String (Option Value)
  | .count n => .ok (some (.integer n))
  | .countDistinct values => .ok (some (.integer (lengthAsInteger values.length)))
  | .sum integer floating sawFloat =>
    .ok (some (if sawFloat then .float floating else .integer integer))
  | .sumDistinct values => do
    let total ← sumDistinctValues ext (values.map Prod.fst)
    .ok (some total)
  | .minMax current _ => .ok current
  | .avg total n =>
    .ok (some (if n = 0 then .null else .float (ext.f64Div total (ext.f64OfUsize n))))
  | .udf stepped n =>
    if n = 0 then .ok (some .null)
    else
      match functions.aggregates func with
      | some finalise => .ok (some (finalise stepped n))
      | none => .error (unknownAggregate func)

structure AggregateSpec where
  index : Nat
  func : String
  var : String

def aggregateSpecs (find : List FindSpec) : List AggregateSpec :=
  find.zipIdx.filterMap fun (spec, index) =>
    match spec with
    | .aggregate func var => some ⟨index, func, var⟩
    | _ => none

def FindSpec.asVariable : FindSpec → Option String
  | .variable name => some name
  | _ => none

def FindSpec.isAggregate : FindSpec → Bool
  | .aggregate _ _ => true
  | _ => false

def FindSpec.isWindow : FindSpec → Bool
  | .window _ => true
  | _ => false

abbrev AggregateGroup := List (AggregateSpec × AggregateAccumulator)

structure AggregationSink where
  find : List FindSpec
  functions : FunctionRegistry
  groupVarNames : List String
  groups : List (List Value × AggregateGroup)
  sawBinding : Bool

def AggregationSink.new (find : List FindSpec) (withVars : List String)
    (functions : FunctionRegistry) : AggregationSink where
  find := find
  functions := functions
  groupVarNames := find.filterMap FindSpec.asVariable ++
    if find.any FindSpec.isWindow then [] else withVars
  groups := []
  sawBinding := false

def compareKeys : List Value → List Value → Ordering := List.compareLex Value.cmp

def makeGroup (find : List FindSpec) (functions : FunctionRegistry) :
    Except String AggregateGroup :=
  (aggregateSpecs find).mapM fun spec => do
    let acc ← AggregateAccumulator.new spec.func functions
    .ok (spec, acc)

def pushGroup (valueFor : String → Option Value) (group : AggregateGroup) :
    Except String AggregateGroup :=
  group.mapM fun (spec, acc) => do
    let acc ← acc.push ext spec.func (valueFor spec.var)
    .ok (spec, acc)

def AggregationSink.key (sink : AggregationSink) (valueFor : String → Option Value) : List Value :=
  sink.groupVarNames.map fun name => (valueFor name).getD .null

def AggregationSink.groupFor (sink : AggregationSink) (key : List Value) :
    Except String AggregateGroup :=
  match SortedMap.find compareKeys key sink.groups with
  | some group => .ok group
  | none => makeGroup sink.find sink.functions

def AggregationSink.pushValues (sink : AggregationSink) (valueFor : String → Option Value) :
    Except String AggregationSink := do
  let group ← sink.groupFor (sink.key valueFor)
  let group ← pushGroup ext valueFor group
  .ok { sink with
        groups := SortedMap.insert compareKeys (sink.key valueFor) group sink.groups
        sawBinding := true }

def isCount (spec : FindSpec) : Bool :=
  match spec with
  | .aggregate func _ => func == "count" || func == "count-distinct"
  | _ => false

def finishAccumulators (functions : FunctionRegistry) (row : Bindings) :
    AggregateGroup → Except String (Option Bindings)
  | [] => .ok (some row)
  | (spec, acc) :: rest => do
    match ← acc.finish ext spec.func functions with
    | some value => finishAccumulators functions (row.insert (.agg spec.index) value) rest
    | none => .ok none

def groupRow (find : List FindSpec) (key : List Value) : Bindings :=
  ((find.filterMap FindSpec.asVariable).zip key).foldl
    (fun row (name, value) => row.insert (.var name) value) ∅

def AggregationSink.finish (sink : AggregationSink) : Except String (List Bindings) :=
  if sink.sawBinding then do
    let rows ← sink.groups.mapM fun (key, group) =>
      finishAccumulators ext sink.functions (groupRow sink.find key) group
    .ok rows.reduceOption
  else if sink.find.all isCount then
    .ok [sink.find.zipIdx.foldl (fun row (_, index) => row.insert (.agg index) (.integer 0)) ∅]
  else .ok []

def aggregateRows (find : List FindSpec) (withVars : List String) (functions : FunctionRegistry)
    (rows : List (String → Option Value)) : Except String (List Bindings) := do
  let sink ← rows.foldlM (AggregationSink.pushValues ext) (AggregationSink.new find withVars functions)
  sink.finish ext

def computeAggregation (rows : List Bindings) (find : List FindSpec) (withVars : List String)
    (functions : FunctionRegistry) : Except String (List Bindings) :=
  aggregateRows ext find withVars functions (rows.map fun row name => row.lookup (.var name))

/-- The running state of a window aggregate. `stub` is that of the distinct aggregates, which
    never get a value in a window. -/
inductive AggState where
  | sum (total : F64) (isFloat : Bool)
  | count (n : Int64)
  | min (current : Option Value)
  | max (current : Option Value)
  | avg (total : F64) (n : Nat)
  | stub

def AggState.init : String → Option AggState
  | "count" => some (.count 0)
  | "sum" => some (.sum F64.zero false)
  | "min" => some (.min none)
  | "max" => some (.max none)
  | "avg" => some (.avg F64.zero 0)
  | "count-distinct" | "sum-distinct" => some .stub
  | _ => none

def AggState.step (state : AggState) (value : Value) : AggState :=
  match state, value with
  | .count n, .null => .count n
  | .count n, _ => .count (saturatingAdd n 1)
  | .sum total isFloat, .integer i => .sum (ext.f64Add total (ext.f64OfI64 i)) isFloat
  | .sum total _, .float f => .sum (ext.f64Add total f) true
  | .min current, .null => .min current
  | .min none, value => .min (some value)
  | .min (some current), value => .min (some (if valueLt ext value current then value else current))
  | .max current, .null => .max current
  | .max none, value => .max (some value)
  | .max (some current), value => .max (some (if valueLt ext current value then value else current))
  | .avg total n, .integer i => .avg (ext.f64Add total (ext.f64OfI64 i)) (n + 1)
  | .avg total n, .float f => .avg (ext.f64Add total f) (n + 1)
  | state, _ => state

def AggState.finalise : AggState → Value
  | .count n => .integer n
  | .sum total isFloat => if isFloat then .float total else .integer (ext.f64ToI64 total)
  | .min current | .max current => current.getD .null
  | .avg total n => if n = 0 then .null else .float (ext.f64Div total (ext.f64OfUsize n))
  | .stub => .null

def WindowFunc.name : WindowFunc → String
  | .sum => "sum"
  | .count => "count"
  | .min => "min"
  | .max => "max"
  | .avg => "avg"
  | .rank => "rank"
  | .rowNumber => "row-number"
  | .udf name => name

def ranks (previous : Option Value) (rank place : Nat) : List Value → List Value
  | [] => []
  | key :: rest =>
    if previous.any fun other => other.eq key then
      .integer (Int64.ofNat rank) :: ranks previous rank (place + 1) rest
    else .integer (Int64.ofNat place) :: ranks (some key) place (place + 1) rest

def windowValues (spec : WindowSpec) (functions : FunctionRegistry)
    (keyed : List (Value × Bindings)) : Except String (List Value) :=
  let operands := keyed.map fun (_, row) =>
    (spec.var.bind fun name => row.lookup (.var name)).getD .null
  match spec.func with
  | .rowNumber => .ok ((List.range keyed.length).map fun i => .integer (Int64.ofNat (i + 1)))
  | .rank => .ok (ranks none 1 1 (keyed.map Prod.fst))
  | func =>
    match AggState.init func.name with
    | some start => .ok (((operands.scanl (AggState.step ext) start).drop 1).map (AggState.finalise ext))
    | none =>
      match functions.aggregates func.name with
      | some finalise => .ok ((operands.inits.drop 1).map fun seen => finalise seen seen.length)
      | none => .error ("unknown window function '" ++ func.name ++
          "' — register it with register_aggregate() before querying")

def samePartition (partitionBy : Option String) (a b : Bindings) : Bool :=
  let key := fun row : Bindings => partitionBy.bind fun name => row.lookup (.var name)
  match key a, key b with
  | some v, some w => v.hashEq w
  | none, none => true
  | _, _ => false

def sortedPartition (spec : WindowSpec) (rows : List (Bindings × Nat)) (row : Bindings × Nat) :
    List (Value × Bindings × Nat) :=
  let members := rows.filter fun other =>
    other.2 == row.2 || samePartition spec.partitionBy other.1 row.1
  let keyed := members.map fun other => ((other.1.lookup (.var spec.orderBy)).getD .null, other)
  keyed.insertionSort fun a b =>
    (match spec.order with
      | .asc => valueCmp ext a.1 b.1
      | .desc => (valueCmp ext a.1 b.1).swap).isLE

def applyWindow (functions : FunctionRegistry) (spec : WindowSpec) (index : Nat)
    (rows : List Bindings) : Except String (List Bindings) :=
  rows.zipIdx.mapM fun row => do
    let keyed := sortedPartition ext spec rows.zipIdx row
    let values ← windowValues ext spec functions (keyed.map fun (key, other, _) => (key, other))
    let found := (keyed.zip values).find? fun ((_, _, place), _) => place == row.2
    .ok (match found with
      | some (_, value) => row.1.insert (.win index) value
      | none => row.1)

def applyWindowFunctions (functions : FunctionRegistry) (find : List FindSpec)
    (rows : List Bindings) : Except String (List Bindings) :=
  find.zipIdx.foldlM (fun rows (spec, index) =>
    match spec with
    | .window spec => applyWindow ext functions spec index rows
    | _ => .ok rows) rows

def FindSpec.outputKey (spec : FindSpec) (index : Nat) : Key :=
  match spec with
  | .variable name => .var name
  | .aggregate _ _ => .agg index
  | .window _ => .win index

def projectRow (find : List FindSpec) (row : Bindings) : Option (List Value) :=
  find.zipIdx.mapM fun (spec, index) => row.lookup (spec.outputKey index)

def projectFindSpecs (rows : List Bindings) (find : List FindSpec) : List (List Value) :=
  rows.filterMap (projectRow find)

def resultLimitExceeded (maxOutputResults : Nat) : String :=
  s!"query result exceeds result limit {maxOutputResults}; incomplete result rejected"

/-- `apply_post_processing_bounded`. Without aggregates and windows the code's
    `extract_variables` is the projection. -/
def applyPostProcessingBounded (rows : List Bindings) (find : List FindSpec)
    (withVars : List String) (functions : FunctionRegistry) (maxOutputResults : Nat) :
    Except String (List (List Value)) := do
  let rows ← if find.any FindSpec.isAggregate then computeAggregation ext rows find withVars functions
    else .ok rows
  let rows ← applyWindowFunctions ext functions find rows
  if maxOutputResults < rows.length then .error (resultLimitExceeded maxOutputResults)
  else .ok (projectFindSpecs rows find)

end ViciaDb
