import ViciaDb.Lib.FinmapRows
import ViciaDb.Query.Types

namespace ViciaDb

/-- What the query engine calls outside its sources: the `uuid` crate, compiled regexes, Rust's `Debug`
    output and the `f64` operations. -/
structure Externals where
  keywordId : String → EntityId
  regexIsMatch : String → String → Bool
  debugEdn : EdnValue → String
  /-- `(a - b).abs() < f64::EPSILON` -/
  f64Near : F64 → F64 → Bool
  f64OfI64 : Int64 → F64
  f64OfUsize : Nat → F64
  /-- `f as i64` -/
  f64ToI64 : F64 → Int64
  f64Add : F64 → F64 → F64
  f64Sub : F64 → F64 → F64
  f64Mul : F64 → F64 → F64
  f64Div : F64 → F64 → F64

/-- A concrete instance for examples: the ids the `uuid` crate gives a few keywords, no regexes,
    and floats that are only ever compared with themselves. -/
def Externals.sample : Externals where
  keywordId k :=
    match k with
    | ":alice" => 0xe340ebbae0505d3b8c2e5388ce184a79
    | ":bob" => 0x2340101dcda15ebea64b0d27506374ef
    | ":narcissus" => 0x27a57eda78f3566da3978bd3edf99c21
    | ":next" => 0x2e606ea12225555e86017b8388929ba8
    | ":reach" => 0x8d8793a6534c5f8aa8bbd08f1b4733de
    | ":likes" => 0x1d75d367a002579db61f55fef40d8d9a
    | ":vain" => 0x48a76c26fc28584d8dc93b8f45c791ae
    | _ => 0
  regexIsMatch _ _ := false
  debugEdn _ := ""
  f64Near a b := a.eq b
  f64OfI64 _ := ⟨0⟩
  f64OfUsize _ := ⟨0⟩
  f64ToI64 _ := 0
  f64Add a _ := a
  f64Sub a _ := a
  f64Mul a _ := a
  f64Div a _ := a

inductive FactField where
  | validFrom | validTo | txCount | txId
  deriving DecidableEq, Repr

/-- A key of a binding map. The code keys the map by strings: variables start with `?`, the metadata of a
    matched fact with `__fvf_`, `__fvt_`, `__ftc_` or `__fti_`, results with `__agg_` or `__win_`. -/
inductive Key where
  | var (name : String)
  | fact (field : FactField) (entity : EntityId)
  | agg (index : Nat)
  | win (index : Nat)
  deriving DecidableEq, Repr

def Key.isFact : Key → Bool
  | .fact .. => true
  | _ => false

def Key.isHidden : Key → Bool
  | .var _ => false
  | _ => true

abbrev Bindings := Finmap fun _ : Key => Value

def isVariable (name : String) : Bool := name.toList.head? == some '?'

/-- Matches anything without being bound: `_` and the names that start with `?_`. -/
def isWildcard (name : String) : Bool := name == "_" || "?_".toList.isPrefixOf name.toList

def EdnValue.asVariable : EdnValue → Option String
  | .symbol s => if isVariable s then some s else none
  | _ => none

/-- Two values that find each other in a `HashMap`: floats hash by their bits, and a NaN is not
    even equal to itself. -/
def Value.hashEq : Value → Value → Bool
  | .float a, .float b => decide (a = b) && !a.isNan
  | a, b => decide (a = b)

@[simp] theorem Key.isFact_var (name : String) : (Key.var name).isFact = false := rfl

theorem Value.isOrdinary_of_isFloat {v : Value} (plain : v.isFloat = false) :
    v.isOrdinary = true := by
  cases v with
  | float f => cases plain
  | _ => rfl

theorem Value.eq_iff {a b : Value} (ordinaryA : a.isOrdinary = true) (ordinaryB : b.isOrdinary = true) :
    a.eq b = true ↔ a = b := by
  cases a with
  | float f =>
    cases b with
    | float g =>
      simp only [isOrdinary, Bool.and_eq_true, Bool.not_eq_true', bne_iff_ne] at ordinaryA ordinaryB
      simp only [eq, F64.eq, ordinaryA.1, ordinaryB.1, Bool.not_false, Bool.true_and,
        decide_eq_true_iff, float.injEq]
      exact ⟨F64.rank_inj ordinaryA.2 ordinaryB.2, fun same => by rw [same]⟩
    | _ => simp [eq]
  | _ => cases b <;> simp [eq]

theorem Value.hashEq_iff {a b : Value} (ordinary : a.isOrdinary = true) :
    a.hashEq b = true ↔ a = b := by
  cases a with
  | float f =>
    have number : f.isNan = false := isNan_of_isOrdinary ordinary
    cases b with
    | float g => simp [hashEq, number]
    | _ => simp [hashEq]
  | _ => cases b <;> simp [hashEq]

theorem Value.eq_of_hashEq {a b : Value} (same : a.hashEq b = true) : a = b := by
  cases a <;> cases b <;> simp_all [hashEq]

end ViciaDb
