import Mathlib.Algebra.Group.Int.Defs
import ViciaDb.Graph.Temporal

namespace ViciaDb

inductive JVal where
  | null
  | bool (b : Bool)
  | int (n : Int)
  | float (f : F64)
  | string (s : String)
  | array (items : List JVal)
  | object (fields : List (String × JVal))
  deriving Repr

namespace JVal

def get (name : String) : JVal → Option JVal
  | object fields => fields.lookup name
  | _ => none

def asStr : JVal → Option String
  | string s => some s
  | _ => none

def asU64 : JVal → Option UInt64
  | int n => if 0 ≤ n ∧ n < 2 ^ 64 then some (UInt64.ofNat n.toNat) else none
  | _ => none

def isNull : JVal → Bool
  | null => true
  | _ => false

def ofOption {α : Type} (toJson : α → JVal) : Option α → JVal
  | some a => toJson a
  | none => null

def ofU64 (n : UInt64) : JVal := int n.toNat

end JVal

inductive ErrorKind where
  | protocol | parse | execution | storage
  deriving DecidableEq, Repr

def ErrorKind.text : ErrorKind → String
  | protocol => "protocol"
  | parse => "parse"
  | execution => "execution"
  | storage => "storage"

def withId (fields : List (String × JVal)) (id : JVal) : JVal :=
  .object (if id.isNull then fields else fields ++ [("id", id)])

def writeOk (id result : JVal) : JVal := withId [("ok", .bool true), ("result", result)] id

def writeError (id : JVal) (kind : ErrorKind) (message : String) : JVal :=
  withId [("ok", .bool false), ("error", .object [("kind", .string kind.text), ("message", .string message)])] id

def frameId (frame : JVal) : JVal := (frame.get "id").getD .null

def isOkFrame : JVal → Bool
  | .object (("ok", .bool ok) :: _) => ok
  | _ => false

def errorKind (frame : JVal) : Option String := ((frame.get "error").bind (·.get "kind")).bind JVal.asStr

section Frames

variable (id result : JVal) (kind : ErrorKind) (message : String)

theorem withId_id (head second : JVal) (name : String) (other : name ≠ "id") :
    frameId (withId [("ok", head), (name, second)] id) = id := by
  have first : ("id" == "ok") = false := by decide
  have next : ("id" == name) = false := beq_eq_false_iff_ne.mpr (Ne.symm other)
  cases id <;> simp [withId, JVal.isNull, frameId, JVal.get, List.lookup_cons, first, next]

@[simp] theorem frameId_writeOk : frameId (writeOk id result) = id := withId_id id _ _ _ (by decide)

@[simp] theorem frameId_writeError : frameId (writeError id kind message) = id := withId_id id _ _ _ (by decide)

@[simp] theorem isOkFrame_writeOk : isOkFrame (writeOk id result) = true := by
  cases id <;> rfl

@[simp] theorem isOkFrame_writeError : isOkFrame (writeError id kind message) = false := by
  cases id <;> rfl

@[simp] theorem errorKind_writeError : errorKind (writeError id kind message) = some kind.text := by
  cases id <;> rfl

end Frames

def isWhitespace (c : Char) : Bool :=
  let n := c.toNat
  (9 ≤ n && n ≤ 13) || n == 0x20 || n == 0x85 || n == 0xA0 || n == 0x1680 || (0x2000 ≤ n && n ≤ 0x200A) ||
    n == 0x2028 || n == 0x2029 || n == 0x202F || n == 0x205F || n == 0x3000

def trim (s : String) : String :=
  String.ofList ((s.toList.dropWhile isWhitespace).reverse.dropWhile isWhitespace).reverse

def lines : List UInt8 → List (List UInt8)
  | [] => []
  | byte :: bytes =>
    if byte = 10 then [byte] :: lines bytes
    else match lines bytes with
      | [] => [[byte]]
      | line :: rest => (byte :: line) :: rest

end ViciaDb
