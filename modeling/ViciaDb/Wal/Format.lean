import ViciaDb.Graph.PendingOverlay

namespace ViciaDb.Wal

open ByteReader

structure Codec where
  toBytes : Fact → Bytes
  ofBytes : Bytes → Option Fact
  crc32 : Bytes → UInt32

structure WalEntry where
  txCount : UInt64
  facts : List Fact
  deriving DecidableEq, Repr

def walMagic : Bytes := [0x4D, 0x57, 0x41, 0x4C]
def walVersion : Nat := 1
def walHeaderSize : Nat := 32

def maxFactBytes : Nat := 4096 - 12 - 4
def maxFactsPerEntry : Nat := 1000000
def maxFactSize : Nat := 10 * 1024 * 1024

def walHeader : Bytes := walMagic ++ leBytes 4 walVersion ++ List.replicate 24 0

def validateWalHeader (file : Bytes) : Except String Unit :=
  if file.length < walHeaderSize then .error "failed to fill whole buffer"
  else if file.take 4 ≠ walMagic then .error "Invalid WAL magic number: not a .wal file"
  else
    let version := ofLeBytes ((file.drop 4).take 4)
    if version ≠ walVersion then
      .error ("Unsupported WAL version: " ++ toString version ++ " (expected " ++
        toString walVersion ++ ")")
    else .ok ()

section Writer

variable (codec : Codec)

def factTooLarge (size : Nat) : String :=
  "Fact serialised size " ++ toString size ++ " bytes exceeds maximum " ++
    toString maxFactBytes ++ " bytes. Store large payloads externally and reference them with a " ++
    "Value::String URL/path or Value::Ref entity ID."

def serializeFacts : List Fact → Except String Bytes
  | [] => .ok []
  | fact :: facts => do
    let factBytes := codec.toBytes fact
    if maxFactBytes < factBytes.length then .error (factTooLarge factBytes.length)
    else
      let rest ← serializeFacts facts
      return leBytes 4 factBytes.length ++ factBytes ++ rest

def serializeEntry (txCount : UInt64) (facts : List Fact) : Except String Bytes := do
  let body ← serializeFacts codec facts
  let payload := leBytes 8 txCount.toNat ++ leBytes 8 facts.length ++ body
  return leBytes 4 (codec.crc32 payload).toNat ++ payload

def openOrCreate : Option Bytes → Except String Bytes
  | none => .ok walHeader
  | some file =>
    if file.length < walHeaderSize then .ok walHeader
    else do
      validateWalHeader file
      return file

end Writer

section ReaderFns

variable (codec : Codec)

def readFact : Reader (Fact × Bytes) := do
  let lenBuf ← readExact 4
  if maxFactSize < ofLeBytes lenBuf then failure
  else
    let factBytes ← readExact (ofLeBytes lenBuf)
    match codec.ofBytes factBytes with
    | none => failure
    | some fact => return (fact, lenBuf ++ factBytes)

def readFacts : Nat → Reader (List Fact × Bytes)
  | 0 => return ([], [])
  | n + 1 => do
    let (fact, bytes) ← readFact codec
    let (facts, rest) ← readFacts n
    return (fact :: facts, bytes ++ rest)

def readEntry : Reader WalEntry := do
  let csumBuf ← readExact 4
  let txCountBuf ← readExact 8
  let numFactsBuf ← readExact 8
  if maxFactsPerEntry < ofLeBytes numFactsBuf then failure
  else
    let (facts, body) ← readFacts codec (ofLeBytes numFactsBuf)
    if ofLeBytes csumBuf ≠ (codec.crc32 (txCountBuf ++ numFactsBuf ++ body)).toNat then failure
    else return { txCount := UInt64.ofNat (ofLeBytes txCountBuf), facts }

def visitEntries (file : Bytes) : List WalEntry × Bytes :=
  readAll (readEntry codec) (file.drop walHeaderSize)

def openReader (file : Bytes) : Except String Unit :=
  if walHeaderSize ≤ file.length then validateWalHeader file else .ok ()

end ReaderFns

end ViciaDb.Wal
