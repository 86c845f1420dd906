import ViciaDb.Db.HistoryPages
import ViciaDb.Session.Frames

namespace ViciaDb

inductive StorageFailureDisposition where
  | recoverable | fatal
  deriving DecidableEq, Repr

structure DbError where
  message : String
  disposition : Option StorageFailureDisposition

inductive CommandResult where
  | transacted (txId : UInt64)
  | retracted (txId : UInt64)
  | forgotten (txId : Option UInt64) (count : Nat)
  | queryResults (vars : List String) (results : List (List Value))
  | ok

structure SessionStatusSnapshot where
  factCount : Option UInt64
  pendingFacts : UInt64
  txCount : UInt64
  walBytes : Option UInt64
  deltaSegments : Option UInt64
  deltaPages : Option UInt64

structure MaintenanceOutcome where
  published : Bool
  recompacted : Bool
  reduceCheckpointCadence : Bool

structure BackupOutcome where
  txCount : UInt64
  bytes : UInt64

/-- The database below a session. A call that is `none` panics, as executing `(/ ?x -1)` does for the
    smallest integer, and nothing in the session catches it. -/
structure SessionDb (σ : Type) where
  parse : String → Option (Except String Unit)
  execute : String → σ → Option (Except DbError CommandResult × σ)
  checkpoint : σ → Option (Except DbError Unit × σ)
  runIdleMaintenance : σ → Option (Except DbError MaintenanceOutcome × σ)
  backupTo : String → σ → Option (Except DbError BackupOutcome × σ)
  sessionStatus : σ → Option (Except DbError SessionStatusSnapshot)
  exportFactLogSince : UInt64 → σ → Option (Except DbError (List FactRecord))
  currentTxCount : σ → UInt64
  maintenanceAdvised : σ → Bool
  nowMs : σ → Int64

/-- Functions of other libraries: the JSON parser, the debug form of a text, the text of a UUID. -/
structure SessionCodecs where
  fromStr : String → Except String JVal
  debug : String → String
  uuidText : EntityId → String

structure Session (σ : Type) where
  db : σ
  lastCheckpointUnixMs : Option Int64 := none
  lastCheckpointOutcome : Option String := none

inductive OpOutcome where
  | ok (result : JVal)
  | error (kind : ErrorKind) (message : String)
  | fatal (message : String)
  | bye

def OpOutcome.frame (id : JVal) : OpOutcome → JVal
  | .ok result => writeOk id result
  | .error kind message => writeError id kind message
  | .fatal message => writeError id .storage message
  | .bye => writeOk id (.object [("type", .string "shutdown")])

def OpOutcome.ends : OpOutcome → Bool
  | .fatal _ => true
  | .bye => true
  | _ => false

inductive Op where
  | execute | status | checkpoint | maintenance | backup | exportSince | ping | shutdown
  | unknown (name : String)
  deriving DecidableEq, Repr

def Op.ofText : String → Op
  | "execute" => execute
  | "status" => status
  | "checkpoint" => checkpoint
  | "maintenance" => maintenance
  | "backup" => backup
  | "export_since" => exportSince
  | "ping" => ping
  | "shutdown" => shutdown
  | other => unknown other

structure Request where
  fields : JVal
  op : Op

def Request.id (request : Request) : JVal := frameId request.fields

def Request.field (request : Request) (name : String) : Option JVal := request.fields.get name

section Json

variable (ext : SessionCodecs)

def toTaggedJson : Value → JVal
  | .string s => .string s
  | .integer i => .int i.toInt
  | .float f =>
    if f.isNan then .object [("$float", .string "nan")]
    else if f.magnitude = 0x7FF0000000000000 then
      .object [("$float", .string (if f.isSignNegative then "-inf" else "inf"))]
    else .float f
  | .boolean b => .bool b
  | .ref id => .object [("$ref", .string (ext.uuidText id))]
  | .keyword k => .object [("$kw", .string k)]
  | .null => .null

def factRecordToJson (record : FactRecord) : JVal :=
  let validTime := match record.validTime with
    | .allValidTime => JVal.string "all"
    | .window validFrom validTo => .object [("valid_from", .int validFrom.toInt),
        ("valid_to", if validTo = Int64.maxValue then .null else .int validTo.toInt)]
  .object [("entity", .string (ext.uuidText record.entity)), ("attribute", .string record.attr),
    ("value", toTaggedJson ext record.value), ("tx_id", .ofU64 record.txId), ("tx_count", .ofU64 record.txCount),
    ("valid_time", validTime), ("asserted", .bool record.asserted)]

end Json

section Ops

variable {σ : Type} (ext : SessionCodecs) (db : SessionDb σ) (session : Session σ)

def durabilityText (state : σ) : JVal :=
  .string (if db.maintenanceAdvised state then "maintenance_pending" else "applied")

def writeResultBody (kind : String) (txId : UInt64) (state : σ) : List (String × JVal) :=
  [("type", .string kind), ("tx_id", .ofU64 txId), ("tx_count", .ofU64 (db.currentTxCount state)),
    ("durability", durabilityText db state)]

def resultBody (state : σ) : CommandResult → JVal
  | .transacted txId => .object (writeResultBody db "transacted" txId state)
  | .retracted txId => .object (writeResultBody db "retracted" txId state)
  | .forgotten txId count =>
    let body := match txId with
      | some txId => writeResultBody db "forgotten" txId state
      -- nothing matched and nothing was written
      | none => [("type", .string "forgotten"), ("tx_id", .null), ("tx_count", .ofU64 (db.currentTxCount state)),
          ("durability", .string "applied")]
    .object (body ++ [("forgotten", .int count)])
  | .queryResults vars results => .object [("type", .string "query"), ("variables", .array (vars.map .string)),
      ("results", .array (results.map fun row => .array (row.map (toTaggedJson ext))))]
  | .ok => .object [("type", .string "ok")]

def failureOutcome (error : DbError) : OpOutcome :=
  match error.disposition with
  | some .recoverable => .error .storage error.message
  | some .fatal => .fatal error.message
  | none => .error .execution error.message

def recordCheckpoint (session : Session σ) (outcome : String) : Session σ :=
  { session with lastCheckpointUnixMs := some (db.nowMs session.db), lastCheckpointOutcome := some outcome }

def opExecute (request : Request) : Option (OpOutcome × Session σ) :=
  match (request.field "datalog").bind JVal.asStr with
  | none => some (.error .protocol "execute requires string field \"datalog\"", session)
  | some datalog => do
    match ← db.parse datalog with
    | .error message => return (.error .parse message, session)
    | .ok _ =>
      let (result, state) ← db.execute datalog session.db
      return match result with
        | .ok result => (.ok (resultBody ext db state result), { session with db := state })
        | .error error => (failureOutcome error, { session with db := state })

def opStatus : Option (OpOutcome × Session σ) := do
  let result ← db.sessionStatus session.db
  return match result with
    | .ok s => (.ok (.object [("type", .string "status"), ("fact_count", .ofOption .ofU64 s.factCount),
        ("pending_facts", .ofU64 s.pendingFacts), ("tx_count", .ofU64 s.txCount),
        ("wal_bytes", .ofOption .ofU64 s.walBytes), ("delta_segments", .ofOption .ofU64 s.deltaSegments),
        ("delta_pages", .ofOption .ofU64 s.deltaPages),
        ("last_checkpoint_unix_ms", .ofOption (fun ms => .int ms.toInt) session.lastCheckpointUnixMs),
        ("last_checkpoint_outcome", .ofOption .string session.lastCheckpointOutcome)]), session)
    | .error error => (.fatal error.message, session)

def opCheckpoint : Option (OpOutcome × Session σ) := do
  let (result, state) ← db.checkpoint session.db
  let session := { session with db := state }
  return match result with
    | .ok _ => (.ok (.object [("type", .string "checkpoint"), ("durability", .string "published")]),
        recordCheckpoint db session "published")
    | .error error => (.fatal error.message, session)

def opMaintenance : Option (OpOutcome × Session σ) := do
  let (result, state) ← db.runIdleMaintenance session.db
  let session := { session with db := state }
  return match result with
    | .ok outcome =>
      (.ok (.object [("type", .string "maintenance"),
          ("checkpoint", .string (if outcome.published then "published" else "noop")),
          ("delta", .string (if outcome.recompacted then "recompacted" else "noop")),
          ("advice", .string (if outcome.reduceCheckpointCadence then "reduce_checkpoint_cadence" else "none"))]),
        if outcome.published then recordCheckpoint db session "published" else session)
    | .error error => (.fatal error.message, session)

def backupField : String := "backup requires non-empty string field \"destination\""

def opBackup (request : Request) : Option (OpOutcome × Session σ) :=
  match (request.field "destination").bind JVal.asStr with
  | none => some (.error .protocol backupField, session)
  | some destination =>
    if destination.isEmpty then some (.error .protocol backupField, session)
    else do
      let (result, state) ← db.backupTo destination session.db
      let session := { session with db := state }
      return match result with
        | .ok outcome => (.ok (.object [("type", .string "backup"), ("destination", .string destination),
            ("tx_count", .ofU64 outcome.txCount), ("bytes", .ofU64 outcome.bytes),
            ("durability", .string "published")]), recordCheckpoint db session "published")
        | .error error =>
          (if error.disposition = some .fatal then .fatal error.message else .error .storage error.message, session)

def opExportSince (request : Request) : Option (OpOutcome × Session σ) :=
  match (request.field "since_tx_count").bind JVal.asU64 with
  | none => some (.error .protocol "export_since requires unsigned integer field \"since_tx_count\"", session)
  | some since => do
    let result ← db.exportFactLogSince since session.db
    return match result with
      | .ok records => (.ok (.object [("type", .string "fact_log"), ("since_tx_count", .ofU64 since),
          ("head_tx_count", .ofU64 (db.currentTxCount session.db)),
          ("records", .array (records.map (factRecordToJson ext)))]), session)
      | .error error => (.fatal error.message, session)

def perform (request : Request) : Option (OpOutcome × Session σ) :=
  match request.op with
  | .execute => opExecute ext db session request
  | .status => opStatus db session
  | .checkpoint => opCheckpoint db session
  | .maintenance => opMaintenance db session
  | .backup => opBackup db session request
  | .exportSince => opExportSince ext db session request
  | .ping => some (.ok (.object [("type", .string "pong")]), session)
  | .shutdown => some (.bye, session)
  | .unknown other => some (.error .protocol s!"unknown op {ext.debug other}", session)

end Ops

section Run

variable {σ : Type} (ext : SessionCodecs) (db : SessionDb σ)

def readRequest (text : String) : Except JVal Request :=
  match ext.fromStr text with
  | .error message => .error (writeError .null .protocol s!"invalid JSON: {message}")
  | .ok (.object fields) =>
    let request := JVal.object fields
    match (request.get "op").bind JVal.asStr with
    | some op => .ok ⟨request, .ofText op⟩
    | none => .error (writeError (frameId request) .protocol "missing string field \"op\"")
  | .ok _ => .error (writeError .null .protocol "request must be a JSON object")

inductive SessionExit where
  | closed
  | panicked
  | failed (message : String)
  deriving DecidableEq, Repr

def lineText (line : List UInt8) : Option String := String.fromUTF8? ⟨line.toArray⟩

def fatalText (message : String) : String := "fatal session storage error: " ++ message

def serve (session : Session σ) : List (List UInt8) → List JVal × SessionExit
  | [] => ([], .closed)
  | line :: rest =>
    match lineText line with
    | none => ([], .failed "stream did not contain valid UTF-8")
    | some text =>
      let trimmed := trim text
      if trimmed.isEmpty then serve session rest
      else
        match readRequest ext trimmed with
        | .error frame =>
          let (frames, exit) := serve session rest
          (frame :: frames, exit)
        | .ok request =>
          match perform ext db session request with
          | none => ([], .panicked)
          | some (outcome, session) =>
            let frame := outcome.frame request.id
            match outcome with
            | .fatal message => ([frame], .failed (fatalText message))
            | .bye => ([frame], .closed)
            | _ =>
              let (frames, exit) := serve session rest
              (frame :: frames, exit)

def Session.run (session : Session σ) (input : List UInt8) : List JVal × SessionExit :=
  serve ext db session (lines input)

end Run

end ViciaDb
