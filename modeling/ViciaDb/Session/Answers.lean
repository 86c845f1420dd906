import ViciaDb.Session.Loop

namespace ViciaDb

open OpOutcome (frame)

section Answers

variable {σ : Type} (ext : SessionCodecs) (db : SessionDb σ)

def isBlank (line : List UInt8) : Bool := (lineText line).any fun text => (trim text).isEmpty

def lineRequest (line : List UInt8) : Option Request :=
  (lineText line).bind fun text => (readRequest ext (trim text)).toOption

def textId (text : String) : JVal :=
  match ext.fromStr text with
  | .ok json => frameId json
  | .error _ => .null

def lineId (line : List UInt8) : JVal := ((lineText line).map fun text => textId ext (trim text)).getD .null

def Acknowledged (session : Session σ) (request : Request) : Prop :=
  match request.op with
  | .execute => ∃ datalog result state, request.field "datalog" = some (.string datalog) ∧
      db.execute datalog session.db = some (.ok result, state)
  | .status => ∃ status, db.sessionStatus session.db = some (.ok status)
  | .checkpoint => ∃ state, db.checkpoint session.db = some (.ok (), state)
  | .maintenance => ∃ outcome state, db.runIdleMaintenance session.db = some (.ok outcome, state)
  | .backup => ∃ destination outcome state, request.field "destination" = some (.string destination) ∧
      db.backupTo destination session.db = some (.ok outcome, state)
  | .exportSince => ∃ since records, (request.field "since_tx_count").bind JVal.asU64 = some since ∧
      db.exportFactLogSince since session.db = some (.ok records)
  | .ping => True
  | .shutdown => True
  | .unknown _ => False

/-- The call a request stands for panics. -/
def Panics (session : Session σ) (request : Request) : Prop :=
  match request.op with
  | .execute => ∃ datalog, request.field "datalog" = some (.string datalog) ∧
      (db.parse datalog = none ∨ db.parse datalog = some (.ok ()) ∧ db.execute datalog session.db = none)
  | .status => db.sessionStatus session.db = none
  | .checkpoint => db.checkpoint session.db = none
  | .maintenance => db.runIdleMaintenance session.db = none
  | .backup => ∃ destination, request.field "destination" = some (.string destination) ∧
      destination.isEmpty = false ∧ db.backupTo destination session.db = none
  | .exportSince => ∃ since, (request.field "since_tx_count").bind JVal.asU64 = some since ∧
      db.exportFactLogSince since session.db = none
  | .ping | .shutdown | .unknown _ => False

structure Responds (session : Session σ) (request : Request) (outcome : OpOutcome) (frame : JVal) :
    Prop where
  acknowledged : isOkFrame frame = true → Acknowledged db session request
  refused : isOkFrame frame = false → ∃ kind : ErrorKind, errorKind frame = some kind.text
  ends : outcome.ends = true →
    request.op = .shutdown ∨ isOkFrame frame = false ∧ errorKind frame = some ErrorKind.storage.text
  shutsDown : request.op = .shutdown → outcome.ends = true

def Answered (session : Session σ) : List (List UInt8) → List JVal → Prop
  | [], frames => frames = []
  | line :: rest, frames =>
    if isBlank line then Answered session rest frames
    else ∃ frame later, frames = frame :: later ∧ frameId frame = lineId ext line ∧
      match lineRequest ext line with
      | none => isOkFrame frame = false ∧ errorKind frame = some ErrorKind.protocol.text ∧
          Answered session rest later
      | some request => ∃ outcome next, perform ext db session request = some (outcome, next) ∧
          Responds db session request outcome frame ∧
          if outcome.ends then later = [] else Answered next rest later

/-- Up to the end of the session every line is UTF-8 and no call panics. -/
def Readable (session : Session σ) : List (List UInt8) → Prop
  | [] => True
  | line :: rest => (lineText line).isSome = true ∧
    if isBlank line then Readable session rest
    else match lineRequest ext line with
      | none => Readable session rest
      | some request => ¬ Panics db session request ∧
        ∀ outcome next, perform ext db session request = some (outcome, next) →
          outcome.ends = false → Readable next rest

end Answers

section Proof

variable {σ : Type} {ext : SessionCodecs} {db : SessionDb σ} {session : Session σ} {request : Request}

theorem ok_of_isOkFrame {outcome : OpOutcome} {id : JVal} (granted : isOkFrame (outcome.frame id) = true) :
    (∃ result, outcome = .ok result) ∨ outcome = .bye := by
  cases outcome with
  | ok result => exact .inl ⟨result, rfl⟩
  | bye => exact .inr rfl
  | error kind message | fatal message => simp [frame] at granted

variable {text : String}

theorem asStr_eq_some {json : Option JVal} (given : json.bind JVal.asStr = some text) :
    json = some (.string text) := by
  obtain ⟨value, rfl, isText⟩ := Option.bind_eq_some_iff.mp given
  cases value <;> simp_all [JVal.asStr]

theorem string_unique {json : Option JVal} {other : String} (given : json = some (.string text))
    (given' : json = some (.string other)) : other = text := by
  cases given.symm.trans given'
  rfl

structure Grants (called : Prop) (outcome : OpOutcome) : Prop where
  granted : ∀ result, outcome = .ok result → called
  stays : outcome ≠ .bye

variable {called : Prop}

theorem grants_error (kind : ErrorKind) (message : String) : Grants called (.error kind message) :=
  ⟨nofun, nofun⟩

theorem grants_fatal (message : String) : Grants called (.fatal message) := ⟨nofun, nofun⟩

theorem grants_ok (answered : called) (result : JVal) : Grants called (.ok result) :=
  ⟨fun _ _ => answered, nofun⟩

theorem failureOutcome_grants (error : DbError) : Grants called (failureOutcome error) := by
  unfold failureOutcome
  split
  · exact grants_error _ _
  · exact grants_fatal _
  · exact grants_error _ _

/-- An operation fails to end exactly when its call panics, and is answered ok only by its call. -/
structure Calls (called panics : Prop) (run : Option (OpOutcome × Session σ)) : Prop where
  none_iff : run = none ↔ panics
  grants : ∀ outcome next, run = some (outcome, next) → Grants called outcome

variable {panics : Prop}

theorem calls_some {outcome : OpOutcome} {next : Session σ} (quiet : ¬ panics)
    (grants : Grants called outcome) : Calls called panics (some (outcome, next)) := by
  refine ⟨iff_of_false nofun quiet, ?_⟩
  rintro _ _ ⟨⟩
  exact grants

theorem calls_none (panicked : panics) : Calls called panics (none : Option (OpOutcome × Session σ)) :=
  ⟨iff_of_true rfl panicked, nofun⟩

theorem opExecute_calls : Calls (∃ datalog result state, request.field "datalog" = some (.string datalog) ∧
      db.execute datalog session.db = some (.ok result, state))
    (∃ datalog, request.field "datalog" = some (.string datalog) ∧ (db.parse datalog = none ∨
      db.parse datalog = some (.ok ()) ∧ db.execute datalog session.db = none))
    (opExecute ext db session request) := by
  unfold opExecute
  split
  · rename_i missing
    refine calls_some ?_ (grants_error _ _)
    rintro ⟨datalog, given, -⟩
    rw [given] at missing
    cases missing
  rename_i datalog given
  have given := asStr_eq_some given
  cases parsed : db.parse datalog with
  | none => exact calls_none ⟨datalog, given, .inl parsed⟩
  | some parse =>
    cases parse with
    | error message =>
      refine calls_some ?_ (grants_error _ _)
      rintro ⟨other, given', failed⟩
      rw [string_unique given given', parsed] at failed
      simp at failed
    | ok _ =>
      cases ran : db.execute datalog session.db with
      | none =>
        exact calls_none ⟨datalog, given, .inr ⟨parsed, ran⟩⟩
      | some run =>
        obtain ⟨result, state⟩ := run
        have quiet : ¬ ∃ datalog, request.field "datalog" = some (.string datalog) ∧
            (db.parse datalog = none ∨ db.parse datalog = some (.ok ()) ∧
              db.execute datalog session.db = none) := by
          rintro ⟨other, given', failed⟩
          rw [string_unique given given', parsed, ran] at failed
          simp at failed
        cases result with
        | ok result => exact calls_some quiet (grants_ok ⟨datalog, result, state, given, ran⟩ _)
        | error error => exact calls_some quiet (failureOutcome_grants error)

theorem opStatus_calls : Calls (∃ status, db.sessionStatus session.db = some (.ok status))
    (db.sessionStatus session.db = none) (opStatus db session) := by
  unfold opStatus
  cases ran : db.sessionStatus session.db with
  | none => exact calls_none rfl
  | some result =>
    cases result with
    | ok status => exact calls_some nofun (grants_ok ⟨status, rfl⟩ _)
    | error error => exact calls_some nofun (grants_fatal _)

theorem opCheckpoint_calls : Calls (∃ state, db.checkpoint session.db = some (.ok (), state))
    (db.checkpoint session.db = none) (opCheckpoint db session) := by
  unfold opCheckpoint
  cases ran : db.checkpoint session.db with
  | none => exact calls_none rfl
  | some run =>
    obtain ⟨result, state⟩ := run
    cases result with
    | ok _ => exact calls_some nofun (grants_ok ⟨state, rfl⟩ _)
    | error error => exact calls_some nofun (grants_fatal _)

theorem opMaintenance_calls :
    Calls (∃ outcome state, db.runIdleMaintenance session.db = some (.ok outcome, state))
      (db.runIdleMaintenance session.db = none) (opMaintenance db session) := by
  unfold opMaintenance
  cases ran : db.runIdleMaintenance session.db with
  | none => exact calls_none rfl
  | some run =>
    obtain ⟨result, state⟩ := run
    cases result with
    | ok outcome => exact calls_some nofun (grants_ok ⟨outcome, state, rfl⟩ _)
    | error error => exact calls_some nofun (grants_fatal _)

theorem opBackup_calls : Calls (∃ destination outcome state,
      request.field "destination" = some (.string destination) ∧
      db.backupTo destination session.db = some (.ok outcome, state))
    (∃ destination, request.field "destination" = some (.string destination) ∧
      destination.isEmpty = false ∧ db.backupTo destination session.db = none)
    (opBackup db session request) := by
  unfold opBackup
  split
  · rename_i missing
    refine calls_some ?_ (grants_error _ _)
    rintro ⟨destination, given, -⟩
    rw [given] at missing
    cases missing
  rename_i destination given
  have given := asStr_eq_some given
  split
  · rename_i empty
    refine calls_some ?_ (grants_error _ _)
    rintro ⟨other, given', filled, -⟩
    rw [string_unique given given', empty] at filled
    cases filled
  rename_i filled
  have filled : destination.isEmpty = false := by simpa using filled
  cases ran : db.backupTo destination session.db with
  | none => exact calls_none ⟨destination, given, filled, ran⟩
  | some run =>
    obtain ⟨result, state⟩ := run
    have quiet : ¬ ∃ destination, request.field "destination" = some (.string destination) ∧
        destination.isEmpty = false ∧ db.backupTo destination session.db = none := by
      rintro ⟨other, given', -, failed⟩
      rw [string_unique given given', ran] at failed
      cases failed
    cases result with
    | ok outcome => exact calls_some quiet (grants_ok ⟨destination, outcome, state, given, ran⟩ _)
    | error error =>
      refine calls_some quiet ?_
      split
      · exact grants_fatal _
      · exact grants_error _ _

theorem opExportSince_calls :
    Calls (∃ since records, (request.field "since_tx_count").bind JVal.asU64 = some since ∧
        db.exportFactLogSince since session.db = some (.ok records))
      (∃ since, (request.field "since_tx_count").bind JVal.asU64 = some since ∧
        db.exportFactLogSince since session.db = none)
      (opExportSince ext db session request) := by
  unfold opExportSince
  cases given : (request.field "since_tx_count").bind JVal.asU64 with
  | none => exact calls_some (by simp) (grants_error _ _)
  | some since =>
    cases ran : db.exportFactLogSince since session.db with
    | none =>
      simp only [ran]
      exact calls_none ⟨since, rfl, ran⟩
    | some result =>
      simp only [ran]
      cases result with
      | ok records => exact calls_some (by simp [ran]) (grants_ok ⟨since, records, rfl, ran⟩ _)
      | error error => exact calls_some (by simp [ran]) (grants_fatal _)

theorem perform_calls (ext : SessionCodecs) (db : SessionDb σ) (session : Session σ) (request : Request) :
    request.op = .shutdown ∧ perform ext db session request = some (.bye, session) ∨
      request.op ≠ .shutdown ∧ Calls (Acknowledged db session request) (Panics db session request)
        (perform ext db session request) := by
  obtain ⟨fields, op⟩ := request
  cases op with
  | shutdown => exact .inl ⟨rfl, rfl⟩
  | execute => exact .inr ⟨nofun, opExecute_calls⟩
  | status => exact .inr ⟨nofun, opStatus_calls⟩
  | checkpoint => exact .inr ⟨nofun, opCheckpoint_calls⟩
  | maintenance => exact .inr ⟨nofun, opMaintenance_calls⟩
  | backup => exact .inr ⟨nofun, opBackup_calls⟩
  | exportSince => exact .inr ⟨nofun, opExportSince_calls⟩
  | ping => exact .inr ⟨nofun, calls_some id (grants_ok trivial _)⟩
  | unknown name => exact .inr ⟨nofun, calls_some id (grants_error _ _)⟩

theorem perform_eq_none_iff (ext : SessionCodecs) (db : SessionDb σ) (session : Session σ) (request : Request) :
    perform ext db session request = none ↔ Panics db session request := by
  rcases perform_calls ext db session request with ⟨asked, outcome⟩ | ⟨-, calls⟩
  · rw [outcome, Panics, asked]
    exact iff_of_false nofun id
  · exact calls.none_iff

theorem perform_responds {session next : Session σ} {request : Request} {outcome : OpOutcome}
    (ran : perform ext db session request = some (outcome, next)) :
    Responds db session request outcome (outcome.frame request.id) := by
  rcases perform_calls ext db session request with ⟨asked, isBye⟩ | ⟨other, calls⟩
  · cases isBye.symm.trans ran
    refine ⟨fun _ => ?_, fun refused => ?_, fun _ => .inl asked, fun _ => rfl⟩
    · unfold Acknowledged
      rw [asked]
      trivial
    · rw [frame, isOkFrame_writeOk] at refused
      cases refused
  · have grants := calls.grants outcome next ran
    refine ⟨fun granted => ?_, fun refused => ?_, fun ended => ?_, fun asked => absurd asked other⟩
    · rcases ok_of_isOkFrame granted with ⟨result, isOk⟩ | isBye
      · exact grants.granted result isOk
      · exact absurd isBye grants.stays
    · cases outcome with
      | ok result =>
        rw [frame, isOkFrame_writeOk] at refused
        cases refused
      | bye => exact absurd rfl grants.stays
      | error kind message => exact ⟨kind, errorKind_writeError ..⟩
      | fatal message => exact ⟨.storage, errorKind_writeError ..⟩
    · cases outcome with
      | ok result | error kind message => cases ended
      | bye => exact absurd rfl grants.stays
      | fatal message => exact .inr ⟨isOkFrame_writeError .., errorKind_writeError ..⟩

theorem frameId_frame (outcome : OpOutcome) (id : JVal) : frameId (outcome.frame id) = id := by
  cases outcome <;> simp [frame]

theorem readRequest_error {frame : JVal} (read : readRequest ext text = .error frame) :
    frameId frame = textId ext text ∧ isOkFrame frame = false ∧ errorKind frame = some ErrorKind.protocol.text := by
  unfold readRequest at read
  unfold textId
  split at read
  · cases read
    rename_i unreadable
    simp [unreadable]
  · rename_i readable
    dsimp only at read
    split at read
    · cases read
    · cases read
      simp [readable]
  · rename_i json other readable
    cases read
    have none_ : frameId json = .null := by
      cases json with
      | object fields => exact absurd rfl (other fields)
      | _ => rfl
    simp [readable, none_]

theorem readRequest_ok {request : Request} (read : readRequest ext text = .ok request) :
    request.id = textId ext text := by
  unfold readRequest at read
  unfold textId
  split at read
  · cases read
  · rename_i readable
    dsimp only at read
    split at read
    · cases read
      rw [readable]
      rfl
    · cases read
  · cases read

section Lines

variable {line : List UInt8} {rest : List (List UInt8)} {text : String}

theorem serve_blank (decoded : lineText line = some text) (blank : (trim text).isEmpty = true) :
    serve ext db session (line :: rest) = serve ext db session rest := by
  rw [serve, decoded]
  exact if_pos blank

theorem serve_malformed (decoded : lineText line = some text) (filled : (trim text).isEmpty = false) {frame : JVal}
    (read : readRequest ext (trim text) = .error frame) :
    (serve ext db session (line :: rest)).1 = frame :: (serve ext db session rest).1 := by
  rw [serve, decoded]
  simp only [filled, read]
  rfl

theorem serve_panicked (decoded : lineText line = some text) (filled : (trim text).isEmpty = false)
    (read : readRequest ext (trim text) = .ok request) (ran : perform ext db session request = none) :
    (serve ext db session (line :: rest)).1 = [] := by
  rw [serve, decoded]
  simp only [filled, read, ran]
  rfl

theorem serve_request (decoded : lineText line = some text) (filled : (trim text).isEmpty = false)
    (read : readRequest ext (trim text) = .ok request) {outcome : OpOutcome} {next : Session σ}
    (ran : perform ext db session request = some (outcome, next)) :
    (serve ext db session (line :: rest)).1 = outcome.frame request.id ::
      if outcome.ends then [] else (serve ext db next rest).1 := by
  rw [serve, decoded]
  simp only [filled, read, ran]
  cases outcome <;> rfl

end Lines

theorem answered_serve_iff (session : Session σ) (input : List (List UInt8)) :
    Answered ext db session input (serve ext db session input).1 ↔ Readable ext db session input := by
  induction input generalizing session with
  | nil => exact ⟨fun _ => trivial, fun _ => rfl⟩
  | cons line rest ih =>
    rw [Answered, Readable]
    cases decoded : lineText line with
    | none =>
      have filled : isBlank line = false := by rw [isBlank, decoded]; rfl
      have nothing : (serve ext db session (line :: rest)).1 = [] := by rw [serve, decoded]
      simp [filled, nothing]
    | some text =>
      have isBlank_eq : isBlank line = (trim text).isEmpty := by rw [isBlank, decoded]; rfl
      rw [isBlank_eq]
      cases blank : (trim text).isEmpty with
      | true => simpa [serve_blank decoded blank] using ih session
      | false =>
        have isRequest : lineRequest ext line = (readRequest ext (trim text)).toOption := by
          rw [lineRequest, decoded]; rfl
        have isId : lineId ext line = textId ext (trim text) := by
          rw [lineId, decoded]; rfl
        rw [isRequest, isId]
        cases read : readRequest ext (trim text) with
        | error frame =>
          obtain ⟨sameId, notOk, kind⟩ := readRequest_error read
          rw [serve_malformed decoded blank read]
          simp [Except.toOption, sameId, notOk, kind, ih session]
        | ok request =>
          simp only [Except.toOption]
          cases ran : perform ext db session request with
          | none =>
            rw [serve_panicked decoded blank read ran]
            simp [(perform_eq_none_iff ext db session request).mp ran]
          | some pair =>
            obtain ⟨outcome, next⟩ := pair
            have quiet : ¬ Panics db session request := by
              rw [← perform_eq_none_iff ext, ran]
              nofun
            rw [serve_request decoded blank read ran]
            have sameId : frameId (outcome.frame request.id) = textId ext (trim text) :=
              (frameId_frame _ _).trans (readRequest_ok read)
            have responds := perform_responds ran
            cases ended : outcome.ends with
            | true => simp [quiet, sameId, responds, ended]
            | false => simp [quiet, sameId, responds, ended, ih]

theorem session_answers_iff (session : Session σ) (input : List UInt8) :
    Answered ext db session (lines input) (session.run ext db input).1 ↔ Readable ext db session (lines input) :=
  answered_serve_iff session (lines input)

end Proof

section Example

def idleDb : SessionDb Unit where
  parse _ := some (.ok ())
  execute _ state := some (.ok .ok, state)
  checkpoint state := some (.ok (), state)
  runIdleMaintenance state := some (.ok ⟨false, false, false⟩, state)
  backupTo _ state := some (.ok ⟨0, 0⟩, state)
  sessionStatus _ := some (.ok ⟨some 0, 0, 0, none, none, none⟩)
  exportFactLogSince _ _ := some (.ok [])
  currentTxCount _ := 0
  maintenanceAdvised _ := false
  nowMs _ := 0

def pingJson : SessionCodecs where
  fromStr text := if text = "\x7b\"op\":\"ping\"\x7d" then .ok (.object [("op", .string "ping")])
    else .error "expected value at line 1 column 1"
  debug text := text
  uuidText _ := ""

def brokenInput : List UInt8 :=
  [0xFF, 10] ++ ("\x7b\"op\":\"ping\"\x7d".toUTF8.toList ++ [10])

theorem broken_line_ends_session :
    Session.run pingJson idleDb ⟨(), none, none⟩ brokenInput = ([], .failed "stream did not contain valid UTF-8") ∧
      ¬ Answered pingJson idleDb ⟨(), none, none⟩ (lines brokenInput)
        (Session.run pingJson idleDb ⟨(), none, none⟩ brokenInput).1 := by
  have first : ∃ rest, lines brokenInput = [0xFF, 10] :: rest := ⟨_, rfl⟩
  obtain ⟨rest, split⟩ := first
  have broken : lineText [0xFF, 10] = none := by decide +kernel
  refine ⟨?_, fun answered => ?_⟩
  · rw [Session.run, split, serve, broken]
  · rw [Session.run, answered_serve_iff, split, Readable, broken] at answered
    cases answered.1

end Example

end ViciaDb
