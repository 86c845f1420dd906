import ViciaDb.Lib.PagedReads
import ViciaDb.Lib.RetriedCursor
import ViciaDb.Storage.BTreePages

namespace ViciaDb

open ByteReader PagedReads
open MergeCursor (Round Fault Transparent unfailed unfailed_tried unfailed_failed)

section Model

structure Section where
  offset : Nat
  len : Nat

/-- The sections of an image that hold its rows. -/
structure RowSections where
  entities : Section
  valueOffsets : Section
  valueBytes : Section
  validFrom : Section
  validTo : Section

structure PageTemporalDecoder where
  position : Nat := 0
  predictors : Vector UInt64 8 := Vector.replicate 8 0
  nextPredictor : Fin 8 := ⟨0, by decide⟩

structure CurrentProjectionScanDescriptor where
  imagePageStart : Nat
  imagePageCount : Nat
  validTimeFloor : Int64
  fingerprint : UInt64

structure CurrentProjectionScan where
  descriptor : CurrentProjectionScanDescriptor
  sections : RowSections
  rowCount : Nat
  row : Nat
  validFrom : PageTemporalDecoder
  validTo : PageTemporalDecoder
  previousEntity : Option EntityId
  fingerprint : UInt64

def usizeSaturatingAdd (a b : Nat) : Nat := min (a + b) usizeMax

def hashProjectionBytes (hash : UInt64) (bytes : Bytes) : UInt64 :=
  (bytes.foldl (fun hash byte => (hash ^^^ byte.toUInt64) * 0x100000001b3) hash ^^^ 0xff) * 0x100000001b3

def validateEncodedValue : Bytes → Except String Unit
  | [] => .error "empty current projection value"
  | tag :: payload =>
    if tag = 0x00 ∧ payload = [] then .ok ()
    else if tag = 0x01 ∧ (payload = [0] ∨ payload = [1]) then .ok ()
    else if (tag = 0x02 ∨ tag = 0x03) ∧ payload.length = 8 then .ok ()
    else if tag = 0x04 ∨ tag = 0x05 then
      if (String.fromUTF8? ⟨payload.toArray⟩).isSome then .ok () else .error "invalid utf-8"
    else if tag = 0x06 ∧ payload.length = 16 then .ok ()
    else .error ("malformed current projection value tag 0x" ++ hexByte tag)

def projectionPageCacheCapacity : Nat := 8

def CurrentProjectionScanDescriptor.source (descriptor : CurrentProjectionScanDescriptor)
    (readPage : Nat → Except String Bytes) : Source String where
  fetch := readPage
  start := descriptor.imagePageStart
  count := descriptor.imagePageCount
  size := BTree.pageSize
  capacity := projectionPageCacheCapacity
  rangeOverflow := "current projection scan range overflow"
  capacityOverflow := "current projection scan image capacity overflow"
  exceeds := "current projection scan range exceeds image"
  idOverflow := "current projection scan page id overflow"
  invalidLength := "current projection page has invalid length"
  truncated := "current projection page is truncated"

section Temporal

variable (source : Source String) (s : Section)

def readByte (position : Nat) : Read String UInt8 := do
  let bytes ← source.visitRange (usizeSaturatingAdd s.offset position) 1
  return bytes.headD 0

/-- The delta and the position behind it. At most ten bytes are read: `index` counts them, the first
    argument is how many are left. -/
def readVarint : Nat → Nat → Nat → UInt64 → Read String (UInt64 × Nat)
  | 0, _, _, _ => Read.lift (.error "current projection temporal varint is overlong")
  | left + 1, index, position, delta => do
    Read.ensure (position < s.len) "truncated current projection temporal varint"
    let byte ← readByte source s position
    let payload := byte &&& 0x7f
    Read.ensure (¬(index = 9 ∧ 1 < payload)) "current projection temporal varint exceeds u64"
    let delta := delta ||| payload.toUInt64 <<< UInt64.ofNat (index * 7)
    if byte &&& 0x80 = 0 then do
      Read.ensure (¬(0 < index ∧ payload = 0)) "current projection temporal varint is overlong"
      return (delta, position + 1)
    else readVarint left (index + 1) (position + 1) delta

def decodePageTemporal (decoder : PageTemporalDecoder) : Read String (Int64 × PageTemporalDecoder) := do
  Read.ensure (decoder.position < s.len) "truncated current projection temporal predictor"
  let predictor ← readByte source s decoder.position
  let previous ← Read.lift (decoder.predictors[predictor.toNat]?.elim
    (.error "invalid current projection temporal predictor") .ok)
  let delta ← readVarint source s 10 0 (decoder.position + 1) 0
  let bits := previous ^^^ delta.1
  return (bits.toInt64,
    { position := delta.2
      predictors := decoder.predictors.set decoder.nextPredictor bits
      nextPredictor := ⟨(decoder.nextPredictor.val + 1) % 8, Nat.mod_lt _ (by decide)⟩ })

end Temporal

/-- A row as it is read, with the decoders behind its times. -/
structure ProjectedRow where
  entity : EntityId
  value : Bytes
  validFrom : Int64
  validTo : Int64
  nextFrom : PageTemporalDecoder
  nextTo : PageTemporalDecoder

def ProjectedRow.emitted (validAt : Int64) (row : ProjectedRow) : List (EntityId × Bytes) :=
  if row.validFrom ≤ validAt ∧ validAt < row.validTo then [(row.entity, row.value)] else []

namespace CurrentProjectionScan

variable (scan : CurrentProjectionScan) (readPage : Nat → Except String Bytes)

def readRow : Read String ProjectedRow := do
  let source := scan.descriptor.source readPage
  let entityOffset := scan.sections.entities.offset + scan.row * 16
  Read.ensure (entityOffset < 2 ^ 64) "entity offset overflow"
  let entityBytes ← source.visitRange entityOffset 16
  let entity : EntityId := BitVec.ofNat 128 (ofLeBytes entityBytes.reverse)
  Read.ensure (scan.previousEntity.all fun previous => decide (previous ≤ entity))
    "current projection image entities are not sorted"
  let offsetPosition := scan.sections.valueOffsets.offset + scan.row * 4
  Read.ensure (offsetPosition < 2 ^ 64) "value offset overflow"
  let offsets ← source.visitRange offsetPosition 8
  let start := ofLeBytes (offsets.take 4)
  let stop := ofLeBytes (offsets.drop 4)
  Read.ensure (start ≤ stop ∧ stop ≤ scan.sections.valueBytes.len) "current projection image value offsets are invalid"
  let (validFrom, nextFrom) ← decodePageTemporal source scan.sections.validFrom scan.validFrom
  let (validTo, nextTo) ← decodePageTemporal source scan.sections.validTo scan.validTo
  Read.ensure (validFrom < validTo ∧ scan.descriptor.validTimeFloor < validTo)
    "current projection image interval is invalid"
  let value ← source.visitRange (usizeSaturatingAdd scan.sections.valueBytes.offset start) (stop - start)
  Read.lift (validateEncodedValue value)
  return { entity, value, validFrom, validTo, nextFrom, nextTo }

def hashRow (row : ProjectedRow) : UInt64 :=
  let hash := hashProjectionBytes scan.fingerprint (beBytes 16 row.entity.toNat)
  let hash := hashProjectionBytes hash row.value
  let hash := hashProjectionBytes hash (beBytes 8 row.validFrom.toUInt64.toNat)
  hashProjectionBytes hash (beBytes 8 row.validTo.toUInt64.toNat)

/-- What a step notes of a row once all of it has been read. -/
def commit (row : ProjectedRow) : CurrentProjectionScan :=
  { scan with
    row := scan.row + 1
    validFrom := row.nextFrom
    validTo := row.nextTo
    previousEntity := some row.entity
    fingerprint := scan.hashRow row }

def checkEnd : Except String Unit :=
  if scan.validFrom.position = scan.sections.validFrom.len ∧ scan.validTo.position = scan.sections.validTo.len ∧
      scan.fingerprint = scan.descriptor.fingerprint then .ok ()
  else .error "current projection image logical fingerprint mismatch"

/-- The rows handed over, what the scan and its page cache are left with, and whether the scan is complete. -/
structure Step where
  visited : List (EntityId × Bytes)
  scan : CurrentProjectionScan
  pages : Pages
  outcome : Except (Failure String) Bool

def finishStep (pages : Pages) : Step where
  visited := []
  scan := scan
  pages := pages
  outcome := if scan.row < scan.rowCount then .ok false else (scan.checkEnd.map fun _ => true).mapError .failed

def stepRows (validAt : Int64) : Nat → CurrentProjectionScan → Pages → Step
  | 0, scan, pages => scan.finishStep pages
  | left + 1, scan, pages =>
    if scan.row < scan.rowCount then
      match scan.readRow readPage pages with
      | (.error failure, pages) => { visited := [], scan, pages, outcome := .error failure }
      | (.ok row, pages) =>
        let rest := stepRows validAt left (scan.commit row) pages
        { rest with visited := row.emitted validAt ++ rest.visited }
    else scan.finishStep pages

def step (maxRows : Nat) (validAt : Int64) (pages : Pages) : Step :=
  if maxRows = 0 then { visited := [], scan, pages, outcome := .ok false }
  else stepRows readPage validAt maxRows scan pages

/-- A failure ends the attempt in front of a page that is not resident; the next attempt is the same step
    on what the scan was left with. -/
def retry (scan : CurrentProjectionScan) (readPage : Nat → Except String Bytes) (validAt : Int64) :
    List Round → List (Nat × Bytes) → Except String (Option (List (EntityId × Bytes)))
  | [], _ => .ok none
  | ⟨maxRows, fault⟩ :: attempts, cache =>
    let step := scan.step readPage maxRows validAt ⟨cache, fault.map Fault.after⟩
    match step.outcome with
    | .ok true => .ok (some step.visited)
    | .error (.failed message) => .error message
    | .ok false | .error .notResident => do
      let rest ← retry step.scan readPage validAt attempts step.pages.cache
      return rest.map (step.visited ++ ·)

end CurrentProjectionScan

end Model

section Settled

open Source

variable {source : Source String} {s : Section}

theorem settled_readByte (position : Nat) : source.Settled (readByte source s position) :=
  (settled_visitRange _ _).bind fun _ => settled_pure _

theorem settled_readVarint (left index position : Nat) (delta : UInt64) :
    source.Settled (readVarint source s left index position delta) := by
  induction left generalizing index position delta with
  | zero => exact settled_lift _
  | succ left ih =>
    refine (settled_ensure _ _).bind fun _ => (settled_readByte position).bind fun byte => ?_
    refine (settled_ensure _ _).bind fun _ => .ite ?_ (ih _ _ _)
    exact (settled_ensure _ _).bind fun _ => settled_pure _

theorem settled_decodePageTemporal (decoder : PageTemporalDecoder) :
    source.Settled (decodePageTemporal source s decoder) := by
  refine (settled_ensure _ _).bind fun _ => (settled_readByte _).bind fun predictor => ?_
  exact (settled_lift _).bind fun _ => (settled_readVarint _ _ _ _).bind fun _ => settled_pure _

variable {readPage : Nat → Except String Bytes}

theorem settled_readRow (scan : CurrentProjectionScan) :
    (scan.descriptor.source readPage).Settled (scan.readRow readPage) := by
  refine (settled_ensure _ _).bind fun _ => (settled_visitRange _ _).bind fun entityBytes => ?_
  refine (settled_ensure _ _).bind fun _ => (settled_ensure _ _).bind fun _ => ?_
  refine (settled_visitRange _ _).bind fun offsets => (settled_ensure _ _).bind fun _ => ?_
  refine (settled_decodePageTemporal _).bind fun _ => (settled_decodePageTemporal _).bind fun _ => ?_
  refine (settled_ensure _ _).bind fun _ => (settled_visitRange _ _).bind fun value => ?_
  exact (settled_lift _).bind fun _ => settled_pure _

end Settled

namespace CurrentProjectionScan

def left (scan : CurrentProjectionScan) : Nat := scan.rowCount - scan.row

section Whole

variable (rows : CurrentProjectionScan → Except String ProjectedRow) (validAt : Int64)

/-- What is handed over in all when `rows` says what reading the next row comes to. -/
def wholeRows : Nat → CurrentProjectionScan → Except String (List (EntityId × Bytes))
  | 0, scan => scan.checkEnd.map fun _ => []
  | left + 1, scan => do
    let row ← rows scan
    let others ← wholeRows left (scan.commit row)
    return row.emitted validAt ++ others

def whole (scan : CurrentProjectionScan) : Except String (List (EntityId × Bytes)) :=
  wholeRows rows validAt scan.left scan

structure Stepped (readPage : Nat → Except String Bytes) (scan : CurrentProjectionScan) (maxRows : Nat)
    (pages : Pages) (step : Step) : Prop where
  same : step.scan.descriptor = scan.descriptor
  coherent : (scan.descriptor.source readPage).Coherent step.pages.cache
  whole : whole rows validAt scan = (whole rows validAt step.scan).map (step.visited ++ ·)
  completes : step.outcome = .ok true → CurrentProjectionScan.whole rows validAt step.scan = .ok []
  fails : ∀ message, step.outcome = .error (.failed message) →
    CurrentProjectionScan.whole rows validAt step.scan = .error message
  missing : step.outcome = .error .notResident → pages.allowed ≠ none
  fewer : step.scan.left ≤ scan.left
  yields : step.outcome = .ok false → step.scan.left + maxRows ≤ scan.left

end Whole

variable {rows : CurrentProjectionScan → Except String ProjectedRow} {validAt : Int64}
  {readPage : Nat → Except String Bytes} {scan : CurrentProjectionScan} {maxRows : Nat} {pages : Pages}

theorem map_nil_append (result : Except String (List (EntityId × Bytes))) : result.map ([] ++ ·) = result := by
  cases result <;> rfl

theorem stepped_finish (coherent : (scan.descriptor.source readPage).Coherent pages.cache)
    (stops : maxRows = 0 ∨ ¬scan.row < scan.rowCount) :
    Stepped rows validAt readPage scan maxRows pages (scan.finishStep pages) := by
  refine ⟨rfl, coherent, (map_nil_append _).symm, ?_, ?_, ?_, le_refl _, ?_⟩
  all_goals
    rw [finishStep]
    dsimp only
    split
  · rintro ⟨⟩
  · rename_i ended
    rw [whole, left, Nat.sub_eq_zero_of_le (Nat.not_lt.mp ended), wholeRows]
    cases scan.checkEnd with
    | error message => rintro ⟨⟩
    | ok _ => exact fun _ => rfl
  · rintro _ ⟨⟩
  · rename_i ended
    rw [whole, left, Nat.sub_eq_zero_of_le (Nat.not_lt.mp ended), wholeRows]
    cases scan.checkEnd with
    | error message =>
      rintro _ ⟨⟩
      rfl
    | ok _ => rintro _ ⟨⟩
  · rintro ⟨⟩
  · cases scan.checkEnd <;> rintro ⟨⟩
  · rename_i more
    intro
    rw [stops.resolve_right (not_not.mpr more)]
    exact le_refl _
  · cases scan.checkEnd <;> rintro ⟨⟩

variable (settles : ∀ scan : CurrentProjectionScan, (scan.descriptor.source readPage).Settles (scan.readRow readPage) (rows scan))

include settles in
theorem stepped_rows (coherent : (scan.descriptor.source readPage).Coherent pages.cache) :
    Stepped rows validAt readPage scan maxRows pages (stepRows readPage validAt maxRows scan pages) := by
  induction maxRows generalizing scan pages with
  | zero => exact stepped_finish coherent (.inl rfl)
  | succ maxRows ih =>
    rw [stepRows]
    split
    swap
    · rename_i ended
      exact stepped_finish coherent (.inr ended)
    rename_i more
    have next : scan.left = (scan.rowCount - (scan.row + 1)) + 1 := by
      rw [left]
      omega
    have isWhole : whole rows validAt scan = rows scan >>= fun row =>
        (whole rows validAt (scan.commit row)).map (row.emitted validAt ++ ·) := by
      rw [whole, next, wholeRows]
      cases rows scan <;> rfl
    obtain ⟨coherent', none, settled⟩ := settles scan pages coherent
    generalize scan.readRow readPage pages = result at coherent' none settled
    obtain ⟨outcome, pages'⟩ := result
    dsimp only at coherent' none settled
    rcases settled with rfl | ⟨rfl, missing⟩
    swap
    · exact ⟨rfl, coherent', (map_nil_append _).symm, by rintro ⟨⟩, by rintro _ ⟨⟩, fun _ => missing, le_refl _,
        by rintro ⟨⟩⟩
    cases isRow : rows scan with
    | error message =>
      refine ⟨rfl, coherent', (map_nil_append _).symm, by rintro ⟨⟩, ?_, by rintro ⟨⟩, le_refl _, by rintro ⟨⟩⟩
      rintro _ ⟨⟩
      exact isWhole.trans (by rw [isRow]; rfl)
    | ok row =>
      have rest := @ih (scan.commit row) pages' coherent'
      change Stepped rows validAt readPage scan (maxRows + 1) pages
        { stepRows readPage validAt maxRows (scan.commit row) pages' with
          visited := row.emitted validAt ++ (stepRows readPage validAt maxRows (scan.commit row) pages').visited }
      generalize stepRows readPage validAt maxRows (scan.commit row) pages' = step at rest
      have fewer := rest.fewer
      have here : (scan.commit row).left = scan.rowCount - (scan.row + 1) := rfl
      refine ⟨rest.same, rest.coherent, ?_, rest.completes, rest.fails, fun missing => rest.missing missing ∘ none,
        by dsimp only; omega, fun yields => ?_⟩
      · rw [isWhole, isRow]
        change (whole rows validAt (scan.commit row)).map _ = _
        rw [rest.whole]
        cases whole rows validAt step.scan with
        | error message => rfl
        | ok others => exact congrArg Except.ok (List.append_assoc _ _ _).symm
      · have := rest.yields yields
        dsimp only
        omega

include settles in
theorem retry_spec {attempts : List Round} (positive : ∀ attempt ∈ attempts, 0 < attempt.budget)
    {cache : List (Nat × Bytes)} (coherent : (scan.descriptor.source readPage).Coherent cache) :
    retry scan readPage validAt attempts cache = (whole rows validAt scan).map some ∨
      retry scan readPage validAt attempts cache = .ok none ∧ unfailed attempts ≤ scan.left := by
  induction attempts generalizing scan cache with
  | nil => exact .inr ⟨rfl, Nat.zero_le _⟩
  | cons first attempts ih =>
    obtain ⟨maxRows, fault⟩ := first
    obtain ⟨some, later⟩ := List.forall_mem_cons.mp positive
    dsimp only at some
    have stepped := @stepped_rows rows validAt readPage scan maxRows ⟨cache, fault.map Fault.after⟩ settles coherent
    rw [retry, step, if_neg (by omega)]
    generalize stepRows readPage validAt maxRows scan ⟨cache, fault.map Fault.after⟩ = step at stepped
    obtain ⟨visited, scan', pages', outcome⟩ := step
    have whole := stepped.whole
    have again := @ih scan' later pages'.cache (by rw [stepped.same]; exact stepped.coherent)
    have fewer := stepped.fewer
    dsimp only at whole again fewer ⊢
    have goesOn : (outcome = .ok false ∨ outcome = .error .notResident) →
        (do
          let rest ← retry scan' readPage validAt attempts pages'.cache
          return rest.map (visited ++ ·)) = (CurrentProjectionScan.whole rows validAt scan).map Option.some ∨
        (do
          let rest ← retry scan' readPage validAt attempts pages'.cache
          return rest.map (visited ++ ·)) = Except.ok none ∧ unfailed (⟨maxRows, fault⟩ :: attempts) ≤ scan.left := by
      intro isOutcome
      rcases again with again | ⟨again, few⟩
      · left
        rw [again, whole]
        cases CurrentProjectionScan.whole rows validAt scan' <;> rfl
      · right
        rw [again]
        refine ⟨rfl, ?_⟩
        cases fault with
        | none =>
          rw [unfailed_tried]
          have := stepped.yields (isOutcome.resolve_right fun missing => stepped.missing missing rfl)
          dsimp only at this
          omega
        | some fault =>
          rw [unfailed_failed]
          omega
    rcases outcome with (_ | message) | (_ | _)
    · exact goesOn (.inr rfl)
    · left
      rw [whole, stepped.fails message rfl]
      rfl
    · exact goesOn (.inl rfl)
    · left
      rw [whole, stepped.completes rfl]
      exact congrArg (Except.ok ∘ Option.some) (List.append_nil visited).symm

/-- From any state of the scan and any coherent cache, missing pages change nothing. -/
theorem transparent_retry (scan : CurrentProjectionScan) (readPage : Nat → Except String Bytes) (validAt : Int64)
    {cache : List (Nat × Bytes)} (coherent : (scan.descriptor.source readPage).Coherent cache) :
    Transparent fun attempts => retry scan readPage validAt attempts cache := by
  obtain ⟨rows, settles⟩ : ∃ rows : CurrentProjectionScan → Except String ProjectedRow,
      ∀ scan : CurrentProjectionScan, (scan.descriptor.source readPage).Settles (scan.readRow readPage) (rows scan) :=
    ⟨_, fun scan => (settled_readRow scan).choose_spec⟩
  exact ⟨whole rows validAt scan, scan.left, fun _ positive => retry_spec settles positive coherent⟩

end CurrentProjectionScan

end ViciaDb
