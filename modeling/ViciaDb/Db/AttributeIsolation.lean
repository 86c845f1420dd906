import ViciaDb.Db.DiffRead
import ViciaDb.Graph.ProjectionBuilder

namespace ViciaDb

open List

def ofAttribute (attr : String) (facts : List Fact) : List Fact := facts.filter fun fact => fact.attr == attr

structure SamePlaces (attr : String) (a b : FactLog) : Prop where
  committed : ofAttribute attr a.committed = ofAttribute attr b.committed
  pending : ofAttribute attr a.pending = ofAttribute attr b.pending

section Ranges

structure SameRanges (attr : String) (a b : FactLog) : Prop where
  committed : rangeAevt attr a.committed = rangeAevt attr b.committed
  pending : rangeAevt attr a.pending = rangeAevt attr b.pending
  entityCommitted : ∀ entity, indexRange compareEavt (inEntityAttribute entity attr) a.committed =
    indexRange compareEavt (inEntityAttribute entity attr) b.committed
  entityPending : ∀ entity, indexRange compareEavt (inEntityAttribute entity attr) a.pending =
    indexRange compareEavt (inEntityAttribute entity attr) b.pending

variable {attr : String} {a b : FactLog}

theorem filter_ofAttribute {inRange : Fact → Bool} {facts : List Fact}
    (within : ∀ fact ∈ facts, inRange fact = true → fact.attr = attr) :
    (ofAttribute attr facts).filter inRange = facts.filter inRange := by
  rw [ofAttribute, filter_filter]
  refine filter_congr fun fact member => ?_
  cases ranged : inRange fact with
  | false => rfl
  | true => rw [within fact member ranged, beq_self_eq_true, Bool.and_self]

theorem indexRange_congr {cmp : Fact → Fact → Ordering} {inRange : Fact → Bool} {xs ys : List Fact}
    (same : ofAttribute attr xs = ofAttribute attr ys)
    (withinX : ∀ fact ∈ xs, inRange fact = true → fact.attr = attr)
    (withinY : ∀ fact ∈ ys, inRange fact = true → fact.attr = attr) :
    indexRange cmp inRange xs = indexRange cmp inRange ys := by
  rw [indexRange, indexRange, ← filter_ofAttribute withinX, same, filter_ofAttribute withinY]

theorem SamePlaces.ranges (same : SamePlaces attr a b) (aloneA : OwnsRange attr a.records)
    (aloneB : OwnsRange attr b.records) : SameRanges attr a b := by
  obtain ⟨committedA, pendingA⟩ := forall_mem_append.mp aloneA
  obtain ⟨committedB, pendingB⟩ := forall_mem_append.mp aloneB
  have exact_ : ∀ entity (fact : Fact), inEntityAttribute entity attr fact = true → fact.attr = attr :=
    fun _ _ ranged => (inEntityAttribute_iff.mp ranged).2
  exact ⟨indexRange_congr same.committed committedA committedB, indexRange_congr same.pending pendingA pendingB,
    fun entity => indexRange_congr same.committed (fun fact _ => exact_ entity fact) fun fact _ => exact_ entity fact,
    fun entity => indexRange_congr same.pending (fun fact _ => exact_ entity fact) fun fact _ => exact_ entity fact⟩

theorem SameRanges.cursorStartingAt (same : SameRanges attr a b) (start : EntityId) :
    currentAttributeCursorStartingAt a attr start = currentAttributeCursorStartingAt b attr start := by
  rw [currentAttributeCursorStartingAt, currentAttributeCursorStartingAt, same.pending]

theorem SameRanges.stepInterval (same : SameRanges attr a b) (asOf : Option AsOf) (validTime : CurrentValidTime)
    (maxEntries : Nat) (scan : AttributeScan) :
    stepCurrentAttributeIntervalCursor asOf validTime a attr maxEntries scan =
      stepCurrentAttributeIntervalCursor asOf validTime b attr maxEntries scan := by
  unfold stepCurrentAttributeIntervalCursor
  rw [same.committed]

theorem SameRanges.stepAttributeCursor (same : SameRanges attr a b) (asOf : Option AsOf)
    (validTime : CurrentValidTime) (budgets : List Nat) (scan : AttributeScan) :
    ViciaDb.stepAttributeCursor asOf validTime a attr budgets scan =
      ViciaDb.stepAttributeCursor asOf validTime b attr budgets scan := by
  induction budgets generalizing scan with
  | nil => rfl
  | cons budget budgets ih =>
    unfold ViciaDb.stepAttributeCursor
    simp only [same.stepInterval, ih]

end Ranges

namespace ValidTimeDiffScan

variable {a b log : FactLog} {scan scan' : ValidTimeDiffScan} {complete : Bool}

theorem step_congr (same : SameRanges scan.attr a b) : step a scan = step b scan := by
  unfold step
  rcases scan.state with ⟨entities, startIndex, index, cursor, group⟩ |
    ⟨cursor, resumeAfter, current, completed, emittedLast⟩ | _
  · have active : ∀ entity active group, stepActiveEntity a scan entities startIndex index entity active group =
        stepActiveEntity b scan entities startIndex index entity active group := by
      intro entity active group
      unfold stepActiveEntity stepEntityCursor
      rw [same.entityCommitted]
    have made : ∀ entity, (entityAttributeRange entity scan.attr).cursor a =
        (entityAttributeRange entity scan.attr).cursor b := by
      intro entity
      have listed : indexRange (entityAttributeRange entity scan.attr).cmp
          (entityAttributeRange entity scan.attr).inRange a.pending =
          indexRange (entityAttributeRange entity scan.attr).cmp
            (entityAttributeRange entity scan.attr).inRange b.pending := same.entityPending entity
      rw [CursorRange.cursor, CursorRange.cursor, listed]
    unfold stepEntitySet
    simp only [active, made]
  · have resumed : resumedCursor a scan.attr resumeAfter = resumedCursor b scan.attr resumeAfter := by
      unfold resumedCursor currentAttributeCursorAfter currentAttributeCursor
      simp only [same.cursorStartingAt]
    have active : ∀ active, stepActiveAttribute a scan active current completed emittedLast =
        stepActiveAttribute b scan active current completed emittedLast := by
      intro active
      simp only [stepActiveAttribute, same.stepInterval]
    unfold stepAttribute
    simp only [resumed, active]
  · rfl

theorem stepActiveEntity_attr {entities : List EntityId} {startIndex index : Nat} {entity : EntityId}
    {active : EntityAttributeScan} {group : ValidTimeDiffGroup}
    (stepped : stepActiveEntity log scan entities startIndex index entity active group = .ok (scan', complete)) :
    scan'.attr = scan.attr := by
  simp only [stepActiveEntity] at stepped
  split at stepped
  · split at stepped <;> cases stepped
    rfl
  obtain ⟨⟨active, items, entries, done⟩, -, stepped⟩ := Except.bind_eq_ok_iff.mp stepped
  split at stepped
  · split at stepped
    · split at stepped <;> cases stepped
      rfl
    · split at stepped <;> cases stepped <;> rfl
  · cases stepped
    rfl

theorem stepActiveAttribute_attr {active : AttributeScan} {current : Option (EntityId × ValidTimeDiffGroup)}
    {completed : List (EntityId × ValidTimeDiffGroup)} {emittedLast : Option EntityId}
    (stepped : stepActiveAttribute log scan active current completed emittedLast = .ok (scan', complete)) :
    scan'.attr = scan.attr := by
  simp only [stepActiveAttribute] at stepped
  split at stepped
  · split at stepped <;> cases stepped
    rfl
  obtain ⟨⟨active, visits, entries, done⟩, -, stepped⟩ := Except.bind_eq_ok_iff.mp stepped
  obtain ⟨⟨rows, last, full⟩, -, stepped⟩ := Except.bind_eq_ok_iff.mp stepped
  split at stepped
  · cases stepped
    rfl
  · split at stepped <;> cases stepped <;> rfl

theorem step_attr (stepped : step log scan = .ok (scan', complete)) : scan'.attr = scan.attr := by
  unfold step at stepped
  split at stepped
  · cases stepped
    rfl
  · unfold stepEntitySet at stepped
    split at stepped
    · cases stepped
      rfl
    · split at stepped
      · exact stepActiveEntity_attr stepped
      · obtain ⟨fresh, -, stepped⟩ := Except.bind_eq_ok_iff.mp stepped
        exact stepActiveEntity_attr stepped
  · unfold stepAttribute at stepped
    split at stepped
    · cases stepped
      rfl
    · exact stepActiveAttribute_attr stepped

theorem run_congr (same : SameRanges scan.attr a b) (fuel : Nat) : run a fuel scan = run b fuel scan := by
  induction fuel generalizing scan with
  | zero => rfl
  | succ fuel ih =>
    rw [run, run, step_congr same]
    cases stepped : step b scan with
    | error message => rfl
    | ok result =>
      obtain ⟨scan', complete⟩ := result
      cases complete with
      | true => rfl
      | false => exact ih (step_attr stepped ▸ same)

end ValidTimeDiffScan

section Reads

variable {attr : String} {a b log : FactLog}

structure SameSteps (attr : String) (a b : FactLog) : Prop where
  cursor : ∀ asOf validTime budgets,
    stepAttributeCursor asOf validTime a attr budgets (currentAttributeCursor a attr) =
      stepAttributeCursor asOf validTime b attr budgets (currentAttributeCursor b attr)
  page : ∀ encodedBytes validAt txCount request, request.attr = attr →
    validTimeDiff encodedBytes validAt txCount a request = validTimeDiff encodedBytes validAt txCount b request

structure SameReads (attr : String) (a b : FactLog) : Prop where
  cursor : ∀ asOf validTime budgets budgets' visits visits',
    stepAttributeCursor asOf validTime a attr budgets (currentAttributeCursor a attr) = .ok (some visits) →
    stepAttributeCursor asOf validTime b attr budgets' (currentAttributeCursor b attr) = .ok (some visits') →
    visits = visits'
  diff : ∀ encodedBytes validAt txCount request limits limits' rows rows', request.attr = attr →
    request.entities = none → limits ≠ [] → limits' ≠ [] →
    followDiffPages encodedBytes validAt txCount request (limits.map (a, ·)) none = .ok (rows, none) →
    followDiffPages encodedBytes validAt txCount request (limits'.map (b, ·)) none = .ok (rows', none) →
    rows = rows'
  projection : ∀ publicationGeneration txCount validTimeFloor,
    buildCurrentProjectionCandidate publicationGeneration txCount a attr validTimeFloor =
      buildCurrentProjectionCandidate publicationGeneration txCount b attr validTimeFloor

theorem SameRanges.steps (same : SameRanges attr a b) : SameSteps attr a b := by
  refine ⟨fun asOf validTime budgets => ?_, ?_⟩
  · rw [currentAttributeCursor, currentAttributeCursor, same.cursorStartingAt, same.stepAttributeCursor]
  rintro encodedBytes validAt txCount request rfl
  unfold validTimeDiff
  cases begun : ValidTimeDiffScan.begin_ validAt txCount request with
  | error message => rfl
  | ok scan =>
    have named : scan.attr = request.attr := by
      obtain ⟨scope, -, begun⟩ := Except.bind_eq_ok_iff.mp begun
      cases begun
      rfl
    change (scan.run a _ >>= _) = (scan.run b _ >>= _)
    rw [ValidTimeDiffScan.run_congr (named ▸ same)]

theorem attributeHistory_congr (distinctA : DistinctRecords a.records) (distinctB : DistinctRecords b.records)
    (same : (ofAttribute attr a.records).Perm (ofAttribute attr b.records)) :
    attributeHistory attr a.records = attributeHistory attr b.records := by
  have listed := filter_indexRange_eq (separates_attribute attr) distinctA distinctB same
  have all : ∀ facts, (attributeHistory attr facts).filter (fun fact => fact.attr == attr) =
      attributeHistory attr facts := fun facts =>
    filter_eq_self.mpr fun fact member => beq_iff_eq.mpr (mem_attributeHistory.mp member).2
  rw [← all a.records, ← all b.records]
  exact listed

theorem stepAttributeCursor_complete (alone : OwnsRange attr log.records)
    (distinct : DistinctRecords log.records) {asOf : Option AsOf} {validTime : CurrentValidTime}
    {budgets : List Nat} {visits : List Interval}
    (ran : stepAttributeCursor asOf validTime log attr budgets (currentAttributeCursor log attr) = .ok (some visits)) :
    visits = (blocksFrom validTime {} ((attributeHistory attr log.records).filter
      (entryVisibleAsOf asOf))).flatMap Block.visits := by
  have begun := @scanRun_start log attr asOf validTime 0 alone distinct
  obtain ⟨result, ran', completes, -⟩ := begun.stepAttributeCursor_spec alone distinct budgets
  rw [currentAttributeCursor, ran'] at ran
  cases ran
  obtain ⟨rest, whole, handed⟩ := completes visits rfl
  rw [nil_append] at whole
  rw [handed, ← whole, scanEntries_zero]
  rfl

theorem visitCurrentAttributeIntervals_eq (alone : OwnsRange attr log.records)
    (distinct : DistinctRecords log.records) :
    visitCurrentAttributeIntervals log attr =
      .ok ((blocksFrom .any {} (attributeHistory attr log.records)).flatMap Block.visits) := by
  have begun := @scanRun_start log attr none .any 0 alone distinct
  obtain ⟨result, ran, -, unfinished⟩ := begun.stepAttributeCursor_spec alone distinct
    (List.replicate (log.records.length + 1) usizeMax)
  rw [visitCurrentAttributeIntervals, currentAttributeCursor, ran]
  cases result with
  | none =>
    have bound := unfinished rfl
    have few : (attributeHistory attr log.records).length ≤ log.records.length := by
      rw [attributeHistory, (indexRange_perm _ _ _).length_eq]
      exact length_filter_le _ _
    rw [scanEntries_zero, sum_replicate_nat, usizeMax, length_nil] at bound
    omega
  | some visits =>
    have handed := stepAttributeCursor_complete alone distinct ran
    have all : (attributeHistory attr log.records).filter (entryVisibleAsOf none) =
        attributeHistory attr log.records := filter_eq_self.mpr fun _ _ => rfl
    rw [all] at handed
    rw [← handed]
    rfl

theorem followDiffPages_complete {request : ValidTimeDiffRequest} (alone : OwnsRange request.attr log.records)
    (distinct : DistinctRecords log.records) {encodedBytes : List ValidTimeDiffRow → Nat} {validAt : ValidAt}
    {txCount : UInt64} {limits : List Nat} {rows : List ValidTimeDiffRow} (any : limits ≠ [])
    (read : followDiffPages encodedBytes validAt txCount request (limits.map (log, ·)) none = .ok (rows, none)) :
    rows = (allGroups txCount request log).flatMap (groupRows request.attr) := by
  have one : ∀ page ∈ limits.map (log, ·), page.1 = log := by
    intro page member
    obtain ⟨limit, -, rfl⟩ := mem_map.mp member
    rfl
  refine followDiffPages_whole (fun page member => ?_) (fun _ page member => ?_) read (mt map_eq_nil_iff.mp any)
  · rw [one page member]
    exact ⟨distinct, rfl⟩
  · rw [one page member]
    exact alone

theorem sameReads (aloneA : OwnsRange attr a.records) (aloneB : OwnsRange attr b.records)
    (distinctA : DistinctRecords a.records) (distinctB : DistinctRecords b.records)
    (same : (ofAttribute attr a.records).Perm (ofAttribute attr b.records)) : SameReads attr a b := by
  have history := attributeHistory_congr distinctA distinctB same
  refine ⟨?_, ?_, fun publicationGeneration txCount validTimeFloor => ?_⟩
  · intro asOf validTime budgets budgets' visits visits' ranA ranB
    rw [stepAttributeCursor_complete aloneA distinctA ranA, stepAttributeCursor_complete aloneB distinctB ranB, history]
  · rintro encodedBytes validAt txCount request limits limits' rows rows' rfl every any any' readA readB
    have groups : allGroups txCount request a = allGroups txCount request b := by
      rw [allGroups, allGroups, allBlocks, allBlocks, every]
      rw [blocksAt, blocksAt, scanEntries_zero, scanEntries_zero, history]
    rw [followDiffPages_complete aloneA distinctA any readA, followDiffPages_complete aloneB distinctB any' readB,
      groups]
  · rw [buildCurrentProjectionCandidate, buildCurrentProjectionCandidate,
      visitCurrentAttributeIntervals_eq aloneA distinctA, visitCurrentAttributeIntervals_eq aloneB distinctB, history]

end Reads

section Schema

def Over (attr : String) (others : String → Prop) (log : FactLog) : Prop :=
  ∀ fact ∈ log.records, fact.attr = attr ∨ others fact.attr

structure Isolated (attr : String) (others : String → Prop) : Prop where
  steps : ∀ a b, Over attr others a → Over attr others b → SamePlaces attr a b → SameSteps attr a b
  reads : ∀ a b, Over attr others a → Over attr others b → DistinctRecords a.records →
    DistinctRecords b.records → (ofAttribute attr a.records).Perm (ofAttribute attr b.records) → SameReads attr a b

def OutOfRange (attr : String) (others : String → Prop) : Prop :=
  ∀ fact : Fact, others fact.attr → inAttributeRange attr fact = true → fact.attr = attr

variable {attr : String} {others : String → Prop} {log : FactLog}

theorem OutOfRange.alone (out : OutOfRange attr others) (schema : Over attr others log) :
    OwnsRange attr log.records :=
  fun fact member ranged => (schema fact member).elim id fun other => out fact other ranged

def oneFact (name : String) : Fact := ⟨0, name, .integer 0, 1, 1, 0, 1, true⟩

theorem visits_oneFact {name : String} (ranged : inAttributeRange attr (oneFact name) = true) :
    stepAttributeCursor none .any ⟨[oneFact name], []⟩ attr [2]
      (currentAttributeCursor ⟨[oneFact name], []⟩ attr) = .ok (some [(0, .integer 0, 0, 1)]) := by
  have listed : rangeAevt attr [oneFact name] = [oneFact name] := by
    rw [rangeAevt, indexRange, filter_cons_of_pos ranged]
    rfl
  have started : [oneFact name].filter (startsAt attr 0) = [oneFact name] :=
    filter_eq_self.mpr fun fact member => by
      rw [mem_singleton.mp member, startsAt, Bool.or_eq_true]
      exact .inr rfl
  unfold stepAttributeCursor stepCurrentAttributeIntervalCursor currentAttributeCursor currentAttributeCursorStartingAt
  rw [listed, started]
  rfl

/-- The reads of an attribute are isolated from the other names of the schema exactly when none of
    them falls into its range. -/
theorem isolated_iff_outOfRange : Isolated attr others ↔ OutOfRange attr others := by
  constructor
  · intro isolated fact other ranged
    by_contra different
    have ranged' : inAttributeRange attr (oneFact fact.attr) = true := ranged
    have schema : Over attr others ⟨[oneFact fact.attr], []⟩ := fun _ member =>
      .inr ((mem_singleton.mp member).symm ▸ other)
    have none_ : ofAttribute attr [oneFact fact.attr] = [] :=
      filter_cons_of_neg (mt beq_iff_eq.mp different)
    have same := (isolated.steps ⟨[], []⟩ _ nofun schema ⟨none_.symm, rfl⟩).cursor none .any [2]
    rw [visits_oneFact ranged'] at same
    cases same
  · intro out
    exact ⟨fun a b overA overB same => (same.ranges (out.alone overA) (out.alone overB)).steps,
      fun a b overA overB => sameReads (out.alone overA) (out.alone overB)⟩

def ageGroupFact : Fact := ⟨7, ":person/age-group", .string "adult", 1, 1, 0, 100, true⟩

def ageRequest : ValidTimeDiffRequest := ⟨":person/age", none, 50, 150, none, 10⟩

/-- A log without facts of an attribute shows the values of another one under its name. -/
theorem ageGroup_read_as_age : SamePlaces ":person/age" ⟨[], []⟩ ⟨[ageGroupFact], []⟩ ∧
      stepAttributeCursor none .any ⟨[], []⟩ ":person/age" [2] (currentAttributeCursor ⟨[], []⟩ ":person/age") =
        .ok (some []) ∧
      stepAttributeCursor none .any ⟨[ageGroupFact], []⟩ ":person/age" [2]
          (currentAttributeCursor ⟨[ageGroupFact], []⟩ ":person/age") =
        .ok (some [(7, .string "adult", 0, 100)]) ∧
      (validTimeDiff (fun _ => 0) .anyValidTime 1 ⟨[], []⟩ ageRequest).map ValidTimeDiffPage.rows = .ok [] ∧
      (validTimeDiff (fun _ => 0) .anyValidTime 1 ⟨[ageGroupFact], []⟩ ageRequest).map ValidTimeDiffPage.rows =
        .ok [⟨7, ":person/age", .string "adult", .disappeared, 0, 100⟩] ∧
      (buildCurrentProjectionCandidate 1 1 ⟨[], []⟩ ":person/age" 0).map (·.entities) = .ok [] ∧
      (buildCurrentProjectionCandidate 1 1 ⟨[ageGroupFact], []⟩ ":person/age" 0).map (·.entities) = .ok [7] := by
  refine ⟨⟨by decide +kernel, rfl⟩, ?_, ?_, ?_, ?_, ?_, ?_⟩ <;> decide +kernel

end Schema

end ViciaDb
