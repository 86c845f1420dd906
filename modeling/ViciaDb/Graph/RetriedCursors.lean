import ViciaDb.Graph.IntervalCursor
import ViciaDb.Lib.RetriedCursor

namespace ViciaDb

open MergeCursor (Round Fault Transparent)
open List

section Attribute

variable (asOf : Option AsOf) (validTime : CurrentValidTime) (log : FactLog) (attr : String)

def failIntervalStep (maxEntries : Nat) (fault : Fault) (scan : AttributeScan) :
    Except String (AttributeScan × List Interval) := do
  let (taken, cursor) := MergeCursor.attempt (MergeCursor.budgetRules compareAevtProjection maxEntries)
    ((rangeAevt attr log.committed).filter (startsAt attr scan.start)) scan.cursor fault
  let (group, visits) ← taken.foldlM (acceptInterval asOf validTime) (scan.group, [])
  return ({ scan with cursor, group }, visits)

def retryAttributeCursor : List Round → AttributeScan → Except String (Option (List Interval))
  | [], _ => .ok none
  | ⟨budget, none⟩ :: attempts, scan => do
    let (scan, visits, _, complete) ← stepCurrentAttributeIntervalCursor asOf validTime log attr budget scan
    if complete then return some visits
    else do
      let rest ← retryAttributeCursor attempts scan
      return rest.map (visits ++ ·)
  | ⟨budget, some fault⟩ :: attempts, scan => do
    let (scan, visits) ← failIntervalStep asOf validTime log attr budget fault scan
    let rest ← retryAttributeCursor attempts scan
    return rest.map (visits ++ ·)

variable {asOf validTime log attr} {start : EntityId}

section

variable (alone : OwnsRange attr log.records)
include alone

theorem increasing_scanItems (distinct : DistinctRecords log.records) :
    MergeCursor.Increasing compareAevtProjection (scanItems log attr start) := by
  obtain ⟨distinctC, -, -⟩ := pairwise_append.mp distinct
  rw [scanItems, rangeAevt_alone (forall_mem_append.mp alone).1 distinctC]
  exact (increasing_indexRange (separates_attribute attr) distinctC).sublist filter_sublist

theorem failIntervalStep_spec (distinct : DistinctRecords log.records)
    {scan : AttributeScan} {done : List Fact} (run : ScanRun asOf validTime log attr start scan done)
    (maxEntries : Nat) (fault : Fault) :
    ∃ scan' taken, failIntervalStep asOf validTime log attr maxEntries fault scan =
        .ok (scan', ((taken.filter (entryVisibleAsOf asOf)).foldl (acceptBlock validTime)
          (scan.group, [])).2.flatMap Block.visits) ∧
      ScanRun asOf validTime log attr start scan' (done ++ taken) := by
  have progress := run.progress.attempt (increasing_scanItems alone distinct) maxEntries fault
  rw [failIntervalStep, run.starts, ← scanItems]
  generalize MergeCursor.attempt (MergeCursor.budgetRules compareAevtProjection maxEntries)
    (scanItems log attr start) scan.cursor fault = result at progress
  obtain ⟨taken, cursor⟩ := result
  obtain ⟨facts, reduced⟩ := run.reduces
  obtain ⟨accepted, -⟩ := @foldlM_acceptInterval asOf validTime _ _ reduced [] taken
  change ∃ _ _, (taken.foldlM (acceptInterval asOf validTime)
    (scan.group, ([] : List Block).flatMap Block.visits) >>= _) = _ ∧ _
  rw [accepted]
  exact ⟨_, taken, rfl, rfl, progress, run.group_append taken⟩

theorem ScanRun.retryAttributeCursor_spec (distinct : DistinctRecords log.records) {attempts : List Round}
    (positive : ∀ attempt ∈ attempts, 0 < attempt.budget) {scan : AttributeScan} {done : List Fact}
    (run : ScanRun asOf validTime log attr start scan done) :
    (∃ rest, scanEntries log attr start = done ++ rest ∧
      retryAttributeCursor asOf validTime log attr attempts scan =
        .ok (some ((blocksFrom validTime scan.group (rest.filter (entryVisibleAsOf asOf))).flatMap Block.visits))) ∨
    retryAttributeCursor asOf validTime log attr attempts scan = .ok none ∧
      done.length + MergeCursor.unfailed attempts ≤ (scanEntries log attr start).length := by
  induction attempts generalizing scan done with
  | nil =>
    refine .inr ⟨rfl, ?_⟩
    rw [run.progress.passed, length_append]
    exact Nat.le_add_right _ _
  | cons first attempts ih =>
    obtain ⟨budget, fault⟩ := first
    obtain ⟨some, later⟩ := forall_mem_cons.mp positive
    cases fault with
    | none =>
      obtain ⟨⟨scan', visits, entries, complete⟩, taken, ran, stepped⟩ :=
        stepInterval_spec run alone distinct budget
      rw [retryAttributeCursor, ran]
      cases complete with
      | true =>
        obtain ⟨whole, handed⟩ := stepped.completes rfl
        exact .inl ⟨taken, whole, by rw [← handed]; rfl⟩
      | false =>
        obtain ⟨filled, run', handed⟩ := stepped.yields rfl
        dsimp only at run' handed
        change (∃ rest, _ ∧ (retryAttributeCursor asOf validTime log attr attempts scan' >>= _) = _) ∨
          (retryAttributeCursor asOf validTime log attr attempts scan' >>= _) = _ ∧ _
        rcases ih later run' with ⟨rest, split, got⟩ | ⟨none, few⟩
        · refine .inl ⟨taken ++ rest, by rw [split, append_assoc], ?_⟩
          rw [got, handed, run'.group, ← run.group_append, filter_append, blocksFrom_append,
            flatMap_append]
          rfl
        · refine .inr ⟨by rw [none]; rfl, ?_⟩
          have := MergeCursor.unfailed_tried budget attempts
          rw [length_append] at few
          dsimp only at some
          omega
    | some fault =>
      obtain ⟨scan', taken, ran, run'⟩ := failIntervalStep_spec alone distinct run budget fault
      rw [retryAttributeCursor, ran]
      change (∃ rest, _ ∧ (retryAttributeCursor asOf validTime log attr attempts scan' >>= _) = _) ∨
        (retryAttributeCursor asOf validTime log attr attempts scan' >>= _) = _ ∧ _
      rcases ih later run' with ⟨rest, split, got⟩ | ⟨none, few⟩
      · refine .inl ⟨taken ++ rest, by rw [split, append_assoc], ?_⟩
        rw [got, run'.group, ← run.group_append, filter_append, blocksFrom_append, flatMap_append]
        rfl
      · refine .inr ⟨by rw [none]; rfl, ?_⟩
        rw [MergeCursor.unfailed_failed]
        rw [length_append] at few
        omega

theorem transparent_attributeCursor (distinct : DistinctRecords log.records) (start : EntityId) :
    Transparent fun attempts => retryAttributeCursor asOf validTime log attr attempts
      (currentAttributeCursorStartingAt log attr start) := by
  refine ⟨.ok ((blocksFrom validTime {} ((scanEntries log attr start).filter
    (entryVisibleAsOf asOf))).flatMap Block.visits), (scanEntries log attr start).length,
    fun attempts positive => ?_⟩
  have run : ScanRun asOf validTime log attr start (currentAttributeCursorStartingAt log attr start) [] :=
    scanRun_start alone distinct
  rcases run.retryAttributeCursor_spec alone distinct positive with ⟨rest, split, got⟩ | ⟨none, few⟩
  · rw [nil_append] at split
    rw [split]
    exact .inl got
  · exact .inr ⟨none, by simpa using few⟩

end

end Attribute

section Exact

def CursorRange.retry {σ τ : Type} (range : CursorRange) (accept : σ → Fact → σ)
    (finish : σ → Except String τ) (start : σ) (log : FactLog) (attempts : List Round) :
    Except String (Option τ) := do
  let cursor ← range.cursor log
  MergeCursor.retry range.cmp (fun state fact => .ok (accept state fact)) finish
    (indexRange range.cmp range.inRange log.committed) attempts cursor start

theorem CursorRange.transparent_retry {σ τ : Type} (range : CursorRange) [Std.TransCmp range.cmp]
    (separates : SeparatesRange range.cmp range.inRange) {log : FactLog}
    (distinct : DistinctRecords log.records) (accept : σ → Fact → σ) (finish : σ → Except String τ) (start : σ) :
    Transparent (range.retry accept finish start log) := by
  cases made : range.cursor log with
  | error message =>
    refine ⟨.error message, 0, fun attempts _ => .inl ?_⟩
    rw [CursorRange.retry, made]
    rfl
  | ok cursor =>
    refine ⟨(range.entries log).foldlM (fun state fact => .ok (accept state fact)) start >>= finish,
      (range.entries log).length, fun attempts positive => ?_⟩
    have isStart : cursor = .start (indexRange range.cmp range.inRange log.pending) := by
      rw [CursorRange.cursor] at made
      split at made <;> cases made
      rfl
    have increasing := increasing_indexRange separates (pairwise_append.mp distinct).1
    have progress := MergeCursor.Progress.start (indexRange range.cmp range.inRange log.committed)
      (pairwise_indexRange range.cmp range.inRange log.pending)
    rw [CursorRange.retry, made, isStart]
    have retried := MergeCursor.retry_eq (fun state fact => .ok (accept state fact)) finish increasing positive
      progress (rfl : [].foldlM _ start = Except.ok start)
    rwa [length_nil, Nat.zero_add] at retried

variable (asOf : Option AsOf) (validTime : CurrentValidTime)

def retryEntityAttribute (eachWindow : Bool) (log : FactLog) (entity : EntityId) (attr : String) :
    List Round → Except String (Option (List (Value × Window))) :=
  (entityAttributeRange entity attr).retry
    (fun values fact => if entryVisibleAsOf asOf fact then values.reduce fact else values)
    (finishEntityAttribute validTime eachWindow) ∅ log

def retryReferences (log : FactLog) (attr : String) (target : EntityId) :
    List Round → Except String (Option (List EntityId)) :=
  (referencesRange attr target).retry
    (fun sources fact => if entryVisibleAsOf asOf fact then sources.reduce fact else sources)
    (fun sources => .ok (finishReferences validTime sources)) ∅ log

end Exact

end ViciaDb
