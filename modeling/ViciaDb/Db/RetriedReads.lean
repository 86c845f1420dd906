import ViciaDb.Db.RetriedDiff
import ViciaDb.Storage.ProjectionScan

namespace ViciaDb

open ByteReader MergeCursor List

section History

variable (log : FactLog) (entity : EntityId) (attr : String) (asOfTxCount : UInt64)

def failHistoryStep (maxEntries maxRows after : Nat) (scan : HistoryScan) : Except String HistoryScan :=
  if maxEntries = 0 ∨ maxEntries ≤ scan.processedEntries then .ok scan
  else if maxRows ≤ scan.items.length then .ok scan
  else do
    let (taken, cursor) := attempt (historyRules asOfTxCount scan maxEntries maxRows)
      (committedHistory log entity attr) (refillHistory log entity attr scan.cursor) (.scanning after)
    let items ← (taken.filter (visibleAt asOfTxCount)).mapM acceptHistory
    return { cursor, processedEntries := scan.processedEntries + taken.length, items := scan.items ++ items }

def retryHistory (wantedRows : Nat) :
    List Round → HistoryScan → Except String (Option (List EntityAttributeHistoryItem))
  | [], _ => .ok none
  | ⟨budget, none⟩ :: attempts, scan => do
    let (scan, complete) ← stepEntityAttributeHistoryCursor log entity attr asOfTxCount
      (min (scan.processedEntries + budget) entityAttributeHistoryMaxSourceEntries) wantedRows scan
    if complete || decide (wantedRows ≤ scan.items.length) then return some scan.items
    else if entityAttributeHistoryMaxSourceEntries ≤ scan.processedEntries then
      .error historySourceWorkExceeded
    else retryHistory wantedRows attempts scan
  | ⟨budget, some fault⟩ :: attempts, scan => do
    let scan ← failHistoryStep log entity attr asOfTxCount
      (min (scan.processedEntries + budget) entityAttributeHistoryMaxSourceEntries) wantedRows fault.after scan
    retryHistory wantedRows attempts scan

/-- `closes` says how a history of just as many entries as are allowed ends: with a pending fact, behind
    which the reader looks no further, or with a committed one, where it stops before it sees the end. -/
def allowedHistory (closes : Bool) (wantedRows : Nat) (rest : List Fact) :
    Except String (List EntityAttributeHistoryItem) :=
  if (entityAttributeHistoryMaxSourceEntries < rest.length ∨
        rest.length = entityAttributeHistoryMaxSourceEntries ∧ closes = false) ∧
      ((rest.take entityAttributeHistoryMaxSourceEntries).filter (visibleAt asOfTxCount)).length < wantedRows then
    .error historySourceWorkExceeded
  else .ok (((rest.filter (visibleAt asOfTxCount)).take wantedRows).map historyItem)

variable {log entity attr asOfTxCount} {rest unseen done : List Fact} {scan : HistoryScan} {wantedRows : Nat} {closes : Bool}

theorem HistoryRun.page_of_rows (run : HistoryRun log entity attr asOfTxCount rest unseen scan done)
    (entries : scan.processedEntries ≤ entityAttributeHistoryMaxSourceEntries)
    (filled : scan.items.length = wantedRows) : allowedHistory asOfTxCount closes wantedRows rest = .ok scan.items := by
  have items := run.items
  rw [items, length_map] at filled
  rw [run.processed] at entries
  rw [allowedHistory, if_neg, items, run.passed, filter_append, take_left' filled]
  rintro ⟨-, few⟩
  rw [run.passed, take_append, take_of_length_le entries, filter_append, length_append] at few
  omega

theorem HistoryRun.page_of_all (run : HistoryRun log entity attr asOfTxCount rest unseen scan rest)
    (entries : scan.processedEntries ≤ entityAttributeHistoryMaxSourceEntries)
    (few : scan.items.length ≤ wantedRows)
    (closed : scan.processedEntries = entityAttributeHistoryMaxSourceEntries → closes = true) :
    allowedHistory asOfTxCount closes wantedRows rest = .ok scan.items := by
  have items := run.items
  rw [items, length_map] at few
  rw [run.processed] at entries closed
  rw [allowedHistory, if_neg, items, take_of_length_le few]
  rintro ⟨long | ⟨exact, isOpen⟩, -⟩
  · omega
  · cases (closed exact).symm.trans isOpen

theorem HistoryRun.page_of_work (run : HistoryRun log entity attr asOfTxCount rest unseen scan done)
    (entries : scan.processedEntries = entityAttributeHistoryMaxSourceEntries)
    (few : scan.items.length < wantedRows) (isOpen : done = rest → closes = false) :
    allowedHistory asOfTxCount closes wantedRows rest = .error historySourceWorkExceeded := by
  rw [run.items, length_map] at few
  rw [run.processed] at entries
  rw [allowedHistory, if_pos]
  rw [run.passed, take_left' entries]
  refine ⟨?_, few⟩
  rcases left : remaining compareEavt (committedHistory log entity attr) scan.cursor unseen with _ | ⟨next, left⟩
  · rw [append_nil]
    exact .inr ⟨entries, isOpen (by rw [run.passed, left, append_nil])⟩
  · left
    rw [length_append, length_cons]
    omega

/-- How the history ends, in terms of the pending facts it was opened with. -/
structure Closing (log : FactLog) (entity : EntityId) (attr : String) (rest : List Fact) (more closes : Bool) :
    Prop where
  apart : ∀ fact ∈ pendingHistory log entity attr, fact ∉ committedHistory log entity attr
  closes_iff : rest.length = entityAttributeHistoryMaxSourceEntries →
    (closes = true ↔ more = false ∧ ∃ fact ∈ pendingHistory log entity attr, rest.getLast? = some fact)

/-- A history that ends with a pending fact is not used up by an attempt that fails. -/
def StaysOpen (closes : Bool) (rest done : List Fact) : Prop :=
  rest.length = entityAttributeHistoryMaxSourceEntries → closes = true → done ≠ rest

variable {more : Bool} (closing : Closing log entity attr rest more closes)
  (run : HistoryRun log entity attr asOfTxCount rest unseen scan done) (isMore : scan.cursor.more = more)
  (stays : StaysOpen closes rest done)

include closing run isMore stays in
theorem StaysOpen.attempt (increasing : Increasing compareEavt (committedHistory log entity attr))
    {rules : Rules Fact} (isCmp : rules.cmp = compareEavt) {after : Nat} {taken : List Fact} {cursor : Cursor Fact}
    (tried : attempt rules (committedHistory log entity attr) scan.cursor (.scanning after) = (taken, cursor)) :
    StaysOpen closes rest (done ++ taken) := by
  intro exact closed ended
  obtain ⟨whole, fact, pending, isLast⟩ := (closing.closes_iff exact).mp closed
  have trans : Std.TransCmp rules.cmp := isCmp ▸ inferInstance
  have attempted := @attempt_spec _ rules trans _ _ (isCmp ▸ increasing) (isCmp ▸ run.ready) (.scanning after)
  have last := @scanning_last _ rules trans _ _ (isCmp ▸ increasing) (isCmp ▸ run.ready) after
  rw [tried] at attempted last
  have nothing : unseen = [] := run.known.resolve_right (by rw [isMore, whole]; decide)
  have takes := run.passed.trans (congrArg (done ++ ·) (isCmp ▸ attempted.takes unseen run.known))
  rw [← append_assoc, ended, nothing, self_eq_append_right] at takes
  rcases eq_nil_or_concat taken with rfl | ⟨front, other, rfl⟩
  · exact stays exact closed (by rw [← ended, append_nil])
  · refine closing.apart fact pending (last (isCmp ▸ takes) ?_)
    rw [← isLast, ← ended, concat_eq_append, ← append_assoc, List.getLast?_concat, List.getLast?_concat]

include closing run isMore stays in
theorem failHistoryStep_spec (increasing : Increasing compareEavt (committedHistory log entity attr))
    {maxEntries : Nat} (bound : maxEntries ≤ entityAttributeHistoryMaxSourceEntries)
    (entries : scan.processedEntries ≤ entityAttributeHistoryMaxSourceEntries)
    (rows : scan.items.length ≤ wantedRows) (after : Nat) :
    ∃ scan' taken, failHistoryStep log entity attr asOfTxCount maxEntries wantedRows after scan = .ok scan' ∧
      HistoryRun log entity attr asOfTxCount rest unseen scan' (done ++ taken) ∧
      scan'.processedEntries ≤ entityAttributeHistoryMaxSourceEntries ∧ scan'.items.length ≤ wantedRows ∧
      scan'.cursor.more = more ∧ StaysOpen closes rest (done ++ taken) := by
  rw [failHistoryStep]
  split
  · exact ⟨scan, [], rfl, by rwa [append_nil], entries, rows, isMore, by rwa [append_nil]⟩
  split
  · exact ⟨scan, [], rfl, by rwa [append_nil], entries, rows, isMore, by rwa [append_nil]⟩
  rw [run.refill (by omega)]
  have trans : Std.TransCmp (historyRules asOfTxCount scan maxEntries wantedRows).cmp :=
    inferInstanceAs (Std.TransCmp compareEavt)
  have attempted := @MergeCursor.attempt_spec _ (historyRules asOfTxCount scan maxEntries wantedRows) trans _ _
    increasing run.ready (.scanning after)
  have tight := @MergeCursor.attempt_tight _ (historyRules asOfTxCount scan maxEntries wantedRows)
    (committedHistory log entity attr) scan.cursor (.scanning after)
  have stays' := @StaysOpen.attempt log entity attr asOfTxCount rest unseen done scan closes more closing run isMore
    stays increasing (historyRules asOfTxCount scan maxEntries wantedRows) rfl after
  generalize attempt (historyRules asOfTxCount scan maxEntries wantedRows)
    (committedHistory log entity attr) scan.cursor (.scanning after) = result at attempted tight stays'
  obtain ⟨taken, cursor⟩ := result
  obtain ⟨entries', items⟩ := within_historyRules tight (by omega) (by omega)
  dsimp only at entries' items ⊢
  rw [mapM_acceptHistory]
  refine ⟨_, taken, rfl, run.advance attempted.ready (attempted.takes unseen run.known) attempted.more
    attempted.waits attempted.fewer, by dsimp only; omega, ?_, attempted.more.trans isMore, stays' rfl⟩
  rw [length_append, length_map]
  exact items

include closing run isMore stays in
theorem retryHistory_spec (increasing : Increasing compareEavt (committedHistory log entity attr))
    {attempts : List Round} (positive : ∀ attempt ∈ attempts, 0 < attempt.budget)
    (entries : scan.processedEntries ≤ entityAttributeHistoryMaxSourceEntries)
    (rows : scan.items.length ≤ wantedRows) :
    retryHistory log entity attr asOfTxCount wantedRows attempts scan =
        (allowedHistory asOfTxCount closes wantedRows rest).map some ∨
      retryHistory log entity attr asOfTxCount wantedRows attempts scan = .ok none ∧
        done.length + unfailed attempts ≤ entityAttributeHistoryMaxSourceEntries := by
  induction attempts generalizing scan done with
  | nil => exact .inr ⟨rfl, run.processed ▸ entries⟩
  | cons first attempts ih =>
    obtain ⟨budget, fault⟩ := first
    obtain ⟨some, later⟩ := forall_mem_cons.mp positive
    dsimp only at some
    cases fault with
    | none =>
      rw [retryHistory]
      by_cases filled : scan.items.length = wantedRows
      · have returned : stepEntityAttributeHistoryCursor log entity attr asOfTxCount
            (min (scan.processedEntries + budget) entityAttributeHistoryMaxSourceEntries) wantedRows scan =
              .ok (scan, false) := by
          rw [stepEntityAttributeHistoryCursor, if_pos filled.ge, ite_self]
        rw [returned, run.page_of_rows entries filled]
        left
        simp [bind, Except.bind, filled]
        rfl
      by_cases used : scan.processedEntries = entityAttributeHistoryMaxSourceEntries
      · have returned : stepEntityAttributeHistoryCursor log entity attr asOfTxCount
            (min (scan.processedEntries + budget) entityAttributeHistoryMaxSourceEntries) wantedRows scan =
              .ok (scan, false) := by
          rw [stepEntityAttributeHistoryCursor, if_pos (by omega)]
        have isOpen : done = rest → closes = false := fun ended => by
          rw [← Bool.not_eq_true]
          exact fun closed => stays (ended ▸ run.processed ▸ used) closed ended
        rw [returned, run.page_of_work used (by omega) isOpen]
        left
        simp only [bind, Except.bind]
        rw [if_neg (by simp; omega), if_pos used.ge]
        rfl
      obtain ⟨scan', done', complete, ran, isMore', stepped⟩ := stepHistory_spec run increasing
        (show _ < min (scan.processedEntries + budget) entityAttributeHistoryMaxSourceEntries by omega)
        (Nat.min_le_right _ _) (show _ < wantedRows by omega)
      rw [ran]
      have entries' := stepped.entries
      have rows' := stepped.rows
      have processed' := stepped.run.processed
      rw [isMore] at isMore'
      simp only [bind, Except.bind]
      split
      · rename_i ends
        left
        rw [Bool.or_eq_true, decide_eq_true_eq] at ends
        by_cases filled' : scan'.items.length = wantedRows
        · rw [stepped.run.page_of_rows (by omega) filled']
          rfl
        · have all := stepped.run
          have complete := ends.resolve_right (by omega)
          have finished := stepped.finished complete
          rw [finished] at all processed'
          rw [all.page_of_all (by omega) rows' fun used => ?_]
          · rfl
          obtain ⟨fact, isLast⟩ : ∃ fact, rest.getLast? = Option.some fact := by
            rw [← Option.isSome_iff_exists, List.getLast?_isSome]
            rintro rfl
            rw [processed'] at used
            cases used
          have whole := stepped.whole complete
          refine (closing.closes_iff (processed' ▸ used)).mpr ⟨isMore' ▸ whole, fact, ?_, isLast⟩
          exact (stepped.last whole finished (by omega) fact isLast).2 complete
      · rename_i goes
        rw [Bool.not_eq_true, Bool.or_eq_false_iff, decide_eq_false_iff_not] at goes
        have progress := (stepped.yields goes.1).resolve_right goes.2
        split
        · left
          rw [stepped.run.page_of_work (by omega) (by omega) fun ended => ?_]
          · rfl
          rw [← Bool.not_eq_true]
          intro closed
          have used : rest.length = entityAttributeHistoryMaxSourceEntries := by
            rw [← ended]
            omega
          obtain ⟨whole, fact, pending, isLast⟩ := (closing.closes_iff used).mp closed
          exact closing.apart fact pending
            ((stepped.last (isMore'.trans whole) ended (by omega) fact isLast).1 goes.1)
        have stays' : StaysOpen closes rest done' := by
          rintro used - rfl
          omega
        refine (ih stepped.run isMore' stays' later (by omega) rows').imp_right (.imp_right fun few => ?_)
        have := unfailed_tried budget attempts
        have := run.processed
        have := stepped.run.processed
        omega
    | some fault =>
      obtain ⟨scan', taken, ran, run', entries', rows', isMore', stays'⟩ := failHistoryStep_spec closing run isMore
        stays increasing (Nat.min_le_right (scan.processedEntries + budget) _) entries rows fault.after
      rw [retryHistory, ran]
      refine (ih run' isMore' stays' later entries' rows').imp_right (.imp_right fun few => ?_)
      rw [unfailed_failed]
      rw [length_append] at few
      omega

theorem pendingHistory_apart (distinct : DistinctRecords log.records) {fact : Fact}
    (pending : fact ∈ pendingHistory log entity attr) : fact ∉ committedHistory log entity attr := by
  intro committed
  have inLog := (mem_filter.mp ((indexRange_perm _ _ _).mem_iff.mp committed)).1
  have inPending := (mem_filter.mp ((indexRange_perm _ _ _).mem_iff.mp pending)).1
  have apart := (pairwise_append.mp distinct).2.2 fact inLog fact inPending
  rw [Fact.sameRecord_self] at apart
  cases apart

theorem transparent_history (distinct : DistinctRecords log.records) (position : Option Fact) (wantedRows : Nat) :
    Transparent fun attempts => retryHistory log entity attr asOfTxCount wantedRows attempts
      (entityAttributeHistoryCursor log entity attr position) := by
  have increasing : Increasing compareEavt (committedHistory log entity attr) :=
    increasing_indexRange (separates_entityAttributeRange entity attr) (pairwise_append.mp distinct).1
  obtain ⟨unseen, run⟩ := @historyRun_start log entity attr asOfTxCount distinct position
  obtain ⟨closes, closing⟩ : ∃ closes, Closing log entity attr (historyAfter log entity attr position)
      (rangeEavtPage (pendingHistory log entity attr) position).2 closes :=
    ⟨decide _, fun _ => pendingHistory_apart distinct, fun _ => decide_eq_true_iff⟩
  refine ⟨allowedHistory asOfTxCount closes wantedRows (historyAfter log entity attr position),
    entityAttributeHistoryMaxSourceEntries, fun attempts positive => ?_⟩
  have stays : StaysOpen closes (historyAfter log entity attr position) [] := fun long _ none => by
    rw [← none] at long
    cases long
  have retried := retryHistory_spec closing run rfl stays increasing positive (Nat.zero_le _)
    (Nat.zero_le wantedRows)
  rwa [length_nil, Nat.zero_add] at retried

end History

section Readers

variable {log : FactLog}

def rated : FactLog where
  committed := [⟨2, ":s/p", .integer 7, 1, 1, 0, 10, true⟩]
  pending := [⟨3, ":s/p", .integer 4, 2, 2, 0, 10, true⟩]

def ratedDiff : ValidTimeDiffRequest := ⟨":s/p", none, 1, 20, none, 5⟩

def padded (bytes : Bytes) : Bytes := bytes ++ List.replicate (BTree.pageSize - bytes.length) 0

/-- The sections of an image with one row: entity 7 stands at 4 from 0 to 10. -/
def imagePage : Nat → Except String Bytes
  | 3 => .ok (padded (beBytes 16 7))
  | 4 => .ok (padded [0, 0, 0, 0, 9, 0, 0, 0])
  | 5 => .ok (padded (encodeValue (.integer 4)))
  | 6 => .ok (padded [0, 0])
  | 7 => .ok (padded [0, 10])
  | _ => .error "no such page"

def imageScan : CurrentProjectionScan where
  descriptor := ⟨1, 7, 0, 14623720095735499164⟩
  sections := ⟨⟨8192, 16⟩, ⟨12288, 8⟩, ⟨16384, 9⟩, ⟨20480, 2⟩, ⟨24576, 2⟩⟩
  rowCount := 1
  row := 0
  validFrom := {}
  validTo := {}
  previousEntity := none
  fingerprint := hashProjectionBytes (hashProjectionBytes 0xcbf29ce484222325 (utf8Bytes ":s/p")) (beBytes 8 0)

def scored : FactLog where
  committed := [⟨2, ":s/p", .integer 7, 1, 1, 0, 10, true⟩, ⟨1, ":s/pq", .integer 3, 1, 1, 0, 10, true⟩]
  pending := []

end Readers

end ViciaDb
