import ViciaDb.Graph.CursorRun
import ViciaDb.Lib.MergeCursor

namespace ViciaDb

open ByteReader MergeCursor Std List

def inExactAttribute (attr : String) (fact : Fact) : Bool :=
  (compare (utf8Bytes attr) (utf8Bytes fact.attr)).isLE &&
    (compare (utf8Bytes fact.attr) (utf8Bytes (attr.push (Char.ofNat 0)))).isLT

def inEntityAttribute (entity : EntityId) (attr : String) (fact : Fact) : Bool :=
  decide (fact.entity = entity) && inExactAttribute attr fact

def inReferences (attr : String) (target : EntityId) (fact : Fact) : Bool :=
  decide (fact.refTarget = some target) && inExactAttribute attr fact

def compareVaet : Fact → Fact → Ordering :=
  compareLex (compareOn Fact.refTarget) <| compareLex (compareOn fun fact => utf8Bytes fact.attr) <|
    compareLex (compareOn Fact.validFrom) <| compareLex (compareOn Fact.validTo) <|
      compareLex (compareOn Fact.entity) <| compareLex (compareOn Fact.txCount) <|
        compareLex (compareOn Fact.txId) (compareOn Fact.asserted)

instance : TransCmp compareVaet := by
  unfold compareVaet
  infer_instance

def currentEntitiesMaxHistoryEntries : Nat := 65536

def currentRefsMaxHistoryEntries : Nat := 65536

def historyWorkExceeded (reader : String) (maxEntries : Nat) : String :=
  s!"{reader} history work exceeds {maxEntries} entries; use raw Datalog or maintenance context"

variable {attr : String} {fact : Fact} {target : EntityId} {a b : Fact}
    {cmp : Fact → Fact → Ordering} {inRange : Fact → Bool}

theorem compare_cons (x y : UInt8) (a b : Bytes) :
    compare (x :: a) (y :: b) = (compare x y).then (compare a b) := by
  rw [List.compare_eq_compareLex, List.compareLex_cons_cons]

theorem utf8Bytes_push_zero (s : String) : utf8Bytes (s.push (Char.ofNat 0)) = utf8Bytes s ++ [0] := by
  rw [utf8Bytes, String.toByteArray_push, ByteArray.data_append, Array.toList_append]
  rfl

theorem eq_of_compare_zero {a b : Bytes} (lower : (compare a b).isLE = true)
    (upper : (compare b (a ++ [0])).isLT = true) : b = a := by
  induction a generalizing b with
  | nil =>
    cases b with
    | nil => rfl
    | cons y ys =>
      rw [nil_append, compare_cons] at upper
      have least : compare y 0 ≠ .lt := by
        intro less
        have below : y < 0 := compare_eq_lt.mp less
        exact absurd below UInt8.not_lt_zero
      have rest : compare ys ([] : Bytes) ≠ .lt := by cases ys <;> simp
      cases order : compare y 0 <;> simp_all
  | cons x a ih =>
    cases b with
    | nil => simp at lower
    | cons y ys =>
      rw [compare_cons] at lower
      rw [cons_append, compare_cons] at upper
      cases order : compare x y with
      | lt =>
        have back : compare y x = .gt := OrientedCmp.gt_iff_lt.mpr order
        simp [back] at upper
      | gt => simp [order] at lower
      | eq =>
        have same : x = y := LawfulEqCmp.eq_of_compare order
        subst same
        rw [order] at lower upper
        rw [ih lower upper]

theorem compare_append_zero (a : Bytes) : compare a (a ++ [0]) = .lt := by
  induction a with
  | nil => rfl
  | cons x a ih =>
    have same : compare x x = .eq := ReflCmp.compare_self
    rw [cons_append, compare_cons, same, ih]
    rfl

theorem inExactAttribute_iff : inExactAttribute attr fact = true ↔ fact.attr = attr := by
  rw [inExactAttribute, Bool.and_eq_true, utf8Bytes_push_zero]
  constructor
  · rintro ⟨lower, upper⟩
    exact utf8Bytes_inj (eq_of_compare_zero lower upper)
  · rintro rfl
    have same : compare (utf8Bytes fact.attr) (utf8Bytes fact.attr) = .eq := ReflCmp.compare_self
    rw [same, compare_append_zero]
    exact ⟨rfl, rfl⟩

theorem inEntityAttribute_iff {entity : EntityId} :
    inEntityAttribute entity attr fact = true ↔ fact.entity = entity ∧ fact.attr = attr := by
  rw [inEntityAttribute, Bool.and_eq_true, decide_eq_true_eq, inExactAttribute_iff]

theorem inReferences_iff :
    inReferences attr target fact = true ↔ fact.value = .ref target ∧ fact.attr = attr := by
  rw [inReferences, Bool.and_eq_true, decide_eq_true_eq, inExactAttribute_iff, Fact.refTarget]
  cases fact.value <;> simp

theorem sameRecord_of_compareEavt (same : compareEavt a b = .eq) : a.sameRecord b = true := by
  simp only [compareEavt, compareTail, compareLex_eq_eq, compareOn, LawfulEqCmp.compare_eq_iff_eq] at same
  obtain ⟨entity, attr, low, high, count, value, id, flag⟩ := same
  simp [Fact.sameRecord, entity, utf8Bytes_inj attr, low, high, count, value, id, flag]

theorem sameRecord_of_compareVaet (isRef : a.value = .ref target) (same : compareVaet a b = .eq) :
    a.sameRecord b = true := by
  simp only [compareVaet, compareLex_eq_eq, compareOn, LawfulEqCmp.compare_eq_iff_eq] at same
  obtain ⟨sameTarget, attr, low, high, entity, count, id, flag⟩ := same
  have value : a.value = b.value := by
    rw [Fact.refTarget, Fact.refTarget, isRef] at sameTarget
    cases isOther : b.value <;> simp_all
  simp [Fact.sameRecord, entity, utf8Bytes_inj attr, low, high, count, value, id, flag]

structure CursorRange where
  cmp : Fact → Fact → Ordering
  inRange : Fact → Bool
  reader : String
  maxEntries : Nat

def entityAttributeRange (entity : EntityId) (attr : String) : CursorRange where
  cmp := compareEavt
  inRange := inEntityAttribute entity attr
  reader := "current_entities"
  maxEntries := currentEntitiesMaxHistoryEntries

def referencesRange (attr : String) (target : EntityId) : CursorRange where
  cmp := compareVaet
  inRange := inReferences attr target
  reader := "current_refs"
  maxEntries := currentRefsMaxHistoryEntries

instance (entity : EntityId) (attr : String) : TransCmp (entityAttributeRange entity attr).cmp :=
  inferInstanceAs (TransCmp compareEavt)

instance (attr : String) (target : EntityId) : TransCmp (referencesRange attr target).cmp :=
  inferInstanceAs (TransCmp compareVaet)

def CursorRange.cursor (range : CursorRange) (log : FactLog) : Except String (Cursor Fact) :=
  let pending := indexRange range.cmp range.inRange log.pending
  if range.maxEntries < pending.length then .error (historyWorkExceeded range.reader range.maxEntries)
  else .ok (.start pending)

def CursorRange.visit {σ τ : Type} (range : CursorRange) (accept : σ → Fact → σ)
    (finish : σ → Except String τ) (start : σ) (log : FactLog) (budgets : List Nat) :
    Except String (Option τ) := do
  let cursor ← range.cursor log
  drive range.cmp (fun state fact => .ok (accept state fact)) finish
    (indexRange range.cmp range.inRange log.committed) budgets cursor start

def SeparatesRange (cmp : Fact → Fact → Ordering) (inRange : Fact → Bool) : Prop :=
  ∀ a b, inRange a = true → inRange b = true → cmp a b = .eq → a.sameRecord b = true

theorem separates_entityAttributeRange (entity : EntityId) (attr : String) :
    SeparatesRange compareEavt (inEntityAttribute entity attr) :=
  fun _ _ _ _ => sameRecord_of_compareEavt

theorem separates_referencesRange (attr : String) (target : EntityId) :
    SeparatesRange compareVaet (inReferences attr target) :=
  fun _ _ inA _ => sameRecord_of_compareVaet (inReferences_iff.mp inA).1

theorem increasing_indexRange [TransCmp cmp] {facts : List Fact} (separates : SeparatesRange cmp inRange)
    (distinct : DistinctRecords facts) : Increasing cmp (indexRange cmp inRange facts) := by
  have perm := indexRange_perm cmp inRange facts
  have apart : DistinctRecords (indexRange cmp inRange facts) :=
    DistinctRecords.perm (List.Pairwise.sublist filter_sublist distinct) perm.symm
  refine List.Pairwise.imp_of_mem ?_ ((pairwise_indexRange cmp inRange facts).and apart)
  rintro a b inA inB ⟨order, different⟩
  have ranged : ∀ fact ∈ indexRange cmp inRange facts, inRange fact = true :=
    fun fact member => (mem_filter.mp (perm.mem_iff.mp member)).2
  cases compared : cmp a b with
  | lt => rfl
  | gt =>
    rw [compared] at order
    cases order
  | eq =>
    rw [separates a b (ranged a inA) (ranged b inB) compared] at different
    cases different

theorem merged_indexRange {cmp : Fact → Fact → Ordering} [TransCmp cmp] {inRange : Fact → Bool}
    (separates : SeparatesRange cmp inRange) {log : FactLog} (distinct : DistinctRecords log.records)
    {p : Fact → Bool} :
    merged cmp ((indexRange cmp inRange log.committed).filter p)
        ((indexRange cmp inRange log.pending).filter p) = (indexRange cmp inRange log.records).filter p := by
  have parts : ((indexRange cmp inRange log.committed).filter p ++
      (indexRange cmp inRange log.pending).filter p).Perm ((indexRange cmp inRange log.records).filter p) := by
    rw [← filter_append]
    refine List.Perm.filter _ (List.Perm.trans ?_ (indexRange_perm _ _ _).symm)
    rw [FactLog.records, filter_append]
    exact (indexRange_perm _ _ _).append (indexRange_perm _ _ _)
  have increasing : Increasing cmp ((indexRange cmp inRange log.records).filter p) :=
    (increasing_indexRange separates distinct).sublist filter_sublist
  have perm := (mergeScan_perm (fun a b => (cmp a b).isLT) _ _).trans parts
  refine increasing.eq_of_perm (pairwise_mergeScan ?_ ?_) perm
  · exact (pairwise_indexRange _ _ _).sublist filter_sublist
  · exact (pairwise_indexRange _ _ _).sublist filter_sublist

theorem filter_indexRange_eq [TransCmp cmp] {p : Fact → Bool}
    (separates : SeparatesRange cmp inRange) {a b : List Fact} (distinctA : DistinctRecords a)
    (distinctB : DistinctRecords b) (same : (a.filter p).Perm (b.filter p)) :
    (indexRange cmp inRange a).filter p = (indexRange cmp inRange b).filter p := by
  have rows : ∀ facts : List Fact, ((indexRange cmp inRange facts).filter p).Perm
      ((facts.filter p).filter inRange) := by
    intro facts
    rw [filter_comm]
    exact (indexRange_perm _ _ _).filter _
  refine Increasing.eq_of_perm ((increasing_indexRange separates distinctB).sublist filter_sublist) ?_
    ((rows a).trans ((same.filter _).trans (rows b).symm))
  exact ((increasing_indexRange separates distinctA).sublist filter_sublist).imp fun less => by
    rw [less]
    rfl

def CursorRange.entries (range : CursorRange) (log : FactLog) : List Fact :=
  merged range.cmp (indexRange range.cmp range.inRange log.committed)
    (indexRange range.cmp range.inRange log.pending)

theorem CursorRange.entries_perm (range : CursorRange) (log : FactLog) :
    (range.entries log).Perm (log.records.filter range.inRange) := by
  rw [FactLog.records, filter_append]
  exact (mergeScan_perm _ _ _).trans ((indexRange_perm _ _ _).append (indexRange_perm _ _ _))

theorem CursorRange.visit_eq {σ τ : Type} (range : CursorRange) [TransCmp range.cmp]
    (separates : SeparatesRange range.cmp range.inRange) {log : FactLog}
    (distinct : DistinctRecords log.records)
    (few : (log.pending.filter range.inRange).length ≤ range.maxEntries) {budgets : List Nat}
    (positive : ∀ budget ∈ budgets, 0 < budget) (accept : σ → Fact → σ) (finish : σ → Except String τ)
    (start : σ) :
    range.visit accept finish start log budgets =
        (do return some (← finish ((range.entries log).foldl accept start))) ∨
      range.visit accept finish start log budgets = .ok none ∧
        budgets.length ≤ (log.records.filter range.inRange).length := by
  have made : range.cursor log = .ok (.start (indexRange range.cmp range.inRange log.pending)) := by
    rw [CursorRange.cursor, (indexRange_perm _ _ _).length_eq, if_neg (Nat.not_lt.mpr few)]
  have increasing := increasing_indexRange separates (pairwise_append.mp distinct).1
  have ready : Ready range.cmp (.start (indexRange range.cmp range.inRange log.pending)) :=
    Ready.start (pairwise_indexRange range.cmp range.inRange log.pending)
  have driven := drive_eq (fun state fact => .ok (accept state fact)) finish increasing positive
    ready rfl start
  rw [driveAll, remaining_start] at driven
  have fed : (range.entries log).foldlM (fun state fact => (.ok (accept state fact) : Except String σ)) start =
      .ok ((range.entries log).foldl accept start) := foldlM_pure
  rw [← CursorRange.entries, fed] at driven
  rw [CursorRange.visit, made, ← (range.entries_perm log).length_eq]
  exact driven

variable (asOf : Option AsOf) (validTime : CurrentValidTime)

def CurrentValueState.windows (encoded : Bytes) (state : CurrentValueState) : List CurrentRow :=
  (state.assertions.entries.filter fun ⟨window, fact⟩ =>
    state.stands window fact && validTime.admits window.1 window.2).map fun ⟨window, fact⟩ =>
      ⟨encoded, window, fact⟩

def CurrentAttributeValues.output (eachWindow : Bool) (values : CurrentAttributeValues) :
    List CurrentRow :=
  if eachWindow then values.rows validTime
  else values.entries.filterMap fun ⟨encoded, state⟩ => (state.windows validTime encoded).head?

def finishEntityAttribute (eachWindow : Bool) (values : CurrentAttributeValues) :
    Except String (List (Value × Window)) :=
  ((values.output validTime eachWindow).insertionSort fun a b => (a.compare b).isLE).mapM fun row => do
    let value ← row.value
    return (value, row.window)

def visitEntityAttribute (eachWindow : Bool) (log : FactLog) (entity : EntityId) (attr : String)
    (budgets : List Nat) : Except String (Option (List (Value × Window))) :=
  (entityAttributeRange entity attr).visit
    (fun values fact => if entryVisibleAsOf asOf fact then values.reduce fact else values)
    (finishEntityAttribute validTime eachWindow) ∅ log budgets

abbrev CurrentSources := AList fun _ : EntityId => CurrentValueState

def CurrentSources.reduce (sources : CurrentSources) (fact : Fact) : CurrentSources :=
  sources.insert fact.entity (reduceCurrentState ((sources.lookup fact.entity).getD {}) fact)

def finishReferences (sources : CurrentSources) : List EntityId :=
  ((sources.entries.filter fun ⟨_, state⟩ => state.assertions.entries.any fun ⟨window, fact⟩ =>
    state.stands window fact && validTime.admits window.1 window.2).map Sigma.fst).insertionSort (· ≤ ·)

def visitReferences (log : FactLog) (attr : String) (target : EntityId) (budgets : List Nat) :
    Except String (Option (List EntityId)) :=
  (referencesRange attr target).visit
    (fun sources fact => if entryVisibleAsOf asOf fact then sources.reduce fact else sources)
    (fun sources => .ok (finishReferences validTime sources)) ∅ log budgets

end ViciaDb
