import Mathlib.Data.List.Dedup
import ViciaDb.Graph.ExactCursors

namespace ViciaDb

open ByteReader List
open ViciaDb.Fact (windowKey)

variable (asOf : Option AsOf) (validTime : CurrentValidTime)

def currentFacts (select : Fact → Bool) (records : List Fact) : List Fact :=
  (netAssertedFacts (records.filter (entryVisibleAsOf asOf))).filter fun fact =>
    select fact && validTime.admits fact.validFrom fact.validTo

def WindowKey.compare : WindowKey → WindowKey → Ordering :=
  compareLex (compareOn fun key => encodeValue key.eav.value) <|
    compareLex (compareOn WindowKey.validFrom) (compareOn WindowKey.validTo)

instance : Std.TransCmp WindowKey.compare := by
  unfold WindowKey.compare
  infer_instance

instance : Std.TransCmp fun a b : Fact => a.windowKey.compare b.windowKey where
  eq_swap := Std.OrientedCmp.eq_swap
  isLE_trans := Std.TransCmp.isLE_trans

def currentIntervals (entity : EntityId) (attr : String) (records : List Fact) : List Fact :=
  (currentFacts asOf validTime (fun fact => fact.entity == entity && fact.attr == attr)
    records).insertionSort fun a b => (a.windowKey.compare b.windowKey).isLE

def currentSources (attr : String) (target : EntityId) (records : List Fact) : List EntityId :=
  ((currentFacts asOf validTime (fun fact => fact.attr == attr && fact.value == .ref target)
    records).map Fact.entity).dedup.insertionSort (· ≤ ·)

section Meaning

variable {asOf validTime} {records : List Fact} {key : WindowKey}

theorem Fact.eavKey_of_cancels {retraction : Fact} (cancels : retraction.cancels key = true) :
    retraction.eavKey = key.eav := by
  simp only [Fact.cancels, Bool.and_eq_true, Bool.or_eq_true, beq_iff_eq] at cancels
  obtain ⟨-, ⟨-, same⟩ | ⟨-, rfl⟩⟩ := cancels
  · exact same
  · rfl

theorem NetAsserted.filter {p : Fact → Bool} (q : EavKey → Prop)
    (agree : ∀ fact : Fact, p fact = true ↔ q fact.eavKey) :
    NetAsserted (records.filter p) key ↔ NetAsserted records key ∧ q key.eav := by
  constructor
  · rintro ⟨fact, member, asserted, rfl, positive, clear⟩
    obtain ⟨known, selected⟩ := mem_filter.mp member
    have selected : q fact.windowKey.eav := (agree fact).mp selected
    refine ⟨⟨fact, known, asserted, rfl, positive, fun retraction inRecords cancels => ?_⟩, selected⟩
    refine clear retraction (mem_filter.mpr ⟨inRecords, (agree retraction).mpr ?_⟩) cancels
    rwa [Fact.eavKey_of_cancels cancels]
  · rintro ⟨⟨fact, known, asserted, rfl, positive, clear⟩, selected⟩
    exact ⟨fact, mem_filter.mpr ⟨known, (agree fact).mpr selected⟩, asserted, rfl, positive,
      fun retraction member => clear retraction (mem_of_mem_filter member)⟩

theorem mem_map_currentFacts {select : Fact → Bool} (q : EavKey → Prop)
    (agree : ∀ fact : Fact, select fact = true ↔ q fact.eavKey) :
    key ∈ (currentFacts asOf validTime select records).map windowKey ↔
      Current validTime (records.filter (entryVisibleAsOf asOf)) key ∧ q key.eav := by
  rw [Current, ← mem_map_netAssertedFacts]
  simp only [currentFacts, mem_map, mem_filter, Bool.and_eq_true]
  constructor
  · rintro ⟨fact, ⟨known, selected, inside⟩, rfl⟩
    exact ⟨⟨⟨fact, known, rfl⟩, inside⟩, (agree fact).mp selected⟩
  · rintro ⟨⟨⟨fact, known, rfl⟩, inside⟩, selected⟩
    exact ⟨fact, ⟨known, (agree fact).mpr selected, inside⟩, rfl⟩

theorem nodup_map_currentFacts (select : Fact → Bool) :
    ((currentFacts asOf validTime select records).map windowKey).Nodup :=
  (filter_sublist.map _).nodup (nodup_netAssertedFacts _)

theorem current_entries {range : CursorRange} {log : FactLog} (split : log.records.Perm records)
    (q : EavKey → Prop) (agree : ∀ fact : Fact, range.inRange fact = true ↔ q fact.eavKey) :
    Current validTime ((range.entries log).filter (entryVisibleAsOf asOf)) key ↔
      Current validTime (records.filter (entryVisibleAsOf asOf)) key ∧ q key.eav := by
  have same : ∀ fact, fact ∈ (range.entries log).filter (entryVisibleAsOf asOf) ↔
      fact ∈ (records.filter (entryVisibleAsOf asOf)).filter range.inRange := by
    intro fact
    rw [mem_filter, mem_filter, mem_filter, (range.entries_perm log).mem_iff, mem_filter, split.mem_iff]
    tauto
  rw [Current, Current, NetAsserted.congr same, NetAsserted.filter q agree]
  tauto

end Meaning

variable {state : CurrentValueState}

section EntityAttribute

variable {asOf validTime} {entity : EntityId} {attr : String} {group records : List Fact}
  {values : CurrentAttributeValues}

instance : Std.TransCmp CurrentRow.compare := by
  unfold CurrentRow.compare
  infer_instance

variable {xs facts : List Fact} {row : CurrentRow}

theorem compare_row (reduced : ReducesAll group values) {a b : CurrentRow} (inA : a ∈ values.rows validTime)
    (inB : b ∈ values.rows validTime) : a.compare b = a.fact.windowKey.compare b.fact.windowKey := by
  obtain ⟨-, -, bytes, window⟩ := row_of_mem reduced inA
  obtain ⟨-, -, bytes', window'⟩ := row_of_mem reduced inB
  have value : ∀ fact : Fact, encodeValue fact.windowKey.eav.value = encodeValue fact.value :=
    fun fact => encodeValue_canonicalValue fact.value
  simp only [CurrentRow.compare, WindowKey.compare, compareLex, compareOn, value, bytes, bytes', ← window,
    ← window']
  rfl

variable (apart : TellsApart attr group)

variable (one : ∀ fact ∈ group, fact.entity = entity)

include apart one in
theorem windowKey_eq_of_compare {a b : Fact} (inA : a ∈ group) (inB : b ∈ group)
    (same : a.windowKey.compare b.windowKey = .eq) : a.windowKey = b.windowKey := by
  simp only [WindowKey.compare, compareLex_eq_eq, compareOn, Std.LawfulEqCmp.compare_eq_iff_eq] at same
  obtain ⟨bytes, low, high⟩ := same
  have bytes : encodeValue a.value = encodeValue b.value := by
    rw [← encodeValue_canonicalValue a.value, ← encodeValue_canonicalValue b.value]
    exact bytes
  refine windowKey_eq_iff.mpr ⟨(eavKey_eq_iff apart inA inB ?_).mpr bytes, Prod.ext low high⟩
  rw [one a inA, one b inB]

include apart one in
theorem map_windowKey_eq {ys : List Fact} (inXs : ∀ fact ∈ xs, fact ∈ group) (inYs : ∀ fact ∈ ys, fact ∈ group)
    (sortedXs : xs.Pairwise fun a b => (a.windowKey.compare b.windowKey).isLE)
    (sortedYs : ys.Pairwise fun a b => (a.windowKey.compare b.windowKey).isLE)
    (perm : (xs.map windowKey).Perm (ys.map windowKey)) :
    xs.map windowKey = ys.map windowKey := by
  have keysXs : (xs.map windowKey).Pairwise fun a b => (a.compare b).isLE := pairwise_map.mpr sortedXs
  have keysYs : (ys.map windowKey).Pairwise fun a b => (a.compare b).isLE := pairwise_map.mpr sortedYs
  refine List.Perm.eq_of_pairwise ?_ keysXs keysYs perm
  intro x y inX inY lower upper
  obtain ⟨a, inA, rfl⟩ := mem_map.mp inX
  obtain ⟨b, inB, rfl⟩ := mem_map.mp inY
  exact windowKey_eq_of_compare apart one (inXs a inA) (inYs b inB) (Std.OrientedCmp.isLE_antisymm lower upper)

theorem map_item_eq {ys : List Fact} (keys : xs.map windowKey = ys.map windowKey) :
    xs.map (fun fact => (canonicalValue fact.value, fact.window)) =
      ys.map fun fact => (canonicalValue fact.value, fact.window) := by
  have items := congrArg (List.map fun key : WindowKey => (key.eav.value, (key.validFrom, key.validTo))) keys
  rwa [map_map, map_map] at items

theorem rows_sorted (reduced : ReducesAll group values) {rows : List CurrentRow}
    (inRows : ∀ row ∈ rows, row ∈ values.rows validTime) :
    ((rows.insertionSort fun a b => (a.compare b).isLE).map CurrentRow.fact).Pairwise
      fun a b => (a.windowKey.compare b.windowKey).isLE := by
  rw [pairwise_map]
  refine List.Pairwise.imp_of_mem ?_ (pairwise_insertionSort_isLE rows)
  intro a b inA inB order
  have perm := perm_insertionSort (fun a b : CurrentRow => (a.compare b).isLE) rows
  rwa [← compare_row reduced (inRows a (perm.mem_iff.mp inA)) (inRows b (perm.mem_iff.mp inB))]

theorem finishEntityAttribute_eq (reduced : ReducesAll group values) (eachWindow : Bool)
    (rows : ∀ row ∈ values.output validTime eachWindow, row ∈ values.rows validTime) :
    finishEntityAttribute validTime eachWindow values =
      .ok ((((values.output validTime eachWindow).insertionSort fun a b => (a.compare b).isLE).map
        CurrentRow.fact).map fun fact => (fact.value, fact.window)) := by
  rw [finishEntityAttribute, map_map]
  refine mapM_ok_of_forall fun row member => ?_
  have inRows := rows row ((perm_insertionSort _ _).mem_iff.mp member)
  obtain ⟨-, -, -, window⟩ := row_of_mem reduced inRows
  rw [row_value reduced inRows, ← window]
  rfl

structure Reports (validTime : CurrentValidTime) (group facts : List Fact) : Prop where
  members : ∀ fact ∈ facts, fact ∈ group
  nodup : (facts.map Fact.windowKey).Nodup
  current : ∀ key, key ∈ facts.map Fact.windowKey ↔ Current validTime group key
  sorted : facts.Pairwise fun a b => (a.windowKey.compare b.windowKey).isLE

include apart one in
theorem finishEntityAttribute_each (reduced : ReducesAll group values)
    (reports : Reports validTime group facts) :
    ∃ items, finishEntityAttribute validTime true values = .ok items ∧
      items.map (fun item => (canonicalValue item.1, item.2)) =
        facts.map fun fact => (canonicalValue fact.value, fact.window) := by
  have all : ∀ row ∈ values.rows validTime, row ∈ values.rows validTime := fun _ => id
  have perm := perm_insertionSort (fun a b : CurrentRow => (a.compare b).isLE) (values.rows validTime)
  refine ⟨_, finishEntityAttribute_eq reduced true all, ?_⟩
  rw [map_map]
  refine map_item_eq (map_windowKey_eq apart one ?_ reports.members (rows_sorted reduced all)
    reports.sorted ?_)
  · intro fact member
    obtain ⟨row, inRows, rfl⟩ := mem_map.mp member
    exact (row_of_mem reduced (perm.mem_iff.mp inRows)).1
  · rw [map_map]
    refine (perm.map _).trans ((perm_ext_iff_of_nodup (nodup_map_rows apart one reduced validTime)
      reports.nodup).mpr fun key => ?_)
    rw [reports.current]
    exact mem_map_rows apart one reduced

theorem mem_rows_of_output {eachWindow : Bool} (member : row ∈ values.output validTime eachWindow) :
    row ∈ values.rows validTime := by
  cases eachWindow with
  | true => exact member
  | false =>
    obtain ⟨⟨encoded, state⟩, inValues, first⟩ := mem_filterMap.mp member
    exact mem_flatMap.mpr ⟨⟨encoded, state⟩, inValues, mem_of_mem_head? first⟩

theorem encoded_of_windows {encoded : Bytes} (member : row ∈ state.windows validTime encoded) :
    row.encoded = encoded := by
  obtain ⟨_, _, rfl⟩ := mem_map.mp member
  rfl

theorem exists_output (member : row ∈ values.rows validTime) :
    ∃ other ∈ values.output validTime false, other.encoded = row.encoded := by
  obtain ⟨⟨encoded, state⟩, inValues, inWindows⟩ := mem_flatMap.mp member
  have first := List.head?_eq_some_head (ne_nil_of_mem inWindows)
  refine ⟨_, mem_filterMap.mpr ⟨⟨encoded, state⟩, inValues, first⟩, ?_⟩
  rw [encoded_of_windows (mem_of_mem_head? first)]
  exact (encoded_of_windows inWindows).symm

theorem nodup_output : ((values.output validTime false).map CurrentRow.encoded).Nodup := by
  have keys : (values.entries.map Sigma.fst).Nodup := values.keys_nodup
  refine List.Nodup.sublist ?_ keys
  change ((values.entries.filterMap fun entry => (entry.2.windows validTime entry.1).head?).map _).Sublist _
  induction values.entries with
  | nil => exact .slnil
  | cons entry entries ih =>
    rw [filterMap_cons]
    split
    · exact ih.cons _
    · rename_i row first
      rw [map_cons, map_cons, encoded_of_windows (mem_of_mem_head? first)]
      exact ih.cons_cons _

include apart in
theorem canonicalValue_eq_iff {a b : Fact} (inA : a ∈ group) (inB : b ∈ group) :
    canonicalValue a.value = canonicalValue b.value ↔ encodeValue a.value = encodeValue b.value := by
  refine ⟨fun same => ?_, apart.values a inA b inB⟩
  rw [← encodeValue_canonicalValue a.value, same, encodeValue_canonicalValue]

theorem bytes_of_compare (sorted : xs.Pairwise fun a b => (a.windowKey.compare b.windowKey).isLE) :
    (xs.map fun fact => canonicalValue fact.value).Pairwise
      fun a b => (compare (encodeValue a) (encodeValue b)).isLE := by
  refine pairwise_map.mpr (sorted.imp ?_)
  intro a b order
  rw [WindowKey.compare, compareLex] at order
  change (compareOn (fun key : WindowKey => encodeValue key.eav.value) a.windowKey b.windowKey).isLE = true
  rcases Ordering.isLE_then_iff_or.mp order with less | ⟨same, -⟩
  · rw [less]
    rfl
  · rw [same]
    rfl

structure Firsts (validTime : CurrentValidTime) (group firsts : List Fact) : Prop where
  current : ∀ fact ∈ firsts, fact ∈ group ∧ Current validTime group fact.windowKey
  nodup : (firsts.map fun fact => encodeValue fact.value).Nodup
  every : ∀ fact ∈ group, Current validTime group fact.windowKey →
    ∃ first ∈ firsts, encodeValue first.value = encodeValue fact.value
  sorted : firsts.Pairwise fun a b => (a.windowKey.compare b.windowKey).isLE

include apart one in
theorem firsts_output (reduced : ReducesAll group values) :
    Firsts validTime group (((values.output validTime false).insertionSort
      fun a b => (a.compare b).isLE).map CurrentRow.fact) := by
  have perm := perm_insertionSort (fun a b : CurrentRow => (a.compare b).isLE) (values.output validTime false)
  have inRows : ∀ row ∈ values.output validTime false, row ∈ values.rows validTime :=
    fun _ => mem_rows_of_output
  refine ⟨?_, ?_, ?_, rows_sorted reduced inRows⟩
  · intro fact member
    obtain ⟨row, inOutput, rfl⟩ := mem_map.mp member
    have inside := inRows row (perm.mem_iff.mp inOutput)
    exact ⟨(row_of_mem reduced inside).1, (mem_map_rows apart one reduced).mp (mem_map_of_mem inside)⟩
  · have bytes : (values.output validTime false).map (fun row => encodeValue row.fact.value) =
        (values.output validTime false).map CurrentRow.encoded :=
      map_congr_left fun row member => (row_of_mem reduced (inRows row member)).2.2.1
    rw [map_map]
    refine (perm.map _).nodup_iff.mpr ?_
    change ((values.output validTime false).map fun row => encodeValue row.fact.value).Nodup
    rw [bytes]
    exact nodup_output
  · intro fact inGroup current
    obtain ⟨row, member, same⟩ := mem_map.mp ((mem_map_rows apart one reduced).mpr current)
    obtain ⟨other, inOutput, bytes⟩ := exists_output member
    obtain ⟨known, -, encoded, -⟩ := row_of_mem reduced member
    obtain ⟨-, -, encoded', -⟩ := row_of_mem reduced (inRows other inOutput)
    refine ⟨other.fact, mem_map_of_mem (perm.mem_iff.mpr inOutput), ?_⟩
    rw [encoded', bytes, ← encoded, ← canonicalValue_eq_iff apart known inGroup]
    exact congrArg (fun key : WindowKey => key.eav.value) same

include apart in
theorem Firsts.values_eq {firsts : List Fact}
    (isFirst : Firsts validTime group firsts) (reports : Reports validTime group facts) :
    firsts.map (fun fact => canonicalValue fact.value) =
      (facts.map fun fact => canonicalValue fact.value).dedup := by
  refine List.Perm.eq_of_pairwise ?_ (bytes_of_compare isFirst.sorted)
    ((bytes_of_compare reports.sorted).sublist (dedup_sublist _)) ?_
  · intro value value' inLeft inRight lower upper
    obtain ⟨first, inFirsts, rfl⟩ := mem_map.mp inLeft
    obtain ⟨other, inFacts, rfl⟩ := mem_map.mp (mem_dedup.mp inRight)
    have same := Std.OrientedCmp.isLE_antisymm lower upper
    rw [Std.LawfulEqCmp.compare_eq_iff_eq, encodeValue_canonicalValue, encodeValue_canonicalValue] at same
    exact (canonicalValue_eq_iff apart (isFirst.current first inFirsts).1 (reports.members other inFacts)).mpr same
  · refine (perm_ext_iff_of_nodup ?_ (nodup_dedup _)).mpr fun value => ?_
    · refine List.Nodup.of_map encodeValue ?_
      rw [map_map]
      have bytes : (encodeValue ∘ fun fact : Fact => canonicalValue fact.value) =
          fun fact => encodeValue fact.value := funext fun fact => encodeValue_canonicalValue fact.value
      rw [bytes]
      exact isFirst.nodup
    rw [mem_dedup]
    constructor
    · intro inLeft
      obtain ⟨first, inFirsts, rfl⟩ := mem_map.mp inLeft
      obtain ⟨fact, inFacts, same⟩ :=
        mem_map.mp ((reports.current _).mpr (isFirst.current first inFirsts).2)
      exact mem_map.mpr ⟨fact, inFacts, congrArg (fun key : WindowKey => key.eav.value) same⟩
    · intro inRight
      obtain ⟨fact, inFacts, rfl⟩ := mem_map.mp inRight
      have inGroup := reports.members fact inFacts
      obtain ⟨first, inFirsts, bytes⟩ :=
        isFirst.every fact inGroup ((reports.current _).mp (mem_map_of_mem inFacts))
      exact mem_map.mpr ⟨first, inFirsts,
        (canonicalValue_eq_iff apart (isFirst.current first inFirsts).1 inGroup).mpr bytes⟩

include apart one in
theorem finishEntityAttribute_first (reduced : ReducesAll group values)
    (reports : Reports validTime group facts) :
    ∃ items, finishEntityAttribute validTime false values = .ok items ∧
      items.map (fun item => canonicalValue item.1) =
        (facts.map fun fact => canonicalValue fact.value).dedup := by
  refine ⟨_, finishEntityAttribute_eq reduced false fun _ => mem_rows_of_output, ?_⟩
  rw [map_map]
  exact (firsts_output apart one reduced).values_eq apart reports

theorem reports_currentIntervals {log : FactLog} (split : log.records.Perm records) :
    Reports validTime (((entityAttributeRange entity attr).entries log).filter (entryVisibleAsOf asOf))
      (currentIntervals asOf validTime entity attr records) := by
  have perm := perm_insertionSort (fun a b : Fact => (a.windowKey.compare b.windowKey).isLE)
    (currentFacts asOf validTime (fun fact => fact.entity == entity && fact.attr == attr) records)
  have keys := perm.map windowKey
  refine ⟨fun fact member => ?_, keys.nodup_iff.mpr (nodup_map_currentFacts _), fun key => ?_, ?_⟩
  · obtain ⟨net, selected⟩ := mem_filter.mp (perm.mem_iff.mp member)
    obtain ⟨known, visible⟩ := mem_filter.mp (mem_of_mem_filter ((netAssertedFacts_sublist _).mem net))
    rw [Bool.and_eq_true, Bool.and_eq_true, beq_iff_eq, beq_iff_eq] at selected
    rw [mem_filter, ((entityAttributeRange entity attr).entries_perm log).mem_iff, mem_filter, split.mem_iff]
    exact ⟨⟨known, inEntityAttribute_iff.mpr selected.1⟩, visible⟩
  · rw [current_entries split (fun eav => eav.entity = entity ∧ eav.attr = attr)
      fun _ => inEntityAttribute_iff]
    refine keys.mem_iff.trans (mem_map_currentFacts (fun eav => eav.entity = entity ∧ eav.attr = attr)
      fun fact => ?_)
    rw [Bool.and_eq_true, beq_iff_eq, beq_iff_eq]
    rfl
  · exact pairwise_insertionSort_isLE _

theorem ReducesBy.foldl {κ : Type} [DecidableEq κ] [BEq κ] [LawfulBEq κ] {sort : Fact → κ}
    {group : List Fact} {states : AList fun _ : κ => CurrentValueState} (before : ReducesBy sort group states)
    (facts : List Fact) :
    ReducesBy sort (group ++ facts) (facts.foldl (fun states fact =>
      states.insert (sort fact) (reduceCurrentState ((states.lookup (sort fact)).getD {}) fact)) states) := by
  induction facts generalizing group states with
  | nil => simpa using before
  | cons fact facts ih =>
    rw [append_cons]
    exact ih (before.step fact)

def EncodingsApart (entity : EntityId) (attr : String) (records : List Fact) : Prop :=
  ∀ a ∈ records, ∀ b ∈ records, a.entity = entity → a.attr = attr → b.entity = entity → b.attr = attr →
    encodeValue a.value = encodeValue b.value → canonicalValue a.value = canonicalValue b.value

theorem visitEntityAttribute_eq {log : FactLog} (split : log.records.Perm records)
    (distinct : DistinctRecords records)
    (few : (log.pending.filter (inEntityAttribute entity attr)).length ≤ currentEntitiesMaxHistoryEntries)
    {budgets : List Nat} (positive : ∀ budget ∈ budgets, 0 < budget) (eachWindow : Bool) :
    (∃ values, visitEntityAttribute asOf validTime eachWindow log entity attr budgets =
        (do return some (← finishEntityAttribute validTime eachWindow values)) ∧
      ReducesAll (((entityAttributeRange entity attr).entries log).filter (entryVisibleAsOf asOf)) values) ∨
      visitEntityAttribute asOf validTime eachWindow log entity attr budgets = .ok none ∧
        budgets.length ≤ (records.filter (inEntityAttribute entity attr)).length := by
  rw [← (split.filter _).length_eq]
  refine ((entityAttributeRange entity attr).visit_eq (separates_entityAttributeRange entity attr)
    (distinct.perm split.symm) few positive _ _ _).imp (fun run => ⟨_, run, ?_⟩) id
  rw [← foldl_filter]
  exact ReducesBy.foldl ReducesBy.empty _

end EntityAttribute

section References

variable {asOf validTime} {attr : String} {target : EntityId} {group records : List Fact}
  {sources : CurrentSources}

variable {source : EntityId}

theorem rows_insert (encoded : Bytes) (state : CurrentValueState) :
    CurrentAttributeValues.rows validTime (AList.insert encoded state ∅) = state.windows validTime encoded := by
  rw [AList.insert_empty]
  simp [CurrentAttributeValues.rows, CurrentValueState.windows]

theorem reducesAll_insert {value : Value} (alike : ∀ fact ∈ group, fact.value = value)
    (reduced : Reduces group state) : ReducesAll group (AList.insert (encodeValue value) state ∅) := by
  intro encoded
  rw [CurrentAttributeValues.state, AList.lookup_insert_ite]
  split
  · rename_i same
    have all : group.filter (fun fact => encodeValue fact.value == encoded) = group :=
      filter_eq_self.mpr fun fact member => by simp [alike fact member, same]
    rw [all]
    exact reduced
  · rename_i different
    have none : group.filter (fun fact => encodeValue fact.value == encoded) = [] :=
      filter_eq_nil_iff.mpr fun fact member => by simp [alike fact member, Ne.symm different]
    rw [none]
    exact Reduces.empty

theorem mem_finishReferences_iff (encoded : Bytes) : source ∈ finishReferences validTime sources ↔
      ((sources.lookup source).getD {}).windows validTime encoded ≠ [] := by
  have windows : ∀ state : CurrentValueState, (state.assertions.entries.any fun entry =>
      state.stands entry.1 entry.2 && validTime.admits entry.1.1 entry.1.2) = true ↔
        state.windows validTime encoded ≠ [] := by
    intro state
    rw [CurrentValueState.windows, Ne, map_eq_nil_iff, filter_eq_nil_iff, any_eq_true]
    simp
  rw [finishReferences, (perm_insertionSort _ _).mem_iff, mem_map]
  constructor
  · rintro ⟨⟨_, state⟩, member, rfl⟩
    obtain ⟨inSources, standing⟩ := mem_filter.mp member
    rw [Option.mem_def.mp (AList.mem_lookup_iff.mpr inSources)]
    exact (windows state).mp standing
  · intro standing
    cases found : sources.lookup source with
    | none =>
      rw [found] at standing
      exact absurd rfl standing
    | some state =>
      rw [found] at standing
      exact ⟨⟨source, state⟩, mem_filter.mpr ⟨AList.mem_lookup_iff.mp found, (windows state).mpr standing⟩,
        rfl⟩

theorem mem_finishReferences (alike : ∀ fact ∈ group, fact.value = .ref target ∧ fact.attr = attr)
    (reduced : ReducesBy Fact.entity group sources) :
    source ∈ finishReferences validTime sources ↔
      ∃ key, Current validTime group key ∧ key.eav.entity = source := by
  have mine : ∀ key, Current validTime (group.filter fun fact => fact.entity == source) key ↔
      Current validTime group key ∧ key.eav.entity = source := by
    intro key
    have own := @NetAsserted.filter group key (fun fact => fact.entity == source)
      (fun eav => eav.entity = source) fun fact => beq_iff_eq
    rw [Current, Current, own]
    tauto
  have subset : (group.filter fun fact => fact.entity == source) ⊆ group := filter_subset_self group
  have apart : TellsApart attr (group.filter fun fact => fact.entity == source) :=
    ⟨fun fact member => (alike fact (subset member)).2,
      fun a inA b inB _ => by rw [(alike a (subset inA)).1, (alike b (subset inB)).1]⟩
  have one : ∀ fact ∈ group.filter (fun fact => fact.entity == source), fact.entity = source :=
    fun fact member => beq_iff_eq.mp (mem_filter.mp member).2
  have all := reducesAll_insert (fun fact member => (alike fact (subset member)).1) (reduced source)
  rw [mem_finishReferences_iff (encodeValue (.ref target)), ← rows_insert]
  constructor
  · intro some
    obtain ⟨row, member⟩ := exists_mem_of_ne_nil _ some
    exact ⟨_, (mine _).mp ((mem_map_rows apart one all).mp (mem_map_of_mem member))⟩
  · rintro ⟨key, current⟩
    have present := (mem_map_rows apart one all).mpr ((mine key).mpr current)
    intro none
    rw [none] at present
    cases present

theorem canonicalValue_eq_ref {value : Value} : canonicalValue value = .ref target ↔ value = .ref target := by
  cases value with
  | float f =>
    rw [canonicalValue]
    split <;> simp
  | _ => rfl

theorem nodup_finishReferences : (finishReferences validTime sources).Nodup := by
  rw [finishReferences, (perm_insertionSort _ _).nodup_iff]
  exact (filter_sublist.map _).nodup sources.keys_nodup

theorem mem_currentSources : source ∈ currentSources asOf validTime attr target records ↔
      ∃ key, (Current validTime (records.filter (entryVisibleAsOf asOf)) key ∧ key.eav.attr = attr ∧
        key.eav.value = .ref target) ∧ key.eav.entity = source := by
  have keys : ∀ key : WindowKey, key ∈ (currentFacts asOf validTime
      (fun fact => fact.attr == attr && fact.value == .ref target) records).map windowKey ↔ _ :=
    fun key => mem_map_currentFacts (fun eav => eav.attr = attr ∧ eav.value = .ref target) fun fact => by
      rw [Bool.and_eq_true, beq_iff_eq, beq_iff_eq, ← canonicalValue_eq_ref]
      rfl
  simp only [← keys]
  rw [currentSources, (perm_insertionSort _ _).mem_iff, mem_dedup]
  constructor
  · intro member
    obtain ⟨fact, inFacts, rfl⟩ := mem_map.mp member
    exact ⟨fact.windowKey, mem_map_of_mem inFacts, rfl⟩
  · rintro ⟨_, member, rfl⟩
    obtain ⟨fact, inFacts, rfl⟩ := mem_map.mp member
    exact mem_map_of_mem inFacts

theorem finishReferences_eq {log : FactLog} (split : log.records.Perm records)
    (reduced : ReducesBy Fact.entity
      (((referencesRange attr target).entries log).filter (entryVisibleAsOf asOf)) sources) :
    finishReferences validTime sources = currentSources asOf validTime attr target records := by
  have alike : ∀ fact ∈ ((referencesRange attr target).entries log).filter (entryVisibleAsOf asOf),
      fact.value = .ref target ∧ fact.attr = attr := fun fact member => inReferences_iff.mp
    (mem_filter.mp (((referencesRange attr target).entries_perm log).mem_iff.mp
      (mem_of_mem_filter member))).2
  refine List.Perm.eq_of_pairwise (fun a b _ _ => BitVec.le_antisymm) (pairwise_insertionSort _ _)
    (pairwise_insertionSort _ _) ((perm_ext_iff_of_nodup nodup_finishReferences ?_).mpr fun source => ?_)
  · exact (perm_insertionSort _ _).nodup_iff.mpr (nodup_dedup _)
  rw [mem_finishReferences alike reduced, mem_currentSources]
  refine exists_congr fun key => and_congr_left fun _ => ?_
  refine current_entries split (fun eav => eav.attr = attr ∧ eav.value = .ref target) fun fact => ?_
  refine inReferences_iff.trans ?_
  rw [← canonicalValue_eq_ref, and_comm]
  rfl

theorem visitReferences_eq {log : FactLog} (split : log.records.Perm records)
    (distinct : DistinctRecords records)
    (few : (log.pending.filter (inReferences attr target)).length ≤ currentRefsMaxHistoryEntries)
    {budgets : List Nat} (positive : ∀ budget ∈ budgets, 0 < budget) :
    visitReferences asOf validTime log attr target budgets =
        .ok (some (currentSources asOf validTime attr target records)) ∨
      visitReferences asOf validTime log attr target budgets = .ok none ∧
        budgets.length ≤ (records.filter (inReferences attr target)).length := by
  rw [← (split.filter _).length_eq]
  refine ((referencesRange attr target).visit_eq (separates_referencesRange attr target)
    (distinct.perm split.symm) few positive _ _ _).imp (fun run => run.trans ?_) id
  have reduced : ReducesBy Fact.entity
      (((referencesRange attr target).entries log).filter (entryVisibleAsOf asOf))
      ((((referencesRange attr target).entries log).filter (entryVisibleAsOf asOf)).foldl
        CurrentSources.reduce ∅) := ReducesBy.foldl ReducesBy.empty _
  rw [← foldl_filter, finishReferences_eq split reduced]
  rfl

end References

section Runs

variable {asOf validTime} {entity target : EntityId} {attr : String} {records : List Fact}

def RunGives {τ : Type} (run : Except String (Option τ)) (result : τ) (budgets : List Nat)
    (entries : Nat) : Prop :=
  run = .ok (some result) ∨ run = .ok none ∧ budgets.length ≤ entries

def canonicalItems (run : Except String (Option (List (Value × Window)))) :
    Except String (Option (List (Value × Window))) :=
  run.map (Option.map (List.map fun item => (canonicalValue item.1, item.2)))

def canonicalValues (run : Except String (Option (List (Value × Window)))) :
    Except String (Option (List Value)) :=
  run.map (Option.map (List.map fun item => canonicalValue item.1))

theorem tellsApart_entries {log : FactLog} (split : log.records.Perm records)
    (apart : EncodingsApart entity attr (records.filter (entryVisibleAsOf asOf))) :
    TellsApart attr (((entityAttributeRange entity attr).entries log).filter (entryVisibleAsOf asOf)) ∧
      ∀ fact ∈ ((entityAttributeRange entity attr).entries log).filter (entryVisibleAsOf asOf),
        fact.entity = entity := by
  have known : ∀ fact ∈ ((entityAttributeRange entity attr).entries log).filter (entryVisibleAsOf asOf),
      fact ∈ records.filter (entryVisibleAsOf asOf) ∧ fact.entity = entity ∧ fact.attr = attr := by
    intro fact member
    obtain ⟨entry, visible⟩ := mem_filter.mp member
    obtain ⟨inRecords, inRange⟩ := mem_filter.mp
      (((entityAttributeRange entity attr).entries_perm log).mem_iff.mp entry)
    exact ⟨mem_filter.mpr ⟨split.mem_iff.mp inRecords, visible⟩, inEntityAttribute_iff.mp inRange⟩
  refine ⟨⟨fun fact member => (known fact member).2.2, fun a inA b inB => ?_⟩,
    fun fact member => (known fact member).2.1⟩
  obtain ⟨recordA, entityA, attrA⟩ := known a inA
  obtain ⟨recordB, entityB, attrB⟩ := known b inB
  exact apart a recordA b recordB entityA attrA entityB attrB

/-- However the records are split and whatever the budgets, the exact cursors report the
    net-asserted facts, unless two of the visible records share the encoding of their values. -/
theorem exactCursors_report_current {log : FactLog} (split : log.records.Perm records)
    (distinct : DistinctRecords records) {budgets : List Nat} (positive : ∀ budget ∈ budgets, 0 < budget)
    (fewValues : (log.pending.filter (inEntityAttribute entity attr)).length ≤
      currentEntitiesMaxHistoryEntries)
    (fewSources : (log.pending.filter (inReferences attr target)).length ≤ currentRefsMaxHistoryEntries)
    (apart : EncodingsApart entity attr (records.filter (entryVisibleAsOf asOf))) :
    RunGives (canonicalItems (visitEntityAttribute asOf validTime true log entity attr budgets))
        ((currentIntervals asOf validTime entity attr records).map fun fact =>
          (canonicalValue fact.value, fact.window))
        budgets (records.filter (inEntityAttribute entity attr)).length ∧
      RunGives (canonicalValues (visitEntityAttribute asOf validTime false log entity attr budgets))
        ((currentIntervals asOf validTime entity attr records).map fun fact =>
          canonicalValue fact.value).dedup
        budgets (records.filter (inEntityAttribute entity attr)).length ∧
      RunGives (visitReferences asOf validTime log attr target budgets)
        (currentSources asOf validTime attr target records)
        budgets (records.filter (inReferences attr target)).length := by
  obtain ⟨tells, one⟩ := @tellsApart_entries asOf _ _ _ _ split apart
  have reports : Reports validTime _ _ := @reports_currentIntervals asOf _ entity attr _ _ split
  refine ⟨?_, ?_, visitReferences_eq split distinct fewSources positive⟩
  · rcases visitEntityAttribute_eq split distinct fewValues positive true with ⟨values, run, reduced⟩ | short
    · obtain ⟨items, finished, same⟩ := finishEntityAttribute_each tells one reduced reports
      rw [run, finished, RunGives, ← same]
      exact .inl rfl
    · rw [short.1]
      exact .inr ⟨rfl, short.2⟩
  · rcases visitEntityAttribute_eq split distinct fewValues positive false with ⟨values, run, reduced⟩ | short
    · obtain ⟨items, finished, same⟩ := finishEntityAttribute_first tells one reduced reports
      rw [run, finished, RunGives, ← same]
      exact .inl rfl
    · rw [short.1]
      exact .inr ⟨rfl, short.2⟩

end Runs

section Example

def nanFact : Fact := ⟨1, ":v", .float ⟨0x7FF8000000000000⟩, 1, 1, 0, 10, true⟩

def subnormalFact : Fact := ⟨1, ":v", .float ⟨0x8007FFFFFFFFFFFF⟩, 2, 2, 0, 10, true⟩

theorem nanAndSubnormal_read_as_one : DistinctRecords [nanFact, subnormalFact] ∧
    visitEntityAttribute none .any true ⟨[nanFact], [subnormalFact]⟩ 1 ":v" [1, 1, 1] =
      .ok (some [(subnormalFact.value, (0, 10))]) ∧
    (currentIntervals none .any 1 ":v" [nanFact, subnormalFact]).map Fact.value =
      [nanFact.value, subnormalFact.value] := by
  refine ⟨?_, by decide +kernel, by decide +kernel⟩
  unfold DistinctRecords
  decide +kernel

def linkFact : Fact := ⟨2, ":friend", .ref 1, 1, 1, 0, 10, true⟩

def relinkFact : Fact := ⟨2, ":friend", .ref 1, 2, 2, 10, 20, true⟩

theorem exactCursors_report_current_link :
    RunGives (canonicalItems (visitEntityAttribute none .any true ⟨[linkFact], [relinkFact]⟩ 2 ":friend" [1, 2, 1]))
        [(.ref 1, (0, 10)), (.ref 1, (10, 20))] [1, 2, 1] 2 ∧
      RunGives (canonicalValues (visitEntityAttribute none .any false ⟨[linkFact], [relinkFact]⟩ 2 ":friend"
        [1, 2, 1])) [.ref 1] [1, 2, 1] 2 ∧
      RunGives (visitReferences none .any ⟨[linkFact], [relinkFact]⟩ ":friend" 1 [1, 2, 1]) [2] [1, 2, 1] 2 :=
  @exactCursors_report_current none .any 2 1 ":friend" [linkFact, relinkFact] ⟨[linkFact], [relinkFact]⟩
    (List.Perm.refl _) (by unfold DistinctRecords; decide +kernel) [1, 2, 1] (by decide) (by decide +kernel)
    (by decide +kernel) (by unfold EncodingsApart; decide +kernel)

end Example

end ViciaDb
