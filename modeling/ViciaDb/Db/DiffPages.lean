import ViciaDb.Db.DiffRows

namespace ViciaDb

open ValidTimeDiffScan List
open CurrentAttributeValues (reduce)

section Groups

variable {beforeAt afterAt : Int64}

theorem foldl_noteInterval_same (entity : EntityId) (items : List (Value × Window))
    (group : ValidTimeDiffGroup) (completed : List (EntityId × ValidTimeDiffGroup)) :
    (items.map fun item => (entity, item)).foldl (noteInterval beforeAt afterAt)
        (some (entity, group), completed) =
      (some (entity, items.foldl (ValidTimeDiffGroup.noteWindow beforeAt afterAt) group), completed) := by
  induction items generalizing group with
  | nil => rfl
  | cons item items ih =>
    rw [map_cons, foldl_cons, foldl_cons, ← ih, noteInterval]
    simp

theorem foldl_noteInterval_block {block : Block} (any : block.2 ≠ [])
    {current : Option (EntityId × ValidTimeDiffGroup)} (other : ∀ group ∈ current, group.1 ≠ block.1)
    (completed : List (EntityId × ValidTimeDiffGroup)) :
    block.visits.foldl (noteInterval beforeAt afterAt) (current, completed) =
      (some (block.group beforeAt afterAt), completed ++ current.toList) := by
  obtain ⟨entity, items⟩ := block
  cases items with
  | nil => exact absurd rfl any
  | cons item items =>
    have opened : noteInterval beforeAt afterAt (current, completed) (entity, item) =
        (some (entity, ValidTimeDiffGroup.noteWindow beforeAt afterAt ∅ item), completed ++ current.toList) := by
      cases current with
      | none => simp [noteInterval]
      | some group =>
        have different : group.1 ≠ entity := other group rfl
        simp [noteInterval, different]
    change (((item :: items).map fun item => (entity, item)).foldl _ _) = _
    rw [map_cons, foldl_cons, opened, foldl_noteInterval_same]
    rfl

theorem foldl_noteInterval {blocks : List Block} (any : ∀ block ∈ blocks, block.2 ≠ [])
    {current : Option (EntityId × ValidTimeDiffGroup)}
    (apart : (current.toList.map Prod.fst ++ blocks.map Prod.fst).Pairwise (· < ·))
    (completed : List (EntityId × ValidTimeDiffGroup)) :
    (blocks.flatMap Block.visits).foldl (noteInterval beforeAt afterAt) (current, completed) =
      ((current.toList ++ blocks.map (Block.group beforeAt afterAt)).getLast?,
        completed ++ (current.toList ++ blocks.map (Block.group beforeAt afterAt)).dropLast) := by
  induction blocks generalizing current completed with
  | nil => cases current <;> simp
  | cons block blocks ih =>
    obtain ⟨here, any⟩ := forall_mem_cons.mp any
    obtain ⟨-, rest, between⟩ := pairwise_append.mp apart
    have other : ∀ group ∈ current, group.1 ≠ block.1 := by
      rintro group isCurrent same
      have less := between group.1 (mem_map_of_mem (Option.mem_toList.mpr isCurrent)) block.1
        (mem_map_of_mem mem_cons_self)
      rw [same] at less
      exact BitVec.lt_irrefl _ less
    rw [flatMap_cons, foldl_append, foldl_noteInterval_block here other,
      @ih any (some (block.group beforeAt afterAt)) rest]
    rw [map_cons, List.getLast?_append_of_ne_nil _ (cons_ne_nil _ _),
      dropLast_append_of_ne_nil (cons_ne_nil _ _), append_assoc]
    rfl

structure Drained (attr : String) (front groups : List (EntityId × ValidTimeDiffGroup))
    (result : List ValidTimeDiffRow × Option EntityId × Bool)
    (mid rest : List (EntityId × ValidTimeDiffGroup)) : Prop where
  split : groups = mid ++ rest
  rows : result.1 = (front ++ mid).flatMap (groupRows attr)
  last : result.2.1 = (front ++ mid).getLast?.map Prod.fst
  all : result.2.2 = false → rest = []
  full : result.2.2 = true → front ++ mid ≠ []

theorem drainGroups_spec (limit : Nat) (attr : String) (front groups : List (EntityId × ValidTimeDiffGroup)) :
    (∃ result mid rest, drainGroups limit attr groups (front.flatMap (groupRows attr))
        (front.getLast?.map Prod.fst) = .ok result ∧ Drained attr front groups result mid rest) ∨
      drainGroups limit attr groups (front.flatMap (groupRows attr)) (front.getLast?.map Prod.fst) =
        .error (groupExceeded limit) := by
  induction groups generalizing front with
  | nil => exact .inl ⟨_, [], [], rfl, rfl, by simp, by simp, fun _ => rfl, nofun⟩
  | cons group groups ih =>
    obtain ⟨entity, group⟩ := group
    simp only [drainGroups]
    split
    · cases last : front.getLast? with
      | none => exact .inr rfl
      | some known =>
        refine .inl ⟨_, [], (entity, group) :: groups, rfl, rfl, by simp, by simp [last], nofun, fun _ => ?_⟩
        rintro empty
        rw [append_nil] at empty
        rw [empty] at last
        cases last
    · have rows : front.flatMap (groupRows attr) ++ group.intoRows entity attr =
          (front ++ [(entity, group)]).flatMap (groupRows attr) := by simp [groupRows]
      have last : some entity = (front ++ [(entity, group)]).getLast?.map Prod.fst := by simp
      rw [rows, last]
      rcases ih (front ++ [(entity, group)]) with ⟨result, mid, rest, drained, spec⟩ | failed
      · refine .inl ⟨result, (entity, group) :: mid, rest, drained, ?_, ?_, ?_, spec.all, ?_⟩
        · rw [spec.split, cons_append]
        · rw [spec.rows, append_assoc, singleton_append]
        · rw [spec.last, append_assoc, singleton_append]
        · intro _
          exact append_ne_nil_of_right_ne_nil _ (cons_ne_nil _ _)
      · exact .inr failed

end Groups

inductive IsDiffLimit (limit : Nat) : String → Prop
  | sourceWork : IsDiffLimit limit ValidTimeDiffScan.sourceWorkExceeded
  | group : IsDiffLimit limit (groupExceeded limit)
  | pending : IsDiffLimit limit (historyWorkExceeded "current_entities" currentEntitiesMaxHistoryEntries)
  | bytes : IsDiffLimit limit diffResultExceeded

structure PageEnds (scan : ValidTimeDiffScan) (groups : List (EntityId × ValidTimeDiffGroup))
    (position : List (EntityId × ValidTimeDiffGroup) → Option ValidTimeDiffCursorScope)
    (ended : ValidTimeDiffScan) (front : List (EntityId × ValidTimeDiffGroup)) : Prop where
  part : front <+: groups
  rows : ended.rows = front.flatMap (groupRows scan.attr)
  ends : ended.next = none → front = groups
  goesOn : ended.next ≠ none → front ≠ [] ∧ ended.next = (position front).map scan.cursorAt

abbrev ValidTimeDiffScan.reached (scan : ValidTimeDiffScan) (rows : List ValidTimeDiffRow) (entries : Nat)
    (state : ValidTimeDiffScanState) : ValidTimeDiffScan :=
  { scan with rows := rows, sourceEntries := entries, state := state }

theorem PageEnds.of_reached {scan ended : ValidTimeDiffScan} {rows : List ValidTimeDiffRow} {entries : Nat}
    {state : ValidTimeDiffScanState} {groups front : List (EntityId × ValidTimeDiffGroup)}
    {position : List (EntityId × ValidTimeDiffGroup) → Option ValidTimeDiffCursorScope}
    (ends : PageEnds (scan.reached rows entries state) groups position ended front) :
    PageEnds scan groups position ended front :=
  ⟨ends.part, ends.rows, ends.ends, ends.goesOn⟩

inductive PageResult (scan : ValidTimeDiffScan) (groups : List (EntityId × ValidTimeDiffGroup))
    (position : List (EntityId × ValidTimeDiffGroup) → Option ValidTimeDiffCursorScope) :
    Except String ValidTimeDiffScan → Prop
  | rejected {message : String} (limit : IsDiffLimit scan.limit message) :
      PageResult scan groups position (.error message)
  | closed {ended : ValidTimeDiffScan} {front : List (EntityId × ValidTimeDiffGroup)}
      (ends : PageEnds scan groups position ended front) : PageResult scan groups position (.ok ended)

section AttributePage

variable {log : FactLog} {scan : ValidTimeDiffScan} {start : EntityId} {active : AttributeScan}
  {current : Option (EntityId × ValidTimeDiffGroup)} {front : List (EntityId × ValidTimeDiffGroup)}
  {done : List Fact}

def blocksAt (asOf : Option AsOf) (attr : String) (start : EntityId) (log : FactLog) : List Block :=
  blocksFrom .any {} ((scanEntries log attr start).filter (entryVisibleAsOf asOf))

def blocksBy (asOf : Option AsOf) (done : List Fact) : List Block :=
  ((done.filter (entryVisibleAsOf asOf)).foldl (acceptBlock .any) ({}, [])).2

def ValidTimeDiffScan.groups (scan : ValidTimeDiffScan) (blocks : List Block) :
    List (EntityId × ValidTimeDiffGroup) :=
  blocks.map (Block.group scan.beforeAt scan.afterAt)

def attributePosition (groups : List (EntityId × ValidTimeDiffGroup)) : Option ValidTimeDiffCursorScope :=
  groups.getLast?.map fun group => .attribute group.1

structure AttributeRun (log : FactLog) (start : EntityId) (scan : ValidTimeDiffScan) (active : AttributeScan)
    (current : Option (EntityId × ValidTimeDiffGroup)) (front : List (EntityId × ValidTimeDiffGroup))
    (done : List Fact) : Prop where
  run : ScanRun scan.asOf .any log scan.attr start active done
  groups : scan.groups (blocksBy scan.asOf done) = front ++ current.toList
  rows : scan.rows = front.flatMap (groupRows scan.attr)
  entries : scan.sourceEntries = done.length

def attributeState (active : AttributeScan) (current : Option (EntityId × ValidTimeDiffGroup))
    (front : List (EntityId × ValidTimeDiffGroup)) : ValidTimeDiffScanState :=
  .attribute (some active) none current [] (front.getLast?.map Prod.fst)

inductive AttributeStepped (log : FactLog) (start : EntityId) (scan : ValidTimeDiffScan) (done : List Fact) :
    Except String (ValidTimeDiffScan × Bool) → Prop
  | rejected {message : String} (limit : IsDiffLimit scan.limit message) :
      AttributeStepped log start scan done (.error message)
  | closed {ended : ValidTimeDiffScan} {front : List (EntityId × ValidTimeDiffGroup)}
      (ends : PageEnds scan (scan.groups (blocksAt scan.asOf scan.attr start log)) attributePosition ended
        front) : AttributeStepped log start scan done (.ok (ended, true))
  | yielded {rows : List ValidTimeDiffRow} {entries : Nat} {active : AttributeScan}
      {current : Option (EntityId × ValidTimeDiffGroup)} {front : List (EntityId × ValidTimeDiffGroup)}
      {done' : List Fact}
      (run : AttributeRun log start (scan.reached rows entries (attributeState active current front)) active current
        front done')
      (more : done.length < done'.length) (within : done'.length ≤ validTimeDiffMaxSourceEntries) :
      AttributeStepped log start scan done
        (.ok (scan.reached rows entries (attributeState active current front), false))

section

variable (run : ScanRun scan.asOf .any log scan.attr start active done)
include run

theorem blocksAt_split {rest : List Fact} (passed : scanEntries log scan.attr start = done ++ rest) :
    blocksAt scan.asOf scan.attr start log = blocksBy scan.asOf done ++
      blocksFrom .any active.group (rest.filter (entryVisibleAsOf scan.asOf)) := by
  rw [blocksAt, passed, filter_append, blocksFrom_append, blocksBy, run.group]

theorem blocksBy_append (taken : List Fact) :
    blocksBy scan.asOf (done ++ taken) = blocksBy scan.asOf done ++
      ((taken.filter (entryVisibleAsOf scan.asOf)).foldl (acceptBlock .any) (active.group, [])).2 := by
  rw [blocksBy, filter_append, foldl_append, foldl_acceptBlock, run.group]
  rfl

theorem blocksBy_sublist :
    (blocksBy scan.asOf done).Sublist (blocksAt scan.asOf scan.attr start log) := by
  rw [blocksAt_split run run.progress.passed]
  exact sublist_append_left _ _

end

theorem sorted_scanEntries : ((scanEntries log scan.attr start).filter (entryVisibleAsOf scan.asOf)).Pairwise
    fun a b => a.entity ≤ b.entity :=
  ((pairwise_attributeHistory _).sublist filter_sublist).sublist filter_sublist

theorem closes_full {groups front : List (EntityId × ValidTimeDiffGroup)} {rows : List ValidTimeDiffRow}
    {last : Option EntityId} {entries : Nat} (part : front <+: groups)
    (isRows : rows = front.flatMap (groupRows scan.attr)) (isLast : last = front.getLast?.map Prod.fst)
    (any : front ≠ []) :
    PageEnds scan groups attributePosition
      (ValidTimeDiffScan.close { scan with rows := rows, sourceEntries := entries } (last.map .attribute))
      front := by
  have next : last.map .attribute = attributePosition front := by
    rw [attributePosition, isLast, Option.map_map]
    rfl
  refine ⟨part, isRows, fun none => ?_, fun _ => ⟨any, ?_⟩⟩
  · rw [next, attributePosition, List.getLast?_eq_some_getLast any] at none
    cases none
  · rw [next]
    rfl

theorem groups_append (scan : ValidTimeDiffScan) (xs ys : List Block) :
    scan.groups (xs ++ ys) = scan.groups xs ++ scan.groups ys := map_append

theorem groups_isPart (run : ScanRun scan.asOf .any log scan.attr start active done) :
    scan.groups (blocksBy scan.asOf done) <+: scan.groups (blocksAt scan.asOf scan.attr start log) := by
  rw [blocksAt_split run run.progress.passed, groups_append]
  exact prefix_append _ _

theorem dropLast_append_toList {α : Type} (items : List α) : items.dropLast ++ items.getLast?.toList = items := by
  rcases eq_nil_or_concat items with rfl | ⟨front, last, rfl⟩
  · rfl
  · simp

theorem noteInterval_blocks {fresh : List Block} (completed : List (EntityId × ValidTimeDiffGroup))
    (groups : scan.groups (blocksBy scan.asOf done) = front ++ current.toList)
    (part : (blocksBy scan.asOf done ++ fresh).Sublist (blocksAt scan.asOf scan.attr start log)) :
    (fresh.flatMap Block.visits).foldl (noteInterval scan.beforeAt scan.afterAt) (current, completed) =
      ((current.toList ++ scan.groups fresh).getLast?,
        completed ++ (current.toList ++ scan.groups fresh).dropLast) := by
  have any : ∀ block ∈ fresh, block.2 ≠ [] := fun block member =>
    blocks_nonempty sorted_scanEntries block (part.mem (mem_append_right _ member))
  have ascending := (pairwise_map.mpr ((blocks_ascending sorted_scanEntries).sublist part) :
    ((blocksBy scan.asOf done ++ fresh).map Prod.fst).Pairwise (· < ·))
  have entities : (blocksBy scan.asOf done).map Prod.fst = (front ++ current.toList).map Prod.fst := by
    rw [← groups, ValidTimeDiffScan.groups, map_map]
    rfl
  rw [map_append, entities, map_append, append_assoc] at ascending
  rw [foldl_noteInterval any (pairwise_append.mp ascending).2.1]
  rfl

theorem stepActiveAttribute_spec (alone : OwnsRange scan.attr log.records)
    (distinct : DistinctRecords log.records) (state : AttributeRun log start scan active current front done) :
    AttributeStepped log start scan done
      (stepActiveAttribute log scan active current [] (front.getLast?.map Prod.fst)) := by
  unfold stepActiveAttribute
  by_cases used : validTimeDiffMaxSourceEntries - scan.sourceEntries = 0
  · rw [if_pos used]
    cases last : front.getLast? with
    | none => exact .rejected .sourceWork
    | some group =>
      have any : front ≠ [] := by
        rintro rfl
        cases last
      have part : front <+: front ++ current.toList := prefix_append _ _
      rw [← state.groups] at part
      refine .closed (@closes_full scan _ front _ (some group.1) scan.sourceEntries
        (part.trans (groups_isPart state.run)) state.rows ?_ any)
      rw [last]
      rfl
  · rw [if_neg used]
    obtain ⟨⟨active', visits, entries, complete⟩, taken, stepped, spec⟩ := stepInterval_spec state.run alone
      distinct (min validTimeDiffStepEntries (validTimeDiffMaxSourceEntries - scan.sourceEntries))
    obtain ⟨rfl, bounded, completes, yields⟩ := spec
    rw [stepped, state.rows]
    simp only [bind, Except.bind]
    cases complete with
    | true =>
      obtain ⟨passed, isVisits⟩ := completes rfl
      dsimp only at isVisits
      have all := blocksAt_split state.run passed
      have groups := congrArg scan.groups all
      rw [groups_append, state.groups, append_assoc] at groups
      rw [isVisits, noteInterval_blocks [] state.groups (by rw [← all])]
      rw [nil_append]
      rw [if_pos rfl, dropLast_append_toList]
      generalize current.toList ++
        scan.groups (blocksFrom .any active.group (taken.filter (entryVisibleAsOf scan.asOf))) = left at groups
      rcases drainGroups_spec scan.limit scan.attr front left with
        ⟨⟨rows, last, full⟩, mid, rest, drained, split, isRows, isLast, all, any⟩ | failed
      · rw [drained]
        rw [split, ← append_assoc] at groups
        cases full with
        | true => exact .closed (closes_full ⟨rest, groups.symm⟩ isRows isLast (any rfl))
        | false =>
          rw [all rfl, append_nil] at groups
          exact .closed ⟨groups ▸ prefix_refl _, isRows, fun _ => groups.symm, fun some => absurd rfl some⟩
      · rw [failed]
        exact .rejected .group
    | false =>
      obtain ⟨filled, run, isVisits⟩ := yields rfl
      dsimp only at isVisits run
      have joined := blocksBy_append state.run taken
      have groups := congrArg scan.groups joined
      rw [groups_append, state.groups, append_assoc] at groups
      rw [isVisits, noteInterval_blocks [] state.groups (joined ▸ blocksBy_sublist run)]
      rw [nil_append]
      rw [if_neg (by decide)]
      generalize current.toList ++ scan.groups
        ((taken.filter (entryVisibleAsOf scan.asOf)).foldl (acceptBlock .any) (active.group, [])).2 = left at groups
      rcases drainGroups_spec scan.limit scan.attr front left.dropLast with
        ⟨⟨rows, last, full⟩, mid, rest, drained, split, isRows, isLast, all, any⟩ | failed
      swap
      · rw [failed]
        exact .rejected .group
      rw [drained]
      dsimp only at isRows isLast all any ⊢
      rw [← dropLast_append_toList left, split, ← append_assoc, ← append_assoc] at groups
      cases full with
      | true =>
        have part : front ++ mid <+: scan.groups (blocksBy scan.asOf (done ++ taken)) :=
          ⟨rest ++ left.getLast?.toList, by rw [groups, append_assoc _ rest]⟩
        exact .closed (closes_full (part.trans (groups_isPart run)) isRows isLast (any rfl))
      | false =>
        rw [all rfl, append_nil] at groups
        rw [isLast]
        have spent := state.entries
        refine .yielded ⟨run, groups, isRows, ?_⟩ ?_ ?_
        · rw [length_append, spent]
        · rw [length_append]
          have : 0 < validTimeDiffStepEntries := by decide
          omega
        · rw [length_append]
          omega

theorem run_attribute (alone : OwnsRange scan.attr log.records) (distinct : DistinctRecords log.records)
    (fuel : Nat) {rows : List ValidTimeDiffRow} {entries : Nat}
    (state : AttributeRun log start (scan.reached rows entries (attributeState active current front)) active
      current front done)
    (within : entries ≤ validTimeDiffMaxSourceEntries) (enough : validTimeDiffMaxSourceEntries < entries + fuel) :
    PageResult scan (scan.groups (blocksAt scan.asOf scan.attr start log)) attributePosition
      (run log fuel (scan.reached rows entries (attributeState active current front))) := by
  induction fuel generalizing rows entries active current front done with
  | zero => omega
  | succ fuel ih =>
    have stepped := @stepActiveAttribute_spec log (scan.reached rows entries (attributeState active current front))
      start active current front done alone distinct state
    have unfolded : step log (scan.reached rows entries (attributeState active current front)) =
        stepActiveAttribute log (scan.reached rows entries (attributeState active current front)) active current []
          (front.getLast?.map Prod.fst) := rfl
    have spent : entries = done.length := state.entries
    rw [run, unfolded]
    generalize stepActiveAttribute log (scan.reached rows entries (attributeState active current front)) active
      current [] (front.getLast?.map Prod.fst) = result at stepped
    cases stepped with
    | rejected limit => exact .rejected limit
    | closed ends => exact .closed ends.of_reached
    | yielded run more within' =>
      have spent' := run.entries
      dsimp only at spent'
      exact ih run (by omega) (by omega)

end AttributePage

section EntitySetPage

variable {log : FactLog} {scan : ValidTimeDiffScan} {entity : EntityId} {active : EntityAttributeScan}
  {done : List Fact}

def scopeBlock (asOf : Option AsOf) (attr : String) (log : FactLog) (entity : EntityId) : Block :=
  (entity, groupItems .any (((indexRange compareEavt (inEntityAttribute entity attr) log.records).filter
    (entryVisibleAsOf asOf)).foldl CurrentAttributeValues.reduce ∅))

structure EntityRun (log : FactLog) (scan : ValidTimeDiffScan) (entity : EntityId) (active : EntityAttributeScan)
    (done : List Fact) : Prop where
  progress : MergeCursor.Progress compareEavt
    (indexRange compareEavt (inEntityAttribute entity scan.attr) log.committed)
    (indexRange compareEavt (inEntityAttribute entity scan.attr) log.records) active.cursor done
  values : active.values = (done.filter (entryVisibleAsOf scan.asOf)).foldl CurrentAttributeValues.reduce ∅

variable (distinct : DistinctRecords log.records)

include distinct in
theorem entityRun_start {fresh : MergeCursor.Cursor Fact}
    (made : (entityAttributeRange entity scan.attr).cursor log = .ok fresh) :
    EntityRun log scan entity ⟨fresh, ∅⟩ [] := by
  rw [CursorRange.cursor] at made
  split at made
  · cases made
  cases made
  have whole : indexRange compareEavt (inEntityAttribute entity scan.attr) log.records =
      MergeCursor.merged compareEavt (indexRange compareEavt (inEntityAttribute entity scan.attr) log.committed)
        (indexRange compareEavt (inEntityAttribute entity scan.attr) log.pending) := by
    have merged := @merged_indexRange compareEavt _ _ (separates_entityAttributeRange entity scan.attr) log
      distinct fun _ => true
    simpa only [filter_true] using merged.symm
  refine ⟨?_, rfl⟩
  rw [whole]
  exact .start _ (pairwise_indexRange _ _ _)

theorem cursor_error {message : String} (failed : (entityAttributeRange entity scan.attr).cursor log = .error message) :
    message = historyWorkExceeded "current_entities" currentEntitiesMaxHistoryEntries := by
  rw [CursorRange.cursor] at failed
  split at failed
  · cases failed
    rfl
  · cases failed

structure EntityStepped (log : FactLog) (scan : ValidTimeDiffScan) (entity : EntityId) (maxEntries : Nat)
    (done : List Fact) (result : EntityAttributeScan × List (Value × Window) × Nat × Bool) : Prop where
  bounded : result.2.2.1 ≤ maxEntries
  completes : result.2.2.2 = true → result.2.1 = (scopeBlock scan.asOf scan.attr log entity).2 ∧
    done.length + result.2.2.1 =
      (indexRange compareEavt (inEntityAttribute entity scan.attr) log.records).length
  yields : result.2.2.2 = false → result.2.1 = [] ∧ result.2.2.1 = maxEntries ∧
    ∃ taken, taken.length = maxEntries ∧ EntityRun log scan entity result.1 (done ++ taken)

include distinct in
theorem stepEntityCursor_spec (state : EntityRun log scan entity active done) (maxEntries : Nat) :
    ∃ result, stepEntityCursor log scan entity maxEntries active = .ok result ∧
      EntityStepped log scan entity maxEntries done result := by
  have stepped := state.progress.step (increasing_indexRange (separates_entityAttributeRange entity scan.attr)
    (pairwise_append.mp distinct).1) maxEntries
  rw [stepEntityCursor]
  generalize MergeCursor.step (MergeCursor.budgetRules compareEavt maxEntries)
    (indexRange compareEavt (inEntityAttribute entity scan.attr) log.committed) active.cursor = result at stepped
  obtain ⟨taken, cursor, complete⟩ := result
  have values : taken.foldl (fun values fact =>
      if entryVisibleAsOf scan.asOf fact then reduce values fact else values) active.values =
        ((done ++ taken).filter (entryVisibleAsOf scan.asOf)).foldl reduce ∅ := by
    rw [filter_append, foldl_append, ← state.values, foldl_filter]
  dsimp only
  rw [values]
  cases complete with
  | true =>
    have whole := stepped.completes rfl
    rw [← whole]
    have reduced : ReducesAll _ (((indexRange compareEavt (inEntityAttribute entity scan.attr)
        log.records).filter (entryVisibleAsOf scan.asOf)).foldl reduce ∅) :=
      ReducesBy.foldl ReducesBy.empty _
    refine ⟨(⟨cursor, ∅⟩, (scopeBlock scan.asOf scan.attr log entity).2, taken.length, true), ?_,
      stepped.bounded, fun _ => ⟨rfl, ?_⟩, nofun⟩
    · rw [if_pos rfl, finishEntityAttribute_items reduced]
      rfl
    · rw [whole, length_append]
  | false =>
    obtain ⟨filled, progress⟩ := stepped.yields rfl
    exact ⟨_, rfl, stepped.bounded, nofun, fun _ => ⟨rfl, filled, taken, filled, progress, rfl⟩⟩

def scopeGroups (log : FactLog) (scan : ValidTimeDiffScan) (entities : List EntityId) :
    List (EntityId × ValidTimeDiffGroup) :=
  scan.groups (entities.map (scopeBlock scan.asOf scan.attr log))

structure EntitySetRun (log : FactLog) (scan : ValidTimeDiffScan) (front back : List EntityId)
    (cursor : Option EntityAttributeScan) (group : ValidTimeDiffGroup) : Prop where
  rows : scan.rows = (scopeGroups log scan front).flatMap (groupRows scan.attr)
  within : scan.sourceEntries ≤ validTimeDiffMaxSourceEntries
  cursor : ∀ active, cursor = some active → group = ∅ ∧
    ∀ entity, back.head? = some entity → ∃ done, EntityRun log scan entity active done

def entitySetPosition (entities : List EntityId) (startIndex : Nat)
    (groups : List (EntityId × ValidTimeDiffGroup)) : Option ValidTimeDiffCursorScope :=
  if groups = [] then none else some (.entitySet entities (startIndex + groups.length))

inductive EntitySetStepped (log : FactLog) (scan : ValidTimeDiffScan) (before front back : List EntityId) :
    Except String (ValidTimeDiffScan × Bool) → Prop
  | rejected {message : String} (limit : IsDiffLimit scan.limit message) :
      EntitySetStepped log scan before front back (.error message)
  | closed {ended : ValidTimeDiffScan} {groups : List (EntityId × ValidTimeDiffGroup)}
      (ends : PageEnds scan (scopeGroups log scan (front ++ back))
        (entitySetPosition (before ++ front ++ back) before.length) ended groups) :
      EntitySetStepped log scan before front back (.ok (ended, true))
  | yielded {rows : List ValidTimeDiffRow} {entries : Nat} {front' back' : List EntityId}
      {cursor : Option EntityAttributeScan} {group : ValidTimeDiffGroup}
      (run : EntitySetRun log (scan.reached rows entries (.entitySet (before ++ front ++ back) before.length
        (before ++ front').length cursor group)) front' back' cursor group)
      (same : front' ++ back' = front ++ back)
      (less : validTimeDiffMaxSourceEntries - entries + back'.length <
        validTimeDiffMaxSourceEntries - scan.sourceEntries + back.length) :
      EntitySetStepped log scan before front back (.ok (scan.reached rows entries (.entitySet (before ++ front ++ back)
        before.length (before ++ front').length cursor group), false))

variable {before front back : List EntityId}

theorem closes_before {entries : Nat} {message : String} (limit : IsDiffLimit scan.limit message)
    (rows : scan.rows = (scopeGroups log scan front).flatMap (groupRows scan.attr)) :
    EntitySetStepped log scan before front back
      (if decide ((before ++ front).length = before.length) = true then .error message
        else .ok (({ scan with sourceEntries := entries } : ValidTimeDiffScan).close
          (some (.entitySet (before ++ front ++ back) (before ++ front).length)), true)) := by
  cases front with
  | nil => simpa using .rejected limit
  | cons first front =>
    have later : decide ((before ++ first :: front).length = before.length) = false := by simp
    rw [later, if_neg (by decide)]
    refine .closed (@PageEnds.mk _ _ _ _ (scopeGroups log scan (first :: front)) ?_ rows nofun fun _ => ⟨?_, ?_⟩)
    · rw [scopeGroups, scopeGroups, map_append, groups_append]
      exact prefix_append _ _
    · exact cons_ne_nil _ _
    · have some : scopeGroups log scan (first :: front) ≠ [] := cons_ne_nil _ _
      rw [entitySetPosition, if_neg some, scopeGroups, ValidTimeDiffScan.groups, length_map,
        length_map, length_append]
      rfl

include distinct in
theorem stepActiveEntity_spec (rows : scan.rows = (scopeGroups log scan front).flatMap (groupRows scan.attr))
    (within : scan.sourceEntries ≤ validTimeDiffMaxSourceEntries)
    (state : EntityRun log scan entity active done) :
    EntitySetStepped log scan before front (entity :: back)
      (stepActiveEntity log scan (before ++ front ++ entity :: back) before.length (before ++ front).length entity
        active ∅) := by
  unfold stepActiveEntity
  by_cases used : validTimeDiffMaxSourceEntries - scan.sourceEntries = 0
  · rw [if_pos used]
    exact @closes_before log scan before front (entity :: back) scan.sourceEntries _ .sourceWork rows
  rw [if_neg used]
  obtain ⟨⟨active', items, entries, complete⟩, stepped, bounded, completes, yields⟩ :=
    stepEntityCursor_spec distinct state
      (min validTimeDiffStepEntries (validTimeDiffMaxSourceEntries - scan.sourceEntries))
  rw [stepped]
  simp only [bind, Except.bind]
  dsimp only at bounded completes yields
  cases complete with
  | false =>
    obtain ⟨rfl, filled, taken, -, run⟩ := yields rfl
    have : 0 < validTimeDiffStepEntries := by decide
    refine .yielded ⟨rows, by dsimp only; omega, ?_⟩ rfl (by omega)
    rintro _ ⟨⟩
    refine ⟨rfl, ?_⟩
    rintro _ ⟨⟩
    exact ⟨done ++ taken, run.progress, run.values⟩
  | true =>
    obtain ⟨rfl, -⟩ := completes rfl
    have further : scan.rows ++ groupRows scan.attr ((scopeBlock scan.asOf scan.attr log entity).group
        scan.beforeAt scan.afterAt) = (scopeGroups log scan (front ++ [entity])).flatMap (groupRows scan.attr) := by
      rw [rows, scopeGroups, scopeGroups, map_append, groups_append, flatMap_append]
      simp [ValidTimeDiffScan.groups]
    have index : (before ++ front).length + 1 = (before ++ (front ++ [entity])).length := by
      simp only [length_append, length_singleton]
      omega
    rw [if_pos rfl]
    split
    · exact closes_before .group rows
    split
    · rename_i last
      obtain rfl : back = [] := by
        rw [← length_eq_zero_iff]
        simp only [length_append, length_cons] at last
        omega
      exact .closed ⟨prefix_refl _, further, fun _ => rfl, fun some => absurd rfl some⟩
    · rw [index]
      refine .yielded ⟨further, by dsimp only; omega, nofun⟩ (append_cons front entity back).symm ?_
      rw [length_cons]
      omega

variable {cursor : Option EntityAttributeScan} {group : ValidTimeDiffGroup}

include distinct in
theorem stepEntitySet_spec (state : EntitySetRun log scan front back cursor group) :
    EntitySetStepped log scan before front back
      (stepEntitySet log scan (before ++ front ++ back) before.length (before ++ front).length cursor group) := by
  unfold stepEntitySet
  cases back with
  | nil =>
    rw [List.getElem?_eq_none (by simp)]
    refine .closed ⟨?_, state.rows, fun _ => ?_, fun some => absurd rfl some⟩
    · rewrite [append_nil]
      exact prefix_refl _
    · rw [append_nil]
  | cons entity back =>
    have here : (before ++ front ++ entity :: back)[(before ++ front).length]? = some entity := by simp
    rw [here]
    dsimp only
    cases cursor with
    | some active =>
      obtain ⟨rfl, run⟩ := state.cursor active rfl
      obtain ⟨done, run⟩ := run entity rfl
      exact stepActiveEntity_spec distinct state.rows state.within run
    | none =>
      cases made : (entityAttributeRange entity scan.attr).cursor log with
      | error message =>
        rw [cursor_error made]
        exact .rejected .pending
      | ok fresh =>
        exact stepActiveEntity_spec distinct state.rows state.within (entityRun_start distinct made)

include distinct in
theorem run_entitySet (fuel : Nat) {rows : List ValidTimeDiffRow} {entries : Nat}
    (state : EntitySetRun log (scan.reached rows entries (.entitySet (before ++ front ++ back) before.length
      (before ++ front).length cursor group)) front back cursor group)
    (enough : validTimeDiffMaxSourceEntries - entries + back.length < fuel) :
    PageResult scan (scopeGroups log scan (front ++ back)) (entitySetPosition (before ++ front ++ back) before.length)
      (run log fuel (scan.reached rows entries (.entitySet (before ++ front ++ back) before.length
        (before ++ front).length cursor group))) := by
  induction fuel generalizing front back rows entries cursor group with
  | zero => omega
  | succ fuel ih =>
    have stepped := @stepEntitySet_spec log _ distinct before front back cursor group state
    rw [run]
    change PageResult _ _ _ (stepEntitySet log (scan.reached rows entries (.entitySet (before ++ front ++ back)
      before.length (before ++ front).length cursor group)) (before ++ front ++ back) before.length
        (before ++ front).length cursor group >>= _)
    generalize stepEntitySet log (scan.reached rows entries (.entitySet (before ++ front ++ back) before.length
      (before ++ front).length cursor group)) (before ++ front ++ back) before.length (before ++ front).length
        cursor group = result at stepped
    cases stepped with
    | rejected limit => exact .rejected limit
    | closed ends => exact .closed ends.of_reached
    | yielded next same less =>
      dsimp only at less
      rw [append_assoc before, ← same, ← append_assoc] at next ⊢
      exact ih next (by omega)

end EntitySetPage

end ViciaDb
