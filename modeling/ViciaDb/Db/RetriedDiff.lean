import ViciaDb.Db.DiffPages
import ViciaDb.Graph.RetriedCursors

namespace ViciaDb

open ValidTimeDiffScan List
open MergeCursor (Round Fault Transparent unfailed unfailed_tried unfailed_failed)

namespace ValidTimeDiffScan

variable (log : FactLog)

def failActiveAttribute (scan : ValidTimeDiffScan) (fault : Fault) (active : AttributeScan)
    (current : Option (EntityId × ValidTimeDiffGroup)) (completed : List (EntityId × ValidTimeDiffGroup))
    (emittedLast : Option EntityId) : Except String ValidTimeDiffScan :=
  let remaining := validTimeDiffMaxSourceEntries - scan.sourceEntries
  if remaining = 0 then .ok scan
  else do
    let (active, visits) ← failIntervalStep scan.asOf .any log scan.attr
      (min validTimeDiffStepEntries remaining) fault active
    let (current, completed) := visits.foldl (noteInterval scan.beforeAt scan.afterAt) (current, completed)
    return { scan with state := .attribute (some active) none current completed emittedLast }

def failActiveEntity (scan : ValidTimeDiffScan) (fault : Fault) (entities : List EntityId)
    (startIndex index : Nat) (entity : EntityId) (active : EntityAttributeScan) (group : ValidTimeDiffGroup) :
    Except String ValidTimeDiffScan :=
  let remaining := validTimeDiffMaxSourceEntries - scan.sourceEntries
  if remaining = 0 then .ok scan
  else
    let (taken, cursor) := MergeCursor.attempt
      (MergeCursor.budgetRules compareEavt (min validTimeDiffStepEntries remaining))
      (indexRange compareEavt (inEntityAttribute entity scan.attr) log.committed) active.cursor fault
    let values := taken.foldl (fun values fact =>
      if entryVisibleAsOf scan.asOf fact then values.reduce fact else values) active.values
    .ok { scan with state := .entitySet entities startIndex index (some ⟨cursor, values⟩) group }

def fail (scan : ValidTimeDiffScan) (fault : Fault) : Except String ValidTimeDiffScan :=
  match scan.state with
  | .finished => .ok scan
  | .entitySet entities startIndex index cursor group =>
    match entities[index]? with
    | none => .ok scan
    | some entity =>
      match cursor with
      | some active => failActiveEntity log scan fault entities startIndex index entity active group
      | none => do
        let fresh ← (entityAttributeRange entity scan.attr).cursor log
        failActiveEntity log scan fault entities startIndex index entity ⟨fresh, ∅⟩ ∅
  | .attribute cursor resumeAfter current completed emittedLast =>
    match cursor.or (resumedCursor log scan.attr resumeAfter) with
    | none => .ok scan
    | some active => failActiveAttribute log scan fault active current completed emittedLast

def retry : List Round → ValidTimeDiffScan →
    Except String (Option (List ValidTimeDiffRow × Option ValidTimeDiffCursor))
  | [], _ => .ok none
  | ⟨_, none⟩ :: attempts, scan => do
    let (scan, complete) ← step log scan
    if complete then return some (scan.rows, scan.next) else retry attempts scan
  | ⟨_, some fault⟩ :: attempts, scan => do
    let scan ← fail log scan fault
    retry attempts scan

end ValidTimeDiffScan

section AttributePage

theorem drainGroups_append (limit : Nat) (attr : String) (front groups : List (EntityId × ValidTimeDiffGroup))
    (rows : List ValidTimeDiffRow) (last : Option EntityId) :
    drainGroups limit attr (front ++ groups) rows last = (do
      let (rows, last, full) ← drainGroups limit attr front rows last
      if full then return (rows, last, true) else drainGroups limit attr groups rows last) := by
  induction front generalizing rows last with
  | nil => rfl
  | cons group front ih =>
    simp only [cons_append, drainGroups]
    split
    · cases last <;> rfl
    · exact ih _ _

def ValidTimeDiffScan.attributePage (scan : ValidTimeDiffScan)
    (drained : List ValidTimeDiffRow × Option EntityId × Bool) :
    List ValidTimeDiffRow × Option ValidTimeDiffCursor :=
  (drained.1, if drained.2.2 then (drained.2.1.map .attribute).map scan.cursorAt else none)

variable {log : FactLog} {scan : ValidTimeDiffScan} {start : EntityId} {active : AttributeScan}
  {current : Option (EntityId × ValidTimeDiffGroup)} {completed front : List (EntityId × ValidTimeDiffGroup)}
  {rows : List ValidTimeDiffRow} {last : Option EntityId} {entries : Nat} {done : List Fact}

structure AttributeRetried (log : FactLog) (start : EntityId) (scan : ValidTimeDiffScan) (active : AttributeScan)
    (current : Option (EntityId × ValidTimeDiffGroup)) (completed front : List (EntityId × ValidTimeDiffGroup))
    (rows : List ValidTimeDiffRow) (last : Option EntityId) (entries : Nat) (done : List Fact) : Prop where
  run : ScanRun scan.asOf .any log scan.attr start active done
  groups : scan.groups (blocksBy scan.asOf done) = front ++ completed ++ current.toList
  drained : ∀ later, drainGroups scan.limit scan.attr (front ++ later) [] none =
    drainGroups scan.limit scan.attr later rows last
  entries : entries ≤ done.length

abbrev ValidTimeDiffScan.inAttribute (scan : ValidTimeDiffScan) (rows : List ValidTimeDiffRow) (entries : Nat)
    (active : AttributeScan) (current : Option (EntityId × ValidTimeDiffGroup))
    (completed : List (EntityId × ValidTimeDiffGroup)) (last : Option EntityId) : ValidTimeDiffScan :=
  scan.reached rows entries (.attribute (some active) none current completed last)

theorem AttributeRetried.fail_spec (alone : OwnsRange scan.attr log.records)
    (distinct : DistinctRecords log.records)
    (few : (scanEntries log scan.attr start).length < validTimeDiffMaxSourceEntries)
    (state : AttributeRetried log start scan active current completed front rows last entries done)
    (fault : Fault) :
    ∃ active' current' completed' taken,
      fail log (scan.inAttribute rows entries active current completed last) fault =
        .ok (scan.inAttribute rows entries active' current' completed' last) ∧
      AttributeRetried log start scan active' current' completed' front rows last entries (done ++ taken) := by
  have passed := congrArg List.length state.run.progress.passed
  rw [length_append] at passed
  have spent := state.entries
  obtain ⟨active', taken, failed, run⟩ := failIntervalStep_spec alone distinct state.run
    (min validTimeDiffStepEntries (validTimeDiffMaxSourceEntries - entries)) fault
  have joined := blocksBy_append state.run taken
  have groups := congrArg scan.groups joined
  rw [groups_append, state.groups, append_assoc] at groups
  have noted := noteInterval_blocks completed state.groups (joined ▸ blocksBy_sublist run)
  generalize current.toList ++ scan.groups
    ((taken.filter (entryVisibleAsOf scan.asOf)).foldl (acceptBlock .any) (active.group, [])).2 = left
    at groups noted
  refine ⟨active', left.getLast?, completed ++ left.dropLast, taken, ?_, run, ?_, state.drained, ?_⟩
  · change failActiveAttribute log _ fault active current completed last = _
    rw [failActiveAttribute, if_neg (by dsimp only; omega)]
    change (failIntervalStep scan.asOf .any log scan.attr
      (min validTimeDiffStepEntries (validTimeDiffMaxSourceEntries - entries)) fault active >>= _) = _
    rw [failed]
    dsimp only [bind, Except.bind]
    rw [noted]
    rfl
  · rw [groups, ← append_assoc front completed, append_assoc _ _ (Option.toList _), dropLast_append_toList]
  · rw [length_append]
    omega

inductive AttributeRetryStepped (log : FactLog) (start : EntityId) (scan : ValidTimeDiffScan) (done : List Fact)
    (page : Except String (List ValidTimeDiffRow × Option ValidTimeDiffCursor)) :
    Except String (ValidTimeDiffScan × Bool) → Prop
  | rejected {message : String} (same : page = .error message) :
      AttributeRetryStepped log start scan done page (.error message)
  | closed {ended : ValidTimeDiffScan} (same : page = .ok (ended.rows, ended.next)) :
      AttributeRetryStepped log start scan done page (.ok (ended, true))
  | yielded {rows : List ValidTimeDiffRow} {entries : Nat} {active : AttributeScan}
      {current : Option (EntityId × ValidTimeDiffGroup)} {front : List (EntityId × ValidTimeDiffGroup)}
      {last : Option EntityId} {done' : List Fact}
      (state : AttributeRetried log start scan active current [] front rows last entries done')
      (more : done.length < done'.length) :
      AttributeRetryStepped log start scan done page (.ok (scan.inAttribute rows entries active current [] last, false))

theorem AttributeRetried.step_spec (alone : OwnsRange scan.attr log.records)
    (distinct : DistinctRecords log.records)
    (few : (scanEntries log scan.attr start).length < validTimeDiffMaxSourceEntries)
    (state : AttributeRetried log start scan active current completed front rows last entries done) :
    AttributeRetryStepped log start scan done
      ((drainGroups scan.limit scan.attr (scan.groups (blocksAt scan.asOf scan.attr start log)) [] none).map
        scan.attributePage)
      (step log (scan.inAttribute rows entries active current completed last)) := by
  have passed := congrArg List.length state.run.progress.passed
  rw [length_append] at passed
  have spent := state.entries
  obtain ⟨⟨active', visits, count, complete⟩, taken, stepped, spec⟩ := stepInterval_spec state.run alone
    distinct (min validTimeDiffStepEntries (validTimeDiffMaxSourceEntries - entries))
  obtain ⟨rfl, bounded, completes, yields⟩ := spec
  change AttributeRetryStepped _ _ _ _ _ (stepActiveAttribute log _ active current completed last)
  unfold stepActiveAttribute
  dsimp only
  rw [if_neg (by omega)]
  change AttributeRetryStepped _ _ _ _ _ (stepCurrentAttributeIntervalCursor scan.asOf .any log scan.attr
    (min validTimeDiffStepEntries (validTimeDiffMaxSourceEntries - entries)) active >>= _)
  rw [stepped]
  simp only [bind, Except.bind]
  cases complete with
  | true =>
    obtain ⟨passed, isVisits⟩ := completes rfl
    dsimp only at isVisits
    have all := blocksAt_split state.run passed
    have groups := congrArg scan.groups all
    rw [groups_append, state.groups, append_assoc, append_assoc] at groups
    rw [isVisits, noteInterval_blocks completed state.groups (by rw [← all])]
    rw [if_pos rfl, append_assoc, dropLast_append_toList, groups, state.drained]
    cases drained : drainGroups scan.limit scan.attr (completed ++ (current.toList ++ scan.groups
        (blocksFrom .any active.group (taken.filter (entryVisibleAsOf scan.asOf))))) rows last with
    | error message => exact .rejected rfl
    | ok result =>
      obtain ⟨rows', last', full⟩ := result
      cases full <;> exact .closed rfl
  | false =>
    obtain ⟨filled, run, isVisits⟩ := yields rfl
    dsimp only at isVisits run
    have joined := blocksBy_append state.run taken
    have groups := congrArg scan.groups joined
    rw [groups_append, state.groups, append_assoc, append_assoc] at groups
    rw [isVisits, noteInterval_blocks completed state.groups (joined ▸ blocksBy_sublist run)]
    rw [if_neg (by decide)]
    generalize current.toList ++ scan.groups
      ((taken.filter (entryVisibleAsOf scan.asOf)).foldl (acceptBlock .any) (active.group, [])).2 = left at groups
    obtain ⟨unread, whole⟩ := groups_isPart run
    rw [groups, ← dropLast_append_toList left, ← append_assoc completed, append_assoc front,
      append_assoc (completed ++ left.dropLast)] at whole
    rw [← whole, state.drained, drainGroups_append]
    cases drained : drainGroups scan.limit scan.attr (completed ++ left.dropLast) rows last with
    | error message => exact .rejected rfl
    | ok result =>
      obtain ⟨rows', last', full⟩ := result
      cases full with
      | true => exact .closed rfl
      | false =>
        refine .yielded (@AttributeRetried.mk _ _ _ _ _ _ (front ++ (completed ++ left.dropLast)) _ _ _ _
          run ?_ ?_ ?_) ?_
        · rw [groups, append_nil, append_assoc, append_assoc, dropLast_append_toList]
        · intro later
          rw [append_assoc, state.drained, drainGroups_append, drained]
          rfl
        · rw [length_append]
          omega
        · rw [length_append]
          have : 0 < validTimeDiffStepEntries := by decide
          omega

theorem retry_attribute (alone : OwnsRange scan.attr log.records) (distinct : DistinctRecords log.records)
    (few : (scanEntries log scan.attr start).length < validTimeDiffMaxSourceEntries) (attempts : List Round)
    (state : AttributeRetried log start scan active current completed front rows last entries done) :
    retry log attempts (scan.inAttribute rows entries active current completed last) =
        ((drainGroups scan.limit scan.attr (scan.groups (blocksAt scan.asOf scan.attr start log)) [] none).map
          scan.attributePage).map some ∨
      retry log attempts (scan.inAttribute rows entries active current completed last) = .ok none ∧
        done.length + unfailed attempts ≤ (scanEntries log scan.attr start).length := by
  induction attempts generalizing active current completed front rows last entries done with
  | nil =>
    refine .inr ⟨rfl, ?_⟩
    rw [state.run.progress.passed, length_append]
    exact Nat.le_add_right _ _
  | cons first attempts ih =>
    obtain ⟨budget, fault⟩ := first
    cases fault with
    | none =>
      have stepped := state.step_spec alone distinct few
      rw [retry]
      generalize step log (scan.inAttribute rows entries active current completed last) = result at stepped
      cases stepped with
      | rejected same | closed same =>
        rw [same]
        exact .inl rfl
      | yielded next more =>
        refine (ih next).imp_right (.imp_right fun few => ?_)
        have := unfailed_tried budget attempts
        omega
    | some fault =>
      obtain ⟨active', current', completed', taken, failed, next⟩ := state.fail_spec alone distinct few fault
      rw [retry, failed]
      refine (ih next).imp_right (.imp_right fun few => ?_)
      rw [unfailed_failed]
      rw [length_append] at few
      omega

end AttributePage

section EntitySetPage

variable {log : FactLog} {scan : ValidTimeDiffScan} {rows : List ValidTimeDiffRow} {entries startIndex : Nat}
  {before back : List EntityId} {entity : EntityId} {active : EntityAttributeScan} {done : List Fact}

def scopeEntries (log : FactLog) (attr : String) (entity : EntityId) : Nat :=
  (indexRange compareEavt (inEntityAttribute entity attr) log.records).length

def ValidTimeDiffScan.scopePage (log : FactLog) (scan : ValidTimeDiffScan) (entities : List EntityId)
    (startIndex : Nat) :
    Nat → List EntityId → List ValidTimeDiffRow → Except String (List ValidTimeDiffRow × Option ValidTimeDiffCursor)
  | _, [], rows => .ok (rows, none)
  | index, entity :: back, rows =>
    let more := groupRows scan.attr ((scopeBlock scan.asOf scan.attr log entity).group scan.beforeAt scan.afterAt)
    if scan.limit < rows.length + more.length then
      if index = startIndex then .error (groupExceeded scan.limit)
      else .ok (rows, some (scan.cursorAt (.entitySet entities index)))
    else scopePage log scan entities startIndex (index + 1) back (rows ++ more)

abbrev ValidTimeDiffScan.inScope (scan : ValidTimeDiffScan) (rows : List ValidTimeDiffRow) (entries : Nat)
    (entities : List EntityId) (startIndex index : Nat) (cursor : Option EntityAttributeScan) : ValidTimeDiffScan :=
  scan.reached rows entries (.entitySet entities startIndex index cursor ∅)

theorem EntityRun.length_le (state : EntityRun log scan entity active done) :
    done.length ≤ scopeEntries log scan.attr entity := by
  rw [scopeEntries, state.progress.passed, length_append]
  exact Nat.le_add_right _ _

theorem EntityRun.fail_spec (distinct : DistinctRecords log.records)
    (state : EntityRun log scan entity active done) (room : entries < validTimeDiffMaxSourceEntries)
    (fault : Fault) :
    ∃ active' taken,
      fail log (scan.inScope rows entries (before ++ entity :: back) startIndex before.length (some active)) fault =
        .ok (scan.inScope rows entries (before ++ entity :: back) startIndex before.length (some active')) ∧
      EntityRun log scan entity active' (done ++ taken) := by
  have here : (before ++ entity :: back)[before.length]? = some entity := by simp
  have progress := state.progress.attempt (increasing_indexRange
    (separates_entityAttributeRange entity scan.attr) (pairwise_append.mp distinct).1)
    (min validTimeDiffStepEntries (validTimeDiffMaxSourceEntries - entries)) fault
  have failed : fail log (scan.inScope rows entries (before ++ entity :: back) startIndex before.length
      (some active)) fault = failActiveEntity log (scan.inScope rows entries (before ++ entity :: back) startIndex
        before.length (some active)) fault (before ++ entity :: back) startIndex before.length entity active ∅ := by
    simp only [fail, here]
  rw [failed]
  unfold failActiveEntity
  dsimp only
  rw [if_neg (by omega)]
  generalize MergeCursor.attempt (MergeCursor.budgetRules compareEavt
    (min validTimeDiffStepEntries (validTimeDiffMaxSourceEntries - entries)))
    (indexRange compareEavt (inEntityAttribute entity scan.attr) log.committed) active.cursor fault = result
    at progress ⊢
  obtain ⟨taken, cursor⟩ := result
  refine ⟨_, taken, rfl, progress, ?_⟩
  rw [filter_append, foldl_append, ← state.values, foldl_filter]
  rfl

inductive EntityRetryStepped (log : FactLog) (scan : ValidTimeDiffScan) (rows : List ValidTimeDiffRow)
    (entries startIndex : Nat) (before back : List EntityId) (entity : EntityId) (done : List Fact)
    (page : Except String (List ValidTimeDiffRow × Option ValidTimeDiffCursor)) :
    Except String (ValidTimeDiffScan × Bool) → Prop
  | rejected {message : String} (same : page = .error message) :
      EntityRetryStepped log scan rows entries startIndex before back entity done page (.error message)
  | closed {ended : ValidTimeDiffScan} (same : page = .ok (ended.rows, ended.next)) :
      EntityRetryStepped log scan rows entries startIndex before back entity done page (.ok (ended, true))
  | yielded {active : EntityAttributeScan} {taken : List Fact} (any : 0 < taken.length)
      (state : EntityRun log scan entity active (done ++ taken)) :
      EntityRetryStepped log scan rows entries startIndex before back entity done page
        (.ok (scan.inScope rows (entries + taken.length) (before ++ entity :: back) startIndex before.length
          (some active), false))
  | passed {more : List ValidTimeDiffRow} {count : Nat} {next : EntityId} {rest : List EntityId}
      (isBack : back = next :: rest) (counts : done.length + count = scopeEntries log scan.attr entity)
      (same : page = scan.scopePage log (before ++ entity :: back) startIndex (before.length + 1) back
        (rows ++ more)) :
      EntityRetryStepped log scan rows entries startIndex before back entity done page
        (.ok (scan.inScope (rows ++ more) (entries + count) (before ++ entity :: back) startIndex
          (before.length + 1) none, false))

theorem EntityRun.step_spec (distinct : DistinctRecords log.records)
    (state : EntityRun log scan entity active done) (room : entries < validTimeDiffMaxSourceEntries) :
    EntityRetryStepped log scan rows entries startIndex before back entity done
      (scan.scopePage log (before ++ entity :: back) startIndex before.length (entity :: back) rows)
      (step log (scan.inScope rows entries (before ++ entity :: back) startIndex before.length (some active))) := by
  have here : (before ++ entity :: back)[before.length]? = some entity := by simp
  have isStep : step log (scan.inScope rows entries (before ++ entity :: back) startIndex before.length
      (some active)) = stepActiveEntity log (scan.inScope rows entries (before ++ entity :: back) startIndex
        before.length (some active)) (before ++ entity :: back) startIndex before.length entity active ∅ := by
    simp only [step, stepEntitySet, here]
  obtain ⟨⟨active', items, count, complete⟩, stepped, bounded, completes, yields⟩ :=
    stepEntityCursor_spec distinct state
      (min validTimeDiffStepEntries (validTimeDiffMaxSourceEntries - entries))
  have stepped : stepEntityCursor log (scan.inScope rows entries (before ++ entity :: back) startIndex
      before.length (some active)) entity (min validTimeDiffStepEntries (validTimeDiffMaxSourceEntries - entries))
        active = .ok (active', items, count, complete) := stepped
  rw [isStep]
  unfold stepActiveEntity
  dsimp only at completes yields ⊢
  rw [if_neg (by omega), stepped]
  simp only [bind, Except.bind]
  cases complete with
  | false =>
    obtain ⟨rfl, rfl, taken, filled, run⟩ := yields rfl
    have : 0 < validTimeDiffStepEntries := by decide
    rw [← filled]
    exact .yielded (by omega) run
  | true =>
    obtain ⟨rfl, counts⟩ := completes rfl
    rw [if_pos rfl, scopePage]
    have isMore : ValidTimeDiffGroup.intoRows entity scan.attr
        ((scopeBlock scan.asOf scan.attr log entity).2.foldl
          (ValidTimeDiffGroup.noteWindow scan.beforeAt scan.afterAt) ∅) =
        groupRows scan.attr
          ((scopeBlock scan.asOf scan.attr log entity).group scan.beforeAt scan.afterAt) := rfl
    rw [isMore]
    generalize groupRows scan.attr
      ((scopeBlock scan.asOf scan.attr log entity).group scan.beforeAt scan.afterAt) = more
    split
    · by_cases first : before.length = startIndex
      · rw [if_pos (decide_eq_true first), if_pos first]
        exact .rejected rfl
      · rw [if_neg first, if_neg (by simpa using first)]
        exact .closed rfl
    · cases back with
      | nil =>
        rw [if_pos (by simp)]
        exact .closed rfl
      | cons next rest =>
        rw [if_neg (by simp)]
        exact .passed rfl counts rfl

theorem retry_fresh {fresh : MergeCursor.Cursor Fact} (room : entries < validTimeDiffMaxSourceEntries)
    (made : (entityAttributeRange entity scan.attr).cursor log = .ok fresh) (attempts : List Round) :
    retry log attempts (scan.inScope rows entries (before ++ entity :: back) startIndex before.length none) =
      retry log attempts (scan.inScope rows entries (before ++ entity :: back) startIndex before.length
        (some ⟨fresh, ∅⟩)) := by
  have here : (before ++ entity :: back)[before.length]? = some entity := by simp
  cases attempts with
  | nil => rfl
  | cons first attempts =>
    obtain ⟨budget, fault⟩ := first
    cases fault with
    | none =>
      have same : step log (scan.inScope rows entries (before ++ entity :: back) startIndex before.length none) =
          step log (scan.inScope rows entries (before ++ entity :: back) startIndex before.length
            (some ⟨fresh, ∅⟩)) := by
        simp only [step, stepEntitySet, here, made, bind, Except.bind]
        unfold stepActiveEntity
        rfl
      rw [retry, retry, same]
    | some fault =>
      have same : fail log (scan.inScope rows entries (before ++ entity :: back) startIndex before.length none)
          fault = fail log (scan.inScope rows entries (before ++ entity :: back) startIndex before.length
            (some ⟨fresh, ∅⟩)) fault := by
        have going : ¬validTimeDiffMaxSourceEntries - entries = 0 := by omega
        simp only [fail, here, made, bind, Except.bind, failActiveEntity, if_neg going]
        rfl
      rw [retry, retry, same]

theorem cursor_of_few (few : scopeEntries log scan.attr entity < validTimeDiffMaxSourceEntries) :
    ∃ fresh, (entityAttributeRange entity scan.attr).cursor log = .ok fresh := by
  rw [CursorRange.cursor]
  refine ⟨_, if_neg ?_⟩
  have pending : (log.pending.filter (inEntityAttribute entity scan.attr)).length ≤
      (log.records.filter (inEntityAttribute entity scan.attr)).length := by
    rw [FactLog.records, filter_append, length_append]
    exact Nat.le_add_left _ _
  rw [scopeEntries, (indexRange_perm _ _ _).length_eq] at few
  rw [(indexRange_perm _ _ _).length_eq]
  exact Nat.not_lt.mpr (pending.trans few.le)

theorem retry_scope (distinct : DistinctRecords log.records) (attempts : List Round)
    (state : EntityRun log scan entity active done)
    (few : entries + ((entity :: back).map (scopeEntries log scan.attr)).sum <
      validTimeDiffMaxSourceEntries + done.length) :
    retry log attempts (scan.inScope rows entries (before ++ entity :: back) startIndex before.length
        (some active)) =
        (scan.scopePage log (before ++ entity :: back) startIndex before.length (entity :: back) rows).map some ∨
      retry log attempts (scan.inScope rows entries (before ++ entity :: back) startIndex before.length
          (some active)) = .ok none ∧
        done.length + unfailed attempts ≤
          ((entity :: back).map (scopeEntries log scan.attr)).sum + (entity :: back).length := by
  have within := state.length_le
  rw [map_cons, sum_cons] at few ⊢
  induction attempts generalizing rows entries before back entity active done with
  | nil => exact .inr ⟨rfl, by rw [unfailed, countP_nil]; omega⟩
  | cons first attempts ih =>
    obtain ⟨budget, fault⟩ := first
    cases fault with
    | none =>
      have bound := unfailed_tried budget attempts
      have stepped := @EntityRun.step_spec log scan rows entries startIndex before back entity active done
        distinct state (by omega)
      rw [retry]
      generalize step log (scan.inScope rows entries (before ++ entity :: back) startIndex before.length
        (some active)) = result at stepped
      cases stepped with
      | rejected same | closed same =>
        rw [same]
        exact .inl rfl
      | yielded any next =>
        rename_i active' taken
        have within' := next.length_le
        rw [length_append] at within'
        refine (@ih rows (entries + taken.length) before back entity active' (done ++ taken) next
          (by rw [length_append]; omega) (by rw [length_append]; omega)).imp_right (.imp_right fun few => ?_)
        rw [length_append] at few
        omega
      | passed isBack counts same =>
        rename_i more count next rest
        subst isBack
        rw [map_cons, sum_cons] at few ⊢
        obtain ⟨fresh, made⟩ := @cursor_of_few log scan next (by omega)
        have split : before ++ entity :: next :: rest = before ++ [entity] ++ next :: rest := by simp
        have index : before.length + 1 = (before ++ [entity]).length := by simp
        have started : EntityRun log scan next ⟨fresh, ∅⟩ [] := entityRun_start distinct made
        rw [same]
        change retry log attempts _ = _ ∨ retry log attempts _ = _ ∧ _
        rw [split, index, retry_fresh (by omega) made]
        refine (@ih (rows ++ more) (entries + count) (before ++ [entity]) rest next ⟨fresh, ∅⟩ [] started
          (by rw [length_nil]; omega) (by rw [length_nil]; omega)).imp_right (.imp_right fun few => ?_)
        rw [length_nil] at few
        rw [length_cons]
        omega
    | some fault =>
      obtain ⟨active', taken, failed, next⟩ := @EntityRun.fail_spec log scan rows entries startIndex before back
        entity active done distinct state (by omega) fault
      have within' := next.length_le
      rw [length_append] at within'
      rw [retry, failed, unfailed_failed]
      refine (@ih rows entries before back entity active' (done ++ taken) next
        (by rw [length_append]; omega) (by rw [length_append]; omega)).imp_right (.imp_right fun few => ?_)
      rw [length_append] at few
      omega

end EntitySetPage

section Page

variable {log : FactLog} {scan : ValidTimeDiffScan}

theorem retry_closing {ended : ValidTimeDiffScan} (closes : step log scan = .ok (ended, true))
    (stays : ∀ fault, fail log scan fault = .ok scan) (attempts : List Round) :
    retry log attempts scan = .ok (some (ended.rows, ended.next)) ∨
      retry log attempts scan = .ok none ∧ unfailed attempts ≤ 0 := by
  induction attempts with
  | nil => exact .inr ⟨rfl, Nat.le_refl _⟩
  | cons first attempts ih =>
    obtain ⟨budget, fault⟩ := first
    cases fault with
    | none =>
      rw [retry, closes]
      exact .inl rfl
    | some fault =>
      rw [retry, stays, unfailed_failed]
      exact ih

theorem length_scanEntries_le (log : FactLog) (attr : String) (start : EntityId) :
    (scanEntries log attr start).length ≤ (log.records.filter fun fact => fact.attr == attr).length := by
  rw [← (indexRange_perm compareAevtProjection (fun fact => fact.attr == attr) log.records).length_eq]
  exact length_filter_le _ _

theorem transparent_attributePage (alone : OwnsRange scan.attr log.records)
    (distinct : DistinctRecords log.records)
    (few : (log.records.filter fun fact => fact.attr == scan.attr).length < validTimeDiffMaxSourceEntries)
    (resumeAfter : Option EntityId) :
    Transparent fun attempts => retry log attempts
      (scan.reached [] 0 (.attribute none resumeAfter none [] none)) := by
  cases resumed : resumedCursor log scan.attr resumeAfter with
  | none =>
    refine ⟨.ok ([], none), 0, fun attempts _ => ?_⟩
    refine @retry_closing log _ ((scan.reached [] 0 (.attribute none resumeAfter none [] none)).close none)
      ?_ (fun fault => ?_) attempts
    · simp only [step, stepAttribute, resumed, Option.none_or]
    · simp only [fail, resumed, Option.none_or]
  | some active =>
    obtain ⟨start, rfl⟩ : ∃ start, active = currentAttributeCursorStartingAt log scan.attr start := by
      cases resumeAfter with
      | none => exact ⟨_, (Option.some.inj resumed).symm⟩
      | some last =>
        simp only [resumedCursor, currentAttributeCursorAfter] at resumed
        split at resumed
        · cases resumed
        · exact ⟨_, (Option.some.inj resumed).symm⟩
    have state : AttributeRetried log start scan (currentAttributeCursorStartingAt log scan.attr start) none [] []
        [] none 0 [] := ⟨scanRun_start alone distinct, rfl, fun _ => rfl, Nat.le_refl _⟩
    have few := (length_scanEntries_le log scan.attr start).trans_lt few
    refine ⟨(drainGroups scan.limit scan.attr (scan.groups (blocksAt scan.asOf scan.attr start log)) [] none).map
      scan.attributePage, (scanEntries log scan.attr start).length, fun attempts _ => ?_⟩
    have retried := retry_attribute alone distinct few attempts state
    have opened : retry log attempts (scan.reached [] 0 (.attribute none resumeAfter none [] none)) =
        retry log attempts (scan.inAttribute [] 0 (currentAttributeCursorStartingAt log scan.attr start) none []
          none) := by
      cases attempts with
      | nil => rfl
      | cons first attempts =>
        obtain ⟨budget, fault⟩ := first
        cases fault with
        | none =>
          rw [retry, retry]
          simp only [step, stepAttribute, resumed, Option.none_or, Option.some_or]
          unfold stepActiveAttribute
          rfl
        | some fault =>
          rw [retry, retry]
          simp only [fail, resumed, Option.none_or, Option.some_or]
          unfold failActiveAttribute
          rfl
    rw [length_nil, Nat.zero_add, ← opened] at retried
    exact retried

theorem nodup_uniqueIds (ids : List EntityId) : (uniqueIds ids).Nodup := by
  have keeps : ∀ unique : List EntityId, unique.Nodup →
      (ids.foldl (fun unique id => if unique.contains id then unique else unique ++ [id]) unique).Nodup := by
    induction ids with
    | nil => exact fun _ nodup => nodup
    | cons id ids ih =>
      intro unique nodup
      refine ih _ ?_
      dsimp only
      split
      · exact nodup
      · rename_i new
        refine nodup_append.mpr ⟨nodup, nodup_singleton id, ?_⟩
        rintro known member _ isId rfl
        obtain rfl := mem_singleton.mp isId
        exact new (contains_iff_mem.mpr member)
  exact keeps [] .nil

theorem sum_scopeEntries_le {entities : List EntityId} (nodup : entities.Nodup) (attr : String) :
    (entities.map (scopeEntries log attr)).sum ≤ (log.records.filter fun fact => fact.attr == attr).length := by
  have each : ∀ entity, scopeEntries log attr entity =
      ((log.records.filter fun fact => fact.attr == attr).map Fact.entity).count entity := by
    intro entity
    rw [scopeEntries, (indexRange_perm _ _ _).length_eq, List.count, countP_map, countP_filter,
      ← countP_eq_length_filter]
    refine countP_congr fun fact _ => ?_
    rw [inEntityAttribute_iff]
    simp
  simp only [funext each]
  rw [← length_map (f := Fact.entity)]
  generalize (log.records.filter fun fact => fact.attr == attr).map Fact.entity = ids
  induction entities generalizing ids with
  | nil => exact Nat.zero_le _
  | cons entity entities ih =>
    obtain ⟨apart, nodup⟩ := nodup_cons.mp nodup
    have others : entities.map (fun other => ids.count other) =
        entities.map fun other => (ids.filter fun id => !(id == entity)).count other := by
      refine map_congr_left fun other member => ?_
      rw [count_filter]
      simpa using fun same : other = entity => apart (same ▸ member)
    have rest := ih nodup (ids.filter fun id => !(id == entity))
    rw [map_cons, sum_cons, others]
    have parts := @List.length_eq_length_filter_add _ ids fun id => id == entity
    have here : ids.count entity = (ids.filter fun id => id == entity).length := countP_eq_length_filter
    omega

theorem transparent_scopePage (distinct : DistinctRecords log.records) {entities : List EntityId}
    (nodup : entities.Nodup)
    (few : (log.records.filter fun fact => fact.attr == scan.attr).length < validTimeDiffMaxSourceEntries)
    (startIndex : Nat) :
    Transparent fun attempts => retry log attempts
      (scan.reached [] 0 (.entitySet entities startIndex startIndex none ∅)) := by
  by_cases inside : startIndex < entities.length
  · obtain ⟨before, entity, back, rfl, rfl⟩ : ∃ before entity back,
        entities = before ++ entity :: back ∧ startIndex = before.length :=
      ⟨entities.take startIndex, entities[startIndex], entities.drop (startIndex + 1), by simp, by simp; omega⟩
    have work := @sum_scopeEntries_le log _ (nodup_append.mp nodup).2.1 scan.attr
    have one := work
    rw [map_cons, sum_cons] at one
    obtain ⟨fresh, made⟩ := @cursor_of_few log scan entity (by omega)
    have state : EntityRun log scan entity ⟨fresh, ∅⟩ [] := entityRun_start distinct made
    refine ⟨scan.scopePage log (before ++ entity :: back) before.length before.length (entity :: back) [],
      ((entity :: back).map (scopeEntries log scan.attr)).sum + (entity :: back).length, fun attempts _ => ?_⟩
    have retried := @retry_scope log scan [] 0 before.length before back entity ⟨fresh, ∅⟩ [] distinct attempts
      state (by rw [length_nil]; omega)
    rw [length_nil, Nat.zero_add, ← retry_fresh (by decide) made] at retried
    exact retried
  · have outside : entities[startIndex]? = none := List.getElem?_eq_none (Nat.not_lt.mp inside)
    refine ⟨.ok ([], none), 0, fun attempts _ => ?_⟩
    refine @retry_closing log _ ((scan.reached [] 0 (.entitySet entities startIndex startIndex none ∅)).close none)
      ?_ (fun fault => ?_) attempts
    · simp only [step, stepEntitySet, outside]
    · simp only [fail, outside]

theorem transparent_diff {validAt : ValidAt} {txCount : UInt64} {request : ValidTimeDiffRequest}
    (begun : begin_ validAt txCount request = .ok scan) (alone : OwnsRange request.attr log.records)
    (distinct : DistinctRecords log.records)
    (few : (log.records.filter fun fact => fact.attr == request.attr).length < validTimeDiffMaxSourceEntries) :
    Transparent fun attempts => retry log attempts scan := by
  obtain ⟨scope, validated, isScan⟩ := Except.bind_eq_ok_iff.mp begun
  cases isScan
  let page : ValidTimeDiffScan := ⟨request.attr, txCount, request.validAtBefore, request.validAtAfter,
    request.limit, [], 0, none, .finished⟩
  cases scope with
  | none => exact @transparent_attributePage log page alone distinct few _
  | some entities =>
    have unique : entities.Nodup := by
      simp only [validateValidTimeDiffRequest, Except.bind_eq_ok_iff] at validated
      obtain ⟨-, -, -, -, -, -, -, -, -, -, -, -, isScope⟩ := validated
      cases ids : request.entities with
      | none =>
        rw [ids] at isScope
        cases isScope
      | some ids' =>
        rw [ids] at isScope
        cases isScope
        exact nodup_uniqueIds ids'
    exact @transparent_scopePage log page distinct entities unique few _

end Page

end ViciaDb
