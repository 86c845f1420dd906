import ViciaDb.Lib.ExceptList
import ViciaDb.Query.Aggregation

namespace ViciaDb

open Except AggregationSink SortedMap List

variable (ext : Externals) (functions : FunctionRegistry)

def aggregate (func : String) (values : List (Option Value)) : Except String (Option Value) := do
  let start ← AggregateAccumulator.new func functions
  let acc ← values.foldlM (fun acc value => acc.push ext func value) start
  acc.finish ext func functions

def OrderFree (func : String) (values : List (Option Value)) : Prop :=
  ∀ l l', l.Perm l' → l.Subperm values → ∀ a a',
    aggregate ext functions func l = .ok a → aggregate ext functions func l' = .ok a' → a = a'

def groupOf (find : List FindSpec) (rows : List (String → Option Value)) :
    Except String AggregateGroup := do
  let start ← makeGroup find functions
  rows.foldlM (fun group valueFor => pushGroup ext valueFor group) start

variable {ext functions}

variable {rows : List (String → Option Value)} {group : AggregateGroup} {find : List FindSpec}
    {rows' : List (String → Option Value)} {group' : AggregateGroup}

theorem foldlM_pushGroup
    (pushed : rows.foldlM (fun group valueFor => pushGroup ext valueFor group) group = .ok group') :
    List.Forall₂ (fun before after => before.1 = after.1 ∧
      (rows.map fun valueFor => valueFor before.1.var).foldlM
        (fun acc value => acc.push ext before.1.func value) before.2 = .ok after.2) group group' := by
  induction rows generalizing group with
  | nil =>
    cases pushed
    exact forall₂_same.mpr fun _ _ => ⟨rfl, rfl⟩
  | cons valueFor rows ih =>
    rw [foldlM_cons, bind_eq_ok_iff] at pushed
    obtain ⟨middle, first, rest⟩ := pushed
    have steps := mapM_except_eq_ok_iff.mp first
    have later := ih rest
    clear first rest ih
    induction steps generalizing group' with
    | nil =>
      cases later
      exact List.Forall₂.nil
    | cons step _ inner =>
      cases later with
      | cons next others =>
        refine List.Forall₂.cons ?_ (inner others)
        obtain ⟨acc, stepped, same⟩ := bind_eq_ok_iff.mp step
        cases same
        refine ⟨next.1, ?_⟩
        rw [map_cons, foldlM_cons, stepped]
        exact next.2

variable (ext functions) in
def AccumulatorOf (rows : List (String → Option Value)) (spec : AggregateSpec)
    (entry : AggregateSpec × AggregateAccumulator) : Prop :=
  spec = entry.1 ∧ ∃ start, AggregateAccumulator.new spec.func functions = .ok start ∧
    (rows.map fun valueFor => valueFor spec.var).foldlM
      (fun acc value => acc.push ext spec.func value) start = .ok entry.2

variable {rows : List (String → Option Value)}

theorem AccumulatorOf.finish {spec : AggregateSpec}
    {entry : AggregateSpec × AggregateAccumulator} (held : AccumulatorOf ext functions rows spec entry)
    {value : Option Value} (finished : entry.2.finish ext entry.1.func functions = .ok value) :
    aggregate ext functions spec.func (rows.map fun valueFor => valueFor spec.var) = .ok value := by
  obtain ⟨rfl, start, new, folded⟩ := held
  rw [aggregate, new]
  simp only [bind, Except.bind]
  rw [folded]
  exact finished

theorem groupOf_spec (made : groupOf ext functions find rows = .ok group) :
    List.Forall₂ (AccumulatorOf ext functions rows) (aggregateSpecs find) group := by
  obtain ⟨start, created, pushed⟩ := bind_eq_ok_iff.mp made
  have news := mapM_except_eq_ok_iff.mp created
  have folds := foldlM_pushGroup pushed
  clear created pushed made
  generalize aggregateSpecs find = specs at news ⊢
  induction news generalizing group with
  | nil =>
    cases folds
    exact List.Forall₂.nil
  | cons created _ ih =>
    cases folds with
    | cons fold others =>
      refine List.Forall₂.cons ?_ (ih others)
      obtain ⟨acc, new, same⟩ := bind_eq_ok_iff.mp created
      cases same
      exact ⟨fold.1, acc, new, fold.2⟩

theorem finishAccumulators_perm (same : rows.Perm rows') {specs : List AggregateSpec}
    (free : ∀ spec ∈ specs, OrderFree ext functions spec.func (rows.map fun valueFor => valueFor spec.var))
    (held : List.Forall₂ (AccumulatorOf ext functions rows) specs group)
    (held' : List.Forall₂ (AccumulatorOf ext functions rows') specs group') {row : Bindings}
    {result result' : Option Bindings} (finished : finishAccumulators ext functions row group = .ok result)
    (finished' : finishAccumulators ext functions row group' = .ok result') : result = result' := by
  induction held generalizing group' row with
  | nil =>
    cases held'
    cases finished
    cases finished'
    rfl
  | @cons spec entry specs group first others ih =>
    cases held' with
    | @cons _ entry' _ group' first' others' =>
      obtain ⟨value, done, rest⟩ := bind_eq_ok_iff.mp finished
      obtain ⟨value', done', rest'⟩ := bind_eq_ok_iff.mp finished'
      have equal : value = value' := free spec (by simp) _ _ (same.map _) (List.Subperm.refl _) _ _
        (first.finish done) (first'.finish done')
      subst equal
      have specsEqual : entry.1 = entry'.1 := first.1.symm.trans first'.1
      cases value with
      | none =>
        cases rest
        cases rest'
        rfl
      | some value =>
        simp only at rest rest'
        rw [← specsEqual] at rest'
        exact ih (fun spec member => free spec (by simp [member])) others' rest rest'

instance : Std.TransCmp compareKeys := by
  unfold compareKeys
  infer_instance

theorem eq_of_compareKeys_eq {a b : List Value} (ordinaryA : ∀ value ∈ a, value.isOrdinary = true)
    (ordinaryB : ∀ value ∈ b, value.isOrdinary = true) (same : compareKeys a b = .eq) : a = b := by
  induction a generalizing b with
  | nil =>
    cases b with
    | nil => rfl
    | cons _ _ => cases same
  | cons v a ih =>
    cases b with
    | nil => cases same
    | cons w b =>
      simp only [compareKeys, List.compareLex_cons_cons, Ordering.then_eq_eq] at same
      rw [Value.eq_of_cmp_eq (ordinaryA v (by simp)) (ordinaryB w (by simp)) same.1,
        ih (fun value member => ordinaryA value (by simp [member]))
          (fun value member => ordinaryB value (by simp [member])) same.2]

variable (ext) in
structure Grouped (sink : AggregationSink) (rows : List (String → Option Value)) : Prop where
  saw : sink.sawBinding = !rows.isEmpty
  sorted : Sorted compareKeys sink.groups
  total : ∀ row ∈ rows, ∃ group, (sink.key row, group) ∈ sink.groups
  mem : ∀ key group, (key, group) ∈ sink.groups ↔ (∃ row ∈ rows, sink.key row = key) ∧
    groupOf ext sink.functions sink.find (rows.filter fun row => sink.key row = key) = .ok group

def KeysApart (sink : AggregationSink) (rows : List (String → Option Value)) : Prop :=
  ∀ a ∈ rows, ∀ b ∈ rows, compareKeys (sink.key a) (sink.key b) = .eq → sink.key a = sink.key b

variable {row : String → Option Value}

theorem groupOf_snoc :
    groupOf ext functions find (rows ++ [row]) = .ok group ↔
      ∃ before, groupOf ext functions find rows = .ok before ∧ pushGroup ext row before = .ok group := by
  simp only [groupOf, foldlM_append, foldlM_cons, foldlM_nil, bind_eq_ok_iff, bind_pure]
  constructor
  · rintro ⟨start, made, before, folded, pushed⟩
    exact ⟨before, ⟨start, made, folded⟩, pushed⟩
  · rintro ⟨before, ⟨start, made, folded⟩, pushed⟩
    exact ⟨start, made, before, folded, pushed⟩

variable {sink sink' : AggregationSink}

theorem Grouped.step (before : Grouped ext sink rows) (apart : KeysApart sink (rows ++ [row]))
    (pushed : sink.pushValues ext row = .ok sink') :
    Grouped ext sink' (rows ++ [row]) ∧ sink'.find = sink.find ∧ sink'.functions = sink.functions ∧
      sink'.groupVarNames = sink.groupVarNames := by
  obtain ⟨start, got, pushed⟩ := bind_eq_ok_iff.mp pushed
  obtain ⟨group, stepped, same⟩ := bind_eq_ok_iff.mp pushed
  cases same
  have known : ∀ entry ∈ sink.groups, compareKeys (sink.key row) entry.1 = .eq → entry.1 = sink.key row := by
    rintro ⟨key, g⟩ member equal
    obtain ⟨⟨other, inRows, rfl⟩, -⟩ := (before.mem key g).mp member
    exact (apart row (by simp) other (by simp [inRows]) equal).symm
  have startOf : groupOf ext sink.functions sink.find
      (rows.filter fun other => sink.key other = sink.key row) = .ok start := by
    unfold groupFor at got
    cases found : find compareKeys (sink.key row) sink.groups with
    | some g =>
      rw [found] at got
      cases got
      exact ((before.mem _ _).mp ((find_eq_some_iff before.sorted known).mp found)).2
    | none =>
      rw [found] at got
      have fresh : rows.filter (fun other => sink.key other = sink.key row) = [] := by
        rw [filter_eq_nil_iff]
        intro other inRows equal
        obtain ⟨g, member⟩ := before.total other inRows
        rw [of_decide_eq_true equal, ← find_eq_some_iff before.sorted known, found] at member
        cases member
      rw [fresh, groupOf]
      exact bind_eq_ok_iff.mpr ⟨start, got, rfl⟩
  refine ⟨⟨by simp, sorted_insert before.sorted, ?_, ?_⟩, rfl, rfl, rfl⟩
  · intro other member
    simp only [mem_insert before.sorted known, Prod.mk.injEq]
    by_cases equal : sink.key other = sink.key row
    · exact ⟨group, Or.inl ⟨equal, rfl⟩⟩
    have inRows : other ∈ rows := by
      rcases mem_append.mp member with inRows | isRow
      · exact inRows
      · exact absurd (congrArg sink.key (mem_singleton.mp isRow)) equal
    obtain ⟨g, listed⟩ := before.total other inRows
    exact ⟨g, Or.inr ⟨listed, equal⟩⟩
  · intro key g
    change (key, g) ∈ insert compareKeys (sink.key row) group sink.groups ↔
      (∃ other ∈ rows ++ [row], sink.key other = key) ∧ groupOf ext sink.functions sink.find
        ((rows ++ [row]).filter fun other => sink.key other = key) = .ok g
    rw [mem_insert before.sorted known, filter_append]
    by_cases equal : key = sink.key row
    · subst equal
      have single : [row].filter (fun other => sink.key other = sink.key row) = [row] := by simp
      rw [single, groupOf_snoc, startOf]
      simp [stepped, eq_comm]
    · have single : [row].filter (fun other => sink.key other = key) = [] := by
        simp [Ne.symm equal]
      rw [single, append_nil, before.mem key g]
      simp [equal, Ne.symm equal]

theorem Grouped.run {done : List (String → Option Value)} (before : Grouped ext sink done)
    (apart : KeysApart sink (done ++ rows)) (pushed : rows.foldlM (pushValues ext) sink = .ok sink') :
    Grouped ext sink' (done ++ rows) ∧ sink'.find = sink.find ∧ sink'.functions = sink.functions ∧
      sink'.groupVarNames = sink.groupVarNames := by
  induction rows generalizing sink done with
  | nil =>
    cases pushed
    exact ⟨by simpa using before, rfl, rfl, rfl⟩
  | cons row rows ih =>
    rw [foldlM_cons, bind_eq_ok_iff] at pushed
    obtain ⟨middle, first, rest⟩ := pushed
    have firstApart : KeysApart sink (done ++ [row]) := by
      intro a inA b inB
      exact apart a (by grind) b (by grind)
    obtain ⟨grouped, find, functions, names⟩ := before.step firstApart first
    have keys : middle.key = sink.key := by
      funext valueFor
      rw [key, key, names]
    have restApart : KeysApart middle (done ++ [row] ++ rows) := by
      unfold KeysApart
      rw [keys, append_assoc]
      exact apart
    obtain ⟨grouped, find', functions', names'⟩ := ih grouped restApart rest
    exact ⟨by simpa using grouped, find'.trans find, functions'.trans functions,
      names'.trans names⟩

theorem OrderFree.mono {func : String} {values values' : List (Option Value)}
    (free : OrderFree ext functions func values) (fewer : values'.Subperm values) :
    OrderFree ext functions func values' :=
  fun l l' same drawn => free l l' same (drawn.trans fewer)

theorem keys_of_perm (same : rows.Perm rows') (grouped : Grouped ext sink rows)
    (grouped' : Grouped ext sink' rows') (names : sink.key = sink'.key) :
    sink.groups.map Prod.fst = sink'.groups.map Prod.fst := by
  have unit : ∀ groups : List (List Value × AggregateGroup), Sorted compareKeys groups →
      Sorted compareKeys (groups.map fun entry => (entry.1, ())) := by
    intro groups sorted
    exact pairwise_map.mpr sorted
  have present : ∀ {sink : AggregationSink} {rows : List (String → Option Value)},
      Grouped ext sink rows → ∀ key, (key, ()) ∈ sink.groups.map (fun entry => (entry.1, ())) ↔
        ∃ row ∈ rows, sink.key row = key := by
    intro sink rows grouped key
    simp only [mem_map, Prod.mk.injEq, and_true, Prod.exists, exists_and_right, exists_eq_right]
    constructor
    · rintro ⟨group, listed⟩
      exact ((grouped.mem key group).mp listed).1
    · rintro ⟨row, inRows, rfl⟩
      exact grouped.total row inRows
  have equal := (unit _ grouped.sorted).eq_of_mem (unit _ grouped'.sorted) (by
    rintro ⟨key, ⟨⟩⟩
    rw [present grouped, present grouped', names]
    simp only [same.mem_iff])
  have := congrArg (List.map Prod.fst) equal
  simpa [Function.comp_def] using this

theorem aggregateRows_perm {withVars : List String} {results results' : List Bindings}
    (same : rows.Perm rows') (apart : KeysApart (new find withVars functions) rows)
    (free : ∀ spec ∈ aggregateSpecs find, OrderFree ext functions spec.func
      (rows.map fun valueFor => valueFor spec.var))
    (done : aggregateRows ext find withVars functions rows = .ok results)
    (done' : aggregateRows ext find withVars functions rows' = .ok results') : results = results' := by
  obtain ⟨sink, fed, finished⟩ := bind_eq_ok_iff.mp done
  obtain ⟨sink', fed', finished'⟩ := bind_eq_ok_iff.mp done'
  have start : Grouped ext (new find withVars functions) [] := by
    refine ⟨rfl, List.Pairwise.nil, by simp, ?_⟩
    simp [new]
  have apart' : KeysApart (new find withVars functions) rows' :=
    fun a inA b inB => apart a (same.mem_iff.mpr inA) b (same.mem_iff.mpr inB)
  obtain ⟨grouped, findOf, functionsOf, names⟩ := start.run (by simpa using apart) fed
  obtain ⟨grouped', findOf', functionsOf', names'⟩ := start.run (by simpa using apart') fed'
  simp only [nil_append] at grouped grouped'
  have keys : sink.key = sink'.key := by
    funext valueFor
    rw [key, key, names, names']
  have saw : sink.sawBinding = sink'.sawBinding := by
    rw [grouped.saw, grouped'.saw, same.isEmpty_eq]
  have findSame : sink.find = find := findOf
  have findSame' : sink'.find = find := findOf'
  have functionsSame : sink.functions = functions := functionsOf
  have functionsSame' : sink'.functions = functions := functionsOf'
  rw [finish, findSame, functionsSame] at finished
  rw [finish, findSame', functionsSame', ← saw] at finished'
  split at finished
  swap
  · rw [if_neg ‹_›] at finished'
    rw [finished] at finished'
    exact Except.ok.inj finished'
  obtain ⟨rowsOut, mapped, out⟩ := bind_eq_ok_iff.mp finished
  rw [if_pos ‹_›] at finished'
  obtain ⟨rowsOut', mapped', out'⟩ := bind_eq_ok_iff.mp finished'
  cases out
  cases out'
  congr 1
  refine mapM_ok_congr ?_ mapped mapped'
  rw [forall₂_iff_zip]
  have sameKeys := keys_of_perm same grouped grouped' keys
  refine ⟨by simpa using congrArg List.length sameKeys, ?_⟩
  rintro ⟨key, group⟩ ⟨key', group'⟩ paired result result' first second
  have equal : key = key' := by
    have pairwise : List.Forall₂ (fun a b : List Value × AggregateGroup => a.1 = b.1)
        sink.groups sink'.groups := by
      rw [← forall₂_map_right_iff, ← forall₂_map_left_iff, sameKeys]
      exact forall₂_same.mpr fun _ _ => rfl
    exact (forall₂_iff_zip.mp pairwise).2 paired
  subst equal
  obtain ⟨inGroups, inGroups'⟩ := of_mem_zip paired
  have made := ((grouped.mem key group).mp inGroups).2
  have made' := ((grouped'.mem key group').mp inGroups').2
  rw [functionsSame, findSame] at made
  rw [functionsSame', findSame', ← keys] at made'
  refine finishAccumulators_perm (same.filter _) ?_ (groupOf_spec made) (groupOf_spec made') first second
  exact fun spec member => (free spec member).mono ((filter_sublist.map _).subperm)

theorem applyWindowFunctions_of_none (rows : List Bindings) (none : find.any FindSpec.isWindow = false) :
    applyWindowFunctions ext functions find rows = .ok rows := by
  have plain : ∀ entry ∈ find.zipIdx, entry.1.isWindow = false := by
    intro entry member
    have inFind : entry.1 ∈ find := (mem_zipIdx' member).2 ▸ getElem_mem _
    simpa using any_eq_false.mp none _ inFind
  unfold applyWindowFunctions
  generalize find.zipIdx = entries at plain
  induction entries with
  | nil => rfl
  | cons entry entries ih =>
    obtain ⟨spec, index⟩ := entry
    have first : spec.isWindow = false := plain (spec, index) (by simp)
    rw [foldlM_cons]
    cases spec with
    | window spec => cases first
    | _ => exact ih fun entry member => plain entry (by simp [member])

end ViciaDb
