import ViciaDb.Query.AggregationOrder

namespace ViciaDb

open Std List

variable {ext : Externals} {functions : FunctionRegistry}

def taken : Option Value → Option Value
  | none | some .null => none
  | some value => some value

section Steps

variable {σ : Type} {func : String} {acc : σ → AggregateAccumulator}
  {step : σ → Value → Except String σ}

theorem foldlM_push
    (takes : ∀ s value, value ≠ .null → (acc s).push ext func (some value) = (step s value).map acc)
    (values : List (Option Value)) (s : σ) :
    values.foldlM (fun acc value => acc.push ext func value) (acc s) =
      ((values.filterMap taken).foldlM step s).map acc := by
  induction values generalizing s with
  | nil => rfl
  | cons value values ih =>
    by_cases skipped : taken value = none
    · have same : (acc s).push ext func value = .ok (acc s) := by
        unfold taken at skipped
        split at skipped <;> first | rfl | cases skipped
      rw [foldlM_cons, same, filterMap_cons_none skipped]
      exact ih s
    · obtain ⟨v, found⟩ := Option.ne_none_iff_exists'.mp skipped
      obtain ⟨rfl, present⟩ : value = some v ∧ v ≠ .null := by
        unfold taken at found
        split at found
        · cases found
        · cases found
        · cases found
          exact ⟨rfl, by assumption⟩
      rw [foldlM_cons, takes s v present, filterMap_cons_some found, foldlM_cons]
      cases step s v with
      | error e => rfl
      | ok s' => exact ih s'

theorem OrderFree.of_commute (acc : σ → AggregateAccumulator) (step : σ → Value → Except String σ)
    (Reached : σ → Prop) {start : σ} {values : List (Option Value)}
    (takes : ∀ s value, value ≠ .null → (acc s).push ext func (some value) = (step s value).map acc)
    (new : AggregateAccumulator.new func functions = .ok (acc start)) (reached : Reached start)
    (keeps : ∀ s x s', Reached s → some x ∈ values → step s x = .ok s' → Reached s')
    (commute : ∀ s x y s' s'', Reached s → some x ∈ values → some y ∈ values →
      step s x = .ok s' → step s' y = .ok s'' → ∃ t, step s y = .ok t ∧ step t x = .ok s'') :
    OrderFree ext functions func values := by
  intro l l' same drawn a a' done done'
  have fed : ∀ x ∈ l.filterMap taken, some x ∈ values := by
    intro x member
    obtain ⟨value, inL, found⟩ := mem_filterMap.mp member
    unfold taken at found
    split at found
    · cases found
    · cases found
    · cases found
      exact drawn.subset inL
  simp only [aggregate, new, Except.bind_eq_ok_iff, Except.ok.injEq, exists_eq_left',
    foldlM_push takes] at done done'
  obtain ⟨_, folded, finished⟩ := done
  obtain ⟨_, folded', finished'⟩ := done'
  cases run : (l.filterMap taken).foldlM step start with
  | error e =>
    rw [run] at folded
    cases folded
  | ok s =>
    rw [foldlM_ok_perm keeps commute (same.filterMap taken) fed reached run] at folded'
    rw [run] at folded
    cases folded
    cases folded'
    exact Except.ok.inj (finished.symm.trans finished')

end Steps

variable {set : ValueSet} {value x y : Value} {values : List (Option Value)} {minimum : Bool}

theorem orderFree_count (values : List (Option Value)) :
    OrderFree ext functions "count" values := by
  refine .of_commute .count (fun n _ => .ok (saturatingAdd n 1)) (fun _ => True)
    ?_ rfl trivial (fun _ _ _ _ _ _ => trivial) ?_
  · intro n value present
    cases value <;> first | rfl | exact absurd rfl present
  · intro n x y s' s'' _ _ _ first second
    exact ⟨s', first, second⟩

def ValueSet.Ordinary (set : ValueSet) : Prop :=
  SortedMap.Sorted Value.cmp set ∧ ∀ entry ∈ set, entry.1.isOrdinary = true

theorem ValueSet.Ordinary.mem_add (ordinary : set.Ordinary) (plain : value.isOrdinary = true)
    (entry : Value × Unit) : entry ∈ set.add value ↔ entry.1 = value ∨ entry ∈ set := by
  have same : ∀ entry ∈ set, value.cmp entry.1 = .eq → entry.1 = value := fun entry member equal =>
    (Value.eq_of_cmp_eq plain (ordinary.2 entry member) equal).symm
  rw [add, SortedMap.mem_insert ordinary.1 same]
  obtain ⟨key, ⟨⟩⟩ := entry
  simp only [Prod.mk.injEq, and_true]
  constructor
  · rintro (rfl | ⟨member, -⟩)
    · exact .inl rfl
    · exact .inr member
  · rintro (rfl | member)
    · exact .inl rfl
    · by_cases equal : key = value
      · exact .inl equal
      · exact .inr ⟨member, equal⟩

theorem ValueSet.Ordinary.add (ordinary : set.Ordinary) (plain : value.isOrdinary = true) :
    (set.add value).Ordinary := by
  refine ⟨SortedMap.sorted_insert ordinary.1, fun entry member => ?_⟩
  rcases (ordinary.mem_add plain entry).mp member with rfl | member
  · exact plain
  · exact ordinary.2 entry member

theorem ValueSet.Ordinary.add_comm (ordinary : set.Ordinary) (plainX : x.isOrdinary = true)
    (plainY : y.isOrdinary = true) : (set.add x).add y = (set.add y).add x := by
  refine ((ordinary.add plainX).add plainY).1.eq_of_mem ((ordinary.add plainY).add plainX).1 fun entry => ?_
  rw [(ordinary.add plainX).mem_add plainY, (ordinary.add plainY).mem_add plainX,
    ordinary.mem_add plainX, ordinary.mem_add plainY]
  exact or_left_comm

variable (ordinary : ∀ value, some value ∈ values → value.isOrdinary = true)

include ordinary in
theorem orderFree_countDistinct :
    OrderFree ext functions "count-distinct" values := by
  refine .of_commute .countDistinct (fun set value => .ok (set.add value)) ValueSet.Ordinary
    ?_ rfl ⟨List.Pairwise.nil, by simp⟩ ?_ ?_
  · intro set value present
    cases value <;> first | rfl | exact absurd rfl present
  · rintro set x _ reached member ⟨⟩
    exact reached.add (ordinary x member)
  · rintro set x y _ _ reached memberX memberY ⟨⟩ ⟨⟩
    exact ⟨_, rfl, by rw [reached.add_comm (ordinary y memberY) (ordinary x memberX)]⟩

def Value.isOrderable : Value → Bool
  | .integer _ | .float _ | .string _ => true
  | _ => false

def preference (minimum : Bool) : Value → Value → Ordering :=
  if minimum then Value.cmp else fun a b => b.cmp a

instance (minimum : Bool) : TransCmp (preference minimum) := by
  cases minimum with
  | true => exact inferInstanceAs (TransCmp Value.cmp)
  | false => exact @Std.TransCmp.opposite _ Value.cmp _

def better (minimum : Bool) (existing value : Value) : Value :=
  if preference minimum value existing = .lt then value else existing

theorem eq_of_preference_eq {a b : Value} (plainA : a.isOrdinary = true)
    (plainB : b.isOrdinary = true) (same : preference minimum a b = .eq) : a = b := by
  cases minimum with
  | true => exact Value.eq_of_cmp_eq plainA plainB same
  | false => exact (Value.eq_of_cmp_eq plainB plainA same).symm

theorem better_comm (plainX : x.isOrdinary = true) (plainY : y.isOrdinary = true) :
    better minimum x y = better minimum y x := by
  unfold better
  cases order : preference minimum x y with
  | lt => simp [OrientedCmp.gt_of_lt order]
  | gt => simp [OrientedCmp.lt_of_gt order]
  | eq => simp [eq_of_preference_eq plainX plainY order]

theorem better_right_comm {e : Value} (plainX : x.isOrdinary = true) (plainY : y.isOrdinary = true) :
    better minimum (better minimum e x) y = better minimum (better minimum e y) x := by
  by_cases beforeX : preference minimum x e = .lt
  · by_cases beforeY : preference minimum y e = .lt
    · have first : better minimum e x = x := by simp [better, beforeX]
      have second : better minimum e y = y := by simp [better, beforeY]
      rw [first, second, better_comm plainX plainY]
    · have after : preference minimum y x ≠ .lt := fun less =>
        beforeY (TransCmp.lt_trans less beforeX)
      simp [better, beforeX, beforeY, after]
  · by_cases beforeY : preference minimum y e = .lt
    · have after : preference minimum x y ≠ .lt := fun less =>
        beforeX (TransCmp.lt_trans less beforeY)
      simp [better, beforeX, beforeY, after]
    · simp [better, beforeX, beforeY]

theorem valueCmp_eq {a b : Value} (kind : a.discriminant = b.discriminant) (orderable : a.isOrderable = true)
    (plainA : a.isOrdinary = true) (plainB : b.isOrdinary = true) : valueCmp ext a b = a.cmp b := by
  cases a with
  | string s =>
    cases b with
    | string t => rfl
    | _ => cases kind
  | integer m =>
    cases b with
    | integer n => rfl
    | _ => cases kind
  | float f =>
    cases b with
    | float g =>
      have numberF : f.isNan = false := Value.isNan_of_isOrdinary plainA
      have numberG : g.isNan = false := Value.isNan_of_isOrdinary plainB
      change _ = if f.isNan && g.isNan then .eq else if f.isNan then .gt else if g.isNan then .lt
        else (f.partialCmp g).getD .eq
      rw [numberF, numberG]
      rfl
    | _ => cases kind
  | _ => exact absurd orderable Bool.false_ne_true

theorem pushMinMax_eq_ok {func : String} {current result : Option Value}
    (plain : value.isOrdinary = true) (plainCurrent : ∀ v ∈ current, v.isOrdinary = true) :
    pushMinMax ext func current minimum value = .ok result ↔ value.isOrderable = true ∧
      (∀ existing ∈ current, existing.discriminant = value.discriminant) ∧
      result = some (current.elim value fun existing => better minimum existing value) := by
  by_cases orderable : value.isOrderable = true
  swap
  · have refused : ∃ e, pushMinMax ext func current minimum value = .error e := by
      cases value <;> first | exact ⟨_, rfl⟩ | exact absurd rfl orderable
    obtain ⟨e, refused⟩ := refused
    simp [refused, orderable]
  cases current with
  | none =>
    have kept : pushMinMax ext func none minimum value = .ok (some value) := by
      cases value <;> first | rfl | cases orderable
    simp [kept, orderable, eq_comm]
  | some existing =>
    have unfolded : pushMinMax ext func (some existing) minimum value =
        if existing.discriminant ≠ value.discriminant then
          .error (func ++ ": cannot compare " ++ valueTypeName existing ++ " and " ++
            valueTypeName value ++ " values")
        else
          let order := valueCmp ext value existing
          if minimum && order.isLT || !minimum && order.isGT then .ok (some value)
          else .ok (some existing) := by
      cases value <;> first | rfl | cases orderable
    by_cases kind : existing.discriminant = value.discriminant
    swap
    · simp [unfolded, kind]
    have ahead : (minimum && (value.cmp existing).isLT || !minimum && (value.cmp existing).isGT) =
        decide (preference minimum value existing = .lt) := by
      cases minimum with
      | true => cases order : value.cmp existing <;> simp [preference, order]
      | false =>
        cases order : value.cmp existing with
        | lt => simp [preference, OrientedCmp.gt_of_lt order]
        | eq => simp [preference, OrientedCmp.eq_comm.mp order]
        | gt => simp [preference, OrientedCmp.lt_of_gt order]
    rw [unfolded]
    simp only [kind, ne_eq, not_true_eq_false, if_false,
      valueCmp_eq kind.symm orderable plain (plainCurrent existing rfl), ahead, orderable,
      Option.elim_some, better, decide_eq_true_eq]
    split <;> simp [kind, eq_comm]

include ordinary in
theorem orderFree_minMax {func : String}
    (new : AggregateAccumulator.new func functions = .ok (.minMax none minimum)) :
    OrderFree ext functions func values := by
  have plainBetter : ∀ e x : Value, e.isOrdinary = true → x.isOrdinary = true →
      (better minimum e x).isOrdinary = true := by
    intro e x plainE plainX
    unfold better
    split <;> assumption
  have kindBetter : ∀ e x : Value, e.discriminant = x.discriminant →
      (better minimum e x).discriminant = x.discriminant := by
    intro e x kind
    unfold better
    split <;> first | rfl | exact kind
  refine .of_commute (fun current => .minMax current minimum)
    (fun current value => pushMinMax ext func current minimum value)
    (fun current => ∀ v ∈ current, v.isOrdinary = true) ?_ new (by simp) ?_ ?_
  · intro current value present
    cases value <;> first | rfl | exact absurd rfl present
  · intro current x after reached member pushed
    have plain := ordinary x member
    obtain ⟨-, -, rfl⟩ := (pushMinMax_eq_ok plain reached).mp pushed
    rintro v ⟨⟩
    cases current with
    | none => exact plain
    | some e => exact plainBetter e x (reached e rfl) plain
  · intro current x y after final reached memberX memberY first second
    have plainX := ordinary x memberX
    have plainY := ordinary y memberY
    obtain ⟨orderableX, kindX, rfl⟩ := (pushMinMax_eq_ok plainX reached).mp first
    cases current with
    | none =>
      obtain ⟨orderableY, kindY, rfl⟩ := (pushMinMax_eq_ok plainY (by simpa using plainX)).mp second
      refine ⟨some y, (pushMinMax_eq_ok plainY reached).mpr ⟨orderableY, by simp, rfl⟩,
        (pushMinMax_eq_ok plainX (by simpa using plainY)).mpr ⟨orderableX, ?_, ?_⟩⟩
      · simpa using (kindY x rfl).symm
      · simp [better_comm plainX plainY]
    | some e =>
      have plainE := reached e rfl
      obtain ⟨orderableY, kindY, rfl⟩ :=
        (pushMinMax_eq_ok plainY (by simpa using plainBetter e x plainE plainX)).mp second
      have kind : e.discriminant = x.discriminant := kindX e rfl
      have kind' : e.discriminant = y.discriminant := by
        rw [kind, ← kindBetter e x kind]
        exact kindY _ rfl
      refine ⟨some (better minimum e y),
        (pushMinMax_eq_ok plainY reached).mpr ⟨orderableY, by simpa using kind', rfl⟩,
        (pushMinMax_eq_ok plainX (by simpa using plainBetter e y plainE plainY)).mpr
          ⟨orderableX, ?_, ?_⟩⟩
      · simpa [kindBetter e y kind'] using kind'.symm.trans kind
      · simp [better_right_comm plainX plainY]

include ordinary in
theorem orderFree_of_ordinary {func : String} (ordered : func ∈ ["count", "count-distinct", "min", "max"]) :
    OrderFree ext functions func values := by
  simp only [mem_cons, not_mem_nil, or_false] at ordered
  rcases ordered with rfl | rfl | rfl | rfl
  · exact orderFree_count values
  · exact orderFree_countDistinct ordinary
  · exact orderFree_minMax ordinary rfl
  · exact orderFree_minMax ordinary rfl

end ViciaDb
