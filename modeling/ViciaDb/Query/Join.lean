import ViciaDb.Query.Matcher

namespace ViciaDb

open Finmap

def EdnValue.boundVar : EdnValue → Option String
  | .symbol s => if isWildcard s then none else if isVariable s then some s else none
  | _ => none

def AttributeSpec.boundVar : AttributeSpec → Option String
  | .real attr => attr.boundVar
  | .pseudo _ => none

def Pattern.vars (p : Pattern) : List String :=
  p.entity.boundVar.toList ++ p.attr.boundVar.toList ++ p.value.boundVar.toList

def Pattern.names (p : Pattern) (attr : String) : Bool :=
  match p.attr with
  | .real (.keyword k) => k == attr
  | _ => true

/-- A value that the pattern binds to a variable is equal to itself and to no other one. -/
def Pattern.BindsOrdinary (p : Pattern) (facts : List Fact) : Prop :=
  ∀ f ∈ facts, p.names f.attr = true → ∀ x, p.value.boundVar = some x → f.value.isOrdinary = true

variable (ext : Externals)

def EdnValue.accepts (component : EdnValue) (value : Value) : Bool :=
  match component with
  | .symbol s => isWildcard s
  | constant => matchConstant ext constant value

def EdnValue.acceptsAttr (component : EdnValue) (attr : String) : Bool :=
  match component with
  | .symbol s => isWildcard s
  | .keyword expected => expected == attr
  | _ => false

variable {c : EdnValue} {x : String} {v : Value} {b b' : Bindings} {attr : String} {key : Key}

theorem asVariable_of_boundVar (bound : c.boundVar = some x) :
    c = .symbol x ∧ isVariable x = true ∧ isWildcard x = false := by
  cases c with
  | symbol s =>
    simp only [EdnValue.boundVar] at bound
    split at bound
    · cases bound
    · split at bound
      · cases bound
        exact ⟨rfl, ‹_›, by simpa using ‹¬isWildcard _ = true›⟩
      · cases bound
  | _ => cases bound

theorem matchComponent_of_boundVar (bound : c.boundVar = some x) (v : Value) (b : Bindings) :
    matchComponent ext c v b =
      match b.lookup (.var x) with
      | some w => if w.eq v then some b else none
      | none => some (b.insert (.var x) v) := by
  obtain ⟨rfl, isVar, notWild⟩ := asVariable_of_boundVar bound
  simp only [matchComponent, isVar, notWild]
  cases b.lookup (.var x) <;> rfl

theorem matchComponent_of_not_boundVar (unbound : c.boundVar = none) (v : Value) (b : Bindings) :
    matchComponent ext c v b = if c.accepts ext v then some b else none := by
  cases c with
  | symbol s =>
    by_cases wild : isWildcard s = true
    · simp [matchComponent, EdnValue.accepts, wild]
    · simp only [EdnValue.boundVar, wild] at unbound
      simp_all [matchComponent, EdnValue.accepts]
  | _ => rfl

theorem matchAttributeComponent_of_boundVar (bound : c.boundVar = some x) (attr : String) (b : Bindings) :
    matchAttributeComponent c attr b =
      match b.lookup (.var x) with
      | some w => if w = .keyword attr then some b else none
      | none => some (b.insert (.var x) (.keyword attr)) := by
  obtain ⟨rfl, isVar, notWild⟩ := asVariable_of_boundVar bound
  simp only [matchAttributeComponent, isVar, notWild]
  cases b.lookup (.var x) with
  | none => rfl
  | some w => cases w <;> simp

theorem matchAttributeComponent_of_not_boundVar (unbound : c.boundVar = none) (attr : String) (b : Bindings) :
    matchAttributeComponent c attr b = if c.acceptsAttr attr then some b else none := by
  cases c with
  | symbol s =>
    by_cases wild : isWildcard s = true
    · simp [matchAttributeComponent, EdnValue.acceptsAttr, wild]
    · simp only [EdnValue.boundVar, wild] at unbound
      simp_all [matchAttributeComponent, EdnValue.acceptsAttr]
  | _ => simp [matchAttributeComponent, EdnValue.acceptsAttr]

def EdnValue.Matched (c : EdnValue) (accepted : Bool) (agree : Value → Prop) (v : Value)
    (b b' : Bindings) : Prop :=
  c.boundVar = none ∧ accepted = true ∧ b' = b ∨
  ∃ x, c.boundVar = some x ∧ (b' = b ∧ (∃ w, b.lookup (.var x) = some w ∧ agree w) ∨
    b.lookup (.var x) = none ∧ b' = b.insert (.var x) v)

section

variable {accepted : Bool} {agree : Value → Prop}

theorem EdnValue.Matched.of_eq [DecidablePred agree] {result : Option Bindings}
    (fixed : c.boundVar = none → result = if accepted then some b else none)
    (binds : ∀ x, c.boundVar = some x → result = match b.lookup (.var x) with
      | some w => if agree w then some b else none
      | none => some (b.insert (.var x) v)) (found : result = some b') : c.Matched accepted agree v b b' := by
  cases bound : c.boundVar with
  | none =>
    rw [fixed bound] at found
    split at found
    · exact .inl ⟨bound, ‹_›, (Option.some.inj found).symm⟩
    · cases found
  | some x =>
    rw [binds x bound] at found
    refine .inr ⟨x, bound, ?_⟩
    split at found
    next w old =>
      split at found
      · exact .inl ⟨(Option.some.inj found).symm, w, old, ‹_›⟩
      · cases found
    next free => exact .inr ⟨free, (Option.some.inj found).symm⟩

variable (found : c.Matched accepted agree v b b')
include found

theorem EdnValue.Matched.mem (key : Key) :
    key ∈ b' ↔ key ∈ b ∨ ∃ x, c.boundVar = some x ∧ key = .var x := by
  rcases found with ⟨unbound, _, rfl⟩ | ⟨x, bound, ⟨rfl, w, old, _⟩ | ⟨_, rfl⟩⟩
  · simp [unbound]
  · have present := mem_of_lookup_eq_some old
    grind
  · simp only [mem_insert, bound, Option.some.injEq, exists_eq_left']
    tauto

theorem EdnValue.Matched.lookup {w : Value} (got : b'.lookup key = some w) :
    b.lookup key = some w ∨ w = v ∧ ∃ x, c.boundVar = some x ∧ key = .var x := by
  rcases found with ⟨_, _, rfl⟩ | ⟨x, bound, ⟨rfl, _⟩ | ⟨_, rfl⟩⟩
  · exact .inl got
  · exact .inl got
  · rw [lookup_insert_eq_ite] at got
    split at got
    · exact .inr ⟨(Option.some.inj got).symm, x, bound, ‹_›⟩
    · exact .inl got

end

theorem matchComponent_cases (found : matchComponent ext c v b = some b') :
    c.Matched (c.accepts ext v) (·.eq v = true) v b b' :=
  .of_eq (matchComponent_of_not_boundVar ext · v b) (fun _ bound =>
    matchComponent_of_boundVar ext bound v b) found

theorem matchAttributeComponent_cases (found : matchAttributeComponent c attr b = some b') :
    c.Matched (c.acceptsAttr attr) (· = .keyword attr) (.keyword attr) b b' :=
  .of_eq (matchAttributeComponent_of_not_boundVar · attr b) (fun _ bound =>
    matchAttributeComponent_of_boundVar bound attr b) found

@[simp] theorem lookup_var_insertFactMetadata (f : Fact) (b : Bindings) (x : String) :
    (insertFactMetadata f b).lookup (.var x) = b.lookup (.var x) := by
  simp [insertFactMetadata, lookup_insert_of_ne]

theorem isFact_of_mem_insertFactMetadata {f : Fact} (present : key ∈ insertFactMetadata f b) :
    key.isFact = true ∨ key ∈ b := by
  simp only [insertFactMetadata, List.foldl, mem_insert] at present
  rcases present with rfl | rfl | rfl | rfl | present
  · exact .inl rfl
  · exact .inl rfl
  · exact .inl rfl
  · exact .inl rfl
  · exact .inr present

namespace PatternMatcher

variable {matcher : PatternMatcher}

variable {f : Fact} {p : Pattern} {attr : EdnValue} {c : Bindings} {x : String} {w : Value}
    {b : Bindings} {jvar : String} {v : Value}

variable (real : p.attr = .real attr)

variable (found : matcher.matchFactAgainstPattern ext f p = some c)

include real found in
theorem matchFact_real :
    ∃ b₁ b₂ b₃, matchComponent ext p.entity (.ref f.entity) ∅ = some b₁ ∧
      matchAttributeComponent attr f.attr b₁ = some b₂ ∧
      matchComponent ext p.value f.value b₂ = some b₃ ∧
      c = if matcher.retainFactMetadata then insertFactMetadata f b₃ else b₃ := by
  simp only [matchFactAgainstPattern, real, Option.bind_eq_bind, Option.bind_eq_some_iff] at found
  obtain ⟨b₁, first, b₂, second, b₃, third, last⟩ := found
  refine ⟨b₁, b₂, b₃, first, second, third, ?_⟩
  split at last <;> simp_all

include real found in
theorem names_of_match : p.names f.attr = true := by
  unfold Pattern.names
  split
  · rename_i k named
    rw [named] at real
    cases real
    obtain ⟨b₁, b₂, b₃, -, second, -, -⟩ := matchFact_real ext named found
    simp only [matchAttributeComponent] at second
    split at second
    · assumption
    · cases second
  · rfl

include real found in
theorem matchFact_binds (x : String) :
    (c.lookup (.var x)).isSome ↔ x ∈ p.vars := by
  obtain ⟨b₁, b₂, b₃, first, second, third, rfl⟩ := matchFact_real ext real found
  have same : ((if matcher.retainFactMetadata then insertFactMetadata f b₃ else b₃).lookup
      (.var x)).isSome ↔ .var x ∈ b₃ := by
    rw [← lookup_isSome]
    split <;> simp
  rw [same, (matchComponent_cases ext third).mem, (matchAttributeComponent_cases second).mem,
    (matchComponent_cases ext first).mem]
  simp [Pattern.vars, real, AttributeSpec.boundVar, eq_comm, or_assoc, notMem_empty]

include real found in
theorem matchFact_lookup (got : c.lookup (.var x) = some w) :
    p.entity.boundVar = some x ∧ w = .ref f.entity ∨
      attr.boundVar = some x ∧ w = .keyword f.attr ∨ p.value.boundVar = some x ∧ w = f.value := by
  obtain ⟨b₁, b₂, b₃, first, second, third, rfl⟩ := matchFact_real ext real found
  have got₃ : b₃.lookup (.var x) = some w := by
    split at got
    · simpa using got
    · exact got
  rcases (matchComponent_cases ext third).lookup got₃ with got₂ | ⟨rfl, y, bound, ⟨⟩⟩
  · rcases (matchAttributeComponent_cases second).lookup got₂ with got₁ | ⟨rfl, y, bound, ⟨⟩⟩
    · rcases (matchComponent_cases ext first).lookup got₁ with got₀ | ⟨rfl, y, bound, ⟨⟩⟩
      · simp at got₀
      · exact .inl ⟨bound, rfl⟩
    · exact .inr (.inl ⟨bound, rfl⟩)
  · exact .inr (.inr ⟨bound, rfl⟩)

include real found in
theorem matchFact_mem {key : Key} (present : key ∈ c) : key.isFact = true ∨ ∃ x ∈ p.vars, key = .var x := by
  obtain ⟨b₁, b₂, b₃, first, second, third, rfl⟩ := matchFact_real ext real found
  have inMatch : key.isFact = true ∨ key ∈ b₃ := by
    split at present
    · exact isFact_of_mem_insertFactMetadata present
    · exact .inr present
  refine inMatch.imp_right fun present => ?_
  rw [(matchComponent_cases ext third).mem, (matchAttributeComponent_cases second).mem,
    (matchComponent_cases ext first).mem] at present
  simp only [notMem_empty, false_or] at present
  obtain (⟨x, bound, rfl⟩ | ⟨x, bound, rfl⟩) | ⟨x, bound, rfl⟩ := present <;>
    exact ⟨x, by simp [Pattern.vars, real, AttributeSpec.boundVar, bound], rfl⟩

theorem mergeCandidate_eq_some {r : Bindings} :
    mergeCandidate ext b c = some r ↔ consistent (sameJoinValue ext) b c = true ∧
      r = c.filterKeys Key.isFact ∪ b ∪ c := by
  unfold mergeCandidate
  split
  · rename_i agree
    simp only [agree, Option.some.injEq, true_and]
    exact eq_comm
  · simp_all

theorem consistent_iff {same : Value → Value → Bool} :
    consistent same b c = true ↔ ∀ key, key.isFact = false → ∀ v, b.lookup key = some v →
      ∀ w, c.lookup key = some w → same v w = true := by
  simp only [consistent, decide_eq_true_eq, mem_keys, Option.mem_def]
  constructor
  · intro agree key visible v old w new
    exact agree key (mem_of_lookup_eq_some new) visible v old w new
  · intro agree key _ visible v old w new
    exact agree key visible v old w new

theorem isOrdinary_normalizeJoinValue (v : Value) :
    (normalizeJoinValue ext v).isOrdinary = v.isOrdinary := by
  cases v <;> rfl

include real found in
theorem matchFact_ordinary {facts : List Fact} (ordinary : p.BindsOrdinary facts) (inFacts : f ∈ facts)
    (got : c.lookup (.var x) = some w) : w.isOrdinary = true := by
  rcases matchFact_lookup ext real found got with ⟨_, rfl⟩ | ⟨_, rfl⟩ | ⟨bound, rfl⟩
  · rfl
  · rfl
  · exact ordinary f inFacts (names_of_match ext real found) x bound

theorem boundVar_of_asVariable {c : EdnValue} (named : c.asVariable = some x)
    (notWild : isWildcard x = false) : c.boundVar = some x := by
  cases c with
  | symbol s =>
    simp only [EdnValue.asVariable] at named
    split at named
    · cases named
      simp [EdnValue.boundVar, notWild, ‹isVariable _ = true›]
    · cases named
  | _ => cases named

theorem asVariable_eq_of_boundVar {c : EdnValue} (bound : c.boundVar = some x) :
    c.asVariable = some x := by
  obtain ⟨rfl, isVar, _⟩ := asVariable_of_boundVar bound
  simp [EdnValue.asVariable, isVar]

theorem applyBindingToComponent_eq_self {c : EdnValue}
    (free : ∀ x, c.asVariable = some x → b.lookup (.var x) = none) : applyBindingToComponent c b = c := by
  cases c with
  | symbol s =>
    by_cases isVar : isVariable s = true
    · have absent := free s (by simp [EdnValue.asVariable, isVar])
      simp [applyBindingToComponent, isVar, absent]
    · simp [applyBindingToComponent, isVar]
  | _ => rfl

include real in
theorem joinVar_eq_some {first : Bindings} (found : joinVar first p = some jvar) :
    (p.entity.asVariable = some jvar ∨ p.value.asVariable = some jvar) ∧
      (first.lookup (.var jvar)).isSome := by
  simp only [joinVar, real, Option.or_eq_some_iff, Option.filter_eq_some_iff] at found
  rcases found with ⟨named, present⟩ | ⟨_, named, present⟩
  · exact ⟨.inl named, present⟩
  · exact ⟨.inr named, present⟩

include real in
theorem joinVar_eq_none {first : Bindings} (missing : joinVar first p = none)
    (named : p.entity.asVariable = some x ∨ p.value.asVariable = some x) : first.lookup (.var x) = none := by
  simp only [joinVar, real, Option.or_eq_none_iff, Option.filter_eq_none_iff] at missing
  rcases named with named | named
  · simpa using missing.1 x named
  · simpa using missing.2 x named

theorem lookup_merge (b c : Bindings) (key : Key) : (c.filterKeys Key.isFact ∪ b ∪ c).lookup key =
      if key.isFact then (c.lookup key).or (b.lookup key)
      else (b.lookup key).or (c.lookup key) := by
  rw [lookup_union, lookup_union, lookup_filterKeys]
  split
  · cases c.lookup key <;> cases b.lookup key <;> rfl
  · rfl

theorem mergeCandidate_of_disjoint (disjoint : ∀ key, key.isFact = false → key ∈ c → b.lookup key = none) :
    mergeCandidate ext b c = some (c ∪ b) := by
  rw [mergeCandidate_eq_some]
  constructor
  · rw [consistent_iff]
    intro key visible v old w new
    rw [disjoint key visible (mem_of_lookup_eq_some new)] at old
    cases old
  · apply ext_lookup
    intro key
    rw [lookup_merge, lookup_union]
    split
    · rfl
    rename_i visible
    cases new : c.lookup key with
    | none => cases b.lookup key <;> rfl
    | some w =>
      rw [disjoint key (by simpa using visible) (mem_of_lookup_eq_some new)]
      rfl

theorem mergeCandidate_insert {k : String} (known : b.lookup (.var x) = some (.keyword k))
    (disjoint : ∀ key, key.isFact = false → key ∈ c → b.lookup key = none) :
    mergeCandidate ext b (c.insert (.var x) (.keyword k)) = some (c ∪ b) := by
  obtain ⟨agree, same⟩ := (mergeCandidate_eq_some ext).mp (mergeCandidate_of_disjoint ext disjoint)
  rw [mergeCandidate_eq_some]
  constructor
  · rw [consistent_iff] at agree ⊢
    intro key visible v old w new
    rw [lookup_insert_eq_ite] at new
    split at new
    · subst key
      rw [known] at old
      cases old
      cases new
      simp [sameJoinValue, normalizeJoinValue, Value.eq]
    · exact agree key visible v old w new
  · rw [same]
    apply ext_lookup
    intro key
    rw [lookup_merge, lookup_merge, lookup_insert_eq_ite]
    by_cases isVar : key = .var x
    · subst isVar
      simp [known]
    · rw [if_neg isVar]

theorem mergeCandidate_of_differ (old : b.lookup (.var x) = some v) (new : c.lookup (.var x) = some w)
    (differ : sameJoinValue ext v w = false) : mergeCandidate ext b c = none := by
  have disagree : ¬consistent (sameJoinValue ext) b c = true := by
    intro agree
    rw [consistent_iff.mp agree (.var x) rfl v old w new] at differ
    cases differ
  simp [mergeCandidate, disagree]

theorem mergeCandidate_of_missed (old : b.lookup (.var jvar) = some v) (new : c.lookup (.var jvar) = some w)
    (ordinaryV : v.isOrdinary = true) (ordinaryW : w.isOrdinary = true)
    (missed : (normalizeJoinValue ext w).hashEq (normalizeJoinValue ext v) = false) :
    mergeCandidate ext b c = none := by
  rw [← isOrdinary_normalizeJoinValue ext] at ordinaryV ordinaryW
  apply mergeCandidate_of_differ ext old new
  rw [Bool.eq_false_iff] at missed ⊢
  intro same
  have equal := (Value.eq_iff ordinaryV ordinaryW).mp same
  exact missed ((Value.hashEq_iff ordinaryW).mpr equal.symm)

theorem matchComponent_insert {c : EdnValue} (other : c.boundVar ≠ some x) (v w : Value) (b : Bindings) :
    matchComponent ext c v (b.insert (.var x) w) =
      (matchComponent ext c v b).map fun row => row.insert (.var x) w := by
  cases bound : c.boundVar with
  | none =>
    simp only [matchComponent_of_not_boundVar ext bound]
    split <;> rfl
  | some y =>
    have differ : (Key.var y) ≠ .var x := by
      rintro ⟨⟩
      exact other bound
    simp only [matchComponent_of_boundVar ext bound, lookup_insert_of_ne _ differ]
    cases b.lookup (.var y) with
    | none => simp [insert_insert_of_ne _ differ]
    | some old =>
      simp only
      split <;> rfl

theorem insertFactMetadata_insert (f : Fact) (b : Bindings) (x : String) (w : Value) :
    insertFactMetadata f (b.insert (.var x) w) =
      (insertFactMetadata f b).insert (.var x) w := by
  apply ext_lookup
  intro key
  simp only [insertFactMetadata, List.foldl, lookup_insert_eq_ite]
  by_cases same : key = .var x
  · simp [same]
  · simp [same]

include real in
theorem matchFact_resolvedAttr (bound : attr.boundVar = some x)
    (notEntity : p.entity.boundVar ≠ some x) (notValue : p.value.boundVar ≠ some x) :
    matcher.matchFactAgainstPattern ext f p =
      (matcher.matchFactAgainstPattern ext f { p with attr := .real (.keyword f.attr) }).map
        fun row => row.insert (.var x) (.keyword f.attr) := by
  simp only [matchFactAgainstPattern, real, Option.bind_eq_bind]
  cases first : matchComponent ext p.entity (.ref f.entity) ∅ with
  | none => rfl
  | some b =>
    have fresh : b.lookup (.var x) = none := by
      rw [lookup_eq_none, (matchComponent_cases ext first).mem]
      simp [notMem_empty, notEntity]
    have varStep : matchAttributeComponent attr f.attr b = some (b.insert (.var x) (.keyword f.attr)) := by
      rw [matchAttributeComponent_of_boundVar bound, fresh]
    have nameStep : matchAttributeComponent (.keyword f.attr) f.attr b = some b := by
      simp [matchAttributeComponent]
    simp only [Option.bind_some, varStep, nameStep, matchComponent_insert ext notValue]
    cases matchComponent ext p.value f.value b with
    | none => rfl
    | some row =>
      simp only [Option.map_some, Option.bind_some, insertFactMetadata_insert]
      split <;> rfl

theorem matchFact_otherAttr (other : v ≠ .keyword f.attr) :
    matcher.matchFactAgainstPattern ext f { p with attr := .real (valueToEdn v) } = none := by
  cases v with
  | keyword k =>
    have different : k ≠ f.attr := fun same => other (by rw [same])
    simp [matchFactAgainstPattern, matchAttributeComponent, valueToEdn, different]
  | _ => simp [matchFactAgainstPattern, matchAttributeComponent, valueToEdn]

include real in
theorem storedMetadata_real (b : Bindings) : storedMetadata ext p b = none := by
  simp [storedMetadata, real]

include real in
theorem matchPatternWithBindings_of_free (freeEntity : ∀ x, p.entity.asVariable = some x → b.lookup (.var x) = none)
    (freeValue : ∀ x, p.value.asVariable = some x → b.lookup (.var x) = none)
    (freeAttr : ∀ x, attr.asVariable = some x → b.lookup (.var x) = none) :
    matcher.matchPatternWithBindings ext p b =
      (matcher.matchPattern ext p).filterMap (mergeCandidate ext b) := by
  have same : applyBindingsToPattern p b = p := by
    cases p
    simp_all [applyBindingsToPattern, applyBindingToComponent_eq_self]
  simp only [matchPatternWithBindings, storedMetadata_real ext real, matchPatternWithBindingsScan,
    same, matchPattern, List.filterMap_filterMap]
  apply List.filterMap_congr
  intro f _
  cases found : matcher.matchFactAgainstPattern ext f p with
  | none => rfl
  | some c =>
    have disjoint : ∀ key, key.isFact = false → key ∈ c → b.lookup key = none := by
      intro key visible present
      rcases matchFact_mem ext real found present with isFact | ⟨x, inPattern, rfl⟩
      · rw [isFact] at visible
        cases visible
      simp only [Pattern.vars, real, AttributeSpec.boundVar, List.mem_append, Option.mem_toList] at inPattern
      rcases inPattern with (bound | bound) | bound
      · exact freeEntity x (asVariable_eq_of_boundVar bound)
      · exact freeAttr x (asVariable_eq_of_boundVar bound)
      · exact freeValue x (asVariable_eq_of_boundVar bound)
    have agree : consistent Value.eq b c = true := by
      rw [consistent_iff]
      intro key visible v old w new
      rw [disjoint key visible (mem_of_lookup_eq_some new)] at old
      cases old
    simp [mergeCandidate_of_disjoint ext disjoint, agree]

include real in
theorem matchPatternWithBindings_of_attr (bound : attr.boundVar = some x)
    (known : b.lookup (.var x) = some v) (apart : ∀ f ∈ matcher.facts,
      normalizeJoinValue ext v = .ref (ext.keywordId f.attr) → v = .keyword f.attr)
    (freeEntity : ∀ y, p.entity.asVariable = some y → b.lookup (.var y) = none)
    (freeValue : ∀ y, p.value.asVariable = some y → b.lookup (.var y) = none) :
    matcher.matchPatternWithBindings ext p b =
      (matcher.matchPattern ext p).filterMap (mergeCandidate ext b) := by
  obtain ⟨rfl, isVar, _⟩ := asVariable_of_boundVar bound
  have resolved : applyBindingsToPattern p b = { p with attr := .real (valueToEdn v) } := by
    have named : applyBindingToComponent (.symbol x) b = valueToEdn v := by
      simp [applyBindingToComponent, isVar, known]
    simp [applyBindingsToPattern, real, named, applyBindingToComponent_eq_self freeEntity,
      applyBindingToComponent_eq_self freeValue]
  have notEntity : p.entity.boundVar ≠ some x := by
    intro same
    have absent := freeEntity x (asVariable_eq_of_boundVar same)
    rw [known] at absent
    cases absent
  have notValue : p.value.boundVar ≠ some x := by
    intro same
    have absent := freeValue x (asVariable_eq_of_boundVar same)
    rw [known] at absent
    cases absent
  simp only [matchPatternWithBindings, storedMetadata_real ext real, matchPatternWithBindingsScan,
    resolved, matchPattern, List.filterMap_filterMap]
  apply List.filterMap_congr
  intro f member
  rw [matchFact_resolvedAttr ext real bound notEntity notValue]
  by_cases sameAttr : v = .keyword f.attr
  · subst sameAttr
    rw [show valueToEdn (.keyword f.attr) = .keyword f.attr from rfl]
    cases found : matcher.matchFactAgainstPattern ext f { p with attr := .real (.keyword f.attr) } with
    | none => rfl
    | some c =>
      have disjoint : ∀ key, key.isFact = false → key ∈ c → b.lookup key = none := by
        intro key visible present
        rcases matchFact_mem ext rfl found present with isFact | ⟨y, inPattern, rfl⟩
        · rw [isFact] at visible
          cases visible
        simp only [Pattern.vars, AttributeSpec.boundVar, EdnValue.boundVar, List.mem_append,
          Option.mem_toList] at inPattern
        rcases inPattern with (named | named) | named
        · exact freeEntity y (asVariable_eq_of_boundVar named)
        · cases named
        · exact freeValue y (asVariable_eq_of_boundVar named)
      have agree : consistent Value.eq b c = true := by
        rw [consistent_iff]
        intro key visible v old w new
        rw [disjoint key visible (mem_of_lookup_eq_some new)] at old
        cases old
      simp [agree, mergeCandidate_insert ext known disjoint]
  · rw [matchFact_otherAttr ext sameAttr]
    cases matcher.matchFactAgainstPattern ext f { p with attr := .real (.keyword f.attr) } with
    | none => rfl
    | some c =>
      have differ : sameJoinValue ext v (.keyword f.attr) = false := by
        rw [Bool.eq_false_iff]
        intro same
        refine sameAttr (apart f member ?_)
        cases v <;> simp_all [sameJoinValue, normalizeJoinValue, Value.eq]
      exact (mergeCandidate_of_differ ext known (lookup_insert _) differ).symm

structure Uniform (rows : List Bindings) : Prop where
  alike : ∀ b ∈ rows, ∀ b' ∈ rows, ∀ x,
    (b.lookup (.var x)).isSome = (b'.lookup (.var x)).isSome
  noWildcard : ∀ b ∈ rows, ∀ x, isWildcard x = true → b.lookup (.var x) = none

/-- Rows that bind only the attribute variable of the pattern name each attribute of the facts by its
    keyword, not by a ref or an alias. -/
def AttrKnown (facts : List Fact) (rows : List Bindings) (p : Pattern) : Prop :=
  ∀ b ∈ rows, ∀ x v, p.attr.boundVar = some x → b.lookup (.var x) = some v →
    (∀ y, p.entity.boundVar = some y → b.lookup (.var y) = none) →
    (∀ y, p.value.boundVar = some y → b.lookup (.var y) = none) →
    ∀ f ∈ facts, normalizeJoinValue ext v = .ref (ext.keywordId f.attr) → v = .keyword f.attr

variable {rows : List Bindings}

theorem Uniform.free (uniform : Uniform rows) {first b : Bindings} (inRows : first ∈ rows) (member : b ∈ rows)
    {x : String} (free : first.lookup (.var x) = none) : b.lookup (.var x) = none := by
  have alike := uniform.alike first inRows b member x
  rw [free] at alike
  simpa using alike.symm

include real in
theorem joinRow_eq (inPattern : jvar ∈ p.vars) (ordinary : p.BindsOrdinary matcher.facts)
    (ordinaryRow : ∀ v, b.lookup (.var jvar) = some v → v.isOrdinary = true)
    (present : (b.lookup (.var jvar)).isSome) :
    matcher.joinRow ext p (matcher.matchPattern ext p) jvar b =
      (matcher.matchPattern ext p).filterMap (mergeCandidate ext b) := by
  obtain ⟨v, old⟩ := Option.isSome_iff_exists.mp present
  simp only [joinRow, old, probe, List.filterMap_filter]
  apply List.filterMap_congr
  intro c member
  obtain ⟨f, inFacts, found⟩ := List.mem_filterMap.mp member
  obtain ⟨w, new⟩ := Option.isSome_iff_exists.mp ((matchFact_binds ext real found jvar).mpr inPattern)
  simp only [new]
  split
  · rfl
  · rename_i missed
    exact (mergeCandidate_of_missed ext old new (ordinaryRow v old)
      (matchFact_ordinary ext real found ordinary inFacts new) (by simpa using missed)).symm

def mergeAll (matcher : PatternMatcher) (rows : List Bindings) (p : Pattern) : List Bindings :=
  rows.flatMap fun b => (matcher.matchPattern ext p).filterMap (mergeCandidate ext b)

theorem mem_mergeAll {r : Bindings} :
    r ∈ matcher.mergeAll ext rows p ↔ ∃ b ∈ rows, ∃ f ∈ matcher.facts, ∃ c,
      matcher.matchFactAgainstPattern ext f p = some c ∧ mergeCandidate ext b c = some r := by
  simp only [mergeAll, matchPattern, List.mem_flatMap, List.mem_filterMap]
  constructor
  · rintro ⟨b, member, c, ⟨f, inFacts, found⟩, merged⟩
    exact ⟨b, member, f, inFacts, c, found, merged⟩
  · rintro ⟨b, member, f, inFacts, c, found, merged⟩
    exact ⟨b, member, c, ⟨f, inFacts, found⟩, merged⟩

include real in
theorem joinWithPattern_eq (uniform : Uniform rows) (ordinary : p.BindsOrdinary matcher.facts)
    (ordinaryRows : ∀ b ∈ rows, ∀ x ∈ p.vars, ∀ v, b.lookup (.var x) = some v → v.isOrdinary = true)
    (attrKnown : AttrKnown ext matcher.facts rows p) :
    matcher.joinWithPattern ext rows p = matcher.mergeAll ext rows p := by
  cases rows with
  | nil => rfl
  | cons first rest =>
    have inRows : first ∈ first :: rest := List.mem_cons_self
    simp only [joinWithPattern, mergeAll]
    cases found : joinVar first p with
    | some jvar =>
      obtain ⟨named, present⟩ := joinVar_eq_some real found
      have notWild : isWildcard jvar = false := by
        rw [Bool.eq_false_iff]
        intro wild
        rw [uniform.noWildcard first inRows jvar wild] at present
        cases present
      have inPattern : jvar ∈ p.vars := by
        rcases named with named | named <;>
          simp [Pattern.vars, boundVar_of_asVariable named notWild]
      apply List.flatMap_congr
      intro b member
      exact joinRow_eq ext real inPattern ordinary (ordinaryRows b member jvar inPattern)
        (uniform.alike first inRows b member jvar ▸ present)
    | none =>
      apply List.flatMap_congr
      intro b member
      have freeEntity : ∀ x, p.entity.asVariable = some x → b.lookup (.var x) = none :=
        fun x named => uniform.free inRows member (joinVar_eq_none real found (.inl named))
      have freeValue : ∀ x, p.value.asVariable = some x → b.lookup (.var x) = none :=
        fun x named => uniform.free inRows member (joinVar_eq_none real found (.inr named))
      by_cases known : ∃ x, attr.boundVar = some x ∧ (b.lookup (.var x)).isSome
      · obtain ⟨x, bound, present⟩ := known
        obtain ⟨v, value⟩ := Option.isSome_iff_exists.mp present
        have apart := attrKnown b member x v (by rw [real]; exact bound) value
          (fun y named => freeEntity y (asVariable_eq_of_boundVar named))
          (fun y named => freeValue y (asVariable_eq_of_boundVar named))
        exact matchPatternWithBindings_of_attr ext real bound value apart freeEntity freeValue
      · refine matchPatternWithBindings_of_free ext real freeEntity freeValue fun x named => ?_
        cases wild : isWildcard x with
        | true => exact uniform.noWildcard b member x wild
        | false =>
          simpa using fun present => known ⟨x, boundVar_of_asVariable named wild, present⟩

theorem storedMetadata_empty (p : Pattern) : storedMetadata ext p ∅ = none := by
  simp only [storedMetadata]
  split
  · rfl
  · simp

theorem joinWithPattern_unit (p : Pattern) :
    matcher.joinWithPattern ext [∅] p = matcher.matchPattern ext p := by
  have noJoin : joinVar ∅ p = none := by
    unfold joinVar
    split
    · rfl
    · simp
  have same : applyBindingsToPattern p ∅ = p := by
    have unchanged : ∀ c : EdnValue, applyBindingToComponent c ∅ = c :=
      fun c => applyBindingToComponent_eq_self fun x _ => lookup_empty _
    cases p with
    | mk entity attr value validFrom validTo =>
      cases attr <;> simp [applyBindingsToPattern, unchanged]
  have agree : ∀ c : Bindings, consistent Value.eq ∅ c = true := by
    intro c
    simp [consistent_iff]
  simp [joinWithPattern, noJoin, matchPatternWithBindings, storedMetadata_empty,
    matchPatternWithBindingsScan, same, agree, matchPattern, union_empty]

theorem matchPatterns_eq_foldl (patterns : List Pattern) :
    matcher.matchPatterns ext patterns = patterns.foldl (matcher.joinWithPattern ext) [∅] := by
  cases patterns with
  | nil => rfl
  | cons first rest => simp [matchPatterns, joinWithPattern_unit]

end PatternMatcher

end ViciaDb
