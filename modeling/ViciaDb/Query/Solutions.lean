import ViciaDb.Query.Join
import ViciaDb.Query.LeastModel

namespace ViciaDb

open EdnValue (acceptsAttr boundVar)
open List
open Pattern (vars)

variable (ext : Externals)

def Agrees (σ : Assignment) (b : Bindings) : Prop :=
  ∀ x v, b.lookup (.var x) = some v → σ x = normalizeJoinValue ext v

variable {σ : Assignment} {b : Bindings} {x : String} {v : Value} {c : EdnValue} {attr : String}
    {τ : Assignment}

theorem Agrees.empty (σ : Assignment) : Agrees ext σ ∅ := by
  intro x v got
  simp at got

variable {ext}

theorem Agrees.of_insert (agrees : Agrees ext σ (b.insert (.var x) v)) (fresh : b.lookup (.var x) = none) :
    Agrees ext σ b := by
  intro y w got
  apply agrees y w
  rwa [Finmap.lookup_insert_of_ne _ (fun same => by rw [same, fresh] at got; cases got)]

theorem Agrees.insert (agrees : Agrees ext σ b) (value : σ x = normalizeJoinValue ext v) :
    Agrees ext σ (b.insert (.var x) v) := by
  intro y w got
  rw [Finmap.lookup_insert_eq_ite] at got
  split at got
  · cases ‹Key.var y = _›
    cases got
    exact value
  · exact agrees y w got

def assignmentOf (ext : Externals) (b : Bindings) : Assignment := fun x =>
  match b.lookup (.var x) with
  | some v => normalizeJoinValue ext v
  | none => .null

theorem agrees_assignmentOf (b : Bindings) : Agrees ext (assignmentOf ext b) b := by
  intro x v got
  simp [assignmentOf, got]

theorem normalizeJoinValue_of_not_keyword (spelled : ∀ k, v ≠ .keyword k) :
    normalizeJoinValue ext v = v := by
  cases v with
  | keyword k => exact absurd rfl (spelled k)
  | _ => rfl

theorem matchConstant_iff (constant : ∀ s, c ≠ .symbol s)
    (apart : ∀ k fk, c = .keyword k → v = .keyword fk → ext.keywordId k = ext.keywordId fk → k = fk) :
    matchConstant ext c v = true ↔ c.Denotes ext σ (normalizeJoinValue ext v) := by
  cases c <;> cases v <;>
    simp_all [matchConstant, EdnValue.Denotes, constantValue, normalizeJoinValue]
  rename_i k fk
  exact ⟨fun same => by rw [same], apart⟩

theorem denotes_of_matchConstant (constant : ∀ s, c ≠ .symbol s) (accepted : matchConstant ext c v = true) :
    c.Denotes ext σ (normalizeJoinValue ext v) := by
  cases c <;> cases v <;>
    simp_all [matchConstant, EdnValue.Denotes, constantValue, normalizeJoinValue]

theorem denotes_of_boundVar (bound : c.boundVar = some x) : c.Denotes ext σ v ↔ σ x = v := by
  obtain ⟨rfl, isVar, notWild⟩ := asVariable_of_boundVar bound
  simp [EdnValue.Denotes, isVar, notWild]

theorem denotesAttr_of_boundVar (bound : c.boundVar = some x) :
    c.DenotesAttr ext σ attr ↔ σ x = .ref (ext.keywordId attr) := by
  obtain ⟨rfl, isVar, notWild⟩ := asVariable_of_boundVar bound
  simp [EdnValue.DenotesAttr, isVar, notWild]

theorem denotes_congr (same : ∀ x, c.boundVar = some x → σ x = τ x) :
    c.Denotes ext σ v ↔ c.Denotes ext τ v := by
  cases bound : c.boundVar with
  | some x => rw [denotes_of_boundVar bound, denotes_of_boundVar bound, same x bound]
  | none =>
    cases c with
    | symbol s =>
      by_cases wild : isWildcard s = true
      · simp [EdnValue.Denotes, wild]
      · have notVar : isVariable s = false := by simpa [boundVar, wild] using bound
        simp [EdnValue.Denotes, notVar]
    | _ => rfl

theorem denotesAttr_congr (same : ∀ x, c.boundVar = some x → σ x = τ x) :
    c.DenotesAttr ext σ attr ↔ c.DenotesAttr ext τ attr := by
  cases bound : c.boundVar with
  | some x => rw [denotesAttr_of_boundVar bound, denotesAttr_of_boundVar bound, same x bound]
  | none =>
    cases c with
    | symbol s =>
      by_cases wild : isWildcard s = true
      · simp [EdnValue.DenotesAttr, wild]
      · have notVar : isVariable s = false := by simpa [boundVar, wild] using bound
        simp [EdnValue.DenotesAttr, notVar]
    | _ => rfl

variable {p : Pattern}

theorem Pattern.holds_congr {model : Set Triple} (same : ∀ x ∈ p.vars, σ x = τ x) :
    p.Holds ext σ model ↔ p.Holds ext τ model := by
  refine exists_congr fun t => and_congr_right fun _ => ?_
  unfold Pattern.Instance
  cases real : p.attr with
  | pseudo pseudo => rfl
  | real attr =>
    refine and_congr (denotes_congr fun x bound => same x ?_) (and_congr
      (denotesAttr_congr fun x bound => same x ?_) (denotes_congr fun x bound => same x ?_))
    · simp [vars, bound]
    · simp [vars, real, AttributeSpec.boundVar, bound]
    · simp [vars, bound]

theorem denotes_of_accepts (accepted : c.accepts ext v = true) (σ : Assignment) :
    c.Denotes ext σ (normalizeJoinValue ext v) := by
  cases c with
  | symbol s => exact .inl accepted
  | _ => exact denotes_of_matchConstant (by simp) accepted

theorem accepts_of_denotes (unbound : c.boundVar = none)
    (apart : ∀ k fk, c = .keyword k → v = .keyword fk → ext.keywordId k = ext.keywordId fk → k = fk)
    (denotes : c.Denotes ext σ (normalizeJoinValue ext v)) : c.accepts ext v = true := by
  cases c with
  | symbol s =>
    rcases denotes with wild | ⟨isVar, _⟩
    · exact wild
    · by_contra notWild
      simp only [EdnValue.accepts] at notWild
      simp [boundVar, notWild, isVar] at unbound
  | _ => exact (matchConstant_iff (by simp) apart).mpr denotes

theorem acceptsAttr_iff (unbound : c.boundVar = none) :
    c.acceptsAttr attr = true ↔ c.DenotesAttr ext σ attr := by
  cases c with
  | symbol s =>
    by_cases wild : isWildcard s = true
    · simp [acceptsAttr, EdnValue.DenotesAttr, wild]
    · simp_all [acceptsAttr, EdnValue.DenotesAttr, boundVar]
  | _ => simp [acceptsAttr, EdnValue.DenotesAttr]

theorem matchComponent_sound {b' : Bindings} (found : matchComponent ext c v b = some b')
    (ordinary : ∀ x, c.boundVar = some x → v.isOrdinary = true)
    (ordinaryRow : ∀ x w, b.lookup (.var x) = some w → w.isOrdinary = true) (agrees : Agrees ext σ b') :
    Agrees ext σ b ∧ c.Denotes ext σ (normalizeJoinValue ext v) := by
  rcases matchComponent_cases ext found with
    ⟨unbound, accepted, rfl⟩ | ⟨x, bound, ⟨rfl, w, old, same⟩ | ⟨fresh, rfl⟩⟩
  · exact ⟨agrees, denotes_of_accepts accepted σ⟩
  · rw [Value.eq_iff (ordinaryRow x w old) (ordinary x bound)] at same
    subst same
    exact ⟨agrees, (denotes_of_boundVar bound).mpr (agrees x w old)⟩
  · exact ⟨agrees.of_insert fresh, (denotes_of_boundVar bound).mpr (agrees x v (Finmap.lookup_insert _))⟩

theorem matchAttributeComponent_sound {b' : Bindings} (found : matchAttributeComponent c attr b = some b')
    (agrees : Agrees ext σ b') : Agrees ext σ b ∧ c.DenotesAttr ext σ attr := by
  rcases matchAttributeComponent_cases found with
    ⟨unbound, accepted, rfl⟩ | ⟨x, bound, ⟨rfl, w, old, rfl⟩ | ⟨fresh, rfl⟩⟩
  · exact ⟨agrees, (acceptsAttr_iff unbound).mp accepted⟩
  · exact ⟨agrees, (denotesAttr_of_boundVar bound).mpr (agrees x _ old)⟩
  · exact ⟨agrees.of_insert fresh, (denotesAttr_of_boundVar bound).mpr (agrees x _ (Finmap.lookup_insert _))⟩

theorem matchComponent_complete (agrees : Agrees ext σ b)
    (ordinary : ∀ x, c.boundVar = some x → v.isOrdinary = true)
    (apart : ∀ k fk, c = .keyword k → v = .keyword fk → ext.keywordId k = ext.keywordId fk → k = fk)
    (exact : ∀ x w, c.boundVar = some x → b.lookup (.var x) = some w → w = v)
    (denotes : c.Denotes ext σ (normalizeJoinValue ext v)) :
    ∃ b', matchComponent ext c v b = some b' ∧ Agrees ext σ b' := by
  cases bound : c.boundVar with
  | none =>
    rw [matchComponent_of_not_boundVar ext bound, accepts_of_denotes bound apart denotes]
    exact ⟨b, rfl, agrees⟩
  | some x =>
    rw [matchComponent_of_boundVar ext bound]
    cases old : b.lookup (.var x) with
    | none => exact ⟨_, rfl, agrees.insert ((denotes_of_boundVar bound).mp denotes)⟩
    | some w =>
      obtain rfl : w = v := exact x w bound old
      have same : w.eq w = true := (Value.eq_iff (ordinary x bound) (ordinary x bound)).mpr rfl
      simp only [same, if_true]
      exact ⟨b, rfl, agrees⟩

theorem matchAttributeComponent_complete (agrees : Agrees ext σ b)
    (fresh : ∀ x, c.boundVar = some x → b.lookup (.var x) = none) (denotes : c.DenotesAttr ext σ attr) :
    ∃ b', matchAttributeComponent c attr b = some b' ∧ Agrees ext σ b' := by
  cases bound : c.boundVar with
  | none =>
    rw [matchAttributeComponent_of_not_boundVar bound, (acceptsAttr_iff bound).mpr denotes]
    exact ⟨b, rfl, agrees⟩
  | some x =>
    rw [matchAttributeComponent_of_boundVar bound, fresh x bound]
    exact ⟨_, rfl, agrees.insert ((denotesAttr_of_boundVar bound).mp denotes)⟩

variable {f : Fact}

theorem Agrees.of_insertFactMetadata {retain : Bool} :
    Agrees ext σ (if retain then insertFactMetadata f b else b) ↔ Agrees ext σ b := by
  cases retain <;> simp [Agrees]

def Pattern.AttrApart (p : Pattern) : Prop :=
  ∀ x, p.attr.boundVar = some x → p.entity.boundVar ≠ some x ∧ p.value.boundVar ≠ some x

def Pattern.Loops (p : Pattern) : Prop :=
  ∃ x, p.entity.boundVar = some x ∧ p.value.boundVar = some x

theorem names_of_instance (inst : p.Instance ext σ (f.triple.normalize ext)) : p.names f.attr = true := by
  unfold Pattern.names
  split
  · rename_i k named
    simp only [Pattern.Instance, named] at inst
    simpa [Triple.normalize, Fact.triple, EdnValue.DenotesAttr] using inst.2.1
  · rfl

variable {attr : EdnValue}

namespace PatternMatcher

variable {matcher : PatternMatcher}

variable {c : Bindings} {σ : Assignment}

theorem matchFact_sound (real : p.attr = .real attr)
    (ordinary : ∀ x, p.value.boundVar = some x → f.value.isOrdinary = true)
    (found : matcher.matchFactAgainstPattern ext f p = some c) (agrees : Agrees ext σ c) :
    p.Instance ext σ (f.triple.normalize ext) := by
  obtain ⟨b₁, b₂, b₃, first, second, third, rfl⟩ := matchFact_real ext real found
  rw [Agrees.of_insertFactMetadata] at agrees
  have ordinaryNames : ∀ x w, b₂.lookup (.var x) = some w → w.isOrdinary = true := by
    intro x w got
    rcases (matchAttributeComponent_cases second).lookup got with got | ⟨rfl, -⟩
    · rcases (matchComponent_cases ext first).lookup got with got | ⟨rfl, -⟩
      · simp at got
      · rfl
    · rfl
  obtain ⟨agrees₂, value⟩ := matchComponent_sound third ordinary ordinaryNames agrees
  obtain ⟨agrees₁, name⟩ := matchAttributeComponent_sound second agrees₂
  obtain ⟨_, entity⟩ := matchComponent_sound first (fun _ _ => rfl) (by simp) agrees₁
  simp only [Pattern.Instance, real]
  exact ⟨entity, name, value⟩

theorem matchFact_complete (real : p.attr = .real attr)
    (ordinary : ∀ x, p.value.boundVar = some x → f.value.isOrdinary = true) (attrApart : p.AttrApart)
    (apart : ∀ k fk, p.value = .keyword k → f.value = .keyword fk →
      ext.keywordId k = ext.keywordId fk → k = fk)
    (spelled : p.Loops → normalizeJoinValue ext f.value = .ref f.entity → f.value = .ref f.entity)
    (inst : p.Instance ext σ (f.triple.normalize ext)) :
    ∃ c, matcher.matchFactAgainstPattern ext f p = some c ∧ Agrees ext σ c := by
  simp only [Pattern.Instance, real] at inst
  obtain ⟨entity, name, value⟩ : p.entity.Denotes ext σ (.ref f.entity) ∧
    attr.DenotesAttr ext σ f.attr ∧ p.value.Denotes ext σ (normalizeJoinValue ext f.value) := inst
  have named : p.attr.boundVar = attr.boundVar := by rw [real]; rfl
  obtain ⟨b₁, first, agrees₁⟩ := matchComponent_complete (v := .ref f.entity) (Agrees.empty ext σ)
    (fun _ _ => rfl) (by simp) (by simp) entity
  have freshAttr : ∀ x, attr.boundVar = some x → b₁.lookup (.var x) = none := by
    intro x bound
    rw [Finmap.lookup_eq_none, (matchComponent_cases ext first).mem]
    simp [Finmap.notMem_empty, (attrApart x (named.trans bound)).1]
  obtain ⟨b₂, second, agrees₂⟩ := matchAttributeComponent_complete agrees₁ freshAttr name
  -- a variable met before in value position is the entity variable, spelled as a ref
  have exact : ∀ x w, p.value.boundVar = some x → b₂.lookup (.var x) = some w → w = f.value := by
    intro x w bound old
    rcases (matchAttributeComponent_cases second).lookup old with old | ⟨rfl, y, isAttr, ⟨⟩⟩
    · rcases (matchComponent_cases ext first).lookup old with old | ⟨rfl, y, isEntity, ⟨⟩⟩
      · simp at old
      · have reached := (denotes_of_boundVar isEntity).mp entity
        have target := (denotes_of_boundVar bound).mp value
        exact (spelled ⟨x, isEntity, bound⟩ (target.symm.trans reached)).symm
    · exact absurd bound (attrApart x (named.trans isAttr)).2
  obtain ⟨b₃, third, agrees₃⟩ := matchComponent_complete agrees₂ ordinary apart exact value
  refine ⟨if matcher.retainFactMetadata then insertFactMetadata f b₃ else b₃, ?_,
    Agrees.of_insertFactMetadata.mpr agrees₃⟩
  simp only [matchFactAgainstPattern, real, first, second, third, Option.bind_eq_bind, Option.bind_some]
  split <;> rfl

theorem mergeCandidate_sound {b r : Bindings}
    (ordinaryLeft : ∀ x v, Key.var x ∈ c → b.lookup (.var x) = some v → v.isOrdinary = true)
    (ordinaryRight : ∀ x w, c.lookup (.var x) = some w → w.isOrdinary = true)
    (found : mergeCandidate ext b c = some r) (agrees : Agrees ext σ r) :
    Agrees ext σ b ∧ Agrees ext σ c := by
  obtain ⟨agree, rfl⟩ := (mergeCandidate_eq_some ext).mp found
  have left : Agrees ext σ b := by
    intro x v got
    apply agrees x v
    simp [lookup_merge, got]
  refine ⟨left, fun x w got => ?_⟩
  cases old : b.lookup (.var x) with
  | none =>
    apply agrees x w
    simp [lookup_merge, got, old]
  | some v =>
    have same := consistent_iff.mp agree (.var x) rfl v old w got
    have ordinaryV := ordinaryLeft x v (Finmap.mem_of_lookup_eq_some got) old
    have ordinaryW := ordinaryRight x w got
    rw [← isOrdinary_normalizeJoinValue ext] at ordinaryV ordinaryW
    rw [sameJoinValue, Value.eq_iff ordinaryV ordinaryW] at same
    rw [left x v old, same]

theorem mergeCandidate_complete {b : Bindings}
    (ordinaryLeft : ∀ x v, Key.var x ∈ c → b.lookup (.var x) = some v → v.isOrdinary = true)
    (ordinaryRight : ∀ x w, c.lookup (.var x) = some w → w.isOrdinary = true)
    (vars : ∀ key ∈ c, key.isFact = true ∨ ∃ x, key = .var x) (left : Agrees ext σ b)
    (right : Agrees ext σ c) : ∃ r, mergeCandidate ext b c = some r ∧ Agrees ext σ r := by
  refine ⟨_, (mergeCandidate_eq_some ext).mpr ⟨consistent_iff.mpr ?_, rfl⟩, ?_⟩
  · intro key visible v old w new
    rcases vars key (Finmap.mem_of_lookup_eq_some new) with isFact | ⟨x, rfl⟩
    · rw [isFact] at visible
      cases visible
    · have ordinaryV := ordinaryLeft x v (Finmap.mem_of_lookup_eq_some new) old
      have ordinaryW := ordinaryRight x w new
      rw [← isOrdinary_normalizeJoinValue ext] at ordinaryV ordinaryW
      rw [sameJoinValue, Value.eq_iff ordinaryV ordinaryW, ← left x v old, ← right x w new]
  · intro x v got
    simp only [lookup_merge, Key.isFact_var, Bool.false_eq_true, if_false, Option.or_eq_some_iff] at got
    rcases got with old | ⟨_, new⟩
    · exact left x v old
    · exact right x v new

end PatternMatcher

def factModel (ext : Externals) (facts : List Fact) : Set Triple :=
  {t | ∃ f ∈ facts, f.triple.normalize ext = t}

def attrFirst (x : String) : List Pattern → Bool
  | [] => false
  | p :: rest =>
    if p.attr.boundVar = some x then true
    else if x ∈ p.vars then false
    else attrFirst x rest

def Pattern.JoinsAfter (earlier : List Pattern) (p : Pattern) : Prop :=
  ∀ x, p.attr.boundVar = some x → x ∈ earlier.flatMap Pattern.vars →
    (∃ y ∈ earlier.flatMap Pattern.vars,
      p.entity.boundVar = some y ∨ p.value.boundVar = some y) ∨ attrFirst x earlier = true

structure RowsOf (facts : List Fact) (earlier : List Pattern) (rows : List Bindings) : Prop where
  binds : ∀ b ∈ rows, ∀ x,
    (b.lookup (.var x)).isSome ↔ x ∈ earlier.flatMap Pattern.vars
  source : ∀ b ∈ rows, ∀ x v, b.lookup (.var x) = some v → ∃ p ∈ earlier, ∃ f ∈ facts,
    v = .ref f.entity ∨ p.names f.attr = true ∧ p.value.boundVar = some x ∧ v = f.value ∨
      p.attr.boundVar = some x ∧ v = .keyword f.attr
  attrFirst : ∀ b ∈ rows, ∀ x, attrFirst x earlier = true →
    ∃ f ∈ facts, b.lookup (.var x) = some (.keyword f.attr)

variable {p : Pattern} {earlier : List Pattern}

theorem RowsOf.unit (facts : List Fact) : RowsOf facts [] [∅] where
  binds := by simp
  source := by simp
  attrFirst := by simp [ViciaDb.attrFirst]

theorem not_isWildcard_of_mem_vars {x : String} (member : x ∈ p.vars) : isWildcard x = false := by
  have bound : ∀ c : EdnValue, c.boundVar = some x → isWildcard x = false :=
    fun c named => (asVariable_of_boundVar named).2.2
  simp only [vars, mem_append, Option.mem_toList] at member
  rcases member with (named | named) | named
  · exact bound _ named
  · cases spec : p.attr with
    | real attr => exact bound attr (by simpa [spec, AttributeSpec.boundVar] using named)
    | pseudo attr => simp [spec, AttributeSpec.boundVar] at named
  · exact bound _ named

variable {rows : List Bindings} {facts : List Fact}

theorem RowsOf.uniform (rowsOf : RowsOf facts earlier rows) : PatternMatcher.Uniform rows where
  alike := by
    intro b member b' member' x
    rw [Bool.eq_iff_iff, rowsOf.binds b member, rowsOf.binds b' member']
  noWildcard := by
    intro b member x wild
    by_contra present
    rw [← ne_eq, Option.ne_none_iff_isSome, rowsOf.binds b member, mem_flatMap] at present
    obtain ⟨p, _, inPattern⟩ := present
    rw [not_isWildcard_of_mem_vars inPattern] at wild
    cases wild

variable {earlier : List Pattern}

theorem RowsOf.ordinary
    (rowsOf : RowsOf facts earlier rows) (ordinary : ∀ p ∈ earlier, p.BindsOrdinary facts) :
    ∀ b ∈ rows, ∀ x v, b.lookup (.var x) = some v → v.isOrdinary = true := by
  intro b member x v got
  obtain ⟨p, inEarlier, f, inFacts, rfl | ⟨names, bound, rfl⟩ | ⟨-, rfl⟩⟩ :=
    rowsOf.source b member x v got
  · rfl
  · exact ordinary p inEarlier f inFacts names x bound
  · rfl

theorem RowsOf.attrKnown (rowsOf : RowsOf facts earlier rows) (joins : p.JoinsAfter earlier)
    (apart : ∀ f ∈ facts, ∀ f' ∈ facts, ext.keywordId f.attr = ext.keywordId f'.attr → f.attr = f'.attr) :
    PatternMatcher.AttrKnown ext facts rows p := by
  intro b member x v named present freeEntity freeValue f inFacts same
  have bound := (rowsOf.binds b member x).mp (by simp [present])
  rcases joins x named bound with ⟨y, bound, other⟩ | first
  · have known := (rowsOf.binds b member y).mpr bound
    rcases other with other | other
    · rw [freeEntity y other] at known
      cases known
    · rw [freeValue y other] at known
      cases known
  · obtain ⟨g, inFacts', value⟩ := rowsOf.attrFirst b member x first
    rw [value] at present
    cases present
    rw [apart g inFacts' f inFacts (Value.ref.inj same)]

theorem attrFirst_append {x : String} (first : attrFirst x (earlier ++ [p]) = true) :
    attrFirst x earlier = true ∨
      x ∉ earlier.flatMap vars ∧ p.attr.boundVar = some x := by
  induction earlier with
  | nil =>
    simp only [nil_append, attrFirst] at first
    split at first
    · exact .inr ⟨by simp, ‹_›⟩
    · split at first <;> cases first
  | cons q rest ih =>
    simp only [cons_append, attrFirst] at first ⊢
    split
    · exact .inl rfl
    rename_i notAttr
    rw [if_neg notAttr] at first
    split
    · rename_i inPattern
      rw [if_pos inPattern] at first
      cases first
    · rename_i notIn
      rw [if_neg notIn] at first
      refine (ih first).imp_right fun ⟨fresh, named⟩ => ⟨?_, named⟩
      rw [flatMap_cons, mem_append]
      exact not_or.mpr ⟨notIn, fresh⟩

namespace PatternMatcher

variable {matcher : PatternMatcher}

theorem lookup_of_merge {b c r : Bindings} (merged : mergeCandidate ext b c = some r) (x : String) :
    r.lookup (.var x) = (b.lookup (.var x)).or (c.lookup (.var x)) := by
  obtain ⟨_, rfl⟩ := (mergeCandidate_eq_some ext).mp merged
  simp [lookup_merge]

end PatternMatcher

open PatternMatcher

variable {matcher : PatternMatcher}

theorem RowsOf.join (rowsOf : RowsOf matcher.facts earlier rows) (real : p.attr = .real attr)
    (attrApart : p.AttrApart) :
    RowsOf matcher.facts (earlier ++ [p]) (matcher.mergeAll ext rows p) where
  binds := by
    intro r member x
    obtain ⟨b, inRows, f, _, c, found, merged⟩ := (mem_mergeAll ext).mp member
    rw [lookup_of_merge merged, Option.isSome_or, Bool.or_eq_true, rowsOf.binds b inRows,
      matchFact_binds ext real found]
    simp
  source := by
    intro r member x v got
    obtain ⟨b, inRows, f, inFacts, c, found, merged⟩ := (mem_mergeAll ext).mp member
    rw [lookup_of_merge merged, Option.or_eq_some_iff] at got
    rcases got with old | ⟨_, new⟩
    · obtain ⟨q, inEarlier, origin⟩ := rowsOf.source b inRows x v old
      exact ⟨q, by simp [inEarlier], origin⟩
    · refine ⟨p, by simp, f, inFacts, ?_⟩
      rcases matchFact_lookup ext real found new with ⟨_, rfl⟩ | ⟨named, rfl⟩ | ⟨bound, rfl⟩
      · exact .inl rfl
      · exact .inr (.inr ⟨by rw [real]; exact named, rfl⟩)
      · exact .inr (.inl ⟨names_of_match ext real found, bound, rfl⟩)
  attrFirst := by
    intro r member x first
    obtain ⟨b, inRows, f, inFacts, c, found, merged⟩ := (mem_mergeAll ext).mp member
    rw [lookup_of_merge merged]
    rcases attrFirst_append first with first | ⟨fresh, named⟩
    · obtain ⟨g, inFacts', value⟩ := rowsOf.attrFirst b inRows x first
      exact ⟨g, inFacts', by rw [value]; rfl⟩
    have absent : b.lookup (.var x) = none := by
      rw [← Option.not_isSome_iff_eq_none, rowsOf.binds b inRows]
      exact fresh
    have inPattern : x ∈ p.vars := by simp [vars, named]
    obtain ⟨w, new⟩ := Option.isSome_iff_exists.mp ((matchFact_binds ext real found x).mpr inPattern)
    rcases matchFact_lookup ext real found new with ⟨other, _⟩ | ⟨_, rfl⟩ | ⟨other, _⟩
    · exact absurd other (attrApart x named).1
    · exact ⟨f, inFacts, by rw [absent, new]; rfl⟩
    · exact absurd other (attrApart x named).2

structure Comparable (ext : Externals) (facts : List Fact) (patterns : List Pattern) : Prop where
  ordinary : ∀ p ∈ patterns, p.BindsOrdinary facts
  values : ∀ p ∈ patterns, ∀ f ∈ facts, p.names f.attr = true → ∀ k fk, p.value = .keyword k →
    f.value = .keyword fk → ext.keywordId k = ext.keywordId fk → k = fk
  loops : ∀ p ∈ patterns, p.Loops → ∀ f ∈ facts, p.names f.attr = true →
    normalizeJoinValue ext f.value = .ref f.entity → f.value = .ref f.entity

structure Ordered (patterns : List Pattern) : Prop where
  real : ∀ p ∈ patterns, ∃ attr, p.attr = .real attr
  attrApart : ∀ p ∈ patterns, p.AttrApart
  joins : ∀ earlier p later, patterns = earlier ++ p :: later → p.JoinsAfter earlier

def Pattern.namesAttr (p : Pattern) : Bool :=
  match p.attr with
  | .real attr => attr.boundVar.isNone
  | .pseudo _ => false

variable {patterns : List Pattern} {rows : List Bindings}

theorem ordered_of_namesAttr {ps : List Pattern} (names : ∀ p ∈ ps, p.namesAttr = true) :
    Ordered ps := by
  have named : ∀ p ∈ ps, ∃ attr, p.attr = .real attr ∧ p.attr.boundVar = none := by
    intro p member
    have fits := names p member
    unfold Pattern.namesAttr at fits
    cases real : p.attr with
    | real attr =>
      rw [real] at fits
      exact ⟨attr, rfl, Option.isNone_iff_eq_none.mp fits⟩
    | pseudo pseudo =>
      rw [real] at fits
      cases fits
  refine ⟨fun p member => ?_, fun p member x bound => ?_, ?_⟩
  · obtain ⟨attr, real, -⟩ := named p member
    exact ⟨attr, real⟩
  · obtain ⟨attr, -, none⟩ := named p member
    rw [none] at bound
    cases bound
  · rintro earlier p later rfl x bound
    obtain ⟨attr, -, none⟩ := named p (by simp)
    rw [none] at bound
    cases bound

variable (attrs : ∀ f ∈ matcher.facts, ∀ f' ∈ matcher.facts,
  ext.keywordId f.attr = ext.keywordId f'.attr → f.attr = f'.attr)

include attrs in
theorem foldl_joinWithPattern (ordered : Ordered patterns)
    (comparable : Comparable ext matcher.facts patterns) (later earlier : List Pattern) (rows : List Bindings)
    (split : patterns = earlier ++ later) (rowsOf : RowsOf matcher.facts earlier rows) :
    later.foldl (matcher.joinWithPattern ext) rows = later.foldl (matcher.mergeAll ext) rows ∧
      RowsOf matcher.facts patterns (later.foldl (matcher.mergeAll ext) rows) := by
  induction later generalizing earlier rows with
  | nil =>
    rw [append_nil] at split
    subst split
    exact ⟨rfl, rowsOf⟩
  | cons p rest ih =>
    obtain ⟨attr, real⟩ := ordered.real p (by simp [split])
    have joined : matcher.joinWithPattern ext rows p = matcher.mergeAll ext rows p :=
      joinWithPattern_eq ext real rowsOf.uniform (comparable.ordinary p (by simp [split]))
        (fun b member x _ v => rowsOf.ordinary
          (fun q inEarlier => comparable.ordinary q (by simp [split, inEarlier])) b member x v)
        (rowsOf.attrKnown (ordered.joins earlier p rest split) attrs)
    rw [foldl_cons, foldl_cons, joined]
    exact ih (earlier ++ [p]) _ (by simp [split]) (rowsOf.join real (ordered.attrApart p (by simp [split])))

include attrs in
theorem matchPatterns_eq (ordered : Ordered patterns) (comparable : Comparable ext matcher.facts patterns) :
    matcher.matchPatterns ext patterns = patterns.foldl (matcher.mergeAll ext) [∅] ∧
      RowsOf matcher.facts patterns (matcher.matchPatterns ext patterns) := by
  obtain ⟨same, rowsOf⟩  :=
    foldl_joinWithPattern attrs ordered comparable patterns [] [∅] rfl (.unit _)
  rw [matchPatterns_eq_foldl, same]
  exact ⟨rfl, rowsOf⟩

def OrdinaryOn (vars : List String) (rows : List Bindings) : Prop :=
  ∀ b ∈ rows, ∀ x ∈ vars, ∀ v, b.lookup (.var x) = some v → v.isOrdinary = true

theorem OrdinaryOn.unit (vars : List String) : OrdinaryOn vars [∅] := by
  simp [OrdinaryOn]

theorem OrdinaryOn.mergeAll {vars : List String} (ordinaryRows : OrdinaryOn vars rows)
    (real : p.attr = .real attr) (ordinary : p.BindsOrdinary matcher.facts) :
    OrdinaryOn vars (matcher.mergeAll ext rows p) := by
  intro r member x inVars v got
  obtain ⟨b, inRows, f, inFacts, c, found, merged⟩ := (mem_mergeAll ext).mp member
  rw [lookup_of_merge merged, Option.or_eq_some_iff] at got
  rcases got with old | ⟨-, new⟩
  · exact ordinaryRows b inRows x inVars v old
  · exact matchFact_ordinary ext real found ordinary inFacts new

theorem OrdinaryOn.of_mem_match {vars : List String} {b c : Bindings} (ordinaryRows : OrdinaryOn vars rows)
    (real : p.attr = .real attr) (sub : p.vars ⊆ vars) (inRows : b ∈ rows)
    (found : matcher.matchFactAgainstPattern ext f p = some c) :
    ∀ x v, Key.var x ∈ c → b.lookup (.var x) = some v → v.isOrdinary = true := by
  intro x v present old
  have bound := (matchFact_binds ext real found x).mp (Finmap.lookup_isSome.mpr present)
  exact ordinaryRows b inRows x (sub bound) v old

theorem foldl_mergeAll_sound {r : Bindings}
    {σ : Assignment} (real : ∀ p ∈ patterns, ∃ attr, p.attr = .real attr)
    (ordinary : ∀ p ∈ patterns, p.BindsOrdinary matcher.facts)
    (ordinaryRows : OrdinaryOn (patterns.flatMap vars) rows)
    (member : r ∈ patterns.foldl (matcher.mergeAll ext) rows) (agrees : Agrees ext σ r) :
    (∃ b ∈ rows, Agrees ext σ b) ∧
      ∀ p ∈ patterns, p.Holds ext σ (factModel ext matcher.facts) := by
  induction patterns generalizing rows with
  | nil => exact ⟨⟨r, member, agrees⟩, by simp⟩
  | cons p rest ih =>
    obtain ⟨attr, isReal⟩ := real p (by simp)
    have later : OrdinaryOn (rest.flatMap vars) (matcher.mergeAll ext rows p) :=
      OrdinaryOn.mergeAll (fun b member x inRest => ordinaryRows b member x (by simp [inRest]))
        isReal (ordinary p (by simp))
    obtain ⟨⟨b', joined, agrees'⟩, holds⟩ :=
      ih (fun q inRest => real q (by simp [inRest])) (fun q inRest => ordinary q (by simp [inRest]))
        later member
    obtain ⟨b, inRows, f, inFacts, c, found, merged⟩ := (mem_mergeAll ext).mp joined
    obtain ⟨left, right⟩ := mergeCandidate_sound (ordinaryRows.of_mem_match isReal (by simp) inRows found)
      (fun x w got => matchFact_ordinary ext isReal found (ordinary p (by simp)) inFacts got) merged agrees'
    refine ⟨⟨b, inRows, left⟩, ?_⟩
    intro q inPatterns
    rcases mem_cons.mp inPatterns with rfl | inRest
    · exact ⟨_, ⟨f, inFacts, rfl⟩, matchFact_sound isReal
        (ordinary q (by simp) f inFacts (names_of_match ext isReal found)) found right⟩
    · exact holds q inRest

theorem foldl_mergeAll_complete {b : Bindings} {σ : Assignment}
    (real : ∀ p ∈ patterns, ∃ attr, p.attr = .real attr) (attrApart : ∀ p ∈ patterns, p.AttrApart)
    (comparable : Comparable ext matcher.facts patterns)
    (ordinaryRows : OrdinaryOn (patterns.flatMap vars) rows) (inRows : b ∈ rows) (agrees : Agrees ext σ b)
    (holds : ∀ p ∈ patterns, p.Holds ext σ (factModel ext matcher.facts)) :
    ∃ r ∈ patterns.foldl (matcher.mergeAll ext) rows, Agrees ext σ r := by
  induction patterns generalizing rows b with
  | nil => exact ⟨b, inRows, agrees⟩
  | cons p rest ih =>
    obtain ⟨attr, isReal⟩ := real p (by simp)
    obtain ⟨_, ⟨f, inFacts, rfl⟩, inst⟩ := holds p (by simp)
    obtain ⟨c, found, agreesMatch⟩ : ∃ c, matcher.matchFactAgainstPattern ext f p = some c ∧ Agrees ext σ c :=
      matchFact_complete isReal (comparable.ordinary p (by simp) f inFacts (names_of_instance inst))
        (attrApart p (by simp)) (comparable.values p (by simp) f inFacts (names_of_instance inst))
        (fun loops => comparable.loops p (by simp) loops f inFacts (names_of_instance inst)) inst
    obtain ⟨r, merged, agreesMerged⟩ := mergeCandidate_complete
      (ordinaryRows.of_mem_match isReal (by simp) inRows found)
      (fun x w got => matchFact_ordinary ext isReal found (comparable.ordinary p (by simp)) inFacts got)
      (fun key present => (matchFact_mem ext isReal found present).imp_right
        fun ⟨x, _, same⟩ => ⟨x, same⟩) agrees agreesMatch
    refine ih (fun q inRest => real q (by simp [inRest])) (fun q inRest => attrApart q (by simp [inRest])) ?_
      (OrdinaryOn.mergeAll (fun b member x inRest => ordinaryRows b member x (by simp [inRest]))
        isReal (comparable.ordinary p (by simp)))
      ((mem_mergeAll ext).mpr ⟨b, inRows, f, inFacts, c, found, merged⟩) agreesMerged
      (fun q inRest => holds q (by simp [inRest]))
    exact {
      ordinary := fun q inRest => comparable.ordinary q (by simp [inRest])
      values := fun q inRest => comparable.values q (by simp [inRest])
      loops := fun q inRest => comparable.loops q (by simp [inRest]) }

end ViciaDb
