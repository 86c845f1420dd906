import ViciaDb.Query.RowMeaning

namespace ViciaDb

open PatternMatcher List
open Pattern (vars)
open WhereClause (asPattern asPlainPattern)

variable {ext : Externals} {functions : FunctionRegistry} {facts : List Fact}
  {patterns : List Pattern} {Source : String → Value → Prop}

variable {c : EdnValue} {x : String} {b : Bindings} {σ : Assignment} {p : Pattern}

theorem substituteValue_of_boundVar (bound : c.boundVar = some x) (b : Bindings) : substituteValue c b =
      match b.lookup (.var x) with
      | some v => evaluatorValueToEdn v
      | none => c := by
  have named := asVariable_eq_of_boundVar bound
  cases found : b.lookup (.var x) <;> simp only [substituteValue, named, found]

theorem substituteValue_of_not_boundVar (unbound : c.boundVar = none)
    (noWildcard : ∀ x, isWildcard x = true → b.lookup (.var x) = none) : substituteValue c b = c := by
  unfold substituteValue
  cases named : c.asVariable with
  | none => rfl
  | some x =>
    cases wild : isWildcard x with
    | true => simp only [noWildcard x wild]
    | false =>
      rw [boundVar_of_asVariable named wild] at unbound
      cases unbound

theorem denotes_evaluatorValueToEdn {v w : Value} (present : v ≠ .null)
    (near : ∀ f g, v = .float f → w = .float g → (ext.f64Near f g = true ↔ f = g)) :
    (evaluatorValueToEdn v).Denotes ext σ w ↔ w = normalizeJoinValue ext v := by
  cases v with
  | null => exact absurd rfl present
  | float f =>
    change (∃ g, w = .float g ∧ ext.f64Near f g = true) ↔ w = .float f
    constructor
    · rintro ⟨g, rfl, close⟩
      rw [(near f g rfl rfl).mp close]
    · rintro rfl
      exact ⟨f, rfl, (near f f rfl rfl).mpr rfl⟩
  | _ =>
    simp only [evaluatorValueToEdn, valueToEdn, EdnValue.Denotes, constantValue, normalizeJoinValue,
      Option.some.injEq]
    exact eq_comm

structure Writable (ext : Externals) (facts : List Fact) (patterns : List Pattern)
    (vars : List String) (b : Bindings) : Prop where
  noWildcard : ∀ x, isWildcard x = true → b.lookup (.var x) = none
  present : ∀ x ∈ vars, b.lookup (.var x) ≠ some .null
  near : ∀ x ∈ vars, ∀ f, b.lookup (.var x) = some (.float f) → ∀ p ∈ patterns, ∀ fact ∈ facts,
    p.names fact.attr = true → ∀ g, fact.value = .float g → (ext.f64Near f g = true ↔ f = g)

theorem Writable.mono {vars vars' : List String}
    (writable : Writable ext facts patterns vars b) (sub : vars' ⊆ vars) :
    Writable ext facts patterns vars' b where
  noWildcard := writable.noWildcard
  present := fun x member => writable.present x (sub member)
  near := fun x member => writable.near x (sub member)

theorem denotes_substituteValue {w : Value} {vars : List String} (agrees : Agrees ext σ b)
    (writable : Writable ext facts patterns vars b) (inVars : ∀ x, c.boundVar = some x → x ∈ vars)
    (known : ∀ g, w = .float g → ∃ p ∈ patterns, ∃ fact ∈ facts, p.names fact.attr = true ∧
      fact.value = .float g) : (substituteValue c b).Denotes ext σ w ↔ c.Denotes ext σ w := by
  cases bound : c.boundVar with
  | none => rw [substituteValue_of_not_boundVar bound writable.noWildcard]
  | some x =>
    rw [substituteValue_of_boundVar bound]
    cases got : b.lookup (.var x) with
    | none => rfl
    | some v =>
      have member := inVars x bound
      have present : v ≠ .null := fun null => writable.present x member (by rw [got, null])
      rw [denotes_of_boundVar bound, agrees x v got, denotes_evaluatorValueToEdn present]
      · exact eq_comm
      · rintro f g rfl same
        obtain ⟨p, inPatterns, fact, inFacts, names, value⟩ := known g same
        exact writable.near x member f got p inPatterns fact inFacts names g value

theorem substitutePatternVars_attr (names : p.namesAttr = true)
    (noWildcard : ∀ x, isWildcard x = true → b.lookup (.var x) = none) :
    (substitutePatternVars p b).attr = p.attr := by
  unfold Pattern.namesAttr at names
  cases real : p.attr with
  | real attr =>
    rw [real] at names
    simp only [substitutePatternVars, real,
      substituteValue_of_not_boundVar (Option.isNone_iff_eq_none.mp names) noWildcard]
  | pseudo pseudo => simp [substitutePatternVars, real]

theorem holds_substitutePatternVars (agrees : Agrees ext σ b) (names : p.namesAttr = true)
    (inPatterns : p ∈ patterns) (writable : Writable ext facts patterns p.vars b) :
    (substitutePatternVars p b).Holds ext σ (factModel ext facts) ↔
      p.Holds ext σ (factModel ext facts) := by
  refine exists_congr fun t => and_congr_right ?_
  rintro ⟨f, inFacts, rfl⟩
  have attr := substitutePatternVars_attr names writable.noWildcard
  unfold Pattern.Instance
  rw [attr]
  cases real : p.attr with
  | pseudo pseudo => rfl
  | real attr =>
    have entity : ∀ x, p.entity.boundVar = some x → x ∈ p.vars := fun x bound => by
      simp [vars, bound]
    have value : ∀ x, p.value.boundVar = some x → x ∈ p.vars := fun x bound => by
      simp [vars, bound]
    refine and_congr ?_ (and_congr_right fun named => ?_)
    · exact denotes_substituteValue agrees writable entity (by simp)
    have known : p.names f.attr = true := by
      unfold Pattern.names
      split
      · rename_i k constant
        rw [constant] at real
        cases real
        exact beq_iff_eq.mpr named
      · rfl
    refine denotes_substituteValue agrees writable value fun g same =>
      ⟨p, inPatterns, f, inFacts, known, ?_⟩
    cases plain : f.value with
    | float h =>
      simp only [Triple.normalize, Fact.triple, plain, normalizeJoinValue] at same
      exact same
    | _ => simp [Triple.normalize, Fact.triple, plain, normalizeJoinValue] at same

theorem boundVar_substituteValue (noWildcard : ∀ x, isWildcard x = true → b.lookup (.var x) = none)
    (bound : (substituteValue c b).boundVar = some x) : c.boundVar = some x ∧ b.lookup (.var x) = none := by
  cases old : c.boundVar with
  | none =>
    rw [substituteValue_of_not_boundVar old noWildcard, old] at bound
    cases bound
  | some y =>
    rw [substituteValue_of_boundVar old] at bound
    cases got : b.lookup (.var y) with
    | none =>
      rw [got] at bound
      simp only [old] at bound
      cases bound
      exact ⟨rfl, got⟩
    | some v =>
      rw [got] at bound
      cases v with
      | null =>
        have constant : (EdnValue.symbol "nil").boundVar = none := by decide
        simp [evaluatorValueToEdn, constant] at bound
      | _ => cases bound

theorem keyword_substituteValue {k : String} (constant : substituteValue c b = .keyword k) :
    c = .keyword k ∨ ∃ x, c.asVariable = some x ∧ b.lookup (.var x) = some (.keyword k) := by
  unfold substituteValue at constant
  split at constant
  · rename_i x named
    split at constant
    · rename_i v got
      cases v <;> cases constant
      exact .inr ⟨x, named, got⟩
    · exact .inl constant
  · exact .inl constant

theorem names_substitutePatternVars {attr : String} (same : (substitutePatternVars p b).attr = p.attr) :
    (substitutePatternVars p b).names attr = p.names attr := by
  simp only [Pattern.names, same]

theorem Spelled.substitute {ps : List Pattern} (spelled : Spelled ext facts patterns Source)
    (sub : ps ⊆ patterns) (names : ∀ p ∈ ps, p.namesAttr = true)
    (noWildcard : ∀ x, isWildcard x = true → b.lookup (.var x) = none)
    (source : ∀ p ∈ ps, ∀ x ∈ p.vars, ∀ v, b.lookup (.var x) = some v → Source x v) :
    Spelled ext facts (ps.map fun p => substitutePatternVars p b) Source where
  placed := by
    rintro p' member f inFacts x v ⟨named, place⟩
    obtain ⟨p, inPs, rfl⟩ := mem_map.mp member
    have attr := substitutePatternVars_attr (names p inPs) noWildcard
    rw [names_substitutePatternVars attr] at named
    refine spelled.placed p (sub inPs) f inFacts x v ⟨named, ?_⟩
    rw [attr] at place
    exact place.imp (fun ⟨bound, same⟩ => ⟨(boundVar_substituteValue noWildcard bound).1, same⟩)
      (Or.imp_right fun ⟨bound, same⟩ => ⟨(boundVar_substituteValue noWildcard bound).1, same⟩)
  ordinary := spelled.ordinary
  alike := spelled.alike
  apart := by
    refine spelled.apart.mono fun k => ?_
    rintro (known | ⟨p', member, constant⟩ | known)
    · obtain ⟨p', member, f, inFacts, named, value⟩ := known
      obtain ⟨p, inPs, rfl⟩ := mem_map.mp member
      rw [names_substitutePatternVars (substitutePatternVars_attr (names p inPs) noWildcard)] at named
      exact .inl ⟨p, sub inPs, f, inFacts, named, value⟩
    · obtain ⟨p, inPs, rfl⟩ := mem_map.mp member
      rcases keyword_substituteValue constant with written | ⟨x, named, got⟩
      · exact .inr (.inl ⟨p, sub inPs, written⟩)
      have notWild : isWildcard x = false := by
        rw [Bool.eq_false_iff]
        intro wild
        rw [noWildcard x wild] at got
        cases got
      have inVars : x ∈ p.vars := by simp [vars, boundVar_of_asVariable named notWild]
      exact .inr (.inr ⟨x, source p inPs x inVars _ got⟩)
    · exact .inr (.inr known)

theorem attr_boundVar_of_namesAttr (names : p.namesAttr = true) :
    (∃ attr, p.attr = .real attr) ∧ p.attr.boundVar = none := by
  unfold Pattern.namesAttr at names
  cases real : p.attr with
  | real attr =>
    rw [real] at names
    exact ⟨⟨attr, rfl⟩, Option.isNone_iff_eq_none.mp names⟩
  | pseudo pseudo =>
    rw [real] at names
    cases names

theorem mem_vars_substitutePatternVars (names : p.namesAttr = true)
    (noWildcard : ∀ x, isWildcard x = true → b.lookup (.var x) = none) :
    x ∈ (substitutePatternVars p b).vars ↔ x ∈ p.vars ∧ b.lookup (.var x) = none := by
  have component : ∀ c : EdnValue, (substituteValue c b).boundVar = some x ↔
      c.boundVar = some x ∧ b.lookup (.var x) = none := by
    intro c
    refine ⟨boundVar_substituteValue noWildcard, fun ⟨bound, absent⟩ => ?_⟩
    rw [substituteValue_of_boundVar bound, absent, bound]
  have entity : (substitutePatternVars p b).entity = substituteValue p.entity b := rfl
  have value : (substitutePatternVars p b).value = substituteValue p.value b := rfl
  rw [vars, vars, substitutePatternVars_attr names noWildcard,
    (attr_boundVar_of_namesAttr names).2, entity, value]
  simp only [mem_append, Option.mem_toList, component, reduceCtorEq, or_false]
  exact or_and_right.symm

section Rows

variable {outs scope : List String} {matcher : PatternMatcher}

variable {b : Bindings} {body : List WhereClause} {σ : Assignment} {model : Set Triple}

variable {rows union : List Bindings} {scope' : List String} {row found : Bindings}

theorem lookup_or {a b : Bindings} (x : String) :
    (a ∪ b).lookup (.var x) = (a.lookup (.var x)).or (b.lookup (.var x)) :=
  Finmap.lookup_union a b _

theorem Scoped.merge (inRows : Scoped Source outs scope rows) (inUnion : Scoped Source outs scope' union)
    {done : List Bindings} (members : ∀ b ∈ done, ∃ row ∈ rows, ∃ found ∈ union, b = row ∪ found) :
    Scoped Source outs (scope ++ scope') done where
  binds := by
    intro b member x
    obtain ⟨row, inRow, found, inFound, rfl⟩ := members b member
    rw [lookup_or, Option.isSome_or, Bool.or_eq_true, inRows.binds row inRow,
      inUnion.binds found inFound, mem_append]
  noWildcard := by
    intro b member x wild
    obtain ⟨row, inRow, found, inFound, rfl⟩ := members b member
    rw [lookup_or, inRows.noWildcard row inRow x wild, inUnion.noWildcard found inFound x wild]
    rfl
  source := by
    intro b member x v got
    obtain ⟨row, inRow, found, inFound, rfl⟩ := members b member
    rw [lookup_or, Option.or_eq_some_iff] at got
    rcases got with got | ⟨-, got⟩
    · exact inRows.source row inRow x v got
    · exact inUnion.source found inFound x v got

theorem agrees_union_iff
    (same : ∀ x v w, row.lookup (.var x) = some v → found.lookup (.var x) = some w → v = w) :
    Agrees ext σ (row ∪ found) ↔ Agrees ext σ row ∧ Agrees ext σ found := by
  constructor
  · intro agrees
    have left : Agrees ext σ row := fun x v got => agrees x v (by rw [lookup_or, got]; rfl)
    refine ⟨left, fun x w got => ?_⟩
    cases old : row.lookup (.var x) with
    | none => exact agrees x w (by rw [lookup_or, old, got]; rfl)
    | some v =>
      rw [← same x v w old got]
      exact left x v old
  · rintro ⟨left, right⟩ x v got
    rw [lookup_or, Option.or_eq_some_iff] at got
    rcases got with got | ⟨-, got⟩
    · exact left x v got
    · exact right x v got

theorem satisfied_of_asPattern {clause : WhereClause} {p : Pattern} (pattern : clause.asPattern = some p) :
    clause.Satisfied ext functions model σ ↔ p.Holds ext σ model := by
  rw [← holds_iff_of_asPattern pattern]
  cases clause with
  | pattern q | ruleInvocation predicate args => simp [WhereClause.Satisfied, WhereClause.Holds]
  | _ => cases pattern

section

variable {select : WhereClause → Option Pattern}
  (isPattern : ∀ clause p, select clause = some p → clause.asPattern = some p)
  (shape : ∀ clause ∈ body, clause.isExpr = true ∨ ∃ p, select clause = some p ∧ p.namesAttr = true)
include isPattern shape

theorem namesAttr_of_shape : ∀ p ∈ body.filterMap select, p.namesAttr = true := by
  intro p member
  obtain ⟨clause, inBody, selected⟩ := mem_filterMap.mp member
  rcases shape clause inBody with isExpr | ⟨q, same, names⟩
  · have pattern := isPattern clause p selected
    cases clause with
    | expr e out => cases pattern
    | _ => cases isExpr
  · cases selected.symm.trans same
    exact names

theorem allSatisfied_split :
    AllSatisfied ext functions model body σ ↔ (∀ p ∈ body.filterMap select, p.Holds ext σ model) ∧
      ∀ clause ∈ body, clause.isExpr = true → clause.Satisfied ext functions model σ := by
  rw [allSatisfied_iff]
  constructor
  · intro all
    refine ⟨fun p member => ?_, fun clause member _ => all clause member⟩
    obtain ⟨clause, inBody, selected⟩ := mem_filterMap.mp member
    exact (satisfied_of_asPattern (isPattern clause p selected)).mp (all clause inBody)
  · rintro ⟨holds, exprs⟩ clause member
    rcases shape clause member with isExpr | ⟨p, selected, -⟩
    · exact exprs clause member isExpr
    · exact (satisfied_of_asPattern (isPattern clause p selected)).mpr
        (holds p (mem_filterMap.mpr ⟨clause, member, selected⟩))

end

variable (ext) in
def substitutedMatches (matcher : PatternMatcher) (ps : List Pattern) (b : Bindings) : List Bindings :=
  (matcher.matchPatterns ext (ps.map fun p => substitutePatternVars p b)).map (withOuter b)

theorem substitutedMatches_eq (ps : List Pattern) (b : Bindings) :
    (if (ps.map fun p => substitutePatternVars p b).isEmpty then [b]
      else (matcher.matchPatterns ext (ps.map fun p => substitutePatternVars p b)).map (withOuter b)) =
      substitutedMatches ext matcher ps b := by
  cases ps with
  | nil => simp [substitutedMatches, matchPatterns, withOuter]
  | cons p rest => rfl

variable (matcher) in
theorem matchPatterns_substitute_spec {ps : List Pattern} (inScope : Scoped Source outs scope [b])
    (spelled : Spelled ext matcher.facts patterns Source) (sub : ps ⊆ patterns)
    (names : ∀ p ∈ ps, p.namesAttr = true) (fresh : ∀ p ∈ ps, ∀ x ∈ p.vars, x ∉ outs)
    (writable : Writable ext matcher.facts patterns (ps.flatMap vars) b) :
    Scoped Source outs (scope ++ ps.flatMap vars) (substitutedMatches ext matcher ps b) ∧
      solutions ext (substitutedMatches ext matcher ps b) =
        {σ | Agrees ext σ b ∧ ∀ p ∈ ps, p.Holds ext σ (factModel ext matcher.facts)} := by
  have inVars : ∀ p ∈ ps, p.vars ⊆ ps.flatMap vars := fun p member x inP =>
    mem_flatMap.mpr ⟨p, member, inP⟩
  have source : ∀ p ∈ ps, ∀ x ∈ p.vars, ∀ v, b.lookup (.var x) = some v → Source x v :=
    fun p member x inP v got => (inScope.source b (by simp) x v got).resolve_right
      (fresh p member x inP)
  have spelled' := spelled.substitute sub names writable.noWildcard source
  have joinable : ∀ p ∈ ps.map fun p => substitutePatternVars p b, p.Joinable outs := by
    intro p' member
    obtain ⟨p, inPs, rfl⟩ := mem_map.mp member
    obtain ⟨⟨attr, real⟩, unbound⟩ := attr_boundVar_of_namesAttr (names p inPs)
    have same := substitutePatternVars_attr (names p inPs) writable.noWildcard
    refine ⟨⟨attr, same.trans real⟩, fun x bound => ?_, fun x inP => ?_⟩
    · rw [same, unbound] at bound
      cases bound
    · exact fresh p inPs x ((mem_vars_substitutePatternVars (names p inPs) writable.noWildcard).mp inP).1
  obtain ⟨fold, found⟩ := foldl_joinWithPattern_spec (.unit Source outs) spelled'
    (List.Subset.refl _) joinable
  have meaning := solutions_foldl_mergeAll (.unit Source outs) spelled' (List.Subset.refl _) joinable
  rw [substitutedMatches, matchPatterns_eq_foldl, fold]
  generalize (ps.map fun p => substitutePatternVars p b).foldl (matcher.mergeAll ext) [∅] = rows
    at found meaning ⊢
  have vars : ∀ x, x ∈ (ps.map fun p => substitutePatternVars p b).flatMap vars ↔
      x ∈ ps.flatMap vars ∧ b.lookup (.var x) = none := by
    intro x
    simp only [mem_flatMap, mem_map, exists_exists_and_eq_and]
    constructor
    · rintro ⟨p, inPs, inP⟩
      obtain ⟨old, absent⟩ :=
        (mem_vars_substitutePatternVars (names p inPs) writable.noWildcard).mp inP
      exact ⟨⟨p, inPs, old⟩, absent⟩
    · rintro ⟨⟨p, inPs, old⟩, absent⟩
      exact ⟨p, inPs, (mem_vars_substitutePatternVars (names p inPs) writable.noWildcard).mpr ⟨old, absent⟩⟩
  -- the matches bind only what the row does not
  have disjoint : ∀ c ∈ rows, ∀ x v w, c.lookup (.var x) = some v → b.lookup (.var x) = some w → v = w := by
    intro c member x v w got old
    have bound := (found.binds c member x).mp (by simp [got])
    rw [nil_append, vars, old] at bound
    cases bound.2
  have holds : ∀ σ, Agrees ext σ b → ((∀ p' ∈ ps.map fun p => substitutePatternVars p b,
      p'.Holds ext σ (factModel ext matcher.facts)) ↔
      ∀ p ∈ ps, p.Holds ext σ (factModel ext matcher.facts)) := by
    intro σ agrees
    rw [forall_mem_map]
    exact forall₂_congr fun p member => holds_substitutePatternVars agrees (names p member)
      (sub member) (writable.mono (inVars p member))
  refine ⟨(found.merge inScope fun r member => ?_).congr fun x => ?_, ?_⟩
  · obtain ⟨c, inRows, rfl⟩ := mem_map.mp member
    exact ⟨c, inRows, b, by simp, rfl⟩
  · rw [nil_append, mem_append, mem_append, vars, ← inScope.binds b (by simp)]
    cases b.lookup (.var x) <;> simp
  · ext σ
    constructor
    · rintro ⟨r, member, agrees⟩
      obtain ⟨c, inRows, rfl⟩ := mem_map.mp member
      obtain ⟨new, old⟩ := (agrees_union_iff (disjoint c inRows)).mp agrees
      exact ⟨old, (holds σ old).mp (meaning.subset ⟨c, inRows, new⟩).2⟩
    · rintro ⟨old, all⟩
      obtain ⟨c, inRows, new⟩ := meaning.symm.subset ⟨⟨∅, by simp, Agrees.empty ext σ⟩, (holds σ old).mpr all⟩
      exact ⟨_, mem_map_of_mem inRows, (agrees_union_iff (disjoint c inRows)).mpr ⟨new, old⟩⟩

/-- The body of a `not` has patterns with named attributes and conditions, over variables of the
    scope. -/
def notBodyFits (scope : List String) (body : List WhereClause) : Bool :=
  body.all fun clause =>
    match clause with
    | .pattern p => p.namesAttr && p.vars.all fun x => decide (x ∈ scope)
    | .expr e none => e.vars.all fun x => decide (x ∈ scope)
    | _ => false

theorem exprsFit_of_notBodyFits {scope' : List String}
    (fits : notBodyFits scope body = true) (sub : scope ⊆ scope') : exprsFit scope' body = true := by
  induction body with
  | nil => rfl
  | cons clause rest ih =>
    rw [notBodyFits, all_cons, Bool.and_eq_true] at fits
    have later := ih fits.2
    match clause, fits.1 with
    | .pattern p, _ => exact later
    | .expr e none, reads =>
      simp only [all_eq_true, decide_eq_true_eq] at reads
      simp only [exprsFit, Option.all_none, Option.toList_none, append_nil, Bool.and_true,
        Bool.and_eq_true, all_eq_true, decide_eq_true_eq]
      exact ⟨fun x member => sub (reads x member), later⟩

theorem outputs_of_notBodyFits (fits : notBodyFits scope body = true) :
    body.filterMap WhereClause.output = [] := by
  rw [filterMap_eq_nil_iff]
  intro clause member
  match clause, all_eq_true.mp fits clause member with
  | .expr _ none, _ => rfl
  | .pattern _, _ => rfl

theorem allSatisfied_congr_of_notBodyFits {τ : Assignment} (fits : notBodyFits scope body = true)
    (same : ∀ x ∈ scope, σ x = τ x) :
    AllSatisfied ext functions model body σ ↔ AllSatisfied ext functions model body τ := by
  rw [allSatisfied_iff, allSatisfied_iff]
  refine forall₂_congr fun clause member => ?_
  match clause, all_eq_true.mp fits clause member with
  | .pattern p, fit =>
    simp only [Bool.and_eq_true, all_eq_true, decide_eq_true_eq] at fit
    simp only [WhereClause.Satisfied]
    exact Pattern.holds_congr fun x inVars => same x (fit.2 x inVars)
  | .expr e none, fit =>
    simp only [all_eq_true, decide_eq_true_eq] at fit
    simp only [WhereClause.Satisfied, valueUnder_congr fun x inVars => same x (fit x inVars)]

theorem evalUnary_udf (name : String) (value : Value) : evalUnary functions (.udf name) value =
    match functions.predicates name with
    | some holds => .ok (.boolean (holds value))
    | none => .error .failed := rfl

theorem valueUnder_of_missing {name : String} (missing : functions.predicates name = none) (arg : Expr)
    (σ : Assignment) (v : Value) : (Expr.unaryOp (.udf name) arg).valueUnder ext functions σ ≠ .ok v := by
  intro value
  rw [Expr.valueUnder, evalExpr] at value
  obtain ⟨w, -, applied⟩ := Except.bind_eq_ok_iff.mp value
  rw [evalUnary_udf, missing] at applied
  cases applied

theorem not_satisfied_of_unknownPredicate {clause : WhereClause} {name : String}
    (unknown : unknownPredicate functions clause = some name) : ¬clause.Satisfied ext functions model σ := by
  unfold unknownPredicate at unknown
  split at unknown
  swap
  · cases unknown
  rename_i name' arg out
  split at unknown
  · rename_i missing
    have failed := @valueUnder_of_missing ext _ _ (Option.isNone_iff_eq_none.mp missing) arg σ
    cases out with
    | none | some out =>
      rintro ⟨v, value, -⟩
      exact failed v value
  · cases unknown

theorem solutions_nonempty {rows : List Bindings} : (solutions ext rows).Nonempty ↔ rows ≠ [] := by
  constructor
  · rintro ⟨σ, b, member, -⟩ rfl
    cases member
  · intro nonempty
    obtain ⟨b, member⟩ := exists_mem_of_ne_nil rows nonempty
    exact ⟨assignmentOf ext b, b, member, agrees_assignmentOf b⟩

variable (ext) in
theorem isEmpty_not_iff {rows : List Bindings} :
    (!rows.isEmpty) = true ↔ (solutions ext rows).Nonempty := by
  rw [solutions_nonempty]
  cases rows <;> simp

theorem notBodyMatches_spec {validAt : Value} {found : Bool} (inScope : Scoped Source outs scope [b])
    (spelled : Spelled ext facts patterns Source) (sub : body.filterMap asPlainPattern ⊆ patterns)
    (fits : notBodyFits scope body = true) (free : ∀ e out, .expr e out ∈ body → e.SpellingFree ext functions)
    (fresh : ∀ p ∈ body.filterMap asPlainPattern, ∀ x ∈ p.vars, x ∉ outs)
    (writable : Writable ext facts patterns ((body.filterMap asPlainPattern).flatMap vars) b)
    (ok : notBodyMatches ext functions body b facts validAt = .ok found) (agrees : Agrees ext σ b) :
    found = true ↔ AllSatisfied ext functions (factModel ext facts) body σ := by
  have shape : ∀ clause ∈ body, clause.isExpr = true ∨
      ∃ p, clause.asPlainPattern = some p ∧ p.namesAttr = true := by
    intro clause member
    have fit := all_eq_true.mp fits clause member
    cases clause with
    | pattern p => exact .inr ⟨p, rfl, (Bool.and_eq_true_iff.mp fit).1⟩
    | expr e out => exact .inl rfl
    | _ => cases fit
  have isPattern : ∀ (clause : WhereClause) p, clause.asPlainPattern = some p →
      clause.asPattern = some p := by
    intro clause p plain
    cases clause <;> first | exact plain | cases plain
  obtain ⟨start, meaning⟩ := matchPatterns_substitute_spec
    (PatternMatcher.fromSliceWithValidAtAndMetadata facts validAt (clausesUsePerFactPseudoAttr body))
    inScope spelled sub (namesAttr_of_shape isPattern shape) fresh writable
  -- with all its variables bound, the body holds under σ as soon as it holds under some
  -- assignment that agrees with the row
  have shared : ∀ τ, Agrees ext τ b → ∀ x ∈ scope, τ x = σ x := by
    intro τ agrees' x member
    obtain ⟨v, got⟩ := Option.isSome_iff_exists.mp ((inScope.binds b (by simp) x).mpr member)
    rw [agrees' x v got, agrees x v got]
  have split : ∀ τ, AllSatisfied ext functions (factModel ext facts) body τ ↔ _ := fun τ =>
    allSatisfied_split isPattern shape
  unfold notBodyMatches at ok
  split at ok
  · rename_i unknown
    cases ok
    obtain ⟨name, found⟩ := Option.isSome_iff_exists.mp unknown
    obtain ⟨clause, member, isUnknown⟩ := exists_of_findSome?_eq_some found
    simp only [Bool.false_eq_true, false_iff, allSatisfied_iff]
    exact fun all => not_satisfied_of_unknownPredicate isUnknown (all clause member)
  · obtain ⟨rows, folded, same⟩ := Except.bind_eq_ok_iff.mp ok
    cases same
    rw [← map_filterMap, substitutedMatches_eq] at folded
    have final := (foldlM_applyExprToRows_spec (factModel ext facts) start free
      (exprsFit_of_notBodyFits fits (subset_append_left _ _))
      (by simp [outputs_of_notBodyFits fits]) folded).2
    rw [meaning] at final
    rw [isEmpty_not_iff ext, final]
    constructor
    · rintro ⟨τ, ⟨agrees', holds⟩, exprs⟩
      exact (allSatisfied_congr_of_notBodyFits fits (shared τ agrees')).mp ((split τ).mpr ⟨holds, exprs⟩)
    · intro all
      obtain ⟨holds, exprs⟩ := (split σ).mp all
      exact ⟨σ, ⟨agrees, holds⟩, exprs⟩

/-- The body of a `not-join` has patterns with named attributes, rule invocations, and expressions
    over the join variables and what the patterns bind. -/
def notJoinBodyFits (joinVars : List String) (body : List WhereClause) : Bool :=
  (body.all fun clause =>
    match clause with
    | .expr _ _ => true
    | clause => clause.asPattern.any Pattern.namesAttr) &&
    exprsFit (joinVars ++ (body.filterMap WhereClause.asPattern).flatMap Pattern.vars) body

def joinPart (joinVars : List String) (b : Bindings) : Bindings :=
  b.filterKeys fun key =>
    match key with
    | .var name => joinVars.contains name
    | _ => false

theorem lookup_joinPart (joinVars : List String) (b : Bindings) (x : String) :
    (joinPart joinVars b).lookup (.var x) = if x ∈ joinVars then b.lookup (.var x) else none := by
  simp [joinPart]

theorem Scoped.joinPart {joinVars : List String}
    (inScope : Scoped Source outs scope [b]) (sub : joinVars ⊆ scope) :
    Scoped Source outs joinVars [ViciaDb.joinPart joinVars b] where
  binds := by
    intro r member x
    rw [mem_singleton.mp member, lookup_joinPart]
    split
    · rename_i inVars
      simp only [inVars, iff_true]
      exact (inScope.binds b (by simp) x).mpr (sub inVars)
    · rename_i outside
      simp [outside]
  noWildcard := by
    intro r member x wild
    rw [mem_singleton.mp member, lookup_joinPart, inScope.noWildcard b (by simp) x wild, ite_self]
  source := by
    intro r member x v got
    rw [mem_singleton.mp member, lookup_joinPart] at got
    split at got
    · exact inScope.source b (by simp) x v got
    · cases got

theorem evaluateNotJoin_spec {joinVars : List String} {found : Bool} (inScope : Scoped Source outs scope [b])
    (spelled : Spelled ext facts patterns Source) (sub : body.filterMap asPattern ⊆ patterns)
    (joins : joinVars ⊆ scope) (fits : notJoinBodyFits joinVars body = true)
    (free : ∀ e out, .expr e out ∈ body → e.SpellingFree ext functions)
    (fresh : ∀ p ∈ body.filterMap asPattern, ∀ x ∈ p.vars, x ∉ outs)
    (writable : Writable ext facts patterns joinVars (joinPart joinVars b))
    (ok : evaluateNotJoin ext functions joinVars body b facts = .ok found) (agrees : Agrees ext σ b) :
    found = true ↔ ∃ τ : Assignment, (∀ x ∈ joinVars, τ x = σ x) ∧
      AllSatisfied ext functions (factModel ext facts) body τ := by
  let ps := body.filterMap asPattern
  let part := joinPart joinVars b
  have shape : ∀ clause ∈ body, clause.isExpr = true ∨
      ∃ p, clause.asPattern = some p ∧ p.namesAttr = true := by
    intro clause member
    have fit := all_eq_true.mp (Bool.and_eq_true_iff.mp fits).1 clause member
    cases clause with
    | expr e out => exact .inl rfl
    | _ => exact .inr (by simpa [Option.any_eq_true] using fit)
  have partScope : Scoped Source outs joinVars [part] := inScope.joinPart joins
  have writable' : Writable ext facts patterns (ps.flatMap vars) part := by
    have unbound : ∀ x, x ∉ joinVars → part.lookup (.var x) = none := fun x outside => by
      rw [lookup_joinPart, if_neg outside]
    refine ⟨writable.noWildcard, fun x _ got => ?_, fun x _ f got => ?_⟩
    · by_cases inVars : x ∈ joinVars
      · exact writable.present x inVars got
      · rw [unbound x inVars] at got
        cases got
    · by_cases inVars : x ∈ joinVars
      · exact writable.near x inVars f got
      · rw [unbound x inVars] at got
        cases got
  obtain ⟨start, meaning⟩ := matchPatterns_substitute_spec (.fromSlice facts) partScope spelled sub
    (namesAttr_of_shape (fun _ _ pattern => pattern) shape) fresh writable'
  have agreesPart : ∀ τ, Agrees ext τ part ↔ ∀ x ∈ joinVars, τ x = σ x := by
    intro τ
    constructor
    · intro agrees' x member
      obtain ⟨v, got⟩ := Option.isSome_iff_exists.mp ((inScope.binds b (by simp) x).mpr (joins member))
      rw [agrees x v got]
      exact agrees' x v (by rw [lookup_joinPart, if_pos member, got])
    · intro same x v got
      rw [lookup_joinPart] at got
      split at got
      · rename_i member
        rw [same x member, agrees x v got]
      · cases got
  have split : ∀ τ, AllSatisfied ext functions (factModel ext facts) body τ ↔ _ := fun τ =>
    allSatisfied_split (fun _ _ pattern => pattern) shape
  have patternsEq : body.filterMap (WhereClause.substituted part) =
      ps.map fun p => substitutePatternVars p part := by
    rw [map_filterMap]
    exact filterMap_congr fun clause _ => by cases clause <;> rfl
  obtain ⟨rows, applied, same⟩ := Except.bind_eq_ok_iff.mp ok
  cases same
  obtain ⟨kept, mapped, same⟩ := Except.bind_eq_ok_iff.mp applied
  cases same
  have mapped : (substitutedMatches ext (.fromSlice facts) ps part).mapM
      (applyExprs ext functions (body.filter WhereClause.isExpr)) = .ok kept := by
    rw [← substitutedMatches_eq, ← patternsEq]
    exact mapped
  have fit := (Bool.and_eq_true_iff.mp fits).2
  rw [← exprsFit_filter] at fit
  have final := solutions_mapM (fun r member result stepped =>
    applyExprs_spec (factModel ext facts) (start.binds r member)
      (fun e out inBody => free e out (mem_filter.mp inBody).1) fit stepped) mapped
  rw [meaning] at final
  rw [isEmpty_not_iff ext, final]
  constructor
  · rintro ⟨τ, ⟨agrees', holds⟩, exprs⟩
    exact ⟨τ, (agreesPart τ).mp agrees', (split τ).mpr ⟨holds, fun clause member isExpr =>
      exprs clause (mem_filter.mpr ⟨member, isExpr⟩) isExpr⟩⟩
  · rintro ⟨τ, same, all⟩
    obtain ⟨holds, exprs⟩ := (split τ).mp all
    exact ⟨τ, ⟨(agreesPart τ).mpr same, holds⟩, fun clause member isExpr =>
      exprs clause (mem_filter.mp member).1 isExpr⟩

end Rows

end ViciaDb
