import ViciaDb.Query.Meaning
import ViciaDb.Query.NotClauses
import ViciaDb.Query.PositiveRules

namespace ViciaDb

open PatternMatcher List

def solutions (ext : Externals) (rows : List Bindings) : Set Assignment :=
  {σ | ∃ b ∈ rows, Agrees ext σ b}

def Pattern.Places (p : Pattern) (f : Fact) (x : String) (v : Value) : Prop :=
  p.names f.attr = true ∧ (p.entity.boundVar = some x ∧ v = .ref f.entity ∨
    p.attr.boundVar = some x ∧ v = .keyword f.attr ∨ p.value.boundVar = some x ∧ v = f.value)

/-- No variable is spelled in two ways: `Source` says which values can stand under it, those the patterns
    place there among them. -/
structure Spelled (ext : Externals) (facts : List Fact) (patterns : List Pattern)
    (Source : String → Value → Prop) : Prop where
  placed : ∀ p ∈ patterns, ∀ f ∈ facts, ∀ x v, p.Places f x v → Source x v
  ordinary : ∀ x v, Source x v → v.isOrdinary = true
  alike : ∀ x v w, Source x v → Source x w →
    normalizeJoinValue ext v = normalizeJoinValue ext w → v = w
  apart : Set.InjOn ext.keywordId
    {k | (∃ p ∈ patterns, ∃ f ∈ facts, p.names f.attr = true ∧ f.value = .keyword k) ∨
      (∃ p ∈ patterns, p.value = .keyword k) ∨ ∃ x, Source x (.keyword k)}

/-- The rows bind the variables of the scope, to values of their sources or, for the output
    variables of expressions, to anything. -/
structure Scoped (Source : String → Value → Prop) (outs scope : List String)
    (rows : List Bindings) : Prop where
  binds : ∀ b ∈ rows, ∀ x, (b.lookup (.var x)).isSome ↔ x ∈ scope
  noWildcard : ∀ b ∈ rows, ∀ x, isWildcard x = true → b.lookup (.var x) = none
  source : ∀ b ∈ rows, ∀ x v, b.lookup (.var x) = some v → Source x v ∨ x ∈ outs

variable {ext : Externals} {facts : List Fact} {patterns : List Pattern}
  {Source : String → Value → Prop} {outs scope : List String} {rows : List Bindings}

theorem Scoped.unit (Source : String → Value → Prop) (outs : List String) :
    Scoped Source outs [] [∅] where
  binds := by simp
  noWildcard := by simp
  source := by simp

theorem Scoped.nil (Source : String → Value → Prop) (outs scope : List String) :
    Scoped Source outs scope [] where
  binds := by simp
  noWildcard := by simp
  source := by simp

variable (inScope : Scoped Source outs scope rows)

include inScope in
theorem Scoped.sub {some : List Bindings} (sub : some ⊆ rows) : Scoped Source outs scope some where
  binds := fun b member => inScope.binds b (sub member)
  noWildcard := fun b member => inScope.noWildcard b (sub member)
  source := fun b member => inScope.source b (sub member)

include inScope in
theorem Scoped.congr {scope' : List String} (same : ∀ x, x ∈ scope ↔ x ∈ scope') : Scoped Source outs scope' rows where
  binds := fun b member x => (inScope.binds b member x).trans (same x)
  noWildcard := inScope.noWildcard
  source := inScope.source

theorem Scoped.of_each (each : ∀ b ∈ rows, Scoped Source outs scope [b]) :
    Scoped Source outs scope rows where
  binds := fun b member => (each b member).binds b (by simp)
  noWildcard := fun b member => (each b member).noWildcard b (by simp)
  source := fun b member => (each b member).source b (by simp)

include inScope in
theorem Scoped.uniform : Uniform rows where
  alike := by
    intro b member b' member' x
    rw [Bool.eq_iff_iff, inScope.binds b member, inScope.binds b' member']
  noWildcard := inScope.noWildcard

theorem solutions_nil : solutions ext [] = ∅ := by
  ext σ
  simp [solutions]

section Patterns

variable {matcher : PatternMatcher}

variable {p : Pattern} {maxResults : Nat} {results done : List Bindings} {ps : List Pattern}

variable {f : Fact} {attr : EdnValue} {c : Bindings} {more : List Bindings}

theorem Spelled.comparable (spelled : Spelled ext facts patterns Source) :
    Comparable ext facts patterns where
  ordinary := fun p inPatterns f member names x bound => spelled.ordinary x _
    (spelled.placed p inPatterns f member x f.value ⟨names, .inr (.inr ⟨bound, rfl⟩)⟩)
  values := fun p inPatterns f member names k fk constant value same =>
    spelled.apart (.inr (.inl ⟨p, inPatterns, constant⟩))
      (.inl ⟨p, inPatterns, f, member, names, value⟩) same
  loops := by
    rintro p inPatterns ⟨x, entity, value⟩ f member names same
    have first := spelled.placed p inPatterns f member x (.ref f.entity) ⟨names, .inl ⟨entity, rfl⟩⟩
    have second := spelled.placed p inPatterns f member x f.value ⟨names, .inr (.inr ⟨value, rfl⟩)⟩
    exact spelled.alike x _ _ second first same

theorem Spelled.sub {fewer : List Pattern} (spelled : Spelled ext facts patterns Source)
    (sub : fewer ⊆ patterns) : Spelled ext facts fewer Source where
  placed := fun p member => spelled.placed p (sub member)
  ordinary := spelled.ordinary
  alike := spelled.alike
  apart := spelled.apart.mono fun _ => Or.imp (fun ⟨p, member, named⟩ => ⟨p, sub member, named⟩)
    (Or.imp_left fun ⟨p, member, value⟩ => ⟨p, sub member, value⟩)

theorem places_of_match
    (real : p.attr = .real attr) (found : matcher.matchFactAgainstPattern ext f p = some c)
    {x : String} {v : Value} (got : c.lookup (.var x) = some v) : p.Places f x v := by
  refine ⟨names_of_match ext real found, ?_⟩
  rcases matchFact_lookup ext real found got with ⟨bound, rfl⟩ | ⟨bound, rfl⟩ | ⟨bound, rfl⟩
  · exact .inl ⟨bound, rfl⟩
  · exact .inr (.inl ⟨by rw [real]; exact bound, rfl⟩)
  · exact .inr (.inr ⟨bound, rfl⟩)

/-- What the patterns of a clause list must be like for the matcher to join them by identity. -/
structure Pattern.Joinable (outs : List String) (p : Pattern) : Prop where
  real : ∃ attr, p.attr = .real attr
  attrApart : p.AttrApart
  fresh : ∀ x ∈ p.vars, x ∉ outs

include inScope in
theorem Scoped.attrKnown (spelled : Spelled ext facts patterns Source) (inPatterns : p ∈ patterns)
    (joinable : p.Joinable outs) : AttrKnown ext facts rows p := by
  intro b member x v named present _ _ f inFacts same
  have inVars : x ∈ p.vars := by simp [Pattern.vars, named]
  have names : p.names f.attr = true := by
    unfold Pattern.names
    split
    · rename_i k const
      simp [const, AttributeSpec.boundVar, EdnValue.boundVar] at named
    · rfl
  have known := (inScope.source b member x v present).resolve_right (joinable.fresh x inVars)
  have placed := spelled.placed p inPatterns f inFacts x (.keyword f.attr) ⟨names, .inr (.inl ⟨named, rfl⟩)⟩
  exact spelled.alike x _ _ known placed same

include inScope in
theorem Scoped.ordinaryOn (spelled : Spelled ext facts patterns Source) {vars : List String}
    (fresh : ∀ x ∈ vars, x ∉ outs) : OrdinaryOn vars rows :=
  fun b member x inVars v got =>
    spelled.ordinary x v ((inScope.source b member x v got).resolve_right (fresh x inVars))

variable (spelled : Spelled ext matcher.facts patterns Source)

include inScope spelled in
theorem Scoped.mergeAll (inPatterns : p ∈ patterns) (joinable : p.Joinable outs) :
    Scoped Source outs (scope ++ p.vars) (matcher.mergeAll ext rows p) where
  binds := by
    intro r member x
    obtain ⟨b, inRows, f, _, c, found, merged⟩ := (mem_mergeAll ext).mp member
    obtain ⟨attr, real⟩ := joinable.real
    rw [lookup_of_merge merged, Option.isSome_or, Bool.or_eq_true, inScope.binds b inRows,
      matchFact_binds ext real found, mem_append]
  noWildcard := by
    intro r member x wild
    obtain ⟨b, inRows, f, _, c, found, merged⟩ := (mem_mergeAll ext).mp member
    obtain ⟨attr, real⟩ := joinable.real
    rw [lookup_of_merge merged, inScope.noWildcard b inRows x wild, Option.none_or,
      ← Option.not_isSome_iff_eq_none, matchFact_binds ext real found]
    intro inVars
    rw [not_isWildcard_of_mem_vars inVars] at wild
    cases wild
  source := by
    intro r member x v got
    obtain ⟨b, inRows, f, inFacts, c, found, merged⟩ := (mem_mergeAll ext).mp member
    obtain ⟨attr, real⟩ := joinable.real
    rw [lookup_of_merge merged, Option.or_eq_some_iff] at got
    rcases got with old | ⟨-, new⟩
    · exact inScope.source b inRows x v old
    · exact .inl (spelled.placed p inPatterns f inFacts x v (places_of_match real found new))

theorem pushBounded_eq_ok (ok : pushBounded maxResults results more = .ok done) :
    done = results ++ more := by
  unfold pushBounded at ok
  split at ok
  · cases ok
  · exact (Except.ok.inj ok).symm

theorem appendBounded_eq_ok (ok : appendBounded maxResults results more = .ok done) :
    done = results ++ more := by
  unfold appendBounded at ok
  split at ok
  · cases ok
  · exact pushBounded_eq_ok ok

theorem foldlM_eq_flatMap {step : List Bindings → Bindings → Except String (List Bindings)}
    (found : Bindings → List Bindings)
    (adds : ∀ results b done, step results b = .ok done → done = results ++ found b)
    (ok : rows.foldlM step results = .ok done) : done = results ++ rows.flatMap found := by
  induction rows generalizing results with
  | nil =>
    cases ok
    simp
  | cons b rest ih =>
    rw [foldlM_cons, Except.bind_eq_ok_iff] at ok
    obtain ⟨middle, first, later⟩ := ok
    rw [ih later, adds results b middle first, flatMap_cons, append_assoc]

theorem joinWithPatternBounded_eq_ok (ok : matcher.joinWithPatternBounded ext rows p maxResults = .ok done) :
    done = matcher.joinWithPattern ext rows p := by
  unfold joinWithPatternBounded at ok
  unfold joinWithPattern
  split at ok
  · cases ok
    rfl
  rename_i first rest
  split at ok
  · have all := foldlM_eq_flatMap (matcher.matchPatternWithBindings ext p)
      (fun _ _ _ => appendBounded_eq_ok) ok
    rwa [nil_append] at all
  rename_i jvar _
  obtain ⟨candidates, matched, ok⟩ := Except.bind_eq_ok_iff.mp ok
  obtain rfl : candidates = matcher.matchPattern ext p := pushBounded_eq_ok matched
  have all := foldlM_eq_flatMap (matcher.joinRow ext p (matcher.matchPattern ext p) jvar)
    (fun results b done step => by
      cases present : b.lookup (.var jvar) with
      | none =>
        rw [present] at step
        rw [appendBounded_eq_ok step, joinRow, present]
      | some v =>
        rw [present] at step
        exact pushBounded_eq_ok step) ok
  rwa [nil_append] at all

include inScope spelled in
theorem foldl_joinWithPattern_spec (sub : ps ⊆ patterns) (joinable : ∀ p ∈ ps, p.Joinable outs) :
    ps.foldl (matcher.joinWithPattern ext) rows = ps.foldl (matcher.mergeAll ext) rows ∧
      Scoped Source outs (scope ++ ps.flatMap Pattern.vars) (ps.foldl (matcher.mergeAll ext) rows) := by
  induction ps generalizing rows scope with
  | nil => exact ⟨rfl, by simpa using inScope⟩
  | cons p rest ih =>
    have inPatterns : p ∈ patterns := sub (by simp)
    have fits := joinable p (by simp)
    obtain ⟨attr, real⟩ := fits.real
    have joined : matcher.joinWithPattern ext rows p = matcher.mergeAll ext rows p :=
      joinWithPattern_eq ext real inScope.uniform (spelled.comparable.ordinary p inPatterns)
        (inScope.ordinaryOn spelled fits.fresh) (inScope.attrKnown spelled inPatterns fits)
    rw [foldl_cons, foldl_cons, joined, flatMap_cons, ← append_assoc]
    exact ih (inScope.mergeAll spelled inPatterns fits) (fun q member => sub (by simp [member]))
      (fun q member => joinable q (by simp [member]))

theorem foldlM_joinWithPatternBounded
    (ok : ps.foldlM (fun rows p => matcher.joinWithPatternBounded ext rows p maxResults) rows = .ok done) :
    done = ps.foldl (matcher.joinWithPattern ext) rows := by
  induction ps generalizing rows with
  | nil =>
    cases ok
    rfl
  | cons p rest ih =>
    rw [foldlM_cons, Except.bind_eq_ok_iff] at ok
    obtain ⟨middle, first, later⟩ := ok
    rw [ih later, joinWithPatternBounded_eq_ok first, foldl_cons]

include inScope spelled in
theorem solutions_foldl_mergeAll (sub : ps ⊆ patterns) (joinable : ∀ p ∈ ps, p.Joinable outs) :
    solutions ext (ps.foldl (matcher.mergeAll ext) rows) =
      {σ ∈ solutions ext rows | ∀ p ∈ ps, p.Holds ext σ (factModel ext matcher.facts)} := by
  have ordinaryRows : OrdinaryOn (ps.flatMap Pattern.vars) rows := by
    refine inScope.ordinaryOn spelled fun x member => ?_
    obtain ⟨p, inPs, inVars⟩ := mem_flatMap.mp member
    exact (joinable p inPs).fresh x inVars
  have real : ∀ p ∈ ps, ∃ attr, p.attr = .real attr := fun p member => (joinable p member).real
  apply Set.Subset.antisymm
  · rintro σ ⟨r, member, agrees⟩
    exact foldl_mergeAll_sound real (spelled.sub sub).comparable.ordinary ordinaryRows member agrees
  · rintro σ ⟨⟨b, inRows, agrees⟩, holds⟩
    exact foldl_mergeAll_complete real (fun p member => (joinable p member).attrApart)
      (spelled.sub sub).comparable ordinaryRows inRows agrees holds

include inScope spelled in
theorem matchPatternsBounded_spec (sub : ps ⊆ patterns) (joinable : ∀ p ∈ ps, p.Joinable outs)
    (ok : matcher.matchPatternsBounded ext ps rows maxResults = .ok done) :
    Scoped Source outs (scope ++ ps.flatMap Pattern.vars) done ∧ solutions ext done =
      {σ ∈ solutions ext rows | ∀ p ∈ ps, p.Holds ext σ (factModel ext matcher.facts)} := by
  unfold matchPatternsBounded at ok
  split at ok
  · cases ok
  · obtain ⟨same, next⟩ := foldl_joinWithPattern_spec inScope spelled sub joinable
    rw [foldlM_joinWithPatternBounded ok, same]
    exact ⟨next, solutions_foldl_mergeAll inScope spelled sub joinable⟩

end Patterns

section Expressions

variable {functions : FunctionRegistry}

def Expr.SpellingFree (ext : Externals) (functions : FunctionRegistry) (e : Expr) : Prop :=
  ∀ b : Bindings, (evalExpr ext functions e b).map (normalizeJoinValue ext) =
    (evalExpr ext functions e (b.mapValues (normalizeJoinValue ext))).map (normalizeJoinValue ext)

variable {e : Expr} {b : Bindings} {σ : Assignment} {out : Option String}
    {result : Option Bindings}

variable {v w : Value} {step : Bindings → Except String (Option Bindings)}
    {kept : List (Option Bindings)} {clauses : List WhereClause}

theorem evalExpr_congr {b' : Bindings} (same : ∀ x ∈ e.vars, b.lookup (.var x) = b'.lookup (.var x)) :
    evalExpr ext functions e b = evalExpr ext functions e b' := by
  induction e with
  | var name => simp only [evalExpr, same name (by simp [Expr.vars])]
  | lit value | slot name => rfl
  | unaryOp op arg ih => simp only [evalExpr, ih same]
  | binOp op lhs rhs ihL ihR =>
    simp only [evalExpr, ihL fun x member => same x (by simp [Expr.vars, member]),
      ihR fun x member => same x (by simp [Expr.vars, member])]

variable (free : e.SpellingFree ext functions)

variable (bound : ∀ x ∈ e.vars, (b.lookup (.var x)).isSome)

include free bound in
theorem evalExpr_eq_valueUnder (agrees : Agrees ext σ b) :
    (evalExpr ext functions e b).map (normalizeJoinValue ext) =
      (e.valueUnder ext functions σ).map (normalizeJoinValue ext) := by
  rw [free b, Expr.valueUnder]
  refine congrArg _ (evalExpr_congr fun x member => ?_)
  obtain ⟨v, got⟩ := Option.isSome_iff_exists.mp (bound x member)
  rw [lookup_assignedRow, if_pos member, Finmap.lookup_mapValues, got, agrees x v got]
  rfl

theorem isTruthy_of_normalizeJoinValue (same : normalizeJoinValue ext w = normalizeJoinValue ext v) :
    isTruthy w = isTruthy v := by
  have invariant : ∀ u, isTruthy (normalizeJoinValue ext u) = isTruthy u := fun u => by
    cases u <;> rfl
  rw [← invariant w, same, invariant]

include free bound in
theorem evalExpr_of_valueUnder (agrees : Agrees ext σ b) (value : e.valueUnder ext functions σ = .ok v) :
    ∃ w, evalExpr ext functions e b = .ok w ∧
      normalizeJoinValue ext w = normalizeJoinValue ext v := by
  obtain ⟨w, found, same⟩ := Except.eq_ok_of_map_eq (evalExpr_eq_valueUnder free bound agrees).symm value
  exact ⟨w, found, same.symm⟩

include free bound in
theorem valueUnder_of_evalExpr (agrees : Agrees ext σ b) (found : evalExpr ext functions e b = .ok w) :
    ∃ v, e.valueUnder ext functions σ = .ok v ∧
      normalizeJoinValue ext w = normalizeJoinValue ext v :=
  Except.eq_ok_of_map_eq (evalExpr_eq_valueUnder free bound agrees) found

theorem applyExpr_eq_ok (ok : applyExpr ext functions e out b = .ok result) (r : Bindings) :
    result = some r ↔ ∃ v, evalExpr ext functions e b = .ok v ∧
      match out with
      | some name => r = b.insert (.var name) v
      | none => isTruthy v = true ∧ r = b := by
  unfold applyExpr at ok
  split at ok
  · rename_i v found
    rw [found]
    cases out with
    | some name =>
      cases ok
      simp only [Option.some.injEq, Except.ok.injEq, exists_eq_left']
      exact eq_comm
    | none =>
      cases ok
      by_cases truthy : isTruthy v = true
      · simp only [truthy, if_true, Option.some.injEq, Except.ok.injEq, exists_eq_left', true_and]
        exact eq_comm
      · simp [truthy]
  · rename_i failed
    cases ok
    simp [failed]
  · cases ok

include bound in
theorem applyExpr_spec (model : Set Triple) (free : e.SpellingFree ext functions)
    (fresh : ∀ x ∈ out, b.lookup (.var x) = none)
    (ok : applyExpr ext functions e out b = .ok result) (σ : Assignment) :
    (∃ r ∈ result, Agrees ext σ r) ↔
      Agrees ext σ b ∧ (WhereClause.expr e out).Satisfied ext functions model σ := by
  have results := applyExpr_eq_ok ok
  cases out with
  | none =>
    simp only [WhereClause.Satisfied, Option.mem_def, results]
    constructor
    · rintro ⟨r, ⟨w, found, truthy, rfl⟩, agrees⟩
      obtain ⟨v, value, same⟩ := valueUnder_of_evalExpr free bound agrees found
      exact ⟨agrees, v, value, by rw [← isTruthy_of_normalizeJoinValue same, truthy]⟩
    · rintro ⟨agrees, v, value, truthy⟩
      obtain ⟨w, found, same⟩ := evalExpr_of_valueUnder free bound agrees value
      exact ⟨b, ⟨w, found, by rw [isTruthy_of_normalizeJoinValue same, truthy], rfl⟩, agrees⟩
  | some name =>
    have absent : b.lookup (.var name) = none := fresh name rfl
    simp only [WhereClause.Satisfied, Option.mem_def, results]
    constructor
    · rintro ⟨r, ⟨w, found, rfl⟩, agrees⟩
      have old : Agrees ext σ b := by
        intro x v got
        apply agrees x v
        rw [Finmap.lookup_insert_eq_ite, if_neg, got]
        intro same
        rw [same, absent] at got
        cases got
      obtain ⟨v, value, same⟩ := valueUnder_of_evalExpr free bound old found
      exact ⟨old, v, value, by rw [agrees name w (Finmap.lookup_insert _), same]⟩
    · rintro ⟨agrees, v, value, output⟩
      obtain ⟨w, found, same⟩ := evalExpr_of_valueUnder free bound agrees value
      exact ⟨_, ⟨w, found, rfl⟩, agrees.insert (by rw [output, same])⟩

theorem mem_reduceOption_mapM (ok : rows.mapM step = .ok kept) {r : Bindings} :
    r ∈ kept.reduceOption ↔ ∃ b ∈ rows, step b = .ok (some r) := by
  rw [reduceOption_mem_iff]
  constructor
  · intro member
    exact mem_of_mapM_ok ok member
  · rintro ⟨b, inRows, stepped⟩
    obtain ⟨result, member, same⟩ := exists_of_mapM_ok ok inRows
    rw [stepped] at same
    cases same
    exact member

theorem solutions_mapM {P : Assignment → Prop} (each : ∀ b ∈ rows, ∀ result, step b = .ok result →
      ∀ σ, (∃ r ∈ result, Agrees ext σ r) ↔ Agrees ext σ b ∧ P σ) (ok : rows.mapM step = .ok kept) :
    solutions ext kept.reduceOption = {σ ∈ solutions ext rows | P σ} := by
  ext σ
  simp only [solutions, Set.mem_ofPred_eq, mem_reduceOption_mapM ok]
  constructor
  · rintro ⟨r, ⟨b, inRows, stepped⟩, agrees⟩
    obtain ⟨old, holds⟩ := (each b inRows _ stepped σ).mp ⟨r, rfl, agrees⟩
    exact ⟨⟨b, inRows, old⟩, holds⟩
  · rintro ⟨⟨b, inRows, agrees⟩, holds⟩
    obtain ⟨result, -, stepped⟩ := exists_of_mapM_ok ok inRows
    obtain ⟨r, rfl, agrees⟩ := (each b inRows _ stepped σ).mpr ⟨agrees, holds⟩
    exact ⟨r, ⟨b, inRows, stepped⟩, agrees⟩

/-- Each expression of the list reads variables of the scope, which earlier outputs extend, and its
    output variable is new. -/
def exprsFit (scope : List String) : List WhereClause → Bool
  | [] => true
  | .expr e out :: rest =>
    e.vars.all (fun x => decide (x ∈ scope)) &&
      out.all (fun x => decide (x ∉ scope) && !isWildcard x) && exprsFit (scope ++ out.toList) rest
  | _ :: rest => exprsFit scope rest

def WhereClause.output : WhereClause → Option String
  | .expr _ out => out
  | _ => none

theorem applyExpr_lookup {r : Bindings} (stepped : applyExpr ext functions e out b = .ok (some r)) :
    ∃ v, ∀ x, r.lookup (.var x) = if x ∈ out then some v else b.lookup (.var x) := by
  obtain ⟨v, -, shape⟩ := (applyExpr_eq_ok stepped r).mp rfl
  refine ⟨v, fun x => ?_⟩
  cases out with
  | none => simp [shape.2]
  | some name => simp [shape, Finmap.lookup_insert_eq_ite, eq_comm]

theorem applyExpr_binds {r : Bindings} (stepped : applyExpr ext functions e out b = .ok (some r))
    (binds : ∀ x, (b.lookup (.var x)).isSome ↔ x ∈ scope) (x : String) :
    (r.lookup (.var x)).isSome ↔ x ∈ scope ++ out.toList := by
  obtain ⟨v, lookup⟩ := applyExpr_lookup stepped
  rw [lookup, mem_append, ← binds, Option.mem_toList]
  split <;> simp_all

include inScope free in
theorem applyExprToRows_spec {done : List Bindings} {model : Set Triple} (reads : ∀ x ∈ e.vars, x ∈ scope)
    (fresh : ∀ x ∈ out, x ∉ scope ∧ isWildcard x = false ∧ x ∈ outs)
    (ok : applyExprToRows ext functions rows (.expr e out) = .ok done) :
    Scoped Source outs (scope ++ out.toList) done ∧ solutions ext done =
      {σ ∈ solutions ext rows | (WhereClause.expr e out).Satisfied ext functions model σ} := by
  obtain ⟨kept, mapped, same⟩ := Except.bind_eq_ok_iff.mp ok
  cases same
  have bound : ∀ b ∈ rows, ∀ x ∈ e.vars, (b.lookup (.var x)).isSome := fun b member x inVars =>
    (inScope.binds b member x).mpr (reads x inVars)
  have absent : ∀ b ∈ rows, ∀ x ∈ out, b.lookup (.var x) = none := by
    intro b member x isOut
    rw [← Option.not_isSome_iff_eq_none, inScope.binds b member]
    exact (fresh x isOut).1
  refine ⟨⟨fun r member => ?_, fun r member x wild => ?_, fun r member x v got => ?_⟩,
    solutions_mapM (fun b member result stepped =>
      applyExpr_spec (bound b member) model free (absent b member) stepped) mapped⟩ <;>
    obtain ⟨b, inRows, stepped⟩ := (mem_reduceOption_mapM mapped).mp member
  · exact applyExpr_binds stepped (inScope.binds b inRows)
  · obtain ⟨v, lookup⟩ := applyExpr_lookup stepped
    have apart : x ∉ out := fun isOut => by simp [(fresh x isOut).2.1] at wild
    rw [lookup, if_neg apart]
    exact inScope.noWildcard b inRows x wild
  · obtain ⟨w, lookup⟩ := applyExpr_lookup stepped
    rw [lookup] at got
    split at got
    · exact .inr (fresh x ‹_›).2.2
    · exact inScope.source b inRows x v got

theorem foldlM_applyExprToRows_spec (model : Set Triple) {done : List Bindings}
    (inScope : Scoped Source outs scope rows)
    (free : ∀ e out, .expr e out ∈ clauses → e.SpellingFree ext functions)
    (fit : exprsFit scope clauses = true) (known : ∀ x ∈ clauses.filterMap WhereClause.output, x ∈ outs)
    (ok : clauses.foldlM (applyExprToRows ext functions) rows = .ok done) :
    Scoped Source outs (scope ++ clauses.filterMap WhereClause.output) done ∧ solutions ext done =
      {σ ∈ solutions ext rows | ∀ clause ∈ clauses, clause.isExpr = true →
        clause.Satisfied ext functions model σ} := by
  induction clauses generalizing rows scope with
  | nil =>
    cases ok
    refine ⟨by simpa using inScope, ?_⟩
    ext σ
    simp
  | cons clause rest ih =>
    rw [foldlM_cons, Except.bind_eq_ok_iff] at ok
    obtain ⟨middle, first, later⟩ := ok
    have freeRest : ∀ e out, .expr e out ∈ rest → e.SpellingFree ext functions :=
      fun e out member => free e out (by simp [member])
    cases clause with
    | expr e out =>
      have isExpr : (WhereClause.expr e out).isExpr = true := rfl
      simp only [exprsFit, Bool.and_eq_true, all_eq_true, decide_eq_true_eq] at fit
      have outputs : (WhereClause.expr e out :: rest).filterMap WhereClause.output =
          out.toList ++ rest.filterMap WhereClause.output := by
        cases out <;> rfl
      rw [outputs] at known ⊢
      have fresh : ∀ x ∈ out, x ∉ scope ∧ isWildcard x = false ∧ x ∈ outs := by
        intro x isOut
        cases isOut
        have checked := fit.1.2
        simp only [Option.all_some, Bool.and_eq_true, decide_eq_true_eq, Bool.not_eq_true'] at checked
        exact ⟨checked.1, checked.2, known x (by simp)⟩
      obtain ⟨next, meaning⟩ : Scoped Source outs (scope ++ out.toList) middle ∧
          solutions ext middle = {σ ∈ solutions ext rows |
            (WhereClause.expr e out).Satisfied ext functions model σ} :=
        applyExprToRows_spec inScope (free e out (by simp)) fit.1.1 fresh first
      obtain ⟨final, restMeaning⟩ := ih next freeRest fit.2 (fun x member => known x (by simp [member])) later
      refine ⟨by rwa [append_assoc] at final, ?_⟩
      rw [restMeaning, meaning]
      ext σ
      simp only [Set.mem_ofPred_eq, forall_mem_cons, isExpr, true_implies, and_assoc]
    | _ =>
      cases first
      obtain ⟨final, restMeaning⟩ := ih inScope freeRest fit known later
      refine ⟨final, ?_⟩
      rw [restMeaning]
      ext σ
      simp [WhereClause.isExpr]

theorem applyExprs_spec (model : Set Triple) (binds : ∀ x, (b.lookup (.var x)).isSome ↔ x ∈ scope)
    (free : ∀ e out, .expr e out ∈ clauses → e.SpellingFree ext functions)
    (fit : exprsFit scope clauses = true)
    (ok : applyExprs ext functions clauses b = .ok result) (σ : Assignment) :
    (∃ r ∈ result, Agrees ext σ r) ↔ Agrees ext σ b ∧ ∀ clause ∈ clauses, clause.isExpr = true →
      clause.Satisfied ext functions model σ := by
  induction clauses generalizing b scope with
  | nil =>
    cases ok
    simp
  | cons clause rest ih =>
    have freeRest : ∀ e out, .expr e out ∈ rest → e.SpellingFree ext functions :=
      fun e out member => free e out (by simp [member])
    cases clause with
    | expr e out =>
      have isExpr : (WhereClause.expr e out).isExpr = true := rfl
      simp only [exprsFit, Bool.and_eq_true, all_eq_true, decide_eq_true_eq] at fit
      obtain ⟨middle, first, later⟩ := Except.bind_eq_ok_iff.mp ok
      have fresh : ∀ x ∈ out, b.lookup (.var x) = none := by
        intro x isOut
        cases isOut
        have checked := fit.1.2
        simp only [Option.all_some, Bool.and_eq_true, decide_eq_true_eq] at checked
        rw [← Option.not_isSome_iff_eq_none, binds]
        exact checked.1
      have step := applyExpr_spec (fun x member => (binds x).mpr (fit.1.1 x member)) model
        (free e out (by simp)) fresh first σ
      simp only [forall_mem_cons, isExpr, true_implies, ← and_assoc]
      rw [← step]
      cases middle with
      | none =>
        cases later
        simp
      | some r =>
        rw [ih (applyExpr_binds first binds) freeRest fit.2 later]
        simp
    | _ =>
      rw [ih binds freeRest fit ok]
      simp [WhereClause.isExpr]

theorem exprsFit_filter (clauses : List WhereClause) (scope : List String) :
    exprsFit scope (clauses.filter WhereClause.isExpr) = exprsFit scope clauses := by
  induction clauses generalizing scope with
  | nil => rfl
  | cons clause rest ih =>
    cases clause with
    | expr e out =>
      rw [filter_cons_of_pos rfl, exprsFit, exprsFit, ih]
    | _ =>
      rw [filter_cons_of_neg (by simp [WhereClause.isExpr])]
      exact ih scope

end Expressions

end ViciaDb
