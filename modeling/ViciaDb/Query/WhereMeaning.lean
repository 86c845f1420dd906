import ViciaDb.Query.OrSeeded
import ViciaDb.Query.PlanOrder
import ViciaDb.Query.StreamingAggregate

namespace ViciaDb

open List Except PatternMatcher WhereClause

variable {ext : Externals} {functions : FunctionRegistry} {matcher : PatternMatcher}
  {clauses : List WhereClause} {patterns ps : List Pattern} {rows done : List Bindings}
  {maxResults : Nat}

theorem plan_of_patterns (noExpr : ∀ clause ∈ clauses, clause.isExpr = false) :
    plan clauses = (planPatterns clauses).map .pattern := by
  have none : clauses.filter isExpr = [] :=
    filter_eq_nil_iff.mpr fun clause member => by simp [noExpr clause member]
  simp only [plan, none, filter_nil, append_nil]
  generalize planPatterns clauses = ps
  suffices ∀ start, ((ps.zipIdx start).flatMap fun x => [WhereClause.pattern x.1]) = ps.map .pattern from
    this 0
  induction ps with
  | nil => simp
  | cons p rest ih => simp [zipIdx_cons, ih]

theorem matchWithHintSeededBounded_eq_ok {p : Pattern}
    (ok : matcher.matchWithHintSeededBounded ext rows p maxResults = .ok done) :
    done = matcher.joinWithPattern ext rows p := by
  unfold matchWithHintSeededBounded at ok
  split at ok
  · cases ok
    rfl
  · split at ok
    · cases ok
    · split at ok
      · rename_i unit
        rw [unit, joinWithPattern_unit, pushBounded_eq_ok ok, nil_append]
      · exact joinWithPatternBounded_eq_ok ok

theorem planRows_patterns (ok : planRows ext functions matcher maxResults (ps.map .pattern) = .ok done) :
    done = ps.foldl (matcher.joinWithPattern ext) [∅] := by
  unfold planRows at ok
  generalize [(∅ : Bindings)] = rows at ok ⊢
  induction ps generalizing rows with
  | nil =>
    cases ok
    rfl
  | cons p rest ih =>
    rw [map_cons, foldlM_cons, bind_eq_ok_iff] at ok
    obtain ⟨middle, first, later⟩ := ok
    rw [foldl_cons, ← matchWithHintSeededBounded_eq_ok first]
    exact ih _ later

theorem planRows_spec {Source : String → Value → Prop} {outs : List String}
    (ok : planRows ext functions matcher maxResults (ps.map .pattern) = .ok done)
    (spelled : Spelled ext matcher.facts patterns Source) (sub : ps ⊆ patterns)
    (joinable : ∀ p ∈ ps, p.Joinable outs) :
    Scoped Source outs (ps.flatMap Pattern.vars) done ∧
      solutions ext done = {σ | ∀ p ∈ ps, p.Holds ext σ (factModel ext matcher.facts)} := by
  obtain ⟨same, next⟩ := foldl_joinWithPattern_spec (.unit Source outs) spelled sub joinable
  have meaning := solutions_foldl_mergeAll (.unit Source outs) spelled sub joinable
  rw [← same, ← planRows_patterns ok] at next meaning
  refine ⟨next, meaning.trans ?_⟩
  ext σ
  simp [solutions, Agrees]

/-- Patterns, `or` and `or-join` clauses in any order are planned and evaluated to the assignments that
    satisfy all of them, as long as the patterns alone can be satisfied. -/
theorem whereRows_satisfied (ext : Externals) (executor : DatalogExecutor) (query : DatalogQuery)
    (validTime : CurrentValidTime) (relation : List Fact) (Source : String → Value → Prop)
    (outs : List String) (all : List WhereClause) (rows : List Bindings)
    (kinds : ∀ clause ∈ query.whereClauses, clause.asPlainPattern.isSome = true ∨ clause.isOrClause = true)
    (inside : clausesWithin query.whereClauses ⊆ all)
    (understood : Understood ext executor.functions relation Source outs all)
    (fits : patternsFit query.whereClauses = true)
    (orsFit : orsFit ((branchPatterns query.whereClauses).flatMap Pattern.vars) query.whereClauses = true)
    (orFirst : orComesFirst query.whereClauses = true)
    (matched : ∃ σ, ∀ p ∈ branchPatterns query.whereClauses, p.Holds ext σ (factModel ext relation))
    (ok : executor.whereRows ext query validTime relation = .ok rows) :
    solutions ext rows =
      {σ | AllSatisfied ext executor.functions (factModel ext relation) query.whereClauses σ} := by
  have plain : query.whereClauses.filterMap asPlainPattern = branchPatterns query.whereClauses :=
    filterMap_congr fun clause member => by
      rcases kinds clause member with isPattern | isOr <;> cases clause <;>
        first | rfl | cases isPattern | cases isOr
  have noOther : ∀ clause ∈ query.whereClauses, clause.asNot = none ∧ clause.asNotJoin = none ∧
      clause.isExpr = false ∧ clause.isNot = false := fun clause member => by
    rcases kinds clause member with isPattern | isOr <;> cases clause <;>
      first | exact ⟨rfl, rfl, rfl, rfl⟩ | cases isPattern | cases isOr
  obtain ⟨planned, ran, ok⟩ := bind_eq_ok_iff.mp ok
  obtain ⟨ored, orRan, ok⟩ := bind_eq_ok_iff.mp ok
  rw [applyNotClauses_of_none (filterMap_eq_nil_iff.mpr fun clause member => (noOther clause member).1)
    (filterMap_eq_nil_iff.mpr fun clause member => (noOther clause member).2.1)] at ok
  cases ok
  rw [plan_of_patterns fun clause member => (noOther clause (mem_of_mem_filter member)).2.2.1] at ran
  have perm := perm_planPatterns (query.whereClauses.filter isPatternOrExpr)
  have filtered : (query.whereClauses.filter isPatternOrExpr).filterMap asPlainPattern =
      branchPatterns query.whereClauses := by
    rw [← plain, filterMap_filter]
    exact filterMap_congr fun clause _ => by cases clause <;> rfl
  rw [filtered] at perm
  generalize planPatterns (query.whereClauses.filter isPatternOrExpr) = ps at ran perm
  obtain ⟨next, meaning⟩ := planRows_spec ran understood.spelled
    (fun p member => by
      obtain ⟨clause, inWhere, isPattern⟩ := mem_filterMap.mp (perm.mem_iff.mp member)
      exact mem_filterMap.mpr ⟨clause, inside (subset_clausesWithin _ inWhere), isPattern⟩)
    fun p member => joinable_of_fits understood
      (fun clause inWhere => inside (subset_clausesWithin _ inWhere)) fits p (perm.mem_iff.mp member)
  simp only [perm.mem_iff] at meaning
  -- An `or` handed no rows would answer with all its own.
  have nonempty : planned ≠ [] := by
    rintro rfl
    obtain ⟨σ, holds⟩ := matched
    have member : σ ∈ solutions ext [] := meaning ▸ holds
    simp [solutions] at member
  obtain ⟨-, solved⟩ := applyOrClauses_spec understood inside
    (next.congr fun x => by simp [perm.mem_iff]) (.inl nonempty) orsFit orFirst orRan
  ext σ
  rw [solved, meaning]
  refine .trans ?_ (allSatisfied_iff_kinds fits).symm
  refine ⟨fun both => ⟨⟨both, fun clause member isNot => ?_⟩, fun clause member isExpr => ?_⟩,
    fun each => each.1.1⟩
  · rw [(noOther clause member).2.2.2] at isNot
    cases isNot
  · rw [(noOther clause member).2.2.1] at isExpr
    cases isExpr

/-- A branch of an `or`, with patterns, nested `or` clauses, negations and expressions, narrows the rows it is
    given to the assignments that satisfy all its clauses. -/
theorem evaluateBranch_satisfied (ext : Externals) (ctx : BranchContext) (Source : String → Value → Prop)
    (outs scope : List String) (all branch : List WhereClause) (seed found : List Bindings)
    (inside : clausesWithin branch ⊆ all)
    (understood : Understood ext ctx.functions ctx.facts Source outs all)
    (fits : branchFits scope branch = true) (inScope : Scoped Source outs scope seed)
    (ok : evaluateBranch ext ctx branch seed = .ok found) :
    solutions ext found = {σ ∈ solutions ext seed |
      AllSatisfied ext ctx.functions (factModel ext ctx.facts) branch σ} :=
  (evaluateBranchWith_spec understood inside
    (fun _ _ _ inScope nonempty fits first ok =>
      applyOrClauses_spec understood inside inScope (.inl nonempty) fits first ok) fits inScope ok).2

/-- `(and [?x :likes ?y] (not [?x :next ?y]))` -/
def onlyLikes : List WhereClause := [linked ":likes" "?x" "?y", .not [linked ":next" "?x" "?y"]]

theorem onlyLikes_within : clausesWithin onlyLikes ⊆ nextOrOnlyLikes.within := by
  intro clause member
  simp only [nextOrOnlyLikes, within, branchesWithin, mem_cons, mem_append]
  exact .inr (.inr (.inl member))

theorem evaluateBranch_satisfied_onlyLikes : ∃ found,
    evaluateBranch .sample pairContext onlyLikes [∅] = .ok found ∧ found.length = 1 ∧
      solutions .sample found = {σ ∈ solutions .sample [∅] |
        AllSatisfied .sample .withBuiltins (factModel .sample pair) onlyLikes σ} :=
  ⟨_, rfl, by decide +kernel, evaluateBranch_satisfied .sample pairContext _ _ [] _ onlyLikes [∅] _
    onlyLikes_within nextOrOnlyLikes_understood (by decide +kernel) (.unit _ _) rfl⟩

def linkedQuery : DatalogQuery :=
  { aggregateOf [.variable "?x"] ":next" with
    whereClauses := [nextOrOnlyLikes, linked ":next" "?x" "?y"] }

theorem whereRows_satisfied_linkedQuery :
    ∃ rows, (readerOf ⟨pair, []⟩).whereRows .sample linkedQuery (.atTime 5) pair = .ok rows ∧
      rows.length = 1 ∧ solutions .sample rows = {σ | AllSatisfied .sample .withBuiltins
        (factModel .sample pair) linkedQuery.whereClauses σ} := by
  refine ⟨_, rfl, by decide +kernel, whereRows_satisfied .sample (readerOf ⟨pair, []⟩) linkedQuery
    (.atTime 5) pair _ _ _ _ (by decide) ?_ nextOrOnlyLikes_understood (by decide) (by decide +kernel)
    (by decide) ⟨aliceNextBob, ?_⟩ rfl⟩
  · intro clause member
    simpa [linkedQuery, clausesWithin, within, linked, nextOrOnlyLikes, branchesWithin] using member
  · simp only [linkedQuery, branchPatterns, nextOrOnlyLikes, linked, filterMap_cons, asPattern,
      filterMap_nil, mem_singleton, forall_eq]
    exact ⟨_, ⟨_, mem_cons_self, rfl⟩, .inr ⟨rfl, rfl⟩, rfl, .inr ⟨rfl, rfl⟩⟩

end ViciaDb
