import ViciaDb.Query.NotMeaning
import ViciaDb.Query.OrClauses

namespace ViciaDb

open PatternMatcher List
open Except (bind_eq_ok_iff)
open Finmap (lookup_filterKeys lookup_isSome)
open Pattern (vars)
open WhereClause (asPattern isNot output)

def WhereClause.isOrClause : WhereClause → Bool
  | .or _ | .orJoin _ _ => true
  | _ => false

def WhereClause.isOr : WhereClause → Bool
  | .or _ => true
  | _ => false

mutual

def WhereClause.within : WhereClause → List WhereClause
  | .pattern p => [.pattern p]
  | .ruleInvocation predicate args => [.ruleInvocation predicate args]
  | .expr e out => [.expr e out]
  | .not body => .not body :: clausesWithin body
  | .notJoin joinVars body => .notJoin joinVars body :: clausesWithin body
  | .or branches => .or branches :: branchesWithin branches
  | .orJoin joinVars branches => .orJoin joinVars branches :: branchesWithin branches

def clausesWithin : List WhereClause → List WhereClause
  | [] => []
  | clause :: rest => clause.within ++ clausesWithin rest

def branchesWithin : List (List WhereClause) → List WhereClause
  | [] => []
  | branch :: rest => clausesWithin branch ++ branchesWithin rest

end

mutual

/-- The variables a clause of a branch adds to its rows. All branches of an `or` add the same, an
    `or-join` adds none. -/
def WhereClause.binds : WhereClause → List String
  | .pattern p => p.vars
  | .ruleInvocation predicate args =>
    ((ruleInvocationToPattern predicate args).toOption.map Pattern.vars).getD []
  | .expr _ out => out.toList
  | .or branches => firstBinds branches
  | .not _ | .notJoin _ _ | .orJoin _ _ => []

def clausesBind : List WhereClause → List String
  | [] => []
  | clause :: rest => clause.binds ++ clausesBind rest

def firstBinds : List (List WhereClause) → List String
  | [] => []
  | branch :: _ => clausesBind branch

end

def orBinds : List WhereClause → List String
  | [] => []
  | .or branches :: rest => firstBinds branches ++ orBinds rest
  | _ :: rest => orBinds rest

def sameVars (a b : List String) : Bool := decide (a ⊆ b ∧ b ⊆ a)

def Pattern.joins (p : Pattern) : Bool :=
  match p.attr with
  | .real attr =>
    attr.boundVar.all fun x => p.entity.boundVar != some x && p.value.boundVar != some x
  | .pseudo _ => false

def patternsFit (branch : List WhereClause) : Bool :=
  branch.all fun clause =>
    match clause with
    | .pattern p => p.joins
    | .ruleInvocation predicate args => (ruleInvocationToPattern predicate args).toOption.any Pattern.joins
    | _ => true

def notsFit (scope : List String) (branch : List WhereClause) : Bool :=
  branch.all fun clause =>
    match clause with
    | .not body => notBodyFits scope body
    | .notJoin joinVars body => decide (joinVars ⊆ scope) && notJoinBodyFits joinVars body
    | _ => true

/-- The code hands the rows left by one `or` clause to the next even when none are left, and that one
    answers with all its own. -/
def orComesFirst (branch : List WhereClause) : Bool :=
  (branch.filter WhereClause.isOrClause).tail.all fun clause => !clause.isOr

def branchPatterns (branch : List WhereClause) : List Pattern :=
  branch.filterMap WhereClause.asPattern

/-- A branch that means the same evaluated as the code does: first its patterns, then its `or`
    clauses, then its negations, then its expressions. -/
def branchFitsWith (scope : List String) (branch : List WhereClause) (orsFit : Bool) : Bool :=
  let afterOrs := scope ++ (branchPatterns branch).flatMap Pattern.vars ++ orBinds branch
  patternsFit branch && orsFit && orComesFirst branch && notsFit afterOrs branch &&
    exprsFit afterOrs branch

def outputsFresh (scope : List String) (branches : List (List WhereClause)) : Bool :=
  (branchesWithin branches).all fun clause => clause.output.all fun x => decide (x ∉ scope)

mutual

/-- An `or` with a negation is evaluated on the rows of the scope. Any other is evaluated on its own and
    joined on shared variables, so each branch must bind those itself. -/
def WhereClause.fits (scope : List String) : WhereClause → Bool
  | .or branches =>
    if branches.any fun branch => branch.any WhereClause.isNot then
      branchesFit scope branches && branches.all fun branch =>
        sameVars (scope ++ clausesBind branch) (scope ++ firstBinds branches)
    else
      branchesFit [] branches &&
        (branches.all fun branch => sameVars (clausesBind branch) (firstBinds branches)) &&
        (scope.isEmpty || (firstBinds branches).any fun x => decide (x ∈ scope)) &&
        outputsFresh scope branches
  | .orJoin joinVars branches =>
    branchesFit [] branches && (branches.all fun branch => decide (joinVars ⊆ clausesBind branch)) &&
      outputsFresh scope branches
  | _ => true

def orsFit (scope : List String) : List WhereClause → Bool
  | [] => true
  | clause :: rest => clause.fits scope && orsFit (scope ++ orBinds [clause]) rest

def branchesFit (scope : List String) : List (List WhereClause) → Bool
  | [] => true
  | branch :: rest =>
    branchFitsWith scope branch
      (orsFit (scope ++ (branchPatterns branch).flatMap Pattern.vars) branch) && branchesFit scope rest

end

def branchFits (scope : List String) (branch : List WhereClause) : Bool :=
  branchFitsWith scope branch
    (orsFit (scope ++ (branchPatterns branch).flatMap Pattern.vars) branch)

def WhereClause.negatedVars : WhereClause → List String
  | .not body => (body.filterMap WhereClause.asPlainPattern).flatMap Pattern.vars
  | .notJoin joinVars _ => joinVars
  | _ => []

/-- What an evaluation of the clauses can rely on: no variable has two spellings, no expression tells
    spellings apart, outputs occur in no pattern, and negated values can be written as constants. -/
structure Understood (ext : Externals) (functions : FunctionRegistry) (facts : List Fact)
    (Source : String → Value → Prop) (outs : List String) (all : List WhereClause) : Prop where
  spelled : Spelled ext facts (branchPatterns all) Source
  free : ∀ e out, .expr e out ∈ all → e.SpellingFree ext functions
  fresh : ∀ p ∈ branchPatterns all, ∀ x ∈ p.vars, x ∉ outs
  outputs : ∀ clause ∈ all, ∀ x ∈ clause.output, x ∈ outs
  joins : ∀ joinVars body, .notJoin joinVars body ∈ all → ∀ x ∈ joinVars, x ∉ outs
  present : ∀ clause ∈ all, ∀ x ∈ clause.negatedVars, ¬Source x .null
  near : ∀ clause ∈ all, ∀ x ∈ clause.negatedVars, ∀ f, Source x (.float f) →
    ∀ p ∈ branchPatterns all, ∀ fact ∈ facts, p.names fact.attr = true → ∀ g, fact.value = .float g →
      (ext.f64Near f g = true ↔ f = g)

variable {ext : Externals} {functions : FunctionRegistry} {facts : List Fact}
  {Source : String → Value → Prop} {outs scope : List String} {rows : List Bindings}

theorem lookup_of_sameOn {vars : Finset Key} {a b : Bindings} (same : sameOn vars a b = true)
    {key : Key} (member : key ∈ vars) : a.lookup key = b.lookup key := by
  have at_key := of_decide_eq_true same key member
  cases left : a.lookup key with
  | none =>
    cases right : b.lookup key with
    | none => rfl
    | some w => simp [left, right] at at_key
  | some v =>
    cases right : b.lookup key with
    | none => simp [left, right] at at_key
    | some w =>
      simp only [left, right] at at_key
      rw [Value.eq_of_hashEq at_key]

theorem lookup_of_sameRow {a b : Bindings} (same : sameRow a b = true) (key : Key) :
    a.lookup key = b.lookup key := by
  by_cases member : key ∈ a.keys ∪ b.keys
  · exact lookup_of_sameOn same member
  · rw [Finset.mem_union, not_or, Finmap.mem_keys, Finmap.mem_keys] at member
    rw [Finmap.lookup_eq_none.mpr member.1, Finmap.lookup_eq_none.mpr member.2]

def KeepsVars (key : Bindings → Bindings) : Prop :=
  ∀ b x, (key b).lookup (.var x) = b.lookup (.var x)

theorem keepsVars_id : KeepsVars id := fun _ _ => rfl

theorem keepsVars_visible : KeepsVars visible := by
  intro b x
  simp [visible, Key.isHidden]

variable {x : String}

section Collect

variable {key : Bindings → Bindings} {maxResults : Nat}

variable {results done : List Bindings}

variable {keep : Bindings → Option Bindings} {branches : List Branch} {seed : List Bindings}

theorem collectNew_spec (ok : collectNew key maxResults results rows = .ok done) :
    results ⊆ done ∧ done ⊆ results ++ rows ∧
      ∀ row ∈ rows, row ∈ done ∨ ∃ seen ∈ done, sameRow (key seen) (key row) = true := by
  induction rows generalizing results with
  | nil =>
    cases ok
    simp
  | cons row rest ih =>
    rw [collectNew] at ok
    split at ok
    · rename_i found
      obtain ⟨kept, known, covers⟩ := ih ok
      obtain ⟨seen, member, same⟩ := any_eq_true.mp found
      refine ⟨kept, fun b inDone => ?_, ?_⟩
      · rcases mem_append.mp (known inDone) with old | new
        · exact mem_append_left _ old
        · exact mem_append_right _ (mem_cons_of_mem _ new)
      · intro b member'
        rcases mem_cons.mp member' with rfl | inRest
        · exact .inr ⟨seen, kept member, same⟩
        · exact covers b inRest
    · split at ok
      · cases ok
      obtain ⟨kept, known, covers⟩ := ih ok
      refine ⟨fun b member => kept (by simp [member]), fun b inDone => ?_, ?_⟩
      · simpa using known inDone
      · intro b member
        rcases mem_cons.mp member with rfl | inRest
        · exact .inl (kept (by simp))
        · exact covers b inRest

theorem solutions_collectNew (keeps : KeepsVars key)
    (ok : collectNew key maxResults results rows = .ok done) :
    solutions ext done = solutions ext results ∪ solutions ext rows := by
  obtain ⟨kept, known, covers⟩ := collectNew_spec ok
  ext σ
  constructor
  · rintro ⟨b, member, agrees⟩
    rcases mem_append.mp (known member) with old | new
    · exact .inl ⟨b, old, agrees⟩
    · exact .inr ⟨b, new, agrees⟩
  · rintro (⟨b, member, agrees⟩ | ⟨b, member, agrees⟩)
    · exact ⟨b, kept member, agrees⟩
    · rcases covers b member with inDone | ⟨seen, inDone, same⟩
      · exact ⟨b, inDone, agrees⟩
      · refine ⟨seen, inDone, fun x v got => agrees x v ?_⟩
        rw [← keeps, ← lookup_of_sameRow same, keeps, got]

def DistinctOn (key : Bindings → Bindings) (rows : List Bindings) : Prop :=
  rows.Pairwise fun a b => sameRow (key a) (key b) = false

theorem distinctOn_collectNew (distinct : DistinctOn key results)
    (ok : collectNew key maxResults results rows = .ok done) : DistinctOn key done := by
  induction rows generalizing results with
  | nil =>
    cases ok
    exact distinct
  | cons row rest ih =>
    rw [collectNew] at ok
    split at ok
    · exact ih distinct ok
    rename_i unseen
    split at ok
    · cases ok
    · refine ih (pairwise_append.mpr ⟨distinct, pairwise_singleton _ _, ?_⟩) ok
      intro seen member b isRow
      rw [mem_singleton.mp isRow]
      simp only [any_eq_true, not_exists, not_and, Bool.not_eq_true] at unseen
      exact unseen seen member

variable (ext) in
theorem foldlM_collectNew {α : Type} {batch : α → Except String (List Bindings)}
    {project : α → List Bindings → List Bindings} (keeps : KeepsVars key) (items : List α) :
    ∀ results, DistinctOn key results →
      items.foldlM (fun results item => do
        let rows ← batch item
        collectNew key maxResults results (project item rows)) results = .ok done →
      DistinctOn key done ∧ (∀ item ∈ items, ∃ found, batch item = .ok found) ∧
        (∀ b ∈ done, b ∈ results ∨ ∃ item ∈ items, ∃ found, batch item = .ok found ∧
          b ∈ project item found) ∧
        solutions ext done = solutions ext results ∪ {σ | ∃ item ∈ items, ∃ found,
          batch item = .ok found ∧ σ ∈ solutions ext (project item found)} := by
  induction items with
  | nil =>
    intro results distinct ok
    cases ok
    exact ⟨distinct, nofun, fun b member => .inl member, by ext σ; simp⟩
  | cons item rest ih =>
    intro results distinct ok
    rw [foldlM_cons, bind_eq_ok_iff] at ok
    obtain ⟨middle, first, later⟩ := ok
    obtain ⟨found, evaluated, collected⟩ := bind_eq_ok_iff.mp first
    obtain ⟨distinct', all, members, meaning⟩ :=
      ih middle (distinctOn_collectNew distinct collected) later
    refine ⟨distinct', forall_mem_cons.mpr ⟨⟨found, evaluated⟩, all⟩, fun b member => ?_, ?_⟩
    · rcases members b member with old | ⟨other, inRest, found', evaluated', kept⟩
      · rcases mem_append.mp ((collectNew_spec collected).2.1 old) with older | new
        · exact .inl older
        · exact .inr ⟨item, by simp, found, evaluated, new⟩
      · exact .inr ⟨other, by simp [inRest], found', evaluated', kept⟩
    · rw [meaning, solutions_collectNew keeps collected]
      ext σ
      simp only [Set.mem_union, Set.mem_ofPred_eq, exists_mem_cons_iff, or_assoc, evaluated,
        Except.ok.injEq, exists_eq_left']

variable (ext) in
theorem uniteBranches_spec (keeps : KeepsVars key)
    (ok : uniteBranches key keep maxResults branches seed = .ok done) :
    DistinctOn key done ∧
      (∀ b ∈ done, ∃ branch ∈ branches, ∃ found, branch.evaluate seed = .ok found ∧
        b ∈ found.filterMap keep) ∧
      solutions ext done = {σ | ∃ branch ∈ branches, ∃ found, branch.evaluate seed = .ok found ∧
        σ ∈ solutions ext (found.filterMap keep)} := by
  obtain ⟨distinct, -, members, meaning⟩ :=
    foldlM_collectNew ext keeps branches [] List.Pairwise.nil ok
  refine ⟨distinct, fun b member => (members b member).resolve_left (by simp), ?_⟩
  rw [meaning, solutions_nil, Set.empty_union]

theorem exists_evaluated (keeps : KeepsVars key)
    (ok : uniteBranches key keep maxResults branches seed = .ok done) {branch : Branch}
    (member : branch ∈ branches) : ∃ found, branch.evaluate seed = .ok found :=
  (foldlM_collectNew .sample keeps branches [] List.Pairwise.nil ok).2.1 branch member

variable (ext) in
theorem joinBranches_spec {vars : Finset Key} {union : List Bindings}
    (ok : joinBranches vars maxResults rows union = .ok done) :
    DistinctOn id done ∧
      (∀ b ∈ done, ∃ row ∈ rows, ∃ found ∈ union, sameOn vars found row = true ∧ b = row ∪ found) ∧
      solutions ext done = {σ | ∃ row ∈ rows, ∃ found ∈ union, sameOn vars found row = true ∧
        Agrees ext σ (row ∪ found)} := by
  obtain ⟨distinct, -, members, meaning⟩ :=
    @foldlM_collectNew ext _ _ _ _ (fun _ => .ok union) (fun row union =>
      (union.filter fun found => sameOn vars found row).map (row ∪ ·)) keepsVars_id rows []
      List.Pairwise.nil ok
  refine ⟨distinct, fun b member => ?_, ?_⟩
  · obtain ⟨row, inRows, _, ⟨⟩, inside⟩ := (members b member).resolve_left (by simp)
    obtain ⟨found, kept, rfl⟩ := mem_map.mp inside
    obtain ⟨inUnion, same⟩ := mem_filter.mp kept
    exact ⟨row, inRows, found, inUnion, same, rfl⟩
  · rw [meaning, solutions_nil, Set.empty_union]
    ext σ
    simp [solutions, and_assoc]

theorem mem_boundKeys {rows : List Bindings} {key : Key} :
    key ∈ boundKeys rows ↔ ∃ row ∈ rows, key ∈ row := by
  induction rows with
  | nil => simp [boundKeys]
  | cons row rest ih =>
    change key ∈ row.keys ∪ boundKeys rest ↔ _
    rw [Finset.mem_union, ih, Finmap.mem_keys, exists_mem_cons_iff]

theorem Scoped.var_mem_boundKeys (inScope : Scoped Source outs scope rows) :
    Key.var x ∈ boundKeys rows ↔ rows ≠ [] ∧ x ∈ scope := by
  rw [mem_boundKeys]
  constructor
  · rintro ⟨row, member, present⟩
    exact ⟨ne_nil_of_mem member, (inScope.binds row member x).mp (lookup_isSome.mpr present)⟩
  · rintro ⟨nonempty, bound⟩
    obtain ⟨row, member⟩ := exists_mem_of_ne_nil rows nonempty
    exact ⟨row, member, lookup_isSome.mp ((inScope.binds row member x).mpr bound)⟩

end Collect

section Join

variable {patterns : List Pattern} {scope' : List String} {union : List Bindings} {vars : Finset Key}

variable {row found : Bindings} {σ : Assignment}

theorem sameOn_of_agrees (spelled : Spelled ext facts patterns Source)
    (inRows : Scoped Source outs scope rows) (inUnion : Scoped Source outs scope' union)
    (shared : ∀ key ∈ vars, ∃ x, key = .var x ∧ x ∈ scope ∧ x ∈ scope' ∧ x ∉ outs) (inRow : row ∈ rows)
    (inFound : found ∈ union) {τ : Assignment} (left : Agrees ext σ row) (right : Agrees ext τ found)
    (same : ∀ x, Key.var x ∈ vars → τ x = σ x) : sameOn vars found row = true := by
  refine decide_eq_true fun key member => ?_
  obtain ⟨x, rfl, inScope, inScope', notOut⟩ := shared key member
  obtain ⟨v, got⟩ := Option.isSome_iff_exists.mp ((inRows.binds row inRow x).mpr inScope)
  obtain ⟨w, got'⟩ := Option.isSome_iff_exists.mp ((inUnion.binds found inFound x).mpr inScope')
  have sourceV := (inRows.source row inRow x v got).resolve_right notOut
  have sourceW := (inUnion.source found inFound x w got').resolve_right notOut
  have equal : w = v := spelled.alike x w v sourceW sourceV
    (by rw [← right x w got', ← left x v got, same x member])
  simp only [got, got', equal, Value.hashEq_iff (spelled.ordinary x v sourceV)]

end Join

mutual

theorem mem_binds : (clause : WhereClause) → x ∈ clause.binds →
    (∃ p ∈ branchPatterns clause.within, x ∈ p.vars) ∨ ∃ c ∈ clause.within, c.output = some x
  | .pattern p, member => .inl ⟨p, by simp [branchPatterns, WhereClause.within, asPattern],
      by simpa [WhereClause.binds] using member⟩
  | .ruleInvocation predicate args, member => by
    simp only [WhereClause.binds] at member
    cases made : (ruleInvocationToPattern predicate args).toOption with
    | none => simp [made] at member
    | some p =>
      refine .inl ⟨p, ?_, by simpa [made] using member⟩
      simp [branchPatterns, WhereClause.within, asPattern, made]
  | .expr e out, member => .inr ⟨.expr e out, by simp [WhereClause.within],
      by simpa [WhereClause.binds, output] using member⟩
  | .or branches, member => by
    simp only [WhereClause.binds] at member
    simp only [WhereClause.within, branchPatterns, filterMap_cons, asPattern]
    rcases mem_firstBinds branches member with found | ⟨c, inside, output⟩
    · exact .inl found
    · exact .inr ⟨c, by simp [inside], output⟩
  | .not _, member => by simp [WhereClause.binds] at member
  | .notJoin _ _, member => by simp [WhereClause.binds] at member
  | .orJoin _ _, member => by simp [WhereClause.binds] at member

theorem mem_clausesBind : (clauses : List WhereClause) → x ∈ clausesBind clauses →
    (∃ p ∈ branchPatterns (clausesWithin clauses), x ∈ p.vars) ∨
      ∃ c ∈ clausesWithin clauses, c.output = some x
  | [], member => by simp [clausesBind] at member
  | clause :: rest, member => by
    simp only [clausesBind, mem_append] at member
    simp only [clausesWithin, branchPatterns, filterMap_append, mem_append]
    rcases member with member | member
    · rcases mem_binds clause member with ⟨p, inside, bound⟩ | ⟨c, inside, output⟩
      · exact .inl ⟨p, .inl inside, bound⟩
      · exact .inr ⟨c, .inl inside, output⟩
    · rcases mem_clausesBind rest member with ⟨p, inside, bound⟩ | ⟨c, inside, output⟩
      · exact .inl ⟨p, .inr inside, bound⟩
      · exact .inr ⟨c, .inr inside, output⟩

theorem mem_firstBinds : (branches : List (List WhereClause)) →
    x ∈ firstBinds branches → (∃ p ∈ branchPatterns (branchesWithin branches), x ∈ p.vars) ∨
      ∃ c ∈ branchesWithin branches, c.output = some x
  | [], member => by simp [firstBinds] at member
  | branch :: rest, member => by
    simp only [firstBinds] at member
    simp only [branchesWithin, branchPatterns, filterMap_append, mem_append]
    rcases mem_clausesBind branch member with ⟨p, inside, bound⟩ | ⟨c, inside, output⟩
    · exact .inl ⟨p, .inl inside, bound⟩
    · exact .inr ⟨c, .inl inside, output⟩

end

theorem sameVars_iff {a b : List String} : sameVars a b = true ↔ ∀ x, x ∈ a ↔ x ∈ b := by
  rw [sameVars, decide_eq_true_iff]
  constructor
  · rintro ⟨left, right⟩ x
    exact ⟨fun member => left member, fun member => right member⟩
  · intro same
    exact ⟨fun x member => (same x).mp member, fun x member => (same x).mpr member⟩

section Branches

variable {all : List WhereClause} {ctx : BranchContext}

variable (ext ctx Source outs) in
structure BranchMeans (branch : List WhereClause) (evaluator : Branch) : Prop where
  hasNot : evaluator.hasNot = branch.any WhereClause.isNot
  evaluate : ∀ scope seed found, branchFits scope branch = true → Scoped Source outs scope seed →
    evaluator.evaluate seed = .ok found →
    Scoped Source outs (scope ++ clausesBind branch) found ∧ solutions ext found =
      {σ ∈ solutions ext seed | AllSatisfied ext ctx.functions (factModel ext ctx.facts) branch σ}

variable {branches : List (List WhereClause)} {evaluators : List Branch}
    {branch : List WhereClause} {done : List Bindings}

variable {x : String} {clause : WhereClause}

variable (understood : Understood ext ctx.functions ctx.facts Source outs all)

theorem branchesFit_iff :
    branchesFit scope branches = true ↔ ∀ branch ∈ branches, branchFits scope branch = true := by
  induction branches with
  | nil => simp [branchesFit]
  | cons branch rest ih => simp [branchesFit, branchFits, ih]

theorem mem_sortBranches {branches : List Branch} {branch : Branch} :
    branch ∈ sortBranches branches ↔ branch ∈ branches :=
  (perm_insertionSort _ _).mem_iff

variable {maxResults : Nat}

section

variable (means : List.Forall₂ (BranchMeans ext Source outs ctx) branches evaluators)
include means

theorem exists_evaluator (member : branch ∈ branches) :
    ∃ evaluator ∈ evaluators, BranchMeans ext Source outs ctx branch evaluator :=
  means.exists_right member

theorem exists_branch {evaluator : Branch} (member : evaluator ∈ evaluators) :
    ∃ branch ∈ branches, BranchMeans ext Source outs ctx branch evaluator :=
  means.flip.exists_right member

theorem hasNot_iff : (sortBranches evaluators).any Branch.hasNot =
      branches.any fun branch => branch.any isNot := by
  rw [Bool.eq_iff_iff, any_eq_true, any_eq_true]
  constructor
  · rintro ⟨evaluator, member, hasNot⟩
    obtain ⟨branch, inBranches, branchMeans⟩ := exists_branch means (mem_sortBranches.mp member)
    exact ⟨branch, inBranches, branchMeans.hasNot ▸ hasNot⟩
  · rintro ⟨branch, member, hasNot⟩
    obtain ⟨evaluator, inEvaluators, branchMeans⟩ := exists_evaluator means member
    exact ⟨evaluator, mem_sortBranches.mpr inEvaluators, branchMeans.hasNot ▸ hasNot⟩

theorem uniteBranches_means {key : Bindings → Bindings} {seed : List Bindings}
    (fits : branchesFit scope branches = true) (inScope : Scoped Source outs scope seed)
    (keeps : KeepsVars key)
    (ok : uniteBranches key some maxResults (sortBranches evaluators) seed = .ok done) :
    DistinctOn key done ∧
      (∀ b ∈ done, ∃ branch ∈ branches, Scoped Source outs (scope ++ clausesBind branch) [b]) ∧
      solutions ext done = {σ ∈ solutions ext seed |
        SomeSatisfied ext ctx.functions (factModel ext ctx.facts) branches σ} := by
  obtain ⟨distinct, members, meaning⟩ := uniteBranches_spec ext keeps ok
  simp only [filterMap_some] at members meaning
  refine ⟨distinct, fun b member => ?_, ?_⟩
  · obtain ⟨evaluator, inEvaluators, found, evaluated, inFound⟩ := members b member
    obtain ⟨branch, inBranches, branchMeans⟩ :=
      exists_branch means (mem_sortBranches.mp inEvaluators)
    have next := (branchMeans.evaluate scope seed found (branchesFit_iff.mp fits branch inBranches)
      inScope evaluated).1
    exact ⟨branch, inBranches, next.sub (by simpa using inFound)⟩
  · rw [meaning]
    ext σ
    simp only [Set.mem_ofPred_eq, someSatisfied_iff]
    constructor
    · rintro ⟨evaluator, inEvaluators, found, evaluated, inFound⟩
      obtain ⟨branch, inBranches, branchMeans⟩ :=
        exists_branch means (mem_sortBranches.mp inEvaluators)
      rw [(branchMeans.evaluate scope seed found (branchesFit_iff.mp fits branch inBranches)
        inScope evaluated).2] at inFound
      exact ⟨inFound.1, branch, inBranches, inFound.2⟩
    · rintro ⟨inSeed, branch, inBranches, satisfied⟩
      obtain ⟨evaluator, inEvaluators, branchMeans⟩ := exists_evaluator means inBranches
      obtain ⟨found, evaluated⟩ := exists_evaluated keeps ok (mem_sortBranches.mpr inEvaluators)
      refine ⟨evaluator, mem_sortBranches.mpr inEvaluators, found, evaluated, ?_⟩
      rw [(branchMeans.evaluate scope seed found (branchesFit_iff.mp fits branch inBranches)
        inScope evaluated).2]
      exact ⟨inSeed, satisfied⟩

end

theorem distinctOn_id_of_visible (distinct : DistinctOn visible done) : DistinctOn id done := by
  refine distinct.imp fun {a b} differ => ?_
  rw [Bool.eq_false_iff] at differ ⊢
  intro same
  refine differ (decide_eq_true fun key member => ?_)
  have visibleKey : key.isHidden = false ∧ key ∈ a.keys ∪ b.keys := by
    simp only [Finset.mem_union, Finmap.mem_keys, ← lookup_isSome, visible, lookup_filterKeys] at member ⊢
    by_cases hidden : key.isHidden = true
    · simp [hidden] at member
    · simpa [hidden] using member
  have at_key := of_decide_eq_true same key visibleKey.2
  simpa [visible, visibleKey.1] using at_key

theorem solutions_of_unscoped (inScope : Scoped Source outs [] rows) (nonempty : rows ≠ []) (σ : Assignment) :
    σ ∈ solutions ext rows := by
  obtain ⟨row, member⟩ := exists_mem_of_ne_nil rows nonempty
  refine ⟨row, member, fun x v got => ?_⟩
  have bound := (inScope.binds row member x).mp (by simp [got])
  cases bound

include understood in
theorem not_mem_outs_of_shared (inside : branchesWithin branches ⊆ all)
    (fresh : outputsFresh scope branches = true) (inScope : x ∈ scope) (member : branch ∈ branches)
    (bound : x ∈ clausesBind branch) : x ∉ outs := by
  have sub : clausesWithin branch ⊆ branchesWithin branches := by
    clear inside fresh
    induction branches with
    | nil => cases member
    | cons first rest ih =>
      intro clause inBranch
      rw [branchesWithin, mem_append]
      rcases mem_cons.mp member with rfl | inRest
      · exact .inl inBranch
      · exact .inr (ih inRest inBranch)
  rcases mem_clausesBind branch bound with ⟨p, inPatterns, inVars⟩ | ⟨c, inBranch, output⟩
  · refine understood.fresh p ?_ x inVars
    obtain ⟨clause, inBranch, pattern⟩ := mem_filterMap.mp inPatterns
    exact mem_filterMap.mpr ⟨clause, inside (sub inBranch), pattern⟩
  · have checked := all_eq_true.mp fresh c (sub inBranch)
    simp only [output, Option.all_some, decide_eq_true_eq] at checked
    exact absurd inScope checked

include understood in
theorem applyOr_spec (means : List.Forall₂ (BranchMeans ext Source outs ctx) branches evaluators)
    (inside : branchesWithin branches ⊆ all) (inScope : Scoped Source outs scope rows)
    (nonempty : rows ≠ []) (fits : (WhereClause.or branches).fits scope = true)
    (ok : applyOr maxResults evaluators rows = .ok done) :
    Scoped Source outs (scope ++ firstBinds branches) done ∧ DistinctOn id done ∧
      solutions ext done = {σ ∈ solutions ext rows |
        SomeSatisfied ext ctx.functions (factModel ext ctx.facts) branches σ} := by
  unfold applyOr at ok
  rw [WhereClause.fits, ← hasNot_iff means] at fits
  dsimp only at ok
  split at ok
  · rename_i hasNot
    rw [if_pos hasNot, Bool.and_eq_true, all_eq_true] at fits
    obtain ⟨distinct, members, meaning⟩ :=
      uniteBranches_means means fits.1 inScope keepsVars_visible ok
    refine ⟨.of_each fun b member => ?_, distinctOn_id_of_visible distinct, meaning⟩
    obtain ⟨branch, inBranches, next⟩ := members b member
    exact next.congr (sameVars_iff.mp (fits.2 branch inBranches))
  · rename_i noNot
    rw [if_neg noNot] at fits
    simp only [Bool.and_eq_true, all_eq_true] at fits
    obtain ⟨⟨⟨branchesFit, sameBinds⟩, joins⟩, fresh⟩ := fits
    obtain ⟨union, united, joined⟩ := bind_eq_ok_iff.mp ok
    obtain ⟨distinct, members, meaning⟩ :=
      uniteBranches_means means branchesFit (.unit Source outs) keepsVars_visible united
    have inUnion : Scoped Source outs (firstBinds branches) union := by
      refine .of_each fun b member => ?_
      obtain ⟨branch, inBranches, next⟩ := members b member
      exact next.congr (sameVars_iff.mp (sameBinds branch inBranches))
    have satisfied : solutions ext union = {σ |
        SomeSatisfied ext ctx.functions (factModel ext ctx.facts) branches σ} := by
      rw [meaning]
      ext σ
      exact and_iff_right ⟨∅, by simp, Agrees.empty ext σ⟩
    have sharedVar : ∀ key, key ∈ (boundKeys rows ∩ boundKeys union).filter
        (fun key => !key.isHidden) ↔ ∃ x, key = .var x ∧ x ∈ scope ∧ union ≠ [] ∧
          x ∈ firstBinds branches := by
      intro key
      rw [Finset.mem_filter, Finset.mem_inter]
      constructor
      · rintro ⟨⟨inRows, inBranches⟩, seen⟩
        cases key with
        | var x =>
          exact ⟨x, rfl, (inScope.var_mem_boundKeys.mp inRows).2, inUnion.var_mem_boundKeys.mp inBranches⟩
        | _ => cases seen
      · rintro ⟨x, rfl, bound, someFound, inBranches⟩
        exact ⟨⟨inScope.var_mem_boundKeys.mpr ⟨nonempty, bound⟩,
          inUnion.var_mem_boundKeys.mpr ⟨someFound, inBranches⟩⟩, rfl⟩
    generalize (boundKeys rows ∩ boundKeys union).filter (fun key => !key.isHidden) = vars
      at joined sharedVar
    split at joined
    · rename_i none
      obtain rfl : union = done := Except.ok.inj joined
      -- nothing is shared: the rows bind no variable, or no branch has a solution
      by_cases empty : union = []
      · subst empty
        refine ⟨.nil _ _ _, List.Pairwise.nil, ?_⟩
        rw [solutions_nil] at satisfied ⊢
        exact (Set.eq_empty_of_forall_notMem fun σ holds => satisfied.symm.subset holds.2).symm
      · have unscoped : scope = [] := by
          simp only [Bool.or_eq_true, List.isEmpty_iff, any_eq_true, decide_eq_true_eq] at joins
          rcases joins with unscoped | ⟨x, inBranches, bound⟩
          · exact unscoped
          · have member := (sharedVar (.var x)).mpr ⟨x, rfl, bound, empty, inBranches⟩
            rw [none] at member
            cases member
        subst unscoped
        refine ⟨inUnion, distinctOn_id_of_visible distinct, ?_⟩
        rw [satisfied]
        ext σ
        exact (and_iff_right (solutions_of_unscoped inScope nonempty σ)).symm
    · obtain ⟨distinct', members', meaning'⟩ := joinBranches_spec ext joined
      have notOut : ∀ x, x ∈ scope → x ∈ firstBinds branches → x ∉ outs := by
        intro x bound inFirst
        cases branches with
        | nil => cases inFirst
        | cons branch rest =>
          exact not_mem_outs_of_shared understood inside fresh bound (mem_cons_self) inFirst
      have equalOn : ∀ row ∈ rows, ∀ found ∈ union, sameOn vars found row = true → ∀ x v w,
          row.lookup (.var x) = some v → found.lookup (.var x) = some w → v = w := by
        intro row inRow found inFound same x v w got got'
        have member := (sharedVar (.var x)).mpr ⟨x, rfl,
          (inScope.binds row inRow x).mp (by simp [got]), ne_nil_of_mem inFound,
          (inUnion.binds found inFound x).mp (by simp [got'])⟩
        have equal := lookup_of_sameOn same member
        rw [got, got'] at equal
        exact (Option.some.inj equal).symm
      refine ⟨inScope.merge inUnion fun b member => ?_, distinct', ?_⟩
      · obtain ⟨row, inRow, found, inFound, -, same⟩ := members' b member
        exact ⟨row, inRow, found, inFound, same⟩
      rw [meaning']
      ext σ
      constructor
      · rintro ⟨row, inRow, found, inFound, same, agrees⟩
        obtain ⟨left, right⟩ := (agrees_union_iff (equalOn row inRow found inFound same)).mp agrees
        have solved : σ ∈ solutions ext union := ⟨found, inFound, right⟩
        rw [satisfied] at solved
        exact ⟨⟨row, inRow, left⟩, solved⟩
      · rintro ⟨⟨row, inRow, left⟩, holds⟩
        obtain ⟨found, inFound, right⟩ := satisfied.symm.subset holds
        have same : sameOn vars found row = true := by
          refine sameOn_of_agrees understood.spelled inScope inUnion ?_ inRow inFound left right
            fun _ _ => rfl
          intro key member
          obtain ⟨x, rfl, bound, -, inBranches⟩ := (sharedVar key).mp member
          exact ⟨x, rfl, bound, inBranches, notOut x bound inBranches⟩
        exact ⟨row, inRow, found, inFound, same,
          (agrees_union_iff (equalOn row inRow found inFound same)).mpr ⟨left, right⟩⟩

theorem Scoped.filterKeys {u : Bindings} {keep : Key → Bool} {kept : List String}
    (inScope : Scoped Source outs scope [u]) (same : ∀ x, x ∈ kept ↔ x ∈ scope ∧ keep (.var x) = true) :
    Scoped Source outs kept [u.filterKeys keep] where
  binds := by
    intro b member x
    rw [mem_singleton.mp member, lookup_filterKeys, same, ← inScope.binds u (by simp)]
    split <;> simp_all
  noWildcard := by
    intro b member x wild
    rw [mem_singleton.mp member, lookup_filterKeys, inScope.noWildcard u (by simp) x wild, ite_self]
  source := by
    intro b member x v got
    rw [mem_singleton.mp member, lookup_filterKeys] at got
    split at got
    · exact inScope.source u (by simp) x v got
    · cases got

include understood in
theorem applyOrJoin_spec {joinVars : List String}
    (means : List.Forall₂ (BranchMeans ext Source outs ctx) branches evaluators)
    (inside : branchesWithin branches ⊆ all) (inScope : Scoped Source outs scope rows)
    (fits : (WhereClause.orJoin joinVars branches).fits scope = true)
    (ok : applyOrJoin maxResults joinVars evaluators rows = .ok done) :
    Scoped Source outs scope done ∧ DistinctOn id done ∧
      solutions ext done = {σ ∈ solutions ext rows | ∃ τ : Assignment,
        (∀ x ∈ joinVars, τ x = σ x) ∧
          SomeSatisfied ext ctx.functions (factModel ext ctx.facts) branches τ} := by
  simp only [WhereClause.fits, Bool.and_eq_true, all_eq_true, decide_eq_true_eq] at fits
  obtain ⟨⟨branchesFit, bindsJoin⟩, fresh⟩ := fits
  unfold applyOrJoin at ok
  dsimp only at ok
  split at ok
  · cases ok
  rename_i allBound
  obtain ⟨projected, united, joined⟩ := bind_eq_ok_iff.mp ok
  obtain ⟨distinct, members, meaning⟩ := joinBranches_spec ext joined
  by_cases nonempty : rows ≠ []
  swap
  · rw [ne_eq, not_not] at nonempty
    subst nonempty
    cases joined
    exact ⟨.nil _ _ _, List.Pairwise.nil, by ext σ; simp [solutions]⟩
  have outer : ∀ x, Key.var x ∈ boundKeys rows ↔ x ∈ scope := fun x => by
    rw [inScope.var_mem_boundKeys]
    exact and_iff_right nonempty
  have joinScope : ∀ x ∈ joinVars, x ∈ scope := by
    intro x member
    have bound := List.find?_eq_none.mp allBound x member
    simpa [outer] using bound
  obtain ⟨-, members', meaning'⟩ := uniteBranches_spec ext keepsVars_id united
  -- a projected row is what the incoming variables see of a branch solution
  have origin : ∀ proj ∈ projected, ∃ branch ∈ branches, ∃ u,
      AllSatisfied ext ctx.functions (factModel ext ctx.facts) branch (assignmentOf ext u) ∧
      proj = u.filterKeys (fun key => decide (key ∈ boundKeys rows)) ∧
      Scoped Source outs ((clausesBind branch).filter fun x => decide (x ∈ scope)) [proj] := by
    intro proj member
    obtain ⟨evaluator, inEvaluators, found, evaluated, kept⟩ := members' proj member
    obtain ⟨branch, inBranches, branchMeans⟩ :=
      exists_branch means (mem_sortBranches.mp inEvaluators)
    obtain ⟨next, solved⟩ := branchMeans.evaluate [] [∅] found
      (branchesFit_iff.mp branchesFit branch inBranches) (.unit Source outs) evaluated
    obtain ⟨u, inFound, projection⟩ := mem_filterMap.mp kept
    split at projection
    · cases projection
      have inSolutions := solved.subset ⟨u, inFound, agrees_assignmentOf u⟩
      refine ⟨branch, inBranches, u, inSolutions.2, rfl, ?_⟩
      refine Scoped.filterKeys (next.sub (by simpa using inFound)) fun x => ?_
      simp [outer]
    · cases projection
  have inside' : ∀ proj ∈ projected, ∀ x v, proj.lookup (.var x) = some v → x ∈ scope := by
    intro proj member x v got
    obtain ⟨branch, -, u, -, -, next⟩ := origin proj member
    have bound := (next.binds proj (by simp) x).mp (by simp [got])
    simpa using (mem_filter.mp bound).2
  have agreesIff : ∀ row ∈ rows, ∀ proj ∈ projected, ∀ σ, Agrees ext σ (row ∪ proj) ↔ Agrees ext σ row := by
    intro row inRow proj member σ
    have same : ∀ x, (row ∪ proj).lookup (.var x) = row.lookup (.var x) := by
      intro x
      rw [lookup_or]
      cases got : proj.lookup (.var x) with
      | none => simp
      | some v =>
        obtain ⟨w, old⟩ := Option.isSome_iff_exists.mp
          ((inScope.binds row inRow x).mpr (inside' proj member x v got))
        rw [old]
        rfl
    simp only [Agrees, same]
  refine ⟨?_, distinct, ?_⟩
  · refine .of_each fun b member => ?_
    obtain ⟨row, inRow, proj, inProj, -, rfl⟩ := members b member
    obtain ⟨branch, -, u, -, -, next⟩ := origin proj inProj
    have single : Scoped Source outs scope [row] := inScope.sub (by simpa using inRow)
    have merged : Scoped Source outs
        (scope ++ (clausesBind branch).filter fun x => decide (x ∈ scope)) [row ∪ proj] :=
      single.merge next (by simp)
    refine merged.congr fun x => ?_
    rw [mem_append, mem_filter, decide_eq_true_eq]
    tauto
  · rw [meaning]
    ext σ
    constructor
    · rintro ⟨row, inRow, proj, inProj, same, agrees⟩
      have left := (agreesIff row inRow proj inProj σ).mp agrees
      obtain ⟨branch, inBranches, u, solved, rfl, next⟩ := origin proj inProj
      refine ⟨⟨row, inRow, left⟩, assignmentOf ext u, fun x member => ?_,
        someSatisfied_iff.mpr ⟨branch, inBranches, solved⟩⟩
      have equal := lookup_of_sameOn same (mem_toFinset.mpr (mem_map_of_mem member))
      obtain ⟨v, old⟩ := Option.isSome_iff_exists.mp ((inScope.binds row inRow x).mpr (joinScope x member))
      rw [lookup_filterKeys, old] at equal
      split at equal
      · rw [left x v old]
        exact agrees_assignmentOf u x v equal
      · cases equal
    · rintro ⟨⟨row, inRow, left⟩, τ, same, holds⟩
      obtain ⟨branch, inBranches, satisfied⟩ := someSatisfied_iff.mp holds
      obtain ⟨evaluator, inEvaluators, branchMeans⟩ := exists_evaluator means inBranches
      obtain ⟨found, evaluated⟩ := exists_evaluated keepsVars_id united (mem_sortBranches.mpr inEvaluators)
      obtain ⟨next, solved⟩ := branchMeans.evaluate [] [∅] found
        (branchesFit_iff.mp branchesFit branch inBranches) (.unit Source outs) evaluated
      obtain ⟨u, member, agrees⟩ :=
        solved.symm.subset ⟨⟨∅, by simp, Agrees.empty ext τ⟩, satisfied⟩
      have keeps : (joinVars.map Key.var).toFinset ⊆ u.keys := by
        intro key inVars
        obtain ⟨x, inJoin, rfl⟩ := mem_map.mp (mem_toFinset.mp inVars)
        rw [Finmap.mem_keys, ← lookup_isSome, next.binds u member]
        simpa using bindsJoin branch inBranches inJoin
      have inProjected : τ ∈ solutions ext projected := by
        rw [meaning']
        refine ⟨evaluator, mem_sortBranches.mpr inEvaluators, found, evaluated,
          u.filterKeys fun key => decide (key ∈ boundKeys rows),
          mem_filterMap.mpr ⟨u, member, by rw [if_pos keeps]⟩, fun x v got => ?_⟩
        rw [lookup_filterKeys] at got
        split at got
        · exact agrees x v got
        · cases got
      obtain ⟨proj, inProj, agreesProj⟩ := inProjected
      obtain ⟨branch', inBranches', u', -, -, next'⟩ := origin proj inProj
      have sameKey : sameOn (joinVars.map Key.var).toFinset proj row = true := by
        refine sameOn_of_agrees understood.spelled inScope next' ?_ inRow (by simp) left
          agreesProj fun x inVars => ?_
        · intro key inVars
          obtain ⟨x, inJoin, rfl⟩ := mem_map.mp (mem_toFinset.mp inVars)
          have bound := bindsJoin branch' inBranches' inJoin
          exact ⟨x, rfl, joinScope x inJoin, mem_filter.mpr ⟨bound, by simp [joinScope x inJoin]⟩,
            not_mem_outs_of_shared understood inside fresh (joinScope x inJoin) inBranches' bound⟩
        · obtain ⟨y, inJoin, equal⟩ := mem_map.mp (mem_toFinset.mp inVars)
          cases equal
          exact same x inJoin
      exact ⟨row, inRow, proj, inProj, sameKey, (agreesIff row inRow proj inProj σ).mpr left⟩

theorem mem_clausesBind_iff :
    x ∈ clausesBind branch ↔ (x ∈ (branchPatterns branch).flatMap vars ∨ x ∈ orBinds branch) ∨
      x ∈ branch.filterMap output := by
  induction branch with
  | nil => simp [clausesBind, branchPatterns, orBinds]
  | cons clause rest ih =>
    have patterns : (branchPatterns (clause :: rest)).flatMap vars =
        (clause.asPattern.map vars).getD [] ++ (branchPatterns rest).flatMap vars := by
      cases found : clause.asPattern <;> simp [branchPatterns, found]
    have ors : orBinds (clause :: rest) = orBinds [clause] ++ orBinds rest := by
      cases clause <;> simp [orBinds]
    have outputs : (clause :: rest).filterMap output = clause.output.toList ++ rest.filterMap output := by
      cases found : clause.output <;> simp [found]
    have own : x ∈ clause.binds ↔ (x ∈ (clause.asPattern.map vars).getD [] ∨
        x ∈ orBinds [clause]) ∨ x ∈ clause.output.toList := by
      cases clause <;> simp [WhereClause.binds, asPattern, orBinds, output]
    rw [clausesBind, mem_append, ih, own, patterns, ors, outputs]
    simp only [mem_append]
    tauto

theorem allSatisfied_iff_kinds {model : Set Triple} {σ : Assignment} (fits : patternsFit branch = true) :
    AllSatisfied ext functions model branch σ ↔
      (((∀ p ∈ branchPatterns branch, p.Holds ext σ model) ∧
        ∀ clause ∈ branch, clause.isOrClause = true → clause.Satisfied ext functions model σ) ∧
        ∀ clause ∈ branch, clause.isNot = true → clause.Satisfied ext functions model σ) ∧
        ∀ clause ∈ branch, clause.isExpr = true → clause.Satisfied ext functions model σ := by
  rw [allSatisfied_iff]
  constructor
  · intro satisfied
    refine ⟨⟨⟨fun p member => ?_, fun clause member _ => satisfied clause member⟩,
      fun clause member _ => satisfied clause member⟩, fun clause member _ => satisfied clause member⟩
    obtain ⟨clause, inBranch, pattern⟩ := mem_filterMap.mp member
    exact (satisfied_of_asPattern pattern).mp (satisfied clause inBranch)
  · rintro ⟨⟨⟨holds, ors⟩, nots⟩, exprs⟩ clause member
    have fit := all_eq_true.mp fits clause member
    cases clause with
    | pattern p =>
      exact (satisfied_of_asPattern rfl).mpr (holds p (mem_filterMap.mpr ⟨_, member, rfl⟩))
    | ruleInvocation predicate args =>
      obtain ⟨p, made⟩ : ∃ p, (WhereClause.ruleInvocation predicate args).asPattern = some p := by
        cases made : (ruleInvocationToPattern predicate args).toOption with
        | none => simp [made] at fit
        | some p => exact ⟨p, made⟩
      exact (satisfied_of_asPattern made).mpr (holds p (mem_filterMap.mpr ⟨_, member, made⟩))
    | expr e out => exact exprs _ member rfl
    | not body | notJoin joinVars body => exact nots _ member rfl
    | or branches | orJoin joinVars branches => exact ors _ member rfl

theorem joinable_of_fits (understood : Understood ext functions facts Source outs all) (inside : branch ⊆ all)
    (fits : patternsFit branch = true) : ∀ p ∈ branchPatterns branch, p.Joinable outs := by
  intro p member
  obtain ⟨clause, inBranch, pattern⟩ := mem_filterMap.mp member
  have joins : p.joins = true := by
    have fit := all_eq_true.mp fits clause inBranch
    cases clause with
    | pattern q =>
      cases pattern
      exact fit
    | ruleInvocation predicate args =>
      have made : (ruleInvocationToPattern predicate args).toOption = some p := pattern
      simpa [made] using fit
    | _ => cases pattern
  have fresh := understood.fresh p (mem_filterMap.mpr ⟨clause, inside inBranch, pattern⟩)
  unfold Pattern.joins at joins
  cases real : p.attr with
  | pseudo pseudo =>
    rw [real] at joins
    cases joins
  | real attr =>
    rw [real] at joins
    refine ⟨⟨attr, real⟩, fun x bound => ?_, fresh⟩
    have named : attr.boundVar = some x := by
      rw [real] at bound
      exact bound
    simpa [named, bne_iff_ne] using joins

theorem within_subset_of_mem {clauses : List WhereClause} (member : clause ∈ clauses) :
    clause.within ⊆ clausesWithin clauses := by
  induction clauses with
  | nil => cases member
  | cons first rest ih =>
    intro inner inside
    rw [clausesWithin, mem_append]
    rcases mem_cons.mp member with rfl | inRest
    · exact .inl inside
    · exact .inr (ih inRest inside)

theorem self_mem_within (clause : WhereClause) : clause ∈ clause.within := by
  cases clause <;> simp [WhereClause.within]

theorem subset_clausesWithin (clauses : List WhereClause) : clauses ⊆ clausesWithin clauses :=
  fun clause member => within_subset_of_mem member (self_mem_within clause)

variable {body : List WhereClause}

theorem plainPatterns_subset (inside : body ⊆ all) :
    body.filterMap WhereClause.asPlainPattern ⊆ branchPatterns all := by
  intro p member
  obtain ⟨clause, inBody, plain⟩ := mem_filterMap.mp member
  refine mem_filterMap.mpr ⟨clause, inside inBody, ?_⟩
  cases clause with
  | pattern q => exact plain
  | _ => cases plain

theorem branchPatterns_subset (inside : branch ⊆ all) :
    branchPatterns branch ⊆ branchPatterns all := by
  intro p member
  obtain ⟨clause, inBranch, pattern⟩ := mem_filterMap.mp member
  exact mem_filterMap.mpr ⟨clause, inside inBranch, pattern⟩

theorem Understood.writable (understood : Understood ext functions facts Source outs all)
    (member : clause ∈ all) {b : Bindings}
    (inScope : Scoped Source outs scope [b]) (known : ∀ x ∈ clause.negatedVars, x ∉ outs) :
    Writable ext facts (branchPatterns all) clause.negatedVars b where
  noWildcard := inScope.noWildcard b (by simp)
  present := fun x negated got => understood.present clause member x negated
    ((inScope.source b (by simp) x _ got).resolve_right (known x negated))
  near := fun x negated f got => understood.near clause member x negated f
    ((inScope.source b (by simp) x _ got).resolve_right (known x negated))

section Negations

variable {b : Bindings} {σ : Assignment} {validAt : Value} {clauses : List WhereClause}

theorem body_inside (inside : clausesWithin clauses ⊆ all) (member : clause ∈ clauses)
    (isBody : clause.within = clause :: clausesWithin body) : clause ∈ all ∧ body ⊆ all := by
  have sub := List.Subset.trans (within_subset_of_mem member) inside
  refine ⟨sub (self_mem_within _), fun part inBody => sub ?_⟩
  rw [isBody]
  exact mem_cons_of_mem _ (subset_clausesWithin body inBody)

variable {kept : Bool}

theorem filter_iff {kind : WhereClause → Bool} (filter : List WhereClause → Except String Bool)
    {Holds : WhereClause → Prop} (ok : filter clauses = .ok kept) (nil : filter [] = .ok true)
    (skip : ∀ clause rest, kind clause = false → filter (clause :: rest) = filter rest)
    (test : ∀ clause ∈ clauses, kind clause = true → ∀ rest kept, filter (clause :: rest) = .ok kept →
      ∃ found : Bool, (found = true ↔ ¬Holds clause) ∧
        (if found then .ok false else filter rest) = Except.ok kept) :
    kept = true ↔ ∀ clause ∈ clauses, kind clause = true → Holds clause := by
  induction clauses with
  | nil =>
    cases nil.symm.trans ok
    simp
  | cons clause rest ih =>
    rw [forall_mem_cons]
    have ih := fun ok => ih ok fun clause member => test clause (by simp [member])
    cases isKind : kind clause with
    | false =>
      rw [ih (skip clause rest isKind ▸ ok)]
      simp
    | true =>
      obtain ⟨found, refuted, later⟩ := test clause (by simp) isKind rest kept ok
      cases found with
      | true =>
        cases later
        simp [refuted.mp rfl]
      | false =>
        have holds : Holds clause := by_contra fun fails => Bool.false_ne_true (refuted.mpr fails)
        rw [ih later]
        simp [holds]

section

variable (inside : clausesWithin clauses ⊆ all) (inScope : Scoped Source outs scope [b])
  (fits : notsFit scope clauses = true)
include understood inside inScope fits

theorem notFilter_spec (agrees : Agrees ext σ b) (ok : notFilter ext ctx validAt clauses b = .ok kept) :
    kept = true ↔ ∀ clause ∈ clauses, (clause matches .not _) = true →
      clause.Satisfied ext ctx.functions (factModel ext ctx.facts) σ := by
  refine filter_iff (notFilter ext ctx validAt · b) ok rfl (fun clause rest other => ?_)
    fun clause member isNot rest kept ok => ?_
  · cases clause <;> first | rfl | cases other
  cases clause with
  | not body =>
    obtain ⟨inAll, bodyInside⟩ := body_inside inside member (WhereClause.within.eq_def _)
    obtain ⟨found, matched, later⟩ := bind_eq_ok_iff.mp ok
    have fresh : ∀ p ∈ body.filterMap WhereClause.asPlainPattern, ∀ x ∈ p.vars, x ∉ outs :=
      fun p member => understood.fresh p (plainPatterns_subset bodyInside member)
    have meaning := notBodyMatches_spec inScope understood.spelled
      (plainPatterns_subset bodyInside) (all_eq_true.mp fits _ member)
      (fun e out member => understood.free e out (bodyInside member)) fresh
      (understood.writable inAll inScope fun x member => by
        obtain ⟨p, inPs, inP⟩ := mem_flatMap.mp member
        exact fresh p inPs x inP) matched agrees
    exact ⟨found, by simpa only [WhereClause.Satisfied, not_not] using meaning, later⟩
  | _ => cases isNot

theorem notJoinFilter_spec (agrees : Agrees ext σ b) (ok : notJoinFilter ext ctx clauses b = .ok kept) :
    kept = true ↔ ∀ clause ∈ clauses, (clause matches .notJoin _ _) = true →
      clause.Satisfied ext ctx.functions (factModel ext ctx.facts) σ := by
  refine filter_iff (notJoinFilter ext ctx · b) ok rfl (fun clause rest other => ?_)
    fun clause member isNot rest kept ok => ?_
  · cases clause <;> first | rfl | cases other
  cases clause with
  | notJoin joinVars body =>
    obtain ⟨inAll, bodyInside⟩ := body_inside inside member (WhereClause.within.eq_def _)
    obtain ⟨found, matched, later⟩ := bind_eq_ok_iff.mp ok
    have fit := all_eq_true.mp fits _ member
    simp only [Bool.and_eq_true, decide_eq_true_eq] at fit
    have part := inScope.joinPart fit.1
    have meaning := evaluateNotJoin_spec inScope understood.spelled
      (branchPatterns_subset bodyInside) fit.1 fit.2
      (fun e out member => understood.free e out (bodyInside member))
      (fun p member => understood.fresh p (branchPatterns_subset bodyInside member))
      (understood.writable inAll part (understood.joins joinVars body inAll)) matched agrees
    exact ⟨found, by simpa only [WhereClause.Satisfied, not_not] using meaning, later⟩
  | _ => cases isNot

theorem keepRow_spec {result : Option Bindings} (ok : keepRow ext ctx validAt clauses b = .ok result) :
    (∀ r ∈ result, r = b) ∧ ∀ σ, (∃ r ∈ result, Agrees ext σ r) ↔ Agrees ext σ b ∧
      ∀ clause ∈ clauses, clause.isNot = true →
        clause.Satisfied ext ctx.functions (factModel ext ctx.facts) σ := by
  have kinds : ∀ {holds : WhereClause → Prop}, (∀ clause ∈ clauses, clause.isNot = true → holds clause) ↔
      (∀ clause ∈ clauses, (clause matches .not _) = true → holds clause) ∧
        ∀ clause ∈ clauses, (clause matches .notJoin _ _) = true → holds clause := by
    intro holds
    simp only [← forall_and]
    refine forall₂_congr fun clause _ => ?_
    cases clause <;> simp [isNot]
  obtain ⟨byNot, notOk, ok⟩ := bind_eq_ok_iff.mp ok
  have byNotIff : ∀ σ, Agrees ext σ b → (byNot = true ↔ _) := fun σ agrees =>
    notFilter_spec understood inside inScope fits agrees notOk
  cases byNot with
  | false =>
    cases ok
    refine ⟨by simp, fun σ => ?_⟩
    simp only [Option.not_mem_none, false_and, exists_false, false_iff, not_and]
    intro agrees satisfied
    cases (byNotIff σ agrees).mpr (kinds.mp satisfied).1
  | true =>
    obtain ⟨byJoin, joinOk, ok⟩ := bind_eq_ok_iff.mp ok
    have byJoinIff : ∀ σ, Agrees ext σ b → (byJoin = true ↔ _) := fun σ agrees =>
      notJoinFilter_spec understood inside inScope fits agrees joinOk
    cases byJoin with
    | false =>
      cases ok
      refine ⟨by simp, fun σ => ?_⟩
      simp only [Option.not_mem_none, false_and, exists_false, false_iff, not_and]
      intro agrees satisfied
      cases (byJoinIff σ agrees).mpr (kinds.mp satisfied).2
    | true =>
      cases ok
      refine ⟨by simp, fun σ => ?_⟩
      simp only [Option.mem_def, Option.some.injEq, exists_eq_left', kinds]
      exact ⟨fun agrees => ⟨agrees, (byNotIff σ agrees).mp rfl, (byJoinIff σ agrees).mp rfl⟩,
        fun holds => holds.1⟩

end

end Negations

include understood in
theorem evaluateBranchWith_spec {branch : List WhereClause} (inside : clausesWithin branch ⊆ all)
    {nested : List Bindings → Except String (List Bindings)}
    (nestedMeans : ∀ scope rows done, Scoped Source outs scope rows → rows ≠ [] →
      orsFit scope branch = true → orComesFirst branch = true → nested rows = .ok done →
      Scoped Source outs (scope ++ orBinds branch) done ∧ solutions ext done =
        {σ ∈ solutions ext rows | ∀ clause ∈ branch, clause.isOrClause = true →
          clause.Satisfied ext ctx.functions (factModel ext ctx.facts) σ}) {seed found : List Bindings}
    (fits : branchFits scope branch = true) (inScope : Scoped Source outs scope seed)
    (ok : evaluateBranchWith ext ctx branch nested seed = .ok found) :
    Scoped Source outs (scope ++ clausesBind branch) found ∧ solutions ext found =
      {σ ∈ solutions ext seed | AllSatisfied ext ctx.functions (factModel ext ctx.facts) branch σ} := by
  simp only [branchFits, branchFitsWith, Bool.and_eq_true] at fits
  obtain ⟨⟨⟨⟨patternsFit, orsFit⟩, first⟩, notsFit⟩, exprsFit⟩ := fits
  simp only [allSatisfied_iff_kinds patternsFit]
  have branchInside : branch ⊆ all := List.Subset.trans (subset_clausesWithin branch) inside
  have nothing : ∀ {rows : List Bindings} {P Q : Assignment → Prop}, rows = [] →
      solutions ext rows = {σ ∈ solutions ext seed | P σ} → (∀ σ, Q σ → P σ) →
      solutions ext [] = {σ ∈ solutions ext seed | Q σ} := by
    rintro rows P Q rfl meaning weaker
    rw [solutions_nil] at meaning ⊢
    ext σ
    constructor
    · exact fun member => member.elim
    · rintro ⟨inSeed, holds⟩
      rw [meaning]
      exact ⟨inSeed, weaker σ holds⟩
  unfold evaluateBranchWith at ok
  split at ok
  · cases ok
    exact ⟨.nil _ _ _, by ext σ; simp [solutions]⟩
  obtain ⟨validAt, -, ok⟩ := bind_eq_ok_iff.mp ok
  obtain ⟨matched, matchOk, ok⟩ := bind_eq_ok_iff.mp ok
  obtain ⟨matchScope, matchMeans⟩ : Scoped Source outs
      (scope ++ (branchPatterns branch).flatMap vars) matched ∧ solutions ext matched =
        {σ ∈ solutions ext seed | ∀ p ∈ branchPatterns branch,
          p.Holds ext σ (factModel ext ctx.facts)} := by
    unfold matchBranch at matchOk
    split at matchOk
    · rename_i none
      have none : branchPatterns branch = [] := List.isEmpty_iff.mp none
      cases matchOk
      rw [none]
      exact ⟨by simpa using inScope, by ext σ; simp⟩
    · exact matchPatternsBounded_spec inScope understood.spelled (branchPatterns_subset branchInside)
        (joinable_of_fits understood branchInside patternsFit) matchOk
  split at ok
  · rename_i empty
    cases ok
    exact ⟨.nil _ _ _, nothing (List.isEmpty_iff.mp empty) matchMeans fun σ holds => holds.1.1.1⟩
  rename_i someMatched
  obtain ⟨extended, nestedOk, ok⟩ := bind_eq_ok_iff.mp ok
  obtain ⟨nestScope, nestMeans⟩ := nestedMeans _ matched extended matchScope
    (by simpa using someMatched) orsFit first nestedOk
  rw [matchMeans] at nestMeans
  have nestMeans : solutions ext extended = {σ ∈ solutions ext seed |
      (∀ p ∈ branchPatterns branch, p.Holds ext σ (factModel ext ctx.facts)) ∧
      ∀ clause ∈ branch, clause.isOrClause = true →
        clause.Satisfied ext ctx.functions (factModel ext ctx.facts) σ} := by
    rw [nestMeans]
    ext σ
    simp only [Set.mem_ofPred_eq, and_assoc]
  split at ok
  · rename_i empty
    cases ok
    exact ⟨.nil _ _ _, nothing (List.isEmpty_iff.mp empty) nestMeans fun σ holds => holds.1.1⟩
  obtain ⟨kept, keptOk, ok⟩ := bind_eq_ok_iff.mp ok
  have each : ∀ b ∈ extended, ∀ result, keepRow ext ctx validAt branch b = .ok result →
      (∀ r ∈ result, r = b) ∧ ∀ σ, (∃ r ∈ result, Agrees ext σ r) ↔ Agrees ext σ b ∧
        ∀ clause ∈ branch, clause.isNot = true →
          clause.Satisfied ext ctx.functions (factModel ext ctx.facts) σ :=
    fun b member result stepped => keepRow_spec understood inside
      (nestScope.sub (by simpa using member)) notsFit stepped
  have keptScope : Scoped Source outs (scope ++ (branchPatterns branch).flatMap vars ++ orBinds branch)
      kept.reduceOption := nestScope.sub fun r member => by
    obtain ⟨b, inRows, stepped⟩ := (mem_reduceOption_mapM keptOk).mp member
    rw [(each b inRows _ stepped).1 r rfl]
    exact inRows
  have keptMeans := solutions_mapM (fun b member result stepped =>
    (each b member result stepped).2) keptOk
  unfold applyExprClauses at ok
  split at ok
  · cases ok
  obtain ⟨finalScope, finalMeans⟩ := foldlM_applyExprToRows_spec (factModel ext ctx.facts)
    keptScope (fun e out member => understood.free e out (branchInside member)) exprsFit
    (fun x member => by
      obtain ⟨clause, inBranch, output⟩ := mem_filterMap.mp member
      exact understood.outputs clause (branchInside inBranch) x output) ok
  refine ⟨finalScope.congr fun x => ?_, ?_⟩
  · simp only [mem_append, mem_clausesBind_iff]
    tauto
  · rw [finalMeans, keptMeans, nestMeans]
    ext σ
    simp only [Set.mem_ofPred_eq, and_assoc]

theorem orBinds_cons (clause : WhereClause) (rest : List WhereClause) :
    orBinds (clause :: rest) = orBinds [clause] ++ orBinds rest := by
  cases clause <;> simp [orBinds]

theorem orComesFirst_cons {clause : WhereClause} {rest : List WhereClause}
    (first : orComesFirst (clause :: rest) = true) :
    orComesFirst rest = true ∧ (clause.isOrClause = true → ∀ c ∈ rest, c.isOr = false) := by
  unfold orComesFirst at first ⊢
  rw [all_eq_true] at first ⊢
  by_cases isOr : clause.isOrClause = true
  · rw [filter_cons_of_pos isOr, tail_cons] at first
    refine ⟨fun c member => first c (mem_of_mem_tail member), fun _ c member => ?_⟩
    cases c with
    | or branches =>
      cases first _ (mem_filter.mpr ⟨member, rfl⟩)
    | _ => rfl
  · rw [filter_cons_of_neg isOr] at first
    exact ⟨first, fun holds => absurd holds isOr⟩

mutual

theorem applyOrClause_spec (understood : Understood ext ctx.functions ctx.facts Source outs all) :
    ∀ {clause : WhereClause}, clause.within ⊆ all →
    ∀ {scope : List String} {rows done : List Bindings}, Scoped Source outs scope rows →
    (rows ≠ [] ∨ clause.isOr = false) → clause.fits scope = true →
    applyOrClause ext ctx clause rows = .ok done →
    Scoped Source outs (scope ++ orBinds [clause]) done ∧
      (clause.isOrClause = true → DistinctOn id done) ∧
      solutions ext done = {σ ∈ solutions ext rows | clause.isOrClause = true →
        clause.Satisfied ext ctx.functions (factModel ext ctx.facts) σ}
  | .or branches, inside, scope, rows, done, inScope, nonempty, fits, ok => by
    have inBranches : branchesWithin branches ⊆ all := fun c member =>
      inside (by simp [WhereClause.within, member])
    have nonempty : rows ≠ [] := nonempty.resolve_right (by simp [WhereClause.isOr])
    obtain ⟨next, distinct, meaning⟩ := applyOr_spec understood
      (branchEvaluators_spec understood inBranches) inBranches inScope nonempty fits
      (by simpa only [applyOrClause] using ok)
    refine ⟨by simpa [orBinds] using next, fun _ => distinct, ?_⟩
    rw [meaning]
    simp [WhereClause.isOrClause, WhereClause.Satisfied]
  | .orJoin joinVars branches, inside, scope, rows, done, inScope, _, fits, ok => by
    have inBranches : branchesWithin branches ⊆ all := fun c member =>
      inside (by simp [WhereClause.within, member])
    obtain ⟨next, distinct, meaning⟩ := applyOrJoin_spec understood
      (branchEvaluators_spec understood inBranches) inBranches inScope fits
      (by simpa only [applyOrClause] using ok)
    refine ⟨by simpa [orBinds] using next, fun _ => distinct, ?_⟩
    rw [meaning]
    simp [WhereClause.isOrClause, WhereClause.Satisfied]
  | .pattern _, _, _, _, _, inScope, _, _, ok | .ruleInvocation _ _, _, _, _, _, inScope, _, _, ok
  | .not _, _, _, _, _, inScope, _, _, ok | .notJoin _ _, _, _, _, _, inScope, _, _, ok
  | .expr _ _, _, _, _, _, inScope, _, _, ok => by
    cases ok
    simpa [orBinds, WhereClause.isOrClause] using inScope

theorem applyOrClauses_spec (understood : Understood ext ctx.functions ctx.facts Source outs all) :
    ∀ {clauses : List WhereClause}, clausesWithin clauses ⊆ all →
    ∀ {scope : List String} {rows done : List Bindings}, Scoped Source outs scope rows →
    (rows ≠ [] ∨ ∀ c ∈ clauses, c.isOr = false) → orsFit scope clauses = true →
    orComesFirst clauses = true → applyOrClauses ext ctx clauses rows = .ok done →
    Scoped Source outs (scope ++ orBinds clauses) done ∧ solutions ext done =
      {σ ∈ solutions ext rows | ∀ clause ∈ clauses, clause.isOrClause = true →
        clause.Satisfied ext ctx.functions (factModel ext ctx.facts) σ}
  | [], _, _, _, _, inScope, _, _, _, ok => by
    cases ok
    simpa [orBinds] using inScope
  | clause :: rest, inside, scope, rows, done, inScope, nonempty, fits, first, ok => by
    simp only [clausesWithin, append_subset] at inside
    simp only [orsFit, Bool.and_eq_true] at fits
    simp only [applyOrClauses] at ok
    obtain ⟨between, stepOk, ok⟩ := bind_eq_ok_iff.mp ok
    obtain ⟨restFirst, noMore⟩ := orComesFirst_cons first
    obtain ⟨stepScope, -, stepMeans⟩ := applyOrClause_spec understood inside.1 inScope
      (nonempty.imp_right fun none => none clause mem_cons_self) fits.1 stepOk
    have left : between ≠ [] ∨ ∀ c ∈ rest, c.isOr = false := by
      by_cases isOr : clause.isOrClause = true
      · exact .inr (noMore isOr)
      have same : between = rows := by
        cases clause with
        | or branches | orJoin joinVars branches => exact absurd rfl isOr
        | _ => exact (Except.ok.inj stepOk).symm
      rw [same]
      exact nonempty.imp_right fun none c member => none c (mem_cons_of_mem _ member)
    obtain ⟨restScope, restMeans⟩ :=
      applyOrClauses_spec understood inside.2 stepScope left fits.2 restFirst ok
    refine ⟨?_, ?_⟩
    · rw [orBinds_cons, ← append_assoc]
      exact restScope
    · rw [restMeans, stepMeans]
      ext σ
      simp only [Set.mem_ofPred_eq, forall_mem_cons, and_assoc]

theorem branchEvaluators_spec (understood : Understood ext ctx.functions ctx.facts Source outs all) :
    ∀ {branches : List (List WhereClause)}, branchesWithin branches ⊆ all →
    List.Forall₂ (BranchMeans ext Source outs ctx) branches (branchEvaluators ext ctx branches)
  | [], _ => by
    rw [branchEvaluators]
    exact .nil
  | branch :: rest, inside => by
    simp only [branchesWithin, append_subset] at inside
    rw [branchEvaluators]
    refine .cons ⟨rfl, fun scope seed found fits inScope ok => ?_⟩ (branchEvaluators_spec understood inside.2)
    exact evaluateBranchWith_spec understood inside.1
      (fun scope rows done inScope nonempty fits first ok =>
        applyOrClauses_spec understood inside.1 inScope (.inl nonempty) fits first ok)
      fits inScope ok

end

end Branches

end ViciaDb
