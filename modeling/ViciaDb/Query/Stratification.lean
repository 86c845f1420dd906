import ViciaDb.Lib.Strata
import ViciaDb.Query.Evaluator

namespace ViciaDb

open Strata List

/-- Negation looks for rule invocations only directly below it. -/
def negativeDeps (inner : List WhereClause) : List (String × Bool) :=
  inner.filterMap fun
    | .ruleInvocation predicate _ => some (predicate, true)
    | _ => none

mutual

def collectClauseDeps : WhereClause → List (String × Bool)
  | .ruleInvocation predicate _ => [(predicate, false)]
  | .not inner | .notJoin _ inner => negativeDeps inner
  | .or branches | .orJoin _ branches => collectBranchDeps branches
  | .pattern _ | .expr _ _ => []

def collectBranchDeps : List (List WhereClause) → List (String × Bool)
  | [] => []
  | branch :: rest => collectBodyDeps branch ++ collectBranchDeps rest

def collectBodyDeps : List WhereClause → List (String × Bool)
  | [] => []
  | clause :: rest => collectClauseDeps clause ++ collectBodyDeps rest

end

structure DependencyGraph where
  edges : List (String × List (String × Bool))

namespace DependencyGraph

def fromRules (registry : RuleRegistry) : DependencyGraph where
  edges := (registry.rules.filter (!·.2.isEmpty)).map fun (head, rules) =>
    (head, rules.flatMap (collectBodyDeps ·.body))

variable (graph : DependencyGraph)

def allPredicates : Finset String :=
  (graph.edges.flatMap fun (head, deps) => head :: deps.map Prod.fst).toFinset

def visited : List (Edge String) :=
  graph.edges.flatMap fun (head, deps) => deps.map (head, ·)

/-- `none` if the passes do not suffice, which `stratify_spec` excludes. -/
def stratify : Option (Except String (String → Nat)) :=
  let n := graph.allPredicates.card
  relabel n (fun (head, dep, _) => "unstratifiable: predicate '" ++ head ++
    "' is involved in a negative cycle through '" ++ dep ++ "'") graph.visited (n * n + 1) fun _ => 0

variable {graph}

theorem mem_allPredicates {edge : Edge String} (member : edge ∈ graph.visited) :
    edge.1 ∈ graph.allPredicates ∧ edge.2.1 ∈ graph.allPredicates := by
  simp only [visited, mem_flatMap, mem_map] at member
  obtain ⟨⟨head, deps⟩, entry, dep, inside, rfl⟩ := member
  simp only [allPredicates, mem_toFinset, mem_flatMap]
  exact ⟨⟨_, entry, mem_cons_self⟩, _, entry, mem_cons_of_mem _ (mem_map_of_mem inside)⟩

theorem stratify_spec (graph : DependencyGraph) : ∃ result, graph.stratify = some result ∧
    ((∃ strata, result = .ok strata) ↔ ¬NegativeCycle graph.visited) ∧
    ∀ strata, result = .ok strata →
      ∀ edge ∈ graph.visited, required strata edge ≤ strata edge.1 := by
  obtain ⟨result, eq, spec⟩ := relabel_spec (fun _ => @mem_allPredicates graph _) _
    (graph.allPredicates.card * graph.allPredicates.card + 1) (fun _ => 0)
    (fun p => ⟨p, .refl p⟩) (by simp) (by simp)
  refine ⟨result, eq, ?_⟩
  cases result with
  | error => exact ⟨by simpa using spec, nofun⟩
  | ok strata =>
    refine ⟨iff_of_true ⟨_, rfl⟩ fun ⟨p, k, walk⟩ => ?_, by rintro _ ⟨⟩; exact spec⟩
    have := walk.labels_le spec
    omega

end DependencyGraph

def pushRule (predicate : String) (rule : Rule) :
    List (String × List Rule) → List (String × List Rule)
  | [] => [(predicate, [rule])]
  | (head, rules) :: rest =>
    if head = predicate then (head, rules ++ [rule]) :: rest
    else (head, rules) :: pushRule predicate rule rest

def popRule (predicate : String) : List (String × List Rule) → List (String × List Rule)
  | [] => []
  | (head, rules) :: rest =>
    if head = predicate then
      if rules.dropLast.isEmpty then rest else (head, rules.dropLast) :: rest
    else (head, rules) :: popRule predicate rest

namespace RuleRegistry

def push (registry : RuleRegistry) (predicate : String) (rule : Rule) : RuleRegistry :=
  ⟨pushRule predicate rule registry.rules⟩

def registerRule (registry : RuleRegistry) (predicate : String) (rule : Rule) :
    Option (Except String Unit × RuleRegistry) :=
  let pushed := registry.push predicate rule
  (DependencyGraph.fromRules pushed).stratify.map fun
    | .error e => (.error e, ⟨popRule predicate pushed.rules⟩)
    | .ok _ => (.ok (), pushed)

def registered (history : List (String × Rule)) : Option RuleRegistry :=
  history.foldlM (fun registry (predicate, rule) =>
    (registry.registerRule predicate rule).map Prod.snd) ⟨[]⟩

def Answers (registry : RuleRegistry) (predicate : String) (rule : Rule)
    (outcome : Except String Unit) (after : RuleRegistry) : Prop :=
  let cyclic := NegativeCycle (DependencyGraph.fromRules (registry.push predicate rule)).visited
  (cyclic → (∃ message, outcome = .error message) ∧ after = registry) ∧
    (¬cyclic → outcome = .ok () ∧ after = registry.push predicate rule)

def NoneEmpty (registry : RuleRegistry) : Prop := ∀ entry ∈ registry.rules, entry.2 ≠ []

variable {registry : RuleRegistry}

theorem NoneEmpty.push (full : registry.NoneEmpty) (predicate : String) (rule : Rule) :
    (registry.push predicate rule).NoneEmpty ∧
      popRule predicate (registry.push predicate rule).rules = registry.rules := by
  obtain ⟨rules⟩ := registry
  unfold NoneEmpty RuleRegistry.push at *
  induction rules with
  | nil => simp [pushRule, popRule]
  | cons entry rest ih =>
    obtain ⟨head, rules⟩ := entry
    obtain ⟨first, full⟩ := forall_mem_cons.mp full
    obtain ⟨kept, undone⟩ := ih full
    by_cases same : head = predicate
    · simp only [pushRule, popRule, if_pos same, forall_mem_cons]
      exact ⟨⟨by simp, full⟩, by simp [first]⟩
    · simp only [pushRule, popRule, if_neg same, forall_mem_cons]
      exact ⟨⟨first, kept⟩, by rw [undone]⟩

theorem NoneEmpty.registerRule (full : registry.NoneEmpty) (predicate : String) (rule : Rule) :
    ∃ outcome after, registry.registerRule predicate rule = some (outcome, after) ∧
      after.NoneEmpty ∧ registry.Answers predicate rule outcome after := by
  obtain ⟨result, eq, succeeds, -⟩ :=
    (DependencyGraph.fromRules (registry.push predicate rule)).stratify_spec
  obtain ⟨kept, undone⟩ := full.push predicate rule
  simp only [RuleRegistry.registerRule, eq, Option.map_some, Option.some.injEq]
  cases result with
  | error e =>
    refine ⟨.error e, _, rfl, by rwa [undone], fun _ => ⟨⟨e, rfl⟩, by rw [undone]⟩, fun none => ?_⟩
    exact absurd (succeeds.mpr none) (by simp)
  | ok strata =>
    exact ⟨.ok (), _, rfl, kept, fun cycle => absurd cycle (succeeds.mp ⟨_, rfl⟩), fun _ => ⟨rfl, rfl⟩⟩

theorem registered_noneEmpty (history : List (String × Rule)) :
    ∀ start : RuleRegistry, start.NoneEmpty → ∃ registry : RuleRegistry,
      history.foldlM (fun registry (predicate, rule) =>
        (registry.registerRule predicate rule).map Prod.snd) start = some registry ∧
      registry.NoneEmpty := by
  induction history with
  | nil => exact fun start full => ⟨start, rfl, full⟩
  | cons first rest ih =>
    intro start full
    obtain ⟨outcome, after, eq, full, -⟩ := full.registerRule first.1 first.2
    obtain ⟨registry, run, full⟩ := ih after full
    exact ⟨registry, by simp [foldlM_cons, eq, run], full⟩

end RuleRegistry

theorem stratification_sound_complete_and_undone :
    (∀ graph : DependencyGraph, ∃ result, graph.stratify = some result ∧
      ((∃ strata, result = .ok strata) ↔ ¬NegativeCycle graph.visited) ∧
      ∀ strata, result = .ok strata → ∀ head dep,
        ((head, dep, false) ∈ graph.visited → strata dep ≤ strata head) ∧
        ((head, dep, true) ∈ graph.visited → strata dep < strata head)) ∧
    ∀ history, ∃ registry, RuleRegistry.registered history = some registry ∧
      ∀ predicate rule, ∃ outcome after,
        registry.registerRule predicate rule = some (outcome, after) ∧
        registry.Answers predicate rule outcome after := by
  refine ⟨fun graph => ?_, fun history => ?_⟩
  · obtain ⟨result, eq, succeeds, labelled⟩ := graph.stratify_spec
    refine ⟨result, eq, succeeds, fun strata ok head dep => ⟨fun member => ?_, fun member => ?_⟩⟩
    · exact labelled strata ok _ member
    · exact labelled strata ok _ member
  · obtain ⟨registry, run, full⟩ := RuleRegistry.registered_noneEmpty history ⟨[]⟩ nofun
    refine ⟨registry, run, fun predicate rule => ?_⟩
    obtain ⟨outcome, after, eq, -, spec⟩ := full.registerRule predicate rule
    exact ⟨outcome, after, eq, spec⟩

end ViciaDb
