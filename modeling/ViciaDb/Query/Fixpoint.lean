import ViciaDb.Query.PositiveRules

namespace ViciaDb

open List
open ViciaDb.Fact (triple)

variable {ext : Externals} {rules : List Rule} {base : List Fact}

variable {u : Triple} {delta : List Triple} {seen seen' : List (EntityId × String × List UInt8)}
    {clock : Nat → UInt64}

@[simp] theorem map_triple_transactDerived (clock : Nat → UInt64) (storage : List Fact) (t : Triple) :
    (transactDerived clock storage t).map triple = storage.map triple ++ [t] := by
  simp [transactDerived, triple]

theorem map_triple_foldl_transactDerived (clock : Nat → UInt64) (ts : List Triple) (storage : List Fact) :
    (ts.foldl (transactDerived clock) storage).map triple =
      storage.map triple ++ ts := by
  induction ts generalizing storage with
  | nil => simp
  | cons t rest ih => simp [ih]

theorem asserted_foldl_transactDerived (clock : Nat → UInt64) (ts : List Triple)
    (storage : List Fact) (asserted : ∀ f ∈ storage, f.asserted = true) :
    ∀ f ∈ ts.foldl (transactDerived clock) storage, f.asserted = true := by
  induction ts generalizing storage with
  | nil => exact asserted
  | cons t rest ih =>
    apply ih
    intro f member
    simp only [transactDerived, mem_append, mem_singleton] at member
    rcases member with old | rfl
    · exact asserted f old
    · rfl

theorem Triple.key_inj {t : Triple} (plain : t.value.isFloat = false) (same : t.key = u.key) :
    t = u := by
  obtain ⟨e, a, v⟩ := t
  obtain ⟨e', a', v'⟩ := u
  simp only [Triple.key, Prod.mk.injEq] at same
  obtain ⟨rfl, rfl, bytes⟩ := same
  cases encodeValue_inj plain bytes
  rfl

theorem newDelta_ok {maxResults : Nat} {ts : List Triple}
    (ok : newDelta maxResults ts seen = .ok (delta, seen')) :
    (∀ t ∈ delta, t ∈ ts) ∧ (∀ t ∈ ts, t.key ∈ seen') ∧
      ∀ key, key ∈ seen' ↔ key ∈ seen ∨ ∃ t ∈ delta, t.key = key := by
  induction ts generalizing delta seen with
  | nil =>
    cases ok
    simp
  | cons t rest ih =>
    simp only [newDelta] at ok
    split at ok
    · rename_i known
      obtain ⟨inTs, covered, keys⟩ := ih ok
      refine ⟨fun u member => by simp [inTs u member], ?_, keys⟩
      intro u member
      rcases mem_cons.mp member with rfl | member
      · exact (keys _).mpr (.inl known)
      · exact covered u member
    · split at ok
      · cases ok
      obtain ⟨⟨delta', seen''⟩, more, ⟨⟩⟩ := Except.bind_eq_ok_iff.mp ok
      obtain ⟨inTs, covered, keys⟩ := ih more
      refine ⟨?_, ?_, ?_⟩
      · intro u member
        rcases mem_cons.mp member with rfl | member
        · simp
        · simp [inTs u member]
      · intro u member
        rcases mem_cons.mp member with rfl | member
        · exact (keys _).mpr (.inl mem_cons_self)
        · exact covered u member
      · intro key
        rw [keys key, mem_cons]
        simp only [mem_cons, exists_eq_or_imp]
        grind

structure Derives (ext : Externals) (rules : List Rule) (base : List Fact) (derived : List Fact)
    (seen : List (EntityId × String × List UInt8)) : Prop where
  asserted : ∀ f ∈ derived, f.asserted = true
  admissible : ∀ f ∈ derived, Admissible rules base f.triple
  contains : ∀ f ∈ base, f.triple ∈ derived.map Fact.triple
  sound : factModel ext derived ⊆ leastModel ext rules (factModel ext base)
  keys : ∀ key, key ∈ seen ↔ ∃ f ∈ derived, f.triple.key = key

theorem factModel_iff {facts : List Fact} :
    u ∈ factModel ext facts ↔ ∃ t ∈ facts.map triple, t.normalize ext = u := by
  simp [factModel]

theorem Derives.extend {derived : List Fact} (derives : Derives ext rules base derived seen)
    (admissible : ∀ t ∈ delta, Admissible rules base t)
    (sound : ∀ t ∈ delta, t.normalize ext ∈ leastModel ext rules (factModel ext base))
    (keys : ∀ key, key ∈ seen' ↔ key ∈ seen ∨ ∃ t ∈ delta, t.key = key) :
    Derives ext rules base (delta.foldl (transactDerived clock) derived) seen' := by
  have triples := map_triple_foldl_transactDerived clock delta derived
  have mem : ∀ {f : Fact}, f ∈ delta.foldl (transactDerived clock) derived →
      (∃ g ∈ derived, g.triple = f.triple) ∨ f.triple ∈ delta := by
    intro f member
    have inMap := mem_map_of_mem (f := triple) member
    rw [triples, mem_append, mem_map] at inMap
    exact inMap
  refine ⟨asserted_foldl_transactDerived clock delta derived derives.asserted, ?_, ?_, ?_, ?_⟩
  · intro f member
    rcases mem member with ⟨g, old, same⟩ | new
    · exact same ▸ derives.admissible g old
    · exact admissible _ new
  · intro f member
    rw [triples]
    exact mem_append_left _ (derives.contains f member)
  · rintro u ⟨f, member, rfl⟩
    rcases mem member with ⟨g, old, same⟩ | new
    · exact derives.sound ⟨g, old, by rw [same]⟩
    · exact sound _ new
  · intro key
    have known : (∃ f ∈ delta.foldl (transactDerived clock) derived, f.triple.key = key) ↔
        ∃ t ∈ (delta.foldl (transactDerived clock) derived).map triple, t.key = key := by
      simp
    rw [known, triples, keys key, derives.keys key]
    simp only [mem_append, mem_map, or_and_right, exists_or, exists_exists_and_eq_and]

theorem derives_base (plain : ∀ f ∈ base, f.value.isFloat = false) :
    Derives ext rules base ((base.map triple).foldl (transactDerived clock) [])
      ((base.map triple).map Triple.key).dedup where
  asserted := asserted_foldl_transactDerived clock _ [] (by simp)
  admissible := by
    intro f member
    have inMap := mem_map_of_mem (f := triple) member
    rw [map_triple_foldl_transactDerived, map_nil, nil_append, mem_map] at inMap
    obtain ⟨g, inBase, same⟩ := inMap
    exact same ▸ admissible_of_mem inBase (plain g inBase)
  contains := by
    intro f member
    rw [map_triple_foldl_transactDerived]
    exact mem_append_right _ (mem_map_of_mem member)
  sound := by
    intro u member
    rw [factModel_iff, map_triple_foldl_transactDerived, map_nil, nil_append, ← factModel_iff] at member
    exact base_subset_leastModel ext rules _ member
  keys := by
    intro key
    have known : (∃ f ∈ (base.map triple).foldl (transactDerived clock) [], f.triple.key = key) ↔
        ∃ t ∈ ((base.map triple).foldl (transactDerived clock) []).map triple,
          t.key = key := by
      simp
    rw [known, map_triple_foldl_transactDerived, mem_dedup, mem_map]
    rfl

section Loop

variable {functions : FunctionRegistry} {registry : RuleRegistry} {predicates : List String}
  {limits : Limits} {clock : Nat → UInt64}

variable {derived : List Fact} {seen : List (EntityId × String × List UInt8)}

theorem evaluateIteration_spec {ts : List Triple} (names : rules = predicates.flatMap registry.getRules)
    (positive : ∀ rule ∈ rules, rule.Positive) (spellsAlike : SpellsAlike ext rules base)
    (derives : Derives ext rules base derived seen)
    (ok : evaluateIteration ext functions registry predicates derived = .ok ts) :
    (∀ t ∈ ts, Admissible rules base t ∧
      t.normalize ext ∈ consequences ext rules (factModel ext derived)) ∧
    ∀ u ∈ consequences ext rules (factModel ext derived), ∃ t ∈ ts, t.normalize ext = u := by
  unfold evaluateIteration at ok
  rw [← names] at ok
  obtain ⟨lists, each, ⟨⟩⟩ := Except.bind_eq_ok_iff.mp ok
  constructor
  · intro t member
    obtain ⟨list, inLists, inList⟩ := mem_flatten.mp member
    obtain ⟨rule, inRules, evaluated⟩ := mem_of_mapM_ok each inLists
    obtain ⟨admissible, σ, body, head⟩ := (evaluateRule_spec inRules (positive rule inRules)
      spellsAlike derives.asserted derives.admissible evaluated).1 t inList
    exact ⟨admissible, rule, inRules, σ, body, head⟩
  · rintro u ⟨rule, inRules, σ, body, head⟩
    obtain ⟨list, inLists, evaluated⟩ := exists_of_mapM_ok each inRules
    obtain ⟨t, inList, same⟩ := (evaluateRule_spec inRules (positive rule inRules)
      spellsAlike derives.asserted derives.admissible evaluated).2 σ u body head
    exact ⟨t, mem_flatten.mpr ⟨list, inLists, inList⟩, same⟩

theorem evaluateLoop_spec {remaining : Nat} {result : List Fact}
    (names : rules = predicates.flatMap registry.getRules) (positive : ∀ rule ∈ rules, rule.Positive)
    (spellsAlike : SpellsAlike ext rules base) (derives : Derives ext rules base derived seen)
    (ok : evaluateLoop ext functions registry predicates limits clock remaining derived seen = .ok result) :
    (∀ f ∈ base, f.triple ∈ result.map triple) ∧
      factModel ext result = leastModel ext rules (factModel ext base) := by
  induction remaining generalizing derived seen with
  | zero => cases ok
  | succ remaining ih =>
    rw [evaluateLoop] at ok
    obtain ⟨ts, iteration, ok⟩ := Except.bind_eq_ok_iff.mp ok
    split at ok
    · cases ok
    obtain ⟨⟨delta, seen'⟩, step, ok⟩ := Except.bind_eq_ok_iff.mp ok
    obtain ⟨inTs, covered, keys⟩ := newDelta_ok step
    obtain ⟨sound, complete⟩ :=
      evaluateIteration_spec names positive spellsAlike derives iteration
    dsimp only at ok
    split at ok
    swap
    · exact ih (derives.extend (fun t member => (sound t (inTs t member)).1)
        (fun t member => consequences_subset_leastModel ext derives.sound
          (sound t (inTs t member)).2) keys) ok
    -- nothing new: every consequence is a fact already
    rename_i stopped
    cases ok
    rw [List.isEmpty_iff] at stopped
    subst stopped
    refine ⟨derives.contains, eq_leastModel ext ?_ ?_ derives.sound⟩
    · rintro u ⟨f, member, rfl⟩
      obtain ⟨g, inDerived, same⟩ := mem_map.mp (derives.contains f member)
      exact ⟨g, inDerived, by rw [same]⟩
    intro u consequence
    obtain ⟨t, member, rfl⟩ := complete u consequence
    have known : t.key ∈ seen := by simpa using (keys t.key).mp (covered t member)
    obtain ⟨f, inDerived, sameKey⟩ := (derives.keys t.key).mp known
    have same : f.triple = t :=
      Triple.key_inj (derives.admissible f inDerived).plain sameKey
    exact ⟨f, inDerived, by rw [same]⟩

end Loop

section Limits

variable {functions : FunctionRegistry} {registry : RuleRegistry} {predicates : List String}
  {limits : Limits} {clock : Nat → UInt64}

theorem newDelta_length {maxResults : Nat} {ts delta : List Triple}
    {seen seen' : List (EntityId × String × List UInt8)}
    (ok : newDelta maxResults ts seen = .ok (delta, seen')) :
    seen'.length = seen.length + delta.length ∧ (delta ≠ [] → seen.length < maxResults) := by
  induction ts generalizing seen delta with
  | nil =>
    cases ok
    simp
  | cons t rest ih =>
    rw [newDelta] at ok
    split at ok
    · exact ih ok
    split at ok
    · cases ok
    obtain ⟨⟨more, last⟩, later, ⟨⟩⟩ := Except.bind_eq_ok_iff.mp ok
    have grown := (ih later).1
    rw [length_cons] at grown ⊢
    exact ⟨by omega, fun _ => by omega⟩

/-- Every iteration but the last uses up some of the room for results. -/
theorem evaluateLoop_enough {more remaining remaining' : Nat} {derived : List Fact}
    {seen : List (EntityId × String × List UInt8)} (enough : limits.maxResults - seen.length < remaining)
    (enough' : limits.maxResults - seen.length < remaining') :
    evaluateLoop ext functions registry predicates { limits with maxIterations := more } clock remaining'
        derived seen =
      evaluateLoop ext functions registry predicates limits clock remaining derived seen := by
  induction remaining generalizing remaining' derived seen with
  | zero => cases enough
  | succ remaining ih =>
    cases remaining' with
    | zero => cases enough'
    | succ remaining' =>
      rw [evaluateLoop, evaluateLoop]
      refine bind_congr fun newFacts => ?_
      split
      · rfl
      · cases step : newDelta limits.maxResults newFacts seen with
        | error => rfl
        | ok found =>
          obtain ⟨length, room⟩ := newDelta_length step
          change (if found.1.isEmpty then _ else _) = if found.1.isEmpty then _ else _
          split
          · rfl
          · rename_i grows
            have some : found.1 ≠ [] := fun none => grows (by rw [none]; rfl)
            have positive := length_pos_iff.mpr some
            have before := room some
            exact ih (by omega) (by omega)

/-- An iteration limit above the limit on results never decides what the evaluator answers. -/
theorem iterationLimit_idle (ext : Externals) (functions : FunctionRegistry) (registry : RuleRegistry)
    (predicates : List String) (limits : Limits) (clock : Nat → UInt64) (storage : List Fact) (more : Nat)
    (enough : limits.maxResults < limits.maxIterations) (enough' : limits.maxResults < more) :
    evaluateRecursiveRules ext functions registry predicates { limits with maxIterations := more } clock
        storage =
      evaluateRecursiveRules ext functions registry predicates limits clock storage :=
  evaluateLoop_enough (Nat.lt_of_le_of_lt (Nat.sub_le ..) enough) (Nat.lt_of_le_of_lt (Nat.sub_le ..) enough')

end Limits

section Examples

def reachRules : List Rule :=
  [{ head := [.symbol "reach", .symbol "?x", .symbol "?y"]
     body := [.pattern (.plain (.symbol "?x") (.keyword ":next") (.symbol "?y"))] },
   { head := [.symbol "reach", .symbol "?x", .symbol "?z"]
     body := [.pattern (.plain (.symbol "?x") (.keyword ":next") (.symbol "?y")),
       .ruleInvocation "reach" [.symbol "?y", .symbol "?z"]] }]

def chain : List Fact :=
  [{ entity := Externals.sample.keywordId ":alice", attr := ":next", value := .keyword ":bob"
     txId := 1, txCount := 1, validFrom := 1, validTo := validTimeForever, asserted := true },
   { entity := Externals.sample.keywordId ":bob", attr := ":next", value := .ref 7
     txId := 1, txCount := 1, validFrom := 1, validTo := validTimeForever, asserted := true }]

theorem reachRules_positive : ∀ rule ∈ reachRules, rule.Positive := by
  intro rule member
  simp only [reachRules, mem_cons, not_mem_nil, or_false] at member
  rcases member with rfl | rfl
  all_goals exact ⟨by simp, by decide, by decide, by simp⟩

theorem chain_spellsAlike : SpellsAlike .sample reachRules chain where
  ordered := by
    intro rule member
    have names : ∀ rule ∈ reachRules, ∀ p ∈ rule.patterns, p.namesAttr = true := by decide
    exact ordered_of_namesAttr (names rule member)
  loops := by
    have differ : ∀ rule ∈ reachRules, ∀ p ∈ rule.patterns, p.entity.boundVar ≠ p.value.boundVar := by
      decide
    rintro rule member p inPatterns ⟨x, entity, value⟩
    exact absurd (entity.trans value.symm) (differ rule member p inPatterns)
  apart := by
    have inRules : ∀ rule ∈ reachRules, ∀ k ∈ rule.keywords, k = ":reach" := by decide
    have known : programKeywords reachRules chain ⊆ {":next", ":bob", ":reach"} := by
      rintro k (⟨f, member, spelled⟩ | ⟨rule, member, inRule⟩)
      · simp only [chain, mem_cons, not_mem_nil, or_false] at member
        rcases member with rfl | rfl <;> simp only [Value.keyword.injEq, reduceCtorEq] at spelled <;>
          grind
      · simp [inRules rule member k inRule]
    intro k inK k' inK' same
    rcases known inK with rfl | rfl | rfl <;> rcases known inK' with rfl | rfl | rfl <;>
      first | rfl | exact absurd same (by decide)

theorem iterationLimit_idle_reach :
    evaluateRecursiveRules .sample .withBuiltins ⟨[("reach", reachRules)]⟩ ["reach"] ⟨1000, 10, 10⟩
        (fun _ => 5) chain =
      evaluateRecursiveRules .sample .withBuiltins ⟨[("reach", reachRules)]⟩ ["reach"] ⟨11, 10, 10⟩
        (fun _ => 5) chain :=
  iterationLimit_idle .sample .withBuiltins ⟨[("reach", reachRules)]⟩ ["reach"] ⟨11, 10, 10⟩
    (fun _ => 5) chain 1000 (by decide) (by decide)

def likesHimself : List Fact :=
  [{ entity := Externals.sample.keywordId ":narcissus", attr := ":likes"
     value := .keyword ":narcissus", txId := 1, txCount := 1, validFrom := 1
     validTo := validTimeForever, asserted := true }]

def vainRule (body : List WhereClause) : Rule where
  head := [.symbol "vain", .symbol "?x"]
  body := body

def likes (x y : String) : WhereClause :=
  .pattern (.plain (.symbol x) (.keyword ":likes") (.symbol y))

def evaluateVain (body : List WhereClause) : Except String (List Fact) :=
  evaluateRecursiveRules .sample .withBuiltins ⟨[("vain", [vainRule body])]⟩ ["vain"]
    ⟨10, 10, 10⟩ (fun _ => 5) likesHimself

def narcissusIsVain : Triple := ⟨Externals.sample.keywordId ":narcissus", ":vain", .boolean true⟩

theorem narcissusIsVain_mem_leastModel :
    narcissusIsVain ∈ leastModel .sample [vainRule [likes "?x" "?x"]]
      (factModel .sample likesHimself) := by
  apply consequences_leastModel
  refine ⟨_, mem_singleton.mpr rfl, fun _ => .ref (Externals.sample.keywordId ":narcissus"), ?_, rfl⟩
  intro clause member
  rw [vainRule, mem_singleton] at member
  subst member
  refine ⟨_, base_subset_leastModel _ _ _ ⟨_, mem_singleton.mpr rfl, rfl⟩, ?_, rfl, ?_⟩
  · exact .inr ⟨rfl, rfl⟩
  · exact .inr ⟨rfl, rfl⟩

end Examples

end ViciaDb
