import ViciaDb.Lib.ExceptList
import ViciaDb.Query.Solutions

namespace ViciaDb

open Except (bind_eq_ok_iff toOption)
open List
open WhereClause (asPattern isExpr)

def EdnValue.asKeyword : EdnValue → Option String
  | .keyword k => some k
  | _ => none

def WhereClause.isPositive : WhereClause → Bool
  | .pattern _ | .ruleInvocation _ _ => true
  | _ => false

def Rule.patterns (rule : Rule) : List Pattern := rule.body.filterMap WhereClause.asPattern

/-- A rule of patterns and invocations with every head variable bound in its body. The parser
    refuses an empty body. -/
structure Rule.Positive (rule : Rule) : Prop where
  nonempty : rule.body ≠ []
  clauses : ∀ clause ∈ rule.body, clause.isPositive = true
  safe : ∀ edn ∈ rule.head, ∀ x, edn.asVariable = some x →
    x ∈ rule.patterns.flatMap Pattern.vars
  noFloat : ∀ edn ∈ rule.head, ∀ f, edn ≠ .float f

def Rule.derives (rule : Rule) : Option String :=
  match rule.head with
  | .symbol predicate :: _ => some (":" ++ predicate)
  | _ => none

def Rule.valueVar (rule : Rule) : Option String := rule.head[2]?.bind EdnValue.asVariable

def Rule.keywords (rule : Rule) : List String :=
  rule.head.filterMap EdnValue.asKeyword ++ rule.derives.toList ++
    rule.patterns.filterMap fun p => p.value.asKeyword

def programKeywords (rules : List Rule) (base : List Fact) : Set String :=
  {k | (∃ f ∈ base, f.attr = k ∨ f.value = .keyword k) ∨ ∃ rule ∈ rules, k ∈ rule.keywords}

/-- A rule can put a keyword into the value of a fact of the attribute: one written in its head, the
    name of an attribute, or the value of a fact that one of its patterns takes. -/
inductive DerivesKeyword (rules : List Rule) (base : List Fact) : String → Prop
  | constant {rule : Rule} {attr k : String} : rule ∈ rules → rule.derives = some attr →
      rule.head[2]? = some (.keyword k) → DerivesKeyword rules base attr
  | name {rule : Rule} {attr x : String} {p : Pattern} : rule ∈ rules → rule.derives = some attr →
      rule.valueVar = some x → p ∈ rule.patterns → p.attr.boundVar = some x →
      DerivesKeyword rules base attr
  | stored {rule : Rule} {attr x k : String} {p : Pattern} {f : Fact} : rule ∈ rules →
      rule.derives = some attr → rule.valueVar = some x → p ∈ rule.patterns →
      p.value.boundVar = some x → f ∈ base → p.names f.attr = true → f.value = .keyword k →
      DerivesKeyword rules base attr
  | derived {rule : Rule} {attr attr' x : String} {p : Pattern} : rule ∈ rules →
      rule.derives = some attr → rule.valueVar = some x → p ∈ rule.patterns →
      p.value.boundVar = some x → p.names attr' = true → DerivesKeyword rules base attr' →
      DerivesKeyword rules base attr

/-- A pattern with one variable as entity and value can come upon no fact that spells its entity as a
    keyword in its value. -/
def Pattern.LoopsAlike (ext : Externals) (rules : List Rule) (base : List Fact) (p : Pattern) : Prop :=
  p.Loops →
    (∀ f ∈ base, p.names f.attr = true → ∀ k, f.value = .keyword k → ext.keywordId k ≠ f.entity) ∧
    ∀ attr, p.names attr = true → ¬DerivesKeyword rules base attr

/-- The program never asks the matcher to compare two spellings of one entity where it compares
    spellings only. -/
structure SpellsAlike (ext : Externals) (rules : List Rule) (base : List Fact) : Prop where
  ordered : ∀ rule ∈ rules, Ordered rule.patterns
  loops : ∀ rule ∈ rules, ∀ p ∈ rule.patterns, p.LoopsAlike ext rules base
  apart : Set.InjOn ext.keywordId (programKeywords rules base)

structure Admissible (rules : List Rule) (base : List Fact) (t : Triple) : Prop where
  plain : t.value.isFloat = false
  attr : t.attr ∈ programKeywords rules base
  value : ∀ k, t.value = .keyword k → k ∈ programKeywords rules base
  keyword : ∀ k, t.value = .keyword k →
    (∃ f ∈ base, f.triple = t) ∨ DerivesKeyword rules base t.attr

variable {ext : Externals} {rules : List Rule} {base : List Fact}

variable {t : Triple} {rule : Rule} {σ : Assignment} {b : Bindings}

variable {facts : List Fact} {edn edn' : EdnValue} {head : List EdnValue}
    {functions : FunctionRegistry} {current : List Fact} {ts : List Triple}

theorem Admissible.of_plain (named : t.attr ∈ programKeywords rules base)
    (plain : t.value.isFloat = false) (spelled : ∀ k, t.value ≠ .keyword k) :
    Admissible rules base t where
  plain := plain
  attr := named
  value := fun k same => absurd same (spelled k)
  keyword := fun k same => absurd same (spelled k)

theorem admissible_of_mem {f : Fact} (member : f ∈ base) (plain : f.value.isFloat = false) :
    Admissible rules base f.triple where
  plain := plain
  attr := .inl ⟨f, member, .inl rfl⟩
  value := fun _ spelled => .inl ⟨f, member, .inr spelled⟩
  keyword := fun _ _ => .inl ⟨f, member, rfl⟩

theorem comparable_of_admissible (spellsAlike : SpellsAlike ext rules base) (inRules : rule ∈ rules)
    (admissible : ∀ f ∈ facts, Admissible rules base f.triple) :
    Comparable ext facts rule.patterns where
  ordinary := fun _ _ f member _ _ _ => Value.isOrdinary_of_isFloat (admissible f member).plain
  values := by
    intro p inPatterns f member _ k fk constant spelled same
    refine spellsAlike.apart (.inr ⟨rule, inRules, ?_⟩) ((admissible f member).value fk spelled) same
    simp only [Rule.keywords, mem_append, mem_filterMap]
    exact .inr ⟨p, inPatterns, by rw [constant]; rfl⟩
  loops := by
    intro p inPatterns loops f member names same
    obtain ⟨stored, derived⟩ := spellsAlike.loops rule inRules p inPatterns loops
    rw [← same, normalizeJoinValue_of_not_keyword]
    intro k spelled
    rcases (admissible f member).keyword k spelled with ⟨g, inBase, triple⟩ | derives
    · obtain ⟨entity, attr, value⟩ := (Triple.mk.injEq ..).mp triple
      rw [spelled] at same
      refine stored g inBase (by rw [attr]; exact names) k (by rw [value]; exact spelled) ?_
      rw [entity]
      exact Value.ref.inj same
    · exact derived f.attr names derives

theorem bodyPatterns_eq {body : List WhereClause} {ps : List Pattern}
    (positive : ∀ clause ∈ body, clause.isPositive = true) (ok : bodyPatterns body = .ok ps) :
    ps = body.filterMap asPattern ∧
      ∀ clause ∈ body, ∃ p, clause.asPattern = some p := by
  induction body generalizing ps with
  | nil =>
    cases ok
    exact ⟨rfl, by simp⟩
  | cons clause rest ih =>
    have restPositive : ∀ c ∈ rest, c.isPositive = true := fun c member => positive c (by simp [member])
    cases clause with
    | pattern p =>
      obtain ⟨qs, tail, ⟨⟩⟩ := bind_eq_ok_iff.mp ok
      obtain ⟨rfl, found⟩ := ih restPositive tail
      exact ⟨rfl, by simpa [asPattern] using found⟩
    | ruleInvocation predicate args =>
      obtain ⟨p, head, later⟩ := bind_eq_ok_iff.mp ok
      obtain ⟨qs, tail, ⟨⟩⟩ := bind_eq_ok_iff.mp later
      obtain ⟨rfl, found⟩ := ih restPositive tail
      refine ⟨by simp [asPattern, head, toOption], ?_⟩
      simpa [asPattern, head, toOption] using found
    | _ => exact absurd (positive _ mem_cons_self) (by simp [WhereClause.isPositive])

theorem holds_iff_of_asPattern {clause : WhereClause} {p : Pattern} {model : Set Triple}
    (pattern : clause.asPattern = some p) : clause.Holds ext σ model ↔ p.Holds ext σ model := by
  cases clause with
  | pattern q =>
    cases pattern
    rfl
  | ruleInvocation predicate args =>
    cases made : ruleInvocationToPattern predicate args with
    | error e => simp [asPattern, made, toOption] at pattern
    | ok q =>
      simp only [asPattern, made, toOption, Option.some.injEq] at pattern
      subst pattern
      simp [WhereClause.Holds, made]
  | _ => cases pattern

theorem substituteVariable_ok (substituted : substituteVariable edn b = .ok edn') :
    (edn.asVariable = none ∧ edn' = edn) ∨ ∃ x v, edn.asVariable = some x ∧
      b.lookup (.var x) = some v ∧ edn' = evaluatorValueToEdn v := by
  unfold substituteVariable at substituted
  split at substituted
  next x named =>
    split at substituted
    next v bound => exact .inr ⟨x, v, named, bound, (Except.ok.inj substituted).symm⟩
    next => cases substituted
  next unnamed => exact .inl ⟨unnamed, (Except.ok.inj substituted).symm⟩

theorem headValue_of_entity {entity : EntityId} (agrees : Agrees ext σ b)
    (substituted : substituteVariable edn b = .ok edn') (converted : ednToEntityId ext edn' = .ok entity) :
    edn.headValue ext σ = some (.ref entity) := by
  unfold EdnValue.headValue
  rcases substituteVariable_ok substituted with ⟨unnamed, rfl⟩ | ⟨x, v, named, bound, rfl⟩
  · cases edn' <;> simp_all [ednToEntityId, constantValue]
  · simp only [named, agrees x v bound]
    cases v <;> simp_all [evaluatorValueToEdn, valueToEdn, ednToEntityId, normalizeJoinValue]

theorem headValue_of_value {value : Value} (agrees : Agrees ext σ b)
    (substituted : substituteVariable edn b = .ok edn') (converted : ednToValue ext edn' = .ok value) :
    edn.headValue ext σ = some (normalizeJoinValue ext value) ∧
      ((∃ x, edn.asVariable = some x ∧ b.lookup (.var x) = some value) ∨
        edn.asVariable = none ∧ ednToValue ext edn = .ok value) := by
  unfold EdnValue.headValue
  rcases substituteVariable_ok substituted with ⟨unnamed, rfl⟩ | ⟨x, v, named, bound, rfl⟩
  · refine ⟨?_, .inr ⟨unnamed, converted⟩⟩
    rw [unnamed]
    cases edn' with
    | symbol s =>
      simp only [ednToValue] at converted
      split at converted <;> cases converted
    | _ => first | (cases converted; rfl) | cases converted
  · obtain rfl : value = v := by
      cases v with
      | null =>
        have notVar : isVariable "nil" = false := by decide
        simp [evaluatorValueToEdn, ednToValue, notVar] at converted
      | _ => cases converted; rfl
    rw [named]
    exact ⟨congrArg some (agrees x value bound), .inl ⟨x, rfl, bound⟩⟩

theorem instantiateHead_ok (ok : instantiateHead ext head b = .ok t) :
    ∃ predicate entityArg rest edn, head = .symbol predicate :: entityArg :: rest ∧
      substituteVariable entityArg b = .ok edn ∧ ednToEntityId ext edn = .ok t.entity ∧
      t.attr = ":" ++ predicate ∧
      (rest = [] ∧ t.value = .boolean true ∨ ∃ valueArg more edn', rest = valueArg :: more ∧
        substituteVariable valueArg b = .ok edn' ∧ ednToValue ext edn' = .ok t.value) := by
  unfold instantiateHead at ok
  split at ok
  · rename_i predicate entityArg rest
    obtain ⟨edn, first, ok⟩ := bind_eq_ok_iff.mp ok
    obtain ⟨entity, isEntity, ok⟩ := bind_eq_ok_iff.mp ok
    refine ⟨predicate, entityArg, rest, edn, rfl, first, ?_⟩
    cases rest with
    | nil =>
      cases ok
      exact ⟨Except.of_mapError isEntity, rfl, .inl ⟨rfl, rfl⟩⟩
    | cons valueArg more =>
      obtain ⟨edn', second, ok⟩ := bind_eq_ok_iff.mp ok
      obtain ⟨value, isValue, ⟨⟩⟩ := bind_eq_ok_iff.mp ok
      exact ⟨Except.of_mapError isEntity, rfl,
        .inr ⟨valueArg, more, edn', rfl, second, Except.of_mapError isValue⟩⟩
  · cases ok
  · cases ok

theorem instantiateHead_sound (agrees : Agrees ext σ b) (ok : instantiateHead ext head b = .ok t) :
    headInstance ext σ head = some (t.normalize ext) := by
  obtain ⟨predicate, entityArg, rest, edn, rfl, substituted, entity, attr, value⟩ :=
    instantiateHead_ok ok
  have reached := headValue_of_entity agrees substituted entity
  rcases value with ⟨rfl, flag⟩ | ⟨valueArg, more, edn', rfl, substituted', converted⟩
  · simp [headInstance, reached, Triple.normalize, attr, flag, normalizeJoinValue]
  · simp [headInstance, reached, (headValue_of_value agrees substituted' converted).1, Triple.normalize, attr]

theorem admissible_head {rows : List Bindings} (inRules : rule ∈ rules) (positive : rule.Positive)
    (admissible : ∀ f ∈ facts, Admissible rules base f.triple) (rowsOf : RowsOf facts rule.patterns rows)
    (member : b ∈ rows) (ok : instantiateHead ext rule.head b = .ok t) : Admissible rules base t := by
  obtain ⟨predicate, entityArg, rest, edn, shape, _, _, attr, value⟩ := instantiateHead_ok ok
  have known : ∀ k ∈ rule.keywords, k ∈ programKeywords rules base :=
    fun k inRule => .inr ⟨rule, inRules, inRule⟩
  have named : t.attr ∈ programKeywords rules base := by
    apply known
    simp [Rule.keywords, Rule.derives, shape, attr]
  have derives : rule.derives = some t.attr := by simp [Rule.derives, shape, attr]
  rcases value with ⟨_, flag⟩ | ⟨valueArg, more, edn', rfl, substituted, converted⟩
  · exact .of_plain named (by simp [flag, Value.isFloat]) (by simp [flag])
  have inHead : valueArg ∈ rule.head := by simp [shape]
  have third : rule.head[2]? = some valueArg := by simp [shape]
  rcases (headValue_of_value (agrees_assignmentOf b) substituted converted).2 with
    ⟨x, isVar, bound⟩ | ⟨notVar, constant⟩
  · obtain ⟨p, inPatterns, f, inFacts, origin⟩ := rowsOf.source b member x t.value bound
    have fact := admissible f inFacts
    have valueVar : rule.valueVar = some x := by simp [Rule.valueVar, third, isVar]
    refine ⟨?_, named, ?_, ?_⟩
    · rcases origin with same | ⟨_, _, same⟩ | ⟨_, same⟩
      · rw [same]; rfl
      · rw [same]; exact fact.plain
      · rw [same]; rfl
    · intro k spelled
      rcases origin with same | ⟨_, _, same⟩ | ⟨_, same⟩
      · rw [spelled] at same; cases same
      · exact fact.value k (same.symm.trans spelled)
      · rw [spelled] at same; cases same; exact fact.attr
    · intro k spelled
      right
      rcases origin with same | ⟨names, isValue, same⟩ | ⟨isAttr, same⟩
      · rw [spelled] at same; cases same
      · have held : f.value = .keyword k := same.symm.trans spelled
        rcases fact.keyword k held with ⟨g, inBase, triple⟩ | before
        · obtain ⟨-, gAttr, gValue⟩ := (Triple.mk.injEq ..).mp triple
          exact .stored inRules derives valueVar inPatterns isValue inBase (by rw [gAttr]; exact names)
            (gValue.trans held)
        · exact .derived inRules derives valueVar inPatterns isValue names before
      · exact .name inRules derives valueVar inPatterns isAttr
  · have notFloat := positive.noFloat valueArg inHead
    cases valueArg with
    | symbol s =>
      simp only [ednToValue] at constant
      split at constant <;> cases constant
    | keyword k =>
      injection constant with constant
      refine ⟨by rw [← constant]; rfl, named, ?_, ?_⟩
      · intro k' spelled
        rw [← constant] at spelled
        cases spelled
        apply known
        simp only [Rule.keywords, mem_append, mem_filterMap]
        exact .inl (.inl ⟨_, inHead, rfl⟩)
      · exact fun _ _ => .inr (.constant inRules derives third)
    | float f => exact absurd rfl (notFloat f)
    | _ =>
      simp only [ednToValue, Except.ok.injEq, reduceCtorEq] at constant
      all_goals exact .of_plain named (by simp [← constant, Value.isFloat]) (by simp [← constant])

theorem applyExprClausesInEvaluator_nil (functions : FunctionRegistry) (rows : List Bindings) :
    applyExprClausesInEvaluator ext functions rows [] = .ok rows := by
  have kept : rows.mapM (applyExprs ext functions []) = .ok (rows.map some) := by
    rw [mapM_except_eq_ok_iff, forall₂_map_right_iff]
    exact forall₂_same.mpr fun _ _ => rfl
  simp [applyExprClausesInEvaluator, kept, bind, Except.bind, List.reduceOption, filterMap_map]

theorem evaluateRule_eq (positive : rule.Positive) (ok : evaluateRule ext functions rule current = .ok ts) :
    ((PatternMatcher.new current).matchPatterns ext rule.patterns).mapM
        (instantiateHead ext rule.head) = .ok ts ∧
      ∀ clause ∈ rule.body, ∃ p, clause.asPattern = some p := by
  unfold evaluateRule at ok
  obtain ⟨ps, patterns, ok⟩ := Except.bind_eq_ok_iff.mp ok
  obtain ⟨rfl, found⟩ := bodyPatterns_eq positive.clauses patterns
  have noExprs : rule.body.filter isExpr = [] := by
    rw [filter_eq_nil_iff]
    intro clause member
    have isPositive := positive.clauses clause member
    cases clause <;> simp_all [WhereClause.isPositive, isExpr]
  have somePattern : (rule.body.filterMap asPattern).isEmpty = false := by
    obtain ⟨clause, rest, shape⟩ := exists_cons_of_ne_nil positive.nonempty
    obtain ⟨p, pattern⟩ := found clause (by simp [shape])
    simp [shape, pattern]
  simp only [noExprs, somePattern, bind, Except.bind, Bool.false_and,
    Bool.false_eq_true, if_false, applyExprClausesInEvaluator_nil] at ok
  exact ⟨ok, found⟩

theorem evaluateRule_spec (inRules : rule ∈ rules) (positive : rule.Positive)
    (spellsAlike : SpellsAlike ext rules base) (asserted : ∀ f ∈ current, f.asserted = true)
    (admissible : ∀ f ∈ current, Admissible rules base f.triple)
    (ok : evaluateRule ext functions rule current = .ok ts) :
    (∀ t ∈ ts, Admissible rules base t ∧ ∃ σ,
      (∀ clause ∈ rule.body, clause.Holds ext σ (factModel ext current)) ∧
        headInstance ext σ rule.head = some (t.normalize ext)) ∧
    ∀ σ u, (∀ clause ∈ rule.body, clause.Holds ext σ (factModel ext current)) →
      headInstance ext σ rule.head = some u → ∃ t ∈ ts, t.normalize ext = u := by
  obtain ⟨heads, found⟩ := evaluateRule_eq positive ok
  have ordered := spellsAlike.ordered rule inRules
  have facts : (PatternMatcher.new current).facts = current := filter_eq_self.mpr asserted
  have comparable : Comparable ext (PatternMatcher.new current).facts rule.patterns := by
    rw [facts]
    exact comparable_of_admissible spellsAlike inRules admissible
  have attrs : ∀ f ∈ (PatternMatcher.new current).facts, ∀ f' ∈ (PatternMatcher.new current).facts,
      ext.keywordId f.attr = ext.keywordId f'.attr → f.attr = f'.attr := by
    rw [facts]
    exact fun f member f' member' same =>
      spellsAlike.apart (admissible f member).attr (admissible f' member').attr same
  obtain ⟨fold, rowsOf⟩ := matchPatterns_eq attrs ordered comparable
  rw [facts] at rowsOf
  have bodyIff : ∀ σ, (∀ clause ∈ rule.body, clause.Holds ext σ (factModel ext current)) ↔
      ∀ p ∈ rule.patterns, p.Holds ext σ (factModel ext current) := by
    intro σ
    constructor
    · intro holds p inPatterns
      obtain ⟨clause, member, pattern⟩ := mem_filterMap.mp inPatterns
      exact (holds_iff_of_asPattern pattern).mp (holds clause member)
    · intro holds clause member
      obtain ⟨p, pattern⟩ := found clause member
      exact (holds_iff_of_asPattern pattern).mpr (holds p (mem_filterMap.mpr ⟨clause, member, pattern⟩))
  constructor
  · intro t member
    obtain ⟨b, inRows, instantiated⟩ := mem_of_mapM_ok heads member
    refine ⟨admissible_head inRules positive admissible rowsOf inRows instantiated,
      assignmentOf ext b, (bodyIff _).mpr ?_, instantiateHead_sound (agrees_assignmentOf b) instantiated⟩
    rw [fold] at inRows
    have solved := (foldl_mergeAll_sound ordered.real comparable.ordinary (.unit _) inRows
      (agrees_assignmentOf b)).2
    rwa [facts] at solved
  · intro σ u holds head
    have solved := (bodyIff σ).mp holds
    rw [← facts] at solved
    obtain ⟨b, inRows, agrees⟩ := foldl_mergeAll_complete ordered.real ordered.attrApart comparable
      (.unit _) (mem_singleton.mpr rfl) (Agrees.empty ext σ) solved
    rw [← fold] at inRows
    obtain ⟨t, member, instantiated⟩ := exists_of_mapM_ok heads inRows
    refine ⟨t, member, ?_⟩
    rw [instantiateHead_sound agrees instantiated] at head
    exact Option.some.inj head

end ViciaDb
