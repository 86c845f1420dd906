import ViciaDb.Query.PreparedLiterals

namespace ViciaDb

open List
open EdnValue (slots slotsEntries slotsList withLiterals withLiteralsList)
open Option (bind_eq_some_iff)
open WhereClause (nestedSlotsList slots slotsBranches withLiteralsBranches withLiteralsList)

variable {values : BindingMap}

theorem preparedValueToEdn_slots (v : Value) : (preparedValueToEdn v).slots = [] := by
  cases v <;> rfl

section WrittenOut

namespace EdnValue

mutual

theorem withLiterals_slots :
    ∀ e e' : EdnValue, e.withLiterals values = some e' → e'.slots = []
  | .bindSlot name, e', h => by
    obtain ⟨_, _, h⟩ := bind_eq_some_iff.mp h
    obtain ⟨v, _, ⟨⟩⟩ := bind_eq_some_iff.mp h
    exact preparedValueToEdn_slots v
  | .vector items, e', h | .list items, e', h => by
    obtain ⟨items', written, ⟨⟩⟩ := bind_eq_some_iff.mp h
    exact withLiteralsList_slots items items' written
  | .map entries, e', h => by
    obtain ⟨entries', written, ⟨⟩⟩ := bind_eq_some_iff.mp h
    exact withLiteralsEntries_slots entries entries' written
  | .keyword _, _, h | .symbol _, _, h | .string _, _, h | .integer _, _, h | .float _, _, h
  | .boolean _, _, h | .uuid _, _, h | .nil, _, h => by
    cases h
    rfl

theorem withLiteralsList_slots :
    ∀ es es' : List EdnValue, withLiteralsList values es = some es' →
      slotsList es' = []
  | [], _, h => by cases h; rfl
  | e :: es, _, h => by
    obtain ⟨e', head, h⟩ := bind_eq_some_iff.mp h
    obtain ⟨es', tail, ⟨⟩⟩ := bind_eq_some_iff.mp h
    simp only [slotsList, withLiterals_slots e e' head, withLiteralsList_slots es es' tail, append_nil]

theorem withLiteralsEntries_slots :
    ∀ es es' : List (EdnValue × EdnValue), withLiteralsEntries values es = some es' →
      slotsEntries es' = []
  | [], _, h => by cases h; rfl
  | (k, v) :: rest, _, h => by
    obtain ⟨k', key, h⟩ := bind_eq_some_iff.mp h
    obtain ⟨v', value, h⟩ := bind_eq_some_iff.mp h
    obtain ⟨rest', tail, ⟨⟩⟩ := bind_eq_some_iff.mp h
    simp only [slotsEntries, withLiterals_slots k k' key, withLiterals_slots v v' value,
      withLiteralsEntries_slots rest rest' tail, append_nil]

end

mutual

theorem withLiterals_of_slots :
    ∀ e : EdnValue, e.slots = [] → e.withLiterals values = some e
  | .bindSlot name, h => by cases h
  | .vector items, h | .list items, h => by
    simp [withLiterals, withLiteralsList_of_slots items h]
  | .map entries, h => by
    simp [withLiterals, withLiteralsEntries_of_slots entries h]
  | .keyword _, _ | .symbol _, _ | .string _, _ | .integer _, _ | .float _, _
  | .boolean _, _ | .uuid _, _ | .nil, _ => rfl

theorem withLiteralsList_of_slots : ∀ es : List EdnValue, slotsList es = [] →
      withLiteralsList values es = some es
  | [], _ => rfl
  | e :: es, h => by
    obtain ⟨head, tail⟩ := append_eq_nil_iff.mp h
    simp [withLiteralsList, withLiterals_of_slots e head, withLiteralsList_of_slots es tail]

theorem withLiteralsEntries_of_slots :
    ∀ es : List (EdnValue × EdnValue), slotsEntries es = [] →
      withLiteralsEntries values es = some es
  | [], _ => rfl
  | (k, v) :: rest, h => by
    obtain ⟨pair, tail⟩ := append_eq_nil_iff.mp h
    obtain ⟨key, value⟩ := append_eq_nil_iff.mp pair
    simp [withLiteralsEntries, withLiterals_of_slots k key,
      withLiterals_of_slots v value, withLiteralsEntries_of_slots rest tail]

end

theorem withEntityLiterals_slots (e e' : EdnValue) (h : e.withEntityLiterals values = some e') :
    e'.slots = [] := by
  cases e with
  | bindSlot name =>
    obtain ⟨value, _, literal⟩ := bind_eq_some_iff.mp h
    cases value <;> cases literal
    rfl
  | _ => exact withLiterals_slots _ _ h

theorem withEntityLiterals_of_slots (e : EdnValue) (none : e.slots = []) :
    e.withEntityLiterals values = some e := by
  cases e with
  | bindSlot name => cases none
  | _ => exact withLiterals_of_slots _ none

theorem slotsList_eq_flatMap (es : List EdnValue) : slotsList es = es.flatMap slots := by
  induction es with
  | nil => rfl
  | cons e es ih => simp only [slotsList, flatMap_cons, ih]

end EdnValue

theorem AttributeSpec.withLiterals_slots (a a' : AttributeSpec) (h : a.withLiterals values = some a') :
    a'.slots = [] := by
  cases a with
  | pseudo attr => cases h; rfl
  | real e =>
    obtain ⟨e', written, ⟨⟩⟩ := bind_eq_some_iff.mp h
    exact EdnValue.withLiterals_slots e e' written

theorem Pattern.withLiterals_cases {p p' : Pattern} (h : p.withLiterals values = some p') :
    ∃ entity attr value, p.entity.withEntityLiterals values = some entity ∧
      p.attr.withLiterals values = some attr ∧ p.value.withLiterals values = some value ∧
      p' = { p with entity, attr, value } := by
  obtain ⟨entity, he, h⟩ := bind_eq_some_iff.mp h
  obtain ⟨attr, ha, h⟩ := bind_eq_some_iff.mp h
  obtain ⟨value, hv, ⟨⟩⟩ := bind_eq_some_iff.mp h
  exact ⟨entity, attr, value, he, ha, hv, rfl⟩

theorem AttributeSpec.withLiterals_of_slots (a : AttributeSpec) (none : a.slots = []) :
    a.withLiterals values = some a := by
  cases a with
  | pseudo attr => rfl
  | real e => simp [AttributeSpec.withLiterals, EdnValue.withLiterals_of_slots e none]

theorem Pattern.withLiterals_of_slots (p : Pattern) (none : p.slots = []) :
    p.withLiterals values = some p := by
  simp only [Pattern.slots, append_eq_nil_iff] at none
  obtain ⟨⟨entity, attr⟩, value⟩ := none
  simp [Pattern.withLiterals, EdnValue.withEntityLiterals_of_slots _ entity,
    AttributeSpec.withLiterals_of_slots _ attr, EdnValue.withLiterals_of_slots _ value]

theorem Expr.withLiterals_of_slots (e : Expr) (none : collectSlotsFromExpr e = []) :
    e.withLiterals values = some e := by
  induction e with
  | var | lit => rfl
  | slot name => cases none
  | binOp op l r ihl ihr =>
    obtain ⟨left, right⟩ := append_eq_nil_iff.mp none
    simp [Expr.withLiterals, ihl left, ihr right]
  | unaryOp op arg ih => simp [Expr.withLiterals, ih none]

mutual

theorem WhereClause.withLiterals_of_slots :
    ∀ c : WhereClause, c.slots = [] → c.withLiterals values = some c
  | .pattern p, h => by simp [WhereClause.withLiterals, p.withLiterals_of_slots h]
  | .ruleInvocation predicate args, h => by
    rw [slots, ← EdnValue.slotsList_eq_flatMap] at h
    simp [WhereClause.withLiterals, EdnValue.withLiteralsList_of_slots args h]
  | .expr e binding, h => by simp [WhereClause.withLiterals, e.withLiterals_of_slots h]
  | .not clauses, h | .notJoin _ clauses, h => by
    simp [WhereClause.withLiterals, WhereClause.withLiteralsList_of_slots clauses h]
  | .or branches, h | .orJoin _ branches, h => by
    simp [WhereClause.withLiterals, WhereClause.withLiteralsBranches_of_slots branches h]

theorem WhereClause.withLiteralsList_of_slots :
    ∀ cs : List WhereClause, WhereClause.slotsList cs = [] →
      withLiteralsList values cs = some cs
  | [], _ => rfl
  | c :: cs, h => by
    obtain ⟨head, tail⟩ := append_eq_nil_iff.mp h
    simp [withLiteralsList, WhereClause.withLiterals_of_slots c head,
      WhereClause.withLiteralsList_of_slots cs tail]

theorem WhereClause.withLiteralsBranches_of_slots :
    ∀ bs : List (List WhereClause), slotsBranches bs = [] →
      withLiteralsBranches values bs = some bs
  | [], _ => rfl
  | b :: bs, h => by
    obtain ⟨head, tail⟩ := append_eq_nil_iff.mp h
    simp [withLiteralsBranches, WhereClause.withLiteralsList_of_slots b head,
      WhereClause.withLiteralsBranches_of_slots bs tail]

end

variable {q q' : DatalogQuery}

theorem DatalogQuery.withLiterals_cases (h : q.withLiterals values = some q') :
    ∃ asOf validAt whereClauses, asOfWithLiteral values q.asOf = some asOf ∧
      validAtWithLiteral values q.validAt = some validAt ∧
      withLiteralsList values q.whereClauses = some whereClauses ∧
      q' = { q with asOf, validAt, whereClauses } := by
  obtain ⟨asOf, ha, h⟩ := bind_eq_some_iff.mp h
  obtain ⟨validAt, hv, h⟩ := bind_eq_some_iff.mp h
  obtain ⟨whereClauses, hw, ⟨⟩⟩ := bind_eq_some_iff.mp h
  exact ⟨asOf, validAt, whereClauses, ha, hv, hw, rfl⟩

theorem DatalogQuery.withLiterals_of_slots (none : q.slots = []) :
    q.withLiterals values = some q := by
  simp only [DatalogQuery.slots, append_eq_nil_iff] at none
  obtain ⟨⟨asOf, validAt⟩, clauses⟩ := none
  have keepsAsOf : asOfWithLiteral values q.asOf = some q.asOf := by
    rcases hq : q.asOf with _ | (_ | _ | _) <;> first | rfl | simp [hq, asOfSlot] at asOf
  have keepsValidAt : validAtWithLiteral values q.validAt = some q.validAt := by
    rcases hq : q.validAt with _ | (_ | _ | _) <;> first | rfl | simp [hq, validAtSlot] at validAt
  simp [DatalogQuery.withLiterals, keepsAsOf, keepsValidAt, WhereClause.withLiteralsList_of_slots _ clauses]

end WrittenOut

section Substitution

/-- `result` succeeds, keeps exactly the `nested` slots, and is `written` when there are none. -/
def FillsTo {α : Type} (result : Except String α) (slots : α → List String)
    (nested : List String) (written : α) : Prop :=
  ∃ filled, result = .ok filled ∧ slots filled = nested ∧ (nested = [] → filled = written)

/-- Filling a component: `written` has no slot left, `result` is `written` but for the `nested` slots,
    and the `names` that are asked for have bind values. -/
structure Written (values : BindingMap) {α : Type} (result : Except String α) (slots : α → List String)
    (nested names : List String) (written : α) : Prop where
  clean : slots written = []
  fills : FillsTo result slots nested written
  bound : ∀ name ∈ names, (values name).isSome

section Combine

variable {α β γ : Type} {first : Except String α} {second : Except String β} {slots : α → List String}
  {slots' : β → List String} {nested nested' names names' : List String} {a : α} {b : β}

theorem Written.done (clean : slots a = []) : Written values (.ok a) slots [] [] a :=
  ⟨clean, ⟨a, rfl, clean, fun _ => rfl⟩, nofun⟩

theorem Written.wrap (written : Written values first slots nested names a) (f : α → γ) (all : γ → List String)
    (keeps : ∀ a, all (f a) = slots a) : Written values (do return f (← first)) all nested names (f a) := by
  obtain ⟨clean, ⟨filled, rfl, kept, same⟩, bound⟩ := written
  exact ⟨(keeps a).trans clean,
    ⟨f filled, rfl, (keeps filled).trans kept, fun none => by rw [same none]⟩, bound⟩

theorem Written.both (left : Written values first slots nested names a)
    (right : Written values second slots' nested' names' b) (f : α → β → γ) (all : γ → List String)
    (keeps : ∀ a b, all (f a b) = slots a ++ slots' b) :
    Written values (do
      let a ← first
      return f a (← second)) all (nested ++ nested') (names ++ names') (f a b) := by
  obtain ⟨clean, ⟨filled, rfl, kept, same⟩, bound⟩ := left
  obtain ⟨clean', ⟨filled', rfl, kept', same'⟩, bound'⟩ := right
  refine ⟨by rw [keeps, clean, clean', append_nil],
    ⟨f filled filled', rfl, ?_, fun none => ?_⟩, fun name member => ?_⟩
  · rw [keeps, kept, kept']
  · obtain ⟨noLeft, noRight⟩ := append_eq_nil_iff.mp none
    rw [same noLeft, same' noRight]
  · exact (mem_append.mp member).elim (bound name) (bound' name)

end Combine

theorem EdnValue.written_of_not_slot (e e' : EdnValue) (noSlot : topLevelSlot e = [])
    (literal : e.withLiterals values = some e') :
    Written values (.ok e) slots e.nestedSlots (topLevelSlot e) e' := by
  have same : e.nestedSlots = e.slots := by cases e <;> first | rfl | cases noSlot
  refine ⟨e.withLiterals_slots e' literal, ⟨e, rfl, same.symm, fun none => ?_⟩, by simp [noSlot]⟩
  rw [same] at none
  rw [EdnValue.withLiterals_of_slots e none] at literal
  exact Option.some.inj literal

theorem substituteEdnValue_written (e e' : EdnValue) (literal : e.withLiterals values = some e') :
    Written values (substituteEdnValue values e) slots e.nestedSlots (topLevelSlot e) e' := by
  cases e with
  | bindSlot name =>
    have clean := EdnValue.withLiterals_slots _ _ literal
    obtain ⟨value, bound, literal⟩ := bind_eq_some_iff.mp literal
    obtain ⟨v, isVal, ⟨⟩⟩ := bind_eq_some_iff.mp literal
    cases value <;> cases isVal
    refine ⟨clean, ⟨preparedValueToEdn v, ?_, clean, fun _ => rfl⟩, by simp [topLevelSlot, bound]⟩
    simp only [substituteEdnValue, resolveValueSlot, bound]
  | _ => exact EdnValue.written_of_not_slot _ e' rfl literal

theorem substituteEntity_written (e e' : EdnValue) (literal : e.withEntityLiterals values = some e') :
    Written values (substituteEntity values e) slots e.nestedSlots (topLevelSlot e) e' := by
  cases e with
  | bindSlot name =>
    have clean := EdnValue.withEntityLiterals_slots _ _ literal
    obtain ⟨value, bound, literal⟩ := bind_eq_some_iff.mp literal
    cases value <;> cases literal
    refine ⟨clean, ⟨_, ?_, clean, fun _ => rfl⟩, by simp [topLevelSlot, bound]⟩
    simp only [substituteEntity, resolveEntitySlot, bound]
  | _ =>
    have literal : withLiterals values _ = some e' := literal
    exact EdnValue.written_of_not_slot _ e' rfl literal

theorem substitutePattern_written (p p' : Pattern) (literal : p.withLiterals values = some p') :
    Written values (substitutePattern values p) Pattern.slots p.nestedSlots
      (topLevelSlot p.entity ++ topLevelSlot p.value) p' := by
  obtain ⟨entity', attr', value', he, ha, hv, rfl⟩ := Pattern.withLiterals_cases literal
  obtain ⟨entityClean, ⟨entity, entityOk, entitySlots, entitySame⟩, entityBound⟩ :=
    substituteEntity_written _ _ he
  obtain ⟨valueClean, ⟨value, valueOk, valueSlots, valueSame⟩, valueBound⟩ := substituteEdnValue_written _ _ hv
  refine ⟨?_, ⟨{ p with entity, value }, ?_, ?_, fun none => ?_⟩, fun name member => ?_⟩
  · simp only [Pattern.slots, entityClean, AttributeSpec.withLiterals_slots _ _ ha, valueClean, append_nil]
  · simp only [substitutePattern, entityOk, valueOk, bind, Except.bind, pure, Except.pure]
  · simp only [Pattern.slots, Pattern.nestedSlots, entitySlots, valueSlots]
  · simp only [Pattern.nestedSlots, append_eq_nil_iff] at none
    obtain ⟨⟨noEntity, noAttr⟩, noValue⟩ := none
    rw [AttributeSpec.withLiterals_of_slots p.attr noAttr] at ha
    cases ha
    rw [entitySame noEntity, valueSame noValue]
  · exact (mem_append.mp member).elim (entityBound name) (valueBound name)

theorem substituteExpr_written (e e' : Expr) (literal : e.withLiterals values = some e') :
    Written values (substituteExpr values e) collectSlotsFromExpr [] (collectSlotsFromExpr e) e' := by
  induction e generalizing e' with
  | var name | lit value => cases literal; exact .done rfl
  | slot name =>
    obtain ⟨value, bound, literal⟩ := bind_eq_some_iff.mp literal
    obtain ⟨v, isVal, ⟨⟩⟩ := bind_eq_some_iff.mp literal
    cases value <;> cases isVal
    refine ⟨rfl, ⟨.lit v, ?_, rfl, fun _ => rfl⟩, by simp [collectSlotsFromExpr, bound]⟩
    simp only [substituteExpr, resolveValSlot, bound, bind, Except.bind, pure, Except.pure]
  | binOp op l r ihl ihr =>
    obtain ⟨l', left, literal⟩ := bind_eq_some_iff.mp literal
    obtain ⟨r', right, ⟨⟩⟩ := bind_eq_some_iff.mp literal
    exact (ihl l' left).both (ihr r' right) (Expr.binOp op) _ fun _ _ => rfl
  | unaryOp op arg ih =>
    obtain ⟨arg', inner, ⟨⟩⟩ := bind_eq_some_iff.mp literal
    exact (ih arg' inner).wrap (Expr.unaryOp op) _ fun _ => rfl

theorem substituteArgs_written (es es' : List EdnValue) (literal : withLiteralsList values es = some es') :
    Written values (es.mapM (substituteEdnValue values)) (List.flatMap slots)
      (es.flatMap EdnValue.nestedSlots) (es.flatMap topLevelSlot) es' := by
  induction es generalizing es' with
  | nil => cases literal; exact .done rfl
  | cons e es ih =>
    obtain ⟨e', head, literal⟩ := bind_eq_some_iff.mp literal
    obtain ⟨es', tail, ⟨⟩⟩ := bind_eq_some_iff.mp literal
    rw [mapM_cons, flatMap_cons, flatMap_cons]
    exact (substituteEdnValue_written e e' head).both (ih es' tail) (· :: ·) _ fun _ _ => flatMap_cons

mutual

theorem substituteWhereClause_written : ∀ c c' : WhereClause, c.withLiterals values = some c' →
      Written values (substituteWhereClause values c) slots c.nestedSlots (collectSlotsFromClause c) c'
  | .pattern p, _, h => by
    obtain ⟨p', literal, ⟨⟩⟩ := bind_eq_some_iff.mp h
    rw [substituteWhereClause]
    exact (substitutePattern_written p p' literal).wrap WhereClause.pattern _ fun _ => rfl
  | .ruleInvocation predicate args, _, h => by
    obtain ⟨args', literal, ⟨⟩⟩ := bind_eq_some_iff.mp h
    rw [substituteWhereClause]
    exact (substituteArgs_written args args' literal).wrap (WhereClause.ruleInvocation predicate) _
      fun _ => rfl
  | .expr e binding, _, h => by
    obtain ⟨e', literal, ⟨⟩⟩ := bind_eq_some_iff.mp h
    rw [substituteWhereClause]
    exact (substituteExpr_written e e' literal).wrap (WhereClause.expr · binding) _ fun _ => rfl
  | .not clauses, _, h | .notJoin _ clauses, _, h => by
    obtain ⟨clauses', literal, ⟨⟩⟩ := bind_eq_some_iff.mp h
    rw [substituteWhereClause]
    exact (substituteWhereClauses_written clauses clauses' literal).wrap _ _ fun _ => rfl
  | .or branches, _, h | .orJoin _ branches, _, h => by
    obtain ⟨branches', literal, ⟨⟩⟩ := bind_eq_some_iff.mp h
    rw [substituteWhereClause]
    exact (substituteBranches_written branches branches' literal).wrap _ _ fun _ => rfl

theorem substituteWhereClauses_written :
    ∀ cs cs' : List WhereClause, withLiteralsList values cs = some cs' →
      Written values (substituteWhereClauses values cs) WhereClause.slotsList (nestedSlotsList cs)
        (collectSlotsFromClauses cs) cs'
  | [], _, h => by cases h; exact .done rfl
  | c :: cs, _, h => by
    obtain ⟨c', head, h⟩ := bind_eq_some_iff.mp h
    obtain ⟨cs', tail, ⟨⟩⟩ := bind_eq_some_iff.mp h
    rw [substituteWhereClauses]
    exact (substituteWhereClause_written c c' head).both (substituteWhereClauses_written cs cs' tail)
      (· :: ·) _ fun _ _ => rfl

theorem substituteBranches_written :
    ∀ bs bs' : List (List WhereClause), withLiteralsBranches values bs = some bs' →
      Written values (substituteBranches values bs) slotsBranches (WhereClause.nestedSlotsBranches bs)
        (collectSlotsFromBranches bs) bs'
  | [], _, h => by cases h; exact .done rfl
  | b :: bs, _, h => by
    obtain ⟨b', head, h⟩ := bind_eq_some_iff.mp h
    obtain ⟨bs', tail, ⟨⟩⟩ := bind_eq_some_iff.mp h
    rw [substituteBranches]
    exact (substituteWhereClauses_written b b' head).both (substituteBranches_written bs bs' tail)
      (· :: ·) _ fun _ _ => rfl

end

end Substitution

section Fill

/-- The templates that filling gets right: a temporal field, where there is one, is a slot, and
    no slot is inside a vector, list or map. -/
structure DatalogQuery.Fillable (q : DatalogQuery) : Prop where
  asOf : ∀ a, q.asOf = some a → ∃ name, a = .slot name
  validAt : ∀ v, q.validAt = some v → ∃ name, v = .slot name
  nestedSlots : WhereClause.nestedSlotsList q.whereClauses = []

def keptAsOf : Option AsOf → Option AsOf → Option AsOf
  | some (.slot _), written => written
  | _, _ => none

def keptValidAt : Option ValidAt → Option ValidAt → Option ValidAt
  | some (.slot _), written => written
  | _, _ => none

variable {asOf asOf' : Option AsOf} {validAt validAt' : Option ValidAt} {q q' : DatalogQuery}
    {prepared : PreparedQuery}

theorem asOfWithLiteral_spec (h : asOfWithLiteral values asOf = some asOf') :
    asOfSlot asOf' = [] ∧ (∀ name ∈ asOfSlot asOf, (values name).isSome) ∧
      substituteAsOf values asOf = .ok (keptAsOf asOf asOf') ∧
      (keptAsOf asOf asOf' = asOf' ↔ ∀ a, asOf = some a → ∃ name, a = .slot name) := by
  rcases asOf with _ | asOf
  · cases h; simp [asOfSlot, substituteAsOf, keptAsOf]
  cases asOf with
  | counter | timestamp => cases h; simp [asOfSlot, substituteAsOf, keptAsOf]
  | slot name =>
    obtain ⟨value, bound, h⟩ := bind_eq_some_iff.mp h
    obtain ⟨literal, typed, ⟨⟩⟩ := bind_eq_some_iff.mp h
    cases value <;> cases typed <;> simp [asOfSlot, substituteAsOf, resolveAsOfSlot, bound, keptAsOf, bind,
      Except.bind, pure, Except.pure]

theorem validAtWithLiteral_spec (h : validAtWithLiteral values validAt = some validAt') :
    validAtSlot validAt' = [] ∧ (∀ name ∈ validAtSlot validAt, (values name).isSome) ∧
      substituteValidAt values validAt = .ok (keptValidAt validAt validAt') ∧
      (keptValidAt validAt validAt' = validAt' ↔ ∀ v, validAt = some v → ∃ name, v = .slot name) := by
  rcases validAt with _ | validAt
  · cases h; simp [validAtSlot, substituteValidAt, keptValidAt]
  cases validAt with
  | anyValidTime | timestamp => cases h; simp [validAtSlot, substituteValidAt, keptValidAt]
  | slot name =>
    obtain ⟨value, bound, h⟩ := bind_eq_some_iff.mp h
    obtain ⟨literal, typed, ⟨⟩⟩ := bind_eq_some_iff.mp h
    cases value <;> cases typed <;> simp [validAtSlot, substituteValidAt, resolveValidAtSlot, bound,
      keptValidAt, bind, Except.bind, pure, Except.pure]

theorem DatalogQuery.withLiterals_slots (h : q.withLiterals values = some q') : q'.slots = [] := by
  obtain ⟨asOf, validAt, whereClauses, ha, hv, hw, rfl⟩ := DatalogQuery.withLiterals_cases h
  simp only [DatalogQuery.slots, (asOfWithLiteral_spec ha).1, (validAtWithLiteral_spec hv).1,
    (substituteWhereClauses_written _ _ hw).clean, append_nil]

theorem collectSlotNames_bound (h : q.withLiterals values = some q') :
    ∀ name ∈ collectSlotNames q, (values name).isSome := by
  obtain ⟨asOf, validAt, whereClauses, ha, hv, hw, _⟩ := DatalogQuery.withLiterals_cases h
  intro name member
  rw [collectSlotNames, mem_insertionSort, mem_dedup, mem_append, mem_append] at member
  rcases member with (member | member) | member
  · exact (asOfWithLiteral_spec ha).2.1 name member
  · exact (validAtWithLiteral_spec hv).2.1 name member
  · exact (substituteWhereClauses_written _ _ hw).bound name member

theorem substitute_of_withLiterals (h : q.withLiterals values = some q') :
    ∃ clauses, substitute q values = .ok { q with
        asOf := keptAsOf q.asOf q'.asOf, validAt := keptValidAt q.validAt q'.validAt,
        whereClauses := clauses } ∧
      WhereClause.slotsList clauses = nestedSlotsList q.whereClauses ∧
      (nestedSlotsList q.whereClauses = [] → clauses = q'.whereClauses) := by
  obtain ⟨asOf, validAt, whereClauses, ha, hv, hw, rfl⟩ := DatalogQuery.withLiterals_cases h
  obtain ⟨clauses, ok, slots, same⟩ := (substituteWhereClauses_written _ _ hw).fills
  refine ⟨clauses, ?_, slots, same⟩
  simp only [substitute, (asOfWithLiteral_spec ha).2.2.1, (validAtWithLiteral_spec hv).2.2.1, ok, bind,
    Except.bind, pure, Except.pure]

theorem substitute_eq_withLiterals_iff (h : q.withLiterals values = some q') :
    substitute q values = .ok q' ↔ q.Fillable := by
  obtain ⟨clauses, filled, slots, same⟩ := substitute_of_withLiterals h
  obtain ⟨asOf, validAt, whereClauses, ha, hv, hw, rfl⟩ := DatalogQuery.withLiterals_cases h
  rw [filled, Except.ok.injEq, DatalogQuery.mk.injEq]
  simp only [true_and, and_true, (asOfWithLiteral_spec ha).2.2.2, (validAtWithLiteral_spec hv).2.2.2]
  constructor
  · rintro ⟨rfl, noAsOf, noValidAt⟩
    exact ⟨noAsOf, noValidAt, slots.symm.trans (substituteWhereClauses_written _ _ hw).clean⟩
  · rintro ⟨noAsOf, noValidAt, none⟩
    exact ⟨same none, noAsOf, noValidAt⟩

theorem prepareQuery_ok (h : prepareQuery q = .ok prepared) :
    prepared = { template := q, slotNames := collectSlotNames q } := by
  unfold prepareQuery at h
  cases hv : validateClausesNoAttrSlots q.whereClauses <;>
    simp only [hv, bind, Except.bind, pure, Except.pure] at h
  · cases h
  · exact (Except.ok.inj h).symm

theorem fill_eq_substitute {bindings : List (String × BindValue)} (prepares : prepareQuery q = .ok prepared)
    (covers : q.withLiterals (bindingMap bindings) = some q') :
    prepared.fill bindings = substitute q (bindingMap bindings) := by
  obtain rfl := prepareQuery_ok prepares
  have noneMissing : (collectSlotNames q).find? (fun name => (bindingMap bindings name).isNone) = none := by
    rw [List.find?_eq_none]
    intro name member
    simpa [Option.isSome_iff_ne_none] using collectSlotNames_bound covers name member
  simp only [PreparedQuery.fill, noneMissing]

/-- Filling a prepared template gives the query with the bind values written as literals, with no
    slot left, exactly for the fillable templates. -/
theorem fill_eq_withLiterals_iff (q q' : DatalogQuery) (prepared : PreparedQuery)
    (bindings : List (String × BindValue)) (prepares : prepareQuery q = .ok prepared)
    (covers : q.withLiterals (bindingMap bindings) = some q') :
    (prepared.fill bindings = .ok q' ∧ q'.slots = [] ∧
      (q.slots = [] → prepared.fill bindings = .ok q)) ↔ q.Fillable := by
  have written := DatalogQuery.withLiterals_slots covers
  rw [fill_eq_substitute prepares covers, substitute_eq_withLiterals_iff covers]
  constructor
  · exact And.left
  · intro fillable
    refine ⟨fillable, written, fun none => ?_⟩
    exact (substitute_eq_withLiterals_iff (DatalogQuery.withLiterals_of_slots none)).mpr fillable

def namesOfAge (asOf : Option AsOf) (age : EdnValue) : DatalogQuery where
  find := [.variable "?name"]
  whereClauses :=
    [.pattern ⟨.symbol "?e", .real (.keyword ":person/age"), age, none, none⟩,
      .pattern ⟨.symbol "?e", .real (.keyword ":person/name"), .symbol "?name", none, none⟩]
  asOf := asOf
  validAt := none
  withVars := []
  maxDerivedFacts := none
  maxResults := none

theorem fill_eq_withLiterals_iff_namesOfAge :
    ∃ prepared, prepareQuery (namesOfAge (some (.slot "n")) (.bindSlot "age")) = .ok prepared ∧
      prepared.fill [("age", .val (.integer 30)), ("n", .txCount 2)] =
        .ok (namesOfAge (some (.counter 2)) (.integer 30)) := by
  have fillable : (namesOfAge (some (.slot "n")) (.bindSlot "age")).Fillable := by
    refine ⟨?_, ?_, rfl⟩
    · rintro _ ⟨⟩
      exact ⟨"n", rfl⟩
    · rintro _ ⟨⟩
  exact ⟨_, rfl, ((fill_eq_withLiterals_iff _ _ _ _ rfl rfl).mpr fillable).1⟩

/-- A template without slots is not returned unchanged: its `:as-of 1` is lost. -/
theorem fill_drops_asOf :
    ∃ prepared, prepareQuery (namesOfAge (some (.counter 1)) (.integer 30)) = .ok prepared ∧
      (namesOfAge (some (.counter 1)) (.integer 30)).slots = [] ∧
      prepared.fill [] = .ok (namesOfAge none (.integer 30)) ∧
      prepared.fill [] ≠ .ok (namesOfAge (some (.counter 1)) (.integer 30)) := by
  refine ⟨_, rfl, rfl, rfl, ?_⟩
  intro same
  exact absurd (congrArg DatalogQuery.asOf (Except.ok.inj same)) (by decide)

end Fill

end ViciaDb
