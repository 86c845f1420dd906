import ViciaDb.Query.Executor
import ViciaDb.Query.Join

namespace ViciaDb

open List FactPatternBundle WhereClause

/-- What a clause binds in the rows that pass it; a `?_` name of a pattern is a wildcard of the matcher. -/
def WhereClause.bindsHere : WhereClause → List String
  | .pattern p => p.vars
  | .expr _ out => out.toList
  | _ => []

/-- Every input of an expression is bound before it. -/
def InputsBound (bound : List String) : List WhereClause → Prop
  | [] => True
  | clause :: rest => exprVars clause ⊆ bound ∧ InputsBound (bound ++ clause.bindsHere) rest

instance decidableInputsBound : ∀ bound clauses, Decidable (InputsBound bound clauses)
  | _, [] => .isTrue trivial
  | bound, clause :: rest =>
    have := decidableInputsBound (bound ++ clause.bindsHere) rest
    inferInstanceAs (Decidable (_ ∧ _))

/-- A stored-attribute pattern and a per-fact pseudo pattern on the same entity. -/
def Pattern.owns (fact p : Pattern) : Bool := acceptsPerFactPseudo ⟨fact, []⟩ p

section Bundles

variable {bundles : List FactPatternBundle} {fact p q : Pattern}

theorem Pattern.owns_attr (owned : fact.owns p = true) :
    (∃ attr, fact.attr = .real attr) ∧ ∃ pseudo, p.attr = .pseudo pseudo := by
  unfold Pattern.owns acceptsPerFactPseudo at owned
  split at owned
  · exact ⟨⟨_, ‹_›⟩, _, ‹_›⟩
  · cases owned

theorem addToBundles_concat (front : List FactPatternBundle) (last : FactPatternBundle) (p : Pattern) :
    addToBundles (front ++ [last]) p = if last.acceptsPerFactPseudo p
      then front ++ [{ last with more := last.more ++ [p] }] else front ++ [last] ++ [⟨p, []⟩] := by
  rw [addToBundles, getLast?_concat, dropLast_concat]

theorem entries_bundlePatterns (patterns : List Pattern) :
    (bundlePatterns patterns).flatMap entries = patterns := by
  induction patterns using reverseRecOn with
  | nil => rfl
  | append_singleton patterns p ih =>
    rw [bundlePatterns, foldl_concat, ← bundlePatterns]
    generalize bundlePatterns patterns = bundles at ih
    subst ih
    rcases eq_nil_or_concat' bundles with rfl | ⟨front, last, rfl⟩
    · rfl
    · rw [addToBundles_concat]
      split <;> simp [entries]

theorem foldl_owned {more : List Pattern} (ps : List Pattern) (owned : ∀ p ∈ ps, fact.owns p = true) :
    ps.foldl addToBundles (bundles ++ [⟨fact, more⟩]) = bundles ++ [⟨fact, more ++ ps⟩] := by
  induction ps generalizing more with
  | nil => simp
  | cons p ps ih =>
    obtain ⟨here, owned⟩ := forall_mem_cons.mp owned
    rw [foldl_cons, addToBundles_concat, if_pos (by exact here), ih owned, append_assoc, singleton_append]

/-- A bundle only grows at its end. -/
theorem foldl_keeps {part : List Pattern} (ps : List Pattern)
    (held : ∃ b ∈ bundles, b.first = fact ∧ part <+: b.more) :
    ∃ b ∈ ps.foldl addToBundles bundles, b.first = fact ∧ part <+: b.more := by
  induction ps generalizing bundles with
  | nil => exact held
  | cons p ps ih =>
    refine ih ?_
    obtain ⟨b, member, isFirst, within⟩ := held
    rcases eq_nil_or_concat' bundles with rfl | ⟨front, last, rfl⟩
    · cases member
    rw [addToBundles_concat]
    split
    · rcases mem_append.mp member with member | member
      · exact ⟨b, mem_append_left _ member, isFirst, within⟩
      · cases mem_singleton.mp member
        exact ⟨_, mem_append_right _ mem_cons_self, isFirst, within.trans (prefix_append _ _)⟩
    · exact ⟨b, mem_append_left _ member, isFirst, within⟩

theorem exists_bundle {pre mid post : List Pattern} (owned : ∀ p ∈ mid ++ [q], fact.owns p = true) :
    ∃ b ∈ bundlePatterns (pre ++ fact :: (mid ++ [q] ++ post)), b.first = fact ∧ mid ++ [q] <+: b.more := by
  obtain ⟨⟨attr, real⟩, -⟩ := Pattern.owns_attr (owned q (by simp))
  have opens : addToBundles (bundlePatterns pre) fact = bundlePatterns pre ++ [⟨fact, []⟩] := by
    rcases eq_nil_or_concat' (bundlePatterns pre) with none | ⟨front, last, some⟩
    · rw [none]
      rfl
    · rw [some, addToBundles_concat, if_neg]
      simp [acceptsPerFactPseudo, real]
  rw [bundlePatterns, foldl_append, foldl_cons, ← bundlePatterns, opens, foldl_append, foldl_owned _ owned]
  exact foldl_keeps post ⟨_, mem_append_right _ mem_cons_self, rfl, prefix_rfl⟩

end Bundles

section Schedule

variable {bound bound' : List String} {clauses : List WhereClause} {after : Nat → List WhereClause}

/-- The patterns, each followed by what is scheduled after it. -/
def spread (after : Nat → List WhereClause) (patterns : List (Pattern × Nat)) : List WhereClause :=
  patterns.flatMap fun (p, i) => .pattern p :: after i

theorem inputsBound_append (xs ys : List WhereClause) : InputsBound bound (xs ++ ys) ↔
    InputsBound bound xs ∧ InputsBound (bound ++ xs.flatMap bindsHere) ys := by
  induction xs generalizing bound with
  | nil => simp [InputsBound]
  | cons clause xs ih => simp [InputsBound, ih, and_assoc]

theorem inputsBound_of_subset (each : ∀ clause ∈ clauses, exprVars clause ⊆ bound) :
    InputsBound bound clauses := by
  induction clauses generalizing bound with
  | nil => trivial
  | cons clause clauses ih =>
    obtain ⟨here, rest⟩ := forall_mem_cons.mp each
    exact ⟨here, ih fun other member => subset_append_of_subset_left _ (rest other member)⟩

/-- Clauses may be left out when all they bind is bound already. -/
theorem InputsBound.filter {keep : WhereClause → Bool} (held : InputsBound bound clauses)
    (more : bound ⊆ bound') (others : ∀ clause ∈ clauses, keep clause = false → clause.bindsHere ⊆ bound') :
    InputsBound bound' (clauses.filter keep) := by
  induction clauses generalizing bound bound' with
  | nil => trivial
  | cons clause clauses ih =>
    obtain ⟨here, held⟩ := held
    obtain ⟨dropped, others⟩ := forall_mem_cons.mp others
    cases kept : keep clause with
    | true =>
      rw [filter_cons_of_pos kept]
      refine ⟨fun x member => more (here member), ih held (append_subset.mpr
        ⟨subset_append_of_subset_left _ more, subset_append_right _ _⟩) fun other member out => ?_⟩
      exact subset_append_of_subset_left _ (others other member out)
    | false =>
      rw [filter_cons_of_neg (by simp [kept])]
      exact ih held (append_subset.mpr ⟨more, dropped kept⟩) others

theorem inputsBound_spread (ps front : List Pattern) (has : front.flatMap Pattern.vars ⊆ bound)
    (ready : ∀ i, ∀ clause ∈ after i, exprVars clause ⊆ ((front ++ ps).take (i + 1)).flatMap Pattern.vars) :
    InputsBound bound (spread after (ps.zipIdx front.length)) := by
  induction ps generalizing front bound with
  | nil => trivial
  | cons p ps ih =>
    have reached : (front ++ [p]).flatMap Pattern.vars ⊆ bound ++ p.vars := by
      simpa using append_subset.mpr ⟨subset_append_of_subset_left _ has, subset_append_right _ _⟩
    rw [append_cons] at ready
    rw [spread, zipIdx_cons, flatMap_cons, inputsBound_append, ← spread]
    refine ⟨⟨nil_subset _, inputsBound_of_subset fun clause member x read => ?_⟩, ?_⟩
    · have now := ready _ clause member read
      rw [take_left' (by simp)] at now
      exact reached now
    · have next := @ih (bound ++ (WhereClause.pattern p :: after front.length).flatMap bindsHere)
        (front ++ [p]) (fun x member => by simpa [← or_assoc] using .inl (mem_append.mp (reached member))) ready
      simpa using next

theorem perm_spread (ps : List Pattern) (n : Nat) : (spread after (ps.zipIdx n)).Perm
    (ps.map .pattern ++ (range' n ps.length).flatMap after) := by
  induction ps generalizing n with
  | nil => rfl
  | cons p ps ih =>
    rw [spread, zipIdx_cons, flatMap_cons, ← spread]
    exact .cons _ (((ih (n + 1)).append_left _).trans (perm_append_comm_assoc ..))

theorem perm_schedule {keys : List (Option Nat)} (nodup : keys.Nodup) (key : WhereClause → Option Nat)
    (exprs : List WhereClause) : (keys.flatMap fun k => exprs.filter (key · == k)).Perm
      (exprs.filter (key · ∈ keys)) := by
  induction keys with
  | nil => simp
  | cons k keys ih =>
    obtain ⟨fresh, nodup⟩ := nodup_cons.mp nodup
    refine ((ih nodup).append_left _).trans (.trans (.of_eq ?_) (filter_append_perm (key · == k) _))
    rw [filter_filter, filter_filter]
    congr 1 <;> refine filter_congr fun clause _ => ?_
    · by_cases same : key clause = k <;> simp [same]
    · by_cases same : key clause = k <;> simp [same, fresh]

theorem perm_clauses (plain : ∀ clause ∈ clauses, clause.isPatternOrExpr = true) :
    ((clauses.filterMap asPlainPattern).map WhereClause.pattern ++
      clauses.filter isExpr).Perm clauses := by
  induction clauses with
  | nil => rfl
  | cons clause clauses ih =>
    obtain ⟨here, others⟩ := forall_mem_cons.mp plain
    cases clause with
    | pattern p => exact (ih others).cons _
    | expr e out => exact perm_middle.trans ((ih others).cons _)
    | _ => cases here

end Schedule

theorem exprPosition_spec {ps : List Pattern} {vars : List String} {i : Nat}
    (found : exprPosition ps vars = some i) :
    i < ps.length ∧ vars ⊆ (ps.take (i + 1)).flatMap patternBoundVars := by
  unfold exprPosition at found
  split at found
  · cases found
  · have bound := find?_some found
    exact ⟨mem_range.mp (mem_of_find?_eq_some found),
      fun x member => contains_iff_mem.mp (all_eq_true.mp bound x member)⟩

theorem mem_vars_of_bound {p : Pattern} {x : String} (named : isWildcard x = false)
    (bound : x ∈ patternBoundVars p) : x ∈ p.vars := by
  have each : ∀ c : EdnValue, x ∈ c.asVariable.toList → x ∈ c.boundVar.toList := by
    intro c member
    cases c with
    | symbol s =>
      simp only [EdnValue.asVariable, Option.mem_toList] at member
      split at member <;> cases member
      simp [EdnValue.boundVar, *]
    | _ => cases member
  simp only [patternBoundVars, Pattern.vars, mem_append] at bound ⊢
  refine bound.imp (Or.imp (each _) fun inAttr => ?_) (each _)
  cases attr : p.attr <;> rw [attr] at inAttr
  · exact each _ inAttr
  · cases inAttr

section Plan

variable {clauses : List WhereClause}

abbrev planAfter (clauses : List WhereClause) (position : Option Nat) : List WhereClause :=
  (clauses.filter isExpr).filter fun clause =>
    exprPosition (planPatterns clauses) (exprVars clause) == position

theorem plan_eq (clauses : List WhereClause) : plan clauses =
    spread (fun i => planAfter clauses (some i)) (planPatterns clauses).zipIdx ++ planAfter clauses none := rfl

/-- The planner moves patterns about, but loses and repeats none. -/
theorem perm_planPatterns (clauses : List WhereClause) :
    (planPatterns clauses).Perm (clauses.filterMap asPlainPattern) :=
  ((perm_insertionSort _ _).flatMap_right entries).trans (.of_eq (entries_bundlePatterns _))

theorem perm_plan (plain : ∀ clause ∈ clauses, clause.isPatternOrExpr = true) : (plan clauses).Perm clauses := by
  let position := fun clause => exprPosition (planPatterns clauses) (exprVars clause)
  let keys := (range' 0 (planPatterns clauses).length).map some ++ [none]
  have nodup : keys.Nodup := by
    simpa [keys, nodup_append] using Nodup.map (Option.some_injective _) nodup_range'
  have scheduled := perm_schedule nodup position (clauses.filter isExpr)
  have all : ∀ clause ∈ clauses.filter isExpr, decide (position clause ∈ keys) = true := by
    intro clause _
    cases found : position clause with
    | none => simp [keys]
    | some i => simpa [keys] using (exprPosition_spec found).1
  rw [filter_eq_self.mpr all, flatMap_append, flatMap_map] at scheduled
  rw [plan_eq]
  refine ((perm_spread _ 0).append_right _).trans ?_
  rw [append_assoc]
  exact (((perm_planPatterns clauses).map _).append (by simpa using scheduled)).trans (perm_clauses plain)

/-- An expression whose inputs are all mentioned by patterns, so that the planner takes them for bound
    there, reads no `?_` name. -/
def ReadsNames (clauses : List WhereClause) : Prop :=
  ∀ clause ∈ clauses, (∀ x ∈ exprVars clause, ∃ p, .pattern p ∈ clauses ∧ x ∈ patternBoundVars p) →
    ∀ x ∈ exprVars clause, isWildcard x = false

theorem inputsBound_plan (plain : ∀ clause ∈ clauses, clause.isPatternOrExpr = true)
    (named : ReadsNames clauses) (held : InputsBound [] clauses) : InputsBound [] (plan clauses) := by
  rw [plan_eq, inputsBound_append]
  refine ⟨inputsBound_spread _ [] (nil_subset _) fun i clause member x read => ?_, ?_⟩
  · obtain ⟨inExprs, isPosition⟩ := mem_filter.mp member
    have inFront := (exprPosition_spec (beq_iff_eq.mp isPosition)).2
    have mentioned : ∀ x ∈ exprVars clause, ∃ p, .pattern p ∈ clauses ∧ x ∈ patternBoundVars p := by
      intro x read
      obtain ⟨p, member, bound⟩ := mem_flatMap.mp (inFront read)
      have inPlan := (perm_planPatterns clauses).mem_iff.mp (mem_of_mem_take member)
      obtain ⟨other, inClauses, isPattern⟩ := mem_filterMap.mp inPlan
      cases other <;> cases isPattern
      exact ⟨p, inClauses, bound⟩
    obtain ⟨p, member, bound⟩ := mem_flatMap.mp (inFront read)
    exact mem_flatMap.mpr ⟨p, member,
      mem_vars_of_bound (named clause (mem_filter.mp inExprs).1 mentioned x read) bound⟩
  · rw [planAfter, filter_filter]
    refine held.filter (nil_subset _) fun clause member out x binds => mem_flatMap.mpr ⟨clause, ?_, binds⟩
    have inPlan := (perm_plan plain).mem_iff.mpr member
    rw [plan_eq] at inPlan
    refine (mem_append.mp inPlan).resolve_right fun trailing => ?_
    rw [planAfter, filter_filter, mem_filter, out] at trailing
    cases trailing.2

theorem spread_split {after : Nat → List WhereClause} (exprs : ∀ i, ∀ c ∈ after i, c.isExpr = true)
    (pre mid post : List Pattern) (fact q : Pattern) :
    ∃ a b c, spread after (pre ++ fact :: (mid ++ q :: post)).zipIdx =
      a ++ .pattern fact :: (b ++ .pattern q :: c) ∧ ∀ p, .pattern p ∈ b → p ∈ mid := by
  refine ⟨spread after pre.zipIdx,
    after pre.length ++ spread after (mid.zipIdx (pre.length + 1)), after (pre.length + 1 + mid.length) ++
      spread after (post.zipIdx (pre.length + 1 + mid.length + 1)), ?_, fun p member => ?_⟩
  · simp [spread, zipIdx_append, zipIdx_cons, Nat.add_assoc]
  · rcases mem_append.mp member with member | member
    · cases exprs _ _ member
    · obtain ⟨⟨other, i⟩, inMid, member⟩ := mem_flatMap.mp member
      rcases mem_cons.mp member with same | member
      · cases same
        exact fst_mem_of_mem_zipIdx inMid
      · cases exprs _ _ member

/-- The plan of patterns and expressions: a permutation that keeps a pseudo pattern with its fact and, when
    no `?_` name is taken for bound, every input bound. -/
theorem plan_ordered (clauses : List WhereClause) (plain : ∀ clause ∈ clauses, clause.isPatternOrExpr = true) :
    (plan clauses).Perm clauses ∧
      (∀ pre fact mid q post, clauses = pre ++ .pattern fact :: (mid ++ .pattern q :: post) →
        fact.owns q = true → (∀ p, .pattern p ∈ mid → fact.owns p = true) →
        ∃ a b c, plan clauses = a ++ .pattern fact :: (b ++ .pattern q :: c) ∧
          ∀ p, .pattern p ∈ b → ∃ pseudo, p.attr = .pseudo pseudo) ∧
      (ReadsNames clauses → InputsBound [] clauses → InputsBound [] (plan clauses)) := by
  refine ⟨perm_plan plain, fun pre fact mid q post isClauses owned others => ?_, inputsBound_plan plain⟩
  have owned : ∀ p ∈ mid.filterMap asPlainPattern ++ [q], fact.owns p = true := by
    intro p member
    rcases mem_append.mp member with member | member
    · obtain ⟨clause, inMid, isPattern⟩ := mem_filterMap.mp member
      cases clause <;> cases isPattern
      exact others p inMid
    · rwa [mem_singleton.mp member]
  obtain ⟨bundle, member, rfl, rest, isMore⟩ := @exists_bundle fact q (pre.filterMap asPlainPattern) _
    (post.filterMap asPlainPattern) owned
  have inSorted : bundle ∈ sortBundles (bundlePatterns (clauses.filterMap asPlainPattern)) := by
    rw [sortBundles, (perm_insertionSort _ _).mem_iff, isClauses]
    simpa [asPlainPattern] using member
  obtain ⟨front, back, sorted⟩ := append_of_mem inSorted
  have patterns : planPatterns clauses = front.flatMap entries ++ bundle.first ::
      (mid.filterMap asPlainPattern ++ q :: (rest ++ back.flatMap entries)) := by
    rw [planPatterns, sorted]
    simp [entries, ← isMore]
  obtain ⟨a, between, c, split, inMid⟩ := spread_split (fun i clause member =>
    (mem_filter.mp (mem_filter.mp member).1).2 : ∀ i, ∀ clause ∈ planAfter clauses (some i), clause.isExpr = true)
    (front.flatMap entries) (mid.filterMap asPlainPattern) (rest ++ back.flatMap entries) bundle.first q
  refine ⟨a, between, c ++ planAfter clauses none, ?_, fun p member =>
    (Pattern.owns_attr (owned p (mem_append_left _ (inMid p member)))).2⟩
  rw [plan_eq]
  conv_lhs => rw [patterns, split]
  simp

def inputPattern (attr value : String) : WhereClause :=
  .pattern ⟨.symbol "?e", .real (.keyword attr), .symbol value, none, none⟩

def increment (input output : String) : WhereClause :=
  .expr (.binOp .add (.var input) (.lit (.integer 1))) (some output)

/-- The planner takes `?_x` for bound by the first pattern and moves its reader before the expression that
    binds it. -/
theorem wildcard_input_unbound :
    let clauses := [inputPattern ":a" "?_x", inputPattern ":b" "?a", increment "?a" "?_x", increment "?_x" "?z"]
    InputsBound [] clauses ∧ ¬InputsBound [] (plan clauses) := by
  decide

def incrementedTwice : List WhereClause :=
  [inputPattern ":b" "?a", increment "?a" "?_x", increment "?_x" "?z"]

theorem plan_ordered_increment : ReadsNames incrementedTwice ∧ InputsBound [] (plan incrementedTwice) := by
  have unmentioned : ∀ p, .pattern p ∈ incrementedTwice → "?_x" ∉ patternBoundVars p := by
    rintro p (_ | ⟨_, _ | ⟨_, _ | ⟨_, ⟨⟩⟩⟩⟩)
    decide
  have named : ReadsNames incrementedTwice := by
    rintro clause (_ | ⟨_, _ | ⟨_, _ | ⟨_, ⟨⟩⟩⟩⟩) mentioned
    · decide
    · decide
    · obtain ⟨p, member, bound⟩ := mentioned "?_x" (by decide)
      exact absurd bound (unmentioned p member)
  exact ⟨named, (plan_ordered _ (by decide)).2.2 named (by decide)⟩

end Plan

end ViciaDb
