import ViciaDb.Query.OrMeaning

namespace ViciaDb

open WhereClause (binds within)
open List

/-- The values that can stand under a variable: those of the incoming rows and those a pattern
    inside the clause places there. -/
def WhereClause.Sources (facts : List Fact) (incoming : List Bindings) (clause : WhereClause)
    (x : String) (v : Value) : Prop :=
  (∃ b ∈ incoming, b.lookup (.var x) = some v) ∨
    ∃ p ∈ branchPatterns clause.within, ∃ f ∈ facts, p.Places f x v

def WhereClause.outputs (clause : WhereClause) : List String :=
  clause.within.filterMap WhereClause.output

/-- There are incoming rows, which bind the scope; the branches bind what is joined on and read nothing
    else of the scope, and no variable has two spellings. -/
structure Seedable (ext : Externals) (ctx : BranchContext) (clause : WhereClause)
    (scope : List String) (incoming : List Bindings) : Prop where
  nonempty : incoming ≠ []
  binds : ∀ b ∈ incoming, ∀ x, (b.lookup (.var x)).isSome ↔ x ∈ scope
  noWildcard : ∀ x ∈ scope, isWildcard x = false
  fits : clause.fits scope = true
  understood : Understood ext ctx.functions ctx.facts (clause.Sources ctx.facts incoming)
    clause.outputs clause.within

theorem Seedable.inScope {ext : Externals} {ctx : BranchContext} {clause : WhereClause} {scope : List String}
    {incoming : List Bindings} (seedable : Seedable ext ctx clause scope incoming) :
    Scoped (clause.Sources ctx.facts incoming) clause.outputs scope incoming where
  binds := seedable.binds
  noWildcard b member x wildcard := by
    rw [← Option.not_isSome_iff_eq_none, seedable.binds b member x]
    intro inScope
    rw [seedable.noWildcard x inScope] at wildcard
    cases wildcard
  source b member x v got := .inl (.inl ⟨b, member, got⟩)

section Examples

def pair : List Fact :=
  [{ entity := Externals.sample.keywordId ":alice", attr := ":next"
     value := .ref (Externals.sample.keywordId ":bob"), txId := 1, txCount := 1, validFrom := 1
     validTo := validTimeForever, asserted := true },
   { entity := Externals.sample.keywordId ":bob", attr := ":likes"
     value := .ref (Externals.sample.keywordId ":alice"), txId := 1, txCount := 1, validFrom := 1
     validTo := validTimeForever, asserted := true }]

def pairContext : BranchContext where
  functions := .withBuiltins
  facts := pair
  validAt := .ok (.integer 5)
  maxResults := 10

def linked (attr x y : String) : WhereClause :=
  .pattern (.plain (.symbol x) (.keyword attr) (.symbol y))

/-- `(or [?x :next ?y] (and [?x :likes ?y] (not [?x :next ?y])))` -/
def nextOrOnlyLikes : WhereClause :=
  .or [[linked ":next" "?x" "?y"], [linked ":likes" "?x" "?y", .not [linked ":next" "?x" "?y"]]]

def rowOf (x : String) (v : Value) : Bindings := (∅ : Bindings).insert (.var x) v

theorem lookup_rowOf (x : String) (v : Value) (y : String) :
    (rowOf x v).lookup (.var y) = if y = x then some v else none := by
  rw [rowOf, Finmap.lookup_insert_eq_ite, Finmap.lookup_empty]
  simp only [Key.var.injEq]

def aliceAndBob : List Bindings :=
  [rowOf "?x" (.ref (Externals.sample.keywordId ":alice")),
   rowOf "?x" (.ref (Externals.sample.keywordId ":bob"))]

theorem nextOrOnlyLikes_sources {x : String} {v : Value}
    (source : nextOrOnlyLikes.Sources pair aliceAndBob x v) : ∃ e, v = .ref e := by
  rcases source with ⟨b, member, got⟩ | ⟨p, inPatterns, f, inFacts, named, places⟩
  · simp only [aliceAndBob, mem_cons, not_mem_nil, or_false] at member
    rcases member with rfl | rfl <;> rw [lookup_rowOf] at got <;> grind
  have attrs : ∀ p ∈ branchPatterns nextOrOnlyLikes.within, p.attr.boundVar = none := by decide
  have values : ∀ f ∈ pair, f.value = .ref (Externals.sample.keywordId ":bob") ∨
      f.value = .ref (Externals.sample.keywordId ":alice") := by decide
  rcases places with ⟨-, rfl⟩ | ⟨bound, -⟩ | ⟨-, rfl⟩
  · exact ⟨_, rfl⟩
  · rw [attrs p inPatterns] at bound
    cases bound
  · rcases values f inFacts with equal | equal <;> exact ⟨_, equal⟩

theorem nextOrOnlyLikes_understood :
    Understood .sample pairContext.functions pair (nextOrOnlyLikes.Sources pair aliceAndBob)
      nextOrOnlyLikes.outputs nextOrOnlyLikes.within where
  spelled :=
    { placed := fun p inPatterns f inFacts x v places => .inr ⟨p, inPatterns, f, inFacts, places⟩
      ordinary := by
        intro x v source
        obtain ⟨e, rfl⟩ := nextOrOnlyLikes_sources source
        rfl
      alike := by
        intro x v w left right same
        obtain ⟨e, rfl⟩ := nextOrOnlyLikes_sources left
        obtain ⟨e', rfl⟩ := nextOrOnlyLikes_sources right
        exact same
      apart := by
        have values : ∀ f ∈ pair, ∀ k, f.value ≠ .keyword k := by
          intro f member
          simp only [pair, mem_cons, not_mem_nil, or_false] at member
          rcases member with rfl | rfl <;> simp
        have constants : ∀ p ∈ branchPatterns nextOrOnlyLikes.within, p.value.asKeyword = none := by decide
        rintro k (⟨p, -, f, member, -, value⟩ | ⟨p, member, value⟩ | ⟨x, source⟩)
        · exact absurd value (values f member k)
        · have constant := constants p member
          rw [value] at constant
          cases constant
        · obtain ⟨e, equal⟩ := nextOrOnlyLikes_sources source
          cases equal }
  free := by
    intro e out member
    simp [nextOrOnlyLikes, linked, within, clausesWithin, branchesWithin] at member
  fresh := by decide
  outputs := by
    have none : ∀ clause ∈ nextOrOnlyLikes.within, clause.output = none := by
      simp [nextOrOnlyLikes, linked, within, clausesWithin, branchesWithin, WhereClause.output]
    intro clause member x output
    rw [none clause member] at output
    cases output
  joins := by
    intro joinVars body member
    simp [nextOrOnlyLikes, linked, within, clausesWithin, branchesWithin] at member
  present := by
    intro clause _ x _ source
    obtain ⟨e, equal⟩ := nextOrOnlyLikes_sources source
    cases equal
  near := by
    intro clause _ x _ f source
    obtain ⟨e, equal⟩ := nextOrOnlyLikes_sources source
    cases equal

theorem nextOrOnlyLikes_seedable :
    Seedable .sample pairContext nextOrOnlyLikes ["?x"] aliceAndBob where
  nonempty := by simp [aliceAndBob]
  binds := by
    intro b member x
    simp only [aliceAndBob, mem_cons, not_mem_nil, or_false] at member
    rcases member with rfl | rfl <;> rw [lookup_rowOf] <;> grind
  noWildcard := by decide
  fits := by decide +kernel
  understood := nextOrOnlyLikes_understood

/-- `(or (and [?x :next ?y] [(= ?n 3)]))`, where `?n` is bound outside. -/
def nextWhenThree : WhereClause :=
  .or [[linked ":next" "?x" "?y", .expr (.binOp .eq (.var "?n") (.lit (.integer 3))) none]]

def aliceNumbered : Bindings :=
  (rowOf "?x" (.ref (Externals.sample.keywordId ":alice"))).insert (.var "?n") (.integer 3)

def aliceNextBob : Assignment := fun x =>
  if x = "?n" then .integer 3
  else if x = "?y" then .ref (Externals.sample.keywordId ":bob")
  else .ref (Externals.sample.keywordId ":alice")

theorem nextWhenThree_satisfied :
    nextWhenThree.Satisfied .sample .withBuiltins (factModel .sample pair) aliceNextBob := by
  simp only [nextWhenThree, WhereClause.Satisfied, SomeSatisfied, AllSatisfied, linked, and_true, or_false]
  refine ⟨⟨_, ⟨_, mem_cons_self, rfl⟩, ?_, rfl, ?_⟩, _, rfl, rfl⟩
  · exact .inr ⟨rfl, rfl⟩
  · exact .inr ⟨rfl, rfl⟩

end Examples

end ViciaDb
