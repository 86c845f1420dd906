import ViciaDb.Graph.FactLog
import ViciaDb.Storage.BaseImage

namespace ViciaDb

open List Std Wal.Postcard

variable {α κ : Type}

/-- What an unstable sort leaves: items that compare equal stand in any order. -/
structure UnstableSort (cmp : α → α → Ordering) (items sorted : List α) : Prop where
  perm : sorted.Perm items
  ordered : sorted.Pairwise fun a b => (cmp a b).isLE

structure PendingIndexOrder where
  facts : List Fact
  refs : List FactRef
  paired : facts.length = refs.length
  order : List (Fin facts.length)
  uniformAttribute : Bool
  compareEavted : Bool

namespace PendingIndexOrder

def new (facts : List Fact) (refs : List FactRef) (paired : facts.length = refs.length) :
    PendingIndexOrder where
  facts := facts
  refs := refs
  paired := paired
  order := []
  uniformAttribute := facts.head?.all fun first => facts.all (·.attr == first.attr)
  compareEavted := false

def resetAll (pending : PendingIndexOrder) : PendingIndexOrder :=
  { pending with order := finRange _, compareEavted := false }

-- The source encodes every value once, in `new`, and compares and copies those bytes.
def entityTail : Fact → Fact → Ordering :=
  compareLex (compareOn Fact.validFrom) <| compareLex (compareOn Fact.validTo) <|
    compareLex (compareOn Fact.entity) <| compareLex (compareOn Fact.txCount) <|
      compareLex (compareOn Fact.txId) (compareOn Fact.asserted)

def avetOrder : Fact → Fact → Ordering :=
  compareLex (compareOn fun fact => utf8Bytes fact.attr) <|
    compareLex (compareOn fun fact => encodeValue fact.value) entityTail

def vaetOrder : Fact → Fact → Ordering :=
  compareLex (compareOn Fact.refTarget) <| compareLex (compareOn fun fact => utf8Bytes fact.attr) entityTail

def SortBy (cmp : Fact → Fact → Ordering) (pending after : PendingIndexOrder) : Prop :=
  ∃ order, UnstableSort (fun i j => cmp pending.facts[i] pending.facts[j]) pending.order order ∧
    after = { pending with order := order }

def SortEavt (pending after : PendingIndexOrder) : Prop :=
  ∃ sorted, SortBy compareEavt pending.resetAll sorted ∧ after = { sorted with compareEavted := true }

def SortAevt (pending after : PendingIndexOrder) : Prop :=
  if pending.uniformAttribute && pending.compareEavted then after = pending
  else SortBy compareAevt pending.resetAll after

def SortAvet (pending after : PendingIndexOrder) : Prop := SortBy avetOrder pending.resetAll after

def SortVaet (pending after : PendingIndexOrder) : Prop :=
  SortBy vaetOrder
    { pending with order := (finRange _).filter fun i => (Fact.refTarget pending.facts[i]).isSome } after

def entry (key : Fact → Option κ) (pending : PendingIndexOrder) (i : Fin pending.facts.length) :
    Option (κ × FactRef) :=
  (key pending.facts[i]).map fun k => (k, pending.refs[i.cast pending.paired])

def entries (key : Fact → Option κ) (pending : PendingIndexOrder) : Option (List (κ × FactRef)) :=
  pending.order.mapM (pending.entry key)

def eavtEntries : PendingIndexOrder → Option (List (EavtKey × FactRef)) := entries (some ∘ eavtKey)

def aevtEntries : PendingIndexOrder → Option (List (AevtKey × FactRef)) := entries (some ∘ aevtKey)

def avetEntries : PendingIndexOrder → Option (List (AvetKey × FactRef)) := entries (some ∘ avetKey)

def vaetEntries : PendingIndexOrder → Option (List (VaetKey × FactRef)) := entries vaetKey

end PendingIndexOrder

def SortIndexEntries (cmp : κ → κ → Ordering) : List (κ × FactRef) → List (κ × FactRef) → Prop :=
  UnstableSort fun a b => cmp a.1 b.1

structure BuildSortedIndexEntries (facts : List Fact) (refs : List FactRef) (built : IndexContents) :
    Prop where
  eavt : SortIndexEntries EavtKey.cmp (keyed (some ∘ eavtKey) facts refs) built.eavt
  aevt : SortIndexEntries AevtKey.cmp (keyed (some ∘ aevtKey) facts refs) built.aevt
  avet : SortIndexEntries AvetKey.cmp (keyed (some ∘ avetKey) facts refs) built.avet
  vaet : SortIndexEntries VaetKey.cmp (keyed vaetKey facts refs) built.vaet

/-- A view lists the built keys in their order, each with its own references. -/
def Lists (view : Option (List (κ × FactRef))) (built : List (κ × FactRef)) : Prop :=
  ∃ entries, view = some entries ∧ entries.map Prod.fst = built.map Prod.fst ∧ entries.Perm built

namespace PendingIndexOrder

variable {pending s₁ s₂ s₃ s₄ : PendingIndexOrder}

theorem keyed_eq (key : Fact → Option κ) :
    keyed key pending.facts pending.refs = (finRange _).filterMap (pending.entry key) := by
  have zipped : pending.facts.zip pending.refs =
      (finRange _).map fun i => (pending.facts[i], pending.refs[i.cast pending.paired]) := by
    apply ext_getElem <;> simp [pending.paired]
  rw [keyed, zipped, filterMap_map]
  rfl

theorem mapM_some {f : α → Option κ} (items : List α) (total : ∀ a ∈ items, (f a).isSome) :
    items.mapM f = some (items.filterMap f) := by
  induction items with
  | nil => rfl
  | cons a items ih =>
    obtain ⟨b, found⟩ := Option.isSome_iff_exists.mp (total a mem_cons_self)
    simp [mapM_cons, found, ih fun a member => total a (mem_cons_of_mem _ member)]

theorem entries_list {cmp : κ → κ → Ordering} [TransCmp cmp] (lawful : ∀ a b, cmp a b = .eq → a = b)
    {key : Fact → Option κ} {order : Fact → Fact → Ordering}
    (agree : ∀ a ∈ pending.facts, ∀ b ∈ pending.facts, ∀ x ∈ key a, ∀ y ∈ key b, order a b = cmp x y)
    {indices : List (Fin pending.facts.length)}
    (all : indices = (finRange _).filter fun i => (key pending.facts[i]).isSome)
    (sorted : UnstableSort (fun i j => order pending.facts[i] pending.facts[j]) indices pending.order)
    {built : List (κ × FactRef)} (owned : SortIndexEntries cmp (keyed key pending.facts pending.refs) built) :
    Lists (pending.entries key) built := by
  subst all
  have keys : ∀ i ∈ pending.order, (key pending.facts[i]).isSome := fun i member =>
    (mem_filter.mp (sorted.perm.mem_iff.mp member)).2
  have perm : (pending.order.filterMap (pending.entry key)).Perm built := by
    refine (sorted.perm.filterMap _).trans (.trans (.of_eq ?_) owned.perm.symm)
    rw [filterMap_filter, keyed_eq]
    refine filterMap_congr fun i _ => ?_
    unfold entry
    cases key pending.facts[i] <;> rfl
  refine ⟨_, mapM_some pending.order fun i member => by simpa [entry] using keys i member,
    (perm.map _).eq_of_pairwise (fun a b _ _ le ge => lawful _ _ (OrientedCmp.isLE_antisymm le ge)) ?_
      (pairwise_map.mpr owned.ordered), perm⟩
  rw [map_filterMap, pairwise_filterMap]
  refine sorted.ordered.imp fun {i j} le x isX y isY => ?_
  simp only [entry, Option.map_map, Option.map_eq_some_iff, Function.comp] at isX isY
  obtain ⟨x, isX, rfl⟩ := isX
  obtain ⟨y, isY, rfl⟩ := isY
  exact agree _ (getElem_mem _) _ (getElem_mem _) x isX y isY ▸ le

@[simp]
theorem utf8Bytes_eq_iff {s t : String} : utf8Bytes s = utf8Bytes t ↔ s = t :=
  ⟨utf8Bytes_inj, congrArg _⟩

theorem eavtKey_eq_of_cmp (a b : EavtKey) (same : a.cmp b = .eq) : a = b := by
  cases a
  cases b
  simpa [EavtKey.cmp, compareLex_eq_eq, compareOn] using same

theorem aevtKey_eq_of_cmp (a b : AevtKey) (same : a.cmp b = .eq) : a = b := by
  cases a
  cases b
  simpa [AevtKey.cmp, CurrentAevtEntryRef.cmpOwnedSuffix, CurrentAevtEntryRef.cmp, AevtKey.project,
    compareLex_eq_eq, compareOn] using same

theorem avetKey_eq_of_cmp (a b : AvetKey) (same : a.cmp b = .eq) : a = b := by
  cases a
  cases b
  simpa [AvetKey.cmp, compareLex_eq_eq, compareOn] using same

theorem vaetKey_eq_of_cmp (a b : VaetKey) (same : a.cmp b = .eq) : a = b := by
  cases a
  cases b
  simpa [VaetKey.cmp, compareLex_eq_eq, compareOn] using same

theorem isSome_vaetKey (fact : Fact) : (vaetKey fact).isSome = (Fact.refTarget fact).isSome := by
  unfold vaetKey Fact.refTarget
  cases fact.value <;> rfl

theorem vaetOrder_eq {a b : Fact} {x y : VaetKey} (isX : vaetKey a = some x) (isY : vaetKey b = some y) :
    vaetOrder a b = x.cmp y := by
  unfold vaetKey at isX isY
  split at isX <;> cases isX
  split at isY <;> cases isY
  rename_i targetA isA _ targetB isB
  simp only [vaetOrder, VaetKey.cmp, compareLex, compareOn, Fact.refTarget, isA, isB]
  rfl

theorem compareEavt_eq {a b : Fact} (same : a.attr = b.attr) :
    compareEavt a b = (aevtKey a).cmp (aevtKey b) := by
  have attr : compare (utf8Bytes a.attr) (utf8Bytes b.attr) = .eq := by rw [same, compare_self]
  simp only [compareEavt, compareTail, AevtKey.cmp, compareLex, compareOn, CurrentAevtEntryRef.cmpOwnedSuffix,
    CurrentAevtEntryRef.cmp, AevtKey.project, aevtKey, attr, Ordering.eq_then]

theorem attr_eq_of_uniform {facts : List Fact} {refs : List FactRef} (paired : facts.length = refs.length)
    (uniform : (new facts refs paired).uniformAttribute = true) {a b : Fact} (inA : a ∈ facts)
    (inB : b ∈ facts) : a.attr = b.attr := by
  cases facts with
  | nil => cases inA
  | cons first rest =>
    have all : ∀ fact ∈ first :: rest, fact.attr = first.attr := by simpa [new] using uniform
    rw [all a inA, all b inB]

theorem pendingViews_listed (facts : List Fact) (refs : List FactRef) (paired : facts.length = refs.length)
    (eavt : SortEavt (new facts refs paired) s₁) (aevt : SortAevt s₁ s₂) (avet : SortAvet s₂ s₃)
    (vaet : SortVaet s₃ s₄) (built : IndexContents) (owned : BuildSortedIndexEntries facts refs built) :
    Lists s₁.eavtEntries built.eavt ∧ Lists s₂.aevtEntries built.aevt ∧
      Lists s₃.avetEntries built.avet ∧ Lists s₄.vaetEntries built.vaet := by
  have all (indices : List (Fin facts.length)) := (filter_true indices).symm
  obtain ⟨-, ⟨order, sorted, rfl⟩, rfl⟩ := eavt
  refine ⟨entries_list eavtKey_eq_of_cmp (by rintro a - b - _ ⟨⟩ _ ⟨⟩; rfl) (all _) sorted owned.eavt, ?_⟩
  have aevtListed : Lists s₂.aevtEntries built.aevt ∧
      ∃ order flag, s₂ = { new facts refs paired with order := order, compareEavted := flag } := by
    unfold SortAevt at aevt
    split at aevt
    · rename_i uniform
      subst aevt
      refine ⟨entries_list aevtKey_eq_of_cmp ?_ (all _) sorted owned.aevt, order, true, rfl⟩
      rintro a inA b inB _ ⟨⟩ _ ⟨⟩
      exact compareEavt_eq (attr_eq_of_uniform paired (Bool.and_eq_true_iff.mp uniform).1 inA inB)
    · obtain ⟨order, sorted, rfl⟩ := aevt
      exact ⟨entries_list aevtKey_eq_of_cmp (by rintro a - b - _ ⟨⟩ _ ⟨⟩; rfl) (all _) sorted owned.aevt,
        order, false, rfl⟩
  obtain ⟨listed, order, flag, rfl⟩ := aevtListed
  obtain ⟨order, sorted, rfl⟩ := avet
  refine ⟨listed,
    entries_list avetKey_eq_of_cmp (by rintro a - b - _ ⟨⟩ _ ⟨⟩; rfl) (all _) sorted owned.avet, ?_⟩
  obtain ⟨order, sorted, rfl⟩ := vaet
  simp only [← isSome_vaetKey] at sorted
  refine entries_list vaetKey_eq_of_cmp ?_ rfl sorted owned.vaet
  exact fun _ _ _ _ _ isX _ isY => vaetOrder_eq isX isY

def friend (source target : EntityId) : Fact :=
  ⟨source, ":friend", .ref target, 5, 1, 0, 9, true⟩

theorem pendingViews_listed_friends :
    let facts := [friend 1 2, friend 2 3]
    let refs := [⟨4, 0⟩, ⟨4, 1⟩]
    Lists (aevtEntries { new facts refs rfl with order := finRange 2, compareEavted := true })
      (keyed (some ∘ aevtKey) facts refs) := by
  intro facts refs
  exact (pendingViews_listed facts refs rfl ⟨_, ⟨_, ⟨.refl _, by decide⟩, rfl⟩, rfl⟩ rfl
    ⟨_, ⟨.refl _, by decide⟩, rfl⟩ ⟨_, ⟨.refl _, by decide⟩, rfl⟩
    ⟨keyed (some ∘ eavtKey) facts refs, keyed (some ∘ aevtKey) facts refs,
      keyed (some ∘ avetKey) facts refs, keyed vaetKey facts refs⟩
    ⟨⟨.refl _, by decide⟩, ⟨.refl _, by decide⟩, ⟨.refl _, by decide⟩, ⟨.refl _, by decide⟩⟩).2.1

end PendingIndexOrder

end ViciaDb
