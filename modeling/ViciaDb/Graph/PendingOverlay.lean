import ViciaDb.Storage.Index

namespace ViciaDb

def Fact.sameRecord (f g : Fact) : Bool :=
  decide (f.entity = g.entity) && decide (f.attr = g.attr) &&
    decide (encodeValue f.value = encodeValue g.value) && decide (f.validFrom = g.validFrom) &&
    decide (f.validTo = g.validTo) && decide (f.txCount = g.txCount) &&
    decide (f.txId = g.txId) && decide (f.asserted = g.asserted)

def loadFact (pending : List Fact) (fact : Fact) : List Fact :=
  if pending.any (·.sameRecord fact) then pending else pending ++ [fact]

def loadFacts (pending : List Fact) (facts : List Fact) : List Fact := facts.foldl loadFact pending

def DistinctRecords (facts : List Fact) : Prop := facts.Pairwise fun f g => f.sameRecord g = false

@[simp] theorem Fact.sameRecord_self (f : Fact) : f.sameRecord f = true := by
  simp [Fact.sameRecord]

theorem Fact.sameRecord_symm {f g : Fact} (same : f.sameRecord g = true) : g.sameRecord f = true := by
  simp only [Fact.sameRecord, Bool.and_eq_true, decide_eq_true_eq] at same ⊢
  grind

theorem sameRecord_txCount {f g : Fact} (same : f.sameRecord g = true) : f.txCount = g.txCount := by
  simp only [Fact.sameRecord, Bool.and_eq_true, decide_eq_true_eq] at same
  grind

theorem DistinctRecords.perm {facts facts' : List Fact} (distinct : DistinctRecords facts)
    (perm : facts.Perm facts') : DistinctRecords facts' := by
  refine (perm.pairwise_iff ?_).mp distinct
  intro f g different
  rw [← Bool.not_eq_true] at different ⊢
  exact fun same => different (Fact.sameRecord_symm same)

theorem Fact.sameRecord_trans {f g h : Fact} (fg : f.sameRecord g) (gh : g.sameRecord h) :
    f.sameRecord h := by
  simp only [Fact.sameRecord, Bool.and_eq_true, decide_eq_true_eq] at *
  grind

theorem mem_loadFact {pending : List Fact} {fact f : Fact} (member : f ∈ loadFact pending fact) :
    f ∈ pending ∨ f = fact := by
  unfold loadFact at member
  split at member
  · exact Or.inl member
  · simpa using member

theorem loadFact_mem (pending : List Fact) (fact : Fact) :
    ∀ f, f ∈ pending ∨ f = fact → ∃ g ∈ loadFact pending fact, g.sameRecord f := by
  intro f known
  unfold loadFact
  split
  · rename_i present
    obtain ⟨g, member, same⟩ := List.any_eq_true.mp present
    rcases known with known | rfl
    · exact ⟨f, known, f.sameRecord_self⟩
    · exact ⟨g, member, same⟩
  · exact ⟨f, by simpa using known, f.sameRecord_self⟩

theorem mem_loadFacts {pending facts : List Fact} {f : Fact} (member : f ∈ loadFacts pending facts) :
    f ∈ pending ∨ f ∈ facts := by
  induction facts generalizing pending with
  | nil => exact Or.inl member
  | cons fact facts ih =>
    rcases ih member with known | known
    · rcases mem_loadFact known with known | rfl
      · exact Or.inl known
      · exact Or.inr (by simp)
    · exact Or.inr (List.mem_cons_of_mem _ known)

theorem loadFacts_mem (pending facts : List Fact) :
    ∀ f, f ∈ pending ∨ f ∈ facts → ∃ g ∈ loadFacts pending facts, g.sameRecord f := by
  induction facts generalizing pending with
  | nil =>
    intro f known
    exact ⟨f, by simpa [loadFacts] using known, f.sameRecord_self⟩
  | cons fact facts ih =>
    intro f known
    rcases known with known | known
    · obtain ⟨g, member, same⟩ := loadFact_mem pending fact f (Or.inl known)
      obtain ⟨h, loaded, same'⟩ := ih (loadFact pending fact) g (Or.inl member)
      exact ⟨h, loaded, Fact.sameRecord_trans same' same⟩
    · rcases List.mem_cons.mp known with rfl | known
      · obtain ⟨g, member, same⟩ := loadFact_mem pending f f (Or.inr rfl)
        obtain ⟨h, loaded, same'⟩ := ih (loadFact pending f) g (Or.inl member)
        exact ⟨h, loaded, Fact.sameRecord_trans same' same⟩
      · exact ih (loadFact pending fact) f (Or.inr known)

end ViciaDb
