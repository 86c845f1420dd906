import Mathlib.Algebra.Group.Action.Defs
import Mathlib.Algebra.Order.BigOperators.Group.Finset

namespace Strata

abbrev Edge (α : Type*) := α × α × Bool

variable {α ε : Type*}

def required (labels : α → Nat) (edge : Edge α) : Nat :=
  if edge.2.2 then labels edge.2.1 + 1 else labels edge.2.1

inductive Walk (edges : List (Edge α)) : α → α → Nat → Prop
  | refl (p : α) : Walk edges p p 0
  | positive {p q r : α} {k : Nat} (edge : (p, q, false) ∈ edges) (rest : Walk edges q r k) :
      Walk edges p r k
  | negative {p q r : α} {k : Nat} (edge : (p, q, true) ∈ edges) (rest : Walk edges q r k) :
      Walk edges p r (k + 1)

def NegativeCycle (edges : List (Edge α)) : Prop := ∃ p k, Walk edges p p (k + 1)

variable [DecidableEq α]

def raise (state : (α → Nat) × Bool) (edge : Edge α) : (α → Nat) × Bool :=
  if state.1 edge.1 < required state.1 edge then
    (Function.update state.1 edge.1 (required state.1 edge), true)
  else state

def relax (bound : Nat) (message : Edge α → ε) (state : (α → Nat) × Bool) (edge : Edge α) :
    Except ε ((α → Nat) × Bool) :=
  let next := raise state edge
  if bound ≤ next.1 edge.1 then .error (message edge) else .ok next

def relabel (bound : Nat) (message : Edge α → ε) (edges : List (Edge α)) :
    Nat → (α → Nat) → Option (Except ε (α → Nat))
  | 0, _ => none
  | passes + 1, labels =>
    match edges.foldlM (relax bound message) (labels, false) with
    | .error e => some (.error e)
    | .ok (next, true) => relabel bound message edges passes next
    | .ok (next, false) => some (.ok next)

section

variable {edges : List (Edge α)} {vertices : Finset α} {p r : α} {k : Nat}

omit [DecidableEq α] in
theorem Walk.labels_le {labels : α → Nat} (satisfied : ∀ edge ∈ edges, required labels edge ≤ labels edge.1)
    (walk : Walk edges p r k) : labels r + k ≤ labels p := by
  induction walk with
  | refl => simp
  | positive edge _ ih => exact ih.trans (by simpa [required] using satisfied _ edge)
  | negative edge _ ih =>
    have above := satisfied _ edge
    simp only [required, if_true] at above
    omega

theorem Walk.visits (inside : ∀ edge ∈ edges, edge.2.1 ∈ vertices) (walk : Walk edges p r k) :
    p ∈ vertices → NegativeCycle edges ∨ ∃ visited ⊆ vertices, visited.card = k + 1 ∧
      ∀ q ∈ visited, ∃ j, Walk edges p q j := by
  induction walk with
  | refl p =>
    intro start
    exact .inr ⟨{p}, by simpa using start, by simp, by simpa using ⟨0, .refl p⟩⟩
  | positive edge _ ih =>
    intro _
    refine (ih (inside _ edge)).imp_right fun ⟨visited, sub, card, reach⟩ => ?_
    exact ⟨visited, sub, card, fun q member => (reach q member).imp fun _ => .positive edge⟩
  | @negative p q r k edge _ ih =>
    intro start
    rcases ih (inside _ edge) with cycle | ⟨visited, sub, card, reach⟩
    · exact .inl cycle
    by_cases again : p ∈ visited
    · obtain ⟨j, back⟩ := reach p again
      exact .inl ⟨p, j, .negative edge back⟩
    refine .inr ⟨insert p visited, Finset.insert_subset start sub, ?_, fun s member => ?_⟩
    · rw [Finset.card_insert_of_notMem again, card]
    · rcases Finset.mem_insert.mp member with rfl | member
      · exact ⟨0, .refl s⟩
      · obtain ⟨j, walk⟩ := reach s member
        exact ⟨j + 1, .negative edge walk⟩

theorem Walk.negativeCycle (inside : ∀ edge ∈ edges, edge.2.1 ∈ vertices) (walk : Walk edges p r k)
    (start : p ∈ vertices) (long : vertices.card ≤ k) : NegativeCycle edges := by
  rcases walk.visits inside start with cycle | ⟨visited, sub, card, -⟩
  · exact cycle
  · have := Finset.card_le_card sub
    omega

structure Progress (edges : List (Edge α)) (vertices : Finset α) (start : α → Nat)
    (state : (α → Nat) × Bool) : Prop where
  walks : ∀ p, ∃ r, Walk edges p r (state.1 p)
  below : ∀ p ∈ vertices, state.1 p ≤ vertices.card
  grows : start ≤ state.1
  moved : state.2 = true → ∃ p ∈ vertices, start p < state.1 p
  still : state.2 = false → state.1 = start

variable {start : α → Nat} {state : (α → Nat) × Bool} {edge : Edge α}

omit [DecidableEq α] in
theorem Progress.walk_required (progress : Progress edges vertices start state) (member : edge ∈ edges) :
    ∃ r, Walk edges edge.1 r (required state.1 edge) := by
  obtain ⟨head, dep, negative⟩ := edge
  obtain ⟨r, walk⟩ := progress.walks dep
  cases negative
  · exact ⟨r, .positive member walk⟩
  · exact ⟨r, .negative member walk⟩

theorem Progress.raise (progress : Progress edges vertices start state) (member : edge ∈ edges)
    (head : edge.1 ∈ vertices) (low : (raise state edge).1 edge.1 < vertices.card) :
    Progress edges vertices start (raise state edge) ∧ ((raise state edge).2 = false →
      state.2 = false ∧ required start edge ≤ start edge.1) := by
  unfold Strata.raise at low ⊢
  split at low
  next higher =>
    rw [if_pos higher]
    have grown : state.1 ≤ Function.update state.1 edge.1 (required state.1 edge) :=
      le_update_self_iff.mpr higher.le
    refine ⟨⟨fun p => ?_, fun p inside => ?_, progress.grows.trans grown, fun _ => ?_, nofun⟩, nofun⟩
    · rcases eq_or_ne p edge.1 with rfl | other
      · simpa using progress.walk_required member
      · simpa [other] using progress.walks p
    · rcases eq_or_ne p edge.1 with rfl | other
      · exact low.le
      · simpa [other] using progress.below p inside
    · exact ⟨edge.1, head, (progress.grows edge.1).trans_lt (by simpa using higher)⟩
  next settled =>
    rw [if_neg settled]
    refine ⟨progress, fun unchanged => ⟨unchanged, ?_⟩⟩
    rw [← progress.still unchanged]
    exact not_lt.mp settled

theorem Progress.pass (inside : ∀ edge ∈ edges, edge.1 ∈ vertices ∧ edge.2.1 ∈ vertices)
    (message : Edge α → ε) (part : List (Edge α)) (sub : part ⊆ edges) :
    ∀ state, Progress edges vertices start state →
      match part.foldlM (relax vertices.card message) state with
      | .error _ => NegativeCycle edges
      | .ok next => Progress edges vertices start next ∧ (next.2 = false →
          state.2 = false ∧ ∀ edge ∈ part, required start edge ≤ start edge.1) := by
  induction part with
  | nil => exact fun state progress => ⟨progress, fun unchanged => ⟨unchanged, by simp⟩⟩
  | cons edge rest ih =>
    intro state progress
    obtain ⟨member, sub⟩ := List.cons_subset.mp sub
    rw [List.foldlM_cons, relax]
    split_ifs with high
    · -- The label just raised counts the negative edges of a walk that visits too many vertices.
      obtain ⟨r, walk⟩ : ∃ r, Walk edges edge.1 r ((Strata.raise state edge).1 edge.1) := by
        unfold Strata.raise
        split
        · simpa using progress.walk_required member
        · exact progress.walks _
      exact walk.negativeCycle (fun edge member => (inside edge member).2) (inside _ member).1 high
    · obtain ⟨raised, before⟩ := progress.raise member (inside _ member).1 (not_le.mp high)
      have after := ih sub _ raised
      change match rest.foldlM (relax vertices.card message) (Strata.raise state edge) with
        | .error _ => _
        | .ok next => _
      split at after
      · exact after
      · refine ⟨after.1, fun unchanged => ?_⟩
        obtain ⟨still, satisfied⟩ := after.2 unchanged
        exact ⟨(before still).1, List.forall_mem_cons.mpr ⟨(before still).2, satisfied⟩⟩

theorem relabel_spec (inside : ∀ edge ∈ edges, edge.1 ∈ vertices ∧ edge.2.1 ∈ vertices)
    (message : Edge α → ε) (passes : Nat) : ∀ labels : α → Nat,
      (∀ p, ∃ r, Walk edges p r (labels p)) → (∀ p ∈ vertices, labels p ≤ vertices.card) →
      vertices.card * vertices.card < passes + ∑ p ∈ vertices, labels p →
      ∃ result, relabel vertices.card message edges passes labels = some result ∧
        match result with
        | .error _ => NegativeCycle edges
        | .ok final => ∀ edge ∈ edges, required final edge ≤ final edge.1 := by
  induction passes with
  | zero =>
    intro labels _ below enough
    have bounded := Finset.sum_le_card_nsmul vertices labels _ below
    exact absurd (enough.trans_le (by simpa using bounded)) (lt_irrefl _)
  | succ passes ih =>
    intro labels walks below enough
    have done := Progress.pass inside message edges (List.Subset.refl _) (labels, false)
      ⟨walks, below, le_rfl, nofun, fun _ => rfl⟩
    rw [relabel]
    split at done
    next e failed => exact ⟨.error e, by rw [failed], done⟩
    next next passed =>
      obtain ⟨progress, settled⟩ := done
      rcases next with ⟨next, _ | _⟩
      · obtain rfl : next = labels := progress.still rfl
        exact ⟨.ok next, by rw [passed], (settled rfl).2⟩
      · obtain ⟨p, member, less⟩ := progress.moved rfl
        have := Finset.sum_lt_sum (fun p _ => progress.grows p) ⟨p, member, less⟩
        rw [passed]
        exact ih next progress.walks progress.below (by dsimp only at this; omega)

end

end Strata
