import ViciaDb.Lib.ExceptList

namespace Paging

open List

variable {ρ κ α β ε : Type}

def follow (page : ρ → Option κ → Except ε (List α × Option κ)) :
    List ρ → Option κ → Except ε (List α × Option κ)
  | [], after => .ok ([], after)
  | request :: requests, after => do
    let (rows, next) ← page request after
    match next with
    | none => return (rows, none)
    | some next => do
      let (rest, last) ← follow page requests (some next)
      return (rows ++ rest, last)

variable (rowsOf : β → List α) (position : List β → Option κ) (open_ : List β → Prop)

structure Turned (front back : List β) (result : List α × Option κ) (mid rest : List β) : Prop where
  split : back = mid ++ rest
  rows : result.1 = mid.flatMap rowsOf
  ends : result.2 = none → rest = []
  goesOn : result.2 ≠ none → mid ≠ [] ∧ result.2 = position (front ++ mid) ∧ open_ rest

structure Followed (requests : List ρ) (front back : List β) (result : List α × Option κ)
    (mid rest : List β) : Prop where
  split : back = mid ++ rest
  rows : result.1 = mid.flatMap rowsOf
  ends : result.2 = none → rest = [] ∨ requests = [] ∧ position front = none
  goesOn : result.2 ≠ none → requests.length ≤ mid.length ∧ open_ rest

variable {rowsOf position open_} {page : ρ → Option κ → Except ε (List α × Option κ)} {blocks : List β}

theorem follow_spec {requests : List ρ}
    (turns : ∀ request ∈ requests, ∀ front back result, blocks = front ++ back →
      page request (position front) = .ok result → ∃ mid rest, Turned rowsOf position open_ front back result mid rest)
    {front back : List β} (whole : blocks = front ++ back) (left : position front ≠ none → open_ back)
    {result : List α × Option κ} (followed : follow page requests (position front) = .ok result) :
    ∃ mid rest, Followed rowsOf position open_ requests front back result mid rest := by
  induction requests generalizing front back result with
  | nil =>
    cases followed
    exact ⟨[], back, rfl, rfl, fun none => .inr ⟨rfl, none⟩, fun some => ⟨Nat.zero_le _, left some⟩⟩
  | cons request requests ih =>
    obtain ⟨turn, turns⟩ := forall_mem_cons.mp turns
    simp only [follow, Except.bind_eq_ok_iff] at followed
    obtain ⟨⟨rows, next⟩, answered, followed⟩ := followed
    obtain ⟨mid, rest, turned⟩ := turn front back _ whole answered
    cases next with
    | none =>
      cases followed
      exact ⟨mid, rest, turned.split, turned.rows, fun none => .inl (turned.ends none),
        fun some => absurd rfl some⟩
    | some next =>
      obtain ⟨progress, isNext, more⟩ := turned.goesOn (Option.some_ne_none next)
      simp only [Except.bind_eq_ok_iff] at followed
      obtain ⟨⟨rows', last⟩, followed, same⟩ := followed
      cases same
      dsimp only at isNext
      rw [isNext] at followed
      have whole' : blocks = (front ++ mid) ++ rest := by rw [whole, turned.split, append_assoc]
      obtain ⟨mid', rest', further⟩ := ih turns whole' (fun _ => more) followed
      refine ⟨mid ++ mid', rest', ?_, ?_, ?_, ?_⟩
      · rw [turned.split, further.split, append_assoc]
      · have rows₁ := turned.rows
        have rows₂ := further.rows
        dsimp only at rows₁ rows₂ ⊢
        rw [rows₁, rows₂, flatMap_append]
      · intro none
        refine .inl ((further.ends none).resolve_right fun ⟨_, noPosition⟩ => ?_)
        rw [noPosition] at isNext
        cases isNext
      · intro some
        obtain ⟨enough, more⟩ := further.goesOn some
        have : 0 < mid.length := length_pos_iff.mpr progress
        refine ⟨?_, more⟩
        rw [length_append, length_cons]
        omega

theorem follow_error {requests : List ρ} {isLimit : ε → Prop}
    (turns : ∀ request ∈ requests, ∀ front back result, blocks = front ++ back →
      page request (position front) = .ok result → ∃ mid rest, Turned rowsOf position open_ front back result mid rest)
    (fails : ∀ request ∈ requests, ∀ front back message, blocks = front ++ back →
      page request (position front) = .error message → isLimit message)
    {front back : List β} (whole : blocks = front ++ back) {message : ε}
    (failed : follow page requests (position front) = .error message) : isLimit message := by
  induction requests generalizing front back with
  | nil => cases failed
  | cons request requests ih =>
    obtain ⟨turn, turns⟩ := forall_mem_cons.mp turns
    obtain ⟨fail, fails⟩ := forall_mem_cons.mp fails
    rw [follow, Except.bind_eq_error_iff] at failed
    rcases failed with failed | ⟨⟨rows, next⟩, answered, failed⟩
    · exact fail front back message whole failed
    obtain ⟨mid, rest, turned⟩ := turn front back _ whole answered
    cases next with
    | none => cases failed
    | some next =>
      obtain ⟨-, isNext, -⟩ := turned.goesOn (Option.some_ne_none next)
      dsimp only at isNext failed
      rw [Except.bind_eq_error_iff] at failed
      rcases failed with failed | ⟨_, _, failed⟩
      · rw [isNext] at failed
        exact ih turns fails (by rw [whole, turned.split, append_assoc]) failed
      · cases failed

end Paging
