import ViciaDb.Lib.ExceptList
import ViciaDb.Lib.MergeScan

namespace Visitor

open List

variable {ε σ α β : Type}

def visitList (visit : σ → α → Except ε (Bool × σ)) : σ → List α → Except ε (Bool × σ)
  | s, [] => .ok (true, s)
  | s, a :: as => do
    match ← visit s a with
    | (true, s) => visitList visit s as
    | (false, s) => .ok (false, s)

def record (proceed : List α → α → Bool) (seen : List α) (a : α) : Except ε (Bool × List α) :=
  .ok (proceed seen a, seen ++ [a])

variable {visit : σ → α → Except ε (Bool × σ)}

@[simp] theorem visitList_nil (s : σ) : visitList visit s [] = .ok (true, s) := rfl

theorem visitList_append (s : σ) (as bs : List α) :
    visitList visit s (as ++ bs) = (do
      match ← visitList visit s as with
      | (true, s) => visitList visit s bs
      | (false, s) => .ok (false, s)) := by
  induction as generalizing s with
  | nil => rfl
  | cons a as ih =>
    rw [cons_append, visitList, visitList]
    cases visit s a with
    | error e => rfl
    | ok answer =>
      obtain ⟨go, s'⟩ := answer
      cases go with
      | true => exact ih s'
      | false => rfl

theorem visitList_map (f : β → α) (s : σ) (bs : List β) :
    visitList visit s (bs.map f) = visitList (fun s b => visit s (f b)) s bs := by
  induction bs generalizing s with
  | nil => rfl
  | cons b bs ih =>
    simp only [map_cons, visitList, ih]

theorem visitList_record (proceed : List α → α → Bool) (before as : List α) :
    ∃ go seen, visitList (ε := ε) (record proceed) before as = .ok (go, before ++ seen) ∧
      seen <+: as ∧ (go = true → seen = as) := by
  induction as generalizing before with
  | nil => exact ⟨true, [], by simp, by simp⟩
  | cons a as ih =>
    cases decision : proceed before a with
    | false =>
      refine ⟨false, [a], ?_, by simp, by simp⟩
      simp [visitList, record, decision, bind, Except.bind]
    | true =>
      obtain ⟨go, seen, run, part, all⟩ := ih (before ++ [a])
      refine ⟨go, a :: seen, ?_, by simpa using part, fun done => by rw [all done]⟩
      simp only [visitList, record, decision, bind, Except.bind]
      rw [run, append_assoc]
      rfl

theorem visitList_record_all (before as : List α) :
    visitList (record fun _ _ => true) before as = (.ok (true, before ++ as) : Except ε _) := by
  induction as generalizing before with
  | nil => simp
  | cons a as ih =>
    rw [visitList]
    exact (ih (before ++ [a])).trans (by simp)

def drainWhile (visit : σ → α → Except ε (Bool × σ)) (p : α → Bool) :
    σ → List α → Except ε (Option (List α) × σ)
  | s, [] => .ok (some [], s)
  | s, a :: as =>
    if p a then do
      match ← visit s a with
      | (true, s) => drainWhile visit p s as
      | (false, s) => .ok (none, s)
    else .ok (some (a :: as), s)

def interleave (before : α → β → Bool) (own : α → β) (visit : σ → β → Except ε (Bool × σ))
    (state : List α × σ) (b : β) : Except ε (Bool × List α × σ) := do
  match ← drainWhile (fun s a => visit s (own a)) (before · b) state.2 state.1 with
  | (none, s) => return (false, [], s)
  | (some rest, s) =>
    let (go, s) ← visit s b
    return (go, rest, s)

def finishRun (own : α → β) (visit : σ → β → Except ε (Bool × σ)) :
    Bool × List α × σ → Except ε (Bool × σ)
  | (true, rest, s) => visitList (fun s a => visit s (own a)) s rest
  | (false, _, s) => .ok (false, s)

theorem drainWhile_bind {γ : Type} (p : α → Bool) (s : σ) (as : List α)
    (next : Option (List α) × σ → Except ε γ) :
    (drainWhile visit p s as >>= next) = (do
      match ← visitList visit s (as.takeWhile p) with
      | (true, s) => next (some (as.dropWhile p), s)
      | (false, s) => next (none, s)) := by
  induction as generalizing s with
  | nil => rfl
  | cons a as ih =>
    rw [drainWhile, takeWhile_cons, dropWhile_cons]
    cases passes : p a with
    | false => rfl
    | true =>
      simp only [if_true, visitList]
      cases visit s a with
      | error e => rfl
      | ok answer =>
        obtain ⟨go, s'⟩ := answer
        cases go with
        | true => exact ih s'
        | false => rfl

theorem visit_interleave {before : α → β → Bool} {own : α → β} {lt : α → α → Bool}
    {visit : σ → β → Except ε (Bool × σ)} (agrees : ∀ a e, before a (own e) = lt a e) (es as : List α)
    (s : σ) :
    (visitList (interleave before own visit) (as, s) (es.map own) >>= finishRun own visit) =
      visitList visit s ((List.mergeScan lt es as).map own) := by
  induction es generalizing as s with
  | nil => exact (visitList_map own s as).symm
  | cons e es ih =>
    have same : (before · (own e)) = (lt · e) := funext fun a => agrees a e
    rw [map_cons, visitList, interleave, same, List.mergeScan, map_append,
      visitList_append, map_cons, visitList_map, bind_assoc, bind_assoc, drainWhile_bind]
    cases visitList (fun s a => visit s (own a)) s (as.takeWhile (lt · e)) with
    | error err => rfl
    | ok answer =>
      obtain ⟨go, s'⟩ := answer
      cases go with
      | false => rfl
      | true =>
        simp only [bind, Except.bind, visitList]
        cases visit s' (own e) with
        | error err => rfl
        | ok answer =>
          obtain ⟨go, s''⟩ := answer
          cases go with
          | false => rfl
          | true => exact ih (as.dropWhile (lt · e)) s''

end Visitor
