import ViciaDb.Lib.MergeCursor

namespace MergeCursor

open List

variable {α : Type}

inductive Fault where
  | scanning (after : Nat)
  | finishing (after : Nat)

def Fault.after : Fault → Nat
  | .scanning after | .finishing after => after

def cutRules (rules : Rules α) (after : Nat) : Rules α :=
  { rules with full := fun taken => rules.full taken || decide (after ≤ taken.length) }

def attempt (rules : Rules α) (items : List α) (cursor : Cursor α) : Fault → List α × Cursor α
  | .scanning after =>
    if cursor.scanned then ([], cursor)
    else
      let (taken, next) := scan (cutRules rules after) cursor.last items [] cursor
      -- the end of the scan is not noticed
      (taken, { next with scanned := false })
  | .finishing after =>
    let (taken, next, _) := step (cutRules rules after) items cursor
    (taken, next)

structure Attempted (rules : Rules α) (items : List α) (cursor : Cursor α) (result : List α × Cursor α) :
    Prop where
  ready : Ready rules.cmp result.2
  takes : ∀ unseen, unseen = [] ∨ cursor.more = true →
    remaining rules.cmp items cursor unseen = result.1 ++ remaining rules.cmp items result.2 unseen
  more : result.2.more = cursor.more
  waits : cursor.waiting.length ≤ result.1.length + result.2.waiting.length
  fewer : result.2.waiting ⊆ cursor.waiting

section Spec

variable {rules : Rules α} [trans : Std.TransCmp rules.cmp] {items : List α} {cursor : Cursor α}

theorem attempt_spec (increasing : Increasing rules.cmp items) (ready : Ready rules.cmp cursor) (fault : Fault) :
    Attempted rules items cursor (attempt rules items cursor fault) := by
  cases fault with
  | scanning after =>
    have trans : Std.TransCmp (cutRules rules after).cmp := trans
    rw [attempt]
    by_cases scanned : cursor.scanned = true
    · rw [if_pos scanned]
      exact ⟨ready, fun _ _ => rfl, rfl, by simp, List.Subset.refl _⟩
    rw [if_neg scanned]
    rw [Bool.not_eq_true] at scanned
    obtain ⟨fresh, done, todo, passed⟩ := @scan_spec _ (cutRules rules after) trans cursor.last items [] cursor
      increasing ready.sorted ready.above (fun _ _ => id) scanned
    refine ⟨⟨passed.sorted, passed.above⟩, fun unseen known => ?_, passed.more, passed.waits, passed.fewer⟩
    refine (passed.takes scanned unseen known).trans (congrArg (_ ++ ·) ?_)
    rw [remaining, if_neg (by simp), ← passed.rest]
    rfl
  | finishing after =>
    have trans : Std.TransCmp (cutRules rules after).cmp := trans
    have stepped := @step_spec _ (cutRules rules after) trans items cursor increasing ready
    exact ⟨stepped.ready, stepped.takes, stepped.more, stepped.waits, stepped.fewer⟩

theorem scanning_last (increasing : Increasing rules.cmp items) (ready : Ready rules.cmp cursor) (after : Nat)
    (none : remaining rules.cmp items (attempt rules items cursor (.scanning after)).2 [] = []) {item : α}
    (isLast : (attempt rules items cursor (.scanning after)).1.getLast? = some item) : item ∈ items := by
  have trans : Std.TransCmp (cutRules rules after).cmp := trans
  rw [attempt] at none isLast
  by_cases scanned : cursor.scanned = true
  · rw [if_pos scanned] at isLast
    cases isLast
  rw [if_neg scanned] at none isLast
  rw [Bool.not_eq_true] at scanned
  obtain ⟨fresh, done, todo, passed⟩ := @scan_spec _ (cutRules rules after) trans cursor.last items [] cursor
    increasing ready.sorted ready.above (fun _ _ => id) scanned
  have isTaken : (scan (cutRules rules after) cursor.last items [] cursor).1 = fresh := passed.taken
  refine passed.ends ?_ item (isTaken ▸ isLast)
  rw [remaining, if_neg (by simp)] at none
  exact passed.rest.symm.trans (merged_eq_nil none).1

omit trans in
theorem Tight.of_cut {after : Nat} {taken : List α} (tight : Tight (cutRules rules after) [] taken) :
    Tight rules [] taken :=
  tight.imp_right fun notFull => (Bool.or_eq_false_iff.mp notFull).1

omit trans in
theorem attempt_tight (items : List α) (cursor : Cursor α) (fault : Fault) :
    Tight rules [] (attempt rules items cursor fault).1 := by
  cases fault with
  | scanning after =>
    rw [attempt]
    split
    · exact .inl rfl
    · exact (scan_tight _ _ _ _).of_cut
  | finishing after => exact (step_tight _ _).of_cut

theorem Progress.attempt {cmp : α → α → Ordering} [Std.TransCmp cmp] {items total : List α} {cursor : Cursor α}
    {done : List α} (increasing : Increasing cmp items) (progress : Progress cmp items total cursor done)
    (budget : Nat) (fault : Fault) :
    Progress cmp items total (MergeCursor.attempt (budgetRules cmp budget) items cursor fault).2
      (done ++ (MergeCursor.attempt (budgetRules cmp budget) items cursor fault).1) := by
  have trans : Std.TransCmp (budgetRules cmp budget).cmp := inferInstanceAs (Std.TransCmp cmp)
  have attempted := @attempt_spec _ (budgetRules cmp budget) trans items cursor increasing progress.ready fault
  refine ⟨attempted.ready, attempted.more.trans progress.whole, ?_⟩
  rw [append_assoc]
  exact progress.passed.trans (congrArg (done ++ ·) (attempted.takes [] (.inl rfl)))

end Spec

structure Round where
  budget : Nat
  fault : Option Fault := none

def unfailed (attempts : List Round) : Nat := attempts.countP fun attempt => attempt.fault.isNone

theorem unfailed_tried (budget : Nat) (attempts : List Round) :
    unfailed (⟨budget, none⟩ :: attempts) = unfailed attempts + 1 := countP_cons_of_pos rfl

theorem unfailed_failed (budget : Nat) (fault : Fault) (attempts : List Round) :
    unfailed (⟨budget, some fault⟩ :: attempts) = unfailed attempts :=
  countP_cons_of_neg Bool.false_ne_true

section Retry

variable {σ τ ε : Type}

/-- Failures make no difference to a reader: all attempts that get to its end have one result, and
    those of which enough get through do. -/
def Transparent (read : List Round → Except ε (Option τ)) : Prop :=
  ∃ (whole : Except ε τ) (work : Nat), ∀ attempts, (∀ attempt ∈ attempts, 0 < attempt.budget) →
    read attempts = whole.map some ∨ read attempts = .ok none ∧ unfailed attempts ≤ work

variable (cmp : α → α → Ordering) (accept : σ → α → Except ε σ) (finish : σ → Except ε τ) (items : List α)

def retry : List Round → Cursor α → σ → Except ε (Option τ)
  | [], _, _ => .ok none
  | ⟨budget, none⟩ :: attempts, cursor, state => do
    let (taken, cursor, complete) := step (budgetRules cmp budget) items cursor
    let state ← taken.foldlM accept state
    if complete then return some (← finish state)
    else retry attempts cursor state
  | ⟨budget, some fault⟩ :: attempts, cursor, state => do
    let (taken, cursor) := attempt (budgetRules cmp budget) items cursor fault
    let state ← taken.foldlM accept state
    retry attempts cursor state

variable {cmp items} [Std.TransCmp cmp]

theorem retry_eq (increasing : Increasing cmp items) {attempts : List Round}
    (positive : ∀ attempt ∈ attempts, 0 < attempt.budget) {total done : List α} {cursor : Cursor α}
    (progress : Progress cmp items total cursor done) {start state : σ}
    (fed : done.foldlM accept start = .ok state) :
    retry cmp accept finish items attempts cursor state = (total.foldlM accept start >>= finish).map some ∨
      retry cmp accept finish items attempts cursor state = .ok none ∧
        done.length + unfailed attempts ≤ total.length := by
  induction attempts generalizing cursor done state with
  | nil =>
    refine .inr ⟨rfl, ?_⟩
    rw [progress.passed, length_append]
    exact Nat.le_add_right _ _
  | cons first attempts ih =>
    obtain ⟨budget, fault⟩ := first
    obtain ⟨some, later⟩ := forall_mem_cons.mp positive
    cases fault with
    | none =>
      have stepped := progress.step increasing budget
      rw [retry]
      generalize step (budgetRules cmp budget) items cursor = result at stepped
      obtain ⟨taken, cursor', complete⟩ := result
      have both : (done ++ taken).foldlM accept start = taken.foldlM accept state := by
        rw [foldlM_append, fed]
        rfl
      dsimp only
      cases complete with
      | true =>
        have whole : total = done ++ taken := stepped.completes rfl
        left
        rw [whole, both]
        cases taken.foldlM accept state with
        | error message => rfl
        | ok state' => cases finished : finish state' <;> simp [bind, Except.bind, finished] <;> rfl
      | false =>
        obtain ⟨filled, progress'⟩ := stepped.yields rfl
        cases next : taken.foldlM accept state with
        | error message =>
          left
          rw [progress'.passed, foldlM_append, both, next]
          rfl
        | ok state' =>
          refine (ih later progress' (both.trans next)).imp_right (.imp_right fun few => ?_)
          have := unfailed_tried budget attempts
          rw [length_append] at few
          dsimp only at some
          omega
    | some fault =>
      have progress' := progress.attempt increasing budget fault
      rw [retry]
      generalize attempt (budgetRules cmp budget) items cursor fault = result at progress'
      obtain ⟨taken, cursor'⟩ := result
      dsimp only at progress' ⊢
      have both : (done ++ taken).foldlM accept start = taken.foldlM accept state := by
        rw [foldlM_append, fed]
        rfl
      cases next : taken.foldlM accept state with
      | error message =>
        left
        rw [progress'.passed, foldlM_append, both, next]
        rfl
      | ok state' =>
        refine (ih later progress' (both.trans next)).imp_right (.imp_right fun few => ?_)
        rw [unfailed_failed]
        rw [length_append] at few
        omega

end Retry

end MergeCursor
