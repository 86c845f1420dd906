import Mathlib.Data.List.Forall2
import Mathlib.Data.List.Perm.Basic

variable {ε β : Type} {e : ε}

theorem Except.bind_eq_ok_iff {α : Type} {x : Except ε α} {f : α → Except ε β} {b : β} :
    (x >>= f) = .ok b ↔ ∃ a, x = .ok a ∧ f a = .ok b := by
  cases x with
  | error e | ok a => simp [bind, Except.bind]

def Except.ensure {ε : Type} (p : Prop) [Decidable p] (e : ε) : Except ε Unit :=
  if p then .ok () else .error e

theorem Except.bind_eq_error_iff {α : Type} {x : Except ε α} {f : α → Except ε β} :
    (x >>= f) = .error e ↔ x = .error e ∨ ∃ a, x = .ok a ∧ f a = .error e := by
  cases x with
  | error message | ok a => simp [bind, Except.bind]

@[simp] theorem Except.ensure_eq_ok_iff {p : Prop} [Decidable p] {u : Unit} :
    Except.ensure p e = .ok u ↔ p := by
  unfold Except.ensure
  split <;> simp [*]

theorem Except.eq_ok_of_map_eq {α : Type} {x y : Except ε α} {f : α → β} {a : α} (same : x.map f = y.map f)
    (ok : x = .ok a) : ∃ b, y = .ok b ∧ f a = f b := by
  subst ok
  cases y with
  | error => cases same
  | ok b => exact ⟨b, rfl, Except.ok.inj same⟩

theorem Except.of_mapError {f : ε → ε} {x : Except ε β} {b : β} (ok : x.mapError f = .ok b) :
    x = .ok b := by
  cases x with
  | error => cases ok
  | ok => exact ok

theorem Except.ensure_bind_eq_ok_iff {p : Prop} [Decidable p] {f : Unit → Except ε β} {b : β} :
    (Except.ensure p e >>= f) = .ok b ↔ p ∧ f () = .ok b := by
  unfold Except.ensure
  split <;> simp [*, bind, Except.bind]

namespace List

variable {ε α β : Type}

variable {f : α → Except ε β} {xs : List α} {ys : List β}

theorem mapM_ok_of_forall {g : α → β} (all : ∀ x ∈ xs, f x = .ok (g x)) :
    xs.mapM f = .ok (xs.map g) := by
  induction xs with
  | nil => rfl
  | cons x xs ih =>
    rw [mapM_cons, all x (by simp), ih fun y member => all y (by simp [member])]
    rfl

theorem mapM_ok_of_exists (all : ∀ x ∈ xs, ∃ y, f x = .ok y) : ∃ ys, xs.mapM f = .ok ys := by
  induction xs with
  | nil => exact ⟨[], rfl⟩
  | cons x xs ih =>
    obtain ⟨y, first⟩ := all x (by simp)
    obtain ⟨ys, rest⟩ := ih fun x member => all x (by simp [member])
    exact ⟨y :: ys, by rw [mapM_cons, first, rest]; rfl⟩

theorem mapM_except_eq_ok_iff : xs.mapM f = .ok ys ↔ Forall₂ (fun x y => f x = .ok y) xs ys := by
  induction xs generalizing ys with
  | nil =>
    simp only [mapM_nil, pure, Except.pure, Except.ok.injEq, forall₂_nil_left_iff]
    exact eq_comm
  | cons x xs ih =>
    simp only [mapM_cons, Except.bind_eq_ok_iff, ih, forall₂_cons_left_iff]
    constructor
    · rintro ⟨y, first, ys, rest, ⟨⟩⟩
      exact ⟨y, ys, first, rest, rfl⟩
    · rintro ⟨y, ys, first, rest, rfl⟩
      exact ⟨y, first, ys, rest, rfl⟩

theorem Forall₂.exists_right {R : α → β → Prop} (all : Forall₂ R xs ys) {x : α} (member : x ∈ xs) :
    ∃ y ∈ ys, R x y := by
  induction all with
  | nil => cases member
  | cons first _ ih =>
    rcases mem_cons.mp member with rfl | member
    · exact ⟨_, by simp, first⟩
    · obtain ⟨y, inTail, found⟩ := ih member
      exact ⟨y, by simp [inTail], found⟩

theorem mapM_ok_congr {α' : Type} {g : α' → Except ε β} {xs' : List α'} {ys' : List β}
    (agree : Forall₂ (fun x x' => ∀ y y', f x = .ok y → g x' = .ok y' → y = y') xs xs')
    (mapped : xs.mapM f = .ok ys) (mapped' : xs'.mapM g = .ok ys') : ys = ys' := by
  induction agree generalizing ys ys' with
  | nil =>
    cases mapped
    cases mapped'
    rfl
  | cons first _ ih =>
    rw [mapM_except_eq_ok_iff] at mapped mapped'
    cases mapped with
    | cons head tail =>
      cases mapped' with
      | cons head' tail' =>
        rw [first _ _ head head', ih (mapM_except_eq_ok_iff.mpr tail) (mapM_except_eq_ok_iff.mpr tail')]

theorem mapM_range_ok {f : Nat → Except ε β} (each : ∀ i y, ys[i]? = some y → f i = .ok y) :
    (range ys.length).mapM f = .ok ys := by
  rw [mapM_except_eq_ok_iff, forall₂_iff_get]
  refine ⟨length_range, fun i left right => ?_⟩
  rw [get_eq_getElem, getElem_range]
  exact each i _ (List.getElem?_eq_getElem right)

theorem mem_of_mapM_ok (mapped : xs.mapM f = .ok ys) {y : β} (member : y ∈ ys) :
    ∃ x ∈ xs, f x = .ok y :=
  (mapM_except_eq_ok_iff.mp mapped).flip.exists_right member

theorem exists_of_mapM_ok (mapped : xs.mapM f = .ok ys) {x : α} (member : x ∈ xs) :
    ∃ y ∈ ys, f x = .ok y :=
  (mapM_except_eq_ok_iff.mp mapped).exists_right member

theorem foldlM_ok_perm {step : β → α → Except ε β} {Reached : β → Prop} {Fed : α → Prop}
    (keeps : ∀ b x b', Reached b → Fed x → step b x = .ok b' → Reached b')
    (commute : ∀ b x y b' b'', Reached b → Fed x → Fed y → step b x = .ok b' → step b' y = .ok b'' →
      ∃ c, step b y = .ok c ∧ step c x = .ok b'') {ys : List α} (same : xs.Perm ys) (fed : ∀ x ∈ xs, Fed x)
    {b b' : β} (reached : Reached b) (folded : xs.foldlM step b = .ok b') : ys.foldlM step b = .ok b' := by
  induction same generalizing b with
  | nil => exact folded
  | cons x _ ih =>
    rw [foldlM_cons, Except.bind_eq_ok_iff] at folded ⊢
    obtain ⟨c, first, rest⟩ := folded
    exact ⟨c, first, ih (fun y member => fed y (by simp [member]))
      (keeps b x c reached (fed x (by simp)) first) rest⟩
  | swap x y l =>
    simp only [foldlM_cons, Except.bind_eq_ok_iff] at folded ⊢
    obtain ⟨c, first, d, second, rest⟩ := folded
    obtain ⟨c', first', second'⟩ :=
      commute b y x c d reached (fed y (by simp)) (fed x (by simp)) first second
    exact ⟨c', first', d, second', rest⟩
  | trans left _ ihLeft ihRight =>
    exact ihRight (fun x member => fed x (left.mem_iff.mpr member)) reached (ihLeft fed reached folded)

end List
