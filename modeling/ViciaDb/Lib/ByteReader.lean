import Mathlib.Data.List.Basic
import Mathlib.Tactic.Ring

namespace ByteReader

open List

abbrev Bytes := List UInt8

section FixedWidth

def leBytes : Nat → Nat → Bytes
  | 0, _ => []
  | width + 1, n => UInt8.ofNat n :: leBytes width (n / 256)

def ofLeBytes : Bytes → Nat
  | [] => 0
  | b :: bs => b.toNat + 256 * ofLeBytes bs

@[simp] theorem length_leBytes (width n : Nat) : (leBytes width n).length = width := by
  induction width generalizing n with
  | zero => rfl
  | succ width ih => simp [leBytes, ih]

theorem ofLeBytes_leBytes (width n : Nat) (bound : n < 256 ^ width) :
    ofLeBytes (leBytes width n) = n := by
  induction width generalizing n with
  | zero => simp only [Nat.pow_zero] at bound; simp [leBytes, ofLeBytes]; omega
  | succ width ih =>
    have quotient : n / 256 < 256 ^ width := by
      rw [Nat.pow_succ] at bound
      exact Nat.div_lt_of_lt_mul (by rw [Nat.mul_comm]; exact bound)
    simp only [leBytes, ofLeBytes, ih _ quotient, UInt8.toNat_ofNat']
    omega

end FixedWidth

section Readers

abbrev Reader (α : Type) := StateT Bytes Option α

variable {α β : Type}

def readExact (count : Nat) : Reader Bytes :=
  fun bs => if bs.length < count then none else some (bs.take count, bs.drop count)

def Stable (r : Reader α) : Prop :=
  ∀ bs a rest more, r bs = some (a, rest) → r (bs ++ more) = some (a, rest ++ more)

variable {r : Reader α} {f : α → Reader β} {a : α} {front back : Bytes}

theorem readExact_append (used more : Bytes) :
    readExact used.length (used ++ more) = some (used, more) := by
  simp [readExact]

theorem readExact_leBytes (width n : Nat) (more : Bytes) :
    readExact width (leBytes width n ++ more) = some (leBytes width n, more) := by
  have used := readExact_append (leBytes width n) more
  rwa [length_leBytes] at used

theorem bind_eq_some (r : Reader α) (f : α → Reader β) (bs : Bytes) (result : β × Bytes) :
    (r >>= f) bs = some result ↔ ∃ a rest, r bs = some (a, rest) ∧ f a rest = some result := by
  change (r bs).bind (fun p => f p.1 p.2) = some result ↔ _
  rw [Option.bind_eq_some_iff]
  constructor
  · rintro ⟨⟨a, rest⟩, first, second⟩
    exact ⟨a, rest, first, second⟩
  · rintro ⟨a, rest, first, second⟩
    exact ⟨(a, rest), first, second⟩

theorem bind_of_some {bs rest : Bytes} (first : r bs = some (a, rest)) :
    (r >>= f) bs = f a rest := by
  change (r bs).bind (fun p => f p.1 p.2) = _
  rw [first]
  rfl

theorem stable_readExact (count : Nat) : Stable (readExact count) := by
  intro bs a rest more read
  by_cases short : bs.length < count
  · simp [readExact, short] at read
  simp only [readExact, short, ↓reduceIte, Option.some.injEq, Prod.mk.injEq] at read
  obtain ⟨rfl, rfl⟩ := read
  have enough : count ≤ bs.length := Nat.le_of_not_lt short
  have noShort : ¬ (bs ++ more).length < count := by rw [length_append]; omega
  simp only [readExact, noShort, ↓reduceIte, take_append_of_le_length enough, drop_append_of_le_length enough]

theorem stable_pure (a : α) : Stable (pure a : Reader α) := by
  intro bs b rest more read
  cases read
  rfl

theorem stable_failure : Stable (failure : Reader α) := by
  intro bs b rest more read
  cases read

theorem Stable.bind (first : Stable r) (second : ∀ a, Stable (f a)) : Stable (r >>= f) := by
  intro bs b rest more read
  obtain ⟨a, middle, hr, hf⟩ := (bind_eq_some r f bs (b, rest)).mp read
  exact (bind_eq_some r f _ _).mpr
    ⟨a, middle ++ more, first bs a middle more hr, second a middle b rest more hf⟩

theorem Stable.truncated (stable : Stable r) (whole : r (front ++ back) = some (a, [])) (cut : back ≠ []) :
    r front = none := by
  cases read : r front with
  | none => rfl
  | some result =>
    obtain ⟨b, rest⟩ := result
    have extended := stable front b rest back read
    rw [whole] at extended
    simp only [Option.some.injEq, Prod.mk.injEq, nil_eq, append_eq_nil_iff] at extended
    exact absurd extended.2.2 cut

theorem Stable.front_none (stable : Stable r) (whole : r (front ++ back) = none) :
    r front = none := by
  cases read : r front with
  | none => rfl
  | some result =>
    rw [stable front result.1 result.2 back read] at whole
    cases whole

end Readers

section Streams

variable {α : Type}

def readMany (r : Reader α) : Nat → Bytes → List α × Bytes
  | 0, bs => ([], bs)
  | fuel + 1, bs =>
    match r bs with
    | none => ([], bs)
    | some (a, rest) => (a :: (readMany r fuel rest).1, (readMany r fuel rest).2)

def readAll (r : Reader α) (bs : Bytes) : List α × Bytes := readMany r (bs.length + 1) bs

def encodeAll (enc : α → Bytes) (as : List α) : Bytes := (as.map enc).flatten

variable {r : Reader α} {enc : α → Bytes}

@[simp] theorem encodeAll_nil : encodeAll enc [] = [] := rfl

@[simp] theorem encodeAll_cons (a : α) (as : List α) :
    encodeAll enc (a :: as) = enc a ++ encodeAll enc as := rfl

@[simp] theorem encodeAll_append (as bs : List α) :
    encodeAll enc (as ++ bs) = encodeAll enc as ++ encodeAll enc bs := by
  simp [encodeAll]

def Reads (r : Reader α) (enc : α → Bytes) (as : List α) : Prop :=
  ∀ a ∈ as, enc a ≠ [] ∧ ∀ more, r (enc a ++ more) = some (a, more)

theorem Reads.head {a : α} {as : List α} (reads : Reads r enc (a :: as)) :
    enc a ≠ [] ∧ ∀ more, r (enc a ++ more) = some (a, more) := reads a (by simp)

theorem Reads.tail {a : α} {as : List α} (reads : Reads r enc (a :: as)) : Reads r enc as :=
  fun b member => reads b (mem_cons_of_mem _ member)

theorem Reads.append {as bs : List α} (left : Reads r enc as) (right : Reads r enc bs) :
    Reads r enc (as ++ bs) := by
  intro a member
  rcases mem_append.mp member with member | member
  · exact left a member
  · exact right a member

theorem readMany_encodeAll (fuel : Nat) (as : List α) (tail : Bytes) (reads : Reads r enc as)
    (stop : r tail = none) (enough : as.length < fuel) :
    readMany r fuel (encodeAll enc as ++ tail) = (as, tail) := by
  induction as generalizing fuel with
  | nil =>
    obtain ⟨fuel, rfl⟩ : ∃ n, fuel = n + 1 := ⟨fuel - 1, by simp at enough; omega⟩
    simp [readMany, stop]
  | cons a as ih =>
    obtain ⟨fuel, rfl⟩ : ∃ n, fuel = n + 1 := ⟨fuel - 1, by simp at enough; omega⟩
    have rest := ih fuel reads.tail (by simpa using enough)
    rw [encodeAll_cons, append_assoc, readMany, reads.head.2]
    simp only [rest]

theorem length_le_encodeAll (as : List α) (reads : Reads r enc as) :
    as.length ≤ (encodeAll enc as).length := by
  induction as with
  | nil => simp
  | cons a as ih =>
    have here := length_pos_of_ne_nil reads.head.1
    have rest := ih reads.tail
    simp only [encodeAll_cons, length_append, length_cons]
    omega

theorem readAll_encodeAll (as : List α) (tail : Bytes) (reads : Reads r enc as) (stop : r tail = none) :
    readAll r (encodeAll enc as ++ tail) = (as, tail) := by
  apply readMany_encodeAll _ _ _ reads stop
  have enough := length_le_encodeAll as reads
  rw [length_append]
  omega

theorem encodeAll_take (stable : Stable r) (as : List α) (tail : Bytes) (reads : Reads r enc as)
    (stop : r tail = none) (cut : Nat) :
    ∃ kept lost front, as = kept ++ lost ∧
      (encodeAll enc as ++ tail).take cut = encodeAll enc kept ++ front ∧ r front = none ∧
      ∀ first second, as = first ++ second → (encodeAll enc first).length ≤ cut →
        first <+: kept := by
  induction as generalizing cut with
  | nil =>
    refine ⟨[], [], tail.take cut, rfl, by simp, ?_, ?_⟩
    · exact stable.front_none (by rw [take_append_drop]; exact stop)
    · intro first second split _
      simp only [nil_eq, append_eq_nil_iff] at split
      simp [split.1]
  | cons a as ih =>
    by_cases inside : cut < (enc a).length
    · -- the cut falls inside the first record, so nothing before it is complete
      have part : (encodeAll enc (a :: as) ++ tail).take cut = (enc a).take cut := by
        rw [encodeAll_cons, append_assoc, take_append_of_le_length (by omega)]
      refine ⟨[], a :: as, (enc a).take cut, rfl, part, ?_, ?_⟩
      · have whole : r ((enc a).take cut ++ (enc a).drop cut) = some (a, []) := by
          simpa using reads.head.2 []
        apply stable.truncated whole
        simp only [ne_eq, drop_eq_nil_iff]
        omega
      · intro first second split small
        cases first with
        | nil => simp
        | cons b first =>
          simp only [cons_append, List.cons.injEq] at split
          obtain ⟨rfl, rfl⟩ := split
          simp only [encodeAll_cons, length_append] at small
          omega
    · obtain ⟨kept, lost, front, split, bytes, unreadable, complete⟩ :=
        ih reads.tail (cut - (enc a).length)
      refine ⟨a :: kept, lost, front, by rw [split]; rfl, ?_, unreadable, ?_⟩
      · rw [encodeAll_cons, append_assoc, take_append, encodeAll_cons,
          append_assoc, ← bytes, take_of_length_le (by omega)]
      intro first second split' small
      cases first with
      | nil => simp
      | cons b first =>
        simp only [cons_append, List.cons.injEq] at split'
        obtain ⟨rfl, split'⟩ := split'
        simp only [encodeAll_cons, length_append] at small
        have within := complete first second split' (by omega)
        exact (prefix_cons_inj a).mpr within

end Streams

end ByteReader
