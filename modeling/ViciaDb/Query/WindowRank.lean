import ViciaDb.Lib.ExceptList
import ViciaDb.Query.Aggregation

namespace ViciaDb

open List

variable (ext : Externals)

def orderKey (spec : WindowSpec) (row : Bindings) : Value :=
  (row.lookup (.var spec.orderBy)).getD .null

def windowCmp (order : Order) (a b : Value) : Ordering :=
  match order with
  | .asc => valueCmp ext a b
  | .desc => (valueCmp ext a b).swap

def precedes (spec : WindowSpec) (row other : Bindings) : Bool :=
  samePartition spec.partitionBy other row &&
    (windowCmp ext spec.order (orderKey spec other) (orderKey spec row)).isLT

/-- On these keys the comparison is transitive. It is antisymmetric on all keys, so this is the total
    preorder that the sort demands of it. -/
def Sortable (order : Order) (keys : List Value) : Prop :=
  ∀ a ∈ keys, ∀ b ∈ keys, ∀ c ∈ keys, (windowCmp ext order a b).isLE = true →
    (windowCmp ext order b c).isLE = true → (windowCmp ext order a c).isLE = true

/-- The comparison ties only keys that are equal, the keys of different rows being meant. -/
def TiesEqual (order : Order) (keys : List Value) : Prop :=
  keys.Pairwise fun a b => windowCmp ext order a b = .eq → a.eq b = true

/-- The order keys of a row's partition. A NaN as partition key puts each row into its own. -/
def partitionKeys (spec : WindowSpec) (rows : List Bindings) (row : Bindings) : List Value :=
  (if samePartition spec.partitionBy row row then
    rows.filter fun other => samePartition spec.partitionBy other row
  else [row]).map (orderKey spec)

def keysBefore (order : Order) (keys : List Value) (key : Value) : Nat :=
  keys.countP fun other => (windowCmp ext order other key).isLT

variable {ext} {order : Order} {keys : List Value}

theorem partialCmp_swap (f g : F64) : (g.partialCmp f).getD .eq = ((f.partialCmp g).getD .eq).swap := by
  simp only [F64.partialCmp, Bool.or_comm g.isNan]
  split
  · rfl
  · exact (Int.compare_swap f.rank g.rank).symm

theorem windowCmp_swap (a b : Value) : windowCmp ext order b a = (windowCmp ext order a b).swap := by
  have swapped : valueCmp ext b a = (valueCmp ext a b).swap := by
    unfold valueCmp
    cases a <;> cases b <;> first
      | rfl
      | exact partialCmp_swap _ _
      | exact Std.OrientedOrd.eq_swap
  cases order with
  | asc => exact swapped
  | desc => exact congrArg Ordering.swap swapped

theorem windowCmp_self (a : Value) : windowCmp ext order a a = .eq := by
  have same : windowCmp ext order a a = (windowCmp ext order a a).swap := windowCmp_swap a a
  revert same
  cases windowCmp ext order a a <;> decide

theorem windowCmp_of_eq {a b : Value} (same : a.eq b = true) : windowCmp ext order a b = .eq := by
  have tied : valueCmp ext a b = .eq := by
    cases a <;> cases b <;> simp_all [Value.eq, valueCmp, F64.eq, F64.partialCmp, compareStrings]
  cases order with
  | asc => exact tied
  | desc => exact congrArg Ordering.swap tied

theorem Value.eq_symm {a b : Value} (same : a.eq b = true) : b.eq a = true := by
  cases a <;> cases b <;> simp_all [Value.eq, F64.eq]

theorem Value.eq_right {a b c : Value} (left : a.eq b = true) (right : a.eq c = true) :
    b.eq c = true := by
  cases a <;> cases b <;> cases c <;> simp_all [Value.eq, F64.eq]

theorem pairwise_insertionSort_of_count {α : Type} {r : α → α → Prop} [DecidableRel r]
    (count : α → Nat) {l : List α} (agree : ∀ a ∈ l, ∀ b ∈ l, r a b ↔ count a ≤ count b) :
    (l.insertionSort r).Pairwise fun a b => count a ≤ count b := by
  have same := map_insertionSort r (fun a b => count a ≤ count b) id l agree
  rw [map_id, map_id] at same
  have : Std.Total fun a b : α => count a ≤ count b := ⟨fun _ _ => Nat.le_total _ _⟩
  have : IsTrans α fun a b => count a ≤ count b := ⟨fun _ _ _ => Nat.le_trans⟩
  rw [same]
  exact pairwise_insertionSort _ _

theorem ranks_of_sorted {count : Value → Nat} {full : List Value}
    (sorted : full.Pairwise fun a b => count a ≤ count b)
    (ties : full.Pairwise fun a b => a.eq b = true ↔ count a = count b)
    (counts : ∀ key ∈ full, count key = full.countP fun other => count other < count key)
    (rest : List Value) : ∀ (done : List Value) (previous : Option Value) (rank : Nat),
      done ++ rest = full → (previous = none → done = []) →
      (∀ p ∈ previous, p ∈ done ∧ rank = 1 + count p ∧ ∀ x ∈ done, count x ≤ count p) →
      ranks previous rank (1 + done.length) rest =
        rest.map fun key => .integer (Int64.ofNat (1 + count key)) := by
  induction rest with
  | nil => intros; rfl
  | cons key rest ih =>
    intro done previous rank split start before
    obtain ⟨-, sortedRest, across⟩ := pairwise_append.mp (split ▸ sorted)
    obtain ⟨-, -, tiesAcross⟩ := pairwise_append.mp (split ▸ ties)
    obtain ⟨above, -⟩ := pairwise_cons.mp sortedRest
    have inFull : ∀ x ∈ done ++ [key], x ∈ full := by
      intro x
      simp only [← split, mem_append, mem_cons, not_mem_nil]
      tauto
    have onward : ∀ p ∈ done ++ [key], count p = count key →
        ranks (some p) (1 + count key) (1 + done.length + 1) rest =
          rest.map fun key => .integer (Int64.ofNat (1 + count key)) := by
      intro p inP same
      have next := ih (done ++ [key]) (some p) (1 + count key) (by simp [split]) (by simp)
      rw [length_append, length_singleton, ← Nat.add_assoc] at next
      refine next ?_
      rintro _ ⟨⟩
      refine ⟨inP, by rw [same], fun x member => same ▸ ?_⟩
      rcases mem_append.mp member with member | member
      · exact across x member key mem_cons_self
      · rw [mem_singleton.mp member]
    rw [ranks, map_cons]
    split
    case isTrue tied =>
      obtain ⟨p, rfl, equal⟩ := (Option.any_eq_true _ _).mp tied
      obtain ⟨inP, isRank, -⟩ := before p rfl
      have same := (tiesAcross p inP key mem_cons_self).mp equal
      rw [isRank, same, onward p (mem_append_left [key] inP) same]
    case isFalse apart =>
      have less : ∀ x ∈ done, count x < count key := by
        intro x member
        cases previous with
        | none => rw [start rfl] at member; cases member
        | some p =>
          obtain ⟨inP, -, below⟩ := before p rfl
          have le := across p inP key mem_cons_self
          have ne := mt (tiesAcross p inP key mem_cons_self).mpr apart
          have := below x member
          omega
      have least : (key :: rest).countP (fun other => count other < count key) = 0 := by
        refine countP_eq_zero.mpr (forall_mem_cons.mpr ⟨by simp, fun x member => ?_⟩)
        simpa using above x member
      have place : count key = done.length := by
        rw [counts key (inFull key (by simp)), ← split, countP_append, least, Nat.add_zero]
        exact countP_eq_length.mpr fun x member => by simpa using less x member
      rw [← place] at onward ⊢
      rw [onward key (by simp) rfl]

theorem TiesEqual.perm {keys' : List Value} (ties : TiesEqual ext order keys) (same : keys.Perm keys') :
    TiesEqual ext order keys' := by
  refine (same.pairwise_iff fun {a b} onward back => ?_).mp ties
  refine Value.eq_symm (onward ?_)
  rw [windowCmp_swap b a, back]
  rfl

section

variable (sortable : Sortable ext order keys)
include sortable

theorem Sortable.of_subset {keys' : List Value} (sub : keys' ⊆ keys) : Sortable ext order keys' :=
  fun a inA b inB c inC => sortable a (sub inA) b (sub inB) c (sub inC)

theorem Sortable.keysBefore_lt_iff {a b : Value} (inA : a ∈ keys) (inB : b ∈ keys) :
    keysBefore ext order keys a < keysBefore ext order keys b ↔
      (windowCmp ext order a b).isLT = true := by
  have isLT_iff : ∀ a b, (windowCmp ext order a b).isLT = true ↔ ¬(windowCmp ext order b a).isLE = true := by
    intro a b
    rw [windowCmp_swap a b]
    cases windowCmp ext order a b <;> simp
  have mono : ∀ a ∈ keys, ∀ b ∈ keys, (windowCmp ext order a b).isLE = true → ∀ x ∈ keys,
      (windowCmp ext order x a).isLT = true → (windowCmp ext order x b).isLT = true := by
    intro a inA b inB le x inX less
    rw [isLT_iff]
    rw [isLT_iff] at less
    exact fun back => less (sortable a inA b inB x inX le back)
  constructor
  · rw [isLT_iff]
    exact fun less le => absurd (countP_mono_left (mono b inB a inA le)) (Nat.not_le.mpr less)
  · intro less
    have self : ¬(windowCmp ext order a a).isLT = true := by
      rw [windowCmp_self]
      decide
    have more := mono a inA b inB (Ordering.isLE_of_eq_lt (Ordering.isLT_iff_eq_lt.mp less))
    obtain ⟨front, back, split⟩ := append_of_mem inA
    simp only [keysBefore, split, countP_append, countP_cons, self, less, if_true]
    rw [split] at more
    have := countP_mono_left fun x member => more x (mem_append_left _ member)
    have := countP_mono_left fun x member => more x (mem_append_right _ (mem_cons_of_mem _ member))
    simp only [Bool.false_eq_true, if_false]
    omega

theorem Sortable.isLE_iff {a b : Value} (inA : a ∈ keys) (inB : b ∈ keys) :
    (windowCmp ext order a b).isLE = true ↔
      keysBefore ext order keys a ≤ keysBefore ext order keys b := by
  rw [← Nat.not_lt, sortable.keysBefore_lt_iff inB inA, windowCmp_swap a b]
  cases windowCmp ext order a b <;> simp

theorem Sortable.ranks_eq (ties : TiesEqual ext order keys) {l : List Value} (perm : l.Perm keys)
    (sorted : l.Pairwise fun a b => keysBefore ext order keys a ≤ keysBefore ext order keys b) :
    ranks none 1 1 l =
      l.map fun key => .integer (Int64.ofNat (1 + keysBefore ext order keys key)) := by
  refine ranks_of_sorted sorted ((ties.perm perm.symm).imp_of_mem fun {a b} inA inB onlyEqual => ?_)
    (fun key member => ?_) l [] none 1 rfl (fun _ => rfl) nofun
  · have inA := perm.subset inA
    have inB := perm.subset inB
    rw [Iff.intro windowCmp_of_eq onlyEqual, Nat.le_antisymm_iff, ← sortable.isLE_iff inA inB,
      ← sortable.isLE_iff inB inA, windowCmp_swap a b]
    cases windowCmp ext order a b <;> simp
  · rw [perm.countP_eq]
    refine countP_congr fun other inKeys => ?_
    rw [decide_eq_true_eq, sortable.keysBefore_lt_iff inKeys (perm.subset member)]

end

section Window

variable {spec : WindowSpec} {rows : List Bindings} {row : Bindings} {place : Nat}

def keyedPartition (spec : WindowSpec) (rows : List (Bindings × Nat)) (row : Bindings × Nat) :
    List (Value × Bindings × Nat) :=
  (rows.filter fun other => other.2 == row.2 || samePartition spec.partitionBy other.1 row.1).map
    fun other => (orderKey spec other.1, other)

def rankAt (ext : Externals) (spec : WindowSpec) (rows : List Bindings) (row : Bindings × Nat) :
    Option ((Value × Bindings × Nat) × Value) :=
  let keyed := sortedPartition ext spec rows.zipIdx row
  (keyed.zip (ranks none 1 1 (keyed.map Prod.fst))).find? fun pair => pair.1.2.2 == row.2

theorem applyWindow_rank (functions : FunctionRegistry) (index : Nat) (ranked : spec.func = .rank) :
    applyWindow ext functions spec index rows = .ok (rows.zipIdx.map fun row =>
      match rankAt ext spec rows row with
      | some (_, value) => row.1.insert (.win index) value
      | none => row.1) := by
  refine mapM_ok_of_forall fun row _ => ?_
  simp only [windowValues, ranked, map_map, Bind.bind, Except.bind]
  rfl

theorem mem_keyedPartition {entry : Value × Bindings × Nat} :
    entry ∈ keyedPartition spec rows.zipIdx (row, place) ↔ entry.1 = orderKey spec entry.2.1 ∧
      rows[entry.2.2]? = some entry.2.1 ∧
      (entry.2.2 = place ∨ samePartition spec.partitionBy entry.2.1 row = true) := by
  obtain ⟨key, other, place'⟩ := entry
  simp only [keyedPartition, mem_map, mem_filter, Prod.exists, Prod.mk.injEq, mk_mem_zipIdx_iff_getElem?,
    Bool.or_eq_true, beq_iff_eq]
  constructor
  · rintro ⟨_, _, ⟨found, same⟩, rfl, rfl, rfl⟩
    exact ⟨rfl, found, same⟩
  · rintro ⟨rfl, found, same⟩
    exact ⟨_, _, ⟨found, same⟩, rfl, rfl, rfl⟩

theorem samePartition_left {column : Option String} {x y row : Bindings}
    (first : samePartition column x row = true) (second : samePartition column y row = true) :
    samePartition column x y = true := by
  unfold samePartition at first second ⊢
  dsimp only at first second ⊢
  generalize column.bind (fun name => x.lookup (.var name)) = keyX at first ⊢
  generalize column.bind (fun name => y.lookup (.var name)) = keyY at second ⊢
  generalize column.bind (fun name => row.lookup (.var name)) = key at first second
  cases keyX <;> cases keyY <;> cases key <;> try contradiction
  · rfl
  · rw [Value.eq_of_hashEq second]
    exact first

theorem samePartition_self {column : Option String} {other row : Bindings}
    (same : samePartition column other row = true) : samePartition column row row = true := by
  unfold samePartition at same ⊢
  dsimp only at same ⊢
  generalize column.bind (fun name => other.lookup (.var name)) = key at same
  generalize column.bind (fun name => row.lookup (.var name)) = key' at same ⊢
  cases key <;> cases key' <;> try contradiction
  · rfl
  · dsimp only at same ⊢
    rw [Value.eq_of_hashEq same] at same
    exact same

theorem filter_zipIdx_place {here : Nat} (found : rows[here]? = some row) (start : Nat) :
    (rows.zipIdx start).filter (fun other => other.2 == here + start) = [(row, here + start)] := by
  induction rows generalizing here start with
  | nil => cases found
  | cons first rows ih =>
    rw [zipIdx_cons]
    cases here with
    | zero =>
      obtain rfl : first = row := by simpa using found
      rw [filter_cons_of_pos (by simp), filter_eq_nil_iff.mpr, Nat.zero_add]
      intro other member
      have later := (mk_mem_zipIdx_iff_le_and_getElem?_sub.mp member).1
      simp only [beq_iff_eq]
      omega
    | succ here =>
      rw [filter_cons_of_neg (by simp)]
      have rest := @ih here (by simpa using found) (start + 1)
      rw [← Nat.add_assoc, Nat.add_right_comm] at rest
      exact rest

theorem keys_keyedPartition (here : rows[place]? = some row) :
    (keyedPartition spec rows.zipIdx (row, place)).map Prod.fst = partitionKeys spec rows row := by
  rw [keyedPartition, partitionKeys, map_map]
  split
  case isTrue whole =>
    have members : rows.zipIdx.filter (fun other => other.2 == place ||
        samePartition spec.partitionBy other.1 row) =
        rows.zipIdx.filter ((fun other => samePartition spec.partitionBy other row) ∘ Prod.fst) := by
      refine filter_congr fun other member => ?_
      have found := mk_mem_zipIdx_iff_getElem?.mp member
      by_cases same : other.2 = place
      · rw [same, here] at found
        cases found
        simp [whole]
      · simp [same]
    rw [members]
    conv_rhs => rw [← zipIdx_map_fst 0 rows, filter_map, map_map]
    rfl
  case isFalse alone =>
    have members : rows.zipIdx.filter (fun other => other.2 == place ||
        samePartition spec.partitionBy other.1 row) =
        rows.zipIdx.filter (fun other => other.2 == place + 0) := by
      refine filter_congr fun other _ => ?_
      have apart : samePartition spec.partitionBy other.1 row = false := by
        rw [← Bool.not_eq_true]
        exact fun same => alone (samePartition_self same)
      rw [apart, Bool.or_false, Nat.add_zero]
    rw [members, filter_zipIdx_place here]
    rfl

theorem countP_keyedPartition (here : rows[place]? = some row) :
    keysBefore ext spec.order ((keyedPartition spec rows.zipIdx (row, place)).map Prod.fst)
      (orderKey spec row) = rows.countP (precedes ext spec row) := by
  conv_rhs => rw [← zipIdx_map_fst 0 rows, countP_map]
  rw [keysBefore, countP_map, keyedPartition, countP_map, countP_filter]
  refine countP_congr fun other member => ?_
  have found := mk_mem_zipIdx_iff_getElem?.mp member
  by_cases same : other.2 = place
  · rw [same, here] at found
    cases found
    simp [precedes, windowCmp_self]
  · simp [precedes, same, and_comm]

theorem rank_value (here : rows[place]? = some row)
    (sortable : Sortable ext spec.order (partitionKeys spec rows row))
    (ties : TiesEqual ext spec.order (partitionKeys spec rows row)) :
    rankAt ext spec rows (row, place) = some ((orderKey spec row, row, place),
      .integer (Int64.ofNat (1 + rows.countP (precedes ext spec row)))) := by
  let keyed := sortedPartition ext spec rows.zipIdx (row, place)
  change (keyed.zip (ranks none 1 1 (keyed.map Prod.fst))).find? (fun pair => pair.1.2.2 == place) = _
  rw [← keys_keyedPartition here] at sortable ties
  have perm : keyed.Perm (keyedPartition spec rows.zipIdx (row, place)) := perm_insertionSort _ _
  have numbered := sortable.ranks_eq ties (perm.map Prod.fst) (pairwise_map.mpr
    (pairwise_insertionSort_of_count _ fun a inA b inB =>
      sortable.isLE_iff (mem_map_of_mem inA) (mem_map_of_mem inB)))
  have found : keyed.find? (·.2.2 == place) = some (orderKey spec row, row, place) := by
    cases hit : keyed.find? (·.2.2 == place) with
    | none =>
      have inside : (orderKey spec row, row, place) ∈ keyedPartition spec rows.zipIdx (row, place) :=
        mem_keyedPartition.mpr ⟨rfl, here, .inl rfl⟩
      exact absurd (beq_self_eq_true _) (find?_eq_none.mp hit _ (perm.mem_iff.mpr inside))
    | some other =>
      obtain ⟨key, other, place'⟩ := other
      obtain ⟨isKey, found, -⟩ := mem_keyedPartition.mp (perm.mem_iff.mp (mem_of_find?_eq_some hit))
      obtain rfl : place' = place := by simpa using find?_some hit
      cases here.symm.trans found
      exact congrArg (fun key => some (key, _, _)) isKey
  rw [numbered, map_map]
  nth_rewrite 1 [← map_id keyed]
  rw [zip_map', find?_map]
  change Option.map _ (keyed.find? (·.2.2 == place)) = _
  rw [found, ← countP_keyedPartition here]
  rfl

/-- Behind a key that it is not equal to, a key always begins a new rank. -/
theorem ranks_apart {x y : Value} (apart : x.eq y = false) (back front : List Value) :
    ∀ (previous : Option Value) (rank place : Nat), ∃ before after,
      before.length = front.length + 1 ∧ ranks previous rank place (front ++ x :: y :: back) =
        before ++ .integer (Int64.ofNat (place + front.length + 1)) :: after := by
  induction front with
  | nil =>
    intro previous rank place
    rw [nil_append, ranks]
    split
    case isTrue tied =>
      obtain ⟨p, rfl, equal⟩ := (Option.any_eq_true _ _).mp tied
      have differs : ¬ Option.any (fun other => other.eq y) (some p) = true := by
        intro same
        rw [Value.eq_right equal same] at apart
        cases apart
      rw [ranks, if_neg differs]
      exact ⟨[_], _, rfl, rfl⟩
    case isFalse =>
      have differs : ¬ Option.any (fun other => other.eq y) (some x) = true := by
        rw [Option.any_some, apart]
        decide
      rw [ranks, if_neg differs]
      exact ⟨[_], _, rfl, rfl⟩
  | cons key front ih =>
    intro previous rank place
    have onward : ∀ previous rank first, ∃ before after, before.length = (key :: front).length + 1 ∧
        first :: ranks previous rank (place + 1) (front ++ x :: y :: back) =
          before ++ .integer (Int64.ofNat (place + (key :: front).length + 1)) :: after := by
      intro previous rank first
      obtain ⟨before, after, size, same⟩ := ih previous rank (place + 1)
      refine ⟨first :: before, after, by rw [length_cons, size, length_cons], ?_⟩
      rw [same, length_cons, cons_append, Nat.add_right_comm place 1, Nat.add_assoc place _ 1]
    rw [cons_append, ranks]
    split <;> exact onward _ _ _

/-- The sort is stable, so two tied elements in front come to stand side by side. -/
theorem insertionSort_tied {α : Type} {r : α → α → Prop} [DecidableRel r] (count : α → Nat) {x y : α}
    {l : List α} (agree : ∀ a ∈ x :: y :: l, ∀ b ∈ x :: y :: l, r a b ↔ count a ≤ count b)
    (tied : count x = count y) : ∃ front back, (x :: y :: l).insertionSort r = front ++ x :: y :: back ∧
      (∀ b ∈ front, b ∈ l) ∧ (∀ b ∈ front, count b < count y) ∧ ∀ b ∈ back, count y ≤ count b := by
  let sorted := l.insertionSort r
  have inside : ∀ b ∈ sorted, b ∈ l := fun b member => (mem_insertionSort r).mp member
  let front := sorted.takeWhile fun b => ¬ r y b
  let back := sorted.dropWhile fun b => ¬ r y b
  have fromFront : ∀ b ∈ front, b ∈ l := fun b member => inside b ((takeWhile_sublist _).subset member)
  have less : ∀ b ∈ front, count b < count y := by
    intro b member
    have below : ¬ r y b := by simpa using all_eq_true.mp all_takeWhile b member
    rw [agree y (by simp) b (by simp [fromFront b member])] at below
    omega
  have passes : ∀ b ∈ front, decide (¬ r x b) = true := by
    intro b member
    have := less b member
    rw [decide_eq_true_eq, agree x (by simp) b (by simp [fromFront b member])]
    omega
  have stops : decide (¬ r x y) = false := by
    rw [decide_eq_false_iff_not, not_not, agree x (by simp) y (by simp), tied]
  have same : (x :: y :: l).insertionSort r = front ++ x :: y :: back := by
    rw [insertionSort_cons, insertionSort_cons, orderedInsert_eq_take_drop r y]
    change orderedInsert r x (front ++ y :: back) = _
    rw [orderedInsert_eq_take_drop, takeWhile_append_of_pos passes, dropWhile_append_of_pos passes,
      takeWhile_cons, dropWhile_cons, stops]
    simp
  have ordered := pairwise_insertionSort_of_count count agree
  rw [same] at ordered
  obtain ⟨-, ordered, -⟩ := pairwise_append.mp ordered
  exact ⟨front, back, same, fromFront, less, (pairwise_cons.mp (pairwise_cons.mp ordered).2).1⟩

/-- Two rows in front that tie without being equal: the second one is ranked behind the first. -/
theorem rank_after_tie {x y : Bindings} (together : samePartition spec.partitionBy x y = true)
    (sortable : Sortable ext spec.order (partitionKeys spec (x :: y :: rows) y))
    (tied : windowCmp ext spec.order (orderKey spec x) (orderKey spec y) = .eq)
    (apart : (orderKey spec x).eq (orderKey spec y) = false) :
    rankAt ext spec (x :: y :: rows) (y, 1) = some ((orderKey spec y, y, 1),
      .integer (Int64.ofNat (2 + (x :: y :: rows).countP (precedes ext spec y)))) := by
  let keyed := sortedPartition ext spec (x :: y :: rows).zipIdx (y, 1)
  change (keyed.zip (ranks none 1 1 (keyed.map Prod.fst))).find? (fun pair => pair.1.2.2 == 1) = _
  have here : (x :: y :: rows)[1]? = some y := rfl
  let entries := keyedPartition spec (x :: y :: rows).zipIdx (y, 1)
  let others := ((rows.zipIdx 2).filter fun other =>
    other.2 == 1 || samePartition spec.partitionBy other.1 y).map fun other =>
      (orderKey spec other.1, other)
  have parts : entries = (orderKey spec x, x, 0) :: (orderKey spec y, y, 1) :: others := by
    change keyedPartition spec (x :: y :: rows).zipIdx (y, 1) = _
    rw [keyedPartition, zipIdx_cons, zipIdx_cons, filter_cons_of_pos (by simp [together]),
      filter_cons_of_pos (by simp)]
    rfl
  rw [← keys_keyedPartition here] at sortable
  let before := keysBefore ext spec.order (entries.map Prod.fst)
  have inX : orderKey spec x ∈ entries.map Prod.fst := by simp [parts]
  have inY : orderKey spec y ∈ entries.map Prod.fst := by simp [parts]
  have level : before (orderKey spec x) = before (orderKey spec y) := by
    have low := (sortable.isLE_iff inX inY).mp (by rw [tied]; rfl)
    have high := (sortable.isLE_iff inY inX).mp (by rw [windowCmp_swap, tied]; rfl)
    exact Nat.le_antisymm low high
  obtain ⟨front, back, sorted, fromFront, less, above⟩ := insertionSort_tied
    (r := fun a b => (windowCmp ext spec.order a.1 b.1).isLE = true) (fun entry => before entry.1)
    (fun a inA b inB => sortable.isLE_iff (mem_map_of_mem (parts ▸ inA : a ∈ entries))
      (mem_map_of_mem (parts ▸ inB : b ∈ entries))) level
  have sorted : keyed = front ++ (orderKey spec x, x, 0) :: (orderKey spec y, y, 1) :: back := by
    rw [← sorted, ← parts]
    rfl
  have perm : keyed.Perm entries := perm_insertionSort _ _
  -- the entries that precede the second row are those in front
  have count : (x :: y :: rows).countP (precedes ext spec y) = front.length := by
    rw [← countP_keyedPartition here]
    change countP _ (entries.map Prod.fst) = _
    rw [← (perm.map Prod.fst).countP_eq, sorted, map_append, countP_append]
    have inKeys : ∀ entry ∈ keyed, entry.1 ∈ entries.map Prod.fst :=
      fun entry member => mem_map_of_mem (perm.mem_iff.mp member)
    have ahead : (front.map Prod.fst).countP
        (fun other => (windowCmp ext spec.order other (orderKey spec y)).isLT) = front.length := by
      refine Eq.trans (countP_eq_length.mpr fun key member => ?_) (length_map _)
      obtain ⟨entry, inFront, rfl⟩ := mem_map.mp member
      exact (sortable.keysBefore_lt_iff (inKeys entry (by simp [sorted, inFront])) inY).mp
        (less entry inFront)
    have behind : (map Prod.fst ((orderKey spec x, x, 0) :: (orderKey spec y, y, 1) :: back)).countP
        (fun other => (windowCmp ext spec.order other (orderKey spec y)).isLT) = 0 := by
      refine countP_eq_zero.mpr fun key member => ?_
      obtain ⟨entry, inBack, rfl⟩ := mem_map.mp member
      rw [← sortable.keysBefore_lt_iff (inKeys entry (by rw [sorted]; exact mem_append_right _ inBack)) inY]
      rcases mem_cons.mp inBack with rfl | inBack
      · exact (Nat.le_of_eq level.symm).not_gt
      · rcases mem_cons.mp inBack with rfl | inBack
        · exact Nat.lt_irrefl _
        · exact (above entry inBack).not_gt
    rw [ahead, behind, Nat.add_zero]
  obtain ⟨firsts, lasts, size, ranked⟩ := ranks_apart apart (back.map Prod.fst) (front.map Prod.fst) none 1 1
  rw [length_map] at size ranked
  have shape : keyed = (front ++ [(orderKey spec x, x, 0)]) ++ (orderKey spec y, y, 1) :: back := by
    rw [sorted, append_assoc, singleton_append]
  have keys : keyed.map Prod.fst =
      front.map Prod.fst ++ orderKey spec x :: orderKey spec y :: back.map Prod.fst := by
    rw [sorted, map_append, map_cons, map_cons]
  rw [keys, ranked, shape, zip_append (by rw [length_append, length_singleton, size]), find?_append,
    zip_cons_cons, find?_cons_of_pos (by rfl), find?_eq_none.mpr, Option.none_or, count,
    Nat.add_right_comm 1, Nat.add_comm _ 2]
  intro pair member
  have inFront : pair.1 ∈ front ++ [(orderKey spec x, x, 0)] := (of_mem_zip member).1
  rcases mem_append.mp inFront with inFront | isX
  · obtain ⟨other, kept, same⟩ := mem_map.mp (fromFront _ inFront)
    have later := (mk_mem_zipIdx_iff_le_and_getElem?_sub.mp (mem_filter.mp kept).1).1
    rw [← same]
    simp only [beq_iff_eq]
    omega
  · rw [mem_singleton.mp isX]
    exact Bool.false_ne_true

theorem ofNat_succ_ne (n : Nat) : Int64.ofNat (2 + n) ≠ Int64.ofNat (1 + n) := by
  intro same
  have bits := congrArg (fun i : Int64 => i.toBitVec.toNat) same
  simp only [Int64.toBitVec_ofNat', BitVec.toNat_ofNat] at bits
  omega

/-- For every arrangement of the rows the sort is given a total preorder and each rank counts the rows
    that precede, exactly when the comparison ties only rows with equal keys. -/
theorem rank_counts_preceding_iff (ext : Externals) (functions : FunctionRegistry) (spec : WindowSpec)
    (index : Nat) (rows : List Bindings) (ranked : spec.func = .rank) :
    ((∀ row ∈ rows, Sortable ext spec.order (partitionKeys spec rows row)) ∧
      ∀ rows' : List Bindings, rows'.Perm rows →
        applyWindow ext functions spec index rows' = .ok (rows'.map fun row =>
          row.insert (.win index)
            (.integer (Int64.ofNat (1 + rows.countP (precedes ext spec row)))))) ↔
    ∀ row ∈ rows, Sortable ext spec.order (partitionKeys spec rows row) ∧
      TiesEqual ext spec.order (partitionKeys spec rows row) := by
  have permuted : ∀ rows', rows'.Perm rows → ∀ row,
      (partitionKeys spec rows' row).Perm (partitionKeys spec rows row) := by
    intro rows' perm row
    unfold partitionKeys
    split
    · exact (perm.filter _).map _
    · exact .refl _
  constructor
  · rintro ⟨sortable, right⟩ row member
    refine ⟨sortable row member, ?_⟩
    unfold TiesEqual partitionKeys
    split
    case isFalse => exact pairwise_singleton _ _
    refine pairwise_map.mpr (pairwise_iff_forall_sublist.mpr fun {x y} sub tied => ?_)
    by_contra apart
    obtain ⟨rest, perm⟩ := (sub.trans (filter_sublist ..)).exists_perm_append
    have perm : rows.Perm (x :: y :: rest) := perm
    have inX := (mem_filter.mp (sub.subset (by simp : x ∈ [x, y]))).2
    have inY := mem_filter.mp (sub.subset (by simp : y ∈ [x, y]))
    have sorted := (sortable y inY.1).of_subset (permuted _ perm.symm y).subset
    have run := right _ perm.symm
    rw [applyWindow_rank functions index ranked] at run
    have behind := rank_after_tie (samePartition_left inX inY.2) sorted tied (by simpa using apart)
    have second := (cons.inj (cons.inj (Except.ok.inj run)).2).1
    rw [Nat.zero_add] at second
    dsimp only at second
    rw [behind] at second
    have found := congrArg (fun row : Bindings => row.lookup (.win index)) second
    rw [Finmap.lookup_insert, Finmap.lookup_insert, perm.countP_eq] at found
    exact ofNat_succ_ne _ (Value.integer.inj (Option.some.inj found))
  · intro condition
    refine ⟨fun row member => (condition row member).1, fun rows' perm => ?_⟩
    rw [applyWindow_rank functions index ranked]
    conv_rhs => rw [← zipIdx_map_fst 0 rows', map_map]
    refine congrArg Except.ok (map_congr_left ?_)
    rintro ⟨row, place⟩ member
    have here := mk_mem_zipIdx_iff_getElem?.mp member
    obtain ⟨sortable, ties⟩ := condition row (perm.subset (mem_of_getElem? here))
    have keys := permuted rows' perm row
    rw [rank_value here (sortable.of_subset keys.subset) (ties.perm keys.symm), perm.countP_eq]
    rfl

def keyRow (key : Value) : Bindings := Finmap.singleton (.var "?k") key

/-- An integer and a string tie and are not equal: each row comes first when it arrives first, and ties
    are not transitive. -/
theorem rank_of_mixed_keys :
    let spec : WindowSpec := ⟨.rank, none, none, "?k", .asc⟩
    let one := keyRow (.integer 1)
    let text := keyRow (.string "a")
    applyWindow .sample .withBuiltins spec 0 [one, text] =
      .ok [one.insert (.win 0) (.integer 1), text.insert (.win 0) (.integer 2)] ∧
    applyWindow .sample .withBuiltins spec 0 [text, one] =
      .ok [text.insert (.win 0) (.integer 1), one.insert (.win 0) (.integer 2)] ∧
    precedes .sample spec text one = false ∧ precedes .sample spec one text = false ∧
    (valueCmp .sample (.integer 2) (.string "a")).isLE = true ∧
    (valueCmp .sample (.string "a") (.integer 1)).isLE = true ∧
    (valueCmp .sample (.integer 2) (.integer 1)).isLE = false :=
  ⟨rfl, rfl, rfl, rfl, rfl, rfl, rfl⟩

theorem rank_counts_preceding_iff_integers :
    let spec : WindowSpec := ⟨.rank, none, none, "?k", .desc⟩
    let rows := [keyRow (.integer 1), keyRow (.integer 2)]
    applyWindow .sample .withBuiltins spec 0 rows = .ok (rows.map fun row => row.insert (.win 0)
      (.integer (Int64.ofNat (1 + rows.countP (precedes .sample spec row))))) := by
  intro spec rows
  have keys : ∀ row ∈ rows, partitionKeys spec rows row = [.integer 1, .integer 2] := by
    intro row member
    rcases mem_pair.mp member with rfl | rfl <;> rfl
  refine ((rank_counts_preceding_iff .sample .withBuiltins spec 0 rows rfl).mpr
    fun row member => ?_).2 rows (.refl _)
  rw [keys row member]
  exact ⟨by unfold Sortable; decide, by unfold TiesEqual; decide⟩

end Window

end ViciaDb
