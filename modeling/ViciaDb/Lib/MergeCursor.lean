import Mathlib.Data.List.Pairwise
import ViciaDb.Lib.MergeScan

namespace MergeCursor

open List Std

variable {α : Type}

/-- `waiting` is what is left of the snapshot, `more` says that the snapshot was cut off. -/
structure Cursor (α : Type) where
  last : Option α
  waiting : List α
  more : Bool
  scanned : Bool

def Cursor.start (waiting : List α) : Cursor α := ⟨none, waiting, false, false⟩

def behind (cmp : α → α → Ordering) (last : Option α) (item : α) : Bool :=
  last.all fun taken => (cmp item taken).isGT

/-- How a cursor is driven: the order, when a step has taken enough, and whether an item from the
    snapshot is remembered as the last one. -/
structure Rules (α : Type) where
  cmp : α → α → Ordering
  full : List α → Bool
  notesWaiting : Bool

variable (rules : Rules α)

def takeFront (item : α) : List α → Option α → List α → List α × Option α × List α
  | taken, last, [] => (taken, last, [])
  | taken, last, next :: waiting =>
    if (rules.cmp next item).isLT && !rules.full taken then
      takeFront item (taken ++ [next]) (if rules.notesWaiting then some next else last) waiting
    else (taken, last, next :: waiting)

def scan (resume : Option α) : List α → List α → Cursor α → List α × Cursor α
  | [], taken, cursor => (taken, { cursor with scanned := true })
  | item :: items, taken, cursor =>
    if behind rules.cmp resume item then
      let (taken, last, waiting) := takeFront rules item taken cursor.last cursor.waiting
      let cursor := { cursor with last, waiting }
      if waiting.isEmpty && cursor.more || rules.full taken then (taken, cursor)
      else
        let cursor := { cursor with last := some item }
        if rules.full (taken ++ [item]) then (taken ++ [item], cursor)
        else scan resume items (taken ++ [item]) cursor
    else scan resume items taken cursor

def drain : List α → Option α → List α → List α × Option α × List α
  | taken, last, [] => (taken, last, [])
  | taken, last, next :: waiting =>
    if rules.full taken then (taken, last, next :: waiting)
    else drain (taken ++ [next]) (if rules.notesWaiting then some next else last) waiting

def step (items : List α) (cursor : Cursor α) : List α × Cursor α × Bool :=
  let (taken, cursor) :=
    if cursor.scanned then ([], cursor) else scan rules cursor.last items [] cursor
  if cursor.scanned then
    let (taken, last, waiting) := drain rules taken cursor.last cursor.waiting
    (taken, { cursor with last, waiting }, waiting.isEmpty && !cursor.more)
  else (taken, cursor, false)

section Order

variable {cmp : α → α → Ordering} {item : α} {items front run : List α}

theorem mergeScan_front (before : ∀ next ∈ front, cmp next item = .lt) :
    List.mergeScan (fun a b => (cmp a b).isLT) (item :: items) (front ++ run) =
      front ++ List.mergeScan (fun a b => (cmp a b).isLT) (item :: items) run := by
  have all : ∀ next ∈ front, (cmp next item).isLT = true := fun next member => by
    rw [before next member]
    rfl
  rw [List.mergeScan, List.mergeScan, takeWhile_append_of_pos all, dropWhile_append_of_pos all, append_assoc]

variable [TransCmp cmp]

theorem behind_some {last item : α} : behind cmp (some last) item = true ↔ cmp last item = .lt := by
  rw [behind, Option.all_some, Ordering.isGT_iff_eq_gt, OrientedCmp.gt_iff_lt]

theorem behind_self (item : α) : behind cmp (some item) item = false := by
  have self : cmp item item = .eq := ReflCmp.compare_self
  rw [← Bool.not_eq_true, behind_some, self]
  decide

theorem mergeScan_item (stops : ∀ next, run.head? = some next → (cmp item next).isLE) :
    List.mergeScan (fun a b => (cmp a b).isLT) (item :: items) run =
      item :: List.mergeScan (fun a b => (cmp a b).isLT) items run := by
  cases run with
  | nil => rfl
  | cons next run =>
    have least : (cmp next item).isLT = false := by
      have := OrientedCmp.isGE_iff_isLE.mpr (stops next rfl)
      cases order : cmp next item <;> simp_all
    rw [List.mergeScan, takeWhile_cons, least, dropWhile_cons, least]
    rfl

end Order

section Pass

variable {rules : Rules α} [TransCmp rules.cmp]

def Above (cmp : α → α → Ordering) (last : Option α) (waiting : List α) : Prop :=
  ∀ taken, last = some taken → ∀ next ∈ waiting, (cmp taken next).isLE

def merged (cmp : α → α → Ordering) (items waiting : List α) : List α :=
  List.mergeScan (fun a b => (cmp a b).isLT) items waiting

variable {last : Option α} {next x : α} {waiting : List α}

theorem length_merged (cmp : α → α → Ordering) (items waiting : List α) :
    (merged cmp items waiting).length = items.length + waiting.length := by
  rw [merged, (mergeScan_perm _ _ _).length_eq, length_append]

theorem behind_of_noted (above : Above rules.cmp last (next :: waiting))
    (after : behind rules.cmp (some next) x = true) : behind rules.cmp last x = true := by
  cases last with
  | none => rfl
  | some taken =>
    rw [behind_some] at after ⊢
    exact TransCmp.lt_of_isLE_of_lt (above taken rfl next mem_cons_self) after

omit [TransCmp rules.cmp] in
theorem above_noted (sorted : (next :: waiting).Pairwise fun a b => (rules.cmp a b).isLE) :
    Above rules.cmp (some next) waiting := by
  rintro _ ⟨⟩
  exact (pairwise_cons.mp sorted).1

structure Fronted (rules : Rules α) (item : α) (taken : List α) (last : Option α) (waiting : List α)
    (result : List α × Option α × List α) : Prop where
  split : ∃ front, result.1 = taken ++ front ∧ waiting = front ++ result.2.2 ∧
    ∀ next ∈ front, rules.cmp next item = .lt
  above : Above rules.cmp result.2.1 result.2.2
  later : ∀ x, behind rules.cmp result.2.1 x = true → behind rules.cmp last x = true
  before : behind rules.cmp last item = true → behind rules.cmp result.2.1 item = true
  stops : rules.full result.1 = false → ∀ next ∈ result.2.2, (rules.cmp item next).isLE

theorem takeFront_spec (item : α) {taken : List α} {last : Option α} {waiting : List α}
    (sorted : waiting.Pairwise fun a b => (rules.cmp a b).isLE) (above : Above rules.cmp last waiting) :
    Fronted rules item taken last waiting (takeFront rules item taken last waiting) := by
  induction waiting generalizing taken last with
  | nil => exact ⟨⟨[], by simp [takeFront], rfl, by simp⟩, above, fun _ => id, id, by simp [takeFront]⟩
  | cons next waiting ih =>
    rw [takeFront]
    split
    · rename_i takes
      rw [Bool.and_eq_true, Bool.not_eq_true', Ordering.isLT_iff_eq_lt] at takes
      have rest : Above rules.cmp (if rules.notesWaiting then some next else last) waiting := by
        split
        · exact above_noted sorted
        · exact fun taken isLast other member => above taken isLast other (mem_cons_of_mem _ member)
      obtain ⟨⟨front, taken', split, before⟩, above', later, still, stops⟩ :=
        @ih (taken ++ [next]) _ (pairwise_cons.mp sorted).2 rest
      refine ⟨⟨next :: front, ?_, ?_, ?_⟩, above', ?_, ?_, stops⟩
      · rw [taken', append_assoc]
        rfl
      · rw [cons_append, ← split]
      · exact forall_mem_cons.mpr ⟨takes.1, before⟩
      · intro x after
        have noted := later x after
        split at noted
        · exact behind_of_noted above noted
        · exact noted
      · intro after
        apply still
        split
        · exact behind_some.mpr takes.1
        · exact after
    · rename_i stays
      refine ⟨⟨[], by simp, rfl, by simp⟩, above, fun _ => id, id, fun notFull other member => ?_⟩
      have least : (rules.cmp item next).isLE := by
        rw [← OrientedCmp.isGE_iff_isLE]
        cases order : rules.cmp next item <;> simp_all
      rcases mem_cons.mp member with rfl | member
      · exact least
      · exact TransCmp.isLE_trans least ((pairwise_cons.mp sorted).1 other member)

abbrev Increasing (cmp : α → α → Ordering) (items : List α) : Prop :=
  items.Pairwise fun a b => cmp a b = .lt

theorem Increasing.eq_of_perm {cmp : α → α → Ordering} [TransCmp cmp] {xs items : List α}
    (increasing : Increasing cmp items) (sorted : xs.Pairwise fun a b => (cmp a b).isLE)
    (perm : xs.Perm items) : xs = items := by
  have apart : items.Pairwise fun a b => cmp a b ≠ .eq := increasing.imp fun less => by simp [less]
  refine List.Perm.eq_of_pairwise ?_ sorted (increasing.imp fun less => ?_) perm
  · intro a b inXs inItems lower upper
    have same : cmp a b = .eq := OrientedCmp.isLE_antisymm lower upper
    by_contra different
    have symmetric : Symm fun a b : α => cmp a b ≠ .eq :=
      ⟨fun a b ne back => ne (OrientedCmp.eq_comm.mp back)⟩
    exact apart.forall (perm.mem_iff.mp inXs) inItems different same
  · rw [less]
    rfl

variable {items : List α}

theorem dropWhile_not_behind {cmp : α → α → Ordering} [TransCmp cmp]
    (increasing : Increasing cmp items) (last : Option α) :
    items.dropWhile (fun item => !behind cmp last item) = items.filter (behind cmp last) := by
  have closed : items.Pairwise fun a b => (!behind cmp last b) = true → (!behind cmp last a) = true := by
    refine increasing.imp fun less => ?_
    cases last with
    | none => exact id
    | some taken =>
      simp only [Bool.not_eq_true', Bool.eq_false_iff, ne_eq, behind_some]
      exact mt fun after => TransCmp.lt_trans after less
  simpa using (filter_eq_takeWhile closed).2.symm

theorem length_le_filter_behind {cmp : α → α → Ordering} [TransCmp cmp] (increasing : Increasing cmp items)
    (least : ∀ item ∈ items, (last.all fun taken => (cmp item taken).isGE) = true) :
    items.length ≤ (items.filter (behind cmp last)).length + 1 := by
  cases items with
  | nil => exact Nat.zero_le _
  | cons item items =>
    obtain ⟨first, -⟩ := pairwise_cons.mp increasing
    have later : items.filter (behind cmp last) = items := by
      refine filter_eq_self.mpr fun x member => ?_
      cases last with
      | none => rfl
      | some taken =>
        have atLeast : (cmp item taken).isGE = true := least item mem_cons_self
        rw [OrientedCmp.isGE_iff_isLE] at atLeast
        exact behind_some.mpr (TransCmp.lt_of_isLE_of_lt atLeast (first x member))
    rw [filter_cons, later]
    split <;> simp

theorem filter_behind_append {cmp : α → α → Ordering} [TransCmp cmp] {front back : List α} {item : α}
    (increasing : Increasing cmp (front ++ item :: back)) :
    (front ++ item :: back).filter (behind cmp (some item)) = back := by
  obtain ⟨-, after, before⟩ := pairwise_append.mp increasing
  have none : front.filter (behind cmp (some item)) = [] := by
    refine filter_eq_nil_iff.mpr fun x member => ?_
    rw [behind_some, OrientedCmp.gt_iff_lt.mpr (before x member item mem_cons_self)]
    decide
  rw [filter_append, none, filter_cons_of_neg (Bool.eq_false_iff.mp (behind_self item)), nil_append]
  exact filter_eq_self.mpr fun x member => behind_some.mpr ((pairwise_cons.mp after).1 x member)

structure Passed (rules : Rules α) (resume : Option α) (items taken : List α) (cursor : Cursor α)
    (result : List α × Cursor α) (fresh done todo : List α) : Prop where
  taken : result.1 = taken ++ fresh
  split : items.filter (behind rules.cmp resume) = done ++ todo
  merge : ∀ unseen, unseen = [] ∨ cursor.more = true →
    merged rules.cmp (items.filter (behind rules.cmp resume)) (cursor.waiting ++ unseen) =
      fresh ++ merged rules.cmp todo (result.2.waiting ++ unseen)
  sorted : result.2.waiting.Pairwise fun a b => (rules.cmp a b).isLE
  above : Above rules.cmp result.2.last result.2.waiting
  later : ∀ x, behind rules.cmp result.2.last x = true → behind rules.cmp cursor.last x = true
  ahead : ∀ x ∈ todo, behind rules.cmp result.2.last x = true
  past : ∀ x ∈ done, behind rules.cmp result.2.last x = false
  finished : result.2.scanned = true → todo = []
  stopped : result.2.scanned = false → rules.full result.1 = true ∨
    result.2.waiting = [] ∧ cursor.more = true
  more : result.2.more = cursor.more
  fewer : result.2.waiting ⊆ cursor.waiting
  ends : todo = [] → ∀ item, fresh.getLast? = some item → item ∈ items
  room : result.2.scanned = true → fresh = [] ∨ rules.full result.1 = false

theorem behind_of_behind_item {item : α} (ahead : behind rules.cmp last item = true)
    (after : behind rules.cmp (some item) x = true) : behind rules.cmp last x = true := by
  cases last with
  | none => rfl
  | some taken =>
    rw [behind_some] at ahead after ⊢
    exact TransCmp.lt_trans ahead after

theorem scan_spec {resume : Option α} {items taken : List α} {cursor : Cursor α}
    (increasing : Increasing rules.cmp items)
    (sorted : cursor.waiting.Pairwise fun a b => (rules.cmp a b).isLE)
    (above : Above rules.cmp cursor.last cursor.waiting)
    (floor : ∀ x ∈ items, behind rules.cmp resume x = true → behind rules.cmp cursor.last x = true)
    (scanning : cursor.scanned = false) :
    ∃ fresh done todo, Passed rules resume items taken cursor
      (scan rules resume items taken cursor) fresh done todo := by
  induction items generalizing taken cursor with
  | nil =>
    exact ⟨[], [], [], by simp [scan], rfl, fun _ _ => rfl, sorted, above, fun _ => id, by simp, by simp,
      fun _ => rfl, by simp [scan], rfl, Subset.refl _, by simp, fun _ => .inl rfl⟩
  | cons item items ih =>
    obtain ⟨first, increasing⟩ := pairwise_cons.mp increasing
    rw [scan]
    by_cases live : behind rules.cmp resume item = true
    · rw [if_pos live]
      have fronted := @takeFront_spec _ rules _ item taken cursor.last cursor.waiting sorted above
      generalize takeFront rules item taken cursor.last cursor.waiting = result at fronted
      obtain ⟨taken', last', waiting'⟩ := result
      obtain ⟨⟨front, isTaken, split, before⟩, above', later, still, stops⟩ := fronted
      dsimp only at isTaken split above' later still stops
      have sorted' : waiting'.Pairwise fun a b => (rules.cmp a b).isLE :=
        (pairwise_append.mp (split ▸ sorted)).2.1
      have fewer : waiting' ⊆ cursor.waiting := split ▸ subset_append_right _ _
      have itemAhead := still (floor item mem_cons_self live)
      have restAhead : ∀ x ∈ items, behind rules.cmp (some item) x = true :=
        fun x member => behind_some.mpr (first x member)
      have lives : (item :: items).filter (behind rules.cmp resume) =
          item :: items.filter (behind rules.cmp resume) := filter_cons_of_pos live
      have liveAhead : ∀ x ∈ items.filter (behind rules.cmp resume), behind rules.cmp (some item) x = true :=
        fun x member => restAhead x (mem_of_mem_filter member)
      dsimp only
      split
      · -- the pass stops in front of the item
        rename_i stop
        refine ⟨front, [], item :: items.filter (behind rules.cmp resume), isTaken, lives, ?_, sorted',
          above', later, ?_, by simp, ?_, fun _ => ?_, rfl, fewer, by simp, fun ended => ?_⟩
        · intro unseen _
          rw [lives, split, append_assoc]
          exact mergeScan_front before
        · exact forall_mem_cons.mpr ⟨itemAhead,
            fun x member => behind_of_behind_item itemAhead (liveAhead x member)⟩
        · intro finished
          cases finished.symm.trans scanning
        · rw [Bool.or_eq_true, Bool.and_eq_true, List.isEmpty_iff] at stop
          exact stop.symm
        · cases ended.symm.trans scanning
      · rename_i goes
        rw [Bool.not_eq_true, Bool.or_eq_false_iff] at goes
        have least := stops goes.2
        have aboveItem : Above rules.cmp (some item) waiting' := by
          rintro _ ⟨⟩
          exact least
        have laterItem : ∀ x, behind rules.cmp (some item) x = true → behind rules.cmp cursor.last x = true :=
          fun x after => later x (behind_of_behind_item itemAhead after)
        have mergeItem : ∀ unseen, unseen = [] ∨ cursor.more = true →
            merged rules.cmp ((item :: items).filter (behind rules.cmp resume)) (cursor.waiting ++ unseen) =
              front ++ item :: merged rules.cmp (items.filter (behind rules.cmp resume)) (waiting' ++ unseen) := by
          intro unseen known
          rw [lives, split, append_assoc, merged, mergeScan_front before, mergeScan_item]
          · rfl
          intro next isNext
          cases waiting' with
          | nil =>
            rcases known with rfl | more
            · cases isNext
            · rw [more] at goes
              cases goes.1
          | cons head rest =>
            cases isNext
            exact least next mem_cons_self
        split
        · -- the item is the last one the step takes
          rename_i full
          refine ⟨front ++ [item], [item], items.filter (behind rules.cmp resume), ?_, lives, ?_, sorted',
            aboveItem, laterItem, liveAhead, ?_, ?_, fun _ => .inl full, rfl, fewer, ?_, fun ended => ?_⟩
          · rw [isTaken, append_assoc]
          · intro unseen known
            rw [mergeItem unseen known, append_assoc]
            rfl
          · simpa using behind_self item
          · intro finished
            cases finished.symm.trans scanning
          · rintro _ last isLast
            rw [getLast?_concat] at isLast
            cases isLast
            exact mem_cons_self
          · cases ended.symm.trans scanning
        · rename_i notFull
          obtain ⟨fresh, done, todo, passed⟩ := @ih (taken' ++ [item])
            { cursor with last := some item, waiting := waiting' } increasing sorted' aboveItem
            (fun x member _ => restAhead x member) scanning
          refine ⟨front ++ item :: fresh, item :: done, todo, ?_, ?_, ?_, passed.sorted, passed.above,
            fun x after => laterItem x (passed.later x after), passed.ahead, ?_, passed.finished,
            passed.stopped, passed.more, fun _ member => fewer (passed.fewer member), fun none last isLast => ?_, fun ended => ?_⟩
          · rw [passed.taken, isTaken]
            simp
          · rw [lives, passed.split]
            rfl
          · intro unseen known
            rw [mergeItem unseen known, passed.merge unseen known, append_assoc]
            rfl
          · refine forall_mem_cons.mpr ⟨?_, passed.past⟩
            rw [← Bool.not_eq_true]
            intro after
            exact absurd (passed.later item after) (by simp [behind_self])
          · cases fresh with
            | nil =>
              rw [getLast?_concat] at isLast
              cases isLast
              exact mem_cons_self
            | cons other fresh =>
              refine mem_cons_of_mem _ (passed.ends none last ?_)
              rw [← isLast, getLast?_append_cons, getLast?_cons_cons]
          · right
            rcases passed.room ended with rfl | notFull
            · rw [passed.taken, append_nil]
              exact Bool.not_eq_true _ ▸ notFull
            · exact notFull
    · rw [if_neg live]
      obtain ⟨fresh, done, todo, passed⟩ := @ih taken cursor increasing sorted above
        (fun x member => floor x (mem_cons_of_mem _ member)) scanning
      have lives : (item :: items).filter (behind rules.cmp resume) =
          items.filter (behind rules.cmp resume) := filter_cons_of_neg live
      exact ⟨fresh, done, todo, passed.taken, lives.trans passed.split, lives ▸ passed.merge, passed.sorted,
        passed.above, passed.later, passed.ahead, passed.past, passed.finished, passed.stopped, passed.more,
        passed.fewer, fun none last isLast => mem_cons_of_mem _ (passed.ends none last isLast), passed.room⟩

omit [TransCmp rules.cmp] in
theorem drain_spec {taken : List α} {last : Option α} {waiting : List α}
    (sorted : waiting.Pairwise fun a b => (rules.cmp a b).isLE) (above : Above rules.cmp last waiting) :
    ∃ fresh, (drain rules taken last waiting).1 = taken ++ fresh ∧
      waiting = fresh ++ (drain rules taken last waiting).2.2 ∧
      Above rules.cmp (drain rules taken last waiting).2.1 (drain rules taken last waiting).2.2 ∧
      ((drain rules taken last waiting).2.2 ≠ [] → rules.full (drain rules taken last waiting).1 = true) := by
  induction waiting generalizing taken last with
  | nil => exact ⟨[], by simp [drain], rfl, above, by simp [drain]⟩
  | cons next waiting ih =>
    rw [drain]
    split
    · rename_i full
      exact ⟨[], by simp, rfl, above, fun _ => full⟩
    have rest : Above rules.cmp (if rules.notesWaiting then some next else last) waiting := by
      split
      · exact above_noted sorted
      · exact fun taken isLast other member => above taken isLast other (mem_cons_of_mem _ member)
    obtain ⟨fresh, taken', split, above', stops⟩ :=
      @ih (taken ++ [next]) _ (pairwise_cons.mp sorted).2 rest
    refine ⟨next :: fresh, ?_, ?_, above', stops⟩
    · rw [taken', append_assoc]
      rfl
    · rw [cons_append, ← split]

structure Ready (cmp : α → α → Ordering) (cursor : Cursor α) : Prop where
  sorted : cursor.waiting.Pairwise fun a b => (cmp a b).isLE
  above : Above cmp cursor.last cursor.waiting

def remaining (cmp : α → α → Ordering) (items : List α) (cursor : Cursor α) (unseen : List α) : List α :=
  if cursor.scanned then cursor.waiting ++ unseen
  else merged cmp (items.filter (behind cmp cursor.last)) (cursor.waiting ++ unseen)

theorem Ready.start {cmp : α → α → Ordering} (sorted : waiting.Pairwise fun a b => (cmp a b).isLE) :
    Ready cmp (.start waiting) :=
  ⟨sorted, by rintro _ ⟨⟩⟩

theorem remaining_start (cmp : α → α → Ordering) (items waiting : List α) :
    remaining cmp items (.start waiting) [] = merged cmp items waiting := by
  have all : items.filter (behind cmp (Cursor.start waiting).last) = items :=
    filter_eq_self.mpr fun _ _ => rfl
  rw [remaining, all, append_nil]
  rfl

structure Stepped (rules : Rules α) (items : List α) (cursor : Cursor α)
    (result : List α × Cursor α × Bool) : Prop where
  ready : Ready rules.cmp result.2.1
  takes : ∀ unseen, unseen = [] ∨ cursor.more = true →
    remaining rules.cmp items cursor unseen = result.1 ++ remaining rules.cmp items result.2.1 unseen
  complete : result.2.2 = true → result.2.1.scanned = true ∧ result.2.1.waiting = [] ∧ cursor.more = false
  yields : result.2.2 = false → rules.full result.1 = true ∨
    result.2.1.waiting = [] ∧ cursor.more = true
  more : result.2.1.more = cursor.more
  waits : cursor.waiting.length ≤ result.1.length + result.2.1.waiting.length
  fewer : result.2.1.waiting ⊆ cursor.waiting
  last : cursor.more = false → remaining rules.cmp items result.2.1 [] = [] →
    ∀ item, result.1.getLast? = some item → (result.2.2 = false → item ∈ items) ∧
      (result.2.2 = true → rules.full result.1 = true → item ∈ cursor.waiting)

section Passed

variable {items : List α} {cursor : Cursor α} {result : List α × Cursor α} {fresh done todo : List α}

omit [TransCmp rules.cmp] in
theorem Passed.rest (passed : Passed rules cursor.last items [] cursor result fresh done todo) :
    items.filter (behind rules.cmp result.2.last) = todo := by
  have fewer : items.filter (behind rules.cmp result.2.last) =
      (items.filter (behind rules.cmp cursor.last)).filter (behind rules.cmp result.2.last) := by
    rw [filter_filter]
    refine filter_congr fun x _ => ?_
    cases after : behind rules.cmp result.2.last x with
    | false => rfl
    | true => rw [passed.later x after]; rfl
  have none : done.filter (behind rules.cmp result.2.last) = [] :=
    filter_eq_nil_iff.mpr fun x member => by simp [passed.past x member]
  rw [fewer, passed.split, filter_append, none, filter_eq_self.mpr passed.ahead]
  rfl

omit [TransCmp rules.cmp] in
theorem Passed.takes (passed : Passed rules cursor.last items [] cursor result fresh done todo)
    (scanning : cursor.scanned = false) (unseen : List α) (known : unseen = [] ∨ cursor.more = true) :
    remaining rules.cmp items cursor unseen = result.1 ++ merged rules.cmp todo (result.2.waiting ++ unseen) := by
  have isTaken : result.1 = fresh := passed.taken
  rw [remaining, scanning, isTaken]
  exact passed.merge unseen known

omit [TransCmp rules.cmp] in
theorem Passed.waits (passed : Passed rules cursor.last items [] cursor result fresh done todo) :
    cursor.waiting.length ≤ result.1.length + result.2.waiting.length := by
  have lengths := congrArg List.length (passed.merge [] (.inl rfl))
  have isTaken : result.1 = fresh := passed.taken
  rw [passed.split, length_append, length_merged, length_merged, length_append] at lengths
  simp only [append_nil] at lengths
  rw [isTaken]
  omega

end Passed

omit [TransCmp rules.cmp] in
theorem merged_eq_nil {cmp : α → α → Ordering} {items waiting : List α} (none : merged cmp items waiting = []) :
    items = [] ∧ waiting = [] := by
  have := congrArg List.length none
  rw [length_merged, length_nil, Nat.add_eq_zero_iff, length_eq_zero_iff, length_eq_zero_iff] at this
  exact this

omit [TransCmp rules.cmp] in
theorem stepped_drain {taken : List α} {cursor : Cursor α} (ready : Ready rules.cmp cursor)
    (scanned : cursor.scanned = true) {before : Cursor α} (more : cursor.more = before.more)
    (takes : ∀ unseen, unseen = [] ∨ before.more = true →
      remaining rules.cmp items before unseen = taken ++ (cursor.waiting ++ unseen))
    (waits : before.waiting.length ≤ taken.length + cursor.waiting.length)
    (fewer : cursor.waiting ⊆ before.waiting) (room : taken = [] ∨ rules.full taken = false) :
    Stepped rules items before
      (let (taken, last, waiting) := drain rules taken cursor.last cursor.waiting
       (taken, { cursor with last, waiting }, waiting.isEmpty && !cursor.more)) := by
  obtain ⟨fresh, isTaken, split, above, stops⟩ :=
    @drain_spec _ rules taken cursor.last cursor.waiting ready.sorted ready.above
  generalize drain rules taken cursor.last cursor.waiting = result at isTaken split above stops
  obtain ⟨taken', last', waiting'⟩ := result
  dsimp only at isTaken split above stops ⊢
  refine ⟨⟨(pairwise_append.mp (split ▸ ready.sorted)).2.1, above⟩, ?_, ?_, ?_, more, ?_,
    fun _ member => fewer (split ▸ mem_append_right _ member), fun whole none item isLast => ⟨?_, ?_⟩⟩
  · intro unseen known
    rw [takes unseen known, remaining, if_pos scanned, isTaken, split]
    simp
  · intro complete
    rw [Bool.and_eq_true, List.isEmpty_iff, Bool.not_eq_true'] at complete
    exact ⟨scanned, complete.1, more ▸ complete.2⟩
  · intro incomplete
    by_cases empty : waiting' = []
    · right
      rw [empty, isEmpty_nil, Bool.true_and, Bool.not_eq_false'] at incomplete
      exact ⟨empty, more ▸ incomplete⟩
    · exact .inl (stops empty)
  · rw [split, length_append] at waits
    dsimp only
    rw [isTaken, length_append]
    omega
  · intro incomplete
    rw [remaining, if_pos scanned, append_nil] at none
    dsimp only at none incomplete
    rw [none, more, whole] at incomplete
    cases incomplete
  · intro _ full
    dsimp only at isLast full
    rw [isTaken] at isLast full
    cases fresh with
    | nil =>
      rw [append_nil] at isLast full
      rcases room with rfl | notFull
      · cases isLast
      · cases notFull.symm.trans full
    | cons first fresh =>
      rw [getLast?_append_cons] at isLast
      exact fewer (split ▸ mem_append_left _ (mem_of_getLast? isLast))

theorem step_spec {cursor : Cursor α} (increasing : Increasing rules.cmp items)
    (ready : Ready rules.cmp cursor) : Stepped rules items cursor (step rules items cursor) := by
  rw [step]
  by_cases scanned : cursor.scanned = true
  · rw [if_pos scanned]
    dsimp only
    rw [if_pos scanned]
    refine stepped_drain ready scanned rfl (fun unseen _ => ?_) (by simp) (Subset.refl _) (.inl rfl)
    rw [remaining, if_pos scanned]
    rfl
  · rw [if_neg scanned]
    rw [Bool.not_eq_true] at scanned
    obtain ⟨fresh, done, todo, passed⟩ := @scan_spec _ rules _ cursor.last items [] cursor increasing
      ready.sorted ready.above (fun _ _ => id) scanned
    generalize scan rules cursor.last items [] cursor = result at passed
    obtain ⟨taken, cursor'⟩ := result
    have ready' : Ready rules.cmp cursor' := ⟨passed.sorted, passed.above⟩
    have rest : items.filter (behind rules.cmp cursor'.last) = todo := passed.rest
    have takes : ∀ unseen, unseen = [] ∨ cursor.more = true →
        remaining rules.cmp items cursor unseen =
          taken ++ merged rules.cmp todo (cursor'.waiting ++ unseen) := passed.takes scanned
    have waits : cursor.waiting.length ≤ taken.length + cursor'.waiting.length := passed.waits
    dsimp only
    split
    · rename_i ended
      have isTaken : taken = fresh := passed.taken
      refine stepped_drain ready' ended passed.more (fun unseen known => ?_) waits passed.fewer
        (isTaken ▸ passed.room ended)
      rw [takes unseen known, passed.finished ended]
      rfl
    · rename_i going
      rw [Bool.not_eq_true] at going
      have isTaken : taken = fresh := passed.taken
      refine ⟨ready', fun unseen known => ?_, by simp, fun _ => passed.stopped going, passed.more, waits,
        passed.fewer, fun _ none item isLast => ⟨fun _ => passed.ends ?_ item (isTaken ▸ isLast), by simp⟩⟩
      · rw [takes unseen known, remaining, going, rest]
        rfl
      · rw [remaining, if_neg (by simp [going]), rest] at none
        exact (merged_eq_nil none).1

omit [TransCmp rules.cmp]

def Tight (rules : Rules α) (before after : List α) : Prop :=
  after = before ∨ rules.full after.dropLast = false

theorem Tight.snoc {before taken : List α} (notFull : rules.full taken = false) (item : α) :
    Tight rules before (taken ++ [item]) := by
  right
  rwa [dropLast_concat]

theorem Tight.trans {before between after : List α} (first : Tight rules before between)
    (second : Tight rules between after) : Tight rules before after := by
  rcases second with rfl | tight
  · exact first
  · exact .inr tight

theorem takeFront_tight (item : α) (taken : List α) (last : Option α) (waiting : List α) :
    Tight rules taken (takeFront rules item taken last waiting).1 := by
  induction waiting generalizing taken last with
  | nil => exact .inl rfl
  | cons next waiting ih =>
    rw [takeFront]
    split
    · rename_i takes
      rw [Bool.and_eq_true, Bool.not_eq_true'] at takes
      exact (Tight.snoc takes.2 next).trans (ih _ _)
    · exact .inl rfl

theorem drain_tight (taken : List α) (last : Option α) (waiting : List α) :
    Tight rules taken (drain rules taken last waiting).1 := by
  induction waiting generalizing taken last with
  | nil => exact .inl rfl
  | cons next waiting ih =>
    rw [drain]
    split
    · exact .inl rfl
    · rename_i notFull
      exact (Tight.snoc (Bool.not_eq_true _ ▸ notFull) next).trans (ih _ _)

theorem scan_tight (resume : Option α) (items taken : List α) (cursor : Cursor α) :
    Tight rules taken (scan rules resume items taken cursor).1 := by
  induction items generalizing taken cursor with
  | nil => exact .inl rfl
  | cons item items ih =>
    rw [scan]
    split
    swap
    · exact ih taken cursor
    have front := @takeFront_tight _ rules item taken cursor.last cursor.waiting
    generalize takeFront rules item taken cursor.last cursor.waiting = result at front
    obtain ⟨taken', last', waiting'⟩ := result
    dsimp only at front ⊢
    split
    · exact front
    rename_i goes
    rw [Bool.not_eq_true, Bool.or_eq_false_iff] at goes
    have next := front.trans (Tight.snoc goes.2 item)
    split
    · exact next
    · exact next.trans (ih _ _)

theorem step_tight (items : List α) (cursor : Cursor α) :
    Tight rules [] (step rules items cursor).1 := by
  rw [step]
  have first : Tight rules []
      (if cursor.scanned then ([], cursor) else scan rules cursor.last items [] cursor).1 := by
    split
    · exact .inl rfl
    · exact scan_tight _ _ _ _
  generalize (if cursor.scanned then ([], cursor) else scan rules cursor.last items [] cursor) = result
    at first
  obtain ⟨taken, cursor'⟩ := result
  dsimp only at first ⊢
  split
  · exact first.trans (drain_tight _ _ _)
  · exact first

end Pass

section Drive

variable {σ τ ε : Type} (cmp : α → α → Ordering)

def budgetRules (budget : Nat) : Rules α := ⟨cmp, fun taken => decide (budget ≤ taken.length), false⟩

theorem length_le_of_tight {cmp : α → α → Ordering} {budget : Nat} {taken : List α}
    (tight : Tight (budgetRules cmp budget) [] taken) : taken.length ≤ budget := by
  rcases tight with rfl | notFull
  · exact Nat.zero_le _
  · have := of_decide_eq_false notFull
    rw [length_dropLast] at this
    omega

structure Progress (cmp : α → α → Ordering) (items total : List α) (cursor : Cursor α) (done : List α) :
    Prop where
  ready : Ready cmp cursor
  whole : cursor.more = false
  passed : total = done ++ remaining cmp items cursor []

structure Progressed (cmp : α → α → Ordering) (items total : List α) (budget : Nat) (done : List α)
    (result : List α × Cursor α × Bool) : Prop where
  bounded : result.1.length ≤ budget
  completes : result.2.2 = true → total = done ++ result.1
  yields : result.2.2 = false → result.1.length = budget ∧ Progress cmp items total result.2.1 (done ++ result.1)

theorem Progress.start {cmp : α → α → Ordering} (items : List α) {waiting : List α}
    (sorted : waiting.Pairwise fun a b => (cmp a b).isLE) :
    Progress cmp items (merged cmp items waiting) (.start waiting) [] :=
  ⟨.start sorted, rfl, (remaining_start cmp items waiting).symm⟩

theorem Progress.step {cmp : α → α → Ordering} [TransCmp cmp] {items total : List α} {cursor : Cursor α}
    {done : List α} (increasing : Increasing cmp items) (progress : Progress cmp items total cursor done)
    (budget : Nat) :
    Progressed cmp items total budget done (MergeCursor.step (budgetRules cmp budget) items cursor) := by
  have trans : TransCmp (budgetRules cmp budget).cmp := inferInstanceAs (TransCmp cmp)
  have stepped := @step_spec _ (budgetRules cmp budget) trans items cursor increasing progress.ready
  have bounded := length_le_of_tight (@step_tight _ (budgetRules cmp budget) items cursor)
  generalize MergeCursor.step (budgetRules cmp budget) items cursor = result at stepped bounded
  obtain ⟨taken, cursor', complete⟩ := result
  have takes := stepped.takes [] (.inl rfl)
  change remaining cmp items cursor [] = taken ++ remaining cmp items cursor' [] at takes
  have passed := progress.passed
  rw [takes, ← append_assoc] at passed
  refine ⟨bounded, fun finished => ?_, fun going => ⟨Nat.le_antisymm bounded ?_, ?_⟩⟩
  · obtain ⟨scanned, empty, -⟩ := stepped.complete finished
    have nothing : remaining cmp items cursor' [] = [] := by
      rw [remaining, if_pos scanned]
      simpa using empty
    rwa [nothing, append_nil] at passed
  · rcases stepped.yields going with full | ⟨-, more⟩
    · exact of_decide_eq_true full
    · cases progress.whole.symm.trans more
  · exact ⟨stepped.ready, stepped.more.trans progress.whole, passed⟩

variable (accept : σ → α → Except ε σ) (finish : σ → Except ε τ) (items : List α)

def drive : List Nat → Cursor α → σ → Except ε (Option τ)
  | [], _, _ => .ok none
  | budget :: budgets, cursor, state => do
    let (taken, cursor, complete) := step (budgetRules cmp budget) items cursor
    let state ← taken.foldlM accept state
    if complete then return some (← finish state)
    else drive budgets cursor state

def driveAll (cursor : Cursor α) (state : σ) : Except ε (Option τ) := do
  let state ← (remaining cmp items cursor []).foldlM accept state
  return some (← finish state)

variable {cmp items} [TransCmp cmp]

theorem drive_eq (increasing : Increasing cmp items) {budgets : List Nat}
    (positive : ∀ budget ∈ budgets, 0 < budget) {cursor : Cursor α} (ready : Ready cmp cursor)
    (whole : cursor.more = false) (state : σ) :
    drive cmp accept finish items budgets cursor state = driveAll cmp accept finish items cursor state ∨
      drive cmp accept finish items budgets cursor state = .ok none ∧
        budgets.length ≤ (remaining cmp items cursor []).length := by
  induction budgets generalizing cursor state with
  | nil => exact .inr ⟨rfl, Nat.zero_le _⟩
  | cons budget budgets ih =>
    obtain ⟨some, positive⟩ := forall_mem_cons.mp positive
    have trans : TransCmp (budgetRules cmp budget).cmp := inferInstanceAs (TransCmp cmp)
    have stepped := @step_spec _ (budgetRules cmp budget) trans items cursor increasing ready
    rw [drive]
    generalize step (budgetRules cmp budget) items cursor = result at stepped
    obtain ⟨taken, cursor', complete⟩ := result
    have takes := stepped.takes [] (.inl rfl)
    change remaining cmp items cursor [] = taken ++ remaining cmp items cursor' [] at takes
    rw [driveAll, takes, foldlM_append]
    dsimp only
    cases fed : taken.foldlM accept state with
    | error message => exact .inl rfl
    | ok state' =>
      cases complete with
      | true =>
        left
        obtain ⟨scanned, empty, -⟩ := stepped.complete rfl
        have nothing : remaining cmp items cursor' [] = [] := by
          rw [remaining, if_pos scanned]
          simpa using empty
        rw [nothing]
        rfl
      | false =>
        have filled : budget ≤ taken.length := by
          rcases stepped.yields rfl with full | ⟨-, more⟩
          · exact of_decide_eq_true full
          · cases whole.symm.trans more
        rcases ih positive stepped.ready (stepped.more.trans whole) state' with same | ⟨none, few⟩
        · exact .inl same
        · refine .inr ⟨none, ?_⟩
          dsimp only at few
          rw [length_cons, length_append]
          omega

end Drive

end MergeCursor
