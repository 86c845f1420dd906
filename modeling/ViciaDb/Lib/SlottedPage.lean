import ViciaDb.Lib.ByteReader

namespace SlottedPage

open ByteReader List

section Parts

def readAt (page : Bytes) (pos len : Nat) : Option Bytes :=
  if pos + len ≤ page.length then some ((page.drop pos).take len) else none

def patch (page : Bytes) (pos : Nat) (data : Bytes) : Bytes :=
  page.take pos ++ data ++ page.drop (pos + data.length)

def writeAt (page : Bytes) (pos : Nat) (data : Bytes) : Option Bytes :=
  if pos + data.length ≤ page.length then some (patch page pos data) else none

def numberAt (width : Nat) (page : Bytes) (pos : Nat) : Option Nat :=
  (readAt page pos width).map ofLeBytes

variable {page data : Bytes} {pos len : Nat}

variable {q width n : Nat}

theorem readAt_eq_some_iff {bytes : Bytes} : readAt page pos len = some bytes ↔
      pos + len ≤ page.length ∧ bytes.length = len ∧ ∀ i < len, page[pos + i]? = bytes[i]? := by
  unfold readAt
  split
  swap
  · rename_i outside
    simp [outside]
  rename_i inside
  rw [Option.some.injEq]
  constructor
  · rintro rfl
    refine ⟨inside, ?_, ?_⟩
    · rw [length_take, length_drop]
      omega
    · intro i small
      rw [List.getElem?_take_of_lt small, List.getElem?_drop]
  · rintro ⟨-, width, same⟩
    apply ext_getElem?
    intro i
    by_cases small : i < len
    · rw [List.getElem?_take_of_lt small, List.getElem?_drop, same i small]
    · rw [List.getElem?_eq_none (by rw [length_take]; omega), List.getElem?_eq_none (by omega)]

section

variable (fits : pos + data.length ≤ page.length)
include fits

theorem length_patch : (patch page pos data).length = page.length := by
  simp only [patch, length_append, length_take, length_drop]
  omega

theorem getElem?_patch (i : Nat) : (patch page pos data)[i]? =
      if pos ≤ i ∧ i < pos + data.length then data[i - pos]? else page[i]? := by
  have front : (page.take pos).length = pos := by rw [length_take]; omega
  unfold patch
  by_cases before : i < pos
  · rw [if_neg (by omega), append_assoc, List.getElem?_append_left (by omega),
      List.getElem?_take_of_lt before]
  rw [append_assoc, List.getElem?_append_right (by omega), front]
  by_cases inside : i < pos + data.length
  · rw [if_pos (by omega), List.getElem?_append_left (by omega)]
  · rw [if_neg (by omega), List.getElem?_append_right (by omega), List.getElem?_drop]
    congr 1
    omega

theorem readAt_patch_self : readAt (patch page pos data) pos data.length = some data := by
  rw [readAt_eq_some_iff, length_patch fits]
  refine ⟨fits, rfl, ?_⟩
  intro i small
  rw [getElem?_patch fits, if_pos (by omega)]
  congr 1
  omega

theorem readAt_patch_of_disjoint (apart : q + len ≤ pos ∨ pos + data.length ≤ q) :
    readAt (patch page pos data) q len = readAt page q len := by
  by_cases inside : q + len ≤ page.length
  · have whole : readAt page q len = some ((page.drop q).take len) := if_pos inside
    rw [whole, readAt_eq_some_iff, length_patch fits]
    obtain ⟨-, width, same⟩ := readAt_eq_some_iff.mp whole
    refine ⟨inside, width, ?_⟩
    intro i small
    rw [getElem?_patch fits, if_neg (by omega), same i small]
  · rw [readAt, readAt, length_patch fits, if_neg inside, if_neg inside]

end

theorem readAt_append_left (more : Bytes) (inside : q + len ≤ page.length) :
    readAt (page ++ more) q len = readAt page q len := by
  rw [readAt, readAt, if_pos inside, if_pos (by rw [length_append]; omega),
    drop_append_of_le_length (by omega), take_append_of_le_length]
  rw [length_drop]
  omega

theorem readAt_append_right (front : Bytes) (pos len : Nat) :
    readAt (front ++ page) (front.length + pos) len = readAt page pos len := by
  have inside : front.length + pos + len ≤ (front ++ page).length ↔ pos + len ≤ page.length := by
    rw [length_append]
    omega
  unfold readAt
  simp only [inside, drop_append]
  rw [drop_eq_nil_of_le (by omega), nil_append, Nat.add_sub_cancel_left]

theorem readAt_zero_append (data more : Bytes) : readAt (data ++ more) 0 data.length = some data := by
  rw [readAt, if_pos (by rw [length_append]; omega), drop_zero, take_left]

theorem readAt_encodeAll {α : Type} {enc : α → Bytes} (fixed : ∀ a, (enc a).length = width)
    {items : List α} {i : Nat} {a : α} (found : items[i]? = some a) :
    readAt (encodeAll enc items) (i * width) width = some (enc a) := by
  induction items generalizing i with
  | nil => simp at found
  | cons b items ih =>
    cases i with
    | zero =>
      obtain rfl : b = a := by simpa using found
      rw [encodeAll_cons, Nat.zero_mul, readAt_append_left _ (by rw [fixed]; omega), readAt,
        if_pos (by rw [fixed]; omega), drop_zero, take_of_length_le (by rw [fixed])]
    | succ i =>
      rw [encodeAll_cons, Nat.succ_mul, Nat.add_comm, ← fixed b, readAt_append_right, fixed b]
      exact ih (by simpa using found)

theorem readAt_one_eq_some_iff {b : UInt8} : readAt page pos 1 = some [b] ↔ page[pos]? = some b := by
  rw [readAt_eq_some_iff]
  constructor
  · rintro ⟨-, -, same⟩
    simpa using same 0 (by decide)
  intro found
  obtain ⟨inside, -⟩ := List.getElem?_eq_some_iff.mp found
  refine ⟨inside, rfl, ?_⟩
  intro i small
  obtain rfl : i = 0 := by omega
  simpa using found

theorem numberAt_of_readAt (read : readAt page pos width = some (leBytes width n)) (bound : n < 256 ^ width) :
    numberAt width page pos = some n := by
  rw [numberAt, read, Option.map_some, ofLeBytes_leBytes width n bound]

theorem numberAt_append (width : Nat) (front more : Bytes) (bound : n < 256 ^ width) :
    numberAt width (front ++ (leBytes width n ++ more)) front.length = some n := by
  apply numberAt_of_readAt _ bound
  have there := readAt_zero_append (leBytes width n) more
  rw [length_leBytes, ← readAt_append_right front] at there
  exact there

theorem readAt_of_readAt {whole part : Bytes} {from' : Nat} (read : readAt page pos whole.length = some whole)
    (inner : readAt whole from' len = some part) : readAt page (pos + from') len = some part := by
  obtain ⟨bound, -, same⟩ := readAt_eq_some_iff.mp read
  obtain ⟨bound', width, same'⟩ := readAt_eq_some_iff.mp inner
  refine readAt_eq_some_iff.mpr ⟨by omega, width, ?_⟩
  intro i small
  rw [← same' i small, ← same (from' + i) (by omega), Nat.add_assoc]

end Parts

section Slots

def slotBytes (pos len : Nat) : Bytes := leBytes 2 pos ++ leBytes 2 len

def putRecord (dir : Nat) (state : Bytes × Nat × Nat) (record : Bytes) :
    Option (Bytes × Nat × Nat) := do
  let (page, top, slots) := state
  if top < record.length then none
  else
    let page ← writeAt page (top - record.length) record
    let page ← writeAt page (dir + 4 * slots) (slotBytes (top - record.length) record.length)
    return (page, top - record.length, slots + 1)

def putRecords (dir : Nat) (page : Bytes) (records : List Bytes) : Option Bytes :=
  (records.foldlM (putRecord dir) (page, page.length, 0)).map Prod.fst

structure SlotHolds (dir : Nat) (page : Bytes) (slot : Nat) (record : Bytes) (pos : Nat) : Prop where
  behind : dir ≤ pos
  small : pos < 65536
  short : record.length < 65536
  filed : readAt page (dir + 4 * slot) 4 = some (slotBytes pos record.length)
  placed : readAt page pos record.length = some record

def totalLength (records : List Bytes) : Nat := (records.map List.length).sum

variable {slot : Nat} {record page' : Bytes}

@[simp] theorem totalLength_nil : totalLength [] = 0 := rfl

@[simp] theorem totalLength_cons (record : Bytes) (records : List Bytes) :
    totalLength (record :: records) = record.length + totalLength records := by
  simp [totalLength]

@[simp] theorem totalLength_append (left right : List Bytes) :
    totalLength (left ++ right) = totalLength left + totalLength right := by
  simp [totalLength]

@[simp] theorem length_slotBytes (pos len : Nat) : (slotBytes pos len).length = 4 := by
  simp [slotBytes]

variable {dir : Nat} {page : Bytes}

theorem SlotHolds.offset {pos : Nat} (holds : SlotHolds dir page slot record pos) :
    numberAt 2 page (dir + 4 * slot) = some pos := by
  apply numberAt_of_readAt _ holds.small
  rw [← Nat.add_zero (dir + 4 * slot)]
  apply readAt_of_readAt (by rw [length_slotBytes]; exact holds.filed)
  simp [readAt, slotBytes]

theorem SlotHolds.length {pos : Nat} (holds : SlotHolds dir page slot record pos) :
    numberAt 2 page (dir + 4 * slot + 2) = some record.length := by
  apply numberAt_of_readAt _ holds.short
  apply readAt_of_readAt (by rw [length_slotBytes]; exact holds.filed)
  simp [readAt, slotBytes, take_of_length_le]

theorem SlotHolds.congr {pos : Nat} (holds : SlotHolds dir page slot record pos)
    (sameSlot : readAt page' (dir + 4 * slot) 4 = readAt page (dir + 4 * slot) 4)
    (sameRecord : readAt page' pos record.length = readAt page pos record.length) :
    SlotHolds dir page' slot record pos :=
  { holds with filed := sameSlot.trans holds.filed, placed := sameRecord.trans holds.placed }

theorem putRecord_spec (small : page.length < 65536) (record : Bytes) (top slots : Nat)
    (inside : top ≤ page.length) (room : dir + 4 * (slots + 1) + record.length ≤ top) :
    ∃ page', putRecord dir (page, top, slots) record =
        some (page', top - record.length, slots + 1) ∧
      page'.length = page.length ∧
      (∀ pos len, pos + len ≤ dir + 4 * slots ∨ top ≤ pos →
        readAt page' pos len = readAt page pos len) ∧
      SlotHolds dir page' slots record (top - record.length) := by
  let bottom := top - record.length
  have placedFits : bottom + record.length ≤ page.length := by omega
  let placed := patch page bottom record
  have placedLength : placed.length = page.length := length_patch placedFits
  have filedFits : dir + 4 * slots + (slotBytes bottom record.length).length ≤ placed.length := by
    rw [length_slotBytes, placedLength]
    omega
  refine ⟨patch placed (dir + 4 * slots) (slotBytes bottom record.length), ?_,
    (length_patch filedFits).trans placedLength, ?_, by omega, by omega, by omega, ?_, ?_⟩
  · simp only [putRecord, if_neg (by omega : ¬ top < record.length), writeAt, if_pos placedFits,
      bottom, Option.bind_eq_bind, Option.bind_some]
    rw [if_pos filedFits]
    rfl
  · intro pos len apart
    rw [readAt_patch_of_disjoint filedFits (by rw [length_slotBytes]; omega),
      readAt_patch_of_disjoint placedFits (by omega)]
  · rw [← length_slotBytes bottom record.length]
    exact readAt_patch_self filedFits
  · rw [readAt_patch_of_disjoint filedFits (by rw [length_slotBytes]; omega)]
    exact readAt_patch_self placedFits

theorem foldlM_putRecord_spec (small : page.length < 65536) (records : List Bytes) (top slots : Nat)
    (inside : top ≤ page.length) (room : dir + 4 * (slots + records.length) + totalLength records ≤ top) :
    ∃ page' top', records.foldlM (putRecord dir) (page, top, slots) =
        some (page', top', slots + records.length) ∧
      page'.length = page.length ∧
      (∀ pos len, pos + len ≤ dir + 4 * slots ∨ top ≤ pos →
        readAt page' pos len = readAt page pos len) ∧
      ∀ i record, records[i]? = some record →
        ∃ pos, SlotHolds dir page' (slots + i) record pos := by
  induction records generalizing page top slots with
  | nil => exact ⟨page, top, rfl, rfl, fun _ _ _ => rfl, by simp⟩
  | cons record records ih =>
    simp only [length_cons, totalLength_cons] at room
    have room' : dir + 4 * (slots + 1) + record.length ≤ top := by omega
    obtain ⟨filed, step, filedLength, filedFrame, holds⟩ :=
      putRecord_spec small record top slots inside room'
    have small' : filed.length < 65536 := by omega
    obtain ⟨page', top', rest, length, frame, reads⟩ :=
      ih small' (top - record.length) (slots + 1) (by omega) (by omega)
    refine ⟨page', top', ?_, by omega, ?_, ?_⟩
    · rw [foldlM_cons, step, Option.bind_eq_bind, Option.bind_some, rest, length_cons]
      congr 3
      omega
    · intro pos len apart
      rw [frame pos len (by omega), filedFrame pos len apart]
    · intro i other found
      cases i with
      | succ i =>
        rw [← Nat.add_assoc, Nat.add_right_comm]
        exact reads i other found
      | zero =>
        obtain rfl : record = other := by simpa using found
        exact ⟨_, holds.congr (frame _ _ (.inl (by omega))) (frame _ _ (.inr (Nat.le_refl _)))⟩

theorem putRecords_spec (small : page.length < 65536) (records : List Bytes)
    (fits : dir + 4 * records.length + totalLength records ≤ page.length) :
    ∃ page', putRecords dir page records = some page' ∧ page'.length = page.length ∧
      (∀ pos len, pos + len ≤ dir → readAt page' pos len = readAt page pos len) ∧
      ∀ i record, records[i]? = some record → ∃ pos, SlotHolds dir page' i record pos := by
  have room : dir + 4 * (0 + records.length) + totalLength records ≤ page.length := by omega
  obtain ⟨page', top', run, length, frame, reads⟩ :=
    foldlM_putRecord_spec small records page.length 0 (Nat.le_refl _) room
  refine ⟨page', by rw [putRecords, run]; rfl, length, ?_, ?_⟩
  · exact fun pos len before => frame pos len (Or.inl (by omega))
  · intro i record found
    rw [← Nat.zero_add i]
    exact reads i record found

end Slots

end SlottedPage
