import ViciaDb.Storage.BaseCheckpoint

namespace ViciaDb.PackedPages

open ByteReader SlottedPage BTree Wal.Postcard List

def PackedFactPacker.takeCompletedPages (packer : PackedFactPacker) : List Bytes × PackedFactPacker :=
  (packer.pages, { packer with pages := [] })

def streamFacts (packer : PackedFactPacker) : List (Fact × Bool) → Except String (List Bytes × List FactRef)
  | [] => .ok (packer.finish, [])
  | (fact, drain) :: rest => do
    let (packer, ref) ← packer.push fact
    let (taken, packer) := if drain then packer.takeCompletedPages else ([], packer)
    let (pages, refs) ← streamFacts packer rest
    return (taken ++ pages, ref :: refs)

section Streaming

def PackedFactPacker.after (front : List Bytes) (packer : PackedFactPacker) : PackedFactPacker :=
  { packer with pages := front ++ packer.pages }

variable {packer : PackedFactPacker} {front : List Bytes}

theorem makeRoom_after (front : List Bytes) (packer : PackedFactPacker) (len : Nat) :
    (packer.after front).makeRoom len = (packer.makeRoom len).after front := by
  by_cases full : packer.dataOffset - (packer.dirOffset + 4) < len ∨ packer.currentRecordCount = 65535
  · have left : (packer.after front).makeRoom len = (packer.after front).flush := if_pos full
    have right : packer.makeRoom len = packer.flush := if_pos full
    rw [left, right]
    simp [PackedFactPacker.flush, PackedFactPacker.after]
  · have left : (packer.after front).makeRoom len = packer.after front := if_neg full
    have right : packer.makeRoom len = packer := if_neg full
    rw [left, right]

theorem place_after (front : List Bytes) (packer : PackedFactPacker) (serialised : Bytes) :
    (packer.after front).place serialised =
      (packer.place serialised).map fun (packer', ref) => (packer'.after front, ref) := by
  have fields : putRecord packedHeaderSize ((packer.after front).currentPage,
      (packer.after front).dataOffset, (packer.after front).currentRecordCount) serialised =
    putRecord packedHeaderSize (packer.currentPage, packer.dataOffset, packer.currentRecordCount)
      serialised := rfl
  rw [PackedFactPacker.place, PackedFactPacker.place, fields]
  split
  · rfl
  by_cases last : 2 ^ 64 ≤ packer.startPageId + packer.completedPageCount
  · refine (if_pos last).trans ?_
    rw [if_pos last]
    rfl
  · refine (if_neg last).trans ?_
    rw [if_neg last]
    rfl

theorem push_after (front : List Bytes) (packer : PackedFactPacker) (fact : Fact) :
    (packer.after front).push fact =
      (packer.push fact).map fun (packer', ref) => (packer'.after front, ref) := by
  rw [PackedFactPacker.push, PackedFactPacker.push]
  split
  · rfl
  · rw [makeRoom_after, place_after]

theorem streamFacts_after (front : List Bytes) (packer : PackedFactPacker) (marked : List (Fact × Bool)) :
    streamFacts (packer.after front) marked =
      (streamFacts packer marked).map fun (pages, refs) => (front ++ pages, refs) := by
  induction marked generalizing packer front with
  | nil => simp [streamFacts, PackedFactPacker.finish, PackedFactPacker.after, Except.map]
  | cons first rest ih =>
    obtain ⟨fact, drain⟩ := first
    rw [streamFacts, streamFacts, push_after]
    cases packer.push fact with
    | error message => rfl
    | ok pushed =>
      obtain ⟨packer', ref⟩ := pushed
      cases drain with
      | false =>
        simp only [Except.map, bind, Except.bind, Bool.false_eq_true, if_false, ih front packer']
        cases streamFacts packer' rest <;> rfl
      | true =>
        simp only [Except.map, bind, Except.bind, if_true, PackedFactPacker.takeCompletedPages,
          PackedFactPacker.after]
        cases streamFacts { packer' with pages := [] } rest with
        | error message => rfl
        | ok result => simp [pure, Except.pure]

theorem streamFacts_eq (packer : PackedFactPacker) (marked : List (Fact × Bool)) :
    streamFacts packer marked = do
      let (packer', refs) ← packer.pushAll (marked.map Prod.fst)
      return (packer'.finish, refs) := by
  induction marked generalizing packer with
  | nil => rfl
  | cons first rest ih =>
    obtain ⟨fact, drain⟩ := first
    rw [streamFacts, map_cons, PackedFactPacker.pushAll]
    cases packer.push fact with
    | error message => rfl
    | ok pushed =>
      obtain ⟨packer', ref⟩ := pushed
      have whole := congrArg (Except.map fun (pages, refs) => (pages, ref :: refs)) (ih packer')
      have drained := streamFacts_after packer'.pages { packer' with pages := [] } rest
      rw [PackedFactPacker.after, append_nil] at drained
      cases drain with
      | false =>
        change (streamFacts packer' rest >>= _) = (packer'.pushAll (rest.map Prod.fst) >>= _) >>= _
        generalize streamFacts packer' rest = streamed at whole ⊢
        generalize packer'.pushAll (rest.map Prod.fst) = pushed at whole ⊢
        cases streamed <;> cases pushed <;> exact whole
      | true =>
        rw [show streamFacts packer' rest = _ from drained] at whole
        change (streamFacts { packer' with pages := [] } rest >>= _) = (packer'.pushAll (rest.map Prod.fst) >>= _) >>= _
        generalize streamFacts { packer' with pages := [] } rest = streamed at whole ⊢
        generalize packer'.pushAll (rest.map Prod.fst) = pushed at whole ⊢
        cases streamed <;> cases pushed <;> exact whole

end Streaming

theorem ne_nil_of_mem_groupFrom {cur facts group : List Fact} (some : cur ≠ [])
    (member : group ∈ groupFrom cur facts) : group ≠ [] := by
  induction facts generalizing cur with
  | nil =>
    obtain rfl : group = cur := by simpa [groupFrom] using member
    exact some
  | cons fact facts ih =>
    rw [groupFrom] at member
    split at member
    · rcases mem_cons.mp member with rfl | member
      · exact some
      · exact ih (by simp) member
    · exact ih (by simp) member

structure RoundTrips (facts : List Fact) (startPageId : Nat) (before : Pages) (drains : List Bool)
    (packed : List Bytes) (refs : List FactRef) : Prop where
  packs : packFacts facts startPageId = .ok (packed, refs)
  streams : streamFacts (PackedFactPacker.new startPageId) (facts.zip drains) = .ok (packed, refs)
  reads : readAllFromPages (writePages before startPageId packed) startPageId packed.length = .ok facts
  matching : refs.length = facts.length
  resolves : ∀ pair ∈ facts.zip refs,
    resolve (writePages before startPageId packed) pair.2 = .ok pair.1
  used : facts ≠ [] → ∀ page ∈ packed, ∃ records, openPacked page = .ok records ∧ 0 < records

theorem RoundTrips.of_fits {facts : List Fact} {startPageId : Nat} (before : Pages) {drains : List Bool}
    (each : drains.length = facts.length) (small : ∀ fact ∈ facts, (encFact fact).length ≤ Wal.maxFactBytes)
    (ids64 : startPageId + (groupFrom [] facts).length ≤ 2 ^ 64) :
    ∃ packed refs, RoundTrips facts startPageId before drains packed refs := by
  obtain ⟨packed, packs, reads⟩ := packFacts_spec facts startPageId small ids64
  have holds := holdGroups_writePages before startPageId reads
  refine ⟨packed, _, packs, ?_, ?_, length_refsFrom startPageId [] facts, ?_, ?_⟩
  · rw [streamFacts_eq, map_fst_zip (by omega)]
    exact packs
  · rw [reads.length_eq, readAllFromPages_of_groups _ holds, flatten_groupFrom]
    rfl
  · rintro ⟨fact, ref⟩ member
    obtain ⟨page, there, read⟩ := readSlot_of_mem_zip member holds small ids64
    rw [resolve, Pages.load, there]
    exact read
  · intro some page member
    obtain ⟨i, bound, rfl⟩ := getElem_of_mem member
    obtain ⟨lengths, pagewise⟩ := forall₂_iff_get.mp reads
    have read := pagewise i bound (lengths ▸ bound)
    have inGroups := get_mem (groupFrom [] facts) ⟨i, lengths ▸ bound⟩
    generalize (groupFrom [] facts).get ⟨i, lengths ▸ bound⟩ = group at read inGroups
    refine ⟨group.length, read.openPacked, length_pos_iff.mpr ?_⟩
    cases facts with
    | nil => exact absurd rfl some
    | cons fact facts =>
      have alone := packedBytes_singleton (small fact (by simp))
      rw [groupFrom, if_neg (by simpa using alone)] at inGroups
      exact ne_nil_of_mem_groupFrom (by simp) inGroups

/-- Facts of the accepted size come back exactly when the ids of their pages are 64-bit numbers; otherwise
    packing fails. -/
theorem roundTrips_iff (facts : List Fact) (startPageId : UInt64) (before : Pages) (drains : List Bool)
    (each : drains.length = facts.length)
    (accepted : ∀ fact ∈ facts, (encFact fact).length ≤ Wal.maxFactBytes) :
    (∃ packed refs, RoundTrips facts startPageId.toNat before drains packed refs) ↔
      startPageId.toNat + (groupFrom [] facts).length ≤ 2 ^ 64 := by
  constructor
  · rintro ⟨packed, refs, trip⟩
    refine Nat.le_of_not_lt fun beyond => ?_
    have packs := trip.packs
    rw [packFacts_overflow accepted startPageId.toNat_lt beyond] at packs
    cases packs
  · exact RoundTrips.of_fits before each accepted

theorem groupFrom_textFacts {text : String} (size : (utf8Bytes text).length = 4052) :
    groupFrom [] [textFact text, textFact text] = [[textFact text], [textFact text]] := by
  obtain ⟨alone, full⟩ := packedBytes_textFact size
  rw [groupFrom, nil_append, if_neg alone, groupFrom, singleton_append, if_pos full, groupFrom]

theorem accepted_longTexts :
    ∀ fact ∈ [textFact longText, textFact longText], (encFact fact).length ≤ Wal.maxFactBytes := by
  intro fact member
  obtain rfl : fact = textFact longText := by simpa using member
  rw [length_encFact_textFact length_longText]
  decide

/-- Two facts of the largest accepted size, each on a page of its own, with a drain after each push. -/
theorem roundTrips_iff_twoPages : ∃ packed refs,
    RoundTrips [textFact longText, textFact longText] 1 (fun _ => none) [true, true] packed refs := by
  refine (roundTrips_iff _ 1 (fun _ => none) [true, true] rfl accepted_longTexts).mpr ?_
  rw [groupFrom_textFacts length_longText]
  decide

/-- The second of these facts is for a page behind the last one. -/
theorem packFacts_beyond_last_page :
    (∀ fact ∈ [textFact longText, textFact longText], (encFact fact).length ≤ Wal.maxFactBytes) ∧
      packFacts [textFact longText, textFact longText] (2 ^ 64 - 1) = .error "packed fact page id overflow" := by
  refine ⟨accepted_longTexts, packFacts_overflow accepted_longTexts (by decide) ?_⟩
  rw [groupFrom_textFacts length_longText]
  decide

end ViciaDb.PackedPages
