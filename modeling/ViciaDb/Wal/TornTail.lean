import ViciaDb.Db.LogFile
import ViciaDb.Wal.Postcard

namespace ViciaDb.Wal

open ByteReader List

section Log

variable (codec : Codec)

def appendEntries (file : Bytes) (entries : List WalEntry) : Except String Bytes :=
  entries.foldlM (fun file entry => do
    let bytes ← serializeEntry codec entry.txCount entry.facts
    return file ++ bytes) file

def readEntries (file : Bytes) : Except String (List WalEntry) := do
  openReader file
  return (visitEntries codec file).1

def entryEnds (start : Nat) : List WalEntry → List (WalEntry × Nat)
  | [] => []
  | entry :: rest =>
    let stop := start + (entryBytes codec entry).length
    (entry, stop) :: entryEnds stop rest

def entriesWithin (n : Nat) (entries : List WalEntry) : List WalEntry :=
  ((entryEnds codec walHeaderSize entries).filter fun placed => decide (placed.2 ≤ n)).map Prod.fst

end Log

variable {codec : Codec}

theorem appendEntries_eq (file : Bytes) (entries : List WalEntry) (log : Bytes)
    (written : appendEntries codec file entries = .ok log) :
    log = file ++ encodeAll (entryBytes codec) entries ∧
      ∀ entry ∈ entries, ∃ bytes, serializeEntry codec entry.txCount entry.facts = .ok bytes := by
  induction entries generalizing file with
  | nil =>
    cases written
    simp
  | cons entry rest ih =>
    rw [appendEntries, foldlM_cons] at written
    obtain ⟨_, first, written⟩ := Except.bind_eq_ok_iff.mp written
    obtain ⟨bytes, serialized, ⟨⟩⟩ := Except.bind_eq_ok_iff.mp first
    obtain ⟨same, others⟩ := ih (file ++ bytes) written
    refine ⟨?_, forall_mem_cons.mpr ⟨⟨bytes, serialized⟩, others⟩⟩
    have encoded : entryBytes codec entry = bytes := by simp [entryBytes, serialized]
    rw [same, encodeAll_cons, encoded, append_assoc]

variable {entries : List WalEntry}

theorem reads_of_serialized (roundTrips : codec.RoundTrips)
    (few : ∀ entry ∈ entries, entry.facts.length ≤ maxFactsPerEntry)
    (serialized : ∀ entry ∈ entries, ∃ bytes, serializeEntry codec entry.txCount entry.facts = .ok bytes) :
    Reads (readEntry codec) (entryBytes codec) entries := by
  intro entry member
  obtain ⟨bytes, encoded⟩ := serialized entry member
  exact reads_serialized roundTrips encoded (few entry member)

section Ends

variable {start n : Nat}

theorem entryEnds_append (left right : List WalEntry) :
    entryEnds codec start (left ++ right) = entryEnds codec start left ++
      entryEnds codec (start + (encodeAll (entryBytes codec) left).length) right := by
  induction left generalizing start with
  | nil => simp [entryEnds]
  | cons entry rest ih => simp [entryEnds, ih, Nat.add_assoc]

variable {placed : WalEntry × Nat}

theorem start_le_of_mem_entryEnds (member : placed ∈ entryEnds codec start entries) : start ≤ placed.2 := by
  induction entries generalizing start with
  | nil => cases member
  | cons entry rest ih =>
    rcases mem_cons.mp member with rfl | member
    · exact Nat.le_add_right _ _
    · exact Nat.le_trans (Nat.le_add_right _ _) (ih member)

theorem le_of_mem_entryEnds (member : placed ∈ entryEnds codec start entries) :
    placed.2 ≤ start + (encodeAll (entryBytes codec) entries).length := by
  induction entries generalizing start with
  | nil => cases member
  | cons entry rest ih =>
    rw [encodeAll_cons, length_append]
    rcases mem_cons.mp member with rfl | member
    · exact Nat.add_le_add_left (Nat.le_add_right _ _) _
    · have bound := ih member
      omega

theorem map_fst_entryEnds (entries : List WalEntry) :
    (entryEnds codec start entries).map Prod.fst = entries := by
  induction entries generalizing start with
  | nil => rfl
  | cons entry rest ih => simp [entryEnds, ih]

theorem filter_entryEnds {kept lost : List WalEntry}
    (inside : start + (encodeAll (entryBytes codec) kept).length ≤ n)
    (outside : ∀ entry rest, lost = entry :: rest →
      n < start + (encodeAll (entryBytes codec) (kept ++ [entry])).length) :
    ((entryEnds codec start (kept ++ lost)).filter fun placed => decide (placed.2 ≤ n)).map
      Prod.fst = kept := by
  rw [entryEnds_append, filter_append, map_append]
  have front : (entryEnds codec start kept).filter (fun placed => decide (placed.2 ≤ n)) =
      entryEnds codec start kept := by
    rw [filter_eq_self]
    exact fun placed member => decide_eq_true ((le_of_mem_entryEnds member).trans inside)
  have back : (entryEnds codec (start + (encodeAll (entryBytes codec) kept).length) lost).filter
      (fun placed => decide (placed.2 ≤ n)) = [] := by
    rw [filter_eq_nil_iff]
    intro placed member small
    cases lost with
    | nil => cases member
    | cons entry rest =>
      have large := outside entry rest rfl
      rw [encodeAll_append, length_append, encodeAll_cons, encodeAll_nil,
        append_nil, ← Nat.add_assoc] at large
      have first : start + (encodeAll (entryBytes codec) kept).length +
          (entryBytes codec entry).length ≤ placed.2 := by
        rcases mem_cons.mp member with rfl | member
        · exact Nat.le_refl _
        · exact start_le_of_mem_entryEnds member
      have small := of_decide_eq_true small
      omega
  rw [front, back, map_fst_entryEnds, map_nil, append_nil]

end Ends

/-- A log cut anywhere is read as the entries that lie wholly before the cut. -/
theorem readEntries_take (roundTrips : codec.RoundTrips) (entries : List WalEntry)
    (few : ∀ entry ∈ entries, entry.facts.length ≤ maxFactsPerEntry) (file log : Bytes)
    (fresh : openOrCreate none = .ok file) (written : appendEntries codec file entries = .ok log) (n : Nat) :
    readEntries codec (log.take n) = .ok (entriesWithin codec n entries) := by
  cases fresh
  obtain ⟨rfl, serialized⟩ := appendEntries_eq _ entries log written
  have reads := reads_of_serialized roundTrips few serialized
  by_cases inHeader : n < walHeaderSize
  · -- the writer replaces a short header, so the reader takes it for an empty log
    have short : ((walHeader ++ encodeAll (entryBytes codec) entries).take n).length < walHeaderSize := by
      rw [length_take]
      omega
    have none : entriesWithin codec n entries = [] := by
      rw [entriesWithin, map_eq_nil_iff, filter_eq_nil_iff]
      intro placed member small
      have bound := start_le_of_mem_entryEnds member
      have small := of_decide_eq_true small
      omega
    rw [readEntries, openReader, if_neg (Nat.not_le.mpr short), visitEntries_short short, none]
    rfl
  · obtain ⟨kept, lost, front, split, bytes, stop, complete⟩ :=
      encodeAll_take stable_readEntry entries [] reads readEntry_nil (n - walHeaderSize)
    rw [append_nil] at bytes
    have cut : (walHeader ++ encodeAll (entryBytes codec) entries).take n =
        walHeader ++ (encodeAll (entryBytes codec) kept ++ front) := by
      rw [take_append, walHeader_length, bytes, take_of_length_le (by rw [walHeader_length]; omega)]
    have inside : walHeaderSize + (encodeAll (entryBytes codec) kept).length ≤ n := by
      have length := congrArg List.length bytes
      rw [length_take, length_append] at length
      omega
    have keptReads : Reads (readEntry codec) (entryBytes codec) kept :=
      fun entry member => reads entry (by rw [split]; exact mem_append_left _ member)
    have visited : visitEntries codec (walHeader ++ (encodeAll (entryBytes codec) kept ++ front)) =
        (kept, front) := by
      rw [visitEntries, ← walHeader_length, drop_left, readAll_encodeAll _ _ keptReads stop]
    have opened : openReader (walHeader ++ (encodeAll (entryBytes codec) kept ++ front)) = .ok () := by
      rw [openReader, validateWalHeader_append, ite_self]
    have whole : entriesWithin codec n entries = kept := by
      rw [entriesWithin, split]
      refine filter_entryEnds inside fun entry rest first => ?_
      by_contra fits
      have shorter := (complete (kept ++ [entry]) rest (by rw [split, first]; simp) (by omega)).length_le
      simp at shorter
    rw [cut, readEntries, opened, visited, whole]
    rfl

section Examples

def twoEntries : List WalEntry :=
  [{ txCount := 1
     facts := [{ entity := 7, attr := ":age", value := .integer 30, txId := 5, txCount := 1
                 validFrom := 5, validTo := validTimeForever, asserted := true }] },
   { txCount := 2, facts := [] }]

/-- The last byte of the log is missing. -/
theorem readEntries_take_twoEntries :
    ∃ log, appendEntries Postcard.postcard walHeader twoEntries = .ok log ∧
      readEntries Postcard.postcard (log.take (log.length - 1)) = .ok (twoEntries.take 1) := by
  have within : (appendEntries Postcard.postcard walHeader twoEntries).toOption.map
      (fun log => entriesWithin Postcard.postcard (log.length - 1) twoEntries) =
        some (twoEntries.take 1) := by decide +kernel
  cases written : appendEntries Postcard.postcard walHeader twoEntries with
  | error message =>
    rw [written] at within
    cases within
  | ok log =>
    rw [written] at within
    refine ⟨log, rfl, ?_⟩
    rw [readEntries_take Postcard.postcard_roundTrips twoEntries (by decide) walHeader log rfl written]
    exact congrArg Except.ok (Option.some.inj within)

end Examples

end ViciaDb.Wal
