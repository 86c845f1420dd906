import ViciaDb.Db.Durability

namespace ViciaDb

open ByteReader Wal List

variable {codec : Codec}

def entryBytes (codec : Codec) (entry : WalEntry) : Bytes :=
  match serializeEntry codec entry.txCount entry.facts with
  | .ok bytes => bytes
  | .error _ => []

structure LogBody (codec : Codec) (file : Bytes) (logged : List Attempt) (tail : Bytes) : Prop where
  bytes : file = walHeader ++ (encodeAll (entryBytes codec) (logged.map Attempt.entry) ++ tail)
  reads : Reads (readEntry codec) (entryBytes codec) (logged.map Attempt.entry)
  stop : readEntry codec tail = none

inductive LogFile (codec : Codec) : Option Bytes → List Attempt → Bytes → Prop
  | absent : LogFile codec none [] []
  | short {file : Bytes} (part : file.length < walHeaderSize) : LogFile codec (some file) [] []
  | whole {file : Bytes} {logged : List Attempt} {tail : Bytes}
      (body : LogBody codec file logged tail) : LogFile codec (some file) logged tail

section Header

theorem walHeader_length : walHeader.length = walHeaderSize := by decide

theorem validateWalHeader_append (rest : Bytes) : validateWalHeader (walHeader ++ rest) = .ok () := by
  have long : ¬ (walHeader ++ rest).length < walHeaderSize := by
    rw [length_append, walHeader_length]; omega
  have magic : (walHeader ++ rest).take 4 = walMagic := rfl
  have version : ofLeBytes (((walHeader ++ rest).drop 4).take 4) = walVersion := rfl
  simp only [validateWalHeader, long, ↓reduceIte, magic, version, ne_eq, not_true_eq_false]

theorem readEntry_nil : readEntry codec [] = none := rfl

theorem LogBody.empty : LogBody codec walHeader [] [] :=
  ⟨by simp, by simp [Reads], readEntry_nil⟩

variable {file tail : Bytes} {logged : List Attempt}

section

variable (body : LogBody codec file logged tail)
include body

theorem LogBody.length_le : walHeaderSize ≤ file.length := by
  rw [body.bytes, length_append, walHeader_length]
  omega

theorem LogBody.header : validateWalHeader file = .ok () := by
  rw [body.bytes]
  exact validateWalHeader_append _

theorem LogBody.openReader : Wal.openReader file = .ok () := by
  simp [Wal.openReader, body.length_le, body.header]

theorem LogBody.openOrCreate : Wal.openOrCreate (some file) = .ok file := by
  simp [Wal.openOrCreate, Nat.not_lt.mpr body.length_le, body.header, bind, Except.bind, pure, Except.pure]

theorem LogBody.visitEntries : Wal.visitEntries codec file = (logged.map Attempt.entry, tail) := by
  have rest : file.drop walHeaderSize = encodeAll (entryBytes codec) (logged.map Attempt.entry) ++ tail := by
    rw [body.bytes, ← walHeader_length, drop_left]
  rw [Wal.visitEntries, rest, readAll_encodeAll _ _ body.reads body.stop]

end

theorem visitEntries_short (part : file.length < walHeaderSize) :
    Wal.visitEntries codec file = ([], []) := by
  have none : file.drop walHeaderSize = [] := drop_eq_nil_iff.mpr (Nat.le_of_lt part)
  rw [Wal.visitEntries, none]
  rfl

theorem LogFile.tornTail {disk : Disk} (file : LogFile codec disk.wal logged tail) :
    tornTail codec disk = tail := by
  unfold ViciaDb.tornTail
  generalize disk.wal = wal at file
  cases file with
  | absent => rfl
  | short part => simp only [visitEntries_short part]
  | whole body => simp only [body.visitEntries]

end Header

section Cut

theorem LogFile.cut {wal : Option Bytes} {logged : List Attempt} {tail : Bytes}
    (file : LogFile codec wal logged tail) (cut : Nat) :
    ∃ kept lost front, logged = kept ++ lost ∧
      LogFile codec (wal.map (·.take cut)) kept front ∧
      ∀ first second, logged = first ++ second →
        walHeaderSize + (encodeAll (entryBytes codec) (first.map Attempt.entry)).length ≤ cut →
        first <+: kept := by
  cases file with
  | absent => exact ⟨[], [], [], rfl, .absent, fun first second split _ => by simp_all⟩
  | short part =>
    refine ⟨[], [], [], rfl, .short ?_, fun first second split _ => by simp_all⟩
    rw [length_take]
    omega
  | whole body =>
    by_cases inHeader : cut < walHeaderSize
    · refine ⟨[], logged, [], rfl, .short ?_, fun first second split inside => ?_⟩
      · rw [length_take]
        omega
      · omega
    · obtain ⟨kept, lost, front, split, bytes, stop, complete⟩ :=
        encodeAll_take stable_readEntry _ tail body.reads body.stop (cut - walHeaderSize)
      obtain ⟨keptAttempts, lostAttempts, rfl, rfl, rfl⟩ := map_eq_append_iff.mp split
      refine ⟨keptAttempts, lostAttempts, front, rfl, .whole ⟨?_, ?_, stop⟩, ?_⟩
      · dsimp only
        rw [body.bytes, take_append, walHeader_length, bytes,
          take_of_length_le (by rw [walHeader_length]; omega)]
      · exact fun entry member => body.reads entry (by rw [split]; simp [member])
      · intro first second split' inside
        have shorter := complete (first.map Attempt.entry) (second.map Attempt.entry)
          (by rw [← map_append, split']) (by omega)
        have lengths := shorter.length_le
        rw [length_map, length_map] at lengths
        exact prefix_of_prefix_length_le (split' ▸ prefix_append first second)
          (prefix_append keptAttempts lostAttempts) lengths

end Cut

section Append

variable {file tail : Bytes} {logged : List Attempt}

theorem LogBody.append_unreadable (body : LogBody codec file logged tail) {written : Bytes}
    (unreadable : readEntry codec (tail ++ written) = none) :
    LogBody codec (file ++ written) logged (tail ++ written) :=
  ⟨by rw [body.bytes]; simp, body.reads, unreadable⟩

theorem reads_serialized (roundTrips : codec.RoundTrips) {entry : WalEntry} {bytes : Bytes}
    (serialized : serializeEntry codec entry.txCount entry.facts = .ok bytes)
    (few : entry.facts.length ≤ maxFactsPerEntry) :
    entryBytes codec entry ≠ [] ∧
      ∀ more, readEntry codec (entryBytes codec entry ++ more) = some (entry, more) := by
  have encoded : entryBytes codec entry = bytes := by simp only [entryBytes, serialized]
  rw [encoded]
  have read := readEntry_append roundTrips entry bytes serialized few
  refine ⟨fun empty => ?_, read⟩
  have nothing := read []
  rw [empty, append_nil, readEntry_nil] at nothing
  cases nothing

theorem LogBody.append_entry (body : LogBody codec file logged []) (roundTrips : codec.RoundTrips)
    (attempt : Attempt) {bytes : Bytes}
    (serialized : serializeEntry codec attempt.entry.txCount attempt.entry.facts = .ok bytes)
    (few : attempt.entry.facts.length ≤ maxFactsPerEntry) :
    LogBody codec (file ++ bytes) (logged ++ [attempt]) [] := by
  have encoded : entryBytes codec attempt.entry = bytes := by simp [entryBytes, serialized]
  refine ⟨?_, ?_, readEntry_nil⟩
  · rw [body.bytes]
    simp [encoded]
  rw [map_append]
  apply body.reads.append
  intro entry member
  rw [map_singleton, mem_singleton] at member
  subst member
  exact reads_serialized roundTrips serialized few

theorem readEntry_tooMany (entry : WalEntry) (bytes : Bytes)
    (serialized : serializeEntry codec entry.txCount entry.facts = .ok bytes)
    (many : maxFactsPerEntry < entry.facts.length) (fits : entry.facts.length < 2^64) (more : Bytes) :
    readEntry codec (bytes ++ more) = none := by
  obtain ⟨facts, -, ⟨⟩⟩ := Except.bind_eq_ok_iff.mp serialized
  have count : ofLeBytes (leBytes 8 entry.facts.length) = entry.facts.length :=
    ofLeBytes_leBytes 8 _ fits
  simp only [append_assoc]
  rw [readEntry, bind_of_some (readExact_leBytes 4 _ _), bind_of_some (readExact_leBytes 8 _ _),
    bind_of_some (readExact_leBytes 8 _ _), count, if_pos many]
  rfl

theorem readEntry_take (roundTrips : codec.RoundTrips) (entry : WalEntry) (bytes : Bytes)
    (serialized : serializeEntry codec entry.txCount entry.facts = .ok bytes)
    (fits : entry.facts.length < 2^64) (written : Nat) (part : written < bytes.length) :
    readEntry codec (bytes.take written) = none := by
  by_cases few : entry.facts.length ≤ maxFactsPerEntry
  · have read := readEntry_append roundTrips entry bytes serialized few []
    rw [append_nil, ← take_append_drop written bytes] at read
    apply stable_readEntry.truncated read
    simp only [ne_eq, drop_eq_nil_iff]
    omega
  · have refused := readEntry_tooMany entry bytes serialized (Nat.lt_of_not_le few) fits []
    rw [append_nil, ← take_append_drop written bytes] at refused
    exact stable_readEntry.front_none refused

end Append

end ViciaDb
