import ViciaDb.Lib.ExceptList
import ViciaDb.Wal.Format

namespace ViciaDb.Wal

open ByteReader

variable {codec : Codec}

def Codec.RoundTrips (codec : Codec) : Prop := ∀ fact, codec.ofBytes (codec.toBytes fact) = some fact

section Reading

theorem readFact_append (roundTrips : codec.RoundTrips) (fact : Fact)
    (small : (codec.toBytes fact).length ≤ maxFactBytes) (more : Bytes) :
    readFact codec (leBytes 4 (codec.toBytes fact).length ++ codec.toBytes fact ++ more) =
      some ((fact, leBytes 4 (codec.toBytes fact).length ++ codec.toBytes fact), more) := by
  have fits : (codec.toBytes fact).length < 256 ^ 4 :=
    Nat.lt_of_le_of_lt small (by decide)
  have size : ofLeBytes (leBytes 4 (codec.toBytes fact).length) = (codec.toBytes fact).length :=
    ofLeBytes_leBytes 4 _ fits
  have allowed : ¬ maxFactSize < (codec.toBytes fact).length :=
    Nat.not_lt.mpr (Nat.le_trans small (by decide))
  rw [readFact, List.append_assoc, bind_of_some (readExact_leBytes 4 _ _), size, if_neg allowed,
    bind_of_some (readExact_append _ _), roundTrips fact]
  rfl

theorem readFacts_append (roundTrips : codec.RoundTrips) (facts : List Fact) (body : Bytes)
    (serialized : serializeFacts codec facts = .ok body) (more : Bytes) :
    readFacts codec facts.length (body ++ more) = some ((facts, body), more) := by
  induction facts generalizing body with
  | nil =>
    cases serialized
    rfl
  | cons fact facts ih =>
    by_cases large : maxFactBytes < (codec.toBytes fact).length
    · simp [serializeFacts, large] at serialized
    rw [serializeFacts, if_neg large] at serialized
    obtain ⟨rest, tail, ⟨⟩⟩ := Except.bind_eq_ok_iff.mp serialized
    have first := readFact_append roundTrips fact (Nat.le_of_not_lt large) (rest ++ more)
    rw [List.length_cons, readFacts, List.append_assoc _ rest, bind_of_some first]
    simp only [bind_of_some (ih rest tail)]
    rfl

theorem readEntry_append (roundTrips : codec.RoundTrips) (entry : WalEntry) (bytes : Bytes)
    (serialized : serializeEntry codec entry.txCount entry.facts = .ok bytes)
    (few : entry.facts.length ≤ maxFactsPerEntry) (more : Bytes) :
    readEntry codec (bytes ++ more) = some (entry, more) := by
  obtain ⟨facts, body, ⟨⟩⟩ := Except.bind_eq_ok_iff.mp serialized
  have countFits : entry.facts.length < 256 ^ 8 := Nat.lt_of_le_of_lt few (by decide)
  have count : ofLeBytes (leBytes 8 entry.facts.length) = entry.facts.length :=
    ofLeBytes_leBytes 8 _ countFits
  have txCount : ofLeBytes (leBytes 8 entry.txCount.toNat) = entry.txCount.toNat :=
    ofLeBytes_leBytes 8 _ entry.txCount.toNat_lt
  have checksum (payload : Bytes) :
      ofLeBytes (leBytes 4 (codec.crc32 payload).toNat) = (codec.crc32 payload).toNat :=
    ofLeBytes_leBytes 4 _ (codec.crc32 payload).toNat_lt
  have read := readFacts_append roundTrips entry.facts facts body more
  simp only [List.append_assoc]
  rw [readEntry, bind_of_some (readExact_leBytes 4 _ _), bind_of_some (readExact_leBytes 8 _ _),
    bind_of_some (readExact_leBytes 8 _ _), count, if_neg (Nat.not_lt.mpr few),
    bind_of_some read]
  simp only [checksum, List.append_assoc, ne_eq, not_true_eq_false, ↓reduceIte, txCount, UInt64.ofNat_toNat]
  rfl

theorem stable_readFact : Stable (readFact codec) := by
  apply (stable_readExact 4).bind
  intro lenBuf
  split
  · exact stable_failure
  apply (stable_readExact _).bind
  intro factBytes
  split
  · exact stable_failure
  · exact stable_pure _

theorem stable_readFacts (n : Nat) : Stable (readFacts codec n) := by
  induction n with
  | zero => exact stable_pure _
  | succ n ih =>
    apply stable_readFact.bind
    rintro ⟨fact, bytes⟩
    apply ih.bind
    rintro ⟨facts, rest⟩
    exact stable_pure _

theorem stable_readEntry : Stable (readEntry codec) := by
  apply (stable_readExact 4).bind
  intro csumBuf
  apply (stable_readExact 8).bind
  intro txCountBuf
  apply (stable_readExact 8).bind
  intro numFactsBuf
  split
  · exact stable_failure
  apply (stable_readFacts _).bind
  rintro ⟨facts, body⟩
  dsimp only
  split
  · exact stable_failure
  · exact stable_pure _

end Reading

end ViciaDb.Wal
