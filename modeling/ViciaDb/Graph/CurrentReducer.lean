import ViciaDb.Graph.AttributeCursor
import ViciaDb.Lib.ExceptList

namespace ViciaDb

open ByteReader List

variable {facts : List Fact} {state : CurrentValueState} {fact : Fact}

theorem decode_utf8Bytes (s : String) : String.fromUTF8? ⟨(utf8Bytes s).toArray⟩ = some s := by
  have bytes : (⟨(utf8Bytes s).toArray⟩ : ByteArray) = s.toByteArray := rfl
  rw [bytes]
  simp [String.fromUTF8?, String.fromUTF8, s.isValidUTF8]

theorem decodeIndexValue_encodeValue {value : Value} (plain : value.isFloat = false) :
    decodeIndexValue (encodeValue value) = .ok value := by
  cases value with
  | float f => cases plain
  | null => rfl
  | boolean b => cases b <;> rfl
  | string s | keyword k => simp [decodeIndexValue, encodeValue, decode_utf8Bytes]
  | integer n =>
    have number : ofLeBytes (leBytes 8 (n.toUInt64 ^^^ 0x8000000000000000).toNat) =
        (n.toUInt64 ^^^ 0x8000000000000000).toNat :=
      ofLeBytes_leBytes _ _ (UInt64.toNat_lt _)
    have flipped : (n.toUInt64 ^^^ 0x8000000000000000) ^^^ 0x8000000000000000 = n.toUInt64 := by
      rw [UInt64.xor_assoc, UInt64.xor_self, UInt64.xor_zero]
    have parsed : UInt64.ofNat (ofLeBytes (beBytes 8
        (n.toUInt64 ^^^ 0x8000000000000000).toNat).reverse) = n.toUInt64 ^^^ 0x8000000000000000 := by
      rw [beBytes, reverse_reverse, number, UInt64.ofNat_toNat]
    have length : (beBytes 8 (n.toUInt64 ^^^ 0x8000000000000000).toNat).length = 8 := by
      simp [beBytes]
    simp only [decodeIndexValue, encodeValue, length, parsed, flipped]
    simp
  | ref id =>
    have number : ofLeBytes (leBytes 16 id.toNat) = id.toNat :=
      ofLeBytes_leBytes _ _ (BitVec.isLt id)
    simp [decodeIndexValue, encodeValue, beBytes, number]

theorem latest_append (select : Fact → Bool) (facts : List Fact) (fact : Fact) :
    latest select (facts ++ [fact]) =
      if select fact then max (latest select facts) fact.stamp else latest select facts := by
  simp [latest, foldl_append]

structure Reduces (facts : List Fact) (state : CurrentValueState) : Prop where
  everyWindow : state.maxUnscopedRetractTx = latest (fun fact => !fact.asserted && fact.isUnscoped) facts
  oneWindow : ∀ window, (state.maxScopedRetractTx.lookup window).getD 0 =
    latest (fun fact => !fact.asserted && !fact.isUnscoped && fact.window == window) facts
  won : ∀ window fact, state.assertions.lookup window = some fact →
    fact ∈ facts ∧ fact.asserted = true ∧ fact.window = window ∧
      ∀ other ∈ facts, other.asserted = true → other.window = window → other.stamp ≤ fact.stamp
  listed : ∀ fact ∈ facts, fact.asserted = true → (state.assertions.lookup fact.window).isSome

theorem Reduces.empty : Reduces [] {} where
  everyWindow := rfl
  oneWindow window := rfl
  won window fact found := by simp at found
  listed fact member := by cases member

theorem AList.lookup_insert_ite {α β : Type} [DecidableEq α] (map : AList fun _ : α => β) (a a' : α) (b : β) :
    (map.insert a b).lookup a' = if a' = a then some b else map.lookup a' := by
  by_cases same : a' = a
  · subst same
    simp
  · rw [AList.lookup_insert_ne same, if_neg same]

theorem Reduces.assert (before : Reduces facts state) (asserted : fact.asserted = true) :
    Reduces (facts ++ [fact]) (reduceCurrentState state fact) := by
  obtain ⟨everyWindow, oneWindow, won, listed⟩ := before
  cases found : state.assertions.lookup fact.window with
  | none =>
    simp only [reduceCurrentState, asserted, if_true, found]
    refine ⟨?_, ?_, ?_, ?_⟩
    · simp [latest_append, everyWindow, asserted]
    · simp [latest_append, oneWindow, asserted]
    · intro window winner lookup
      rw [AList.lookup_insert_ite] at lookup
      grind
    · intro other member isAsserted
      rw [AList.lookup_insert_ite]
      grind
  | some winner =>
    simp only [reduceCurrentState, asserted, if_true, found]
    have best := won _ _ found
    split
    · refine ⟨?_, ?_, ?_, ?_⟩
      · simp [latest_append, everyWindow, asserted]
      · simp [latest_append, oneWindow, asserted]
      · intro window other lookup
        rw [AList.lookup_insert_ite] at lookup
        grind
      · intro other member isAsserted
        rw [AList.lookup_insert_ite]
        grind
    · refine ⟨?_, ?_, ?_, ?_⟩
      · simp [latest_append, everyWindow, asserted]
      · simp [latest_append, oneWindow, asserted]
      · grind
      · grind

theorem Reduces.retract (before : Reduces facts state) (retracted : fact.asserted = false) :
    Reduces (facts ++ [fact]) (reduceCurrentState state fact) := by
  obtain ⟨everyWindow, oneWindow, won, listed⟩ := before
  have kept : ∀ other, other ∈ facts ++ [fact] → other.asserted = true → other ∈ facts := by
    grind
  by_cases all : fact.isUnscoped = true
  · simp only [reduceCurrentState, retracted, all, if_true, if_false, Bool.false_eq_true]
    refine ⟨?_, ?_, ?_, ?_⟩
    · simp [latest_append, everyWindow, retracted, all]
    · simp [latest_append, oneWindow, all]
    · grind
    · grind
  · simp only [reduceCurrentState, retracted, all, if_false, Bool.false_eq_true]
    refine ⟨?_, ?_, ?_, ?_⟩
    · simp [latest_append, everyWindow, all]
    · intro window
      rw [AList.lookup_insert_ite, latest_append, ← oneWindow]
      by_cases same : window = fact.window
      · simp [same, retracted, all, oneWindow]
      · simp [same, Ne.symm same, oneWindow]
    · grind
    · grind

theorem Reduces.step {facts : List Fact} {state : CurrentValueState} (before : Reduces facts state)
    (fact : Fact) : Reduces (facts ++ [fact]) (reduceCurrentState state fact) := by
  cases asserted : fact.asserted with
  | true => exact before.assert asserted
  | false => exact before.retract asserted

section Keyed

variable {κ : Type} [DecidableEq κ] [BEq κ] [LawfulBEq κ] {key : Fact → κ} {group : List Fact}
  {states : AList fun _ : κ => CurrentValueState}

def ReducesBy (key : Fact → κ) (group : List Fact) (states : AList fun _ : κ => CurrentValueState) : Prop :=
  ∀ k, Reduces (group.filter fun fact => key fact == k) ((states.lookup k).getD {})

omit [LawfulBEq κ] in
theorem ReducesBy.empty : ReducesBy key [] ∅ := fun _ => Reduces.empty

theorem ReducesBy.step (before : ReducesBy key group states) (fact : Fact) :
    ReducesBy key (group ++ [fact])
      (states.insert (key fact) (reduceCurrentState ((states.lookup (key fact)).getD {}) fact)) := by
  intro k
  rw [filter_append, AList.lookup_insert_ite]
  by_cases same : k = key fact
  · subst same
    simpa using (before (key fact)).step fact
  · simpa [same, Ne.symm same] using before k

end Keyed

def ReducesAll (group : List Fact) (values : CurrentAttributeValues) : Prop :=
  ∀ encoded, Reduces (group.filter fun fact => encodeValue fact.value == encoded)
    (values.state encoded)

theorem ReducesAll.empty : ReducesAll [] ∅ := fun _ => Reduces.empty

variable {values : CurrentAttributeValues}

theorem ReducesAll.step {group : List Fact} (before : ReducesAll group values) (fact : Fact) :
    ReducesAll (group ++ [fact]) (values.reduce fact) :=
  @ReducesBy.step _ _ _ _ (fun fact => encodeValue fact.value) group values before fact

variable {validTime : CurrentValidTime}

theorem mem_rows {row : CurrentRow} :
    row ∈ values.rows validTime ↔
      (values.state row.encoded).assertions.lookup row.window = some row.fact ∧
        (values.state row.encoded).stands row.window row.fact = true ∧
        validTime.admits row.window.1 row.window.2 = true := by
  obtain ⟨encoded, window, fact⟩ := row
  simp only [CurrentAttributeValues.rows, CurrentAttributeValues.state, mem_flatMap,
    mem_map, mem_filter, Bool.and_eq_true, Sigma.exists, CurrentRow.mk.injEq,
    ← AList.mem_lookup_iff, Option.mem_def]
  constructor
  · rintro ⟨encoded, state, found, window, fact, ⟨won, standing⟩, rfl, rfl, rfl⟩
    simp [found, won, standing]
  rintro ⟨won, standing⟩
  cases found : values.lookup encoded with
  | none => simp [found] at won
  | some state =>
    rw [found] at won standing
    exact ⟨encoded, state, found, window, fact, ⟨won, standing⟩, rfl, rfl, rfl⟩

theorem nodup_rows (validTime : CurrentValidTime) (values : CurrentAttributeValues) :
    ((values.rows validTime).map fun row => (row.encoded, row.window)).Nodup := by
  rw [CurrentAttributeValues.rows, map_flatMap, nodup_flatMap]
  constructor
  · rintro ⟨encoded, state⟩ -
    simp only [map_map]
    refine List.Nodup.map_on ?_ ((List.Nodup.of_map _ state.assertions.keys_nodup).filter _)
    rintro ⟨window, fact⟩ member ⟨window', fact'⟩ member' same
    have windows : window = window' := (Prod.mk.inj same).2
    subst windows
    have found := AList.mem_lookup_iff.mpr (mem_filter.mp member).1
    have found' := AList.mem_lookup_iff.mpr (mem_filter.mp member').1
    rw [Option.mem_unique found found']
  · have keys : values.entries.Pairwise fun a b => a.1 ≠ b.1 := by
      have := values.keys_nodup
      rwa [AList.keys, List.keys, List.Nodup, pairwise_map] at this
    refine keys.imp ?_
    rintro ⟨encoded, state⟩ ⟨encoded', state'⟩ different
    intro pair left right
    simp only [map_map, mem_map, Function.comp_apply] at left right
    obtain ⟨_, _, rfl⟩ := left
    obtain ⟨_, _, same⟩ := right
    exact different (Prod.mk.inj same).1.symm

theorem canonicalValue_of_number {value : Value} (number : value.isNan = false) :
    canonicalValue value = value := by
  cases value with
  | float f =>
    have plain : f.isNan = false := number
    simp [canonicalValue, plain]
  | _ => rfl

def PlainEntries (attr : String) (facts : List Fact) : Prop :=
  ∀ fact ∈ facts, fact.attr = attr ∧ fact.value.isNan = false

theorem PlainEntries.mono {attr : String} {facts facts' : List Fact}
    (plain : PlainEntries attr facts) (subset : facts' ⊆ facts) : PlainEntries attr facts' :=
  fun fact member => plain fact (subset member)

structure TellsApart (attr : String) (facts : List Fact) : Prop where
  attrs : ∀ fact ∈ facts, fact.attr = attr
  values : ∀ a ∈ facts, ∀ b ∈ facts, encodeValue a.value = encodeValue b.value →
    canonicalValue a.value = canonicalValue b.value

theorem PlainEntries.tellsApart {attr : String} {facts : List Fact} (plain : PlainEntries attr facts) :
    TellsApart attr facts := by
  refine ⟨fun fact member => (plain fact member).1, fun a inA b inB same => ?_⟩
  rw [encodeValue_inj_of_number (plain a inA).2 (plain b inB).2 same]

theorem encodeValue_canonicalValue (value : Value) :
    encodeValue (canonicalValue value) = encodeValue value := by
  cases value with
  | float f =>
    by_cases nan : f.isNan = true
    · have same : (⟨0x7FF8000000000000⟩ : F64).sortableBits = f.sortableBits := by
        rw [F64.sortableBits, F64.sortableBits, if_pos nan, if_pos (by decide)]
      simp only [canonicalValue, nan, if_true, encodeValue, same]
    · simp [canonicalValue, nan]
  | _ => rfl

section OneEntity

variable {attr : String} {entity : EntityId} {group : List Fact} {values : CurrentAttributeValues}

variable {a b : Fact} {validTime : CurrentValidTime} {row : CurrentRow}

theorem eavKey_eq_iff (apart : TellsApart attr group) (inA : a ∈ group) (inB : b ∈ group)
    (entities : a.entity = b.entity) : a.eavKey = b.eavKey ↔ encodeValue a.value = encodeValue b.value := by
  simp only [Fact.eavKey, EavKey.mk.injEq, entities, apart.attrs a inA, apart.attrs b inB, true_and]
  refine ⟨fun same => ?_, apart.values a inA b inB⟩
  rw [← encodeValue_canonicalValue a.value, same, encodeValue_canonicalValue]

theorem windowKey_eq_iff :
    a.windowKey = b.windowKey ↔ a.eavKey = b.eavKey ∧ a.window = b.window := by
  simp [Fact.windowKey, Fact.window]

theorem stands_iff (apart : TellsApart attr group) (one : ∀ fact ∈ group, fact.entity = entity)
    (reduced : ReducesAll group values) {fact : Fact} (member : fact ∈ group) :
    (values.state (encodeValue fact.value)).stands fact.window fact = true ↔
      0 < fact.stamp ∧ ∀ retraction ∈ group, retraction.cancels fact.windowKey = true →
        retraction.stamp < fact.stamp := by
  obtain ⟨everyWindow, oneWindow, -, -⟩ := reduced (encodeValue fact.value)
  have sameEav : ∀ other ∈ group, (other.eavKey = fact.eavKey ↔
      encodeValue other.value = encodeValue fact.value) := fun other inGroup =>
    eavKey_eq_iff apart inGroup member ((one other inGroup).trans (one fact member).symm)
  simp only [CurrentValueState.stands, everyWindow, oneWindow, decide_eq_true_eq, Nat.max_lt,
    latest_lt_iff, mem_filter, Bool.and_eq_true, Bool.not_eq_true', beq_iff_eq, Fact.cancels,
    Bool.or_eq_true, windowKey_eq_iff, and_imp]
  have eav : fact.windowKey.eav = fact.eavKey := rfl
  rw [eav]
  grind

theorem row_of_mem (reduced : ReducesAll group values) (member : row ∈ values.rows validTime) :
    row.fact ∈ group ∧ row.fact.asserted = true ∧ encodeValue row.fact.value = row.encoded ∧
      row.fact.window = row.window := by
  obtain ⟨won, -, -⟩ := mem_rows.mp member
  obtain ⟨known, asserted, window, -⟩ := (reduced row.encoded).won _ _ won
  obtain ⟨inGroup, bytes⟩ := mem_filter.mp known
  exact ⟨inGroup, asserted, by simpa using bytes, window⟩

theorem mem_map_rows (apart : TellsApart attr group) (one : ∀ fact ∈ group, fact.entity = entity)
    (reduced : ReducesAll group values) {key : WindowKey} :
    key ∈ (values.rows validTime).map (fun row => row.fact.windowKey) ↔
      Current validTime group key := by
  constructor
  · intro present
    obtain ⟨row, member, rfl⟩ := mem_map.mp present
    obtain ⟨inGroup, asserted, bytes, window⟩ := row_of_mem reduced member
    obtain ⟨-, standing, inside⟩ := mem_rows.mp member
    rw [← bytes, ← window] at standing
    rw [← window] at inside
    obtain ⟨positive, clear⟩ := (stands_iff apart one reduced inGroup).mp standing
    exact ⟨⟨row.fact, inGroup, asserted, rfl, positive, clear⟩, inside⟩
  · rintro ⟨⟨fact, inGroup, asserted, rfl, positive, clear⟩, inside⟩
    have listed := (reduced (encodeValue fact.value)).listed fact (by simp [inGroup]) asserted
    obtain ⟨winner, won⟩ := Option.isSome_iff_exists.mp listed
    obtain ⟨known, -, window, newest⟩ := (reduced _).won _ _ won
    obtain ⟨inGroup', bytes⟩ := mem_filter.mp known
    have bytes : encodeValue winner.value = encodeValue fact.value := by simpa using bytes
    have keys : winner.windowKey = fact.windowKey :=
      windowKey_eq_iff.mpr ⟨(eavKey_eq_iff apart inGroup' inGroup
        ((one winner inGroup').trans (one fact inGroup).symm)).mpr bytes, window⟩
    have atLeast := newest fact (by simp [inGroup]) asserted rfl
    have standing : (values.state (encodeValue winner.value)).stands winner.window winner = true := by
      rw [stands_iff apart one reduced inGroup', keys]
      refine ⟨by omega, fun retraction member cancels => ?_⟩
      have := clear retraction member cancels
      omega
    rw [bytes, window] at standing
    exact mem_map.mpr ⟨⟨encodeValue fact.value, fact.window, winner⟩,
      mem_rows.mpr ⟨won, standing, inside⟩, keys⟩

theorem nodup_map_rows (apart : TellsApart attr group) (one : ∀ fact ∈ group, fact.entity = entity)
    (reduced : ReducesAll group values) (validTime : CurrentValidTime) :
    ((values.rows validTime).map fun row => row.fact.windowKey).Nodup := by
  have nodup := nodup_rows validTime values
  refine List.Nodup.map_on ?_ nodup.of_map
  intro a inA b inB same
  obtain ⟨knownA, -, bytesA, windowA⟩ := row_of_mem reduced inA
  obtain ⟨knownB, -, bytesB, windowB⟩ := row_of_mem reduced inB
  obtain ⟨eav, window⟩ := windowKey_eq_iff.mp same
  have bytes := (eavKey_eq_iff apart knownA knownB ((one _ knownA).trans (one _ knownB).symm)).mp eav
  refine inj_on_of_nodup_map nodup inA inB ?_
  rw [← bytesA, ← bytesB, ← windowA, ← windowB, bytes, window]

theorem row_value (reduced : ReducesAll group values) (member : row ∈ values.rows validTime) :
    row.value = .ok row.fact.value := by
  obtain ⟨-, -, bytes, -⟩ := row_of_mem reduced member
  rw [CurrentRow.value, ← bytes]
  cases found : row.fact.value with
  | float f => rfl
  | _ =>
    rw [decodeIndexValue_encodeValue rfl]
    simp [encodeValue]

end OneEntity

end ViciaDb
