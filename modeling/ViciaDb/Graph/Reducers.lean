import ViciaDb.Graph.CurrentReducer

namespace ViciaDb

open ByteReader

structure CurrentAttributeSlots where
  inline : Option (Bytes × CurrentValueState) := none
  overflow : CurrentAttributeValues := ∅

def CurrentAttributeSlots.reduce (slots : CurrentAttributeSlots) (fact : Fact) :
    CurrentAttributeSlots :=
  if slots.overflow.entries.isEmpty then
    match slots.inline with
    | none => { slots with inline := some (encodeValue fact.value, reduceCurrentState {} fact) }
    | some (encoded, state) =>
      if encoded = encodeValue fact.value then
        { slots with inline := some (encoded, reduceCurrentState state fact) }
      else
        { inline := none
          overflow := CurrentAttributeValues.reduce (slots.overflow.insert encoded state) fact }
  else { slots with overflow := slots.overflow.reduce fact }

def CurrentAttributeSlots.values (slots : CurrentAttributeSlots) : CurrentAttributeValues :=
  match slots.inline with
  | none => slots.overflow
  | some (encoded, state) => slots.overflow.insert encoded state

variable {values : CurrentAttributeValues}

section Slots

variable {group : List Fact} {slots : CurrentAttributeSlots}

def CurrentAttributeSlots.Exclusive (slots : CurrentAttributeSlots) : Prop :=
  slots.inline.isSome → slots.overflow = ∅

theorem eq_empty_of_isEmpty (empty : values.entries.isEmpty = true) :
    values = ∅ := by
  apply AList.ext
  exact List.isEmpty_iff.mp empty

theorem CurrentAttributeSlots.Exclusive.reduce (exclusive : slots.Exclusive) (fact : Fact) :
    (slots.reduce fact).Exclusive ∧ ∀ encoded,
      (slots.reduce fact).values.lookup encoded = (slots.values.reduce fact).lookup encoded := by
  obtain ⟨inline, overflow⟩ := slots
  rw [CurrentAttributeSlots.reduce]
  split <;> rename_i empty
  · obtain rfl := eq_empty_of_isEmpty empty
    cases inline with
    | none => exact ⟨fun _ => rfl, fun encoded => rfl⟩
    | some held =>
      obtain ⟨first, state⟩ := held
      dsimp only
      split
      · rename_i same
        refine ⟨fun _ => rfl, fun encoded => ?_⟩
        subst same
        simp only [values, CurrentAttributeValues.reduce, CurrentAttributeValues.state,
          AList.lookup_insert, Option.getD_some, AList.lookup_insert_ite]
        split <;> rfl
      · exact ⟨fun isSome => (by cases isSome), fun encoded => rfl⟩
  · cases inline with
    | none => exact ⟨fun isSome => (by cases isSome), fun encoded => rfl⟩
    | some held =>
      have : overflow = ∅ := exclusive rfl
      subst this
      exact absurd rfl empty

theorem reducesAll_slots (group facts : List Fact) (exclusive : slots.Exclusive)
    (reduced : ReducesAll group slots.values) :
    ReducesAll (group ++ facts) (facts.foldl CurrentAttributeSlots.reduce slots).values := by
  induction facts generalizing group slots with
  | nil => simpa using reduced
  | cons fact facts ih =>
    obtain ⟨exclusive', same⟩ := exclusive.reduce fact
    have next : ReducesAll (group ++ [fact]) (slots.reduce fact).values := by
      intro encoded
      have step := reduced.step fact encoded
      rwa [CurrentAttributeValues.state, ← same] at step
    rw [List.append_cons]
    exact ih (group ++ [fact]) exclusive' next

theorem reducesAll_values (group facts : List Fact) (reduced : ReducesAll group values) :
    ReducesAll (group ++ facts) (facts.foldl CurrentAttributeValues.reduce values) := by
  induction facts generalizing group values with
  | nil => simpa using reduced
  | cons fact facts ih =>
    rw [List.append_cons]
    exact ih (group ++ [fact]) (reduced.step fact)

end Slots

def Standing (facts : List Fact) (key : WindowKey) : Prop :=
  ∃ fact ∈ facts, fact.asserted = true ∧ fact.windowKey = key ∧ ∀ retraction ∈ facts,
    retraction.asserted = false →
      (retraction.isUnscoped = true ∧ retraction.eavKey = key.eav) ∨ retraction.windowKey = key →
        retraction.txCount < fact.txCount

def Selects (facts : List Fact) (chosen : EavKey → Prop) (windows : List WindowKey) : Prop :=
  windows.Nodup ∧ ∀ key, key ∈ windows ↔ chosen key.eav ∧ Standing facts key

def inGroup (entity : EntityId) (attr : String) (fact : Fact) : Bool :=
  fact.entity == entity && fact.attr == attr

section Agreement

variable {facts reordered : List Fact}

theorem netAsserted_iff_standing (positive : ∀ fact ∈ facts, 0 < fact.txCount) (key : WindowKey) :
    NetAsserted facts key ↔ Standing facts key := by
  refine exists_congr fun fact => and_congr_right fun member => and_congr_right fun _ =>
    and_congr_right fun _ => ?_
  have stamped : 0 < fact.stamp := UInt64.lt_iff_toNat_lt.mp (positive fact member)
  rw [and_iff_right stamped]
  simp only [Fact.stamp, ← UInt64.lt_iff_toNat_lt, Fact.cancels, Bool.and_eq_true, Bool.or_eq_true,
    Bool.not_eq_true', beq_iff_eq]
  refine forall₂_congr fun retraction _ => ?_
  have triple : retraction.windowKey = key → retraction.eavKey = key.eav := congrArg WindowKey.eav
  cases retraction.isUnscoped <;> grind

theorem Standing.perm (perm : facts.Perm reordered) (key : WindowKey) :
    Standing reordered key ↔ Standing facts key := by
  simp only [Standing, perm.mem_iff]

theorem standing_filter (key : WindowKey) (entity : EntityId) (attr : String) :
    Standing (facts.filter (inGroup entity attr)) key ↔
      (key.eav.entity = entity ∧ key.eav.attr = attr) ∧ Standing facts key := by
  have grouped : ∀ fact : Fact, inGroup entity attr fact = true ↔
      fact.entity = entity ∧ fact.attr = attr := by simp [inGroup]
  simp only [Standing, List.mem_filter, grouped]
  constructor
  · rintro ⟨fact, ⟨member, inside⟩, asserted, rfl, newest⟩
    refine ⟨inside, fact, member, asserted, rfl, fun retraction known retracted covers => ?_⟩
    have triple : retraction.eavKey = fact.eavKey := covers.elim And.right (congrArg WindowKey.eav)
    obtain ⟨sameEntity, sameAttr, -⟩ := EavKey.mk.inj triple
    exact newest retraction ⟨known, sameEntity.trans inside.1, sameAttr.trans inside.2⟩ retracted covers
  · rintro ⟨inside, fact, member, asserted, rfl, newest⟩
    exact ⟨fact, ⟨member, inside⟩, asserted, rfl, fun retraction known => newest retraction known.1⟩

theorem selects_rows {entity : EntityId} {attr : String} (perm : facts.Perm reordered)
    (positive : ∀ fact ∈ facts, 0 < fact.txCount) (noFloats : ∀ fact ∈ facts, fact.value.isFloat = false)
    (reduced : ReducesAll (reordered.filter (inGroup entity attr)) values) :
    Selects facts (fun eav => eav.entity = entity ∧ eav.attr = attr)
      ((values.rows .any).map fun row => row.fact.windowKey) := by
  have known : ∀ fact ∈ reordered.filter (inGroup entity attr),
      fact ∈ facts ∧ fact.entity = entity ∧ fact.attr = attr := by
    intro fact member
    obtain ⟨inside, grouped⟩ := List.mem_filter.mp member
    exact ⟨perm.mem_iff.mpr inside, by simpa [inGroup] using grouped⟩
  have apart : TellsApart attr (reordered.filter (inGroup entity attr)) :=
    ⟨fun fact member => (known fact member).2.2, fun a inA b _ same => by
      rw [encodeValue_inj (noFloats a (known a inA).1) same]⟩
  have one : ∀ fact ∈ reordered.filter (inGroup entity attr), fact.entity = entity :=
    fun fact member => (known fact member).2.1
  refine ⟨nodup_map_rows apart one reduced .any, fun key => ?_⟩
  have anyTime : CurrentValidTime.any.admits key.validFrom key.validTo = true := rfl
  rw [mem_map_rows apart one reduced, Current, and_iff_left anyTime,
    netAsserted_iff_standing fun fact member => positive fact (known fact member).1, standing_filter,
    Standing.perm perm]

end Agreement

/-- The net view has one record for each standing window, and the reducers, with values in slots or in a
    map, select the same windows. -/
theorem reducers_select (facts reordered : List Fact) (perm : facts.Perm reordered)
    (positive : ∀ fact ∈ facts, 0 < fact.txCount) (noFloats : ∀ fact ∈ facts, fact.value.isFloat = false) :
    Selects facts (fun _ => True) ((netAssertedFacts reordered).map Fact.windowKey) ∧
      ∀ entity attr,
        Selects facts (fun eav => eav.entity = entity ∧ eav.attr = attr)
            ((((reordered.filter (inGroup entity attr)).foldl CurrentAttributeSlots.reduce
              {}).values.rows .any).map fun row => row.fact.windowKey) ∧
          Selects facts (fun eav => eav.entity = entity ∧ eav.attr = attr)
            ((((reordered.filter (inGroup entity attr)).foldl CurrentAttributeValues.reduce
              ∅).rows .any).map fun row => row.fact.windowKey) := by
  refine ⟨⟨nodup_netAssertedFacts reordered, fun key => ?_⟩, fun entity attr => ⟨?_, ?_⟩⟩
  · rw [mem_map_netAssertedFacts,
      netAsserted_iff_standing fun fact member => positive fact (perm.mem_iff.mpr member),
      Standing.perm perm, true_and]
  · exact selects_rows perm positive noFloats
      (reducesAll_slots [] _ (fun isSome => (by cases isSome)) ReducesAll.empty)
  · exact selects_rows perm positive noFloats (reducesAll_values [] _ ReducesAll.empty)

def likesAt (target txCount : Nat) (asserted : Bool) : Fact :=
  ⟨1, ":likes", .ref (BitVec.ofNat 128 target), 0, UInt64.ofNat txCount, 0, 10, asserted⟩

theorem reducers_select_likes :
    Selects [likesAt 2 1 true, likesAt 3 2 true, likesAt 2 3 false] (fun _ => True)
      ((netAssertedFacts [likesAt 2 3 false, likesAt 2 1 true, likesAt 3 2 true]).map
        Fact.windowKey) :=
  (reducers_select [likesAt 2 1 true, likesAt 3 2 true, likesAt 2 3 false]
    [likesAt 2 3 false, likesAt 2 1 true, likesAt 3 2 true] (by decide) (by decide) (by decide)).1

end ViciaDb
