import ViciaDb.Storage.BTreeBuild

namespace ViciaDb.BTree

open ByteReader Visitor

variable {κ σ : Type} {kind : IndexKind κ}

structure ReadsBack (kind : IndexKind κ) (pages : Pages) (root fuel : Nat)
    (entries : List (κ × FactRef)) : Prop where
  stream : streamAllEntries kind fuel pages root = .ok entries
  range : ∀ start stop, rangeScanEntries kind fuel pages root start stop =
    .ok (entries.filter (inRange kind start stop))
  cursor : ∀ (σ : Type) (visit : σ → κ × FactRef → Except String (Bool × σ)) s start stop,
    visitRangeEntries kind fuel pages root start stop visit s =
      visitList visit s (entries.filter (inRange kind start stop))
  borrowed : ∀ (name : String) (σ : Type) (visit : σ → κ × FactRef → Except String (Bool × σ)) s
    start stop, visitCurrentRange kind name fuel pages root start stop visit s =
      visitList visit s (entries.filter (inRange kind start stop))

theorem Holds.readsBack {pages : Pages} {reach root fuel : Nat} {entries : List (κ × FactRef)}
    (holds : Holds kind pages reach root entries) (increasing : Increasing kind entries)
    (enough : reach ≤ fuel) : ReadsBack kind pages root fuel entries where
  stream := streamAllEntries_of_holds holds fuel enough
  range start stop := rangeScanEntries_of_holds holds (increasing.sortedFor start) stop fuel enough
  cursor _ visit s start stop :=
    visitRangeEntries_of_holds holds (increasing.sortedFor start) stop fuel enough visit s
  borrowed name _ visit s start stop :=
    visitCurrentRange_of_holds name holds (increasing.sortedFor start) stop fuel enough visit s

theorem ReadsBack.stopsAtPrefix {pages : Pages} {root fuel : Nat} {entries : List (κ × FactRef)}
    (reads : ReadsBack kind pages root fuel entries) (name : String)
    (proceed : List (κ × FactRef) → κ × FactRef → Bool) (start : κ) (stop : Option κ) :
    ∃ go seen,
      visitRangeEntries kind fuel pages root start stop (record proceed) [] = .ok (go, seen) ∧
      visitCurrentRange kind name fuel pages root start stop (record proceed) [] = .ok (go, seen) ∧
      seen <+: entries.filter (inRange kind start stop) ∧
      (go = true → seen = entries.filter (inRange kind start stop)) := by
  rw [reads.cursor, reads.borrowed]
  obtain ⟨go, seen, run, part, all⟩ :=
    visitList_record (ε := String) proceed [] (entries.filter (inRange kind start stop))
  exact ⟨go, seen, run, run, part, all⟩

theorem fillBytes_of_lt {options : BtreeBuildOptions} (notFull : options.fillPercent < 100) :
    options.fillBytes + 8 ≤ pageSize := by
  simp only [BtreeBuildOptions.fillBytes, pageSize]
  omega

theorem length_entryBytes_le (kind : IndexKind κ) (entry : κ × FactRef) :
    (kind.entryBytes entry).length ≤ (kind.toBytes entry.1).length + 13 := by
  rw [IndexKind.entryBytes, List.length_append]
  have := FactRef.length_toBytes_le entry.2
  omega

/-- The tree built from entries in key order, whose keys take at most 4000 bytes, reads back. -/
theorem buildBtreeFromKeyEntries_readsBack (kind : IndexKind κ) (options : BtreeBuildOptions)
    (notFull : options.fillPercent < 100) (entries : List (κ × FactRef))
    (increasing : Increasing kind entries) (short : ∀ entry ∈ entries, (kind.toBytes entry.1).length ≤ 4000)
    (pages : Pages) (startPageId : Nat) (ids64 : startPageId + 3 * entries.length ≤ 2 ^ 64) :
    ∃ pages' root free,
      buildBtreeFromKeyEntries kind options entries pages startPageId = .ok (pages', root, free) ∧
      ∀ fuel, free - startPageId ≤ fuel →
        ReadsBack kind pages' root fuel entries ∧
        ∀ name proceed start stop, ∃ go seen,
          visitRangeEntries kind fuel pages' root start stop (record proceed) [] = .ok (go, seen) ∧
          visitCurrentRange kind name fuel pages' root start stop (record proceed) [] =
            .ok (go, seen) ∧
          seen <+: entries.filter (inRange kind start stop) ∧
          (go = true → seen = entries.filter (inRange kind start stop)) := by
  have small : ∀ entry ∈ entries, (kind.entryBytes entry).length ≤ pageSize - leafHeaderSize - slotSize := by
    intro entry member
    have := short entry member
    have := length_entryBytes_le kind entry
    simp only [pageSize, leafHeaderSize, slotSize]
    omega
  have separated : ∀ entry ∈ entries.tail, (kind.toBytes entry.1).length ≤ maxSeparator := by
    intro entry member
    have := short entry (List.mem_of_mem_tail member)
    simp only [maxSeparator, pageSize, internalHeaderSize, slotSize]
    omega
  obtain ⟨⟨pages', root, free⟩, ok, built⟩ := buildBtreeFromKeyEntries_spec options entries pages
    startPageId (fillBytes_of_lt notFull) small separated ids64
  refine ⟨pages', root, free, ok, fun fuel enough => ?_⟩
  have reads := built.holds.readsBack increasing enough
  exact ⟨reads, fun name proceed start stop => reads.stopsAtPrefix name proceed start stop⟩

def ageKey (entity : EntityId) : EavtKey := ⟨entity, ":age", 0, 0, 1, [1], 1, true⟩

def ageEntries : List (EavtKey × FactRef) := [(ageKey 1, ⟨1, 0⟩), (ageKey 2, ⟨1, 1⟩)]

theorem buildBtreeFromKeyEntries_readsBack_ages :
    ∃ pages' root free, buildBtreeFromKeyEntries eavt .default ageEntries (fun _ => none) 7 =
        .ok (pages', root, free) ∧ ReadsBack eavt pages' root (free - 7) ageEntries := by
  obtain ⟨pages', root, free, ok, reads⟩ := buildBtreeFromKeyEntries_readsBack eavt .default
    (by decide) ageEntries (by unfold Increasing; decide) (by decide) (fun _ => none) 7 (by decide)
  exact ⟨pages', root, free, ok, (reads _ (Nat.le_refl _)).1⟩

end ViciaDb.BTree
