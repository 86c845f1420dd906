import ViciaDb.Lib.SortedMap
import ViciaDb.Storage.BaseCheckpoint

namespace ViciaDb

open BTree Visitor List Std

section Reader

variable {κ β σ : Type} (kind : IndexKind κ)

def extendFromEntries (map entries : List (κ × FactRef)) : List (κ × FactRef) :=
  entries.foldl (fun map entry => SortedMap.insert kind.cmp entry.1 entry.2 map) map

def deltaEntries (segments : List (List (κ × FactRef))) : List (κ × FactRef) :=
  segments.foldl (extendFromEntries kind) []

/-- `BTreeMap::range` panics on a range that ends before it starts. -/
def rangeDeltaEntries (map : List (κ × FactRef)) (start : κ) (stop : Option κ) :
    Except String (List (κ × FactRef)) :=
  if stop.any fun stop => (kind.cmp start stop).isGT then
    .error "range start is greater than range end in BTreeMap"
  else .ok (map.filter (inRange kind start stop))

def mergeEntryRefs (base delta : List (κ × FactRef)) : List FactRef :=
  (base.merge delta fun a b => (kind.cmp a.1 b.1).isLE).map Prod.snd

def layeredRangeScan (fuel : Nat) (pages : Pages) (root : Nat) (map : List (κ × FactRef)) (start : κ)
    (stop : Option κ) : Except String (List FactRef) := do
  let base ← rangeScanEntries kind fuel pages root start stop
  let delta ← rangeDeltaEntries kind map start stop
  return mergeEntryRefs kind base delta

/-- The loop the three layered visitors share: `scan` visits the base, `before` tells which delta entries
    go first, `own` what the callback sees of one. -/
def layeredVisit (before : κ × FactRef → β → Bool) (own : κ × FactRef → β)
    (scan : (List (κ × FactRef) × σ → β → Except String (Bool × List (κ × FactRef) × σ)) →
      List (κ × FactRef) × σ → Except String (Bool × List (κ × FactRef) × σ))
    (map : List (κ × FactRef)) (start : κ) (stop : Option κ)
    (visit : σ → β → Except String (Bool × σ)) (s : σ) : Except String (Bool × σ) := do
  let delta ← rangeDeltaEntries kind map start stop
  scan (interleave before own visit) (delta, s) >>= finishRun own visit

end Reader

def Distinct {κ : Type} (kind : IndexKind κ) (entries : List (κ × FactRef)) : Prop :=
  entries.Pairwise fun a b => kind.cmp a.1 b.1 ≠ .eq

instance {κ : Type} (kind : IndexKind κ) (entries : List (κ × FactRef)) :
    Decidable (Distinct kind entries) :=
  inferInstanceAs (Decidable (entries.Pairwise _))

structure Layer {κ : Type} (kind : IndexKind κ) (base : List (κ × FactRef))
    (segments : List (List (κ × FactRef))) : Prop where
  increasing : Increasing kind base
  disjoint : Distinct kind (base ++ segments.flatten)
  refs : ((base ++ segments.flatten).map Prod.snd).Nodup

structure LayeredIndexReader where
  pages : Pages
  reach : Nat
  roots : IndexRoots
  base : IndexContents
  segments : List IndexContents
  holds : IndexesHold pages reach roots base
  inEavt : Layer eavt base.eavt (segments.map IndexContents.eavt)
  inAevt : Layer aevt base.aevt (segments.map IndexContents.aevt)
  inAvet : Layer avet base.avet (segments.map IndexContents.avet)
  inVaet : Layer vaet base.vaet (segments.map IndexContents.vaet)

namespace LayeredIndexReader

variable {σ : Type} (reader : LayeredIndexReader) (fuel : Nat)

def rangeScanEavt (start : EavtKey) (stop : Option EavtKey) : Except String (List FactRef) :=
  layeredRangeScan eavt fuel reader.pages reader.roots.eavt
    (deltaEntries eavt (reader.segments.map IndexContents.eavt)) start stop

def rangeScanAevt (start : AevtKey) (stop : Option AevtKey) : Except String (List FactRef) :=
  layeredRangeScan aevt fuel reader.pages reader.roots.aevt
    (deltaEntries aevt (reader.segments.map IndexContents.aevt)) start stop

def rangeScanAvet (start : AvetKey) (stop : Option AvetKey) : Except String (List FactRef) :=
  layeredRangeScan avet fuel reader.pages reader.roots.avet
    (deltaEntries avet (reader.segments.map IndexContents.avet)) start stop

def rangeScanVaet (start : VaetKey) (stop : Option VaetKey) : Except String (List FactRef) :=
  layeredRangeScan vaet fuel reader.pages reader.roots.vaet
    (deltaEntries vaet (reader.segments.map IndexContents.vaet)) start stop

def visitAevtEntries (start : AevtKey) (stop : Option AevtKey)
    (visit : σ → AevtKey × FactRef → Except String (Bool × σ)) (s : σ) : Except String (Bool × σ) :=
  layeredVisit aevt (fun delta base => (aevt.cmp delta.1 base.1).isLT) id
    (visitRangeEntries aevt fuel reader.pages reader.roots.aevt start stop)
    (deltaEntries aevt (reader.segments.map IndexContents.aevt)) start stop visit s

def visitCurrentEavtEntries (start : EavtKey) (stop : Option EavtKey)
    (visit : σ → EavtKey × FactRef → Except String (Bool × σ)) (s : σ) : Except String (Bool × σ) :=
  layeredVisit eavt (fun delta base => (eavt.cmp base.1 delta.1).isGT) id
    (visitCurrentEavtRange fuel reader.pages reader.roots.eavt start stop)
    (deltaEntries eavt (reader.segments.map IndexContents.eavt)) start stop visit s

/-- The base entry has no attribute, and the comparison with a delta entry leaves it out. -/
def visitCurrentAevtEntries (start : AevtKey) (stop : Option AevtKey)
    (visit : σ → CurrentAevtEntryRef × FactRef → Except String (Bool × σ)) (s : σ) :
    Except String (Bool × σ) :=
  layeredVisit aevt (fun delta base => (base.1.cmpOwnedSuffix delta.1).isGT)
    (fun entry => (entry.1.project, entry.2))
    (visitCurrentAevtRange fuel reader.pages reader.roots.aevt start stop)
    (deltaEntries aevt (reader.segments.map IndexContents.aevt)) start stop visit s

def visitCurrentVaetEntries (start : VaetKey) (stop : Option VaetKey)
    (visit : σ → VaetKey × FactRef → Except String (Bool × σ)) (s : σ) : Except String (Bool × σ) :=
  layeredVisit vaet (fun delta base => (vaet.cmp base.1 delta.1).isGT) id
    (visitCurrentVaetRange fuel reader.pages reader.roots.vaet start stop)
    (deltaEntries vaet (reader.segments.map IndexContents.vaet)) start stop visit s

end LayeredIndexReader

section Merge

variable {κ : Type} {kind : IndexKind κ} {base entries : List (κ × FactRef)}
  {segments : List (List (κ × FactRef))} {start : κ} {stop : Option κ}

theorem cmp_ne_eq_symm {a b : κ} (ne : kind.cmp a b ≠ .eq) : kind.cmp b a ≠ .eq :=
  fun same => ne (OrientedCmp.eq_symm same)

theorem Distinct.perm {entries' : List (κ × FactRef)} (distinct : Distinct kind entries)
    (perm : entries.Perm entries') : Distinct kind entries' :=
  (perm.pairwise_iff fun ne => cmp_ne_eq_symm ne).mp distinct

theorem increasing_of_distinct (sorted : entries.Pairwise fun a b => (kind.cmp a.1 b.1).isLE = true)
    (distinct : Distinct kind entries) : Increasing kind entries := by
  refine (sorted.and distinct).imp fun {a b} both => ?_
  obtain ⟨le, ne⟩ := both
  revert le ne
  cases kind.cmp a.1 b.1 <;> decide

theorem eq_sortEntries {merged : List (κ × FactRef)} (distinct : Distinct kind entries)
    (sorted : merged.Pairwise fun a b => (kind.cmp a.1 b.1).isLE = true) (perm : merged.Perm entries) :
    merged = sortEntries kind entries := by
  have sorting : (sortEntries kind entries).Perm entries := mergeSort_perm _ _
  have left := increasing_of_distinct sorted (distinct.perm perm.symm)
  have right := increasing_of_distinct (pairwise_sortEntries kind entries) (distinct.perm sorting.symm)
  refine (perm.trans sorting.symm).eq_of_pairwise ?_ left right
  intro a b _ _ less greater
  rw [OrientedCmp.gt_of_lt greater] at less
  cases less

variable {map : List (κ × FactRef)}

theorem extendFromEntries_spec (sorted : Increasing kind map) (distinct : Distinct kind (map ++ entries)) :
    Increasing kind (extendFromEntries kind map entries) ∧
      (extendFromEntries kind map entries).Perm (map ++ entries) := by
  induction entries generalizing map with
  | nil => exact ⟨sorted, by simp [extendFromEntries]⟩
  | cons entry entries ih =>
    have fresh : ∀ other ∈ map, kind.cmp entry.1 other.1 ≠ .eq := fun other member =>
      cmp_ne_eq_symm ((pairwise_append.mp distinct).2.2 other member entry (by simp))
    have added : (SortedMap.insert kind.cmp entry.1 entry.2 map ++ entries).Perm (map ++ entry :: entries) :=
      ((SortedMap.insert_perm fresh).append_right entries).trans perm_middle.symm
    obtain ⟨sorted', perm⟩ := ih (SortedMap.sorted_insert sorted) (distinct.perm added.symm)
    exact ⟨sorted', perm.trans added⟩

theorem foldl_extendFromEntries_spec (sorted : Increasing kind map)
    (distinct : Distinct kind (map ++ segments.flatten)) :
    Increasing kind (segments.foldl (extendFromEntries kind) map) ∧
      (segments.foldl (extendFromEntries kind) map).Perm (map ++ segments.flatten) := by
  induction segments generalizing map with
  | nil => exact ⟨sorted, by simp⟩
  | cons segment segments ih =>
    rw [flatten_cons, ← append_assoc] at distinct ⊢
    obtain ⟨sorted', perm⟩ := extendFromEntries_spec sorted (pairwise_append.mp distinct).1
    obtain ⟨sorted'', perm'⟩ := ih sorted' (distinct.perm (perm.symm.append_right _))
    exact ⟨sorted'', perm'.trans (perm.append_right _)⟩

def merged (kind : IndexKind κ) (base : List (κ × FactRef)) (segments : List (List (κ × FactRef)))
    (start : κ) (stop : Option κ) : List (κ × FactRef) :=
  sortEntries kind ((base ++ segments.flatten).filter (inRange kind start stop))

end Merge

section Reads

variable {κ β σ : Type} {kind : IndexKind κ} {base : List (κ × FactRef)}
  {segments : List (List (κ × FactRef))} {start : κ} {stop : Option κ} {pages : Pages}
  {reach root fuel : Nat}

variable (layer : Layer kind base segments)

include layer in
theorem Layer.delta :
    Increasing kind (deltaEntries kind segments) ∧
      (deltaEntries kind segments).Perm segments.flatten := by
  have part := (pairwise_append.mp layer.disjoint).2.1
  exact foldl_extendFromEntries_spec List.Pairwise.nil part

include layer in
theorem Layer.distinct_filter (p : κ × FactRef → Bool) :
    Distinct kind ((base ++ segments.flatten).filter p) :=
  layer.disjoint.sublist filter_sublist

theorem pairwise_isLE {entries : List (κ × FactRef)} (increasing : Increasing kind entries) :
    entries.Pairwise fun a b => (kind.cmp a.1 b.1).isLE = true :=
  increasing.imp fun less => by rw [less]; rfl

variable (ordered : ∀ last ∈ stop, (kind.cmp start last).isLE = true)

include ordered in
theorem rangeDeltaEntries_eq (map : List (κ × FactRef)) :
    rangeDeltaEntries kind map start stop = .ok (map.filter (inRange kind start stop)) := by
  refine if_neg ?_
  cases stop with
  | none => simp
  | some last =>
    have le := ordered last rfl
    rw [Option.any_some]
    revert le
    cases kind.cmp start last <;> decide

include layer in
theorem mergeScan_eq_merged (start : κ) (stop : Option κ) :
    List.mergeScan (fun a b => (kind.cmp a.1 b.1).isLT) (base.filter (inRange kind start stop))
        ((deltaEntries kind segments).filter (inRange kind start stop)) =
      merged kind base segments start stop := by
  obtain ⟨sorted, perm⟩ := layer.delta
  apply eq_sortEntries (layer.distinct_filter _)
  · exact pairwise_mergeScan ((pairwise_isLE layer.increasing).sublist filter_sublist)
      ((pairwise_isLE sorted).sublist filter_sublist)
  · rw [filter_append]
    exact (mergeScan_perm _ _ _).trans ((perm.filter _).append_left _)

include layer ordered in
theorem layeredRangeScan_eq (holds : BTree.Holds kind pages reach root base) (enough : reach ≤ fuel) :
    layeredRangeScan kind fuel pages root (deltaEntries kind segments) start stop =
      .ok ((merged kind base segments start stop).map Prod.snd) := by
  rw [layeredRangeScan, rangeScanEntries_of_holds holds (layer.increasing.sortedFor start) stop fuel enough,
    rangeDeltaEntries_eq ordered _, ← mergeScan_eq_merged layer, mergeScan_isLT]
  rfl

include ordered in
theorem layeredVisit_eq {before : κ × FactRef → β → Bool} {own : κ × FactRef → β}
    {lt : κ × FactRef → κ × FactRef → Bool} (agrees : ∀ a e, before a (own e) = lt a e)
    {scan : (List (κ × FactRef) × σ → β → Except String (Bool × List (κ × FactRef) × σ)) →
      List (κ × FactRef) × σ → Except String (Bool × List (κ × FactRef) × σ)}
    (scans : ∀ visit s, scan visit s = visitList visit s ((base.filter (inRange kind start stop)).map own))
    (map : List (κ × FactRef)) (visit : σ → β → Except String (Bool × σ)) (s : σ) :
    layeredVisit kind before own scan map start stop visit s =
      visitList visit s ((List.mergeScan lt (base.filter (inRange kind start stop))
        (map.filter (inRange kind start stop))).map own) := by
  rw [layeredVisit, rangeDeltaEntries_eq ordered map]
  simp only [scans]
  exact visit_interleave agrees _ _ s

include layer ordered in
theorem layeredVisit_merged {before : κ × FactRef → κ × FactRef → Bool}
    (agrees : ∀ a e, before a e = (kind.cmp a.1 e.1).isLT)
    {scan : (List (κ × FactRef) × σ → κ × FactRef → Except String (Bool × List (κ × FactRef) × σ)) →
      List (κ × FactRef) × σ → Except String (Bool × List (κ × FactRef) × σ)}
    (scans : ∀ visit s, scan visit s = visitList visit s (base.filter (inRange kind start stop)))
    (visit : σ → κ × FactRef → Except String (Bool × σ)) (s : σ) :
    layeredVisit kind before id scan (deltaEntries kind segments) start stop visit s =
      visitList visit s (merged kind base segments start stop) := by
  have scans' : ∀ visit s, scan visit s =
      visitList visit s ((base.filter (inRange kind start stop)).map id) := by
    intro visit s
    rw [scans, map_id]
  have agrees' : ∀ a e, before a (id e) = (kind.cmp a.1 e.1).isLT := agrees
  rw [layeredVisit_eq ordered agrees' scans' _, mergeScan_eq_merged layer, map_id]

end Reads

section Correctness

structure KeyRange (κ : Type) where
  start : κ
  stop : Option κ

def KeyRange.Ordered {κ : Type} (kind : IndexKind κ) (range : KeyRange κ) : Prop :=
  ∀ last ∈ range.stop, (kind.cmp range.start last).isLE = true

structure Ranges where
  eavt : KeyRange EavtKey
  aevt : KeyRange AevtKey
  avet : KeyRange AvetKey
  vaet : KeyRange VaetKey

structure Ranges.Ordered (ranges : Ranges) : Prop where
  eavt : ranges.eavt.Ordered ViciaDb.eavt
  aevt : ranges.aevt.Ordered ViciaDb.aevt
  avet : ranges.avet.Ordered ViciaDb.avet
  vaet : ranges.vaet.Ordered ViciaDb.vaet

/-- A visitor feeds its callback the items in order, and a prefix of them when it is stopped. -/
structure Feeds {β : Type}
    (run : ∀ σ : Type, (σ → β → Except String (Bool × σ)) → σ → Except String (Bool × σ))
    (items : List β) : Prop where
  all : ∀ (σ : Type) (visit : σ → β → Except String (Bool × σ)) (s : σ),
    run σ visit s = visitList visit s items
  stopped : ∀ proceed, ∃ go seen, run (List β) (record proceed) [] = .ok (go, seen) ∧
    seen <+: items ∧ (go = true → seen = items)

theorem feeds_of_visitList {β : Type}
    {run : ∀ σ : Type, (σ → β → Except String (Bool × σ)) → σ → Except String (Bool × σ)}
    {items : List β} (all : ∀ (σ : Type) (visit : σ → β → Except String (Bool × σ)) (s : σ),
      run σ visit s = visitList visit s items) : Feeds run items := by
  refine ⟨all, fun proceed => ?_⟩
  obtain ⟨go, seen, fed, part, whole⟩ := visitList_record (ε := String) proceed [] items
  exact ⟨go, seen, (all _ _ _).trans fed, part, whole⟩

namespace LayeredIndexReader

variable (reader : LayeredIndexReader) (fuel : Nat) (ranges : Ranges)

def mergedEavt (range : KeyRange EavtKey) : List (EavtKey × FactRef) :=
  merged eavt reader.base.eavt (reader.segments.map IndexContents.eavt) range.start range.stop

def mergedAevt (range : KeyRange AevtKey) : List (AevtKey × FactRef) :=
  merged aevt reader.base.aevt (reader.segments.map IndexContents.aevt) range.start range.stop

def mergedAvet (range : KeyRange AvetKey) : List (AvetKey × FactRef) :=
  merged avet reader.base.avet (reader.segments.map IndexContents.avet) range.start range.stop

def mergedVaet (range : KeyRange VaetKey) : List (VaetKey × FactRef) :=
  merged vaet reader.base.vaet (reader.segments.map IndexContents.vaet) range.start range.stop

structure Merges : Prop where
  rangeEavt : reader.rangeScanEavt fuel ranges.eavt.start ranges.eavt.stop =
    .ok ((reader.mergedEavt ranges.eavt).map Prod.snd)
  rangeAevt : reader.rangeScanAevt fuel ranges.aevt.start ranges.aevt.stop =
    .ok ((reader.mergedAevt ranges.aevt).map Prod.snd)
  rangeAvet : reader.rangeScanAvet fuel ranges.avet.start ranges.avet.stop =
    .ok ((reader.mergedAvet ranges.avet).map Prod.snd)
  rangeVaet : reader.rangeScanVaet fuel ranges.vaet.start ranges.vaet.stop =
    .ok ((reader.mergedVaet ranges.vaet).map Prod.snd)
  resumable : Feeds (fun _ => reader.visitAevtEntries fuel ranges.aevt.start ranges.aevt.stop)
    (reader.mergedAevt ranges.aevt)
  currentEavt : Feeds
    (fun _ => reader.visitCurrentEavtEntries fuel ranges.eavt.start ranges.eavt.stop)
    (reader.mergedEavt ranges.eavt)
  currentVaet : Feeds
    (fun _ => reader.visitCurrentVaetEntries fuel ranges.vaet.start ranges.vaet.stop)
    (reader.mergedVaet ranges.vaet)
  currentAevt : Feeds
    (fun _ => reader.visitCurrentAevtEntries fuel ranges.aevt.start ranges.aevt.stop)
    ((reader.mergedAevt ranges.aevt).map fun entry => (entry.1.project, entry.2))

def baseAevt (range : KeyRange AevtKey) : List (AevtKey × FactRef) :=
  reader.base.aevt.filter (inRange aevt range.start range.stop)

def deltaAevt (range : KeyRange AevtKey) : List (AevtKey × FactRef) :=
  (reader.segments.map IndexContents.aevt).flatten.filter (inRange aevt range.start range.stop)

/-- The suffix of a delta entry, its key without the attribute, is below that of the next base entry in
    key order, and not below that of a base entry which it is the next delta entry for. -/
def SuffixAgrees (range : KeyRange AevtKey) : Prop :=
  ∀ base ∈ reader.baseAevt range, ∀ delta ∈ reader.deltaAevt range,
    ((aevt.cmp delta.1 base.1).isLT = true →
      (∀ base' ∈ reader.baseAevt range, (aevt.cmp delta.1 base'.1).isLT = true →
        (aevt.cmp base'.1 base.1).isLT = false) →
        (base.1.project.cmpOwnedSuffix delta.1).isGT = true) ∧
    ((aevt.cmp delta.1 base.1).isLT = false →
      (∀ delta' ∈ reader.deltaAevt range, (aevt.cmp delta'.1 base.1).isLT = false →
        (aevt.cmp delta'.1 delta.1).isLT = false) →
        (base.1.project.cmpOwnedSuffix delta.1).isGT = false)

variable {reader fuel ranges}

variable {range : KeyRange AevtKey}

theorem isGT_cmp_eq {κ : Type} (kind : IndexKind κ) (a b : κ) :
    (kind.cmp b a).isGT = (kind.cmp a b).isLT := by
  have swap : kind.cmp b a = (kind.cmp a b).swap := OrientedCmp.eq_swap
  rw [swap]
  cases kind.cmp a b <;> rfl

variable {σ : Type}

theorem visitAevtEntries_eq (enough : reader.reach ≤ fuel)
    (ordered : range.Ordered aevt) (visit : σ → AevtKey × FactRef → Except String (Bool × σ)) (s : σ) :
    reader.visitAevtEntries fuel range.start range.stop visit s =
      visitList visit s (reader.mergedAevt range) :=
  layeredVisit_merged reader.inAevt ordered (fun _ _ => rfl) (fun visit s => visitRangeEntries_of_holds
    reader.holds.aevt (reader.inAevt.increasing.sortedFor _) _ _ enough visit s) visit s

theorem visitCurrentEavtEntries_eq {range : KeyRange EavtKey} (enough : reader.reach ≤ fuel)
    (ordered : range.Ordered eavt) (visit : σ → EavtKey × FactRef → Except String (Bool × σ)) (s : σ) :
    reader.visitCurrentEavtEntries fuel range.start range.stop visit s =
      visitList visit s (reader.mergedEavt range) :=
  layeredVisit_merged reader.inEavt ordered (fun a e => isGT_cmp_eq eavt a.1 e.1)
    (fun visit s => visitCurrentRange_of_holds _ reader.holds.eavt
      (reader.inEavt.increasing.sortedFor _) _ _ enough visit s) visit s

theorem visitCurrentVaetEntries_eq {range : KeyRange VaetKey} (enough : reader.reach ≤ fuel)
    (ordered : range.Ordered vaet) (visit : σ → VaetKey × FactRef → Except String (Bool × σ)) (s : σ) :
    reader.visitCurrentVaetEntries fuel range.start range.stop visit s =
      visitList visit s (reader.mergedVaet range) :=
  layeredVisit_merged reader.inVaet ordered (fun a e => isGT_cmp_eq vaet a.1 e.1)
    (fun visit s => visitCurrentRange_of_holds _ reader.holds.vaet
      (reader.inVaet.increasing.sortedFor _) _ _ enough visit s) visit s

def suffixMerge (reader : LayeredIndexReader) (range : KeyRange AevtKey) : List (AevtKey × FactRef) :=
  List.mergeScan (fun a b => (b.1.project.cmpOwnedSuffix a.1).isGT)
    (reader.base.aevt.filter (inRange aevt range.start range.stop))
    ((deltaEntries aevt (reader.segments.map IndexContents.aevt)).filter
      (inRange aevt range.start range.stop))

theorem visitCurrentAevtEntries_eq (enough : reader.reach ≤ fuel) (ordered : range.Ordered aevt)
    (visit : σ → CurrentAevtEntryRef × FactRef → Except String (Bool × σ)) (s : σ) :
    reader.visitCurrentAevtEntries fuel range.start range.stop visit s =
      visitList visit s ((reader.suffixMerge range).map fun entry => (entry.1.project, entry.2)) := by
  refine layeredVisit_eq ordered (fun _ _ => rfl) (fun visit s => ?_) _ visit s
  rw [visitCurrentAevtRange, visitCurrentRange_of_holds _ reader.holds.aevt
    (reader.inAevt.increasing.sortedFor _) _ _ enough, visitList_map]

theorem suffixMerge_eq_iff (range : KeyRange AevtKey) :
    reader.suffixMerge range = reader.mergedAevt range ↔ reader.SuffixAgrees range := by
  have entries := List.Nodup.of_map _ reader.inAevt.refs
  obtain ⟨once, -, apart⟩ := nodup_append.mp entries
  obtain ⟨sorted, perm⟩ := reader.inAevt.delta
  have inDelta : ∀ entry, entry ∈ (deltaEntries aevt (reader.segments.map IndexContents.aevt)).filter
      (inRange aevt range.start range.stop) ↔ entry ∈ reader.deltaAevt range := fun entry =>
    (perm.filter _).mem_iff
  have sortedBase := reader.inAevt.increasing.sublist
    (filter_sublist (p := inRange aevt range.start range.stop))
  have sortedRun := sorted.sublist (filter_sublist (p := inRange aevt range.start range.stop))
  rw [mergedAevt, ← mergeScan_eq_merged reader.inAevt, suffixMerge, mergeScan_eq_iff
    (once.sublist filter_sublist) fun entry inBase inRun => apart entry (mem_filter.mp inBase).1 entry
      (perm.mem_iff.mp (mem_filter.mp inRun).1) rfl, sameRuns_iff sortedBase sortedRun]
  simp only [inDelta]
  rfl

theorem mem_of_mem_suffixMerge {entry : AevtKey × FactRef}
    (member : entry ∈ reader.suffixMerge range ∨ entry ∈ reader.mergedAevt range) :
    entry ∈ reader.base.aevt ++ (reader.segments.map IndexContents.aevt).flatten := by
  rcases member with member | member
  · rcases mem_append.mp ((mergeScan_perm _ _ _).mem_iff.mp member) with member | member
    · exact mem_append_left _ (mem_filter.mp member).1
    · exact mem_append_right _ (reader.inAevt.delta.2.mem_iff.mp (mem_filter.mp member).1)
  · exact (mem_filter.mp (mem_mergeSort.mp member)).1

theorem suffixMerge_eq_of_map_eq
    (same : (reader.suffixMerge range).map (fun entry => (entry.1.project, entry.2)) =
      (reader.mergedAevt range).map fun entry => (entry.1.project, entry.2)) :
    reader.suffixMerge range = reader.mergedAevt range := by
  have refs : (reader.suffixMerge range).map Prod.snd = (reader.mergedAevt range).map Prod.snd := by
    have := congrArg (List.map Prod.snd) same
    rwa [map_map, map_map] at this
  refine eq_of_map_eq (fun a inLeft b inRight equal => ?_) refs
  exact inj_on_of_nodup_map reader.inAevt.refs (mem_of_mem_suffixMerge (.inl inLeft))
    (mem_of_mem_suffixMerge (.inr inRight)) equal

/-- All reads but the current view of AEVT always yield the merge; that one does when leaving out the
    attribute changes nothing. -/
theorem merges_iff_suffixAgrees (reader : LayeredIndexReader) (fuel : Nat)
    (enough : reader.reach ≤ fuel) (ranges : Ranges) (ordered : ranges.Ordered) :
    reader.Merges fuel ranges ↔ reader.SuffixAgrees ranges.aevt := by
  rw [← suffixMerge_eq_iff]
  constructor
  · intro merges
    have seen := merges.currentAevt.all _ (record fun _ _ => true) []
    rw [visitCurrentAevtEntries_eq enough ordered.aevt, visitList_record_all, visitList_record_all,
      nil_append, nil_append] at seen
    exact suffixMerge_eq_of_map_eq (Prod.mk.inj (Except.ok.inj seen)).2
  · intro same
    constructor
    · exact layeredRangeScan_eq reader.inEavt ordered.eavt reader.holds.eavt enough
    · exact layeredRangeScan_eq reader.inAevt ordered.aevt reader.holds.aevt enough
    · exact layeredRangeScan_eq reader.inAvet ordered.avet reader.holds.avet enough
    · exact layeredRangeScan_eq reader.inVaet ordered.vaet reader.holds.vaet enough
    · exact feeds_of_visitList fun _ => visitAevtEntries_eq enough ordered.aevt
    · exact feeds_of_visitList fun _ => visitCurrentEavtEntries_eq enough ordered.eavt
    · exact feeds_of_visitList fun _ => visitCurrentVaetEntries_eq enough ordered.vaet
    · rw [← same]
      exact feeds_of_visitList fun _ => visitCurrentAevtEntries_eq enough ordered.aevt

theorem suffixAgrees_of_attr (attr : String)
    (one : ∀ entry ∈ reader.base.aevt ++ (reader.segments.map IndexContents.aevt).flatten,
      inRange aevt range.start range.stop entry = true → entry.1.attr = attr) :
    reader.SuffixAgrees range := by
  intro base inBase delta inDelta
  have same : delta.1.attr = base.1.attr := by
    obtain ⟨inBase, low⟩ := mem_filter.mp inBase
    obtain ⟨inDelta, high⟩ := mem_filter.mp inDelta
    rw [one base (mem_append_left _ inBase) low, one delta (mem_append_right _ inDelta) high]
  have whole : aevt.cmp delta.1 base.1 = delta.1.project.cmpOwnedSuffix base.1 := by
    have equal : compare (utf8Bytes base.1.attr) (utf8Bytes base.1.attr) = .eq :=
      ReflCmp.compare_self
    change AevtKey.cmp _ _ = _
    rw [AevtKey.cmp, compareLex, compareOn, same, equal]
    rfl
  have swap : base.1.project.cmpOwnedSuffix delta.1 = (delta.1.project.cmpOwnedSuffix base.1).swap :=
    @Std.OrientedCmp.eq_swap _ CurrentAevtEntryRef.cmp _ _ _
  rw [swap, ← whole]
  cases aevt.cmp delta.1 base.1 <;> simp

end LayeredIndexReader

section Example

def ageFact : Fact := ⟨5, ":age", .integer 30, 1, 1, 0, 0, true⟩

def groupFact : Fact := ⟨1, ":age-group", .integer 3, 2, 2, 0, 0, true⟩

def singleContents (fact : Fact) (ref : FactRef) : IndexContents where
  eavt := [(eavtKey fact, ref)]
  aevt := [(aevtKey fact, ref)]
  avet := [(avetKey fact, ref)]
  vaet := []

theorem indexesSmall_ageFact : IndexesSmall (singleContents ageFact ⟨1, 0⟩) := by
  constructor <;> constructor <;> decide

theorem exists_ageReader : ∃ reader : LayeredIndexReader,
    reader.base = singleContents ageFact ⟨1, 0⟩ ∧ reader.segments = [singleContents groupFact ⟨7, 0⟩] := by
  obtain ⟨pages, roots, next, -, holds, -⟩ := buildIndexes_spec indexesSmall_ageFact
    (by decide : _ ∧ _ ∧ _ ∧ _ ≤ 1) (fun _ => none) 2 (by decide)
  refine ⟨⟨pages, next, roots, _, [singleContents groupFact ⟨7, 0⟩], holds _ fun _ _ => rfl, ?_, ?_, ?_, ?_⟩, rfl, rfl⟩
  · exact ⟨pairwise_singleton _ _, by decide, by decide⟩
  · exact ⟨pairwise_singleton _ _, by decide, by decide⟩
  · exact ⟨pairwise_singleton _ _, by decide, by decide⟩
  · exact ⟨List.Pairwise.nil, by decide, by decide⟩

def attrRange (attr next : String) : KeyRange AevtKey where
  start := ⟨attr, 0, Int64.minValue, Int64.minValue, 0, [], 0, false⟩
  stop := some ⟨next, 0, Int64.minValue, Int64.minValue, 0, [], 0, false⟩

def ageRanges (attr next : String) : Ranges where
  eavt := ⟨eavtKey ageFact, none⟩
  aevt := attrRange attr next
  avet := ⟨avetKey ageFact, none⟩
  vaet := ⟨⟨0, "", 0, 0, 0, 0, 0, false⟩, none⟩

theorem ordered_ageRanges {attr next : String} (ordered : (aevt.cmp (attrRange attr next).start
      ⟨next, 0, Int64.minValue, Int64.minValue, 0, [], 0, false⟩).isLE = true) :
    (ageRanges attr next).Ordered := by
  refine ⟨?_, ?_, ?_, ?_⟩
  · exact fun last member => by cases member
  · intro last member
    cases member
    exact ordered
  · exact fun last member => by cases member
  · exact fun last member => by cases member

/-- The scan of `:age` also covers `:age-group`, and shows it first. -/
theorem visitCurrentAevtEntries_out_of_order : ∃ reader : LayeredIndexReader,
    (ageRanges ":age" ":agf").Ordered ∧
    reader.visitCurrentAevtEntries reader.reach (attrRange ":age" ":agf").start
        (attrRange ":age" ":agf").stop (record fun _ _ => true) [] =
      .ok (true, [((aevtKey groupFact).project, ⟨7, 0⟩), ((aevtKey ageFact).project, ⟨1, 0⟩)]) ∧
    reader.mergedAevt (attrRange ":age" ":agf") =
      [(aevtKey ageFact, ⟨1, 0⟩), (aevtKey groupFact, ⟨7, 0⟩)] ∧
    ¬ reader.Merges reader.reach (ageRanges ":age" ":agf") := by
  obtain ⟨reader, base, segments⟩ := exists_ageReader
  have ordered : (ageRanges ":age" ":agf").Ordered := ordered_ageRanges (by decide)
  have visited := reader.visitCurrentAevtEntries_eq (Nat.le_refl _) ordered.aevt (record fun _ _ => true) []
  rw [LayeredIndexReader.suffixMerge, base, segments] at visited
  have merge : reader.mergedAevt (attrRange ":age" ":agf") =
      [(aevtKey ageFact, ⟨1, 0⟩), (aevtKey groupFact, ⟨7, 0⟩)] := by
    rw [LayeredIndexReader.mergedAevt, ← mergeScan_eq_merged reader.inAevt, base, segments]
    rfl
  refine ⟨reader, ordered, visited.trans rfl, merge, fun merges => ?_⟩
  have seen := merges.currentAevt.all _ (record fun _ _ => true) []
  change _ = visitList _ _ ((reader.mergedAevt (attrRange ":age" ":agf")).map _) at seen
  rw [merge] at seen
  exact absurd (visited.symm.trans seen) (by decide)

/-- Within one attribute the current view is in key order. -/
theorem merges_iff_suffixAgrees_group : ∃ reader : LayeredIndexReader,
    reader.Merges reader.reach (ageRanges ":age-group" ":age-grouq") := by
  obtain ⟨reader, base, segments⟩ := exists_ageReader
  refine ⟨reader, (LayeredIndexReader.merges_iff_suffixAgrees reader reader.reach (Nat.le_refl _)
    (ageRanges ":age-group" ":age-grouq") (ordered_ageRanges (by decide))).mpr ?_⟩
  apply LayeredIndexReader.suffixAgrees_of_attr ":age-group"
  rw [base, segments]
  decide

end Example

end Correctness

end ViciaDb
