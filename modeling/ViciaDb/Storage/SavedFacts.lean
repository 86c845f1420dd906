import ViciaDb.Storage.BaseCatalog
import ViciaDb.Storage.DeltaFormat
import ViciaDb.Storage.PersistentFacts

namespace ViciaDb

open ByteReader SlottedPage PagedBytes BTree PackedPages Wal.Postcard List Except

section Segment

variable {pending : List Fact} {pageId : Nat}

theorem refsFrom_spec {cur facts : List Fact} (room : packedBytes cur ≤ pageSize)
    (accepted : ∀ fact ∈ facts, (encFact fact).length ≤ Wal.maxFactBytes)
    (ids64 : pageId + (groupFrom cur facts).length ≤ 2 ^ 64) :
    (refsFrom pageId cur facts).Nodup ∧ ∀ ref ∈ refsFrom pageId cur facts,
      pageId ≤ ref.pageId.toNat ∧ ref.pageId.toNat < pageId + (groupFrom cur facts).length ∧
        (ref.pageId.toNat = pageId → cur.length ≤ ref.slotIndex.toNat) := by
  induction facts generalizing pageId cur with
  | nil => exact ⟨nodup_nil, by simp [refsFrom]⟩
  | cons fact facts ih =>
    obtain ⟨small, smaller⟩ := forall_mem_cons.mp accepted
    rw [refsFrom]
    rw [groupFrom] at ids64 ⊢
    split
    · rename_i full
      rw [if_pos full, length_cons] at ids64
      have pos := length_groupFrom_pos [fact] facts
      have here : (UInt64.ofNat (pageId + 1)).toNat = pageId + 1 :=
        UInt64.toNat_ofNat_of_lt' (by simp only [UInt64.size]; omega)
      obtain ⟨apart, each⟩ := ih (packedBytes_singleton small) smaller
        (by omega : pageId + 1 + (groupFrom [fact] facts).length ≤ 2 ^ 64)
      rw [length_cons, nodup_cons, forall_mem_cons]
      refine ⟨⟨fun again => ?_, apart⟩, ?_, fun ref member => ?_⟩
      · have := (each _ again).2.2 here
        simp at this
      · simp only [here]
        omega
      · have := each ref member
        omega
    · rename_i roomy
      rw [if_neg roomy] at ids64
      have pos := length_groupFrom_pos (cur ++ [fact]) facts
      have few := length_lt_of_packedBytes room
      have here : (UInt64.ofNat pageId).toNat = pageId :=
        UInt64.toNat_ofNat_of_lt' (by simp only [UInt64.size]; omega)
      have slot : (UInt16.ofNat cur.length).toNat = cur.length :=
        UInt16.toNat_ofNat_of_lt' (by simp only [UInt16.size]; omega)
      obtain ⟨apart, each⟩ := ih (Nat.le_of_not_lt roomy) smaller ids64
      simp only [length_append, length_singleton] at each
      rw [nodup_cons, forall_mem_cons]
      refine ⟨⟨fun again => ?_, apart⟩, ?_, fun ref member => ?_⟩
      · have := (each _ again).2.2 here
        simp only [slot] at this
        omega
      · simp only [here, slot]
        omega
      · have := each ref member
        omega

/-- Every list of accepted facts makes a valid segment, whatever the sizes of its index keys. -/
theorem fromFacts_of_accepted (some : pending ≠ [])
    (accepted : ∀ fact ∈ pending, (encFact fact).length ≤ Wal.maxFactBytes)
    (ids64 : pageId + (groupFrom [] pending).length < 2 ^ 64) :
    ∃ segment, DeltaSegment.fromFacts pending pageId = .ok segment ∧ segment.validate = .ok () ∧
      segment.payload.facts = (refsFrom pageId [] pending).zip pending := by
  obtain ⟨factPages, packed, reads⟩ := packFacts_spec pending pageId accepted ids64.le
  obtain ⟨apart, each⟩ := refsFrom_spec (by decide : packedBytes [] ≤ pageSize) accepted ids64.le
  have count : factPages.length = (groupFrom [] pending).length := reads.length_eq
  generalize isRows : (refsFrom pageId [] pending).zip pending = rows
  have refs : rows.map Prod.fst = refsFrom pageId [] pending := by
    rw [← isRows, map_fst_zip (length_refsFrom pageId [] pending).le]
  have inside : ∀ row ∈ rows, pageId ≤ row.1.pageId.toNat ∧
      row.1.pageId.toNat < pageId + (groupFrom [] pending).length := by
    intro row member
    have ref := each row.1 (refs ▸ mem_map_of_mem member)
    exact ⟨ref.1, ref.2.1⟩
  generalize isSegment : (⟨.fromPayload ⟨rows, buildIndexEntries rows⟩ pageId (groupFrom [] pending).length,
    ⟨rows, buildIndexEntries rows⟩⟩ : DeltaSegment) = segment
  have valid : segment.validate = .ok () := by
    subst isSegment
    have rowsOk := validateFactRows_eq_ok_iff.mpr ⟨inside, refs ▸ apart, fun _ _ => not_mem_nil⟩
    have inRows : ∀ {κ : Type} {kind : IndexKind κ} {key : Fact → Option κ}, ∀ entry ∈
        extendFromEntries kind [] (keyed key (rows.map Prod.snd) (rows.map Prod.fst)),
        entry.2 ∈ rows.map Prod.fst := by
      intro κ kind key entry member
      obtain ⟨row, inRows, same, -⟩ := (indexesRows_of_built rfl).ofRow entry member
      exact same ▸ mem_map_of_mem inRows
    simp only [DeltaSegment.validate, validateIndexRefs, ensure_bind_eq_ok_iff]
    refine ⟨rfl, rfl, rfl, rfl, rfl, rfl, rfl, ⟨rfl, rfl⟩, ids64, bind_eq_ok_iff.mpr ⟨(), rowsOk, ?_⟩⟩
    simp only [ensure_bind_eq_ok_iff, ensure_eq_ok_iff, and_self, and_true]
    exact ⟨inRows, inRows, inRows, inRows⟩
  refine ⟨segment, ?_, valid, isSegment ▸ rfl⟩
  simp only [DeltaSegment.fromFacts, packedRefs, if_neg some, packed, bind, Except.bind, pure, Except.pure,
    count, isRows, DeltaSegment.fromParts, isSegment, valid]

theorem planDelta_eq_ok {crc32 : Bytes → UInt32} {page0 : Page0} {resident : Resident} {currentTxCount : UInt64}
    {plan : DeltaPlan} (planned : planDelta crc32 page0 resident pending currentTxCount = .ok plan) :
    DeltaSegment.fromFacts pending page0.header.pageCount = .ok plan.segment ∧
      page0.header.pageCount ≤ plan.page0.header.pageCount := by
  simp only [planDelta, buildHeaderPage, bind_eq_ok_iff] at planned
  obtain ⟨_, -, segment, made, _, -, _, -, _, -, _, -, _, -, _, ⟨_, -, built⟩, final⟩ := planned
  cases built
  cases final
  exact ⟨made, Nat.le_trans (Nat.le_add_right _ _) (Nat.le_add_right _ _)⟩

end Segment

section Lookups

variable {κ : Type} (crc32 : Bytes → UInt32) (kind : IndexKind κ) (entries : IndexContents → List (κ × FactRef))

/-- A range lookup through one index of an open file: the references of the base tree and of the
    segments, then their facts. -/
def Resident.lookup (root fuel : Nat) (pages : Pages) (resident : Resident) (start : κ) (stop : Option κ) :
    Except String (List Fact) := do
  let base := resident.basePages crc32 pages
  let refs ← if resident.deltaSegments.isEmpty then rangeScan kind fuel base root start stop
    else layeredRangeScan kind fuel base root (deltaEntries kind
      (resident.deltaSegments.map fun segment => entries segment.payload.entries)) start stop
  refs.mapM (resolveCommitted crc32 pages resident)

variable {crc32 kind entries} {key : Fact → Option κ} {root reach fuel : Nat} {pages : Pages}
  {resident : Resident} {start k : κ} {stop : Option κ} {contents : List (κ × FactRef)}

theorem inRange_of_eq {entry : κ × FactRef} (low : (kind.cmp start k).isLE = true)
    (high : ∀ last ∈ stop, kind.cmp k last = .lt) (same : kind.cmp k entry.1 = .eq) :
    inRange kind start stop entry = true := by
  rw [inRange, ← Std.TransCmp.congr_right same, low, Bool.true_and]
  cases stop with
  | none => rfl
  | some last =>
    rw [Option.all_some, ← Std.TransCmp.congr_left same, high last rfl]
    rfl

theorem exists_found {resolve : FactRef → Except String Fact} {refs : List FactRef} {ref : FactRef}
    {fact : Fact} (all : ∀ ref ∈ refs, ∃ fact, resolve ref = .ok fact) (member : ref ∈ refs)
    (isFact : resolve ref = .ok fact) : ∃ found, refs.mapM resolve = .ok found ∧ fact ∈ found := by
  obtain ⟨found, mapped⟩ := mapM_ok_of_exists all
  obtain ⟨other, inFound, resolved⟩ := exists_of_mapM_ok mapped member
  rw [isFact] at resolved
  cases resolved
  exact ⟨found, mapped, inFound⟩

instance : Std.TransCmp FactRef.cmp := inferInstanceAs (Std.TransCmp (compareLex _ _))

theorem FactRef.cmp_ne_eq {a b : FactRef} (ne : a ≠ b) : FactRef.cmp a b ≠ .eq := by
  intro same
  apply ne
  cases a
  cases b
  simpa [FactRef.cmp, compareLex_eq_eq, compareOn] using same

theorem deltaEntries_eq (kind : IndexKind κ) (segments : List (List (κ × FactRef))) :
    deltaEntries kind segments = extendFromEntries kind [] segments.flatten := by
  rw [deltaEntries, extendFromEntries, foldl_flatten]
  rfl

/-- A fact of the last segment is found, whatever the base and the earlier segments hold. -/
theorem lookup_appended {old : List DeltaSegment} {segment : DeltaSegment} {row : FactRef × Fact}
    (segments : resident.deltaSegments = old ++ [segment])
    (indexed : ∀ segment ∈ resident.deltaSegments,
      IndexesRows kind key segment.payload.facts (entries segment.payload.entries))
    (apart : (segment.payload.facts.map Prod.fst).Nodup)
    (holds : BTree.Holds kind (resident.basePages crc32 pages) reach root contents) (enough : reach ≤ fuel)
    (sorted : SortedFor kind start contents)
    (resolves : ∀ entry ∈ contents, ∃ fact, resolve (resident.basePages crc32 pages) entry.2 = .ok fact)
    (member : row ∈ segment.payload.facts) (isKey : key row.2 = some k)
    (low : (kind.cmp start k).isLE = true) (high : ∀ last ∈ stop, kind.cmp k last = .lt) :
    ∃ found, resident.lookup crc32 kind entries root fuel pages start stop = .ok found ∧
      ∃ other ∈ found, ∃ k', key other = some k' ∧ kind.cmp k k' = .eq := by
  have new := indexed segment (by rw [segments]; simp)
  obtain ⟨entry, inSegment, sameKey⟩ := new.ofKey row member k isKey
  obtain ⟨⟨ref, other⟩, inRows, rfl, k', isKey', sameKey'⟩ := new.ofRow entry inSegment
  generalize isMap : deltaEntries kind
    (resident.deltaSegments.map fun segment => entries segment.payload.entries) = map
  -- the entry was inserted last of its key
  obtain ⟨filed, inMap, same, place⟩ : ∃ filed ∈ map, kind.cmp entry.1 filed.1 = .eq ∧ filed.2 = entry.2 := by
    apply SortedMap.exists_of_find
    rw [← isMap, deltaEntries_eq, segments, map_append, flatten_append, extendFromEntries, foldl_append]
    simp only [map_cons, map_nil, flatten_cons, flatten_nil, append_nil]
    exact SortedMap.find_foldl_insert _ (new.increasing.imp fun less => by rw [less]; decide) inSegment
  have resolved : resolveCommitted crc32 pages resident entry.2 = .ok other := by
    have found : SortedMap.find FactRef.cmp entry.2 (deltaFacts resident.deltaSegments) = some other := by
      rw [deltaFacts, segments, flatMap_append, foldl_append]
      simp only [flatMap_cons, flatMap_nil, append_nil]
      exact @SortedMap.find_foldl_insert _ _ _ _ _ (entry.2, other) _
        ((pairwise_map.mp apart).imp FactRef.cmp_ne_eq) inRows
    rw [resolveCommitted, found]
  have all : ∀ ref ∈ mergeEntryRefs kind (contents.filter (inRange kind start stop))
      (map.filter (inRange kind start stop)), ∃ fact, resolveCommitted crc32 pages resident ref = .ok fact := by
    intro ref inRefs
    obtain ⟨scanned, inMerge, rfl⟩ := mem_map.mp inRefs
    rw [resolveCommitted]
    rcases (mem_merge).mp inMerge with inBase | inDelta
    · split
      · exact ⟨_, rfl⟩
      · exact resolves scanned (mem_filter.mp inBase).1
    · have inMap := (mem_filter.mp inDelta).1
      rw [← isMap, deltaEntries_eq] at inMap
      obtain ⟨source, isSource, place, -⟩ :=
        (@extendFromEntries_holds κ kind [] _ Pairwise.nil).2.1 scanned inMap
      rw [nil_append, mem_flatten] at isSource
      obtain ⟨_, isSegment, inEntries⟩ := isSource
      obtain ⟨from', isFrom, rfl⟩ := mem_map.mp isSegment
      obtain ⟨row', inRows', sameRef, -⟩ := (indexed from' isFrom).ofRow source inEntries
      obtain ⟨fact, found⟩ := @SortedMap.exists_find_foldl_insert _ _ FactRef.cmp _
        (resident.deltaSegments.flatMap fun segment => segment.payload.facts) scanned.2 [] (by
          rw [← place, ← sameRef]
          exact mem_map_of_mem (mem_flatMap.mpr ⟨from', isFrom, inRows'⟩))
      rw [deltaFacts, found]
      exact ⟨fact, rfl⟩
  have some : resident.deltaSegments.isEmpty = false := by rw [segments]; simp
  have ordered : ∀ last ∈ stop, (kind.cmp start last).isLE = true := fun last isLast =>
    Std.TransCmp.isLE_trans low (by rw [high last isLast]; rfl)
  obtain ⟨found, mapped, inFound⟩ := exists_found all (mem_map.mpr ⟨filed, mem_merge.mpr (.inr
    (mem_filter.mpr ⟨inMap, inRange_of_eq low high (Std.TransCmp.eq_trans sameKey same)⟩)), rfl⟩)
    (place ▸ resolved)
  refine ⟨found, ?_, other, inFound, k', isKey', Std.TransCmp.eq_trans sameKey (Std.OrientedCmp.eq_symm sameKey')⟩
  simp only [Resident.lookup, some, layeredRangeScan, isMap, rangeScanEntries_of_holds holds sorted stop fuel enough,
    rangeDeltaEntries_eq ordered, bind, Except.bind, pure, Except.pure]
  exact mapped

end Lookups

section Saves

variable (crc32 : Bytes → UInt32) {κ : Type}

/-- No key of the tree at `root` is as `start` twice. -/
def Unrepeated (kind : IndexKind κ) (pages : Pages) (root : Nat) (start : κ) : Prop :=
  ∀ reach entries, BTree.Holds kind pages reach root entries → Single kind start entries

/-- Every range that has the key of a fact finds a fact of this key. A key has all of its fact, the value
    as encoded. -/
def Finds (kind : IndexKind κ) (key : Fact → Option κ) (entries : IndexContents → List (κ × FactRef))
    (root : IndexRoots → Nat) (file : MainFile) (resident : Resident) (facts : List Fact) : Prop :=
  ∀ fuel, file.page0.header.pageCount ≤ fuel → ∀ fact ∈ facts, ∀ k, key fact = some k → ∀ start stop,
    Unrepeated kind (resident.basePages crc32 file.pages) (root resident.roots) start →
    (kind.cmp start k).isLE = true → (∀ last ∈ stop, kind.cmp k last = .lt) →
    ∃ found, resident.lookup crc32 kind entries (root resident.roots) fuel file.pages start stop = .ok found ∧
      ∃ other ∈ found, ∃ k', key other = some k' ∧ kind.cmp k k' = .eq

structure IndexesFit (contents : IndexContents) : Prop where
  eavt : Fits eavt contents.eavt
  aevt : Fits aevt contents.aevt
  avet : Fits avet contents.avet
  vaet : Fits vaet contents.vaet

theorem indexesFit_iff_indexesSmall {contents : IndexContents} :
    IndexesFit contents ↔ IndexesSmall contents :=
  ⟨fun ⟨a, b, c, d⟩ => ⟨fits_iff_smallKeys.mp a, fits_iff_smallKeys.mp b, fits_iff_smallKeys.mp c,
    fits_iff_smallKeys.mp d⟩, fun ⟨a, b, c, d⟩ => ⟨fits_iff_smallKeys.mpr a, fits_iff_smallKeys.mpr b,
    fits_iff_smallKeys.mpr c, fits_iff_smallKeys.mpr d⟩⟩

/-- The checkpoint succeeds, what it puts into index pages fits them, and afterwards every lookup through
    an index finds the facts. -/
structure Saves (file : MainFile) (resident : Resident) (pending : List Fact) (currentTxCount : UInt64) :
    Prop where
  fits : saveRoute file.page0 resident pending ≠ .deltaSegment → IndexesFit (indexContents pending
    (refsFrom (resident.committedFactPageStart + resident.committedFactPages) [] pending))
  saved : ∃ file' resident', save crc32 file resident pending currentTxCount = .ok (file', resident') ∧
    Finds crc32 eavt (some ∘ eavtKey) IndexContents.eavt IndexRoots.eavt file' resident' pending ∧
    Finds crc32 aevt (some ∘ aevtKey) IndexContents.aevt IndexRoots.aevt file' resident' pending ∧
    Finds crc32 avet (some ∘ avetKey) IndexContents.avet IndexRoots.avet file' resident' pending ∧
    Finds crc32 vaet vaetKey IndexContents.vaet IndexRoots.vaet file' resident' pending

/-- A tree of the base stands in the published pages, in order, and its references resolve there. -/
def Stands (file : MainFile) (resident : Resident) (kind : IndexKind κ) (root : Nat) : Prop :=
  let bound := file.page0.header.pageCount
  ∃ entries, (∀ later : Pages, (∀ i < bound, later i = resident.basePages crc32 file.pages i) →
      BTree.Holds kind later bound root entries) ∧
    entries.Pairwise (fun a b => (kind.cmp a.1 b.1).isLE = true) ∧
    ∀ entry ∈ entries, entry.2.pageId.toNat < bound ∧
      ∃ fact, resolve (resident.basePages crc32 file.pages) entry.2 = .ok fact

/-- No checkpoint has been made yet. -/
structure Fresh (file : MainFile) (resident : Resident) : Prop where
  roots : file.page0.header.roots = ⟨0, 0, 0, 0⟩
  noPage0 : file.pages 0 = none
  unprotected : resident.baseIntegrity = none
  factPages : resident.committedFactPages = 0
  factPageStart : resident.committedFactPageStart = 1
  noManifest : resident.deltaSelection = .noDeltaManifest

def freshResident : Resident := ⟨.noDeltaManifest, .noDeltaManifest, [], 0, 1, none, ⟨0, 0, 0, 0⟩, 0⟩

theorem fresh_mainFile : Fresh .fresh freshResident := ⟨rfl, rfl, rfl, rfl, rfl, rfl⟩

/-- The base of the file is published, and its manifest and page 0 take a segment of the facts. -/
structure Published (file : MainFile) (resident : Resident) (pending : List Fact) (currentTxCount : UInt64) :
    Prop where
  roots : file.page0.header.roots.Present
  usable : ∀ reason, resident.deltaSelection ≠ .recoveryRequired reason
  segments : ∀ segment ∈ resident.deltaSegments, segment.validate = .ok ()
  eavt : Stands crc32 file resident eavt resident.roots.eavt
  aevt : Stands crc32 file resident aevt resident.roots.aevt
  avet : Stands crc32 file resident avet resident.roots.avet
  vaet : Stands crc32 file resident vaet resident.roots.vaet
  ids64 : file.page0.header.pageCount + pending.length + 1 < 2 ^ 64
  takes : ∀ segment, DeltaSegment.fromFacts pending file.page0.header.pageCount = .ok segment →
    ∃ plan, planDelta crc32 file.page0 resident pending currentTxCount = .ok plan

variable {crc32} {kind : IndexKind κ} {key : Fact → Option κ} {entries : IndexContents → List (κ × FactRef)}
  {root : IndexRoots → Nat} {file : MainFile} {resident : Resident} {pending : List Fact}
  {currentTxCount : UInt64} {plan : DeltaPlan}

theorem finds_published (indexed : ∀ segment : DeltaSegment, segment.Valid →
      IndexesRows kind key segment.payload.facts (entries segment.payload.entries))
    (stands : Stands crc32 file resident kind (root resident.roots))
    (segments : ∀ segment ∈ resident.deltaSegments, segment.validate = .ok ())
    (valid : plan.segment.validate = .ok ())
    (rows : plan.segment.payload.facts = (refsFrom file.page0.header.pageCount [] pending).zip pending)
    (grows : file.page0.header.pageCount ≤ plan.page0.header.pageCount) :
    Finds crc32 kind key entries root (plan.publish file resident).1 (plan.publish file resident).2 pending := by
  obtain ⟨contents, keeps, sorted, resolves⟩ := stands
  intro fuel enough fact member k isKey start stop single low high
  have same : ∀ i < file.page0.header.pageCount, (plan.publish file resident).2.basePages crc32
      (plan.publish file resident).1.pages i = resident.basePages crc32 file.pages i :=
    fun i below => verifiedPages_congr (writePages_of_lt _ _ _ below)
  have holds := keeps _ same
  have isRow : fact ∈ plan.segment.payload.facts.map Prod.snd := by
    rwa [rows, map_snd_zip (length_refsFrom _ _ _).ge]
  obtain ⟨⟨ref, _⟩, paired, rfl⟩ := mem_map.mp isRow
  have every : ∀ segment ∈ resident.deltaSegments ++ [plan.segment], segment.validate = .ok () := by
    intro segment isSegment
    rcases mem_append.mp isSegment with old | new
    · exact segments segment old
    · rwa [mem_singleton.mp new]
  exact @lookup_appended κ crc32 kind entries key _ _ fuel _
    (plan.publish file resident).2 start k stop contents resident.deltaSegments plan.segment (ref, _) rfl
    (fun segment isSegment => indexed segment (DeltaSegment.valid_of_validate (every segment isSegment)))
    (DeltaSegment.valid_of_validate valid).apart holds (grows.trans enough) (sorted.and (single _ _ holds))
    (fun entry inContents => by
      obtain ⟨below, fact, resolved⟩ := resolves entry inContents
      refine ⟨fact, ?_⟩
      rw [resolve, Pages.load, same _ below]
      exact resolved)
    paired isKey low high

theorem finds_rebuilt {refs : List FactRef} {reach : Nat} (unlayered : resident.deltaSegments = [])
    (matching : pending.length = refs.length)
    (holds : BTree.Holds kind (resident.basePages crc32 file.pages) reach (root resident.roots)
      (indexEntries kind key pending refs)) (few : reach ≤ file.page0.header.pageCount)
    (resolves : ∀ fact ref, (fact, ref) ∈ pending.zip refs →
      resolve (resident.basePages crc32 file.pages) ref = .ok fact) :
    Finds crc32 kind key entries root file resident pending := by
  intro fuel enough fact member k isKey start stop single low high
  have committed : ∀ ref, resolveCommitted crc32 file.pages resident ref =
      resolve (resident.basePages crc32 file.pages) ref := by
    intro ref
    rw [resolveCommitted, unlayered]
    rfl
  have scan := rangeScanEntries_of_holds holds (sortedFor_sortEntries (single _ _ holds)) stop fuel
    (few.trans enough)
  rw [← map_fst_zip matching.le] at member
  obtain ⟨⟨_, ref⟩, paired, rfl⟩ := mem_map.mp member
  obtain ⟨found, mapped, inFound⟩ := @exists_found (resolveCommitted crc32 file.pages resident) _ ref _
    (fun ref inRefs => by
      obtain ⟨entry, inScan, rfl⟩ := mem_map.mp inRefs
      obtain ⟨other, paired', -⟩ := mem_indexEntries.mp (mem_filter.mp inScan).1
      exact ⟨other, (committed _).trans (resolves other entry.2 paired')⟩)
    (mem_map.mpr ⟨(k, ref), mem_filter.mpr ⟨mem_indexEntries.mpr ⟨_, paired, isKey⟩,
      inRange_of_eq low high Std.ReflCmp.compare_self⟩, rfl⟩)
    ((committed ref).trans (resolves _ ref paired))
  refine ⟨found, ?_, _, inFound, k, isKey, Std.ReflCmp.compare_self⟩
  simp only [Resident.lookup, unlayered, isEmpty_nil, if_true, rangeScan, scan, bind, Except.bind, pure, Except.pure]
  exact mapped

theorem committedContents_fresh (fresh : Fresh file resident) :
    committedContents file = .ok ⟨[], [], [], []⟩ := by
  simp only [committedContents, fresh.roots, streamTree, if_true, bind, Except.bind]
  rfl

theorem saveFull_fresh (fresh : Fresh file resident) {factPages : List Bytes} {refs : List FactRef}
    (packed : packFacts pending 1 = .ok (factPages, refs)) :
    saveFull crc32 file resident pending currentTxCount = publishBase crc32 (writePages file.pages 1 factPages)
      (indexContents pending refs) 1 1 factPages.length (file.page0.header.nodeCount + pending.length)
      currentTxCount := by
  have merged : mergeContents ⟨[], [], [], []⟩ (indexContents pending refs) = indexContents pending refs := by
    simp only [mergeContents, mergeSortedIters, nil_merge]
  have generation : nextBaseGeneration resident = .ok 1 := by
    rw [nextBaseGeneration, fresh.unprotected]
    rfl
  simp only [saveFull, generation, fresh.unprotected, fresh.factPages, fresh.factPageStart,
    committedContents_fresh fresh, Nat.add_zero, packed, merged, Nat.zero_add, bind, Except.bind]

theorem saveFull_of_small (fresh : Fresh file resident)
    (accepted : ∀ fact ∈ pending, (encFact fact).length ≤ Wal.maxFactBytes)
    (few : 13 * pending.length + 5 ≤ maxBaseIntegrityCoveredPages)
    (small : IndexesSmall (indexContents pending (refsFrom 1 [] pending))) :
    ∃ file' resident' next, saveFull crc32 file resident pending currentTxCount = .ok (file', resident') ∧
      resident'.deltaSegments = [] ∧ next ≤ file'.page0.header.pageCount ∧
      IndexesHold (resident'.basePages crc32 file'.pages) next resident'.roots
        (indexContents pending (refsFrom 1 [] pending)) ∧
      ∀ fact ref, (fact, ref) ∈ pending.zip (refsFrom 1 [] pending) →
        resolve (resident'.basePages crc32 file'.pages) ref = .ok fact := by
  have groups := length_groupFrom_le [] pending
  have first := length_groupFrom_pos [] pending
  simp only [maxBaseIntegrityCoveredPages] at few
  obtain ⟨factPages, packed, reads⟩ := packFacts_spec pending 1 accepted (by omega)
  have count : factPages.length = (groupFrom [] pending).length := reads.length_eq
  obtain ⟨pages', roots, next, built, held, frame, filled, rooted, grows, ends⟩ := buildIndexes_spec small
    ⟨length_indexEntries_le _ _ _ _, length_indexEntries_le _ _ _ _,
      length_indexEntries_le _ _ _ _, length_indexEntries_le _ _ _ _⟩
    (writePages file.pages 1 factPages) (1 + factPages.length) (by omega)
  have full : Filled pages' 1 next := by
    refine Filled.append (fun i low high => ?_) frame filled
    obtain ⟨page, there, read⟩ := holdGroups_writePages file.pages 1 reads (i - 1) _
      (getElem?_eq_getElem (by omega))
    exact ⟨page, by rwa [show 1 + (i - 1) = i by omega] at there, read.length⟩
  obtain ⟨pages'', written, wrote, catalogued⟩ := @writeBaseIntegrityCatalog_of_coverable crc32 pages' 1 1 (next - 1)
    next ⟨by decide, by decide, by decide, by omega, by simp only [maxBaseIntegrityCoveredPages]; omega,
      by rwa [show 1 + (next - 1) = next by omega], by omega, by omega⟩
  have wrote := wrote none rfl
  have shows : ∀ i < next, verifiedPages crc32 (some written.catalog) pages'' i = pages' i := by
    intro i below
    rcases Nat.eq_zero_or_pos i with rfl | pos
    · rw [catalogued.hidden 0 (by decide), frame 0 (by omega), writePages_of_lt _ _ _ (by decide), fresh.noPage0]
    · exact catalogued.shown i pos (by omega)
  have published := catalogued.published
  generalize isHeader : (⟨written.publishedPageCount, file.page0.header.nodeCount + pending.length, currentTxCount,
    roots, written.aggregateChecksum, factPages.length⟩ : FileHeader) = header
  have valid : header.validate = .ok () := by
    subst isHeader
    simp only [FileHeader.validate, bind_eq_ok_iff, ensure_eq_ok_iff, exists_and_left, exists_const]
    omega
  have protects : ((⟨.empty, .empty, 1, .empty⟩ : HeaderExtension).withBaseIntegrity crc32 written.descriptor) =
      .ok ⟨.empty, .empty, 1, written.descriptor⟩ := by
    simp only [HeaderExtension.withBaseIntegrity, catalogued.layout, ensure, if_pos catalogued.checksum,
      catalogued.covered, or_true, if_true, bind, Except.bind, pure, Except.pure]
  generalize isExtension : (⟨.empty, .empty, 1, written.descriptor⟩ : HeaderExtension) = extension at protects
  refine ⟨⟨⟨header, extension⟩, pages''⟩, ⟨selectHeaderManifestSlot crc32 extension, .noDeltaManifest, [],
    factPages.length, 1, some written.catalog, roots, currentTxCount⟩, next, ?_, rfl, ?_, held _ shows, ?_⟩
  · have placed : HeaderExtension.empty.withBaseFactPageStart 1 = .ok ⟨.empty, .empty, 1, .empty⟩ := rfl
    rw [saveFull_fresh fresh packed]
    simp only [publishBase, built, wrote, placed, protects, buildHeaderPage, isHeader, valid, bind, Except.bind, pure,
      Except.pure]
  · rw [← isHeader]
    simp only
    omega
  · intro fact ref member
    obtain ⟨page, there, read⟩ := readSlot_of_mem_zip member
      (holdGroups_writePages file.pages 1 reads) accepted (by omega)
    have inside := ((refsFrom_spec (by decide : packedBytes [] ≤ pageSize) accepted (by omega)).2 ref
      (of_mem_zip member).2).2.1
    change resolve (verifiedPages crc32 (some written.catalog) pages'') ref = .ok fact
    rw [resolve, Pages.load, shows _ (by omega), frame _ (by omega), there]
    exact read

/-- Where a checkpoint finds the database: no base yet and no more pages to write than a catalog covers,
    or a published base and new facts. -/
inductive Checkpointable (crc32 : Bytes → UInt32) (file : MainFile) (resident : Resident) (pending : List Fact)
    (currentTxCount : UInt64) : Prop
  | fresh (state : Fresh file resident) (few : 13 * pending.length + 5 ≤ maxBaseIntegrityCoveredPages)
  | published (state : Published crc32 file resident pending currentTxCount)

theorem appendsDelta_published (state : Published crc32 file resident pending currentTxCount)
    (some : pending ≠ []) :
    appendsDelta file.page0 resident pending = true := by
  have usable := state.usable
  rw [appendsDelta, isEmpty_eq_false_iff.mpr some, decide_eq_true state.roots]
  cases selection : resident.deltaSelection with
  | noDeltaManifest | use => rfl
  | recoveryRequired reason => exact absurd selection (usable reason)

theorem saveRoute_fresh (state : Fresh file resident) : saveRoute file.page0 resident pending = .fullRebuild := by
  have absent : ¬ file.page0.header.roots.Present := by
    rw [state.roots]
    decide
  rw [saveRoute, appendsDelta, decide_eq_false absent, state.noManifest]
  simp [PersistedManifestSelection.isUse]

theorem save_textFact {text : String} (size : (utf8Bytes text).length = 4052) :
    save (fun _ => 0) .fresh freshResident [textFact text] 1 =
      .error "B-tree leaf entry does not fit in one page" := by
  have length := length_encFact_textFact size
  have accepted : ∀ fact ∈ [textFact text], (encFact fact).length ≤ Wal.maxFactBytes := by
    rw [forall_mem_singleton, length]
    decide
  obtain ⟨factPages, packed, -⟩ := packFacts_spec [textFact text] 1 accepted
    (Nat.le_trans (Nat.add_le_add_left (length_groupFrom_le _ _) 1) (by simp))
  have refs : refsFrom 1 [] [textFact text] = [⟨UInt64.ofNat 1, UInt16.ofNat 0⟩] := by
    rw [refsFrom, nil_append, if_neg (packedBytes_textFact size).1]
    rfl
  have entries : (indexContents [textFact text] [⟨UInt64.ofNat 1, UInt16.ofNat 0⟩]).eavt =
      [(eavtKey (textFact text), ⟨UInt64.ofNat 1, UInt16.ofNat 0⟩)] := by
    simp [indexContents, indexEntries, sortEntries, keyed]
  have long := length_entry_textFact size
    (by decide : (FactRef.mk (UInt64.ofNat 1) (UInt16.ofNat 0)).toBytes.length = 2)
  rw [refs] at packed
  rw [save, saveRoute_fresh fresh_mainFile]
  simp only [saveFull_fresh fresh_mainFile packed, publishBase, buildIndexes, entries, bind, Except.bind]
  rw [buildBtreeFromKeyEntries_of_long .default [] _ _ (by omega) (by omega)]

end Saves

end ViciaDb
