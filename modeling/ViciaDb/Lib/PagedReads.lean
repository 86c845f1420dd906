import ViciaDb.Lib.FixedFields

namespace PagedReads

open ByteReader List

variable {ε α β : Type}

inductive Failure (ε : Type) where
  | notResident
  | failed (error : ε)

/-- The cache, from the page used least recently to the one used last, and how many more pages can be
    read before one is not resident: without a number all can. -/
structure Pages where
  cache : List (Nat × Bytes)
  allowed : Option Nat

/-- A reader that may come to its end or fail; the cache it leaves behind is kept either way. -/
def Read (ε α : Type) : Type := Pages → Except (Failure ε) α × Pages

namespace Read

instance : Monad (Read ε) where
  pure value := fun pages => (.ok value, pages)
  bind read next := fun pages =>
    match read pages with
    | (.ok value, pages) => next value pages
    | (.error failure, pages) => (.error failure, pages)

def lift (result : Except ε α) : Read ε α := fun pages => (result.mapError .failed, pages)

theorem bind_of_ok {read : Read ε α} {next : α → Read ε β} {pages : Pages} {value : α}
    (done : (read pages).1 = .ok value) : (read >>= next) pages = next value (read pages).2 := by
  simp only [Bind.bind]
  split <;> simp_all

theorem bind_of_error {read : Read ε α} {next : α → Read ε β} {pages : Pages} {failure : Failure ε}
    (stopped : (read pages).1 = .error failure) : (read >>= next) pages = (.error failure, (read pages).2) := by
  simp only [Bind.bind]
  split <;> simp_all

def ensure (p : Prop) [Decidable p] (error : ε) : Read ε Unit := lift (if p then .ok () else .error error)

end Read

/-- A run of pages, how many of them are cached, and the errors of a read. -/
structure Source (ε : Type) where
  fetch : Nat → Except ε Bytes
  start : Nat
  count : Nat
  size : Nat
  capacity : Nat
  rangeOverflow : ε
  capacityOverflow : ε
  exceeds : ε
  idOverflow : ε
  invalidLength : ε
  truncated : ε

namespace Source

variable (source : Source ε)

def readPage (id : Nat) : Read ε Bytes := fun pages =>
  match pages.allowed with
  | some 0 => (.error .notResident, pages)
  | allowed => ((source.fetch id).mapError .failed, { pages with allowed := allowed.map (· - 1) })

def keep (id : Nat) (page : Bytes) : Read ε Unit := fun pages =>
  let kept := if pages.cache.length = source.capacity then pages.cache.tail else pages.cache
  (.ok (), { pages with cache := kept ++ [(id, page)] })

def load (id : Nat) : Read ε Bytes := fun pages =>
  match pages.cache.find? (·.1 = id) with
  | some entry => (.ok entry.2, { pages with cache := pages.cache.eraseP (·.1 = id) ++ [entry] })
  | none => (do
    let page ← source.readPage id
    Read.ensure (page.length = source.size) source.invalidLength
    source.keep id page
    return page : Read ε Bytes) pages

def part (page : Bytes) (start count : Nat) : Except ε Bytes :=
  if start + count ≤ page.length then .ok (slice page start count) else .error source.truncated

def pageAt (offset : Nat) : Read ε Bytes := do
  let id := source.start + offset / source.size
  Read.ensure (id < 2 ^ 64) source.idOverflow
  source.load id

/-- Page by page. No part is empty, so there are never more parts than bytes. -/
def readParts : Nat → Nat → Nat → Read ε Bytes
  | 0, _, _ => pure []
  | steps + 1, cursor, stop =>
    if cursor < stop then do
      let inPage := cursor % source.size
      let take := min (stop - cursor) (source.size - inPage)
      let page ← source.pageAt cursor
      let front ← Read.lift (source.part page inPage take)
      let rest ← readParts steps (cursor + take) stop
      return front ++ rest
    else pure []

def readRange (offset count : Nat) : Read ε Bytes := do
  Read.ensure (offset + count < 2 ^ 64) source.rangeOverflow
  Read.ensure (source.count * source.size < 2 ^ 64) source.capacityOverflow
  Read.ensure (offset + count ≤ source.count * source.size) source.exceeds
  source.readParts count offset (offset + count)

/-- A range within one page is read from it at once. -/
def visitRange (offset count : Nat) : Read ε Bytes := do
  Read.ensure (offset + count < 2 ^ 64) source.rangeOverflow
  if count = 0 ∨ offset / source.size ≠ (offset + count - 1) / source.size then source.readRange offset count
  else do
    let page ← source.pageAt offset
    Read.lift (source.part page (offset % source.size) count)

/-- Every page of the cache is what reading it gives. -/
def Coherent (cache : List (Nat × Bytes)) : Prop :=
  ∀ entry ∈ cache, source.fetch entry.1 = .ok entry.2 ∧ entry.2.length = source.size

/-- Whatever is in the cache and whichever page is missing, the reader comes to one result or stops at
    a missing page. -/
def Settles (read : Read ε α) (result : Except ε α) : Prop :=
  ∀ pages, source.Coherent pages.cache → source.Coherent (read pages).2.cache ∧
    (pages.allowed = none → (read pages).2.allowed = none) ∧
    ((read pages).1 = result.mapError .failed ∨ (read pages).1 = .error .notResident ∧ pages.allowed ≠ none)

def Settled (read : Read ε α) : Prop := ∃ result, source.Settles read result

variable {source}

theorem settled_lift (result : Except ε α) : source.Settled (Read.lift result) :=
  ⟨result, fun _ coherent => ⟨coherent, id, .inl rfl⟩⟩

theorem settled_pure (value : α) : source.Settled (pure value : Read ε α) :=
  ⟨.ok value, fun _ coherent => ⟨coherent, id, .inl rfl⟩⟩

theorem settled_ensure (p : Prop) [Decidable p] (error : ε) : source.Settled (Read.ensure p error) :=
  settled_lift _

theorem Settled.bind {read : Read ε α} {next : α → Read ε β} (first : source.Settled read)
    (second : ∀ value, source.Settled (next value)) : source.Settled (read >>= next) := by
  obtain ⟨result, settles⟩ := first
  obtain ⟨others, settles'⟩ : ∃ others : α → Except ε β, ∀ value, source.Settles (next value) (others value) :=
    ⟨_, fun value => (second value).choose_spec⟩
  refine ⟨result >>= others, fun pages coherent => ?_⟩
  obtain ⟨coherent', none, same | missing⟩ := settles pages coherent
  swap
  · rw [Read.bind_of_error missing.1]
    exact ⟨coherent', none, .inr ⟨rfl, missing.2⟩⟩
  cases result with
  | error error =>
    rw [Read.bind_of_error same]
    exact ⟨coherent', none, .inl rfl⟩
  | ok value =>
    rw [Read.bind_of_ok same]
    obtain ⟨coherent'', none', same' | missing'⟩ := settles' value _ coherent'
    · exact ⟨coherent'', none' ∘ none, .inl same'⟩
    · exact ⟨coherent'', none' ∘ none, .inr ⟨missing'.1, missing'.2 ∘ none⟩⟩

theorem Settled.ite {p : Prop} [Decidable p] {read other : Read ε α} (first : source.Settled read)
    (second : source.Settled other) : source.Settled (if p then read else other) := by
  split
  · exact first
  · exact second

theorem Coherent.load {cache : List (Nat × Bytes)} (coherent : source.Coherent cache) {id : Nat} {page : Bytes}
    (fetched : source.fetch id = .ok page) (size : page.length = source.size) :
    source.Coherent ((if cache.length = source.capacity then cache.tail else cache) ++ [(id, page)]) := by
  intro entry member
  rcases mem_append.mp member with member | member
  · split at member
    · exact coherent entry (mem_of_mem_tail member)
    · exact coherent entry member
  · rw [mem_singleton.mp member]
    exact ⟨fetched, size⟩

theorem settled_load (id : Nat) : source.Settled (source.load id) := by
  refine ⟨source.fetch id >>= fun page =>
    if page.length = source.size then .ok page else .error source.invalidLength, fun pages coherent => ?_⟩
  rw [load]
  split
  · rename_i entry found
    have member := mem_of_find?_eq_some found
    obtain ⟨fetched, size⟩ := coherent entry member
    have same : entry.1 = id := by simpa using List.find?_some found
    refine ⟨fun other isOther => ?_, fun none => none, .inl ?_⟩
    · rcases mem_append.mp isOther with kept | last
      · exact coherent other (mem_of_mem_eraseP kept)
      · rw [mem_singleton.mp last]
        exact ⟨fetched, size⟩
    · rw [← same, fetched]
      simp only [Bind.bind, Except.bind, size, if_true]
      rfl
  · rcases pages with ⟨cache, _ | _ | allowed⟩
    all_goals
      cases fetched : source.fetch id with
      | error error => simp_all [Bind.bind, readPage, Except.mapError, Except.bind]
      | ok page =>
        by_cases size : page.length = source.size
        · have kept := coherent.load fetched size
          simp_all [Bind.bind, Pure.pure, readPage, Read.ensure, Read.lift, keep, Except.mapError, Except.bind]
        · simp_all [Bind.bind, readPage, Read.ensure, Read.lift, Except.mapError, Except.bind]

theorem settled_pageAt (offset : Nat) : source.Settled (source.pageAt offset) :=
  (settled_ensure _ _).bind fun _ => settled_load _

theorem settled_readParts (steps cursor stop : Nat) : source.Settled (source.readParts steps cursor stop) := by
  induction steps generalizing cursor with
  | zero => exact settled_pure []
  | succ steps ih =>
    rw [readParts]
    refine .ite ?_ (settled_pure [])
    exact (settled_pageAt cursor).bind fun _ => (settled_lift _).bind fun _ => (ih _).bind fun _ => settled_pure _

theorem settled_readRange (offset count : Nat) : source.Settled (source.readRange offset count) :=
  (settled_ensure _ _).bind fun _ => (settled_ensure _ _).bind fun _ => (settled_ensure _ _).bind fun _ =>
    settled_readParts _ _ _

theorem settled_visitRange (offset count : Nat) : source.Settled (source.visitRange offset count) :=
  (settled_ensure _ _).bind fun _ => .ite (settled_readRange offset count)
    ((settled_pageAt offset).bind fun _ => settled_lift _)

end Source

end PagedReads
