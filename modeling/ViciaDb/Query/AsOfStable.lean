import ViciaDb.Query.StreamingAggregate

namespace ViciaDb

open List Except

variable {log : FactLog} {later facts facts' done done' : List Fact} {n : UInt64} {maxFacts : Nat}

def FactLog.write (log : FactLog) (later : List Fact) : FactLog :=
  { log with pending := log.pending ++ later }

def upTo (n : UInt64) (fact : Fact) : Bool := decide (fact.txCount ≤ n)

theorem of_bounded {limit : Prop} [Decidable limit] {message : String}
    (ok : (if limit then .error message else .ok facts : Except String (List Fact)) = .ok done) :
    facts = done := by
  split at ok
  · cases ok
  · exact Except.ok.inj ok

theorem addCandidates_eq_ok {candidates : List Fact}
    (ok : addCandidates maxFacts facts candidates = .ok done) : done = candidates.foldl loadFact facts := by
  induction candidates generalizing facts with
  | nil => exact (Except.ok.inj ok).symm
  | cons fact rest ih =>
    rw [addCandidates] at ok
    rw [foldl_cons, loadFact]
    split at ok
    · rename_i known
      rw [if_pos known, ih ok]
    · rename_i new
      split at ok
      · cases ok
      · rw [if_neg new, ih ok]

theorem filter_foldl_loadFact (candidates facts : List Fact) :
    (candidates.foldl loadFact facts).filter (upTo n) =
      (candidates.filter (upTo n)).foldl loadFact (facts.filter (upTo n)) := by
  induction candidates generalizing facts with
  | nil => rfl
  | cons fact rest ih =>
    -- A record is only skipped for one of the same transaction, on the same side of `n`.
    have number : ∀ other, other.sameRecord fact = true → upTo n other = upTo n fact := by
      intro other same
      simp only [Fact.sameRecord, Bool.and_eq_true, decide_eq_true_eq] at same
      rw [upTo, upTo, same.1.1.2]
    have step : (loadFact facts fact).filter (upTo n) =
        if upTo n fact then loadFact (facts.filter (upTo n)) fact else facts.filter (upTo n) := by
      cases visible : upTo n fact with
      | false =>
        unfold loadFact
        split <;> simp [visible]
      | true =>
        have found : (facts.filter (upTo n)).any (·.sameRecord fact) = facts.any (·.sameRecord fact) := by
          rw [Bool.eq_iff_iff, any_eq_true, any_eq_true]
          constructor
          · rintro ⟨other, member, same⟩
            exact ⟨other, mem_of_mem_filter member, same⟩
          · rintro ⟨other, member, same⟩
            exact ⟨other, mem_filter.mpr ⟨member, (number other same).trans visible⟩, same⟩
        simp only [loadFact, found, if_true]
        split <;> simp [visible]
    rw [foldl_cons, ih, step, filter_cons]
    split <;> rfl

section

variable (after : later.filter (upTo n) = [])

include after

theorem filter_indexRange (cmp : Fact → Fact → Ordering) [Std.TransCmp cmp] (inRange : Fact → Bool)
    (pending : List Fact) :
    (indexRange cmp inRange (pending ++ later)).filter (upTo n) =
      (indexRange cmp inRange pending).filter (upTo n) := by
  rw [indexRange, indexRange, filter_insertionSort_isLE, filter_insertionSort_isLE, filter_append,
    filter_append, filter_comm _ _ later, after, filter_nil, append_nil]

theorem QueryLookup.read_upTo (lookup : QueryLookup) (read : lookup.read log maxFacts = .ok done)
    (read' : lookup.read (log.write later) maxFacts = .ok done') :
    done'.filter (upTo n) = done.filter (upTo n) := by
  cases lookup with
  | entity id | attr name =>
    rw [← of_bounded read, ← of_bounded read', filter_append, filter_append]
    congr 1
    exact filter_indexRange after _ _ _

theorem foldlM_addCandidates_upTo (lookups : List QueryLookup)
    (same : facts'.filter (upTo n) = facts.filter (upTo n)) (read : lookups.foldlM (fun facts lookup => do
      addCandidates maxFacts facts (← lookup.read log maxFacts)) facts = .ok done)
    (read' : lookups.foldlM (fun facts lookup => do
      addCandidates maxFacts facts (← lookup.read (log.write later) maxFacts)) facts' = .ok done') :
    done'.filter (upTo n) = done.filter (upTo n) := by
  induction lookups generalizing facts facts' with
  | nil =>
    cases read
    cases read'
    exact same
  | cons lookup rest ih =>
    simp only [foldlM_cons, bind_eq_ok_iff] at read read'
    obtain ⟨next, ⟨found, looked, added⟩, read⟩ := read
    obtain ⟨next', ⟨found', looked', added'⟩, read'⟩ := read'
    refine ih ?_ read read'
    rw [addCandidates_eq_ok added, addCandidates_eq_ok added', filter_foldl_loadFact,
      filter_foldl_loadFact, same, lookup.read_upTo after looked looked']

theorem QueryAccessPlan.read_upTo (plan : QueryAccessPlan)
    (read : plan.readFactsBounded log maxFacts = .ok done)
    (read' : plan.readFactsBounded (log.write later) maxFacts = .ok done') :
    done'.filter (upTo n) = done.filter (upTo n) := by
  rcases plan with _ | _ | ⟨lookup, _ | ⟨second, rest⟩⟩
  · rw [← of_bounded read, ← of_bounded read']
    simp [FactLog.records, FactLog.write, after]
  · cases read
    cases read'
    rfl
  · exact lookup.read_upTo after read read'
  · exact foldlM_addCandidates_upTo after (lookup :: second :: rest) rfl read read'

end

/-- What a query sees as of a transaction is not changed by later ones. -/
theorem asOf_answer_stable (ext : Externals) (executor : DatalogExecutor) (query : DatalogQuery) (n : UInt64)
    (later : List Fact) (results results' : List (List Value))
    (general : ownedAttributeAggregate query = none) (asOf : query.asOf = some (.counter n))
    (after : ∀ fact ∈ later, n < fact.txCount) (before : executor.executeQuery ext query = .ok results)
    (now : { executor with log := executor.log.write later }.executeQuery ext query = .ok results') :
    results' = results := by
  have none : later.filter (upTo n) = [] := filter_eq_nil_iff.mpr fun fact member => by
    simpa [upTo] using after fact member
  rw [DatalogExecutor.executeQuery, general] at before now
  simp only [DatalogExecutor.generalQuery, bind_eq_ok_iff] at before now
  obtain ⟨validTime, checked, source, read, answered⟩ := before
  obtain ⟨validTime', checked', source', read', answered'⟩ := now
  obtain rfl : validTime' = validTime := Except.ok.inj (checked'.symm.trans checked)
  have same : asOfRecords query.asOf source' = asOfRecords query.asOf source := by
    rw [asOf]
    simp only [DatalogExecutor.sourceFacts] at read read'
    cases given : executor.factsOverride with
    | some facts =>
      rw [given] at read read'
      rw [Except.ok.inj (read'.symm.trans read)]
    | none =>
      rw [given] at read read'
      exact QueryAccessPlan.read_upTo none _ read read'
  simp only [DatalogExecutor.answerFrom, same] at answered answered'
  exact Except.ok.inj (answered'.symm.trans answered)

/-- `[:find ?e :as-of 2 :where [?e :age ?v]]` -/
def agedAsOfTwo : DatalogQuery :=
  { aggregateOf [.variable "?e"] ":age" with asOf := some (.counter 2) }

theorem asOf_answer_stable_ages : ∃ results results',
    (readerOf ages).executeQuery .sample agedAsOfTwo = .ok results ∧
      { readerOf ages with log := ages.write [ageOf 9 30 7 true] }.executeQuery .sample agedAsOfTwo =
        .ok results' ∧ results' = results ∧ results.length = 2 :=
  ⟨_, _, rfl, rfl, asOf_answer_stable .sample (readerOf ages) agedAsOfTwo 2 [ageOf 9 30 7 true] _ _ rfl
    rfl (by decide) rfl rfl, rfl⟩

end ViciaDb
