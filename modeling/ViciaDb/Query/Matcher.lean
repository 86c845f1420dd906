import ViciaDb.Query.Bindings

namespace ViciaDb

structure PatternMatcher where
  facts : List Fact
  validAtValue : Value
  retainFactMetadata : Bool

def PatternMatcher.new (storage : List Fact) : PatternMatcher where
  facts := storage.filter Fact.asserted
  validAtValue := .null
  retainFactMetadata := false

def PatternMatcher.fromSlice (facts : List Fact) : PatternMatcher where
  facts := facts
  validAtValue := .null
  retainFactMetadata := false

def PatternMatcher.fromSliceWithValidAtAndMetadata (facts : List Fact) (validAt : Value)
    (retainFactMetadata : Bool) : PatternMatcher where
  facts := facts
  validAtValue := validAt
  retainFactMetadata := retainFactMetadata

def Fact.field (fact : Fact) : FactField → Value
  | .validFrom => .integer fact.validFrom
  | .validTo => .integer fact.validTo
  | .txCount => .integer fact.txCount.toInt64
  | .txId => .integer fact.txId.toInt64

/-- The metadata field a per-fact pseudo-attribute names; `:db/valid-at` belongs to the query. -/
def PseudoAttr.field : PseudoAttr → Option FactField
  | .validFrom => some .validFrom
  | .validTo => some .validTo
  | .txCount => some .txCount
  | .txId => some .txId
  | .validAt => none

variable (ext : Externals)

def ednToEntityId (edn : EdnValue) : Except String EntityId :=
  match edn with
  | .keyword k => .ok (ext.keywordId k)
  | .uuid u => .ok u
  | edn => .error s!"Expected keyword or UUID for entity, got {ext.debugEdn edn}"

def ednToValue (edn : EdnValue) : Except String Value :=
  match edn with
  | .string s => .ok (.string s)
  | .integer i => .ok (.integer i)
  | .float f => .ok (.float f)
  | .boolean b => .ok (.boolean b)
  | .keyword k => .ok (.keyword k)
  | .uuid u => .ok (.ref u)
  | .nil => .ok .null
  | .symbol s =>
    if isVariable s then .error s!"Cannot convert unbound variable {s} to value"
    else .error s!"Cannot convert {ext.debugEdn (.symbol s)} to Value"
  | edn => .error s!"Cannot convert {ext.debugEdn edn} to Value"

def normalizeJoinValue (value : Value) : Value :=
  match value with
  | .keyword k => .ref (ext.keywordId k)
  | value => value

def matchConstant (component : EdnValue) (value : Value) : Bool :=
  match component, value with
  | .keyword k, .keyword fk => k == fk
  | .keyword k, .ref id => ext.keywordId k == id
  | .string s, .string fs => s == fs
  | .integer i, .integer fi => i == fi
  | .float f, .float ff => ext.f64Near f ff
  | .boolean b, .boolean fb => b == fb
  | .uuid u, .ref id => u == id
  | .uuid u, .keyword k => u == ext.keywordId k
  | .nil, .null => true
  | _, _ => false

def matchComponent (component : EdnValue) (value : Value) (bindings : Bindings) :
    Option Bindings :=
  match component with
  | .symbol s =>
    if isWildcard s then some bindings
    else if isVariable s then
      match bindings.lookup (.var s) with
      | some existing => if existing.eq value then some bindings else none
      | none => some (bindings.insert (.var s) value)
    else none
  | constant => if matchConstant ext constant value then some bindings else none

def matchAttributeComponent (component : EdnValue) (attr : String) (bindings : Bindings) :
    Option Bindings :=
  match component with
  | .symbol s =>
    if isWildcard s then some bindings
    else if isVariable s then
      match bindings.lookup (.var s) with
      | some (.keyword k) => if k == attr then some bindings else none
      | some _ => none
      | none => some (bindings.insert (.var s) (.keyword attr))
    else none
  | .keyword expected => if expected == attr then some bindings else none
  | _ => none

def insertFactMetadata (fact : Fact) (bindings : Bindings) : Bindings :=
  [FactField.validFrom, .validTo, .txCount, .txId].foldl
    (fun row field => row.insert (.fact field fact.entity) (fact.field field)) bindings

namespace PatternMatcher

variable (matcher : PatternMatcher)

def pseudoValue (pseudo : PseudoAttr) (fact : Fact) : Value :=
  match pseudo.field with
  | some field => fact.field field
  | none => matcher.validAtValue

def matchFactAgainstPattern (fact : Fact) (pattern : Pattern) : Option Bindings := do
  let bindings ← matchComponent ext pattern.entity (.ref fact.entity) ∅
  match pattern.attr with
  | .real attr =>
    let bindings ← matchAttributeComponent attr fact.attr bindings
    let bindings ← matchComponent ext pattern.value fact.value bindings
    if matcher.retainFactMetadata then some (insertFactMetadata fact bindings)
    else some bindings
  | .pseudo pseudo => matchComponent ext pattern.value (matcher.pseudoValue pseudo fact) bindings

def matchPattern (pattern : Pattern) : List Bindings :=
  matcher.facts.filterMap fun fact => matcher.matchFactAgainstPattern ext fact pattern

end PatternMatcher

def valueToEdn : Value → EdnValue
  | .string s => .string s
  | .integer i => .integer i
  | .float f => .float f
  | .boolean b => .boolean b
  | .ref id => .uuid id
  | .keyword k => .keyword k
  | .null => .nil

def applyBindingToComponent (component : EdnValue) (bindings : Bindings) : EdnValue :=
  match component with
  | .symbol s =>
    if isVariable s then
      match bindings.lookup (.var s) with
      | some value => valueToEdn value
      | none => .symbol s
    else .symbol s
  | component => component

def applyBindingsToPattern (pattern : Pattern) (bindings : Bindings) : Pattern :=
  { pattern with
    entity := applyBindingToComponent pattern.entity bindings
    attr := match pattern.attr with
      | .real attr => .real (applyBindingToComponent attr bindings)
      | .pseudo pseudo => .pseudo pseudo
    value := applyBindingToComponent pattern.value bindings }

/-- The two rows give the same value, in the sense of `same`, to every variable both bind. Fact
    metadata never conflicts. -/
def consistent (same : Value → Value → Bool) (existing candidate : Bindings) : Bool :=
  decide (∀ key ∈ candidate.keys, key.isFact = false →
    ∀ a ∈ existing.lookup key, ∀ b ∈ candidate.lookup key, same a b = true)

def sameJoinValue (a b : Value) : Bool :=
  (normalizeJoinValue ext a).eq (normalizeJoinValue ext b)

def mergeCandidate (existing candidate : Bindings) : Option Bindings :=
  if consistent (sameJoinValue ext) existing candidate then
    some (candidate.filterKeys Key.isFact ∪ existing ∪ candidate)
  else none

namespace PatternMatcher

variable (matcher : PatternMatcher)

def matchPatternWithBindingsScan (pattern : Pattern) (existing : Bindings) : List Bindings :=
  matcher.facts.filterMap fun fact => do
    let additional ←
      matcher.matchFactAgainstPattern ext fact (applyBindingsToPattern pattern existing)
    if consistent Value.eq existing additional then some (additional ∪ existing) else none

def storedMetadata (pattern : Pattern) (existing : Bindings) : Option Value :=
  match pattern.attr with
  | .real _ => none
  | .pseudo pseudo => do
    let entity ← (ednToEntityId ext (applyBindingToComponent pattern.entity existing)).toOption
    let field ← pseudo.field
    existing.lookup (.fact field entity)

def matchPatternWithBindings (pattern : Pattern) (existing : Bindings) : List Bindings :=
  match storedMetadata ext pattern existing with
  | some stored => (matchComponent ext pattern.value stored existing).toList
  | none => matcher.matchPatternWithBindingsScan ext pattern existing

def joinVar (first : Bindings) (pattern : Pattern) : Option String :=
  match pattern.attr with
  | .pseudo _ => none
  | .real _ =>
    let bound := fun edn : EdnValue =>
      edn.asVariable.filter fun name => (first.lookup (.var name)).isSome
    (bound pattern.entity).or (bound pattern.value)

def probe (candidates : List Bindings) (jvar : String) (value : Value) : List Bindings :=
  candidates.filter fun candidate =>
    match candidate.lookup (.var jvar) with
    | some found => (normalizeJoinValue ext found).hashEq (normalizeJoinValue ext value)
    | none => false

def joinRow (pattern : Pattern) (candidates : List Bindings) (jvar : String)
    (existing : Bindings) : List Bindings :=
  match existing.lookup (.var jvar) with
  | none => matcher.matchPatternWithBindings ext pattern existing
  | some value => (probe ext candidates jvar value).filterMap (mergeCandidate ext existing)

def joinWithPattern (existing : List Bindings) (pattern : Pattern) : List Bindings :=
  match existing with
  | [] => []
  | first :: _ =>
    match joinVar first pattern with
    | none => existing.flatMap (matcher.matchPatternWithBindings ext pattern)
    | some jvar => existing.flatMap (matcher.joinRow ext pattern (matcher.matchPattern ext pattern) jvar)

def matchPatterns (patterns : List Pattern) : List Bindings :=
  match patterns with
  | [] => [∅]
  | first :: rest => rest.foldl (matcher.joinWithPattern ext) (matcher.matchPattern ext first)

def workExceeded (maxResults : Nat) : String :=
  s!"query binding work exceeds max-results {maxResults}; incomplete result rejected"

def pushBounded (maxResults : Nat) (results more : List Bindings) : Except String (List Bindings) :=
  if maxResults < results.length + more.length then .error (workExceeded maxResults)
  else .ok (results ++ more)

def matchPatternBounded (pattern : Pattern) (maxResults : Nat) : Except String (List Bindings) :=
  pushBounded maxResults [] (matcher.matchPattern ext pattern)

/-- The nested-loop path adds the matches of one row after checking them against the room that is
    left. -/
def appendBounded (maxResults : Nat) (results more : List Bindings) :
    Except String (List Bindings) :=
  if maxResults - results.length < more.length then
    .error (workExceeded (maxResults - results.length))
  else pushBounded maxResults results more

def joinWithPatternBounded (existing : List Bindings) (pattern : Pattern) (maxResults : Nat) :
    Except String (List Bindings) :=
  match existing with
  | [] => .ok []
  | first :: _ =>
    match joinVar first pattern with
    | none => existing.foldlM (fun results row =>
        appendBounded maxResults results (matcher.matchPatternWithBindings ext pattern row)) []
    | some jvar => do
      let candidates ← matcher.matchPatternBounded ext pattern maxResults
      existing.foldlM (fun results row =>
        match row.lookup (.var jvar) with
        | none =>
          appendBounded maxResults results (matcher.matchPatternWithBindings ext pattern row)
        | some _ => pushBounded maxResults results (matcher.joinRow ext pattern candidates jvar row)) []

def matchWithHintSeededBounded (seed : List Bindings) (pattern : Pattern) (maxResults : Nat) :
    Except String (List Bindings) :=
  match seed with
  | [] => .ok []
  | seed =>
    if maxResults < seed.length then .error (workExceeded maxResults)
    else if seed = [∅] then matcher.matchPatternBounded ext pattern maxResults
    else matcher.joinWithPatternBounded ext seed pattern maxResults

def matchPatternsBounded (patterns : List Pattern) (seed : List Bindings) (maxResults : Nat) :
    Except String (List Bindings) :=
  if maxResults < seed.length then .error (workExceeded maxResults)
  else patterns.foldlM (fun rows pattern =>
    matcher.joinWithPatternBounded ext rows pattern maxResults) seed

end PatternMatcher

end ViciaDb
