import ViciaDb.Storage.BTreeCorrect
import ViciaDb.Storage.PackedPages

namespace ViciaDb

open ByteReader BTree PackedPages Wal.Postcard

section Keys

def eavtKey (fact : Fact) : EavtKey where
  entity := fact.entity
  attr := fact.attr
  validFrom := fact.validFrom
  validTo := fact.validTo
  txCount := fact.txCount
  valueBytes := encodeValue fact.value
  txId := fact.txId
  asserted := fact.asserted

def aevtKey (fact : Fact) : AevtKey where
  attr := fact.attr
  entity := fact.entity
  validFrom := fact.validFrom
  validTo := fact.validTo
  txCount := fact.txCount
  valueBytes := encodeValue fact.value
  txId := fact.txId
  asserted := fact.asserted

def avetKey (fact : Fact) : AvetKey where
  attr := fact.attr
  valueBytes := encodeValue fact.value
  validFrom := fact.validFrom
  validTo := fact.validTo
  entity := fact.entity
  txCount := fact.txCount
  txId := fact.txId
  asserted := fact.asserted

def vaetKey (fact : Fact) : Option VaetKey :=
  match fact.value with
  | .ref target =>
    some {
      refTarget := target
      attr := fact.attr
      validFrom := fact.validFrom
      validTo := fact.validTo
      sourceEntity := fact.entity
      txCount := fact.txCount
      txId := fact.txId
      asserted := fact.asserted }
  | _ => none

variable {κ : Type}

def keyed (key : Fact → Option κ) (facts : List Fact) (refs : List FactRef) : List (κ × FactRef) :=
  (facts.zip refs).filterMap fun (fact, ref) => (key fact).map fun k => (k, ref)

/-- The source sorts with an unstable sort; the order of entries with the same key is not fixed. -/
def sortEntries (kind : IndexKind κ) (entries : List (κ × FactRef)) : List (κ × FactRef) :=
  entries.mergeSort fun a b => (kind.cmp a.1 b.1).isLE

def indexEntries (kind : IndexKind κ) (key : Fact → Option κ) (facts : List Fact)
    (refs : List FactRef) : List (κ × FactRef) :=
  sortEntries kind (keyed key facts refs)

end Keys

section Image

def writePages : Pages → Nat → List Bytes → Pages
  | pages, _, [] => pages
  | pages, pageId, page :: rest => writePages (pages.write pageId page) (pageId + 1) rest

structure IndexRoots where
  eavt : Nat
  aevt : Nat
  avet : Nat
  vaet : Nat
  deriving DecidableEq, Repr

structure IndexContents where
  eavt : List (EavtKey × FactRef)
  aevt : List (AevtKey × FactRef)
  avet : List (AvetKey × FactRef)
  vaet : List (VaetKey × FactRef)

def indexContents (facts : List Fact) (refs : List FactRef) : IndexContents where
  eavt := indexEntries eavt (some ∘ eavtKey) facts refs
  aevt := indexEntries aevt (some ∘ aevtKey) facts refs
  avet := indexEntries avet (some ∘ avetKey) facts refs
  vaet := indexEntries vaet vaetKey facts refs

def buildIndexes (contents : IndexContents) (pages : Pages) (indexStart : Nat) :
    Except String (Pages × IndexRoots × Nat) := do
  let (pages, eavtRoot, next1) ← buildBtreeFromKeyEntries eavt .default contents.eavt pages indexStart
  let (pages, aevtRoot, next2) ← buildBtreeFromKeyEntries aevt .default contents.aevt pages next1
  let (pages, avetRoot, next3) ← buildBtreeFromKeyEntries avet .default contents.avet pages next2
  let (pages, vaetRoot, next4) ← buildBtreeFromKeyEntries vaet .default contents.vaet pages next3
  return (pages, ⟨eavtRoot, aevtRoot, avetRoot, vaetRoot⟩, next4)

def resolve (pages : Pages) (ref : FactRef) : Except String Fact := do
  let page ← pages.load ref.pageId.toNat
  readSlot page ref.slotIndex.toNat

end Image

end ViciaDb
