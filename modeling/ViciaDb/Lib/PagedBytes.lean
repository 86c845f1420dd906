import ViciaDb.Lib.ByteReader

namespace PagedBytes

open ByteReader

section Cut

def pageCount (size len : Nat) : Nat := (len + size - 1) / size

def pageAt (size : Nat) (bytes : Bytes) (i : Nat) : Bytes :=
  let part := (bytes.drop (i * size)).take size
  part ++ List.replicate (size - part.length) 0

theorem pageAt_succ (size : Nat) (bytes : Bytes) (i : Nat) :
    pageAt size bytes (i + 1) = pageAt size (bytes.drop size) i := by
  rw [pageAt, pageAt, List.drop_drop, Nat.succ_mul, Nat.add_comm]

def toPages (size : Nat) (bytes : Bytes) : List Bytes :=
  (List.range (pageCount size bytes.length)).map (pageAt size bytes)

variable {size : Nat}

theorem le_pageCount_mul (positive : 0 < size) (len : Nat) : len ≤ pageCount size len * size := by
  have division := Nat.div_add_mod (len + size - 1) size
  have remainder := Nat.mod_lt (len + size - 1) positive
  rw [pageCount, Nat.mul_comm]
  omega

@[simp] theorem length_toPages (bytes : Bytes) :
    (toPages size bytes).length = pageCount size bytes.length := by
  simp [toPages]

end Cut

section Runs

variable {ε : Type} {fetch fetch' : Nat → Except ε Bytes}

def readRun (fetch : Nat → Except ε Bytes) : Nat → Nat → Except ε Bytes
  | _, 0 => .ok []
  | start, count + 1 => do
    let page ← fetch start
    return page ++ (← readRun fetch (start + 1) count)

theorem readRun_of_pages (start : Nat) (list : List Bytes)
    (there : ∀ i page, list[i]? = some page → fetch (start + i) = .ok page) :
    readRun fetch start list.length = .ok list.flatten := by
  induction list generalizing start with
  | nil => rfl
  | cons page list ih =>
    have first : fetch start = .ok page := there 0 page rfl
    have rest := ih (start + 1) fun i other found => by
      rw [Nat.add_assoc, Nat.add_comm 1]
      exact there (i + 1) other found
    rw [List.length_cons, readRun, first, rest]
    rfl

end Runs

end PagedBytes
