import Net77.StringBuilder

/-! `lib/mcfss.c`. A pointer to an item is given by the cells from it to the end
of its allocation, and a pointer into a category by its offset. -/
namespace Net77

open Net77.Base

structure MultiCategoryFixedSizeSet (n : Nat) where
  data : Fin n → List (Option Byte)
  itemSizes : Fin n → Nat
  len : Nat
  cap : Nat

/-- `memcmp(...) == 0`. -/
def memEq (left right : List (Option Byte)) (size : Nat) : Except Stop Bool := do
  let left ← readCells left size
  let right ← readCells right size
  pure (left = right)

/-- Bytes moved to another place of an allocation. -/
def moveCells (data : List (Option Byte)) (dst src size : Nat) :
    Except Stop (List (Option Byte)) :=
  if dst + size ≤ data.length ∧ src + size ≤ data.length then
    pure (data.take dst ++ (data.drop src).take size ++ data.drop (dst + size))
  else .error (.fault .outOfBounds)

/-- The rest of the loop of `findInArray`. -/
def findInArrayFrom (data item : List (Option Byte)) (itemSize i : Nat) :
    Nat → Except Stop (Option Nat)
  | 0 => pure none
  | rest + 1 => do
    if ← memEq (data.drop (i * itemSize % 2 ^ 64)) item itemSize then pure (some i)
    else findInArrayFrom data item itemSize (i + 1) rest

def findInArray (data : List (Option Byte)) (len : Nat) (item : List (Option Byte))
    (itemSize : Nat) : Except Stop (Option Nat) :=
  findInArrayFrom data item itemSize 0 len

/-- What `malloc` gives for the items of a category; the product may wrap. -/
def categorySize (rt : Runtime) (cap itemSize : Nat) : Nat :=
  if rt.malloc (cap * itemSize % 2 ^ 64) then cap * itemSize % 2 ^ 64 else 0

/-- No result of `malloc` is checked. The arrays for pointers and sizes are
written at once, those of the categories when something is added. -/
def newMcfsSet {n : Nat} (rt : Runtime) (cap : Nat) (itemSizes : Fin n → Nat) :
    Except Stop (MultiCategoryFixedSizeSet n) :=
  if 0 < n ∧ !rt.malloc (n * 8) then .error (.fault .outOfBounds)
  else
    pure ⟨fun cat => List.replicate (categorySize rt cap (itemSizes cat)) none, itemSizes, 0, cap⟩

section Calls

variable {n : Nat} (set : MultiCategoryFixedSizeSet n)

/-- `memcpy(&set->data[cat][set->len * set->item_sizes[cat]], ...)`. -/
def storeItem (items : Fin n → Bytes) (cat : Fin n) : Except Stop (List (Option Byte)) :=
  if (items cat).length < set.itemSizes cat then .error (.fault .outOfBounds)
  else
    writeCells (set.data cat) (set.len * set.itemSizes cat % 2 ^ 64)
      ((items cat).take (set.itemSizes cat))

def mcfsSetAdd (items : Fin n → Bytes) (existCheckCategory : Fin n) :
    Except Stop (MultiCategoryFixedSizeSet n × Int) :=
  if set.len = set.cap then pure (set, 1)
  else do
    match ← findInArray (set.data existCheckCategory) set.len
        ((items existCheckCategory).map some) (set.itemSizes existCheckCategory) with
    | some _ => pure (set, 0)
    | none =>
      let data ← forEach (storeItem set items)
      pure ({ set with data, len := set.len + 1 }, 0)

/-- The `memmove` that closes the gap at `idx`. -/
def closeGap (idx : Nat) (cat : Fin n) : Except Stop (List (Option Byte)) :=
  moveCells (set.data cat) (set.itemSizes cat * idx % 2 ^ 64)
    (set.itemSizes cat * (idx + 1) % 2 ^ 64) (set.itemSizes cat * (set.len - 1 - idx) % 2 ^ 64)

def mcfsSetRemove (item : List (Option Byte)) (itemCategory : Fin n) :
    Except Stop (MultiCategoryFixedSizeSet n × Int) := do
  match ← findInArray (set.data itemCategory) set.len item (set.itemSizes itemCategory) with
  | none => pure (set, 1)
  | some idx =>
    let data ← forEach (closeGap set idx)
    pure ({ set with data, len := set.len - 1 }, 0)

/-- NULL, or an offset in the target category. -/
def mcfsSetGetAssocItemPtr (item : List (Option Byte)) (itemGroup targetItemGroup : Fin n) :
    Except Stop (Option Nat) := do
  match ← findInArray (set.data itemGroup) set.len item (set.itemSizes itemGroup) with
  | none => pure none
  | some idx => pure (some (idx * set.itemSizes targetItemGroup % 2 ^ 64))

end Calls

end Net77
