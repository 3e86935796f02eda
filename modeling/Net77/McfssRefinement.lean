import Mathlib.Data.Fin.VecNotation
import Mathlib.Data.List.InsertIdx
import Net77.Base.Calls
import Net77.Base.Records
import Net77.Mcfss

/-! The set of `lib/mcfss.c` is a bounded list of tuples, as long as its arrays
have room for them. -/
namespace Net77

open Net77.Base

/-- An item of each category. -/
abbrev Tuple (n : Nat) := Fin n → Bytes

/-- The items of a category, one behind the other. -/
def column {n : Nat} (tuples : List (Tuple n)) (cat : Fin n) : Bytes :=
  (tuples.map fun tuple => tuple cat).flatten

/-- What stays the same in the life of a set. Allocations are of a `size_t`'s size. -/
structure SetShape (n : Nat) where
  cap : Nat
  itemSizes : Fin n → Nat
  room : Fin n → Nat
  room_lt : ∀ cat, room cat < 2 ^ 64

/-- The set holds the tuples: in every category, the items of the tuples are at
the start of the array, in their order. -/
structure Represents {n : Nat} (shape : SetShape n) (set : MultiCategoryFixedSizeSet n)
    (tuples : List (Tuple n)) : Prop where
  cap_eq : set.cap = shape.cap
  itemSizes_eq : set.itemSizes = shape.itemSizes
  size_eq : ∀ cat, (set.data cat).length = shape.room cat
  len_eq : set.len = tuples.length
  len_le : tuples.length ≤ shape.cap
  sized : ∀ cat, OfWidth (shape.itemSizes cat) (tuples.map fun tuple => tuple cat)
  cells_eq : ∀ cat, (set.data cat).take (column tuples cat).length = (column tuples cat).map some

/-- Loading from cells that carry a text loads a part of it. -/
theorem readCells_drop {cells : List (Option Byte)} {text : Bytes}
    (h : cells.take text.length = text.map some) {off size : Nat} (hfits : off + size ≤ text.length) :
    readCells (cells.drop off) size = .ok ((text.drop off).take size) := by
  have hpart : (cells.drop off).take size = ((text.drop off).take size).map some := by
    rw [List.map_take, List.map_drop, ← h, List.drop_take, List.take_take,
      Nat.min_eq_left (by omega)]
  have hlen : ((text.drop off).take size).length = size := by
    rw [List.length_take, List.length_drop]
    omega
  have hread : readCells (cells.drop off) ((text.drop off).take size).length =
      .ok ((text.drop off).take size) := by
    apply StringBuilder.Holds.readCells_eq
    rwa [hlen]
  rwa [hlen] at hread

theorem memEq_eq {left right : List (Option Byte)} {size : Nat} {a b : Bytes}
    (hleft : readCells left size = .ok a) (hright : readCells right size = .ok b) :
    memEq left right size = .ok (decide (a = b)) := by
  unfold memEq
  rw [hleft, ok_bind, hright, ok_bind]
  rfl

namespace Represents

variable {n : Nat} {shape : SetShape n} {set : MultiCategoryFixedSizeSet n}
  {tuples : List (Tuple n)}

theorem length_column (h : Represents shape set tuples) (cat : Fin n) :
    (column tuples cat).length = tuples.length * shape.itemSizes cat := by
  unfold column
  rw [(h.sized cat).length_flatten, List.length_map]

/-- The items lie inside the allocation. -/
theorem length_column_le (h : Represents shape set tuples) (cat : Fin n) :
    tuples.length * shape.itemSizes cat ≤ shape.room cat := by
  have hlen := congrArg List.length (h.cells_eq cat)
  rw [List.length_take, List.length_map, h.size_eq, h.length_column] at hlen
  omega

/-- The offset of an item is computed without wrapping. -/
theorem offset_lt (h : Represents shape set tuples) (cat : Fin n) {i : Nat}
    (hi : i ≤ tuples.length) : i * shape.itemSizes cat < 2 ^ 64 := by
  have hle := h.length_column_le cat
  have hlt := shape.room_lt cat
  have hmul := Nat.mul_le_mul_right (shape.itemSizes cat) hi
  omega

theorem length_item (h : Represents shape set tuples) {i : Nat} (hi : i < tuples.length)
    (cat : Fin n) : (tuples[i] cat).length = shape.itemSizes cat :=
  h.sized cat _ (List.mem_map.mpr ⟨tuples[i], List.getElem_mem hi, rfl⟩)

theorem item_cells (h : Represents shape set tuples) {i : Nat} (hi : i < tuples.length)
    (cat : Fin n) : ((set.data cat).drop (i * shape.itemSizes cat)).take (shape.itemSizes cat) =
      (tuples[i] cat).map some := by
  have hend : i * shape.itemSizes cat + shape.itemSizes cat ≤ (column tuples cat).length := by
    rw [h.length_column, ← Nat.succ_mul]
    exact Nat.mul_le_mul_right _ hi
  have hpart : ((column tuples cat).drop (i * shape.itemSizes cat)).take (shape.itemSizes cat) =
      tuples[i] cat := by
    unfold column
    rw [(h.sized cat).take_drop_flatten (by rwa [List.length_map]), List.getElem_map]
  rw [← hpart, List.map_take, List.map_drop, ← h.cells_eq cat, List.drop_take, List.take_take,
    Nat.min_eq_left (by omega)]

/-- Loading a part of an item. -/
theorem read_part (h : Represents shape set tuples) {i : Nat} (hi : i < tuples.length)
    {cat : Fin n} {off size : Nat} (hfits : off + size ≤ shape.itemSizes cat) :
    readCells ((set.data cat).drop (i * shape.itemSizes cat + off)) size =
      .ok (((tuples[i] cat).drop off).take size) := by
  have hcells := h.item_cells hi cat
  rw [← h.length_item hi cat] at hcells hfits
  rw [← List.drop_drop, h.length_item hi cat |>.symm]
  exact readCells_drop hcells hfits

theorem read_item (h : Represents shape set tuples) {i : Nat} (hi : i < tuples.length)
    (cat : Fin n) : readCells ((set.data cat).drop (i * shape.itemSizes cat))
      (shape.itemSizes cat) = .ok (tuples[i] cat) := by
  have hread := h.read_part hi (by omega : 0 + shape.itemSizes cat ≤ shape.itemSizes cat)
  rwa [List.drop_zero, List.take_of_length_le (h.length_item hi cat).le] at hread

/-- The search finds the first tuple that has the key. -/
theorem findInArray_eq (h : Represents shape set tuples) (cat : Fin n)
    {item : List (Option Byte)} {key : Bytes}
    (hitem : readCells item (shape.itemSizes cat) = .ok key) :
    findInArray (set.data cat) set.len item (shape.itemSizes cat) =
      .ok (tuples.findIdx? fun tuple => tuple cat = key) := by
  have hfrom : ∀ rest i, i + rest = tuples.length →
      findInArrayFrom (set.data cat) item (shape.itemSizes cat) i rest =
        .ok (((tuples.drop i).findIdx? fun tuple => tuple cat = key).map (· + i)) := by
    intro rest
    induction rest with
    | zero =>
      intro i hi
      rw [List.drop_of_length_le (by omega)]
      rfl
    | succ rest ih =>
      intro i hi
      have hlt : i < tuples.length := by omega
      rw [findInArrayFrom, Nat.mod_eq_of_lt (h.offset_lt cat hlt.le),
        memEq_eq (h.read_item hlt cat) hitem, ok_bind, List.drop_eq_getElem_cons hlt,
        List.findIdx?_cons]
      by_cases heq : tuples[i] cat = key
      · simp [heq]
      · simp only [heq, decide_false, Bool.false_eq_true, if_false]
        rw [ih (i + 1) (by omega), Option.map_map]
        congr 2
        funext j
        simp only [Function.comp_apply]
        omega
  unfold findInArray
  rw [h.len_eq, hfrom tuples.length 0 (Nat.zero_add _)]
  simp

/-- The allocation up to a place in the column. -/
theorem take_cells (h : Represents shape set tuples) (cat : Fin n) {k : Nat}
    (hk : k ≤ (column tuples cat).length) :
    (set.data cat).take k = ((column tuples cat).take k).map some := by
  rw [List.map_take, ← h.cells_eq cat, List.take_take, Nat.min_eq_left hk]

/-- The column from a place on. -/
theorem drop_cells (h : Represents shape set tuples) (cat : Fin n) (k : Nat) :
    ((set.data cat).drop k).take ((column tuples cat).length - k) =
      ((column tuples cat).drop k).map some := by
  rw [List.map_drop, ← h.cells_eq cat, List.drop_take]

/-- Behind the column the allocation goes on. -/
theorem drop_eq (h : Represents shape set tuples) (cat : Fin n) {k : Nat}
    (hk : k ≤ (column tuples cat).length) :
    (set.data cat).drop k = ((column tuples cat).drop k).map some ++
      (set.data cat).drop (column tuples cat).length := by
  have hsplit := List.take_append_drop ((column tuples cat).length - k) ((set.data cat).drop k)
  rw [h.drop_cells cat, List.drop_drop, Nat.add_sub_cancel' hk] at hsplit
  exact hsplit.symm

theorem storeItem_eq (h : Represents shape set tuples) {items : Fin n → Bytes} {cat : Fin n}
    (hread : shape.itemSizes cat ≤ (items cat).length)
    (hroom : (tuples.length + 1) * shape.itemSizes cat ≤ shape.room cat) :
    storeItem set items cat = .ok ((column tuples cat).map some ++
      ((items cat).take (shape.itemSizes cat)).map some ++
      (set.data cat).drop ((tuples.length + 1) * shape.itemSizes cat)) := by
  have hlen : ((items cat).take (shape.itemSizes cat)).length = shape.itemSizes cat := by
    rw [List.length_take, Nat.min_eq_left hread]
  have hend : tuples.length * shape.itemSizes cat + shape.itemSizes cat =
      (tuples.length + 1) * shape.itemSizes cat := (Nat.succ_mul _ _).symm
  unfold storeItem writeCells
  rw [h.itemSizes_eq, if_neg (by omega), h.len_eq, Nat.mod_eq_of_lt (h.offset_lt cat le_rfl), hlen,
    hend, if_pos (by rw [h.size_eq]; exact hroom), h.take_cells cat (by rw [h.length_column]),
    List.take_of_length_le (by rw [h.length_column])]
  rfl

/-- A tuple is appended in every category. -/
theorem append (h : Represents shape set tuples) (hfree : tuples.length < shape.cap)
    {items : Fin n → Bytes} (hread : ∀ cat, shape.itemSizes cat ≤ (items cat).length)
    (hroom : ∀ cat, (tuples.length + 1) * shape.itemSizes cat ≤ shape.room cat) :
    ∃ data, forEach (storeItem set items) = .ok data ∧
      Represents shape { set with data, len := set.len + 1 }
        (tuples ++ [fun cat => (items cat).take (shape.itemSizes cat)]) := by
  refine ⟨_, forEach_eq_ok.mpr fun cat => h.storeItem_eq (hread cat) (hroom cat), ?_⟩
  have hlen : ∀ cat, ((items cat).take (shape.itemSizes cat)).length = shape.itemSizes cat := by
    intro cat
    rw [List.length_take, Nat.min_eq_left (hread cat)]
  constructor
  · exact h.cap_eq
  · exact h.itemSizes_eq
  · intro cat
    have hsize := h.size_eq cat
    have hfits := hroom cat
    have hcolumn := h.length_column cat
    rw [Nat.succ_mul] at hfits
    dsimp only
    rw [List.length_append, List.length_append, List.length_map, List.length_map, List.length_drop,
      hlen, Nat.succ_mul]
    omega
  · rw [List.length_append, ← h.len_eq]
    rfl
  · rw [List.length_append]
    exact hfree
  · intro cat
    rw [List.map_append]
    exact (h.sized cat).concat (hlen cat)
  · intro cat
    have hcolumn : column (tuples ++ [fun cat => (items cat).take (shape.itemSizes cat)]) cat =
        column tuples cat ++ (items cat).take (shape.itemSizes cat) := by
      simp [column]
    rw [hcolumn, List.map_append]
    apply List.take_left'
    simp

theorem closeGap_eq (h : Represents shape set tuples) {idx : Nat} (hidx : idx < tuples.length)
    (cat : Fin n) :
    ∃ rest, closeGap set idx cat =
      .ok ((column (tuples.eraseIdx idx) cat).map some ++ rest) ∧
        ((column (tuples.eraseIdx idx) cat).map some ++ rest).length = shape.room cat := by
  have hlen := h.length_column cat
  have hle := h.length_column_le cat
  have hsize := h.size_eq cat
  have hlt := shape.room_lt cat
  have hsrc : (idx + 1) * shape.itemSizes cat ≤ (column tuples cat).length := by
    rw [hlen]
    exact Nat.mul_le_mul_right _ hidx
  have hdst : idx * shape.itemSizes cat ≤ (idx + 1) * shape.itemSizes cat :=
    Nat.mul_le_mul_right _ (Nat.le_succ idx)
  have hmoved : (tuples.length - 1 - idx) * shape.itemSizes cat =
      (column tuples cat).length - (idx + 1) * shape.itemSizes cat := by
    rw [hlen, ← Nat.sub_mul, Nat.sub_sub, Nat.add_comm 1 idx]
  have hcolumn : column (tuples.eraseIdx idx) cat =
      (column tuples cat).take (idx * shape.itemSizes cat) ++
        (column tuples cat).drop ((idx + 1) * shape.itemSizes cat) := by
    unfold column
    rw [← (h.sized cat).flatten_eraseIdx, List.eraseIdx_map]
  refine ⟨(set.data cat).drop (idx * shape.itemSizes cat +
    (tuples.length - 1 - idx) * shape.itemSizes cat), ?_, ?_⟩
  · unfold closeGap moveCells
    rw [h.itemSizes_eq, h.len_eq, Nat.mul_comm _ idx, Nat.mul_comm _ (idx + 1),
      Nat.mul_comm _ (tuples.length - 1 - idx), Nat.mod_eq_of_lt (by omega),
      Nat.mod_eq_of_lt (by omega), Nat.mod_eq_of_lt (by omega), if_pos (by omega), hmoved,
      h.take_cells cat (by omega), h.drop_cells, hcolumn, List.map_append]
    rfl
  · rw [hcolumn]
    simp only [List.length_append, List.length_map, List.length_take, List.length_drop]
    omega

/-- Behind the last item there is nothing to move. -/
theorem closeGap_last (h : Represents shape set tuples) {idx : Nat}
    (hidx : idx + 1 = tuples.length) (cat : Fin n) : closeGap set idx cat = .ok (set.data cat) := by
  have hle := h.length_column_le cat
  have hlt := h.offset_lt cat (by omega : idx ≤ tuples.length)
  have hsize := h.size_eq cat
  have hroom := shape.room_lt cat
  have hstart : idx * shape.itemSizes cat ≤ tuples.length * shape.itemSizes cat :=
    Nat.mul_le_mul_right _ (by omega)
  unfold closeGap moveCells
  rw [h.itemSizes_eq, h.len_eq, ← hidx, Nat.add_sub_cancel, Nat.sub_self, Nat.mul_zero,
    Nat.zero_mod, Nat.mul_comm _ idx, Nat.mul_comm _ (idx + 1), hidx, Nat.mod_eq_of_lt hlt,
    Nat.mod_eq_of_lt (by omega), if_pos (by omega), List.take_zero, List.append_nil, Nat.add_zero,
    List.take_append_drop]
  rfl

/-- A tuple is taken out in every category. -/
theorem eraseIdx (h : Represents shape set tuples) {idx : Nat} (hidx : idx < tuples.length) :
    ∃ data, forEach (closeGap set idx) = .ok data ∧
      Represents shape { set with data, len := set.len - 1 } (tuples.eraseIdx idx) := by
  choose rest hgap hroom using h.closeGap_eq hidx
  refine ⟨_, forEach_eq_ok.mpr hgap, ?_⟩
  constructor
  · exact h.cap_eq
  · exact h.itemSizes_eq
  · exact hroom
  · rw [List.length_eraseIdx_of_lt hidx, ← h.len_eq]
  · rw [List.length_eraseIdx_of_lt hidx]
    exact (Nat.sub_le _ _).trans h.len_le
  · intro cat
    exact (h.sized cat).sublist ((List.eraseIdx_sublist tuples idx).map _)
  · intro cat
    apply List.take_left'
    rw [List.length_map]

/-- In one category, the array has come to carry the items of other tuples. -/
theorem replaced (h : Represents shape set tuples) {cat : Fin n} {cells : List (Option Byte)}
    {tuples' : List (Tuple n)} (hlen : tuples'.length = tuples.length)
    (hothers : ∀ c ≠ cat, (tuples'.map fun tuple => tuple c) = tuples.map fun tuple => tuple c)
    (hsized : OfWidth (shape.itemSizes cat) (tuples'.map fun tuple => tuple cat))
    (hsize : cells.length = (set.data cat).length)
    (hcells : cells.take (column tuples' cat).length = (column tuples' cat).map some) :
    Represents shape { set with data := Function.update set.data cat cells } tuples' := by
  constructor
  · exact h.cap_eq
  · exact h.itemSizes_eq
  · intro c
    dsimp only
    by_cases heq : c = cat
    · subst heq
      rw [Function.update_self, hsize]
      exact h.size_eq c
    · rw [Function.update_of_ne heq]
      exact h.size_eq c
  · rw [hlen]
    exact h.len_eq
  · rw [hlen]
    exact h.len_le
  · intro c
    by_cases heq : c = cat
    · rw [heq]
      exact hsized
    · rw [hothers c heq]
      exact h.sized c
  · intro c
    dsimp only
    by_cases heq : c = cat
    · subst heq
      rw [Function.update_self]
      exact hcells
    · unfold column
      rw [Function.update_of_ne heq, hothers c heq]
      exact h.cells_eq c

theorem map_set_update {i : Nat} (hi : i < tuples.length) (cat c : Fin n) (item : Bytes) :
    ((tuples.set i (Function.update tuples[i] cat item)).map fun tuple => tuple c) =
      if c = cat then (tuples.map fun tuple => tuple c).set i item
      else tuples.map fun tuple => tuple c := by
  rw [List.map_set]
  by_cases heq : c = cat
  · subst heq
    rw [Function.update_self, if_pos rfl]
  · rw [Function.update_of_ne heq, if_neg heq]
    have hmapped : i < (tuples.map fun tuple => tuple c).length := by rwa [List.length_map]
    have hsame : tuples[i] c = (tuples.map fun tuple => tuple c)[i] := by rw [List.getElem_map]
    rw [hsame, List.set_getElem_self]

/-- Bytes stored into an item change the tuple that it belongs to. -/
theorem store (h : Represents shape set tuples) {i : Nat} (hi : i < tuples.length) {cat : Fin n}
    {off : Nat} {bytes : Bytes} (hfits : off + bytes.length ≤ shape.itemSizes cat) :
    ∃ cells, writeCells (set.data cat) (i * shape.itemSizes cat + off) bytes = .ok cells ∧
      Represents shape { set with data := Function.update set.data cat cells }
        (tuples.set i (Function.update tuples[i] cat
          ((tuples[i] cat).take off ++ bytes ++ (tuples[i] cat).drop (off + bytes.length)))) := by
  have hitem := h.length_item hi cat
  have hcolumn := h.length_column cat
  have hroom := h.length_column_le cat
  have hsize := h.size_eq cat
  have hend : i * shape.itemSizes cat + shape.itemSizes cat ≤ (column tuples cat).length := by
    rw [hcolumn, ← Nat.succ_mul]
    exact Nat.mul_le_mul_right _ hi
  refine ⟨(set.data cat).take (i * shape.itemSizes cat + off) ++ bytes.map some ++
    (set.data cat).drop (i * shape.itemSizes cat + off + bytes.length), ?_, ?_⟩
  · unfold writeCells
    rw [if_pos (by omega)]
    rfl
  apply h.replaced
  · exact List.length_set
  · intro c hc
    rw [map_set_update hi, if_neg hc]
  · rw [map_set_update hi, if_pos rfl]
    intro item hmem
    rcases List.mem_or_eq_of_mem_set hmem with hmem | rfl
    · exact h.sized cat item hmem
    · simp only [List.length_append, List.length_take, List.length_drop]
      omega
  · rw [List.length_append, List.length_append, List.length_take, List.length_map,
      List.length_drop]
    omega
  · have hpatched : column (tuples.set i (Function.update tuples[i] cat ((tuples[i] cat).take off ++
        bytes ++ (tuples[i] cat).drop (off + bytes.length)))) cat =
        (column tuples cat).take (i * shape.itemSizes cat + off) ++ bytes ++
          (column tuples cat).drop (i * shape.itemSizes cat + off + bytes.length) := by
      unfold column
      rw [map_set_update hi, if_pos rfl,
        ← (h.sized cat).flatten_set (by rwa [List.length_map]) hfits, List.getElem_map]
    rw [hpatched, h.take_cells cat (by omega),
      h.drop_eq cat (by omega : _ ≤ (column tuples cat).length), ← List.map_append,
      ← List.append_assoc, ← List.map_append]
    apply List.take_left'
    rw [List.length_map]

/-- Bytes stored behind the items do not matter. -/
theorem storeBehind (h : Represents shape set tuples) {cat : Fin n} {off : Nat} {bytes : Bytes}
    {cells : List (Option Byte)} (hoff : tuples.length * shape.itemSizes cat ≤ off)
    (hstore : writeCells (set.data cat) off bytes = .ok cells) :
    Represents shape { set with data := Function.update set.data cat cells } tuples := by
  unfold writeCells at hstore
  split at hstore
  · cases Except.ok.inj hstore
    apply h.replaced rfl
    · intro c _
      rfl
    · exact h.sized cat
    · rw [List.length_append, List.length_append, List.length_take, List.length_map,
        List.length_drop]
      omega
    · rw [← h.length_column] at hoff
      rw [List.append_assoc, List.take_append_of_le_length (by rw [List.length_take]; omega),
        List.take_take, Nat.min_eq_left hoff]
      exact h.cells_eq cat
  · contradiction

end Represents

/-- The set with the given tuples and with nothing else in its arrays. -/
def SetShape.pack {n : Nat} (shape : SetShape n) (tuples : List (Tuple n)) :
    MultiCategoryFixedSizeSet n where
  data cat := (column tuples cat).map some ++
    List.replicate (shape.room cat - tuples.length * shape.itemSizes cat) none
  itemSizes := shape.itemSizes
  len := tuples.length
  cap := shape.cap

theorem SetShape.pack_represents {n : Nat} {shape : SetShape n} {tuples : List (Tuple n)}
    (hlen : tuples.length ≤ shape.cap)
    (hsized : ∀ cat, OfWidth (shape.itemSizes cat) (tuples.map fun tuple => tuple cat))
    (hroom : ∀ cat, tuples.length * shape.itemSizes cat ≤ shape.room cat) :
    Represents shape (shape.pack tuples) tuples := by
  have hcolumn (cat : Fin n) : (column tuples cat).length = tuples.length * shape.itemSizes cat := by
    unfold column
    rw [(hsized cat).length_flatten, List.length_map]
  constructor
  · rfl
  · rfl
  · intro cat
    have := hroom cat
    unfold pack
    dsimp only
    rw [List.length_append, List.length_map, List.length_replicate, hcolumn]
    omega
  · rfl
  · exact hlen
  · exact hsized
  · intro cat
    apply List.take_left'
    rw [List.length_map]

section Operations

variable {n : Nat}

/-- The tuple is added to a list that is not full, unless its key is there. -/
def addTuple (cap : Nat) (tuples : List (Tuple n)) (tuple : Tuple n) (cat : Fin n) :
    List (Tuple n) × Int :=
  if tuples.length = cap then (tuples, 1)
  else if ∃ other ∈ tuples, other cat = tuple cat then (tuples, 0)
  else (tuples ++ [tuple], 0)

/-- The first tuple with the key is removed. -/
def removeTuple (tuples : List (Tuple n)) (key : Bytes) (cat : Fin n) : List (Tuple n) × Int :=
  if ∃ tuple ∈ tuples, tuple cat = key then (tuples.eraseP fun tuple => tuple cat = key, 0)
  else (tuples, 1)

/-- Where the target item of the first tuple with the key is, and the item. -/
def lookupTuple (itemSizes : Fin n → Nat) (tuples : List (Tuple n)) (key : Bytes)
    (group target : Fin n) : Option (Nat × Bytes) :=
  (tuples.find? fun tuple => tuple group = key).map fun tuple =>
    ((tuples.findIdx fun tuple => tuple group = key) * itemSizes target, tuple target)

variable {shape : SetShape n} {set : MultiCategoryFixedSizeSet n} {tuples : List (Tuple n)}

theorem readCells_map {bytes : Bytes} {size : Nat} (h : size ≤ bytes.length) :
    readCells (bytes.map some) size = .ok (bytes.take size) := by
  have hcells : (bytes.map some).take bytes.length = bytes.map some :=
    List.take_of_length_le (by rw [List.length_map])
  have hread := readCells_drop hcells (by omega : 0 + size ≤ bytes.length)
  rwa [List.drop_zero, List.drop_zero] at hread

theorem Represents.mcfsSetAdd (h : Represents shape set tuples) {items : Fin n → Bytes}
    {cat : Fin n} (hread : ∀ cat, shape.itemSizes cat ≤ (items cat).length)
    (hroom : tuples.length ≠ shape.cap →
      (¬ ∃ other ∈ tuples, other cat = (items cat).take (shape.itemSizes cat)) →
        ∀ cat, (tuples.length + 1) * shape.itemSizes cat ≤ shape.room cat) :
    ∃ set', Net77.mcfsSetAdd set items cat = .ok (set', (addTuple shape.cap tuples
        (fun cat => (items cat).take (shape.itemSizes cat)) cat).2) ∧
      Represents shape set' (addTuple shape.cap tuples
        (fun cat => (items cat).take (shape.itemSizes cat)) cat).1 := by
  unfold Net77.mcfsSetAdd addTuple
  rw [h.len_eq, h.cap_eq]
  by_cases hfull : tuples.length = shape.cap
  · rw [if_pos hfull, if_pos hfull]
    exact ⟨set, rfl, h⟩
  · rw [if_neg hfull, if_neg hfull, h.itemSizes_eq, ← h.len_eq,
      h.findInArray_eq cat (readCells_map (hread cat)), ok_bind]
    cases hfind : tuples.findIdx? fun tuple => tuple cat = (items cat).take (shape.itemSizes cat) with
    | some idx =>
      have hknown : ∃ other ∈ tuples, other cat = (items cat).take (shape.itemSizes cat) := by
        have hany : (tuples.findIdx? fun tuple =>
            tuple cat = (items cat).take (shape.itemSizes cat)).isSome = tuples.any fun tuple =>
              tuple cat = (items cat).take (shape.itemSizes cat) := List.findIdx?_isSome
        rw [hfind] at hany
        simpa using hany.symm
      rw [if_pos hknown]
      exact ⟨set, rfl, h⟩
    | none =>
      have hnew : ¬ ∃ other ∈ tuples, other cat = (items cat).take (shape.itemSizes cat) := by
        simpa using List.findIdx?_eq_none_iff.mp hfind
      rw [if_neg hnew]
      obtain ⟨data, hdata, hadded⟩ := h.append (by have := h.len_le; omega) hread (hroom hfull hnew)
      rw [h.itemSizes_eq, h.cap_eq] at hadded
      dsimp only
      rw [hdata]
      exact ⟨_, rfl, hadded⟩

/-- Removing the tuple at an index, if it is the first one with the key. -/
theorem Represents.mcfsSetRemove_at (h : Represents shape set tuples)
    {item : List (Option Byte)} {cat : Fin n} {key : Bytes} {idx : Nat}
    (hitem : readCells item (shape.itemSizes cat) = .ok key)
    (hfind : tuples.findIdx? (fun tuple => tuple cat = key) = some idx) :
    ∃ set', Net77.mcfsSetRemove set item cat = .ok (set', 0) ∧
      Represents shape set' (tuples.eraseIdx idx) ∧
        (idx + 1 = tuples.length → set'.data = set.data) := by
  obtain ⟨hidx, -, -⟩ := List.findIdx?_eq_some_iff_getElem.mp hfind
  obtain ⟨data, hdata, hremoved⟩ := h.eraseIdx hidx
  refine ⟨_, ?_, hremoved, ?_⟩
  · unfold Net77.mcfsSetRemove
    rw [h.itemSizes_eq, h.findInArray_eq cat hitem, ok_bind, hfind]
    dsimp only
    rw [hdata]
    rfl
  · intro hlast
    funext other
    have hgap := forEach_eq_ok.mp hdata other
    rw [h.closeGap_last hlast] at hgap
    exact (Except.ok.inj hgap).symm

theorem Represents.mcfsSetRemove (h : Represents shape set tuples) {item : List (Option Byte)}
    {cat : Fin n} {key : Bytes} (hitem : readCells item (shape.itemSizes cat) = .ok key) :
    ∃ set', Net77.mcfsSetRemove set item cat = .ok (set', (removeTuple tuples key cat).2) ∧
      Represents shape set' (removeTuple tuples key cat).1 := by
  unfold removeTuple
  rw [List.eraseP_eq_eraseIdx]
  cases hfind : tuples.findIdx? fun tuple => tuple cat = key with
  | none =>
    have hnone : ¬ ∃ tuple ∈ tuples, tuple cat = key := by
      simpa using List.findIdx?_eq_none_iff.mp hfind
    rw [if_neg hnone]
    refine ⟨set, ?_, h⟩
    unfold Net77.mcfsSetRemove
    rw [h.itemSizes_eq, h.findInArray_eq cat hitem, ok_bind, hfind]
    rfl
  | some idx =>
    obtain ⟨hidx, hkey, -⟩ := List.findIdx?_eq_some_iff_getElem.mp hfind
    have hsome : ∃ tuple ∈ tuples, tuple cat = key :=
      ⟨tuples[idx], List.getElem_mem hidx, of_decide_eq_true hkey⟩
    obtain ⟨set', hremove, hset', -⟩ := h.mcfsSetRemove_at hitem hfind
    rw [if_pos hsome]
    exact ⟨set', hremove, hset'⟩

theorem Represents.getAssocItemPtr_at (h : Represents shape set tuples)
    {item : List (Option Byte)} {group target : Fin n} {key : Bytes} {idx : Nat}
    (hitem : readCells item (shape.itemSizes group) = .ok key)
    (hfind : tuples.findIdx? (fun tuple => tuple group = key) = some idx) :
    Net77.mcfsSetGetAssocItemPtr set item group target =
      .ok (some (idx * shape.itemSizes target)) := by
  obtain ⟨hidx, -, -⟩ := List.findIdx?_eq_some_iff_getElem.mp hfind
  unfold Net77.mcfsSetGetAssocItemPtr
  rw [h.itemSizes_eq, h.findInArray_eq group hitem, ok_bind, hfind]
  dsimp only
  rw [Nat.mod_eq_of_lt (h.offset_lt target hidx.le)]
  rfl

theorem Represents.mcfsSetGetAssocItemPtr (h : Represents shape set tuples)
    {item : List (Option Byte)} {group : Fin n} {key : Bytes}
    (hitem : readCells item (shape.itemSizes group) = .ok key) (target : Fin n) :
    Net77.mcfsSetGetAssocItemPtr set item group target =
        .ok ((lookupTuple shape.itemSizes tuples key group target).map Prod.fst) ∧
      ∀ off bytes, lookupTuple shape.itemSizes tuples key group target = some (off, bytes) →
        readCells ((set.data target).drop off) (shape.itemSizes target) = .ok bytes := by
  unfold lookupTuple
  cases hfind : tuples.findIdx? fun tuple => tuple group = key with
  | none =>
    have hnone : (tuples.find? fun tuple => tuple group = key) = none := by
      simpa using List.findIdx?_eq_none_iff.mp hfind
    rw [hnone]
    refine ⟨?_, fun off bytes hsome => by contradiction⟩
    unfold Net77.mcfsSetGetAssocItemPtr
    rw [h.itemSizes_eq, h.findInArray_eq group hitem, ok_bind, hfind]
    rfl
  | some idx =>
    obtain ⟨hidx, hkey, hfirst⟩ := List.findIdx?_eq_some_iff_getElem.mp hfind
    have hsome : (tuples.find? fun tuple => tuple group = key) = some tuples[idx] := by
      rw [List.find?_eq_some_iff_getElem]
      exact ⟨hkey, idx, hidx, rfl, fun j hj => by simpa using hfirst j hj⟩
    have hindex : (tuples.findIdx fun tuple => tuple group = key) = idx := by
      rw [List.findIdx_eq hidx]
      exact ⟨hkey, fun j hj => by simpa using hfirst j hj⟩
    rw [hsome, Option.map_some, hindex]
    refine ⟨h.getAssocItemPtr_at hitem hfind, ?_⟩
    intro off bytes hfound
    obtain ⟨rfl, rfl⟩ := Prod.mk.inj (Option.some.inj hfound)
    exact h.read_item hidx target

theorem findInArray_lt {data item : List (Option Byte)} {len itemSize idx : Nat}
    (h : findInArray data len item itemSize = .ok (some idx)) : idx < len := by
  have hfrom : ∀ rest i, findInArrayFrom data item itemSize i rest = .ok (some idx) →
      idx < i + rest := by
    intro rest
    induction rest with
    | zero =>
      intro i h
      cases Except.ok.inj h
    | succ rest ih =>
      intro i h
      obtain ⟨found, -, h⟩ := bind_eq_ok.mp h
      split at h
      · cases Except.ok.inj h
        omega
      · have := ih (i + 1) h
        omega
  have := hfrom len 0 h
  omega

/-- Whatever is asked for, at most one tuple is removed. -/
theorem Represents.mcfsSetRemove_any (h : Represents shape set tuples) {item : List (Option Byte)}
    {cat : Fin n} {set' : MultiCategoryFixedSizeSet n} {missing : Int}
    (hremove : Net77.mcfsSetRemove set item cat = .ok (set', missing)) :
    Represents shape set' tuples ∨
      ∃ idx, idx < tuples.length ∧ Represents shape set' (tuples.eraseIdx idx) := by
  obtain ⟨found, hfind, hremove⟩ := bind_eq_ok.mp hremove
  cases found with
  | none =>
    cases Except.ok.inj hremove
    exact .inl h
  | some idx =>
    have hidx : idx < tuples.length := by
      rw [← h.len_eq]
      exact findInArray_lt hfind
    obtain ⟨data, hdata, hremoved⟩ := h.eraseIdx hidx
    dsimp only at hremove
    rw [hdata] at hremove
    cases Except.ok.inj hremove
    exact .inr ⟨idx, hidx, hremoved⟩

theorem Represents.getAssocItemPtr_any (h : Represents shape set tuples)
    {item : List (Option Byte)} {group target : Fin n} {off : Nat}
    (hlookup : Net77.mcfsSetGetAssocItemPtr set item group target = .ok (some off)) :
    ∃ idx, idx < tuples.length ∧ off = idx * shape.itemSizes target := by
  obtain ⟨found, hfind, hlookup⟩ := bind_eq_ok.mp hlookup
  cases found with
  | none => cases Except.ok.inj hlookup
  | some idx =>
    have hidx : idx < tuples.length := by
      rw [← h.len_eq]
      exact findInArray_lt hfind
    cases Except.ok.inj hlookup
    rw [h.itemSizes_eq]
    exact ⟨idx, hidx, Nat.mod_eq_of_lt (h.offset_lt target hidx.le)⟩

end Operations

/-- A pointer to an item: into an array of the set, or elsewhere. -/
inductive ItemPtr (n : Nat) where
  | outside (bytes : Bytes)
  | inside (cat : Fin n) (off : Nat)

inductive McfsCall (n : Nat) where
  | add (items : Fin n → Bytes) (existCheckCategory : Fin n)
  | remove (item : ItemPtr n) (itemCategory : Fin n)
  | getAssocItemPtr (item : ItemPtr n) (itemGroup targetItemGroup : Fin n)

/-- What a call returns. An item is given by its offset and what is there. -/
inductive McfsResult where
  | status (code : Int)
  | item (found : Option (Nat × Bytes))
  deriving DecidableEq

section Calls

variable {n : Nat}

def ItemPtr.cells (set : MultiCategoryFixedSizeSet n) : ItemPtr n → List (Option Byte)
  | .outside bytes => bytes.map some
  | .inside cat off => (set.data cat).drop off

/-- The bytes behind the pointer, as far as there is something. -/
def ItemPtr.bytes (tuples : List (Tuple n)) : ItemPtr n → Bytes
  | .outside bytes => bytes
  | .inside cat off => (column tuples cat).drop off

namespace McfsCall

def run (set : MultiCategoryFixedSizeSet n) :
    McfsCall n → Except Stop (MultiCategoryFixedSizeSet n × McfsResult)
  | .add items existCheckCategory => do
    let (set, code) ← mcfsSetAdd set items existCheckCategory
    pure (set, .status code)
  | .remove item itemCategory => do
    let (set, code) ← mcfsSetRemove set (item.cells set) itemCategory
    pure (set, .status code)
  | .getAssocItemPtr item itemGroup targetItemGroup => do
    match ← mcfsSetGetAssocItemPtr set (item.cells set) itemGroup targetItemGroup with
    | none => pure (set, .item none)
    | some off =>
      let bytes ← readCells ((set.data targetItemGroup).drop off) (set.itemSizes targetItemGroup)
      pure (set, .item (some (off, bytes)))

/-- The call on the list of tuples. -/
def spec (shape : SetShape n) (tuples : List (Tuple n)) : McfsCall n → List (Tuple n) × McfsResult
  | .add items cat =>
    let added := addTuple shape.cap tuples (fun cat => (items cat).take (shape.itemSizes cat)) cat
    (added.1, .status added.2)
  | .remove item cat =>
    let removed := removeTuple tuples ((item.bytes tuples).take (shape.itemSizes cat)) cat
    (removed.1, .status removed.2)
  | .getAssocItemPtr item group target =>
    (tuples, .item (lookupTuple shape.itemSizes tuples
      ((item.bytes tuples).take (shape.itemSizes group)) group target))

/-- The pointers of the caller point to items. -/
def Readable (shape : SetShape n) (tuples : List (Tuple n)) : McfsCall n → Prop
  | .add items _ => ∀ cat, shape.itemSizes cat ≤ (items cat).length
  | .remove item cat => shape.itemSizes cat ≤ (item.bytes tuples).length
  | .getAssocItemPtr item group _ => shape.itemSizes group ≤ (item.bytes tuples).length

instance (shape : SetShape n) (tuples : List (Tuple n)) :
    (call : McfsCall n) → Decidable (call.Readable shape tuples)
  | .add items _ => inferInstanceAs (Decidable (∀ cat, shape.itemSizes cat ≤ (items cat).length))
  | .remove item cat =>
    inferInstanceAs (Decidable (shape.itemSizes cat ≤ (item.bytes tuples).length))
  | .getAssocItemPtr item group _ =>
    inferInstanceAs (Decidable (shape.itemSizes group ≤ (item.bytes tuples).length))

/-- A tuple that is going to be stored finds room in every array. -/
def Fits (shape : SetShape n) (tuples : List (Tuple n)) : McfsCall n → Prop
  | .add items cat => tuples.length ≠ shape.cap →
      (¬ ∃ other ∈ tuples, other cat = (items cat).take (shape.itemSizes cat)) →
        ∀ cat, (tuples.length + 1) * shape.itemSizes cat ≤ shape.room cat
  | _ => True

end McfsCall

variable {shape : SetShape n} {set : MultiCategoryFixedSizeSet n} {tuples : List (Tuple n)}

theorem Represents.read_ptr (h : Represents shape set tuples) {item : ItemPtr n} {size : Nat}
    (hread : size ≤ (item.bytes tuples).length) :
    readCells (item.cells set) size = .ok ((item.bytes tuples).take size) := by
  cases item with
  | outside bytes => exact readCells_map hread
  | inside cat off =>
    unfold ItemPtr.bytes at hread
    rw [List.length_drop] at hread
    cases size with
    | zero => simp [readCells]
    | succ size => exact readCells_drop (h.cells_eq cat) (by omega)

/-- Every call that finds room does to the list of tuples what it is there for. -/
theorem mcfsSet_refines (shape : SetShape n) :
    Refines McfsCall.run (McfsCall.spec shape)
      (fun tuples call => call.Readable shape tuples ∧ call.Fits shape tuples)
      (Represents shape) := by
  intro set tuples call h hpre
  obtain ⟨hread, hfits⟩ := hpre
  cases call with
  | add items cat =>
    obtain ⟨set', hadd, hset'⟩ := h.mcfsSetAdd hread hfits
    refine ⟨set', ?_, hset'⟩
    rw [McfsCall.run, hadd]
    rfl
  | remove item cat =>
    obtain ⟨set', hremove, hset'⟩ := h.mcfsSetRemove (h.read_ptr hread)
    refine ⟨set', ?_, hset'⟩
    rw [McfsCall.run, hremove]
    rfl
  | getAssocItemPtr item group target =>
    have hitem : readCells (item.cells set) (shape.itemSizes group) =
        .ok ((item.bytes tuples).take (shape.itemSizes group)) := h.read_ptr hread
    obtain ⟨hptr, hbytes⟩ := h.mcfsSetGetAssocItemPtr hitem target
    refine ⟨set, ?_, h⟩
    rw [McfsCall.run, hptr, ok_bind, McfsCall.spec]
    cases hfound : lookupTuple shape.itemSizes tuples
        ((item.bytes tuples).take (shape.itemSizes group)) group target with
    | none => rfl
    | some found =>
      rw [Option.map_some]
      dsimp only
      rw [h.itemSizes_eq, hbytes _ _ hfound]
      rfl

/-- A call that returns has found room. -/
theorem McfsCall.fits_of_run (h : Represents shape set tuples) {call : McfsCall n}
    {set' : MultiCategoryFixedSizeSet n} {r : McfsResult} (hread : call.Readable shape tuples)
    (hrun : call.run set = .ok (set', r)) : call.Fits shape tuples := by
  cases call with
  | remove item cat => trivial
  | getAssocItemPtr item group target => trivial
  | add items cat =>
    intro hfull hnew
    obtain ⟨added, hadd, -⟩ := bind_eq_ok.mp hrun
    unfold mcfsSetAdd at hadd
    have hnone : tuples.findIdx? (fun tuple => tuple cat =
        (items cat).take (shape.itemSizes cat)) = none := by
      simpa using hnew
    rw [if_neg (by rw [h.len_eq, h.cap_eq]; exact hfull), h.itemSizes_eq,
      h.findInArray_eq cat (readCells_map (hread cat)), ok_bind, hnone] at hadd
    obtain ⟨data, hdata, -⟩ := bind_eq_ok.mp hadd
    intro other
    have hstore := forEach_eq_ok.mp hdata other
    unfold storeItem writeCells at hstore
    have hlen : ((items other).take (shape.itemSizes other)).length = shape.itemSizes other := by
      rw [List.length_take, Nat.min_eq_left (hread other)]
    rw [h.itemSizes_eq, if_neg (by have := hread other; omega), h.len_eq,
      Nat.mod_eq_of_lt (h.offset_lt other le_rfl), hlen, h.size_eq] at hstore
    split at hstore
    · rwa [Nat.succ_mul]
    · simp at hstore

/-- What `newMcfsSet` gives. -/
def SetShape.new (rt : Runtime) (cap : Nat) (itemSizes : Fin n → Nat) : SetShape n where
  cap := cap
  itemSizes := itemSizes
  room cat := categorySize rt cap (itemSizes cat)
  room_lt cat := by
    unfold categorySize
    split <;> omega

theorem newMcfsSet_represents {rt : Runtime} {cap : Nat} {itemSizes : Fin n → Nat}
    (hnew : newMcfsSet rt cap itemSizes = .ok set) :
    Represents (.new rt cap itemSizes) set [] := by
  unfold newMcfsSet at hnew
  split at hnew
  · simp at hnew
  · cases Except.ok.inj hnew
    constructor
    · rfl
    · rfl
    · intro cat
      exact List.length_replicate
    · rfl
    · exact Nat.zero_le _
    · intro cat record hrecord
      contradiction
    · intro cat
      rfl

/-- Every sequence of calls on a new set does to the list of tuples what it is
there for, exactly if every tuple that is stored finds room. -/
theorem mcfsSet_follows_iff {rt : Runtime} {cap : Nat} {itemSizes : Fin n → Nat}
    (hnew : newMcfsSet rt cap itemSizes = .ok set) {calls : List (McfsCall n)}
    (hread : EveryCall (total (McfsCall.spec (.new rt cap itemSizes)))
      (fun tuples call => call.Readable (.new rt cap itemSizes) tuples) [] calls) :
    Follows McfsCall.run (McfsCall.spec (.new rt cap itemSizes)) (Represents (.new rt cap itemSizes))
        set [] calls ↔
      EveryCall (total (McfsCall.spec (.new rt cap itemSizes)))
        (fun tuples call => call.Fits (.new rt cap itemSizes) tuples) [] calls := by
  constructor
  · intro hfollows
    apply hfollows.everyCall hread
    intro set tuples call set' h hread hrun _
    exact call.fits_of_run h hread hrun
  · intro hfits
    exact (mcfsSet_refines _).follows (newMcfsSet_represents hnew) (hread.and hfits)

/-- Two tuples, of which the first is removed through a pointer to its second item. -/
def twoTuples : List (McfsCall 2) :=
  [.add ![[97], [1, 2]] 0, .add ![[98], [3, 4]] 1, .remove (.inside 1 0) 1,
    .getAssocItemPtr (.outside [98]) 0 1]

theorem mcfsSet_follows_twoTuples : ∃ set, newMcfsSet .unlimited 2 ![1, 2] = .ok set ∧
    (Follows McfsCall.run (McfsCall.spec (.new .unlimited 2 ![1, 2]))
        (Represents (.new .unlimited 2 ![1, 2])) set [] twoTuples ↔
      EveryCall (total (McfsCall.spec (.new .unlimited 2 ![1, 2])))
        (fun tuples call => call.Fits (.new .unlimited 2 ![1, 2]) tuples) [] twoTuples) :=
  ⟨_, rfl, mcfsSet_follows_iff rfl (by decide +kernel)⟩

/-- A set whose only array has got a wrapped size. -/
def wrappedSet : MultiCategoryFixedSizeSet 1 := ⟨![[]], ![2], 0, 2 ^ 63⟩

/-- The first item is stored behind an array of no bytes. -/
theorem wrappedSet_not_follows : newMcfsSet .unlimited (2 ^ 63) ![2] = .ok wrappedSet ∧
    ¬ Follows McfsCall.run (McfsCall.spec (.new .unlimited (2 ^ 63) ![2]))
      (Represents (.new .unlimited (2 ^ 63) ![2])) wrappedSet [] [.add ![[97, 98]] 0] := by
  constructor
  · apply congrArg Except.ok
    have hempty : ∀ cat : Fin 1, List.replicate (categorySize .unlimited (2 ^ 63) (![2] cat)) none =
        (![[]] : Fin 1 → List (Option Byte)) cat := by decide +kernel
    rw [wrappedSet, funext hempty]
  · rintro ⟨-, set', hrun, -⟩
    have hstops : (McfsCall.run wrappedSet (.add ![[97, 98]] 0)).toOption.isSome = false := by
      decide +kernel
    rw [hrun] at hstops
    contradiction

/-- Without an overflow and with all the memory there is always room, so that
every sequence of calls does what it is there for. -/
theorem mcfsSet_follows_allocated {rt : Runtime} {cap : Nat} {itemSizes : Fin n → Nat}
    (hwrap : ∀ cat, cap * itemSizes cat < 2 ^ 64)
    (halloc : ∀ cat, rt.malloc (cap * itemSizes cat) = true)
    (hnew : newMcfsSet rt cap itemSizes = .ok set) {calls : List (McfsCall n)}
    (hread : EveryCall (total (McfsCall.spec (.new rt cap itemSizes)))
      (fun tuples call => call.Readable (.new rt cap itemSizes) tuples) [] calls) :
    Follows McfsCall.run (McfsCall.spec (.new rt cap itemSizes)) (Represents (.new rt cap itemSizes))
      set [] calls := by
  have hrefines : Refines McfsCall.run (McfsCall.spec (.new rt cap itemSizes))
      (fun tuples call => call.Readable (.new rt cap itemSizes) tuples)
      (Represents (.new rt cap itemSizes)) := by
    intro set tuples call h hread
    apply mcfsSet_refines _ set tuples call h ⟨hread, ?_⟩
    cases call with
    | remove item cat => trivial
    | getAssocItemPtr item group target => trivial
    | add items cat =>
      intro hfull _ other
      have hroom : (SetShape.new rt cap itemSizes).room other = cap * itemSizes other := by
        unfold SetShape.new categorySize
        dsimp only
        rw [Nat.mod_eq_of_lt (hwrap other), if_pos (halloc other)]
      have hle : tuples.length ≤ cap := h.len_le
      have hne : tuples.length ≠ cap := hfull
      rw [hroom]
      apply Nat.mul_le_mul_right
      omega
  exact hrefines.follows (newMcfsSet_represents hnew) hread

end Calls

end Net77
