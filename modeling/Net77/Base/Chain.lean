import Mathlib.Data.List.Basic
import Mathlib.Logic.Function.Basic
import Mathlib.Tactic.Common

/-! A heap of cells, and chains of cells that are linked by their pointers. A
pointer is an address, or `none` for NULL. Nothing here depends on a program. -/
namespace Net77.Base

variable {κ δ : Type}

structure Cell (κ δ : Type) where
  data : δ
  next : Option κ
  deriving DecidableEq, Repr

/-- The addresses of cells that are allocated, with what is in them. -/
abbrev Heap (κ δ : Type) := κ → Option (Cell κ δ)

namespace Heap

/-- The cell behind a pointer. There is none behind NULL, nor where nothing is allocated. -/
def load (heap : Heap κ δ) (pointer : Option κ) : Option (Cell κ δ) := pointer.bind heap

variable [DecidableEq κ]

def store (heap : Heap κ δ) (pointer : Option κ) (cell : Cell κ δ) : Option (Heap κ δ) :=
  pointer.bind fun key => (heap key).map fun _ => Function.update heap key (some cell)

def alloc (heap : Heap κ δ) (key : κ) (cell : Cell κ δ) : Heap κ δ :=
  Function.update heap key (some cell)

def free (heap : Heap κ δ) (pointer : Option κ) : Option (Heap κ δ) :=
  pointer.bind fun key => (heap key).map fun _ => Function.update heap key none

variable {heap : Heap κ δ} {key other : κ} {cell cell' : Cell κ δ}

omit [DecidableEq κ] in
theorem load_of (h : heap key = some cell) : heap.load (some key) = some cell := h

theorem store_of (h : heap key = some cell) :
    heap.store (some key) cell' = some (Function.update heap key (some cell')) := by
  simp [store, h]

theorem free_of (h : heap key = some cell) :
    heap.free (some key) = some (Function.update heap key none) := by
  simp [free, h]

/-- What is allocated after a write was so before, or was written. -/
theorem allocated_update (h : Function.update heap key (some cell) other ≠ none) :
    other = key ∨ heap other ≠ none := by
  by_cases heq : other = key
  · exact .inl heq
  · rw [Function.update_of_ne heq] at h
    exact .inr h

end Heap

/-- The pointer leads through cells with these addresses and data, the last of which points
to nothing. -/
def Chain (heap : Heap κ δ) : Option κ → List (κ × δ) → Prop
  | pointer, [] => pointer = none
  | pointer, (key, data) :: items =>
    pointer = some key ∧ ∃ next, heap key = some ⟨data, next⟩ ∧ Chain heap next items

namespace Chain

variable {heap heap' : Heap κ δ} {pointer : Option κ} {items front : List (κ × δ)} {key last : κ}
  {data datum : δ}

/-- A pointer leads along one way only. -/
theorem unique {others : List (κ × δ)} (h : Chain heap pointer items)
    (h' : Chain heap pointer others) : items = others := by
  induction items generalizing pointer others with
  | nil =>
    cases others with
    | nil => rfl
    | cons other others => exact nomatch (h.symm.trans h'.1)
  | cons item items ih =>
    obtain ⟨key, data⟩ := item
    obtain ⟨hkey, next, hcell, hrest⟩ := h
    cases others with
    | nil => exact nomatch (hkey.symm.trans h')
    | cons other others =>
      obtain ⟨key', data'⟩ := other
      obtain ⟨hkey', next', hcell', hrest'⟩ := h'
      cases Option.some.inj (hkey.symm.trans hkey')
      cases Option.some.inj (hcell.symm.trans hcell')
      rw [ih hrest hrest']

theorem suffix {back : List (κ × δ)} (h : Chain heap pointer (front ++ back)) :
    ∃ middle, Chain heap middle back := by
  induction front generalizing pointer with
  | nil => exact ⟨pointer, h⟩
  | cons item front ih =>
    obtain ⟨-, next, -, hrest⟩ := h
    exact ih hrest

/-- The way comes to no cell twice: from there it would be the whole way again. -/
theorem nodup (h : Chain heap pointer items) : (items.map Prod.fst).Nodup := by
  induction items generalizing pointer with
  | nil => exact List.nodup_nil
  | cons item items ih =>
    obtain ⟨key, data⟩ := item
    have hwhole := h
    obtain ⟨rfl, next, -, hrest⟩ := h
    refine List.nodup_cons.mpr ⟨fun hmem => ?_, ih hrest⟩
    obtain ⟨⟨key', data'⟩, hitem, hkey⟩ := List.mem_map.mp hmem
    obtain ⟨front, back, hitems⟩ := List.append_of_mem hitem
    rw [hitems] at hrest
    obtain ⟨middle, hagain⟩ := hrest.suffix
    have hmiddle : middle = some key := by rw [hagain.1]; exact congrArg some hkey
    rw [hmiddle] at hagain
    have hlength := congrArg List.length (hwhole.unique hagain)
    rw [hitems] at hlength
    simp only [List.length_cons, List.length_append] at hlength
    omega

theorem allocated (h : Chain heap pointer items) {item : κ × δ} (hmem : item ∈ items) :
    ∃ next, heap item.1 = some ⟨item.2, next⟩ := by
  obtain ⟨front, back, rfl⟩ := List.append_of_mem hmem
  obtain ⟨middle, -, next, hcell, -⟩ := h.suffix
  exact ⟨next, hcell⟩

/-- Cells that are not on the way do not matter. -/
theorem frame (h : Chain heap pointer items)
    (same : ∀ item ∈ items, heap' item.1 = heap item.1) : Chain heap' pointer items := by
  induction items generalizing pointer with
  | nil => exact h
  | cons item items ih =>
    obtain ⟨hkey, next, hcell, hrest⟩ := h
    rw [List.forall_mem_cons] at same
    exact ⟨hkey, next, by rw [same.1]; exact hcell, ih hrest same.2⟩

theorem last_cell (h : Chain heap pointer (front ++ [(last, data)])) :
    heap last = some ⟨data, none⟩ := by
  obtain ⟨middle, -, next, hcell, hnext⟩ := h.suffix
  rw [hcell, hnext]

section Update

variable [DecidableEq κ]

theorem single (heap : Heap κ δ) (key : κ) (data : δ) :
    Chain (heap.alloc key ⟨data, none⟩) (some key) [(key, data)] :=
  ⟨rfl, none, Function.update_self key _ heap, rfl⟩

/-- A new cell is hung on the last one. -/
theorem concat (h : Chain heap pointer (front ++ [(last, data)])) (fresh : heap key = none) :
    Chain (Function.update (heap.alloc key ⟨datum, none⟩) last (some ⟨data, some key⟩)) pointer
      (front ++ [(last, data), (key, datum)]) := by
  induction front generalizing pointer with
  | nil =>
    obtain ⟨hlast, next, hcell, -⟩ := h
    have hne : key ≠ last := fun heq => by rw [heq, hcell] at fresh; contradiction
    refine ⟨hlast, some key, Function.update_self last _ _, rfl, none, ?_, rfl⟩
    rw [Function.update_of_ne hne]
    exact Function.update_self key _ heap
  | cons item front ih =>
    obtain ⟨key', data'⟩ := item
    have hnodup := h.nodup
    obtain ⟨hkey, next, hcell, hrest⟩ := h
    have hlast : key' ≠ last := by
      rintro rfl
      exact (List.nodup_cons.mp hnodup).1
        (List.mem_map.mpr ⟨(key', data), List.mem_append_right _ List.mem_cons_self, rfl⟩)
    have hnew : key' ≠ key := fun heq => by rw [← heq, hcell] at fresh; contradiction
    refine ⟨hkey, next, ?_, ih hrest⟩
    rw [Function.update_of_ne hlast]
    exact (Function.update_of_ne hnew _ heap).trans hcell

/-- The first cell is freed. -/
theorem tail {next : Option κ} (h : Chain heap pointer ((key, data) :: items))
    (hcell : heap key = some ⟨data, next⟩) : Chain (Function.update heap key none) next items := by
  have hkey := (List.nodup_cons.mp h.nodup).1
  obtain ⟨-, next', hcell', hrest⟩ := h
  cases Option.some.inj (hcell.symm.trans hcell')
  refine hrest.frame fun item hmem => Function.update_of_ne (fun heq => ?_) _ heap
  exact hkey (List.mem_map.mpr ⟨item, hmem, heq⟩)

end Update

end Chain

end Net77.Base
