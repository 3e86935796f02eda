import Mathlib.Data.Finset.Card
import Mathlib.Order.Interval.Finset.Nat
import Mathlib.Tactic.Common

/-! A buffer of slots of one width: what a store inside a slot does to the slots, and
what closing a gap does by moving the slots behind it. Nothing here depends on a program. -/
namespace Net77.Base

variable {α : Type} {width : Nat} {cells part : List α} {off : Nat}

/-- The slot with the given number, as far as the buffer goes. -/
def slot (width : Nat) (cells : List α) (i : Nat) : List α := (cells.drop (i * width)).take width

theorem getElem?_slot (width : Nat) (cells : List α) (i k : Nat) :
    (slot width cells i)[k]? = if k < width then cells[i * width + k]? else none := by
  unfold slot
  rw [List.getElem?_take, List.getElem?_drop]

/-- A part stored at an offset. -/
def overwrite (cells : List α) (off : Nat) (part : List α) : List α :=
  cells.take off ++ part ++ cells.drop (off + part.length)

theorem getElem?_overwrite (hfits : off + part.length ≤ cells.length) (k : Nat) :
    (overwrite cells off part)[k]? =
      if off ≤ k ∧ k < off + part.length then part[k - off]? else cells[k]? := by
  have hfront : (cells.take off).length = off := by
    rw [List.length_take]
    omega
  unfold overwrite
  rw [List.append_assoc, List.getElem?_append, hfront, List.getElem?_append, List.getElem?_take,
    List.getElem?_drop]
  by_cases hbefore : k < off
  · rw [if_pos hbefore, if_pos hbefore, if_neg (by omega)]
  · rw [if_neg hbefore]
    by_cases hinside : k - off < part.length
    · rw [if_pos hinside, if_pos (by omega)]
    · rw [if_neg hinside, if_neg (by omega)]
      congr 1
      omega

/-- Places of different slots differ. -/
theorem slot_place_ne {i j o k : Nat} (hne : i ≠ j) (ho : o < width) (hk : k < width) :
    i * width + o ≠ j * width + k := by
  intro heq
  rcases Nat.lt_or_gt_of_ne hne with hlt | hgt
  · have hmul := Nat.mul_le_mul_right width hlt
    rw [Nat.succ_mul] at hmul
    omega
  · have hmul := Nat.mul_le_mul_right width hgt
    rw [Nat.succ_mul] at hmul
    omega

/-- A store inside a slot leaves the others alone. -/
theorem slot_overwrite_of_ne {i j o : Nat} (hne : i ≠ j) (hin : o + part.length ≤ width)
    (hfits : i * width + o + part.length ≤ cells.length) :
    slot width (overwrite cells (i * width + o) part) j = slot width cells j := by
  apply List.ext_getElem?
  intro k
  rw [getElem?_slot, getElem?_slot]
  by_cases hk : k < width
  · rw [if_pos hk, if_pos hk, getElem?_overwrite hfits, if_neg]
    rintro ⟨hle, hlt⟩
    have hplace := slot_place_ne (o := j * width + k - i * width) hne (by omega) hk
    omega
  · rw [if_neg hk, if_neg hk]

/-- In its own slot, it is a store into the slot. -/
theorem slot_overwrite_self {i o : Nat} (hin : o + part.length ≤ width)
    (hfits : (i + 1) * width ≤ cells.length) :
    slot width (overwrite cells (i * width + o) part) i = overwrite (slot width cells i) o part := by
  rw [Nat.succ_mul] at hfits
  have hlen : (slot width cells i).length = width := by
    unfold slot
    rw [List.length_take, List.length_drop]
    omega
  apply List.ext_getElem?
  intro k
  rw [getElem?_slot, getElem?_overwrite (by omega), getElem?_overwrite (by omega), getElem?_slot]
  by_cases hk : k < width
  · rw [if_pos hk, if_pos hk]
    by_cases hinside : o ≤ k ∧ k < o + part.length
    · rw [if_pos (by omega), if_pos hinside]
      congr 1
      omega
    · rw [if_neg (by omega), if_neg hinside]
  · rw [if_neg hk, if_neg (by omega), if_neg hk]

/-- The slot that a slot has got its cells from when the one at `idx` of `len` has been
closed. The last one keeps a copy. -/
def behindGap (len idx i : Nat) : Nat := if idx ≤ i ∧ i + 1 < len then i + 1 else i

/-- The slots behind a gap moved over it. -/
def closeSlot (width len idx : Nat) (cells : List α) : List α :=
  overwrite cells (idx * width) ((cells.drop ((idx + 1) * width)).take ((len - 1 - idx) * width))

theorem slot_closeSlot {len idx : Nat} (hidx : idx < len) (hfits : len * width ≤ cells.length)
    (i : Nat) :
    slot width (closeSlot width len idx cells) i = slot width cells (behindGap len idx i) := by
  have hmoved : (idx + 1) * width + (len - 1 - idx) * width = len * width := by
    rw [← Nat.add_mul]
    congr 1
    omega
  have hpart : ((cells.drop ((idx + 1) * width)).take ((len - 1 - idx) * width)).length =
      (len - 1 - idx) * width := by
    rw [List.length_take, List.length_drop]
    omega
  have hstep : (idx + 1) * width = idx * width + width := Nat.succ_mul idx width
  apply List.ext_getElem?
  intro k
  rw [getElem?_slot, getElem?_slot]
  by_cases hk : k < width
  · rw [if_pos hk, if_pos hk]
    unfold closeSlot behindGap
    rw [getElem?_overwrite (by omega), hpart]
    by_cases hmove : idx ≤ i ∧ i + 1 < len
    · obtain ⟨hle, hlt⟩ := hmove
      have hfirst := Nat.mul_le_mul_right width hle
      have hlast := Nat.mul_le_mul_right width hlt
      rw [Nat.succ_mul, Nat.succ_mul] at hlast
      rw [if_pos (by omega), if_pos ⟨hle, hlt⟩, List.getElem?_take, if_pos (by omega),
        List.getElem?_drop, Nat.succ_mul i width]
      congr 1
      omega
    · rw [if_neg hmove, if_neg]
      rintro ⟨hfirst, hlast⟩
      apply hmove
      constructor
      · by_contra hlt
        have hmul := Nat.mul_le_mul_right width (Nat.lt_of_not_le hlt)
        rw [Nat.succ_mul] at hmul
        omega
      · by_contra hlt
        have hmul := Nat.mul_le_mul_right width (Nat.le_of_not_lt hlt)
        rw [Nat.succ_mul] at hmul
        omega
  · rw [if_neg hk, if_neg hk]

section Count

variable {p : Nat → Bool} {len idx n : Nat}

/-- How many of the first slots have a property. -/
def countSlots (p : Nat → Bool) (n : Nat) : Nat := ((Finset.range n).filter fun i => p i).card

theorem countSlots_le (p : Nat → Bool) (n : Nat) : countSlots p n ≤ n :=
  (Finset.card_filter_le _ _).trans (Finset.card_range n).le

theorem behindGap_injOn (len idx : Nat) :
    Set.InjOn (behindGap len idx) {i | i ≠ len - 1} := by
  intro i hi j hj heq
  have hi : i ≠ len - 1 := hi
  have hj : j ≠ len - 1 := hj
  unfold behindGap at heq
  split at heq <;> split at heq <;> omega

/-- Closing a gap adds at most the copy of the last slot. -/
theorem countSlots_behindGap (hlen : len ≤ n) :
    countSlots (fun i => p (behindGap len idx i)) n ≤ countSlots p n + 1 := by
  let moved := (Finset.range n).filter fun i => p (behindGap len idx i)
  have hothers : (moved.erase (len - 1)).card ≤ countSlots p n := by
    apply Finset.card_le_card_of_injOn (behindGap len idx)
    · intro i hi
      obtain ⟨-, hi⟩ := Finset.mem_erase.mp (Finset.mem_coe.mp hi)
      obtain ⟨hlt, hp⟩ := Finset.mem_filter.mp hi
      refine Finset.mem_coe.mpr (Finset.mem_filter.mpr ⟨?_, hp⟩)
      rw [Finset.mem_range] at hlt ⊢
      unfold behindGap
      split <;> omega
    · apply (behindGap_injOn len idx).mono
      intro i hi
      exact (Finset.mem_erase.mp (Finset.mem_coe.mp hi)).1
  have hone : moved.card - 1 ≤ (moved.erase (len - 1)).card := Finset.pred_card_le_card_erase
  have hcount : countSlots (fun i => p (behindGap len idx i)) n = moved.card := rfl
  omega

/-- A slot that loses the property lowers the count. -/
theorem countSlots_lost {q : Nat → Bool} {i : Nat} (hi : i < n) (hp : p i = true)
    (hq : q i = false) (hsame : ∀ j ≠ i, q j = p j) : countSlots q n + 1 ≤ countSlots p n := by
  have hsub : (Finset.range n).filter (fun j => q j) ⊂ (Finset.range n).filter fun j => p j := by
    apply Finset.ssubset_iff_subset_ne.mpr ⟨?_, ?_⟩
    · intro j hj
      obtain ⟨hlt, hqj⟩ := Finset.mem_filter.mp hj
      apply Finset.mem_filter.mpr ⟨hlt, ?_⟩
      rw [← hsame j]
      · exact hqj
      · rintro rfl
        rw [hq] at hqj
        contradiction
    · intro heq
      have hmem : i ∈ (Finset.range n).filter fun j => q j := by
        rw [heq]
        exact Finset.mem_filter.mpr ⟨Finset.mem_range.mpr hi, hp⟩
      have hqi := (Finset.mem_filter.mp hmem).2
      rw [hq] at hqi
      contradiction
  exact Finset.card_lt_card hsub

end Count

end Net77.Base
