import Mathlib.Data.List.Infix
import Mathlib.Tactic.Common

/-! Records of one width, stored one behind the other. Nothing here depends on a
program. -/
namespace Net77.Base

variable {α : Type} {width : Nat}

/-- All records have the width. -/
def OfWidth (width : Nat) (records : List (List α)) : Prop :=
  ∀ record ∈ records, record.length = width

instance (width : Nat) (records : List (List α)) : Decidable (OfWidth width records) :=
  inferInstanceAs (Decidable (∀ record ∈ records, record.length = width))

namespace OfWidth

variable {record : List α} {records : List (List α)}

theorem head (h : OfWidth width (record :: records)) : record.length = width :=
  h record (by simp)

theorem tail (h : OfWidth width (record :: records)) : OfWidth width records :=
  fun r hr => h r (by simp [hr])

theorem concat (h : OfWidth width records) (hrecord : record.length = width) :
    OfWidth width (records ++ [record]) := by
  intro r hr
  rcases List.mem_append.mp hr with hr | hr
  · exact h r hr
  · rw [List.mem_singleton.mp hr]
    exact hrecord

theorem sublist (h : OfWidth width records) {others : List (List α)}
    (hsub : others.Sublist records) : OfWidth width others :=
  fun r hr => h r (hsub.mem hr)

theorem length_flatten (h : OfWidth width records) :
    records.flatten.length = records.length * width := by
  induction records with
  | nil => simp
  | cons record records ih =>
    rw [List.flatten_cons, List.length_append, ih h.tail, h.head, List.length_cons, Nat.succ_mul,
      Nat.add_comm]

/-- The bytes from a record on. -/
theorem drop_flatten (h : OfWidth width records) (i : Nat) :
    records.flatten.drop (i * width) = (records.drop i).flatten := by
  induction i generalizing records with
  | zero => simp
  | succ i ih =>
    cases records with
    | nil => simp
    | cons record records =>
      rw [List.flatten_cons, Nat.succ_mul, Nat.add_comm, ← List.drop_drop, List.drop_left' h.head,
        ih h.tail, List.drop_succ_cons]

/-- The bytes in front of a record. -/
theorem take_flatten (h : OfWidth width records) (i : Nat) :
    records.flatten.take (i * width) = (records.take i).flatten := by
  induction i generalizing records with
  | zero => simp
  | succ i ih =>
    cases records with
    | nil => simp
    | cons record records =>
      rw [List.flatten_cons, Nat.succ_mul, Nat.add_comm, List.take_succ_cons, List.flatten_cons,
        ← ih h.tail, List.take_append, h.head, Nat.add_sub_cancel_left,
        List.take_of_length_le (by rw [h.head]; omega)]

/-- The bytes of a record. -/
theorem take_drop_flatten (h : OfWidth width records) {i : Nat} (hi : i < records.length) :
    (records.flatten.drop (i * width)).take width = records[i] := by
  rw [h.drop_flatten, List.drop_eq_getElem_cons hi, List.flatten_cons]
  exact List.take_left' (h _ (List.getElem_mem hi))

/-- Moving the records behind one of them over it removes it. -/
theorem flatten_eraseIdx (h : OfWidth width records) (i : Nat) :
    (records.eraseIdx i).flatten =
      records.flatten.take (i * width) ++ records.flatten.drop ((i + 1) * width) := by
  rw [List.eraseIdx_eq_take_drop_succ, List.flatten_append, h.take_flatten, h.drop_flatten]

/-- Storing into a record stores at its place. -/
theorem flatten_set (h : OfWidth width records) {i : Nat} (hi : i < records.length) {off : Nat}
    {stored : List α} (hfits : off + stored.length ≤ width) :
    (records.set i (records[i].take off ++ stored ++ records[i].drop (off + stored.length))).flatten =
      records.flatten.take (i * width + off) ++ stored ++
        records.flatten.drop (i * width + off + stored.length) := by
  have hrecord : records[i].length = width := h _ (List.getElem_mem hi)
  have hfront : (records.take i).flatten.length = i * width := by
    rw [(h.sublist (List.take_sublist i records)).length_flatten, List.length_take,
      Nat.min_eq_left hi.le]
  have hsplit : records.flatten =
      (records.take i).flatten ++ (records[i] ++ (records.drop (i + 1)).flatten) := by
    rw [← List.flatten_cons, ← List.drop_eq_getElem_cons hi, ← List.flatten_append,
      List.take_append_drop]
  have hbefore : records.flatten.take (i * width + off) =
      (records.take i).flatten ++ records[i].take off := by
    rw [hsplit, ← hfront, List.take_length_add_append, List.take_append_of_le_length (by omega)]
  have hbehind : records.flatten.drop (i * width + off + stored.length) =
      records[i].drop (off + stored.length) ++ (records.drop (i + 1)).flatten := by
    rw [hsplit, ← hfront, Nat.add_assoc, List.drop_length_add_append,
      List.drop_append_of_le_length (by omega)]
  rw [hbefore, hbehind, List.set_eq_take_append_cons_drop, if_pos hi, List.flatten_append,
    List.flatten_cons]
  simp only [List.append_assoc]

end OfWidth

end Net77.Base
