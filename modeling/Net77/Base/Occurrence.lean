import Mathlib.Data.List.Infix
import Mathlib.Tactic.Common

/-! The first occurrence of a pattern in a list that grows at its end, as a
reader sees it that searches again after every piece it receives. Nothing here
depends on a program. -/
namespace Net77.Base

variable {α : Type} [DecidableEq α]

/-- The index at which `pat` occurs first. -/
def firstOccurrence (pat : List α) : List α → Option Nat
  | [] => if pat = [] then some 0 else none
  | a :: xs => if pat <+: a :: xs then some 0 else (firstOccurrence pat xs).map (· + 1)

/-- The end of the first occurrence. -/
def firstEnd (pat xs : List α) : Option Nat :=
  (firstOccurrence pat xs).map (· + pat.length)

theorem firstOccurrence_some {pat xs : List α} {i : Nat} (h : firstOccurrence pat xs = some i) :
    pat <+: xs.drop i ∧ i ≤ xs.length := by
  induction xs generalizing i with
  | nil =>
    unfold firstOccurrence at h
    split at h
    · rename_i hnil
      cases Option.some.inj h
      simp [hnil]
    · contradiction
  | cons a xs ih =>
    unfold firstOccurrence at h
    split at h
    · rename_i hstart
      cases Option.some.inj h
      exact ⟨hstart, Nat.zero_le _⟩
    · obtain ⟨j, hj, rfl⟩ := Option.map_eq_some_iff.mp h
      obtain ⟨hmatch, hle⟩ := ih hj
      exact ⟨hmatch, Nat.succ_le_succ hle⟩

theorem firstOccurrence_none {pat xs : List α} : firstOccurrence pat xs = none ↔ ¬ pat <:+: xs := by
  induction xs with
  | nil =>
    unfold firstOccurrence
    split <;> rename_i hnil <;> simp [hnil]
  | cons a xs ih =>
    unfold firstOccurrence
    rw [List.infix_cons_iff, not_or]
    split
    · rename_i hstart
      simp [hstart]
    · rename_i hstart
      rw [Option.map_eq_none_iff, ih]
      exact ⟨fun h => ⟨hstart, h⟩, And.right⟩

/-- An occurrence lies inside the list. -/
theorem firstOccurrence_le {pat xs : List α} {i : Nat} (h : firstOccurrence pat xs = some i) :
    i + pat.length ≤ xs.length := by
  obtain ⟨hmatch, hle⟩ := firstOccurrence_some h
  have hlen := hmatch.length_le
  rw [List.length_drop] at hlen
  omega

/-- The first occurrence is the least index at which the pattern starts. -/
theorem firstOccurrence_eq_some {pat xs : List α} {i : Nat} : firstOccurrence pat xs = some i ↔
    i ≤ xs.length ∧ pat <+: xs.drop i ∧ ∀ j < i, ¬ pat <+: xs.drop j := by
  induction xs generalizing i with
  | nil =>
    unfold firstOccurrence
    split
    · rename_i hnil
      rw [hnil]
      constructor
      · intro h
        cases Option.some.inj h
        exact ⟨Nat.le_refl 0, List.nil_prefix, fun j hj => absurd hj (Nat.not_lt_zero j)⟩
      · rintro ⟨hi, -⟩
        rw [Nat.le_zero.mp hi]
    · rename_i hnil
      simp [hnil]
  | cons a xs ih =>
    unfold firstOccurrence
    split
    · rename_i hstart
      constructor
      · intro h
        cases Option.some.inj h
        exact ⟨Nat.zero_le _, hstart, fun j hj => absurd hj (Nat.not_lt_zero j)⟩
      · rintro ⟨-, -, hfirst⟩
        cases i with
        | zero => rfl
        | succ i => exact absurd hstart (hfirst 0 (Nat.succ_pos i))
    · rename_i hstart
      cases i with
      | zero => simp [hstart]
      | succ i =>
        rw [Option.map_eq_some_iff]
        simp only [Nat.add_right_cancel_iff, exists_eq_right, ih, List.length_cons,
          Nat.add_le_add_iff_right, List.drop_succ_cons]
        refine and_congr_right fun _ => and_congr_right fun _ => ?_
        constructor
        · rintro hfirst (_ | j) hj
          · exact hstart
          · exact hfirst j (Nat.lt_of_succ_lt_succ hj)
        · intro hfirst j hj
          exact hfirst (j + 1) (Nat.succ_lt_succ hj)

theorem firstOccurrence_none_iff {pat xs : List α} :
    firstOccurrence pat xs = none ↔ ∀ i ≤ xs.length, ¬ pat <+: xs.drop i := by
  rw [firstOccurrence_none]
  constructor
  · intro hnot i _ hmatch
    exact hnot (hmatch.isInfix.trans (List.drop_suffix i xs).isInfix)
  · rintro hnone ⟨front, back, rfl⟩
    refine hnone front.length ?_ ⟨back, ?_⟩
    · rw [List.append_assoc, List.length_append]
      exact Nat.le_add_right _ _
    · rw [List.append_assoc, List.drop_left]

/-- Further elements leave the first occurrence where it is. -/
theorem firstOccurrence_append {pat xs : List α} {i : Nat} (ys : List α)
    (h : firstOccurrence pat xs = some i) : firstOccurrence pat (xs ++ ys) = some i := by
  induction xs generalizing i with
  | nil =>
    unfold firstOccurrence at h
    split at h
    · rename_i hnil
      cases Option.some.inj h
      cases ys <;> simp [firstOccurrence, hnil]
    · contradiction
  | cons a xs ih =>
    unfold firstOccurrence at h
    rw [List.cons_append]
    unfold firstOccurrence
    split at h
    · rename_i hstart
      cases Option.some.inj h
      exact if_pos (hstart.trans (List.prefix_append (a :: xs) ys))
    · rename_i hstart
      obtain ⟨j, hj, rfl⟩ := Option.map_eq_some_iff.mp h
      have hfits := firstOccurrence_le hj
      have hnot : ¬ pat <+: a :: (xs ++ ys) := fun hlate => hstart <|
        List.prefix_of_prefix_length_le hlate (List.prefix_append (a :: xs) ys)
          (by rw [List.length_cons]; omega)
      rw [if_neg hnot, ih hj]
      rfl

/-- In front of the first occurrence there is none. -/
theorem firstOccurrence_take {pat xs : List α} {i : Nat} (hpat : pat ≠ [])
    (h : firstOccurrence pat xs = some i) : ¬ pat <:+: xs.take i := by
  intro hin
  obtain ⟨j, hj⟩ := Option.ne_none_iff_exists'.mp fun hnone => firstOccurrence_none.mp hnone hin
  have hle := firstOccurrence_le hj
  have hwhole := firstOccurrence_append (xs.drop i) hj
  rw [List.take_append_drop, h, Option.some.injEq] at hwhole
  have hpos := List.length_pos_iff.mpr hpat
  rw [List.length_take] at hle
  omega

/-- What has not occurred by now occurs only with the next element. -/
theorem firstOccurrence_concat {pat xs : List α} {a : α} {i : Nat}
    (hnone : firstOccurrence pat xs = none) (h : firstOccurrence pat (xs ++ [a]) = some i) :
    i + pat.length = xs.length + 1 := by
  have hle := firstOccurrence_le h
  rw [List.length_append, List.length_singleton] at hle
  by_contra hne
  obtain ⟨hmatch, hi⟩ := firstOccurrence_some h
  rw [List.drop_append_of_le_length (by omega)] at hmatch
  have hearly : pat <+: xs.drop i := List.prefix_of_prefix_length_le hmatch
    (List.prefix_append _ _) (by rw [List.length_drop]; omega)
  exact firstOccurrence_none.mp hnone (hearly.isInfix.trans (List.drop_suffix i xs).isInfix)

/-- So it is enough to look at the end of what is there. -/
theorem firstOccurrence_concat_iff {pat xs : List α} {a : α}
    (hnone : firstOccurrence pat xs = none) :
    firstOccurrence pat (xs ++ [a]) ≠ none ↔ pat <:+ xs ++ [a] := by
  constructor
  · intro h
    obtain ⟨i, hi⟩ := Option.ne_none_iff_exists'.mp h
    have hend := firstOccurrence_concat hnone hi
    have hmatch := (firstOccurrence_some hi).1
    have heq : pat = (xs ++ [a]).drop i := hmatch.eq_of_length
      (by rw [List.length_drop, List.length_append, List.length_singleton]; omega)
    rw [heq]
    exact List.drop_suffix i _
  · intro hsuffix h
    exact firstOccurrence_none.mp h hsuffix.isInfix

theorem firstEnd_some {pat xs : List α} {n : Nat} (h : firstEnd pat xs = some n) :
    n ≤ xs.length ∧ pat.length ≤ n := by
  obtain ⟨i, hi, rfl⟩ := Option.map_eq_some_iff.mp h
  exact ⟨firstOccurrence_le hi, Nat.le_add_left _ _⟩

theorem firstEnd_none {pat xs : List α} : firstEnd pat xs = none ↔ firstOccurrence pat xs = none :=
  Option.map_eq_none_iff

theorem firstEnd_mono {pat xs ys : List α} {n : Nat} (h : firstEnd pat xs = some n)
    (hle : xs <+: ys) : firstEnd pat ys = some n ∧ ys.take n = xs.take n := by
  obtain ⟨more, rfl⟩ := hle
  have hn := (firstEnd_some h).1
  obtain ⟨i, hi, rfl⟩ := Option.map_eq_some_iff.mp h
  refine ⟨?_, List.take_append_of_le_length hn⟩
  rw [firstEnd, firstOccurrence_append more hi]
  rfl

/-- A reader that searches after every element finds the pattern when it has
just been completed. -/
theorem firstEnd_concat {pat xs : List α} {a : α} {n : Nat} (hnone : firstEnd pat xs = none)
    (h : firstEnd pat (xs ++ [a]) = some n) : n = (xs ++ [a]).length := by
  obtain ⟨i, hi, rfl⟩ := Option.map_eq_some_iff.mp h
  rw [firstOccurrence_concat (firstEnd_none.mp hnone) hi, List.length_append, List.length_singleton]

/-- A pattern that has not occurred in a beginning ends behind it. -/
theorem length_lt_firstEnd {pat xs ys : List α} {n : Nat} (hnone : firstEnd pat xs = none)
    (hle : xs <+: ys) (h : firstEnd pat ys = some n) : xs.length < n := by
  by_contra hlt
  obtain ⟨i, hi, rfl⟩ := Option.map_eq_some_iff.mp h
  obtain ⟨more, rfl⟩ := hle
  have hmatch := (firstOccurrence_some hi).1
  rw [List.drop_append_of_le_length (by omega)] at hmatch
  have hearly : pat <+: xs.drop i := List.prefix_of_prefix_length_le hmatch
    (List.prefix_append _ _) (by rw [List.length_drop]; omega)
  exact firstOccurrence_none.mp (firstEnd_none.mp hnone)
    (hearly.isInfix.trans (List.drop_suffix i xs).isInfix)

/-- An occurrence that a beginning covers is there. -/
theorem firstEnd_of_longer {pat xs ys : List α} {n : Nat} (h : firstEnd pat ys = some n)
    (hle : xs <+: ys) (hn : n ≤ xs.length) :
    firstEnd pat xs = some n ∧ xs.take n = ys.take n := by
  cases hend : firstEnd pat xs with
  | none =>
    have := length_lt_firstEnd hend hle h
    omega
  | some m =>
    obtain ⟨hm, htake⟩ := firstEnd_mono hend hle
    cases Option.some.inj (hm.symm.trans h)
    exact ⟨rfl, htake.symm⟩

/-- A pattern that starts with one that has not occurred has not occurred. -/
theorem firstEnd_none_of_start {pat pat' xs : List α} (hle : pat <+: pat')
    (h : firstEnd pat xs = none) : firstEnd pat' xs = none := by
  rw [firstEnd_none, firstOccurrence_none] at h ⊢
  exact fun hin => h (hle.isInfix.trans hin)

/-- A pattern that goes on behind one that has just been completed has not
occurred yet. -/
theorem firstEnd_longer_none {pat pat' xs : List α} (hle : pat <+: pat')
    (hlt : pat.length < pat'.length) (h : firstEnd pat xs = some xs.length) :
    firstEnd pat' xs = none := by
  by_contra hsome
  obtain ⟨n, hn⟩ := Option.ne_none_iff_exists'.mp hsome
  obtain ⟨i, hi, rfl⟩ := Option.map_eq_some_iff.mp hn
  have hfits := firstOccurrence_le hi
  obtain ⟨hmatch, -⟩ := firstOccurrence_some hi
  have hearly : firstEnd pat (xs.take (i + pat.length)) ≠ none := by
    rw [Ne, firstEnd_none, firstOccurrence_none, not_not]
    have hpat : pat <+: (xs.take (i + pat.length)).drop i := by
      rw [List.drop_take, Nat.add_sub_cancel_left]
      exact List.prefix_take_iff.mpr ⟨hle.trans hmatch, le_rfl⟩
    exact hpat.isInfix.trans (List.drop_suffix i _).isInfix
  obtain ⟨m, hm⟩ := Option.ne_none_iff_exists'.mp hearly
  have hmle := (firstEnd_some hm).1
  have hsame := (firstEnd_mono hm (List.take_prefix _ _)).1
  rw [h, Option.some.injEq] at hsame
  rw [List.length_take] at hmle
  omega

end Net77.Base
