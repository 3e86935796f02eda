import Net77.Base.Occurrence
import Net77.Memory

/-! `lib/string_utils.c` and `lib/math_utils.c`. -/
namespace Net77

open Net77.Base

/-- `tolower` of the C locale. -/
def tolower (c : Byte) : Byte :=
  if 65 ≤ c ∧ c ≤ 90 then c + 32 else c

/-- The inner loop: whether it runs to `needle_len`. -/
def matchesAt : Bytes → Bytes → Bool
  | _, [] => true
  | [], _ :: _ => false
  | h :: hs, n :: ns => tolower h == tolower n && matchesAt hs ns

/-- The outer loop with `todo` iterations left. -/
def scanFor (haystack needle : Bytes) : (todo i : Nat) → Option Nat
  | 0, _ => none
  | todo + 1, i =>
    if matchesAt (haystack.drop i) needle then some i else scanFor haystack needle todo (i + 1)

/-- The haystack is given by its `haystack_len` bytes, and the result as an offset. -/
def findAsciiSubstringCaseInsensitive (haystack needle : Bytes) : Option Nat :=
  if needle.length = 0 then some 0
  else if haystack.length < needle.length then none
  else scanFor haystack needle (haystack.length - needle.length + 1) 0

/-- The smaller number, where a negative one stands for infinity. -/
def optMin (a b : Int) : Int :=
  if a < 0 ∧ b < 0 then -1
  else if a < 0 then b
  else if b < 0 then a
  else if a < b then a
  else b

theorem matchesAt_iff {haystack needle : Bytes} :
    matchesAt haystack needle = true ↔ needle.map tolower <+: haystack.map tolower := by
  induction needle generalizing haystack with
  | nil => simp [matchesAt]
  | cons n ns ih =>
    cases haystack with
    | nil => simp [matchesAt]
    | cons h hs =>
      simp only [matchesAt, Bool.and_eq_true, beq_iff_eq, ih, List.map_cons, List.cons_prefix_cons]
      exact and_congr_left fun _ => eq_comm

theorem scanFor_eq {needle : Bytes} (hne : 0 < needle.length) : ∀ (todo i : Nat) (haystack : Bytes),
    i + todo + needle.length = haystack.length + 1 →
    scanFor haystack needle todo i =
      (firstOccurrence (needle.map tolower) ((haystack.drop i).map tolower)).map (· + i)
  | 0, i, haystack, hlen => by
    have hshort : ¬ needle.map tolower <:+: (haystack.drop i).map tolower := fun hin => by
      have := hin.length_le
      rw [List.length_map, List.length_map, List.length_drop] at this
      omega
    rw [scanFor, firstOccurrence_none.mpr hshort]
    rfl
  | todo + 1, i, haystack, hlen => by
    rw [scanFor]
    by_cases hmatch : matchesAt (haystack.drop i) needle = true
    · rw [if_pos hmatch]
      rw [matchesAt_iff] at hmatch
      cases hdrop : haystack.drop i with
      | nil =>
        rw [hdrop] at hmatch
        rw [List.map_nil, firstOccurrence, if_pos (List.prefix_nil.mp hmatch)]
        simp
      | cons c rest =>
        rw [hdrop, List.map_cons] at hmatch
        rw [List.map_cons, firstOccurrence, if_pos hmatch]
        simp
    · rw [if_neg hmatch, scanFor_eq hne todo (i + 1) haystack (by omega)]
      rw [matchesAt_iff] at hmatch
      rw [← List.drop_drop, List.drop_one]
      cases hdrop : haystack.drop i with
      | nil =>
        have hnil : needle = [] := by
          have := congrArg List.length hdrop
          rw [List.length_drop, List.length_nil] at this
          exact List.eq_nil_of_length_eq_zero (by omega)
        simp [hnil] at hmatch
      | cons c rest =>
        rw [hdrop, List.map_cons] at hmatch
        rw [List.map_cons, firstOccurrence, if_neg hmatch, Option.map_map]
        congr 1
        funext j
        simp only [Function.comp_apply]
        omega

/-- The search finds the first occurrence up to letter case. -/
theorem find_eq_firstOccurrence (haystack needle : Bytes) :
    findAsciiSubstringCaseInsensitive haystack needle =
      firstOccurrence (needle.map tolower) (haystack.map tolower) := by
  unfold findAsciiSubstringCaseInsensitive
  split
  · rename_i hnil
    rw [List.length_eq_zero_iff.mp hnil]
    cases haystack <;> simp [firstOccurrence]
  · split
    · rename_i hshort
      refine (firstOccurrence_none.mpr fun hin => ?_).symm
      have := hin.length_le
      rw [List.length_map, List.length_map] at this
      omega
    · rw [scanFor_eq (by omega) _ 0 haystack (by omega), List.drop_zero]
      simp

/-- What is found is the needle up to letter case. -/
theorem find_some {haystack needle : Bytes} {i : Nat}
    (h : findAsciiSubstringCaseInsensitive haystack needle = some i) :
    ∃ front found, haystack = front ++ (found ++ haystack.drop (i + needle.length)) ∧
      front.length = i ∧ found.map tolower = needle.map tolower := by
  rw [find_eq_firstOccurrence] at h
  obtain ⟨hmatch, hi⟩ := firstOccurrence_some h
  have hlen := hmatch.length_le
  rw [List.length_map] at hi
  rw [List.length_map, List.length_drop, List.length_map] at hlen
  have hfound : ((haystack.drop i).take needle.length).map tolower = needle.map tolower := by
    rw [List.map_take, List.map_drop, ← List.length_map tolower]
    exact (List.prefix_iff_eq_take.mp hmatch).symm
  refine ⟨haystack.take i, (haystack.drop i).take needle.length, ?_, ?_, hfound⟩
  · rw [← List.drop_drop, List.take_append_drop, List.take_append_drop]
  · rw [List.length_take, Nat.min_eq_left hi]

theorem tolower_control {c : Byte} (h : c < 32) (d : Byte) : tolower d = c ↔ d = c := by
  unfold tolower
  split
  · rename_i hupper
    simp only [UInt8.le_iff_toNat_le, UInt8.lt_iff_toNat_lt, ← UInt8.toNat_inj, UInt8.toNat_add]
      at h hupper ⊢
    have h65 : UInt8.toNat 65 = 65 := rfl
    have h90 : UInt8.toNat 90 = 90 := rfl
    have h32 : UInt8.toNat 32 = 32 := rfl
    omega
  · rfl

/-- Control characters have no letter case. -/
theorem firstOccurrence_control {needle : Bytes} (hneedle : ∀ c ∈ needle, c < 32)
    (haystack : Bytes) : findAsciiSubstringCaseInsensitive haystack needle =
      firstOccurrence needle haystack := by
  have hprefix : ∀ xs : Bytes, needle.map tolower <+: xs.map tolower ↔ needle <+: xs := by
    intro xs
    induction needle generalizing xs with
    | nil => simp
    | cons c needle ih =>
      cases xs with
      | nil => simp
      | cons x xs =>
        rw [List.forall_mem_cons] at hneedle
        have hc : tolower c = c := (tolower_control hneedle.1 c).mpr rfl
        rw [List.map_cons, List.map_cons, List.cons_prefix_cons, List.cons_prefix_cons, hc,
          ih hneedle.2, eq_comm, tolower_control hneedle.1, eq_comm]
  rw [find_eq_firstOccurrence]
  induction haystack with
  | nil => simp [firstOccurrence]
  | cons x xs ih =>
    have hhead := hprefix (x :: xs)
    rw [List.map_cons] at hhead
    rw [List.map_cons, firstOccurrence, firstOccurrence, ih]
    simp only [hhead]

end Net77
