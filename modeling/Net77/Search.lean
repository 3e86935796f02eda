import Net77.Base.Results
import Net77.Utils

/-! `findAsciiSubstringCaseInsensitive` with its reads. The haystack and the needle are
all of their objects, so that a read at an index from their lengths on is a read outside. -/
namespace Net77

open Net77.Base

/-- The bytes that a callee is allowed to read, which have to be in the buffer. -/
def window (buf : Bytes) (start len : Nat) : Except Stop Bytes :=
  if start + len ≤ buf.length then pure ((buf.drop start).take len)
  else .error (.fault .outOfBounds)

/-- The inner loop with `todo` iterations left: the value of `j` when it ends. -/
def compareReading (haystack needle : Bytes) (i : Nat) : (todo j : Nat) → Except Stop Nat
  | 0, j => pure j
  | todo + 1, j => do
    let h ← readAt haystack (i + j)
    let n ← readAt needle j
    if tolower h ≠ tolower n then pure j else compareReading haystack needle i todo (j + 1)

/-- The outer loop with `todo` iterations left. -/
def scanReading (haystack needle : Bytes) : (todo i : Nat) → Except Stop (Option Nat)
  | 0, _ => pure none
  | todo + 1, i => do
    let j ← compareReading haystack needle i needle.length 0
    if j = needle.length then pure (some i) else scanReading haystack needle todo (i + 1)

def findReading (haystack needle : Bytes) : Except Stop (Option Nat) :=
  if needle.length = 0 then pure (some 0)
  else if haystack.length < needle.length then pure none
  else scanReading haystack needle (haystack.length - needle.length + 1) 0

/-- The needle is at an offset of the haystack, up to letter case. -/
def OccursAt (haystack needle : Bytes) (i : Nat) : Prop :=
  i + needle.length ≤ haystack.length ∧
    ((haystack.drop i).take needle.length).map tolower = needle.map tolower

section Reads

variable {haystack needle : Bytes} {i : Nat}

theorem readAt_drop {data rest : Bytes} {c : Byte} (h : data.drop i = c :: rest) :
    readAt data i = .ok c := by
  have hget : data[i]? = some c := by
    have := congrArg List.head? h
    rwa [List.head?_drop, List.head?_cons] at this
  rw [readAt, hget]

/-- The inner loop runs to the end of the needle where it matches. -/
theorem compareReading_eq (todo : Nat) (j : Nat) (hneedle : j + todo = needle.length)
    (hhaystack : i + needle.length ≤ haystack.length) :
    ∃ stop, compareReading haystack needle i todo j = .ok stop ∧
      (stop = needle.length ↔ matchesAt (haystack.drop (i + j)) (needle.drop j) = true) := by
  induction todo generalizing j with
  | zero =>
    refine ⟨j, rfl, iff_of_true (by omega) ?_⟩
    rw [show needle.drop j = [] from List.drop_of_length_le (by omega)]
    exact matchesAt.eq_1 _
  | succ todo ih =>
    obtain ⟨h, hs, hhs⟩ := List.exists_cons_of_length_pos
      (show 0 < (haystack.drop (i + j)).length by rw [List.length_drop]; omega)
    obtain ⟨n, ns, hns⟩ := List.exists_cons_of_length_pos
      (show 0 < (needle.drop j).length by rw [List.length_drop]; omega)
    rw [compareReading, readAt_drop hhs, ok_bind, readAt_drop hns, ok_bind, hhs, hns, matchesAt]
    by_cases heq : tolower h = tolower n
    · obtain ⟨stop, hcompare, hend⟩ := ih (j + 1) (by omega)
      have hhs' : haystack.drop (i + (j + 1)) = hs := by
        rw [← Nat.add_assoc, ← List.drop_drop, hhs, List.drop_one, List.tail_cons]
      have hns' : needle.drop (j + 1) = ns := by
        rw [← List.drop_drop, hns, List.drop_one, List.tail_cons]
      rw [hhs', hns'] at hend
      refine ⟨stop, ?_, hend.trans ?_⟩
      · rw [if_neg (not_not.mpr heq), hcompare]
      · rw [beq_iff_eq.mpr heq, Bool.true_and]
    · refine ⟨j, if_pos heq, iff_of_false (by omega) ?_⟩
      rw [beq_eq_false_iff_ne.mpr heq, Bool.false_and]
      decide

theorem scanReading_eq (todo i : Nat) (h : i + todo + needle.length ≤ haystack.length + 1) :
    scanReading haystack needle todo i = .ok (scanFor haystack needle todo i) := by
  induction todo generalizing i with
  | zero => rfl
  | succ todo ih =>
    obtain ⟨stop, hcompare, hend⟩ := compareReading_eq needle.length 0 (Nat.zero_add _)
      (show i + needle.length ≤ haystack.length by omega)
    rw [Nat.add_zero, List.drop_zero] at hend
    rw [scanReading, scanFor, hcompare, ok_bind]
    by_cases hmatch : matchesAt (haystack.drop i) needle = true
    · rw [if_pos (hend.mpr hmatch), if_pos hmatch]
      rfl
    · rw [if_neg (hend.not.mpr hmatch), if_neg hmatch, ih (i + 1) (by omega)]

/-- The search stays inside, and finds what the search without reads finds. -/
theorem findReading_eq (haystack needle : Bytes) :
    findReading haystack needle = .ok (findAsciiSubstringCaseInsensitive haystack needle) := by
  unfold findReading findAsciiSubstringCaseInsensitive
  split
  · rfl
  · split
    · rfl
    · exact scanReading_eq _ 0 (by omega)

end Reads

/-- An occurrence, as the beginning of what is behind its offset. -/
theorem occursAt_iff {haystack needle : Bytes} {i : Nat} (hi : i ≤ haystack.length) :
    OccursAt haystack needle i ↔ needle.map tolower <+: (haystack.map tolower).drop i := by
  unfold OccursAt
  rw [← List.map_drop, List.prefix_iff_eq_take, List.length_map, ← List.map_take, eq_comm]
  apply and_iff_right_of_imp
  intro heq
  have hlen := congrArg List.length heq
  rw [List.length_map, List.length_map, List.length_take, List.length_drop] at hlen
  omega

/-- The search reads nothing outside of the two texts. It returns the least offset at which
the needle occurs, and none exactly if there is no such offset. -/
theorem search_first_match (haystack needle : Bytes) :
    ∃ result, findReading haystack needle = .ok result ∧
      (∀ i, result = some i ↔
        OccursAt haystack needle i ∧ ∀ j < i, ¬ OccursAt haystack needle j) ∧
      (result = none ↔ ∀ i, ¬ OccursAt haystack needle i) := by
  refine ⟨_, findReading_eq haystack needle, ?_, ?_⟩
  · intro i
    rw [find_eq_firstOccurrence, firstOccurrence_eq_some, List.length_map]
    constructor
    · rintro ⟨hi, hmatch, hfirst⟩
      refine ⟨(occursAt_iff hi).mpr hmatch, fun j hj hoccurs => ?_⟩
      exact hfirst j hj ((occursAt_iff (by omega)).mp hoccurs)
    · rintro ⟨hoccurs, hfirst⟩
      have hi : i ≤ haystack.length := (Nat.le_add_right i _).trans hoccurs.1
      refine ⟨hi, (occursAt_iff hi).mp hoccurs, fun j hj hmatch => ?_⟩
      exact hfirst j hj ((occursAt_iff (by omega)).mpr hmatch)
  · rw [find_eq_firstOccurrence, firstOccurrence_none_iff, List.length_map]
    constructor
    · intro hnone i hoccurs
      have hi : i ≤ haystack.length := (Nat.le_add_right i _).trans hoccurs.1
      exact hnone i hi ((occursAt_iff hi).mp hoccurs)
    · intro hnone i hi hmatch
      exact hnone i ((occursAt_iff hi).mpr hmatch)

end Net77
