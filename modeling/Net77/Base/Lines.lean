import Mathlib.Data.List.TakeWhile
import Net77.Base.Occurrence

/-! Lists that a pair of different elements cuts into lines, and the lines in front of the
first empty one. Nothing here depends on a program. -/
namespace Net77.Base

variable {α : Type} [DecidableEq α] {a b : α}

/-- The pieces between the occurrences of the pair, from left to right. -/
def pieces (a b : α) : List α → List (List α)
  | [] => [[]]
  | [c] => [[c]]
  | c :: d :: rest =>
    if c = a ∧ d = b then [] :: pieces a b rest
    else (pieces a b (d :: rest)).modifyHead (c :: ·)

/-- The lines that the pair ends, up to the first empty one. -/
def headLines (a b : α) (text : List α) : List (List α) :=
  (pieces a b text).dropLast.takeWhile (· ≠ [])

/-- The text of some lines. -/
def joinLines (a b : α) (lines : List (List α)) : List α := lines.flatMap (· ++ [a, b])

section Join

variable {lines : List (List α)} {line text : List α}

omit [DecidableEq α] in
@[simp] theorem joinLines_nil : joinLines a b [] = [] := rfl

omit [DecidableEq α] in
@[simp] theorem joinLines_cons (line : List α) (lines : List (List α)) :
    joinLines a b (line :: lines) = line ++ ([a, b] ++ joinLines a b lines) :=
  List.append_assoc line [a, b] _

omit [DecidableEq α] in
theorem joinLines_append (front back : List (List α)) :
    joinLines a b (front ++ back) = joinLines a b front ++ joinLines a b back :=
  List.flatMap_append

omit [DecidableEq α] in
/-- Lines that are not empty take an element and the pair each. -/
theorem length_joinLines (h : ∀ line ∈ lines, line ≠ []) :
    3 * lines.length ≤ (joinLines a b lines).length := by
  induction lines with
  | nil => exact Nat.le_refl 0
  | cons line lines ih =>
    rw [List.forall_mem_cons] at h
    have hline := List.length_pos_iff.mpr h.1
    have hlines := ih h.2
    rw [joinLines_cons, List.length_append, List.length_append, List.length_cons, List.length_cons,
      List.length_cons, List.length_nil]
    omega

end Join

section Pieces

variable {c : α} {line more text : List α} {lines : List (List α)}

theorem pieces_ne_nil (text : List α) : pieces a b text ≠ [] := by
  fun_induction pieces a b text with
  | case1 => simp
  | case2 => simp
  | case3 => simp
  | case4 c d rest hcd ih =>
    obtain ⟨first, others, hpieces⟩ := List.exists_cons_of_ne_nil ih
    simp [hpieces]

theorem pieces_pair (more : List α) : pieces a b (a :: b :: more) = [] :: pieces a b more :=
  if_pos ⟨rfl, rfl⟩

theorem pieces_cons {rest : List α} (hrest : rest ≠ []) (hnot : ¬ [a, b] <+: c :: rest) :
    pieces a b (c :: rest) = (pieces a b rest).modifyHead (c :: ·) := by
  cases rest with
  | nil => contradiction
  | cons d rest =>
    apply if_neg
    rintro ⟨rfl, rfl⟩
    exact hnot ⟨rest, rfl⟩

omit [DecidableEq α] in
/-- A line that is ended by the pair does not start with it. -/
theorem not_pair_at_head (hab : a ≠ b) (free : ¬ [a, b] <:+: c :: line) (more : List α) :
    ¬ [a, b] <+: c :: (line ++ ([a, b] ++ more)) := by
  intro h
  obtain ⟨hc, hnext⟩ := List.cons_prefix_cons.mp h
  cases line with
  | nil => exact hab (List.cons_prefix_cons.mp hnext).1.symm
  | cons d line =>
    have hd := (List.cons_prefix_cons.mp hnext).1
    exact free ⟨[], line, by rw [hc, hd]; rfl⟩

omit [DecidableEq α] in
theorem free_tail (free : ¬ [a, b] <:+: c :: line) : ¬ [a, b] <:+: line := fun h =>
  free (h.trans (List.suffix_cons c line).isInfix)

theorem pieces_line (hab : a ≠ b) (free : ¬ [a, b] <:+: line) (more : List α) :
    pieces a b (line ++ ([a, b] ++ more)) = line :: pieces a b more := by
  induction line with
  | nil => exact pieces_pair more
  | cons c line ih =>
    rw [List.cons_append, pieces_cons (by simp) (not_pair_at_head hab free more),
      ih (free_tail free)]
    rfl

theorem pieces_joinLines (hab : a ≠ b) (free : ∀ line ∈ lines, ¬ [a, b] <:+: line)
    (more : List α) : pieces a b (joinLines a b lines ++ more) = lines ++ pieces a b more := by
  induction lines with
  | nil => rfl
  | cons line lines ih =>
    rw [List.forall_mem_cons] at free
    rw [joinLines_cons, List.append_assoc, List.append_assoc, pieces_line hab free.1, ih free.2]
    rfl

/-- The pieces are what the text was made of. -/
theorem joinLines_pieces (text : List α) :
    joinLines a b (pieces a b text) = text ++ [a, b] := by
  fun_induction pieces a b text with
  | case1 => rfl
  | case2 => rfl
  | case3 c d rest hcd ih =>
    rw [joinLines_cons, ih, hcd.1, hcd.2]
    rfl
  | case4 c d rest hcd ih =>
    obtain ⟨first, others, hpieces⟩ := List.exists_cons_of_ne_nil (pieces_ne_nil (d :: rest))
    rw [hpieces, joinLines_cons] at ih
    rw [hpieces, List.modifyHead_cons, joinLines_cons, List.cons_append, ih]
    rfl

theorem piece_free {piece : List α} (h : piece ∈ pieces a b text) :
    ¬ [a, b] <:+: piece := by
  have hshort : ∀ short : List α, short.length < 2 → ¬ [a, b] <:+: short := fun short hlen hin =>
    absurd hin.length_le (Nat.not_le.mpr hlen)
  fun_induction pieces a b text generalizing piece with
  | case1 =>
    rw [List.mem_singleton.mp h]
    exact hshort [] Nat.zero_lt_two
  | case2 c =>
    rw [List.mem_singleton.mp h]
    exact hshort [c] Nat.one_lt_two
  | case3 c d rest hcd ih =>
    rcases List.mem_cons.mp h with rfl | h
    · exact hshort [] Nat.zero_lt_two
    · exact ih h
  | case4 c d rest hcd ih =>
    obtain ⟨first, others, hpieces⟩ := List.exists_cons_of_ne_nil (pieces_ne_nil (d :: rest))
    have htext := joinLines_pieces (a := a) (b := b) (d :: rest)
    rw [hpieces] at h ih htext
    rcases List.mem_cons.mp h with rfl | h
    · rw [List.infix_cons_iff, not_or]
      refine ⟨?_, ih List.mem_cons_self⟩
      intro hstart
      obtain ⟨rfl, hnext⟩ := List.cons_prefix_cons.mp hstart
      cases first with
      | nil => simp at hnext
      | cons e first =>
        rw [joinLines_cons, List.cons_append] at htext
        exact hcd ⟨rfl, (List.cons.inj htext).1.symm.trans (List.cons_prefix_cons.mp hnext).1.symm⟩
    · exact ih (List.mem_cons_of_mem first h)

/-- Lines that are joined are the pieces of their text. -/
theorem pieces_of_join (hab : a ≠ b) (free : ∀ line ∈ lines, ¬ [a, b] <:+: line)
    (htext : text ++ [a, b] = joinLines a b lines) : pieces a b text = lines := by
  have hsplit := pieces_joinLines hab free []
  have hfree : ∀ piece ∈ pieces a b text, ¬ [a, b] <:+: piece := fun piece => piece_free
  rw [← htext, ← joinLines_pieces, pieces_joinLines hab hfree] at hsplit
  exact List.append_cancel_right hsplit

end Pieces

section Head

variable {text rest : List α} {lines : List (List α)}

/-- A text has its first lines and then an empty line, or no further one. -/
theorem headLines_split (text : List α) :
    ∃ rest, text = joinLines a b (headLines a b text) ++ rest ∧
      ([a, b] <+: rest ∨ ¬ [a, b] <:+: rest) := by
  have htext := joinLines_pieces (a := a) (b := b) text
  have hlast := List.dropLast_append_getLast (pieces_ne_nil (a := a) (b := b) text)
  have hfree := piece_free (List.getLast_mem (pieces_ne_nil (a := a) (b := b) text))
  generalize (pieces a b text).getLast _ = last at hlast hfree
  rw [← hlast, joinLines_append, joinLines_cons, joinLines_nil, List.append_nil,
    ← List.append_assoc] at htext
  have hjoin := List.append_cancel_right htext
  have hends := List.takeWhile_append_dropWhile (p := fun line => decide (line ≠ []))
    (l := (pieces a b text).dropLast)
  refine ⟨joinLines a b ((pieces a b text).dropLast.dropWhile (· ≠ [])) ++ last, ?_, ?_⟩
  · rw [headLines, ← List.append_assoc, ← joinLines_append, hends, hjoin]
  · cases hrest : (pieces a b text).dropLast.dropWhile (· ≠ []) with
    | nil => exact .inr hfree
    | cons line others =>
      have hempty : line = [] := by
        have hhead := List.head_dropWhile_not (fun line : List α => decide (line ≠ []))
          (by rw [hrest]; exact List.cons_ne_nil line others)
        simp only [hrest, List.head_cons] at hhead
        simpa using hhead
      rw [hempty, joinLines_cons]
      exact .inl ⟨joinLines a b others ++ last, by simp⟩

theorem headLines_nonempty (text : List α) : ∀ line ∈ headLines a b text, line ≠ [] := by
  intro line hline
  simpa using List.mem_takeWhile_imp hline

theorem headLines_free (text : List α) :
    ∀ line ∈ headLines a b text, ¬ [a, b] <:+: line := by
  intro line hline
  exact piece_free (List.mem_of_mem_dropLast ((List.takeWhile_prefix _).subset hline))

/-- Lines in front of an empty one are the first lines. -/
theorem headLines_joinLines (hab : a ≠ b) (nonempty : ∀ line ∈ lines, line ≠ [])
    (free : ∀ line ∈ lines, ¬ [a, b] <:+: line) (more : List α) :
    headLines a b (joinLines a b lines ++ ([a, b] ++ more)) = lines := by
  obtain ⟨first, others, hpieces⟩ := List.exists_cons_of_ne_nil (pieces_ne_nil (a := a) (b := b) more)
  have hsplit : pieces a b (joinLines a b lines ++ ([a, b] ++ more)) =
      lines ++ ([] :: first :: others) := by
    rw [pieces_joinLines hab free, ← hpieces]
    exact congrArg (lines ++ ·) (pieces_pair more)
  rw [headLines, hsplit, List.dropLast_append_of_ne_nil (List.cons_ne_nil [] _),
    List.takeWhile_append_of_pos fun line hline => by simpa using nonempty line hline,
    List.dropLast_cons_of_ne_nil (List.cons_ne_nil first others),
    List.takeWhile_cons_of_neg (by simp), List.append_nil]

omit [DecidableEq α] in
theorem not_pair_twice {xs : List α} (h : ¬ [a, b] <+: xs) : ¬ [a, b, a, b] <+: xs := fun hin =>
  h ((List.prefix_append [a, b] [a, b]).trans hin)

/-- The pair that ends a line is the first one. -/
theorem firstOccurrence_line_end (hab : a ≠ b) {line : List α} (free : ¬ [a, b] <:+: line)
    (more : List α) : firstOccurrence [a, b] (line ++ ([a, b] ++ more)) = some line.length := by
  induction line with
  | nil => exact if_pos ⟨more, rfl⟩
  | cons c line ih =>
    rw [List.cons_append, firstOccurrence, if_neg (not_pair_at_head hab free more),
      ih (free_tail free)]
    rfl

omit [DecidableEq α] in
/-- Two parts have the pair inside one of them or across their seam. -/
theorem pair_free_append {front back : List α} (hfront : ¬ [a, b] <:+: front)
    (hback : ¬ [a, b] <:+: back) (hseam : back.head? ≠ some b) : ¬ [a, b] <:+: front ++ back := by
  induction front with
  | nil => exact hback
  | cons c front ih =>
    rw [List.cons_append, List.infix_cons_iff, not_or]
    refine ⟨fun hstart => ?_, ih (free_tail hfront)⟩
    obtain ⟨rfl, hnext⟩ := List.cons_prefix_cons.mp hstart
    cases front with
    | nil =>
      obtain ⟨more, rfl⟩ := hnext
      exact hseam rfl
    | cons d front =>
      obtain ⟨rfl, -⟩ := List.cons_prefix_cons.mp hnext
      exact hfront ⟨[], front, rfl⟩

/-- Up to its end a line hides the pair. -/
theorem firstOccurrence_line (hab : a ≠ b) {line : List α} (free : ¬ [a, b] <:+: line)
    (more : List α) : firstOccurrence [a, b, a, b] (line ++ ([a, b] ++ more)) =
      (firstOccurrence [a, b, a, b] ([a, b] ++ more)).map (· + line.length) := by
  induction line with
  | nil => simp
  | cons c line ih =>
    rw [List.cons_append, firstOccurrence,
      if_neg (not_pair_twice (not_pair_at_head hab free more)), ih (free_tail free),
      Option.map_map]
    rfl

theorem firstOccurrence_pair (hab : a ≠ b) {more : List α} (h : ¬ [a, b] <+: more) :
    firstOccurrence [a, b, a, b] ([a, b] ++ more) =
      (firstOccurrence [a, b, a, b] more).map (· + 2) := by
  have hfirst : ¬ [a, b, a, b] <+: a :: b :: more := by
    rw [List.cons_prefix_cons, List.cons_prefix_cons]
    exact fun hin => h hin.2.2
  have hsecond : ¬ [a, b, a, b] <+: b :: more := fun hin => hab (List.cons_prefix_cons.mp hin).1
  rw [List.cons_append, List.cons_append, List.nil_append, firstOccurrence, if_neg hfirst,
    firstOccurrence, if_neg hsecond, Option.map_map]
  rfl

/-- The first empty line is where the pair occurs twice in a row for the first time. -/
theorem firstOccurrence_blank (hab : a ≠ b) (more : List α) :
    ∀ (lines : List (List α)), lines ≠ [] → (∀ line ∈ lines, line ≠ []) →
      (∀ line ∈ lines, ¬ [a, b] <:+: line) →
      ∃ front, front ++ [a, b] = joinLines a b lines ∧
        firstOccurrence [a, b, a, b] (joinLines a b lines ++ ([a, b] ++ more)) = some front.length
  | [], hne, _, _ => absurd rfl hne
  | [line], _, _, free => by
    refine ⟨line, by simp, ?_⟩
    have htwice : [a, b, a, b] <+: [a, b] ++ ([a, b] ++ more) := ⟨more, rfl⟩
    have hstart : firstOccurrence [a, b, a, b] ([a, b] ++ ([a, b] ++ more)) = some 0 :=
      if_pos htwice
    rw [joinLines_cons, joinLines_nil, List.append_nil, List.append_assoc,
      firstOccurrence_line hab (free line List.mem_cons_self), hstart, Option.map_some,
      Nat.zero_add]
  | line :: next :: lines, _, nonempty, free => by
    rw [List.forall_mem_cons] at nonempty free
    obtain ⟨front, hfront, hfirst⟩ := firstOccurrence_blank hab more (next :: lines)
      (List.cons_ne_nil next lines) nonempty.2 free.2
    refine ⟨line ++ ([a, b] ++ front), by rw [joinLines_cons, ← hfront]; simp, ?_⟩
    have hnext : ¬ [a, b] <+: joinLines a b (next :: lines) ++ ([a, b] ++ more) := by
      obtain ⟨c, back, rfl⟩ := List.exists_cons_of_ne_nil (nonempty.2 next List.mem_cons_self)
      rw [joinLines_cons, List.append_assoc, List.append_assoc]
      exact not_pair_at_head hab (free.2 (c :: back) List.mem_cons_self) _
    rw [joinLines_cons, List.append_assoc, List.append_assoc, firstOccurrence_line hab free.1,
      firstOccurrence_pair hab hnext, hfirst, Option.map_some, Option.map_some]
    simp only [List.length_append, List.length_cons, List.length_nil]
    congr 1
    omega

end Head

end Net77.Base
