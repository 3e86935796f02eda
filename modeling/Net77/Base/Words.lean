import Net77.Base.Lines

/-! Words inside longer lists: a word that has no separator in it lies on one side of every
separator. Nothing here depends on a program. -/
namespace Net77.Base

variable {α : Type} {a b sep mark : α} {word front back left right : List α}

/-- A word without the separator lies in front of it or behind it. -/
theorem infix_of_separator (hsep : sep ∉ word) (h : word <:+: front ++ sep :: back) :
    word <:+: front ∨ word <:+: back := by
  rcases List.infix_append_iff.mp h with hfront | hback | ⟨l₁, l₂, rfl, hsuffix, hprefix⟩
  · exact .inl hfront
  · rcases List.infix_cons_iff.mp hback with hprefix | hback
    · cases word with
      | nil => exact .inl (List.nil_infix)
      | cons c word => exact absurd (by simp [(List.cons_prefix_cons.mp hprefix).1]) hsep
    · exact .inr hback
  · cases l₂ with
    | nil =>
      rw [List.append_nil]
      exact .inl hsuffix.isInfix
    | cons c l₂ => exact absurd (by simp [(List.cons_prefix_cons.mp hprefix).1]) hsep

/-- A word with a mark in it lies behind a separator, if the mark is not in front of that and
the separator is not in front of the mark. -/
theorem infix_behind (hfront : mark ∉ front) (hne : mark ≠ sep) (hleft : sep ∉ left)
    (h : left ++ mark :: right <:+: front ++ sep :: back) : left ++ mark :: right <:+: back := by
  rcases List.infix_append_iff.mp h with hin | hback | ⟨l₁, l₂, hword, hsuffix, hprefix⟩
  · exact absurd (hin.subset (by simp)) hfront
  · rcases List.infix_cons_iff.mp hback with hprefix | hback
    · cases left with
      | nil => exact absurd (List.cons_prefix_cons.mp hprefix).1 hne
      | cons c left => exact absurd (by simp [(List.cons_prefix_cons.mp hprefix).1]) hleft
    · exact hback
  · cases l₂ with
    | nil =>
      rw [List.append_nil] at hword
      exact absurd (hsuffix.subset (by simp [← hword])) hfront
    | cons c l₂ =>
      obtain rfl := (List.cons_prefix_cons.mp hprefix).1
      rcases List.append_eq_append_iff.mp hword with ⟨more, rfl, hmore⟩ | ⟨more, rfl, hmore⟩
      · cases more with
        | nil => exact absurd (List.cons.inj hmore).1 hne
        | cons d more =>
          refine absurd (hsuffix.subset ?_) hfront
          simp [(List.cons.inj hmore).1]
      · cases more with
        | nil => exact absurd (List.cons.inj hmore).1.symm hne
        | cons d more => exact absurd (by simp [(List.cons.inj hmore).1]) hleft

/-- A word that the pair is not in lies in one of the lines. -/
theorem infix_joinLines (ha : a ∉ word) (hb : b ∉ word) (hne : word ≠ []) {lines : List (List α)}
    (h : word <:+: joinLines a b lines) : ∃ line ∈ lines, word <:+: line := by
  induction lines with
  | nil => exact absurd (List.infix_nil.mp h) hne
  | cons line lines ih =>
    rw [joinLines_cons] at h
    rcases infix_of_separator ha h with hline | h
    · exact ⟨line, List.mem_cons_self, hline⟩
    · have h : word <:+: [] ++ b :: joinLines a b lines := h
      rcases infix_of_separator hb h with hnil | h
      · exact absurd (List.infix_nil.mp hnil) hne
      · obtain ⟨other, hmem, hother⟩ := ih h
        exact ⟨other, List.mem_cons_of_mem line hmem, hother⟩

theorem map_joinLines {β : Type} (f : α → β) (lines : List (List α)) :
    (joinLines a b lines).map f = joinLines (f a) (f b) (lines.map (List.map f)) := by
  induction lines with
  | nil => rfl
  | cons line lines ih =>
    show _ = joinLines (f a) (f b) (line.map f :: lines.map (List.map f))
    rw [joinLines_cons, joinLines_cons, List.map_append, List.map_append, ih]
    rfl

end Net77.Base
