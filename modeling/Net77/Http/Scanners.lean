import Net77.Base.Lines
import Net77.Base.Results
import Net77.Http.Parsing

/-! What each scanner of the parser takes off the input, in both directions: the
text it accepts and the only texts it can have accepted. -/
namespace Net77.Http

open Net77.Base

@[simp] theorem readAt_cons_zero (c : Byte) (rest : Bytes) : readAt (c :: rest) 0 = .ok c := rfl

theorem readAt_zero_eq_ok {data : Bytes} {c : Byte} (h : readAt data 0 = .ok c) :
    ∃ rest, data = c :: rest := by
  cases data with
  | nil => simp [readAt] at h
  | cons d rest => exact ⟨rest, by rw [Except.ok.inj h]⟩

theorem atNewline_eq {data : Bytes} {b : Bool} (h : atNewline data = .ok b) :
    b = decide (crlf <+: data) := by
  cases data with
  | nil => simp [atNewline] at h
  | cons c rest =>
    rw [atNewline] at h
    split at h
    · rename_i hc
      obtain ⟨d, hd, hb⟩ := bind_eq_ok.mp h
      obtain ⟨tail, rfl⟩ := readAt_zero_eq_ok hd
      rw [← Except.ok.inj hb, hc]
      by_cases hlf : d = lf
      · simp [hlf]
      · simp [hlf, Ne.symm hlf]
    · rename_i hc
      rw [← Except.ok.inj h]
      simp [Ne.symm hc]

theorem atNewline_of_length {data : Bytes} (h : 2 ≤ data.length) :
    atNewline data = .ok (decide (crlf <+: data)) := by
  match data, h with
  | c :: d :: rest, _ =>
    have hok : ∃ b, atNewline (c :: d :: rest) = .ok b := by
      by_cases hc : c = cr <;> simp [atNewline, hc]
    obtain ⟨b, hb⟩ := hok
    rw [hb, atNewline_eq hb]

theorem expectChar_iff {str rest : StringRef} {c : Byte} :
    expectChar str c = .ok rest ↔ Consumes str [c] rest := by
  constructor
  · intro h
    unfold expectChar at h
    split at h
    · simp at h
    · rename_i hlen
      obtain ⟨d, hd, h⟩ := bind_eq_ok.mp h
      obtain ⟨tail, htail⟩ := readAt_zero_eq_ok hd
      split at h
      · simp at h
      · rename_i hdc
        cases Except.ok.inj h
        exact ⟨by simp [htail, not_not.mp hdc], by simp; omega⟩
  · intro h
    unfold expectChar
    rw [if_neg (by have := h.len_eq; simp at this; omega), h.data_eq]
    simp [h.len_eq]

theorem expectNewline_iff {str rest : StringRef} :
    expectNewline str = .ok rest ↔ Consumes str crlf rest := by
  constructor
  · intro h
    unfold expectNewline at h
    split at h
    · simp at h
    · rename_i hlen
      obtain ⟨b, hb, h⟩ := bind_eq_ok.mp h
      have hcrlf := atNewline_eq hb
      cases b with
      | false => simp at h
      | true =>
        obtain ⟨tail, htail⟩ := of_decide_eq_true hcrlf.symm
        simp only [if_true, pure_eq_ok, Except.ok.injEq] at h
        subst h
        exact ⟨by simp [← htail], by simp; omega⟩
  · intro h
    have hlen := h.len_eq
    simp only [List.length_cons, List.length_nil] at hlen
    unfold expectNewline
    rw [if_neg (by omega), h.data_eq, atNewline_of_length (by simp), h.len_eq]
    simp

/-- The scan stops behind a run: at the end of the input, or at another byte. -/
theorem scanWhile_complete {p : Byte → Bool} {run rest : Bytes} {len i : Nat}
    (hrun : ∀ c ∈ run, p c = true) (hle : run.length ≤ len) (hmax : i + run.length ≤ intMax)
    (hstop : run.length = len ∨ ∃ c tail, rest = c :: tail ∧ p c = false) :
    scanWhile p (run ++ rest) len i = .ok (i + run.length) := by
  induction run generalizing len i with
  | nil =>
    rcases hstop with rfl | ⟨c, tail, rfl, hc⟩
    · cases rest <;> rfl
    · cases len with
      | zero => rfl
      | succ len => simp [scanWhile, hc]
  | cons c run ih =>
    rw [List.forall_mem_cons] at hrun
    rw [List.length_cons] at hle hmax hstop ⊢
    cases len with
    | zero => omega
    | succ len =>
      have hrest : run.length = len ∨ ∃ c tail, rest = c :: tail ∧ p c = false := by
        rcases hstop with hall | hother
        · exact .inl (by omega)
        · exact .inr hother
      rw [List.cons_append, scanWhile, if_pos hrun.1, if_neg (by omega),
        ih hrun.2 (by omega) (by omega) hrest, Nat.add_right_comm]
      rfl

theorem scanWhile_sound {p : Byte → Bool} {data : Bytes} {len i j : Nat} (hi : i ≤ intMax)
    (h : scanWhile p data len i = .ok j) : ∃ run rest, data = run ++ rest ∧
      (∀ c ∈ run, p c = true) ∧ run.length ≤ len ∧ j = i + run.length ∧ j ≤ intMax ∧
      (run.length = len ∨ ∃ c tail, rest = c :: tail ∧ p c = false) := by
  fun_induction scanWhile p data len i with
  | case1 data i =>
    cases Except.ok.inj h
    exact ⟨[], data, rfl, by simp, by simp, rfl, hi, .inl rfl⟩
  | case2 => contradiction
  | case3 => contradiction
  | case4 c data len i hc hmax ih =>
    obtain ⟨run, rest, rfl, hrun, hle, hj, hjmax, hstop⟩ := ih (by omega) h
    refine ⟨c :: run, rest, rfl, ?_, ?_, ?_, hjmax, ?_⟩
    · exact List.forall_mem_cons.mpr ⟨hc, hrun⟩
    · exact Nat.succ_le_succ hle
    · rw [List.length_cons]
      omega
    · rcases hstop with hall | hother
      · exact .inl (congrArg (· + 1) hall)
      · exact .inr hother
  | case5 c data len i hc =>
    cases Except.ok.inj h
    exact ⟨[], c :: data, rfl, by simp, by simp, rfl, hi,
      .inr ⟨c, data, rfl, Bool.eq_false_iff.mpr hc⟩⟩

theorem scanWhile_iff {p : Byte → Bool} {data : Bytes} {len i j : Nat} (hi : i ≤ intMax) :
    scanWhile p data len i = .ok j ↔ ∃ run rest, data = run ++ rest ∧
      (∀ c ∈ run, p c = true) ∧ run.length ≤ len ∧ j = i + run.length ∧ j ≤ intMax ∧
      (run.length = len ∨ ∃ c tail, rest = c :: tail ∧ p c = false) := by
  constructor
  · intro h
    exact scanWhile_sound hi h
  · rintro ⟨run, rest, rfl, hrun, hle, rfl, hmax, hstop⟩
    exact scanWhile_complete hrun hle hmax hstop

/-- A run that ends inside the input is taken off it. -/
theorem parseRun_of_consumes {p : Byte → Bool} {str rest : StringRef} {run : Bytes}
    {c : Byte} {tail : Bytes} (h : Consumes str run rest) (hrun : ∀ d ∈ run, p d = true)
    (hrest : rest.data = c :: tail) (hpos : 0 < rest.len) (hc : p c = false)
    (hmax : run.length ≤ intMax) :
    parseRun p str = .ok (⟨run.length, str.data⟩, rest) := by
  have hscan : scanWhile p str.data str.len 0 = .ok run.length :=
    (scanWhile_iff (by simp [intMax])).mpr ⟨run, rest.data, h.data_eq, hrun,
      by rw [h.len_eq]; omega, by simp, hmax, .inr ⟨c, tail, hrest, hc⟩⟩
  unfold parseRun
  rw [hscan, ok_bind, if_pos (by rw [h.len_eq]; omega)]
  simp [h.len_eq, h.data_eq]

/-- If the parser goes on with a byte outside the run, the run was taken off. -/
theorem parseRun_sound {p : Byte → Bool} {str mid rest word : StringRef} {c : Byte}
    {more : Bytes} (h : parseRun p str = .ok (word, mid)) (hnext : Consumes mid (c :: more) rest)
    (hc : p c = false) :
    ∃ run, Consumes str run mid ∧ (∀ d ∈ run, p d = true) ∧ word = ⟨run.length, str.data⟩ ∧
      run.length ≤ intMax := by
  unfold parseRun at h
  obtain ⟨i, hscan, h⟩ := bind_eq_ok.mp h
  obtain ⟨run, tail, hdata, hrun, hle, hi, hmax, hstop⟩ :=
    (scanWhile_iff (by simp [intMax])).mp hscan
  rw [Nat.zero_add] at hi
  subst hi
  split at h
  · rename_i hlt
    obtain ⟨rfl, rfl⟩ := Prod.mk.inj (Except.ok.inj h)
    exact ⟨run, ⟨by simp [hdata], by simp; omega⟩, hrun, rfl, hmax⟩
  · -- the run reaches the end of the input, so the next byte is in it
    rename_i hge
    obtain ⟨rfl, rfl⟩ := Prod.mk.inj (Except.ok.inj h)
    have hlen := hnext.len_eq
    have hhead := hnext.data_eq
    rw [hdata] at hhead
    cases run with
    | nil => simp at hlen hge; omega
    | cons d run =>
      rw [hrun c (by simp [(List.cons.inj hhead).1])] at hc
      contradiction

theorem strncmpEq_true {n : Nat} {p q : Bytes} (hzero : ∀ c ∈ q.take n, c ≠ 0)
    (h : strncmpEq n p q = .ok true) : q.take n <+: p := by
  induction n generalizing p q with
  | zero => simp
  | succ n ih =>
    unfold strncmpEq at h
    obtain ⟨a, ha, h⟩ := bind_eq_ok.mp h
    obtain ⟨b, hb, h⟩ := bind_eq_ok.mp h
    obtain ⟨p, rfl⟩ := readAt_zero_eq_ok ha
    obtain ⟨q, rfl⟩ := readAt_zero_eq_ok hb
    simp only [List.take_succ_cons, List.mem_cons, forall_eq_or_imp] at hzero
    split at h
    · simp at h
    · rename_i hab
      have hab : a = b := not_not.mp hab
      rw [if_neg (by rw [hab]; exact hzero.1)] at h
      rw [List.take_succ_cons, hab, List.cons_prefix_cons]
      exact ⟨rfl, ih hzero.2 h⟩

theorem strLowerCmp_zero {s1 s2 : Bytes} {len : Nat} (hzero : ∀ c ∈ s2.take len, toLower c ≠ 0)
    (h : strLowerCmp s1 s2 len = .ok 0) : (s2.take len).map toLower <+: s1.map toLower := by
  induction len generalizing s1 s2 with
  | zero => simp
  | succ len ih =>
    unfold strLowerCmp at h
    obtain ⟨a, ha, h⟩ := bind_eq_ok.mp h
    obtain ⟨b, hb, h⟩ := bind_eq_ok.mp h
    obtain ⟨s1, rfl⟩ := readAt_zero_eq_ok ha
    obtain ⟨s2, rfl⟩ := readAt_zero_eq_ok hb
    simp only [List.take_succ_cons, List.mem_cons, forall_eq_or_imp] at hzero
    dsimp only at h
    by_cases hab : toLower a = toLower b
    · rw [if_neg (by rw [hab]; simp [hzero.1])] at h
      rw [List.take_succ_cons, List.map_cons, List.map_cons, hab, List.cons_prefix_cons]
      exact ⟨rfl, ih hzero.2 h⟩
    · rw [if_pos (.inl hab), if_neg hab] at h
      split at h <;> simp at h

theorem strLowerCmp_of_match {s1 s2 : Bytes} {len : Nat} (hlen : len ≤ s2.length)
    (h : (s2.take len).map toLower <+: s1.map toLower)
    (hzero : ∀ c ∈ s2.take len, toLower c ≠ 0) : strLowerCmp s1 s2 len = .ok 0 := by
  induction len generalizing s1 s2 with
  | zero => rfl
  | succ len ih =>
    cases s2 with
    | nil => simp at hlen
    | cons b s2 =>
      cases s1 with
      | nil => simp at h
      | cons a s1 =>
        simp only [List.take_succ_cons, List.map_cons, List.cons_prefix_cons, List.mem_cons,
          forall_eq_or_imp] at h hzero
        have hb := hzero.1
        simp only [strLowerCmp, readAt_cons_zero, ok_bind, ← h.1, ne_eq, not_true, hb, or_self,
          if_false, List.tail_cons]
        exact ih (by simpa using hlen) h.2 hzero.2

theorem skipSpaces_complete {str start : StringRef} {n : Nat}
    (h : Consumes str (List.replicate n space) start) (hne : start.data ≠ [])
    (hstart : start.data.head? ≠ some space) : skipSpaces str.data str.len = .ok start := by
  rw [h.data_eq, h.len_eq, List.length_replicate]
  clear h
  induction n with
  | zero =>
    obtain ⟨len, data⟩ := start
    cases data with
    | nil => contradiction
    | cons c rest =>
      have hc : c ≠ space := by simpa using hstart
      cases len <;> simp [skipSpaces, hc]
  | succ n ih =>
    rw [Nat.succ_add, List.replicate_succ, List.cons_append]
    simp only [skipSpaces, if_true]
    exact ih

theorem skipSpaces_sound {data : Bytes} {len : Nat} {rest : StringRef}
    (h : skipSpaces data len = .ok rest) :
    ∃ n, Consumes ⟨len, data⟩ (List.replicate n space) rest ∧
      (rest.len = 0 ∨ rest.data.head? ≠ some space) := by
  induction data generalizing len with
  | nil =>
    cases len with
    | zero =>
      cases Except.ok.inj h
      exact ⟨0, .refl _, .inl rfl⟩
    | succ len => simp [skipSpaces] at h
  | cons c data ih =>
    cases len with
    | zero =>
      cases Except.ok.inj h
      exact ⟨0, .refl _, .inl rfl⟩
    | succ len =>
      unfold skipSpaces at h
      split at h
      · rename_i hc
        obtain ⟨n, hn, hstop⟩ := ih h
        have hdata := hn.data_eq
        have hlen := hn.len_eq
        simp only [List.length_replicate] at hdata hlen
        refine ⟨n + 1, ⟨?_, ?_⟩, hstop⟩
        · simp [hc, hdata, List.replicate_succ]
        · simp [hlen]; omega
      · rename_i hc
        cases Except.ok.inj h
        exact ⟨0, .refl _, .inr (by simpa using hc)⟩

/-- No newline starts at the head of a line that ends at its first newline. -/
theorem not_newline_at_head {c : Byte} {line : Bytes} (hfree : ¬ crlf <:+: c :: line)
    (more : Bytes) :
    ¬ crlf <+: c :: (line ++ (crlf ++ more)) :=
  not_pair_at_head (by decide) hfree more

theorem skipToNewline_complete {str lineEnd rest : StringRef} {line : Bytes}
    (hline : Consumes str line lineEnd) (hcrlf : Consumes lineEnd crlf rest)
    (hfree : ¬ crlf <:+: line) : skipToNewline str.data str.len = .ok lineEnd := by
  rw [hline.data_eq, hline.len_eq]
  have hlen := hcrlf.len_eq
  have hdata := hcrlf.data_eq
  simp only [List.length_cons, List.length_nil] at hlen
  obtain ⟨len, data⟩ := lineEnd
  dsimp only at hlen hdata ⊢
  clear hline hcrlf
  induction line with
  | nil => simp [skipToNewline, atNewline, hdata, show ¬ len ≤ 1 by omega]
  | cons c line ih =>
    have hnot := hdata ▸ not_newline_at_head hfree rest.data
    have htail : ¬ crlf <:+: line := fun h => hfree (h.trans (List.suffix_cons c line).isInfix)
    rw [List.cons_append, skipToNewline, if_neg (by simp; omega),
      atNewline_of_length (by rw [hdata]; simp; omega), ok_bind, if_neg (by simpa using hnot)]
    rw [show (c :: line).length + len - 1 = line.length + len by
      simp only [List.length_cons]; omega]
    exact ih htail

theorem skipToNewline_sound {data : Bytes} {len : Nat} {rest : StringRef}
    (h : skipToNewline data len = .ok rest) :
    ∃ line, Consumes ⟨len, data⟩ line rest ∧ ¬ crlf <:+: line := by
  induction data generalizing len with
  | nil =>
    unfold skipToNewline at h
    split at h
    · cases Except.ok.inj h
      exact ⟨[], .refl _, by simp⟩
    · simp at h
  | cons c data ih =>
    unfold skipToNewline at h
    split at h
    · cases Except.ok.inj h
      exact ⟨[], .refl _, by simp⟩
    · rename_i hlen
      obtain ⟨b, hb, h⟩ := bind_eq_ok.mp h
      split at h
      · cases Except.ok.inj h
        exact ⟨[], .refl _, by simp⟩
      · rename_i hfalse
        obtain ⟨line, hline, hfree⟩ := ih h
        have hdata := hline.data_eq
        have hlen' := hline.len_eq
        simp only at hdata hlen'
        refine ⟨c :: line, ⟨by simp [hdata], by simp; omega⟩, ?_⟩
        rw [List.infix_cons_iff, not_or]
        refine ⟨fun hstart => hfalse ?_, hfree⟩
        rw [atNewline_eq hb, decide_eq_true_eq, hdata]
        exact hstart.trans (List.prefix_append (c :: line) rest.data)

theorem skipLine_complete {str rest : StringRef} (h : Consumes str crlf rest)
    (hrest : 0 < rest.len) : skipLine str.data str.len = .ok rest := by
  obtain ⟨len, data⟩ := rest
  have h1 : decSize (2 + len) = len + 1 := by unfold decSize; split <;> omega
  have h2 : cr ≠ lf := by decide
  have h3 : ¬ len = 0 := by simp only at hrest; omega
  rw [h.data_eq, h.len_eq]
  simp [skipLine, h1, h2, h3]

/-- A line without a successor leaves nothing. -/
theorem skipLine_end {str rest : StringRef} (h : Consumes str crlf rest) (hrest : rest.len = 0) :
    skipLine str.data str.len = .ok ⟨0, lf :: rest.data⟩ := by
  rw [h.data_eq, h.len_eq, hrest]
  simp [skipLine, decSize, show cr ≠ lf by decide]

end Net77.Http
