import Net77.Http.MessageParsing

/-! Which inputs the scanners of the parser read on behind. The reference is about all
of its object here, so that a length that wraps around leads to a read outside. -/
namespace Net77.Http

open Net77.Base

/-- A read outside an object, or an index outside the range of its type. -/
def LeavesRange (stop : Stop) : Prop :=
  stop = .fault .outOfBounds ∨ stop = .fault .intOverflow

/-- Nothing outside an object is read, and no index leaves the range of its type. -/
def StaysInside {α : Type} (result : Except Stop α) : Prop := Avoids LeavesRange result

section Results

variable {α β : Type}

theorem staysInside_ok (a : α) : StaysInside (Except.ok a : Except Stop α) := avoids_ok a

theorem staysInside_bind {call : Except Stop α} {next : α → Except Stop β} :
    StaysInside (call >>= next) ↔
      StaysInside call ∧ ∀ a, call = .ok a → StaysInside (next a) := avoids_bind

theorem staysInside_status (code : Int) :
    StaysInside (Except.error (.status code) : Except Stop α) := by
  rintro (h | h) <;> contradiction

theorem staysInside_arrayOverrun :
    StaysInside (Except.error (.fault .arrayOverrun) : Except Stop α) := by
  rintro (h | h) <;> contradiction

theorem not_staysInside_outOfBounds :
    ¬ StaysInside (Except.error (.fault .outOfBounds) : Except Stop α) := fun h => h (.inl rfl)

theorem not_staysInside_intOverflow :
    ¬ StaysInside (Except.error (.fault .intOverflow) : Except Stop α) := fun h => h (.inr rfl)

end Results

/-- The text starts with more bytes of a kind than an `int` counts. -/
def TooLong (p : Byte → Bool) (text : Bytes) : Prop :=
  intMax < text.length ∧ ∀ c ∈ text.take (intMax + 1), p c = true

section Scanners

variable {p : Byte → Bool} {str mid : StringRef}

theorem scanWhile_inside_from {data : Bytes} {len i : Nat} (h : data.length = len)
    (hi : i ≤ intMax) : StaysInside (scanWhile p data len i) ↔
      ¬ (intMax < i + len ∧ ∀ c ∈ data.take (intMax + 1 - i), p c = true) := by
  induction data generalizing len i with
  | nil =>
    subst h
    apply iff_of_true
    · exact staysInside_ok i
    · rintro ⟨hlong, -⟩
      rw [List.length_nil] at hlong
      omega
  | cons c data ih =>
    subst h
    rw [List.length_cons, scanWhile, Nat.succ_sub hi, List.take_succ_cons, List.forall_mem_cons]
    by_cases hc : p c = true
    · rw [if_pos hc]
      by_cases hmax : i = intMax
      · rw [if_pos hmax, hmax, Nat.sub_self, List.take_zero]
        apply iff_of_false
        · exact not_staysInside_intOverflow
        · intro hshort
          exact hshort ⟨by omega, hc, by simp⟩
      · rw [if_neg hmax, ih rfl (by omega), Nat.add_sub_add_right, Nat.add_right_comm,
          Nat.add_assoc, and_iff_right hc]
    · rw [if_neg hc]
      apply iff_of_true
      · exact staysInside_ok i
      · rintro ⟨-, hall, -⟩
        exact hc hall

theorem scanWhile_inside_iff {data : Bytes} {len : Nat} (h : data.length = len) :
    StaysInside (scanWhile p data len 0) ↔ ¬ TooLong p data := by
  rw [scanWhile_inside_from h (Nat.zero_le intMax), Nat.zero_add, Nat.sub_zero, ← h]
  rfl

theorem scanWhile_ok {data : Bytes} {len i : Nat} (h : StaysInside (scanWhile p data len i)) :
    ∃ j, scanWhile p data len i = .ok j := by
  fun_induction scanWhile p data len i with
  | case1 data i => exact ⟨i, rfl⟩
  | case2 => exact absurd h not_staysInside_outOfBounds
  | case3 => exact absurd h not_staysInside_intOverflow
  | case4 c data len i hc hi ih => exact ih h
  | case5 c data len i hc => exact ⟨i, rfl⟩

theorem parseRun_inside_iff (h : str.Whole) :
    StaysInside (parseRun p str) ↔ ¬ TooLong p str.data := by
  unfold parseRun
  rw [staysInside_bind, scanWhile_inside_iff h]
  apply and_iff_left
  intro i _
  split
  · exact staysInside_ok _
  · exact staysInside_ok _

theorem parseRun_ok (h : StaysInside (parseRun p str)) :
    ∃ word mid, parseRun p str = .ok (word, mid) := by
  unfold parseRun at h ⊢
  obtain ⟨i, hscan⟩ := scanWhile_ok (staysInside_bind.mp h).1
  rw [hscan, ok_bind]
  split
  · exact ⟨_, _, rfl⟩
  · exact ⟨_, _, rfl⟩

/-- What the text starts with is short, whatever follows it. -/
theorem run_short {run more : Bytes} (h : ¬ TooLong p (run ++ more))
    (hrun : ∀ c ∈ run, p c = true) : run.length ≤ intMax := by
  by_contra hlong
  apply h
  constructor
  · rw [List.length_append]
    omega
  · intro c hc
    rw [List.take_append_of_le_length (by omega)] at hc
    exact hrun c (List.mem_of_mem_take hc)

/-- A run ends at the first byte of another kind. -/
theorem not_tooLong {run more : Bytes} {c : Byte} (hrun : run.length ≤ intMax)
    (hc : p c = false) : ¬ TooLong p (run ++ c :: more) := by
  rintro ⟨-, hall⟩
  have hmem : c ∈ (run ++ c :: more).take (intMax + 1) := by
    rw [List.take_append, List.mem_append]
    obtain ⟨room, hroom⟩ := Nat.exists_eq_add_of_le hrun
    rw [hroom, Nat.add_assoc, Nat.add_sub_cancel_left, List.take_succ_cons]
    exact .inr List.mem_cons_self
  rw [hall c hmem] at hc
  contradiction

/-- A run is at the start of the input, and what is left is its end. -/
theorem parseRun_whole {word : StringRef} (h : str.Whole)
    (hrun : parseRun p str = .ok (word, mid)) :
    mid.Whole ∧ word.data = str.data ∧ word.len ≤ str.data.length := by
  unfold StringRef.Whole at h ⊢
  unfold parseRun at hrun
  obtain ⟨i, -, hrun⟩ := bind_eq_ok.mp hrun
  split at hrun
  · obtain ⟨rfl, rfl⟩ := Prod.mk.inj (Except.ok.inj hrun)
    refine ⟨?_, rfl, ?_⟩
    · rw [List.length_drop, h]
    · rw [h]
      dsimp only
      omega
  · obtain ⟨rfl, rfl⟩ := Prod.mk.inj (Except.ok.inj hrun)
    exact ⟨h, rfl, h.ge⟩

theorem readAt_inside {data : Bytes} {i : Nat} (h : i < data.length) :
    readAt data i = .ok data[i] := by
  unfold readAt
  rw [List.getElem?_eq_getElem h]

theorem expectChar_inside (c : Byte) (h : str.Whole) : StaysInside (expectChar str c) := by
  unfold StringRef.Whole at h
  unfold expectChar
  split
  · exact staysInside_status 1
  · rw [readAt_inside (by omega), ok_bind]
    split
    · exact staysInside_status 1
    · exact staysInside_ok _

theorem expectChar_whole {c : Byte} (h : str.Whole) (hchar : expectChar str c = .ok mid) :
    mid.Whole := (expectChar_iff.mp hchar).whole.mpr h

theorem expectNewline_inside (h : str.Whole) : StaysInside (expectNewline str) := by
  unfold StringRef.Whole at h
  unfold expectNewline
  split
  · exact staysInside_status 1
  · rw [atNewline_of_length (by omega), ok_bind]
    split
    · exact staysInside_ok _
    · exact staysInside_status 1

theorem parseURL_inside_iff (h : str.Whole) :
    StaysInside (parseURL str) ↔ ¬ TooLong (· ≠ space) str.data := by
  unfold parseURL
  rw [staysInside_bind, scanWhile_inside_iff h]
  apply and_iff_left
  intro i _
  split
  · exact staysInside_status 1
  · exact staysInside_ok _

theorem skipSpaces_inside {data : Bytes} {len : Nat} (h : data.length = len) :
    StaysInside (skipSpaces data len) := by
  induction data generalizing len with
  | nil =>
    subst h
    exact staysInside_ok _
  | cons c data ih =>
    subst h
    rw [List.length_cons, skipSpaces]
    split
    · exact ih rfl
    · exact staysInside_ok _

theorem skipToNewline_inside {data : Bytes} {len : Nat} (h : data.length = len) :
    StaysInside (skipToNewline data len) := by
  induction data generalizing len with
  | nil =>
    subst h
    exact staysInside_ok _
  | cons c data ih =>
    subst h
    rw [skipToNewline]
    split
    · exact staysInside_ok _
    · rename_i hlen
      rw [atNewline_of_length (by omega), ok_bind]
      split
      · exact staysInside_ok _
      · exact ih rfl

section Rules

variable {α : Type}

/-- A call that stays inside is followed by what stays inside wherever it leads. -/
theorem StaysInside.bind {β : Type} {call : Except Stop α} {next : α → Except Stop β}
    (h : StaysInside call) (hnext : ∀ a, call = .ok a → StaysInside (next a)) :
    StaysInside (call >>= next) := staysInside_bind.mpr ⟨h, hnext⟩

theorem parseRun_then {next : StringRef × StringRef → Except Stop α} (h : str.Whole)
    (hshort : ¬ TooLong p str.data)
    (hnext : ∀ word mid, parseRun p str = .ok (word, mid) → mid.Whole →
      word.len ≤ word.data.length → StaysInside (next (word, mid))) :
    StaysInside (parseRun p str >>= next) := by
  apply ((parseRun_inside_iff h).mpr hshort).bind
  rintro ⟨word, mid⟩ hrun
  obtain ⟨hmid, hdata, hlen⟩ := parseRun_whole h hrun
  rw [← hdata] at hlen
  exact hnext word mid hrun hmid hlen

theorem expectChar_then {next : StringRef → Except Stop α} (c : Byte) (h : str.Whole)
    (hnext : ∀ mid, Consumes str [c] mid → mid.Whole → StaysInside (next mid)) :
    StaysInside (expectChar str c >>= next) := by
  apply (expectChar_inside c h).bind
  intro mid hchar
  exact hnext mid (expectChar_iff.mp hchar) (expectChar_whole h hchar)

theorem expectNewline_last {result : StringRef → α} (h : str.Whole) :
    StaysInside (do
      let mid ← expectNewline str
      pure (result mid)) := by
  apply (expectNewline_inside h).bind
  intro mid _
  exact staysInside_ok _

end Rules

end Scanners

/-- The text is the start of a word and ends inside it. -/
def EndsInside (text word : Bytes) : Prop := text <+: word ∧ text.length < word.length

instance (text word : Bytes) : Decidable (EndsInside text word) :=
  inferInstanceAs (Decidable (text <+: word ∧ text.length < word.length))

section Keywords

theorem endsInside_nil (text : Bytes) : ¬ EndsInside text [] := by
  rintro ⟨-, hlen⟩
  exact Nat.not_lt_zero _ hlen

theorem nil_endsInside (b : Byte) (word : Bytes) : EndsInside [] (b :: word) :=
  ⟨List.nil_prefix, Nat.zero_lt_succ _⟩

theorem endsInside_cons {a b : Byte} {text word : Bytes} :
    EndsInside (a :: text) (b :: word) ↔ a = b ∧ EndsInside text word := by
  unfold EndsInside
  rw [List.cons_prefix_cons, List.length_cons, List.length_cons, Nat.add_lt_add_iff_right, and_assoc]

/-- The comparison reads outside if the text ends inside the literal. -/
theorem strncmpEq_eq {n : Nat} {p q : Bytes} (hlen : n ≤ q.length)
    (hzero : ∀ c ∈ q.take n, c ≠ 0) :
    strncmpEq n p q = if EndsInside p (q.take n) then .error (.fault .outOfBounds)
      else .ok (decide (q.take n <+: p)) := by
  induction n generalizing p q with
  | zero =>
    rw [List.take_zero, if_neg (endsInside_nil p)]
    simp [strncmpEq]
  | succ n ih =>
    cases q with
    | nil => simp at hlen
    | cons b q =>
      rw [List.take_succ_cons] at hzero ⊢
      cases p with
      | nil =>
        rw [if_pos (nil_endsInside b _)]
        rfl
      | cons a p =>
        rw [strncmpEq, readAt_cons_zero, ok_bind, readAt_cons_zero, ok_bind]
        by_cases hab : a = b
        · subst hab
          have hrest := ih (p := p) (by simpa using hlen)
            fun c hc => hzero c (List.mem_cons_of_mem a hc)
          rw [if_neg (by simp), if_neg (hzero a List.mem_cons_self), List.tail_cons,
            List.tail_cons, hrest]
          simp [endsInside_cons]
        · rw [if_pos hab]
          simp [endsInside_cons, hab, Ne.symm hab]

/-- Words none of which starts another one. -/
theorem matchMethod_inside_iff {data : Bytes} {table : List (Bytes × HttpMethod)}
    (hzero : ∀ entry ∈ table, ∀ c ∈ entry.1, c ≠ 0)
    (hfree : ∀ entry ∈ table, ∀ other ∈ table, entry.1 <+: other.1 → entry.1 = other.1) :
    StaysInside (matchMethod data table) ↔ ∀ entry ∈ table, ¬ EndsInside data entry.1 := by
  induction table with
  | nil =>
    apply iff_of_true
    · exact staysInside_status 1
    · intro entry hentry
      contradiction
  | cons first table ih =>
    obtain ⟨literal, method⟩ := first
    have hrest := ih (fun entry hentry => hzero entry (List.mem_cons_of_mem _ hentry))
      fun entry hentry other hother =>
        hfree entry (List.mem_cons_of_mem _ hentry) other (List.mem_cons_of_mem _ hother)
    have hcompare : strEqLiteral data literal =
        if EndsInside data literal then .error (.fault .outOfBounds)
        else .ok (decide (literal <+: data)) := by
      have heq := strncmpEq_eq (p := data) le_rfl (by
        rw [List.take_length]
        exact hzero (literal, method) List.mem_cons_self)
      rwa [List.take_length] at heq
    rw [List.forall_mem_cons, matchMethod, hcompare]
    by_cases hends : EndsInside data literal
    · rw [if_pos hends]
      apply iff_of_false
      · exact not_staysInside_outOfBounds
      · intro hnone
        exact hnone.1 hends
    · rw [if_neg hends, ok_bind]
      by_cases hmatch : literal <+: data
      · rw [if_pos (decide_eq_true hmatch)]
        refine iff_of_true (staysInside_ok method) ⟨hends, ?_⟩
        rintro other hother ⟨hcut, hshort⟩
        have hsame := hfree (literal, method) List.mem_cons_self other
          (List.mem_cons_of_mem _ hother) (hmatch.trans hcut)
        have hle := hmatch.length_le
        rw [← hsame] at hshort
        exact absurd hle (Nat.not_le.mpr hshort)
      · rw [if_neg (by simpa using hmatch), hrest]
        exact (and_iff_right hends).symm

theorem methodLiterals_inside {data : Bytes} : StaysInside (matchMethod data methodLiterals) ↔
    ∀ method : HttpMethod, ¬ EndsInside data method.name := by
  rw [matchMethod_inside_iff (by decide) (by decide)]
  constructor
  · intro h method
    have hmem : (method.name, method) ∈ methodLiterals := by cases method <;> decide
    exact h (method.name, method) hmem
  · intro h entry hentry
    rw [methodLiterals_name entry hentry]
    exact h entry.2

/-- The same for letters of any case. -/
theorem strLowerCmp_eq {s1 s2 : Bytes} {len : Nat} (hlen : len ≤ s2.length)
    (hzero : ∀ c ∈ s2.take len, toLower c ≠ 0) :
    (do let order ← strLowerCmp s1 s2 len
        pure (order == 0)) =
      if EndsInside (s1.map toLower) ((s2.take len).map toLower) then
        .error (.fault .outOfBounds)
      else .ok (decide ((s2.take len).map toLower <+: s1.map toLower)) := by
  induction len generalizing s1 s2 with
  | zero =>
    rw [List.take_zero, List.map_nil, if_neg (endsInside_nil _)]
    simp [strLowerCmp]
  | succ len ih =>
    cases s2 with
    | nil => simp at hlen
    | cons b s2 =>
      rw [List.take_succ_cons] at hzero ⊢
      cases s1 with
      | nil =>
        rw [List.map_nil, List.map_cons, if_pos (nil_endsInside _ _)]
        rfl
      | cons a s1 =>
        rw [strLowerCmp, readAt_cons_zero, ok_bind, readAt_cons_zero, ok_bind]
        dsimp only
        by_cases hab : toLower a = toLower b
        · have hb := hzero b List.mem_cons_self
          have hless : len ≤ s2.length := by simpa using hlen
          rw [hab, if_neg (by simp [hb]), List.tail_cons, List.tail_cons,
            ih hless fun c hc => hzero c (List.mem_cons_of_mem b hc)]
          simp [endsInside_cons, hab]
        · rw [if_pos (.inl hab), if_neg hab]
          simp only [List.map_cons, endsInside_cons, hab, false_and, if_false]
          split <;> simp [Ne.symm hab]

theorem strLowerEqLiteral_eq (data : Bytes) : strLowerEqLiteral data httpLiteral =
    if EndsInside (data.map toLower) httpLiteral then .error (.fault .outOfBounds)
    else .ok (decide (httpLiteral <+: data.map toLower)) :=
  strLowerCmp_eq le_rfl (by decide)

end Keywords

end Net77.Http
