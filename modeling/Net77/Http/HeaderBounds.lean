import Net77.Http.InputBounds

/-! The two passes of `parseHeaderStruct` stay inside a header that is neither empty nor
longer than their index can count. -/
namespace Net77.Http

open Net77.Base

/-- Where the loops over the header leave it: the bound `len - 1` of an empty header
wraps around, and a header without a blank line goes on for more than an `int` counts. -/
inductive HeaderRunsOut : Bytes → Prop where
  | empty : HeaderRunsOut []
  | long {text : Bytes} (begun : ¬ crlf <+: text)
      (unended : ¬ crlf ++ crlf <:+: text.take (intMax + 1))
      (size : intMax + 1 < text.length ∨ intMax < text.length ∧ crlf <:+ text) :
      HeaderRunsOut text

section Header

/-- The counting loop has `room` before the end of the range of its index. -/
structure Overcounts (room : Nat) (ended : Bool) (text : Bytes) : Prop where
  begun : ended = true → ¬ crlf <+: text.take (room + 1)
  unended : ¬ crlf ++ crlf <:+: text.take (room + 1)
  size : room + 1 < text.length ∨ room < text.length ∧ crlf <:+ text

theorem Overcounts.length_le {room : Nat} {ended : Bool} {text : Bytes}
    (h : Overcounts room ended text) : 2 ≤ text.length := by
  rcases h.size with hsize | ⟨-, hend⟩
  · omega
  · exact hend.length_le

/-- At the last two indices, a newline does not fit any more. -/
theorem overcounts_last {room : Nat} {rest : Bytes} (h : room ≤ 1) :
    Overcounts room false (cr :: lf :: rest) := by
  refine ⟨by simp, ?_, ?_⟩
  · intro hin
    have hlen := hin.length_le
    rw [List.length_take] at hlen
    have h4 : (crlf ++ crlf).length = 4 := rfl
    omega
  · cases rest with
    | nil => exact .inr ⟨Nat.lt_succ_of_le h, List.suffix_refl crlf⟩
    | cons c rest =>
      rw [List.length_cons, List.length_cons, List.length_cons]
      exact .inl (by omega)

/-- At the last index, no other byte fits any more. -/
theorem overcounts_full {ended : Bool} {c d : Byte} {rest : Bytes} :
    Overcounts 0 ended (c :: d :: rest) := by
  refine ⟨?_, ?_, .inl ?_⟩
  · intro _ hstart
    exact absurd hstart.length_le (by rw [List.length_take]; simp)
  · intro hin
    exact absurd hin.length_le (by rw [List.length_take]; simp)
  · rw [List.length_cons, List.length_cons]
    omega

/-- A byte that is not a newline is passed. -/
theorem overcounts_byte {room : Nat} {ended : Bool} {c d : Byte} {rest : Bytes}
    (hcd : ¬ (c = cr ∧ d = lf)) :
    Overcounts (room + 1) ended (c :: d :: rest) ↔ Overcounts room false (d :: rest) := by
  have hfirst : ∀ more, ¬ crlf <+: c :: d :: more := by
    intro more hstart
    rw [List.cons_prefix_cons, List.cons_prefix_cons] at hstart
    exact hcd ⟨hstart.1.symm, hstart.2.1.symm⟩
  have hsplit : crlf ++ crlf <:+: (c :: d :: rest).take (room + 2) ↔
      crlf ++ crlf <:+: (d :: rest).take (room + 1) := by
    rw [List.take_succ_cons, List.infix_cons_iff]
    apply or_iff_right
    intro hstart
    rw [List.take_succ_cons] at hstart
    exact hfirst _ ((List.prefix_append crlf crlf).trans hstart)
  have hend : crlf <:+ c :: d :: rest ↔ crlf <:+ d :: rest := by
    rw [List.suffix_cons_iff]
    apply or_iff_right
    intro hsame
    exact hfirst rest (hsame ▸ List.prefix_refl crlf)
  constructor
  · rintro ⟨-, hunended, hsize⟩
    refine ⟨by simp, fun hin => hunended (hsplit.mpr hin), ?_⟩
    rwa [List.length_cons, hend, Nat.add_lt_add_iff_right, Nat.add_lt_add_iff_right] at hsize
  · rintro ⟨-, hunended, hsize⟩
    refine ⟨fun _ hstart => hfirst rest (hstart.trans (List.take_prefix _ _)),
      fun hin => hunended (hsplit.mp hin), ?_⟩
    rwa [List.length_cons, hend, Nat.add_lt_add_iff_right, Nat.add_lt_add_iff_right]

/-- So is a newline, if the line it ends is not empty. -/
theorem overcounts_newline {room : Nat} {rest : Bytes} :
    Overcounts (room + 2) false (cr :: lf :: rest) ↔ Overcounts room true rest := by
  have hlf : ¬ crlf ++ crlf <+: lf :: rest.take (room + 1) := by
    intro hstart
    exact absurd (List.cons_prefix_cons.mp hstart).1 (by decide)
  have hsplit : crlf ++ crlf <:+: (cr :: lf :: rest).take (room + 3) ↔
      crlf <+: rest.take (room + 1) ∨ crlf ++ crlf <:+: rest.take (room + 1) := by
    rw [List.take_succ_cons, List.take_succ_cons, List.infix_cons_iff, List.infix_cons_iff,
      or_iff_right hlf]
    apply or_congr_left
    rw [List.cons_append, List.cons_append, List.cons_prefix_cons, List.cons_prefix_cons,
      List.nil_append]
    simp
  have hsize : (room + 3 < rest.length + 2 ∨ room + 2 < rest.length + 2 ∧ crlf <:+ cr :: lf :: rest) ↔
      (room + 1 < rest.length ∨ room < rest.length ∧ crlf <:+ rest) := by
    apply or_congr
    · omega
    · rw [Nat.add_lt_add_iff_right]
      apply and_congr_right
      intro hroom
      rw [List.suffix_cons_iff, List.suffix_cons_iff, or_iff_right, or_iff_right]
      · intro hsame
        exact absurd (List.cons.inj hsame).1 (by decide)
      · intro hsame
        rw [← (List.cons.inj (List.cons.inj hsame).2).2] at hroom
        contradiction
  constructor
  · intro h
    obtain ⟨hbegun, hunended⟩ := not_or.mp fun hin => h.unended (hsplit.mpr hin)
    exact ⟨fun _ => hbegun, hunended, hsize.mp h.size⟩
  · intro h
    refine ⟨by simp, fun hin => ?_, hsize.mpr h.size⟩
    rcases hsplit.mp hin with hstart | hin
    · exact h.begun rfl hstart
    · exact h.unended hin

/-- A newline in front of the last index. -/
theorem newline_fits {room : Nat} (h : 0 < room) (text : Bytes) :
    crlf <+: text.take (room + 1) ↔ crlf <+: text := by
  rw [List.prefix_take_iff]
  exact and_iff_left (Nat.succ_le_succ h)

/-- The loop stands at index `i`, and its bound is in step with what is left. -/
theorem countLines_inside_iff {data : Bytes} {todo i count : Nat} {last beginning : Bool}
    (h : todo = data.length - 1) (hi : i ≤ intMax) :
    StaysInside (countLines data todo i count last beginning) ↔
      ¬ Overcounts (intMax - i) (last || beginning) data := by
  fun_induction countLines data todo i count last beginning with
  | case1 data i count last beginning =>
    apply iff_of_true
    · exact staysInside_ok _
    · intro hover
      have hlen : 2 ≤ data.length := hover.length_le
      omega
  | case2 => contradiction
  | case3 => contradiction
  | case4 => contradiction
  | case5 => contradiction
  | case6 c d rest todo count last beginning =>
    rw [Nat.sub_self]
    apply iff_of_false
    · exact not_staysInside_intOverflow
    · intro hin
      exact hin overcounts_full
  | case7 c d rest todo i count last hmax hcd =>
    rw [hcd.1, hcd.2, Bool.or_true]
    apply iff_of_true
    · exact staysInside_ok _
    · intro hover
      exact hover.begun rfl ((newline_fits (by omega) _).mpr ⟨rest, rfl⟩)
  | case8 c d rest todo i count beginning hmax hcd hbeginning =>
    rw [hcd.1, hcd.2, Bool.true_or]
    apply iff_of_true
    · exact staysInside_ok _
    · intro hover
      exact hover.begun rfl ((newline_fits (by omega) _).mpr ⟨rest, rfl⟩)
  | case9 c d rest todo i count last beginning _ hcd hbeginning hlast hmax =>
    rw [Bool.not_eq_true] at hbeginning hlast
    rw [hcd.1, hcd.2, hbeginning, hlast, Bool.false_or]
    apply iff_of_false
    · exact not_staysInside_intOverflow
    · intro hin
      exact hin (overcounts_last (by omega))
  | case10 c d rest todo i count last beginning _ hcd hbeginning hlast hmax ih =>
    rw [Bool.not_eq_true] at hbeginning hlast
    rw [List.length_cons, List.length_cons] at h
    obtain ⟨room, hroom⟩ := Nat.exists_eq_add_of_le (Nat.not_lt.mp hmax)
    rw [ih (by omega) (by omega), hcd.1, hcd.2, hbeginning, hlast, Bool.true_or, Bool.false_or,
      show intMax - i = room + 2 by omega, show intMax - (i + 2) = room by omega,
      overcounts_newline]
  | case11 c d rest todo i count last beginning hmax hcd ih =>
    rw [List.length_cons, List.length_cons] at h
    rw [ih (by rw [List.length_cons]; omega) (by omega),
      show intMax - i = intMax - (i + 1) + 1 by omega, overcounts_byte hcd, Bool.or_false]

/-- A field on a line of its own. -/
theorem parseHeaderField_inside {str rest : StringRef} {content : Bytes} (h : str.Whole)
    (hline : Consumes str (content ++ crlf) rest) (hfree : ¬ crlf <:+: content)
    (hmax : content.length ≤ intMax) : StaysInside (parseHeaderField str) := by
  have hshort : ¬ TooLong isLetter str.data := by
    rw [hline.data_eq, List.append_assoc, List.cons_append]
    exact not_tooLong hmax (by decide)
  unfold parseHeaderField
  apply parseRun_then h hshort
  intro name s1 hword hname _
  apply expectChar_then colon hname
  intro s2 hcolon hvalue
  apply (skipSpaces_inside hvalue).bind
  intro start hspaces
  obtain ⟨line, valueEnd, -, -, -, hread, hcrlf⟩ :=
    headerField_line hword (expectChar_iff.mpr hcolon) hspaces hline hfree
  rw [skipToNewline_complete hread hcrlf line.value_oneLine, ok_bind]
  by_cases hend : rest.len = 0
  · rw [skipLine_end hcrlf hend, ok_bind]
    exact staysInside_status 1
  · rw [skipLine_complete hcrlf (by omega), ok_bind, if_neg hend]
    exact staysInside_ok _

theorem parseHeaderFields_inside {size : Nat} {rest : StringRef} :
    ∀ (contents : List Bytes) (i : Nat) (str : StringRef), str.Whole →
      Consumes str (linesText contents) rest →
      (∀ content ∈ contents, ¬ crlf <:+: content) →
      (linesText contents).length ≤ intMax →
      StaysInside (parseHeaderFields size contents.length i str)
  | [], _, _, _, _, _, _ => staysInside_ok _
  | content :: contents, i, str, h, hstr, hfree, hmax => by
    rw [linesText_cons] at hstr hmax
    rw [List.length_append, List.length_append] at hmax
    obtain ⟨next, hline, hlines⟩ := hstr.split
    have hcontent := hfree content List.mem_cons_self
    rw [List.length_cons, parseHeaderFields, staysInside_bind]
    refine ⟨parseHeaderField_inside h hline hcontent (by omega), ?_⟩
    rintro ⟨field, mid⟩ hfield
    obtain ⟨-, -, rfl, -, -⟩ := parseHeaderField_sound hfield hline hcontent
    dsimp only
    split
    · exact staysInside_arrayOverrun
    · rw [staysInside_bind]
      refine ⟨parseHeaderFields_inside contents (i + 1) mid (hline.whole.mpr h) hlines
        (fun other hother => hfree other (List.mem_cons_of_mem content hother)) (by omega), ?_⟩
      intro fields _
      exact staysInside_ok _

/-- Counted lines, as what the field loop meets. -/
theorem countLines_consumes {str : StringRef} {n : Nat} (h : str.Whole)
    (hcount : countLines str.data (decSize str.len) 0 0 false true = .ok (.lines n)) :
    ∃ (contents : List Bytes) (rest : StringRef), contents.length = n ∧
      Consumes str (linesText contents) rest ∧
      (∀ content ∈ contents, ¬ crlf <:+: content) ∧
      (linesText contents).length ≤ intMax := by
  obtain ⟨contents, tail, ⟨hdata, hfree, -, -, hmax, -⟩, hn⟩ := countLines_sound hcount
  rw [Nat.zero_add] at hn hmax
  refine ⟨contents, ⟨tail.length, tail⟩, hn.symm, ⟨hdata, ?_⟩, hfree, hmax (Nat.zero_le intMax)⟩
  unfold StringRef.Whole at h
  rw [← h, hdata, List.length_append]

theorem parseHeaderStruct_whole {rt : Runtime} {str rest : StringRef} {hs : HttpHeaderStruct}
    (h : str.Whole) (hheader : parseHeaderStruct rt str = .ok (hs, rest)) : rest.Whole := by
  rcases parseHeaderStruct_calls hheader with ⟨-, -, rfl⟩ | ⟨n, hcount, -, hfields, -, -⟩
  · exact h
  · obtain ⟨contents, next, rfl, hcontents, hfree, -⟩ := countLines_consumes h hcount
    obtain ⟨-, -, rfl, -, -⟩ :=
      parseHeaderFields_sound contents 0 str rest hs.fields hfields hcontents hfree
    exact hcontents.whole.mpr h

/-- Once the lines are counted, the field loop stays inside. -/
theorem parseHeaderStruct_counted {rt : Runtime} {str : StringRef} (h : str.Whole) :
    StaysInside (parseHeaderStruct rt str) ↔
      StaysInside (countLines str.data (decSize str.len) 0 0 false true) := by
  unfold parseHeaderStruct
  rw [staysInside_bind]
  apply and_iff_left
  intro found hcount
  cases found with
  | emptyHeader => exact staysInside_ok _
  | lines n =>
    obtain ⟨contents, rest, rfl, hcontents, hfree, hmax⟩ := countLines_consumes h hcount
    have hrest : rest.data.length = rest.len := hcontents.whole.mpr h
    dsimp only
    split
    · rw [staysInside_bind]
      refine ⟨parseHeaderFields_inside contents 0 str h hcontents hfree hmax, ?_⟩
      rintro ⟨fields, mid⟩ hfields
      obtain ⟨-, -, rfl, -, -⟩ :=
        parseHeaderFields_sound contents 0 str mid fields hfields hcontents hfree
      dsimp only
      split
      · exact staysInside_status 1
      · rw [atNewline_of_length (by omega), ok_bind]
        split
        · exact staysInside_ok _
        · exact staysInside_status 1
    · exact staysInside_status 1

theorem parseHeaderStruct_inside_iff (rt : Runtime) {str : StringRef} (h : str.Whole) :
    StaysInside (parseHeaderStruct rt str) ↔ ¬ HeaderRunsOut str.data := by
  rw [parseHeaderStruct_counted h]
  unfold StringRef.Whole at h
  by_cases hlen : str.len = 0
  · have hnil : str.data = [] := List.eq_nil_of_length_eq_zero (h.trans hlen)
    rw [hnil, hlen]
    apply iff_of_false
    · exact not_staysInside_outOfBounds
    · intro hin
      exact hin .empty
  · have htodo : decSize str.len = str.data.length - 1 := by
      rw [decSize, if_neg hlen, h]
    rw [countLines_inside_iff htodo (Nat.zero_le intMax), Nat.sub_zero, not_iff_not]
    constructor
    · rintro ⟨hbegun, hunended, hsize⟩
      rw [newline_fits intMax_pos] at hbegun
      exact .long (hbegun rfl) hunended hsize
    · intro hruns
      cases hdata : str.data with
      | nil =>
        rw [hdata] at h
        exact absurd h.symm hlen
      | cons c rest =>
        rw [hdata] at hruns
        cases hruns with
        | long begun unended size =>
          rw [← newline_fits intMax_pos] at begun
          exact ⟨fun _ => begun, unended, size⟩

end Header

end Net77.Http
