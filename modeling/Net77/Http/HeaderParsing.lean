import Net77.Http.Grammar
import Net77.Http.Scanners

/-! The two passes of `parseHeaderStruct` delimit the same lines. The counting
pass fixes the newlines, which is what makes the field pass stop at them. -/
namespace Net77.Http

open Net77.Base

/-- The text of some header lines. -/
abbrev linesText (lines : List Bytes) : Bytes := joinLines cr lf lines

theorem linesText_cons (line : Bytes) (lines : List Bytes) :
    linesText (line :: lines) = line ++ crlf ++ linesText lines := rfl

theorem countLines_newline (more : Bytes) {m i count : Nat} (hi : i + 2 ≤ intMax) :
    countLines (crlf ++ more) (m + 1) i count false false =
      countLines more (m - 1) (i + 2) (count + 1) true false := by
  simp [countLines, show ¬ intMax < i + 2 by omega, show ¬ i = intMax by omega]

theorem countLines_byte {c : Byte} {rest : Bytes} {todo i count : Nat} {last beginning : Bool}
    (hlen : rest ≠ []) (hnl : ¬ crlf <+: c :: rest) (hi : i < intMax) :
    countLines (c :: rest) (todo + 1) i count last beginning =
      countLines rest todo (i + 1) count false false := by
  cases rest with
  | nil => contradiction
  | cons d rest =>
    have hcd : ¬ (c = cr ∧ d = lf) := by
      rintro ⟨rfl, rfl⟩
      simp at hnl
    rw [countLines, if_neg (by omega), if_neg hcd]

/-- One line of the header adds one to the count. -/
theorem countLines_line {line more : Bytes} {m i count : Nat} {last beginning : Bool}
    (hline : line ≠ []) (hfree : ¬ crlf <:+: line) (hi : i + line.length + 2 ≤ intMax) :
    countLines (line ++ (crlf ++ more)) (line.length + 1 + m) i count last beginning =
      countLines more (m - 1) (i + line.length + 2) (count + 1) true false := by
  induction line generalizing i last beginning with
  | nil => contradiction
  | cons c line ih =>
    rw [List.length_cons] at hi
    have hstep : countLines (c :: line ++ (crlf ++ more)) ((c :: line).length + 1 + m)
        i count last beginning =
        countLines (line ++ (crlf ++ more)) (line.length + 1 + m) (i + 1) count false false := by
      rw [show (c :: line).length + 1 + m = (line.length + 1 + m) + 1 by
        simp only [List.length_cons]; omega]
      exact countLines_byte (by simp) (not_newline_at_head hfree more) (by omega)
    rw [hstep]
    have htail : ¬ crlf <:+: line := fun h => hfree (h.trans (List.suffix_cons c line).isInfix)
    by_cases hnil : line = []
    · subst hnil
      rw [List.nil_append, show ([] : Bytes).length + 1 + m = m + 1 by simp; omega]
      exact countLines_newline more (by simp at hi; omega)
    · rw [ih hnil htail (by omega)]
      congr 1
      simp only [List.length_cons]
      omega

/-- Every line adds one to the count, and the loop stands behind them. -/
theorem countLines_linesText {rest : Bytes} {todo : Nat} :
    ∀ (lines : List Bytes) (i count : Nat) (last beginning : Bool), lines ≠ [] →
      (∀ line ∈ lines, line ≠ []) → (∀ line ∈ lines, ¬ crlf <:+: line) →
      i + (linesText lines).length ≤ intMax →
      countLines (linesText lines ++ rest) ((linesText lines).length + todo - 1) i count last
        beginning = countLines rest (todo - 1) (i + (linesText lines).length)
          (count + lines.length) true false
  | [], _, _, _, _, hne, _, _, _ => absurd rfl hne
  | line :: lines, i, count, last, beginning, _, nonempty, free, hi => by
    rw [List.forall_mem_cons] at nonempty free
    rw [linesText, joinLines_cons, List.length_append, List.length_append] at hi ⊢
    have htwo : [cr, lf].length = 2 := rfl
    have htodo : line.length + ([cr, lf].length + (joinLines cr lf lines).length) + todo - 1 =
        line.length + 1 + ((joinLines cr lf lines).length + todo) := by
      rw [htwo]
      omega
    rw [htodo, List.append_assoc, List.append_assoc,
      countLines_line nonempty.1 free.1 (by omega)]
    cases lines with
    | nil =>
      rw [joinLines_nil, List.length_nil, List.nil_append, Nat.zero_add]
      rfl
    | cons next lines =>
      rw [countLines_linesText (next :: lines) _ _ true false (List.cons_ne_nil next lines)
        nonempty.2 free.2 (by rw [linesText]; omega), List.length_cons (a := line)]
      congr 1
      · rw [linesText]
        omega
      · omega

theorem headerText_eq (lines : List FieldLine) :
    headerText lines = linesText (lines.map FieldLine.content) := by
  rw [linesText, joinLines, List.flatMap_map]
  rfl

/-- The count of the lines before the blank line. -/
theorem countLines_header (body : Bytes) (m : Nat) {lines : List FieldLine} (hne : lines ≠ [])
    (hmax : (headerText lines).length < intMax) :
    countLines (headerText lines ++ (crlf ++ body)) ((headerText lines).length + 1 + m) 0 0
      false true = .ok (.lines lines.length) := by
  have nonempty : ∀ content ∈ lines.map FieldLine.content, content ≠ [] := by
    rw [List.forall_mem_map]
    exact fun line _ => line.content_ne_nil
  have free : ∀ content ∈ lines.map FieldLine.content, ¬ crlf <:+: content := by
    rw [List.forall_mem_map]
    exact fun line _ => line.content_oneLine
  rw [headerText_eq] at hmax ⊢
  have hcount : countLines (linesText (lines.map FieldLine.content) ++ (crlf ++ body))
      ((linesText (lines.map FieldLine.content)).length + (m + 2) - 1) 0 0 false true =
        countLines (crlf ++ body) (m + 2 - 1)
          (0 + (linesText (lines.map FieldLine.content)).length)
          (0 + (lines.map FieldLine.content).length) true false :=
    countLines_linesText _ 0 0 false true (by simpa using hne) nonempty free (by omega)
  rw [show (linesText (lines.map FieldLine.content)).length + 1 + m =
    (linesText (lines.map FieldLine.content)).length + (m + 2) - 1 by omega, hcount,
    Nat.zero_add, Nat.zero_add, List.length_map]
  simp [countLines, hmax.ne]

/-- Lines that contain no newline, each with the newline that ends it, and a rest: what the
counting loop goes over from the index `i`. -/
structure CountedLines (data : Bytes) (todo i : Nat) (contents : List Bytes) (tail : Bytes) :
    Prop where
  text : data = linesText contents ++ tail
  free : ∀ content ∈ contents, ¬ crlf <:+: content
  inside : (linesText contents).length ≤ todo + 1
  none_todo : todo = 0 → contents = []
  indexed : i ≤ intMax → i + (linesText contents).length ≤ intMax
  stopped : i ≤ intMax → (linesText contents).length < todo →
    i + (linesText contents).length < intMax

namespace CountedLines

variable {c d : Byte} {rest content tail : Bytes} {contents : List Bytes} {todo i : Nat}

theorem nil (tail : Bytes) (h : todo ≠ 0 → i ≠ intMax) : CountedLines tail todo i [] tail where
  text := rfl
  free := by simp
  inside := Nat.zero_le _
  none_todo _ := rfl
  indexed hi := hi
  stopped hi htodo := Nat.lt_of_le_of_ne hi (h (Nat.ne_of_gt htodo))

theorem newline (h : CountedLines rest (todo - 1) (i + 2) contents tail) (hi : ¬ intMax < i + 2) :
    CountedLines (crlf ++ rest) (todo + 1) i ([] :: contents) tail := by
  have hlength : (linesText ([] :: contents)).length = (linesText contents).length + 2 := by
    rw [linesText_cons, List.nil_append, List.length_append]
    exact Nat.add_comm 2 _
  constructor
  · rw [h.text, linesText_cons, List.nil_append, List.append_assoc]
  · exact List.forall_mem_cons.mpr ⟨by simp, h.free⟩
  · rw [hlength]
    by_cases htodo : todo = 0
    · rw [h.none_todo (by omega)]
      simp
    · have := h.inside
      omega
  · exact fun hzero => absurd hzero (Nat.succ_ne_zero todo)
  · intro _
    have := h.indexed (by omega)
    omega
  · intro _ hless
    have := h.stopped (by omega) (by omega)
    omega

/-- A byte that does not start a newline belongs to the line behind it. -/
theorem byte (h : CountedLines (d :: rest) todo (i + 1) (content :: contents) tail)
    (hcd : ¬ (c = cr ∧ d = lf)) (hi : ¬ i = intMax) :
    CountedLines (c :: d :: rest) (todo + 1) i ((c :: content) :: contents) tail := by
  have hlength : (linesText ((c :: content) :: contents)).length =
      (linesText (content :: contents)).length + 1 := rfl
  have hfree := List.forall_mem_cons.mp h.free
  constructor
  · rw [h.text]
    rfl
  · refine List.forall_mem_cons.mpr ⟨?_, hfree.2⟩
    rw [List.infix_cons_iff, not_or]
    refine ⟨fun hstart => hcd ?_, hfree.1⟩
    have hwhole : crlf <+: c :: d :: rest := by
      rw [h.text]
      exact hstart.trans (by simp)
    simp only [List.cons_prefix_cons] at hwhole
    exact ⟨hwhole.1.symm, hwhole.2.1.symm⟩
  · have := h.inside
    omega
  · exact fun hzero => absurd hzero (Nat.succ_ne_zero todo)
  · intro _
    have := h.indexed (by omega)
    omega
  · intro _ hless
    have := h.stopped (by omega) (by omega)
    omega

end CountedLines

/-- Counted lines are there: the text splits into that many lines. -/
theorem countLines_sound {data : Bytes} {todo i count n : Nat} {last beginning : Bool}
    (h : countLines data todo i count last beginning = .ok (.lines n)) :
    ∃ contents tail, CountedLines data todo i contents tail ∧ n = count + contents.length := by
  fun_induction countLines data todo i count last beginning with
  | case1 data i count last beginning =>
    cases Except.ok.inj h
    exact ⟨[], data, .nil data fun hzero => absurd rfl hzero, rfl⟩
  | case2 => simp at h
  | case3 => simp at h
  | case4 => simp at h
  | case5 last beginning c todo i count hi hc ih =>
    -- a last byte without a newline behind it starts no further line
    obtain ⟨contents, tail, hlines, hn⟩ := ih h
    obtain ⟨hnil, -⟩ := List.append_eq_nil_iff.mp hlines.text.symm
    cases contents with
    | nil => exact ⟨[], [c], .nil [c] fun _ => hi, hn⟩
    | cons content contents => simp at hnil
  | case6 => simp at h
  | case7 => simp at h
  | case8 c d rest todo i count beginning hi hcd hbeginning =>
    cases Except.ok.inj h
    exact ⟨[], _, .nil _ fun _ => hi, rfl⟩
  | case9 => simp at h
  | case10 c d rest todo i count last beginning _ hcd hbeginning hlast hi ih =>
    obtain ⟨contents, tail, hlines, hn⟩ := ih h
    obtain ⟨rfl, rfl⟩ := hcd
    refine ⟨[] :: contents, tail, hlines.newline hi, ?_⟩
    rw [List.length_cons]
    omega
  | case11 c d rest todo i count last beginning hi hcd ih =>
    obtain ⟨contents, tail, hlines, hn⟩ := ih h
    cases contents with
    | nil => exact ⟨[], _, .nil _ fun _ => hi, hn⟩
    | cons content contents => exact ⟨(c :: content) :: contents, tail, hlines.byte hcd hi, hn⟩

/-- A header field is read off the line that spells it, if anything follows the line. -/
theorem parseHeaderField_line {str rest : StringRef} {line : FieldLine}
    (h : Consumes str line.text rest) (hmax : line.name.length ≤ intMax) :
    ∃ field, field.text = line.pair ∧ parseHeaderField str =
      if rest.len = 0 then .error (.status 1) else .ok (field, rest) := by
  have hsplit : line.text = line.name ++ ([colon] ++ (List.replicate line.padding space ++
      (line.value ++ crlf))) := by simp [FieldLine.text, FieldLine.content]
  rw [hsplit] at h
  obtain ⟨s1, hname, h⟩ := h.split
  obtain ⟨s2, hcolon, h⟩ := h.split
  obtain ⟨start, hspaces, h⟩ := h.split
  obtain ⟨valueEnd, hvalue, hcrlf⟩ := h.split
  have hhead : s1.data = colon :: s2.data := by simpa using hcolon.data_eq
  have hword : parseWord str = .ok (⟨line.name.length, str.data⟩, s1) :=
    parseRun_of_consumes hname line.name_letters hhead
      (by have := hcolon.len_eq; simp at this; omega) colon_not_letter hmax
  have hstart : start.data.head? ≠ some space := by
    rw [h.data_eq]
    have htrimmed := line.value_trimmed
    cases hline : line.value with
    | nil => simp [show cr ≠ space by decide]
    | cons c value => simpa [hline] using htrimmed
  have hne : start.data ≠ [] := by rw [h.data_eq]; simp
  have hlen : start.data.length - valueEnd.data.length = line.value.length := by
    rw [hvalue.data_eq, List.length_append]
    omega
  refine ⟨⟨⟨line.name.length, str.data⟩, ⟨line.value.length, start.data⟩⟩,
    congrArg₂ Prod.mk hname.taken_bytes hvalue.taken_bytes, ?_⟩
  unfold parseHeaderField
  rw [hword, ok_bind]
  dsimp only
  rw [expectChar_iff.mpr hcolon, ok_bind, skipSpaces_complete hspaces hne hstart, ok_bind,
    skipToNewline_complete hvalue hcrlf line.value_oneLine, ok_bind]
  by_cases hend : rest.len = 0
  · rw [skipLine_end hcrlf hend, ok_bind, if_pos rfl, if_pos hend]
  · rw [skipLine_complete hcrlf (by omega), ok_bind, if_neg hend, if_neg hend, hlen]
    rfl

theorem parseHeaderField_complete {str rest : StringRef} {line : FieldLine}
    (h : Consumes str line.text rest) (hrest : 0 < rest.len)
    (hmax : line.name.length ≤ intMax) :
    ∃ field, parseHeaderField str = .ok (field, rest) ∧ field.text = line.pair := by
  obtain ⟨field, htext, hparse⟩ := parseHeaderField_line h hmax
  rw [if_neg (by omega)] at hparse
  exact ⟨field, hparse, htext⟩

/-- If the next newline is known, the scanners of a field stay in front of it. -/
theorem headerField_line {str s1 s2 start rest name : StringRef} {content : Bytes}
    (hword : parseWord str = .ok (name, s1)) (hcolon : expectChar s1 colon = .ok s2)
    (hspaces : skipSpaces s2.data s2.len = .ok start)
    (hline : Consumes str (content ++ crlf) rest) (hfree : ¬ crlf <:+: content) :
    ∃ (line : FieldLine) (valueEnd : StringRef), line.content = content ∧
      Consumes str line.name s1 ∧ name = ⟨line.name.length, str.data⟩ ∧
      Consumes start line.value valueEnd ∧ Consumes valueEnd crlf rest := by
  have hcolon := expectChar_iff.mp hcolon
  obtain ⟨word, hname, hletters, rfl, -⟩ := parseRun_sound hword hcolon colon_not_letter
  obtain ⟨padding, hspaces, hstop⟩ := skipSpaces_sound hspaces
  have hspaces : Consumes s2 (List.replicate padding space) start := hspaces
  -- what was read so far has no carriage return, so it lies inside the line
  have hread : Consumes str (word ++ colon :: List.replicate padding space) start := by
    simpa using (hname.trans hcolon).trans hspaces
  have hnotCr : ∀ c ∈ word ++ colon :: List.replicate padding space, (c != cr) = true := by
    intro c hc
    simp only [List.mem_append, List.mem_cons, List.mem_replicate] at hc
    rcases hc with hc | rfl | ⟨-, rfl⟩
    · simpa using not_newline_of_letter (hletters c hc)
    · decide
    · decide
  obtain ⟨value, hcontent⟩ : word ++ colon :: List.replicate padding space <+: content := by
    apply run_covers hnotCr (s := cr) (u := start.data) (v := lf :: rest.data) (by decide)
    rw [← hread.data_eq, hline.data_eq]
    simp
  have hrest : Consumes start (value ++ crlf) rest := by
    apply hread.cancel
    rwa [← List.append_assoc, hcontent]
  have hvalueFree : ¬ crlf <:+: value := fun hin =>
    hfree (hin.trans ⟨word ++ colon :: List.replicate padding space, [], by simp [← hcontent]⟩)
  obtain ⟨newline, hvalue, hcrlf⟩ := hrest.split
  have htrimmed : value.head? ≠ some space := by
    cases value with
    | nil => simp
    | cons c value =>
      have hdata := hrest.data_eq
      rcases hstop with hzero | hhead
      · have := hrest.len_eq
        rw [hzero, List.length_append, List.length_cons] at this
        omega
      · simpa [hdata] using hhead
  refine ⟨⟨word, padding, value, hletters, htrimmed, hvalueFree⟩, newline, ?_, hname, rfl, hvalue,
    hcrlf⟩
  simpa [FieldLine.content] using hcontent

/-- If the next newline is known, a field can only have been read off a line
that ends there. -/
theorem parseHeaderField_sound {str rest mid : StringRef} {field : HttpHeaderField}
    {content : Bytes} (h : parseHeaderField str = .ok (field, mid))
    (hline : Consumes str (content ++ crlf) rest) (hfree : ¬ crlf <:+: content) :
    ∃ line : FieldLine, line.content = content ∧ mid = rest ∧ field.text = line.pair ∧
      field.Readable := by
  unfold parseHeaderField at h
  obtain ⟨⟨name, s1⟩, hword, h⟩ := bind_eq_ok.mp h
  obtain ⟨s2, hcolon, h⟩ := bind_eq_ok.mp h
  obtain ⟨start, hspaces, h⟩ := bind_eq_ok.mp h
  obtain ⟨valueEnd, hvalueEnd, h⟩ := bind_eq_ok.mp h
  obtain ⟨lineEnd, hlineEnd, h⟩ := bind_eq_ok.mp h
  obtain ⟨line, newline, hcontent, hname, rfl, hvalue, hcrlf⟩ :=
    headerField_line hword hcolon hspaces hline hfree
  have hsame := (skipToNewline_complete hvalue hcrlf line.value_oneLine).symm.trans hvalueEnd
  cases Except.ok.inj hsame
  by_cases hend : rest.len = 0
  · cases Except.ok.inj ((skipLine_end hcrlf hend).symm.trans hlineEnd)
    simp at h
  · cases Except.ok.inj ((skipLine_complete hcrlf (by omega)).symm.trans hlineEnd)
    rw [if_neg hend] at h
    obtain ⟨rfl, rfl⟩ := Prod.mk.inj (Except.ok.inj h)
    have hlen : start.data.length - valueEnd.data.length = line.value.length := by
      rw [hvalue.data_eq, List.length_append]
      omega
    rw [hlen]
    refine ⟨line, hcontent, rfl, ?_, ?_⟩
    · exact congrArg₂ Prod.mk hname.taken_bytes hvalue.taken_bytes
    · exact ⟨hname.taken_readable, hvalue.taken_readable⟩

theorem parseHeaderFields_complete {size : Nat} {rest : StringRef} (hrest : 0 < rest.len) :
    ∀ (lines : List FieldLine) (i : Nat) (str : StringRef),
      Consumes str (headerText lines) rest → (headerText lines).length ≤ intMax →
      sizeofHttpHeaderField * (i + lines.length) ≤ size →
      ∃ fields, parseHeaderFields size lines.length i str = .ok (fields, rest) ∧
        fields.map HttpHeaderField.text = lines.map FieldLine.pair
  | [], i, str, h, _, _ => by
    have hstr : str = rest := (Consumes.refl str).unique h
    exact ⟨[], by rw [hstr]; rfl, rfl⟩
  | line :: lines, i, str, h, hmax, hsize => by
    rw [headerText_cons] at h hmax
    rw [List.length_append] at hmax
    obtain ⟨next, hline, hlines⟩ := h.split
    have hnext : 0 < next.len := by
      rw [hlines.len_eq]
      omega
    have hname : line.name.length ≤ line.text.length := by
      simp only [FieldLine.text, FieldLine.content, List.length_append]
      omega
    obtain ⟨field, hfield, hpair⟩ := parseHeaderField_complete hline hnext (by omega)
    have hsize' : sizeofHttpHeaderField * (i + 1 + lines.length) ≤ size := by
      simpa [Nat.add_assoc, Nat.add_comm 1] using hsize
    obtain ⟨fields, hfields, hpairs⟩ := parseHeaderFields_complete hrest lines (i + 1) next hlines
      (by omega) hsize'
    have hroom : ¬ size < sizeofHttpHeaderField * (i + 1) := by
      simp only [sizeofHttpHeaderField, List.length_cons] at hsize ⊢
      omega
    refine ⟨field :: fields, ?_, by simp [hpair, hpairs]⟩
    rw [List.length_cons, parseHeaderFields, hfield, ok_bind]
    dsimp only
    rw [if_neg hroom, hfields, ok_bind]
    rfl

theorem parseHeaderFields_sound {size : Nat} {rest : StringRef} :
    ∀ (contents : List Bytes) (i : Nat) (str mid : StringRef) (fields : List HttpHeaderField),
      parseHeaderFields size contents.length i str = .ok (fields, mid) →
      Consumes str (linesText contents) rest →
      (∀ content ∈ contents, ¬ crlf <:+: content) →
      ∃ lines : List FieldLine, lines.map FieldLine.content = contents ∧ mid = rest ∧
        fields.map HttpHeaderField.text = lines.map FieldLine.pair ∧
        ∀ field ∈ fields, field.Readable
  | [], i, str, mid, fields, h, hstr, _ => by
    obtain ⟨rfl, rfl⟩ := Prod.mk.inj (Except.ok.inj h)
    exact ⟨[], rfl, (Consumes.refl str).unique hstr, rfl, by simp⟩
  | content :: contents, i, str, mid, fields, h, hstr, hfree => by
    rw [linesText_cons] at hstr
    obtain ⟨next, hline, hlines⟩ := hstr.split
    rw [List.length_cons, parseHeaderFields] at h
    obtain ⟨⟨field, s1⟩, hfield, h⟩ := bind_eq_ok.mp h
    obtain ⟨line, hcontent, rfl, hpair, hreadable⟩ :=
      parseHeaderField_sound hfield hline (hfree content (by simp))
    dsimp only at h
    split at h
    · simp at h
    · obtain ⟨⟨more, s2⟩, hmore, h⟩ := bind_eq_ok.mp h
      obtain ⟨rfl, rfl⟩ := Prod.mk.inj (Except.ok.inj h)
      obtain ⟨lines, hcontents, rfl, hpairs, hmoreReadable⟩ :=
        parseHeaderFields_sound contents (i + 1) s1 s2 more hmore hlines
          (fun c hc => hfree c (List.mem_cons_of_mem content hc))
      exact ⟨line :: lines, by simp [hcontent, hcontents], rfl, by simp [hpair, hpairs],
        List.forall_mem_cons.mpr ⟨hreadable, hmoreReadable⟩⟩

/-- No field is written behind the end of the array. -/
theorem parseHeaderFields_room {size : Nat} :
    ∀ (todo i : Nat) (str : StringRef) {result : List HttpHeaderField × StringRef},
      parseHeaderFields size todo i str = .ok result → todo ≠ 0 →
      sizeofHttpHeaderField * (i + todo) ≤ size
  | 0, _, _, _, _, hne => absurd rfl hne
  | todo + 1, i, str, result, h, _ => by
    rw [parseHeaderFields] at h
    obtain ⟨⟨field, mid⟩, -, h⟩ := bind_eq_ok.mp h
    dsimp only at h
    split at h
    · contradiction
    · rename_i hroom
      obtain ⟨more, hmore, -⟩ := bind_eq_ok.mp h
      cases todo with
      | zero => exact Nat.not_lt.mp hroom
      | succ todo =>
        have hrest := parseHeaderFields_room (todo + 1) (i + 1) mid hmore (Nat.succ_ne_zero todo)
        rwa [Nat.add_assoc, Nat.add_comm 1] at hrest

/-- The counters and the field array of the parser hold a header block of so many fields
and bytes. -/
structure HeaderFits (rt : Runtime) (count bytes : Nat) : Prop where
  counted : bytes < intMax
  allocated : count ≠ 0 → rt.malloc (toSize (headerFieldsSize count)) = true
  room : count ≠ 0 → sizeofHttpHeaderField * count ≤ toSize (headerFieldsSize count)

/-- The array size is the mathematical product while it fits an `int`. -/
theorem headerFieldsSize_eq {count : Nat} (h : sizeofHttpHeaderField * count < 2 ^ 31) :
    toSize (headerFieldsSize count) = sizeofHttpHeaderField * count := by
  unfold headerFieldsSize
  unfold sizeofHttpHeaderField at *
  rw [toInt_of_bounds (by omega) (by omega)]
  rw [show ((count : Int) * (32 : Nat)) = ((32 * count : Nat) : Int) by omega]
  exact toSize_of_bounds (by omega)

/-- A header block in front of a blank line is parsed into its fields. -/
theorem parseHeaderStruct_fits {rt : Runtime} {str rest body : StringRef}
    (lines : List FieldLine) (h : Consumes str (headerText lines) rest)
    (hblank : Consumes rest crlf body)
    (hfits : HeaderFits rt lines.length (headerText lines).length) :
    ∃ hs, parseHeaderStruct rt str = .ok (hs, rest) ∧
      hs.fields.map HttpHeaderField.text = lines.map FieldLine.pair := by
  have hrest : rest.len = body.len + 2 := by
    rw [hblank.len_eq, List.length_cons, List.length_cons, List.length_nil]
    omega
  have hlen : str.len = (headerText lines).length + 1 + body.len + 1 := by
    rw [h.len_eq, hrest]
    omega
  cases lines with
  | nil =>
    have hstr : str = rest := (Consumes.refl str).unique h
    refine ⟨⟨[]⟩, ?_, rfl⟩
    unfold parseHeaderStruct
    rw [hstr, hrest, hblank.data_eq]
    simp [countLines, intMax_pos.ne]
  | cons line lines =>
    have hcount := countLines_header body.data body.len (List.cons_ne_nil line lines) hfits.counted
    have hroom : sizeofHttpHeaderField * (0 + (line :: lines).length) ≤
        toSize (headerFieldsSize (line :: lines).length) := by
      rw [Nat.zero_add]
      exact hfits.room (Nat.succ_ne_zero lines.length)
    obtain ⟨fields, hfields, hpairs⟩ := parseHeaderFields_complete (by omega) (line :: lines) 0 str
      h hfits.counted.le hroom
    have hnewline : atNewline rest.data = .ok true := by
      rw [hblank.data_eq, atNewline_of_length (by simp)]
      simp
    refine ⟨⟨fields⟩, ?_, hpairs⟩
    unfold parseHeaderStruct
    rw [hlen, decSize_succ, h.data_eq, hblank.data_eq, hcount, ok_bind]
    dsimp only
    rw [if_pos (hfits.allocated (Nat.succ_ne_zero lines.length)), hfields, ok_bind]
    dsimp only
    rw [if_neg (by omega), hnewline, ok_bind, if_pos rfl]
    rfl

/-- A block that is small enough fits. -/
theorem parseHeaderStruct_complete (rt : Runtime) {str rest body : StringRef}
    (lines : List FieldLine) (h : Consumes str (headerText lines) rest)
    (hblank : Consumes rest crlf body) (hsmall : str.len < 2 ^ 27)
    (halloc : lines = [] ∨ rt.malloc (sizeofHttpHeaderField * lines.length) = true) :
    ∃ hs, parseHeaderStruct rt str = .ok (hs, rest) ∧
      hs.fields.map HttpHeaderField.text = lines.map FieldLine.pair := by
  have hlength := h.length_le
  have hsize : sizeofHttpHeaderField * lines.length < 2 ^ 31 := by
    have := length_headerText lines
    unfold sizeofHttpHeaderField
    omega
  apply parseHeaderStruct_fits lines h hblank
  constructor
  · unfold intMax
    omega
  · intro hne
    rw [headerFieldsSize_eq hsize]
    exact halloc.resolve_left fun hnil => hne (by rw [hnil]; rfl)
  · intro _
    exact (headerFieldsSize_eq hsize).ge

/-- A field needs a colon. -/
theorem parseHeaderField_nonempty {str : StringRef} {field : HttpHeaderField × StringRef}
    (h : parseHeaderField str = .ok field) : str.len ≠ 0 := by
  intro hzero
  unfold parseHeaderField at h
  obtain ⟨⟨name, s1⟩, hword, h⟩ := bind_eq_ok.mp h
  obtain ⟨s2, hcolon, -⟩ := bind_eq_ok.mp h
  have hcolon := expectChar_iff.mp hcolon
  obtain ⟨word, hname, -⟩ := parseRun_sound hword hcolon colon_not_letter
  have := (hname.trans hcolon).len_eq
  rw [hzero, List.length_append, List.length_cons] at this
  omega

/-- What the field pass takes are the lines that have been counted. The index stops short of
`INT_MAX` where a newline can be behind them. -/
theorem countLines_taken {size n : Nat} {str rest : StringRef} {fields : List HttpHeaderField}
    (hcount : countLines str.data (decSize str.len) 0 0 false true = .ok (.lines n))
    (hfields : parseHeaderFields size n 0 str = .ok (fields, rest)) :
    ∃ (contents : List Bytes) (next : StringRef), contents.length = n ∧
      Consumes str (linesText contents) next ∧
      (∀ content ∈ contents, ¬ crlf <:+: content) ∧
      (1 < next.len → (linesText contents).length < intMax) := by
  obtain ⟨contents, tail, ⟨hdata, hfree, hlen, -, -, hstopped⟩, hn⟩ := countLines_sound hcount
  rw [Nat.zero_add] at hn hstopped
  subst hn
  have hpos : contents = [] ∨ 0 < str.len := by
    by_contra hcon
    obtain ⟨hne, hzero⟩ := not_or.mp hcon
    obtain ⟨content, contents, rfl⟩ := List.exists_cons_of_ne_nil hne
    obtain ⟨_, hfield, -⟩ := bind_eq_ok.mp hfields
    exact parseHeaderField_nonempty hfield (by omega)
  have hfits : (linesText contents).length ≤ str.len := by
    rcases hpos with rfl | hpos
    · simp
    · unfold decSize at hlen
      rw [if_neg (by omega)] at hlen
      omega
  refine ⟨contents, ⟨str.len - (linesText contents).length, tail⟩, rfl,
    ⟨hdata, (Nat.add_sub_of_le hfits).symm⟩, hfree, fun hnext => ?_⟩
  dsimp only at hnext
  apply hstopped (Nat.zero_le intMax)
  rw [decSize, if_neg (by omega)]
  omega

/-- What the calls of `parseHeaderStruct` have done where it succeeds. -/
theorem parseHeaderStruct_calls {rt : Runtime} {str rest : StringRef} {hs : HttpHeaderStruct}
    (h : parseHeaderStruct rt str = .ok (hs, rest)) :
    (countLines str.data (decSize str.len) 0 0 false true = .ok .emptyHeader ∧
      hs.fields = [] ∧ rest = str) ∨
    ∃ count, countLines str.data (decSize str.len) 0 0 false true = .ok (.lines count) ∧
      rt.malloc (toSize (headerFieldsSize count)) = true ∧
      parseHeaderFields (toSize (headerFieldsSize count)) count 0 str = .ok (hs.fields, rest) ∧
      1 < rest.len ∧ atNewline rest.data = .ok true := by
  unfold parseHeaderStruct at h
  obtain ⟨found, hcount, h⟩ := bind_eq_ok.mp h
  cases found with
  | emptyHeader =>
    obtain ⟨rfl, rfl⟩ := Prod.mk.inj (Except.ok.inj h)
    exact .inl ⟨hcount, rfl, rfl⟩
  | lines count =>
    dsimp only at h
    split at h
    · rename_i hmalloc
      obtain ⟨⟨fields, mid⟩, hfields, h⟩ := bind_eq_ok.mp h
      dsimp only at h
      split at h
      · contradiction
      · rename_i hlen
        obtain ⟨newline, hnewline, h⟩ := bind_eq_ok.mp h
        split at h
        · rename_i htrue
          obtain ⟨rfl, rfl⟩ := Prod.mk.inj (Except.ok.inj h)
          exact .inr ⟨count, hcount, hmalloc, hfields, Nat.not_le.mp hlen, htrue ▸ hnewline⟩
        · contradiction
    · contradiction

/-- A parsed header block is the text of its fields. -/
theorem parseHeaderStruct_lines {rt : Runtime} {str rest : StringRef} {hs : HttpHeaderStruct}
    (h : parseHeaderStruct rt str = .ok (hs, rest)) :
    ∃ lines : List FieldLine, Consumes str (headerText lines) rest ∧
      hs.fields.map HttpHeaderField.text = lines.map FieldLine.pair ∧
      (∀ field ∈ hs.fields, field.Readable) ∧
      HeaderFits rt lines.length (headerText lines).length := by
  rcases parseHeaderStruct_calls h with ⟨-, hnil, rfl⟩ | ⟨n, hcount, hmalloc, hfields, hlen, -⟩
  · rw [hnil]
    exact ⟨[], .refl rest, rfl, by simp, intMax_pos, by simp, by simp⟩
  · obtain ⟨contents, next, rfl, hstr, hfree, hmax⟩ := countLines_taken hcount hfields
    obtain ⟨lines, hcontents, rfl, hpairs, hreadable⟩ :=
      parseHeaderFields_sound contents 0 str rest hs.fields hfields hstr hfree
    have hlines : lines.length = contents.length := by rw [← hcontents, List.length_map]
    refine ⟨lines, ?_, hpairs, hreadable, ?_, ?_, ?_⟩
    · rw [headerText_eq, hcontents]
      exact hstr
    · rw [headerText_eq, hcontents]
      exact hmax hlen
    · intro _
      rwa [hlines]
    · intro hne
      rw [hlines] at hne ⊢
      have hroom := parseHeaderFields_room contents.length 0 str hfields hne
      rwa [Nat.zero_add] at hroom

theorem parseHeaderStruct_sound {rt : Runtime} {str rest : StringRef} {hs : HttpHeaderStruct}
    (h : parseHeaderStruct rt str = .ok (hs, rest)) :
    ∃ lines : List FieldLine, Consumes str (headerText lines) rest ∧
      hs.fields.map HttpHeaderField.text = lines.map FieldLine.pair ∧
      (∀ field ∈ hs.fields, field.Readable) ∧
      (lines = [] ∨ rt.malloc (toSize (headerFieldsSize lines.length)) = true) := by
  obtain ⟨lines, hlines, hpairs, hreadable, hfits⟩ := parseHeaderStruct_lines h
  refine ⟨lines, hlines, hpairs, hreadable, ?_⟩
  by_cases hnil : lines = []
  · exact .inl hnil
  · exact .inr (hfits.allocated fun hzero => hnil (List.eq_nil_of_length_eq_zero hzero))

end Net77.Http
