import Net77.Http.HeaderParsing

/-! The two passes of `parseHeaderStruct` on any input: what the first one counts, what
the second one does with the lines, and what the result says about the text. -/
namespace Net77.Http

open Net77.Base

/-- The lines that the counting loop counts. -/
def headerLines (text : Bytes) : List Bytes := headLines cr lf text

/-- Letters, a colon, and anything. -/
def FieldForm (line : Bytes) : Prop :=
  ∃ letters more, line = letters ++ colon :: more ∧ ∀ c ∈ letters, isLetter c = true

/-- The letters in front of the first colon, and what is behind it and its blanks. -/
def fieldOf (line : Bytes) : Bytes × Bytes :=
  (line.takeWhile isLetter, ((line.dropWhile isLetter).drop 1).dropWhile (· = space))

/-- A text whose header block has the given lines and is followed by a blank line at the
given place. -/
inductive HeaderBlock (text : Bytes) : List Bytes → Nat → Prop where
  | empty (begun : crlf <+: text) : HeaderBlock text [] 0
  | fields {front : Nat} (begun : ¬ crlf <+: text)
      (first : firstOccurrence (crlf ++ crlf) text = some front)
      (form : ∀ line ∈ pieces cr lf (text.take front), FieldForm line) :
      HeaderBlock text (pieces cr lf (text.take front)) (front + 2)

theorem cr_ne_lf : cr ≠ lf := by decide

section Counting

theorem countLines_zero (data : Bytes) (i count : Nat) (last beginning : Bool) :
    countLines data 0 i count last beginning = .ok (.lines count) := by
  rw [countLines]
  rfl

theorem countLines_free {text extra : Bytes} {i count : Nat} {last beginning : Bool}
    (free : ¬ crlf <:+: text) (hi : i + text.length ≤ intMax) :
    countLines (text ++ extra) (text.length - 1) i count last beginning = .ok (.lines count) := by
  induction text generalizing i last beginning with
  | nil => exact countLines_zero _ i count last beginning
  | cons c text ih =>
    cases text with
    | nil => exact countLines_zero _ i count last beginning
    | cons d text =>
      have hnot : ¬ crlf <+: c :: (d :: text ++ extra) := by
        intro hstart
        rw [List.cons_append, List.cons_prefix_cons, List.cons_prefix_cons] at hstart
        exact free ⟨[], text, by rw [← hstart.1, ← hstart.2.1]; rfl⟩
      rw [List.length_cons] at hi
      have hnext := @ih (i + 1) false false (free_tail free) (by omega)
      rw [List.length_cons, Nat.add_sub_cancel] at hnext
      rw [List.cons_append, List.length_cons, List.length_cons, Nat.add_sub_cancel,
        countLines_byte (by simp) hnot (by omega)]
      exact hnext

/-- What the counting loop finds in a text that an `int` can index. -/
theorem countLines_text {text : Bytes} (extra : Bytes) (hne : text ≠ [])
    (hmax : text.length ≤ intMax) :
    countLines (text ++ extra) (text.length - 1) 0 0 false true =
      .ok (if crlf <+: text then .emptyHeader else .lines (headerLines text).length) := by
  obtain ⟨rest, htext, hrest⟩ := headLines_split (a := cr) (b := lf) text
  have nonempty := headLines_nonempty (a := cr) (b := lf) text
  have free := headLines_free (a := cr) (b := lf) text
  unfold headerLines
  generalize headLines cr lf text = lines at htext nonempty free ⊢
  subst htext
  rw [List.length_append] at hmax ⊢
  cases lines with
  | nil =>
    rw [joinLines_nil, List.nil_append, List.length_nil, Nat.zero_add] at *
    rcases hrest with ⟨body, rfl⟩ | hfree
    · rw [if_pos ⟨body, rfl⟩]
      simp [countLines, intMax_pos.ne]
    · rw [if_neg fun hstart => hfree hstart.isInfix, countLines_free hfree (by omega),
        List.length_nil]
  | cons line lines =>
    have hnot : ¬ crlf <+: joinLines cr lf (line :: lines) ++ rest := by
      obtain ⟨c, back, rfl⟩ := List.exists_cons_of_ne_nil (nonempty line List.mem_cons_self)
      rw [joinLines_cons, List.append_assoc, List.append_assoc]
      exact not_pair_at_head cr_ne_lf (free (c :: back) List.mem_cons_self) _
    rw [if_neg hnot, List.append_assoc, countLines_linesText (line :: lines) 0 0 false true
      (List.cons_ne_nil line lines) nonempty free (by rw [linesText]; omega), Nat.zero_add,
      Nat.zero_add]
    rcases hrest with ⟨body, rfl⟩ | hfree
    · have hlast : (linesText (line :: lines)).length ≠ intMax := by
        rw [List.length_append] at hmax
        have htwo : [cr, lf].length = 2 := rfl
        rw [linesText]
        omega
      rw [show [cr, lf] ++ body ++ extra = cr :: lf :: (body ++ extra) from rfl,
        show ([cr, lf] ++ body).length - 1 = body.length + 1 by simp, countLines, if_neg hlast]
      rfl
    · exact countLines_free hfree (by rw [linesText]; omega)

end Counting

section Fields

variable {str rest : StringRef}

theorem fieldOf_form {letters more : Bytes} (hletters : ∀ c ∈ letters, isLetter c = true) :
    fieldOf (letters ++ colon :: more) = (letters, more.dropWhile (· = space)) := by
  unfold fieldOf
  rw [takeWhile_run hletters colon_not_letter, dropWhile_run hletters colon_not_letter]
  rfl

theorem FieldLine.form (line : FieldLine) :
    FieldForm line.content ∧ fieldOf line.content = line.pair := by
  refine ⟨⟨line.name, _, rfl, line.name_letters⟩, ?_⟩
  rw [FieldLine.content, fieldOf_form line.name_letters,
    List.dropWhile_append_of_pos fun c hc => by simp [List.eq_of_mem_replicate hc]]
  have htrimmed := line.value_trimmed
  unfold FieldLine.pair
  congr 1
  cases hvalue : line.value with
  | nil => rfl
  | cons c value =>
    apply List.dropWhile_cons_of_neg
    simpa [hvalue] using htrimmed

/-- A line of the form that the parser accepts is a header line. -/
theorem FieldForm.exists_line {content : Bytes} (h : FieldForm content)
    (free : ¬ crlf <:+: content) :
    ∃ line : FieldLine, line.content = content ∧ line.pair = fieldOf content := by
  obtain ⟨letters, more, rfl, hletters⟩ := h
  have hsplit := List.takeWhile_append_dropWhile (p := fun c => decide (c = space)) (l := more)
  have hblanks : more.takeWhile (· = space) =
      List.replicate (more.takeWhile (· = space)).length space := by
    apply List.eq_replicate_of_mem
    intro c hc
    simpa using List.mem_takeWhile_imp hc
  have htrimmed : (more.dropWhile (· = space)).head? ≠ some space := by
    cases hvalue : more.dropWhile (· = space) with
    | nil => simp
    | cons c value =>
      have hhead := List.head_dropWhile_not (fun c => decide (c = space))
        (by rw [hvalue]; exact List.cons_ne_nil c value)
      simp only [hvalue, List.head_cons] at hhead
      simpa using hhead
  have honeLine : ¬ crlf <:+: more.dropWhile (· = space) := fun hin =>
    free (hin.trans ((List.dropWhile_suffix _).trans ⟨letters ++ [colon], by simp⟩).isInfix)
  refine ⟨⟨letters, (more.takeWhile (· = space)).length, more.dropWhile (· = space), hletters,
    htrimmed, honeLine⟩, ?_, (fieldOf_form hletters).symm⟩
  rw [FieldLine.content, ← hblanks, hsplit]

theorem expectChar_reject {c d : Byte} {tail : Bytes} (hdata : str.data = d :: tail)
    (hdc : d ≠ c) : expectChar str c = .error (.status 1) := by
  unfold expectChar
  split
  · rfl
  · rw [hdata, readAt_cons_zero, ok_bind, if_pos hdc]

/-- Any other line is rejected. -/
theorem parseHeaderField_reject {content : Bytes} (h : Consumes str (content ++ crlf) rest)
    (hmax : content.length ≤ intMax) (hform : ¬ FieldForm content) :
    parseHeaderField str = .error (.status 1) := by
  obtain ⟨word, back, rfl, hword, hback⟩ := exists_run isLetter content
  rw [List.length_append] at hmax
  -- the line ends behind its letters, or goes on with neither a letter nor a colon
  obtain ⟨c, tail, hnext, hc, hne⟩ : ∃ c tail, back ++ crlf = c :: tail ∧ isLetter c = false ∧
      c ≠ colon := by
    cases back with
    | nil => exact ⟨cr, [lf], rfl, by decide, by decide⟩
    | cons c back =>
      refine ⟨c, back ++ crlf, rfl, hback c back rfl, ?_⟩
      rintro rfl
      exact hform ⟨word, back, rfl, hword⟩
  rw [List.append_assoc, hnext] at h
  obtain ⟨mid, hname, hmid⟩ := h.split
  have hrun : parseWord str = .ok (⟨word.length, str.data⟩, mid) :=
    parseRun_of_consumes hname hword hmid.data_eq hmid.len_pos hc (by omega)
  unfold parseHeaderField
  rw [hrun, ok_bind]
  dsimp only
  rw [expectChar_reject hmid.data_eq hne]
  rfl

/-- The field loop takes all the lines, or rejects one of them. -/
theorem parseHeaderFields_returns {size : Nat} :
    ∀ (lines : List Bytes) (i : Nat) (str : StringRef), Consumes str (linesText lines) rest →
      (∀ line ∈ lines, ¬ crlf <:+: line) → (linesText lines).length ≤ intMax →
      sizeofHttpHeaderField * (i + lines.length) ≤ size →
      (∃ fields, parseHeaderFields size lines.length i str = .ok (fields, rest)) ∨
        parseHeaderFields size lines.length i str = .error (.status 1)
  | [], _, str, h, _, _, _ => .inl ⟨[], by rw [(Consumes.refl str).unique h]; rfl⟩
  | content :: lines, i, str, h, free, hmax, hsize => by
    rw [List.forall_mem_cons] at free
    rw [linesText, joinLines_cons, List.length_append, List.length_append] at hmax
    rw [linesText, joinLines_cons, ← List.append_assoc] at h
    obtain ⟨next, hline, hlines⟩ := h.split
    rw [List.length_cons, parseHeaderFields]
    by_cases hform : FieldForm content
    · obtain ⟨line, hcontent, -⟩ := hform.exists_line free.1
      have hname : line.name.length ≤ content.length := by
        rw [← hcontent, FieldLine.content, List.length_append]
        omega
      rw [← hcontent] at hline
      obtain ⟨field, -, hfield⟩ := parseHeaderField_line hline (by omega)
      rw [hfield]
      by_cases hend : next.len = 0
      · rw [if_pos hend]
        exact .inr rfl
      · have hroom : ¬ size < sizeofHttpHeaderField * (i + 1) := by
          simp only [sizeofHttpHeaderField, List.length_cons] at hsize ⊢
          omega
        have hsize' : sizeofHttpHeaderField * (i + 1 + lines.length) ≤ size := by
          simpa [Nat.add_assoc, Nat.add_comm 1] using hsize
        rw [if_neg hend, ok_bind]
        dsimp only
        rw [if_neg hroom]
        rcases parseHeaderFields_returns lines (i + 1) next hlines free.2
          (by rw [linesText]; omega) hsize' with ⟨fields, hfields⟩ | hreject
        · exact .inl ⟨field :: fields, by rw [hfields]; rfl⟩
        · exact .inr (by rw [hreject]; rfl)
    · rw [parseHeaderField_reject hline (by omega) hform]
      exact .inr rfl

end Fields

section Struct

variable {rt : Runtime} {str rest : StringRef} {hs : HttpHeaderStruct}

theorem countLines_emptyHeader {data : Bytes} {todo i count : Nat} {last beginning : Bool}
    (h : countLines data todo i count last beginning = .ok .emptyHeader) :
    beginning = true ∧ crlf <+: data ∧ 0 < todo := by
  fun_induction countLines data todo i count last beginning with
  | case1 => simp at h
  | case2 => simp at h
  | case3 => simp at h
  | case4 => simp at h
  | case5 last beginning c todo i count hi hc ih => simpa using (ih h).1
  | case6 => simp at h
  | case7 c d rest todo i count last hi hcd =>
    exact ⟨rfl, by rw [hcd.1, hcd.2]; exact ⟨rest, rfl⟩, Nat.succ_pos todo⟩
  | case8 => simp at h
  | case9 => simp at h
  | case10 c d rest todo i count last beginning _ hcd hbeginning hlast hi ih =>
    simpa using (ih h).1
  | case11 c d rest todo i count last beginning hi hcd ih => simpa using (ih h).1

/-- The final test of the header is the test that the callers make next. -/
theorem parseHeaderStruct_blank (hne : str.len ≠ 0)
    (h : parseHeaderStruct rt str = .ok (hs, rest)) : ∃ body, Consumes rest crlf body := by
  rcases parseHeaderStruct_calls h with ⟨hcount, -, rfl⟩ | ⟨n, -, -, -, hlen, hnewline⟩
  · obtain ⟨-, ⟨body, hbody⟩, htodo⟩ := countLines_emptyHeader hcount
    unfold decSize at htodo
    rw [if_neg hne] at htodo
    exact ⟨⟨rest.len - 2, body⟩, hbody.symm, by simp; omega⟩
  · obtain ⟨body, hbody⟩ := of_decide_eq_true (atNewline_eq hnewline).symm
    exact ⟨⟨rest.len - 2, body⟩, hbody.symm, by simp; omega⟩

/-- With memory for its array, the parser returns. -/
theorem parseHeaderStruct_returns (halloc : rt.AllocSucceeds) (hread : str.Readable)
    (hne : str.len ≠ 0) (hsmall : str.len < 2 ^ 27) :
    (∃ result, parseHeaderStruct rt str = .ok result) ∨
      parseHeaderStruct rt str = .error (.status 1) := by
  have hlength := StringRef.length_bytes hread
  have hdata : str.data = str.bytes ++ str.data.drop str.len :=
    (List.take_append_drop str.len str.data).symm
  have hbytes : str.bytes ≠ [] := fun hnil => hne (by rw [← hlength, hnil]; rfl)
  have hcount := countLines_text (str.data.drop str.len) hbytes (by unfold intMax; omega)
  rw [← hdata, hlength] at hcount
  obtain ⟨tail, htext, -⟩ := headLines_split (a := cr) (b := lf) str.bytes
  have free := headLines_free (a := cr) (b := lf) str.bytes
  have hroom := length_joinLines (a := cr) (b := lf)
    (headLines_nonempty (a := cr) (b := lf) str.bytes)
  have hfits := congrArg List.length htext
  rw [hlength, List.length_append] at hfits
  obtain ⟨rest, hlines, -, hrest⟩ := Consumes.of_bytes hread htext
  have htotal : sizeofHttpHeaderField * (headerLines str.bytes).length < 2 ^ 31 := by
    unfold headerLines sizeofHttpHeaderField
    omega
  unfold parseHeaderStruct
  rw [decSize, if_neg hne, hcount, ok_bind]
  by_cases hbegun : crlf <+: str.bytes
  · rw [if_pos hbegun]
    exact .inl ⟨_, rfl⟩
  · rw [if_neg hbegun]
    dsimp only
    rw [headerFieldsSize_eq htotal, if_pos (halloc _ htotal)]
    have hmax : (linesText (headerLines str.bytes)).length ≤ intMax := by
      unfold headerLines linesText intMax
      omega
    rcases parseHeaderFields_returns (headerLines str.bytes) 0 str hlines free hmax
      (by rw [Nat.zero_add]) with ⟨fields, hfields⟩ | hreject
    · rw [hfields, ok_bind]
      dsimp only
      split
      · exact .inr rfl
      · rename_i hlen
        have hlong : 2 ≤ rest.data.length := by
          unfold StringRef.Readable at hrest
          omega
        rw [atNewline_of_length hlong, ok_bind]
        split
        · exact .inl ⟨_, rfl⟩
        · exact .inr rfl
    · rw [hreject]
      exact .inr rfl

end Struct

section Block

/-- The text of header lines in front of a blank line. -/
theorem headerBlock_lines (lines : List FieldLine) (body : Bytes) :
    HeaderBlock (headerText lines ++ (crlf ++ body)) (lines.map FieldLine.content)
      (headerText lines).length := by
  cases lines with
  | nil => exact .empty ⟨body, rfl⟩
  | cons line lines =>
    have hcontents : ∀ content ∈ (line :: lines).map FieldLine.content,
        content ≠ [] ∧ ¬ crlf <:+: content ∧ FieldForm content := by
      intro content hcontent
      obtain ⟨line, -, rfl⟩ := List.mem_map.mp hcontent
      exact ⟨line.content_ne_nil, line.content_oneLine, line.form.1⟩
    have free := fun content hcontent => (hcontents content hcontent).2.1
    obtain ⟨front, hfront, hfirst⟩ := firstOccurrence_blank cr_ne_lf body
      ((line :: lines).map FieldLine.content) (by simp) (fun content h => (hcontents content h).1)
      free
    have htext : headerText (line :: lines) = front ++ crlf := by
      rw [headerText_eq, hfront]
    have hbegun : ¬ crlf <+: headerText (line :: lines) ++ (crlf ++ body) := by
      obtain ⟨c, back, hcontent⟩ := List.exists_cons_of_ne_nil line.content_ne_nil
      rw [headerText_cons, FieldLine.text, hcontent, List.append_assoc, List.append_assoc]
      exact not_pair_at_head cr_ne_lf (hcontent ▸ line.content_oneLine) _
    have htake : (headerText (line :: lines) ++ (crlf ++ body)).take front.length = front := by
      rw [htext, List.append_assoc, List.take_left]
    have hpieces := pieces_of_join cr_ne_lf free hfront
    have hplace : firstOccurrence (crlf ++ crlf) (headerText (line :: lines) ++ (crlf ++ body)) =
        some front.length := by
      rw [headerText_eq]
      exact hfirst
    have hblock := HeaderBlock.fields hbegun hplace
      (by rw [htake, hpieces]; exact fun content h => (hcontents content h).2.2)
    rw [htake, hpieces] at hblock
    rw [htext, List.length_append]
    rwa [htext] at hblock

theorem exists_fieldLines : ∀ (contents : List Bytes), (∀ content ∈ contents, FieldForm content) →
    (∀ content ∈ contents, ¬ crlf <:+: content) →
    ∃ lines : List FieldLine, lines.map FieldLine.content = contents
  | [], _, _ => ⟨[], rfl⟩
  | content :: contents, form, free => by
    rw [List.forall_mem_cons] at form free
    obtain ⟨line, hline, -⟩ := form.1.exists_line free.1
    obtain ⟨lines, hlines⟩ := exists_fieldLines contents form.2 free.2
    exact ⟨line :: lines, by rw [List.map_cons, hline, hlines]⟩

theorem HeaderBlock.exists_lines {text : Bytes} {contents : List Bytes} {blank : Nat}
    (h : HeaderBlock text contents blank) : ∃ (lines : List FieldLine) (body : Bytes),
      text = headerText lines ++ (crlf ++ body) ∧ lines.map FieldLine.content = contents ∧
        (headerText lines).length = blank := by
  cases h with
  | empty begun =>
    obtain ⟨body, rfl⟩ := begun
    exact ⟨[], body, rfl, rfl, rfl⟩
  | @fields front begun first form =>
    obtain ⟨⟨body, hbody⟩, hle⟩ := firstOccurrence_some first
    obtain ⟨lines, hlines⟩ := exists_fieldLines _ form fun piece hpiece => piece_free hpiece
    have hjoin : headerText lines = text.take front ++ crlf := by
      rw [headerText_eq, hlines]
      exact joinLines_pieces _
    refine ⟨lines, body, ?_, hlines, ?_⟩
    · rw [hjoin, List.append_assoc, ← List.append_assoc crlf, hbody, List.take_append_drop]
    · rw [hjoin, List.length_append, List.length_take, Nat.min_eq_left hle]
      rfl

/-- What is parsed is a header block, and its blank line comes next. -/
theorem headerBlock_of_parsed {rt : Runtime} {str rest : StringRef} {hs : HttpHeaderStruct}
    (hne : str.len ≠ 0) (hparse : parseHeaderStruct rt str = .ok (hs, rest)) :
    ∃ lines blank, HeaderBlock str.bytes lines blank ∧
      hs.fields.map HttpHeaderField.text = lines.map fieldOf ∧
      Consumes str (str.bytes.take blank) rest ∧ ∃ body, expectNewline rest = .ok body := by
  obtain ⟨body, hblank⟩ := parseHeaderStruct_blank hne hparse
  obtain ⟨lines, hlines, hfields, -⟩ := parseHeaderStruct_sound hparse
  have htext : str.bytes = headerText lines ++ (crlf ++ body.bytes) := by
    rw [hlines.bytes_eq, hblank.bytes_eq]
  refine ⟨lines.map FieldLine.content, (headerText lines).length, ?_, ?_, ?_, body,
    expectNewline_iff.mpr hblank⟩
  · rw [htext]
    exact headerBlock_lines lines body.bytes
  · rw [hfields, List.map_map]
    exact List.map_congr_left fun line _ => line.form.2.symm
  · rw [htext, List.take_left]
    exact hlines

/-- A header block is parsed. -/
theorem HeaderBlock.parses {rt : Runtime} (halloc : rt.AllocSucceeds) {str : StringRef}
    (hread : str.Readable) (hsmall : str.len < 2 ^ 27) {contents : List Bytes} {blank : Nat}
    (h : HeaderBlock str.bytes contents blank) :
    ∃ result, parseHeaderStruct rt str = .ok result := by
  obtain ⟨lines, body, htext, -⟩ := h.exists_lines
  obtain ⟨rest, hlines, hrest, hreadable⟩ := Consumes.of_bytes hread htext
  obtain ⟨body', hblank, -⟩ := Consumes.of_bytes hreadable hrest
  have htotal : sizeofHttpHeaderField * lines.length < 2 ^ 31 := by
    have hroom := length_headerText lines
    have hfits := hlines.length_le
    unfold sizeofHttpHeaderField
    omega
  obtain ⟨hs, hparse, -⟩ := parseHeaderStruct_complete rt lines hlines hblank hsmall
    (.inr (halloc _ htotal))
  exact ⟨_, hparse⟩

end Block

/-- The field pass takes exactly the lines that the counting pass delimits, if they all
have the form of a field, and leaves the blank line for the caller. -/
theorem header_passes_agree {rt : Runtime} (halloc : rt.AllocSucceeds) {str : StringRef}
    (hread : str.Readable) (hne : str.len ≠ 0) (hsmall : str.len < 2 ^ 27) :
    ((∃ result, parseHeaderStruct rt str = .ok result) ↔
      ∃ lines blank, HeaderBlock str.bytes lines blank) ∧
    ((∀ lines blank, ¬ HeaderBlock str.bytes lines blank) →
      parseHeaderStruct rt str = .error (.status 1)) ∧
    ∀ hs rest, parseHeaderStruct rt str = .ok (hs, rest) →
      ∃ lines blank, HeaderBlock str.bytes lines blank ∧
        hs.fields.map HttpHeaderField.text = lines.map fieldOf ∧
        Consumes str (str.bytes.take blank) rest ∧ ∃ body, expectNewline rest = .ok body := by
  refine ⟨⟨?_, ?_⟩, ?_, fun hs rest => headerBlock_of_parsed hne⟩
  · rintro ⟨⟨hs, rest⟩, hparse⟩
    obtain ⟨lines, blank, hblock, -⟩ := headerBlock_of_parsed hne hparse
    exact ⟨lines, blank, hblock⟩
  · rintro ⟨lines, blank, hblock⟩
    exact hblock.parses halloc hread hsmall
  · intro hnone
    rcases parseHeaderStruct_returns halloc hread hne hsmall with ⟨⟨hs, rest⟩, hparse⟩ | hreject
    · obtain ⟨lines, blank, hblock, -⟩ := headerBlock_of_parsed hne hparse
      exact absurd hblock (hnone lines blank)
    · exact hreject

/-- One field, the blank line and a byte of body. -/
def oneFieldHeader : StringRef :=
  ⟨12, ascii ['H', 'o', 's', 't', ':', ' ', 'a', '\r', '\n', '\r', '\n', 'b']⟩

theorem header_passes_agree_oneField :
    ((∃ result, parseHeaderStruct .unlimited oneFieldHeader = .ok result) ↔
      ∃ lines blank, HeaderBlock oneFieldHeader.bytes lines blank) ∧
    ((∀ lines blank, ¬ HeaderBlock oneFieldHeader.bytes lines blank) →
      parseHeaderStruct .unlimited oneFieldHeader = .error (.status 1)) ∧
    ∀ hs rest, parseHeaderStruct .unlimited oneFieldHeader = .ok (hs, rest) →
      ∃ lines blank, HeaderBlock oneFieldHeader.bytes lines blank ∧
        hs.fields.map HttpHeaderField.text = lines.map fieldOf ∧
        Consumes oneFieldHeader (oneFieldHeader.bytes.take blank) rest ∧
        ∃ body, expectNewline rest = .ok body :=
  header_passes_agree Runtime.unlimited_allocSucceeds (by decide) (by decide) (by decide)

end Net77.Http
