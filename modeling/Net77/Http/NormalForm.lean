import Net77.Http.Serialization

/-! Facts about the grammar alone: a message has a normal form exactly when some
text denotes it, and the bytes behind the blank line are free. -/
namespace Net77.Http

/-- A field whose line is read back as the same field. -/
structure FieldWellFormed (pair : Bytes × Bytes) : Prop where
  name_letters : ∀ c ∈ pair.1, isLetter c = true
  value_trimmed : pair.2.head? ≠ some space
  value_oneLine : ¬ crlf <:+: pair.2

theorem fieldWellFormed_iff {pair : Bytes × Bytes} : FieldWellFormed pair ↔
    (∀ c ∈ pair.1, isLetter c = true) ∧ pair.2.head? ≠ some space ∧ ¬ crlf <:+: pair.2 :=
  ⟨fun h => ⟨h.name_letters, h.value_trimmed, h.value_oneLine⟩, fun h => ⟨h.1, h.2.1, h.2.2⟩⟩

instance (pair : Bytes × Bytes) : Decidable (FieldWellFormed pair) :=
  decidable_of_iff _ fieldWellFormed_iff.symm

structure RequestMessage.WellFormed (m : RequestMessage) : Prop where
  url_nonempty : m.url ≠ []
  url_noSpace : ∀ c ∈ m.url, c ≠ space
  fields : ∀ pair ∈ m.fields, FieldWellFormed pair

structure ResponseMessage.WellFormed (m : ResponseMessage) : Prop where
  code_low : 100 ≤ m.statusCode
  code_high : m.statusCode ≤ 599
  msg_oneLine : ¬ crlf <:+: m.statusMsg
  fields : ∀ pair ∈ m.fields, FieldWellFormed pair

/-- The line of a field without blanks behind the colon. -/
def FieldLine.ofPair (pair : Bytes × Bytes) (h : FieldWellFormed pair) : FieldLine :=
  ⟨pair.1, 0, pair.2, h.name_letters, h.value_trimmed, h.value_oneLine⟩

theorem FieldLine.wellFormed (line : FieldLine) : FieldWellFormed line.pair :=
  ⟨line.name_letters, line.value_trimmed, line.value_oneLine⟩

theorem wellFormed_of_lines (lines : List FieldLine) :
    ∀ pair ∈ lines.map FieldLine.pair, FieldWellFormed pair := by
  intro pair hpair
  obtain ⟨line, -, rfl⟩ := List.mem_map.mp hpair
  exact line.wellFormed

@[simp] theorem fieldsWire_cons (pair : Bytes × Bytes) (fields : List (Bytes × Bytes)) :
    fieldsWire (pair :: fields) =
      pair.1 ++ ([colon] ++ (pair.2 ++ crlf)) ++ fieldsWire fields := rfl

/-- The normal form of a header block is a header block. -/
theorem exists_lines {fields : List (Bytes × Bytes)} (h : ∀ pair ∈ fields, FieldWellFormed pair) :
    ∃ lines : List FieldLine, lines.map FieldLine.pair = fields ∧
      headerText lines = fieldsWire fields := by
  induction fields with
  | nil => exact ⟨[], rfl, rfl⟩
  | cons pair fields ih =>
    rw [List.forall_mem_cons] at h
    obtain ⟨lines, rfl, hlines⟩ := ih h.2
    refine ⟨.ofPair pair h.1 :: lines, rfl, ?_⟩
    rw [headerText_cons, hlines, fieldsWire_cons]
    simp [FieldLine.text, FieldLine.content, FieldLine.ofPair]

/-- The normal form of a header block is its shortest one. -/
theorem length_fieldsWire_le (lines : List FieldLine) :
    (fieldsWire (lines.map FieldLine.pair)).length ≤ (headerText lines).length := by
  induction lines with
  | nil => exact le_rfl
  | cons line lines ih =>
    simp only [List.map_cons, fieldsWire_cons, headerText_cons, FieldLine.text, FieldLine.content,
      FieldLine.pair, List.length_append, List.length_cons, List.length_nil]
    omega

theorem methodWord_name (method : HttpMethod) : MethodWord method.name method := by
  refine ⟨?_, List.prefix_rfl⟩
  cases method <;> decide

theorem versionText_name (v : HttpVersion) : VersionText v.name v := by
  cases v with
  | http09 =>
    exact (.mk (by decide) (by decide) (.inl rfl) rfl rfl :
      VersionText (ascii ['H', 'T', 'T', 'P'] ++ [slash, 48, dot, 57]) .http09)
  | http10 =>
    exact (.mk (by decide) (by decide) (.inr (.inl rfl)) rfl rfl :
      VersionText (ascii ['H', 'T', 'T', 'P'] ++ [slash, 49, dot, 48]) .http10)
  | http11 =>
    exact (.mk (by decide) (by decide) (.inr (.inl rfl)) rfl rfl :
      VersionText (ascii ['H', 'T', 'T', 'P'] ++ [slash, 49, dot, 49]) .http11)

theorem VersionText.length_le {text : Bytes} {v : HttpVersion} (h : VersionText text v) :
    v.name.length ≤ text.length := by
  obtain ⟨-, named, -, -, -⟩ := h
  have hword := named.length_le
  rw [List.length_map] at hword
  have hliteral : httpLiteral.length = 4 := rfl
  have hname : v.name.length = 8 := by cases v <;> rfl
  rw [List.length_append, List.length_cons, List.length_cons, List.length_cons, List.length_cons,
    List.length_nil]
  omega

section StatusCode

private theorem toNat_digit (n : Nat) : (UInt8.ofInt ((n % 10 : Nat) + 48)).toNat = n % 10 + 48 := by
  have hcast : ((n % 10 : Nat) : Int) + 48 = ((n % 10 + 48 : Nat) : Int) := by omega
  rw [hcast, UInt8.ofInt, UInt8.toNat_ofNat']
  omega

private theorem isDigit_iff {c : Byte} : isDigit c = true ↔ 48 ≤ c.toNat ∧ c.toNat ≤ 57 := by
  simp only [isDigit, Bool.and_eq_true, decide_eq_true_eq, UInt8.le_iff_toNat_le]
  rfl

private theorem firstDigit_iff {c : Byte} : 49 ≤ c ∧ c ≤ 53 ↔ 49 ≤ c.toNat ∧ c.toNat ≤ 53 := by
  simp only [UInt8.le_iff_toNat_le]
  rfl

/-- The encoder writes the three digits that the number parser reads. -/
theorem statusCodeDigits_eq {code : Int} (hlow : 100 ≤ code) (hhigh : code ≤ 599) :
    ∃ a b c, statusCodeDigits 3 code = [a, b, c] ∧ (49 ≤ a ∧ a ≤ 53) ∧ isDigit b = true ∧
      isDigit c = true ∧ codeOfDigits a b c = code := by
  obtain ⟨n, rfl⟩ := Int.eq_ofNat_of_zero_le (show 0 ≤ code by omega)
  have hdigits : statusCodeDigits 3 n = [UInt8.ofInt ((n / 10 / 10 % 10 : Nat) + 48),
      UInt8.ofInt ((n / 10 % 10 : Nat) + 48), UInt8.ofInt ((n % 10 : Nat) + 48)] := rfl
  refine ⟨_, _, _, hdigits, firstDigit_iff.mpr ?_, isDigit_iff.mpr ?_, isDigit_iff.mpr ?_, ?_⟩
  · rw [toNat_digit]
    omega
  · rw [toNat_digit]
    omega
  · rw [toNat_digit]
    omega
  · rw [codeOfDigits, toNat_digit, toNat_digit, toNat_digit]
    omega

theorem StatusLineText.code_bounds {line msg : Bytes} {v : HttpVersion} {code : Int}
    (h : StatusLineText line v code msg) : 100 ≤ code ∧ code ≤ 599 := by
  obtain ⟨-, first_digit, second_digit, third_digit, -⟩ := h
  rw [firstDigit_iff] at first_digit
  rw [isDigit_iff] at second_digit third_digit
  unfold codeOfDigits
  omega

end StatusCode

/-- The normal form of a well-formed request denotes it. -/
theorem requestWire_text {m : RequestMessage} (h : m.WellFormed) :
    RequestText (requestWire m) m := by
  obtain ⟨method, url, version, fields, body⟩ := m
  obtain ⟨lines, rfl, hlines⟩ := exists_lines h.fields
  have htext : RequestText
      (method.name ++ [space] ++ url ++ [space] ++ version.name ++ crlf ++ headerText lines ++
        crlf ++ body) ⟨method, url, version, lines.map FieldLine.pair, body⟩ :=
    .mk (.mk (methodWord_name method) h.url_nonempty h.url_noSpace (versionText_name version)) lines
  simpa only [requestWire, hlines, List.append_assoc] using htext

theorem responseWire_text {m : ResponseMessage} (h : m.WellFormed) :
    ResponseText (responseWire m) m := by
  obtain ⟨version, code, msg, fields, body⟩ := m
  obtain ⟨lines, rfl, hlines⟩ := exists_lines h.fields
  obtain ⟨a, b, c, hdigits, hfirst, hsecond, hthird, hcode⟩ :=
    statusCodeDigits_eq h.code_low h.code_high
  dsimp only at hdigits hcode
  have htext : ResponseText
      (version.name ++ [space] ++ [a, b, c] ++ [space] ++ msg ++ crlf ++ headerText lines ++
        crlf ++ body) ⟨version, codeOfDigits a b c, msg, lines.map FieldLine.pair, body⟩ :=
    .mk (.mk (versionText_name version) hfirst hsecond hthird h.msg_oneLine) lines
  rw [hcode] at htext
  simpa only [responseWire, hdigits, hlines, List.append_assoc] using htext

/-- Only well-formed requests are denoted by a text. -/
theorem RequestText.wellFormed {text : Bytes} {m : RequestMessage} (h : RequestText text m) :
    m.WellFormed := by
  obtain ⟨⟨-, url_nonempty, url_noSpace, -⟩, lines⟩ := h
  exact ⟨url_nonempty, url_noSpace, wellFormed_of_lines lines⟩

theorem ResponseText.wellFormed {text : Bytes} {m : ResponseMessage} (h : ResponseText text m) :
    m.WellFormed := by
  obtain ⟨statusLine, lines⟩ := h
  have hcode := statusLine.code_bounds
  obtain ⟨-, -, -, -, msg_oneLine⟩ := statusLine
  exact ⟨hcode.1, hcode.2, msg_oneLine, wellFormed_of_lines lines⟩

/-- The normal form is the shortest text of a message. -/
theorem RequestText.length_wire_le {text : Bytes} {m : RequestMessage} (h : RequestText text m) :
    (requestWire m).length ≤ text.length := by
  obtain ⟨⟨methodWord, -, -, versionWord⟩, lines⟩ := h
  have hmethod := methodWord.named.length_le
  have hversion := versionWord.length_le
  have hfields := length_fieldsWire_le lines
  simp only [requestWire, List.length_append]
  omega

theorem ResponseText.length_wire_le {text : Bytes} {m : ResponseMessage} (h : ResponseText text m) :
    (responseWire m).length ≤ text.length := by
  obtain ⟨⟨versionWord, -, -, -, -⟩, lines⟩ := h
  have hversion := versionWord.length_le
  have hfields := length_fieldsWire_le lines
  simp only [responseWire, statusCodeDigits, List.length_append, List.length_cons, List.length_nil]
  omega

theorem RequestText.length_fields_le {text : Bytes} {m : RequestMessage} (h : RequestText text m) :
    3 * m.fields.length ≤ text.length := by
  obtain ⟨-, lines⟩ := h
  have := length_headerText lines
  simp only [List.length_map, List.length_append]
  omega

theorem ResponseText.length_fields_le {text : Bytes} {m : ResponseMessage}
    (h : ResponseText text m) : 3 * m.fields.length ≤ text.length := by
  obtain ⟨-, lines⟩ := h
  have := length_headerText lines
  simp only [List.length_map, List.length_append]
  omega

/-- Whatever the body is, the text in front of it stays a text. -/
theorem RequestText.replaceBody {text : Bytes} {m : RequestMessage} (h : RequestText text m)
    (body : Bytes) :
    ∃ front, text = front ++ m.body ∧ RequestText (front ++ body) { m with body := body } := by
  obtain ⟨requestLine, lines⟩ := h
  exact ⟨_, rfl, .mk requestLine lines⟩

theorem ResponseText.replaceBody {text : Bytes} {m : ResponseMessage} (h : ResponseText text m)
    (body : Bytes) :
    ∃ front, text = front ++ m.body ∧ ResponseText (front ++ body) { m with body := body } := by
  obtain ⟨statusLine, lines⟩ := h
  exact ⟨_, rfl, .mk statusLine lines⟩

end Net77.Http
