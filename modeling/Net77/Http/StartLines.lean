import Net77.Base.Lines
import Net77.Http.MessageParsing

/-! Which of the start lines that the parser accepts are real ones. It compares the
beginning of a word with its keywords and lets a url run to the next space. -/
namespace Net77.Http

open Net77.Base

/-- `http/d.d` in any letter case, for a version that the parser reports. -/
inductive RealVersion : Bytes → HttpVersion → Prop where
  | mk {word : Bytes} {major minor : Byte} {version : HttpVersion}
      (named : word.map toLower = httpLiteral)
      (major_digit : isDigit major = true)
      (minor_digit : isDigit minor = true)
      (supported : versionOfDigits (major.toNat - 48) (minor.toNat - 48) = .ok version) :
      RealVersion (word ++ [slash, major, dot, minor]) version

/-- Up to its first newline the text spells what the request reports. -/
def RealRequestLine (text : Bytes) (method : HttpMethod) (url : Bytes) (version : HttpVersion) :
    Prop :=
  ∃ n versionText, firstOccurrence crlf text = some n ∧
    text.take n = method.name ++ ([space] ++ (url ++ ([space] ++ versionText))) ∧
    RealVersion versionText version

/-- The text starts with the version that the response reports. -/
def RealStatusVersion (text : Bytes) (version : HttpVersion) : Prop :=
  ∃ versionText rest, text = versionText ++ ([space] ++ rest) ∧ RealVersion versionText version

/-- The letters that a text starts with. -/
def leadingWord (text : Bytes) : Bytes := text.takeWhile isLetter

/-- What is behind the first space. -/
def behindSpace (text : Bytes) : Bytes := (text.dropWhile (· ≠ space)).drop 1

/-- The bytes between the first two spaces. -/
def urlToken (text : Bytes) : Bytes := (behindSpace text).takeWhile (· ≠ space)

theorem not_space_of_letter {c : Byte} (h : isLetter c = true) : decide (c ≠ space) = true := by
  apply decide_eq_true
  rintro rfl
  exact absurd h (by decide)

theorem letter_of_toLower {c : Byte} (h : isLetter (toLower c) = true) : isLetter c = true := by
  unfold toLower at h
  split at h
  · rename_i hupper
    simp [isLetter, hupper]
  · exact h

section Version

variable {text : Bytes} {version : HttpVersion}

theorem RealVersion.leadingWord (h : RealVersion text version) (more : Bytes) :
    (leadingWord (text ++ more)).length = 4 := by
  obtain ⟨named, -, -, -⟩ := h
  rename_i word major minor
  have letters : ∀ c ∈ word, isLetter c = true := by
    intro c hc
    have hlower : toLower c ∈ httpLiteral := by
      rw [← named]
      exact List.mem_map_of_mem hc
    have hall : ∀ d ∈ httpLiteral, isLetter d = true := by decide
    exact letter_of_toLower (hall _ hlower)
  rw [List.append_assoc, leadingWord, List.cons_append, takeWhile_run letters (by decide),
    ← List.length_map toLower, named]
  rfl

/-- A version that the parser accepts is a real one if its word is not too long. -/
theorem realVersion_iff (h : VersionText text version) (more : Bytes) :
    RealVersion text version ↔ (leadingWord (text ++ more)).length = 4 := by
  refine ⟨fun hreal => hreal.leadingWord more, ?_⟩
  obtain ⟨letters, named, major_cases, minor_digit, supported⟩ := h
  rename_i word major minor
  rw [List.append_assoc, leadingWord, List.cons_append, takeWhile_run letters (by decide)]
  intro hlength
  have hword : httpLiteral = word.map toLower :=
    named.eq_of_length (by rw [List.length_map, hlength]; rfl)
  have major_digit : isDigit major = true := by rcases major_cases with rfl | rfl | rfl <;> rfl
  exact .mk hword.symm major_digit minor_digit supported

end Version

section Request

variable {text word url versionText rest : Bytes} {method : HttpMethod} {version : HttpVersion}

/-- The tokens of a text that starts with a request line. -/
theorem requestLine_tokens (letters : ∀ c ∈ word, isLetter c = true)
    (url_noSpace : ∀ c ∈ url, c ≠ space) (back : Bytes) :
    leadingWord (word ++ ([space] ++ (url ++ ([space] ++ back)))) = word ∧
      urlToken (word ++ ([space] ++ (url ++ ([space] ++ back)))) = url ∧
      behindSpace (behindSpace (word ++ ([space] ++ (url ++ ([space] ++ back))))) = back := by
  have hword : ∀ c ∈ word, decide (c ≠ space) = true := fun c hc => not_space_of_letter (letters c hc)
  have hurl : ∀ c ∈ url, decide (c ≠ space) = true := fun c hc => decide_eq_true (url_noSpace c hc)
  have hbehind : behindSpace (word ++ ([space] ++ (url ++ ([space] ++ back)))) =
      url ++ ([space] ++ back) := by
    unfold behindSpace
    rw [List.cons_append, dropWhile_run hword (by decide)]
    rfl
  refine ⟨?_, ?_, ?_⟩
  · rw [leadingWord, List.cons_append, takeWhile_run letters (by decide)]
  · rw [urlToken, hbehind, List.cons_append, takeWhile_run hurl (by decide)]
  · rw [hbehind, behindSpace, List.cons_append, dropWhile_run hurl (by decide)]
    rfl

theorem methodName_letters (method : HttpMethod) : ∀ c ∈ method.name, isLetter c = true := by
  cases method <;> decide

/-- A word that is a method name names one method. -/
theorem MethodWord.unique {other : HttpMethod} (h : MethodWord other.name method) :
    method = other := by
  have hmethod := matchMethod_complete h.named
  have hother := matchMethod_complete (List.prefix_refl other.name)
  exact Except.ok.inj (hmethod.symm.trans hother)

theorem VersionText.no_cr (h : VersionText versionText version) : ∀ c ∈ versionText, c ≠ cr := by
  obtain ⟨letters, -, major_cases, minor_digit, -⟩ := h
  intro c hc
  simp only [List.mem_append, List.mem_cons, List.not_mem_nil, or_false] at hc
  rcases hc with hc | rfl | rfl | rfl | rfl
  · exact not_newline_of_letter (letters c hc)
  · decide
  · rcases major_cases with rfl | rfl | rfl <;> decide
  · decide
  · rintro rfl
    exact absurd minor_digit (by decide)

/-- A real request line is one that ends at the first newline. -/
theorem requestLine_free (method : HttpMethod) (hurl : ¬ crlf <:+: url)
    (h : VersionText versionText version) :
    ¬ crlf <:+: method.name ++ ([space] ++ (url ++ ([space] ++ versionText))) := by
  have hversion : ¬ crlf <:+: [space] ++ versionText := by
    apply crlf_infix_append (by decide)
    exact not_newline_within h.no_cr
  apply crlf_infix_append fun c hc => not_newline_of_letter (methodName_letters method c hc)
  apply crlf_infix_append (by decide)
  have hseam : ([space] ++ versionText).head? ≠ some lf := fun h =>
    absurd (Option.some.inj h) (by decide)
  exact pair_free_append hurl hversion hseam

/-- The tokens of an accepted request line decide whether it is a real one. -/
theorem requestLine_real_iff
    (htext : text = word ++ ([space] ++ (url ++ ([space] ++ (versionText ++ (crlf ++ rest))))))
    (hword : MethodWord word method) (url_noSpace : ∀ c ∈ url, c ≠ space)
    (hversion : VersionText versionText version) :
    RealRequestLine text method url version ↔
      (∃ other : HttpMethod, leadingWord text = other.name) ∧ ¬ crlf <:+: urlToken text ∧
        (leadingWord (behindSpace (behindSpace text))).length = 4 := by
  constructor
  · rintro ⟨n, realText, hfirst, htake, hreal⟩
    obtain ⟨back, hback⟩ := (firstOccurrence_some hfirst).1
    have hsplit : text = method.name ++ ([space] ++ (url ++ ([space] ++
        (realText ++ (crlf ++ back))))) := by
      rw [← List.take_append_drop n text, htake, ← hback]
      simp only [List.append_assoc]
    obtain ⟨hleading, htoken, hbehind⟩ := requestLine_tokens (methodName_letters method)
      url_noSpace (realText ++ (crlf ++ back))
    rw [← hsplit] at hleading htoken hbehind
    have hfree := firstOccurrence_take (List.cons_ne_nil cr [lf]) hfirst
    refine ⟨⟨method, hleading⟩, ?_, ?_⟩
    · rw [htoken]
      intro hin
      rw [htake] at hfree
      exact hfree (hin.trans ⟨method.name ++ [space], [space] ++ realText, by simp⟩)
    · rw [hbehind]
      exact hreal.leadingWord (crlf ++ back)
  · rintro ⟨⟨other, hother⟩, hurl, hlength⟩
    obtain ⟨hleading, htoken, hbehind⟩ := requestLine_tokens hword.letters url_noSpace
      (versionText ++ (crlf ++ rest))
    rw [← htext] at hleading htoken hbehind
    have hname : word = other.name := hleading.symm.trans hother
    subst hname
    cases hword.unique
    rw [htoken] at hurl
    rw [hbehind] at hlength
    have hsplit : text = method.name ++ ([space] ++ (url ++ ([space] ++ versionText))) ++
        (crlf ++ rest) := by
      rw [htext]
      simp only [List.append_assoc]
    have hfree := requestLine_free method hurl hversion
    refine ⟨(method.name ++ ([space] ++ (url ++ ([space] ++ versionText)))).length, versionText,
      ?_, ?_, (realVersion_iff hversion (crlf ++ rest)).mpr hlength⟩
    · rw [hsplit]
      exact firstOccurrence_line_end (by decide) hfree rest
    · rw [hsplit, List.take_left]

end Request

theorem statusVersion_real_iff {text versionText rest : Bytes} {version : HttpVersion}
    (htext : text = versionText ++ ([space] ++ rest)) (hversion : VersionText versionText version) :
    RealStatusVersion text version ↔ (leadingWord text).length = 4 := by
  constructor
  · rintro ⟨realText, back, hsplit, hreal⟩
    rw [hsplit]
    exact hreal.leadingWord ([space] ++ back)
  · intro hlength
    rw [htext] at hlength
    exact ⟨versionText, rest, htext, (realVersion_iff hversion ([space] ++ rest)).mpr hlength⟩

/-- An accepted start line is a real one if and only if its words are no longer than the
keywords they start with, and its url has no newline in it. -/
theorem start_lines_real_iff (rt : Runtime) (str : StringRef) :
    (∀ req, parseHttpRequest rt str true = .ok req →
      (RealRequestLine str.bytes req.method req.url.bytes req.version ↔
        (∃ method : HttpMethod, leadingWord str.bytes = method.name) ∧
          ¬ crlf <:+: urlToken str.bytes ∧
          (leadingWord (behindSpace (behindSpace str.bytes))).length = 4)) ∧
    ∀ resp, parseHttpResponse rt str true = .ok resp →
      (RealStatusVersion str.bytes resp.version ↔ (leadingWord str.bytes).length = 4) := by
  constructor
  · intro req hparse
    obtain ⟨-, after, blank, hline, -, -⟩ := parseHttpRequest_calls.mp hparse
    obtain ⟨line, hconsumes, hlineText, -⟩ := parseRequestLine_sound hline
    have hbytes := hconsumes.bytes_eq
    generalize req.url.bytes = url at hlineText ⊢
    generalize req.method = method at hlineText ⊢
    generalize req.version = version at hlineText ⊢
    obtain ⟨methodWord, -, url_noSpace, versionWord⟩ := hlineText
    simp only [List.append_assoc] at hbytes
    exact requestLine_real_iff hbytes methodWord url_noSpace versionWord
  · intro resp hparse
    obtain ⟨after, blank, hline, -, -⟩ := parseHttpResponse_calls.mp hparse
    obtain ⟨line, hconsumes, hlineText, -⟩ := parseStatusLine_sound hline
    have hbytes := hconsumes.bytes_eq
    generalize resp.version = version at hlineText ⊢
    generalize resp.statusCode = code at hlineText
    generalize resp.statusMsg.bytes = msg at hlineText
    obtain ⟨versionWord, -, -, -, -⟩ := hlineText
    rw [List.append_assoc, List.append_assoc, List.append_assoc, List.append_assoc,
      List.append_assoc] at hbytes
    exact statusVersion_real_iff hbytes versionWord

/-- `GETX / HTTP/1.1` without fields. -/
def overlongMethod : StringRef :=
  ⟨19, ascii ['G', 'E', 'T', 'X', ' ', '/', ' ', 'H', 'T', 'T', 'P', '/', '1', '.', '1'] ++
    crlf ++ crlf⟩

theorem start_lines_real_iff_overlong :
    ∃ req, parseHttpRequest .unlimited overlongMethod true = .ok req ∧
      (RealRequestLine overlongMethod.bytes req.method req.url.bytes req.version ↔
        (∃ method : HttpMethod, leadingWord overlongMethod.bytes = method.name) ∧
          ¬ crlf <:+: urlToken overlongMethod.bytes ∧
          (leadingWord (behindSpace (behindSpace overlongMethod.bytes))).length = 4) :=
  ⟨_, rfl, (start_lines_real_iff .unlimited overlongMethod).1 _ rfl⟩

/-- The parser takes it for a `GET`. -/
theorem overlongMethod_not_real :
    ∃ req, parseHttpRequest .unlimited overlongMethod true = .ok req ∧ req.method = .get ∧
      ¬ RealRequestLine overlongMethod.bytes req.method req.url.bytes req.version := by
  refine ⟨_, rfl, rfl, ?_⟩
  rintro ⟨n, versionText, hfirst, htake, -⟩
  cases hfirst
  -- behind `GET` the text goes on with a letter
  have hbyte : some (88 : Byte) = some space := congrArg (fun text : Bytes => text[3]?) htake
  exact absurd hbyte (by decide)

end Net77.Http
