import Net77.Http.HeaderParsing

/-! The struct-mode parser accepts exactly the texts of the grammar and returns
the message they denote. What the parser does on one text therefore carries over
to any other text of the grammar, whatever its loops compare lengths with. -/
namespace Net77.Http

open Net77.Base

theorem ascii_nonzero_of_mem {method : HttpMethod} : ∀ c ∈ method.name, c ≠ 0 := by
  cases method <;> decide

theorem methodLiterals_name : ∀ entry ∈ methodLiterals, entry.1 = entry.2.name := by decide

theorem matchMethod_sound {data : Bytes} {method : HttpMethod}
    (h : matchMethod data methodLiterals = .ok method) : method.name <+: data := by
  suffices key : ∀ table : List (Bytes × HttpMethod), (∀ entry ∈ table, entry.1 = entry.2.name) →
      matchMethod data table = .ok method → method.name <+: data from
    key methodLiterals methodLiterals_name h
  intro table
  induction table with
  | nil => intro _ h; simp [matchMethod] at h
  | cons entry table ih =>
    intro hnames h
    obtain ⟨literal, tried⟩ := entry
    rw [List.forall_mem_cons] at hnames
    have hliteral : literal = tried.name := hnames.1
    unfold matchMethod at h
    obtain ⟨matched, hmatched, h⟩ := bind_eq_ok.mp h
    split at h
    · rename_i htrue
      cases Except.ok.inj h
      rw [htrue, strEqLiteral, hliteral] at hmatched
      have := strncmpEq_true (by rw [List.take_length]; exact ascii_nonzero_of_mem) hmatched
      rwa [List.take_length] at this
    · exact ih hnames.2 h

/-- No keyword starts another one, so the first match is the only one. -/
theorem matchMethod_complete {data : Bytes} {method : HttpMethod} (h : method.name <+: data) :
    matchMethod data methodLiterals = .ok method := by
  obtain ⟨tail, rfl⟩ := h
  cases method <;> rfl

theorem parseMethod_complete {str rest : StringRef} {word tail : Bytes} {method : HttpMethod}
    (h : Consumes str word rest) (hword : MethodWord word method) (hrest : rest.data = space :: tail)
    (hpos : 0 < rest.len) (hmax : word.length ≤ intMax) :
    parseMethod str = .ok (method, rest) := by
  have hrun : parseWord str = .ok (⟨word.length, str.data⟩, rest) :=
    parseRun_of_consumes h hword.letters hrest hpos (by decide) hmax
  unfold parseMethod
  rw [hrun, ok_bind]
  dsimp only
  rw [matchMethod_complete (by rw [h.data_eq]; exact hword.named.trans (List.prefix_append _ _))]
  rfl

theorem parseMethod_sound {str mid rest : StringRef} {method : HttpMethod}
    (h : parseMethod str = .ok (method, mid)) (hnext : Consumes mid [space] rest) :
    ∃ word, Consumes str word mid ∧ MethodWord word method ∧ word.length ≤ intMax := by
  unfold parseMethod at h
  obtain ⟨⟨ms, s1⟩, hrun, h⟩ := bind_eq_ok.mp h
  obtain ⟨found, hfound, h⟩ := bind_eq_ok.mp h
  obtain ⟨rfl, rfl⟩ := Prod.mk.inj (Except.ok.inj h)
  obtain ⟨word, hword, hletters, rfl, hmax⟩ := parseRun_sound hrun hnext (by decide)
  refine ⟨word, hword, ⟨hletters, ?_⟩, hmax⟩
  obtain ⟨back, hback⟩ := matchMethod_sound hfound
  have hname : ∀ c ∈ found.name, isLetter c = true := by cases found <;> decide
  apply run_covers hname (s := space) (u := back) (v := rest.data) (by decide)
  rw [hback, hword.data_eq, hnext.data_eq]
  rfl

theorem strLowerEqLiteral_complete {data : Bytes} (h : httpLiteral <+: data.map toLower) :
    strLowerEqLiteral data httpLiteral = .ok true := by
  unfold strLowerEqLiteral
  rw [strLowerCmp_of_match le_rfl (by rwa [List.take_length]) (by decide)]
  rfl

theorem strLowerEqLiteral_sound {data : Bytes} (h : strLowerEqLiteral data httpLiteral = .ok true) :
    httpLiteral <+: data.map toLower := by
  unfold strLowerEqLiteral at h
  obtain ⟨order, horder, h⟩ := bind_eq_ok.mp h
  have hzero : order = 0 := by simpa using Except.ok.inj h
  rw [hzero] at horder
  have hprefix := strLowerCmp_zero (by decide) horder
  rwa [List.take_length, show httpLiteral.map toLower = httpLiteral by decide] at hprefix

/-- The word in front of the digits of a version. -/
theorem httpWord_complete {str mid rest : StringRef} {word : Bytes} (h : Consumes str word mid)
    (letters : ∀ c ∈ word, isLetter c = true) (named : httpLiteral <+: word.map toLower)
    (hslash : Consumes mid [slash] rest) (hmax : word.length ≤ intMax) :
    parseWord str = .ok (⟨word.length, str.data⟩, mid) ∧
      strLowerEqLiteral str.data httpLiteral = .ok true := by
  constructor
  · exact parseRun_of_consumes h letters hslash.data_eq hslash.len_pos (by decide) hmax
  · apply strLowerEqLiteral_complete
    rw [h.data_eq, List.map_append]
    exact named.trans (List.prefix_append _ _)

theorem httpWord_sound {str mid rest http : StringRef} (hrun : parseWord str = .ok (http, mid))
    (hslash : Consumes mid [slash] rest)
    (hnamed : strLowerEqLiteral http.data httpLiteral = .ok true) :
    ∃ word, Consumes str word mid ∧ (∀ c ∈ word, isLetter c = true) ∧
      httpLiteral <+: word.map toLower ∧ word.length ≤ intMax := by
  obtain ⟨word, hword, hletters, rfl, hmax⟩ := parseRun_sound hrun hslash (by decide)
  obtain ⟨back, hback⟩ := strLowerEqLiteral_sound hnamed
  refine ⟨word, hword, hletters, ?_, hmax⟩
  apply run_covers (p := isLetter) (s := slash) (u := back)
    (v := rest.data.map toLower) (by decide) (by decide)
  rw [hback]
  dsimp only
  rw [hword.data_eq, hslash.data_eq]
  simp
  decide

/-- A number of one digit. -/
theorem parseNumber_digit {str rest : StringRef} {d c : Byte} {tail : Bytes}
    (h : Consumes str [d] rest) (hd : isDigit d = true) (hrest : rest.data = c :: tail)
    (hpos : 0 < rest.len) (hc : isDigit c = false) :
    parseNumber str = .ok (⟨1, d :: rest.data⟩, rest) := by
  have := parseRun_of_consumes h (by simpa using hd) hrest hpos hc (by simp [intMax])
  rwa [h.data_eq] at this

theorem majorDigit_complete {d : Byte} {data : Bytes} (hd : d = 48 ∨ d = 49 ∨ d = 50) :
    majorDigit ⟨1, d :: data⟩ = .ok (d.toNat - 48) := by
  rcases hd with rfl | rfl | rfl <;> rfl

theorem majorDigit_sound {run data : Bytes} {maj : Int}
    (h : majorDigit ⟨run.length, run ++ data⟩ = .ok maj) :
    ∃ d, run = [d] ∧ (d = 48 ∨ d = 49 ∨ d = 50) ∧ maj = d.toNat - 48 := by
  unfold majorDigit at h
  split at h
  · simp at h
  · rename_i hlen
    obtain ⟨d, rfl⟩ := List.length_eq_one_iff.mp (not_not.mp hlen)
    simp only [List.cons_append, readAt_cons_zero, ok_bind] at h
    split at h
    · simp at h
    · rename_i hd
      refine ⟨d, rfl, ?_, (Except.ok.inj h).symm⟩
      by_contra hcon
      exact hd ⟨fun e => hcon (.inl e), fun e => hcon (.inr (.inl e)), fun e => hcon (.inr (.inr e))⟩

theorem minorDigit_sound {run data : Bytes} {min : Int}
    (h : minorDigit ⟨run.length, run ++ data⟩ = .ok min) :
    ∃ d, run = [d] ∧ min = d.toNat - 48 := by
  unfold minorDigit at h
  split at h
  · simp at h
  · rename_i hlen
    obtain ⟨d, rfl⟩ := List.length_eq_one_iff.mp (not_not.mp hlen)
    exact ⟨d, rfl, (Except.ok.inj h).symm⟩

theorem majorNumber_sound {str mid rest number : StringRef} {maj : Int}
    (hnumber : parseNumber str = .ok (number, mid)) (hdot : Consumes mid [dot] rest)
    (hmaj : majorDigit number = .ok maj) :
    ∃ d, Consumes str [d] mid ∧ (d = 48 ∨ d = 49 ∨ d = 50) ∧ maj = d.toNat - 48 := by
  obtain ⟨run, hrun, -, rfl, -⟩ := parseRun_sound hnumber hdot (by decide)
  rw [hrun.data_eq] at hmaj
  obtain ⟨d, rfl, hd, rfl⟩ := majorDigit_sound hmaj
  exact ⟨d, hrun, hd, rfl⟩

theorem parseHttpVersion_complete {str rest : StringRef} {text tail : Bytes} {v : HttpVersion}
    {c : Byte} (h : Consumes str text rest) (htext : VersionText text v)
    (hrest : rest.data = c :: tail) (hpos : 0 < rest.len) (hc : isDigit c = false)
    (hmax : text.length ≤ intMax + 4) : parseHttpVersion str = .ok (v, rest) := by
  obtain ⟨letters, named, major_cases, minor_digit, supported⟩ := htext
  rename_i word major minor
  have hmajor : isDigit major = true := by rcases major_cases with rfl | rfl | rfl <;> rfl
  obtain ⟨s1, hword, h⟩ := h.split
  obtain ⟨s2, hslash, h⟩ := (show Consumes s1 ([slash] ++ ([major] ++ ([dot] ++ [minor]))) rest
    from h).split
  obtain ⟨s3, hmaj, h⟩ := h.split
  obtain ⟨s4, hdot, hmin⟩ := h.split
  have hhead3 : s3.data = dot :: s4.data := hdot.data_eq
  obtain ⟨hrun, hnamed⟩ := httpWord_complete hword letters named hslash (by simpa using hmax)
  unfold parseHttpVersion
  rw [hrun, ok_bind]
  dsimp only
  rw [hnamed, ok_bind, if_pos rfl, expectChar_iff.mpr hslash, ok_bind,
    parseNumber_digit hmaj hmajor hhead3 hdot.len_pos (by decide), ok_bind]
  dsimp only
  rw [majorDigit_complete major_cases, ok_bind, expectChar_iff.mpr hdot, ok_bind,
    parseNumber_digit hmin minor_digit hrest hpos hc, ok_bind]
  dsimp only
  rw [show minorDigit ⟨1, minor :: rest.data⟩ = .ok (minor.toNat - 48 : Int) from rfl, ok_bind,
    supported]
  rfl

theorem parseHttpVersion_sound {str mid rest : StringRef} {v : HttpVersion} {c : Byte}
    {more : Bytes} (h : parseHttpVersion str = .ok (v, mid)) (hnext : Consumes mid (c :: more) rest)
    (hc : isDigit c = false) :
    ∃ text, Consumes str text mid ∧ VersionText text v ∧ text.length ≤ intMax + 4 := by
  unfold parseHttpVersion at h
  obtain ⟨⟨http, s1⟩, hrun, h⟩ := bind_eq_ok.mp h
  obtain ⟨named, hnamed, h⟩ := bind_eq_ok.mp h
  split at h
  · rename_i htrue
    obtain ⟨s2, hslash, h⟩ := bind_eq_ok.mp h
    obtain ⟨⟨major, s3⟩, hmajor, h⟩ := bind_eq_ok.mp h
    obtain ⟨maj, hmaj, h⟩ := bind_eq_ok.mp h
    obtain ⟨s4, hdot, h⟩ := bind_eq_ok.mp h
    obtain ⟨⟨minor, s5⟩, hminor, h⟩ := bind_eq_ok.mp h
    obtain ⟨min, hmin, h⟩ := bind_eq_ok.mp h
    obtain ⟨version, hversion, h⟩ := bind_eq_ok.mp h
    obtain ⟨rfl, rfl⟩ := Prod.mk.inj (Except.ok.inj h)
    have hslash := expectChar_iff.mp hslash
    have hdot := expectChar_iff.mp hdot
    rw [htrue] at hnamed
    obtain ⟨word, hword, hletters, hprefix, hmax⟩ := httpWord_sound hrun hslash hnamed
    obtain ⟨d, hmajorRun, hd, rfl⟩ := majorNumber_sound hmajor hdot hmaj
    obtain ⟨minorRun, hminorRun, hdigits, rfl, -⟩ := parseRun_sound hminor hnext hc
    rw [hminorRun.data_eq] at hmin
    obtain ⟨e, rfl, rfl⟩ := minorDigit_sound hmin
    refine ⟨word ++ [slash, d, dot, e], ?_, .mk hletters hprefix hd (hdigits e (by simp)) hversion,
      by simpa using hmax⟩
    simpa using (((hword.trans hslash).trans hmajorRun).trans hdot).trans hminorRun
  · simp at h

theorem parseURL_complete {str mid rest : StringRef} {url : Bytes} (h : Consumes str url mid)
    (hne : url ≠ []) (hurl : ∀ c ∈ url, c ≠ space) (hnext : Consumes mid [space] rest)
    (hmax : url.length ≤ intMax) : parseURL str = .ok (⟨url.length, str.data⟩, mid) := by
  have hscan : scanWhile (· ≠ space) str.data str.len 0 = .ok url.length :=
    (scanWhile_iff (by simp [intMax])).mpr ⟨url, mid.data, h.data_eq, by simpa using hurl,
      by rw [h.len_eq]; omega, by simp, hmax, .inr ⟨space, rest.data, hnext.data_eq, by simp⟩⟩
  unfold parseURL
  rw [hscan, ok_bind, if_neg (by simpa using hne)]
  simp [h.len_eq, h.data_eq]

theorem parseURL_sound {str mid ref : StringRef} (h : parseURL str = .ok (ref, mid)) :
    ∃ url, Consumes str url mid ∧ url ≠ [] ∧ (∀ c ∈ url, c ≠ space) ∧
      ref = ⟨url.length, str.data⟩ ∧ url.length ≤ intMax ∧
      (mid.len = 0 ∨ mid.data.head? = some space) := by
  unfold parseURL at h
  obtain ⟨i, hscan, h⟩ := bind_eq_ok.mp h
  obtain ⟨url, tail, hdata, hurl, hle, hi, hmax, hstop⟩ :=
    (scanWhile_iff (by simp [intMax])).mp hscan
  rw [Nat.zero_add] at hi
  subst hi
  split at h
  · simp at h
  · rename_i hne
    obtain ⟨rfl, rfl⟩ := Prod.mk.inj (Except.ok.inj h)
    refine ⟨url, ⟨by simp [hdata], by simp; omega⟩, by simpa using hne, by simpa using hurl, rfl,
      hmax, ?_⟩
    rcases hstop with hall | ⟨c, more, rfl, hc⟩
    · exact .inl (by simp [hall])
    · exact .inr (by simpa [hdata] using hc)

theorem methodWord_head {word : Bytes} {method : HttpMethod} (hword : MethodWord word method)
    (more : Bytes) :
    ∃ c rest, word ++ more = c :: rest ∧ c ≠ slash := by
  obtain ⟨back, rfl⟩ := hword.named
  cases method <;> exact ⟨_, _, rfl, by decide⟩

/-- The line may be longer than its parts are allowed to be. -/
theorem parseRequestLine_parts {str rest : StringRef} {word url versionText : Bytes}
    {method : HttpMethod} {version : HttpVersion}
    (h : Consumes str (word ++ [space] ++ url ++ [space] ++ versionText ++ crlf) rest)
    (methodWord : MethodWord word method) (url_nonempty : url ≠ [])
    (url_noSpace : ∀ c ∈ url, c ≠ space) (versionWord : VersionText versionText version)
    (hmax : word.length ≤ intMax ∧ url.length ≤ intMax ∧ versionText.length ≤ intMax + 4) :
    ∃ ref, parseRequestLine str = .ok ((method, ref, version), rest) ∧ ref.bytes = url := by
  simp only [List.append_assoc] at h
  obtain ⟨c, tail, hhead, hslash⟩ := methodWord_head methodWord
    ([space] ++ (url ++ ([space] ++ (versionText ++ (crlf ++ rest.data)))))
  have hread : readAt str.data 0 = .ok c := by
    rw [h.data_eq]
    simp only [List.append_assoc]
    rw [hhead]
    rfl
  obtain ⟨s1, hword, h⟩ := h.split
  obtain ⟨s2, hspace, h⟩ := h.split
  obtain ⟨s3, hurl, h⟩ := h.split
  obtain ⟨s4, hspace', h⟩ := h.split
  obtain ⟨s5, hversion, hcrlf⟩ := h.split
  refine ⟨⟨url.length, s2.data⟩, ?_, hurl.taken_bytes⟩
  unfold parseRequestLine
  rw [hread, ok_bind, if_neg hslash, parseMethod_complete hword methodWord hspace.data_eq
    hspace.len_pos (by omega), ok_bind]
  dsimp only
  rw [expectSpace, expectChar_iff.mpr hspace, ok_bind,
    parseURL_complete hurl url_nonempty url_noSpace hspace' (by omega), ok_bind]
  dsimp only
  rw [expectSpace, expectChar_iff.mpr hspace', ok_bind,
    parseHttpVersion_complete hversion versionWord hcrlf.data_eq hcrlf.len_pos (by decide)
      (by omega), ok_bind]
  dsimp only
  rw [expectNewline_iff.mpr hcrlf]
  rfl

theorem parseRequestLine_complete {str rest : StringRef} {line url : Bytes} {method : HttpMethod}
    {version : HttpVersion} (h : Consumes str line rest)
    (hline : RequestLineText line method url version) (hmax : line.length ≤ intMax) :
    ∃ ref, parseRequestLine str = .ok ((method, ref, version), rest) ∧ ref.bytes = url := by
  obtain ⟨methodWord, url_nonempty, url_noSpace, versionWord⟩ := hline
  simp only [List.length_append, List.length_cons, List.length_nil] at hmax
  exact parseRequestLine_parts h methodWord url_nonempty url_noSpace versionWord (by omega)

/-- A line that starts with `/` is never accepted: its url ends at a blank or at
the end of the input, and neither is a newline. -/
theorem parseURL_not_newline {str mid rest ref : StringRef} (h : parseURL str = .ok (ref, mid)) :
    ¬ Consumes mid crlf rest := by
  intro hcrlf
  obtain ⟨-, -, -, -, -, -, hend⟩ := parseURL_sound h
  rcases hend with hend | hend
  · have hlen := hcrlf.len_eq
    rw [hend, List.length_cons] at hlen
    omega
  · rw [hcrlf.data_eq] at hend
    exact absurd (Option.some.inj hend) (by decide)

theorem parseRequestLine_sound {str rest ref : StringRef} {method : HttpMethod}
    {version : HttpVersion} (h : parseRequestLine str = .ok ((method, ref, version), rest)) :
    ∃ line, Consumes str line rest ∧ RequestLineText line method ref.bytes version ∧
      ref.Readable := by
  unfold parseRequestLine at h
  obtain ⟨c, -, h⟩ := bind_eq_ok.mp h
  split at h
  · obtain ⟨⟨url, s1⟩, hurl, h⟩ := bind_eq_ok.mp h
    obtain ⟨s2, hcrlf, -⟩ := bind_eq_ok.mp h
    exact absurd (expectNewline_iff.mp hcrlf) (parseURL_not_newline hurl)
  · obtain ⟨⟨found, s1⟩, hmethod, h⟩ := bind_eq_ok.mp h
    obtain ⟨s2, hspace, h⟩ := bind_eq_ok.mp h
    obtain ⟨⟨url, s3⟩, hurl, h⟩ := bind_eq_ok.mp h
    obtain ⟨s4, hspace', h⟩ := bind_eq_ok.mp h
    obtain ⟨⟨v, s5⟩, hversion, h⟩ := bind_eq_ok.mp h
    obtain ⟨s6, hcrlf, h⟩ := bind_eq_ok.mp h
    have hspace := expectChar_iff.mp hspace
    have hspace' := expectChar_iff.mp hspace'
    have hcrlf := expectNewline_iff.mp hcrlf
    simp only [pure_eq_ok, Except.ok.injEq, Prod.mk.injEq] at h
    obtain ⟨⟨rfl, rfl, rfl⟩, rfl⟩ := h
    obtain ⟨word, hword, methodWord, -⟩ := parseMethod_sound hmethod hspace
    obtain ⟨urlText, htaken, hne, hnoSpace, rfl, -⟩ := parseURL_sound hurl
    obtain ⟨versionText, hversion, versionWord, -⟩ :=
      parseHttpVersion_sound hversion hcrlf (by decide)
    refine ⟨_, ((((hword.trans hspace).trans htaken).trans hspace').trans hversion).trans hcrlf, ?_,
      htaken.taken_readable⟩
    rw [htaken.taken_bytes]
    exact .mk methodWord hne hnoSpace versionWord

/-- The index of the url is an `int`. -/
theorem parseRequestLine_url_le {str rest ref : StringRef} {method : HttpMethod}
    {version : HttpVersion} (h : parseRequestLine str = .ok ((method, ref, version), rest)) :
    ref.len ≤ intMax := by
  have hbound : ∀ {s mid}, parseURL s = .ok (ref, mid) → ref.len ≤ intMax := by
    intro s mid hurl
    obtain ⟨url, -, -, -, rfl, hmax, -⟩ := parseURL_sound hurl
    exact hmax
  unfold parseRequestLine at h
  obtain ⟨c, -, h⟩ := bind_eq_ok.mp h
  split at h
  · obtain ⟨⟨url, s1⟩, hurl, h⟩ := bind_eq_ok.mp h
    obtain ⟨s2, -, h⟩ := bind_eq_ok.mp h
    simp only [pure_eq_ok, Except.ok.injEq, Prod.mk.injEq] at h
    exact hbound (h.1.2.1 ▸ hurl)
  · obtain ⟨⟨found, s1⟩, -, h⟩ := bind_eq_ok.mp h
    obtain ⟨s2, -, h⟩ := bind_eq_ok.mp h
    obtain ⟨⟨url, s3⟩, hurl, h⟩ := bind_eq_ok.mp h
    obtain ⟨s4, -, h⟩ := bind_eq_ok.mp h
    obtain ⟨⟨v, s5⟩, -, h⟩ := bind_eq_ok.mp h
    obtain ⟨s6, -, h⟩ := bind_eq_ok.mp h
    simp only [pure_eq_ok, Except.ok.injEq, Prod.mk.injEq] at h
    exact hbound (h.1.2.1 ▸ hurl)

@[simp] theorem statusCodeOf_digits (a b c : Byte) (rest : Bytes) :
    statusCodeOf ⟨3, a :: b :: c :: rest⟩ =
      if a ≤ 48 ∨ 53 < a then .error (.status 1) else .ok (codeOfDigits a b c) := by
  unfold statusCodeOf codeOfDigits
  rw [if_neg (by simp), readAt_cons_zero, ok_bind]
  split
  · rfl
  · simp [strToInt, List.range_succ, readAt]
    omega

/-- The first digit test leaves the codes 100 to 599. -/
theorem status_first_digit {a : Byte} : ¬ (a ≤ 48 ∨ 53 < a) ↔ 49 ≤ a ∧ a ≤ 53 := by
  simp only [UInt8.le_iff_toNat_le, UInt8.lt_iff_toNat_lt]
  have h49 : UInt8.toNat 49 = 49 := rfl
  have h48 : UInt8.toNat 48 = 48 := rfl
  omega

theorem statusCodeOf_sound {run data : Bytes} {code : Int}
    (h : statusCodeOf ⟨run.length, run ++ data⟩ = .ok code) :
    ∃ a b c, run = [a, b, c] ∧ (49 ≤ a ∧ a ≤ 53) ∧ code = codeOfDigits a b c := by
  by_cases hlen : run.length = 3
  · obtain ⟨a, b, c, rfl⟩ := List.length_eq_three.mp hlen
    rw [List.length_cons, List.cons_append] at h
    simp only [List.length_cons, List.length_nil, List.cons_append, List.nil_append, Nat.zero_add,
      Nat.reduceAdd, statusCodeOf_digits] at h
    split at h
    · simp at h
    · rename_i hfirst
      exact ⟨a, b, c, rfl, status_first_digit.mp hfirst, (Except.ok.inj h).symm⟩
  · rw [statusCodeOf, if_pos hlen] at h
    simp at h

theorem parseStatusLine_parts {str rest : StringRef} {versionText msg : Bytes} {a b c : Byte}
    {version : HttpVersion}
    (h : Consumes str (versionText ++ [space] ++ [a, b, c] ++ [space] ++ msg ++ crlf) rest)
    (versionWord : VersionText versionText version) (first_digit : 49 ≤ a ∧ a ≤ 53)
    (second_digit : isDigit b = true) (third_digit : isDigit c = true)
    (msg_oneLine : ¬ crlf <:+: msg) (hmax : versionText.length ≤ intMax + 4) :
    ∃ ref, parseStatusLine str = .ok ((version, codeOfDigits a b c, ref), rest) ∧
      ref.bytes = msg := by
  simp only [List.append_assoc] at h
  obtain ⟨s1, hversion, h⟩ := h.split
  obtain ⟨s2, hspace, h⟩ := h.split
  obtain ⟨s3, hcode, h⟩ := h.split
  obtain ⟨s4, hspace', h⟩ := h.split
  obtain ⟨s5, hmsg, hcrlf⟩ := h.split
  have hdigits : ∀ d ∈ [a, b, c], isDigit d = true := by
    have ha : isDigit a = true := by
      simp only [isDigit, Bool.and_eq_true, decide_eq_true_eq, UInt8.le_iff_toNat_le] at *
      have h49 : UInt8.toNat 49 = 49 := rfl
      have h48 : UInt8.toNat 48 = 48 := rfl
      have h53 : UInt8.toNat 53 = 53 := rfl
      have h57 : UInt8.toNat 57 = 57 := rfl
      omega
    simp [ha, second_digit, third_digit]
  have hnumber : parseNumber s2 = .ok (⟨3, a :: b :: c :: s3.data⟩, s3) := by
    have := parseRun_of_consumes hcode hdigits hspace'.data_eq hspace'.len_pos (by decide)
      (by simp [intMax])
    rwa [hcode.data_eq] at this
  refine ⟨⟨msg.length, s4.data⟩, ?_, hmsg.taken_bytes⟩
  unfold parseStatusLine
  rw [parseHttpVersion_complete hversion versionWord hspace.data_eq hspace.len_pos (by decide)
    hmax, ok_bind]
  dsimp only
  rw [expectSpace, expectChar_iff.mpr hspace, ok_bind, hnumber, ok_bind]
  dsimp only
  rw [statusCodeOf_digits, if_neg (status_first_digit.mpr first_digit), ok_bind, expectSpace,
    expectChar_iff.mpr hspace', ok_bind, skipToNewline_complete hmsg hcrlf msg_oneLine, ok_bind]
  rw [expectNewline_iff.mpr hcrlf, hmsg.len_sub]
  rfl

theorem parseStatusLine_complete {str rest : StringRef} {line msg : Bytes} {version : HttpVersion}
    {code : Int} (h : Consumes str line rest) (hline : StatusLineText line version code msg)
    (hmax : line.length ≤ intMax) :
    ∃ ref, parseStatusLine str = .ok ((version, code, ref), rest) ∧ ref.bytes = msg := by
  obtain ⟨versionWord, first_digit, second_digit, third_digit, msg_oneLine⟩ := hline
  simp only [List.length_append, List.length_cons, List.length_nil] at hmax
  exact parseStatusLine_parts h versionWord first_digit second_digit third_digit msg_oneLine
    (by omega)

theorem parseStatusLine_sound {str rest ref : StringRef} {version : HttpVersion} {code : Int}
    (h : parseStatusLine str = .ok ((version, code, ref), rest)) :
    ∃ line, Consumes str line rest ∧ StatusLineText line version code ref.bytes ∧
      ref.Readable := by
  unfold parseStatusLine at h
  obtain ⟨⟨v, s1⟩, hversion, h⟩ := bind_eq_ok.mp h
  obtain ⟨s2, hspace, h⟩ := bind_eq_ok.mp h
  obtain ⟨⟨number, s3⟩, hnumber, h⟩ := bind_eq_ok.mp h
  obtain ⟨value, hcode, h⟩ := bind_eq_ok.mp h
  obtain ⟨s4, hspace', h⟩ := bind_eq_ok.mp h
  obtain ⟨s5, hmsg, h⟩ := bind_eq_ok.mp h
  obtain ⟨s6, hcrlf, h⟩ := bind_eq_ok.mp h
  have hspace := expectChar_iff.mp hspace
  have hspace' := expectChar_iff.mp hspace'
  have hcrlf := expectNewline_iff.mp hcrlf
  simp only [pure_eq_ok, Except.ok.injEq, Prod.mk.injEq] at h
  obtain ⟨⟨rfl, rfl, rfl⟩, rfl⟩ := h
  obtain ⟨versionText, hversion, versionWord, -⟩ :=
    parseHttpVersion_sound hversion hspace (by decide)
  obtain ⟨run, hrun, hdigits, rfl, -⟩ := parseRun_sound hnumber hspace' (by decide)
  rw [hrun.data_eq] at hcode
  obtain ⟨a, b, c, rfl, hfirst, rfl⟩ := statusCodeOf_sound hcode
  obtain ⟨msg, hmsg, hfree⟩ := skipToNewline_sound hmsg
  have hmsg : Consumes s4 msg s5 := hmsg
  rw [hmsg.len_sub]
  refine ⟨_, ((((hversion.trans hspace).trans hrun).trans hspace').trans hmsg).trans hcrlf, ?_,
    hmsg.taken_readable⟩
  rw [hmsg.taken_bytes]
  exact .mk versionWord hfirst (hdigits b (by simp)) (hdigits c (by simp)) hfree

theorem RequestLineText.ne_nil {line url : Bytes} {method : HttpMethod} {version : HttpVersion}
    (h : RequestLineText line method url version) : line ≠ [] := by
  cases h
  simp

theorem parseHeader_struct {rt : Runtime} {str rest : StringRef} {head : HttpHeader} :
    parseHeader rt str true = .ok (head, rest) ↔
      ∃ hs, parseHeaderStruct rt str = .ok (hs, rest) ∧ head = .asStruct hs := by
  unfold parseHeader
  rw [if_pos rfl, bind_eq_ok]
  constructor
  · rintro ⟨⟨hs, str'⟩, hheader, hhead⟩
    simp only [pure_eq_ok, Except.ok.injEq, Prod.mk.injEq] at hhead
    exact ⟨hs, hhead.2 ▸ hheader, hhead.1.symm⟩
  · rintro ⟨hs, hheader, rfl⟩
    exact ⟨(hs, rest), hheader, rfl⟩

/-- The calls of an accepting run, in either mode. -/
theorem parseHttpRequest_calls {rt : Runtime} {str : StringRef} {mode : Bool} {req : HttpRequest} :
    parseHttpRequest rt str mode = .ok req ↔ str.len ≠ 0 ∧ ∃ after blank,
      parseRequestLine str = .ok ((req.method, req.url, req.version), after) ∧
      parseHeader rt after mode = .ok (req.head, blank) ∧ Consumes blank crlf req.body := by
  unfold parseHttpRequest
  constructor
  · intro h
    split at h
    · simp at h
    · rename_i hlen
      obtain ⟨⟨line, after⟩, hline, h⟩ := bind_eq_ok.mp h
      obtain ⟨⟨head, blank⟩, hheader, h⟩ := bind_eq_ok.mp h
      obtain ⟨body, hcrlf, h⟩ := bind_eq_ok.mp h
      cases Except.ok.inj h
      exact ⟨hlen, after, blank, hline, hheader, expectNewline_iff.mp hcrlf⟩
  · rintro ⟨hlen, after, blank, hline, hheader, hcrlf⟩
    rw [if_neg hlen, hline, ok_bind]
    dsimp only
    rw [hheader, ok_bind]
    dsimp only
    rw [expectNewline_iff.mpr hcrlf]
    rfl

theorem parseHttpResponse_calls {rt : Runtime} {str : StringRef} {mode : Bool}
    {resp : HttpResponse} : parseHttpResponse rt str mode = .ok resp ↔ ∃ after blank,
      parseStatusLine str = .ok ((resp.version, resp.statusCode, resp.statusMsg), after) ∧
      parseHeader rt after mode = .ok (resp.head, blank) ∧ Consumes blank crlf resp.body := by
  unfold parseHttpResponse
  constructor
  · intro h
    obtain ⟨⟨line, after⟩, hline, h⟩ := bind_eq_ok.mp h
    obtain ⟨⟨head, blank⟩, hheader, h⟩ := bind_eq_ok.mp h
    obtain ⟨body, hcrlf, h⟩ := bind_eq_ok.mp h
    cases Except.ok.inj h
    exact ⟨after, blank, hline, hheader, expectNewline_iff.mp hcrlf⟩
  · rintro ⟨after, blank, hline, hheader, hcrlf⟩
    rw [hline, ok_bind]
    dsimp only
    rw [hheader, ok_bind]
    dsimp only
    rw [expectNewline_iff.mpr hcrlf]
    rfl

/-- Every request text is accepted and its message returned, if the array for
its fields can be allocated. -/
theorem parseHttpRequest_complete {rt : Runtime} {str : StringRef} {m : RequestMessage}
    (hread : str.Readable) (hsmall : str.len < 2 ^ 27) (htext : RequestText str.bytes m)
    (halloc : m.fields = [] ∨ rt.malloc (sizeofHttpHeaderField * m.fields.length) = true) :
    ∃ req, parseHttpRequest rt str true = .ok req ∧ req.message = some m := by
  generalize hbytes : str.bytes = bytes at htext
  obtain @⟨line, url, body, method, version, requestLine, lines⟩ := htext
  simp only [List.append_assoc] at hbytes
  obtain ⟨s1, hline, hrest, hread⟩ := Consumes.of_bytes hread hbytes
  obtain ⟨s2, hlines, hrest, hread⟩ := Consumes.of_bytes hread hrest
  obtain ⟨s3, hcrlf, hbody, -⟩ := Consumes.of_bytes hread hrest
  have hpos : str.len ≠ 0 := by
    rw [hline.len_eq, Ne, Nat.add_eq_zero_iff, List.length_eq_zero_iff]
    exact fun h => requestLine.ne_nil h.1
  have hs1 := hline.len_le
  have hmax : line.length ≤ intMax := by
    have := hline.length_le
    unfold intMax
    omega
  obtain ⟨ref, hrequestLine, hurl⟩ := parseRequestLine_complete hline requestLine hmax
  obtain ⟨hs, hheader, hfields⟩ := parseHeaderStruct_complete rt lines hlines hcrlf
    (by omega) (by simpa using halloc)
  refine ⟨⟨method, ref, version, .asStruct hs, s3⟩, ?_, ?_⟩
  · apply parseHttpRequest_calls.mpr
    exact ⟨hpos, s1, s2, hrequestLine, parseHeader_struct.mpr ⟨hs, hheader, rfl⟩, hcrlf⟩
  · simp [HttpRequest.message, HttpHeader.pairs, hurl, hfields, hbody]

/-- Whatever is accepted is a request text, and its message is returned. -/
theorem parseHttpRequest_sound {rt : Runtime} {str : StringRef} {req : HttpRequest}
    (h : parseHttpRequest rt str true = .ok req) :
    ∃ m, req.message = some m ∧ RequestText str.bytes m ∧ (str.Readable → req.Readable) ∧
      (m.fields = [] ∨ rt.malloc (toSize (headerFieldsSize m.fields.length)) = true) := by
  obtain ⟨-, s1, s2, hrequestLine, hheader, hcrlf⟩ := parseHttpRequest_calls.mp h
  obtain ⟨hs, hstruct, hhead⟩ := parseHeader_struct.mp hheader
  obtain ⟨line, hline, hlineText, hurl⟩ := parseRequestLine_sound hrequestLine
  obtain ⟨lines, hlines, hfields, hreadable, halloc⟩ := parseHeaderStruct_sound hstruct
  have hall := (hline.trans hlines).trans hcrlf
  refine ⟨⟨req.method, req.url.bytes, req.version, lines.map FieldLine.pair, req.body.bytes⟩,
    ?_, ?_, ?_, ?_⟩
  · simp [HttpRequest.message, hhead, HttpHeader.pairs, hfields]
  · rw [hall.bytes_eq]
    exact .mk hlineText lines
  · intro hread
    rw [HttpRequest.Readable, hhead]
    exact ⟨hurl, hreadable, hall.readable.mpr hread⟩
  · simpa using halloc

theorem parseHttpResponse_complete {rt : Runtime} {str : StringRef} {m : ResponseMessage}
    (hread : str.Readable) (hsmall : str.len < 2 ^ 27) (htext : ResponseText str.bytes m)
    (halloc : m.fields = [] ∨ rt.malloc (sizeofHttpHeaderField * m.fields.length) = true) :
    ∃ resp, parseHttpResponse rt str true = .ok resp ∧ resp.message = some m := by
  generalize hbytes : str.bytes = bytes at htext
  obtain @⟨line, msg, body, version, code, statusLine, lines⟩ := htext
  simp only [List.append_assoc] at hbytes
  obtain ⟨s1, hline, hrest, hread⟩ := Consumes.of_bytes hread hbytes
  obtain ⟨s2, hlines, hrest, hread⟩ := Consumes.of_bytes hread hrest
  obtain ⟨s3, hcrlf, hbody, -⟩ := Consumes.of_bytes hread hrest
  have hs1 := hline.len_le
  have hmax : line.length ≤ intMax := by
    have := hline.length_le
    unfold intMax
    omega
  obtain ⟨ref, hstatusLine, hmsg⟩ := parseStatusLine_complete hline statusLine hmax
  obtain ⟨hs, hheader, hfields⟩ := parseHeaderStruct_complete rt lines hlines hcrlf
    (by omega) (by simpa using halloc)
  refine ⟨⟨version, code, ref, .asStruct hs, s3⟩, ?_, ?_⟩
  · apply parseHttpResponse_calls.mpr
    exact ⟨s1, s2, hstatusLine, parseHeader_struct.mpr ⟨hs, hheader, rfl⟩, hcrlf⟩
  · simp [HttpResponse.message, HttpHeader.pairs, hmsg, hfields, hbody]

theorem parseHttpResponse_sound {rt : Runtime} {str : StringRef} {resp : HttpResponse}
    (h : parseHttpResponse rt str true = .ok resp) :
    ∃ m, resp.message = some m ∧ ResponseText str.bytes m ∧ (str.Readable → resp.Readable) ∧
      (m.fields = [] ∨ rt.malloc (toSize (headerFieldsSize m.fields.length)) = true) := by
  obtain ⟨s1, s2, hstatusLine, hheader, hcrlf⟩ := parseHttpResponse_calls.mp h
  obtain ⟨hs, hstruct, hhead⟩ := parseHeader_struct.mp hheader
  obtain ⟨line, hline, hlineText, hmsg⟩ := parseStatusLine_sound hstatusLine
  obtain ⟨lines, hlines, hfields, hreadable, halloc⟩ := parseHeaderStruct_sound hstruct
  have hall := (hline.trans hlines).trans hcrlf
  refine ⟨⟨resp.version, resp.statusCode, resp.statusMsg.bytes, lines.map FieldLine.pair,
    resp.body.bytes⟩, ?_, ?_, ?_, ?_⟩
  · simp [HttpResponse.message, hhead, HttpHeader.pairs, hfields]
  · rw [hall.bytes_eq]
    exact .mk hlineText lines
  · intro hread
    rw [HttpResponse.Readable, hhead]
    exact ⟨hmsg, hreadable, hall.readable.mpr hread⟩
  · simpa using halloc

end Net77.Http
