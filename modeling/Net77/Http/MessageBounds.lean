import Net77.Http.HeaderBounds

/-! Which requests and responses are read on behind their end in struct mode. -/
namespace Net77.Http

open Net77.Base

/-- Where the digits of a version leave the input. -/
inductive DigitsRunOut : Bytes → Prop where
  | major {text : Bytes} (long : TooLong isDigit text) : DigitsRunOut ([slash] ++ text)
  | minor {d : Byte} {text : Bytes} (major_cases : d = 48 ∨ d = 49 ∨ d = 50)
      (long : TooLong isDigit text) : DigitsRunOut ([slash, d, dot] ++ text)

/-- The word of a version is compared with the literal whatever its length is, so that
an input that ends inside the literal is read on. -/
inductive VersionRunsOut : Bytes → Prop where
  | inWord {text : Bytes} (ends : EndsInside (text.map toLower) httpLiteral) : VersionRunsOut text
  | longWord {text : Bytes} (long : TooLong isLetter text) : VersionRunsOut text
  | inDigits {word text : Bytes} (letters : ∀ c ∈ word, isLetter c = true)
      (named : httpLiteral <+: word.map toLower) (digits : DigitsRunOut text) :
      VersionRunsOut (word ++ text)

section Version

variable {str mid : StringRef}

/-- The parts of an input that ends with its object. -/
theorem Consumes.of_whole {front text : Bytes} (h : str.Whole) (hdata : str.data = front ++ text) :
    Consumes str front ⟨text.length, text⟩ := by
  refine ⟨hdata, ?_⟩
  unfold StringRef.Whole at h
  rw [← h, hdata, List.length_append]

theorem majorDigit_inside {major : StringRef} (h : major.len ≤ major.data.length) :
    StaysInside (majorDigit major) := by
  unfold majorDigit
  split
  · exact staysInside_status 1
  · rw [readAt_inside (by omega), ok_bind]
    split
    · exact staysInside_status 1
    · exact staysInside_ok _

theorem minorDigit_inside {minor : StringRef} (h : minor.len ≤ minor.data.length) :
    StaysInside (minorDigit minor) := by
  unfold minorDigit
  split
  · exact staysInside_status 1
  · rw [readAt_inside (by omega), ok_bind]
    exact staysInside_ok _

theorem versionOfDigits_inside (maj min : Int) : StaysInside (versionOfDigits maj min) := by
  unfold versionOfDigits
  split
  · split
    · exact staysInside_status 1
    · exact staysInside_ok _
  · split
    · split
      · exact staysInside_status 1
      · exact staysInside_ok _
    · exact staysInside_ok _

/-- The digits behind the word. -/
def parseVersionDigits (str : StringRef) : Except Stop (HttpVersion × StringRef) := do
  let str ← expectChar str slash
  let (major, str) ← parseNumber str
  let maj ← majorDigit major
  let str ← expectChar str dot
  let (minor, str) ← parseNumber str
  let min ← minorDigit minor
  let v ← versionOfDigits maj min
  pure (v, str)

theorem parseHttpVersion_eq (str : StringRef) :
    parseHttpVersion str = (do
      let (http, str) ← parseWord str
      if ← strLowerEqLiteral http.data httpLiteral then parseVersionDigits str
      else .error (.status 1)) := rfl

theorem parseVersionDigits_whole {v : HttpVersion} (h : str.Whole)
    (hdigits : parseVersionDigits str = .ok (v, mid)) : mid.Whole := by
  unfold parseVersionDigits at hdigits
  obtain ⟨s2, hslash, hdigits⟩ := bind_eq_ok.mp hdigits
  obtain ⟨⟨major, s3⟩, hmajor, hdigits⟩ := bind_eq_ok.mp hdigits
  obtain ⟨maj, -, hdigits⟩ := bind_eq_ok.mp hdigits
  obtain ⟨s4, hdot, hdigits⟩ := bind_eq_ok.mp hdigits
  obtain ⟨⟨minor, s5⟩, hminor, hdigits⟩ := bind_eq_ok.mp hdigits
  obtain ⟨min, -, hdigits⟩ := bind_eq_ok.mp hdigits
  obtain ⟨version, -, hdigits⟩ := bind_eq_ok.mp hdigits
  cases Except.ok.inj hdigits
  have h3 := (parseRun_whole (expectChar_whole h hslash) hmajor).1
  exact (parseRun_whole (expectChar_whole h3 hdot) hminor).1

theorem parseHttpVersion_whole {v : HttpVersion} (h : str.Whole)
    (hversion : parseHttpVersion str = .ok (v, mid)) : mid.Whole := by
  rw [parseHttpVersion_eq] at hversion
  obtain ⟨⟨http, s1⟩, hword, hversion⟩ := bind_eq_ok.mp hversion
  obtain ⟨named, -, hversion⟩ := bind_eq_ok.mp hversion
  split at hversion
  · exact parseVersionDigits_whole (parseRun_whole h hword).1 hversion
  · contradiction

theorem DigitsRunOut.leaves (hruns : DigitsRunOut str.data) (h : str.Whole) :
    ¬ StaysInside (parseVersionDigits str) := by
  intro hstays
  unfold parseVersionDigits at hstays
  generalize hdata : str.data = data at hruns
  cases hruns with
  | major long =>
    have hslash := Consumes.of_whole h hdata
    rw [expectChar_iff.mpr hslash, ok_bind] at hstays
    exact (parseRun_inside_iff (hslash.whole.mpr h)).mp (staysInside_bind.mp hstays).1 long
  | @minor d text major_cases long =>
    have hall := Consumes.of_whole h hdata
    obtain ⟨s1, hslash, hmore⟩ :=
      (show Consumes str ([slash] ++ ([d] ++ [dot])) ⟨text.length, text⟩ from hall).split
    obtain ⟨s2, hmajor, hdot⟩ := hmore.split
    have hd : isDigit d = true := by rcases major_cases with rfl | rfl | rfl <;> rfl
    rw [expectChar_iff.mpr hslash, ok_bind,
      parseNumber_digit hmajor hd hdot.data_eq hdot.len_pos (by decide), ok_bind] at hstays
    dsimp only at hstays
    rw [majorDigit_complete major_cases, ok_bind, expectChar_iff.mpr hdot, ok_bind] at hstays
    exact (parseRun_inside_iff (hall.whole.mpr h)).mp (staysInside_bind.mp hstays).1 long

/-- Behind the slash, every digit that is looked at has been scanned. -/
theorem parseVersionDigits_inside (h : str.Whole) (hruns : ¬ DigitsRunOut str.data) :
    StaysInside (parseVersionDigits str) := by
  unfold parseVersionDigits
  apply expectChar_then slash h
  intro s1 hslash h1
  have hmajorShort : ¬ TooLong isDigit s1.data := fun long => hruns (hslash.data_eq ▸ .major long)
  apply parseRun_then h1 hmajorShort
  intro major s2 hmajor h2 hlen
  apply (majorDigit_inside hlen).bind
  intro maj hmaj
  apply expectChar_then dot h2
  intro s3 hdot h3
  have hminorShort : ¬ TooLong isDigit s3.data := by
    intro long
    obtain ⟨d, hd, major_cases, -⟩ := majorNumber_sound hmajor hdot hmaj
    have hall := ((hslash.trans hd).trans hdot).data_eq
    exact hruns (hall ▸ .minor major_cases long)
  apply parseRun_then h3 hminorShort
  intro minor s4 _ _ hlen'
  apply (minorDigit_inside hlen').bind
  intro min _
  apply (versionOfDigits_inside maj min).bind
  intro version _
  exact staysInside_ok _

theorem DigitsRunOut.behind_slash {text : Bytes} (h : DigitsRunOut text) :
    ∃ more, text = [slash] ++ more := by
  cases h with
  | major _ => exact ⟨_, rfl⟩
  | minor _ _ => exact ⟨_, rfl⟩

theorem parseHttpVersion_inside_iff (h : str.Whole) :
    StaysInside (parseHttpVersion str) ↔ ¬ VersionRunsOut str.data := by
  rw [parseHttpVersion_eq, staysInside_bind]
  constructor
  · rintro ⟨hrun, hnext⟩ hruns
    have hshort := (parseRun_inside_iff h).mp hrun
    generalize hdata : str.data = data at hruns
    cases hruns with
    | inWord ends =>
      obtain ⟨word, mid, hword⟩ := parseRun_ok hrun
      have hstays := hnext (word, mid) hword
      dsimp only at hstays
      rw [(parseRun_whole h hword).2.1, hdata, strLowerEqLiteral_eq, if_pos ends] at hstays
      exact not_staysInside_outOfBounds (staysInside_bind.mp hstays).1
    | longWord long => exact hshort (hdata ▸ long)
    | @inDigits word text letters named digits =>
      obtain ⟨more, rfl⟩ := digits.behind_slash
      have hword := Consumes.of_whole h hdata
      rw [hdata] at hshort
      obtain ⟨hparsed, hnamed⟩ := httpWord_complete hword letters named
        (Consumes.of_whole (hword.whole.mpr h) rfl) (run_short hshort letters)
      have hstays := hnext _ hparsed
      dsimp only at hstays
      rw [hnamed, ok_bind, if_pos rfl] at hstays
      exact digits.leaves (hword.whole.mpr h) hstays
  · intro hruns
    refine ⟨(parseRun_inside_iff h).mpr fun long => hruns (.longWord long), ?_⟩
    rintro ⟨http, mid⟩ hrun
    obtain ⟨hmid, hdata, -⟩ := parseRun_whole h hrun
    dsimp only
    rw [staysInside_bind]
    constructor
    · rw [hdata, strLowerEqLiteral_eq, if_neg fun ends => hruns (.inWord ends)]
      exact staysInside_ok _
    intro named hnamed
    split
    · rename_i htrue
      apply parseVersionDigits_inside hmid
      intro digits
      obtain ⟨more, hmore⟩ := digits.behind_slash
      rw [htrue] at hnamed
      obtain ⟨word, hword, letters, hprefix, -⟩ :=
        httpWord_sound hrun (Consumes.of_whole hmid hmore) hnamed
      exact hruns (hword.data_eq ▸ .inDigits letters hprefix digits)
    · exact staysInside_status 1

theorem VersionText.short {text more : Bytes} {v : HttpVersion} (h : VersionText text v)
    (hin : ¬ VersionRunsOut (text ++ more)) : text.length ≤ intMax + 4 := by
  cases h with
  | @mk word major minor _ letters =>
    have hshort : ¬ TooLong isLetter (word ++ ([slash, major, dot, minor] ++ more)) := by
      rw [← List.append_assoc]
      exact fun long => hin (.longWord long)
    have hle := run_short hshort letters
    rw [List.length_append]
    exact Nat.add_le_add_right hle 4

end Version

/-- Where a request line leaves the input behind its method. -/
inductive TargetRunsOut : Bytes → Prop where
  | longURL {text : Bytes} (long : TooLong (· ≠ space) text) : TargetRunsOut text
  | inVersion {url text : Bytes} (url_nonempty : url ≠ []) (url_noSpace : ∀ c ∈ url, c ≠ space)
      (version : VersionRunsOut text) : TargetRunsOut (url ++ [space] ++ text)

/-- Where the first line of a request leaves the input. A method is compared like the
word of a version. -/
inductive RequestLineRunsOut : Bytes → Prop where
  | oldURL {text : Bytes} (long : TooLong (· ≠ space) ([slash] ++ text)) :
      RequestLineRunsOut ([slash] ++ text)
  | inMethod {text : Bytes} {method : HttpMethod} (nonempty : text ≠ [])
      (ends : EndsInside text method.name) : RequestLineRunsOut text
  | longMethod {text : Bytes} (long : TooLong isLetter text) : RequestLineRunsOut text
  | inTarget {word text : Bytes} {method : HttpMethod} (methodWord : MethodWord word method)
      (target : TargetRunsOut text) : RequestLineRunsOut (word ++ [space] ++ text)

/-- Where the first line of a response leaves the input. -/
inductive StatusLineRunsOut : Bytes → Prop where
  | inVersion {text : Bytes} (version : VersionRunsOut text) : StatusLineRunsOut text
  | longCode {versionText text : Bytes} {version : HttpVersion}
      (versionWord : VersionText versionText version) (long : TooLong isDigit text) :
      StatusLineRunsOut (versionText ++ [space] ++ text)

inductive RequestRunsOut : Bytes → Prop where
  | inLine {text : Bytes} (line : RequestLineRunsOut text) : RequestRunsOut text
  | inHeader {line url text : Bytes} {method : HttpMethod} {version : HttpVersion}
      (requestLine : RequestLineText line method url version) (header : HeaderRunsOut text) :
      RequestRunsOut (line ++ text)

inductive ResponseRunsOut : Bytes → Prop where
  | inLine {text : Bytes} (line : StatusLineRunsOut text) : ResponseRunsOut text
  | inHeader {line msg text : Bytes} {version : HttpVersion} {code : Int}
      (statusLine : StatusLineText line version code msg) (header : HeaderRunsOut text) :
      ResponseRunsOut (line ++ text)

section RequestLine

variable {str mid : StringRef}

theorem parseMethod_inside_iff (h : str.Whole) : StaysInside (parseMethod str) ↔
    ¬ TooLong isLetter str.data ∧ ∀ method : HttpMethod, ¬ EndsInside str.data method.name := by
  unfold parseMethod
  rw [staysInside_bind]
  constructor
  · rintro ⟨hrun, hnext⟩
    refine ⟨(parseRun_inside_iff h).mp hrun, ?_⟩
    obtain ⟨word, mid, hword⟩ := parseRun_ok hrun
    have hstays := (staysInside_bind.mp (hnext (word, mid) hword)).1
    rw [(parseRun_whole h hword).2.1] at hstays
    exact methodLiterals_inside.mp hstays
  · rintro ⟨hshort, hends⟩
    refine ⟨(parseRun_inside_iff h).mpr hshort, ?_⟩
    rintro ⟨word, mid⟩ hword
    dsimp only
    rw [staysInside_bind, (parseRun_whole h hword).2.1]
    exact ⟨methodLiterals_inside.mpr hends, fun method _ => staysInside_ok _⟩

theorem parseMethod_whole {method : HttpMethod} (h : str.Whole)
    (hmethod : parseMethod str = .ok (method, mid)) : mid.Whole := by
  unfold parseMethod at hmethod
  obtain ⟨⟨word, s1⟩, hword, hmethod⟩ := bind_eq_ok.mp hmethod
  obtain ⟨found, -, hmethod⟩ := bind_eq_ok.mp hmethod
  cases Except.ok.inj hmethod
  exact (parseRun_whole h hword).1

/-- The line behind the method and its blank. -/
def parseRequestTarget (method : HttpMethod) (str : StringRef) :
    Except Stop ((HttpMethod × StringRef × HttpVersion) × StringRef) := do
  let (url, str) ← parseURL str
  let str ← expectSpace str
  let (version, str) ← parseHttpVersion str
  let str ← expectNewline str
  pure ((method, url, version), str)

theorem parseRequestLine_eq {c : Byte} {tail : Bytes} (hdata : str.data = c :: tail)
    (hc : c ≠ slash) :
    parseRequestLine str = (do
      let (method, str) ← parseMethod str
      let str ← expectSpace str
      parseRequestTarget method str) := by
  unfold parseRequestLine
  rw [hdata, readAt_cons_zero, ok_bind, if_neg hc]
  rfl

theorem url_short {url more : Bytes} (hurl : ∀ c ∈ url, c ≠ space)
    (h : ¬ TargetRunsOut (url ++ more)) : url.length ≤ intMax := by
  have hshort : ¬ TooLong (· ≠ space) (url ++ more) := fun long => h (.longURL long)
  exact run_short hshort fun c hc => decide_eq_true (hurl c hc)

theorem parseRequestTarget_inside_iff {method : HttpMethod} (h : str.Whole) :
    StaysInside (parseRequestTarget method str) ↔ ¬ TargetRunsOut str.data := by
  unfold parseRequestTarget
  constructor
  · intro hstays hruns
    have hshort := (parseURL_inside_iff h).mp (staysInside_bind.mp hstays).1
    generalize hdata : str.data = data at hruns
    cases hruns with
    | longURL long => exact hshort (hdata ▸ long)
    | @inVersion url text url_nonempty url_noSpace version =>
      obtain ⟨s1, hurl, hspace⟩ := (Consumes.of_whole h hdata).split
      have hmax : url.length ≤ intMax := by
        rw [hurl.data_eq] at hshort
        exact run_short hshort fun c hc => decide_eq_true (url_noSpace c hc)
      rw [parseURL_complete hurl url_nonempty url_noSpace hspace hmax, ok_bind] at hstays
      dsimp only at hstays
      rw [expectSpace, expectChar_iff.mpr hspace, ok_bind] at hstays
      have hrest := (hurl.trans hspace).whole.mpr h
      exact (parseHttpVersion_inside_iff hrest).mp (staysInside_bind.mp hstays).1 version
  · intro hruns
    have hurlShort : ¬ TooLong (· ≠ space) str.data := fun long => hruns (.longURL long)
    apply ((parseURL_inside_iff h).mpr hurlShort).bind
    rintro ⟨ref, s1⟩ hparsed
    obtain ⟨url, hurl, url_nonempty, url_noSpace, -⟩ := parseURL_sound hparsed
    apply expectChar_then space (hurl.whole.mpr h)
    intro s2 hspace h2
    have hversion : ¬ VersionRunsOut s2.data := by
      intro version
      exact hruns ((hurl.trans hspace).data_eq ▸ .inVersion url_nonempty url_noSpace version)
    apply ((parseHttpVersion_inside_iff h2).mpr hversion).bind
    rintro ⟨v, s3⟩ hparsed
    exact expectNewline_last (parseHttpVersion_whole h2 hparsed)

theorem endsInside_head {c : Byte} {tail : Bytes} {method : HttpMethod}
    (h : EndsInside (c :: tail) method.name) : c ≠ slash := by
  obtain ⟨more, hmore⟩ := h.1
  rintro rfl
  cases method <;> exact absurd (List.cons.inj hmore).1 (by decide)

theorem tooLong_head {p : Byte → Bool} {text : Bytes} (h : TooLong p text) :
    ∃ c tail, text = c :: tail ∧ p c = true := by
  obtain ⟨hlong, hall⟩ := h
  cases text with
  | nil => exact absurd hlong (Nat.not_lt_zero intMax)
  | cons c tail => exact ⟨c, tail, rfl, hall c (by rw [List.take_succ_cons]; simp)⟩

theorem RequestLineRunsOut.leaves (hruns : RequestLineRunsOut str.data) (h : str.Whole) :
    ¬ StaysInside (parseRequestLine str) := by
  intro hstays
  generalize hdata : str.data = data at hruns
  cases hruns with
  | oldURL long =>
    unfold parseRequestLine at hstays
    rw [hdata, List.cons_append, readAt_cons_zero, ok_bind, if_pos rfl] at hstays
    exact (parseURL_inside_iff h).mp (staysInside_bind.mp hstays).1 (hdata ▸ long)
  | inMethod nonempty ends =>
    obtain ⟨c, tail, hcons⟩ := List.exists_cons_of_ne_nil nonempty
    rw [parseRequestLine_eq (hdata.trans hcons) (endsInside_head (hcons ▸ ends))] at hstays
    exact ((parseMethod_inside_iff h).mp (staysInside_bind.mp hstays).1).2 _ (hdata ▸ ends)
  | longMethod long =>
    obtain ⟨c, tail, hcons, hc⟩ := tooLong_head long
    have hslash : c ≠ slash := by
      rintro rfl
      contradiction
    rw [parseRequestLine_eq (hdata.trans hcons) hslash] at hstays
    exact ((parseMethod_inside_iff h).mp (staysInside_bind.mp hstays).1).1 (hdata ▸ long)
  | @inTarget word text method methodWord target =>
    obtain ⟨c, tail, hcons, hslash⟩ := methodWord_head methodWord ([space] ++ text)
    rw [← List.append_assoc] at hcons
    rw [parseRequestLine_eq (hdata.trans hcons) hslash] at hstays
    have hshort := ((parseMethod_inside_iff h).mp (staysInside_bind.mp hstays).1).1
    obtain ⟨s1, hword, hspace⟩ := (Consumes.of_whole h hdata).split
    rw [hword.data_eq] at hshort
    rw [parseMethod_complete hword methodWord hspace.data_eq hspace.len_pos
      (run_short hshort methodWord.letters), ok_bind] at hstays
    dsimp only at hstays
    rw [expectSpace, expectChar_iff.mpr hspace, ok_bind] at hstays
    exact (parseRequestTarget_inside_iff ((hword.trans hspace).whole.mpr h)).mp hstays target

/-- A line that starts with `/`. -/
theorem parseRequestLine_old_inside {tail : Bytes} (h : str.Whole) (hdata : str.data = slash :: tail)
    (hruns : ¬ RequestLineRunsOut str.data) : StaysInside (parseRequestLine str) := by
  unfold parseRequestLine
  rw [hdata, readAt_cons_zero, ok_bind, if_pos rfl]
  have hshort : ¬ TooLong (· ≠ space) str.data := by
    intro long
    rw [hdata] at long hruns
    exact hruns (.oldURL long)
  apply ((parseURL_inside_iff h).mpr hshort).bind
  rintro ⟨ref, s1⟩ hparsed
  obtain ⟨url, hurl, -⟩ := parseURL_sound hparsed
  exact expectNewline_last (hurl.whole.mpr h)

theorem parseRequestLine_inside {c : Byte} {tail : Bytes} (h : str.Whole)
    (hdata : str.data = c :: tail) (hc : c ≠ slash) (hruns : ¬ RequestLineRunsOut str.data) :
    StaysInside (parseRequestLine str) := by
  have hnonempty : str.data ≠ [] := by
    rw [hdata]
    exact List.cons_ne_nil c tail
  have hinside : StaysInside (parseMethod str) := by
    apply (parseMethod_inside_iff h).mpr
    exact ⟨fun long => hruns (.longMethod long), fun method ends => hruns (.inMethod hnonempty ends)⟩
  rw [parseRequestLine_eq hdata hc]
  apply hinside.bind
  rintro ⟨method, s1⟩ hmethod
  apply expectChar_then space (parseMethod_whole h hmethod)
  intro s2 hspace h2
  apply (parseRequestTarget_inside_iff h2).mpr
  intro target
  obtain ⟨word, hword, methodWord, -⟩ := parseMethod_sound hmethod hspace
  exact hruns ((hword.trans hspace).data_eq ▸ .inTarget methodWord target)

theorem parseRequestLine_inside_iff (h : str.Whole) (hpos : str.len ≠ 0) :
    StaysInside (parseRequestLine str) ↔ ¬ RequestLineRunsOut str.data := by
  constructor
  · intro hstays hruns
    exact hruns.leaves h hstays
  · intro hruns
    obtain ⟨c, tail, hdata⟩ : ∃ c tail, str.data = c :: tail := by
      apply List.exists_cons_of_length_pos
      unfold StringRef.Whole at h
      omega
    by_cases hc : c = slash
    · subst hc
      exact parseRequestLine_old_inside h hdata hruns
    · exact parseRequestLine_inside h hdata hc hruns

/-- A request line is read to its end, if that does not leave the input. -/
theorem RequestLineText.parses {line url : Bytes} {method : HttpMethod} {version : HttpVersion}
    {rest : StringRef} (hline : RequestLineText line method url version)
    (h : Consumes str line rest) (hin : ¬ RequestLineRunsOut str.data) :
    ∃ ref, parseRequestLine str = .ok ((method, ref, version), rest) := by
  obtain @⟨word, url, versionText, method, version, methodWord, url_nonempty, url_noSpace,
    versionWord⟩ := hline
  have hdata := h.data_eq
  simp only [List.append_assoc] at hdata
  have hword : word.length ≤ intMax := by
    rw [hdata] at hin
    exact run_short (fun long => hin (.longMethod long)) methodWord.letters
  rw [hdata, ← List.append_assoc] at hin
  have htarget := fun target => hin (.inTarget methodWord target)
  have hurl := url_short url_noSpace htarget
  rw [← List.append_assoc] at htarget
  have hversion := versionWord.short
    fun text => htarget (.inVersion url_nonempty url_noSpace text)
  obtain ⟨ref, hparsed, -⟩ := parseRequestLine_parts h methodWord url_nonempty url_noSpace
    versionWord ⟨hword, hurl, hversion⟩
  exact ⟨ref, hparsed⟩

end RequestLine

section StatusLine

variable {str mid : StringRef}

theorem statusCodeOf_inside {code : StringRef} (h : code.len ≤ code.data.length) :
    StaysInside (statusCodeOf code) := by
  obtain ⟨len, data⟩ := code
  dsimp only at h
  by_cases hlen : len = 3
  · subst hlen
    match data, h with
    | a :: b :: c :: rest, _ =>
      rw [statusCodeOf_digits]
      split
      · exact staysInside_status 1
      · exact staysInside_ok _
  · rw [statusCodeOf, if_pos hlen]
    exact staysInside_status 1

theorem StatusLineRunsOut.leaves (hruns : StatusLineRunsOut str.data) (h : str.Whole) :
    ¬ StaysInside (parseStatusLine str) := by
  intro hstays
  unfold parseStatusLine at hstays
  have hversion := (parseHttpVersion_inside_iff h).mp (staysInside_bind.mp hstays).1
  generalize hdata : str.data = data at hruns
  cases hruns with
  | inVersion version => exact hversion (hdata ▸ version)
  | @longCode versionText text _ versionWord long =>
    obtain ⟨s1, htext, hspace⟩ := (Consumes.of_whole h hdata).split
    rw [htext.data_eq] at hversion
    rw [parseHttpVersion_complete htext versionWord hspace.data_eq hspace.len_pos (by decide)
      (versionWord.short hversion), ok_bind] at hstays
    dsimp only at hstays
    rw [expectSpace, expectChar_iff.mpr hspace, ok_bind] at hstays
    have hrest := (htext.trans hspace).whole.mpr h
    exact (parseRun_inside_iff hrest).mp (staysInside_bind.mp hstays).1 long

theorem parseStatusLine_inside (h : str.Whole) (hruns : ¬ StatusLineRunsOut str.data) :
    StaysInside (parseStatusLine str) := by
  have hversion : ¬ VersionRunsOut str.data := fun version => hruns (.inVersion version)
  unfold parseStatusLine
  apply ((parseHttpVersion_inside_iff h).mpr hversion).bind
  rintro ⟨v, s1⟩ hparsed
  apply expectChar_then space (parseHttpVersion_whole h hparsed)
  intro s2 hspace h2
  have hshort : ¬ TooLong isDigit s2.data := by
    intro long
    obtain ⟨versionText, htext, versionWord, -⟩ :=
      parseHttpVersion_sound hparsed hspace (by decide)
    exact hruns ((htext.trans hspace).data_eq ▸ .longCode versionWord long)
  apply parseRun_then h2 hshort
  intro code s3 _ h3 hlen
  apply (statusCodeOf_inside hlen).bind
  intro statusCode _
  apply expectChar_then space h3
  intro s4 _ h4
  apply (skipToNewline_inside h4).bind
  intro s5 hmsg
  obtain ⟨msg, hmsg, -⟩ := skipToNewline_sound hmsg
  have h5 : s5.Whole := hmsg.whole.mpr h4
  exact expectNewline_last h5

theorem StatusLineText.parses {line msg : Bytes} {version : HttpVersion} {code : Int}
    {rest : StringRef} (hline : StatusLineText line version code msg)
    (h : Consumes str line rest) (hin : ¬ StatusLineRunsOut str.data) :
    ∃ ref, parseStatusLine str = .ok ((version, code, ref), rest) := by
  obtain @⟨versionText, msg, a, b, c, version, versionWord, first_digit, second_digit,
    third_digit, msg_oneLine⟩ := hline
  have hdata := h.data_eq
  simp only [List.append_assoc] at hdata
  rw [hdata] at hin
  have hversion := versionWord.short fun version => hin (.inVersion version)
  obtain ⟨ref, hparsed, -⟩ := parseStatusLine_parts h versionWord first_digit second_digit
    third_digit msg_oneLine hversion
  exact ⟨ref, hparsed⟩

end StatusLine

section Messages

variable {rt : Runtime} {str : StringRef}

/-- What a message has behind its first line. -/
theorem parseHead_inside_iff {α : Type} {build : HttpHeader → StringRef → α} (h : str.Whole) :
    StaysInside (do
      let (head, str) ← parseHeader rt str true
      let str ← expectNewline str
      pure (build head str)) ↔ ¬ HeaderRunsOut str.data := by
  have hheader : StaysInside (parseHeader rt str true) ↔ ¬ HeaderRunsOut str.data := by
    unfold parseHeader
    rw [if_pos rfl, staysInside_bind, parseHeaderStruct_inside_iff rt h]
    exact and_iff_left fun _ _ => staysInside_ok _
  rw [staysInside_bind, hheader]
  apply and_iff_left
  rintro ⟨head, rest⟩ hparsed
  obtain ⟨hs, hstruct, -⟩ := parseHeader_struct.mp hparsed
  exact expectNewline_last (parseHeaderStruct_whole h hstruct)

/-- Nothing is read of an empty request. -/
theorem requestRunsOut_nil : ¬ RequestRunsOut [] := by
  intro hruns
  generalize hnil : ([] : Bytes) = data at hruns
  cases hruns with
  | inLine line =>
    cases line with
    | oldURL long => contradiction
    | inMethod nonempty ends => exact nonempty hnil.symm
    | longMethod long => exact absurd (hnil ▸ long).1 (Nat.not_lt_zero intMax)
    | inTarget methodWord target => simp at hnil
  | inHeader requestLine header =>
    exact requestLine.ne_nil (List.append_eq_nil_iff.mp hnil.symm).1

theorem parseHttpRequest_inside_iff (h : str.Whole) :
    StaysInside (parseHttpRequest rt str true) ↔ ¬ RequestRunsOut str.data := by
  unfold parseHttpRequest
  by_cases hlen : str.len = 0
  · have hnil : str.data = [] := List.eq_nil_of_length_eq_zero (Eq.trans h hlen)
    rw [if_pos hlen, hnil]
    exact iff_of_true (staysInside_status 1) requestRunsOut_nil
  · rw [if_neg hlen, staysInside_bind, parseRequestLine_inside_iff h hlen]
    constructor
    · rintro ⟨hline, hnext⟩ hruns
      generalize hdata : str.data = data at hruns
      cases hruns with
      | inLine line => exact hline (hdata ▸ line)
      | inHeader requestLine header =>
        have htext := Consumes.of_whole h hdata
        obtain ⟨ref, hparsed⟩ := requestLine.parses htext hline
        exact (parseHead_inside_iff (htext.whole.mpr h)).mp (hnext _ hparsed) header
    · intro hruns
      refine ⟨fun line => hruns (.inLine line), ?_⟩
      rintro ⟨⟨method, ref, version⟩, s1⟩ hparsed
      obtain ⟨line, htext, requestLine, -⟩ := parseRequestLine_sound hparsed
      apply (parseHead_inside_iff (htext.whole.mpr h)).mpr
      intro header
      exact hruns (htext.data_eq ▸ .inHeader requestLine header)

theorem parseHttpResponse_inside_iff (h : str.Whole) :
    StaysInside (parseHttpResponse rt str true) ↔ ¬ ResponseRunsOut str.data := by
  unfold parseHttpResponse
  rw [staysInside_bind]
  constructor
  · rintro ⟨hline, hnext⟩ hruns
    generalize hdata : str.data = data at hruns
    cases hruns with
    | inLine line => exact StatusLineRunsOut.leaves (hdata ▸ line) h hline
    | inHeader statusLine header =>
      have htext := Consumes.of_whole h hdata
      obtain ⟨ref, hparsed⟩ := statusLine.parses htext fun line => line.leaves h hline
      exact (parseHead_inside_iff (htext.whole.mpr h)).mp (hnext _ hparsed) header
  · intro hruns
    refine ⟨parseStatusLine_inside h fun line => hruns (.inLine line), ?_⟩
    rintro ⟨⟨version, code, ref⟩, s1⟩ hparsed
    obtain ⟨line, htext, statusLine, -⟩ := parseStatusLine_sound hparsed
    apply (parseHead_inside_iff (htext.whole.mpr h)).mpr
    intro header
    exact hruns (htext.data_eq ▸ .inHeader statusLine header)

end Messages

/-- Struct-mode parsing of an input that ends with its object stays inside it unless
the input is cut off inside a keyword or right behind its first line, or goes on for
more than an `int` counts. -/
theorem struct_parsing_inside_iff (rt : Runtime) (data : Bytes) :
    (StaysInside (parseHttpRequest rt ⟨data.length, data⟩ true) ↔ ¬ RequestRunsOut data) ∧
      (StaysInside (parseHttpResponse rt ⟨data.length, data⟩ true) ↔ ¬ ResponseRunsOut data) := by
  have h : StringRef.Whole ⟨data.length, data⟩ := rfl
  exact ⟨parseHttpRequest_inside_iff h, parseHttpResponse_inside_iff h⟩

/-- The one byte of `G` is followed by a read of the second byte of `GET`; a request of
only its first line has an empty header, over which the counting loop runs on. -/
theorem truncated_request_overruns :
    ¬ StaysInside (parseHttpRequest .unlimited ⟨1, ascii ['G']⟩ true) ∧
      ¬ StaysInside (parseHttpRequest .unlimited ⟨16, ascii ['G', 'E', 'T', ' ', '/', ' ',
        'H', 'T', 'T', 'P', '/', '1', '.', '1', '\r', '\n']⟩ true) := by
  constructor
  · exact not_staysInside_outOfBounds
  · exact not_staysInside_outOfBounds

end Net77.Http
