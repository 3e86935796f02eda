import Net77.Http.HeaderPasses
import Net77.Http.MessageParsing
import Net77.Http.NormalForm

/-! Which well-formed messages the parser takes in struct mode. A name is a token of
letters, digits and hyphens, and the parser reads names with `parseWord`. -/
namespace Net77.Http

open Net77.Base

abbrev hyphen : Byte := 45

def isTokenChar (c : Byte) : Bool := isLetter c || isDigit c || c == hyphen

/-- A header field as messages carry it. -/
structure WireField where
  name : Bytes
  value : Bytes
  name_nonempty : name ≠ []
  name_token : ∀ c ∈ name, isTokenChar c = true
  value_oneLine : ∀ c ∈ value, c ≠ cr ∧ c ≠ lf

/-- The line of the field, without the newline that ends it. -/
def WireField.content (field : WireField) : Bytes := field.name ++ colon :: field.value

/-- The field that the parser should yield. -/
def WireField.pair (field : WireField) : Bytes × Bytes :=
  (field.name, field.value.dropWhile (· = space))

/-- The header block and what is behind it. -/
def wireTail (fields : List WireField) (body : Bytes) : Bytes :=
  linesText (fields.map WireField.content) ++ (crlf ++ body)

structure WireRequest where
  method : HttpMethod
  url : Bytes
  version : HttpVersion
  fields : List WireField
  body : Bytes
  url_nonempty : url ≠ []
  url_noSpace : ∀ c ∈ url, c ≠ space
  url_oneLine : ¬ crlf <:+: url
  version_numbered : version = .http10 ∨ version = .http11

def WireRequest.text (req : WireRequest) : Bytes :=
  req.method.name ++ [space] ++ req.url ++ [space] ++ req.version.name ++ crlf ++
    wireTail req.fields req.body

def WireRequest.message (req : WireRequest) : RequestMessage :=
  ⟨req.method, req.url, req.version, req.fields.map WireField.pair, req.body⟩

structure WireResponse where
  version : HttpVersion
  statusCode : Int
  statusMsg : Bytes
  fields : List WireField
  body : Bytes
  version_numbered : version = .http10 ∨ version = .http11
  code_low : 100 ≤ statusCode
  code_high : statusCode ≤ 599
  msg_oneLine : ∀ c ∈ statusMsg, c ≠ cr ∧ c ≠ lf

def WireResponse.text (resp : WireResponse) : Bytes :=
  resp.version.name ++ [space] ++ statusCodeDigits 3 resp.statusCode ++ [space] ++
    resp.statusMsg ++ crlf ++ wireTail resp.fields resp.body

def WireResponse.message (resp : WireResponse) : ResponseMessage :=
  ⟨resp.version, resp.statusCode, resp.statusMsg, resp.fields.map WireField.pair, resp.body⟩

/-- The parser yields the message of a text, whatever lies behind the text. -/
def WireRequest.Accepted (rt : Runtime) (extra : Bytes) (req : WireRequest) : Prop :=
  ∃ parsed, parseHttpRequest rt ⟨req.text.length, req.text ++ extra⟩ true = .ok parsed ∧
    parsed.message = some req.message

def WireResponse.Accepted (rt : Runtime) (extra : Bytes) (resp : WireResponse) : Prop :=
  ∃ parsed, parseHttpResponse rt ⟨resp.text.length, resp.text ++ extra⟩ true = .ok parsed ∧
    parsed.message = some resp.message

/-- The fields that the parser can read: names of letters, and a block that fits. -/
structure FieldsReadable (rt : Runtime) (fields : List WireField) : Prop where
  letters : ∀ field ∈ fields, ∀ c ∈ field.name, isLetter c = true
  fits : HeaderFits rt fields.length (linesText (fields.map WireField.content)).length

section Fields

theorem not_newline_of_token {c : Byte} (h : isTokenChar c = true) : c ≠ cr := by
  rintro rfl
  exact absurd h (by decide)

theorem WireField.content_oneLine (field : WireField) : ¬ crlf <:+: field.content := by
  apply not_newline_within
  intro c hc
  rcases List.mem_append.mp hc with hname | hrest
  · exact not_newline_of_token (field.name_token c hname)
  · rcases List.mem_cons.mp hrest with rfl | hvalue
    · decide
    · exact (field.value_oneLine c hvalue).1

/-- A field whose name is made of letters is a header line. -/
theorem WireField.exists_line (field : WireField)
    (letters : ∀ c ∈ field.name, isLetter c = true) :
    ∃ line : FieldLine, line.content = field.content ∧ line.pair = field.pair := by
  have form : FieldForm field.content := ⟨field.name, field.value, rfl, letters⟩
  obtain ⟨line, hcontent, hpair⟩ := form.exists_line field.content_oneLine
  refine ⟨line, hcontent, hpair.trans ?_⟩
  exact fieldOf_form letters

theorem exists_wireLines : ∀ (fields : List WireField),
    (∀ field ∈ fields, ∀ c ∈ field.name, isLetter c = true) →
    ∃ lines : List FieldLine, lines.map FieldLine.content = fields.map WireField.content ∧
      lines.map FieldLine.pair = fields.map WireField.pair
  | [], _ => ⟨[], rfl, rfl⟩
  | field :: fields, letters => by
    rw [List.forall_mem_cons] at letters
    obtain ⟨line, hcontent, hpair⟩ := field.exists_line letters.1
    obtain ⟨lines, hcontents, hpairs⟩ := exists_wireLines fields letters.2
    refine ⟨line :: lines, ?_, ?_⟩
    · rw [List.map_cons, List.map_cons, hcontent, hcontents]
    · rw [List.map_cons, List.map_cons, hpair, hpairs]

end Fields

section Header

variable {rt : Runtime} {str rest : StringRef} {fields : List WireField} {body : Bytes}

theorem FieldsReadable.parses (h : FieldsReadable rt fields) (hread : str.Readable)
    (htext : str.bytes = wireTail fields body) :
    ∃ hs blank body', parseHeaderStruct rt str = .ok (hs, blank) ∧ Consumes blank crlf body' ∧
      hs.fields.map HttpHeaderField.text = fields.map WireField.pair ∧ body'.bytes = body := by
  obtain ⟨lines, hcontents, hpairs⟩ := exists_wireLines fields h.letters
  have hblock : headerText lines = linesText (fields.map WireField.content) := by
    rw [headerText_eq, hcontents]
  have hcount : lines.length = fields.length := by
    have := congrArg List.length hpairs
    rwa [List.length_map, List.length_map] at this
  rw [wireTail, ← hblock] at htext
  obtain ⟨blank, hlines, hrest, hreadable⟩ := Consumes.of_bytes hread htext
  obtain ⟨body', hblank, hbody, -⟩ := Consumes.of_bytes hreadable hrest
  have hfits := h.fits
  rw [← hblock, ← hcount] at hfits
  obtain ⟨hs, hparse, hfields⟩ := parseHeaderStruct_fits lines hlines hblank hfits
  exact ⟨hs, blank, body', hparse, hblank, hfields.trans hpairs, hbody⟩

theorem fieldsReadable_of_parsed {hs : HttpHeaderStruct} {blank body' : StringRef}
    (htext : str.bytes = wireTail fields body)
    (hparse : parseHeaderStruct rt str = .ok (hs, blank)) (hblank : Consumes blank crlf body')
    (hfields : hs.fields.map HttpHeaderField.text = fields.map WireField.pair)
    (hbody : body'.bytes = body) : FieldsReadable rt fields := by
  obtain ⟨lines, hlines, hpairs, -, hfits⟩ := parseHeaderStruct_lines hparse
  have hpairs := hpairs.symm.trans hfields
  have hcount := congrArg List.length hpairs
  rw [List.length_map, List.length_map] at hcount
  have hblock : headerText lines = linesText (fields.map WireField.content) := by
    rw [wireTail, (hlines.trans hblank).bytes_eq, hbody, List.append_assoc] at htext
    exact List.append_cancel_right htext
  rw [hblock, hcount] at hfits
  refine ⟨?_, hfits⟩
  intro field hfield
  have hpair : field.pair ∈ lines.map FieldLine.pair := by
    rw [hpairs]
    exact List.mem_map_of_mem hfield
  obtain ⟨line, -, hline⟩ := List.mem_map.mp hpair
  have hname : line.name = field.name := (Prod.mk.inj hline).1
  rw [← hname]
  exact line.name_letters

end Header

section Request

variable {rt : Runtime} {extra : Bytes} {req : WireRequest}

theorem WireRequest.readable (req : WireRequest) (extra : Bytes) :
    StringRef.Readable ⟨req.text.length, req.text ++ extra⟩ := by
  simp [StringRef.Readable]

/-- The request line is read if the index of its url stays in range. -/
theorem WireRequest.line (req : WireRequest) (extra : Bytes) (hurl : req.url.length ≤ intMax) :
    ∃ ref after, parseRequestLine ⟨req.text.length, req.text ++ extra⟩ =
        .ok ((req.method, ref, req.version), after) ∧ ref.bytes = req.url ∧ after.Readable ∧
      after.bytes = wireTail req.fields req.body := by
  have hbytes : StringRef.bytes ⟨req.text.length, req.text ++ extra⟩ =
      req.method.name ++ [space] ++ req.url ++ [space] ++ req.version.name ++ crlf ++
        wireTail req.fields req.body := StringRef.bytes_append req.text extra
  obtain ⟨after, hline, hafter, hreadable⟩ := Consumes.of_bytes (req.readable extra) hbytes
  have hword : req.method.name.length ≤ intMax := by cases req.method <;> decide
  have hversion : req.version.name.length ≤ intMax + 4 := by cases req.version <;> decide
  obtain ⟨ref, hparse, href⟩ := parseRequestLine_parts hline (methodWord_name req.method)
    req.url_nonempty req.url_noSpace (versionText_name req.version) ⟨hword, hurl, hversion⟩
  exact ⟨ref, after, hparse, href, hreadable, hafter⟩

theorem WireRequest.accepted_iff (req : WireRequest) : req.Accepted rt extra ↔
    req.url.length ≤ intMax ∧ FieldsReadable rt req.fields := by
  constructor
  · rintro ⟨parsed, hparse, hmessage⟩
    obtain ⟨-, after, blank, hline, hheader, hblank⟩ := parseHttpRequest_calls.mp hparse
    obtain ⟨hs, hstruct, hhead⟩ := parseHeader_struct.mp hheader
    simp only [HttpRequest.message, hhead, HttpHeader.pairs, WireRequest.message, Option.map_some,
      Option.some.injEq, RequestMessage.mk.injEq] at hmessage
    obtain ⟨-, hurl, -, hfields, hbody⟩ := hmessage
    obtain ⟨-, -, -, hreadable⟩ := parseRequestLine_sound hline
    have hlong : req.url.length ≤ intMax := by
      rw [← hurl, StringRef.length_bytes hreadable]
      exact parseRequestLine_url_le hline
    obtain ⟨ref, after', hline', -, -, hafter⟩ := req.line extra hlong
    obtain ⟨-, rfl⟩ := Prod.mk.inj (Except.ok.inj (hline.symm.trans hline'))
    exact ⟨hlong, fieldsReadable_of_parsed hafter hstruct hblank hfields hbody⟩
  · rintro ⟨hurl, hfields⟩
    obtain ⟨ref, after, hline, href, hreadable, hafter⟩ := req.line extra hurl
    obtain ⟨hs, blank, body, hstruct, hblank, hpairs, hbody⟩ := hfields.parses hreadable hafter
    have hlen : req.text.length ≠ 0 := by
      simp [WireRequest.text]
    refine ⟨⟨req.method, ref, req.version, .asStruct hs, body⟩, ?_, ?_⟩
    · apply parseHttpRequest_calls.mpr
      exact ⟨hlen, after, blank, hline, parseHeader_struct.mpr ⟨hs, hstruct, rfl⟩, hblank⟩
    · simp [HttpRequest.message, HttpHeader.pairs, WireRequest.message, href, hpairs, hbody]

end Request

section Response

variable {rt : Runtime} {extra : Bytes} {resp : WireResponse}

theorem WireResponse.line (resp : WireResponse) (extra : Bytes) :
    ∃ ref after, parseStatusLine ⟨resp.text.length, resp.text ++ extra⟩ =
        .ok ((resp.version, resp.statusCode, ref), after) ∧ ref.bytes = resp.statusMsg ∧
      after.Readable ∧ after.bytes = wireTail resp.fields resp.body := by
  obtain ⟨a, b, c, hdigits, hfirst, hsecond, hthird, hcode⟩ :=
    statusCodeDigits_eq resp.code_low resp.code_high
  have hbytes : StringRef.bytes ⟨resp.text.length, resp.text ++ extra⟩ =
      resp.version.name ++ [space] ++ [a, b, c] ++ [space] ++ resp.statusMsg ++ crlf ++
        wireTail resp.fields resp.body := by
    rw [StringRef.bytes_append, WireResponse.text, hdigits]
  have hread : StringRef.Readable ⟨resp.text.length, resp.text ++ extra⟩ := by
    simp [StringRef.Readable]
  obtain ⟨after, hline, hafter, hreadable⟩ := Consumes.of_bytes hread hbytes
  have hversion : resp.version.name.length ≤ intMax + 4 := by cases resp.version <;> decide
  obtain ⟨ref, hparse, href⟩ := parseStatusLine_parts hline (versionText_name resp.version) hfirst
    hsecond hthird (not_newline_within fun c hc => (resp.msg_oneLine c hc).1) hversion
  rw [hcode] at hparse
  exact ⟨ref, after, hparse, href, hreadable, hafter⟩

theorem WireResponse.accepted_iff (resp : WireResponse) :
    resp.Accepted rt extra ↔ FieldsReadable rt resp.fields := by
  obtain ⟨ref, after, hline, href, hreadable, hafter⟩ := resp.line extra
  constructor
  · rintro ⟨parsed, hparse, hmessage⟩
    obtain ⟨after', blank, hline', hheader, hblank⟩ := parseHttpResponse_calls.mp hparse
    obtain ⟨-, rfl⟩ := Prod.mk.inj (Except.ok.inj (hline'.symm.trans hline))
    obtain ⟨hs, hstruct, hhead⟩ := parseHeader_struct.mp hheader
    simp only [HttpResponse.message, hhead, HttpHeader.pairs, WireResponse.message,
      Option.map_some, Option.some.injEq, ResponseMessage.mk.injEq] at hmessage
    obtain ⟨-, -, -, hfields, hbody⟩ := hmessage
    exact fieldsReadable_of_parsed hafter hstruct hblank hfields hbody
  · intro hfields
    obtain ⟨hs, blank, body, hstruct, hblank, hpairs, hbody⟩ := hfields.parses hreadable hafter
    refine ⟨⟨resp.version, resp.statusCode, ref, .asStruct hs, body⟩, ?_, ?_⟩
    · apply parseHttpResponse_calls.mpr
      exact ⟨after, blank, hline, parseHeader_struct.mpr ⟨hs, hstruct, rfl⟩, hblank⟩
    · simp [HttpResponse.message, HttpHeader.pairs, WireResponse.message, href, hpairs, hbody]

end Response

/-- A well-formed message is taken if and only if its field names have neither digits nor
hyphens, and the sizes of the url and of the header stay in the range of `int`. -/
theorem wire_accepted_iff (rt : Runtime) (extra : Bytes) :
    (∀ req : WireRequest, req.Accepted rt extra ↔
      req.url.length ≤ intMax ∧ FieldsReadable rt req.fields) ∧
    ∀ resp : WireResponse, resp.Accepted rt extra ↔ FieldsReadable rt resp.fields := by
  constructor
  · intro req
    exact req.accepted_iff
  · intro resp
    exact resp.accepted_iff

/-- `GET / HTTP/1.1` with a body of five bytes. -/
def announcedRequest : WireRequest where
  method := .get
  url := [slash]
  version := .http11
  fields := [{
    name := ascii ['C', 'o', 'n', 't', 'e', 'n', 't', '-', 'L', 'e', 'n', 'g', 't', 'h']
    value := ascii [' ', '5']
    name_nonempty := by decide
    name_token := by decide
    value_oneLine := by decide }]
  body := ascii ['h', 'e', 'l', 'l', 'o']
  url_nonempty := by decide
  url_noSpace := by decide
  url_oneLine := by decide
  version_numbered := .inr rfl

/-- The name ends at its hyphen, where the parser expects the colon. -/
theorem announcedRequest_rejected : ¬ announcedRequest.Accepted .unlimited [] := by
  rintro ⟨parsed, hparse, -⟩
  exact nomatch hparse

section UriOnly

/-- A request whose first line is only a url. -/
structure UriRequest where
  url : Bytes
  lines : List FieldLine
  body : Bytes
  url_slash : url.head? = some slash
  url_plain : ∀ c ∈ url, c ≠ space ∧ c ≠ cr ∧ c ≠ lf

def UriRequest.text (req : UriRequest) : Bytes :=
  req.url ++ crlf ++ headerText req.lines ++ crlf ++ req.body

def UriRequest.message (req : UriRequest) : RequestMessage :=
  ⟨.get, req.url, .http09, req.lines.map FieldLine.pair, req.body⟩

def UriRequest.Accepted (rt : Runtime) (extra : Bytes) (req : UriRequest) : Prop :=
  ∃ parsed, parseHttpRequest rt ⟨req.text.length, req.text ++ extra⟩ true = .ok parsed ∧
    parsed.message = some req.message

theorem parseRequestLine_slash {str : StringRef}
    {result : (HttpMethod × StringRef × HttpVersion) × StringRef}
    (hslash : str.data.head? = some slash) : parseRequestLine str ≠ .ok result := by
  intro hline
  obtain ⟨rest, hdata⟩ := List.head?_eq_some_iff.mp hslash
  unfold parseRequestLine at hline
  rw [hdata, readAt_cons_zero, ok_bind, if_pos rfl] at hline
  obtain ⟨⟨url, mid⟩, hurl, hline⟩ := bind_eq_ok.mp hline
  obtain ⟨after, hnewline, -⟩ := bind_eq_ok.mp hline
  exact parseURL_not_newline hurl (expectNewline_iff.mp hnewline)

/-- The branch for them asks for a newline at the place where the url scanner stops, which
is a space or the end of the input. -/
theorem uri_request_never_accepted (rt : Runtime) (extra : Bytes) (req : UriRequest) :
    ¬ req.Accepted rt extra := by
  rintro ⟨parsed, hparse, -⟩
  obtain ⟨-, after, blank, hline, -, -⟩ := parseHttpRequest_calls.mp hparse
  have hslash : (req.text ++ extra).head? = some slash := by
    obtain ⟨path, hpath⟩ := List.head?_eq_some_iff.mp req.url_slash
    rw [UriRequest.text, hpath]
    rfl
  exact parseRequestLine_slash hslash hline

/-- The root, without fields or a body. -/
def rootRequest : UriRequest := ⟨[slash], [], [], rfl, by decide⟩

theorem rootRequest_rejected : ¬ rootRequest.Accepted .unlimited [] := by
  rintro ⟨parsed, hparse, -⟩
  exact nomatch hparse

end UriOnly

end Net77.Http
