import Net77.Http.MessageParsing
import Net77.Http.NormalForm

/-! Serializer and parser against each other, in struct mode. Both are tied to
the grammar, so the round trips need no further look at the code of either. -/
namespace Net77.Http

open Net77.Base

/-- `HELPER_STRINGIFY_REQUEST_STRUCT`. -/
def stringifyRequest (rt : Runtime) (req : HttpRequest) : Except Stop OwnedString := do
  let builder ← newStringBuilder rt 0
  let builder ← serializeHttpRequest rt req builder
  let (str, _) ← stringBuilderBuildAndDestroy rt builder
  pure str

/-- The same steps for a response, as the tests take them. -/
def stringifyResponse (rt : Runtime) (resp : HttpResponse) : Except Stop OwnedString := do
  let builder ← newStringBuilder rt 0
  let builder ← serializeHttpResponse rt resp builder
  let (str, _) ← stringBuilderBuildAndDestroy rt builder
  pure str

section Stringify

variable {rt : Runtime} (halloc : rt.AllocSucceeds)

include halloc

/-- What an appending operation adds to an empty builder is what is built. -/
theorem build_of_appends {op : StringBuilder → Except Stop StringBuilder} {text : Bytes}
    {builder : StringBuilder} (h : Appends op text) (hempty : builder.Holds [])
    (hmax : text.length ≤ maxCapacity) :
    ∃ full, op builder = .ok full ∧ stringBuilderBuildAndDestroy rt full =
      .ok (⟨text.length, text ++ [0]⟩, ⟨0, 0, []⟩) := by
  obtain ⟨full, hfull, hholds⟩ := h builder [] hempty (by simpa using hmax)
  exact ⟨full, hfull, hholds.buildAndDestroy hmax halloc⟩

theorem stringifyRequest_eq {req : HttpRequest} {m : RequestMessage} (hread : req.Readable)
    (hm : req.message = some m) (hmax : (requestWire m).length ≤ maxCapacity) :
    stringifyRequest rt req = .ok ⟨(requestWire m).length, requestWire m ++ [0]⟩ := by
  obtain ⟨full, hfull, hbuild⟩ :=
    build_of_appends halloc (serializeHttpRequest_appends halloc hread hm) .empty hmax
  rw [stringifyRequest, show newStringBuilder rt 0 = .ok ⟨0, 0, []⟩ from rfl, ok_bind, hfull,
    ok_bind, hbuild]
  rfl

theorem stringifyResponse_eq {resp : HttpResponse} {m : ResponseMessage} (hread : resp.Readable)
    (hm : resp.message = some m) (hmax : (responseWire m).length ≤ maxCapacity) :
    stringifyResponse rt resp = .ok ⟨(responseWire m).length, responseWire m ++ [0]⟩ := by
  obtain ⟨full, hfull, hbuild⟩ :=
    build_of_appends halloc (serializeHttpResponse_appends halloc hread hm) .empty hmax
  rw [stringifyResponse, show newStringBuilder rt 0 = .ok ⟨0, 0, []⟩ from rfl, ok_bind, hfull,
    ok_bind, hbuild]
  rfl

theorem alloc_fields {count length : Nat} (h : 3 * count ≤ length) (hsmall : length < 2 ^ 27) :
    rt.malloc (sizeofHttpHeaderField * count) = true :=
  halloc _ (by unfold sizeofHttpHeaderField; omega)

/-- A normal form is read back, whatever lies behind it in memory. -/
theorem parse_requestWire {m : RequestMessage} (hwf : m.WellFormed)
    (hsize : (requestWire m).length < 2 ^ 27) (tail : Bytes) :
    ∃ req, parseHttpRequest rt ⟨(requestWire m).length, requestWire m ++ tail⟩ true = .ok req ∧
      req.message = some m := by
  have htext := requestWire_text hwf
  apply parseHttpRequest_complete (by simp [StringRef.Readable]) hsize
  · rwa [StringRef.bytes_append]
  · exact .inr (alloc_fields halloc htext.length_fields_le hsize)

theorem parse_responseWire {m : ResponseMessage} (hwf : m.WellFormed)
    (hsize : (responseWire m).length < 2 ^ 27) (tail : Bytes) :
    ∃ resp, parseHttpResponse rt ⟨(responseWire m).length, responseWire m ++ tail⟩ true = .ok resp ∧
      resp.message = some m := by
  have htext := responseWire_text hwf
  apply parseHttpResponse_complete (by simp [StringRef.Readable]) hsize
  · rwa [StringRef.bytes_append]
  · exact .inr (alloc_fields halloc htext.length_fields_le hsize)

end Stringify

/-- A well-formed request survives serializing and parsing. -/
theorem request_roundTrip {rt : Runtime} {req : HttpRequest} {m : RequestMessage}
    {builder : StringBuilder} (halloc : rt.AllocSucceeds) (hread : req.Readable)
    (hm : req.message = some m) (hwf : m.WellFormed) (hsize : (requestWire m).length < 2 ^ 27)
    (hempty : builder.Holds []) :
    ∃ full ser destroyed back, serializeHttpRequest rt req builder = .ok full ∧
      stringBuilderBuildAndDestroy rt full = .ok (ser, destroyed) ∧
      parseHttpRequest rt ser.ref true = .ok back ∧ back.message = some m := by
  have hmax : (requestWire m).length ≤ maxCapacity := by unfold maxCapacity; omega
  obtain ⟨full, hfull, hbuild⟩ :=
    build_of_appends halloc (serializeHttpRequest_appends halloc hread hm) hempty hmax
  obtain ⟨back, hback, hmessage⟩ := parse_requestWire halloc hwf hsize [0]
  exact ⟨full, _, _, back, hfull, hbuild, hback, hmessage⟩

/-- A request with a field of an empty value and one whose value ends in a
carriage return, and with a body that starts with a newline. -/
theorem request_roundTrip_edge : ∃ full ser destroyed back,
    serializeHttpRequest .unlimited ⟨.get, ⟨1, [slash]⟩, .http11, .asStruct ⟨[⟨⟨1, [97]⟩, ⟨0, []⟩⟩,
      ⟨⟨1, [98]⟩, ⟨2, [99, cr]⟩⟩]⟩, ⟨2, crlf⟩⟩ ⟨0, 0, []⟩ = .ok full ∧
    stringBuilderBuildAndDestroy .unlimited full = .ok (ser, destroyed) ∧
    parseHttpRequest .unlimited ser.ref true = .ok back ∧
    back.message = some ⟨.get, [slash], .http11, [([97], []), ([98], [99, cr])], crlf⟩ :=
  request_roundTrip Runtime.unlimited_allocSucceeds (by decide) rfl
    ⟨by decide, by decide, by decide⟩ (by decide) .empty

/-- A well-formed response survives serializing and parsing. -/
theorem response_roundTrip {rt : Runtime} {resp : HttpResponse} {m : ResponseMessage}
    {builder : StringBuilder} (halloc : rt.AllocSucceeds) (hread : resp.Readable)
    (hm : resp.message = some m) (hwf : m.WellFormed) (hsize : (responseWire m).length < 2 ^ 27)
    (hempty : builder.Holds []) :
    ∃ full ser destroyed back, serializeHttpResponse rt resp builder = .ok full ∧
      stringBuilderBuildAndDestroy rt full = .ok (ser, destroyed) ∧
      parseHttpResponse rt ser.ref true = .ok back ∧ back.message = some m := by
  have hmax : (responseWire m).length ≤ maxCapacity := by unfold maxCapacity; omega
  obtain ⟨full, hfull, hbuild⟩ :=
    build_of_appends halloc (serializeHttpResponse_appends halloc hread hm) hempty hmax
  obtain ⟨back, hback, hmessage⟩ := parse_responseWire halloc hwf hsize [0]
  exact ⟨full, _, _, back, hfull, hbuild, hback, hmessage⟩

/-- A response whose status message ends in a carriage return. -/
theorem response_roundTrip_edge : ∃ full ser destroyed back,
    serializeHttpResponse .unlimited ⟨.http10, 599, ⟨2, [79, cr]⟩, .asStruct ⟨[⟨⟨0, []⟩, ⟨0, []⟩⟩]⟩,
      ⟨0, []⟩⟩ ⟨0, 0, []⟩ = .ok full ∧
    stringBuilderBuildAndDestroy .unlimited full = .ok (ser, destroyed) ∧
    parseHttpResponse .unlimited ser.ref true = .ok back ∧
    back.message = some ⟨.http10, 599, [79, cr], [([], [])], []⟩ :=
  response_roundTrip Runtime.unlimited_allocSucceeds (by decide) rfl
    ⟨by decide, by decide, by decide, by decide⟩ (by decide) .empty

/-- A reference to an accepted text, after which everything parsed is readable
and in the serializer's domain. -/
theorem request_reserializes {rt : Runtime} {str : StringRef} {req : HttpRequest}
    (halloc : rt.AllocSucceeds) (hread : str.Readable) (hsize : str.len < 2 ^ 27)
    (hparse : parseHttpRequest rt str true = .ok req) :
    ∃ m, req.message = some m ∧ m.WellFormed ∧ (requestWire m).length < 2 ^ 27 ∧
      stringifyRequest rt req = .ok ⟨(requestWire m).length, requestWire m ++ [0]⟩ := by
  obtain ⟨m, hm, htext, hreadable, -⟩ := parseHttpRequest_sound hparse
  have hlen := htext.length_wire_le
  rw [StringRef.length_bytes hread] at hlen
  refine ⟨m, hm, htext.wellFormed, by omega, ?_⟩
  exact stringifyRequest_eq halloc (hreadable hread) hm (by unfold maxCapacity; omega)

theorem response_reserializes {rt : Runtime} {str : StringRef} {resp : HttpResponse}
    (halloc : rt.AllocSucceeds) (hread : str.Readable) (hsize : str.len < 2 ^ 27)
    (hparse : parseHttpResponse rt str true = .ok resp) :
    ∃ m, resp.message = some m ∧ m.WellFormed ∧ (responseWire m).length < 2 ^ 27 ∧
      stringifyResponse rt resp = .ok ⟨(responseWire m).length, responseWire m ++ [0]⟩ := by
  obtain ⟨m, hm, htext, hreadable, -⟩ := parseHttpResponse_sound hparse
  have hlen := htext.length_wire_le
  rw [StringRef.length_bytes hread] at hlen
  refine ⟨m, hm, htext.wellFormed, by omega, ?_⟩
  exact stringifyResponse_eq halloc (hreadable hread) hm (by unfold maxCapacity; omega)

/-- A lower-case version that is not supported, and blanks in front of a value. -/
def lenientRequest : Bytes :=
  ascii ['G', 'E', 'T', ' ', '/', ' ', 'h', 't', 't', 'p', '/', '2', '.', '7'] ++ crlf ++
    ascii ['a', ':', ' ', ' ', 'b'] ++ crlf ++ crlf

def lenientResponse : Bytes :=
  ascii ['h', 't', 't', 'p', '/', '2', '.', '7', ' ', '2', '0', '0', ' ', 'O', 'K'] ++ crlf ++
    ascii ['a', ':', ' ', ' ', 'b'] ++ crlf ++ crlf

theorem lenientRequest_differs {rt : Runtime} (halloc : rt.AllocSucceeds) : ∃ req ser,
    parseHttpRequest rt ⟨lenientRequest.length, lenientRequest⟩ true = .ok req ∧
      stringifyRequest rt req = .ok ser ∧ ser.bytes ≠ lenientRequest := by
  have haccepted : parseHttpRequest .unlimited ⟨lenientRequest.length, lenientRequest⟩ true =
      .ok _ := rfl
  obtain ⟨m, hm, htext, -, -⟩ := parseHttpRequest_sound haccepted
  cases Option.some.inj hm
  obtain ⟨req, hreq, hmessage⟩ := @parseHttpRequest_complete rt _ _ (by decide) (by decide)
    htext (.inr (halloc _ (by decide)))
  obtain ⟨m, hm, -, -, hser⟩ := request_reserializes halloc (by decide) (by decide) hreq
  cases Option.some.inj (hm.symm.trans hmessage)
  exact ⟨req, _, hreq, hser, by decide⟩

theorem lenientResponse_differs {rt : Runtime} (halloc : rt.AllocSucceeds) : ∃ resp ser,
    parseHttpResponse rt ⟨lenientResponse.length, lenientResponse⟩ true = .ok resp ∧
      stringifyResponse rt resp = .ok ser ∧ ser.bytes ≠ lenientResponse := by
  have haccepted : parseHttpResponse .unlimited ⟨lenientResponse.length, lenientResponse⟩ true =
      .ok _ := rfl
  obtain ⟨m, hm, htext, -, -⟩ := parseHttpResponse_sound haccepted
  cases Option.some.inj hm
  obtain ⟨resp, hresp, hmessage⟩ := @parseHttpResponse_complete rt _ _ (by decide) (by decide)
    htext (.inr (halloc _ (by decide)))
  obtain ⟨m, hm, -, -, hser⟩ := response_reserializes halloc (by decide) (by decide) hresp
  cases Option.some.inj (hm.symm.trans hmessage)
  exact ⟨resp, _, hresp, hser, by decide⟩

/-- Serializing what was parsed gives a text with the same message, and once
more the same text. The text that was parsed may be another one. -/
theorem parse_serialize_normalForm {rt : Runtime} {str : StringRef} (halloc : rt.AllocSucceeds)
    (hread : str.Readable) (hsize : str.len < 2 ^ 27) :
    (∀ req, parseHttpRequest rt str true = .ok req →
      ∃ m ser again, req.message = some m ∧ stringifyRequest rt req = .ok ser ∧
        parseHttpRequest rt ser.ref true = .ok again ∧ again.message = some m ∧
        stringifyRequest rt again = .ok ser) ∧
    (∀ resp, parseHttpResponse rt str true = .ok resp →
      ∃ m ser again, resp.message = some m ∧ stringifyResponse rt resp = .ok ser ∧
        parseHttpResponse rt ser.ref true = .ok again ∧ again.message = some m ∧
        stringifyResponse rt again = .ok ser) ∧
    (∃ req ser, parseHttpRequest rt ⟨lenientRequest.length, lenientRequest⟩ true = .ok req ∧
      stringifyRequest rt req = .ok ser ∧ ser.bytes ≠ lenientRequest) ∧
    (∃ resp ser, parseHttpResponse rt ⟨lenientResponse.length, lenientResponse⟩ true = .ok resp ∧
      stringifyResponse rt resp = .ok ser ∧ ser.bytes ≠ lenientResponse) := by
  refine ⟨?_, ?_, lenientRequest_differs halloc, lenientResponse_differs halloc⟩
  · intro req hparse
    obtain ⟨m, hm, hwf, hlen, hser⟩ := request_reserializes halloc hread hsize hparse
    obtain ⟨again, hagain, hmessage⟩ := parse_requestWire halloc hwf hlen [0]
    obtain ⟨m', hm', -, -, hser'⟩ :=
      request_reserializes halloc (by simp [StringRef.Readable]) hlen hagain
    cases Option.some.inj (hm'.symm.trans hmessage)
    exact ⟨m, _, again, hm, hser, hagain, hmessage, hser'⟩
  · intro resp hparse
    obtain ⟨m, hm, hwf, hlen, hser⟩ := response_reserializes halloc hread hsize hparse
    obtain ⟨again, hagain, hmessage⟩ := parse_responseWire halloc hwf hlen [0]
    obtain ⟨m', hm', -, -, hser'⟩ :=
      response_reserializes halloc (by simp [StringRef.Readable]) hlen hagain
    cases Option.some.inj (hm'.symm.trans hmessage)
    exact ⟨m, _, again, hm, hser, hagain, hmessage, hser'⟩

/-- The normal forms of both. -/
theorem parse_serialize_normalForm_lenient :
    (∃ req m ser again,
      parseHttpRequest .unlimited ⟨lenientRequest.length, lenientRequest⟩ true = .ok req ∧
        m = ⟨.get, [slash], .http11, [([97], [98])], []⟩ ∧ req.message = some m ∧
        stringifyRequest .unlimited req = .ok ser ∧ ser.bytes = requestWire m ∧
        parseHttpRequest .unlimited ser.ref true = .ok again ∧ again.message = some m ∧
        stringifyRequest .unlimited again = .ok ser) ∧
    (∃ resp m ser again,
      parseHttpResponse .unlimited ⟨lenientResponse.length, lenientResponse⟩ true = .ok resp ∧
        m = ⟨.http11, 200, [79, 75], [([97], [98])], []⟩ ∧ resp.message = some m ∧
        stringifyResponse .unlimited resp = .ok ser ∧ ser.bytes = responseWire m ∧
        parseHttpResponse .unlimited ser.ref true = .ok again ∧ again.message = some m ∧
        stringifyResponse .unlimited again = .ok ser) := by
  constructor
  · obtain ⟨m, ser, again, hm, hser, hagain, hmessage, hagainSer⟩ :=
      (@parse_serialize_normalForm .unlimited ⟨lenientRequest.length, lenientRequest⟩
        Runtime.unlimited_allocSucceeds (by decide) (by decide)).1 _ rfl
    cases Option.some.inj hm
    cases Except.ok.inj hser
    exact ⟨_, _, _, again, rfl, rfl, rfl, rfl, by decide, hagain, hmessage, hagainSer⟩
  · obtain ⟨m, ser, again, hm, hser, hagain, hmessage, hagainSer⟩ :=
      (@parse_serialize_normalForm .unlimited ⟨lenientResponse.length, lenientResponse⟩
        Runtime.unlimited_allocSucceeds (by decide) (by decide)).2.1 _ rfl
    cases Option.some.inj hm
    cases Except.ok.inj hser
    exact ⟨_, _, _, again, rfl, rfl, rfl, rfl, by decide, hagain, hmessage, hagainSer⟩

/-- A common end that is no longer than the second part is an end of it. -/
theorem cut_suffix {whole more front back : Bytes} (h : whole ++ more = front ++ back)
    (hle : more.length ≤ back.length) : ∃ kept, back = kept ++ more ∧ whole = front ++ kept := by
  rcases List.append_eq_append_iff.mp h with ⟨extra, rfl, rfl⟩ | ⟨kept, rfl, rfl⟩
  · rw [List.length_append] at hle
    have hnil : extra = [] := List.eq_nil_of_length_eq_zero (by omega)
    subst hnil
    exact ⟨[], rfl, by simp⟩
  · exact ⟨kept, rfl, rfl⟩

theorem request_replaceBody {rt : Runtime} {str str' : StringRef} {req : HttpRequest}
    {m : RequestMessage} {front body : Bytes} (hread : str.Readable) (hread' : str'.Readable)
    (hsize : str.len < 2 ^ 27) (hsize' : str'.len < 2 ^ 27)
    (hparse : parseHttpRequest rt str true = .ok req) (hm : req.message = some m)
    (hstr : str.bytes = front ++ m.body) (hstr' : str'.bytes = front ++ body) :
    ∃ req', parseHttpRequest rt str' true = .ok req' ∧
      req'.message = some { m with body := body } := by
  obtain ⟨m', hm', htext, -, halloc⟩ := parseHttpRequest_sound hparse
  cases Option.some.inj (hm'.symm.trans hm)
  have hcount := htext.length_fields_le
  rw [StringRef.length_bytes hread] at hcount
  rw [headerFieldsSize_eq (by unfold sizeofHttpHeaderField; omega)] at halloc
  obtain ⟨front', hfront, htext'⟩ := htext.replaceBody body
  rw [hstr] at hfront
  cases List.append_cancel_right hfront
  exact parseHttpRequest_complete hread' hsize' (by rwa [hstr']) halloc

theorem response_replaceBody {rt : Runtime} {str str' : StringRef} {resp : HttpResponse}
    {m : ResponseMessage} {front body : Bytes} (hread : str.Readable) (hread' : str'.Readable)
    (hsize : str.len < 2 ^ 27) (hsize' : str'.len < 2 ^ 27)
    (hparse : parseHttpResponse rt str true = .ok resp) (hm : resp.message = some m)
    (hstr : str.bytes = front ++ m.body) (hstr' : str'.bytes = front ++ body) :
    ∃ resp', parseHttpResponse rt str' true = .ok resp' ∧
      resp'.message = some { m with body := body } := by
  obtain ⟨m', hm', htext, -, halloc⟩ := parseHttpResponse_sound hparse
  cases Option.some.inj (hm'.symm.trans hm)
  have hcount := htext.length_fields_le
  rw [StringRef.length_bytes hread] at hcount
  rw [headerFieldsSize_eq (by unfold sizeofHttpHeaderField; omega)] at halloc
  obtain ⟨front', hfront, htext'⟩ := htext.replaceBody body
  rw [hstr] at hfront
  cases List.append_cancel_right hfront
  exact parseHttpResponse_complete hread' hsize' (by rwa [hstr']) halloc

/-- Two texts of which one ends in further bytes are accepted alike, as long as
the further bytes belong to the body. -/
theorem body_extends {rt : Runtime} {str str' : StringRef} {more : Bytes} (hread : str.Readable)
    (hread' : str'.Readable) (hsize : str'.len < 2 ^ 27) (hstr : str'.bytes = str.bytes ++ more) :
    (∀ req, parseHttpRequest rt str true = .ok req →
      ∃ m req', req.message = some m ∧ parseHttpRequest rt str' true = .ok req' ∧
        req'.message = some { m with body := m.body ++ more }) ∧
    (∀ req', parseHttpRequest rt str' true = .ok req' →
      ∃ m, req'.message = some m ∧ (more.length ≤ m.body.length →
        ∃ req body, m.body = body ++ more ∧ parseHttpRequest rt str true = .ok req ∧
          req.message = some { m with body := body })) ∧
    (∀ resp, parseHttpResponse rt str true = .ok resp →
      ∃ m resp', resp.message = some m ∧ parseHttpResponse rt str' true = .ok resp' ∧
        resp'.message = some { m with body := m.body ++ more }) ∧
    (∀ resp', parseHttpResponse rt str' true = .ok resp' →
      ∃ m, resp'.message = some m ∧ (more.length ≤ m.body.length →
        ∃ resp body, m.body = body ++ more ∧ parseHttpResponse rt str true = .ok resp ∧
          resp.message = some { m with body := body })) := by
  have hshort : str.len < 2 ^ 27 := by
    have hlen := congrArg List.length hstr
    rw [List.length_append, StringRef.length_bytes hread, StringRef.length_bytes hread'] at hlen
    omega
  refine ⟨?_, ?_, ?_, ?_⟩
  · intro req hparse
    obtain ⟨m, hm, htext, -⟩ := parseHttpRequest_sound hparse
    obtain ⟨front, hfront, -⟩ := htext.replaceBody []
    obtain ⟨req', hparse', hm'⟩ := request_replaceBody hread hread' hshort
      hsize hparse hm hfront (by rw [hstr, hfront, List.append_assoc])
    exact ⟨m, req', hm, hparse', hm'⟩
  · intro req' hparse'
    obtain ⟨m, hm, htext, -⟩ := parseHttpRequest_sound hparse'
    refine ⟨m, hm, fun hle => ?_⟩
    obtain ⟨front, hfront, -⟩ := htext.replaceBody []
    obtain ⟨body, hbody, hcut⟩ := cut_suffix (hstr.symm.trans hfront) hle
    obtain ⟨req, hparse, hm'⟩ := request_replaceBody hread' hread hsize hshort hparse' hm hfront hcut
    exact ⟨req, body, hbody, hparse, hm'⟩
  · intro resp hparse
    obtain ⟨m, hm, htext, -⟩ := parseHttpResponse_sound hparse
    obtain ⟨front, hfront, -⟩ := htext.replaceBody []
    obtain ⟨resp', hparse', hm'⟩ := response_replaceBody hread hread' hshort
      hsize hparse hm hfront (by rw [hstr, hfront, List.append_assoc])
    exact ⟨m, resp', hm, hparse', hm'⟩
  · intro resp' hparse'
    obtain ⟨m, hm, htext, -⟩ := parseHttpResponse_sound hparse'
    refine ⟨m, hm, fun hle => ?_⟩
    obtain ⟨front, hfront, -⟩ := htext.replaceBody []
    obtain ⟨body, hbody, hcut⟩ := cut_suffix (hstr.symm.trans hfront) hle
    obtain ⟨resp, hparse, hm'⟩ :=
      response_replaceBody hread' hread hsize hshort hparse' hm hfront hcut
    exact ⟨resp, body, hbody, hparse, hm'⟩

/-- A request and a response without a body, and one byte behind their blank line. -/
theorem body_extends_byte :
    let extended := lenientRequest ++ [lf]
    let answered := lenientResponse ++ [lf]
    (∃ req req', parseHttpRequest .unlimited ⟨lenientRequest.length, lenientRequest⟩ true =
        .ok req ∧ req.message = some ⟨.get, [slash], .http11, [([97], [98])], []⟩ ∧
      parseHttpRequest .unlimited ⟨extended.length, extended⟩ true = .ok req' ∧
      req'.message = some ⟨.get, [slash], .http11, [([97], [98])], [lf]⟩) ∧
    (∃ req', parseHttpRequest .unlimited ⟨extended.length, extended⟩ true = .ok req' ∧
      ∃ req, parseHttpRequest .unlimited ⟨lenientRequest.length, lenientRequest⟩ true = .ok req ∧
        req.message = some ⟨.get, [slash], .http11, [([97], [98])], []⟩) ∧
    (∃ resp resp', parseHttpResponse .unlimited ⟨lenientResponse.length, lenientResponse⟩ true =
        .ok resp ∧ resp.message = some ⟨.http11, 200, [79, 75], [([97], [98])], []⟩ ∧
      parseHttpResponse .unlimited ⟨answered.length, answered⟩ true = .ok resp' ∧
      resp'.message = some ⟨.http11, 200, [79, 75], [([97], [98])], [lf]⟩) ∧
    (∃ resp', parseHttpResponse .unlimited ⟨answered.length, answered⟩ true = .ok resp' ∧
      ∃ resp, parseHttpResponse .unlimited ⟨lenientResponse.length, lenientResponse⟩ true =
        .ok resp ∧ resp.message = some ⟨.http11, 200, [79, 75], [([97], [98])], []⟩) := by
  intro extended answered
  have hreq := @body_extends .unlimited ⟨lenientRequest.length, lenientRequest⟩
    ⟨extended.length, extended⟩ [lf] (by decide) (by decide) (by decide) (by decide)
  have hresp := @body_extends .unlimited ⟨lenientResponse.length, lenientResponse⟩
    ⟨answered.length, answered⟩ [lf] (by decide) (by decide) (by decide) (by decide)
  refine ⟨?_, ?_, ?_, ?_⟩
  · obtain ⟨m, req', hm, hparse, hm'⟩ := hreq.1 _ rfl
    cases Option.some.inj hm
    exact ⟨_, req', rfl, rfl, hparse, hm'⟩
  · obtain ⟨m, hm, hcut⟩ := hreq.2.1 _ rfl
    cases Option.some.inj hm
    obtain ⟨req, body, hbody, hparse, hm'⟩ := hcut (by decide)
    have hend : body ++ [lf] = [] ++ [lf] := hbody.symm.trans (by decide)
    cases List.append_cancel_right hend
    exact ⟨_, rfl, req, hparse, hm'⟩
  · obtain ⟨m, resp', hm, hparse, hm'⟩ := hresp.2.2.1 _ rfl
    cases Option.some.inj hm
    exact ⟨_, resp', rfl, rfl, hparse, hm'⟩
  · obtain ⟨m, hm, hcut⟩ := hresp.2.2.2 _ rfl
    cases Option.some.inj hm
    obtain ⟨resp, body, hbody, hparse, hm'⟩ := hcut (by decide)
    have hend : body ++ [lf] = [] ++ [lf] := hbody.symm.trans (by decide)
    cases List.append_cancel_right hend
    exact ⟨_, rfl, resp, hparse, hm'⟩

end Net77.Http
