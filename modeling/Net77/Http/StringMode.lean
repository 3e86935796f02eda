import Net77.Http.MessageParsing

/-! `parse_header_into_structs = 0`. Its scanner clears `is_beginning` where its
sibling `parseHeaderStruct` sets it, so it stops at the first line end after the
first byte and returns an empty head. -/
namespace Net77.Http

open Net77.Base

/-- Two references stand for the same text, wherever they point. -/
def SameText (a b : StringRef) : Prop := a.len = b.len ∧ a.bytes = b.bytes

/-- String mode agrees with the struct-mode result `req`: the same parts, and
the head is the text between the request line and the blank line. -/
def RequestModesAgree (rt : Runtime) (str : StringRef) (req : HttpRequest) : Prop :=
  ∃ sreq block, parseHttpRequest rt str false = .ok sreq ∧ sreq.method = req.method ∧
    SameText sreq.url req.url ∧ sreq.version = req.version ∧ SameText sreq.body req.body ∧
    sreq.head = .asString block ∧ ∃ line after, parseRequestLine str = .ok (line, after) ∧
      after.bytes = block.bytes ++ crlf ++ req.body.bytes

def ResponseModesAgree (rt : Runtime) (str : StringRef) (resp : HttpResponse) : Prop :=
  ∃ sresp block, parseHttpResponse rt str false = .ok sresp ∧ sresp.version = resp.version ∧
    sresp.statusCode = resp.statusCode ∧ SameText sresp.statusMsg resp.statusMsg ∧
    SameText sresp.body resp.body ∧
    sresp.head = .asString block ∧ ∃ line after, parseStatusLine str = .ok (line, after) ∧
      after.bytes = block.bytes ++ crlf ++ resp.body.bytes

theorem decSize_eq {n : Nat} (h : n < 2 ^ 64) : (decSize n : Int) = ((n : Int) - 1) % 2 ^ 64 := by
  unfold decSize
  split <;> omega

theorem decSize_lt {n : Nat} (h : n < 2 ^ 64) : decSize n < 2 ^ 64 := by
  unfold decSize
  split <;> omega

/-- Behind the first byte, the scan ends through the `return` under
`is_beginning` or not at all. -/
theorem scanHeaderString_returned {data : Bytes} {len off : Nat} {last : Bool}
    {ended : HeaderStringExit} (hlen : len < 2 ^ 64)
    (h : scanHeaderString data len off last true = .ok ended) :
    ∃ k rest, ended = .returned (off + k) rest ∧ k ≤ data.length ∧ rest.data = data.drop k ∧
      (rest.len : Int) = ((len : Int) - k) % 2 ^ 64 := by
  generalize hbeginning : true = beginning at h
  fun_induction scanHeaderString data len off last beginning with
  | case1 => simp at h
  | case2 c len off last hc =>
    cases Except.ok.inj h
    refine ⟨0, ⟨len, [c]⟩, rfl, Nat.zero_le _, rfl, ?_⟩
    dsimp only
    omega
  | case3 c len off beginning hc hnot => exact absurd hbeginning.symm hnot
  | case4 => simp at h
  | case5 => simp at h
  | case6 c d rest len off last hnl =>
    cases Except.ok.inj h
    refine ⟨0, ⟨len, c :: d :: rest⟩, rfl, Nat.zero_le _, rfl, ?_⟩
    dsimp only
    omega
  | case7 c d rest len off beginning hnl hnot => exact absurd hbeginning.symm hnot
  | case8 c d rest len off last beginning hnl hnot => exact absurd hbeginning.symm hnot
  | case9 c d rest len off last beginning hnl ih =>
    obtain ⟨k, out, hended, hk, hdata, hout⟩ := ih (decSize_lt hlen) rfl h
    refine ⟨k + 1, out, ?_, by simpa using hk, hdata, ?_⟩
    · rw [hended, Nat.add_assoc, Nat.add_comm 1]
    · rw [hout, decSize_eq hlen]
      omega

/-- The first step of the scan is the only one with `is_beginning` unset. -/
theorem scanHeaderString_first {data : Bytes} {len : Nat} {ended : HeaderStringExit}
    (hlen : len < 2 ^ 64) (h : scanHeaderString data len 0 false false = .ok ended) :
    ∃ off rest, ended = .returned off rest := by
  match data with
  | [] => simp [scanHeaderString] at h
  | [c] =>
    unfold scanHeaderString at h
    split at h <;> simp at h
  | c :: d :: tail =>
    unfold scanHeaderString at h
    split at h
    · simp only [Bool.false_eq_true, if_false] at h
      obtain ⟨k, rest, hended, -⟩ := scanHeaderString_returned (decSize_lt (decSize_lt hlen)) h
      exact ⟨_, rest, hended⟩
    · obtain ⟨k, rest, hended, -⟩ := scanHeaderString_returned (decSize_lt hlen) h
      exact ⟨_, rest, hended⟩

theorem parseHeaderString_empty {str head rest : StringRef} (hlen : str.len < 2 ^ 64)
    (h : parseHeaderString str = .ok (head, rest)) : head = ⟨0, str.data⟩ := by
  unfold parseHeaderString at h
  obtain ⟨ended, hscan, h⟩ := bind_eq_ok.mp h
  obtain ⟨off, rest', rfl⟩ := scanHeaderString_first hlen hscan
  exact (Prod.mk.inj (Except.ok.inj h)).1.symm

/-- In front of a blank line the scan skips it and stops inside the body. -/
theorem parseHeaderString_blank {str head rest body : StringRef} (hlen : str.len < 2 ^ 64)
    (hblank : Consumes str crlf body) (h : parseHeaderString str = .ok (head, rest)) :
    ∃ k ≤ body.data.length, rest.data = body.data.drop k ∧
      (rest.len : Int) = ((body.len : Int) - k) % 2 ^ 64 := by
  unfold parseHeaderString at h
  obtain ⟨ended, hscan, h⟩ := bind_eq_ok.mp h
  have hbody := hblank.len_eq
  simp only [List.length_cons, List.length_nil] at hbody
  have hskip : scanHeaderString body.data body.len 2 true true = .ok ended := by
    rw [hblank.data_eq, show crlf ++ body.data = cr :: lf :: body.data from rfl,
      scanHeaderString, if_pos (.inr rfl), hbody, Nat.add_comm, decSize_succ, decSize_succ] at hscan
    simpa using hscan
  obtain ⟨k, rest', rfl, hk, hdata, hrest⟩ := scanHeaderString_returned (by omega) hskip
  cases (Prod.mk.inj (Except.ok.inj h)).2
  exact ⟨k, hk, hdata, hrest⟩

/-- What string mode returns behind the start line is never the header block
with the body behind it. -/
theorem stringMode_wrong {rt : Runtime} {after rest rest' blank body : StringRef}
    {hs : HttpHeaderStruct} {head : StringRef} (hread : after.Readable)
    (hmem : after.data.length < 2 ^ 64) (hstruct : parseHeaderStruct rt after = .ok (hs, blank))
    (hblank : Consumes blank crlf body) (hstring : parseHeaderString after = .ok (head, rest))
    (hrest : Consumes rest crlf rest') (hbody : SameText rest' body)
    (hhead : after.bytes = head.bytes ++ crlf ++ body.bytes) : False := by
  have hlen : after.len < 2 ^ 64 := by unfold StringRef.Readable at hread; omega
  obtain ⟨lines, hlines, -⟩ := parseHeaderStruct_sound hstruct
  have hblock : headerText lines = [] := by
    rw [(hlines.trans hblank).bytes_eq, parseHeaderString_empty hlen hstring] at hhead
    have hcut := List.append_cancel_right (List.append_cancel_right hhead)
    rwa [StringRef.bytes, List.take_zero] at hcut
  rw [hblock] at hlines
  cases (Consumes.refl after).unique hlines
  obtain ⟨k, hk, hdata, hrestLen⟩ := parseHeaderString_blank hlen hblank hstring
  -- the body starts two bytes and more behind its place, in a memory too small to wrap
  have h1 := hrest.len_eq
  have h2 := hblank.len_eq
  have h3 := congrArg List.length hblank.data_eq
  have h4 := congrArg List.length hrest.data_eq
  have h5 := hbody.1
  rw [hdata, List.length_drop] at h4
  simp only [List.length_append, List.length_cons, List.length_nil] at h1 h2 h3 h4
  omega

theorem parseHeader_string {rt : Runtime} {str rest : StringRef} {head : HttpHeader} :
    parseHeader rt str false = .ok (head, rest) ↔
      ∃ block, parseHeaderString str = .ok (block, rest) ∧ head = .asString block := by
  unfold parseHeader
  rw [if_neg (by decide), bind_eq_ok]
  constructor
  · rintro ⟨⟨block, str'⟩, hheader, hhead⟩
    simp only [pure_eq_ok, Except.ok.injEq, Prod.mk.injEq] at hhead
    exact ⟨block, hhead.2 ▸ hheader, hhead.1.symm⟩
  · rintro ⟨block, hheader, rfl⟩
    exact ⟨(block, rest), hheader, rfl⟩

/-- The same of the two modes behind a start line. -/
theorem modes_wrong {rt : Runtime} {str after rest rest' blank body block : StringRef}
    {text : Bytes} {head : HttpHeader} (hread : str.Readable) (hmem : str.data.length < 2 ^ 64)
    (htext : Consumes str text after) (hstruct : parseHeader rt after true = .ok (head, blank))
    (hblank : Consumes blank crlf body)
    (hstring : parseHeader rt after false = .ok (.asString block, rest))
    (hrest : Consumes rest crlf rest') (hbody : SameText rest' body)
    (hbytes : after.bytes = block.bytes ++ crlf ++ body.bytes) : False := by
  obtain ⟨hs, hstruct, -⟩ := parseHeader_struct.mp hstruct
  obtain ⟨block', hstring, hhead⟩ := parseHeader_string.mp hstring
  cases hhead
  have hlength := congrArg List.length htext.data_eq
  rw [List.length_append] at hlength
  exact stringMode_wrong (htext.readable.mpr hread) (by omega) hstruct hblank hstring hrest hbody
    hbytes

theorem request_modes_disagree {rt : Runtime} {str : StringRef} {req : HttpRequest}
    (hread : str.Readable) (hmem : str.data.length < 2 ^ 64)
    (hparse : parseHttpRequest rt str true = .ok req) : ¬ RequestModesAgree rt str req := by
  rintro ⟨sreq, block, hstring, -, -, -, hbody, hhead, line, after, hline, hbytes⟩
  obtain ⟨-, after₁, blank, hline₁, hstruct, hblank⟩ := parseHttpRequest_calls.mp hparse
  obtain ⟨-, after₂, rest, hline₂, hstring, hrest⟩ := parseHttpRequest_calls.mp hstring
  obtain ⟨-, rfl⟩ := Prod.mk.inj (Except.ok.inj (hline.symm.trans hline₁))
  obtain ⟨-, rfl⟩ := Prod.mk.inj (Except.ok.inj (hline.symm.trans hline₂))
  obtain ⟨text, htext, -⟩ := parseRequestLine_sound hline
  rw [hhead] at hstring
  exact modes_wrong hread hmem htext hstruct hblank hstring hrest hbody hbytes

theorem response_modes_disagree {rt : Runtime} {str : StringRef} {resp : HttpResponse}
    (hread : str.Readable) (hmem : str.data.length < 2 ^ 64)
    (hparse : parseHttpResponse rt str true = .ok resp) : ¬ ResponseModesAgree rt str resp := by
  rintro ⟨sresp, block, hstring, -, -, -, hbody, hhead, line, after, hline, hbytes⟩
  obtain ⟨after₁, blank, hline₁, hstruct, hblank⟩ := parseHttpResponse_calls.mp hparse
  obtain ⟨after₂, rest, hline₂, hstring, hrest⟩ := parseHttpResponse_calls.mp hstring
  obtain ⟨-, rfl⟩ := Prod.mk.inj (Except.ok.inj (hline.symm.trans hline₁))
  obtain ⟨-, rfl⟩ := Prod.mk.inj (Except.ok.inj (hline.symm.trans hline₂))
  obtain ⟨text, htext, -⟩ := parseStatusLine_sound hline
  rw [hhead] at hstring
  exact modes_wrong hread hmem htext hstruct hblank hstring hrest hbody hbytes

/-- String mode disagrees on every text that struct mode accepts. -/
theorem modes_never_agree {rt : Runtime} {str : StringRef} (hread : str.Readable)
    (hmem : str.data.length < 2 ^ 64) :
    (∀ req, parseHttpRequest rt str true = .ok req → ¬ RequestModesAgree rt str req) ∧
    (∀ resp, parseHttpResponse rt str true = .ok resp → ¬ ResponseModesAgree rt str resp) := by
  constructor
  · intro req hparse
    exact request_modes_disagree hread hmem hparse
  · intro resp hparse
    exact response_modes_disagree hread hmem hparse

/-- `GET / HTTP/1.1` with one field. -/
def oneFieldText : Bytes :=
  ascii ['G', 'E', 'T', ' ', '/', ' ', 'H', 'T', 'T', 'P', '/', '1', '.', '1'] ++ crlf ++
    ascii ['H', 'o', 's', 't', ':', 'a'] ++ crlf ++ crlf ++ ascii ['b']

/-- The same field in a response. -/
def oneFieldResponse : Bytes :=
  ascii ['H', 'T', 'T', 'P', '/', '1', '.', '1', ' ', '2', '0', '0', ' ', 'O', 'K'] ++ crlf ++
    ascii ['H', 'o', 's', 't', ':', 'a'] ++ crlf ++ crlf ++ ascii ['b']

theorem modes_never_agree_oneField :
    (∃ req, parseHttpRequest .unlimited ⟨27, oneFieldText⟩ true = .ok req ∧
      ¬ RequestModesAgree .unlimited ⟨27, oneFieldText⟩ req) ∧
    (∃ resp, parseHttpResponse .unlimited ⟨28, oneFieldResponse⟩ true = .ok resp ∧
      ¬ ResponseModesAgree .unlimited ⟨28, oneFieldResponse⟩ resp) := by
  constructor
  · exact ⟨_, rfl, (modes_never_agree (by decide) (by decide)).1 _ rfl⟩
  · exact ⟨_, rfl, (modes_never_agree (by decide) (by decide)).2 _ rfl⟩

/-- String mode takes the end of the last field and the blank line for the body. -/
theorem oneField_modes_disagree :
    ∃ req, parseHttpRequest .unlimited ⟨27, oneFieldText⟩ true = .ok req ∧
      ¬ RequestModesAgree .unlimited ⟨27, oneFieldText⟩ req := by
  refine ⟨_, rfl, ?_⟩
  rintro ⟨sreq, block, hstring, -, -, -, hbody, -⟩
  cases hstring
  exact absurd hbody.1 (by decide)

end Net77.Http
