import Net77.Base.Words
import Net77.Http.Completion
import Net77.Http.MessageParsing
import Net77.Http.Serialization

/-! What the receive controller lets through, against what the parsers accept. -/
namespace Net77.Http

open Net77.Base

section Requests

variable {rt : Runtime}

/-- No method is taken for the word of a version. -/
theorem methodWord_not_http {word : Bytes} {method : HttpMethod} (h : MethodWord word method)
    (more : Bytes) : strLowerEqLiteral (word ++ more) httpLiteral = .ok false := by
  obtain ⟨tail, rfl⟩ := h.named
  cases method <;> rfl

/-- The first line of what the parser accepts as a request starts with a method. -/
theorem parseHttpRequest_starts {str : StringRef} {mode : Bool} {req : HttpRequest}
    (h : parseHttpRequest rt str mode = .ok req) : ∃ word, MethodWord word req.method ∧
      word.length ≤ intMax ∧ word ++ [space] <+: str.bytes ∧ crlf <:+: str.bytes := by
  obtain ⟨-, after, blank, hline, -, -⟩ := parseHttpRequest_calls.mp h
  obtain ⟨line, htaken, hlineText, -⟩ := parseRequestLine_sound hline
  have hcrlf : crlf <:+: str.bytes := by
    rw [htaken.bytes_eq]
    obtain ⟨-, -, -, -⟩ := hlineText
    exact (List.suffix_append _ _).isInfix.trans (List.prefix_append _ _).isInfix
  unfold parseRequestLine at hline
  obtain ⟨c, -, hline⟩ := bind_eq_ok.mp hline
  split at hline
  · obtain ⟨⟨url, mid⟩, hurl, hline⟩ := bind_eq_ok.mp hline
    obtain ⟨last, hnewline, -⟩ := bind_eq_ok.mp hline
    exact absurd (expectNewline_iff.mp hnewline) (parseURL_not_newline hurl)
  · obtain ⟨⟨method, behind⟩, hmethod, hline⟩ := bind_eq_ok.mp hline
    obtain ⟨target, hspace, hline⟩ := bind_eq_ok.mp hline
    obtain ⟨⟨url, s1⟩, -, hline⟩ := bind_eq_ok.mp hline
    obtain ⟨s2, -, hline⟩ := bind_eq_ok.mp hline
    obtain ⟨⟨version, s3⟩, -, hline⟩ := bind_eq_ok.mp hline
    obtain ⟨s4, -, hline⟩ := bind_eq_ok.mp hline
    simp only [pure_eq_ok, Except.ok.injEq, Prod.mk.injEq] at hline
    obtain ⟨⟨rfl, -, -⟩, -⟩ := hline
    have hspace := expectChar_iff.mp hspace
    obtain ⟨word, hword, methodWord, hmax⟩ := parseMethod_sound hmethod hspace
    refine ⟨word, methodWord, hmax, ?_, hcrlf⟩
    rw [(hword.trans hspace).bytes_eq]
    exact List.prefix_append _ _

/-- Up to its first newline, which may be in the url, a request is no response. -/
theorem methodLine_noVersion {text word : Bytes} {method : HttpMethod} {lineEnd : Nat}
    (hword : MethodWord word method) (hmax : word.length ≤ intMax)
    (hstart : word ++ [space] <+: text) (hend : firstEnd crlf text = some lineEnd) :
    parseHttpVersion ⟨lineEnd, text.take lineEnd⟩ = .error (.status 1) := by
  have hfree : firstEnd crlf (word ++ [space]) = none := by
    rw [firstEnd_none, firstOccurrence_none]
    refine not_newline_within fun c hc => ?_
    rcases List.mem_append.mp hc with hletter | hspace
    · exact not_newline_of_letter (hword.letters c hletter)
    · rw [List.mem_singleton.mp hspace]
      decide
  have hlt := length_lt_firstEnd hfree hstart hend
  obtain ⟨rest, hrest⟩ : ∃ rest, text.take lineEnd = word ++ space :: rest := by
    obtain ⟨n, rfl⟩ := Nat.exists_eq_add_of_lt hlt
    obtain ⟨tail, rfl⟩ := hstart
    refine ⟨tail.take (n + 1), ?_⟩
    rw [Nat.add_assoc, List.take_length_add_append]
    simp
  rw [List.length_append, List.length_singleton] at hlt
  rw [hrest]
  have hconsumes : Consumes ⟨lineEnd, word ++ space :: rest⟩ word
      ⟨lineEnd - word.length, space :: rest⟩ := by
    refine ⟨rfl, ?_⟩
    dsimp only
    omega
  have hrun : parseWord ⟨lineEnd, word ++ space :: rest⟩ =
      .ok (⟨word.length, word ++ space :: rest⟩, ⟨lineEnd - word.length, space :: rest⟩) :=
    parseRun_of_consumes hconsumes hword.letters rfl (by dsimp only; omega) (by decide) hmax
  rw [parseHttpVersion, hrun, ok_bind]
  dsimp only
  rw [methodWord_not_http hword, ok_bind]
  rfl

/-- What the response controller makes of a request: it is rejected as soon as its first line
is there, or cut off in front of that. -/
theorem receive_request {text word : Bytes} {method : HttpMethod} {lineEnd : Nat}
    (hword : MethodWord word method) (hmax : word.length ≤ intMax)
    (hstart : word ++ [space] <+: text) (hend : firstEnd crlf text = some lineEnd) (rest : Bytes)
    (og : Int) :
    ∃ status n, n ≤ lineEnd ∧ receiveMessage (text ++ rest) og = .ok ⟨status, text.take n, false⟩ ∧
      if og < 0 ∨ (lineEnd : Int) ≤ og then status = 1 ∧ n = lineEnd
      else status = 0 ∧ (n : Int) = og := by
  have hfits := (firstEnd_some hend).1
  split
  · rename_i hlimit
    refine ⟨1, lineEnd, le_rfl, ?_, rfl, rfl⟩
    obtain ⟨hend', -⟩ := firstEnd_of_longer hend (List.take_prefix lineEnd text)
      (by rw [List.length_take]; omega)
    have hlen : (text.take lineEnd).length = lineEnd := List.length_take_of_le hfits
    have hprefix : text.take lineEnd <+: cut (text ++ rest) og :=
      prefix_cut ((List.take_prefix lineEnd text).trans (List.prefix_append text rest))
        (by rw [hlen]; omega)
    rw [receive_lineEnd hprefix (by rw [hlen]; exact hend'), hlen,
      methodLine_noVersion hword hmax hstart hend]
  · rename_i hlimit
    refine ⟨0, og.toNat, by omega, ?_, rfl, by omega⟩
    have hlen : ((text.take og.toNat).length : Int) = og := by
      rw [List.length_take]
      omega
    have hprefix : text.take og.toNat <+: text ++ rest :=
      (List.take_prefix og.toNat text).trans (List.prefix_append text rest)
    have hnone : firstEnd crlf (cut (text ++ rest) og) = none := by
      rw [cut_full hprefix hlen]
      by_contra hsome
      obtain ⟨n, hn⟩ := Option.ne_none_iff_exists'.mp hsome
      obtain ⟨hend', -⟩ := firstEnd_mono hn (List.take_prefix og.toNat text)
      have hbound := (firstEnd_some hn).1
      cases Option.some.inj (hend.symm.trans hend')
      omega
    rw [receive_noLine hnone, untilLimit_full hprefix hlen]

/-- A server cannot receive with the controller of the client: every request that the parser
accepts, in either mode, is rejected with its first line, unless the limit cuts it off before.
With memory and a readable poll for each byte of the line, the call returns. -/
theorem request_rejected {str : StringRef} {mode : Bool} {req : HttpRequest}
    (hparse : parseHttpRequest rt str mode = .ok req) :
    ∃ lineEnd, firstEnd crlf str.bytes = some lineEnd ∧
      ∀ (rt : Runtime) (fd : Int) (builder : StringBuilder) (og : Int) (timeoutIsError : Bool)
        (sbMinCap : Int) (rest : Bytes) (events : List SocketEvent),
        builder.Holds [] → IsSsize og → (∀ event ∈ events, event.Readable) →
        (∀ res, recvAllData rt fd builder og timeoutIsError sbMinCap (some httpReceiveController)
            .zeroed (str.bytes ++ rest) events = .ok res →
          res.closedSock = false ∧ res.builder.Holds (str.bytes.take res.received) ∧
            if og < 0 ∨ (lineEnd : Int) ≤ og then res.status = 1 ∧ res.received = lineEnd
            else res.status = 0 ∧ (res.received : Int) = og) ∧
        (rt.AllocSucceeds → 1 ≤ sbMinCap → (lineEnd + sbMinCap : Int) ≤ maxCapacity →
          lineEnd ≤ events.length →
            ∃ res, recvAllData rt fd builder og timeoutIsError sbMinCap
              (some httpReceiveController) .zeroed (str.bytes ++ rest) events = .ok res) := by
  obtain ⟨word, hword, hmax, hstart, hcrlf⟩ := parseHttpRequest_starts hparse
  have hends : firstEnd crlf str.bytes ≠ none := by
    rw [Ne, firstEnd_none, firstOccurrence_none, not_not]
    exact hcrlf
  obtain ⟨lineEnd, hend⟩ := Option.ne_none_iff_exists'.mp hends
  have hfits := (firstEnd_some hend).1
  refine ⟨lineEnd, hend, ?_⟩
  intro rt fd builder og timeoutIsError sbMinCap rest events hbuilder hog hevents
  obtain ⟨status, n, hn, hmessage, hanswer⟩ := receive_request hword hmax hstart hend rest og
  have hlen : (str.bytes.take n).length = n := List.length_take_of_le (hn.trans hfits)
  constructor
  · intro res hok
    obtain ⟨r, hr, hdelivers⟩ := recvAllData_spec hbuilder hog
      (fun event hmem => .inl (hevents event hmem)) hok
    cases Except.ok.inj (hmessage.symm.trans hr)
    have hreceived : res.received = n := hdelivers.received.trans hlen
    rw [hreceived, hdelivers.status]
    exact ⟨hdelivers.closedSock, hdelivers.holds rfl, hanswer⟩
  · intro halloc hmin hmem hcount
    have hcap : sbMinCap ≤ maxCapacity := by omega
    have hneeds : ((str.bytes.take n).length + sbMinCap : Int) ≤ maxCapacity + 1 := by omega
    have hpolls : (str.bytes.take n).length ≤ events.length := by omega
    obtain ⟨res, -, hok, -⟩ := recvAllData_total fd timeoutIsError hbuilder hog halloc hmin hcap
      hmessage rfl hneeds hevents hpolls
    exact ⟨res, hok⟩

/-- The first line of a request, read byte by byte, and its rejection. -/
theorem request_rejected_root :
    let text := requestWire ⟨.get, [slash], .http11, [], []⟩
    ∃ res, recvAllData .unlimited 3 ⟨0, 1, [none]⟩ (-1) false 1 (some httpReceiveController) .zeroed
        (StringRef.bytes ⟨18, text⟩ ++ []) (List.replicate 16 ⟨.ready (.only true false), 0⟩) =
          .ok res ∧
      res.closedSock = false ∧
      res.builder.Holds ((StringRef.bytes ⟨18, text⟩).take res.received) ∧ res.status = 1 ∧
      res.received = 16 := by
  intro text
  have hparse : parseHttpRequest .unlimited ⟨18, text⟩ true = .ok _ := rfl
  obtain ⟨lineEnd, hend, hrejects⟩ := request_rejected hparse
  have hsixteen : firstEnd crlf (StringRef.bytes ⟨18, text⟩) = some 16 := by decide
  cases Option.some.inj (hend.symm.trans hsixteen)
  have holds : (⟨0, 1, [none]⟩ : StringBuilder).Holds [] := ⟨by decide, rfl, rfl, rfl⟩
  have hreadable : ∀ event ∈ List.replicate 16 (⟨.ready (.only true false), 0⟩ : SocketEvent),
      event.Readable := by
    intro event hevent
    rw [List.eq_of_mem_replicate hevent]
    exact ⟨_, rfl, rfl, rfl, rfl⟩
  obtain ⟨hresult, htotal⟩ := hrejects .unlimited 3 ⟨0, 1, [none]⟩ (-1) false 1 [] _ holds
    (by decide) hreadable
  obtain ⟨res, hok⟩ := htotal (fun _ _ => rfl) (by decide) (by decide) (by decide)
  obtain ⟨hclosed, hholds, hstatus⟩ := hresult res hok
  rw [if_pos (by decide)] at hstatus
  exact ⟨res, hok, hclosed, hholds, hstatus.1, hstatus.2⟩

end Requests

section Announcements

/-- `Content-Length:` occurs in the text, in any letter case. -/
def MentionsLength (text : Bytes) : Prop :=
  contentLengthHeaderName.map tolower <:+: text.map tolower

theorem mentionsLength_of_lengthText {head field : Bytes} (h : lengthText head = some field) :
    MentionsLength head := by
  by_contra hnot
  have hnone : findAsciiSubstringCaseInsensitive head contentLengthHeaderName = none := by
    rw [find_eq_firstOccurrence, firstOccurrence_none]
    exact hnot
  rw [lengthText, hnone] at h
  contradiction

/-- The part of a line behind its last separator has the word, if the part in front has no
hyphen and the word does not reach across. -/
theorem mentionsLength_behind {front back : Bytes} {sep : Byte}
    (hfront : ∀ c ∈ front, tolower c ≠ 45) (hsep : sep = space ∨ sep = colon)
    (h : MentionsLength (front ++ sep :: back)) : MentionsLength back := by
  unfold MentionsLength at h ⊢
  have hword : contentLengthHeaderName.map tolower =
      ascii ['c', 'o', 'n', 't', 'e', 'n', 't'] ++
        45 :: ascii ['l', 'e', 'n', 'g', 't', 'h', ':'] :=
    rfl
  rw [hword, List.map_append, List.map_cons] at h
  rw [hword]
  refine infix_behind ?_ ?_ ?_ h
  · intro hmem
    obtain ⟨c, hc, heq⟩ := List.mem_map.mp hmem
    exact hfront c hc heq
  · rcases hsep with rfl | rfl <;> decide
  · rcases hsep with rfl | rfl <;> decide

theorem tolower_hyphen {c : Byte} (h : tolower c = 45) : c = 45 := by
  unfold tolower at h
  split at h
  · rename_i hupper
    have hlow := UInt8.le_iff_toNat_le.mp hupper.1
    have hhigh := UInt8.le_iff_toNat_le.mp hupper.2
    have hsum := congrArg UInt8.toNat h
    rw [UInt8.toNat_add] at hsum
    simp only [UInt8.reduceToNat] at hlow hhigh hsum
    omega
  · exact h

theorem tolower_letter {c : Byte} (h : isLetter c = true) : tolower c ≠ 45 := by
  intro hyphen
  rw [tolower_hyphen hyphen] at h
  contradiction

theorem tolower_digit {c : Byte} (h : isDigit c = true) : tolower c ≠ 45 := by
  intro hyphen
  rw [tolower_hyphen hyphen] at h
  contradiction

theorem FieldLine.name_noHyphen (line : FieldLine) : ∀ c ∈ line.name, tolower c ≠ 45 :=
  fun c hc => tolower_letter (line.name_letters c hc)

/-- In a field line, only the value has room for it. -/
theorem FieldLine.mentionsLength (line : FieldLine) (h : MentionsLength line.content) :
    MentionsLength line.value := by
  unfold FieldLine.content at h
  cases hpadding : line.padding with
  | zero =>
    rw [hpadding] at h
    exact mentionsLength_behind line.name_noHyphen (.inr rfl) h
  | succ n =>
    rw [hpadding, List.replicate_succ', List.append_assoc, List.singleton_append,
      ← List.cons_append, ← List.append_assoc] at h
    refine mentionsLength_behind ?_ (.inl rfl) h
    intro c hc
    rcases List.mem_append.mp hc with hletter | hblank
    · exact line.name_noHyphen c hletter
    · rcases List.mem_cons.mp hblank with rfl | hspace
      · decide
      · rw [List.eq_of_mem_replicate hspace]
        decide

/-- In a status line, only the message has room for it. -/
theorem StatusLineText.mentionsLength {line msg : Bytes} {version : HttpVersion} {code : Int}
    (h : StatusLineText line version code msg) :
    ∃ front, line = front ++ crlf ∧ (MentionsLength front → MentionsLength msg) := by
  obtain ⟨versionWord, ⟨hlow, hhigh⟩, hsecond, hthird, -⟩ := h
  rename_i versionText a b c
  refine ⟨versionText ++ [space] ++ [a, b, c] ++ [space] ++ msg, rfl, ?_⟩
  intro hmentions
  rw [List.append_assoc, List.singleton_append] at hmentions
  refine mentionsLength_behind ?_ (.inl rfl) hmentions
  have hfirst : isDigit a = true := by
    simp only [isDigit, Bool.and_eq_true, decide_eq_true_eq]
    exact ⟨UInt8.le_trans (by decide) hlow, UInt8.le_trans hhigh (by decide)⟩
  obtain ⟨letters, -, hmajor, hminor, -⟩ := versionWord
  rename_i word major minor
  have hmajor : isDigit major = true := by rcases hmajor with rfl | rfl | rfl <;> rfl
  intro d hd
  simp only [List.mem_append, List.mem_cons, List.not_mem_nil, or_false] at hd
  rcases hd with ((hletter | rfl | rfl | rfl | rfl) | rfl) | rfl | rfl | rfl
  · exact tolower_letter (letters d hletter)
  · decide
  · exact tolower_digit hmajor
  · decide
  · exact tolower_digit hminor
  · decide
  · exact tolower_digit hfirst
  · exact tolower_digit hsecond
  · exact tolower_digit hthird

/-- A response can be announced in its status message or in the value of a field, and be
accepted. -/
theorem announced_within {text : Bytes} {m : ResponseMessage} (htext : ResponseText text m)
    (complete : CompleteMessage text) :
    MentionsLength m.statusMsg ∨ ∃ field ∈ m.fields, MentionsLength field.2 := by
  obtain ⟨headEnd, value, hend, ⟨field, found, -⟩, -⟩ := complete
  obtain ⟨statusLine, lines⟩ := htext
  rename_i line msg body version code
  obtain ⟨front, rfl, hmsg⟩ := statusLine.mentionsLength
  -- the head ends at the blank line at the latest
  have hhead : front ++ crlf ++ headerText lines ++ crlf =
      joinLines cr lf (front :: lines.map FieldLine.content ++ [[]]) := by
    rw [joinLines_append, joinLines_cons]
    simp [joinLines, headerText, List.flatMap_map]
    rfl
  have hends : firstEnd endOfHeader (front ++ crlf ++ headerText lines ++ crlf) ≠ none := by
    rw [Ne, firstEnd_none, firstOccurrence_none, not_not]
    rcases List.eq_nil_or_concat lines with rfl | ⟨init, last, rfl⟩
    · refine ⟨front, [], ?_⟩
      simp [headerText, endOfHeader]
    · refine ⟨front ++ crlf ++ headerText init ++ last.content, [], ?_⟩
      simp [headerText, endOfHeader, FieldLine.text]
  obtain ⟨n, hn⟩ := Option.ne_none_iff_exists'.mp hends
  obtain ⟨hend', htake⟩ := firstEnd_mono hn (List.prefix_append _ body)
  cases Option.some.inj (hend.symm.trans hend')
  rw [htake] at found
  have hmentions : MentionsLength (front ++ crlf ++ headerText lines ++ crlf) :=
    (mentionsLength_of_lengthText found).trans ((List.take_prefix _ _).isInfix.map tolower)
  rw [hhead] at hmentions
  unfold MentionsLength at hmentions
  rw [map_joinLines] at hmentions
  obtain ⟨low, hmem, hin⟩ := infix_joinLines (by decide) (by decide) (by decide) hmentions
  obtain ⟨content, hcontent, rfl⟩ := List.mem_map.mp hmem
  simp only [List.cons_append, List.mem_cons, List.mem_append, List.mem_map, List.not_mem_nil,
    or_false] at hcontent
  rcases hcontent with rfl | ⟨fieldLine, hline, rfl⟩ | rfl
  · exact .inl (hmsg hin)
  · exact .inr ⟨fieldLine.pair, List.mem_map_of_mem hline, fieldLine.mentionsLength hin⟩
  · exact absurd (List.infix_nil.mp hin) (by decide)

/-- Of the complete messages of HTTP/1.1, the parser accepts only those that have their
length inside the status message or the value of a field. A field of that name, which the
length is meant to be, is never accepted. -/
theorem accepted_announcement {rt : Runtime} {str : StringRef} {resp : HttpResponse}
    {m : ResponseMessage} (complete : CompleteMessage str.bytes)
    (hparse : parseHttpResponse rt str true = .ok resp) (hm : resp.message = some m) :
    (MentionsLength m.statusMsg ∨ ∃ field ∈ m.fields, MentionsLength field.2) ∧
      ∀ field ∈ m.fields, ¬ MentionsLength (field.1 ++ [colon]) := by
  obtain ⟨m', hm', htext, -⟩ := parseHttpResponse_sound hparse
  cases Option.some.inj (hm'.symm.trans hm)
  refine ⟨announced_within htext complete, ?_⟩
  intro field hfield hmentions
  generalize str.bytes = text at htext
  obtain ⟨-, lines⟩ := htext
  obtain ⟨line, -, rfl⟩ := List.mem_map.mp hfield
  have hnil : MentionsLength [] :=
    mentionsLength_behind line.name_noHyphen (.inr rfl) hmentions
  exact absurd (List.infix_nil.mp hnil) (by decide)

/-- A field whose value announces the body. -/
def oddResponse : Bytes :=
  ascii ['H', 'T', 'T', 'P', '/', '1', '.', '1', ' ', '2', '0', '0', ' ', 'O', 'K'] ++ crlf ++
    ascii ['X', ':'] ++ contentLengthHeaderName ++ ascii ['2'] ++ crlf ++ crlf ++ ascii ['h', 'i']

theorem accepted_announcement_odd : ∃ resp m,
    parseHttpResponse .unlimited ⟨41, oddResponse⟩ true = .ok resp ∧ resp.message = some m ∧
    (MentionsLength m.statusMsg ∨ ∃ field ∈ m.fields, MentionsLength field.2) ∧
      ∀ field ∈ m.fields, ¬ MentionsLength (field.1 ++ [colon]) := by
  have complete : CompleteMessage (StringRef.bytes ⟨41, oddResponse⟩) :=
    ⟨39, 2, by decide, ⟨_, rfl, [], [50], [], [lf, cr, lf], by decide⟩, by decide⟩
  obtain ⟨resp, hparse, hm⟩ : ∃ resp,
      parseHttpResponse .unlimited ⟨41, oddResponse⟩ true = .ok resp ∧ resp.message =
        some ⟨.http11, 200, ascii ['O', 'K'],
          [(ascii ['X'], contentLengthHeaderName ++ ascii ['2'])], ascii ['h', 'i']⟩ :=
    ⟨_, rfl, by decide⟩
  exact ⟨resp, _, hparse, hm, accepted_announcement complete hparse hm⟩

end Announcements

end Net77.Http
