import Net77.Base.Logged
import Net77.Http.HeaderBounds
import Net77.Http.HeaderPasses

/-! The struct-mode parser with the calls of `malloc` and `free` that it makes. A call
allocates at most one array, at the address that the environment chooses. -/
namespace Net77.Http

open Net77.Base

abbrev Heap (α : Type) : Type := Logged Nat Stop α

/-- `free(hf); return err;`. -/
def freeAndReturn {α : Type} (addr : Nat) (err : Int) : Heap α := do
  .emit (.release addr)
  .lift (.error (.status err))

/-- The fill loop and the final test, which free the array if they fail. -/
def fillFieldArray (addr size count : Nat) (str : StringRef) :
    Heap ((HttpHeaderStruct × Option Nat) × StringRef) :=
  match parseHeaderFields size count 0 str with
  | .error (.status err) => freeAndReturn addr err
  | .error stop => .lift (.error stop)
  | .ok (fields, str) =>
    if str.len ≤ 1 then freeAndReturn addr 1
    else do
      if ← .lift (atNewline str.data) then pure ((⟨fields⟩, some addr), str)
      else freeAndReturn addr 1

/-- `parseHeaderStruct` with the array behind `hs->fields`, which is NULL if the header
is empty. -/
def parseHeaderStructInto (rt : Runtime) (addr : Nat) (str : StringRef) :
    Heap ((HttpHeaderStruct × Option Nat) × StringRef) := do
  match ← .lift (countLines str.data (decSize str.len) 0 0 false true) with
  | .emptyHeader => pure ((⟨[]⟩, none), str)
  | .lines count =>
    let size := toSize (headerFieldsSize count)
    if rt.malloc size then
      .emit (.acquire addr)
      fillFieldArray addr size count str
    else .lift (.error (.status 1))

/-- `parseHeader`, which only passes the array on. -/
def parseHeaderInto (rt : Runtime) (addr : Nat) (str : StringRef) :
    Heap ((HttpHeader × Option Nat) × StringRef) := do
  let ((hs, array), str) ← parseHeaderStructInto rt addr str
  pure ((.asStruct hs, array), str)

/-- What a call of a parser leaves behind: the struct of its caller, the array that the
head of the struct points to, and the log of the heap. -/
structure Aftermath (α : Type) where
  result : Except Stop Unit
  target : α
  array : Option Nat
  log : List (Entry Nat)

/-- The struct is assigned behind the last call that can fail. -/
def Aftermath.of {α : Type} (before : α) (call : Heap (α × Option Nat)) : Aftermath α :=
  match call.result with
  | .ok (parsed, array) => ⟨.ok (), parsed, array, call.log⟩
  | .error stop => ⟨.error stop, before, none, call.log⟩

def parseHttpRequestInto (rt : Runtime) (addr : Nat) (str : StringRef) (req : HttpRequest) :
    Aftermath HttpRequest :=
  if str.len = 0 then .of req (.lift (.error (.status 1)))
  else .of req do
    let ((method, url, version), str) ← .lift (parseRequestLine str)
    let ((head, array), str) ← parseHeaderInto rt addr str
    let str ← .lift (expectNewline str)
    pure ({ method, url, version, head, body := parseBody str }, array)

def parseHttpResponseInto (rt : Runtime) (addr : Nat) (str : StringRef) (resp : HttpResponse) :
    Aftermath HttpResponse :=
  .of resp do
    let ((version, statusCode, statusMsg), str) ← .lift (parseStatusLine str)
    let ((head, array), str) ← parseHeaderInto rt addr str
    let str ← .lift (expectNewline str)
    pure ({ version, statusCode, statusMsg, head, body := parseBody str }, array)

/-- The head has no fields and no array, or fields in the one array that was allocated. -/
def OwnsFields (hs : HttpHeaderStruct) (array : Option Nat) (log : List (Entry Nat)) : Prop :=
  hs.fields = [] ∧ array = none ∧ log = [] ∨
    hs.fields ≠ [] ∧ ∃ addr, array = some addr ∧ log = [.acquire addr]

section Header

variable {rt : Runtime} {addr : Nat} {str rest : StringRef}

theorem length_parseHeaderFields {size : Nat} {fields : List HttpHeaderField} :
    ∀ (todo i : Nat) (str : StringRef), parseHeaderFields size todo i str = .ok (fields, rest) →
      fields.length = todo := by
  intro todo
  induction todo generalizing fields with
  | zero =>
    intro i str h
    obtain ⟨rfl, -⟩ := Prod.mk.inj (Except.ok.inj h)
    rfl
  | succ todo ih =>
    intro i str h
    unfold parseHeaderFields at h
    obtain ⟨⟨field, mid⟩, -, h⟩ := bind_eq_ok.mp h
    dsimp only at h
    split at h
    · contradiction
    · obtain ⟨⟨more, mid⟩, hmore, h⟩ := bind_eq_ok.mp h
      obtain ⟨rfl, rfl⟩ := Prod.mk.inj (Except.ok.inj h)
      rw [List.length_cons, ih _ _ hmore]

theorem countLines_begun {data : Bytes} {todo count : Nat} {last : Bool} (h : crlf <+: data)
    (htodo : 0 < todo) : countLines data todo 0 count last true = .ok .emptyHeader := by
  obtain ⟨body, rfl⟩ := h
  obtain ⟨todo, rfl⟩ := Nat.exists_eq_succ_of_ne_zero htodo.ne'
  simp [countLines, intMax_pos.ne]

/-- An array without fields is not left behind: in front of a blank line nothing is
allocated. -/
theorem fields_ne_nil {size count : Nat} {fields : List HttpHeaderField}
    (hcount : countLines str.data (decSize str.len) 0 0 false true = .ok (.lines count))
    (hfields : parseHeaderFields size count 0 str = .ok (fields, rest)) (hlen : ¬ rest.len ≤ 1)
    (hnewline : atNewline rest.data = .ok true) : fields ≠ [] := by
  rintro rfl
  have hzero := length_parseHeaderFields count 0 str hfields
  rw [List.length_nil] at hzero
  subst hzero
  obtain ⟨-, rfl⟩ := Prod.mk.inj (Except.ok.inj hfields)
  have hbegun : crlf <+: str.data := of_decide_eq_true (atNewline_eq hnewline).symm
  have htodo : 0 < decSize str.len := by
    unfold decSize
    rw [if_neg (by omega)]
    omega
  rw [countLines_begun hbegun htodo] at hcount
  contradiction

theorem atNewline_error {data : Bytes} {stop : Stop} (h : atNewline data = .error stop) :
    stop = .fault .outOfBounds := by
  cases data with
  | nil => exact (Except.error.inj h).symm
  | cons c data =>
    rw [atNewline] at h
    split at h
    · cases data with
      | nil => exact (Except.error.inj h).symm
      | cons d data => contradiction
    · contradiction

/-- What the fill loop leaves in the log decides who has the array. -/
theorem fillFieldArray_spec (addr size count : Nat) (str : StringRef) :
    (∀ err, (fillFieldArray addr size count str).result = .error (.status err) →
      (fillFieldArray addr size count str).log = [.release addr]) ∧
    ∀ hs array rest, (fillFieldArray addr size count str).result = .ok ((hs, array), rest) →
      (fillFieldArray addr size count str).log = [] ∧ array = some addr ∧
        parseHeaderFields size count 0 str = .ok (hs.fields, rest) ∧ ¬ rest.len ≤ 1 ∧
        atNewline rest.data = .ok true := by
  unfold fillFieldArray
  split
  · exact ⟨fun err _ => rfl, fun hs array rest h => nomatch h⟩
  · rename_i stop hnot _
    exact ⟨fun err h => absurd (Except.error.inj h) (hnot err), fun hs array rest h => nomatch h⟩
  · rename_i fields mid hfields
    split
    · exact ⟨fun err _ => rfl, fun hs array rest h => nomatch h⟩
    · rename_i hlen
      cases hnewline : atNewline mid.data with
      | error stop =>
        rw [Logged.lift_error_bind, atNewline_error hnewline]
        exact ⟨fun err h => (nomatch h), fun hs array rest h => nomatch h⟩
      | ok newline =>
        rw [Logged.lift_ok_bind]
        cases newline with
        | false => exact ⟨fun err _ => rfl, fun hs array rest h => nomatch h⟩
        | true =>
          refine ⟨fun err h => (nomatch h), ?_⟩
          intro hs array rest h
          obtain ⟨hpair, rfl⟩ := Prod.mk.inj (Except.ok.inj h)
          obtain ⟨rfl, rfl⟩ := Prod.mk.inj hpair
          exact ⟨rfl, rfl, hfields, hlen, hnewline⟩

/-- The heap does not change what the parser computes. -/
theorem parseHeaderStructInto_result (rt : Runtime) (addr : Nat) (str : StringRef) :
    (parseHeaderStructInto rt addr str).result.map (fun parsed => (parsed.1.1, parsed.2)) =
      parseHeaderStruct rt str := by
  unfold parseHeaderStructInto parseHeaderStruct
  cases countLines str.data (decSize str.len) 0 0 false true with
  | error stop => rfl
  | ok found =>
    rw [Logged.lift_ok_bind, ok_bind]
    cases found with
    | emptyHeader => rfl
    | lines count =>
      dsimp only
      split
      · rw [Logged.emit_bind]
        unfold fillFieldArray
        cases parseHeaderFields (toSize (headerFieldsSize count)) count 0 str with
        | error stop => cases stop <;> rfl
        | ok parsed =>
          obtain ⟨fields, mid⟩ := parsed
          rw [ok_bind]
          dsimp only
          split
          · rfl
          · cases atNewline mid.data with
            | error stop => rfl
            | ok newline => cases newline <;> rfl
      · rfl

/-- The array is freed if the header is rejected, and is the one of the head otherwise. -/
theorem parseHeaderStructInto_spec (rt : Runtime) (addr : Nat) (str : StringRef) :
    (∀ err, (parseHeaderStructInto rt addr str).result = .error (.status err) →
      Balanced (parseHeaderStructInto rt addr str).log) ∧
    ∀ hs array rest, (parseHeaderStructInto rt addr str).result = .ok ((hs, array), rest) →
      OwnsFields hs array (parseHeaderStructInto rt addr str).log := by
  unfold parseHeaderStructInto
  cases hcount : countLines str.data (decSize str.len) 0 0 false true with
  | error stop => exact ⟨fun err _ => .nil, fun hs array rest h => nomatch h⟩
  | ok found =>
    rw [Logged.lift_ok_bind]
    cases found with
    | emptyHeader =>
      refine ⟨fun err h => (nomatch h), ?_⟩
      intro hs array rest h
      obtain ⟨hpair, -⟩ := Prod.mk.inj (Except.ok.inj h)
      obtain ⟨rfl, rfl⟩ := Prod.mk.inj hpair
      exact .inl ⟨rfl, rfl, rfl⟩
    | lines count =>
      dsimp only
      split
      · obtain ⟨hfreed, hkept⟩ := fillFieldArray_spec addr
          (toSize (headerFieldsSize count)) count str
        rw [Logged.emit_bind]
        constructor
        · intro err h
          rw [hfreed err h]
          exact .released addr
        · intro hs array rest h
          obtain ⟨hlog, rfl, hfields, hlen, hnewline⟩ := hkept hs array rest h
          rw [hlog]
          exact .inr ⟨fields_ne_nil hcount hfields hlen hnewline, addr, rfl, rfl⟩
      · exact ⟨fun err _ => .nil, fun hs array rest h => nomatch h⟩

end Header

section Messages

variable {rt : Runtime} {addr : Nat} {α : Type}

/-- What is asked of a parser that ends with an error status, and of one that succeeds. -/
structure CleansUp (head : α → HttpHeader) (before : α) (out : Aftermath α) : Prop where
  unchanged : ∀ err, out.result = .error (.status err) → out.target = before ∧ Balanced out.log
  owned : out.result = .ok () → ∃ hs, head out.target = .asStruct hs ∧
    OwnsFields hs out.array out.log

/-- Nothing is accepted that ends in front of its header. -/
theorem parseHeaderStruct_len_ne_zero {str : StringRef} {result : HttpHeaderStruct × StringRef}
    (h : str.Whole) (hparse : parseHeaderStruct rt str = .ok result) : str.len ≠ 0 := by
  intro hzero
  have hnil : str.data = [] := List.eq_nil_of_length_eq_zero (Eq.trans h hzero)
  unfold parseHeaderStruct at hparse
  rw [hnil, hzero] at hparse
  exact nomatch hparse

/-- A message behind its first line: once the header has been accepted, the test of the
blank line cannot fail. -/
theorem cleansUp_head {head : α → HttpHeader} {before : α} {build : HttpHeader → StringRef → α}
    {after : StringRef} (h : after.Whole) (hhead : ∀ header body, head (build header body) = header) :
    CleansUp head before (.of before do
      let ((header, array), str) ← parseHeaderInto rt addr after
      let str ← .lift (expectNewline str)
      pure (build header str, array)) := by
  obtain ⟨hfreed, howned⟩ := parseHeaderStructInto_spec rt addr after
  have hresult := parseHeaderStructInto_result rt addr after
  cases hcall : (parseHeaderStructInto rt addr after).result with
  | error stop =>
    have hheader : (parseHeaderInto rt addr after).result = .error stop := by
      rw [parseHeaderInto, Logged.bind_of_error hcall]
    have hlog : (parseHeaderInto rt addr after).log = (parseHeaderStructInto rt addr after).log := by
      rw [parseHeaderInto, Logged.bind_of_error hcall]
    rw [Logged.bind_of_error hheader, hlog]
    refine ⟨?_, fun hok => nomatch hok⟩
    intro err herr
    rw [Except.error.inj herr] at hcall
    exact ⟨rfl, hfreed err hcall⟩
  | ok parsed =>
    obtain ⟨⟨hs, array⟩, rest⟩ := parsed
    rw [hcall] at hresult
    have hparse : parseHeaderStruct rt after = .ok (hs, rest) := hresult.symm
    obtain ⟨body, hblank⟩ := parseHeaderStruct_blank (parseHeaderStruct_len_ne_zero h hparse) hparse
    have hheader : parseHeaderInto rt addr after =
        ⟨(parseHeaderStructInto rt addr after).log ++ [], .ok ((.asStruct hs, array), rest)⟩ := by
      rw [parseHeaderInto, Logged.bind_of_ok hcall]
      rfl
    rw [Logged.bind_of_ok (congrArg Logged.result hheader)]
    dsimp only
    rw [expectNewline_iff.mpr hblank, Logged.lift_ok_bind, hheader, List.append_nil]
    refine ⟨fun err herr => (nomatch herr), fun _ => ⟨hs, hhead _ _, ?_⟩⟩
    have hlog := howned hs array rest hcall
    rw [← List.append_nil (parseHeaderStructInto rt addr after).log] at hlog
    exact hlog

/-- A first line that is rejected leaves nothing. -/
theorem cleansUp_line {β : Type} {head : α → HttpHeader} {before : α}
    {line : Except Stop (β × StringRef)} {next : β × StringRef → Heap (α × Option Nat)}
    (hnext : ∀ first after, line = .ok (first, after) →
      CleansUp head before (.of before (next (first, after)))) :
    CleansUp head before (.of before (.lift line >>= next)) := by
  cases line with
  | error stop => exact ⟨fun err _ => ⟨rfl, .nil⟩, fun hok => nomatch hok⟩
  | ok parsed => exact hnext parsed.1 parsed.2 rfl

end Messages

/-- Of an input that ends with its object, a parser that fails leaves its caller's struct
as it was and no array, and one that succeeds leaves the array of its head. -/
theorem parser_cleans_up (rt : Runtime) (addr : Nat) {str : StringRef} (h : str.Whole)
    (req : HttpRequest) (resp : HttpResponse) :
    CleansUp HttpRequest.head req (parseHttpRequestInto rt addr str req) ∧
      CleansUp HttpResponse.head resp (parseHttpResponseInto rt addr str resp) := by
  constructor
  · unfold parseHttpRequestInto
    split
    · exact ⟨fun err _ => ⟨rfl, .nil⟩, fun hok => nomatch hok⟩
    · apply cleansUp_line
      rintro ⟨method, url, version⟩ after hline
      obtain ⟨line, htext, -⟩ := parseRequestLine_sound hline
      exact cleansUp_head (htext.whole.mpr h) fun _ _ => rfl
  · unfold parseHttpResponseInto
    apply cleansUp_line
    rintro ⟨version, statusCode, statusMsg⟩ after hline
    obtain ⟨line, htext, -⟩ := parseStatusLine_sound hline
    exact cleansUp_head (htext.whole.mpr h) fun _ _ => rfl

/-- `GET / HTTP/1.1` with one field and no blank line. -/
def unendedText : Bytes :=
  ascii ['G', 'E', 'T', ' ', '/', ' ', 'H', 'T', 'T', 'P', '/', '1', '.', '1', '\r', '\n',
    'A', ':', '\r', '\n', 'B']

def blankRequest : HttpRequest := ⟨.get, ⟨0, []⟩, .http11, .asStruct ⟨[]⟩, ⟨0, []⟩⟩

def blankResponse : HttpResponse := ⟨.http11, 0, ⟨0, []⟩, .asStruct ⟨[]⟩, ⟨0, []⟩⟩

/-- The same with its blank line. -/
def endedText : Bytes := unendedText.take 20 ++ crlf

/-- A response with one field. -/
def endedResponse : Bytes :=
  ascii ['H', 'T', 'T', 'P', '/', '1', '.', '1', ' ', '2', '0', '0', ' ', 'O', 'K', '\r', '\n',
    'A', ':', '\r', '\n', '\r', '\n']

/-- A request that is rejected, and a request and a response that are accepted. -/
theorem parser_cleans_up_unended :
    let rejected := parseHttpRequestInto .unlimited 64 ⟨21, unendedText⟩ blankRequest
    let accepted := parseHttpRequestInto .unlimited 64 ⟨22, endedText⟩ blankRequest
    let response := parseHttpResponseInto .unlimited 64 ⟨23, endedResponse⟩ blankResponse
    (rejected.result = .error (.status 1) ∧ rejected.target = blankRequest ∧
        Balanced rejected.log) ∧
      (accepted.result = .ok () ∧ ∃ hs, accepted.target.head = .asStruct hs ∧
        OwnsFields hs accepted.array accepted.log) ∧
      response.result = .ok () ∧ ∃ hs, response.target.head = .asStruct hs ∧
        OwnsFields hs response.array response.log := by
  obtain ⟨rejected, -⟩ := @parser_cleans_up .unlimited 64 ⟨21, unendedText⟩ rfl blankRequest
    blankResponse
  obtain ⟨accepted, -⟩ := @parser_cleans_up .unlimited 64 ⟨22, endedText⟩ rfl blankRequest
    blankResponse
  obtain ⟨-, response⟩ := @parser_cleans_up .unlimited 64 ⟨23, endedResponse⟩ rfl blankRequest
    blankResponse
  exact ⟨⟨rfl, rejected.unchanged 1 rfl⟩, ⟨rfl, accepted.owned rfl⟩, rfl, response.owned rfl⟩

/-- The array of the unended header is allocated and freed. -/
example : (parseHttpRequestInto .unlimited 64 ⟨21, unendedText⟩ blankRequest).log =
    [.acquire 64, .release 64] := rfl

section Agreement

variable {α : Type}

/-- The struct of the caller holds what a parser returns, or what it held before. -/
def Aftermath.Agrees (before : α) (out : Aftermath α) : Except Stop α → Prop
  | .ok parsed => out.result = .ok () ∧ out.target = parsed
  | .error stop => out.result = .error stop ∧ out.target = before

theorem Aftermath.of_agrees (before : α) (call : Heap (α × Option Nat)) :
    (Aftermath.of before call).Agrees before (call.result.map Prod.fst) := by
  unfold Aftermath.of
  cases call.result with
  | error stop => exact ⟨rfl, rfl⟩
  | ok parsed => exact ⟨rfl, rfl⟩

theorem parseHead_result (rt : Runtime) (addr : Nat) (build : HttpHeader → StringRef → α)
    (after : StringRef) :
    (do
      let ((header, array), str) ← parseHeaderInto rt addr after
      let str ← .lift (expectNewline str)
      pure (build header str, array) : Heap (α × Option Nat)).result.map Prod.fst = (do
      let (header, str) ← parseHeader rt after true
      let str ← expectNewline str
      pure (build header str)) := by
  have hresult := parseHeaderStructInto_result rt addr after
  unfold parseHeader
  rw [if_pos rfl, ← hresult, Logged.result_bind, parseHeaderInto, Logged.result_bind]
  cases (parseHeaderStructInto rt addr after).result with
  | error stop => rfl
  | ok parsed =>
    obtain ⟨⟨hs, array⟩, rest⟩ := parsed
    show ((Logged.lift (expectNewline rest) >>= fun str =>
      pure (build (.asStruct hs) str, array) : Heap (α × Option Nat)).result.map Prod.fst) =
        (expectNewline rest >>= fun str => pure (build (.asStruct hs) str))
    cases expectNewline rest <;> rfl

/-- The parser with its heap is the parser. -/
theorem parserInto_agrees (rt : Runtime) (addr : Nat) (str : StringRef) (req : HttpRequest)
    (resp : HttpResponse) :
    (parseHttpRequestInto rt addr str req).Agrees req (parseHttpRequest rt str true) ∧
      (parseHttpResponseInto rt addr str resp).Agrees resp (parseHttpResponse rt str true) := by
  constructor
  · unfold parseHttpRequestInto parseHttpRequest
    split
    · exact ⟨rfl, rfl⟩
    · cases parseRequestLine str with
      | error stop => exact ⟨rfl, rfl⟩
      | ok parsed =>
        obtain ⟨⟨method, url, version⟩, after⟩ := parsed
        rw [ok_bind, Logged.lift_ok_bind]
        dsimp only
        rw [← parseHead_result rt addr (fun head body =>
          ({ method, url, version, head, body := parseBody body } : HttpRequest)) after]
        exact Aftermath.of_agrees _ _
  · unfold parseHttpResponseInto parseHttpResponse
    cases parseStatusLine str with
    | error stop => exact ⟨rfl, rfl⟩
    | ok parsed =>
      obtain ⟨⟨version, statusCode, statusMsg⟩, after⟩ := parsed
      rw [ok_bind, Logged.lift_ok_bind]
      dsimp only
      rw [← parseHead_result rt addr (fun head body =>
        ({ version, statusCode, statusMsg, head, body := parseBody body } : HttpResponse)) after]
      exact Aftermath.of_agrees _ _

end Agreement

end Net77.Http
