import Net77.Http.Builders
import Net77.Http.ParserMemory
import Net77.StringMemory

/-! Requests and responses with the blocks that they own: the parsers, the builders, the
serializer and `lib/freeing.c`. -/
namespace Net77.Http

open Net77.Base

/-- A request or a response, and the pointer of its head: `fields` or the `data` of an
owned string. -/
structure PlacedMessage (μ : Type) where
  message : μ
  addr : Option Nat

section Calls

variable (rt : Runtime) (allocator : Allocator Nat)

/-- The branches of `freeHttpRequest` and `freeHttpResponse`. The `memset` of `count` bytes
stays within an array of `count` fields. -/
def freeHead (head : HttpHeader) (addr : Option Nat) : HeapCall Unit :=
  match head with
  | .asStruct _ => freeBlock addr
  | .asOwnedString str =>
    if str.data.length < str.len then .lift (.error (.fault .outOfBounds)) else freeBlock addr
  | .asString _ => pure ()

def freeHttpRequest (req : PlacedMessage HttpRequest) : HeapCall Unit :=
  freeHead req.message.head req.addr

def freeHttpResponse (resp : PlacedMessage HttpResponse) : HeapCall Unit :=
  freeHead resp.message.head resp.addr

/-- What the caller has after a parser returned. -/
def Aftermath.placed {μ : Type} (out : Aftermath μ) : Logged Nat Stop (PlacedMessage μ) :=
  ⟨out.log, out.result.map fun _ => ⟨out.target, out.array⟩⟩

/-- `parseHttpRequest`. A header that is kept as a string is no block of its own. -/
def parseHttpRequestAt (str : StringRef) (req : HttpRequest) (parseHeaderIntoStructs : Bool) :
    HeapCall (PlacedMessage HttpRequest) :=
  if parseHeaderIntoStructs then
    .placed allocator fun addr => .ofLogged (parseHttpRequestInto rt addr str req).placed
  else .lift ((parseHttpRequest rt str false).map (⟨·, none⟩))

def parseHttpResponseAt (str : StringRef) (resp : HttpResponse) (parseHeaderIntoStructs : Bool) :
    HeapCall (PlacedMessage HttpResponse) :=
  if parseHeaderIntoStructs then
    .placed allocator fun addr => .ofLogged (parseHttpResponseInto rt addr str resp).placed
  else .lift ((parseHttpResponse rt str false).map (⟨·, none⟩))

def appendConstSizedAt (literal : Bytes) (placed : PlacedBuilder) : HeapCall PlacedBuilder :=
  stringBuilderAppendAt rt allocator placed literal literal.length

def appendRefAt (ref : StringRef) (placed : PlacedBuilder) : HeapCall PlacedBuilder :=
  stringBuilderAppendAt rt allocator placed ref.data ref.len

/-- The appends for a header, in the builders and in the loop of `serializeHttpHeader`. -/
def appendHeaderAt (headBuilder : PlacedBuilder) (name value : StringRef) :
    HeapCall PlacedBuilder := do
  let headBuilder ← appendRefAt rt allocator name headBuilder
  let headBuilder ← appendConstSizedAt rt allocator [colon] headBuilder
  let headBuilder ← appendRefAt rt allocator value headBuilder
  appendConstSizedAt rt allocator crlf headBuilder

def serializeMethodAt (method : HttpMethod) (placed : PlacedBuilder) : HeapCall PlacedBuilder :=
  appendConstSizedAt rt allocator method.name placed

def serializeHttpVersionAt (v : HttpVersion) (placed : PlacedBuilder) : HeapCall PlacedBuilder :=
  appendConstSizedAt rt allocator v.name placed

def serializeHttpHeaderAt (head : HttpHeader) (placed : PlacedBuilder) :
    HeapCall PlacedBuilder :=
  match head with
  | .asStruct hs =>
    hs.fields.foldlM (fun placed f => appendHeaderAt rt allocator placed f.name f.value) placed
  | .asString string => appendRefAt rt allocator string placed
  | .asOwnedString _ => .lift (.error (.status 1))

def serializeBodyAt (body : StringRef) (placed : PlacedBuilder) : HeapCall PlacedBuilder :=
  if 0 < body.len then appendRefAt rt allocator body placed else pure placed

def serializeHttpRequestAt (req : HttpRequest) (placed : PlacedBuilder) :
    HeapCall PlacedBuilder := do
  let placed ← serializeMethodAt rt allocator req.method placed
  let placed ← appendConstSizedAt rt allocator [space] placed
  let placed ← appendRefAt rt allocator req.url placed
  let placed ← appendConstSizedAt rt allocator [space] placed
  let placed ← serializeHttpVersionAt rt allocator req.version placed
  let placed ← appendConstSizedAt rt allocator crlf placed
  let placed ← serializeHttpHeaderAt rt allocator req.head placed
  let placed ← appendConstSizedAt rt allocator crlf placed
  serializeBodyAt rt allocator req.body placed

/-- `HELPER_STRINGIFY_REQUEST_STRUCT`. Its `return err` leaves the builder behind. -/
def stringifyRequestAt (req : HttpRequest) : HeapCall PlacedString := do
  let placed ← newStringBuilderAt rt allocator 0
  let placed ← serializeHttpRequestAt rt allocator req placed
  let (str, _) ← stringBuilderBuildAndDestroyAt rt allocator placed
  pure str

/-- A builder of requests or responses, with the block of its header. -/
structure PlacedMessageBuilder (μ : Type) where
  message : μ
  headBuilder : PlacedBuilder

def newRequestBuilderAt (method : HttpMethod) (url : StringRef) (version : HttpVersion) :
    HeapCall (PlacedMessageBuilder HttpRequest) := do
  let headBuilder ← newStringBuilderAt rt allocator 0
  pure ⟨⟨method, url, version, .asString ⟨0, []⟩, ⟨0, []⟩⟩, headBuilder⟩

def newResponseBuilderAt (version : HttpVersion) (statusCode : Int) (statusMsg : StringRef) :
    HeapCall (PlacedMessageBuilder HttpResponse) := do
  let headBuilder ← newStringBuilderAt rt allocator 0
  pure ⟨⟨version, statusCode, statusMsg, .asString ⟨0, []⟩, ⟨0, []⟩⟩, headBuilder⟩

variable {μ : Type}

/-- `requestBuilderAddHeader` and `responseBuilderAddHeader`. -/
def builderAddHeaderAt (builder : PlacedMessageBuilder μ) (name value : StringRef) :
    HeapCall (PlacedMessageBuilder μ) := do
  let headBuilder ← appendHeaderAt rt allocator builder.headBuilder name value
  pure { builder with headBuilder }

/-- `requestBuilderBuild` and `responseBuilderBuild`, up to the member that they set. -/
def builderBuildAt (setHead : μ → HttpHeader → μ) (builder : PlacedMessageBuilder μ) :
    HeapCall (PlacedMessage μ) := do
  let str ← stringBuilderBuildAt rt allocator builder.headBuilder
  pure ⟨setHead builder.message (.asOwnedString str.str), str.addr⟩

/-- `requestBuilderBuildAndDestroy` and `responseBuilderBuildAndDestroy`. -/
def builderBuildAndDestroyAt (setHead : μ → HttpHeader → μ) (builder : PlacedMessageBuilder μ) :
    HeapCall (PlacedMessage μ × PlacedMessageBuilder μ) := do
  let (str, headBuilder) ← stringBuilderBuildAndDestroyAt rt allocator builder.headBuilder
  pure (⟨setHead builder.message (.asOwnedString str.str), str.addr⟩, { builder with headBuilder })

end Calls

section Freeing

variable {failed : Multiset Nat → Prop}

/-- The pointer is the only block of the message, and a head that is a reference has none. -/
def MessageHas {μ : Type} (head : μ → HttpHeader) (placed : PlacedMessage μ)
    (left : Multiset Nat) : Prop :=
  left = blocks placed.addr ∧ ∀ string, head placed.message = .asString string → placed.addr = none

theorem freeHead_leaves (head : HttpHeader) (addr : Option Nat)
    (hstring : ∀ string, head = .asString string → addr = none) :
    Disposes (blocks addr) (freeHead head addr) (Hands (fun _ left => left = 0) failed) := by
  cases head with
  | asStruct hs => exact freeBlock_leaves addr
  | asOwnedString str =>
    unfold freeHead
    dsimp only
    split
    · exact Hands.fault _
    · exact freeBlock_leaves addr
  | asString string =>
    rw [hstring string rfl]
    exact .pure rfl

end Freeing

section Parsing

variable {rt : Runtime} {allocator : Allocator Nat} {str after : StringRef} {μ : Type}

/-- The object ends with the text or with one byte behind it, the NUL of an owned string. -/
def Ended (str : StringRef) : Prop := str.data.length ≤ str.len + 1

instance (str : StringRef) : Decidable (Ended str) :=
  inferInstanceAs (Decidable (str.data.length ≤ str.len + 1))

theorem Ended.rest {text : Bytes} (h : Ended str) (hrest : Consumes str text after) :
    Ended after := by
  unfold Ended at *
  rw [hrest.data_eq, hrest.len_eq, List.length_append] at h
  omega

theorem countLines_short {data : Bytes} (h : data.length ≤ 1) (todo : Nat) (found : LineCount) :
    countLines data (todo + 2) 0 0 false true ≠ .ok found := by
  cases data with
  | nil => simp [countLines]
  | cons c data =>
    obtain rfl : data = [] := by simpa using h
    rw [countLines]
    split
    · simp
    · split
      · simp
      · simp [countLines]

/-- Nothing is accepted that ends in front of its header. -/
theorem Ended.len_ne_zero (h : Ended str) {result : HttpHeaderStruct × StringRef}
    (hparse : parseHeaderStruct rt str = .ok result) : str.len ≠ 0 := by
  intro hzero
  have hshort : str.data.length ≤ 1 := by
    unfold Ended at h
    omega
  obtain ⟨todo, htodo⟩ : ∃ todo, decSize str.len = todo + 2 := by
    rw [hzero]
    exact ⟨2 ^ 64 - 3, by decide⟩
  unfold parseHeaderStruct at hparse
  obtain ⟨found, hfound, -⟩ := bind_eq_ok.mp hparse
  rw [htodo] at hfound
  exact countLines_short hshort todo found hfound

/-- What `parseHeaderStruct` leaves: the array, or nothing behind an error. -/
def ArrayHas (rt : Runtime) (str : StringRef)
    (parsed : (HttpHeaderStruct × Option Nat) × StringRef) (left : Multiset Nat) : Prop :=
  left = blocks parsed.1.2 ∧ parseHeaderStruct rt str = .ok (parsed.1.1, parsed.2)

theorem freeAndReturn_leaves {α : Type} {kept : α → Multiset Nat → Prop} (addr : Nat) (err : Int) :
    Disposes (blocks (some addr)) (.ofLogged (freeAndReturn addr err)) (Hands kept (· = 0)) := by
  unfold freeAndReturn
  rw [Traced.ofLogged_bind]
  refine Hands.bind (release_leaves addr) ?_
  rintro - left rfl
  exact .lift rfl

theorem fillFieldArray_leaves (addr size count : Nat) (str : StringRef) :
    Disposes (blocks (some addr)) (.ofLogged (fillFieldArray addr size count str))
      (Hands (fun parsed left => left = blocks parsed.1.2) (· = 0)) := by
  unfold fillFieldArray
  split
  · exact freeAndReturn_leaves addr _
  · rename_i stop hnot _
    cases stop with
    | status err => exact absurd rfl (hnot err)
    | fault fault => exact Hands.fault fault
    | blocked => exact .lift trivial
  · rename_i fields mid _
    split
    · exact freeAndReturn_leaves addr 1
    · cases hnewline : atNewline mid.data with
      | error stop =>
        rw [atNewline_error hnewline]
        exact Hands.fault _
      | ok newline =>
        rw [Logged.lift_ok_bind]
        cases newline with
        | true => exact .lift rfl
        | false => exact freeAndReturn_leaves addr 1

theorem countLines_ne_status (err : Int) (data : Bytes) (todo i count : Nat) (last begun : Bool) :
    countLines data todo i count last begun ≠ .error (.status err) := by
  fun_induction countLines data todo i count last begun with
  | case1 => simp
  | case2 => simp
  | case3 => simp
  | case4 => simp
  | case5 todo i count _ _ c hcr hmax ih => exact ih
  | case6 => simp
  | case7 => simp
  | case8 => simp
  | case9 => simp
  | case10 => assumption
  | case11 => assumption

theorem parseHeaderStructInto_leaves (rt : Runtime) (allocator : Allocator Nat) (str : StringRef) :
    Disposes 0 (.placed allocator fun addr => .ofLogged (parseHeaderStructInto rt addr str))
      (Hands (ArrayHas rt str) (· = 0)) := by
  have hleaves : Disposes 0
      (.placed allocator fun addr => .ofLogged (parseHeaderStructInto rt addr str))
      (Hands (fun parsed left => left = blocks parsed.1.2) (· = 0)) := by
    unfold parseHeaderStructInto
    cases hcount : countLines str.data (decSize str.len) 0 0 false true with
    | error stop =>
      cases stop with
      | status err => exact absurd hcount (countLines_ne_status err _ _ _ _ _ _)
      | fault fault => exact Hands.fault fault
      | blocked => exact .lift trivial
    | ok found =>
      cases found with
      | emptyHeader => exact .lift rfl
      | lines count =>
        simp only [Logged.lift_ok_bind]
        split
        · exact .placed_acquire fun addr => fillFieldArray_leaves addr _ count str
        · exact .lift rfl
  refine Disposes.mono (hleaves.and_result (p := fun result => ∀ parsed, result = .ok parsed →
    parseHeaderStruct rt str = .ok (parsed.1.1, parsed.2)) ?_) ?_
  · intro past parsed hparsed
    rw [← parseHeaderStructInto_result rt (allocator.choose past) str]
    exact congrArg (Except.map _) hparsed
  · rintro result left ⟨hleft, hresult⟩
    cases result with
    | ok parsed => exact ⟨hleft, hresult parsed rfl⟩
    | error stop => cases stop <;> exact hleft

/-- The array of the head is what is left of a call of a parser. -/
def OwnsArray (head : μ → HttpHeader) (call : HeapCall (PlacedMessage μ)) : Prop :=
  Disposes 0 call (Hands (MessageHas head) (· = 0))

theorem ownsArray_error {head : μ → HttpHeader} (stop : Stop) :
    OwnsArray head (.lift (.error stop)) := by
  apply Disposes.lift
  cases stop with
  | status err => rfl
  | fault fault => trivial
  | blocked => trivial

/-- The part of a parser behind the first line. -/
def messageRest (rt : Runtime) (build : HttpHeader → StringRef → μ) (after : StringRef)
    (addr : Nat) : Heap (μ × Option Nat) := do
  let ((header, array), str) ← parseHeaderInto rt addr after
  let str ← .lift (expectNewline str)
  pure (build header str, array)

variable {build : HttpHeader → StringRef → μ} {addr : Nat}

theorem messageRest_error {stop : Stop}
    (hcall : (parseHeaderStructInto rt addr after).result = .error stop) :
    messageRest rt build after addr = ⟨(parseHeaderStructInto rt addr after).log, .error stop⟩ := by
  have hheader : parseHeaderInto rt addr after =
      ⟨(parseHeaderStructInto rt addr after).log, .error stop⟩ := by
    rw [parseHeaderInto, Logged.bind_of_error hcall]
  rw [messageRest, hheader]
  rfl

theorem messageRest_ok {hs : HttpHeaderStruct} {array : Option Nat} {rest body : StringRef}
    (hcall : (parseHeaderStructInto rt addr after).result = .ok ((hs, array), rest))
    (hblank : Consumes rest crlf body) : messageRest rt build after addr =
      ⟨(parseHeaderStructInto rt addr after).log, .ok (build (.asStruct hs) body, array)⟩ := by
  have hheader : parseHeaderInto rt addr after =
      ⟨(parseHeaderStructInto rt addr after).log, .ok ((.asStruct hs, array), rest)⟩ := by
    rw [parseHeaderInto, Logged.bind_of_ok hcall]
    exact congrArg (Logged.mk · _) (List.append_nil _)
  rw [messageRest, hheader, Logged.bind_of_ok rfl]
  dsimp only
  rw [expectNewline_iff.mpr hblank, Logged.lift_ok_bind]
  exact congrArg (Logged.mk · _) (List.append_nil _)

/-- Once the header has been accepted, the test of the blank line cannot fail. -/
theorem messageRest_hands {head : μ → HttpHeader} {before : μ} {left : Multiset Nat}
    (h : Ended after) (hhead : ∀ header body, head (build header body) = header)
    (hleft : Hands (ArrayHas rt after) (· = 0) (parseHeaderStructInto rt addr after).result left) :
    (Aftermath.of before (messageRest rt build after addr)).placed.log =
        (parseHeaderStructInto rt addr after).log ∧
      Hands (MessageHas head) (· = 0)
        (Aftermath.of before (messageRest rt build after addr)).placed.result left := by
  cases hcall : (parseHeaderStructInto rt addr after).result with
  | error stop =>
    rw [hcall] at hleft
    rw [messageRest_error hcall]
    refine ⟨rfl, ?_⟩
    cases stop <;> exact hleft
  | ok parsed =>
    obtain ⟨⟨hs, array⟩, rest⟩ := parsed
    rw [hcall] at hleft
    obtain ⟨hleft, hparse⟩ := hleft
    obtain ⟨body, hblank⟩ := parseHeaderStruct_blank (h.len_ne_zero hparse) hparse
    rw [messageRest_ok hcall hblank]
    have hasStruct : head (build (.asStruct hs) body) = .asStruct hs := hhead _ body
    exact ⟨rfl, hleft, fun string hstring => nomatch hasStruct.symm.trans hstring⟩

theorem ownsArray_rest {head : μ → HttpHeader} {before : μ} (h : Ended after)
    (hhead : ∀ header body, head (build header body) = header) :
    OwnsArray head (.placed allocator fun addr =>
      .ofLogged (Aftermath.of before (messageRest rt build after addr)).placed) :=
  (parseHeaderStructInto_leaves rt allocator after).of_same_log fun _ _ hleft =>
    messageRest_hands h hhead hleft

theorem ownsArray_line {β : Type} {head : μ → HttpHeader} {before : μ}
    {line : Except Stop (β × StringRef)} {next : Nat → β × StringRef → Heap (μ × Option Nat)}
    (hnext : ∀ first after, line = .ok (first, after) → OwnsArray head (.placed allocator
      fun addr => .ofLogged (Aftermath.of before (next addr (first, after))).placed)) :
    OwnsArray head (.placed allocator fun addr =>
      .ofLogged (Aftermath.of before (.lift line >>= next addr)).placed) := by
  cases line with
  | error stop => exact ownsArray_error stop
  | ok parsed => exact hnext parsed.1 parsed.2 rfl

theorem parseHttpRequestAt_leaves (h : Ended str) (req : HttpRequest) (intoStructs : Bool) :
    OwnsArray HttpRequest.head (parseHttpRequestAt rt allocator str req intoStructs) := by
  unfold parseHttpRequestAt
  split
  · unfold parseHttpRequestInto
    split
    · exact ownsArray_error (.status 1)
    · apply ownsArray_line
      rintro ⟨method, url, version⟩ after hline
      obtain ⟨line, htext, -⟩ := parseRequestLine_sound hline
      have hrest : OwnsArray HttpRequest.head (.placed allocator fun addr =>
          .ofLogged (Aftermath.of req (messageRest rt (fun head body =>
            ⟨method, url, version, head, parseBody body⟩) after addr)).placed) :=
        ownsArray_rest (h.rest htext) fun _ _ => rfl
      exact hrest
  · cases parseHttpRequest rt str false with
    | error stop => exact ownsArray_error stop
    | ok req => exact .lift ⟨rfl, fun _ _ => rfl⟩

theorem parseHttpResponseAt_leaves (h : Ended str) (resp : HttpResponse) (intoStructs : Bool) :
    OwnsArray HttpResponse.head (parseHttpResponseAt rt allocator str resp intoStructs) := by
  unfold parseHttpResponseAt
  split
  · unfold parseHttpResponseInto
    apply ownsArray_line
    rintro ⟨version, statusCode, statusMsg⟩ after hline
    obtain ⟨line, htext, -⟩ := parseStatusLine_sound hline
    have hrest : OwnsArray HttpResponse.head (.placed allocator fun addr =>
        .ofLogged (Aftermath.of resp (messageRest rt (fun head body =>
          ⟨version, statusCode, statusMsg, head, parseBody body⟩) after addr)).placed) :=
      ownsArray_rest (h.rest htext) fun _ _ => rfl
    exact hrest
  · cases parseHttpResponse rt str false with
    | error stop => exact ownsArray_error stop
    | ok resp => exact .lift ⟨rfl, fun _ _ => rfl⟩

end Parsing

section Serializing

variable {rt : Runtime} {allocator : Allocator Nat} {allocated : Prop} {failed : Multiset Nat → Prop}

/-- The builder keeps its block, be it in another place. -/
def Keeps (allocated : Prop) (failed : Multiset Nat → Prop)
    (call : PlacedBuilder → HeapCall PlacedBuilder) : Prop :=
  ∀ placed, (allocated → placed.addr ≠ none) →
    Disposes (blocks placed.addr) (call placed) (Hands (BuilderHas allocated) failed)

theorem Keeps.andThen {α : Type} {kept : α → Multiset Nat → Prop}
    {call : PlacedBuilder → HeapCall PlacedBuilder} {next : PlacedBuilder → HeapCall α}
    (h : Keeps allocated failed call) {placed : PlacedBuilder}
    (hplaced : allocated → placed.addr ≠ none)
    (hnext : ∀ mid : PlacedBuilder, (allocated → mid.addr ≠ none) →
      Disposes (blocks mid.addr) (next mid) (Hands kept failed)) :
    Disposes (blocks placed.addr) (call placed >>= next) (Hands kept failed) := by
  refine Hands.bind (h placed hplaced) ?_
  rintro mid left ⟨rfl, hmid⟩
  exact hnext mid hmid

theorem Keeps.seq {first second : PlacedBuilder → HeapCall PlacedBuilder}
    (hfirst : Keeps allocated failed first) (hsecond : Keeps allocated failed second) :
    Keeps allocated failed fun placed => first placed >>= second :=
  fun _ hplaced => hfirst.andThen hplaced hsecond

theorem stringBuilderAppendAt_keeps (data : Bytes) (len : Nat) :
    Keeps allocated failed fun placed => stringBuilderAppendAt rt allocator placed data len := by
  intro placed hplaced
  refine Hands.mono (stringBuilderAppendAt_leaves placed data len) ?_ fun left h => h
  exact fun more left hmore => ⟨hmore.1, fun hallocated => hmore.2 (.inl (hplaced hallocated))⟩

theorem appendHeaderAt_keeps (name value : StringRef) :
    Keeps allocated failed fun placed => appendHeaderAt rt allocator placed name value :=
  (stringBuilderAppendAt_keeps _ _).seq <| (stringBuilderAppendAt_keeps _ _).seq <|
    (stringBuilderAppendAt_keeps _ _).seq (stringBuilderAppendAt_keeps _ _)

theorem appendHeadersAt_keeps (fields : List HttpHeaderField) :
    Keeps allocated failed fun placed => fields.foldlM
      (fun placed f => appendHeaderAt rt allocator placed f.name f.value) placed := by
  induction fields with
  | nil => exact fun placed hplaced => .pure ⟨rfl, hplaced⟩
  | cons field fields ih =>
    simp only [List.foldlM_cons]
    exact (appendHeaderAt_keeps field.name field.value).seq ih

theorem serializeBodyAt_keeps (body : StringRef) :
    Keeps allocated failed (serializeBodyAt rt allocator body) := by
  intro placed hplaced
  unfold serializeBodyAt
  split
  · exact stringBuilderAppendAt_keeps _ _ placed hplaced
  · exact .pure ⟨rfl, hplaced⟩

/-- `serializeHttpHeader` has no branch for what the builders return. -/
def HttpHeader.Serializable (head : HttpHeader) : Prop := ∀ str, head ≠ .asOwnedString str

/-- A block that nobody has. -/
def Lost (head : HttpHeader) (left : Multiset Nat) : Prop :=
  ¬ head.Serializable ∧ ∃ addr, left = {addr}

theorem keeps_allocated {call : PlacedBuilder → HeapCall PlacedBuilder} (h : Keeps True failed call)
    {placed : PlacedBuilder} (hplaced : placed.addr ≠ none) :
    Disposes (blocks placed.addr) (call placed) (Hands (BuilderHas True) failed) :=
  h placed fun _ => hplaced

theorem serializeHttpHeaderAt_leaves (head : HttpHeader) (placed : PlacedBuilder)
    (hplaced : placed.addr ≠ none) :
    Disposes (blocks placed.addr) (serializeHttpHeaderAt rt allocator head placed)
      (Hands (fun out left => BuilderHas True out left ∧ head.Serializable) (Lost head)) := by
  cases head with
  | asString string =>
    refine Hands.mono (keeps_allocated (stringBuilderAppendAt_keeps _ _) hplaced) ?_ fun left h => h
    exact fun out left hout => ⟨hout, nofun⟩
  | asOwnedString str =>
    obtain ⟨addr, haddr⟩ := Option.ne_none_iff_exists'.mp hplaced
    rw [haddr]
    exact .lift ⟨fun h => h str rfl, addr, rfl⟩
  | asStruct hs =>
    refine Hands.mono (keeps_allocated (appendHeadersAt_keeps hs.fields) hplaced) ?_ fun left h => h
    exact fun out left hout => ⟨hout, nofun⟩

/-- The name of the method is the first that the builder of a request has to hold. -/
theorem serializeMethodAt_leaves (method : HttpMethod) :
    Disposes 0 (serializeMethodAt rt allocator method ⟨⟨0, 0, []⟩, none⟩)
      (Hands (BuilderHas True) failed) := by
  refine Hands.mono (stringBuilderAppendAt_leaves ⟨⟨0, 0, []⟩, none⟩ _ _) ?_ fun left h => h
  refine fun placed left hplaced => ⟨hplaced.1, fun _ => hplaced.2 (.inr ?_)⟩
  cases method <;> decide

theorem serializeHttpRequestAt_leaves (req : HttpRequest) :
    Disposes 0 (serializeHttpRequestAt rt allocator req ⟨⟨0, 0, []⟩, none⟩)
      (Hands (fun out left => BuilderHas True out left ∧ req.head.Serializable)
        (Lost req.head)) := by
  refine Hands.bind (serializeMethodAt_leaves req.method) ?_
  rintro placed left ⟨rfl, hplaced⟩
  refine (stringBuilderAppendAt_keeps _ _).andThen hplaced fun placed hplaced => ?_
  refine (stringBuilderAppendAt_keeps _ _).andThen hplaced fun placed hplaced => ?_
  refine (stringBuilderAppendAt_keeps _ _).andThen hplaced fun placed hplaced => ?_
  refine (stringBuilderAppendAt_keeps _ _).andThen hplaced fun placed hplaced => ?_
  refine (stringBuilderAppendAt_keeps _ _).andThen hplaced fun placed hplaced => ?_
  refine Hands.bind (serializeHttpHeaderAt_leaves req.head placed (hplaced trivial)) ?_
  rintro placed left ⟨⟨rfl, hplaced⟩, hserializable⟩
  refine (stringBuilderAppendAt_keeps _ _).andThen hplaced fun placed hplaced => ?_
  refine Hands.mono (serializeBodyAt_keeps req.body placed hplaced) ?_ fun left h => h
  exact fun out left hout => ⟨hout, hserializable⟩

/-- The text of a request that can be serialized is all that is left. -/
theorem stringifyRequestAt_leaves (req : HttpRequest) :
    Disposes 0 (stringifyRequestAt rt allocator req)
      (Hands (fun str left => StringHas str left ∧ req.head.Serializable) (Lost req.head)) := by
  show Disposes 0 (pure (⟨⟨0, 0, []⟩, none⟩ : PlacedBuilder) >>= _) _
  rw [Traced.pure_bind]
  refine Hands.bind (serializeHttpRequestAt_leaves req) ?_
  rintro placed left ⟨⟨rfl, -⟩, hserializable⟩
  refine Hands.bind (stringBuilderBuildAndDestroyAt_leaves placed) ?_
  rintro ⟨str, destroyed⟩ left ⟨hstr, -⟩
  exact .pure ⟨hstr, hserializable⟩

end Serializing

section Handed

variable {rt : Runtime} {allocator : Allocator Nat} {failed : Multiset Nat → Prop} {μ : Type}
  {head : μ → HttpHeader} {setHead : μ → HttpHeader → μ}

def MessageBuilderHas (builder : PlacedMessageBuilder μ) (left : Multiset Nat) : Prop :=
  left = blocks builder.headBuilder.addr

theorem builderAddHeaderAt_leaves (builder : PlacedMessageBuilder μ) (name value : StringRef) :
    Disposes (blocks builder.headBuilder.addr) (builderAddHeaderAt rt allocator builder name value)
      (Hands MessageBuilderHas failed) := by
  have hkeeps : Keeps False failed fun placed => appendHeaderAt rt allocator placed name value :=
    appendHeaderAt_keeps name value
  exact hkeeps.andThen False.elim fun _ _ => .pure rfl

theorem builderBuildAt_leaves (builder : PlacedMessageBuilder μ)
    (hhead : ∀ message header, head (setHead message header) = header) :
    Disposes 0 (builderBuildAt rt allocator setHead builder) (Hands (MessageHas head) failed) := by
  refine Hands.bind (stringBuilderBuildAt_leaves builder.headBuilder) ?_
  rintro str left rfl
  exact .pure ⟨rfl, fun string hstring => nomatch (hhead _ _).symm.trans hstring⟩

/-- The message takes the block of the header over. -/
theorem builderBuildAndDestroyAt_leaves (builder : PlacedMessageBuilder μ)
    (hhead : ∀ message header, head (setHead message header) = header) :
    Disposes (blocks builder.headBuilder.addr)
      (builderBuildAndDestroyAt rt allocator setHead builder)
      (Hands (fun out left => MessageHas head out.1 left ∧ out.2.headBuilder.addr = none)
        failed) := by
  refine Hands.bind (stringBuilderBuildAndDestroyAt_leaves builder.headBuilder) ?_
  rintro ⟨str, headBuilder⟩ left ⟨rfl, -, hnone⟩
  exact .pure ⟨⟨rfl, fun string hstring => nomatch (hhead _ _).symm.trans hstring⟩, hnone⟩

end Handed

section Agreement

variable {rt : Runtime} {allocator : Allocator Nat}

theorem appendHeaderAt_agrees (placed : PlacedBuilder) (name value : StringRef) :
    Agrees PlacedBuilder.builder (appendHeaderAt rt allocator placed name value)
      (appendHeader rt placed.builder name value) :=
  .bind (stringBuilderAppendAt_agrees placed _ _) fun placed =>
    .bind (stringBuilderAppendAt_agrees placed _ _) fun placed =>
      .bind (stringBuilderAppendAt_agrees placed _ _) fun placed =>
        stringBuilderAppendAt_agrees placed _ _

theorem serializeMethodAt_agrees (method : HttpMethod) (placed : PlacedBuilder) :
    Agrees PlacedBuilder.builder (serializeMethodAt rt allocator method placed)
      (serializeMethod rt method placed.builder) := by
  cases method <;> exact stringBuilderAppendAt_agrees placed _ _

theorem serializeHttpVersionAt_agrees (v : HttpVersion) (placed : PlacedBuilder) :
    Agrees PlacedBuilder.builder (serializeHttpVersionAt rt allocator v placed)
      (serializeHttpVersion rt v placed.builder) := by
  cases v <;> exact stringBuilderAppendAt_agrees placed _ _

theorem appendHeadersAt_agrees (fields : List HttpHeaderField) (placed : PlacedBuilder) :
    Agrees PlacedBuilder.builder (fields.foldlM
        (fun placed f => appendHeaderAt rt allocator placed f.name f.value) placed)
      (fields.foldlM (serializeHeaderField rt) placed.builder) := by
  induction fields generalizing placed with
  | nil => exact .pure _ _
  | cons field fields ih =>
    rw [List.foldlM_cons, List.foldlM_cons]
    exact .bind (appendHeaderAt_agrees placed field.name field.value) ih

theorem serializeHttpHeaderAt_agrees (head : HttpHeader) (placed : PlacedBuilder) :
    Agrees PlacedBuilder.builder (serializeHttpHeaderAt rt allocator head placed)
      (serializeHttpHeader rt head placed.builder) := by
  cases head with
  | asString string => exact stringBuilderAppendAt_agrees placed _ _
  | asOwnedString str => exact fun _ => rfl
  | asStruct hs => exact appendHeadersAt_agrees hs.fields placed

theorem serializeBodyAt_agrees (body : StringRef) (placed : PlacedBuilder) :
    Agrees PlacedBuilder.builder (serializeBodyAt rt allocator body placed)
      (serializeBody rt body placed.builder) := by
  unfold serializeBodyAt serializeBody
  split
  · exact stringBuilderAppendAt_agrees placed _ _
  · exact .pure _ _

theorem serializeHttpRequestAt_agrees (req : HttpRequest) (placed : PlacedBuilder) :
    Agrees PlacedBuilder.builder (serializeHttpRequestAt rt allocator req placed)
      (serializeHttpRequest rt req placed.builder) := by
  refine .bind (serializeMethodAt_agrees req.method placed) fun placed => ?_
  refine .bind (stringBuilderAppendAt_agrees placed _ _) fun placed => ?_
  refine .bind (stringBuilderAppendAt_agrees placed _ _) fun placed => ?_
  refine .bind (stringBuilderAppendAt_agrees placed _ _) fun placed => ?_
  refine .bind (serializeHttpVersionAt_agrees req.version placed) fun placed => ?_
  refine .bind (stringBuilderAppendAt_agrees placed _ _) fun placed => ?_
  refine .bind (serializeHttpHeaderAt_agrees req.head placed) fun placed => ?_
  refine .bind (stringBuilderAppendAt_agrees placed _ _) fun placed => ?_
  exact serializeBodyAt_agrees req.body placed

theorem stringifyRequestAt_agrees (req : HttpRequest) :
    Agrees PlacedString.str (stringifyRequestAt rt allocator req) (stringifyRequest rt req) := by
  refine .bind (newStringBuilderAt_agrees 0) fun placed => ?_
  refine .bind (serializeHttpRequestAt_agrees req placed) fun placed => ?_
  exact .bind (stringBuilderBuildAndDestroyAt_agrees placed) fun out => .pure _ _

theorem Aftermath.Agrees.placed {μ : Type} {before : μ} {out : Aftermath μ} {plain : Except Stop μ}
    (h : out.Agrees before plain) : out.placed.result.map PlacedMessage.message = plain := by
  cases plain with
  | error stop =>
    unfold Aftermath.placed
    rw [h.1]
    rfl
  | ok parsed =>
    unfold Aftermath.placed
    rw [h.1]
    exact congrArg Except.ok h.2

theorem parseHttpRequestAt_agrees (str : StringRef) (req : HttpRequest) (intoStructs : Bool) :
    Agrees PlacedMessage.message (parseHttpRequestAt rt allocator str req intoStructs)
      (parseHttpRequest rt str intoStructs) := by
  intro past
  cases intoStructs with
  | true => exact (parserInto_agrees rt _ str req blankResponse).1.placed
  | false =>
    unfold parseHttpRequestAt
    cases parseHttpRequest rt str false <;> rfl

theorem parseHttpResponseAt_agrees (str : StringRef) (resp : HttpResponse) (intoStructs : Bool) :
    Agrees PlacedMessage.message (parseHttpResponseAt rt allocator str resp intoStructs)
      (parseHttpResponse rt str intoStructs) := by
  intro past
  cases intoStructs with
  | true => exact (parserInto_agrees rt _ str blankRequest resp).2.placed
  | false =>
    unfold parseHttpResponseAt
    cases parseHttpResponse rt str false <;> rfl

section Builders

/-- The builder without its pointers. -/
def PlacedMessageBuilder.request (builder : PlacedMessageBuilder HttpRequest) : RequestBuilder :=
  ⟨builder.message, builder.headBuilder.builder⟩

def PlacedMessageBuilder.response (builder : PlacedMessageBuilder HttpResponse) : ResponseBuilder :=
  ⟨builder.message, builder.headBuilder.builder⟩

def HttpRequest.setHead (req : HttpRequest) (head : HttpHeader) : HttpRequest := { req with head }

def HttpResponse.setHead (resp : HttpResponse) (head : HttpHeader) : HttpResponse :=
  { resp with head }

theorem HttpRequest.head_setHead (req : HttpRequest) (head : HttpHeader) :
    (req.setHead head).head = head := rfl

theorem HttpResponse.head_setHead (resp : HttpResponse) (head : HttpHeader) :
    (resp.setHead head).head = head := rfl

variable (rb : PlacedMessageBuilder HttpRequest) (resb : PlacedMessageBuilder HttpResponse)

theorem builderAddHeaderAt_agrees (name value : StringRef) :
    Agrees PlacedMessageBuilder.request (builderAddHeaderAt rt allocator rb name value)
        (requestBuilderAddHeader rt rb.request name value) ∧
      Agrees PlacedMessageBuilder.response (builderAddHeaderAt rt allocator resb name value)
        (responseBuilderAddHeader rt resb.response name value) :=
  ⟨.bind (appendHeaderAt_agrees rb.headBuilder name value) fun _ => .pure _ _,
    .bind (appendHeaderAt_agrees resb.headBuilder name value) fun _ => .pure _ _⟩

theorem builderBuildAt_agrees :
    Agrees PlacedMessage.message (builderBuildAt rt allocator HttpRequest.setHead rb)
        (requestBuilderBuild rt rb.request) ∧
      Agrees PlacedMessage.message (builderBuildAt rt allocator HttpResponse.setHead resb)
        (responseBuilderBuild rt resb.response) :=
  ⟨.bind (stringBuilderBuildAt_agrees rb.headBuilder) fun _ => .pure _ _,
    .bind (stringBuilderBuildAt_agrees resb.headBuilder) fun _ => .pure _ _⟩

theorem builderBuildAndDestroyAt_agrees :
    Agrees (fun out => (out.1.message, out.2.request))
        (builderBuildAndDestroyAt rt allocator HttpRequest.setHead rb)
        (requestBuilderBuildAndDestroy rt rb.request) ∧
      Agrees (fun out => (out.1.message, out.2.response))
        (builderBuildAndDestroyAt rt allocator HttpResponse.setHead resb)
        (responseBuilderBuildAndDestroy rt resb.response) :=
  ⟨.bind (stringBuilderBuildAndDestroyAt_agrees rb.headBuilder) fun _ => .pure _ _,
    .bind (stringBuilderBuildAndDestroyAt_agrees resb.headBuilder) fun _ => .pure _ _⟩

end Builders

end Agreement

end Net77.Http
