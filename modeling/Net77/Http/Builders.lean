import Net77.Http.RoundTrip

/-! The builders of `lib/http/request_misc.c`. They collect the header block as
text and hand it over as `HEADER_AS_OWNED_STRING`. -/
namespace Net77.Http

open Net77.Base

structure RequestBuilder where
  req : HttpRequest
  headBuilder : StringBuilder
  deriving DecidableEq, Repr

structure ResponseBuilder where
  resp : HttpResponse
  headBuilder : StringBuilder
  deriving DecidableEq, Repr

/-- The members an initializer leaves out are zero, and zero is `HEADER_AS_STRING`. -/
def newRequestBuilder (rt : Runtime) (method : HttpMethod) (url : StringRef)
    (version : HttpVersion) : Except Stop RequestBuilder := do
  let headBuilder ← newStringBuilder rt 0
  pure ⟨⟨method, url, version, .asString ⟨0, []⟩, ⟨0, []⟩⟩, headBuilder⟩

def requestBuilderSetBody (rb : RequestBuilder) (body : StringRef) : RequestBuilder :=
  { rb with req := { rb.req with body } }

/-- The four appends that both builders make for a header. -/
def appendHeader (rt : Runtime) (headBuilder : StringBuilder) (name value : StringRef) :
    Except Stop StringBuilder := do
  let headBuilder ← appendRef rt name headBuilder
  let headBuilder ← appendConstSized rt [colon] headBuilder
  let headBuilder ← appendRef rt value headBuilder
  appendConstSized rt crlf headBuilder

def requestBuilderAddHeader (rt : Runtime) (rb : RequestBuilder) (name value : StringRef) :
    Except Stop RequestBuilder := do
  let headBuilder ← appendHeader rt rb.headBuilder name value
  pure { rb with headBuilder }

def requestBuilderBuild (rt : Runtime) (rb : RequestBuilder) : Except Stop HttpRequest := do
  let str ← stringBuilderBuild rt rb.headBuilder
  pure { rb.req with head := .asOwnedString str }

def requestBuilderBuildAndDestroy (rt : Runtime) (rb : RequestBuilder) :
    Except Stop (HttpRequest × RequestBuilder) := do
  let (str, headBuilder) ← stringBuilderBuildAndDestroy rt rb.headBuilder
  pure ({ rb.req with head := .asOwnedString str }, { rb with headBuilder })

def newResponseBuilder (rt : Runtime) (version : HttpVersion) (statusCode : Int)
    (statusMsg : StringRef) : Except Stop ResponseBuilder := do
  let headBuilder ← newStringBuilder rt 0
  pure ⟨⟨version, statusCode, statusMsg, .asString ⟨0, []⟩, ⟨0, []⟩⟩, headBuilder⟩

def responseBuilderSetBody (rb : ResponseBuilder) (body : StringRef) : ResponseBuilder :=
  { rb with resp := { rb.resp with body } }

def responseBuilderAddHeader (rt : Runtime) (rb : ResponseBuilder) (name value : StringRef) :
    Except Stop ResponseBuilder := do
  let headBuilder ← appendHeader rt rb.headBuilder name value
  pure { rb with headBuilder }

def responseBuilderBuild (rt : Runtime) (rb : ResponseBuilder) : Except Stop HttpResponse := do
  let str ← stringBuilderBuild rt rb.headBuilder
  pure { rb.resp with head := .asOwnedString str }

def responseBuilderBuildAndDestroy (rt : Runtime) (rb : ResponseBuilder) :
    Except Stop (HttpResponse × ResponseBuilder) := do
  let (str, headBuilder) ← stringBuilderBuildAndDestroy rt rb.headBuilder
  pure ({ rb.resp with head := .asOwnedString str }, { rb with headBuilder })

/-- A call on a builder between its creation and the build. -/
inductive BuilderCall where
  | addHeader (name value : StringRef)
  | setBody (body : StringRef)

/-- The pairs that a sequence of calls adds. -/
def addedFields (calls : List BuilderCall) : List (Bytes × Bytes) :=
  calls.flatMap fun call =>
    match call with
    | .addHeader name value => [(name.bytes, value.bytes)]
    | .setBody _ => []

/-- The body that is set when the calls were made. -/
def lastBody (body : StringRef) (calls : List BuilderCall) : StringRef :=
  calls.foldl (fun body call =>
    match call with
    | .addHeader _ _ => body
    | .setBody next => next) body

def requestCall (rt : Runtime) (rb : RequestBuilder) : BuilderCall → Except Stop RequestBuilder
  | .addHeader name value => requestBuilderAddHeader rt rb name value
  | .setBody body => pure (requestBuilderSetBody rb body)

def responseCall (rt : Runtime) (rb : ResponseBuilder) : BuilderCall → Except Stop ResponseBuilder
  | .addHeader name value => responseBuilderAddHeader rt rb name value
  | .setBody body => pure (responseBuilderSetBody rb body)

/-- What `build` makes of a builder is serialized with status 0 and parsed back
to the message that was put in. -/
def RequestSendable (rt : Runtime) (build : RequestBuilder → Except Stop HttpRequest)
    (method : HttpMethod) (url : StringRef) (version : HttpVersion) (calls : List BuilderCall) :
    Prop :=
  ∃ fresh rb req ser back, newRequestBuilder rt method url version = .ok fresh ∧
    calls.foldlM (requestCall rt) fresh = .ok rb ∧ build rb = .ok req ∧
    stringifyRequest rt req = .ok ser ∧ parseHttpRequest rt ser.ref true = .ok back ∧
    back.message = some ⟨method, url.bytes, version, addedFields calls,
      (lastBody ⟨0, []⟩ calls).bytes⟩

def ResponseSendable (rt : Runtime) (build : ResponseBuilder → Except Stop HttpResponse)
    (version : HttpVersion) (statusCode : Int) (statusMsg : StringRef) (calls : List BuilderCall) :
    Prop :=
  ∃ fresh rb resp ser back, newResponseBuilder rt version statusCode statusMsg = .ok fresh ∧
    calls.foldlM (responseCall rt) fresh = .ok rb ∧ build rb = .ok resp ∧
    stringifyResponse rt resp = .ok ser ∧ parseHttpResponse rt ser.ref true = .ok back ∧
    back.message = some ⟨version, statusCode, statusMsg.bytes, addedFields calls,
      (lastBody ⟨0, []⟩ calls).bytes⟩

/-- `requestBuilderBuildAndDestroy` without the emptied builder. -/
def requestOfDestroyed (rt : Runtime) (rb : RequestBuilder) : Except Stop HttpRequest := do
  let (req, _) ← requestBuilderBuildAndDestroy rt rb
  pure req

def responseOfDestroyed (rt : Runtime) (rb : ResponseBuilder) : Except Stop HttpResponse := do
  let (resp, _) ← responseBuilderBuildAndDestroy rt rb
  pure resp

theorem stringifyRequest_ownedString {rt : Runtime} {req : HttpRequest} {str : OwnedString}
    (hhead : req.head = .asOwnedString str) (ser : OwnedString) :
    stringifyRequest rt req ≠ .ok ser := by
  intro h
  obtain ⟨builder, -, h⟩ := bind_eq_ok.mp h
  obtain ⟨full, hfull, -⟩ := bind_eq_ok.mp h
  exact serializeHttpRequest_ownedString hhead hfull

theorem stringifyResponse_ownedString {rt : Runtime} {resp : HttpResponse} {str : OwnedString}
    (hhead : resp.head = .asOwnedString str) (ser : OwnedString) :
    stringifyResponse rt resp ≠ .ok ser := by
  intro h
  obtain ⟨builder, -, h⟩ := bind_eq_ok.mp h
  obtain ⟨full, hfull, -⟩ := bind_eq_ok.mp h
  exact serializeHttpResponse_ownedString hhead hfull

theorem requestBuilderBuild_head {rt : Runtime} {rb : RequestBuilder} {req : HttpRequest}
    (h : requestBuilderBuild rt rb = .ok req) : ∃ str, req.head = .asOwnedString str := by
  obtain ⟨str, -, h⟩ := bind_eq_ok.mp h
  cases Except.ok.inj h
  exact ⟨str, rfl⟩

theorem requestOfDestroyed_head {rt : Runtime} {rb : RequestBuilder} {req : HttpRequest}
    (h : requestOfDestroyed rt rb = .ok req) : ∃ str, req.head = .asOwnedString str := by
  obtain ⟨⟨built, destroyed⟩, hbuild, h⟩ := bind_eq_ok.mp h
  obtain ⟨⟨str, headBuilder⟩, -, hbuilt⟩ := bind_eq_ok.mp hbuild
  cases Except.ok.inj h
  cases (Prod.mk.inj (Except.ok.inj hbuilt)).1
  exact ⟨str, rfl⟩

theorem responseBuilderBuild_head {rt : Runtime} {rb : ResponseBuilder} {resp : HttpResponse}
    (h : responseBuilderBuild rt rb = .ok resp) : ∃ str, resp.head = .asOwnedString str := by
  obtain ⟨str, -, h⟩ := bind_eq_ok.mp h
  cases Except.ok.inj h
  exact ⟨str, rfl⟩

theorem responseOfDestroyed_head {rt : Runtime} {rb : ResponseBuilder} {resp : HttpResponse}
    (h : responseOfDestroyed rt rb = .ok resp) : ∃ str, resp.head = .asOwnedString str := by
  obtain ⟨⟨built, destroyed⟩, hbuild, h⟩ := bind_eq_ok.mp h
  obtain ⟨⟨str, headBuilder⟩, -, hbuilt⟩ := bind_eq_ok.mp hbuild
  cases Except.ok.inj h
  cases (Prod.mk.inj (Except.ok.inj hbuilt)).1
  exact ⟨str, rfl⟩

/-- No builder makes a message that the serializer takes: it knows the two other
representations of a head, and the builders only make owned strings. -/
theorem builders_never_sendable (rt : Runtime) (method : HttpMethod) (url : StringRef)
    (version : HttpVersion) (statusCode : Int) (statusMsg : StringRef) (calls : List BuilderCall) :
    ¬ RequestSendable rt (requestBuilderBuild rt) method url version calls ∧
      ¬ RequestSendable rt (requestOfDestroyed rt) method url version calls ∧
      ¬ ResponseSendable rt (responseBuilderBuild rt) version statusCode statusMsg calls ∧
      ¬ ResponseSendable rt (responseOfDestroyed rt) version statusCode statusMsg calls := by
  refine ⟨?_, ?_, ?_, ?_⟩
  · rintro ⟨fresh, rb, req, ser, back, -, -, hbuild, hser, -⟩
    obtain ⟨str, hhead⟩ := requestBuilderBuild_head hbuild
    exact stringifyRequest_ownedString hhead ser hser
  · rintro ⟨fresh, rb, req, ser, back, -, -, hbuild, hser, -⟩
    obtain ⟨str, hhead⟩ := requestOfDestroyed_head hbuild
    exact stringifyRequest_ownedString hhead ser hser
  · rintro ⟨fresh, rb, resp, ser, back, -, -, hbuild, hser, -⟩
    obtain ⟨str, hhead⟩ := responseBuilderBuild_head hbuild
    exact stringifyResponse_ownedString hhead ser hser
  · rintro ⟨fresh, rb, resp, ser, back, -, -, hbuild, hser, -⟩
    obtain ⟨str, hhead⟩ := responseOfDestroyed_head hbuild
    exact stringifyResponse_ownedString hhead ser hser

/-- A builder without headers or body already gives status 1. -/
theorem bareBuilder_not_serialized :
    ∃ fresh req, newRequestBuilder .unlimited .get ⟨1, [slash]⟩ .http11 = .ok fresh ∧
      requestBuilderBuild .unlimited fresh = .ok req ∧
      stringifyRequest .unlimited req = .error (.status 1) ∧
      ¬ RequestSendable .unlimited (requestBuilderBuild .unlimited) .get ⟨1, [slash]⟩ .http11 [] := by
  refine ⟨_, _, rfl, rfl, rfl, ?_⟩
  rintro ⟨fresh, rb, req, ser, back, hfresh, hrb, hreq, hser, -⟩
  cases hfresh
  cases hrb
  cases hreq
  cases hser

section Collected

variable {rt : Runtime} (halloc : rt.AllocSucceeds)

include halloc

theorem appendHeader_appends {name value : StringRef} (hname : name.Readable)
    (hvalue : value.Readable) :
    Appends (appendHeader rt · name value) (fieldsWire [(name.bytes, value.bytes)]) := by
  have h : Appends (appendHeader rt · name value)
      (name.bytes ++ ([colon] ++ (value.bytes ++ crlf))) :=
    (appendRef_appends halloc hname).seq <| (appendConstSized_appends halloc [colon]).seq <|
      (appendRef_appends halloc hvalue).seq (appendConstSized_appends halloc crlf)
  simpa [fieldsWire] using h

/-- What a builder collects is the normal form of the header block. -/
theorem requestCalls_collect {calls : List BuilderCall} (rb : RequestBuilder) {prior : Bytes}
    (hread : ∀ name value, BuilderCall.addHeader name value ∈ calls →
      name.Readable ∧ value.Readable)
    (hholds : rb.headBuilder.Holds prior)
    (hmax : prior.length + (fieldsWire (addedFields calls)).length ≤ maxCapacity) :
    ∃ rb', calls.foldlM (requestCall rt) rb = .ok rb' ∧
      rb'.req = { rb.req with body := lastBody rb.req.body calls } ∧
      rb'.headBuilder.Holds (prior ++ fieldsWire (addedFields calls)) := by
  induction calls generalizing rb prior with
  | nil => exact ⟨rb, rfl, rfl, by simpa [addedFields, fieldsWire] using hholds⟩
  | cons call calls ih =>
    have hreadTail : ∀ name value, BuilderCall.addHeader name value ∈ calls →
        name.Readable ∧ value.Readable := fun name value hmem =>
      hread name value (List.mem_cons_of_mem call hmem)
    cases call with
    | addHeader name value =>
      obtain ⟨hname, hvalue⟩ := hread name value (by simp)
      have hsplit : fieldsWire (addedFields (.addHeader name value :: calls)) =
          fieldsWire [(name.bytes, value.bytes)] ++ fieldsWire (addedFields calls) := by
        simp [fieldsWire, addedFields]
      rw [hsplit, List.length_append] at hmax
      obtain ⟨longer, hlonger, hmore⟩ :=
        appendHeader_appends halloc hname hvalue rb.headBuilder prior hholds (by omega)
      have hcall : requestCall rt rb (.addHeader name value) = .ok ⟨rb.req, longer⟩ :=
        bind_eq_ok.mpr ⟨longer, hlonger, rfl⟩
      obtain ⟨rb', hrun, hreq, hcollected⟩ :=
        ih ⟨rb.req, longer⟩ hreadTail hmore (by rw [List.length_append]; omega)
      refine ⟨rb', ?_, hreq, by rw [hsplit, ← List.append_assoc]; exact hcollected⟩
      rw [List.foldlM_cons, hcall, ok_bind, hrun]
    | setBody body =>
      obtain ⟨rb', hrun, hreq, hcollected⟩ :=
        ih (requestBuilderSetBody rb body) hreadTail hholds hmax
      exact ⟨rb', hrun, hreq, hcollected⟩

/-- The text of the built head is right; only its representation is not. -/
theorem requestBuilderBuild_collects {method : HttpMethod} {url : StringRef}
    {version : HttpVersion} {calls : List BuilderCall}
    (hread : ∀ name value, BuilderCall.addHeader name value ∈ calls →
      name.Readable ∧ value.Readable)
    (hmax : (fieldsWire (addedFields calls)).length ≤ maxCapacity) :
    ∃ fresh rb, newRequestBuilder rt method url version = .ok fresh ∧
      calls.foldlM (requestCall rt) fresh = .ok rb ∧
      requestBuilderBuild rt rb = .ok ⟨method, url, version,
        .asOwnedString ⟨(fieldsWire (addedFields calls)).length,
          fieldsWire (addedFields calls) ++ [0]⟩, lastBody ⟨0, []⟩ calls⟩ := by
  obtain ⟨rb, hrun, hreq, hcollected⟩ := requestCalls_collect halloc
    ⟨⟨method, url, version, .asString ⟨0, []⟩, ⟨0, []⟩⟩, ⟨0, 0, []⟩⟩ hread .empty
    (by simpa using hmax)
  refine ⟨_, rb, rfl, hrun, ?_⟩
  rw [requestBuilderBuild, hcollected.build hmax halloc, ok_bind, hreq]
  rfl

end Collected

end Net77.Http
