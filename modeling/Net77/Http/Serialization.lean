import Net77.Http.Grammar
import Net77.StringBuilder

/-! `lib/http/serialization.c`. Callers that get an error status never look at
the builder again, so it is not returned with one. -/
namespace Net77.Http

open Net77.Base

/-- `STRING_BUILDER_APPEND_CONST_SIZED`. -/
def appendConstSized (rt : Runtime) (literal : Bytes) (builder : StringBuilder) :
    Except Stop StringBuilder :=
  stringBuilderAppend rt builder literal literal.length

/-- `stringBuilderAppend(builder, ref.data, ref.len)`. -/
def appendRef (rt : Runtime) (ref : StringRef) (builder : StringBuilder) :
    Except Stop StringBuilder :=
  stringBuilderAppend rt builder ref.data ref.len

def serializeMethod (rt : Runtime) (method : HttpMethod) (builder : StringBuilder) :
    Except Stop StringBuilder :=
  match method with
  | .get => appendConstSized rt (ascii ['G', 'E', 'T']) builder
  | .head => appendConstSized rt (ascii ['H', 'E', 'A', 'D']) builder
  | .post => appendConstSized rt (ascii ['P', 'O', 'S', 'T']) builder
  | .put => appendConstSized rt (ascii ['P', 'U', 'T']) builder
  | .delete => appendConstSized rt (ascii ['D', 'E', 'L', 'E', 'T', 'E']) builder
  | .connect => appendConstSized rt (ascii ['C', 'O', 'N', 'N', 'E', 'C', 'T']) builder
  | .options => appendConstSized rt (ascii ['O', 'P', 'T', 'I', 'O', 'N', 'S']) builder
  | .trace => appendConstSized rt (ascii ['T', 'R', 'A', 'C', 'E']) builder
  | .patch => appendConstSized rt (ascii ['P', 'A', 'T', 'C', 'H']) builder

def serializeURL (rt : Runtime) (url : StringRef) (builder : StringBuilder) :
    Except Stop StringBuilder :=
  appendRef rt url builder

def serializeHttpVersion (rt : Runtime) (v : HttpVersion) (builder : StringBuilder) :
    Except Stop StringBuilder :=
  match v with
  | .http09 => appendConstSized rt (ascii ['H', 'T', 'T', 'P', '/', '0', '.', '9']) builder
  | .http10 => appendConstSized rt (ascii ['H', 'T', 'T', 'P', '/', '1', '.', '0']) builder
  | .http11 => appendConstSized rt (ascii ['H', 'T', 'T', 'P', '/', '1', '.', '1']) builder

/-- The last `n` decimal digits, filled in from the right. `/` and `%` truncate. -/
def statusCodeDigits : Nat → Int → Bytes
  | 0, _ => []
  | n + 1, statusCode =>
    statusCodeDigits n (statusCode.tdiv 10) ++ [UInt8.ofInt (statusCode.tmod 10 + 48)]

def serializeStatusCode (rt : Runtime) (statusCode : Int) (builder : StringBuilder) :
    Except Stop StringBuilder :=
  appendConstSized rt (statusCodeDigits 3 statusCode) builder

/-- The body of the loop over the fields. -/
def serializeHeaderField (rt : Runtime) (builder : StringBuilder) (f : HttpHeaderField) :
    Except Stop StringBuilder := do
  let builder ← appendRef rt f.name builder
  let builder ← appendConstSized rt [colon] builder
  let builder ← appendRef rt f.value builder
  appendConstSized rt crlf builder

def serializeHttpHeader (rt : Runtime) (head : HttpHeader) (builder : StringBuilder) :
    Except Stop StringBuilder :=
  match head with
  | .asStruct hs => hs.fields.foldlM (serializeHeaderField rt) builder
  | .asString string => appendRef rt string builder
  | .asOwnedString _ => .error (.status 1)

def serializeBody (rt : Runtime) (body : StringRef) (builder : StringBuilder) :
    Except Stop StringBuilder :=
  if 0 < body.len then appendRef rt body builder else pure builder

def serializeHttpRequest (rt : Runtime) (req : HttpRequest) (builder : StringBuilder) :
    Except Stop StringBuilder := do
  let builder ← serializeMethod rt req.method builder
  let builder ← appendConstSized rt [space] builder
  let builder ← serializeURL rt req.url builder
  let builder ← appendConstSized rt [space] builder
  let builder ← serializeHttpVersion rt req.version builder
  let builder ← appendConstSized rt crlf builder
  let builder ← serializeHttpHeader rt req.head builder
  let builder ← appendConstSized rt crlf builder
  serializeBody rt req.body builder

def serializeHttpResponse (rt : Runtime) (resp : HttpResponse) (builder : StringBuilder) :
    Except Stop StringBuilder := do
  let builder ← serializeHttpVersion rt resp.version builder
  let builder ← appendConstSized rt [space] builder
  let builder ← serializeStatusCode rt resp.statusCode builder
  let builder ← appendConstSized rt [space] builder
  let builder ← appendRef rt resp.statusMsg builder
  let builder ← appendConstSized rt crlf builder
  let builder ← serializeHttpHeader rt resp.head builder
  let builder ← appendConstSized rt crlf builder
  serializeBody rt resp.body builder

def HttpVersion.name : HttpVersion → Bytes
  | .http09 => ascii ['H', 'T', 'T', 'P', '/', '0', '.', '9']
  | .http10 => ascii ['H', 'T', 'T', 'P', '/', '1', '.', '0']
  | .http11 => ascii ['H', 'T', 'T', 'P', '/', '1', '.', '1']

/-- The normal form of a header block. -/
def fieldsWire (fields : List (Bytes × Bytes)) : Bytes :=
  fields.flatMap fun field => field.1 ++ ([colon] ++ (field.2 ++ crlf))

/-- The normal form of a request. -/
def requestWire (m : RequestMessage) : Bytes :=
  m.method.name ++ ([space] ++ (m.url ++ ([space] ++ (m.version.name ++ (crlf ++
    (fieldsWire m.fields ++ (crlf ++ m.body)))))))

def responseWire (m : ResponseMessage) : Bytes :=
  m.version.name ++ ([space] ++ (statusCodeDigits 3 m.statusCode ++ ([space] ++ (m.statusMsg ++
    (crlf ++ (fieldsWire m.fields ++ (crlf ++ m.body)))))))

section Specs

variable {rt : Runtime} (halloc : rt.AllocSucceeds)

include halloc

theorem appendConstSized_appends (literal : Bytes) :
    Appends (appendConstSized rt literal) literal := by
  have h := Appends.ref halloc ⟨literal.length, literal⟩ le_rfl
  rwa [show StringRef.bytes ⟨literal.length, literal⟩ = literal from List.take_length] at h

theorem appendRef_appends {ref : StringRef} (hread : ref.Readable) :
    Appends (appendRef rt ref) ref.bytes :=
  Appends.ref halloc ref hread

theorem serializeMethod_appends (method : HttpMethod) :
    Appends (serializeMethod rt method) method.name := by
  cases method <;> exact appendConstSized_appends halloc _

theorem serializeHttpVersion_appends (v : HttpVersion) :
    Appends (serializeHttpVersion rt v) v.name := by
  cases v <;> exact appendConstSized_appends halloc _

theorem serializeHeaderField_appends {f : HttpHeaderField} (hread : f.Readable) :
    Appends (serializeHeaderField rt · f) (f.name.bytes ++ ([colon] ++ (f.value.bytes ++ crlf))) :=
  (appendRef_appends halloc hread.1).seq <| (appendConstSized_appends halloc _).seq <|
    (appendRef_appends halloc hread.2).seq (appendConstSized_appends halloc _)

theorem serializeHttpHeader_appends {head : HttpHeader} {fields : List (Bytes × Bytes)}
    (hread : head.Readable) (hpairs : head.pairs = some fields) :
    Appends (serializeHttpHeader rt head) (fieldsWire fields) := by
  cases head with
  | asString string => simp [HttpHeader.pairs] at hpairs
  | asOwnedString ownedString => simp [HttpHeader.pairs] at hpairs
  | asStruct hs =>
    cases Option.some.inj hpairs
    rw [fieldsWire, List.flatMap_map]
    exact Appends.foldlM fun f hf => serializeHeaderField_appends halloc (hread f hf)

theorem serializeBody_appends {body : StringRef} (hread : body.Readable) :
    Appends (serializeBody rt body) body.bytes := by
  by_cases hpos : 0 < body.len
  · have hsame : serializeBody rt body = appendRef rt body := by
      funext builder
      exact if_pos hpos
    rw [hsame]
    exact appendRef_appends halloc hread
  · have hsame : serializeBody rt body = pure := by
      funext builder
      exact if_neg hpos
    have hnil : body.bytes = [] := by
      rw [StringRef.bytes, Nat.eq_zero_of_not_pos hpos, List.take_zero]
    rw [hsame, hnil]
    exact Appends.skip

/-- A request in `HEADER_AS_STRUCT` form is serialized to its normal form. -/
theorem serializeHttpRequest_appends {req : HttpRequest} {m : RequestMessage}
    (hread : req.Readable) (hm : req.message = some m) :
    Appends (serializeHttpRequest rt req) (requestWire m) := by
  obtain ⟨fields, hpairs, rfl⟩ := Option.map_eq_some_iff.mp hm
  exact (serializeMethod_appends halloc req.method).seq <|
    (appendConstSized_appends halloc _).seq <|
    (appendRef_appends halloc hread.1).seq <|
    (appendConstSized_appends halloc _).seq <|
    (serializeHttpVersion_appends halloc req.version).seq <|
    (appendConstSized_appends halloc _).seq <|
    (serializeHttpHeader_appends halloc hread.2.1 hpairs).seq <|
    (appendConstSized_appends halloc _).seq <|
    serializeBody_appends halloc hread.2.2

theorem serializeHttpResponse_appends {resp : HttpResponse} {m : ResponseMessage}
    (hread : resp.Readable) (hm : resp.message = some m) :
    Appends (serializeHttpResponse rt resp) (responseWire m) := by
  obtain ⟨fields, hpairs, rfl⟩ := Option.map_eq_some_iff.mp hm
  exact (serializeHttpVersion_appends halloc resp.version).seq <|
    (appendConstSized_appends halloc _).seq <|
    (appendConstSized_appends halloc _).seq <|
    (appendConstSized_appends halloc _).seq <|
    (appendRef_appends halloc hread.1).seq <|
    (appendConstSized_appends halloc _).seq <|
    (serializeHttpHeader_appends halloc hread.2.1 hpairs).seq <|
    (appendConstSized_appends halloc _).seq <|
    serializeBody_appends halloc hread.2.2

end Specs

/-- An owned string is no representation the serializer knows. -/
theorem serializeHttpRequest_ownedString {rt : Runtime} {req : HttpRequest} {str : OwnedString}
    {builder longer : StringBuilder} (hhead : req.head = .asOwnedString str) :
    serializeHttpRequest rt req builder ≠ .ok longer := by
  intro h
  obtain ⟨b1, -, h⟩ := bind_eq_ok.mp h
  obtain ⟨b2, -, h⟩ := bind_eq_ok.mp h
  obtain ⟨b3, -, h⟩ := bind_eq_ok.mp h
  obtain ⟨b4, -, h⟩ := bind_eq_ok.mp h
  obtain ⟨b5, -, h⟩ := bind_eq_ok.mp h
  obtain ⟨b6, -, h⟩ := bind_eq_ok.mp h
  obtain ⟨b7, hheader, -⟩ := bind_eq_ok.mp h
  rw [hhead] at hheader
  simp [serializeHttpHeader] at hheader

theorem serializeHttpResponse_ownedString {rt : Runtime} {resp : HttpResponse} {str : OwnedString}
    {builder longer : StringBuilder} (hhead : resp.head = .asOwnedString str) :
    serializeHttpResponse rt resp builder ≠ .ok longer := by
  intro h
  obtain ⟨b1, -, h⟩ := bind_eq_ok.mp h
  obtain ⟨b2, -, h⟩ := bind_eq_ok.mp h
  obtain ⟨b3, -, h⟩ := bind_eq_ok.mp h
  obtain ⟨b4, -, h⟩ := bind_eq_ok.mp h
  obtain ⟨b5, -, h⟩ := bind_eq_ok.mp h
  obtain ⟨b6, -, h⟩ := bind_eq_ok.mp h
  obtain ⟨b7, hheader, -⟩ := bind_eq_ok.mp h
  rw [hhead] at hheader
  simp [serializeHttpHeader] at hheader

end Net77.Http
