import Net77.Memory

/-! The data types of `net77/http/serde.h`. An `HttpMethod` or `HttpVersion`
outside its enumerators cannot be built here. -/
namespace Net77.Http

inductive HttpVersion where
  | http09
  | http10
  | http11
  deriving DecidableEq, Repr

/-- The value of the enumerator, which the receive controller computes with. -/
def HttpVersion.value : HttpVersion → Nat
  | .http09 => 9
  | .http10 => 10
  | .http11 => 11

inductive HttpMethod where
  | get
  | head
  | post
  | put
  | delete
  | connect
  | options
  | trace
  | patch
  deriving DecidableEq, Repr

structure HttpHeaderField where
  name : StringRef
  value : StringRef
  deriving DecidableEq, Repr

/-- `count` is the length of the array, which is NULL when it is empty. -/
structure HttpHeaderStruct where
  fields : List HttpHeaderField
  deriving DecidableEq, Repr

def HttpHeaderStruct.count (hs : HttpHeaderStruct) : Nat := hs.fields.length

/-- The tag `HttpHeaderDataType` together with the member of the union it selects. -/
inductive HttpHeader where
  | asString (string : StringRef)
  | asOwnedString (ownedString : OwnedString)
  | asStruct (headerStruct : HttpHeaderStruct)
  deriving DecidableEq, Repr

structure HttpRequest where
  method : HttpMethod
  url : StringRef
  version : HttpVersion
  head : HttpHeader
  body : StringRef
  deriving DecidableEq, Repr

structure HttpResponse where
  version : HttpVersion
  statusCode : Int
  statusMsg : StringRef
  head : HttpHeader
  body : StringRef
  deriving DecidableEq, Repr

/-- The text a field stands for, whatever memory it points into. -/
def HttpHeaderField.text (field : HttpHeaderField) : Bytes × Bytes :=
  (field.name.bytes, field.value.bytes)

/-- Every reference of the value promises only bytes that its object has. -/
def HttpHeaderField.Readable (field : HttpHeaderField) : Prop :=
  field.name.Readable ∧ field.value.Readable

def HttpHeader.Readable : HttpHeader → Prop
  | .asString string => string.Readable
  | .asOwnedString ownedString => ownedString.len ≤ ownedString.data.length
  | .asStruct hs => ∀ field ∈ hs.fields, field.Readable

instance (field : HttpHeaderField) : Decidable field.Readable :=
  inferInstanceAs (Decidable (field.name.Readable ∧ field.value.Readable))

instance : (head : HttpHeader) → Decidable head.Readable
  | .asString string => inferInstanceAs (Decidable string.Readable)
  | .asOwnedString ownedString =>
    inferInstanceAs (Decidable (ownedString.len ≤ ownedString.data.length))
  | .asStruct hs => inferInstanceAs (Decidable (∀ field ∈ hs.fields, field.Readable))

def HttpRequest.Readable (req : HttpRequest) : Prop :=
  req.url.Readable ∧ req.head.Readable ∧ req.body.Readable

def HttpResponse.Readable (resp : HttpResponse) : Prop :=
  resp.statusMsg.Readable ∧ resp.head.Readable ∧ resp.body.Readable

instance (req : HttpRequest) : Decidable req.Readable :=
  inferInstanceAs (Decidable (req.url.Readable ∧ req.head.Readable ∧ req.body.Readable))

instance (resp : HttpResponse) : Decidable resp.Readable :=
  inferInstanceAs (Decidable (resp.statusMsg.Readable ∧ resp.head.Readable ∧ resp.body.Readable))

/-- The (name, value) pairs of a head in `HEADER_AS_STRUCT` form. -/
def HttpHeader.pairs : HttpHeader → Option (List (Bytes × Bytes))
  | .asStruct hs => some (hs.fields.map HttpHeaderField.text)
  | .asString _ => none
  | .asOwnedString _ => none

end Net77.Http
