import Net77.Http.Serde

/-! `lib/http/parsing.c`. A parser takes the `StringRef` its C counterpart is
given by pointer and returns the advanced one; after an error status the C
callers return at once, so the reference is not needed any more. -/
namespace Net77.Http

/-- `data[0] == '\r' && data[1] == '\n'`, the second byte read only if needed. -/
def atNewline : Bytes → Except Stop Bool
  | [] => .error (.fault .outOfBounds)
  | c :: rest =>
    if c = cr then do
      let d ← readAt rest 0
      pure (d == lf)
    else pure false

/-- `!strncmp(p, q, n)`. -/
def strncmpEq : Nat → Bytes → Bytes → Except Stop Bool
  | 0, _, _ => pure true
  | n + 1, p, q => do
    let a ← readAt p 0
    let b ← readAt q 0
    if a ≠ b then pure false
    else if a = 0 then pure true
    else strncmpEq n p.tail q.tail

/-- `STR_EQ_LITERAL`. -/
def strEqLiteral (data literal : Bytes) : Except Stop Bool :=
  strncmpEq literal.length data literal

def strToInt (data : Bytes) (len : Nat) : Except Stop Int :=
  (List.range len).foldlM (fun out i => do
    let c ← readAt data i
    pure (out * 10 + c.toNat - 48)) 0

def expectChar (str : StringRef) (c : Byte) : Except Stop StringRef :=
  if str.len = 0 then .error (.status 1)
  else do
    let d ← readAt str.data 0
    if d ≠ c then .error (.status 1)
    else pure ⟨str.len - 1, str.data.tail⟩

def expectSpace (str : StringRef) : Except Stop StringRef := expectChar str space

def expectNewline (str : StringRef) : Except Stop StringRef :=
  if str.len ≤ 1 then .error (.status 1)
  else do
    if ← atNewline str.data then pure ⟨str.len - 2, str.data.drop 2⟩
    else .error (.status 1)

def toLower (c : Byte) : Byte :=
  if 65 ≤ c ∧ c ≤ 90 then c + 32 else c

/-- `char` is signed where the two bytes are ordered. -/
def strLowerCmp : Bytes → Bytes → Nat → Except Stop Int
  | _, _, 0 => pure 0
  | s1, s2, len + 1 => do
    let a := toLower (← readAt s1 0)
    let b := toLower (← readAt s2 0)
    if a ≠ b ∨ a = 0 ∨ b = 0 then
      pure (if a.toInt8 < b.toInt8 then -1 else if a = b then 0 else 1)
    else strLowerCmp s1.tail s2.tail len

/-- `STR_LOWER_EQ_LITERAL`. -/
def strLowerEqLiteral (data literal : Bytes) : Except Stop Bool := do
  let order ← strLowerCmp data literal literal.length
  pure (order == 0)

def isLetter (c : Byte) : Bool :=
  (65 ≤ c && c ≤ 90) || (97 ≤ c && c ≤ 122)

def isDigit (c : Byte) : Bool := 48 ≤ c && c ≤ 57

/-- `for (int i = 0; i < len; i++)` up to the first byte outside `p`: the value
of `i` when the loop ends. -/
def scanWhile (p : Byte → Bool) : Bytes → Nat → Nat → Except Stop Nat
  | _, 0, i => pure i
  | [], _ + 1, _ => .error (.fault .outOfBounds)
  | c :: rest, len + 1, i =>
    if p c then
      if i = intMax then .error (.fault .intOverflow)
      else scanWhile p rest len (i + 1)
    else pure i

/-- The common body of `parseWord` and `parseNumber`. When the run reaches the
end of the input it is returned without advancing `str`. -/
def parseRun (p : Byte → Bool) (str : StringRef) : Except Stop (StringRef × StringRef) := do
  let i ← scanWhile p str.data str.len 0
  if i < str.len then pure (⟨i, str.data⟩, ⟨str.len - i, str.data.drop i⟩)
  else pure (⟨str.len, str.data⟩, str)

def parseWord (str : StringRef) : Except Stop (StringRef × StringRef) := parseRun isLetter str

def parseNumber (str : StringRef) : Except Stop (StringRef × StringRef) := parseRun isDigit str

/-- The literals of `parseMethod` in the order in which they are tried. -/
def methodLiterals : List (Bytes × HttpMethod) :=
  [(ascii ['G', 'E', 'T'], .get),
   (ascii ['P', 'O', 'S', 'T'], .post),
   (ascii ['H', 'E', 'A', 'D'], .head),
   (ascii ['P', 'U', 'T'], .put),
   (ascii ['D', 'E', 'L', 'E', 'T', 'E'], .delete),
   (ascii ['C', 'O', 'N', 'N', 'E', 'C', 'T'], .connect),
   (ascii ['O', 'P', 'T', 'I', 'O', 'N', 'S'], .options),
   (ascii ['T', 'R', 'A', 'C', 'E'], .trace),
   (ascii ['P', 'A', 'T', 'C', 'H'], .patch)]

/-- The `else if` chain over the literals. -/
def matchMethod (data : Bytes) : List (Bytes × HttpMethod) → Except Stop HttpMethod
  | [] => .error (.status 1)
  | (literal, method) :: rest => do
    if ← strEqLiteral data literal then pure method
    else matchMethod data rest

def parseMethod (str : StringRef) : Except Stop (HttpMethod × StringRef) := do
  let (ms, str) ← parseWord str
  let method ← matchMethod ms.data methodLiterals
  pure (method, str)

def parseURL (str : StringRef) : Except Stop (StringRef × StringRef) := do
  let i ← scanWhile (· ≠ space) str.data str.len 0
  if i = 0 then .error (.status 1)
  else pure (⟨i, str.data⟩, ⟨str.len - i, str.data.drop i⟩)

/-- The mapping from the two digits to a supported version. -/
def versionOfDigits (maj min : Int) : Except Stop HttpVersion :=
  if maj = 0 then
    if min ≠ 9 then .error (.status 1) else pure .http09
  else if maj = 1 then
    if min ≠ 0 ∧ min ≠ 1 then .error (.status 1)
    else pure (if min = 0 then .http10 else .http11)
  else pure .http11

/-- `major.len != 1 || major.data[0] != '0' && ... != '1' && ... != '2'`. -/
def majorDigit (major : StringRef) : Except Stop Int :=
  if major.len ≠ 1 then .error (.status 1)
  else do
    let c ← readAt major.data 0
    if c ≠ 48 ∧ c ≠ 49 ∧ c ≠ 50 then .error (.status 1)
    else pure (c.toNat - 48)

def minorDigit (minor : StringRef) : Except Stop Int :=
  if minor.len ≠ 1 then .error (.status 1)
  else do
    let c ← readAt minor.data 0
    pure (c.toNat - 48)

def httpLiteral : Bytes := ascii ['h', 't', 't', 'p']

def parseHttpVersion (str : StringRef) : Except Stop (HttpVersion × StringRef) := do
  let (http, str) ← parseWord str
  if ← strLowerEqLiteral http.data httpLiteral then
    let str ← expectChar str slash
    let (major, str) ← parseNumber str
    let maj ← majorDigit major
    let str ← expectChar str dot
    let (minor, str) ← parseNumber str
    let min ← minorDigit minor
    let v ← versionOfDigits maj min
    pure (v, str)
  else .error (.status 1)

/-- `while (str->len > 0 && str->data[0] == ' ')`. -/
def skipSpaces : Bytes → Nat → Except Stop StringRef
  | data, 0 => pure ⟨0, data⟩
  | [], _ + 1 => .error (.fault .outOfBounds)
  | c :: rest, len + 1 => if c = space then skipSpaces rest len else pure ⟨len + 1, c :: rest⟩

/-- `while (str->len > 1 && (str->data[0] != '\r' || str->data[1] != '\n'))`. -/
def skipToNewline : Bytes → Nat → Except Stop StringRef
  | [], len => if len ≤ 1 then pure ⟨len, []⟩ else .error (.fault .outOfBounds)
  | c :: rest, len =>
    if len ≤ 1 then pure ⟨len, c :: rest⟩
    else do
      if ← atNewline (c :: rest) then pure ⟨len, c :: rest⟩
      else skipToNewline rest (len - 1)

/-- `while (--str->len > 0 && (++str->data)[-1] != '\n')`, where the length
wraps around if it was zero. -/
def skipLine : Bytes → Nat → Except Stop StringRef
  | [], len => if decSize len = 0 then pure ⟨0, []⟩ else .error (.fault .outOfBounds)
  | c :: rest, len =>
    if decSize len = 0 then pure ⟨0, c :: rest⟩
    else if c = lf then pure ⟨decSize len, rest⟩
    else skipLine rest (decSize len)

def parseHeaderField (str : StringRef) : Except Stop (HttpHeaderField × StringRef) := do
  let (name, str) ← parseWord str
  let str ← expectChar str colon
  let start ← skipSpaces str.data str.len
  let valueEnd ← skipToNewline start.data start.len
  let str ← skipLine valueEnd.data valueEnd.len
  if str.len = 0 then .error (.status 1)
  else pure (⟨name, ⟨start.data.length - valueEnd.data.length, start.data⟩⟩, str)

/-- How the counting loop of `parseHeaderStruct` ends. -/
inductive LineCount where
  | emptyHeader
  | lines (count : Nat)
  deriving DecidableEq, Repr

/-- The counting loop. `todo` is `len - 1 - i`, computed in `size_t`, and `i` is
an `int` that also skips the second byte of a newline. At `INT_MAX` it overflows
behind a carriage return as the index `i + 1`, and behind another byte as `i++`. -/
def countLines : Bytes → (todo i : Nat) → (count : Nat) → (lastWasNl isBeginning : Bool) →
    Except Stop LineCount
  | _, 0, _, count, _, _ => pure (.lines count)
  | [], _ + 1, _, _, _, _ => .error (.fault .outOfBounds)
  | [c], todo + 1, i, count, _, _ =>
    if i = intMax then .error (.fault .intOverflow)
    -- `data[i + 1]` is read only behind a carriage return
    else if c = cr then .error (.fault .outOfBounds)
    else countLines [] todo (i + 1) count false false
  | c :: d :: rest, todo + 1, i, count, lastWasNl, isBeginning =>
    if i = intMax then .error (.fault .intOverflow)
    else if c = cr ∧ d = lf then
      if isBeginning then pure .emptyHeader
      else if lastWasNl then pure (.lines count)
      else if intMax < i + 2 then .error (.fault .intOverflow)
      else countLines rest (todo - 1) (i + 2) (count + 1) true false
    else countLines (d :: rest) todo (i + 1) count false false

/-- `sizeof(HttpHeaderField)`: two `StringRef`s of sixteen bytes. -/
def sizeofHttpHeaderField : Nat := 32

/-- The fill loop over an array of `size` bytes: a write behind its end faults. -/
def parseHeaderFields (size : Nat) : (todo i : Nat) → StringRef →
    Except Stop (List HttpHeaderField × StringRef)
  | 0, _, str => pure ([], str)
  | todo + 1, i, str => do
    let (field, str) ← parseHeaderField str
    if size < sizeofHttpHeaderField * (i + 1) then .error (.fault .arrayOverrun)
    else
      let (fields, str) ← parseHeaderFields size todo (i + 1) str
      pure (field :: fields, str)

/-- `count * (int) sizeof(HttpHeaderField)`, an `int` product. -/
def headerFieldsSize (count : Nat) : Int := toInt (count * sizeofHttpHeaderField)

def parseHeaderStruct (rt : Runtime) (str : StringRef) :
    Except Stop (HttpHeaderStruct × StringRef) := do
  match ← countLines str.data (decSize str.len) 0 0 false true with
  | .emptyHeader => pure (⟨[]⟩, str)
  | .lines count =>
    let size := toSize (headerFieldsSize count)
    if rt.malloc size then
      let (fields, str) ← parseHeaderFields size count 0 str
      if str.len ≤ 1 then .error (.status 1)
      else if ← atNewline str.data then pure (⟨fields⟩, str)
      else .error (.status 1)
    else .error (.status 1)

/-- How the scan loop of `parseHeaderString` ends: through the `return` under
`is_beginning` or through the `break` under `last_was_nl`, at an offset from
the start. -/
inductive HeaderStringExit where
  | returned (off : Nat) (str : StringRef)
  | brokeOff (off : Nat) (str : StringRef)
  deriving DecidableEq, Repr

/-- The scan loop has no test of its own for the length, which wraps around. Its
newline test is `str->len > 1 && str->data[0] == '\r' || str->data[1] == '\n'`. -/
def scanHeaderString : Bytes → (len off : Nat) → (lastWasNl isBeginning : Bool) →
    Except Stop HeaderStringExit
  | [], _, _, _, _ => .error (.fault .outOfBounds)
  | [c], len, off, lastWasNl, isBeginning =>
    if 1 < len ∧ c = cr then
      if isBeginning then pure (.returned off ⟨len, [c]⟩)
      else if lastWasNl then pure (.brokeOff off ⟨len, [c]⟩)
      else .error (.fault .outOfBounds)
    else .error (.fault .outOfBounds)
  | c :: d :: rest, len, off, lastWasNl, isBeginning =>
    if (1 < len ∧ c = cr) ∨ d = lf then
      if isBeginning then pure (.returned off ⟨len, c :: d :: rest⟩)
      else if lastWasNl then pure (.brokeOff off ⟨len, c :: d :: rest⟩)
      else scanHeaderString rest (decSize (decSize len)) (off + 2) true true
    else scanHeaderString (d :: rest) (decSize len) (off + 1) false true

/-- `while (str->len > 0 && (++str->data)[-1] != '\n') str->len--`. -/
def skipHeaderLine : Bytes → (len off : Nat) → Except Stop (Nat × StringRef)
  | data, 0, off => pure (off, ⟨0, data⟩)
  | [], _ + 1, _ => .error (.fault .outOfBounds)
  | c :: rest, len + 1, off =>
    if c = lf then pure (off + 1, ⟨len + 1, rest⟩) else skipHeaderLine rest len (off + 1)

def parseHeaderString (str : StringRef) : Except Stop (StringRef × StringRef) := do
  match ← scanHeaderString str.data str.len 0 false false with
  | .returned _ rest => pure (⟨0, str.data⟩, rest)
  | .brokeOff off rest =>
    let (off, rest) ← skipHeaderLine rest.data rest.len off
    if rest.len = 0 then .error (.status 1)
    else pure (⟨off + 2, str.data⟩, ⟨rest.len + 1, rest.data.drop 2⟩)

def parseHeader (rt : Runtime) (str : StringRef) (parseHeaderIntoStructs : Bool) :
    Except Stop (HttpHeader × StringRef) := do
  if parseHeaderIntoStructs then
    let (hs, str) ← parseHeaderStruct rt str
    pure (.asStruct hs, str)
  else
    let (h, str) ← parseHeaderString str
    pure (.asString h, str)

def parseHttpHeader (rt : Runtime) (str : StringRef) (parseHeaderIntoStructs : Bool) :
    Except Stop HttpHeader := do
  let (head, _) ← parseHeader rt str parseHeaderIntoStructs
  pure head

def parseBody (str : StringRef) : StringRef := str

/-- The request line, up to and including its newline. A line that starts with
`/` is meant to be an HTTP 0.9 one. -/
def parseRequestLine (str : StringRef) :
    Except Stop ((HttpMethod × StringRef × HttpVersion) × StringRef) := do
  let c ← readAt str.data 0
  if c = slash then
    let (url, str) ← parseURL str
    let str ← expectNewline str
    pure ((.get, url, .http09), str)
  else
    let (method, str) ← parseMethod str
    let str ← expectSpace str
    let (url, str) ← parseURL str
    let str ← expectSpace str
    let (version, str) ← parseHttpVersion str
    let str ← expectNewline str
    pure ((method, url, version), str)

def parseHttpRequest (rt : Runtime) (str : StringRef) (parseHeaderIntoStructs : Bool) :
    Except Stop HttpRequest :=
  if str.len = 0 then .error (.status 1)
  else do
    let ((method, url, version), str) ← parseRequestLine str
    let (head, str) ← parseHeader rt str parseHeaderIntoStructs
    let str ← expectNewline str
    pure { method, url, version, head, body := parseBody str }

/-- `len != 3 || data[0] <= '0' || data[0] > '5'`, then the number. -/
def statusCodeOf (code : StringRef) : Except Stop Int :=
  if code.len ≠ 3 then .error (.status 1)
  else do
    let c ← readAt code.data 0
    if c ≤ 48 ∨ 53 < c then .error (.status 1)
    else strToInt code.data code.len

/-- The status line, up to and including its newline. -/
def parseStatusLine (str : StringRef) :
    Except Stop ((HttpVersion × Int × StringRef) × StringRef) := do
  let (version, str) ← parseHttpVersion str
  let str ← expectSpace str
  let (code, str) ← parseNumber str
  let statusCode ← statusCodeOf code
  let str ← expectSpace str
  let msgEnd ← skipToNewline str.data str.len
  let statusMsg : StringRef := ⟨str.len - msgEnd.len, str.data⟩
  let str ← expectNewline msgEnd
  pure ((version, statusCode, statusMsg), str)

def parseHttpResponse (rt : Runtime) (str : StringRef) (parseHeaderIntoStructs : Bool) :
    Except Stop HttpResponse := do
  let ((version, statusCode, statusMsg), str) ← parseStatusLine str
  let (head, str) ← parseHeader rt str parseHeaderIntoStructs
  let str ← expectNewline str
  pure { version, statusCode, statusMsg, head, body := parseBody str }

end Net77.Http
