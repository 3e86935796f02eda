import Net77.Http.Parsing

/-! The messages the parser is for, and the byte strings that denote them. This
grammar is lenient in the places where the parser is: the tail of a method or
version word, blanks before a value, and line breaks inside a url. -/
namespace Net77.Http

/-- A request without the memory its parts point into. -/
structure RequestMessage where
  method : HttpMethod
  url : Bytes
  version : HttpVersion
  fields : List (Bytes × Bytes)
  body : Bytes
  deriving DecidableEq, Repr

structure ResponseMessage where
  version : HttpVersion
  statusCode : Int
  statusMsg : Bytes
  fields : List (Bytes × Bytes)
  body : Bytes
  deriving DecidableEq, Repr

/-- The message of a request whose head is held as structs. -/
def HttpRequest.message (req : HttpRequest) : Option RequestMessage :=
  req.head.pairs.map fun fields =>
    ⟨req.method, req.url.bytes, req.version, fields, req.body.bytes⟩

def HttpResponse.message (resp : HttpResponse) : Option ResponseMessage :=
  resp.head.pairs.map fun fields =>
    ⟨resp.version, resp.statusCode, resp.statusMsg.bytes, fields, resp.body.bytes⟩

def HttpMethod.name : HttpMethod → Bytes
  | .get => ascii ['G', 'E', 'T']
  | .post => ascii ['P', 'O', 'S', 'T']
  | .head => ascii ['H', 'E', 'A', 'D']
  | .put => ascii ['P', 'U', 'T']
  | .delete => ascii ['D', 'E', 'L', 'E', 'T', 'E']
  | .connect => ascii ['C', 'O', 'N', 'N', 'E', 'C', 'T']
  | .options => ascii ['O', 'P', 'T', 'I', 'O', 'N', 'S']
  | .trace => ascii ['T', 'R', 'A', 'C', 'E']
  | .patch => ascii ['P', 'A', 'T', 'C', 'H']

/-- A header line: the blanks behind the colon belong to neither part. -/
structure FieldLine where
  name : Bytes
  padding : Nat
  value : Bytes
  name_letters : ∀ c ∈ name, isLetter c = true
  value_trimmed : value.head? ≠ some space
  value_oneLine : ¬ crlf <:+: value

def FieldLine.content (line : FieldLine) : Bytes :=
  line.name ++ colon :: (List.replicate line.padding space ++ line.value)

def FieldLine.text (line : FieldLine) : Bytes := line.content ++ crlf

def FieldLine.pair (line : FieldLine) : Bytes × Bytes := (line.name, line.value)

/-- The header block: the lines between the start line and the blank line. -/
def headerText (lines : List FieldLine) : Bytes := lines.flatMap FieldLine.text

/-- A word that the method keywords are compared with. -/
structure MethodWord (word : Bytes) (method : HttpMethod) : Prop where
  letters : ∀ c ∈ word, isLetter c = true
  named : method.name <+: word

/-- `http/d.d` in any letter case, where further letters may follow `http`. -/
inductive VersionText : Bytes → HttpVersion → Prop where
  | mk {word : Bytes} {major minor : Byte} {version : HttpVersion}
      (letters : ∀ c ∈ word, isLetter c = true)
      (named : httpLiteral <+: word.map toLower)
      (major_cases : major = 48 ∨ major = 49 ∨ major = 50)
      (minor_digit : isDigit minor = true)
      (supported : versionOfDigits (major.toNat - 48) (minor.toNat - 48) = .ok version) :
      VersionText (word ++ [slash, major, dot, minor]) version

inductive RequestLineText : Bytes → HttpMethod → Bytes → HttpVersion → Prop where
  | mk {word url versionText : Bytes} {method : HttpMethod} {version : HttpVersion}
      (methodWord : MethodWord word method)
      (url_nonempty : url ≠ [])
      (url_noSpace : ∀ c ∈ url, c ≠ space)
      (versionWord : VersionText versionText version) :
      RequestLineText (word ++ [space] ++ url ++ [space] ++ versionText ++ crlf)
        method url version

/-- The value of three decimal digits. -/
def codeOfDigits (a b c : Byte) : Int :=
  ((a.toNat - 48 : Int) * 10 + (b.toNat - 48)) * 10 + (c.toNat - 48)

inductive StatusLineText : Bytes → HttpVersion → Int → Bytes → Prop where
  | mk {versionText msg : Bytes} {a b c : Byte} {version : HttpVersion}
      (versionWord : VersionText versionText version)
      (first_digit : 49 ≤ a ∧ a ≤ 53)
      (second_digit : isDigit b = true)
      (third_digit : isDigit c = true)
      (msg_oneLine : ¬ crlf <:+: msg) :
      StatusLineText (versionText ++ [space] ++ [a, b, c] ++ [space] ++ msg ++ crlf)
        version (codeOfDigits a b c) msg

/-- `text` is a request with the given content. -/
inductive RequestText : Bytes → RequestMessage → Prop where
  | mk {line url body : Bytes} {method : HttpMethod} {version : HttpVersion}
      (requestLine : RequestLineText line method url version) (lines : List FieldLine) :
      RequestText (line ++ headerText lines ++ crlf ++ body)
        ⟨method, url, version, lines.map FieldLine.pair, body⟩

inductive ResponseText : Bytes → ResponseMessage → Prop where
  | mk {line msg body : Bytes} {version : HttpVersion} {code : Int}
      (statusLine : StatusLineText line version code msg) (lines : List FieldLine) :
      ResponseText (line ++ headerText lines ++ crlf ++ body)
        ⟨version, code, msg, lines.map FieldLine.pair, body⟩

theorem FieldLine.content_ne_nil (line : FieldLine) : line.content ≠ [] := by
  simp [FieldLine.content]

theorem colon_not_letter : isLetter colon = false := by decide

theorem not_newline_of_letter {c : Byte} (h : isLetter c = true) : c ≠ cr := by
  rintro rfl
  exact absurd h (by decide)

theorem not_newline_within {text : Bytes} (h : ∀ c ∈ text, c ≠ cr) : ¬ crlf <:+: text := by
  intro hin
  exact h cr (hin.subset List.mem_cons_self) rfl

/-- A pair of distinct bytes occurs in a concatenation only inside a part or
across the seam. -/
theorem crlf_infix_append {front back : Bytes} (hseam : ∀ c ∈ front, c ≠ cr)
    (hback : ¬ crlf <:+: back) : ¬ crlf <:+: front ++ back := by
  induction front with
  | nil => simpa using hback
  | cons c front ih =>
    rw [List.cons_append, List.infix_cons_iff, not_or]
    refine ⟨fun h => ?_, ih fun d hd => hseam d (List.mem_cons_of_mem c hd)⟩
    exact hseam c (by simp) (List.cons_prefix_cons.mp h).1.symm

/-- A header line ends at its first newline. -/
theorem FieldLine.content_oneLine (line : FieldLine) : ¬ crlf <:+: line.content := by
  have hsplit : line.content =
      (line.name ++ colon :: List.replicate line.padding space) ++ line.value := by
    simp [FieldLine.content]
  rw [hsplit]
  apply crlf_infix_append _ line.value_oneLine
  intro c hc
  simp only [List.mem_append, List.mem_cons, List.mem_replicate] at hc
  rcases hc with hc | rfl | ⟨-, rfl⟩
  · exact not_newline_of_letter (line.name_letters c hc)
  · decide
  · decide

@[simp] theorem headerText_cons (line : FieldLine) (lines : List FieldLine) :
    headerText (line :: lines) = line.text ++ headerText lines := rfl

/-- Every line takes a colon and a newline. -/
theorem length_headerText (lines : List FieldLine) :
    3 * lines.length ≤ (headerText lines).length := by
  induction lines with
  | nil => simp
  | cons line lines ih =>
    have : 3 ≤ line.text.length := by simp [FieldLine.text, FieldLine.content]; omega
    simp only [headerText_cons, List.length_append, List.length_cons]
    omega

end Net77.Http
