import Net77.Http.Scanners
import Net77.Http.Serialization
import Net77.Search

/-! `isValidHttpRequest` of `lib/http/request_misc.c`. -/
namespace Net77.Http

open Net77.Base

/-- `host[]`. Its size counts the NUL. -/
def host : Bytes := ascii ['h', 'o', 's', 't'] ++ [0]

/-- An iteration over the fields. -/
def findHost (foundHost : Bool) (field : HttpHeaderField) : Except Stop Bool :=
  if field.name.len = host.length then do
    let same ← strncmpEq host.length field.name.data host
    pure (if same then true else foundHost)
  else pure foundHost

/-- The two cases of a head that is text. -/
def rejectHost (data : Bytes) (len : Nat) : Except Stop Int := do
  let text ← window data 0 len
  match findAsciiSubstringCaseInsensitive text host with
  | some _ => pure 0
  | none => pure 1

def isValidHttpRequest (req : HttpRequest) : Except Stop Int :=
  if ¬ (req.version = .http09 ∨ req.version = .http10 ∨ req.version = .http11) ∧
      (req.method = .get ∨ req.method = .post ∨ req.method = .put ∨ req.method = .delete ∨
        req.method = .head ∨ req.method = .options ∨ req.method = .trace ∨
        req.method = .connect) then pure 0
  else if req.version = .http11 then
    match req.head with
    | .asString string => rejectHost string.data string.len
    | .asOwnedString ownedString => rejectHost ownedString.data ownedString.len
    | .asStruct hs => do
      let foundHost ← hs.fields.foldlM findHost false
      if foundHost then pure 1 else pure 0
  else pure 1

/-- The field's name is `host`, in any case. -/
def NamesHost (field : HttpHeaderField) : Prop :=
  field.name.bytes.map tolower = ascii ['h', 'o', 's', 't']

instance (field : HttpHeaderField) : Decidable (NamesHost field) :=
  inferInstanceAs (Decidable (field.name.bytes.map tolower = ascii ['h', 'o', 's', 't']))

/-- What the answer should be. -/
def hostAnswer (fields : List HttpHeaderField) : Int :=
  if ∃ field ∈ fields, NamesHost field then 1 else 0

/-- The forms in which a head holds a list of fields. -/
inductive HoldsFields (fields : List HttpHeaderField) : HttpHeader → Prop where
  | struct : HoldsFields fields (.asStruct ⟨fields⟩)
  | string {string : StringRef} (readable : string.Readable)
      (text : string.bytes = fieldsWire (fields.map HttpHeaderField.text)) :
      HoldsFields fields (.asString string)
  | ownedString {string : OwnedString} (readable : string.len ≤ string.data.length)
      (text : string.bytes = fieldsWire (fields.map HttpHeaderField.text)) :
      HoldsFields fields (.asOwnedString string)

/-- `host[]` occurs with its NUL, in any case. -/
def HostOccurs (text : Bytes) : Prop := host.map tolower <:+: text.map tolower

section Struct

/-- A word and its NUL are compared to the end. -/
theorem strncmpEq_terminated {word p : Bytes} (hzero : ∀ c ∈ word, c ≠ 0)
    (hlen : word.length < p.length) :
    strncmpEq (word.length + 1) p (word ++ [0]) = .ok (decide (word ++ [0] <+: p)) := by
  induction word generalizing p with
  | nil =>
    cases p with
    | nil => contradiction
    | cons a p =>
      rw [List.nil_append, List.length_nil, strncmpEq, readAt_cons_zero, ok_bind, readAt_cons_zero,
        ok_bind]
      by_cases ha : a = 0
      · subst ha
        simp
      · rw [if_pos ha]
        simp [Ne.symm ha]
  | cons b word ih =>
    cases p with
    | nil => contradiction
    | cons a p =>
      rw [List.cons_append, List.length_cons, strncmpEq, readAt_cons_zero, ok_bind,
        readAt_cons_zero, ok_bind]
      by_cases hab : a = b
      · subst hab
        have hrest := ih (p := p) (fun c hc => hzero c (List.mem_cons_of_mem a hc))
          (Nat.lt_of_succ_lt_succ hlen)
        rw [if_neg (not_not.mpr rfl), if_neg (hzero a List.mem_cons_self), List.tail_cons,
          List.tail_cons, hrest]
        simp [List.cons_prefix_cons]
      · rw [if_pos hab]
        simp [List.cons_prefix_cons, Ne.symm hab]

theorem findHost_eq {field : HttpHeaderField} (readable : field.Readable) (foundHost : Bool) :
    findHost foundHost field = .ok (foundHost || decide (field.name.bytes = host)) := by
  have hbytes := StringRef.length_bytes readable.1
  have hname : field.name.len ≤ field.name.data.length := readable.1
  unfold findHost
  by_cases hlen : field.name.len = host.length
  · have hcompare : strncmpEq host.length field.name.data host =
        .ok (decide (host <+: field.name.data)) :=
      @strncmpEq_terminated (ascii ['h', 'o', 's', 't']) field.name.data (by decide)
        (show 4 < field.name.data.length by rw [show host.length = 5 from rfl] at hlen; omega)
    have hiff : host <+: field.name.data ↔ field.name.bytes = host := by
      rw [List.prefix_iff_eq_take, ← hlen, eq_comm]
      rfl
    rw [if_pos hlen, hcompare, ok_bind]
    simp only [hiff]
    cases foundHost <;> cases decide (field.name.bytes = host) <;> rfl
  · have hne : field.name.bytes ≠ host := fun heq => hlen (by rw [← hbytes, heq])
    rw [if_neg hlen, decide_eq_false hne, Bool.or_false]
    rfl

theorem findHost_fold {fields : List HttpHeaderField} (readable : ∀ field ∈ fields, field.Readable)
    (foundHost : Bool) : fields.foldlM findHost foundHost =
      .ok (foundHost || decide (∃ field ∈ fields, field.name.bytes = host)) := by
  induction fields generalizing foundHost with
  | nil => simp
  | cons field fields ih =>
    rw [List.forall_mem_cons] at readable
    rw [List.foldlM_cons, findHost_eq readable.1, ok_bind, ih readable.2]
    simp [Bool.or_assoc]

end Struct

section Answers

variable {req : HttpRequest} {fields : List HttpHeaderField} {text : Bytes}

theorem hostAnswer_eq_one_iff : hostAnswer fields = 1 ↔ ∃ field ∈ fields, NamesHost field := by
  unfold hostAnswer
  split
  · rename_i hfound
    exact iff_of_true rfl hfound
  · rename_i hnone
    exact iff_of_false (by decide) hnone

theorem hostAnswer_eq_zero_iff :
    hostAnswer fields = 0 ↔ ¬ ∃ field ∈ fields, NamesHost field := by
  rw [← hostAnswer_eq_one_iff]
  unfold hostAnswer
  split
  · decide
  · decide

/-- A list of fields is accepted when one of them is named `host[]`. -/
theorem isValid_struct_right_iff (http11 : req.version = .http11)
    (readable : ∀ field ∈ fields, field.Readable) :
    isValidHttpRequest { req with head := .asStruct ⟨fields⟩ } = .ok (hostAnswer fields) ↔
      ((∃ field ∈ fields, field.name.bytes = host) ↔ ∃ field ∈ fields, NamesHost field) := by
  unfold isValidHttpRequest
  rw [if_neg (fun h => h.1 (.inr (.inr http11))), if_pos http11]
  dsimp only
  rw [findHost_fold readable, ok_bind, Bool.false_or]
  by_cases hfound : ∃ field ∈ fields, field.name.bytes = host
  · rw [decide_eq_true hfound, if_pos rfl, iff_true_left hfound, ← hostAnswer_eq_one_iff]
    exact ⟨fun h => (Except.ok.inj h).symm, fun h => congrArg Except.ok h.symm⟩
  · rw [decide_eq_false hfound, if_neg Bool.false_ne_true, iff_false_left hfound,
      ← hostAnswer_eq_zero_iff]
    exact ⟨fun h => (Except.ok.inj h).symm, fun h => congrArg Except.ok h.symm⟩

/-- Text is refused when `host[]` occurs in it. -/
theorem rejectHost_right_iff {data : Bytes} {len : Nat} (readable : len ≤ data.length) :
    rejectHost data len = .ok (hostAnswer fields) ↔
      (HostOccurs (data.take len) ↔ ¬ ∃ field ∈ fields, NamesHost field) := by
  have hwindow : window data 0 len = .ok (data.take len) := by
    unfold window
    rw [Nat.zero_add, if_pos readable, List.drop_zero]
    rfl
  unfold rejectHost HostOccurs
  rw [hwindow, ok_bind, find_eq_firstOccurrence]
  cases hfound : firstOccurrence (host.map tolower) ((data.take len).map tolower) with
  | none =>
    rw [iff_false_left (firstOccurrence_none.mp hfound), not_not, ← hostAnswer_eq_one_iff]
    exact ⟨fun h => (Except.ok.inj h).symm, fun h => congrArg Except.ok h.symm⟩
  | some i =>
    have hoccurs : host.map tolower <:+: (data.take len).map tolower := by
      by_contra hnone
      rw [firstOccurrence_none.mpr hnone] at hfound
      contradiction
    rw [iff_true_left hoccurs, ← hostAnswer_eq_zero_iff]
    exact ⟨fun h => (Except.ok.inj h).symm, fun h => congrArg Except.ok h.symm⟩

/-- A field named `host[]` puts it into the text. -/
theorem hostOccurs_of_name {field : HttpHeaderField} (hmem : field ∈ fields)
    (hname : field.name.bytes = host) :
    HostOccurs (fieldsWire (fields.map HttpHeaderField.text)) := by
  have hfield : field.text.1 ++ ([colon] ++ (field.text.2 ++ crlf)) <:+:
      fieldsWire (fields.map HttpHeaderField.text) := by
    unfold fieldsWire
    rw [List.flatMap_def, List.map_map]
    exact List.infix_of_mem_flatten (List.mem_map_of_mem hmem)
  have hstart : host <:+: field.text.1 ++ ([colon] ++ (field.text.2 ++ crlf)) := by
    rw [← hname]
    exact (List.prefix_append _ _).isInfix
  exact (hstart.trans hfield).map tolower

theorem isValid_string (http11 : req.version = .http11) (string : StringRef) :
    isValidHttpRequest { req with head := .asString string } =
      rejectHost string.data string.len := by
  unfold isValidHttpRequest
  rw [if_neg (fun h => h.1 (.inr (.inr http11))), if_pos http11]

theorem isValid_ownedString (http11 : req.version = .http11) (string : OwnedString) :
    isValidHttpRequest { req with head := .asOwnedString string } =
      rejectHost string.data string.len := by
  unfold isValidHttpRequest
  rw [if_neg (fun h => h.1 (.inr (.inr http11))), if_pos http11]

/-- Text is refused where it should be accepted, and fields are only accepted under a name
that puts `host[]` into the text. So a right answer is one that refuses, in all forms. -/
theorem host_check_iff (http11 : req.version = .http11)
    (readable : ∀ field ∈ fields, field.Readable) :
    (∀ head, HoldsFields fields head →
      isValidHttpRequest { req with head } = .ok (hostAnswer fields)) ↔
    (∀ field ∈ fields, ¬ NamesHost field ∧ field.name.bytes ≠ host) ∧
      HostOccurs (fieldsWire (fields.map HttpHeaderField.text)) := by
  have hnamed (h : ∃ field ∈ fields, field.name.bytes = host) :
      HostOccurs (fieldsWire (fields.map HttpHeaderField.text)) := by
    obtain ⟨field, hmem, hname⟩ := h
    exact hostOccurs_of_name hmem hname
  constructor
  · intro hright
    have hstruct := (isValid_struct_right_iff http11 readable).mp (hright _ .struct)
    generalize hwire : fieldsWire (fields.map HttpHeaderField.text) = wire at hnamed ⊢
    have hstring := hright (.asString ⟨wire.length, wire⟩)
      (.string (Nat.le_refl _) (by rw [hwire]; exact List.take_length))
    rw [isValid_string http11, rejectHost_right_iff (Nat.le_refl _), List.take_length] at hstring
    have hnone : ¬ ∃ field ∈ fields, NamesHost field :=
      fun hnames => hstring.mp (hnamed (hstruct.mpr hnames)) hnames
    exact ⟨fun field hmem => ⟨fun hnames => hnone ⟨field, hmem, hnames⟩,
      fun hname => hnone (hstruct.mp ⟨field, hmem, hname⟩)⟩, hstring.mpr hnone⟩
  · rintro ⟨hnames, hoccurs⟩ head hholds
    have hnone : ¬ ∃ field ∈ fields, NamesHost field :=
      fun ⟨field, hmem, hname⟩ => (hnames field hmem).1 hname
    cases hholds with
    | struct =>
      rw [isValid_struct_right_iff http11 readable]
      exact iff_of_false (fun ⟨field, hmem, hname⟩ => (hnames field hmem).2 hname) hnone
    | string hread text =>
      rw [← text] at hoccurs
      rw [isValid_string http11, rejectHost_right_iff hread]
      exact iff_of_true hoccurs hnone
    | ownedString hread text =>
      rw [← text] at hoccurs
      rw [isValid_ownedString http11, rejectHost_right_iff hread]
      exact iff_of_true hoccurs hnone

end Answers

section OneField

/-- A request with this name for its only field, which has no value. -/
def requestNaming (name : Bytes) : HttpRequest :=
  ⟨.get, ⟨1, [47]⟩, .http11, .asStruct ⟨[⟨⟨name.length, name⟩, ⟨0, []⟩⟩]⟩, ⟨0, []⟩⟩

/-- A longer name that ends in `host[]` is refused in every form. -/
theorem host_check_iff_longer :
    (∀ head, HoldsFields [⟨⟨6, 120 :: host⟩, ⟨0, []⟩⟩] head →
      isValidHttpRequest { requestNaming (120 :: host) with head } =
        .ok (hostAnswer [⟨⟨6, 120 :: host⟩, ⟨0, []⟩⟩])) ↔
    (∀ field ∈ [(⟨⟨6, 120 :: host⟩, ⟨0, []⟩⟩ : HttpHeaderField)],
      ¬ NamesHost field ∧ field.name.bytes ≠ host) ∧
      HostOccurs (fieldsWire ([(⟨⟨6, 120 :: host⟩, ⟨0, []⟩⟩ : HttpHeaderField)].map
        HttpHeaderField.text)) :=
  host_check_iff rfl (by decide)

/-- A request that names its host is refused, and its text is accepted. -/
theorem host_refused :
    isValidHttpRequest (requestNaming (ascii ['H', 'o', 's', 't'])) = .ok 0 ∧
      hostAnswer [⟨⟨4, ascii ['H', 'o', 's', 't']⟩, ⟨0, []⟩⟩] = 1 ∧
      isValidHttpRequest { requestNaming (ascii ['H', 'o', 's', 't']) with
        head := .asString ⟨7, ascii ['H', 'o', 's', 't', ':', '\r', '\n']⟩ } = .ok 1 ∧
      isValidHttpRequest { requestNaming [] with head := .asString ⟨0, []⟩ } = .ok 1 ∧
      hostAnswer [] = 0 := by
  decide

end OneField

end Net77.Http
