import Net77.Http.Framing
import Net77.Http.HeaderPasses
import Net77.Http.MessageParsing
import Net77.Http.NormalForm

/-! How the controller gets at the length of the body: from the digits behind the first
`Content-Length:` in the raw head, wherever in the head that text stands. -/
namespace Net77.Http

open Net77.Base

/-- The bytes that `strToUint` goes on over. -/
def isNumberByte (c : Byte) : Bool := isDigit c || isBlank c

/-- The digits that it computes with. -/
def readDigits (text : Bytes) : Bytes := (text.takeWhile isNumberByte).filter isDigit

/-- What it stops at. -/
def numberEnd (text : Bytes) : Bytes := text.dropWhile isNumberByte

section Number

variable {c : Byte} {rest : Bytes}

theorem readDigits_digit (hc : isDigit c = true) :
    readDigits (c :: rest) = c :: readDigits rest := by
  have hnumber : isNumberByte c = true := by simp [isNumberByte, hc]
  rw [readDigits, List.takeWhile_cons_of_pos hnumber, List.filter_cons_of_pos hc]
  rfl

theorem readDigits_blank (rest : Bytes) (hdigit : ¬ isDigit c = true) (hblank : isBlank c = true) :
    readDigits (c :: rest) = readDigits rest ∧ numberEnd (c :: rest) = numberEnd rest := by
  have hnumber : isNumberByte c = true := by simp [isNumberByte, hblank]
  constructor
  · rw [readDigits, List.takeWhile_cons_of_pos hnumber, List.filter_cons_of_neg hdigit]
    rfl
  · exact List.dropWhile_cons_of_pos hnumber

theorem readDigits_stop (rest : Bytes) (hc : ¬ isNumberByte c = true) :
    readDigits (c :: rest) = [] ∧ numberEnd (c :: rest) = c :: rest := by
  constructor
  · rw [readDigits, List.takeWhile_cons_of_neg hc]
    rfl
  · exact List.dropWhile_cons_of_neg hc

theorem strToUint_digit (hc : isDigit c = true) (rest : Bytes) (n : Nat) (legal : Bool) :
    strToUint (c :: rest) n legal =
      if 2 ^ 63 ≤ n * 10 + (c.toNat - 48) + 48 then .error (.fault .intOverflow)
      else strToUint rest (n * 10 + (c.toNat - 48) : Nat) true := by
  have hlow : 48 ≤ c.toNat := by
    simp only [isDigit, Bool.and_eq_true, decide_eq_true_eq, UInt8.le_iff_toNat_le] at hc
    exact hc.1
  rw [strToUint, if_pos hc]
  by_cases hfits : 2 ^ 63 ≤ n * 10 + (c.toNat - 48) + 48
  · rw [if_pos hfits, if_pos (by omega)]
  · rw [if_neg hfits, if_neg (by omega)]
    congr 1
    omega

theorem strToUint_stop (hc : ¬ isNumberByte c = true) (rest : Bytes) (out : Int) (legal : Bool) :
    strToUint (c :: rest) out legal = if legal = true then .ok (out, none) else .ok (-1, some c) := by
  simp only [isNumberByte, isBlank, Bool.or_eq_true, decide_eq_true_eq, not_or] at hc
  rw [strToUint, if_neg hc.1, if_neg fun h => h.elim hc.2.1 hc.2.2]
  cases legal <;> rfl

/-- The number that goes on from `n`: the digits between the blanks, if there are any and
they do not overflow. -/
theorem strToUint_eq (text : Bytes) (n : Nat) (legal : Bool) : strToUint text n legal =
    if readDigits text ≠ [] ∧ 2 ^ 63 ≤ decimalFrom n (readDigits text) + 48 then
      .error (.fault .intOverflow)
    else if legal = true ∨ readDigits text ≠ [] ∨ numberEnd text = [] then
      .ok (decimalFrom n (readDigits text), none)
    else .ok (-1, (numberEnd text).head?) := by
  induction text generalizing n legal with
  | nil => simp [strToUint, readDigits, numberEnd, decimalFrom]
  | cons c rest ih =>
    by_cases hdigit : isDigit c = true
    · have hvalue : decimalFrom n (c :: readDigits rest) =
          decimalFrom (n * 10 + (c.toNat - 48)) (readDigits rest) := rfl
      have hle := le_decimalFrom (n * 10 + (c.toNat - 48)) (readDigits rest)
      have hne : c :: readDigits rest ≠ [] := List.cons_ne_nil c _
      rw [strToUint_digit hdigit, readDigits_digit hdigit, hvalue, if_pos (Or.inr (Or.inl hne))]
      by_cases hfits : 2 ^ 63 ≤ n * 10 + (c.toNat - 48) + 48
      · rw [if_pos hfits, if_pos ⟨hne, by omega⟩]
      · rw [if_neg hfits, ih, if_pos (Or.inl rfl)]
        by_cases hnil : readDigits rest = []
        · rw [if_neg fun h => h.1 hnil, if_neg fun h => hfits ?_]
          rw [hnil] at h
          exact h.2
        · by_cases hover : 2 ^ 63 ≤
              decimalFrom (n * 10 + (c.toNat - 48)) (readDigits rest) + 48
          · rw [if_pos ⟨hnil, hover⟩, if_pos ⟨hne, hover⟩]
          · rw [if_neg fun h => hover h.2, if_neg fun h => hover h.2]
    · by_cases hblank : isBlank c = true
      · have hskip := strToUint_blanks (List.forall_mem_singleton.mpr hblank) rest n legal
        obtain ⟨hdigits, hend⟩ := readDigits_blank rest hdigit hblank
        rw [hdigits, hend, ← ih]
        exact hskip
      · have hstop : ¬ isNumberByte c = true := by simp [isNumberByte, hdigit, hblank]
        obtain ⟨hdigits, hend⟩ := readDigits_stop rest hstop
        rw [strToUint_stop hstop, hdigits, hend]
        cases legal with
        | false => rfl
        | true => rfl

end Number

section Head

variable {text field : Bytes}

/-- A head that has just been completed ends with an empty line. -/
theorem complete_suffix (complete : firstEnd endOfHeader text = some text.length) :
    endOfHeader <:+ text := by
  obtain ⟨i, hi, hlen⟩ := Option.map_eq_some_iff.mp complete
  obtain ⟨hmatch, -⟩ := firstOccurrence_some hi
  have heq : endOfHeader = text.drop i :=
    hmatch.eq_of_length (by rw [List.length_drop]; omega)
  rw [heq]
  exact List.drop_suffix i text

/-- The number behind a `Content-Length:` ends inside the head. -/
theorem lengthText_stops (complete : firstEnd endOfHeader text = some text.length)
    (found : lengthText text = some field) : numberEnd field ≠ [] := by
  obtain ⟨i, hfind, rfl⟩ := Option.map_eq_some_iff.mp found
  obtain ⟨front, matched, hsplit, -, hmatched⟩ := find_some hfind
  intro hend
  have hnumber : ∀ c ∈ text.drop (i + contentLengthHeaderName.length), isNumberByte c = true :=
    List.dropWhile_eq_nil_iff.mp hend
  have hname : ∀ c ∈ matched, c ≠ lf := by
    rintro c hc rfl
    have hlower : tolower lf ∈ contentLengthHeaderName.map tolower := by
      rw [← hmatched]
      exact List.mem_map_of_mem hc
    exact absurd hlower (by decide)
  -- the last byte of the head is behind the name or belongs to it
  have hlast : lf ∈ matched ++ text.drop (i + contentLengthHeaderName.length) := by
    have hne : matched ≠ [] := by
      rintro rfl
      exact absurd hmatched (by decide)
    obtain ⟨before, hbefore⟩ := complete_suffix complete
    have hgetLast := congrArg List.getLast? (hbefore.trans hsplit)
    rw [List.getLast?_append_of_ne_nil _ (by decide), List.getLast?_append_of_ne_nil _
      (List.append_ne_nil_of_left_ne_nil hne _)] at hgetLast
    exact List.mem_of_getLast? hgetLast.symm
  rcases List.mem_append.mp hlast with hin | hin
  · exact hname lf hin rfl
  · exact absurd (hnumber lf hin) (by decide)

/-- The call that completes the head goes on to its `Content-Length:`. -/
theorem controller_headEnd (complete : firstEnd endOfHeader text = some text.length)
    (og length maxLen : Int) (cap : Nat) :
    httpReceiveController (some text) cap text.length maxLen ⟨og, length, 11, 2⟩ =
      recvContentLength text text.length maxLen ⟨og, length, 11, 3⟩ := by
  have hsuffix := complete_suffix complete
  have hshort : ¬ (text.length < endOfHeader.length ∨
      getHeaderSize (text.drop (text.length - endOfHeader.length)) < 0) := by
    rw [← List.suffix_iff_eq_drop.mp hsuffix, not_or]
    exact ⟨Nat.not_lt.mpr hsuffix.length_le, by decide⟩
  show recvHeader text text.length maxLen ⟨og, length, 11, 2⟩ = _
  exact if_neg hshort

/-- The total of a body and its head, where `ssize_t` has it. -/
theorem addSsize_total (value size : Nat) : addSsize value size =
    if size + value < 2 ^ 63 then .ok (size + value : Nat) else .error (.fault .intOverflow) := by
  unfold addSsize
  by_cases hsum : size + value < 2 ^ 63
  · rw [if_pos hsum, if_pos (by omega), Int.add_comm]
    rfl
  · rw [if_neg hsum, if_neg (by omega)]

/-- The answer to the byte that completes the head. -/
theorem controller_answer (complete : firstEnd endOfHeader text = some text.length)
    (og length maxLen : Int) (cap : Nat) :
    httpReceiveController (some text) cap text.length maxLen ⟨og, length, 11, 2⟩ =
      match lengthText text with
      | none => .ok (maxLen, .rejectRequest, ⟨og, length, 11, 3⟩)
      | some field =>
        if readDigits field = [] then .ok (maxLen, .none, ⟨og, length, 11, 3⟩)
        else if decimalFrom 0 (readDigits field) + 48 < 2 ^ 63 ∧
            text.length + decimalFrom 0 (readDigits field) < 2 ^ 63 then
          .ok (optMin (text.length + decimalFrom 0 (readDigits field) : Nat) og, .none,
            ⟨og, decimalFrom 0 (readDigits field), 11, 999999⟩)
        else .error (.fault .intOverflow) := by
  rw [controller_headEnd complete, recvContentLength]
  cases found : findAsciiSubstringCaseInsensitive text contentLengthHeaderName with
  | none =>
    rw [lengthText, found]
    rfl
  | some line =>
    have hfield : lengthText text = some (text.drop (line + contentLengthHeaderName.length)) := by
      rw [lengthText, found]
      rfl
    have hstops := lengthText_stops complete hfield
    have hread := strToUint_eq (text.drop (line + contentLengthHeaderName.length)) 0 false
    rw [hfield]
    dsimp only
    generalize text.drop (line + contentLengthHeaderName.length) = field at hstops hread ⊢
    rw [show ((0 : Nat) : Int) = 0 from rfl] at hread
    rw [hread]
    by_cases hnil : readDigits field = []
    · rw [if_pos hnil, if_neg fun h => h.1 hnil, if_neg (by simp [hnil, hstops])]
      rfl
    · rw [if_neg hnil, if_pos (Or.inr (Or.inl hnil))]
      generalize decimalFrom 0 (readDigits field) = value
      by_cases hfits : 2 ^ 63 ≤ value + 48
      · rw [if_pos ⟨hnil, hfits⟩, if_neg (by omega)]
        rfl
      · rw [if_neg fun h => hfits h.2, ok_bind]
        dsimp only
        rw [if_pos ⟨Int.natCast_nonneg value, rfl⟩, getHeaderSize_eq, complete]
        dsimp only
        rw [if_pos (Int.natCast_nonneg text.length), addSsize_total]
        by_cases hsum : text.length + value < 2 ^ 63
        · rw [if_pos hsum, if_pos (by omega), ok_bind, Int.sub_self, Int.sub_zero]
          rfl
        · rw [if_neg hsum, if_neg (by omega)]
          rfl

end Head

section Law

def contentLengthName : Bytes :=
  ascii ['C', 'o', 'n', 't', 'e', 'n', 't', '-', 'L', 'e', 'n', 'g', 't', 'h']

/-- A header field of a response head. -/
structure HeadField where
  name : Bytes
  value : Bytes
  name_nonempty : name ≠ []
  name_plain : ∀ c ∈ name, c ≠ colon ∧ c ≠ cr ∧ c ≠ lf
  value_oneLine : ∀ c ∈ value, c ≠ cr ∧ c ≠ lf

def HeadField.content (field : HeadField) : Bytes := field.name ++ colon :: field.value

/-- The whole name, in any letter case. -/
def HeadField.isContentLength (field : HeadField) : Bool :=
  field.name.map tolower == contentLengthName.map tolower

/-- The head of an HTTP/1.1 response. -/
structure ResponseHead where
  statusLine : Bytes
  fields : List HeadField
  statusLine_version : ascii ['H', 'T', 'T', 'P', '/', '1', '.', '1', ' '] <+: statusLine
  statusLine_oneLine : ∀ c ∈ statusLine, c ≠ cr ∧ c ≠ lf

def ResponseHead.lines (head : ResponseHead) : List Bytes :=
  head.statusLine :: head.fields.map HeadField.content

def ResponseHead.text (head : ResponseHead) : Bytes := linesText head.lines ++ crlf

/-- The number that a plain run of digits denotes. -/
def plainNumber (digits : Bytes) : Option Nat :=
  if digits ≠ [] ∧ ∀ c ∈ digits, isDigit c = true then some (decimalFrom 0 digits) else none

/-- The value of the first field with the name, without its leading spaces. -/
def declaredLength (fields : List HeadField) : Option Nat :=
  (fields.find? HeadField.isContentLength).bind fun field =>
    plainNumber (field.value.dropWhile (· = space))

/-- The total is that of the declared length, or the response is rejected for want of one. -/
def LengthLaw (head : ResponseHead) (og : Int) :
    Except Stop (Int × RecvAction × HttpReceiveControllerState) → Prop := fun answer =>
  match declaredLength head.fields with
  | some value =>
    answer = .ok (optMin (head.text.length + value : Nat) og, .none, ⟨og, value, 11, 999999⟩)
  | none => ∃ maxLen st, answer = .ok (maxLen, .rejectRequest, st)

/-- The text `Content-Length:` does not occur in the head, or the digits behind its first
occurrence are those that are declared, and the sum is in range. -/
def LengthFound (head : ResponseHead) : Prop :=
  lengthText head.text = none ∨
    ∃ field value, lengthText head.text = some field ∧ declaredLength head.fields = some value ∧
      readDigits field ≠ [] ∧ decimalFrom 0 (readDigits field) = value ∧ value + 48 < 2 ^ 63 ∧
      head.text.length + value < 2 ^ 63

theorem HeadField.content_oneLine (field : HeadField) : ∀ c ∈ field.content, c ≠ cr := by
  intro c hc
  rcases List.mem_append.mp hc with hname | hrest
  · exact (field.name_plain c hname).2.1
  · rcases List.mem_cons.mp hrest with rfl | hvalue
    · decide
    · exact (field.value_oneLine c hvalue).1

namespace ResponseHead

theorem lines_nonempty (head : ResponseHead) : ∀ line ∈ head.lines, line ≠ [] := by
  intro line hline
  rcases List.mem_cons.mp hline with rfl | hfield
  · intro hnil
    have hle := head.statusLine_version.length_le
    rw [hnil] at hle
    exact absurd hle (by decide)
  · obtain ⟨field, -, rfl⟩ := List.mem_map.mp hfield
    exact List.append_ne_nil_of_right_ne_nil _ (List.cons_ne_nil colon field.value)

theorem lines_free (head : ResponseHead) : ∀ line ∈ head.lines, ¬ crlf <:+: line := by
  intro line hline
  apply not_newline_within
  rcases List.mem_cons.mp hline with rfl | hfield
  · intro c hc
    exact (head.statusLine_oneLine c hc).1
  · obtain ⟨field, -, rfl⟩ := List.mem_map.mp hfield
    exact field.content_oneLine

/-- The head is complete with its last byte. -/
theorem complete (head : ResponseHead) :
    firstEnd endOfHeader head.text = some head.text.length := by
  obtain ⟨front, hfront, hfirst⟩ := firstOccurrence_blank cr_ne_lf [] head.lines
    (List.cons_ne_nil _ _) head.lines_nonempty head.lines_free
  have htext : head.text = front ++ crlf ++ crlf := by
    rw [text, linesText, ← hfront]
  rw [firstEnd]
  have hplace : firstOccurrence endOfHeader head.text = some front.length := hfirst
  rw [hplace, htext, Option.map_some, List.length_append, List.length_append]
  rfl

/-- Its last byte finds the controller in the head of an HTTP/1.1 message. -/
theorem phase (head : ResponseHead) (og length : Int) :
    Phase og head.text.dropLast ⟨og, length, 11, 2⟩ (nextByte head.text.dropLast.length og) := by
  have hfree := head.lines_free head.statusLine List.mem_cons_self
  have hsplit : head.text.dropLast = head.statusLine ++ (crlf ++
      (joinLines cr lf (head.fields.map HeadField.content) ++ crlf).dropLast) := by
    rw [text, linesText, lines, joinLines_cons, List.append_assoc, List.append_assoc,
      List.dropLast_append_of_ne_nil (by simp), List.dropLast_append_of_ne_nil (by simp)]
  have hline : FirstLine head.text.dropLast .http11 := by
    obtain ⟨more, hmore⟩ := head.statusLine_version
    have hword : Consumes ⟨head.statusLine.length + 2, head.statusLine ++ crlf⟩
        HttpVersion.http11.name ⟨1 + more.length + 2, space :: more ++ crlf⟩ := by
      constructor
      · rw [← hmore]
        rfl
      · rw [← hmore, List.length_append]
        show 9 + more.length + 2 = 8 + (1 + more.length + 2)
        omega
    refine ⟨head.statusLine.length + 2, ⟨1 + more.length + 2, space :: more ++ crlf⟩, ?_, ?_⟩
    · rw [hsplit, firstEnd, firstOccurrence_line_end cr_ne_lf hfree]
      rfl
    · have htake : head.text.dropLast.take (head.statusLine.length + 2) =
          head.statusLine ++ crlf := by
        rw [hsplit, List.take_length_add_append]
        rfl
      rw [htake]
      exact parseHttpVersion_complete hword (versionText_name .http11) rfl (by simp) (by decide)
        (by decide)
  refine .head hline ?_
  by_contra hsome
  obtain ⟨n, hn⟩ := Option.ne_none_iff_exists'.mp hsome
  obtain ⟨hend, -⟩ := firstEnd_mono hn (List.dropLast_prefix head.text)
  have hle := (firstEnd_some hn).1
  have hpos := (firstEnd_some head.complete).2
  have hfour : endOfHeader.length = 4 := rfl
  rw [head.complete, Option.some.injEq] at hend
  rw [List.length_dropLast] at hle
  omega

/-- A declared length is announced somewhere in the text. -/
theorem undeclared (head : ResponseHead) (h : lengthText head.text = none) :
    declaredLength head.fields = none := by
  rw [lengthText, Option.map_eq_none_iff, find_eq_firstOccurrence, firstOccurrence_none] at h
  unfold declaredLength
  rw [Option.bind_eq_none_iff]
  intro field hfield
  exfalso
  apply h
  have hnamed : field.isContentLength = true := List.find?_some hfield
  have hname : field.name.map tolower = contentLengthName.map tolower := eq_of_beq hnamed
  have hneedle : contentLengthHeaderName.map tolower = (field.name ++ [colon]).map tolower := by
    rw [List.map_append, hname]
    rfl
  have hline : field.name ++ [colon] <:+: head.text := by
    obtain ⟨front, back, hlines⟩ := List.append_of_mem
      (List.mem_cons_of_mem head.statusLine
        (List.mem_map_of_mem (f := HeadField.content) (List.mem_of_find?_eq_some hfield)))
    refine ⟨joinLines cr lf front, field.value ++ (crlf ++ joinLines cr lf back) ++ crlf, ?_⟩
    rw [text, linesText, lines, hlines, joinLines_append, joinLines_cons, HeadField.content]
    simp
  rw [hneedle]
  exact hline.map tolower

end ResponseHead

variable {head : ResponseHead} {og : Int}

/-- The controller does not wait for a value that is there. -/
theorem not_lengthLaw_waiting (maxLen length : Int) :
    ¬ LengthLaw head og (.ok (maxLen, .none, ⟨og, length, 11, 3⟩)) := by
  unfold LengthLaw
  cases declaredLength head.fields with
  | none =>
    rintro ⟨maxLen', st, hanswer⟩
    cases hanswer
  | some value =>
    intro hanswer
    cases hanswer

theorem not_lengthLaw_fault (stop : Stop) : ¬ LengthLaw head og (.error stop) := by
  unfold LengthLaw
  cases declaredLength head.fields with
  | none =>
    rintro ⟨maxLen', st, hanswer⟩
    cases hanswer
  | some value =>
    intro hanswer
    cases hanswer

theorem lengthLaw_settled_iff (total : Nat) :
    LengthLaw head og (.ok (optMin (head.text.length + total : Nat) og, .none,
      ⟨og, total, 11, 999999⟩)) ↔ declaredLength head.fields = some total := by
  unfold LengthLaw
  cases declaredLength head.fields with
  | none =>
    apply iff_of_false
    · rintro ⟨maxLen', st, hanswer⟩
      cases hanswer
    · intro hsome
      cases hsome
  | some value =>
    constructor
    · intro hanswer
      have hstate := congrArg HttpReceiveControllerState.contentLength
        (Prod.mk.inj (Prod.mk.inj (Except.ok.inj hanswer)).2).2
      rw [Int.ofNat_inj.mp hstate]
    · intro hvalue
      rw [Option.some.inj hvalue]

end Law

/-- The controller follows the fields of a head if and only if the text that it searches
for occurs first where the length is declared, or nowhere. -/
theorem content_length_law_iff (head : ResponseHead) (og length maxLen : Int) (cap : Nat) :
    LengthLaw head og (httpReceiveController (some head.text) cap head.text.length maxLen
      ⟨og, length, 11, 2⟩) ↔ LengthFound head := by
  rw [controller_answer head.complete]
  unfold LengthFound
  cases hfound : lengthText head.text with
  | none =>
    have hlaw : LengthLaw head og (.ok (maxLen, .rejectRequest, ⟨og, length, 11, 3⟩)) := by
      rw [LengthLaw, head.undeclared hfound]
      exact ⟨maxLen, _, rfl⟩
    exact iff_of_true hlaw (.inl rfl)
  | some field =>
    dsimp only
    by_cases hnil : readDigits field = []
    · rw [if_pos hnil]
      apply iff_of_false (not_lengthLaw_waiting maxLen length)
      rintro (hnone | ⟨field', value, hfield, -, hdigits, -⟩)
      · cases hnone
      · cases hfield
        exact hdigits hnil
    · rw [if_neg hnil]
      by_cases hfits : decimalFrom 0 (readDigits field) + 48 < 2 ^ 63 ∧
          head.text.length + decimalFrom 0 (readDigits field) < 2 ^ 63
      · rw [if_pos hfits, lengthLaw_settled_iff]
        constructor
        · intro hdeclared
          exact .inr ⟨field, _, rfl, hdeclared, hnil, rfl, hfits⟩
        · rintro (hnone | ⟨field', value, hfield, hdeclared, -, hvalue, -⟩)
          · cases hnone
          · cases hfield
            rw [hdeclared, hvalue]
      · rw [if_neg hfits]
        apply iff_of_false (not_lengthLaw_fault _)
        rintro (hnone | ⟨field', value, hfield, -, -, rfl, hsmall⟩)
        · cases hnone
        · cases hfield
          exact hfits hsmall

/-- `X-Content-Length` in front of `Content-Length`. -/
def shadowedHead : ResponseHead where
  statusLine := ascii ['H', 'T', 'T', 'P', '/', '1', '.', '1', ' ', '2', '0', '0', ' ', 'O', 'K']
  fields := [
    { name := ascii ['X', '-'] ++ contentLengthName
      value := ascii [' ', '7']
      name_nonempty := by decide
      name_plain := by decide
      value_oneLine := by decide },
    { name := contentLengthName
      value := ascii [' ', '2']
      name_nonempty := by decide
      name_plain := by decide
      value_oneLine := by decide }]
  statusLine_version := by decide
  statusLine_oneLine := by decide

/-- The number of the other field is taken. -/
theorem shadowedHead_breaks_law : ¬ LengthLaw shadowedHead (-1)
    (httpReceiveController (some shadowedHead.text) 64 shadowedHead.text.length
      shadowedHead.text.length ⟨-1, 0, 11, 2⟩) := by
  intro hlaw
  have hanswer : httpReceiveController (some shadowedHead.text) 64 shadowedHead.text.length
      shadowedHead.text.length ⟨-1, 0, 11, 2⟩ = .ok (66, .none, ⟨-1, 7, 11, 999999⟩) := by
    decide
  rw [hanswer] at hlaw
  cases hlaw

section Bounds

/-- The total is the one of the number in the head, or the response is rejected. -/
def TotalBounded (text : Bytes) (value : Nat) (og : Int) :
    Except Stop (Int × RecvAction × HttpReceiveControllerState) → Prop := fun answer =>
  answer = .ok (optMin (text.length + value : Nat) og, .none, ⟨og, value, 11, 999999⟩) ∨
    ∃ maxLen st, answer = .ok (maxLen, .rejectRequest, st)

/-- The digits of a value are the ones that are read. -/
theorem LengthValue.digits {field : Bytes} {value : Nat} (h : LengthValue field value) :
    readDigits field ≠ [] ∧ decimalFrom 0 (readDigits field) = value := by
  obtain ⟨before, digits, after, rest, rfl, hbefore, hdigits, hne, hafter, rfl⟩ := h
  have hrun : ∀ c ∈ before ++ (digits ++ after), isNumberByte c = true := by
    intro c hc
    unfold isNumberByte
    rcases List.mem_append.mp hc with hin | hin
    · rw [hbefore c hin, Bool.or_true]
    · rcases List.mem_append.mp hin with hin | hin
      · rw [hdigits c hin, Bool.true_or]
      · rw [hafter c hin, Bool.or_true]
  have hnot : ∀ c, isBlank c = true → ¬ isDigit c = true := by
    intro c hblank
    rcases (show c = space ∨ c = tab by simpa [isBlank] using hblank) with rfl | rfl <;> decide
  have hread : readDigits (before ++ (digits ++ (after ++ cr :: rest))) = digits := by
    have hsplit : before ++ (digits ++ (after ++ cr :: rest)) =
        before ++ (digits ++ after) ++ cr :: rest := by
      simp only [List.append_assoc]
    rw [readDigits, hsplit, takeWhile_run hrun (by decide), List.filter_append, List.filter_append,
      List.filter_eq_nil_iff.mpr fun c hc => hnot c (hbefore c hc),
      List.filter_eq_self.mpr hdigits,
      List.filter_eq_nil_iff.mpr fun c hc => hnot c (hafter c hc), List.append_nil,
      List.nil_append]
  rw [hread]
  exact ⟨hne, rfl⟩

/-- The number of a head is used as it is if and only if it is below `2^63 - 48` and does
not leave `ssize_t` together with the size of the head. No number is rejected. -/
theorem total_bounded_iff {text : Bytes} {value : Nat}
    (complete : firstEnd endOfHeader text = some text.length) (announced : Announces text value)
    (og length maxLen : Int) (cap : Nat) :
    TotalBounded text value og
        (httpReceiveController (some text) cap text.length maxLen ⟨og, length, 11, 2⟩) ↔
      value + 48 < 2 ^ 63 ∧ text.length + value < 2 ^ 63 := by
  obtain ⟨field, found, hvalue⟩ := announced
  obtain ⟨hdigits, rfl⟩ := hvalue.digits
  rw [controller_answer complete, found]
  dsimp only
  rw [if_neg hdigits]
  generalize decimalFrom 0 (readDigits field) = value
  by_cases hfits : value + 48 < 2 ^ 63 ∧ text.length + value < 2 ^ 63
  · rw [if_pos hfits]
    exact iff_of_true (.inl rfl) hfits
  · rw [if_neg hfits]
    apply iff_of_false _ hfits
    rintro (hanswer | ⟨maxLen', st, hanswer⟩)
    · cases hanswer
    · cases hanswer

theorem total_bounded_iff_greeting :
    TotalBounded (greeting.take 38) 2 100
        (httpReceiveController (some (greeting.take 38)) 64 (greeting.take 38).length 38
          ⟨100, 0, 11, 2⟩) ↔
      2 + 48 < 2 ^ 63 ∧ (greeting.take 38).length + 2 < 2 ^ 63 :=
  total_bounded_iff (by decide) ⟨_, rfl, [space], [50], [], [lf, cr, lf], by decide⟩ 100 0 38 64

/-- A head whose number is `2^63`. -/
def hugeLengthHead : Bytes :=
  ascii ['H', 'T', 'T', 'P', '/', '1', '.', '1', ' ', '2', '0', '0', ' ', 'O', 'K'] ++ crlf ++
    contentLengthHeaderName ++ ascii ['9', '2', '2', '3', '3', '7', '2', '0', '3', '6', '8', '5',
      '4', '7', '7', '5', '8', '0', '8'] ++ crlf ++ crlf

/-- The accumulation overflows, and nothing is rejected. -/
theorem hugeLength_not_bounded : ¬ TotalBounded hugeLengthHead (2 ^ 63) (-1)
    (httpReceiveController (some hugeLengthHead) 64 hugeLengthHead.length hugeLengthHead.length
      ⟨-1, 0, 11, 2⟩) := by
  have hanswer : httpReceiveController (some hugeLengthHead) 64 hugeLengthHead.length
      hugeLengthHead.length ⟨-1, 0, 11, 2⟩ = .error (.fault .intOverflow) := by
    decide
  rw [hanswer]
  rintro (hbounded | ⟨maxLen, st, hreject⟩)
  · cases hbounded
  · cases hreject

end Bounds

end Net77.Http
