import Net77.Http.ControllerLimit
import Net77.Http.MessageBounds
import Net77.Search

/-! The controller with its reads of the buffer. The buffer ends with the last byte that
was received, so that a read at an index from `n` on is a read outside. -/
namespace Net77.Http

open Net77.Base

/-- `strToUint` with `p` as an index, and `todo` bytes in front of `end`. -/
def strToUintReading (buf : Bytes) : (todo p : Nat) → (out : Int) → (hasFoundLegal : Bool) →
    Except Stop (Int × Option Byte)
  | 0, _, out, _ => pure (out, none)
  | todo + 1, p, out, hasFoundLegal => do
    let c ← readAt buf p
    if isDigit c then strToUintReading buf todo (p + 1) (toSsize (out * 10 + c.toNat - 48)) true
    else if c = space ∨ c = tab then strToUintReading buf todo (p + 1) out hasFoundLegal
    else if !hasFoundLegal then pure (-1, some c)
    else pure (out, none)

def getHeaderSizeReading (buf : Bytes) (headerBegin n : Nat) : Except Stop Int := do
  let header ← window buf headerBegin n
  match ← findReading header endOfHeader with
  | some eoh => pure (eoh + endOfHeader.length)
  | none => pure (-1)

/-- `case 1`. -/
def recvFirstLineReading (buf : Bytes) (n : Nat) (st : HttpReceiveControllerState) :
    Except Stop (Int × RecvAction × HttpReceiveControllerState) := do
  let maxLen := nextByte n st.ogMaxLen
  let text ← window buf 0 n
  match ← findReading text headerFieldDelimiter with
  | none => pure (maxLen, .none, st)
  | some _ =>
    match parseHttpVersion ⟨n, buf⟩ with
    | .error (.status _) =>
      pure (maxLen, .rejectRequest, { st with httpVersion := HttpVersion.http09.value })
    | .error stop => .error stop
    | .ok (v, _) =>
      let st := { st with httpVersion := v.value, phase := st.phase + 1 }
      if v = .http09 ∨ v = .http10 then pure (st.ogMaxLen, .none, st)
      else pure (maxLen, .none, st)

/-- `case 113`. -/
def recvContentLengthReading (buf : Bytes) (n : Nat) (maxLen : Int)
    (st : HttpReceiveControllerState) :
    Except Stop (Int × RecvAction × HttpReceiveControllerState) := do
  let text ← window buf 0 n
  match ← findReading text contentLengthHeaderName with
  | none => pure (maxLen, .rejectRequest, st)
  | some line =>
    let line := line + contentLengthHeaderName.length
    if n < line then .error (.fault .assertFailed)
    else
      let (contentLength, terminator) ← strToUintReading buf (n - line) line 0 false
      if 0 ≤ contentLength ∧ terminator.getD cr = cr then
        let st := { st with contentLength }
        let headerSize ← getHeaderSizeReading buf 0 n
        if 0 ≤ headerSize then
          let overshot := n - headerSize
          pure (optMin (toSsize (contentLength + headerSize - overshot)) st.ogMaxLen, .none,
            { st with phase := 999999 })
        else pure (maxLen, .none, { st with phase := st.phase + 1 })
      else pure (maxLen, .none, st)

/-- `case 112`. The offset is a `size_t`, and so is what is left of `n` behind it. -/
def recvHeaderReading (buf : Bytes) (n : Nat) (maxLen : Int) (st : HttpReceiveControllerState) :
    Except Stop (Int × RecvAction × HttpReceiveControllerState) :=
  let offset := toSize (n - initBatchRecvSize - endOfHeader.length + 1)
  if n < endOfHeader.length then pure (nextByte n st.ogMaxLen, .none, st)
  else do
    let size ← getHeaderSizeReading buf offset (toSize (n - offset))
    if size < 0 then pure (nextByte n st.ogMaxLen, .none, st)
    else recvContentLengthReading buf n maxLen { st with phase := st.phase + 1 }

/-- `case 114`. -/
def recvBodyReading (buf : Bytes) (n : Nat) (maxLen : Int) (st : HttpReceiveControllerState) :
    Except Stop (Int × RecvAction × HttpReceiveControllerState) := do
  let headerSize ← getHeaderSizeReading buf 0 n
  if 0 ≤ headerSize then
    pure (optMin (toSsize (st.contentLength + headerSize)) st.ogMaxLen, .none,
      { st with phase := st.phase + 1 })
  else pure (maxLen, .rejectRequest, st)

/-- The other cases read nothing. -/
def httpReceiveControllerReading : RecvController HttpReceiveControllerState :=
  fun buf cap n maxLen st =>
    match buf with
    | none => .error (.fault .assertFailed)
    | some buf =>
      match st.httpVersion * 10 + st.phase with
      | 1 => recvFirstLineReading buf n st
      | 112 => recvHeaderReading buf n maxLen st
      | 113 => recvContentLengthReading buf n maxLen st
      | 114 => recvBodyReading buf n maxLen st
      | _ => httpReceiveController (some buf) cap n maxLen st

section Agreement

variable {buf : Bytes}

theorem window_whole (buf : Bytes) : window buf 0 buf.length = .ok buf := by
  unfold window
  rw [if_pos (Nat.zero_add buf.length).le, List.drop_zero, List.take_length]
  rfl

theorem getHeaderSizeReading_eq {start n : Nat} {text : Bytes}
    (h : window buf start n = .ok text) :
    getHeaderSizeReading buf start n = .ok (getHeaderSize text) := by
  unfold getHeaderSizeReading getHeaderSize
  rw [h, ok_bind, findReading_eq, ok_bind]
  cases findAsciiSubstringCaseInsensitive text endOfHeader <;> rfl

/-- The number is read up to the end of the buffer at most. -/
theorem strToUintReading_eq (todo p : Nat) (out : Int) (legal : Bool)
    (h : p + todo = buf.length) :
    strToUintReading buf todo p out legal = .ok (strToUintWrapping (buf.drop p) out legal) := by
  induction todo generalizing p out legal with
  | zero =>
    rw [List.drop_of_length_le (by omega)]
    rfl
  | succ todo ih =>
    obtain ⟨c, rest, hdrop⟩ := List.exists_cons_of_length_pos
      (show 0 < (buf.drop p).length by rw [List.length_drop]; omega)
    have hrest : buf.drop (p + 1) = rest := by
      rw [← List.drop_drop, hdrop, List.drop_one, List.tail_cons]
    rw [strToUintReading, readAt_drop hdrop, ok_bind, hdrop, strToUintWrapping,
      ih (p + 1) _ _ (by omega), ih (p + 1) _ _ (by omega), hrest]
    repeat' split
    all_goals rfl

theorem recvFirstLineReading_eq (buf : Bytes) (st : HttpReceiveControllerState) :
    recvFirstLineReading buf buf.length st = recvFirstLine buf buf.length st := by
  unfold recvFirstLineReading recvFirstLine
  dsimp only
  rw [window_whole, ok_bind, findReading_eq]
  cases findAsciiSubstringCaseInsensitive buf headerFieldDelimiter with
  | none => rfl
  | some i => rfl

theorem recvContentLengthReading_eq (buf : Bytes) (maxLen : Int)
    (st : HttpReceiveControllerState) :
    recvContentLengthReading buf buf.length maxLen st =
      recvContentLengthWrapping buf buf.length maxLen st := by
  unfold recvContentLengthReading recvContentLengthWrapping
  rw [window_whole, ok_bind, findReading_eq, ok_bind]
  cases hfind : findAsciiSubstringCaseInsensitive buf contentLengthHeaderName with
  | none => rfl
  | some line =>
    have hline := contentLength_line_le hfind
    dsimp only
    rw [if_neg (Nat.not_lt.mpr hline), if_neg (Nat.not_lt.mpr hline),
      strToUintReading_eq _ _ 0 false (Nat.add_sub_of_le hline), ok_bind,
      getHeaderSizeReading_eq (window_whole buf)]
    dsimp only [ok_bind]

/-- Behind the test of `n` the offset is in the buffer, and so is the window. -/
theorem recvHeaderReading_eq (memory : buf.length < 2 ^ 64) (maxLen : Int)
    (st : HttpReceiveControllerState) :
    recvHeaderReading buf buf.length maxLen st = recvHeaderWrapping buf buf.length maxLen st := by
  unfold recvHeaderReading recvHeaderWrapping
  dsimp only
  by_cases hshort : buf.length < endOfHeader.length
  · rw [if_pos hshort, if_pos (.inl hshort)]
  · have hfour : endOfHeader.length = 4 := rfl
    have hoffset : toSize (buf.length - initBatchRecvSize - endOfHeader.length + 1) =
        buf.length - endOfHeader.length := by
      unfold toSize initBatchRecvSize
      omega
    have hleft : toSize (buf.length - (buf.length - endOfHeader.length : Nat)) =
        endOfHeader.length := by
      unfold toSize
      omega
    have hwindow : window buf (buf.length - endOfHeader.length) endOfHeader.length =
        .ok (buf.drop (buf.length - endOfHeader.length)) := by
      unfold window
      rw [if_pos (by omega), List.take_of_length_le (by rw [List.length_drop]; omega)]
      rfl
    rw [if_neg hshort, hoffset, hleft, getHeaderSizeReading_eq hwindow, ok_bind]
    simp only [hshort, false_or, recvContentLengthReading_eq]

theorem recvBodyReading_eq (buf : Bytes) (maxLen : Int) (st : HttpReceiveControllerState) :
    recvBodyReading buf buf.length maxLen st = .ok (recvBodyWrapping buf maxLen st) := by
  unfold recvBodyReading recvBodyWrapping
  rw [getHeaderSizeReading_eq (window_whole buf), ok_bind]
  dsimp only
  split <;> rfl

/-- The reads of a buffer change nothing. -/
theorem controllerReading_eq (memory : buf.length < 2 ^ 64) (cap : Nat) (maxLen : Int)
    (st : HttpReceiveControllerState) :
    httpReceiveControllerReading (some buf) cap buf.length maxLen st =
      httpReceiveControllerWrapping (some buf) cap buf.length maxLen st := by
  unfold httpReceiveControllerReading httpReceiveControllerWrapping
  dsimp only
  split
  · rename_i hkey
    rw [recvFirstLineReading_eq]
    simp only [hkey, httpReceiveController]
  · rename_i hkey
    rw [recvHeaderReading_eq memory]
    simp only [hkey]
  · rename_i hkey
    rw [recvContentLengthReading_eq]
    simp only [hkey]
  · rename_i hkey
    rw [recvBodyReading_eq]
    simp only [hkey, pure_eq_ok]
  · rename_i h1 h112 h113 h114
    split <;> first | contradiction | rfl

end Agreement

section Inside

variable {α : Type} {str mid : StringRef}

/-- Nothing outside an object is read. -/
def ReadsInside (result : Except Stop α) : Prop := Avoids (· = .fault .outOfBounds) result

theorem StaysInside.reads {result : Except Stop α} (h : StaysInside result) :
    ReadsInside result := by
  cases result with
  | ok a => exact avoids_ok a
  | error stop => exact fun hstop => h (.inl hstop)

theorem scanWhile_reads {p : Byte → Bool} {data : Bytes} {len i : Nat} (h : data.length = len) :
    ReadsInside (scanWhile p data len i) := by
  fun_induction scanWhile p data len i with
  | case1 => exact avoids_ok _
  | case2 => contradiction
  | case3 =>
    intro hstop
    contradiction
  | case4 c data len i hc hi ih => exact ih (Nat.succ_injective h)
  | case5 => exact avoids_ok _

theorem parseRun_reads (p : Byte → Bool) (h : str.Whole) : ReadsInside (parseRun p str) := by
  unfold parseRun
  refine avoids_bind.mpr ⟨scanWhile_reads h, fun i _ => ?_⟩
  split
  · exact avoids_ok _
  · exact avoids_ok _

theorem parseVersionDigits_reads (h : str.Whole) : ReadsInside (parseVersionDigits str) := by
  unfold parseVersionDigits
  refine avoids_bind.mpr ⟨(expectChar_inside slash h).reads, fun s1 hslash => ?_⟩
  have h1 := expectChar_whole h hslash
  refine avoids_bind.mpr ⟨parseRun_reads isDigit h1, fun ⟨major, s2⟩ hmajor => ?_⟩
  obtain ⟨h2, hdata, hlen⟩ := parseRun_whole h1 hmajor
  refine avoids_bind.mpr ⟨(majorDigit_inside (hdata ▸ hlen)).reads, fun maj _ => ?_⟩
  refine avoids_bind.mpr ⟨(expectChar_inside dot h2).reads, fun s3 hdot => ?_⟩
  have h3 := expectChar_whole h2 hdot
  refine avoids_bind.mpr ⟨parseRun_reads isDigit h3, fun ⟨minor, s4⟩ hminor => ?_⟩
  obtain ⟨h4, hdata', hlen'⟩ := parseRun_whole h3 hminor
  refine avoids_bind.mpr ⟨(minorDigit_inside (hdata' ▸ hlen')).reads, fun min _ => ?_⟩
  exact avoids_bind.mpr ⟨(versionOfDigits_inside maj min).reads, fun v _ => avoids_ok _⟩

/-- A text with a newline in it does not end inside the keyword. -/
theorem not_endsInside_of_newline {data : Bytes} (h : cr ∈ data) :
    ¬ EndsInside (data.map toLower) httpLiteral := by
  rintro ⟨hstart, -⟩
  have hmem : toLower cr ∈ httpLiteral := hstart.subset (List.mem_map_of_mem h)
  exact absurd hmem (by decide)

/-- With a newline in the text, the version parser finds the end of every comparison. -/
theorem parseHttpVersion_reads (h : str.Whole) (hnewline : cr ∈ str.data) :
    ReadsInside (parseHttpVersion str) := by
  rw [parseHttpVersion_eq]
  refine avoids_bind.mpr ⟨parseRun_reads isLetter h, fun ⟨http, mid⟩ hword => ?_⟩
  obtain ⟨hmid, hdata, -⟩ := parseRun_whole h hword
  dsimp only
  rw [hdata, strLowerEqLiteral_eq, if_neg (not_endsInside_of_newline hnewline), ok_bind]
  split
  · exact parseVersionDigits_reads hmid
  · exact fun hstop => nomatch hstop

theorem parseHttpVersion_short (h : str.Whole) (hnewline : cr ∈ str.data)
    (hshort : str.len ≤ intMax) : StaysInside (parseHttpVersion str) := by
  rw [parseHttpVersion_inside_iff h]
  unfold StringRef.Whole at h
  have hlong : ∀ (p : Byte → Bool) (front text : Bytes), str.data = front ++ text →
      ¬ TooLong p text := by
    rintro p front text hdata ⟨hlen, -⟩
    have hlength := congrArg List.length hdata
    rw [List.length_append] at hlength
    omega
  generalize str.data = data at hlong hnewline ⊢
  intro hruns
  cases hruns with
  | inWord ends => exact not_endsInside_of_newline hnewline ends
  | longWord long => exact hlong isLetter [] data rfl long
  | @inDigits word text letters named digits =>
    cases digits with
    | @major more long => exact hlong isDigit (word ++ [slash]) more (by simp) long
    | @minor d more major_cases long =>
      exact hlong isDigit (word ++ [slash, d, dot]) more (by simp) long

end Inside

section Calls

variable {buf : Bytes}

/-- A search that has found the newline has seen a carriage return. -/
theorem cr_mem_of_found {i : Nat}
    (h : findAsciiSubstringCaseInsensitive buf headerFieldDelimiter = some i) : cr ∈ buf := by
  rw [firstOccurrence_control (by decide)] at h
  have hstart := (firstOccurrence_some h).1
  exact List.mem_of_mem_drop (hstart.subset List.mem_cons_self)

theorem recvFirstLine_reads (buf : Bytes) (st : HttpReceiveControllerState) :
    ReadsInside (recvFirstLine buf buf.length st) ∧
      (buf.length ≤ intMax → StaysInside (recvFirstLine buf buf.length st)) := by
  unfold recvFirstLine
  cases hfound : findAsciiSubstringCaseInsensitive buf headerFieldDelimiter with
  | none => exact ⟨avoids_ok _, fun _ => staysInside_ok _⟩
  | some i =>
    have hnewline := cr_mem_of_found hfound
    let str : StringRef := ⟨buf.length, buf⟩
    have hreads := @parseHttpVersion_reads str rfl hnewline
    have hshort := @parseHttpVersion_short str rfl hnewline
    dsimp only at hshort ⊢
    generalize parseHttpVersion _ = parsed at hreads hshort ⊢
    match parsed with
    | .error (.status code) => exact ⟨avoids_ok _, fun _ => staysInside_ok _⟩
    | .error (.fault reason) => exact ⟨hreads, hshort⟩
    | .error .blocked => exact ⟨hreads, hshort⟩
    | .ok (.http09, rest) => exact ⟨avoids_ok _, fun _ => staysInside_ok _⟩
    | .ok (.http10, rest) => exact ⟨avoids_ok _, fun _ => staysInside_ok _⟩
    | .ok (.http11, rest) => exact ⟨avoids_ok _, fun _ => staysInside_ok _⟩

theorem staysInside_assert {α : Type} :
    StaysInside (Except.error (.fault .assertFailed) : Except Stop α) := by
  rintro (h | h) <;> contradiction

theorem recvContentLengthWrapping_inside (buf : Bytes) (n : Nat) (maxLen : Int)
    (st : HttpReceiveControllerState) :
    StaysInside (recvContentLengthWrapping buf n maxLen st) := by
  unfold recvContentLengthWrapping
  split
  · exact staysInside_ok _
  · dsimp only
    split
    · exact staysInside_assert
    · repeat' split
      all_goals exact staysInside_ok _

theorem recvHeaderWrapping_inside (buf : Bytes) (n : Nat) (maxLen : Int)
    (st : HttpReceiveControllerState) : StaysInside (recvHeaderWrapping buf n maxLen st) := by
  unfold recvHeaderWrapping
  dsimp only
  split
  · exact staysInside_ok _
  · exact recvContentLengthWrapping_inside buf n maxLen _

/-- The version parser is the only callee that gets no end for one of its comparisons. The
newline in front of the call is such an end. -/
theorem controllerWrapping_reads (buf : Bytes) (cap : Nat) (maxLen : Int)
    (st : HttpReceiveControllerState) :
    ReadsInside (httpReceiveControllerWrapping (some buf) cap buf.length maxLen st) ∧
      (buf.length ≤ intMax →
        StaysInside (httpReceiveControllerWrapping (some buf) cap buf.length maxLen st)) := by
  have both {result : Except Stop (Int × RecvAction × HttpReceiveControllerState)}
      (h : StaysInside result) :
      ReadsInside result ∧ (buf.length ≤ intMax → StaysInside result) :=
    ⟨h.reads, fun _ => h⟩
  unfold httpReceiveControllerWrapping
  dsimp only
  split
  · exact both (recvHeaderWrapping_inside buf buf.length maxLen st)
  · exact both (recvContentLengthWrapping_inside buf buf.length maxLen st)
  · exact both (staysInside_ok _)
  · rename_i h112 h113 h114
    unfold httpReceiveController
    dsimp only
    split
    · split
      · exact both staysInside_assert
      · exact both (staysInside_ok _)
    · exact recvFirstLine_reads buf st
    · contradiction
    · contradiction
    · contradiction
    · exact both (staysInside_ok _)

/-- For every prefix of every stream, and in every state of the controller. -/
theorem controller_reads_inside (memory : buf.length < 2 ^ 64) (cap : Nat) (maxLen : Int)
    (st : HttpReceiveControllerState) :
    ReadsInside (httpReceiveControllerReading (some buf) cap buf.length maxLen st) ∧
      (buf.length ≤ intMax →
        StaysInside (httpReceiveControllerReading (some buf) cap buf.length maxLen st)) := by
  rw [controllerReading_eq memory]
  exact controllerWrapping_reads buf cap maxLen st

/-- The newline cuts the keyword off. -/
theorem controller_reads_inside_keyword :
    ReadsInside
      (httpReceiveControllerReading (some (ascii ['H', 'T', '\r', '\n'])) 4 4 4 ⟨4, 0, 0, 1⟩) :=
  (@controller_reads_inside (ascii ['H', 'T', '\r', '\n']) (by decide) 4 4 ⟨4, 0, 0, 1⟩).1

end Calls

end Net77.Http
