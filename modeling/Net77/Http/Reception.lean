import Net77.Http.RecvController

/-! What a connection delivers, as a function of the bytes that the peer sends
and of the limit alone. The controller refines it byte by byte. -/
namespace Net77.Http

open Net77.Base

/-- The bytes within a limit, where a negative one is none. -/
def cut (stream : Bytes) (limit : Int) : Bytes :=
  if limit < 0 then stream else stream.take limit.toNat

/-- A status, the received bytes, and whether the end of the stream was seen. -/
structure Reception where
  status : Int
  bytes : Bytes
  closed : Bool
  deriving DecidableEq, Repr

/-- Everything up to a limit. -/
def untilLimit (stream : Bytes) (limit : Int) : Reception :=
  ⟨0, cut stream limit, decide (limit < 0 ∨ (stream.length : Int) < limit)⟩

/-- The part of a head behind the first `Content-Length:`. -/
def lengthText (head : Bytes) : Option Bytes :=
  (findAsciiSubstringCaseInsensitive head contentLengthHeaderName).map fun line =>
    head.drop (line + contentLengthHeaderName.length)

/-- A complete head decides how much is received in all. -/
def receiveBody (stream head : Bytes) (limit : Int) : Except Stop Reception :=
  match lengthText head with
  | none => pure ⟨1, head, false⟩
  | some text => do
    let (contentLength, _) ← strToUint text 0 false
    if contentLength < 0 then pure ⟨0, head, false⟩
    else
      let total ← addSsize contentLength head.length
      pure (untilLimit stream (optMin total limit))

/-- With HTTP/1.1, the head ends at the first empty line. -/
def receiveHead (stream : Bytes) (limit : Int) : Except Stop Reception :=
  match firstEnd endOfHeader (cut stream limit) with
  | none => pure (untilLimit stream limit)
  | some headEnd => receiveBody stream ((cut stream limit).take headEnd) limit

/-- The first line decides on the version. -/
def receiveMessage (stream : Bytes) (limit : Int) : Except Stop Reception :=
  match firstEnd crlf (cut stream limit) with
  | none => pure (untilLimit stream limit)
  | some lineEnd =>
    match parseHttpVersion ⟨lineEnd, (cut stream limit).take lineEnd⟩ with
    | .error (.status _) => pure ⟨1, (cut stream limit).take lineEnd, false⟩
    | .error stop => .error stop
    | .ok (v, _) =>
      if v = .http11 then receiveHead stream limit else pure (untilLimit stream limit)

/-- The text has a complete first line, which is read as the given version. -/
def FirstLine (text : Bytes) (v : HttpVersion) : Prop :=
  ∃ lineEnd rest, firstEnd crlf text = some lineEnd ∧
    parseHttpVersion ⟨lineEnd, text.take lineEnd⟩ = .ok (v, rest)

/-- Where the controller is after the bytes `text`: what it has found in them,
its state and its `max_len`. -/
inductive Phase (og : Int) : Bytes → HttpReceiveControllerState → Int → Prop where
  | firstLine {text : Bytes} {length : Int} (incomplete : firstEnd crlf text = none) :
      Phase og text ⟨og, length, 0, 1⟩ (nextByte text.length og)
  | untilClose {text : Bytes} {length : Int} {v : HttpVersion} (line : FirstLine text v)
      (old : v ≠ .http11) : Phase og text ⟨og, length, v.value, 2⟩ og
  | head {text : Bytes} {length : Int} (line : FirstLine text .http11)
      (incomplete : firstEnd endOfHeader text = none) :
      Phase og text ⟨og, length, 11, 2⟩ (nextByte text.length og)
  | unreadable {text field : Bytes} {value length : Int} {terminator : Option Byte}
      (line : FirstLine text .http11)
      (complete : firstEnd endOfHeader text = some text.length)
      (found : lengthText text = some field)
      (read : strToUint field 0 false = .ok (value, terminator)) (negative : value < 0) :
      Phase og text ⟨og, length, 11, 3⟩ text.length
  | body {text field : Bytes} {headEnd : Nat} {value total : Int} {terminator : Option Byte}
      (line : FirstLine text .http11)
      (complete : firstEnd endOfHeader text = some headEnd)
      (found : lengthText (text.take headEnd) = some field)
      (read : strToUint field 0 false = .ok (value, terminator)) (natural : 0 ≤ value)
      (sum : addSsize value headEnd = .ok total) :
      Phase og text ⟨og, value, 11, 999999⟩ (optMin total og)

section Cut

theorem cut_isPrefix (stream : Bytes) (limit : Int) : cut stream limit <+: stream := by
  unfold cut
  split
  · exact List.prefix_rfl
  · exact List.take_prefix _ _

/-- What was received within the limit is a beginning of what may be received. -/
theorem prefix_cut {text stream : Bytes} {limit : Int} (h : text <+: stream)
    (hlimit : 0 ≤ limit → (text.length : Int) ≤ limit) : text <+: cut stream limit := by
  unfold cut
  split
  · exact h
  · rw [List.prefix_take_iff]
    exact ⟨h, by have := hlimit (by omega); omega⟩

theorem length_cut (stream : Bytes) (limit : Int) :
    ((cut stream limit).length : Int) =
      if limit < 0 then (stream.length : Int) else min limit stream.length := by
  unfold cut
  split
  · rfl
  · rw [List.length_take]
    omega

/-- A text of the length of the limit is all that is received. -/
theorem cut_full {text stream : Bytes} {limit : Int} (h : text <+: stream)
    (hlen : (text.length : Int) = limit) : cut stream limit = text := by
  have hlength := length_cut stream limit
  have hle := h.length_le
  rw [if_neg (by omega)] at hlength
  exact ((prefix_cut h fun _ => by omega).eq_of_length (by omega)).symm

theorem cut_short {stream : Bytes} {limit : Int}
    (hlen : limit < 0 ∨ (stream.length : Int) < limit) : cut stream limit = stream := by
  unfold cut
  split
  · rfl
  · exact List.take_of_length_le (by omega)

theorem untilLimit_full {text stream : Bytes} {limit : Int} (h : text <+: stream)
    (hlen : (text.length : Int) = limit) : untilLimit stream limit = ⟨0, text, false⟩ := by
  have hle := h.length_le
  rw [untilLimit, cut_full h hlen, decide_eq_false (by omega)]

theorem untilLimit_short {stream : Bytes} {limit : Int}
    (hlen : limit < 0 ∨ (stream.length : Int) < limit) :
    untilLimit stream limit = ⟨0, stream, true⟩ := by
  rw [untilLimit, cut_short hlen, decide_eq_true hlen]

end Cut

section Decisions

theorem FirstLine.mono {text longer : Bytes} {v : HttpVersion} (h : FirstLine text v)
    (hle : text <+: longer) : FirstLine longer v := by
  obtain ⟨lineEnd, rest, hend, hparse⟩ := h
  obtain ⟨hend', htake⟩ := firstEnd_mono hend hle
  exact ⟨lineEnd, rest, hend', by rw [htake, hparse]⟩

theorem receive_noLine {stream : Bytes} {og : Int} (h : firstEnd crlf (cut stream og) = none) :
    receiveMessage stream og = .ok (untilLimit stream og) := by
  rw [receiveMessage, h]
  rfl

variable {text stream : Bytes} {og : Int} (hle : text <+: cut stream og)

include hle

theorem receive_line {v : HttpVersion} (h : FirstLine text v) : receiveMessage stream og =
    if v = .http11 then receiveHead stream og else .ok (untilLimit stream og) := by
  obtain ⟨lineEnd, rest, hend, hparse⟩ := h.mono hle
  rw [receiveMessage, hend]
  dsimp only
  rw [hparse]
  rfl

/-- What `receiveMessage` makes of a line that has just been completed. -/
theorem receive_lineEnd (h : firstEnd crlf text = some text.length) : receiveMessage stream og =
    match parseHttpVersion ⟨text.length, text⟩ with
    | .error (.status _) => .ok ⟨1, text, false⟩
    | .error stop => .error stop
    | .ok (v, _) => if v = .http11 then receiveHead stream og else .ok (untilLimit stream og) := by
  obtain ⟨hend, htake⟩ := firstEnd_mono h hle
  rw [List.take_length] at htake
  rw [receiveMessage, hend]
  dsimp only
  rw [htake]
  rfl

theorem receive_head {headEnd : Nat} (line : FirstLine text .http11)
    (complete : firstEnd endOfHeader text = some headEnd) :
    receiveMessage stream og = receiveBody stream (text.take headEnd) og := by
  obtain ⟨hend, htake⟩ := firstEnd_mono complete hle
  rw [receive_line hle line, if_pos rfl, receiveHead, hend]
  dsimp only
  rw [htake]

end Decisions

theorem receiveBody_read {stream head field : Bytes} {og value : Int} {terminator : Option Byte}
    (found : lengthText head = some field)
    (read : strToUint field 0 false = .ok (value, terminator)) : receiveBody stream head og =
      if value < 0 then .ok ⟨0, head, false⟩
      else addSsize value head.length >>= fun total => .ok (untilLimit stream (optMin total og)) := by
  rw [receiveBody, found]
  dsimp only
  rw [read]
  rfl

theorem find_control {pat : Bytes} (hpat : ∀ c ∈ pat, c < 32) (text : Bytes) :
    (findAsciiSubstringCaseInsensitive text pat).map (· + pat.length) = firstEnd pat text := by
  rw [firstOccurrence_control hpat]
  rfl

theorem getHeaderSize_eq (text : Bytes) : getHeaderSize text =
    match firstEnd endOfHeader text with
    | some headEnd => (headEnd : Int)
    | none => -1 := by
  rw [← find_control (by decide), getHeaderSize]
  cases findAsciiSubstringCaseInsensitive text endOfHeader with
  | none => rfl
  | some eoh => simp

/-- The look at the last four bytes finds a head that has just been completed. -/
theorem getHeaderSize_tail {text : Bytes} {b : Byte} (hnone : firstEnd endOfHeader text = none) :
    ((text ++ [b]).length < endOfHeader.length ∨
      getHeaderSize ((text ++ [b]).drop ((text ++ [b]).length - endOfHeader.length)) < 0) ↔
      firstEnd endOfHeader (text ++ [b]) = none := by
  have hiff := firstOccurrence_concat_iff (a := b) (firstEnd_none.mp hnone)
  rw [← not_iff_not, ← Ne, firstEnd_none.ne, hiff, not_or, getHeaderSize_eq]
  generalize text ++ [b] = longer
  constructor
  · rintro ⟨hlen, hsize⟩
    cases hend : firstEnd endOfHeader (longer.drop (longer.length - endOfHeader.length)) with
    | none => simp [hend] at hsize
    | some n =>
      have hin : endOfHeader <:+: longer.drop (longer.length - endOfHeader.length) := by
        by_contra hnot
        rw [firstEnd_none.mpr (firstOccurrence_none.mpr hnot)] at hend
        contradiction
      have heq := hin.eq_of_length (by rw [List.length_drop]; omega)
      rw [heq]
      exact List.drop_suffix _ _
  · intro hsuffix
    have hdrop := List.suffix_iff_eq_drop.mp hsuffix
    refine ⟨by have := hsuffix.length_le; omega, ?_⟩
    rw [← hdrop]
    decide

/-- The only way not to find a number is the result -1, with a terminator. -/
theorem strToUint_sound {text : Bytes} {out value : Int} {legal : Bool} {terminator : Option Byte}
    (hout : 0 ≤ out) (h : strToUint text out legal = .ok (value, terminator)) :
    terminator = none ∧ 0 ≤ value ∨ value < 0 := by
  fun_induction strToUint text out legal with
  | case1 out legal =>
    obtain ⟨rfl, rfl⟩ := Prod.mk.inj (Except.ok.inj h)
    exact .inl ⟨rfl, hout⟩
  | case2 => simp at h
  | case3 c rest out legal hdigit hfits ih =>
    refine ih ?_ h
    have hlow : 48 ≤ c.toNat := by
      simp only [isDigit, Bool.and_eq_true, decide_eq_true_eq, UInt8.le_iff_toNat_le] at hdigit
      exact hdigit.1
    omega
  | case4 c rest out legal hdigit hblank ih => exact ih hout h
  | case5 =>
    obtain ⟨rfl, rfl⟩ := Prod.mk.inj (Except.ok.inj h)
    exact .inr (by decide)
  | case6 =>
    obtain ⟨rfl, rfl⟩ := Prod.mk.inj (Except.ok.inj h)
    exact .inl ⟨rfl, hout⟩

end Net77.Http
