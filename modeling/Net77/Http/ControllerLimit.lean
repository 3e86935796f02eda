import Net77.Http.ControllerRefinement
import Net77.ReceiveBounds

/-! What the controller lets through, where the `Content-Length` arithmetic wraps around:
in every run it allows no more than the caller does and no less than is there already. -/
namespace Net77.Http

open Net77.Base

/-- `strToUint`, where the accumulation wraps around. -/
def strToUintWrapping : Bytes → (out : Int) → (hasFoundLegal : Bool) → Int × Option Byte
  | [], out, _ => (out, none)
  | c :: rest, out, hasFoundLegal =>
    if isDigit c then strToUintWrapping rest (toSsize (out * 10 + c.toNat - 48)) true
    else if c = space ∨ c = tab then strToUintWrapping rest out hasFoundLegal
    else if !hasFoundLegal then (-1, some c)
    else (out, none)

/-- `case 113`, where `content_length + header_size - n_overshot_bytes` wraps around. The
assertion is the one of `strToUint`. -/
def recvContentLengthWrapping (buf : Bytes) (n : Nat) (maxLen : Int)
    (st : HttpReceiveControllerState) :
    Except Stop (Int × RecvAction × HttpReceiveControllerState) :=
  match findAsciiSubstringCaseInsensitive buf contentLengthHeaderName with
  | none => pure (maxLen, .rejectRequest, st)
  | some line =>
    let line := line + contentLengthHeaderName.length
    if n < line then .error (.fault .assertFailed)
    else
      let (contentLength, terminator) := strToUintWrapping (buf.drop line) 0 false
      if 0 ≤ contentLength ∧ terminator.getD cr = cr then
        let st := { st with contentLength }
        let headerSize := getHeaderSize buf
        if 0 ≤ headerSize then
          let overshot := n - headerSize
          pure (optMin (toSsize (contentLength + headerSize - overshot)) st.ogMaxLen, .none,
            { st with phase := 999999 })
        else pure (maxLen, .none, { st with phase := st.phase + 1 })
      else pure (maxLen, .none, st)

/-- `case 112`. -/
def recvHeaderWrapping (buf : Bytes) (n : Nat) (maxLen : Int) (st : HttpReceiveControllerState) :
    Except Stop (Int × RecvAction × HttpReceiveControllerState) :=
  let offset := n - endOfHeader.length
  if n < endOfHeader.length ∨ getHeaderSize (buf.drop offset) < 0 then
    pure (nextByte n st.ogMaxLen, .none, st)
  else recvContentLengthWrapping buf n maxLen { st with phase := st.phase + 1 }

/-- `case 114`, where `content_length + header_size` wraps around. -/
def recvBodyWrapping (buf : Bytes) (maxLen : Int) (st : HttpReceiveControllerState) :
    Int × RecvAction × HttpReceiveControllerState :=
  let headerSize := getHeaderSize buf
  if 0 ≤ headerSize then
    (optMin (toSsize (st.contentLength + headerSize)) st.ogMaxLen, .none,
      { st with phase := st.phase + 1 })
  else (maxLen, .rejectRequest, st)

/-- The other cases have no such arithmetic. -/
def httpReceiveControllerWrapping : RecvController HttpReceiveControllerState :=
  fun buf cap n maxLen st =>
    match buf with
    | none => .error (.fault .assertFailed)
    | some buf =>
      match st.httpVersion * 10 + st.phase with
      | 112 => recvHeaderWrapping buf n maxLen st
      | 113 => recvContentLengthWrapping buf n maxLen st
      | 114 => pure (recvBodyWrapping buf maxLen st)
      | _ => httpReceiveController (some buf) cap n maxLen st

/-- `builder->data + initial_sb_len` before anything is received: NULL without an allocation. -/
def firstBuffer (builder : StringBuilder) : Option Bytes :=
  if builder.cap = 0 then none else some []

/-- The calls that `recvAllData` makes: the first one, with `buf`, before anything is received,
and one more each time that it has received some bytes, as long as the controller commands no
action. The last three arguments are what the last call has left. -/
inductive ControllerRun (og : Int) (buf : Option Bytes) :
    Bytes → Int → RecvAction → HttpReceiveControllerState → Prop where
  | first {maxLen : Int} {action : RecvAction} {st : HttpReceiveControllerState} (cap : Nat)
      (call : httpReceiveControllerWrapping buf cap 0 og .zeroed = .ok (maxLen, action, st)) :
      ControllerRun og buf [] maxLen action st
  | next {text chunk : Bytes} {maxLen maxLen' : Int} {action : RecvAction}
      {st st' : HttpReceiveControllerState} (cap : Nat)
      (run : ControllerRun og buf text maxLen .none st) (received : chunk ≠ [])
      (within : 0 ≤ maxLen → ((text ++ chunk).length : Int) ≤ maxLen)
      (memory : (text ++ chunk).length < 2 ^ 63)
      (call : httpReceiveControllerWrapping (some (text ++ chunk)) cap (text ++ chunk).length
        maxLen st = .ok (maxLen', action, st')) :
      ControllerRun og buf (text ++ chunk) maxLen' action st'

/-- What the user relies on after a call, with a negative limit for none. -/
structure Limited (og : Int) (text : Bytes) (maxLen : Int) (st : HttpReceiveControllerState) :
    Prop where
  notAbove : 0 ≤ og → 0 ≤ maxLen ∧ maxLen ≤ og
  notBelow : 0 ≤ maxLen → (text.length : Int) ≤ maxLen
  notBody : st.httpVersion * 10 + st.phase ≠ 114

/-- Where a run is that goes on. -/
inductive LimitPhase (og : Int) : Bytes → HttpReceiveControllerState → Int → Prop where
  | firstLine {text : Bytes} {length : Int} (incomplete : firstEnd crlf text = none) :
      LimitPhase og text ⟨og, length, 0, 1⟩ (nextByte text.length og)
  | untilClose {text : Bytes} {length : Int} {v : HttpVersion} (old : v ≠ .http11) :
      LimitPhase og text ⟨og, length, v.value, 2⟩ og
  | head {text : Bytes} {length : Int} (incomplete : firstEnd endOfHeader text = none) :
      LimitPhase og text ⟨og, length, 11, 2⟩ (nextByte text.length og)
  | settled {text : Bytes} {length : Int} :
      LimitPhase og text ⟨og, length, 11, 3⟩ text.length
  | body {text : Bytes} {length maxLen : Int} :
      LimitPhase og text ⟨og, length, 11, 999999⟩ maxLen

section Wrapping

/-- The wrapping number is the number where nothing overflows. -/
theorem strToUintWrapping_agrees {text : Bytes} {out : Int} {legal : Bool}
    {result : Int × Option Byte} (hout : 0 ≤ out) (h : strToUint text out legal = .ok result) :
    strToUintWrapping text out legal = result := by
  fun_induction strToUint text out legal with
  | case1 => exact Except.ok.inj h
  | case2 => contradiction
  | case3 c rest out legal hdigit hfits ih =>
    have hlow : 48 ≤ c.toNat := by
      simp only [isDigit, Bool.and_eq_true, decide_eq_true_eq, UInt8.le_iff_toNat_le] at hdigit
      exact hdigit.1
    rw [strToUintWrapping, if_pos hdigit, toSsize_of_bounds (by omega) (by omega)]
    exact ih (by omega) h
  | case4 c rest out legal hdigit hblank ih =>
    rw [strToUintWrapping, if_neg hdigit, if_pos hblank]
    exact ih hout h
  | case5 c rest out legal hdigit hblank hlegal =>
    rw [strToUintWrapping, if_neg hdigit, if_neg hblank, if_pos hlegal]
    exact Except.ok.inj h
  | case6 c rest out legal hdigit hblank hlegal =>
    rw [strToUintWrapping, if_neg hdigit, if_neg hblank, if_neg hlegal]
    exact Except.ok.inj h

theorem getHeaderSize_le (text : Bytes) : getHeaderSize text ≤ text.length := by
  rw [getHeaderSize_eq]
  cases hend : firstEnd endOfHeader text with
  | none => dsimp only; omega
  | some n =>
    have := (firstEnd_some hend).1
    dsimp only
    omega

variable {buf : Bytes} {maxLen : Int} {st : HttpReceiveControllerState}
  {result : Int × RecvAction × HttpReceiveControllerState}

/-- The name is found inside the text. -/
theorem contentLength_line_le {line : Nat}
    (h : findAsciiSubstringCaseInsensitive buf contentLengthHeaderName = some line) :
    line + contentLengthHeaderName.length ≤ buf.length := by
  rw [find_eq_firstOccurrence] at h
  have hle := firstOccurrence_le h
  rwa [List.length_map, List.length_map] at hle

theorem recvContentLengthWrapping_agrees (hmemory : buf.length < 2 ^ 63)
    (h : recvContentLength buf buf.length maxLen st = .ok result) :
    recvContentLengthWrapping buf buf.length maxLen st = .ok result := by
  unfold recvContentLength at h
  unfold recvContentLengthWrapping
  cases hfind : findAsciiSubstringCaseInsensitive buf contentLengthHeaderName with
  | none =>
    rw [hfind] at h
    exact h
  | some line =>
    rw [hfind] at h
    obtain ⟨⟨contentLength, terminator⟩, hread, h⟩ := bind_eq_ok.mp h
    dsimp only at h ⊢
    rw [if_neg (Nat.not_lt.mpr (contentLength_line_le hfind)),
      strToUintWrapping_agrees (Int.le_refl 0) hread]
    dsimp only
    split at h
    · rename_i hnumber
      rw [if_pos hnumber]
      split at h
      · rename_i hsize
        have hle := getHeaderSize_le buf
        obtain ⟨total, htotal, h⟩ := bind_eq_ok.mp h
        obtain ⟨rfl, hbounds⟩ := addSsize_eq htotal
        unfold IsSsize at hbounds
        rw [if_pos hsize, toSsize_of_bounds (by omega) (by omega)]
        exact h
      · rename_i hsize
        rw [if_neg hsize]
        exact h
    · rename_i hnumber
      rw [if_neg hnumber]
      exact h

theorem recvHeaderWrapping_agrees (hmemory : buf.length < 2 ^ 63)
    (h : recvHeader buf buf.length maxLen st = .ok result) :
    recvHeaderWrapping buf buf.length maxLen st = .ok result := by
  unfold recvHeader at h
  unfold recvHeaderWrapping
  dsimp only at h ⊢
  split at h
  · rename_i hincomplete
    rw [if_pos hincomplete]
    exact h
  · rename_i hcomplete
    rw [if_neg hcomplete]
    exact recvContentLengthWrapping_agrees hmemory h

theorem recvBodyWrapping_agrees (h : recvBody buf maxLen st = .ok result) :
    recvBodyWrapping buf maxLen st = result := by
  unfold recvBody at h
  unfold recvBodyWrapping
  dsimp only at h ⊢
  split at h
  · rename_i hsize
    obtain ⟨total, htotal, h⟩ := bind_eq_ok.mp h
    obtain ⟨rfl, hlow, hhigh⟩ := addSsize_eq htotal
    rw [if_pos hsize, toSsize_of_bounds hlow hhigh]
    exact Except.ok.inj h
  · rename_i hsize
    rw [if_neg hsize]
    exact Except.ok.inj h

/-- The wrapping controller is the controller where nothing overflows. -/
theorem wrapping_agrees {cap : Nat} (hmemory : buf.length < 2 ^ 63)
    (h : httpReceiveController (some buf) cap buf.length maxLen st = .ok result) :
    httpReceiveControllerWrapping (some buf) cap buf.length maxLen st = .ok result := by
  unfold httpReceiveControllerWrapping
  have hcase := h
  unfold httpReceiveController at hcase
  dsimp only at hcase ⊢
  split
  · rename_i hkey
    simp only [hkey] at hcase
    exact recvHeaderWrapping_agrees hmemory hcase
  · rename_i hkey
    simp only [hkey] at hcase
    exact recvContentLengthWrapping_agrees hmemory hcase
  · rename_i hkey
    simp only [hkey] at hcase
    exact congrArg Except.ok (recvBodyWrapping_agrees hcase)
  · exact h

end Wrapping

section Asserts

/-- The call does not run into an assertion. -/
def KeepsAsserts {α : Type} (result : Except Stop α) : Prop :=
  Avoids (· = .fault .assertFailed) result

theorem readAt_asserts (data : Bytes) (i : Nat) : KeepsAsserts (readAt data i) := by
  unfold readAt
  split
  · exact avoids_ok _
  · exact fun h => nomatch h

theorem expectChar_asserts (str : StringRef) (c : Byte) : KeepsAsserts (expectChar str c) := by
  unfold expectChar
  split
  · exact fun h => nomatch h
  · refine avoids_bind.mpr ⟨readAt_asserts str.data 0, fun d _ => ?_⟩
    split
    · exact fun h => nomatch h
    · exact avoids_ok _

theorem scanWhile_asserts (p : Byte → Bool) (data : Bytes) (len i : Nat) :
    KeepsAsserts (scanWhile p data len i) := by
  fun_induction scanWhile p data len i with
  | case1 => exact avoids_ok _
  | case2 => exact fun h => nomatch h
  | case3 => exact fun h => nomatch h
  | case4 _ _ _ _ _ _ ih => exact ih
  | case5 => exact avoids_ok _

theorem parseRun_asserts (p : Byte → Bool) (str : StringRef) : KeepsAsserts (parseRun p str) := by
  unfold parseRun
  refine avoids_bind.mpr ⟨scanWhile_asserts p str.data str.len 0, fun i _ => ?_⟩
  split
  · exact avoids_ok _
  · exact avoids_ok _

theorem strLowerCmp_asserts (s1 s2 : Bytes) (len : Nat) : KeepsAsserts (strLowerCmp s1 s2 len) := by
  induction len generalizing s1 s2 with
  | zero => exact avoids_ok _
  | succ len ih =>
    unfold strLowerCmp
    refine avoids_bind.mpr ⟨readAt_asserts s1 0, fun a _ => ?_⟩
    refine avoids_bind.mpr ⟨readAt_asserts s2 0, fun b _ => ?_⟩
    dsimp only
    split
    · exact avoids_ok _
    · exact ih s1.tail s2.tail

theorem versionOfDigits_asserts (maj min : Int) : KeepsAsserts (versionOfDigits maj min) := by
  unfold versionOfDigits
  split
  · split
    · exact fun h => nomatch h
    · exact avoids_ok _
  · split
    · split
      · exact fun h => nomatch h
      · exact avoids_ok _
    · exact avoids_ok _

theorem digits_assert (str : StringRef) :
    KeepsAsserts (majorDigit str) ∧ KeepsAsserts (minorDigit str) := by
  unfold majorDigit minorDigit
  constructor
  · split
    · exact fun h => nomatch h
    · refine avoids_bind.mpr ⟨readAt_asserts str.data 0, fun c _ => ?_⟩
      split
      · exact fun h => nomatch h
      · exact avoids_ok _
  · split
    · exact fun h => nomatch h
    · exact avoids_bind.mpr ⟨readAt_asserts str.data 0, fun c _ => avoids_ok _⟩

/-- The parser has no assertions. -/
theorem parseHttpVersion_asserts (str : StringRef) : KeepsAsserts (parseHttpVersion str) := by
  unfold parseHttpVersion
  refine avoids_bind.mpr ⟨parseRun_asserts isLetter str, fun word _ => ?_⟩
  refine avoids_bind.mpr ⟨?_, fun named _ => ?_⟩
  · exact avoids_bind.mpr ⟨strLowerCmp_asserts _ _ _, fun order _ => avoids_ok _⟩
  · split
    · refine avoids_bind.mpr ⟨expectChar_asserts _ slash, fun s1 _ => ?_⟩
      refine avoids_bind.mpr ⟨parseRun_asserts isDigit s1, fun major _ => ?_⟩
      refine avoids_bind.mpr ⟨(digits_assert _).1, fun maj _ => ?_⟩
      refine avoids_bind.mpr ⟨expectChar_asserts _ dot, fun s2 _ => ?_⟩
      refine avoids_bind.mpr ⟨parseRun_asserts isDigit s2, fun minor _ => ?_⟩
      refine avoids_bind.mpr ⟨(digits_assert _).2, fun min _ => ?_⟩
      exact avoids_bind.mpr ⟨versionOfDigits_asserts maj min, fun v _ => avoids_ok _⟩
    · exact fun h => nomatch h

end Asserts

section Step

variable {og maxLen : Int} {text : Bytes} {st : HttpReceiveControllerState}

/-- What a call has to leave behind. -/
def KeepsLimit (og : Int) (text : Bytes) :
    Except Stop (Int × RecvAction × HttpReceiveControllerState) → Prop
  | .ok (maxLen, action, st) =>
    Limited og text maxLen st ∧ (action = .none → LimitPhase og text st maxLen)
  | .error stop => stop ≠ .fault .assertFailed

theorem limited_nextByte (hog : 0 ≤ og → (text.length : Int) ≤ og)
    (hkey : st.httpVersion * 10 + st.phase ≠ 114) :
    Limited og text (nextByte text.length og) st := by
  have hbounds := nextByte_bounds hog
  refine ⟨?_, fun _ => hbounds.1, hkey⟩
  omega

/-- A total that has wrapped around is negative. -/
theorem toSsize_total {length : Int} {size : Nat} (hlow : 0 ≤ length) (hhigh : length < 2 ^ 63)
    (hsize : size < 2 ^ 63) :
    toSsize (length + size) = length + size ∨ toSsize (length + size) < 0 := by
  by_cases hsum : length + size < 2 ^ 63
  · exact .inl (toSsize_of_bounds (by omega) hsum)
  · right
    unfold toSsize
    rw [Int.bmod_def]
    split <;> omega

/-- What is read wraps into the range of its type. -/
theorem strToUintWrapping_isSsize (field : Bytes) {out : Int} (hout : IsSsize out) (legal : Bool) :
    IsSsize (strToUintWrapping field out legal).1 := by
  fun_induction strToUintWrapping field out legal with
  | case1 => exact hout
  | case2 c rest out legal hdigit ih => exact ih (toSsize_bounds _)
  | case3 c rest out legal hdigit hblank ih => exact ih hout
  | case4 => exact (by decide : IsSsize (-1))
  | case5 => exact hout

theorem limited_optMin {total : Int} (htotal : total < 0 ∨ (text.length : Int) ≤ total)
    (hog : 0 ≤ og → (text.length : Int) ≤ og) (hkey : st.httpVersion * 10 + st.phase ≠ 114) :
    Limited og text (optMin total og) st := by
  constructor
  · intro hpos
    have := hog hpos
    unfold optMin
    repeat' split
    all_goals omega
  · intro hpos
    unfold optMin at hpos ⊢
    repeat' split
    all_goals omega
  · exact hkey

/-- Before HTTP/1.1 the limit is the one of the user. -/
theorem keeps_untilClose {length : Int} {v : HttpVersion} (old : v ≠ .http11)
    (hog : 0 ≤ og → (text.length : Int) ≤ og) :
    KeepsLimit og text (.ok (og, .none, ⟨og, length, v.value, 2⟩)) := by
  refine ⟨⟨fun hpos => ⟨hpos, Int.le_refl og⟩, hog, ?_⟩, fun _ => .untilClose old⟩
  show v.value * 10 + 2 ≠ 114
  cases v <;> decide

/-- The byte that completes the head: a total that does not fit is no limit at all, and
the limit of the user remains. -/
theorem keeps_headEnd {length : Int} (complete : firstEnd endOfHeader text = some text.length)
    (hog : 0 ≤ og → (text.length : Int) ≤ og) (memory : text.length < 2 ^ 63) :
    KeepsLimit og text
      (recvContentLengthWrapping text text.length text.length ⟨og, length, 11, 3⟩) := by
  have hstay : ∀ phase, phase ≠ 4 → Limited og text text.length ⟨og, length, 11, phase⟩ := by
    intro phase hphase
    refine ⟨fun hpos => ⟨Int.natCast_nonneg _, hog hpos⟩, fun _ => Int.le_refl _, ?_⟩
    dsimp only
    omega
  unfold recvContentLengthWrapping
  cases hfind : findAsciiSubstringCaseInsensitive text contentLengthHeaderName with
  | none => exact ⟨hstay 3 (by decide), fun h => nomatch h⟩
  | some line =>
    dsimp only
    rw [if_neg (Nat.not_lt.mpr (contentLength_line_le hfind))]
    have hssize := strToUintWrapping_isSsize (text.drop (line + contentLengthHeaderName.length))
      (by decide : IsSsize 0) false
    generalize strToUintWrapping _ 0 false = read at hssize ⊢
    obtain ⟨value, terminator⟩ := read
    dsimp only at hssize ⊢
    split
    · rename_i hnumber
      rw [getHeaderSize_eq, complete]
      dsimp only
      rw [if_pos (Int.natCast_nonneg text.length), Int.sub_self, Int.sub_zero]
      have htotal := toSsize_total hnumber.1 hssize.2 memory
      exact ⟨limited_optMin (by omega) hog (show 11 * 10 + 999999 ≠ 114 by decide), fun _ => .body⟩
    · exact ⟨hstay 3 (by decide), fun _ => .settled⟩

theorem keeps_firstLine {length : Int} {b : Byte} (incomplete : firstEnd crlf text = none)
    (hog : 0 ≤ og → ((text ++ [b]).length : Int) ≤ og) :
    KeepsLimit og (text ++ [b])
      (recvFirstLine (text ++ [b]) (text ++ [b]).length ⟨og, length, 0, 1⟩) := by
  have hfind := find_control (show ∀ c ∈ crlf, c < 32 by decide) (text ++ [b])
  unfold recvFirstLine
  rw [show headerFieldDelimiter = crlf from rfl]
  cases hfound : findAsciiSubstringCaseInsensitive (text ++ [b]) crlf with
  | none =>
    rw [hfound] at hfind
    exact ⟨limited_nextByte hog (show 0 * 10 + 1 ≠ 114 by decide), fun _ => .firstLine hfind.symm⟩
  | some i =>
    rw [hfound] at hfind
    have hend : firstEnd crlf (text ++ [b]) = some (text ++ [b]).length := by
      rw [← hfind, Option.map_some, ← firstEnd_concat incomplete hfind.symm]
    have hasserts := parseHttpVersion_asserts ⟨(text ++ [b]).length, text ++ [b]⟩
    dsimp only
    generalize parseHttpVersion _ = parsed at hasserts ⊢
    match parsed with
    | .error (.status code) =>
      exact ⟨limited_nextByte hog (show 9 * 10 + 1 ≠ 114 by decide), fun h => nomatch h⟩
    | .error (.fault reason) => exact hasserts
    | .error .blocked => exact hasserts
    | .ok (.http09, rest) => exact keeps_untilClose (v := .http09) (by decide) hog
    | .ok (.http10, rest) => exact keeps_untilClose (v := .http10) (by decide) hog
    | .ok (.http11, rest) =>
      exact ⟨limited_nextByte hog (show 11 * 10 + 2 ≠ 114 by decide),
        fun _ => .head (firstEnd_longer_none ⟨crlf, rfl⟩ (by decide) hend)⟩

theorem keeps_header {length : Int} {b : Byte} (incomplete : firstEnd endOfHeader text = none)
    (hog : 0 ≤ og → ((text ++ [b]).length : Int) ≤ og) (memory : (text ++ [b]).length < 2 ^ 63) :
    KeepsLimit og (text ++ [b]) (recvHeaderWrapping (text ++ [b]) (text ++ [b]).length
      (text ++ [b]).length ⟨og, length, 11, 2⟩) := by
  have htail := getHeaderSize_tail (b := b) incomplete
  unfold recvHeaderWrapping
  dsimp only
  cases hend : firstEnd endOfHeader (text ++ [b]) with
  | none =>
    rw [if_pos (htail.mpr hend)]
    exact ⟨limited_nextByte hog (show 11 * 10 + 2 ≠ 114 by decide), fun _ => .head hend⟩
  | some n =>
    rw [if_neg (htail.not.mpr (by rw [hend]; simp))]
    rw [firstEnd_concat incomplete hend] at hend
    exact keeps_headEnd hend hog memory

/-- Every call keeps the limit. -/
theorem keeps_step (h : LimitPhase og text st maxLen) (limited : Limited og text maxLen st)
    {chunk : Bytes} (received : chunk ≠ [])
    (within : 0 ≤ maxLen → ((text ++ chunk).length : Int) ≤ maxLen)
    (memory : (text ++ chunk).length < 2 ^ 63) (cap : Nat) :
    KeepsLimit og (text ++ chunk) (httpReceiveControllerWrapping (some (text ++ chunk)) cap
      (text ++ chunk).length maxLen st) := by
  have hog : 0 ≤ og → ((text ++ chunk).length : Int) ≤ og := by
    intro hpos
    have habove := limited.notAbove hpos
    have := within habove.1
    omega
  have hlen : (text ++ chunk).length = text.length + chunk.length := List.length_append
  have hpos := List.length_pos_iff.mpr received
  have hogText : 0 ≤ og → (text.length : Int) ≤ og := fun h => by have := hog h; omega
  -- in the first line and in the head the limit is the next byte
  have hsingle : maxLen = nextByte text.length og →
      (∃ b, chunk = [b]) ∧ maxLen = (text ++ chunk).length := fun hnext => by
    have hbounds := nextByte_bounds hogText
    have hbyte := within (by omega)
    exact ⟨List.length_eq_one_iff.mp (by omega), by omega⟩
  cases h with
  | firstLine incomplete =>
    obtain ⟨⟨b, rfl⟩, -⟩ := hsingle rfl
    exact keeps_firstLine incomplete hog
  | untilClose old =>
    rename_i length v
    have hsame : httpReceiveControllerWrapping (some (text ++ chunk)) cap (text ++ chunk).length og
        ⟨og, length, v.value, 2⟩ = .ok (og, .none, ⟨og, length, v.value, 2⟩) := by
      cases v <;> first | rfl | contradiction
    rw [hsame]
    exact keeps_untilClose old hog
  | head incomplete =>
    obtain ⟨⟨b, rfl⟩, hfull⟩ := hsingle rfl
    rw [hfull]
    exact keeps_header incomplete hog memory
  | settled =>
    have := within (Int.natCast_nonneg _)
    omega
  | body => exact ⟨⟨limited.notAbove, within, limited.notBody⟩, fun _ => .body⟩

theorem keeps_first (og : Int) (cap : Nat) :
    KeepsLimit og [] (httpReceiveControllerWrapping (some []) cap 0 og .zeroed) :=
  ⟨limited_nextByte (fun hpos => hpos) (show 0 * 10 + 1 ≠ 114 by decide), fun _ => .firstLine rfl⟩

end Step

/-- What the user relies on in every run of calls: the limit is not above the own one and not
below what has been received, phase 114 is not entered, and neither the first call nor any that
may come next fails an assertion. -/
structure RespectsLimit (og : Int) (buf : Option Bytes) : Prop where
  limited : ∀ {text maxLen action st}, ControllerRun og buf text maxLen action st →
    Limited og text maxLen st
  starts : ∀ cap, KeepsAsserts (httpReceiveControllerWrapping buf cap 0 og .zeroed)
  goesOn : ∀ {text maxLen st}, ControllerRun og buf text maxLen .none st →
    ∀ (chunk : Bytes) (cap : Nat), chunk ≠ [] →
      (0 ≤ maxLen → ((text ++ chunk).length : Int) ≤ maxLen) → (text ++ chunk).length < 2 ^ 63 →
        KeepsAsserts (httpReceiveControllerWrapping (some (text ++ chunk)) cap
          (text ++ chunk).length maxLen st)

/-- A run never goes beyond the limit of the user. -/
theorem ControllerRun.limited {og maxLen : Int} {text : Bytes} {action : RecvAction}
    {st : HttpReceiveControllerState} (run : ControllerRun og (some []) text maxLen action st) :
    Limited og text maxLen st ∧ (action = .none → LimitPhase og text st maxLen) := by
  induction run with
  | first cap call =>
    have hkeeps := keeps_first og cap
    rw [call] at hkeeps
    exact hkeeps
  | next cap run received within memory call ih =>
    have hkeeps := keeps_step (ih.2 rfl) ih.1 received within memory cap
    rw [call] at hkeeps
    exact hkeeps

theorem KeepsLimit.asserts {og : Int} {text : Bytes}
    {result : Except Stop (Int × RecvAction × HttpReceiveControllerState)}
    (h : KeepsLimit og text result) : KeepsAsserts result := by
  cases result with
  | ok answer => exact avoids_ok answer
  | error stop => exact h

theorem respectsLimit (og : Int) : RespectsLimit og (some []) where
  limited run := run.limited.1
  starts cap := (keeps_first og cap).asserts
  goesOn run _ cap received within memory := by
    obtain ⟨hlimited, hphase⟩ := run.limited
    exact (keeps_step (hphase rfl) hlimited received within memory cap).asserts

/-- What `recvAllData` calls the controller with. -/
theorem receivedBytes_first {σ : Type} (call : RecvCall σ) (builder : StringBuilder) (maxLen : Int)
    (state : σ) (stream : Bytes) :
    receivedBytes call (recvStart builder maxLen state stream) = .ok (firstBuffer builder) := by
  have hnothing (cells : List (Option Byte)) : readCells cells 0 = .ok [] := by
    cases cells <;> rfl
  unfold receivedBytes firstBuffer recvStart
  dsimp only
  split
  · rfl
  · rw [hnothing]
    rfl

/-- The first call without a buffer is the last one. -/
theorem recvAllData_without_buffer (rt : Runtime) {builder : StringBuilder}
    (hcap : builder.cap = 0) (fd og : Int) (timeoutIsError : Bool) (stream : Bytes)
    (events : List SocketEvent) :
    recvAllData rt fd builder og timeoutIsError 0 (some httpReceiveController) .zeroed stream
      events = .error (.fault .assertFailed) := by
  have hgrow : growFor rt builder (toSize 0) = .ok builder :=
    if_neg (by rw [hcap]; exact Nat.lt_irrefl 0)
  have hbuffer := receivedBytes_first (recvCall fd builder timeoutIsError 0
    (some httpReceiveController)) builder og .zeroed stream
  rw [firstBuffer, if_pos hcap] at hbuffer
  have hfirst : runController (recvCall fd builder timeoutIsError 0 (some httpReceiveController))
      (recvStart builder og .zeroed stream) = .error (.fault .assertFailed) := by
    unfold runController
    dsimp only [recvCall] at hbuffer ⊢
    rw [hbuffer]
    rfl
  unfold recvAllData
  rw [if_neg (by decide : ¬ (0 : Int) < 0)]
  dsimp only
  rw [hgrow, ok_bind]
  exact congrArg (· >>= _) hfirst

/-- The builder stays without an allocation only where none is there and none is asked for. -/
theorem growFor_cap_eq_zero {rt : Runtime} {builder room : StringBuilder} {n : Nat}
    (hok : growFor rt builder n = .ok room) : room.cap = 0 ↔ builder.cap = 0 ∧ n = 0 := by
  unfold growFor at hok
  split at hok
  · have hcap := expand_cap hok
    have := (newCapacity_bounds rt n).1
    omega
  · cases Except.ok.inj hok
    omega

/-- `recvAllData` with the HTTP controller respects the limit unless it starts with an empty
builder and with 0 as `sb_min_cap`: then the controller's first assertion fails. -/
theorem controller_within_limit_iff {rt : Runtime} {builder room : StringBuilder} {sbMinCap : Int}
    (og : Int) (hminCap : IsSsize sbMinCap)
    (hroom : growFor rt builder
      (toSize (if sbMinCap < 0 then defaultSbMinCap else sbMinCap)) = .ok room) :
    RespectsLimit og (firstBuffer room) ↔ builder.cap ≠ 0 ∨ sbMinCap ≠ 0 := by
  have hdefault : defaultSbMinCap = 1024 := rfl
  have hzero : toSize (if sbMinCap < 0 then defaultSbMinCap else sbMinCap) = 0 ↔ sbMinCap = 0 := by
    unfold IsSsize at hminCap
    unfold toSize
    split <;> omega
  have hcap := growFor_cap_eq_zero hroom
  rw [hzero] at hcap
  rw [← not_and_or, ← hcap]
  unfold firstBuffer
  constructor
  · intro h hnull
    rw [if_pos hnull] at h
    exact h.starts 0 rfl
  · intro hsome
    rw [if_neg hsome]
    exact respectsLimit og

/-- With a builder of one byte, the first byte of a message is received with a limit of two. -/
theorem controller_within_limit_oneByte :
    RespectsLimit 100 (firstBuffer ⟨0, 1, [none]⟩) ∧
      ∃ st, ControllerRun 100 (firstBuffer ⟨0, 1, [none]⟩) [72] 2 .none st ∧
        Limited 100 [72] 2 st := by
  have hroom : growFor .unlimited ⟨0, 1, [none]⟩
      (toSize (if (1 : Int) < 0 then defaultSbMinCap else 1)) = .ok ⟨0, 1, [none]⟩ := rfl
  have h := (controller_within_limit_iff 100 (by decide) hroom).mpr (.inl Nat.one_ne_zero)
  have hrun : ControllerRun 100 (some []) ([] ++ [72]) 2 .none ⟨100, 0, 0, 1⟩ :=
    .next 64 (.first 64 rfl) (List.cons_ne_nil _ _) (by decide) (by decide) rfl
  exact ⟨h, _, hrun, h.limited hrun⟩

/-- Without a minimum, the call with an empty builder ends in the assertion. -/
theorem controller_without_buffer :
    ¬ RespectsLimit (-1) (firstBuffer ⟨0, 0, []⟩) ∧
      ∀ (stream : Bytes) (events : List SocketEvent),
        recvAllData .unlimited 3 ⟨0, 0, []⟩ (-1) true 0 (some httpReceiveController) .zeroed stream
          events = .error (.fault .assertFailed) :=
  ⟨fun h => h.starts 0 rfl, recvAllData_without_buffer .unlimited rfl 3 (-1) true⟩

end Net77.Http
