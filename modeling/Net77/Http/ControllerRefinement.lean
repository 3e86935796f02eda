import Net77.Http.Reception

/-! The receive loop with the HTTP controller delivers what `receiveMessage`
says, however the stream is cut into pieces. The invariant is `Phase`; it is kept
by the controller and decides the result wherever the loop ends. -/
namespace Net77.Http

open Net77.Base

theorem nextByte_bounds {n : Nat} {og : Int} (hog : 0 ≤ og → (n : Int) ≤ og) :
    (n : Int) ≤ nextByte n og ∧ nextByte n og ≤ n + 1 ∧ (0 ≤ og → nextByte n og ≤ og) ∧
      (nextByte n og ≤ n → (n : Int) = og) ∧ (n < nextByte n og → og < 0 ∨ n < og) := by
  unfold nextByte initBatchRecvSize optMin
  repeat' split
  all_goals omega

theorem optMin_bounds {total : Int} (htotal : 0 ≤ total) (og : Int) :
    0 ≤ optMin total og ∧ optMin total og ≤ total ∧ (0 ≤ og → optMin total og ≤ og) ∧
      (optMin total og = total ∨ optMin total og = og) := by
  unfold optMin
  repeat' split
  all_goals omega

theorem addSsize_eq {a b total : Int} (h : addSsize a b = .ok total) :
    total = a + b ∧ IsSsize total := by
  unfold addSsize at h
  split at h
  · rename_i hbounds
    cases Except.ok.inj h
    exact ⟨rfl, hbounds⟩
  · simp at h

namespace Phase

variable {og maxLen : Int} {text stream : Bytes} {st : HttpReceiveControllerState}

/-- The controller never allows more than the caller, nor less than is there. -/
theorem maxLen_bounds (h : Phase og text st maxLen) (hog : 0 ≤ og → (text.length : Int) ≤ og) :
    (0 ≤ og → maxLen ≤ og ∧ 0 ≤ maxLen) ∧
      (IsSsize og → (text.length : Int) < 2 ^ 62 → IsSsize maxLen) := by
  unfold IsSsize
  cases h with
  | firstLine | head =>
    have hbounds := nextByte_bounds hog
    omega
  | untilClose => exact ⟨fun hpos => ⟨Int.le_refl og, hpos⟩, fun hssize _ => hssize⟩
  | unreadable =>
    exact ⟨fun hpos => ⟨hog hpos, by omega⟩, fun _ hlen => by omega⟩
  | @body field headEnd value total terminator line complete found read natural sum =>
    obtain ⟨rfl, hssize⟩ := addSsize_eq sum
    unfold IsSsize at hssize
    have hbounds := optMin_bounds (by omega : 0 ≤ value + headEnd) og
    omega

/-- What the controller allows, the caller allows. -/
theorem within (h : Phase og text st maxLen) (hog : 0 ≤ og → (text.length : Int) ≤ og) {n : Nat}
    (hmax : 0 ≤ maxLen → (n : Int) ≤ maxLen) (hpos : 0 ≤ og) : (n : Int) ≤ og := by
  have hbounds := (h.maxLen_bounds hog).1 hpos
  have := hmax hbounds.2
  omega

/-- Where the loop condition fails, everything to be received is there. -/
theorem done (h : Phase og text st maxLen) (hle : text <+: stream)
    (hog : 0 ≤ og → (text.length : Int) ≤ og) (hstop : 0 ≤ maxLen ∧ maxLen ≤ text.length)
    (hmax : (text.length : Int) ≤ maxLen) : receiveMessage stream og = .ok ⟨0, text, false⟩ := by
  have hcut := prefix_cut hle hog
  cases h with
  | firstLine incomplete =>
    have hfull := (nextByte_bounds hog).2.2.2.1 hstop.2
    rw [receive_noLine (by rw [cut_full hle hfull]; exact incomplete), untilLimit_full hle hfull]
  | untilClose line old =>
    rw [receive_line hcut line, if_neg old, untilLimit_full hle (by omega)]
  | head line incomplete =>
    have hfull := (nextByte_bounds hog).2.2.2.1 hstop.2
    rw [receive_line hcut line, if_pos rfl, receiveHead, cut_full hle hfull, incomplete]
    dsimp only
    rw [untilLimit_full hle hfull]
    rfl
  | unreadable line complete found read negative =>
    rw [receive_head hcut line complete, List.take_length, receiveBody_read found read,
      if_pos negative]
  | body line complete found read natural sum =>
    have hend := (firstEnd_some complete).1
    rw [receive_head hcut line complete, receiveBody_read found read, if_neg (by omega),
      List.length_take, Nat.min_eq_left hend, sum, ok_bind, untilLimit_full hle (by omega)]

/-- Where the stream ends before that, it is received as far as it goes. -/
theorem close (h : Phase og stream st maxLen) (hog : 0 ≤ og → (stream.length : Int) ≤ og)
    (hmore : maxLen < 0 ∨ (stream.length : Int) < maxLen) :
    receiveMessage stream og = .ok ⟨0, stream, true⟩ := by
  have hcut := prefix_cut List.prefix_rfl hog
  cases h with
  | firstLine incomplete =>
    have hbounds := nextByte_bounds hog
    have hshort : og < 0 ∨ (stream.length : Int) < og := by omega
    rw [receive_noLine (by rw [cut_short hshort]; exact incomplete), untilLimit_short hshort]
  | untilClose line old =>
    rw [receive_line hcut line, if_neg old, untilLimit_short hmore]
  | head line incomplete =>
    have hbounds := nextByte_bounds hog
    have hshort : og < 0 ∨ (stream.length : Int) < og := by omega
    rw [receive_line hcut line, if_pos rfl, receiveHead, cut_short hshort, incomplete]
    dsimp only
    rw [untilLimit_short hshort]
    rfl
  | unreadable line complete found read negative => omega
  | body line complete found read natural sum =>
    have hend := (firstEnd_some complete).1
    rw [receive_head hcut line complete, receiveBody_read found read, if_neg (by omega),
      List.length_take, Nat.min_eq_left hend, sum, ok_bind, untilLimit_short hmore]

end Phase

section Lower

variable {text stream : Bytes} {og : Int} {r : Reception}

theorem length_untilLimit {limit : Int} (hle : text <+: stream)
    (hlimit : 0 ≤ limit → (text.length : Int) ≤ limit) :
    text.length ≤ (untilLimit stream limit).bytes.length :=
  (prefix_cut hle hlimit).length_le

theorem length_receiveBody (hle : text <+: stream) (hog : 0 ≤ og → (text.length : Int) ≤ og)
    (hr : receiveBody stream text og = .ok r) : text.length ≤ r.bytes.length := by
  unfold receiveBody at hr
  split at hr
  · cases Except.ok.inj hr
    exact le_rfl
  · obtain ⟨⟨value, terminator⟩, -, hr⟩ := bind_eq_ok.mp hr
    dsimp only at hr
    split at hr
    · cases Except.ok.inj hr
      exact le_rfl
    · obtain ⟨total, hsum, hr⟩ := bind_eq_ok.mp hr
      cases Except.ok.inj hr
      obtain ⟨rfl, -⟩ := addSsize_eq hsum
      have hbounds := optMin_bounds (by omega : 0 ≤ value + text.length) og
      refine length_untilLimit hle fun hpos => ?_
      rcases hbounds.2.2.2 with heq | heq <;> omega

theorem cut_bounds (stream : Bytes) (og : Int) {n : Nat} (hn : n ≤ (cut stream og).length) :
    (cut stream og).take n <+: stream ∧
      (0 ≤ og → (((cut stream og).take n).length : Int) ≤ og) := by
  refine ⟨(List.take_prefix _ _).trans (cut_isPrefix stream og), fun hpos => ?_⟩
  have := length_cut stream og
  rw [if_neg (by omega)] at this
  rw [List.length_take]
  omega

theorem length_receiveHead (hle : text <+: cut stream og)
    (incomplete : firstEnd endOfHeader text = none) (hr : receiveHead stream og = .ok r) :
    text.length ≤ r.bytes.length := by
  unfold receiveHead at hr
  split at hr
  · cases Except.ok.inj hr
    exact hle.length_le
  · rename_i headEnd hend
    have hlt := length_lt_firstEnd incomplete hle hend
    have hn := (firstEnd_some hend).1
    obtain ⟨hstart, hlimit⟩ := cut_bounds stream og hn
    have := length_receiveBody hstart hlimit hr
    rw [List.length_take] at this
    omega

theorem length_receiveMessage (hle : text <+: cut stream og)
    (incomplete : firstEnd crlf text = none) (hr : receiveMessage stream og = .ok r) :
    text.length ≤ r.bytes.length := by
  unfold receiveMessage at hr
  split at hr
  · cases Except.ok.inj hr
    exact hle.length_le
  · rename_i lineEnd hend
    have hlt := length_lt_firstEnd incomplete hle hend
    have hn := (firstEnd_some hend).1
    split at hr
    · cases Except.ok.inj hr
      rw [List.length_take]
      omega
    · simp at hr
    · split at hr
      · exact length_receiveHead hle (firstEnd_none_of_start ⟨crlf, rfl⟩ incomplete) hr
      · cases Except.ok.inj hr
        exact hle.length_le

end Lower

namespace Phase

variable {og maxLen : Int} {text stream : Bytes} {st : HttpReceiveControllerState}

/-- Nothing that was received is too much. -/
theorem length_le (h : Phase og text st maxLen) (hle : text <+: stream)
    (hog : 0 ≤ og → (text.length : Int) ≤ og)
    (hmax : 0 ≤ maxLen → (text.length : Int) ≤ maxLen) {r : Reception}
    (hr : receiveMessage stream og = .ok r) : text.length ≤ r.bytes.length := by
  have hcut := prefix_cut hle hog
  cases h with
  | firstLine incomplete => exact length_receiveMessage hcut incomplete hr
  | untilClose line old =>
    rw [receive_line hcut line, if_neg old] at hr
    cases Except.ok.inj hr
    exact hcut.length_le
  | head line incomplete =>
    rw [receive_line hcut line, if_pos rfl] at hr
    exact length_receiveHead hcut incomplete hr
  | unreadable line complete found read negative =>
    rw [receive_head hcut line complete, List.take_length] at hr
    exact length_receiveBody hle hog hr
  | body line complete found read natural sum =>
    have hend := (firstEnd_some complete).1
    rw [receive_head hcut line complete, receiveBody_read found read, if_neg (by omega),
      List.length_take, Nat.min_eq_left hend, sum, ok_bind] at hr
    cases Except.ok.inj hr
    exact length_untilLimit hle hmax

/-- What the answer of the controller means for the message. -/
def Agrees (og : Int) (stream text : Bytes) :
    Except Stop (Int × RecvAction × HttpReceiveControllerState) → Prop
  | .ok (maxLen, .none, st) =>
    Phase og text st maxLen ∧ (0 ≤ maxLen → (text.length : Int) ≤ maxLen)
  | .ok (maxLen, .rejectRequest, _) =>
    receiveMessage stream og = .ok ⟨1, text, false⟩ ∧ (text.length : Int) ≤ maxLen
  | .ok (_, .finished, _) => False
  | .error stop => receiveMessage stream og = .error stop

/-- The answer to a byte in the first line. -/
theorem step_firstLine {b : Byte} {length : Int} (incomplete : firstEnd crlf text = none)
    (hle : text ++ [b] <+: stream) (hog : 0 ≤ og → ((text ++ [b]).length : Int) ≤ og) :
    Agrees og stream (text ++ [b])
      (recvFirstLine (text ++ [b]) (text ++ [b]).length ⟨og, length, 0, 1⟩) := by
  have hcut := prefix_cut hle hog
  have hnext := nextByte_bounds hog
  have hfind := find_control (show ∀ c ∈ crlf, c < 32 by decide) (text ++ [b])
  unfold recvFirstLine
  rw [show headerFieldDelimiter = crlf from rfl]
  cases hfound : findAsciiSubstringCaseInsensitive (text ++ [b]) crlf with
  | none =>
    rw [hfound] at hfind
    exact ⟨.firstLine hfind.symm, fun _ => hnext.1⟩
  | some i =>
    rw [hfound] at hfind
    have hend : firstEnd crlf (text ++ [b]) = some (text ++ [b]).length := by
      rw [← hfind, Option.map_some, ← firstEnd_concat incomplete hfind.symm]
    have hreceive := receive_lineEnd hcut hend
    cases hparse : parseHttpVersion ⟨(text ++ [b]).length, text ++ [b]⟩ with
    | error stop =>
      rw [hparse] at hreceive
      cases stop with
      | status code => exact ⟨hreceive, hnext.1⟩
      | fault reason => exact hreceive
      | blocked => exact hreceive
    | ok result =>
      obtain ⟨v, rest⟩ := result
      have line : FirstLine (text ++ [b]) v :=
        ⟨_, rest, hend, by rw [List.take_length]; exact hparse⟩
      cases v with
      | http09 => exact ⟨.untilClose line (by decide), hog⟩
      | http10 => exact ⟨.untilClose line (by decide), hog⟩
      | http11 => exact ⟨.head line (firstEnd_longer_none ⟨crlf, rfl⟩ (by decide) hend),
          fun _ => hnext.1⟩

/-- The answer to the byte that completes the head. -/
theorem step_headEnd {length : Int} (line : FirstLine text .http11)
    (complete : firstEnd endOfHeader text = some text.length)
    (hle : text <+: stream) (hog : 0 ≤ og → (text.length : Int) ≤ og) :
    Agrees og stream text
      (recvContentLength text text.length text.length ⟨og, length, 11, 3⟩) := by
  have hcut := prefix_cut hle hog
  have hreceive := receive_head hcut line complete
  rw [List.take_length] at hreceive
  unfold recvContentLength
  cases hfound : findAsciiSubstringCaseInsensitive text contentLengthHeaderName with
  | none =>
    have hnone : lengthText text = none := by rw [lengthText, hfound]; rfl
    rw [receiveBody, hnone] at hreceive
    exact ⟨hreceive, by omega⟩
  | some i =>
    have found : lengthText text = some (text.drop (i + contentLengthHeaderName.length)) := by
      rw [lengthText, hfound]
      rfl
    dsimp only
    cases hread : strToUint (text.drop (i + contentLengthHeaderName.length)) 0 false with
    | error stop =>
      rw [receiveBody, found] at hreceive
      dsimp only at hreceive
      rw [hread] at hreceive
      exact hreceive
    | ok result =>
      obtain ⟨value, terminator⟩ := result
      have hbody := hreceive.trans (receiveBody_read found hread)
      rw [ok_bind]
      dsimp only
      rcases strToUint_sound (by decide) hread with ⟨rfl, hnatural⟩ | hnegative
      · rw [if_pos ⟨hnatural, rfl⟩, getHeaderSize_eq, complete]
        rw [if_neg (by omega)] at hbody
        dsimp only
        rw [if_pos (Int.natCast_nonneg _)]
        cases hsum : addSsize value text.length with
        | error stop =>
          rw [hsum] at hbody
          exact hbody
        | ok total =>
          obtain ⟨htotal, -⟩ := addSsize_eq hsum
          have hbounds := optMin_bounds (by omega : 0 ≤ total) og
          rw [ok_bind, show total - ((text.length : Int) - text.length) = total by omega]
          refine ⟨.body line complete (by rwa [List.take_length]) hread hnatural hsum, ?_⟩
          intro hpos
          rcases hbounds.2.2.2 with heq | heq <;> omega
      · rw [if_neg (by omega)]
        exact ⟨.unreadable line complete found hread hnegative, fun _ => by omega⟩

/-- The answer to one more byte of the head. -/
theorem step_header {b : Byte} {length : Int} (line : FirstLine text .http11)
    (incomplete : firstEnd endOfHeader text = none) (hle : text ++ [b] <+: stream)
    (hog : 0 ≤ og → ((text ++ [b]).length : Int) ≤ og) :
    Agrees og stream (text ++ [b])
      (recvHeader (text ++ [b]) (text ++ [b]).length (text ++ [b]).length
        ⟨og, length, 11, 2⟩) := by
  have line' := line.mono (List.prefix_append text [b])
  have htail := getHeaderSize_tail (b := b) incomplete
  unfold recvHeader
  dsimp only
  cases hend : firstEnd endOfHeader (text ++ [b]) with
  | none =>
    rw [if_pos (htail.mpr hend)]
    exact ⟨.head line' hend, fun _ => (nextByte_bounds hog).1⟩
  | some n =>
    rw [if_neg (htail.not.mpr (by rw [hend]; simp))]
    rw [firstEnd_concat incomplete hend] at hend
    exact step_headEnd line' hend hle hog

/-- The controller keeps the invariant for every chunk that the loop can get. -/
theorem step (h : Phase og text st maxLen) {chunk : Bytes} (hchunk : chunk ≠ [])
    (hle : text ++ chunk <+: stream) (hog : 0 ≤ og → (text.length : Int) ≤ og)
    (hmax : 0 ≤ maxLen → ((text ++ chunk).length : Int) ≤ maxLen) (cap : Nat) :
    Agrees og stream (text ++ chunk)
      (httpReceiveController (some (text ++ chunk)) cap (text ++ chunk).length maxLen st) := by
  have hog' := h.within hog hmax
  have hpos := List.length_pos_iff.mpr hchunk
  have hlen : (text ++ chunk).length = text.length + chunk.length := List.length_append
  -- in the first line and in the head the limit is the next byte
  have hsingle : maxLen = nextByte text.length og → ∃ b, chunk = [b] := fun hnext => by
    have hbounds := nextByte_bounds hog
    have := hmax (by omega)
    exact List.length_eq_one_iff.mp (by omega)
  cases h with
  | firstLine incomplete =>
    obtain ⟨b, rfl⟩ := hsingle rfl
    exact step_firstLine incomplete hle hog'
  | untilClose line old =>
    rename_i length v
    have hsame : httpReceiveController (some (text ++ chunk)) cap (text ++ chunk).length og
        ⟨og, length, v.value, 2⟩ = .ok (og, .none, ⟨og, length, v.value, 2⟩) := by
      cases v <;> first | rfl | contradiction
    rw [hsame]
    exact ⟨.untilClose (line.mono (List.prefix_append _ _)) old, hog'⟩
  | head line incomplete =>
    obtain ⟨b, rfl⟩ := hsingle rfl
    have hnext := nextByte_bounds hog
    have hlimit : nextByte text.length og = (text ++ [b]).length := by
      have := hmax (by omega)
      rw [hlen, List.length_singleton] at this ⊢
      omega
    rename_i length
    show Agrees og stream (text ++ [b])
      (recvHeader (text ++ [b]) (text ++ [b]).length (nextByte text.length og) ⟨og, length, 11, 2⟩)
    rw [hlimit]
    exact step_header line incomplete hle hog'
  | unreadable line complete found read negative =>
    have := hmax (by omega)
    omega
  | body line complete found read natural sum =>
    obtain ⟨complete', htake⟩ := firstEnd_mono complete (List.prefix_append text chunk)
    refine ⟨.body (line.mono (List.prefix_append _ _)) complete' ?_ read natural sum, hmax⟩
    rw [htake]
    exact found

/-- Nor is anything too much that the next chunk can bring. -/
theorem length_chunk_le (h : Phase og text st maxLen) {chunk : Bytes} (hchunk : chunk ≠ [])
    (hle : text ++ chunk <+: stream) (hog : 0 ≤ og → (text.length : Int) ≤ og)
    (hmax : 0 ≤ maxLen → ((text ++ chunk).length : Int) ≤ maxLen) {r : Reception}
    (hr : receiveMessage stream og = .ok r) : (text ++ chunk).length ≤ r.bytes.length := by
  have hstep := h.step hchunk hle hog hmax 0
  generalize httpReceiveController _ _ _ _ _ = answer at hstep
  cases answer with
  | error stop =>
    rw [Agrees, hr] at hstep
    contradiction
  | ok result =>
    obtain ⟨maxLen', action, state⟩ := result
    cases action with
    | none => exact hstep.1.length_le hle (h.within hog hmax) hstep.2 hr
    | rejectRequest =>
      cases Except.ok.inj (hr.symm.trans hstep.1)
      exact Nat.le_refl _
    | finished => exact absurd hstep id

end Phase

end Net77.Http
