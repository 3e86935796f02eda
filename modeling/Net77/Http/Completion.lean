import Mathlib.Data.List.DropRight
import Net77.Http.ContentLength
import Net77.ReceiveBounds

/-! What a successful result of `recvAllData` says about the message. -/
namespace Net77.Http

open Net77.Base

/-- The number that the first field `Content-Length` of a head declares. -/
def fieldLength (head : Bytes) : Option Nat :=
  ((headerLines head).tail.find? fun line =>
    decide (contentLengthHeaderName.map tolower <+: line.map tolower)).bind fun line =>
      plainNumber (((line.drop contentLengthHeaderName.length).dropWhile isBlank).rdropWhile isBlank)

/-- All of the head, and as many bytes of body as its field `Content-Length` says. -/
def WholeMessage (text : Bytes) : Prop :=
  ∃ headEnd value, firstEnd endOfHeader text = some headEnd ∧
    fieldLength (text.take headEnd) = some value ∧ text.length = headEnd + value

/-- A result that reports success for an HTTP/1.1 message has all of it. -/
def CompleteOnSuccess (stream : Bytes) (res : RecvResult) : Prop :=
  res.status = 0 → FirstLine (stream.take res.received) .http11 →
    WholeMessage (stream.take res.received) ∧ res.builder.Holds (stream.take res.received)

/-- The head that ends at `headEnd` declares `value`, and `found` is the number behind the first
`Content-Length:` in it, be that in another place. -/
structure Announced (text : Bytes) (headEnd value found : Nat) : Prop where
  complete : firstEnd endOfHeader text = some headEnd
  declared : fieldLength (text.take headEnd) = some value
  searched : ∃ field, lengthText (text.take headEnd) = some field ∧
    decimalFrom 0 (readDigits field) = found

/-- A larger number is found than the declared one, and the bytes end with the message. -/
def OverAnnounced (text : Bytes) : Prop :=
  ∃ headEnd value found, Announced text headEnd value found ∧ value < found ∧
    text.length = headEnd + value

/-- What can be received of an HTTP/1.1 message has all of its head. In that the text
`Content-Length:` does not occur; or the number found behind it is the declared one and the body
is there; or it is larger, but the bytes end where they should. -/
def Completable (text : Bytes) : Prop :=
  FirstLine text .http11 →
    (∃ headEnd, firstEnd endOfHeader text = some headEnd ∧
      lengthText (text.take headEnd) = none) ∨
    (∃ headEnd value, Announced text headEnd value value ∧ headEnd + value ≤ text.length) ∨
    OverAnnounced text

section Cases

variable {stream : Bytes} {og : Int} {r : Reception}

theorem untilLimit_isPrefix {limit : Int} (hlimit : 0 ≤ og → 0 ≤ limit ∧ limit ≤ og) :
    (untilLimit stream limit).bytes <+: cut stream og := by
  apply prefix_cut (cut_isPrefix stream limit)
  intro hpos
  have hbounds := hlimit hpos
  have hlen := length_cut stream limit
  rw [if_neg (by omega)] at hlen
  show ((cut stream limit).length : Int) ≤ og
  omega

/-- The number that is read: that of the digits, or none if there are no digits. -/
theorem strToUint_cases {field : Bytes} {value : Int} {terminator : Option Byte}
    (read : strToUint field 0 false = .ok (value, terminator)) :
    value = decimalFrom 0 (readDigits field) ∨ value = -1 ∧ readDigits field = [] := by
  have read := (strToUint_eq field 0 false).symm.trans read
  split at read
  · contradiction
  · split at read
    · exact .inl (Prod.mk.inj (Except.ok.inj read)).1.symm
    · rename_i hnone
      obtain ⟨-, hdigits⟩ := not_or.mp hnone
      obtain ⟨hnil, -⟩ := not_or.mp hdigits
      exact .inr ⟨(Prod.mk.inj (Except.ok.inj read)).1.symm, not_not.mp hnil⟩

/-- Behind the head, the number of bytes that was found is received, as far as they come. -/
structure Takes (stream : Bytes) (og : Int) (headEnd found : Nat) (r : Reception) : Prop where
  status : r.status = 0
  isPrefix : r.bytes <+: cut stream og
  length : r.bytes.length = min (headEnd + found) (cut stream og).length
  stillOpen : headEnd + found ≤ (cut stream og).length → r.closed = false

theorem takes_head (headEnd : Nat) :
    Takes stream og headEnd 0 ⟨0, (cut stream og).take headEnd, false⟩ :=
  ⟨rfl, List.take_prefix headEnd _, List.length_take, fun _ => rfl⟩

theorem takes_untilLimit (headEnd found : Nat) :
    Takes stream og headEnd found (untilLimit stream (optMin (found + headEnd) og)) := by
  have hbounds := optMin_bounds (by omega : (0 : Int) ≤ found + headEnd) og
  have hcut := length_cut stream og
  have htaken := length_cut stream (optMin (found + headEnd) og)
  rw [if_neg (by omega)] at htaken
  refine ⟨rfl, untilLimit_isPrefix fun hpos => ⟨hbounds.1, hbounds.2.2.1 hpos⟩, ?_, ?_⟩
  · show (cut stream (optMin (found + headEnd) og)).length = _
    split at hcut <;> omega
  · intro hfits
    apply decide_eq_false
    split at hcut <;> omega

/-- The ways in which the reception of an HTTP/1.1 message ends. -/
theorem receive_cases (line : FirstLine (cut stream og) .http11)
    (hr : receiveMessage stream og = .ok r) :
    firstEnd endOfHeader (cut stream og) = none ∧ r = untilLimit stream og ∨
    ∃ headEnd, firstEnd endOfHeader (cut stream og) = some headEnd ∧
      (lengthText ((cut stream og).take headEnd) = none ∧
          r = ⟨1, (cut stream og).take headEnd, false⟩ ∨
      ∃ field, lengthText ((cut stream og).take headEnd) = some field ∧
        Takes stream og headEnd (decimalFrom 0 (readDigits field)) r) := by
  rw [receive_line List.prefix_rfl line, if_pos rfl, receiveHead] at hr
  cases hend : firstEnd endOfHeader (cut stream og) with
  | none =>
    rw [hend] at hr
    exact .inl ⟨rfl, (Except.ok.inj hr).symm⟩
  | some headEnd =>
    rw [hend] at hr
    refine .inr ⟨headEnd, rfl, ?_⟩
    dsimp only at hr
    have hlen : ((cut stream og).take headEnd).length = headEnd := by
      rw [List.length_take, Nat.min_eq_left (firstEnd_some hend).1]
    cases hfield : lengthText ((cut stream og).take headEnd) with
    | none =>
      rw [receiveBody, hfield] at hr
      exact .inl ⟨rfl, (Except.ok.inj hr).symm⟩
    | some field =>
      right
      obtain ⟨⟨value, terminator⟩, hread⟩ : ∃ result, strToUint field 0 false = .ok result := by
        rw [receiveBody, hfield] at hr
        obtain ⟨result, hread, -⟩ := bind_eq_ok.mp hr
        exact ⟨result, hread⟩
      refine ⟨field, rfl, ?_⟩
      rw [receiveBody_read hfield hread] at hr
      rcases strToUint_cases hread with hvalue | ⟨hvalue, hnil⟩
      · rw [if_neg (by omega)] at hr
        obtain ⟨total, hsum, hr⟩ := bind_eq_ok.mp hr
        rw [(addSsize_eq hsum).1, hlen, hvalue] at hr
        obtain rfl := Except.ok.inj hr
        exact takes_untilLimit headEnd _
      · rw [if_pos (by omega)] at hr
        obtain rfl := Except.ok.inj hr
        rw [hnil]
        exact takes_head headEnd

/-- What is received is a beginning of what may be received. -/
theorem receive_isPrefix (hr : receiveMessage stream og = .ok r) : r.bytes <+: cut stream og := by
  by_cases line : FirstLine (cut stream og) .http11
  · rcases receive_cases line hr with ⟨-, rfl⟩ | ⟨headEnd, -, hhead⟩
    · exact List.prefix_rfl
    · rcases hhead with ⟨-, rfl⟩ | ⟨field, -, takes⟩
      · exact List.take_prefix headEnd _
      · exact takes.isPrefix
  · unfold receiveMessage at hr
    split at hr
    · cases Except.ok.inj hr
      exact List.prefix_rfl
    · rename_i lineEnd hend
      split at hr
      · cases Except.ok.inj hr
        exact List.take_prefix lineEnd _
      · simp at hr
      · rename_i v rest hparse
        split at hr
        · rename_i hversion
          subst hversion
          exact absurd ⟨lineEnd, rest, hend, hparse⟩ line
        · cases Except.ok.inj hr
          exact List.prefix_rfl

/-- The received text is complete only if there was enough of it, and what was searched for was
found where it belongs. -/
theorem completable_of_complete (hr : receiveMessage stream og = .ok r)
    (h : r.status = 0 → FirstLine r.bytes .http11 → WholeMessage r.bytes) :
    Completable (cut stream og) := by
  intro line
  have hle := receive_isPrefix hr
  rcases receive_cases line hr with ⟨hnone, rfl⟩ | ⟨headEnd, hend, hhead⟩
  · obtain ⟨headEnd, value, hend, -⟩ := h rfl line
    rw [untilLimit, hnone] at hend
    contradiction
  · rcases hhead with ⟨hnone, -⟩ | ⟨field, searched, takes⟩
    · exact .inl ⟨headEnd, hend, hnone⟩
    · have hlen := takes.length
      have hfits := (firstEnd_some hend).1
      obtain ⟨hend', htake⟩ := firstEnd_of_longer hend hle (by omega)
      obtain ⟨headEnd', value, hend'', declared, hwhole⟩ :=
        h takes.status (line.of_longer hle hend')
      cases Option.some.inj (hend'.symm.trans hend'')
      rw [htake] at declared
      have announced : Announced (cut stream og) headEnd value _ :=
        ⟨hend, declared, field, searched, rfl⟩
      by_cases heq : decimalFrom 0 (readDigits field) = value
      · rw [heq] at announced
        exact .inr (.inl ⟨headEnd, value, announced, by omega⟩)
      · exact .inr (.inr ⟨headEnd, value, _, announced, by omega, by omega⟩)

/-- Of a text like that, the message is received, and the connection is not seen to end behind
it unless more was expected. -/
theorem complete_of_completable (hr : receiveMessage stream og = .ok r)
    (h : Completable (cut stream og)) (hstatus : r.status = 0)
    (line : FirstLine r.bytes .http11) :
    WholeMessage r.bytes ∧ (r.closed = false ∨ OverAnnounced (cut stream og)) := by
  have hle := receive_isPrefix hr
  have hline := line.mono hle
  have hwhole : ∀ {headEnd value found}, Announced (cut stream og) headEnd value found →
      Takes stream og headEnd found r →
      min (headEnd + found) (cut stream og).length = headEnd + value → WholeMessage r.bytes := by
    intro headEnd value found announced takes hvalue
    have hlen := takes.length
    obtain ⟨hend', htake⟩ := firstEnd_of_longer announced.complete hle (by omega)
    exact ⟨headEnd, value, hend', by rw [htake]; exact announced.declared, by omega⟩
  have htakes : ∀ {headEnd value found}, Announced (cut stream og) headEnd value found →
      Takes stream og headEnd found r := by
    intro headEnd value found announced
    obtain ⟨field, searched, rfl⟩ := announced.searched
    rcases receive_cases hline hr with ⟨hnone, -⟩ | ⟨headEnd', hend', hhead⟩
    · rw [announced.complete] at hnone
      contradiction
    · cases Option.some.inj (announced.complete.symm.trans hend')
      rcases hhead with ⟨hnone, -⟩ | ⟨field', searched', takes⟩
      · rw [searched] at hnone
        contradiction
      · cases Option.some.inj (searched.symm.trans searched')
        exact takes
  rcases h hline with ⟨headEnd, hend, hnone⟩ | ⟨headEnd, value, announced, hfits⟩ | hover
  · rcases receive_cases hline hr with ⟨hnone', -⟩ | ⟨headEnd', hend', hhead⟩
    · rw [hend] at hnone'
      contradiction
    · cases Option.some.inj (hend.symm.trans hend')
      rcases hhead with ⟨-, rfl⟩ | ⟨field, searched, -⟩
      · exact absurd hstatus (show (1 : Int) ≠ 0 by decide)
      · rw [searched] at hnone
        contradiction
  · have takes := htakes announced
    exact ⟨hwhole announced takes (by omega), .inl (takes.stillOpen hfits)⟩
  · obtain ⟨headEnd, value, found, announced, hless, hend⟩ := hover
    exact ⟨hwhole announced (htakes announced) (by omega),
      .inr ⟨headEnd, value, found, announced, hless, hend⟩⟩

end Cases

section Kept

variable {rt : Runtime} {call : RecvCall HttpReceiveControllerState} {prior stream text : Bytes}
  {og : Int} {st : RecvState HttpReceiveControllerState}

/-- The next state of an iteration has the builder of the transfer. -/
theorem recvChunk_holds (nonneg : 0 ≤ call.sbMinCap) (minCap : IsSsize call.sbMinCap)
    (ample : Ample rt st.builder call.sbMinCap) (h : Gathered prior stream text st)
    (more : st.wantsMore = true) {size : Nat} {next : RecvNext HttpReceiveControllerState}
    (hok : recvChunk rt call size st = .ok next) :
    ∃ text, next.state.builder.Holds (prior ++ text) ∧ text ++ next.state.stream = stream := by
  unfold recvChunk at hok
  obtain ⟨⟨builder, chunk⟩, hinto, hok⟩ := bind_eq_ok.mp hok
  obtain ⟨hchunk, -, hfull⟩ := recvInto_spec h.holds h.received_le h.limit
    (wantsMore_iff.mp more) hinto
  dsimp only at hok
  split at hok
  · rename_i hnil
    subst hnil
    obtain ⟨room, hroom, -⟩ := bind_eq_ok.mp hinto
    obtain rfl := recvInto_nothing hinto hroom
    cases Except.ok.inj hok
    exact ⟨text, (reserveRecv_holds h.holds nonneg minCap ample hroom).1, h.rest⟩
  · rename_i hne
    have hlonger := h.extended (hfull hne).1 hchunk
    obtain ⟨hbuilder, hstream, -⟩ := runController_keeps hok
    refine ⟨text ++ chunk, ?_, ?_⟩
    · rw [hbuilder]
      exact hlonger.holds
    · rw [hstream]
      exact hlonger.rest

/-- The loop leaves all that was received in the builder, also where the last expansion is in
front of the end of the stream. -/
theorem loopRun_holds (hcall : Controls call prior) (hog : IsSsize og)
    (nonneg : 0 ≤ call.sbMinCap) (minCap : IsSsize call.sbMinCap)
    (small : (prior.length + stream.length + call.sbMinCap : Int) ≤ maxCapacity)
    {events : List SocketEvent} {res : RecvResult} (run : LoopRun rt call events st res)
    (hevents : ∀ event ∈ events, event.Readable ∨ event.HungUp)
    (h : Receiving og prior stream text st) :
    ∃ text, res.builder.Holds (prior ++ text) ∧ text ++ res.stream = stream := by
  have gathered : ∀ {text st}, Receiving og prior stream text st → Gathered prior stream text st :=
    fun h => ⟨h.holds, h.received, h.rest, h.limit_isSsize hog⟩
  induction run generalizing text with
  | stopped stop => exact ⟨text, h.holds, h.rest⟩
  | again more step run ih =>
    rw [List.forall_mem_cons] at hevents
    rcases hevents.1 with hread | hhup
    · rw [recvStep_readable hread] at step
      obtain ⟨chunk, -, hreceiving⟩ := recvChunk_spec hcall hog h more step
      exact ih hevents.2 hreceiving
    · rw [recvStep_hungUp hhup] at step
      cases Except.ok.inj step
  | @done event events st st' ec more step =>
    rw [List.forall_mem_cons] at hevents
    rcases hevents.1 with hread | hhup
    · rw [recvStep_readable hread] at step
      have ample : Ample rt _ call.sbMinCap := h.holds.ample h.rest nonneg minCap small
      exact recvChunk_holds nonneg minCap ample (gathered h) more step
    · rw [recvStep_hungUp hhup] at step
      cases Except.ok.inj step
      exact ⟨text, h.holds, h.rest⟩

end Kept

section Call

variable {rt : Runtime} {fd og sbMinCap : Int} {builder : StringBuilder} {timeoutIsError : Bool}
  {stream : Bytes} {events : List SocketEvent} {res : RecvResult}

/-- With a fresh builder and room for all of the stream, the call leaves what was received. -/
theorem recvAllData_holds (hbuilder : builder.Holds []) (hog : IsSsize og)
    (hminCap : IsSsize sbMinCap)
    (small : (stream.length + max sbMinCap defaultSbMinCap : Int) ≤ maxCapacity)
    (hevents : ∀ event ∈ events, event.Readable ∨ event.HungUp)
    (hrun : recvAllData rt fd builder og timeoutIsError sbMinCap (some httpReceiveController)
      .zeroed stream events = .ok res) :
    ∃ text, res.builder.Holds text ∧ text ++ res.stream = stream := by
  unfold recvAllData at hrun
  obtain ⟨room, hroom, hrun⟩ := bind_eq_ok.mp hrun
  have hfresh := hbuilder.grow_fresh hroom
  have hcall : Controls ⟨fd, if sbMinCap < 0 then defaultSbMinCap else sbMinCap, timeoutIsError,
      room.len, some httpReceiveController⟩ [] := ⟨hfresh.len_eq, rfl⟩
  have hdefault : defaultSbMinCap = 1024 := rfl
  have hmin : 0 ≤ (if sbMinCap < 0 then defaultSbMinCap else sbMinCap) ∧
      (if sbMinCap < 0 then defaultSbMinCap else sbMinCap) ≤ max sbMinCap defaultSbMinCap ∧
      IsSsize (if sbMinCap < 0 then defaultSbMinCap else sbMinCap) := by
    unfold IsSsize at *
    split <;> omega
  obtain ⟨next, hnext, hrun⟩ := bind_eq_ok.mp hrun
  by_cases hcap : room.cap = 0
  · rw [runController, receivedBytes, if_pos hcap] at hnext
    simp [httpReceiveController, bind, Except.bind] at hnext
  · obtain ⟨st, hstart, hreceiving⟩ := runController_start hcall hfresh hcap og stream
    cases Except.ok.inj (hstart.symm.trans hnext)
    refine loopRun_holds hcall hog hmin.1 hmin.2.2 ?_ (recvLoop_run hrun) hevents hreceiving
    rw [List.length_nil]
    dsimp only
    omega

end Call

section Truncated

/-- A response that announces five bytes of body and has two. -/
def truncated : Bytes :=
  ascii ['H', 'T', 'T', 'P', '/', '1', '.', '1', ' ', '2', '0', '0', ' ', 'O', 'K'] ++ crlf ++
    contentLengthHeaderName ++ ascii ['5'] ++ crlf ++ crlf ++ ascii ['h', 'i']

/-- A client without limits reads it until the peer closes the connection. -/
def readTruncated : Except Stop RecvResult :=
  recvAllData .unlimited 3 ⟨0, 0, []⟩ (-1) true 1 (some httpReceiveController) .zeroed truncated
    (List.replicate 60 (readable 99))

theorem readTruncated_result : ∃ res, readTruncated = .ok res ∧ res.status = 0 ∧
    res.closedSock = true ∧ res.stream = [] ∧ res.received = truncated.length := by
  have hrun : readTruncated.toOption.map (fun res =>
      (res.status, res.closedSock, res.stream, res.received)) =
        some (0, true, [], truncated.length) := by decide +kernel
  cases hres : readTruncated with
  | error stop =>
    rw [hres] at hrun
    contradiction
  | ok res =>
    rw [hres] at hrun
    simpa [Except.toOption] using hrun

/-- The number is that of the field, but what is searched for is found in a longer name. -/
example :
    let head := ascii ['H', 'T', 'T', 'P', '/', '1', '.', '1', ' ', '2', '0', '0', ' ', 'O', 'K'] ++
      crlf ++ ascii ['X', '-'] ++ contentLengthHeaderName ++ ascii ['0'] ++ crlf ++
      contentLengthHeaderName ++ ascii ['5'] ++ crlf ++ crlf
    fieldLength head = some 5 ∧
      (lengthText head).map (fun field => decimalFrom 0 (readDigits field)) = some 0 := by
  decide

end Truncated

end Net77.Http
