import Net77.Http.ReceiveLoop

/-! Whole messages on a connection: when they are told apart, and when a result
of the receive loop that reports success is one. -/
namespace Net77.Http

open Net77.Base

def isBlank (c : Byte) : Bool := c = space || c = tab

/-- The number that decimal digits behind the number `n` denote. -/
def decimalFrom (n : Nat) (digits : Bytes) : Nat :=
  digits.foldl (fun n c => n * 10 + (c.toNat - 48)) n

/-- A decimal number between blanks, up to the end of its line. -/
def LengthValue (field : Bytes) (value : Nat) : Prop :=
  ∃ before digits after rest, field = before ++ (digits ++ (after ++ cr :: rest)) ∧
    (∀ c ∈ before, isBlank c = true) ∧ (∀ c ∈ digits, isDigit c = true) ∧ digits ≠ [] ∧
    (∀ c ∈ after, isBlank c = true) ∧ decimalFrom 0 digits = value

/-- The value that a head gives for the length of its body. -/
def Announces (head : Bytes) (value : Nat) : Prop :=
  ∃ field, lengthText head = some field ∧ LengthValue field value

/-- All of the head, and as many bytes of body as it says. -/
def CompleteMessage (text : Bytes) : Prop :=
  ∃ headEnd value, firstEnd endOfHeader text = some headEnd ∧
    Announces (text.take headEnd) value ∧ text.length = headEnd + value

section Number

theorem le_decimalFrom (n : Nat) (digits : Bytes) : n ≤ decimalFrom n digits := by
  induction digits generalizing n with
  | nil => exact Nat.le_refl n
  | cons c digits ih =>
    have := ih (n * 10 + (c.toNat - 48))
    unfold decimalFrom at this ⊢
    rw [List.foldl_cons]
    omega

theorem strToUint_blanks {blanks : Bytes} (h : ∀ c ∈ blanks, isBlank c = true) (rest : Bytes)
    (out : Int) (legal : Bool) :
    strToUint (blanks ++ rest) out legal = strToUint rest out legal := by
  induction blanks with
  | nil => rfl
  | cons c blanks ih =>
    rw [List.forall_mem_cons] at h
    have hblank : c = space ∨ c = tab := by simpa [isBlank] using h.1
    have hdigit : isDigit c = false := by rcases hblank with rfl | rfl <;> decide
    rw [List.cons_append, strToUint, hdigit, if_neg (by decide), if_pos hblank, ih h.2]

/-- The digits are read as their number, if that does not overflow on the way. -/
theorem strToUint_digits {digits : Bytes} (h : ∀ c ∈ digits, isDigit c = true) (rest : Bytes)
    (n : Nat) (legal : Bool) :
    strToUint (digits ++ rest) n legal =
        strToUint rest (decimalFrom n digits) (legal || !digits.isEmpty) ∨
      strToUint (digits ++ rest) n legal = .error (.fault .intOverflow) ∧
        2 ^ 63 ≤ decimalFrom n digits + 48 := by
  induction digits generalizing n legal with
  | nil =>
    left
    simp [decimalFrom]
  | cons c digits ih =>
    rw [List.forall_mem_cons] at h
    have hlow : 48 ≤ c.toNat := by
      have := h.1
      simp only [isDigit, Bool.and_eq_true, decide_eq_true_eq, UInt8.le_iff_toNat_le] at this
      exact this.1
    have hnext : decimalFrom n (c :: digits) = decimalFrom (n * 10 + (c.toNat - 48)) digits := rfl
    have hle := le_decimalFrom (n * 10 + (c.toNat - 48)) digits
    rw [List.cons_append, strToUint, if_pos h.1, hnext]
    split
    · right
      refine ⟨rfl, ?_⟩
      omega
    · rw [show ((n : Int) * 10 + c.toNat - 48) = (n * 10 + (c.toNat - 48) : Nat) by omega]
      have hread := ih h.2 (n * 10 + (c.toNat - 48)) true
      simpa using hread

/-- A value that is one is read as such. -/
theorem LengthValue.read {field : Bytes} {value : Nat} (h : LengthValue field value) :
    strToUint field 0 false = .ok (value, none) ∨
      strToUint field 0 false = .error (.fault .intOverflow) ∧ 2 ^ 63 ≤ value + 48 := by
  obtain ⟨before, digits, after, rest, rfl, hbefore, hdigits, hne, hafter, rfl⟩ := h
  rw [strToUint_blanks hbefore]
  rcases strToUint_digits hdigits (after ++ cr :: rest) 0 false with hread | hoverflow
  · left
    rw [show ((0 : Nat) : Int) = 0 from rfl] at hread
    have hlegal : (false || !digits.isEmpty) = true := by simpa using hne
    rw [hread, hlegal, strToUint_blanks hafter]
    rfl
  · exact .inr hoverflow

end Number

section Message

variable {stream text : Bytes} {og : Int} {r : Reception}

/-- The first line of a text that reaches beyond the head. -/
theorem FirstLine.of_longer {longer : Bytes} {v : HttpVersion} {headEnd : Nat}
    (h : FirstLine longer v) (hle : text <+: longer)
    (complete : firstEnd endOfHeader text = some headEnd) : FirstLine text v := by
  obtain ⟨lineEnd, rest, hend, hparse⟩ := h
  cases hline : firstEnd crlf text with
  | none =>
    have hnone : firstEnd endOfHeader text = none := firstEnd_none_of_start ⟨crlf, rfl⟩ hline
    rw [hnone] at complete
    contradiction
  | some n =>
    obtain ⟨hn, htake⟩ := firstEnd_mono hline hle
    obtain rfl := Option.some.inj (hn.symm.trans hend)
    exact ⟨n, rest, hline, by rw [← htake, hparse]⟩

/-- A complete message is received as it is, and nothing behind it. -/
theorem receive_complete {message : Bytes} (line : FirstLine message .http11)
    (complete : CompleteMessage message) (hlen : message.length < 2 ^ 62)
    (hog : og < 0 ∨ (message.length : Int) ≤ og) (rest : Bytes) :
    receiveMessage (message ++ rest) og = .ok ⟨0, message, false⟩ := by
  obtain ⟨headEnd, value, hend, ⟨field, found, hvalue⟩, htotal⟩ := complete
  have hle : message <+: message ++ rest := List.prefix_append message rest
  have hread : strToUint field 0 false = .ok (value, none) := by
    rcases hvalue.read with hread | ⟨-, hoverflow⟩
    · exact hread
    · omega
  have hsum : addSsize value headEnd = .ok (message.length : Int) := by
    rw [addSsize, if_pos (by omega), pure_eq_ok]
    congr 1
    omega
  have hmin : optMin message.length og = message.length := by
    unfold optMin
    repeat' split
    all_goals omega
  rw [receive_head (prefix_cut hle (by omega)) line hend, receiveBody_read found hread,
    if_neg (by omega), List.length_take, Nat.min_eq_left (firstEnd_some hend).1, hsum, ok_bind,
    hmin, untilLimit_full hle rfl]

end Message

section Connection

/-- What a caller passes for one message. -/
structure ReceiveCall where
  builder : StringBuilder
  maxLen : Int
  timeoutIsError : Bool
  sbMinCap : Int

/-- Successive calls of `recvAllData` on one socket, with what they leave behind. -/
def receiveEach (rt : Runtime) (fd : Int) :
    List ReceiveCall → (stream : Bytes) → List SocketEvent →
      Except Stop (List RecvResult × Bytes)
  | [], stream, _ => pure ([], stream)
  | call :: calls, stream, events => do
    let res ← recvAllData rt fd call.builder call.maxLen call.timeoutIsError call.sbMinCap
      (some httpReceiveController) .zeroed stream events
    let (results, stream) ← receiveEach rt fd calls res.stream res.events
    pure (res :: results, stream)

/-- The call is made for a message: its builder is fresh, its limit allows the
message, and no expansion that the message causes is beyond `maxCapacity`. -/
structure Accommodates (call : ReceiveCall) (message : Bytes) : Prop where
  fresh : call.builder.Holds []
  maxLen_isSsize : IsSsize call.maxLen
  limit : call.maxLen < 0 ∨ (message.length : Int) ≤ call.maxLen
  minCap_pos : 1 ≤ call.sbMinCap
  memory : (message.length + call.sbMinCap : Int) ≤ maxCapacity + 1

/-- What a call returns for a message. -/
structure Received (message : Bytes) (res : RecvResult) : Prop where
  status : res.status = 0
  holds : res.builder.Holds message
  stillOpen : res.closedSock = false

/-- The step of the framing: one message is received and the rest is left. -/
theorem recvAllData_message {rt : Runtime} (halloc : rt.AllocSucceeds) (fd : Int)
    {call : ReceiveCall} {message : Bytes} (hcall : Accommodates call message)
    (line : FirstLine message .http11) (complete : CompleteMessage message) (rest : Bytes)
    {events : List SocketEvent} (hevents : ∀ event ∈ events, event.Readable)
    (hcount : message.length ≤ events.length) :
    ∃ res used, recvAllData rt fd call.builder call.maxLen call.timeoutIsError call.sbMinCap
        (some httpReceiveController) .zeroed (message ++ rest) events = .ok res ∧
      Received message res ∧ res.stream = rest ∧ events = used ++ res.events ∧
      used.length ≤ message.length := by
  have hcomplete := complete
  obtain ⟨headEnd, value, hend, -⟩ := hcomplete
  have hpos := (firstEnd_some hend).1.trans' (firstEnd_some hend).2
  have hfour : endOfHeader.length = 4 := rfl
  have hmemory := hcall.memory
  have hlen : message.length < 2 ^ 62 := by
    have := hcall.minCap_pos
    unfold maxCapacity at hmemory
    omega
  have hmessage := receive_complete line complete hlen hcall.limit rest
  obtain ⟨res, used, hrun, hused, hbound⟩ := recvAllData_total fd
    call.timeoutIsError hcall.fresh hcall.maxLen_isSsize halloc
    hcall.minCap_pos (by omega) hmessage rfl hmemory hevents hcount
  obtain ⟨r, hr, hdelivers⟩ := recvAllData_spec hcall.fresh hcall.maxLen_isSsize
    (fun event hmem => .inl (hevents event hmem)) hrun
  cases Except.ok.inj (hr.symm.trans hmessage)
  refine ⟨res, used, hrun, ⟨hdelivers.status, hdelivers.holds rfl, hdelivers.closedSock⟩, ?_,
    hused, hbound⟩
  exact List.append_cancel_left hdelivers.rest

/-- Calls that are each made for their message take a stream of messages apart. -/
theorem messages_framed {rt : Runtime} (halloc : rt.AllocSucceeds) (fd : Int)
    {calls : List ReceiveCall} {messages : List Bytes}
    (hcalls : List.Forall₂ Accommodates calls messages)
    (hline : ∀ message ∈ messages, FirstLine message .http11)
    (hcomplete : ∀ message ∈ messages, CompleteMessage message) (rest : Bytes)
    {events : List SocketEvent} (hevents : ∀ event ∈ events, event.Readable)
    (hcount : messages.flatten.length ≤ events.length) :
    ∃ results, receiveEach rt fd calls (messages.flatten ++ rest) events = .ok (results, rest) ∧
      List.Forall₂ Received messages results := by
  induction hcalls generalizing events with
  | nil => exact ⟨[], rfl, .nil⟩
  | @cons call message calls messages hcall hcalls ih =>
    rw [List.forall_mem_cons] at hline hcomplete
    rw [List.flatten_cons, List.length_append] at hcount
    rw [List.flatten_cons, List.append_assoc]
    obtain ⟨res, used, hrun, hreceived, hrest, hused, hbound⟩ := recvAllData_message halloc
      fd hcall hline.1 hcomplete.1 (messages.flatten ++ rest) hevents (by omega)
    have hlen := congrArg List.length hused
    rw [List.length_append] at hlen
    obtain ⟨results, hresults, hall⟩ := ih hline.2 hcomplete.2
      (fun event hmem => hevents event (by rw [hused]; exact List.mem_append_right used hmem))
      (by omega)
    refine ⟨res :: results, ?_, .cons hreceived hall⟩
    rw [receiveEach, hrun, ok_bind, hrest, hresults]
    rfl

/-- A response with two bytes of body. -/
def greeting : Bytes :=
  ascii ['H', 'T', 'T', 'P', '/', '1', '.', '1', ' ', '2', '0', '0', ' ', 'O', 'K'] ++ crlf ++
    contentLengthHeaderName ++ ascii [' ', '2'] ++ crlf ++ crlf ++ ascii ['h', 'i']

theorem greeting_line : FirstLine greeting .http11 := ⟨17, _, by decide, rfl⟩

theorem greeting_complete : CompleteMessage greeting :=
  ⟨38, 2, by decide, ⟨_, rfl, [space], [50], [], [lf, cr, lf], by decide⟩, by decide⟩

/-- Any number of bytes at a time can be read. -/
def readable (size : Nat) : SocketEvent :=
  ⟨.ready (.only true false), size⟩

/-- Two responses and the first byte of a third one. -/
theorem messages_framed_greetings :
    ∃ results, receiveEach .unlimited 3 [⟨⟨0, 0, []⟩, -1, true, 1⟩, ⟨⟨0, 0, []⟩, 64, true, 7⟩]
        ([greeting, greeting].flatten ++ [72]) (List.replicate 80 (readable 2)) =
          .ok (results, [72]) ∧
      List.Forall₂ Received [greeting, greeting] results := by
  have fresh : StringBuilder.Holds ⟨0, 0, []⟩ [] := .empty
  refine messages_framed Runtime.unlimited_allocSucceeds 3 ?_ ?_ ?_ [72] ?_ ?_
  · refine .cons ⟨fresh, by decide, by decide, by decide, by decide⟩ ?_
    exact .cons ⟨fresh, by decide, by decide, by decide, by decide⟩ .nil
  · simp [greeting_line]
  · simp [greeting_complete]
  · intro event hmem
    obtain rfl := List.eq_of_mem_replicate hmem
    exact ⟨_, rfl, rfl, rfl, rfl⟩
  · decide

end Connection

end Net77.Http
