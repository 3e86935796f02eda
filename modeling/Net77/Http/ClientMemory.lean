import Net77.Http.MessageMemory
import Net77.Http.OneShot
import Net77.ReceiveMemory

/-! A program that uses the library as a client: everything it has that owns a block, the
calls it makes with them, and what is on the heap after any number of calls. -/
namespace Net77.Http

open Net77.Base

section Requests

variable (rt : Runtime) (allocator : Allocator Nat)

/-- The exchange and the pointer of `*out`. -/
def rawExchangeAt (session : Session) (req : StringRef) (maxResponseSize : Nat)
    (stream : Bytes) (events : List SocketEvent) : HeapCall (Exchange × Option Nat) :=
  if !session.isOpen then .lift (.error (.fault .assertFailed))
  else do
    let sent ← .lift (sendAllData session.socketFd req.data req.len events)
    let session := session.noteClosed sent.closedSock
    if sent.status ≠ 0 then
      pure (⟨⟨sent.status, session, none, sent.calls⟩, sent.sent, stream, sent.events⟩, none)
    else
      let (res, addr) ← waitThenRecvAllDataAt rt allocator true (-1) maxResponseSize
        (some httpReceiveController) .zeroed session.socketFd stream sent.events
      pure (⟨⟨res.status, session.noteClosed res.closedSock, res.out, sent.calls ++ res.calls⟩,
        sent.sent, res.stream, res.events⟩, addr)

def httpRawRequestAt (net : ConnectOutcome) (req : StringRef) (maxResponseSize : Nat)
    (connectTimeoutUsec : Int) (stream : Bytes) (events : List SocketEvent) :
    HeapCall (ClientResult × Option Nat) :=
  newSocketSendReceiveCloseAt rt allocator true (-1) maxResponseSize (some httpReceiveController)
    .zeroed net connectTimeoutUsec false req stream events

/-- What `httpRequestInSession` and `httpRequest` do around the raw request: the text of the
request is freed, but not the builder of one that cannot be serialized. -/
def withRequestText {α : Type} (req : HttpRequest) (failed : Int → α)
    (send : StringRef → HeapCall (α × Option Nat)) : HeapCall (α × Option Nat) := do
  match ← (stringifyRequestAt rt allocator req).attempt with
  | .error (.status err) => pure (failed err, none)
  | .error stop => .lift (.error stop)
  | .ok str =>
    let out ← send str.str.ref
    freeString str
    pure out

def httpRequestInSessionAt (session : Session) (req : HttpRequest) (maxResponseSize : Nat)
    (stream : Bytes) (events : List SocketEvent) : HeapCall (Exchange × Option Nat) :=
  if !session.isOpen then .lift (.error (.fault .assertFailed))
  else
    withRequestText rt allocator req (fun err => ⟨⟨err, session, none, []⟩, [], stream, events⟩)
      fun text => rawExchangeAt rt allocator session text maxResponseSize stream events

def httpRequestAt (net : ConnectOutcome) (req : HttpRequest) (maxResponseSize : Nat)
    (connectTimeoutUsec : Int) (stream : Bytes) (events : List SocketEvent) :
    HeapCall (ClientResult × Option Nat) :=
  withRequestText rt allocator req (fun err => ⟨err, none, []⟩)
    fun text => httpRawRequestAt rt allocator net text maxResponseSize connectTimeoutUsec stream
      events

end Requests

section RequestSpecs

variable {rt : Runtime} {allocator : Allocator Nat} {α : Type}
  {response : α → Option OwnedString} {req : HttpRequest}

theorem rawExchangeAt_leaves (session : Session) (text : StringRef) (maxResponseSize : Nat)
    (stream : Bytes) (events : List SocketEvent) :
    Disposes 0 (rawExchangeAt rt allocator session text maxResponseSize stream events)
      (Hands (ResponseHas fun done => done.result.out) fun _ => True) := by
  unfold rawExchangeAt
  split
  · exact Hands.fault _
  · refine Hands.bind Hands.lift_any ?_
    rintro sent left rfl
    dsimp only
    split
    · exact .pure ⟨rfl, iff_of_true rfl rfl⟩
    · refine Hands.bind (waitThenRecvAllDataAt_leaves _ stream sent.events) ?_
      rintro ⟨res, addr⟩ left ⟨rfl, hnone⟩
      exact .pure ⟨rfl, hnone⟩

/-- The response, and the builder of a request that could not be serialized. -/
def RequestHas (head : HttpHeader) (response : α → Option OwnedString) (out : α × Option Nat)
    (left : Multiset Nat) : Prop :=
  ∃ own lost, left = own + lost ∧ ResponseHas response out own ∧
    (head.Serializable ∧ lost = 0 ∨ Lost head lost)

theorem hands_error {kept : α → Multiset Nat → Prop} (stop : Stop) (left : Multiset Nat) :
    Hands kept (fun _ => True) (.error stop) left := by
  cases stop <;> trivial

theorem withRequestText_leaves {failed : Int → α} {send : StringRef → HeapCall (α × Option Nat)}
    (hfailed : ∀ err, response (failed err) = none)
    (hsend : ∀ text, Disposes 0 (send text) (Hands (ResponseHas response) fun _ => True)) :
    Disposes 0 (withRequestText rt allocator req failed send)
      (Hands (RequestHas req.head response) fun _ => True) := by
  refine Disposes.bind (stringifyRequestAt_leaves req).attempt ?_ fun stop left _ =>
    hands_error stop left
  rintro attempted left ⟨inner, hinner, hleft⟩
  obtain rfl := Except.ok.inj hinner
  cases attempted with
  | error stop =>
    cases stop with
    | status err =>
      exact .pure ⟨0, left, (Multiset.zero_add left).symm, ⟨rfl, iff_of_true (hfailed err) rfl⟩,
        .inr hleft⟩
    | fault fault => exact Hands.fault fault
    | blocked => exact .lift trivial
  | ok str =>
    -- while the request is sent, its text is what the raw request does not know of
    obtain ⟨rfl, hserializable⟩ := hleft
    have hsent := (hsend str.str.ref).frame (blocks str.addr)
    rw [Multiset.zero_add] at hsent
    refine Disposes.bind hsent ?_ fun stop left _ => hands_error stop left
    rintro out left ⟨own, hown, rfl⟩
    have hfree : Disposes (blocks str.addr) (freeString str)
      (Hands (fun _ left => left = 0) fun _ => True) := freeString_leaves str
    rw [Multiset.add_comm own]
    refine Disposes.bind (hfree.frame own) ?_ fun stop left _ => hands_error stop left
    rintro - left ⟨_, rfl, rfl⟩
    refine .pure ⟨own, 0, ?_, hown, .inl ⟨hserializable, rfl⟩⟩
    rw [Multiset.zero_add, Multiset.add_zero]

theorem httpRequestInSessionAt_leaves (session : Session) (maxResponseSize : Nat)
    (stream : Bytes) (events : List SocketEvent) :
    Disposes 0 (httpRequestInSessionAt rt allocator session req maxResponseSize stream events)
      (Hands (RequestHas req.head fun done => done.result.out) fun _ => True) := by
  unfold httpRequestInSessionAt
  split
  · exact Hands.fault _
  · exact withRequestText_leaves (fun _ => rfl) fun text =>
      rawExchangeAt_leaves session text _ _ _

theorem httpRequestAt_leaves (net : ConnectOutcome) (maxResponseSize : Nat)
    (connectTimeoutUsec : Int) (stream : Bytes) (events : List SocketEvent) :
    Disposes 0
      (httpRequestAt rt allocator net req maxResponseSize connectTimeoutUsec stream events)
      (Hands (RequestHas req.head ClientResult.out) fun _ => True) :=
  withRequestText_leaves (fun _ => rfl) fun text =>
    newSocketSendReceiveCloseAt_leaves net connectTimeoutUsec false text stream events

end RequestSpecs

section Agreement

variable {rt : Runtime} {allocator : Allocator Nat} {α : Type} {req : HttpRequest}

theorem rawExchangeAt_agrees (session : Session) (text : StringRef) (maxResponseSize : Nat)
    (stream : Bytes) (events : List SocketEvent) :
    Agrees Prod.fst (rawExchangeAt rt allocator session text maxResponseSize stream events)
      (rawExchange rt session text maxResponseSize stream events) := by
  unfold rawExchangeAt rawExchange
  split
  · exact fun _ => rfl
  · refine .bind (.lift _) fun sent => ?_
    dsimp only [id]
    split
    · exact .pure _ _
    · exact .bind (waitThenRecvAllDataAt_agrees _ stream sent.events) fun out => .pure _ _

theorem built_len_le {builder rest : StringBuilder} {str : OwnedString}
    (h : stringBuilderBuildAndDestroy rt builder = .ok (str, rest)) :
    str.len ≤ str.data.length := by
  unfold stringBuilderBuildAndDestroy at h
  dsimp only at h
  split at h
  · split at h
    · contradiction
    · obtain ⟨bytes, hread, h⟩ := bind_eq_ok.mp h
      obtain ⟨rfl, -⟩ := Prod.mk.inj (Except.ok.inj h)
      rw [List.length_append, readCells_length hread]
      exact Nat.le_add_right _ _
  · contradiction

theorem stringifyRequest_len_le {str : OwnedString} (h : stringifyRequest rt req = .ok str) :
    str.len ≤ str.data.length := by
  obtain ⟨builder, -, h⟩ := bind_eq_ok.mp h
  obtain ⟨full, -, h⟩ := bind_eq_ok.mp h
  obtain ⟨⟨built, rest⟩, hbuild, h⟩ := bind_eq_ok.mp h
  obtain rfl := Except.ok.inj h
  exact built_len_le hbuild

/-- The `memset` in front of the `free` stays within a text that is built. -/
theorem freeString_ok {str : PlacedString} (h : str.str.len ≤ str.str.data.length)
    (past : List (Entry Nat)) : ∃ a, (freeString str past).result = .ok a := by
  obtain ⟨str, addr⟩ := str
  cases addr with
  | none => exact ⟨(), rfl⟩
  | some addr =>
    have hfree : freeString ⟨str, some addr⟩ = .release addr := if_neg (Nat.not_lt.mpr h)
    exact ⟨(), by rw [hfree]; rfl⟩

/-- What the two kinds of requests do with the text, without the heap. -/
def sendText (failed : Int → α) (plain : StringRef → Except Stop α) :
    Except Stop OwnedString → Except Stop α
  | .error (.status err) => pure (failed err)
  | .error stop => .error stop
  | .ok str => plain str.ref

theorem withRequestText_agrees {failed : Int → α} {send : StringRef → HeapCall (α × Option Nat)}
    {plain : StringRef → Except Stop α} (hsend : ∀ text, Agrees Prod.fst (send text) (plain text)) :
    Agrees Prod.fst (withRequestText rt allocator req failed send)
      (.ok (stringifyRequest rt req) >>= sendText failed plain) := by
  refine .bind_of_ok (stringifyRequestAt_agrees req).attempt fun text htext => ?_
  cases text with
  | error stop => cases stop <;> exact fun _ => rfl
  | ok str =>
    have hbuilt : stringifyRequest rt req = .ok str.str := Except.ok.inj htext
    have hlen := stringifyRequest_len_le hbuilt
    show Agrees Prod.fst _ (plain str.str.ref)
    rw [← bind_pure (plain str.str.ref)]
    refine .bind (hsend str.str.ref) fun out => ?_
    exact .skip (freeString_ok hlen) fun _ => .pure _ _

theorem httpRequestInSessionAt_agrees (session : Session) (maxResponseSize : Nat)
    (stream : Bytes) (events : List SocketEvent) :
    Agrees Prod.fst
      (httpRequestInSessionAt rt allocator session req maxResponseSize stream events)
      (httpRequestInSession rt session req maxResponseSize stream events) := by
  unfold httpRequestInSessionAt httpRequestInSession
  split
  · exact fun _ => rfl
  · exact withRequestText_agrees fun text => rawExchangeAt_agrees session text _ _ _

theorem httpRequestAt_agrees (net : ConnectOutcome) (maxResponseSize : Nat)
    (connectTimeoutUsec : Int) (stream : Bytes) (events : List SocketEvent) :
    Agrees Prod.fst
      (httpRequestAt rt allocator net req maxResponseSize connectTimeoutUsec stream events)
      (httpRequest rt net req maxResponseSize connectTimeoutUsec stream events) :=
  withRequestText_agrees fun text =>
    newSocketSendReceiveCloseAt_agrees net connectTimeoutUsec false text stream events

end Agreement

end Net77.Http
