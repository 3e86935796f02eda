import Net77.Http.ClientMemory

/-! Programs that use the library: whatever they do with what it hands out, in any order, the
heap holds what they have not freed yet, and the builders of requests that could not be
serialized. -/
namespace Net77.Http

open Net77.Base

/-- What a program can have of the library that may own a block. -/
inductive Thing where
  | builder (placed : PlacedBuilder)
  | string (placed : PlacedString)
  | request (placed : PlacedMessage HttpRequest)
  | response (placed : PlacedMessage HttpResponse)
  | requestBuilder (placed : PlacedMessageBuilder HttpRequest)
  | responseBuilder (placed : PlacedMessageBuilder HttpResponse)

namespace Thing

def addr : Thing → Option Nat
  | builder placed => placed.addr
  | string placed => placed.addr
  | request placed => placed.addr
  | response placed => placed.addr
  | requestBuilder placed => placed.headBuilder.addr
  | responseBuilder placed => placed.headBuilder.addr

/-- A head that is a reference has no block. -/
def Sound : Thing → Prop
  | request placed => ∀ string, placed.message.head = .asString string → placed.addr = none
  | response placed => ∀ string, placed.message.head = .asString string → placed.addr = none
  | _ => True

end Thing

/-- The blocks of all that the program has. -/
def owned : List Thing → Multiset Nat
  | [] => 0
  | thing :: things => blocks thing.addr + owned things

/-- A call with something that the program has. -/
inductive ThingCall where
  | append (ref : StringRef)
  | expandBuf (minNewSize : Nat)
  | addHeader (name value : StringRef)
  | setBody (body : StringRef)
  | build
  | buildAndDestroy
  | destroy
  | free

/-- A call that takes only references. -/
inductive NewCall where
  | stringBuilder (cap : Nat)
  | requestBuilder (method : HttpMethod) (url : StringRef) (version : HttpVersion)
  | responseBuilder (version : HttpVersion) (statusCode : Int) (statusMsg : StringRef)
  | parseRequest (str : StringRef) (before : HttpRequest) (intoStructs : Bool)
  | parseResponse (str : StringRef) (before : HttpResponse) (intoStructs : Bool)
  | rawRequestInSession (session : Session) (req : StringRef) (maxResponseSize : Nat)
      (stream : Bytes) (events : List SocketEvent)
  | rawRequest (net : ConnectOutcome) (req : StringRef) (maxResponseSize : Nat)
      (connectTimeoutUsec : Int) (stream : Bytes) (events : List SocketEvent)
  | requestInSession (session : Session) (req : HttpRequest) (maxResponseSize : Nat)
      (stream : Bytes) (events : List SocketEvent)
  | request (net : ConnectOutcome) (req : HttpRequest) (maxResponseSize : Nat)
      (connectTimeoutUsec : Int) (stream : Bytes) (events : List SocketEvent)

/-- A call with the thing at a position, or one that may give the program another one. -/
inductive ClientCall where
  | use (i : Nat) (call : ThingCall)
  | make (call : NewCall)

section Runs

variable (rt : Runtime) (allocator : Allocator Nat)

/-- What is there instead of the thing after the call. There are no other calls. -/
def ThingCall.run : Thing → ThingCall → HeapCall (List Thing)
  | .builder placed, .append ref => do
    let placed ← appendRefAt rt allocator ref placed
    pure [.builder placed]
  | .builder placed, .expandBuf minNewSize => do
    let placed ← stringBuilderExpandBufAt rt allocator placed minNewSize
    pure [.builder placed]
  | .builder placed, .build => do
    let str ← stringBuilderBuildAt rt allocator placed
    pure [.builder placed, .string str]
  | .builder placed, .buildAndDestroy => do
    let (str, placed) ← stringBuilderBuildAndDestroyAt rt allocator placed
    pure [.builder placed, .string str]
  | .builder placed, .destroy => do
    let placed ← stringBuilderDestroyAt placed
    pure [.builder placed]
  | .string placed, .free => do
    freeString placed
    pure []
  | .request placed, .free => do
    freeHttpRequest placed
    pure []
  | .response placed, .free => do
    freeHttpResponse placed
    pure []
  | .requestBuilder placed, .addHeader name value => do
    let placed ← builderAddHeaderAt rt allocator placed name value
    pure [.requestBuilder placed]
  | .requestBuilder ⟨req, headBuilder⟩, .setBody body =>
    pure [.requestBuilder ⟨{ req with body }, headBuilder⟩]
  | .requestBuilder placed, .build => do
    let req ← builderBuildAt rt allocator HttpRequest.setHead placed
    pure [.requestBuilder placed, .request req]
  | .requestBuilder placed, .buildAndDestroy => do
    let (req, placed) ← builderBuildAndDestroyAt rt allocator HttpRequest.setHead placed
    pure [.requestBuilder placed, .request req]
  | .responseBuilder placed, .addHeader name value => do
    let placed ← builderAddHeaderAt rt allocator placed name value
    pure [.responseBuilder placed]
  | .responseBuilder ⟨resp, headBuilder⟩, .setBody body =>
    pure [.responseBuilder ⟨{ resp with body }, headBuilder⟩]
  | .responseBuilder placed, .build => do
    let resp ← builderBuildAt rt allocator HttpResponse.setHead placed
    pure [.responseBuilder placed, .response resp]
  | .responseBuilder placed, .buildAndDestroy => do
    let (resp, placed) ← builderBuildAndDestroyAt rt allocator HttpResponse.setHead placed
    pure [.responseBuilder placed, .response resp]
  | thing, _ => pure [thing]

/-- A program goes on behind a message that is rejected. -/
def parsed {μ : Type} (thing : PlacedMessage μ → Thing) (call : HeapCall (PlacedMessage μ)) :
    HeapCall (List Thing) := do
  match ← call.attempt with
  | .ok placed => pure [thing placed]
  | .error (.status _) => pure []
  | .error stop => .lift (.error stop)

/-- `*out`, where it is written. -/
def answered : Option OwnedString → Option Nat → List Thing
  | some str, addr => [.string ⟨str, addr⟩]
  | none, _ => []

def NewCall.run : NewCall → HeapCall (List Thing)
  | .stringBuilder cap => do
    let placed ← newStringBuilderAt rt allocator cap
    pure [.builder placed]
  | .requestBuilder method url version => do
    let placed ← newRequestBuilderAt rt allocator method url version
    pure [.requestBuilder placed]
  | .responseBuilder version statusCode statusMsg => do
    let placed ← newResponseBuilderAt rt allocator version statusCode statusMsg
    pure [.responseBuilder placed]
  | .parseRequest str before intoStructs =>
    parsed .request (parseHttpRequestAt rt allocator str before intoStructs)
  | .parseResponse str before intoStructs =>
    parsed .response (parseHttpResponseAt rt allocator str before intoStructs)
  | .rawRequestInSession session req maxResponseSize stream events => do
    let (done, addr) ← rawExchangeAt rt allocator session req maxResponseSize stream events
    pure (answered done.result.out addr)
  | .rawRequest net req maxResponseSize connectTimeoutUsec stream events => do
    let (done, addr) ← httpRawRequestAt rt allocator net req maxResponseSize connectTimeoutUsec
      stream events
    pure (answered done.out addr)
  | .requestInSession session req maxResponseSize stream events => do
    let (done, addr) ← httpRequestInSessionAt rt allocator session req maxResponseSize stream events
    pure (answered done.result.out addr)
  | .request net req maxResponseSize connectTimeoutUsec stream events => do
    let (done, addr) ← httpRequestAt rt allocator net req maxResponseSize connectTimeoutUsec stream
      events
    pure (answered done.out addr)

/-- A run from what the program has already. A position that is not taken is none of its
variables. -/
def runClient : List ClientCall → List Thing → HeapCall (List Thing)
  | [], things => pure things
  | .make call :: calls, things => do
    let new ← call.run rt allocator
    runClient calls (things ++ new)
  | .use i call :: calls, things =>
    match things[i]? with
    | none => runClient calls things
    | some thing => do
      let new ← call.run rt allocator thing
      runClient calls (things.take i ++ new ++ things.drop (i + 1))

end Runs

/-- The texts that the program has parsed end with their objects, maybe with a NUL. -/
def ClientCall.TextEnds : ClientCall → Prop
  | .make (.parseRequest str _ _) => Ended str
  | .make (.parseResponse str _ _) => Ended str
  | _ => True

/-- The kind of head that the builders return, and the serializer has no branch for. -/
def HttpHeader.isOwnedString : HttpHeader → Bool
  | .asOwnedString _ => true
  | _ => false

def ClientCall.losesBuilder : ClientCall → Bool
  | .make (.requestInSession _ req _ _ _) => req.head.isOwnedString
  | .make (.request _ req _ _ _ _) => req.head.isOwnedString
  | _ => false

section Owned

theorem owned_append (first second : List Thing) :
    owned (first ++ second) = owned first + owned second := by
  induction first with
  | nil => exact (Multiset.zero_add _).symm
  | cons thing first ih =>
    rw [List.cons_append, owned, owned, ih, Multiset.add_assoc]

theorem owned_singleton (thing : Thing) : owned [thing] = blocks thing.addr :=
  Multiset.add_zero _

theorem owned_eq_zero {things : List Thing} (h : ∀ thing ∈ things, thing.addr = none) :
    owned things = 0 := by
  induction things with
  | nil => rfl
  | cons thing things ih =>
    obtain ⟨hthing, hthings⟩ := List.forall_mem_cons.mp h
    rw [owned, hthing, ih hthings]
    rfl

/-- One thing apart from the others. -/
theorem owned_at {things : List Thing} {i : Nat} {thing : Thing} (h : things[i]? = some thing) :
    owned things = blocks thing.addr + (owned (things.take i) + owned (things.drop (i + 1))) := by
  obtain ⟨hi, rfl⟩ := List.getElem?_eq_some_iff.mp h
  have hsplit : things.take i ++ things[i] :: things.drop (i + 1) = things := by
    rw [← List.drop_eq_getElem_cons hi, List.take_append_drop]
  rw [← Multiset.add_assoc, Multiset.add_comm (blocks _), Multiset.add_assoc]
  conv => lhs; rw [← hsplit, owned_append, owned]

/-- New things come behind the others. -/
theorem owned_made (things new : List Thing) (lost gone : Multiset Nat) :
    owned new + lost + (owned things + gone) = owned (things ++ new) + (lost + gone) := by
  rw [owned_append, Multiset.add_comm (owned things) (owned new), Multiset.add_assoc,
    Multiset.add_assoc, ← Multiset.add_assoc lost, Multiset.add_comm lost,
    Multiset.add_assoc (owned things)]

/-- What a thing becomes stands in its place. -/
theorem owned_used (before new behind : List Thing) (gone : Multiset Nat) :
    owned new + (owned before + owned behind + gone) =
      owned (before ++ new ++ behind) + gone := by
  rw [owned_append, owned_append, Multiset.add_comm (owned before) (owned new),
    Multiset.add_assoc (owned new), Multiset.add_assoc (owned new)]

theorem sound_used {things new : List Thing} (h : ∀ thing ∈ things, thing.Sound)
    (hnew : ∀ thing ∈ new, thing.Sound) (i : Nat) :
    ∀ thing ∈ things.take i ++ new ++ things.drop (i + 1), thing.Sound := by
  simp only [List.forall_mem_append]
  exact ⟨⟨fun thing hmem => h thing (List.mem_of_mem_take hmem), hnew⟩,
    fun thing hmem => h thing (List.mem_of_mem_drop hmem)⟩

end Owned

section Specs

variable {rt : Runtime} {allocator : Allocator Nat} {given : Multiset Nat}

/-- What a call leaves: the blocks of the things that the program has after it. -/
def Gained (new : List Thing) (left : Multiset Nat) : Prop :=
  left = owned new ∧ ∀ thing ∈ new, thing.Sound

theorem gained_one {thing : Thing} {left : Multiset Nat} (hleft : left = blocks thing.addr)
    (hsound : thing.Sound) : Gained [thing] left :=
  ⟨hleft.trans (owned_singleton thing).symm, List.forall_mem_singleton.mpr hsound⟩

theorem gained_two {first second : Thing} {left : Multiset Nat}
    (hleft : left = blocks first.addr + blocks second.addr) (hfirst : first.Sound)
    (hsecond : second.Sound) : Gained [first, second] left := by
  refine ⟨?_, List.forall_mem_cons.mpr ⟨hfirst, List.forall_mem_singleton.mpr hsecond⟩⟩
  rw [hleft, owned, owned_singleton]

/-- A build leaves the builder what it has. -/
theorem gained_built {α : Type} {addr : Option Nat} {call : HeapCall α}
    {kept : α → Multiset Nat → Prop} {first second : α → Thing}
    (h : Disposes 0 call (Hands kept fun _ => True)) (hfirst : ∀ a, (first a).addr = addr)
    (hsound : ∀ a, (first a).Sound)
    (hsecond : ∀ a left, kept a left → left = blocks (second a).addr ∧ (second a).Sound) :
    Disposes (blocks addr) (call >>= fun a => pure [first a, second a])
      (Hands Gained fun _ => True) := by
  have hframed := h.frame (blocks addr)
  rw [Multiset.zero_add] at hframed
  refine Disposes.bind hframed ?_ fun stop left _ => hands_error stop left
  rintro a left ⟨own, hown, rfl⟩
  obtain ⟨rfl, hsecond⟩ := hsecond a own hown
  refine .pure (gained_two ?_ (hsound a) hsecond)
  rw [hfirst, Multiset.add_comm]

/-- The block of a builder that is used up is that of what it has built. -/
theorem gained_moved {first second : Thing} {left : Multiset Nat} (hnone : first.addr = none)
    (hleft : left = blocks second.addr) (hfirst : first.Sound) (hsecond : second.Sound) :
    Gained [first, second] left := by
  refine gained_two ?_ hfirst hsecond
  rw [hnone, hleft]
  exact (Multiset.zero_add _).symm

theorem gained_none : Gained [] 0 := ⟨rfl, fun _ hmem => absurd hmem List.not_mem_nil⟩

theorem ThingCall.run_leaves {thing : Thing} (hsound : thing.Sound) (call : ThingCall) :
    Disposes (blocks thing.addr) (call.run rt allocator thing) (Hands Gained fun _ => True) := by
  unfold ThingCall.run
  split
  · refine Hands.bind (stringBuilderAppendAt_leaves _ _ _) ?_
    exact fun placed left hleft => .pure (gained_one hleft.1 trivial)
  · rename_i placed minNewSize
    have hexpand : Disposes (blocks placed.addr)
        (stringBuilderExpandBufAt rt allocator placed minNewSize)
        (Hands (BuilderHas True) fun _ => True) := stringBuilderExpandBufAt_leaves _ _
    refine Hands.bind hexpand ?_
    exact fun placed left hleft => .pure (gained_one hleft.1 trivial)
  · exact gained_built (stringBuilderBuildAt_leaves _) (fun _ => rfl) (fun _ => trivial)
      fun str left hleft => ⟨hleft, trivial⟩
  · refine Hands.bind (stringBuilderBuildAndDestroyAt_leaves _) ?_
    exact fun out left hleft => .pure (gained_moved hleft.2.2 hleft.1 trivial trivial)
  · refine Hands.bind (stringBuilderDestroyAt_leaves _) ?_
    rintro placed left ⟨rfl, hnone⟩
    exact .pure (gained_one (show 0 = blocks placed.addr by rw [hnone]; rfl) trivial)
  · refine Hands.bind (freeString_leaves _) ?_
    rintro - left rfl
    exact .pure gained_none
  · refine Hands.bind (freeHead_leaves _ _ hsound) ?_
    rintro - left rfl
    exact .pure gained_none
  · refine Hands.bind (freeHead_leaves _ _ hsound) ?_
    rintro - left rfl
    exact .pure gained_none
  · refine Hands.bind (builderAddHeaderAt_leaves _ _ _) ?_
    exact fun placed left hleft => .pure (gained_one hleft trivial)
  · exact .pure (gained_one rfl trivial)
  · refine gained_built (builderBuildAt_leaves _ HttpRequest.head_setHead) (fun _ => rfl) ?_ ?_
    · exact fun _ => trivial
    · exact fun req left hleft => hleft
  · refine Hands.bind (builderBuildAndDestroyAt_leaves _ HttpRequest.head_setHead) ?_
    exact fun out left hleft => .pure (gained_moved hleft.2 hleft.1.1 trivial hleft.1.2)
  · refine Hands.bind (builderAddHeaderAt_leaves _ _ _) ?_
    exact fun placed left hleft => .pure (gained_one hleft trivial)
  · exact .pure (gained_one rfl trivial)
  · refine gained_built (builderBuildAt_leaves _ HttpResponse.head_setHead) (fun _ => rfl) ?_ ?_
    · exact fun _ => trivial
    · exact fun resp left hleft => hleft
  · refine Hands.bind (builderBuildAndDestroyAt_leaves _ HttpResponse.head_setHead) ?_
    exact fun out left hleft => .pure (gained_moved hleft.2 hleft.1.1 trivial hleft.1.2)
  · exact .pure (gained_one rfl hsound)

/-- What a call that takes only references leaves: with the things that it hands out, a block
that nobody has, if it loses one. -/
def GainedOrLost (loses : Bool) (new : List Thing) (left : Multiset Nat) : Prop :=
  ∃ own lost, left = own + lost ∧ Gained new own ∧ lost.card = if loses then 1 else 0

theorem GainedOrLost.of_gained {new : List Thing} {left : Multiset Nat} (h : Gained new left) :
    GainedOrLost false new left := ⟨left, 0, (Multiset.add_zero _).symm, h, rfl⟩

theorem parsed_leaves {μ : Type} {head : μ → HttpHeader} {thing : PlacedMessage μ → Thing}
    {call : HeapCall (PlacedMessage μ)} (h : OwnsArray head call)
    (hthing : ∀ placed left, MessageHas head placed left →
      left = blocks (thing placed).addr ∧ (thing placed).Sound) :
    Disposes 0 (parsed thing call) (Hands Gained fun _ => True) := by
  refine Disposes.bind (Disposes.attempt h) ?_ fun stop left _ => hands_error stop left
  rintro attempted left ⟨inner, hinner, hleft⟩
  obtain rfl := Except.ok.inj hinner
  cases attempted with
  | ok placed =>
    obtain ⟨hblocks, hsound⟩ := hthing placed left hleft
    exact .pure (gained_one hblocks hsound)
  | error stop =>
    cases stop with
    | status err =>
      obtain rfl : left = 0 := hleft
      exact .pure gained_none
    | fault fault => exact Hands.fault fault
    | blocked => exact .lift trivial

theorem HttpHeader.isOwnedString_iff {head : HttpHeader} :
    head.isOwnedString = true ↔ ¬ head.Serializable := by
  cases head with
  | asString string => simp [HttpHeader.isOwnedString, HttpHeader.Serializable]
  | asOwnedString str => simp [HttpHeader.isOwnedString, HttpHeader.Serializable]
  | asStruct hs => simp [HttpHeader.isOwnedString, HttpHeader.Serializable]

theorem gained_answered {α : Type} {response : α → Option OwnedString} {out : α × Option Nat}
    {left : Multiset Nat} (h : ResponseHas response out left) :
    Gained (answered (response out.1) out.2) left := by
  obtain ⟨hblocks, hnone⟩ := h
  cases hresponse : response out.1 with
  | none =>
    rw [hblocks, hnone.mp hresponse]
    exact gained_none
  | some str => exact gained_one hblocks trivial

theorem answered_leaves {α : Type} {head : HttpHeader} {response : α → Option OwnedString}
    {call : HeapCall (α × Option Nat)}
    (h : Disposes 0 call (Hands (RequestHas head response) fun _ => True)) :
    Disposes 0 (call >>= fun out => pure (answered (response out.1) out.2))
      (Hands (GainedOrLost head.isOwnedString) fun _ => True) := by
  refine Disposes.bind h ?_ fun stop left _ => hands_error stop left
  rintro out left ⟨own, lost, rfl, hown, hlost⟩
  refine .pure ⟨own, lost, rfl, gained_answered hown, ?_⟩
  rcases hlost with ⟨hserializable, rfl⟩ | ⟨hnot, key, rfl⟩
  · rw [if_neg fun hloses => HttpHeader.isOwnedString_iff.mp hloses hserializable]
    rfl
  · rw [if_pos (HttpHeader.isOwnedString_iff.mpr hnot)]
    rfl

/-- A call hands out things and, it may be, loses the builder of a request. -/
theorem NewCall.run_leaves {call : NewCall} (hends : (ClientCall.make call).TextEnds) :
    Disposes 0 (call.run rt allocator)
      (Hands (GainedOrLost (ClientCall.make call).losesBuilder) fun _ => True) := by
  cases call with
  | stringBuilder cap =>
    refine Hands.bind (newStringBuilderAt_leaves cap) ?_
    exact fun placed left hleft => .pure (.of_gained (gained_one hleft.1 trivial))
  | requestBuilder method url version => exact .pure (.of_gained (gained_one rfl trivial))
  | responseBuilder version statusCode statusMsg =>
    exact .pure (.of_gained (gained_one rfl trivial))
  | parseRequest str before intoStructs =>
    refine Hands.mono (parsed_leaves (parseHttpRequestAt_leaves hends before intoStructs) ?_) ?_
      fun left h => h
    · exact fun placed left hleft => hleft
    · exact fun new left hleft => .of_gained hleft
  | parseResponse str before intoStructs =>
    refine Hands.mono (parsed_leaves (parseHttpResponseAt_leaves hends before intoStructs) ?_) ?_
      fun left h => h
    · exact fun placed left hleft => hleft
    · exact fun new left hleft => .of_gained hleft
  | rawRequestInSession session req maxResponseSize stream events =>
    refine Hands.bind (rawExchangeAt_leaves session req maxResponseSize stream events) ?_
    exact fun out left hleft => .pure (.of_gained (gained_answered hleft))
  | rawRequest net req maxResponseSize connectTimeoutUsec stream events =>
    refine Hands.bind
      (newSocketSendReceiveCloseAt_leaves net connectTimeoutUsec false req stream events) ?_
    exact fun out left hleft => .pure (.of_gained (gained_answered hleft))
  | requestInSession session req maxResponseSize stream events =>
    exact answered_leaves (httpRequestInSessionAt_leaves session maxResponseSize stream events)
  | request net req maxResponseSize connectTimeoutUsec stream events =>
    exact answered_leaves
      (httpRequestAt_leaves net maxResponseSize connectTimeoutUsec stream events)

/-- What a run leaves of what there was: the blocks of what the program has in the end, those
that were lost before, and one for each builder lost since. -/
def LeftBy (calls : List ClientCall) (lost : Nat) (things : List Thing) (left : Multiset Nat) :
    Prop :=
  ∃ gone, left = owned things + gone ∧ gone.card = lost + calls.countP ClientCall.losesBuilder

/-- A call with part of what there is: the rest stays. -/
theorem runClient_step {calls : List ClientCall} {call : HeapCall (List Thing)}
    {own rest : Multiset Nat} {kept after : List Thing → Multiset Nat → Prop}
    {next : List Thing → List Thing} (h : Disposes own call (Hands kept fun _ => True))
    (hnext : ∀ new left, kept new left → Disposes (left + rest)
      (runClient rt allocator calls (next new)) (Hands after fun _ => True)) :
    Disposes (own + rest) (call >>= fun new => runClient rt allocator calls (next new))
      (Hands after fun _ => True) := by
  refine Disposes.bind (h.frame rest) ?_ fun stop left _ => hands_error stop left
  rintro new left ⟨left, hleft, rfl⟩
  exact hnext new left hleft

/-- The run lemma, by induction on the calls that are still to come. -/
theorem runClient_leaves {calls : List ClientCall} (hends : ∀ call ∈ calls, call.TextEnds)
    {things : List Thing} (hsound : ∀ thing ∈ things, thing.Sound) (gone : Multiset Nat) :
    Disposes (owned things + gone) (runClient rt allocator calls things)
      (Hands (LeftBy calls gone.card) fun _ => True) := by
  induction calls generalizing things gone with
  | nil => exact .pure ⟨gone, rfl, rfl⟩
  | cons call calls ih =>
    obtain ⟨hend, hrest⟩ := List.forall_mem_cons.mp hends
    cases call with
    | make call =>
      rw [← Multiset.zero_add (owned things + gone)]
      refine runClient_step (NewCall.run_leaves hend) ?_
      rintro new left ⟨own, lost, rfl, ⟨rfl, hnew⟩, hlost⟩
      have hall : ∀ thing ∈ things ++ new, thing.Sound :=
        List.forall_mem_append.mpr ⟨hsound, hnew⟩
      rw [owned_made]
      refine Hands.mono (ih hrest hall (lost + gone)) ?_ fun left h => h
      rintro out left ⟨gone', rfl, hcard⟩
      refine ⟨gone', rfl, ?_⟩
      rw [hcard, Multiset.card_add, hlost, List.countP_cons]
      omega
    | use i call =>
      unfold runClient
      cases hat : things[i]? with
      | none => exact ih hrest hsound gone
      | some thing =>
        have hthing := hsound thing (List.mem_of_getElem? hat)
        rw [owned_at hat, Multiset.add_assoc]
        refine runClient_step (ThingCall.run_leaves hthing call) ?_
        rintro new left ⟨rfl, hnew⟩
        rw [owned_used]
        exact ih hrest (sound_used hsound hnew i) gone

end Specs

section Client

/-- In every run of a program that starts with nothing: nothing is freed that is not allocated,
and nothing twice. Where the run goes on, the blocks on the heap are those of the things that the
program has, each of one thing, and one for each builder that a request has lost; without these,
all is given back. -/
theorem client_owns (rt : Runtime) (allocator : Allocator Nat) {calls : List ClientCall}
    (hends : ∀ call ∈ calls, call.TextEnds) :
    Orderly (runClient rt allocator calls [] []).log ∧
      ∀ things, (runClient rt allocator calls [] []).result = .ok things →
        (∃ lost, lost.card = calls.countP ClientCall.losesBuilder ∧
          Owning (owned things + lost) (runClient rt allocator calls [] []).log) ∧
        ((∀ thing ∈ things, thing.addr = none) → calls.countP ClientCall.losesBuilder = 0 →
          Balanced (runClient rt allocator calls [] []).log) := by
  have hleaves : Disposes (owned [] + 0) (runClient rt allocator calls [])
      (Hands (LeftBy calls (0 : Multiset Nat).card) fun _ => True) :=
    runClient_leaves hends (fun _ hmem => absurd hmem List.not_mem_nil) 0
  obtain ⟨left, hpost, howning⟩ := hleaves 0 [] .nil
  rw [Multiset.add_zero, List.nil_append] at howning
  refine ⟨howning.orderly, ?_⟩
  intro things hresult
  rw [hresult] at hpost
  obtain ⟨lost, rfl, hcard⟩ := hpost
  rw [Multiset.card_zero, Nat.zero_add] at hcard
  refine ⟨⟨lost, hcard, howning⟩, ?_⟩
  intro hfreed hkept
  rw [owned_eq_zero hfreed, Multiset.card_eq_zero.mp (hcard.trans hkept)] at howning
  exact howning.balanced

/-- A request is put together, given up and freed. Another one is parsed and freed. -/
def givenUp : List ClientCall :=
  [.make (.requestBuilder .get ⟨1, [slash]⟩ .http11),
    .use 0 (.addHeader ⟨1, [65]⟩ ⟨1, [66]⟩), .use 0 .buildAndDestroy, .use 1 .free,
    .make (.parseRequest ⟨22, endedText⟩ blankRequest true), .use 1 .free]

theorem client_owns_givenUp :
    ∃ things, (runClient .unlimited .ascending givenUp [] []).result = .ok things ∧
      Orderly (runClient .unlimited .ascending givenUp [] []).log ∧
      (∃ lost, lost.card = givenUp.countP ClientCall.losesBuilder ∧
        Owning (owned things + lost) (runClient .unlimited .ascending givenUp [] []).log) ∧
      Balanced (runClient .unlimited .ascending givenUp [] []).log := by
  have hended : Ended ⟨22, endedText⟩ := by decide
  have hends : ∀ call ∈ givenUp, call.TextEnds := by simp [givenUp, ClientCall.TextEnds, hended]
  obtain ⟨horderly, hreturns⟩ := client_owns .unlimited .ascending hends
  have hrun : (runClient .unlimited .ascending givenUp [] []).result.map
      (fun things => things.map Thing.addr) = .ok [none] := by decide +kernel
  cases hresult : (runClient .unlimited .ascending givenUp [] []).result with
  | error stop =>
    rw [hresult] at hrun
    contradiction
  | ok things =>
    rw [hresult] at hrun
    have haddrs : things.map Thing.addr = [none] := Except.ok.inj hrun
    obtain ⟨howning, hbalanced⟩ := hreturns things hresult
    refine ⟨things, rfl, horderly, howning, hbalanced ?_ (by decide)⟩
    intro thing hmem
    have haddr : thing.addr ∈ things.map Thing.addr := List.mem_map_of_mem hmem
    rw [haddrs] at haddr
    exact List.mem_singleton.mp haddr

/-- The text of the header is moved once, to its final size. -/
example : (runClient .unlimited .ascending givenUp [] []).log =
    [.acquire 1, .release 1, .acquire 2, .release 2, .acquire 3, .release 3] := by
  decide +kernel

/-- A request in a session does what it does without the heap, and adds to the heap the text of
the response, if there is one, and nothing else, unless its head is an owned string: then the
builder is lost. -/
theorem requestInSession_owns (rt : Runtime) (allocator : Allocator Nat) (session : Session)
    (req : HttpRequest) (maxResponseSize : Nat) (stream : Bytes) (events : List SocketEvent)
    {others : Multiset Nat} {past : List (Entry Nat)} (h : Owning others past) :
    (httpRequestInSessionAt rt allocator session req maxResponseSize stream events past).result.map
        Prod.fst = httpRequestInSession rt session req maxResponseSize stream events ∧
      ∀ done addr,
        (httpRequestInSessionAt rt allocator session req maxResponseSize stream events
          past).result = .ok (done, addr) → (done.result.out = none ↔ addr = none) ∧
        ∃ lost, Owning (blocks addr + lost + others) (past ++
          (httpRequestInSessionAt rt allocator session req maxResponseSize stream events
            past).log) ∧ (req.head.Serializable ∧ lost = 0 ∨ Lost req.head lost) := by
  refine ⟨httpRequestInSessionAt_agrees session maxResponseSize stream events past, ?_⟩
  intro done addr hresult
  rw [← Multiset.zero_add others] at h
  obtain ⟨left, hpost, howning⟩ :=
    httpRequestInSessionAt_leaves session maxResponseSize stream events others past h
  rw [hresult] at hpost
  obtain ⟨own, lost, rfl, ⟨rfl, hnone⟩, hlost⟩ := hpost
  exact ⟨hnone, lost, howning, hlost⟩

/-- What a request builder returns cannot be serialized. -/
def builtRequest : HttpRequest :=
  ⟨.get, ⟨1, [slash]⟩, .http11, .asOwnedString ⟨0, [0]⟩, ⟨0, []⟩⟩

/-- A request that is answered, and one that is not sent. -/
theorem requestInSession_owns_built :
    (∃ done addr, (httpRequestInSessionAt .unlimited .ascending ⟨3, true⟩ getRoot 64 greeting
        (List.replicate 100 duplex) []).result = .ok (done, some addr) ∧ done.result.out ≠ none ∧
      Owning {addr} (httpRequestInSessionAt .unlimited .ascending ⟨3, true⟩ getRoot 64 greeting
        (List.replicate 100 duplex) []).log) ∧
    ∃ done lost, (httpRequestInSessionAt .unlimited .ascending ⟨3, true⟩ builtRequest 64 [] []
        []).result = .ok (done, none) ∧ done.result.status ≠ 0 ∧ Lost builtRequest.head lost ∧
      Owning lost (httpRequestInSessionAt .unlimited .ascending ⟨3, true⟩ builtRequest 64 [] []
        []).log := by
  constructor
  · obtain ⟨hagrees, howns⟩ := requestInSession_owns .unlimited .ascending ⟨3, true⟩ getRoot 64
      greeting (List.replicate 100 duplex) .nil
    have hplain : (httpRequestInSession .unlimited ⟨3, true⟩ getRoot 64 greeting
        (List.replicate 100 duplex)).toOption.map (fun done => done.result.out.isSome) =
          some true := by decide +kernel
    rw [← hagrees] at hplain
    clear hagrees
    generalize httpRequestInSessionAt .unlimited .ascending ⟨3, true⟩ getRoot 64 greeting
      (List.replicate 100 duplex) [] = run at howns hplain ⊢
    cases hresult : run.result with
    | error stop =>
      rw [hresult] at hplain
      contradiction
    | ok out =>
      obtain ⟨done, addr⟩ := out
      rw [hresult] at hplain
      have hsome : done.result.out.isSome = true := Option.some.inj hplain
      obtain ⟨hnone, lost, howning, ⟨-, rfl⟩ | ⟨hnot, -⟩⟩ := howns done addr hresult
      · cases addr with
        | none =>
          rw [hnone.mpr rfl] at hsome
          contradiction
        | some addr =>
          refine ⟨done, addr, rfl, Option.isSome_iff_ne_none.mp hsome, ?_⟩
          rwa [Multiset.add_zero, Multiset.add_zero] at howning
      · have hserializable : getRoot.head.Serializable := by
          intro str hhead
          contradiction
        exact absurd hserializable hnot
  · obtain ⟨hagrees, howns⟩ := requestInSession_owns .unlimited .ascending ⟨3, true⟩ builtRequest
      64 [] [] .nil
    have hplain : (httpRequestInSession .unlimited ⟨3, true⟩ builtRequest 64 [] []).toOption.map
        (fun done => (done.result.status, done.result.out.isNone)) = some (1, true) := by
      decide +kernel
    rw [← hagrees] at hplain
    clear hagrees
    generalize httpRequestInSessionAt .unlimited .ascending ⟨3, true⟩ builtRequest 64 [] [] [] =
      run at howns hplain ⊢
    cases hresult : run.result with
    | error stop =>
      rw [hresult] at hplain
      contradiction
    | ok out =>
      obtain ⟨done, addr⟩ := out
      rw [hresult] at hplain
      obtain ⟨hstatus, hout⟩ := Prod.mk.inj (Option.some.inj hplain)
      obtain ⟨hnone, lost, howning, ⟨hserializable, -⟩ | hlost⟩ := howns done addr hresult
      · exact absurd rfl (hserializable _)
      · obtain rfl := hnone.mp (Option.isNone_iff_eq_none.mp hout)
        refine ⟨done, lost, rfl, ?_, hlost, ?_⟩
        · rw [hstatus]
          decide
        · rwa [Multiset.add_zero, blocks, Multiset.zero_add] at howning

end Client

end Net77.Http
