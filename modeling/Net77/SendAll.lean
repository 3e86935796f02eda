import Net77.Transfer

/-! What the status of `sendAllData` says about the bytes that were sent. -/
namespace Net77

open Net77.Base

/-- The `send` behind this `poll` is reached. -/
def Writable (event : SocketEvent) : Prop :=
  ∃ r, event.poll = .ready r ∧ r.pollerr = false ∧ r.pollhup = false ∧ r.pollnval = false ∧
    r.pollout = true

/-- A `poll` times out with some of the bytes left, behind sends that got through. -/
inductive TimesOut : (left : Nat) → List SocketEvent → Prop
  | now {left : Nat} {event : SocketEvent} {events : List SocketEvent} (unsent : 0 < left)
      (poll : event.poll = .timedOut) : TimesOut left (event :: events)
  | later {left : Nat} {event : SocketEvent} {events : List SocketEvent}
      (ready : Writable event) (more : TimesOut (left - event.size) events) :
      TimesOut left (event :: events)

/-- What the caller reads off the status and off `out_closed_sock`. -/
structure SendsAll (buf : Bytes) (r : SendResult) : Prop where
  complete : r.status = 0 ↔ r.sent = buf
  closed : r.status = -1 ↔ r.closedSock = true

theorem not_timesOut_zero {events : List SocketEvent} : ¬ TimesOut 0 events := by
  generalize hleft : 0 = left
  intro h
  induction h with
  | now unsent poll => omega
  | later ready more ih => exact ih (by omega)

section Loop

variable {fd : Int} {sent rest extra : Bytes} {event : SocketEvent} {events : List SocketEvent}

/-- The loop with the bytes that were sent, those that are left and what lies behind the buffer. -/
abbrev sendRest (fd : Int) (sent rest extra : Bytes) (events : List SocketEvent) :
    Except Stop SendResult :=
  sendLoop fd (sent ++ rest ++ extra) (sent ++ rest).length sent events

theorem sendRest_nil : sendRest fd sent [] extra events = .ok ⟨0, false, sent, [], events⟩ := by
  have hdone : ¬ sent.length < (sent ++ []).length := by simp
  unfold sendRest sendLoop
  cases events with
  | nil => exact if_neg hdone
  | cons event events => exact if_neg hdone

theorem sent_lt_length (sent : Bytes) (unsent : rest ≠ []) :
    sent.length < (sent ++ rest).length := by
  have hpos := List.length_pos_iff.mpr unsent
  rw [List.length_append]
  omega

/-- `send` takes the next bytes of the buffer, maybe none of them. -/
theorem sendRest_writable (ready : Writable event) (unsent : rest ≠ []) :
    sendRest fd sent rest extra (event :: events) =
      sendRest fd (sent ++ rest.take event.size) (rest.drop event.size) extra events := by
  obtain ⟨r, hpoll, herr, hhup, hnval, hout⟩ := ready
  have hroom : ¬ (sent ++ rest ++ extra).length <
      sent.length + min event.size ((sent ++ rest).length - sent.length) := by
    simp only [List.length_append]
    omega
  have hchunk : ((sent ++ rest ++ extra).drop sent.length).take
      (min event.size ((sent ++ rest).length - sent.length)) = rest.take event.size := by
    rw [List.append_assoc, List.drop_left, List.length_append, Nat.add_sub_cancel_left,
      List.take_append_of_le_length (Nat.min_le_right _ _), ← List.take_take, List.take_length]
  have hwhole : sent ++ rest.take event.size ++ rest.drop event.size = sent ++ rest := by
    rw [List.append_assoc, List.take_append_drop]
  unfold sendRest
  rw [sendLoop, if_pos (sent_lt_length sent unsent), hpoll, hwhole]
  dsimp only
  rw [herr, hhup, hnval, hout, if_neg Bool.false_ne_true, if_neg Bool.false_ne_true,
    if_neg Bool.false_ne_true, if_neg (show (!true) ≠ true by decide), if_neg hroom, hchunk]

/-- Any other event ends the loop. Only a timeout does so with the status of a success. -/
theorem sendRest_ends (unsent : rest ≠ []) (other : ¬ Writable event) {r : SendResult}
    (h : sendRest fd sent rest extra (event :: events) = .ok r) :
    r.sent = sent ∧ (r.status = -1 ↔ r.closedSock = true) ∧
      (r.status = 0 ↔ event.poll = .timedOut) := by
  unfold sendRest at h
  rw [sendLoop, if_pos (sent_lt_length sent unsent)] at h
  cases hpoll : event.poll with
  | failed =>
    rw [hpoll] at h
    cases Except.ok.inj h
    exact ⟨rfl, by simp, by simp⟩
  | timedOut =>
    rw [hpoll] at h
    cases Except.ok.inj h
    exact ⟨rfl, by simp, by simp⟩
  | ready revents =>
    rw [hpoll] at h
    dsimp only at h
    split at h
    · cases Except.ok.inj h
      exact ⟨rfl, by simp, by simp⟩
    · rename_i herr
      split at h
      · cases Except.ok.inj h
        exact ⟨rfl, by simp, by simp⟩
      · rename_i hhup
        split at h
        · cases Except.ok.inj h
          exact ⟨rfl, by simp, by simp⟩
        · rename_i hnval
          split at h
          · contradiction
          · rename_i hout
            exact absurd ⟨revents, hpoll, by simpa using herr, by simpa using hhup,
              by simpa using hnval, by simpa using hout⟩ other

/-- The loop stops with a result after a timeout, whatever comes later. -/
theorem sendRest_timesOut (unsent : rest ≠ []) (hpoll : event.poll = .timedOut) :
    sendRest fd sent rest extra (event :: events) = .ok ⟨0, false, sent, [], events⟩ := by
  unfold sendRest
  rw [sendLoop, if_pos (sent_lt_length sent unsent), hpoll]
  rfl

/-- By the events: those that let `send` through move bytes from what is left to what is sent. -/
theorem sendRest_right_iff (fd : Int) (sent rest extra : Bytes) (events : List SocketEvent) :
    (∀ r, sendRest fd sent rest extra events = .ok r → SendsAll (sent ++ rest) r) ↔
      ¬ TimesOut rest.length events := by
  induction events generalizing sent rest with
  | nil =>
    refine iff_of_true (fun r h => ?_) (fun h => nomatch h)
    cases rest with
    | nil =>
      cases Except.ok.inj (sendRest_nil.symm.trans h)
      exact ⟨by simp, by simp⟩
    | cons b rest =>
      unfold sendRest sendLoop at h
      rw [if_pos (by simp)] at h
      contradiction
  | cons event events ih =>
    by_cases unsent : rest = []
    · subst unsent
      refine iff_of_true (fun r h => ?_) not_timesOut_zero
      cases Except.ok.inj (sendRest_nil.symm.trans h)
      exact ⟨by simp, by simp⟩
    · have hpos := List.length_pos_iff.mpr unsent
      by_cases ready : Writable event
      · have hstep := ih (sent ++ rest.take event.size) (rest.drop event.size)
        rw [List.append_assoc, List.take_append_drop, List.length_drop] at hstep
        rw [sendRest_writable ready unsent, hstep]
        refine not_congr ⟨.later ready, fun h => ?_⟩
        cases h with
        | now _ poll =>
          obtain ⟨r, hpoll, -⟩ := ready
          rw [hpoll] at poll
          contradiction
        | later _ more => exact more
      · have hshort : sent ≠ sent ++ rest := by simpa using unsent
        constructor
        · intro hright htimes
          cases htimes with
          | now _ poll =>
            have hsends := hright _ (sendRest_timesOut unsent poll)
            exact hshort (hsends.complete.mp rfl)
          | later ready' _ => exact ready ready'
        · intro htimes r h
          obtain ⟨hsent, hclosed, hstatus⟩ := sendRest_ends unsent ready h
          refine ⟨iff_of_false (fun hzero => ?_) (by rwa [hsent]), hclosed⟩
          exact htimes (.now hpos (hstatus.mp hzero))

end Loop

/-- `buf` is what the caller wants to send, and `extra` what its buffer holds behind. -/
theorem sendAllData_complete_iff (fd : Int) (buf extra : Bytes) (events : List SocketEvent) :
    (∀ r, sendAllData fd (buf ++ extra) buf.length events = .ok r → SendsAll buf r) ↔
      ¬ TimesOut buf.length events :=
  sendRest_right_iff fd [] buf extra events

/-- The first `poll` times out, and nothing is sent. -/
theorem sendAllData_timeout_succeeds :
    ¬ ∀ (fd : Int) (buf : Bytes) (events : List SocketEvent) (r : SendResult),
      sendAllData fd buf buf.length events = .ok r → r.status = 0 → r.sent = buf :=
  fun h => absurd (h 3 [7] [⟨.timedOut, 0⟩] ⟨0, false, [], [], []⟩ rfl rfl) (by decide)

end Net77
