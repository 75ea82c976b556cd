import System2.Execution.CreditedFreshness
import System2.Execution.MessageVerdict
import System2.Execution.ServiceRuns
import System2.Foundation.TimedRun

/-!
# The age of an order when it is submitted

A poll reads the clock once and judges every message of its batch by that reading. Between the
reading and the submit of an order lie the handling of the messages before it and the calls of
its own, and each of them may take any time.
-/

namespace System2
open Foundation

/-- The moment at which an order expires, if its `expires_at` can be read. -/
def deadline? (host : LocalZone) (body : PyVal) : Option Moment :=
  (readableDate body.entries "expires_at").bind fun dt => (dt.toUtc host).toOption

namespace ConsumerService

/-- The readings of the clock of a poll and of its pipeline. -/
def clockReading? : Event ServiceI Exc → Option Moment
  | ⟨.consumer .clock, .ok t⟩ => some t
  | ⟨.consumer (.pipeline .clock), .ok t⟩ => some t
  | _ => none

/-- The environment of a poll: every call takes its time and answers anything, and the clock
goes on. -/
def timedService : World ServiceI Exc (Timed ServiceI Exc) := World.timed clockReading?

/-- The reading of the clock with which a poll begins. -/
def pollReading? (log : List (TimedCall ServiceI Exc)) : Option Moment :=
  log.head?.bind fun call => clockReading? call.event

/-- A submit of a handling, with the calls of the poll before it. -/
def SubmitIn (h : Handling (Timed ServiceI Exc)) (before : List (TimedCall ServiceI Exc))
    (submit : TimedCall ServiceI Exc) : Prop :=
  isSubmit submit.event.1 = true ∧
    ∃ calls after, before = h.before.log ++ calls ∧ h.after.log = before ++ submit :: after

/-- Every order with a readable `expires_at` is submitted before it expires. -/
def SubmittedInTime (svc : ConsumerService) (hs : List (Handling (Timed ServiceI Exc))) : Prop :=
  ∀ h ∈ hs, ∀ before submit, SubmitIn h before submit →
    ∀ deadline ∈ deadline? svc.consumer.host h.msg.body, submit.began < deadline

/-- For every order that the reading of the clock finds alive, the calls of the poll between the
reading and the submit take less time than the order has left. -/
def WaitsLessThanLeft (svc : ConsumerService) (hs : List (Handling (Timed ServiceI Exc))) : Prop :=
  ∀ h ∈ hs, ∀ before submit, SubmitIn h before submit →
    ∀ deadline ∈ deadline? svc.consumer.host h.msg.body, ∀ now ∈ pollReading? before,
      now < deadline → (waited before.tail : ℤ) < deadline.micros - now.micros

section Handled

variable {svc : ConsumerService} {c : Consumer} {msg : ReceivedMessage} {now : Moment}

/-- An order that the reading finds expired is not submitted. -/
theorem handle_quiet_of_expired
    (h : isExpired c.host msg.body.entries now c.maxAgeSec ≠ .ok false) :
    (c.handle (F := FillResult) msg now).Only Consumer.notSubmit := by
  unfold Consumer.handle
  split_ifs
  · exact Consumer.handleHeartbeat_notSubmit _
  · refine (Proc.along_ofExcept _).bind fun res => ?_
    split_ifs
    · exact (Consumer.conclude_settles (.malformed res)).mono fun _ => Consumer.settles_submitless
    · refine (Consumer.along_notSubmit rfl).bind fun _ => ?_
      cases hexpired : isExpired c.host msg.body.entries now c.maxAgeSec with
      | error e => trivial
      | ok expired =>
          cases expired with
          | true => exact (Consumer.along_notSubmit rfl).bind fun _ => trivial
          | false => exact absurd hexpired h

/-- The expiry check compares the deadline with the reading. -/
theorem isExpired_of_deadline {deadline : Moment}
    (h : deadline ∈ deadline? c.host msg.body) :
    isExpired c.host msg.body.entries now c.maxAgeSec = .ok (decide (deadline ≤ now)) := by
  obtain ⟨dt, hread, hutc⟩ := Option.bind_eq_some_iff.mp h
  have hok : dt.toUtc c.host = .ok deadline := by
    cases h : dt.toUtc c.host with
    | error e => simp [h, Except.toOption] at hutc
    | ok t => simpa [h, Except.toOption] using hutc
  unfold readableDate at hread
  simp only [isExpired, hread, hok]
  rfl

/-- An order with a deadline that is submitted was alive at the reading. -/
theorem alive_of_submit {w w' : Timed ServiceI Exc} {out : Option (Except Exc Outcome)}
    (exec : Exec timedService (svc.handle msg now) w out w')
    {before : List (TimedCall ServiceI Exc)} {submit : TimedCall ServiceI Exc}
    (hsubmit : SubmitIn ⟨w, msg, out, w'⟩ before submit) {deadline : Moment}
    (hdeadline : deadline ∈ deadline? svc.consumer.host msg.body) : now < deadline := by
  by_contra hpast
  have hexpired : isExpired svc.consumer.host msg.body.entries now svc.consumer.maxAgeSec ≠
      .ok false := by
    rw [isExpired_of_deadline hdeadline]
    simpa using hpast
  obtain ⟨calls, hlog, hcalls⟩ := exec_timed_of_only
    ((handle_quiet_of_expired hexpired).interp fun op hop => wire_quiet hop) exec
  obtain ⟨hsubmitted, before', after, rfl, hsplit⟩ := hsubmit
  dsimp only at hsplit
  rw [hlog, List.append_assoc] at hsplit
  have hmem : submit ∈ calls := by
    rw [List.append_cancel_left hsplit]
    simp
  rw [hcalls submit hmem] at hsubmitted
  cases hsubmitted

end Handled

/-! ### The poll -/

/-- The state behind the reading of the clock with which a poll begins. -/
structure Begun (start now : Moment) (w : Timed ServiceI Exc) : Prop where
  timeline : Timeline start w
  first : ∃ first rest, w.log = first :: rest ∧ clockReading? first.event = some now ∧
    now.micros = start.micros + first.took

section Polled

variable {svc : ConsumerService} {start now : Moment} {w w' : Timed ServiceI Exc}

theorem Begun.exec {α : Type} {p : Proc ServiceI Exc α} {out : Option (Except Exc α)}
    (h : Begun start now w) (exec : Exec timedService p w out w') : Begun start now w' := by
  obtain ⟨first, rest, hlog, hreading, hnow⟩ := h.first
  obtain ⟨calls, hcalls⟩ := exec_timed_log exec
  exact ⟨h.timeline.exec exec, first, rest ++ calls, by rw [hcalls, hlog, List.cons_append],
    hreading, hnow⟩

theorem begun_of_fetch {x : Moment × Option (List ReceivedMessage)}
    (exec : Exec timedService svc.fetch ⟨start, []⟩ (some (.ok x)) w) : Begun start x.1 w := by
  unfold fetch at exec
  simp only [Proc.bind_eq, Proc.pure_eq] at exec
  rw [Proc.interp_perform_bind (I := ConsumerI FillResult)] at exec
  cases exec with
  | @call _ _ _ answer w₁ _ _ step tail =>
      have htimeline := (timeline_start start).step step
      obtain ⟨hreading, took, hnow, hlog⟩ := step
      cases answer with
      | error e => cases tail
      | ok now =>
          have hbegun : Begun start now w₁ := by
            obtain rfl : now = w₁.now := hreading now rfl
            exact ⟨htimeline, _, [], hlog, rfl, hnow⟩
          have hx : x.1 = now := by
            have hrest := tail
            simp only [Proc.ofExcept, Proc.ret_bind, Proc.interp_bind] at hrest
            rcases exec_bind hrest with ⟨_, _, -, hpull⟩ | ⟨_, -, h⟩ | ⟨-, h⟩
            · rcases exec_bind hpull with ⟨_, _, -, hret⟩ | ⟨_, -, h⟩ | ⟨-, h⟩
              · cases hret
                rfl
              · cases h
              · cases h
            · cases h
            · cases h
          rw [hx]
          exact hbegun.exec tail

/-- The handlings of a batch begin behind the reading, and each is one of a message by that
reading. -/
theorem Handles.begun {batch : List ReceivedMessage} {hs : List (Handling (Timed ServiceI Exc))}
    (handles : Handles (steps timedService) svc now batch w hs w') (h : Begun start now w) :
    ∀ x ∈ hs, Begun start now x.before ∧
      Exec timedService (svc.handle x.msg now) x.before x.out x.after := by
  induction handles with
  | stop => simp
  | cut exec hout => simpa using ⟨h, exec⟩
  | next exec rest ih =>
      rw [List.forall_mem_cons]
      exact ⟨⟨h, exec⟩, ih (h.exec exec)⟩

/-- A submit is in time when the calls since the reading took less than the order had left. -/
theorem Begun.began_lt_iff {x : Handling (Timed ServiceI Exc)} (h : Begun start now x.before)
    (exec : Exec timedService (svc.handle x.msg now) x.before x.out x.after)
    {before : List (TimedCall ServiceI Exc)} {submit : TimedCall ServiceI Exc}
    (hsubmit : SubmitIn x before submit) (deadline : Moment) :
    pollReading? before = some now ∧
      (submit.began < deadline ↔ (waited before.tail : ℤ) < deadline.micros - now.micros) := by
  obtain ⟨-, calls, after, rfl, hsplit⟩ := hsubmit
  have hbegan := (h.timeline.exec exec).began _ _ _ hsplit
  obtain ⟨first, rest, hlog, hreading, hnow⟩ := h.first
  rw [hlog] at hbegan ⊢
  constructor
  · exact hreading
  · have hlt : submit.began < deadline ↔ submit.began.micros < deadline.micros := by
      rw [lt_iff_not_ge, lt_iff_not_ge]
      exact not_congr Moment.le_iff
    rw [hlt, hbegan]
    simp only [List.cons_append, waited_cons, List.tail_cons]
    push_cast
    omega

/-- For every batch and every call of `poll_once`, complete or not, with any answers and any time
for each call: every order with a readable `expires_at` is submitted before it expires exactly
when, for every order that the poll's reading of the clock finds alive, the calls between the
reading and its submit take less time than the order has left. -/
theorem submittedInTime_iff {out : Option (Except Exc Stats)}
    (exec : Exec timedService svc.pollOnce ⟨start, []⟩ out w') :
    (∃ hs, Polls (steps timedService) svc ⟨start, []⟩ hs w') ∧
      ∀ hs, Polls (steps timedService) svc ⟨start, []⟩ hs w' →
        (SubmittedInTime svc hs ↔ WaitsLessThanLeft svc hs) := by
  refine ⟨polls_of_exec exec, ?_⟩
  intro hs polls
  cases polls with
  | unfetched => simp [SubmittedInTime, WaitsLessThanLeft]
  | @fetched now _ _ _ _ fetch handles =>
      have hbegun := Handles.begun handles (begun_of_fetch fetch)
      constructor
      · intro htime x hx before submit hsubmit deadline hdeadline now' hnow' _
        obtain ⟨hreading, hiff⟩ := (hbegun x hx).1.began_lt_iff (hbegun x hx).2 hsubmit deadline
        obtain rfl : now = now' := Option.some.inj (hreading.symm.trans hnow')
        exact hiff.mp (htime x hx before submit hsubmit deadline hdeadline)
      · intro hwaits x hx before submit hsubmit deadline hdeadline
        obtain ⟨hreading, hiff⟩ := (hbegun x hx).1.began_lt_iff (hbegun x hx).2 hsubmit deadline
        have halive : now < deadline := alive_of_submit (hbegun x hx).2 hsubmit hdeadline
        exact hiff.mpr (hwaits x hx before submit hsubmit deadline hdeadline now hreading halive)

end Polled

/-- An order that expires ten seconds into the first day. -/
def tenSecondOrder : ReceivedMessage := ExecutionRuntime.longLived "0001-01-01T00:00:10Z"

/-- A host with that order on its queue, a quote of 1.1 and a broker that fills. -/
def hostAnswer (op : ServiceCall) (t : Moment) : Except Exc op.Ans :=
  match op with
  | .queue .time => .ok .zero
  | .queue .uuid4 => .ok "lease-1"
  | .queue .utcNowIso => .ok "0001-01-01T00:00:00Z"
  | .queue (.firstPull _) => .ok false
  | .queue (.selectOrphans _ _) => .ok []
  | .queue (.selectAvailable _ _ _) => .ok [⟨1, .json tenSecondOrder.body, 0⟩]
  | .queue (.lease _ _ _ _) => .ok true
  | .queue (.setDone _) => .ok ()
  | .producer .uuid4 => .ok "message-1"
  | .producer .utcNowIso => .ok "0001-01-01T00:00:00Z"
  | .producer (.outboxPublish _ _) => .ok ()
  | .producer (.outboxPull _ _) => .ok []
  | .consumer .clock => .ok t
  | .consumer (.setLastPollAt _) => .ok ()
  | .consumer (.setLastMessageAt _) => .ok ()
  | .consumer (.setLastMessageCreatedAt _) => .ok ()
  | .consumer .countMessage => .ok ()
  | .consumer .submitGateFn => .ok true
  | .consumer (.priceFn _) => .ok (.float (.ofRat (11 / 10)))
  | .consumer .openInstrumentsFn => .ok []
  | .consumer (.pipeline (.seen _)) => .ok false
  | .consumer (.pipeline (.mark _)) => .ok ()
  | .consumer (.pipeline .clock) => .ok t
  | .consumer (.pipeline (.validate _)) => .ok (true, [])
  | .consumer (.pipeline (.submit _)) => .ok plainFill
  | .consumer (.pipeline (.persist _ _)) => .ok ()
  | _ => .error (.ofErr .valueError)

/-- Every call takes no time but the price lookup, which takes so many microseconds. -/
def priceTakes (micros : ℕ) (op : ServiceCall) (t : Moment) : Moment :=
  match op with
  | .consumer (.priceFn _) => (Moment.ofMicros? (t.micros + micros)).getD t
  | _ => t

theorem le_priceTakes (micros : ℕ) (op : ServiceCall) (t : Moment) : t ≤ priceTakes micros op t := by
  have hlater : t ≤ (Moment.ofMicros? (t.micros + micros)).getD t := by
    unfold Moment.ofMicros?
    split_ifs
    · rw [Option.getD_some, Moment.le_iff]
      simp
    · exact le_refl t
  cases op with
  | consumer call =>
      cases call with
      | priceFn order => exact hlater
      | _ => exact le_refl t
  | _ => exact le_refl t

/-- One poll on that host. -/
def pollTaking (micros : ℕ) : Except Exc Stats × Timed ServiceI Exc :=
  (executor 5).pollOnce.run (timedBy hostAnswer (priceTakes micros)) ⟨.first, []⟩

theorem priceTakes_step (micros : ℕ) (op : ServiceCall) (w : Timed ServiceI Exc) :
    timedService w op (timedBy (I := ServiceI) hostAnswer (priceTakes micros) op w).1
      (timedBy (I := ServiceI) hostAnswer (priceTakes micros) op w).2 := by
  refine timedBy_step (le_priceTakes micros) ?_ op w
  intro op t u hu
  cases op with
  | consumer call =>
      cases call with
      | clock => exact (Option.some.inj hu).symm
      | pipeline call =>
          cases call with
          | clock => exact (Option.some.inj hu).symm
          | _ => cases hu
      | _ => cases hu
  | _ => cases hu

theorem exec_pollTaking (micros : ℕ) :
    Exec timedService (executor 5).pollOnce ⟨.first, []⟩ (some (pollTaking micros).1)
      (pollTaking micros).2 := exec_run (priceTakes_step micros) _ _

/-- The order is submitted at once. -/
theorem submittedInTime_iff_at_once :
    ((pollTaking 0).2.log.filter fun call => isSubmit call.event.1).map TimedCall.began = [.first] ∧
      ((∃ hs, Polls (steps timedService) (executor 5) ⟨.first, []⟩ hs (pollTaking 0).2) ∧
        ∀ hs, Polls (steps timedService) (executor 5) ⟨.first, []⟩ hs (pollTaking 0).2 →
          (SubmittedInTime (executor 5) hs ↔ WaitsLessThanLeft (executor 5) hs)) :=
  ⟨by decide +kernel, submittedInTime_iff (exec_pollTaking 0)⟩

/-- The price lookup takes twenty seconds, and the order is submitted ten seconds after it
expired. -/
theorem submitted_after_expiry :
    ¬ ∀ (svc : ConsumerService) (start : Moment) (w' : Timed ServiceI Exc)
      (hs : List (Handling (Timed ServiceI Exc))), Exec timedService svc.pollOnce ⟨start, []⟩ none w' →
        Polls (steps timedService) svc ⟨start, []⟩ hs w' → SubmittedInTime svc hs := by
  intro h
  let env := timedBy (I := ServiceI) hostAnswer (priceTakes 20000000)
  let w : Timed ServiceI Exc := ⟨.first, []⟩
  have polls := polls_by (o := .handled .executed) env (executor 5) w (priceTakes_step 20000000)
    (by decide +kernel) (by decide +kernel)
  have htime := h _ _ _ _ (exec_of_polls polls) polls _ (List.mem_singleton.mpr rfl)
  obtain ⟨calls, hlog⟩ := exec_timed_log (exec_run (priceTakes_step 20000000)
    ((executor 5).handle (deliveredBy env (executor 5) w) .first) (fetchedBy env (executor 5) w).2)
  have hlate : ((handledBy env (executor 5) w).2.log.drop (fetchedBy env (executor 5) w).2.log.length).any
      (fun call => isSubmit call.event.1 && decide (Moment.atSecond 10 ≤ call.began)) = true := by
    decide +kernel
  rw [show (handledBy env (executor 5) w).2.log = _ from hlog, List.drop_left] at hlate
  obtain ⟨submit, hmem, hboth⟩ := List.any_eq_true.mp hlate
  rw [Bool.and_eq_true, decide_eq_true_eq] at hboth
  obtain ⟨between, after, rfl⟩ := List.append_of_mem hmem
  have hdeadline : deadline? (executor 5).consumer.host (deliveredBy env (executor 5) w).body =
      some (.atSecond 10) := by decide +kernel
  have hbegan := htime _ submit ⟨hboth.1, between, after, rfl, hlog.trans (List.append_assoc _ _ _).symm⟩
    (.atSecond 10) hdeadline
  exact absurd hbegan (not_lt.mpr hboth.2)

end ConsumerService

end System2
