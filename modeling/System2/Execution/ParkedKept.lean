import System2.Execution.ServiceRuns

/-!
# What becomes of a parked order

Parking gives a message back like a failure does, and the delivery counter counts
both. An order that is only ever parked stays on its subscription while it was
delivered fewer times than `max_attempts`; the park of a later delivery files it
under the dead letters.
-/

namespace System2
open Foundation

namespace ConsumerService

open QueueFile LocalDurableBackend

variable {subscription : String} {limit : ℤ} {q : ℕ} {body : Option RowBody}
  {svc : ConsumerService} {msg : ReceivedMessage} {now : Moment} {s s' : ServiceState}

/-- What holds of the queue file. -/
def OnFile (D : QueueFile → Prop) (s : ServiceState) : Prop := D s.file

/-- What is proved of the queue holds inside the service. -/
theorem wpc_onQueue {α : Type} {p : Proc QueueI Exc α} {D : QueueFile → Prop}
    {Q : Except Exc α → QueueFile → Prop} (hp : wpc (sharedWorld subscription) D p Q s.file) :
    wpc (serviceWorld subscription) (OnFile D) (onQueue p)
      (fun r s' => Q r s'.file) s := by
  refine wpc_mono (wpc_interp_view (v := ServiceState.file) (F := fun _ => True) ?_ hp trivial)
    (fun _ h => h.1) fun _ _ _ h => h
  intro op w Q hD _ hstep
  apply wpc_of_perform ⟨hD, trivial⟩
  rintro r w' ⟨hshared, -, -⟩
  obtain ⟨hD', hQ⟩ := hstep r w' hshared trivial
  exact ⟨⟨hD', trivial⟩, hQ⟩

/-- Is this a call of the queue? -/
def isQueueCall : ServiceCall → Bool
  | .queue _ => true
  | _ => false

/-- Every other call leaves the file to the other components. -/
theorem elsewhere_of_step {op : ServiceCall} {r : Except Exc op.Ans} (hop : isQueueCall op = false)
    (step : serviceWorld subscription s op r s') : Elsewhere subscription s.file s'.file := by
  cases op with
  | queue call => cases hop
  | producer call =>
      cases call with
      | outboxPublish topic body => exact step.2.1
      | _ => exact step.1
  | consumer call =>
      cases call with
      | pipeline call =>
          cases call with
          | seen key => exact step.2.1
          | mark key => exact step.2.1
          | _ => exact step.1
      | _ => exact step.1

/-- What the other components and an appended row keep. -/
structure Stable (subscription : String) (D : QueueFile → Prop) : Prop where
  elsewhere : ∀ f f', D f → Elsewhere subscription f f' → D f'
  insert : ∀ f topic body, D f → D ⟨f.table.insert (.inserted topic body), f.drawn⟩

theorem stable_kept (hlimit : 1 ≤ limit) : Stable subscription (Kept subscription limit q body) where
  elsewhere := fun _ _ h others => h.elsewhere hlimit others
  insert := fun _ _ _ h => h.insert hlimit fun _ hid => hid

theorem stable_apart (hlimit : 1 ≤ limit) (ackId : String) :
    Stable subscription (Apart subscription limit q body ackId) where
  elsewhere := fun _ _ h others => h.elsewhere hlimit others
  insert := by
    intro f topic b h
    refine ⟨h.1.insert hlimit fun _ hid => hid, fun hrow => h.2 ?_⟩
    refine hrow.of_noNewIds noNewIds_insert fun row row' hk hk' htopic => ?_
    rw [Table.get?_insert_of_some hk] at hk'
    rw [Option.some.inj hk', htopic]

/-- The consumer's calls that do not reach the orders queue. -/
def notQueue : ConsumerCall FillResult → Prop
  | .pull _ _ => False
  | .ack _ => False
  | .nack _ _ => False
  | .toDlq _ _ => False
  | _ => True

section Stable

variable {D : QueueFile → Prop}

theorem wpc_stableCall (hD : Stable subscription D) {op : ServiceCall} (hop : isQueueCall op = false)
    (hs : OnFile D s) : wpc (serviceWorld subscription) (OnFile D) (perform op)
      (fun _ s' => OnFile D s') s := by
  apply wpc_of_perform hs
  intro r s' step
  have hs' : OnFile D s' := hD.elsewhere _ _ hs (elsewhere_of_step hop step)
  exact ⟨hs', hs'⟩

theorem wpc_wireProducer (hD : Stable subscription D) (op : ProducerCall) (hs : OnFile D s) :
    wpc (serviceWorld subscription) (OnFile D) (wireProducer op)
      (fun _ s' => OnFile D s') s := by
  cases op with
  | queuePublish topic body =>
      refine wpc_onQueue (Q := fun _ f => D f) (wpc_shared hs ?_ fun e f' others =>
        ⟨hD.elsewhere _ _ hs others, hD.elsewhere _ _ hs others⟩)
      intro dbNow a f' _ others
      have hD' := hD.elsewhere _ _ (hD.insert _ topic (.json body) hs) others
      exact ⟨hD', hD'⟩
  | _ => exact wpc_stableCall hD rfl hs

theorem wpc_wireStable (hD : Stable subscription D) {op : ConsumerCall FillResult}
    (hop : notQueue op) (hs : OnFile D s) :
    wpc (serviceWorld subscription) (OnFile D) (svc.wire op)
      (fun _ s' => True ∧ OnFile D s') s := by
  have hpass : ∀ call, wpc (serviceWorld subscription) (OnFile D)
      (perform (.consumer call)) (fun _ s' => True ∧ OnFile D s') s := fun call =>
    wpc_post (wpc_stableCall hD rfl hs) fun _ _ _ h => ⟨trivial, h⟩
  cases op with
  | pull subscription n => exact absurd hop id
  | ack msg => exact absurd hop id
  | nack msg backoffSec => exact absurd hop id
  | toDlq msg reason => exact absurd hop id
  | emitFn order c fill =>
      refine wpc_post (wpc_interp_of_along (P := fun _ => True) ?_ (Proc.only_true _) hs)
        fun _ _ _ h => ⟨trivial, h⟩
      exact fun op s _ hs => wpc_post (wpc_wireProducer hD op hs) fun _ _ _ h => ⟨trivial, h⟩
  | _ => exact hpass _

/-- A part of the consumer that does not settle. -/
theorem wpc_stable (hD : Stable subscription D) {α : Type}
    {p : Proc (ConsumerI FillResult) Exc α} (hp : p.Only notQueue) (hs : OnFile D s) :
    wpc (serviceWorld subscription) (OnFile D) (p.interp svc.wire)
      (fun _ s' => OnFile D s') s :=
  wpc_interp_of_along (fun _ _ hop hs => wpc_wireStable hD hop hs) hp hs

end Stable

/-- The part before the settlement does not reach the orders queue. -/
theorem assess_notQueue {c : Consumer} : (c.assess msg now).Only notQueue := by
  have hasks : ∀ op : ConsumerCall FillResult, Consumer.asks op → notQueue op := by
    intro op hop
    cases op with
    | pull subscription n => exact hop
    | ack msg => exact hop
    | nack msg backoffSec => exact hop
    | toDlq msg reason => exact hop
    | _ => exact trivial
  refine (Consumer.examine_asks.mono hasks).bind fun x => ?_
  cases x with
  | verdict v => exact trivial
  | executable order =>
      refine Proc.Along.bind (Proc.Along.attempt ?_) fun _ => trivial
      refine (Proc.along_perform trivial).bind fun price => (Proc.along_perform trivial).bind
        fun opens => Proc.Only.interp (Proc.only_true _) fun op _ => ?_
      cases op with
      | _ => exact Proc.along_perform trivial

section Settling

variable {D : QueueFile → Prop} {β : Type} {Q : Except Exc β → ServiceState → Prop}

/-- A queue method that settles, and what follows it. -/
theorem wpc_settling {op : ConsumerCall FillResult} {p : Proc QueueI Exc op.Ans}
    {f : op.Ans → Proc (ConsumerI FillResult) Exc β} (hwire : svc.wire op = onQueue p)
    (hp : wpc (sharedWorld subscription) D p (fun _ _ => True) s.file)
    (hok : ∀ a s', OnFile D s' → wpc (serviceWorld subscription) (OnFile D)
      ((f a).interp svc.wire) Q s') (herr : ∀ e s', OnFile D s' → Q (.error e) s') :
    wpc (serviceWorld subscription) (OnFile D)
      (((Proc.perform (I := ConsumerI FillResult) op).bind f).interp svc.wire) Q s := by
  rw [Proc.interp_perform_bind, hwire]
  exact wpc_seq (wpc_onQueue hp) (fun a s' hs' _ => hok a s' hs') fun e s' hs' _ => herr e s' hs'

end Settling

theorem wpc_nackOutcome (hlimit : 1 ≤ svc.backend.maxAttempts) {backoffSec : Binary64}
    {outcome : Outcome} (hs : OnFile (Kept subscription svc.backend.maxAttempts q body) s) :
    wpc (serviceWorld subscription) (OnFile (Kept subscription svc.backend.maxAttempts q body))
      (((Consumer.perform (.nack msg backoffSec)).bind fun _ => Proc.ret outcome).interp svc.wire)
      (fun _ s' => OnFile (Kept subscription svc.backend.maxAttempts q body) s') s :=
  wpc_settling rfl (wpc_nackKept hlimit hs) (fun _ _ hs' => ⟨hs', hs'⟩) fun _ _ hs' => hs'

theorem wpc_ackOutcome (hlimit : 1 ≤ limit) {outcome : Outcome}
    (hs : OnFile (Apart subscription limit q body msg.ackId) s) :
    wpc (serviceWorld subscription) (OnFile (Kept subscription limit q body))
      (((Consumer.perform (.ack msg)).bind fun _ => Proc.ret outcome).interp svc.wire)
      (fun _ s' => OnFile (Kept subscription limit q body) s') s :=
  wpc_settling rfl (wpc_ackApart hlimit hs) (fun _ _ hs' => ⟨hs', hs'⟩) fun _ _ hs' => hs'

/-- However another message is settled, row `q` is kept. -/
theorem wpc_concludeApart (hlimit : 1 ≤ svc.backend.maxAttempts) (v : Verdict FillResult)
    (hs : OnFile (Apart subscription svc.backend.maxAttempts q body msg.ackId) s) :
    wpc (serviceWorld subscription) (OnFile (Kept subscription svc.backend.maxAttempts q body))
      ((svc.consumer.conclude msg v).interp svc.wire)
      (fun _ s' => OnFile (Kept subscription svc.backend.maxAttempts q body) s') s := by
  cases v with
  | heartbeat credited => exact wpc_ackOutcome hlimit hs
  | expired => exact wpc_ackOutcome hlimit hs
  | duplicate => exact wpc_ackOutcome hlimit hs
  | parked => exact wpc_nackOutcome hlimit hs.1
  | pausedPark => exact wpc_nackOutcome hlimit hs.1
  | executed r =>
      cases r with
      | error e => exact wpc_nackOutcome hlimit hs.1
      | ok result =>
          simp only [Consumer.conclude, Consumer.settle]
          split_ifs
          · exact wpc_ackOutcome hlimit hs
          · exact wpc_nackOutcome hlimit hs.1
  | malformed res =>
      simp only [Consumer.conclude, Consumer.deadLetter, Proc.bind_eq]
      rw [Proc.interp_bind, Proc.interp_attempt, Proc.interp_perform, wpc_bind, wpc_attempt]
      refine wpc_post (wpc_onQueue (Q := fun _ _ => True)
        (wpc_toDlqKept hlimit hs.1 hs.spentUnder)) fun r s' hs' _ => ?_
      cases r with
      | ok _ => exact ⟨hs', hs'⟩
      | error e => exact wpc_nackOutcome hlimit hs'

/-- The handling of another message, complete or not, keeps row `q`. -/
theorem wpc_handleApart (hlimit : 1 ≤ svc.backend.maxAttempts)
    (hs : OnFile (Apart subscription svc.backend.maxAttempts q body msg.ackId) s) :
    wpc (serviceWorld subscription) (OnFile (Kept subscription svc.backend.maxAttempts q body))
      (svc.handle msg now) (fun _ s' => OnFile (Kept subscription svc.backend.maxAttempts q body) s')
      s := by
  unfold handle
  rw [Consumer.handle_eq, Proc.interp_bind]
  refine wpc_seq (wpc_mono (wpc_stable (stable_apart hlimit msg.ackId) assess_notQueue hs)
    (fun s' hs' => hs'.1) fun _ _ _ h => h) ?_ fun e s' hs' _ => hs'
  exact fun v s' _ hs' => wpc_concludeApart hlimit v hs'

/-- Outcomes that park the message. -/
def parks : Outcome → Bool
  | .parked => true
  | .pausedPark => true
  | _ => false

/-- A handling that ends in a park keeps row `q`, its own row or another one. -/
theorem wp_handleParked (hlimit : 1 ≤ svc.backend.maxAttempts)
    (hs : OnFile (Kept subscription svc.backend.maxAttempts q body) s) :
    wp (serviceWorld subscription) (svc.handle msg now)
      (fun r s' => ∀ o, r = .ok o → parks o = true →
        OnFile (Kept subscription svc.backend.maxAttempts q body) s') s := by
  unfold handle
  rw [Consumer.handle_eq, Proc.interp_bind]
  refine wpc_seq (R := fun _ s' => OnFile (Kept subscription svc.backend.maxAttempts q body) s')
    (wpc_mono (wpc_stable (stable_kept hlimit) assess_notQueue hs) (fun _ _ => trivial)
      fun _ _ _ h => h) ?_ fun e s' _ _ o h => by cases h
  intro v s' _ hs'
  have hother : ∀ {op : ConsumerCall FillResult} {outcome : Outcome} (w : ServiceState),
      parks outcome = false → wp (serviceWorld subscription)
        (((Proc.perform (I := ConsumerI FillResult) op).bind fun _ => Proc.ret outcome).interp
          svc.wire) (fun r s' => ∀ o, r = .ok o → parks o = true →
            OnFile (Kept subscription svc.backend.maxAttempts q body) s') w := by
    intro op outcome w hparks
    rw [Proc.interp_bind]
    refine wpc_seq (wp_true _ w) (fun _ w' _ _ => ⟨trivial, ?_⟩) fun e _ _ _ o h => by cases h
    rintro o ⟨⟩ hpark
    rw [hparks] at hpark
    cases hpark
  have hpark : ∀ outcome, wp (serviceWorld subscription) (((Consumer.perform
      (.nack msg svc.consumer.parkBackoffSec)).bind fun _ => Proc.ret outcome).interp svc.wire)
        (fun r s' => ∀ o, r = .ok o → parks o = true →
          OnFile (Kept subscription svc.backend.maxAttempts q body) s') s' := fun outcome =>
    wpc_mono (wpc_nackOutcome hlimit hs') (fun _ _ => trivial) fun _ _ _ h _ _ _ => h
  cases v with
  | heartbeat credited => exact hother _ (by cases credited <;> rfl)
  | expired => exact hother _ rfl
  | duplicate => exact hother _ rfl
  | parked => exact hpark _
  | pausedPark => exact hpark _
  | executed r =>
      cases r with
      | error e => exact hother _ rfl
      | ok result =>
          simp only [Consumer.conclude, Consumer.settle]
          split_ifs
          · exact hother _ rfl
          · exact hother _ rfl
  | malformed res =>
      simp only [Consumer.conclude, Consumer.deadLetter, Proc.bind_eq]
      rw [Proc.interp_bind]
      refine wpc_seq (wp_true _ s') (fun r w _ _ => ?_) fun e _ _ _ o h => by cases h
      cases r with
      | ok _ =>
          refine ⟨trivial, ?_⟩
          rintro o ⟨⟩ hpark
          cases hpark
      | error e =>
          exact hother w rfl

/-- Fetching a batch keeps row `q`. -/
theorem wpc_fetch (hsub : svc.consumer.subscription = subscription)
    (hlimit : 1 ≤ svc.backend.maxAttempts)
    (hs : OnFile (Kept subscription svc.backend.maxAttempts q body) s) :
    wpc (serviceWorld subscription) (OnFile (Kept subscription svc.backend.maxAttempts q body))
      svc.fetch (fun _ _ => True) s := by
  unfold fetch
  simp only [Proc.bind_eq, Proc.pure_eq, Proc.interp_bind]
  have hstable : Stable subscription (Kept subscription svc.backend.maxAttempts q body) :=
    stable_kept hlimit
  refine wpc_seq (wpc_stable hstable (Proc.along_perform trivial) hs) ?_ fun _ _ _ _ => trivial
  intro now s₁ _ hs₁
  refine wpc_seq (wpc_stable hstable (Proc.along_perform trivial) hs₁) ?_ fun _ _ _ _ => trivial
  intro _ s₂ _ hs₂
  rw [Proc.interp_attempt, Proc.interp_perform, hsub]
  refine wpc_seq (R := fun _ _ => True) ?_ (fun _ s₃ hs₃ _ => ⟨hs₃, trivial⟩) fun _ _ _ _ => trivial
  rw [wpc_attempt]
  exact wpc_onQueue (Q := fun _ _ => True) (wpc_pull hlimit hs₂)

/-- A service of the subscription with a limit on the attempts. -/
def serves (subscription : String) (limit : ℤ) (svc : ConsumerService) : Prop :=
  svc.consumer.subscription = subscription ∧ svc.backend.maxAttempts = limit

/-- The other components between two polls: they may also change the store and the outbox. -/
def otherSteps (subscription : String) (s s' : ServiceState) : Prop :=
  Elsewhere subscription s.file s'.file

/-- If the message was a delivery of row `q`, its handling ended in a park. -/
def ParkedOnly (subscription : String) (q : ℕ) (h : Handling ServiceState) : Prop :=
  h.before.file.IsRow subscription q h.msg.ackId → ∃ o, h.out = some (.ok o) ∧ parks o = true

theorem kept_of_run (hlimit : 1 ≤ limit) {hs : List (Handling ServiceState)}
    (run : Runs (steps (serviceWorld subscription)) (serves subscription limit) (otherSteps subscription)
      s hs s') (hparked : ∀ h ∈ hs, ParkedOnly subscription q h)
    (hs₀ : OnFile (Kept subscription limit q body) s) :
    OnFile (Kept subscription limit q body) s' := by
  refine run.keeps ?_ ?_ (fun w w' hw others => hw.elsewhere hlimit others) hparked hs₀
  · rintro svc w out w' ⟨hsub, rfl⟩ hw exec
    exact (wpc_sound exec (wpc_fetch hsub hlimit hw)).1
  · rintro svc now msg w out w' ⟨-, rfl⟩ hw exec hparked
    by_cases hrow : w.file.IsRow subscription q msg.ackId
    · obtain ⟨o, rfl, hparks⟩ := hparked hrow
      exact wp_sound exec (wp_handleParked hlimit hw) o rfl hparks
    · exact (wpc_sound exec (wpc_handleApart hlimit ⟨hw, hrow⟩)).1

/-- A row of the subscription whose every handling so far ended in a park is still there with its
body. It is ready or in flight while it was delivered fewer than `max_attempts` times; only a row
delivered so often may be dead, and it is never ready again. -/
theorem parked_row_kept (hlimit : 1 ≤ limit) {s₀ s₁ s₂ : ServiceState}
    {hs hs' : List (Handling ServiceState)} (hempty : s₀.file.table.rows = [])
    (run : Runs (steps (serviceWorld subscription)) (serves subscription limit) (otherSteps subscription)
      s₀ hs s₁)
    (run' : Runs (steps (serviceWorld subscription)) (serves subscription limit)
      (otherSteps subscription)
      s₁ hs' s₂)
    {row : QueueRow} (hrow : s₁.file.table.get? q = some row) (htopic : row.topic = subscription)
    (hparked : ∀ h ∈ hs ++ hs', ParkedOnly subscription q h) :
    ∃ row', s₂.file.table.get? q = some row' ∧ row'.topic = subscription ∧ row'.body = row.body ∧
      ((row'.attempts : ℤ) < limit → row'.state = .ready ∨ row'.state = .inflight) ∧
      (limit ≤ row'.attempts → row'.state = .inflight ∨ row'.state = .dead) := by
  have hnone : ∀ k, s₀.file.table.get? k = none := fun k => by simp [Table.get?, hempty]
  have hkept₀ : s₀.file.Kept subscription limit q none :=
    { ids := ⟨fun k r id hk _ => by simp [hnone] at hk, fun k r k' r' id hk => by simp [hnone] at hk⟩
      life := fun r hk => by simp [hnone] at hk
      present := fun b hb => by cases hb }
  have hkept₁ : OnFile (Kept subscription limit q none) s₁ := kept_of_run hlimit run
    (fun h hh => hparked h (List.mem_append_left _ hh)) hkept₀
  have hkept₂ : OnFile (Kept subscription limit q (some row.body)) s₂ := kept_of_run hlimit run'
    (fun h hh => hparked h (List.mem_append_right _ hh))
    ⟨hkept₁.ids, hkept₁.life, fun b hb => ⟨row, hrow, htopic, Option.some.inj hb⟩⟩
  obtain ⟨row', hrow', htopic', hbody⟩ := hkept₂.present row.body rfl
  refine ⟨row', hrow', htopic', hbody, ?_⟩
  rcases hkept₂.life row' hrow' htopic' with ⟨hready, -, hfew⟩ | hinflight | ⟨hdead, hmany⟩
  · exact ⟨fun _ => Or.inl hready, fun h => by omega⟩
  · exact ⟨fun _ => Or.inr hinflight, fun _ => Or.inl hinflight⟩
  · exact ⟨fun h => by omega, fun _ => Or.inr hdead⟩

/-- A host whose safety gate is closed. -/
def paused : StillHost := ⟨.zero, false, plainFill, true⟩

/-- With ten attempts the parked order is ready again. -/
theorem parked_row_kept_tenAttempts : ∃ row,
    (handledBy paused.env (executor 10) buyArrived).2.file.table.get? 0 = some row ∧
      row.state = .ready := by
  have hrun : Runs (steps (serviceWorld Consumer.plainBuy.topic)) (serves Consumer.plainBuy.topic 10)
      (otherSteps Consumer.plainBuy.topic) nothing [] buyArrived :=
    .other .refl buyArrived_elsewhere
  have hpolls := polls_by paused.env (executor 10) buyArrived
    (o := .pausedPark) (paused.env_step Consumer.plainBuy.topic) (by decide +kernel)
    (by decide +kernel)
  obtain ⟨row, hrow, -, -, hfew, -⟩ := parked_row_kept (by decide) rfl hrun
    (.poll .refl ⟨rfl, rfl⟩ hpolls) (q := 0) rfl rfl (by
      intro h hh _
      rw [List.mem_singleton.mp hh]
      exact ⟨.pausedPark, rfl, rfl⟩)
  have hstate : ((handledBy paused.env (executor 10) buyArrived).2.file.table.get? 0).any
      (fun row => row.attempts = 1 ∧ row.state ≠ .inflight) = true := by decide +kernel
  rw [hrow] at hstate
  simp only [Option.any_some, decide_eq_true_eq] at hstate
  refine ⟨row, hrow, (hfew ?_).resolve_right hstate.2⟩
  rw [hstate.1]
  decide

/-- With one attempt the same park puts the order under the dead letters. -/
theorem parked_buy_dead_lettered : ∃ (hs : List (Handling ServiceState)) (s : ServiceState),
    Runs (steps (serviceWorld Consumer.plainBuy.topic)) (serves Consumer.plainBuy.topic 1)
      (otherSteps Consumer.plainBuy.topic) nothing hs s ∧
    (∃ h ∈ hs, h.before.file.IsRow Consumer.plainBuy.topic 0 h.msg.ackId) ∧
    (∀ h ∈ hs, ∃ o, h.out = some (.ok o) ∧ parks o = true) ∧
    ∃ row, s.file.table.get? 0 = some row ∧ row.state = .dead := by
  have hpolls := polls_by paused.env (executor 1) buyArrived
    (o := .pausedPark) (paused.env_step Consumer.plainBuy.topic) (by decide +kernel)
    (by decide +kernel)
  refine ⟨_, _, .poll (.other .refl buyArrived_elsewhere) ⟨rfl, rfl⟩ hpolls,
    ⟨_, List.mem_singleton.mpr rfl, ?_⟩, ?_, ?_⟩
  · have hleased : ((fetchedBy paused.env (executor 1) buyArrived).2.file.table.get? 0).any
        (fun row => row.topic = Consumer.plainBuy.topic ∧
          row.ackId = some (deliveredBy paused.env (executor 1) buyArrived).ackId) = true := by
      decide +kernel
    obtain ⟨row, hrow, hid⟩ := (Option.any_eq_true _ _).mp hleased
    exact ⟨row, hrow, of_decide_eq_true hid⟩
  · intro h hh
    rw [List.mem_singleton.mp hh]
    exact ⟨.pausedPark, rfl, rfl⟩
  · have hdead : ((handledBy paused.env (executor 1) buyArrived).2.file.table.get? 0).any
        (fun row => row.state = .dead) = true := by decide +kernel
    obtain ⟨row, hrow, hstate⟩ := (Option.any_eq_true _ _).mp hdead
    exact ⟨row, hrow, of_decide_eq_true hstate⟩

end ConsumerService

end System2
