import System2.Execution.FillTold

/-!
# Orders that are acked without a submission

An order that expired, or that the pipeline rejected before it submitted, is acked. The hook
that writes to the fill outbox stands behind the submission, so handling such an order
writes nothing: System 3 has been told of its fate only if an earlier handling told it.
-/

namespace System2
open Foundation

/-- The message was acked, and the order was not submitted: it expired or was rejected. -/
def Outcome.unsubmitted : Outcome → Bool
  | .expired => true
  | .handled .rejectedInvalid => true
  | .handled .rejectedValidation => true
  | .handled .rejectedBackupGuard => true
  | _ => false

/-- A rejection by the pipeline that is acked. -/
def Decision.refuses : Decision → Bool
  | .rejectedInvalid => true
  | .rejectedValidation => true
  | .rejectedBackupGuard => true
  | _ => false

namespace Pipeline

variable {F W : Type} {world : World (PipelineI F) Exc W} {J : W → Prop} {w : W} {p : Pipeline}
  {order : ApprovedOrder} {entryPrice : PyVal} {openInstruments : List String}

/-- A rejection comes from the gates: what their calls keep holds behind it. -/
theorem wp_process_refused (hkeeps : ∀ op w r w', asks op → J w → world w op r w' → J w')
    (hw : J w) : wp world (p.process (F := F) order entryPrice openInstruments)
      (fun r w' => ∀ result, r = .ok result → result.decision.refuses = true → J w') w := by
  have hgated : wp world (p.gated (F := F) order entryPrice openInstruments) (fun _ => J) w :=
    wpc_mono (wpc_of_only hkeeps gated_asks hw) (fun _ _ => trivial) fun _ _ _ h => h
  rw [process_eq]
  refine wpc_seq hgated ?_ fun e _ _ _ result h => by cases h
  rintro passed w₁ - hw₁
  cases passed with
  | inl refused => exact ⟨trivial, fun _ _ _ => hw₁⟩
  | inr constructed =>
      rw [settle]
      split_ifs
      · exact ⟨trivial, fun _ _ _ => hw₁⟩
      refine wpc_post (wpc_of_yields (fun _ _ _ _ _ => trivial)
        submitAndRecord_executed (wp_true _ w₁)) ?_
      rintro _ _ - ⟨-, hexecuted⟩ result rfl hrefuses
      rw [hexecuted result rfl] at hrefuses
      cases hrefuses

end Pipeline

namespace Consumer

variable {F W : Type} {c : Consumer} {msg : ReceivedMessage} {now : Moment}

/-- Calls other than `emit_fn`. -/
def notEmission : ConsumerCall F → Prop
  | .emitFn _ _ _ => False
  | _ => True

/-- In the consumer only `emit_fn` does something here. -/
def emissionWorld : World (ConsumerI F) Exc W := fun w op _ w' => notEmission op → w' = w

theorem wp_keeps {α : Type} {p : Proc (ConsumerI F) Exc α} (hp : p.Only notEmission) (b : W) :
    wp emissionWorld p (fun _ b' => b' = b) b :=
  wpc_mono (wpc_of_only (J := fun b' => b' = b)
    (fun _ _ _ _ hop hsame step => (step hop).trans hsame) hp rfl)
    (fun _ _ => trivial) fun _ _ _ h => h

theorem wp_ask (op : ConsumerCall F) (hop : notEmission op) (b : W) :
    wp emissionWorld (perform op) (fun _ b' => b' = b) b := wp_keeps (Proc.along_perform hop) b

theorem notEmission_of_asks {op : ConsumerCall F} (hop : asks op) : notEmission op := by
  cases op with
  | emitFn order c fill => exact hop.elim
  | _ => exact trivial

theorem notEmission_of_settles {op : ConsumerCall F} (hop : settles op) : notEmission op := by
  cases op with
  | emitFn order c fill => exact hop.elim
  | _ => exact trivial

/-- The verdicts on an order that is acked without a submission. -/
def Verdict.unsubmitted : Verdict F → Bool
  | .expired => true
  | .executed (.ok result) => result.decision.refuses
  | _ => false

/-- Only those verdicts lead to those outcomes. -/
theorem conclude_unsubmitted (v : Verdict F)
    {allowed : (op : ConsumerCall F) → Except Exc op.Ans → Prop} :
    (conclude c msg v).Yields allowed fun o =>
      o.unsubmitted = true → Verdict.unsubmitted v = true := by
  have hreturn : ∀ {op : ConsumerCall F} {o : Outcome},
      (o.unsubmitted = true → Verdict.unsubmitted v = true) →
      ((perform op).bind fun _ => .ret o).Yields allowed fun o =>
        o.unsubmitted = true → Verdict.unsubmitted v = true :=
    fun ho => (Proc.yields_true _).bind fun _ _ => ho
  cases v with
  | heartbeat credited =>
      cases credited with
      | true => exact hreturn fun h => by cases h
      | false => exact hreturn fun h => by cases h
  | malformed res =>
      refine (Proc.yields_true _).bind fun r _ => ?_
      cases r with
      | ok _ => exact fun h => by cases h
      | error e => exact hreturn fun h => by cases h
  | expired => exact hreturn fun _ => rfl
  | duplicate => exact hreturn fun h => by cases h
  | parked => exact hreturn fun h => by cases h
  | pausedPark => exact hreturn fun h => by cases h
  | executed r =>
      cases r with
      | error e => exact hreturn fun h => by cases h
      | ok result =>
          simp only [conclude, settle]
          split_ifs
          · refine hreturn fun h => ?_
            unfold Verdict.unsubmitted Decision.refuses
            unfold Outcome.unsubmitted at h
            cases hd : result.decision <;> simp_all
          · exact hreturn fun h => by cases h

/-- A verdict of that kind comes without an emission. -/
theorem wp_assess (b : W) : wp emissionWorld (assess (F := F) c msg now)
    (fun r b' => ∀ v, r = .ok v → Verdict.unsubmitted v = true → b' = b) b := by
  refine wpc_seq (wp_keeps (examine_asks.mono fun _ => notEmission_of_asks) b) ?_
    fun e _ _ _ v h => by cases h
  rintro finding b' - rfl
  cases finding with
  | verdict v => exact ⟨trivial, fun _ _ _ => rfl⟩
  | executable order =>
      have hexecute : wp emissionWorld (execute (F := F) c order)
          (fun r b₁ => ∀ result, r = .ok result → result.decision.refuses = true → b₁ = b')
          b' := by
        refine wpc_seq (wp_ask (.priceFn order) trivial b') ?_ fun e _ _ _ result h => by cases h
        rintro price b₁ - rfl
        refine wpc_seq (wp_ask .openInstrumentsFn trivial b₁) ?_
          fun e _ _ _ result h => by cases h
        rintro opens b₂ - rfl
        apply wpc_route
        refine Pipeline.wp_process_refused (J := fun b₃ => b₃ = b₂) ?_ rfl
        intro op b₃ r b₄ hop hb₃ step
        cases op with
        | seen key => exact (step trivial).trans hb₃
        | clock => exact (step trivial).trans hb₃
        | validate o => exact (step trivial).trans hb₃
        | _ => exact hop.elim
      simp only [carryOut, Proc.bind_eq, wpc_bind, wpc_attempt]
      apply wpc_post hexecute
      rintro r b₁ - hrefused
      refine ⟨trivial, ?_⟩
      rintro v ⟨⟩ hv
      cases r with
      | error e => cases hv
      | ok result => exact hrefused result rfl hv

/-- Whoever is acked without a submission is acked without an emission. -/
theorem wp_handle_unsubmitted (b : W) : wp emissionWorld (handle (F := F) c msg now)
    (fun r b' => ∀ o, r = .ok o → o.unsubmitted = true → b' = b) b := by
  rw [handle_eq]
  refine wpc_seq (wp_assess b) ?_ fun e _ _ _ o h => by cases h
  rintro v b' - hv
  refine wpc_post (wpc_of_yields (fun _ _ _ _ _ => trivial) (conclude_unsubmitted v)
    (wp_keeps ((conclude_settles v).mono fun _ => notEmission_of_settles) b')) ?_
  rintro r b'' - ⟨rfl, hv'⟩ o ho hun
  exact hv v rfl (hv' o ho hun)

end Consumer

namespace ConsumerService

variable {svc : ConsumerService} {subscription : String} {s s' : ServiceState}

/-- Only an outbox write changes the outbox. -/
theorem outbox_kept {op : ServiceCall} {r : Except Exc op.Ans} (hop : isOutboxWrite op = false)
    (step : serviceWorld subscription s op r s') : s'.outbox = s.outbox := by
  cases op with
  | queue call => exact step.2.2
  | producer call =>
      cases call with
      | outboxPublish topic body => cases hop
      | _ => exact step.2.2
  | consumer call =>
      cases call with
      | pipeline call =>
          cases call with
          | seen key => exact step.2.2.2
          | mark key => exact step.2.2
          | _ => exact step.2.2
      | _ => exact step.2.2

theorem onQueue_unwritten {α : Type} (p : Proc QueueI Exc α) :
    (onQueue p).Only fun op => isOutboxWrite op = false :=
  Proc.Only.interp (Proc.only_true p) fun _ _ => Proc.along_perform rfl

/-- Only the emission hook writes to the outbox. -/
theorem wire_unwritten {op : ConsumerCall FillResult} (hop : Consumer.notEmission op) :
    (svc.wire op).Only fun op => isOutboxWrite op = false := by
  cases op with
  | emitFn order c fill => exact absurd hop id
  | pull subscription n => exact onQueue_unwritten _
  | ack msg => exact onQueue_unwritten _
  | nack msg backoffSec => exact onQueue_unwritten _
  | toDlq msg reason => exact onQueue_unwritten _
  | _ => exact Proc.along_perform rfl

/-- What holds of the consumer with a free emission hook holds of the outbox of the service. -/
theorem wp_wired {α : Type} {p : Proc (ConsumerI FillResult) Exc α}
    {Q : Except Exc α → List PyVal → Prop}
    (hp : wp Consumer.emissionWorld p Q s.outbox) :
    wp (serviceWorld subscription) (p.interp svc.wire) (fun r s' => Q r s'.outbox) s := by
  have hview : wpc (serviceWorld subscription) (fun _ => True ∧ True) (p.interp svc.wire)
      (fun r s' => Q r s'.outbox) s := by
    refine wpc_interp_view (v := ServiceState.outbox) (F := fun _ => True) ?_ hp trivial
    intro op w Q' _ _ hstep
    by_cases hop : Consumer.notEmission op
    · refine wpc_mono (wpc_of_only (J := fun s' => s'.outbox = w.outbox)
        (fun _ _ _ _ hunwritten hsame step => (outbox_kept hunwritten step).trans hsame)
        (wire_unwritten hop) rfl) (fun _ _ => ⟨trivial, trivial⟩) ?_
      exact fun r s' _ hsame => (hstep r s' (fun _ => hsame) trivial).2
    · refine wpc_mono (wp_true _ w) (fun _ _ => ⟨trivial, trivial⟩) ?_
      exact fun r s' _ _ => (hstep r s' (fun h => absurd h hop) trivial).2
  exact wpc_mono hview (fun _ _ => trivial) fun _ _ _ h => h

/-- A fill confirmation that says that the order of a key was not filled. -/
def declines (key : String) (body : PyVal) : Bool :=
  confirms key body &&
    ((body.entries.get "payload").entries.get "realized_status" |> fun status =>
      status.isStr "REJECTED" || status.isStr "CANCELLED" || status.isStr "EXPIRED")

/-- System 3 has been told, through the outbox, that the order of a key was not filled. -/
def Declined (key : String) (s : ServiceState) : Prop := ∃ body ∈ s.outbox, declines key body = true

/-- The key of the order that a message carries. -/
def orderKey (msg : ReceivedMessage) : String := (msg.body.entries.get "idempotency_key").toStr

/-- When a message was acked without a submission, System 3 has been told the fate of its order
exactly if it had been told before the message was handled. -/
theorem declined_iff (msg : ReceivedMessage) (now : Moment) (o : Outcome)
    (exec : Exec (serviceWorld subscription) (svc.handle msg now) s (some (.ok o)) s')
    (hout : o.unsubmitted = true) : Declined (orderKey msg) s' ↔ Declined (orderKey msg) s := by
  have hsame : s'.outbox = s.outbox :=
    wp_sound exec (wp_wired (Consumer.wp_handle_unsubmitted s.outbox)) o rfl hout
  rw [Declined, Declined, hsame]

/-! ### An expired order -/

/-- `plainBuy` with an expiry at the first moment. -/
def expiredBuy : ReceivedMessage :=
  { Consumer.plainBuy with body := .dict (orderMessage "BUY" (.int 1000) .null ++
      [("expires_at", .str "0001-01-01T00:00:00Z")]) }

/-- It arrives where nothing is on file. -/
def expiredArrived : ServiceState :=
  ⟨⟨Table.empty.insert (.inserted expiredBuy.topic (.json expiredBuy.body)), []⟩, [], []⟩

/-- The executor fetches the order and acks it. -/
theorem expired_handled : Exec (serviceWorld Consumer.plainBuy.topic)
    ((executor 10).handle (deliveredBy working.env (executor 10) expiredArrived) Moment.first)
    (fetchedBy working.env (executor 10) expiredArrived).2 (some (.ok .expired))
    (handledBy working.env (executor 10) expiredArrived).2 := by
  have hrun := exec_run (working.env_step Consumer.plainBuy.topic)
    ((executor 10).handle (deliveredBy working.env (executor 10) expiredArrived) Moment.first)
    (fetchedBy working.env (executor 10) expiredArrived).2
  have hout : (handledBy working.env (executor 10) expiredArrived).1 = .ok .expired :=
    eq_ok_of_toOption (by decide +kernel)
  exact hout ▸ hrun

theorem declined_iff_expired :
    Declined "key-1" (handledBy working.env (executor 10) expiredArrived).2 ↔
      Declined "key-1" (fetchedBy working.env (executor 10) expiredArrived).2 := by
  have hkey : orderKey (deliveredBy working.env (executor 10) expiredArrived) = "key-1" := by
    decide +kernel
  have hiff := declined_iff _ _ _ expired_handled rfl
  rwa [hkey] at hiff

/-- The order was acked as expired, and the outbox is empty. -/
theorem expired_untold :
    ¬ ∀ (svc : ConsumerService) (subscription : String) (msg : ReceivedMessage) (now : Moment)
      (s s' : ServiceState) (o : Outcome),
      Exec (serviceWorld subscription) (svc.handle msg now) s (some (.ok o)) s' →
        o.unsubmitted = true → Declined (orderKey msg) s' := by
  intro hall
  obtain ⟨body, hbody, -⟩ := hall _ _ _ _ _ _ _ expired_handled rfl
  have hempty : (handledBy working.env (executor 10) expiredArrived).2.outbox.isEmpty = true := by
    decide +kernel
  rw [List.isEmpty_iff.mp hempty] at hbody
  cases hbody

end ConsumerService

end System2
