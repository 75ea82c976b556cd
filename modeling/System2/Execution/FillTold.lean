import System2.Execution.ServiceRuns

/-!
# A returned fill reaches the fill outbox before any ack

The marks come before the hooks that record and report a fill. A hook that fails
after the marks leaves a fill that the redelivery will never report: it finds the
marks and acks. While these hooks return, every fill is in the outbox before the
next message is settled.

## Implementation notes

The record of the calls tells which fills were returned and which acks were made.
Conditions on single calls restrict the world; the death of the process between a
fill and its outbox write is a condition on where an execution stops.
-/

namespace System2
open Foundation

namespace ConsumerService

abbrev ServiceEvent := Event ServiceI Exc

/-- The service's state with the record of its calls. -/
abbrev Recorded := ServiceState × List ServiceEvent

/-- The key of the order for which `submit_fn` returned a fill. -/
def filledKey : ServiceEvent → Option String
  | ⟨.consumer (.pipeline (.submit c)), .ok _⟩ => some c.idempotencyKey
  | _ => none

/-- `submit_fn` returned a fill for the order of a key. -/
abbrev Fills (key : String) (e : ServiceEvent) : Prop := filledKey e = some key

/-- A message is marked done. -/
def isAck : ServiceCall → Bool
  | .queue (.setDone _) => true
  | _ => false

def isOutboxWrite : ServiceCall → Bool
  | .producer (.outboxPublish _ _) => true
  | _ => false

/-- A fill confirmation for the order of a key. -/
def confirms (key : String) (body : PyVal) : Bool :=
  (body.entries.get "event_type").isStr "fill_confirmation" &&
    (body.entries.get "idempotency_key").isStr key

/-- The outbox holds a fill confirmation for the order of a key. -/
def Told (key : String) (s : ServiceState) : Prop := ∃ body ∈ s.outbox, confirms key body = true

/-- Every fill that was returned before some ack is told. -/
def AckedTold (w : Recorded) : Prop :=
  ∀ t₁ t₂ key, w.2 = t₁ ++ t₂ → (∃ e ∈ t₁, Fills key e) → (∃ e ∈ t₂, isAck e.1 = true) →
    Told key w.1

/-- Every fill that was returned is told. -/
def AllTold (w : Recorded) : Prop := ∀ e ∈ w.2, ∀ key, Fills key e → Told key w.1

/-- A fill was returned and nothing was written to the outbox since. -/
def Waiting (w : Recorded) : Prop :=
  ∃ t₁ e t₂ key, w.2 = t₁ ++ e :: t₂ ∧ Fills key e ∧ ∀ e' ∈ t₂, isOutboxWrite e'.1 = false

/-- The calls between a fill and the write of its confirmation. -/
def isReporting : ServiceCall → Bool
  | .consumer (.pipeline (.mark _)) => true
  | .consumer (.pipeline (.persist _ _)) => true
  | .producer .uuid4 => true
  | .producer .utcNowIso => true
  | .producer (.outboxPublish _ _) => true
  | _ => false

/-- A returned fill has a status that a fill confirmation may carry. -/
def validFill : ServiceEvent → Bool
  | ⟨.consumer (.pipeline (.submit _)), .ok fill⟩ =>
      validRealizedStatus.contains fill.realizedStatus
  | _ => true

/-- A call that does not keep a fill from being reported. -/
abbrev Undisturbed (e : ServiceEvent) : Prop :=
  (isReporting e.1 = true → e.2.isOk = true) ∧ validFill e = true

/-- The recorded world, and the part of it without disturbances. -/
abbrev recordedWorld (subscription : String) : World ServiceI Exc Recorded :=
  (serviceWorld subscription).traced

abbrev calmWorld (subscription : String) : World ServiceI Exc Recorded :=
  World.under (recordedWorld subscription) Undisturbed

variable {subscription : String} {svc : ConsumerService} {msg : ReceivedMessage} {now : Moment}
  {w w' : Recorded} {key : String} {op : ServiceCall} {r : Except Exc op.Ans}

theorem Told.mono {s s' : ServiceState} (h : Told key s) (hout : ∀ b ∈ s.outbox, b ∈ s'.outbox) :
    Told key s' := by
  obtain ⟨body, hbody, hconfirms⟩ := h
  exact ⟨body, hout body hbody, hconfirms⟩

theorem AllTold.ackedTold (h : AllTold w) : AckedTold w := by
  rintro t₁ t₂ key ht ⟨e, he, hfill⟩ -
  exact h e (ht ▸ List.mem_append_left _ he) key hfill

/-- No call takes anything out of the outbox. -/
theorem outbox_grows {s s' : ServiceState} (step : serviceWorld subscription s op r s') :
    ∀ b ∈ s.outbox, b ∈ s'.outbox := by
  intro b hb
  cases op with
  | queue call => exact step.2.2 ▸ hb
  | producer call =>
      cases call with
      | outboxPublish topic body =>
          rw [step.1]
          cases r with
          | ok _ => exact List.mem_append_left _ hb
          | error e => exact hb
      | _ => exact step.2.2 ▸ hb
  | consumer call =>
      cases call with
      | pipeline call =>
          cases call with
          | seen key => exact step.2.2.2 ▸ hb
          | mark key => exact step.2.2 ▸ hb
          | _ => exact step.2.2 ▸ hb
      | _ => exact step.2.2 ▸ hb

theorem fills_isSubmit {e : ServiceEvent} (h : Fills key e) : isSubmit e.1 = true := by
  unfold Fills filledKey at h
  split at h
  · rfl
  · cases h

/-- What an event that acks nothing leaves of `AckedTold`. -/
theorem AckedTold.snoc {s s' : ServiceState} {t : List ServiceEvent} {e : ServiceEvent}
    (h : AckedTold (s, t)) (hout : ∀ b ∈ s.outbox, b ∈ s'.outbox) (he : isAck e.1 = false) :
    AckedTold (s', t ++ [e]) := by
  rintro t₁ t₂ key ht hfills ⟨a, ha, hack⟩
  rcases List.eq_nil_or_concat t₂ with rfl | ⟨t₃, b, rfl⟩
  · cases ha
  · obtain ⟨ht', rfl⟩ : t = t₁ ++ t₃ ∧ e = b := by
      rw [List.concat_eq_append, ← List.append_assoc] at ht
      simpa using List.append_inj' ht rfl
    refine (h t₁ t₃ key ht' hfills ⟨a, ?_, hack⟩).mono hout
    rcases List.mem_append.mp (List.concat_eq_append .. ▸ ha) with hmem | hlast
    · exact hmem
    · rw [List.mem_singleton.mp hlast] at hack
      rw [he] at hack
      cases hack

/-- Every call but a submit keeps all fills told. -/
theorem AllTold.step (h : AllTold w) (step : recordedWorld subscription w op r w')
    (hop : isSubmit op = false) : AllTold w' := by
  intro e he key hfill
  rw [step.2] at he
  rcases List.mem_append.mp he with hold | hnew
  · exact (h e hold key hfill).mono (outbox_grows step.1)
  · have hsub := fills_isSubmit hfill
    rw [List.mem_singleton.mp hnew, hop] at hsub
    cases hsub

/-- The fill of one order still has to be reported. -/
structure Pending (key : String) (w : Recorded) : Prop where
  acked : AckedTold w
  waiting : Waiting w
  others : ∀ e ∈ w.2, ∀ key', Fills key' e → key' = key ∨ Told key' w.1

/-- A call that neither submits nor acks nor writes to the outbox. -/
def isAside (op : ServiceCall) : Bool := !isSubmit op && !isAck op && !isOutboxWrite op

theorem Pending.step (h : Pending key w) (step : recordedWorld subscription w op r w')
    (hop : isAside op = true) : Pending key w' := by
  simp only [isAside, Bool.and_eq_true, Bool.not_eq_true'] at hop
  obtain ⟨s, t⟩ := w
  obtain ⟨s', t'⟩ := w'
  obtain ⟨hstep, rfl⟩ := step
  refine ⟨h.acked.snoc (outbox_grows hstep) hop.1.2, ?_, ?_⟩
  · obtain ⟨t₁, e, t₂, k, ht, hfill, hquiet⟩ := h.waiting
    refine ⟨t₁, e, t₂ ++ [⟨op, r⟩], k, ?_, hfill, ?_⟩
    · simp only at ht ⊢
      rw [ht, List.append_assoc, List.cons_append]
    · intro e' he'
      rcases List.mem_append.mp he' with hold | hnew
      · exact hquiet e' hold
      · rw [List.mem_singleton.mp hnew]
        exact hop.2
  · intro e he key' hfill
    rcases List.mem_append.mp he with hold | hnew
    · exact (h.others e hold key' hfill).imp_right fun htold => htold.mono (outbox_grows hstep)
    · have hsub := fills_isSubmit hfill
      rw [List.mem_singleton.mp hnew, hop.1.1] at hsub
      cases hsub

/-- A submit that fails keeps all fills told; one that returns leaves its order's to be told. -/
theorem AllTold.submit {c : ConstructedOrder} {r : Except Exc FillResult} (h : AllTold w)
    (step : recordedWorld subscription w (.consumer (.pipeline (.submit c))) r w') :
    (∀ e, r = .error e → AllTold w') ∧ (∀ fill, r = .ok fill → Pending c.idempotencyKey w') := by
  obtain ⟨s, t⟩ := w
  obtain ⟨s', t'⟩ := w'
  have hgrows := outbox_grows step.1
  obtain ⟨-, rfl⟩ := step
  have hold : ∀ e ∈ t, ∀ key, Fills key e → Told key s' := fun e he key hfill =>
    (h e he key hfill).mono hgrows
  constructor
  · rintro e₀ rfl e he key hfill
    rcases List.mem_append.mp he with hmem | hnew
    · exact hold e hmem key hfill
    · rw [List.mem_singleton.mp hnew] at hfill
      cases hfill
  · rintro fill rfl
    refine ⟨h.ackedTold.snoc hgrows rfl, ?_, ?_⟩
    · exact ⟨t, _, [], _, rfl, rfl, fun e he => by cases he⟩
    · intro e he key hfill
      rcases List.mem_append.mp he with hmem | hnew
      · exact Or.inr (hold e hmem key hfill)
      · rw [List.mem_singleton.mp hnew] at hfill
        exact Or.inl (Option.some.inj hfill).symm

/-- The write of the confirmation tells the fill. -/
theorem Pending.outboxWrite {topic : String} {body : PyVal} (h : Pending key w)
    (hbody : confirms key body = true)
    (step : recordedWorld subscription w (.producer (.outboxPublish topic body)) (.ok ()) w') :
    AllTold w' := by
  have hgrows := outbox_grows step.1
  intro e he key' hfill
  rw [step.2] at he
  rcases List.mem_append.mp he with hold | hnew
  · rcases h.others e hold key' hfill with rfl | htold
    · exact ⟨body, step.1.1 ▸ List.mem_append_right _ (List.mem_singleton.mpr rfl), hbody⟩
    · exact htold.mono hgrows
  · have hsub := fills_isSubmit hfill
    rw [List.mem_singleton.mp hnew] at hsub
    cases hsub

/-- What holds wherever an execution stops: the acks are in order, and all fills are told
unless one still waits for its outbox write. -/
def Safe (w : Recorded) : Prop := AckedTold w ∧ (¬ Waiting w → AllTold w)

theorem AllTold.safe (h : AllTold w) : Safe w := ⟨h.ackedTold, fun _ => h⟩

theorem Pending.safe (h : Pending key w) : Safe w := ⟨h.acked, fun hw => absurd h.waiting hw⟩

/-! ### What keeps all fills told -/

/-- A procedure that submits nothing keeps all fills told. -/
theorem wpc_told {α : Type} {F : ServiceEvent → Prop} {p : Proc ServiceI Exc α}
    (hp : p.Only fun o => isSubmit o = false) (hw : AllTold w) :
    wpc (World.under (recordedWorld subscription) F) Safe p (fun _ w' => AllTold w') w :=
  wpc_mono (wpc_of_only (fun _ _ _ _ hop hw step => hw.step step.1 hop) hp hw)
    (fun _ h => h.safe) fun _ _ _ h => h

theorem wpc_quiet {α : Type} {F : ServiceEvent → Prop} {p : Proc (ConsumerI FillResult) Exc α}
    (hp : p.Only Consumer.notSubmit) (hw : AllTold w) :
    wpc (World.under (recordedWorld subscription) F) Safe (p.interp svc.wire)
      (fun _ w' => AllTold w') w :=
  wpc_told (Proc.Only.interp hp fun _ hop => wire_quiet hop) hw

/-! ### From the fill to the outbox -/

/-- A call between the fill and the outbox write returns and leaves the fill pending. -/
theorem wpc_aside (hop : isAside op = true) (hrep : isReporting op = true) (hw : Pending key w) :
    wpc (calmWorld subscription) Safe (perform op)
      (fun r w' => (∃ a, r = .ok a) ∧ Pending key w') w := by
  apply wpc_of_perform hw.safe
  intro r w' step
  have hw' := hw.step step.1 hop
  exact ⟨hw'.safe, exists_of_isOk (step.2.1 hrep), hw'⟩

/-- The envelope of a fill confirms it. -/
theorem confirms_makeEnvelope (messageId createdAt correlationId granularity : String)
    (payload : PyVal) : confirms key (makeEnvelope messageId createdAt payload key correlationId
      (some granularity) (some "fill_confirmation")) = true := by
  simp [confirms, makeEnvelope, PyVal.entries, Dict.get, Dict.get?, PyVal.isStr]

/-- The confirmation of a fill with a valid status. -/
theorem wpc_buildMessage {order : ApprovedOrder} {fill : FillResult}
    (hvalid : validRealizedStatus.contains fill.realizedStatus = true)
    (hw : Pending order.idempotencyKey w) :
    wpc (calmWorld subscription) Safe ((FillProducer.buildMessage order fill).interp wireProducer)
      (fun r w' => (∃ body, r = .ok body ∧ confirms order.idempotencyKey body = true) ∧
        Pending order.idempotencyKey w') w := by
  simp only [FillProducer.buildMessage, hvalid, Bool.not_true, Bool.false_eq_true, if_false,
    Proc.bind_eq, Proc.pure_eq]
  rw [Proc.interp_bind, Proc.interp_perform]
  refine wpc_seq (wpc_aside rfl rfl hw) ?_ fun e _ _ h => by
    obtain ⟨⟨a, ha⟩, -⟩ := h
    cases ha
  rintro messageId w₁ - ⟨-, hw₁⟩
  rw [Proc.interp_bind, Proc.interp_perform]
  refine wpc_seq (wpc_aside rfl rfl hw₁) ?_ fun e _ _ h => by
    obtain ⟨⟨a, ha⟩, -⟩ := h
    cases ha
  rintro createdAt w₂ - ⟨-, hw₂⟩
  exact ⟨hw₂.safe, ⟨_, rfl, confirms_makeEnvelope _ _ _ _ _⟩, hw₂⟩

/-- The emission of a pending fill tells it, however its delivery goes on. -/
theorem wpc_emitFill {p : FillProducer} {rounds : ℕ} {order : ApprovedOrder} {c : ConstructedOrder}
    {fill : FillResult} (hvalid : validRealizedStatus.contains fill.realizedStatus = true)
    (hw : Pending order.idempotencyKey w) :
    wpc (calmWorld subscription) Safe ((p.emitFill rounds order c fill).interp wireProducer)
      (fun _ w' => AllTold w') w := by
  simp only [FillProducer.emitFill, FillProducer.publishFill, Proc.bind_eq, Proc.bind_assoc]
  rw [Proc.interp_bind]
  refine wpc_seq (wpc_buildMessage hvalid hw) ?_ fun e _ _ h => by
    obtain ⟨⟨body, hbody, -⟩, -⟩ := h
    cases hbody
  rintro body w₁ - ⟨⟨_, ⟨⟩, hconfirms⟩, hw₁⟩
  rw [Proc.interp_bind, Proc.interp_perform]
  refine wpc_seq (R := fun _ w' => AllTold w') ?_ ?_ fun _ _ _ h => h
  · apply wpc_of_perform hw₁.safe
    intro r w₂ step
    have hr : r = .ok () := by
      obtain ⟨a, ha⟩ := exists_of_isOk (step.2.1 rfl)
      exact ha
    have hw₂ := hw₁.outboxWrite hconfirms (hr ▸ step.1)
    exact ⟨hw₂.safe, hw₂⟩
  · intro _ w₂ _ hw₂
    exact wpc_told (Proc.Only.interp (Proc.only_true _) fun op _ => wireProducer_quiet op) hw₂

/-- The pipeline's calls inside the service. -/
def hook (svc : ConsumerService) (order : ApprovedOrder) (call : PipelineCall FillResult) :
    Proc ServiceI Exc call.Ans := (Consumer.route order call).interp svc.wire

theorem wpc_markAll {order : ApprovedOrder} {keys : List String} (hw : Pending key w) :
    wpc (calmWorld subscription) Safe ((Pipeline.markAll keys).interp (svc.hook order))
      (fun r w' => r = .ok () ∧ Pending key w') w := by
  induction keys generalizing w with
  | nil => exact ⟨hw.safe, rfl, hw⟩
  | cons k rest ih =>
      simp only [Pipeline.markAll, Proc.bind_eq]
      rw [Proc.interp_bind, Proc.interp_perform]
      refine wpc_seq (R := fun r w' => (∃ a, r = .ok a) ∧ Pending key w') ?_
        (fun _ w₁ _ h => ih h.2) fun e _ _ h => by
          obtain ⟨⟨a, ha⟩, -⟩ := h
          cases ha
      change wpc _ _ ((Proc.perform (I := ConsumerI FillResult) (.pipeline (.mark k))).interp
        svc.wire) _ w
      rw [Proc.interp_perform]
      exact wpc_aside rfl rfl hw

/-- From the submit on: whatever became of it, all fills are told in the end. -/
theorem wpc_submitAndRecord {p : Pipeline} {order : ApprovedOrder} {c : ConstructedOrder}
    (hemit : p.hasEmit = true) (hkey : c.idempotencyKey = order.idempotencyKey) (hw : AllTold w) :
    wpc (calmWorld subscription) Safe ((p.submitAndRecord order c).interp (svc.hook order))
      (fun _ w' => AllTold w') w := by
  unfold Pipeline.submitAndRecord
  split_ifs
  · exact ⟨hw.safe, hw⟩
  · simp only [Proc.bind_eq, hemit]
    rw [Proc.interp_bind]
    refine wpc_seq (R := fun r w' => (∀ e, r = .error e → AllTold w') ∧ ∀ fill, r = .ok fill →
      Pending order.idempotencyKey w' ∧ validRealizedStatus.contains fill.realizedStatus = true) ?_ ?_
      fun e w' _ h => h.1 e rfl
    · rw [Proc.interp_perform]
      change wpc _ _ ((Proc.perform (I := ConsumerI FillResult) (.pipeline (.submit c))).interp
        svc.wire) _ w
      rw [Proc.interp_perform]
      apply wpc_of_perform hw.safe
      intro r w' step
      obtain ⟨herr, hok⟩ := hw.submit step.1
      cases r with
      | error e => exact ⟨(herr e rfl).safe, herr, fun fill hr => by cases hr⟩
      | ok fill =>
          refine ⟨(hok fill rfl).safe, herr, ?_⟩
          rintro _ ⟨⟩
          exact ⟨hkey ▸ hok fill rfl, step.2.2⟩
    · intro fill w₁ _ h
      obtain ⟨hw₁, hvalid⟩ := h.2 fill rfl
      rw [Proc.interp_bind]
      refine wpc_seq (wpc_markAll hw₁) ?_ fun e _ _ h => by cases h.1
      rintro _ w₂ - ⟨-, hw₂⟩
      rw [Proc.interp_bind]
      refine wpc_seq (R := fun r w' => r = .ok () ∧ Pending order.idempotencyKey w') ?_ ?_
        fun e _ _ h => by cases h.1
      · cases p.hasPersist with
        | false => exact ⟨hw₂.safe, rfl, hw₂⟩
        | true =>
            change wpc _ _ (((Proc.perform (I := PipelineI FillResult) (.persist c fill))).interp
              (svc.hook order)) _ w₂
            rw [Proc.interp_perform]
            change wpc _ _ ((Proc.perform (I := ConsumerI FillResult)
              (.pipeline (.persist c fill))).interp svc.wire) _ w₂
            rw [Proc.interp_perform]
            refine wpc_post (wpc_aside rfl rfl hw₂) ?_
            rintro r w₃ - ⟨⟨⟨⟩, rfl⟩, hw₃⟩
            exact ⟨rfl, hw₃⟩
      · rintro _ w₃ - ⟨-, hw₃⟩
        rw [Proc.interp_bind]
        refine wpc_seq (R := fun _ w' => AllTold w') ?_ (fun _ w₄ _ h => ⟨h.safe, h⟩)
          fun _ _ _ h => h
        change wpc _ _ (((Proc.perform (I := PipelineI FillResult) (.emit c fill))).interp
          (svc.hook order)) _ w₃
        rw [Proc.interp_perform]
        change wpc _ _ ((Proc.perform (I := ConsumerI FillResult) (.emitFn order c fill)).interp
          svc.wire) _ w₃
        rw [Proc.interp_perform]
        exact wpc_emitFill hvalid hw₃

/-! ### One handling, and a run -/

theorem hook_quiet {order : ApprovedOrder} {call : PipelineCall FillResult}
    (hcall : call.isSubmit = false) : (svc.hook order call).Only fun o => isSubmit o = false := by
  refine Proc.Only.interp (P := Consumer.notSubmit) ?_ fun _ hop => wire_quiet hop
  cases call with
  | submit c => cases hcall
  | _ => exact Proc.along_perform rfl

theorem wpc_process {p : Pipeline} {order : ApprovedOrder} {price : PyVal} {opens : List String}
    (hemit : p.hasEmit = true) (hw : AllTold w) :
    wpc (calmWorld subscription) Safe ((p.process order price opens).interp (svc.hook order))
      (fun _ w' => AllTold w') w := by
  have hasks : (p.gated (F := FillResult) order price opens).Only
      fun call : PipelineCall FillResult => call.isSubmit = false :=
    Pipeline.gated_only (fun _ _ => rfl) rfl fun _ => rfl
  have hbuilt : (p.gated (F := FillResult) order price opens).Yields (fun _ _ => True)
      (Pipeline.Passed True order price) := Pipeline.gated_built
  rw [Pipeline.process_eq, Proc.interp_bind]
  refine wpc_seq (wpc_of_yields (fun _ _ _ _ _ => trivial)
    (hbuilt.interp fun _ => Proc.yields_true _) (wpc_told (hasks.interp fun _ hop => hook_quiet hop) hw))
    ?_ fun _ _ _ h => h.1
  rintro passed w₁ - ⟨hw₁, hpassed⟩
  cases passed with
  | inl refused => exact ⟨hw₁.safe, hw₁⟩
  | inr constructed =>
      rw [Pipeline.settle]
      split_ifs
      · exact ⟨hw₁.safe, hw₁⟩
      · exact wpc_submitAndRecord hemit (buildOrder_ok (hpassed _ rfl)).key hw₁

/-- A handling, complete or not. -/
theorem wpc_handleTold (hemit : svc.consumer.pipeline.hasEmit = true) (hw : AllTold w) :
    wpc (calmWorld subscription) Safe (svc.handle msg now) (fun _ w' => AllTold w') w := by
  unfold handle
  rw [Consumer.handle_eq, Consumer.assess, Proc.interp_bind, Proc.interp_bind]
  refine wpc_seq (R := fun _ w' => AllTold w') (wpc_seq (wpc_quiet
    (Consumer.examine_asks.mono fun _ => Consumer.asks_submitless) hw) ?_ fun _ _ _ h => h)
    (fun v w' _ hw' => wpc_quiet ((Consumer.conclude_settles v).mono fun _ =>
      Consumer.settles_submitless) hw') fun _ _ _ h => h
  intro x w₁ _ hw₁
  cases x with
  | verdict v => exact ⟨hw₁.safe, hw₁⟩
  | executable order =>
      simp only [Consumer.carryOut, Consumer.execute, Proc.bind_eq]
      rw [Proc.interp_bind, Proc.interp_attempt, Proc.interp_bind]
      refine wpc_seq (R := fun _ w' => AllTold w') ?_ (fun r w₂ _ hw₂ => ⟨hw₂.safe, hw₂⟩)
        fun _ _ _ h => h
      rw [wpc_attempt]
      refine wpc_seq (wpc_quiet (Consumer.along_notSubmit rfl) hw₁) ?_ fun _ _ _ h => h
      intro price w₂ _ hw₂
      rw [Proc.interp_bind]
      refine wpc_seq (wpc_quiet (Consumer.along_notSubmit rfl) hw₂) ?_ fun _ _ _ h => h
      intro opens w₃ _ hw₃
      rw [Proc.interp_interp]
      exact wpc_process hemit hw₃

/-- Between two polls the other components leave the record and what the outbox holds. -/
def othersAside (subscription : String) (w w' : Recorded) : Prop :=
  Elsewhere subscription w.1.file w'.1.file ∧ (∀ b ∈ w.1.outbox, b ∈ w'.1.outbox) ∧ w'.2 = w.2

/-- A service whose `emit_fn` is given, as the composition root wires it. -/
def emits (svc : ConsumerService) : Prop := svc.consumer.pipeline.hasEmit = true

/-- Nothing kept a fill from being reported, and the process did not die over a waiting fill. -/
def Smooth (h : Handling Recorded) : Prop :=
  (∀ e ∈ h.after.2, Undisturbed e) ∧ (h.out = none → ¬ Waiting h.after)

/-- In a smooth run, and at every point of an undisturbed handling after it, a fill that was
returned before some ack is in the fill outbox. -/
theorem fill_told_before_ack {w₀ w : Recorded} {hs : List (Handling Recorded)} (hstart : w₀.2 = [])
    (run : Runs (steps (recordedWorld subscription)) emits (othersAside subscription) w₀ hs w)
    (hsmooth : ∀ h ∈ hs, Smooth h) :
    AckedTold w ∧ ∀ svc now msg out w', emits svc →
      Exec (recordedWorld subscription) (svc.handle msg now) w out w' →
      (∀ e ∈ w'.2, Undisturbed e) → AckedTold w' := by
  have hinit : AllTold w₀ := fun e he => by simp [hstart] at he
  have hw : AllTold w := by
    refine run.keeps ?_ ?_ ?_ hsmooth hinit
    · intro svc w₁ out w₂ _ hw₁ exec
      have hfetch : wpc (World.under (recordedWorld subscription) fun _ => True) AllTold svc.fetch
          (fun _ _ => True) w₁ := by
        refine wpc_mono (wpc_of_only (P := fun o => isSubmit o = false) (J := AllTold)
          (fun _ _ _ _ hop hw step => hw.step step.1 hop) ?_ hw₁) (fun _ h => h) fun _ _ _ _ => trivial
        refine Proc.Only.interp (P := Consumer.notSubmit) ?_ fun _ hop => wire_quiet hop
        exact (Consumer.along_notSubmit rfl).bind fun _ => (Consumer.along_notSubmit rfl).bind fun _ =>
          (Consumer.along_notSubmit rfl).attempt.bind fun _ => trivial
      exact (wpc_sound (exec_under exec fun _ _ => trivial) hfetch).1
    · intro svc now msg w₁ out w₂ hemit hw₁ exec hsmooth
      obtain ⟨hsafe, hend⟩ := wpc_sound (exec_under exec hsmooth.1) (wpc_handleTold hemit hw₁)
      cases out with
      | none => exact hsafe.2 (hsmooth.2 rfl)
      | some r => exact hend r rfl
    · rintro w₁ w₂ hw₁ ⟨-, hout, hrecord⟩ e he key hfill
      exact (hw₁ e (hrecord ▸ he) key hfill).mono hout
  refine ⟨hw.ackedTold, fun svc now msg out w' hemit exec hcalm => ?_⟩
  exact (wpc_sound (exec_under exec hcalm) (wpc_handleTold hemit hw)).1.1

/-- A host on which everything works, and one whose `persist_fn` fails. -/
def working : StillHost := ⟨.zero, true, plainFill, true⟩

def unpersisted : StillHost := ⟨.zero, true, plainFill, false⟩

/-- The failing host a minute later. -/
def minuteLater : StillHost := ⟨.ofRat 60, true, plainFill, false⟩

abbrev StillHost.recorded (host : StillHost) :
    (op : ServiceCall) → Recorded → Except Exc op.Ans × Recorded :=
  World.recording (I := ServiceI) host.env

theorem executor_emits : emits (executor 10) := rfl

theorem fill_told_before_ack_working :
    let w := (handledBy working.recorded (executor 10) (buyArrived, [])).2
    AckedTold w ∧ (w.2.any fun e => isAck e.1) = true := by
  have hpolls := polls_by working.recorded (executor 10) (buyArrived, [])
    (o := .handled .executed) (World.recording_step (working.env_step Consumer.plainBuy.topic))
    (by decide +kernel) (by decide +kernel)
  have hstart : ((buyArrived, []) : Recorded).2 = [] := rfl
  refine ⟨(fill_told_before_ack hstart (.poll .refl executor_emits hpolls) ?_).1,
    by decide +kernel⟩
  intro h hh
  rw [List.mem_singleton.mp hh]
  refine ⟨?_, fun hnone => by cases hnone⟩
  have hall : (handledBy working.recorded (executor 10) (buyArrived, [])).2.2.all
      (fun e => decide (Undisturbed e)) = true := by decide +kernel
  exact fun e he => of_decide_eq_true (List.all_eq_true.mp hall e he)

/-- The first poll fills the order and fails to persist it; a minute later the redelivery is acked
as a duplicate, and the outbox is empty. -/
def lostFill : Recorded :=
  (handledBy minuteLater.recorded (executor 10)
    (handledBy unpersisted.recorded (executor 10) (buyArrived, [])).2).2

theorem lostFill_acked_untold : ∃ hs, Runs (steps (recordedWorld Consumer.plainBuy.topic)) emits
    (othersAside Consumer.plainBuy.topic) (nothing, []) hs lostFill ∧
    (∃ h ∈ hs, h.out = some (.ok .duplicate)) ∧ ¬ AckedTold lostFill := by
  have hpoll := polls_by unpersisted.recorded (executor 10) (buyArrived, []) (o := .execError)
    (World.recording_step (unpersisted.env_step Consumer.plainBuy.topic)) (by decide +kernel)
    (by decide +kernel)
  have hpoll' := polls_by minuteLater.recorded (executor 10)
    (handledBy unpersisted.recorded (executor 10) (buyArrived, [])).2 (o := .duplicate)
    (World.recording_step (minuteLater.env_step Consumer.plainBuy.topic)) (by decide +kernel)
    (by decide +kernel)
  have harrived : Runs (steps (recordedWorld Consumer.plainBuy.topic)) emits
      (othersAside Consumer.plainBuy.topic) (nothing, []) [] (buyArrived, []) :=
    .other .refl ⟨buyArrived_elsewhere, fun b hb => hb, rfl⟩
  refine ⟨_, .poll (.poll harrived executor_emits hpoll) executor_emits hpoll', ⟨_, List.mem_append_right _
    (List.mem_singleton.mpr rfl), rfl⟩, fun htold => ?_⟩
  have hfill : ((lostFill.2.take ((lostFill.2.findIdx fun e => isSubmit e.1) + 1)).any
      fun e => (filledKey e).isSome) = true := by decide +kernel
  have hack : ((lostFill.2.drop ((lostFill.2.findIdx fun e => isSubmit e.1) + 1)).any
      fun e => isAck e.1) = true := by decide +kernel
  have houtbox : lostFill.1.outbox.isEmpty = true := by decide +kernel
  obtain ⟨e, he, hsome⟩ := List.any_eq_true.mp hfill
  obtain ⟨key, hkey⟩ := Option.isSome_iff_exists.mp hsome
  obtain ⟨body, hbody, -⟩ := htold _ _ key (List.take_append_drop _ _).symm ⟨e, he, hkey⟩
    (List.any_eq_true.mp hack)
  rw [List.isEmpty_iff.mp houtbox] at hbody
  cases hbody

end ConsumerService

end System2
