import System2.Execution.PipelineGates
import System2.Execution.OutboundConsumer

/-!
# Every submit passed every gate

One handling of one message, with any answer from anything outside. The trace
of its calls has at most one submit, and what stands before that submit shows
that each gate was asked and let the order through.

## Implementation notes

The processed store answers truthfully or raises. Everything else is free, and
the process may die anywhere.
-/

namespace System2
open Foundation

namespace Consumer

variable {F : Type}

/-- A store that answers truthfully or raises; all other calls are free. -/
def honestStore : World (ConsumerI F) Exc (List String) := fun s op =>
  match op with
  | .pipeline (.seen key) => fun r s' => (∀ b, r = .ok b → b = decide (key ∈ s)) ∧ s' = s
  | .pipeline (.mark key) => fun _ s' => s' = s ∨ s' = key :: s
  | _ => fun _ s' => s' = s

/-- Is this a call of `submit_fn`? -/
def isSubmit (e : Event (ConsumerI F) Exc) : Bool := ConsumerCall.isSubmit e.1

/-- The gates that a submit has behind it: what the message and the settings say,
and which calls were made with which answers. -/
structure Gates (c : Consumer) (msg : ReceivedMessage) (now : Moment) (store : List String)
    (order : ApprovedOrder) (calls : List (Event (ConsumerI F) Exc)) (o : ConstructedOrder) :
    Prop where
  envelope : ∃ res, validateEnvelope msg.body = .ok res ∧ res.ok = true
  unexpired : isExpired c.host msg.body.entries now c.maxAgeSec = .ok false
  decoded : ApprovedOrder.fromDict msg.body.entries = .ok order
  unseen : ∀ k ∈ guardKeys order, k ∉ store
  session : isInSession now = true
  pipelineSession : ∃ t, ⟨.pipeline .clock, .ok t⟩ ∈ calls ∧ isInSession t = true
  safetyGate : c.hasSubmitGate = true → ⟨.submitGateFn, .ok true⟩ ∈ calls
  price : ∃ v, ⟨.priceFn order, .ok v⟩ ∈ calls ∧ Constructed order v o
  validated : c.pipeline.hasValidate = true →
    ∃ reason, ⟨.pipeline (.validate o), .ok (true, reason)⟩ ∈ calls
  backup : ∃ opens, ⟨.openInstrumentsFn, .ok opens⟩ ∈ calls ∧
    (backupGuard c.pipeline.maxOpenPositions order opens).1 = true
  notShadow : c.pipeline.shadow = false
  mode : c.pipeline.mode = .executionOnly

/-- At most one submit, and every gate before it. -/
def SubmitGated (c : Consumer) (msg : ReceivedMessage) (now : Moment) (store : List String)
    (t : List (Event (ConsumerI F) Exc)) : Prop :=
  (t.filter isSubmit).length ≤ 1 ∧
    ∀ before o r after, t = before ++ ⟨.pipeline (.submit o), r⟩ :: after →
      ∃ order, Gates c msg now store order before o

/-- No submit so far. -/
def NoSubmit (t : List (Event (ConsumerI F) Exc)) : Prop := ∀ e ∈ t, isSubmit e = false

variable {c : Consumer} {msg : ReceivedMessage} {now : Moment} {store : List String}
  {t : List (Event (ConsumerI F) Exc)}

theorem NoSubmit.append {e : Event (ConsumerI F) Exc} (h : NoSubmit t)
    (he : isSubmit e = false) : NoSubmit (t ++ [e]) := by
  intro e' he'
  rcases List.mem_append.mp he' with hold | hnew
  · exact h e' hold
  · rw [List.mem_singleton.mp hnew]
    exact he

theorem NoSubmit.gated (h : NoSubmit t) : SubmitGated c msg now store t := by
  constructor
  · rw [List.filter_eq_nil_iff.mpr fun e he => by simp [h e he]]
    exact Nat.zero_le 1
  · intro before o r after heq
    have hsubmit := h ⟨.pipeline (.submit o), r⟩ (by simp [heq])
    cases hsubmit

/-- A further call that is no submit changes nothing. -/
theorem SubmitGated.append {e : Event (ConsumerI F) Exc} (h : SubmitGated c msg now store t)
    (he : isSubmit e = false) : SubmitGated c msg now store (t ++ [e]) := by
  constructor
  · simpa [he] using h.1
  · intro before o r after heq
    rcases List.eq_nil_or_concat after with rfl | ⟨rest, last, rfl⟩
    · have hlast := (List.append_inj' heq rfl).2
      rw [List.singleton_inj.mp hlast] at he
      cases he
    · have hinit : t = before ++ ⟨.pipeline (.submit o), r⟩ :: rest := by
        rw [List.concat_eq_append, ← List.cons_append, ← List.append_assoc] at heq
        exact (List.append_inj' heq rfl).1
      exact h.2 before o r rest hinit

/-- The one submit, with its gates behind it. -/
theorem SubmitGated.submit {order : ApprovedOrder} {o : ConstructedOrder} {r : Except Exc F}
    (h : NoSubmit t) (g : Gates c msg now store order t o) :
    SubmitGated c msg now store (t ++ [⟨.pipeline (.submit o), r⟩]) := by
  constructor
  · rw [List.filter_append, List.filter_eq_nil_iff.mpr fun e he => by simp [h e he]]
    exact List.length_filter_le _ _
  · intro before o' r' after heq
    rcases List.eq_nil_or_concat after with rfl | ⟨rest, last, rfl⟩
    · obtain ⟨rfl, hlast⟩ := List.append_inj' heq rfl
      have hevent := List.singleton_inj.mp hlast
      cases hevent
      exact ⟨order, g⟩
    · have hinit : t = before ++ ⟨.pipeline (.submit o'), r'⟩ :: rest := by
        rw [List.concat_eq_append, ← List.cons_append, ← List.append_assoc] at heq
        exact (List.append_inj' heq rfl).1
      have hsubmit := h ⟨.pipeline (.submit o'), r'⟩ (by simp [hinit])
      cases hsubmit

/-! ### The pipeline part -/

/-- A store together with the calls recorded so far. -/
abbrev Watched (F : Type) := List String × List (Event (ConsumerI F) Exc)

/-- Nothing has been marked or submitted yet. -/
def Clear (store : List String) (w : Watched F) : Prop := w.1 = store ∧ NoSubmit w.2

/-- A call of the pipeline that is no submit adds one event that is no submit; only a
mark touches the store. -/
theorem routed_step {order : ApprovedOrder} {w w' : Watched F} {op : PipelineCall F}
    {r : Except Exc op.Ans} (step : routedWorld honestStore.traced order w op r w')
    (hsubmit : ∀ o, op ≠ .submit o) :
    ∃ e, isSubmit e = false ∧ w'.2 = w.2 ++ [e] ∧ ((∀ k, op ≠ .mark k) → w'.1 = w.1) := by
  cases op with
  | submit o => exact absurd rfl (hsubmit o)
  | mark key => exact ⟨_, rfl, step.2, fun h => absurd rfl (h key)⟩
  | seen key => exact ⟨_, rfl, step.2, fun _ => step.1.2⟩
  | clock => exact ⟨_, rfl, step.2, fun _ => step.1⟩
  | validate o => exact ⟨_, rfl, step.2, fun _ => step.1⟩
  | persist o fill => exact ⟨_, rfl, step.2, fun _ => step.1⟩
  | emit o fill => exact ⟨_, rfl, step.2, fun _ => step.1⟩

variable {order : ApprovedOrder} {w : Watched F}

/-- The state that holds wherever the handling may stop. -/
def Watch (c : Consumer) (msg : ReceivedMessage) (now : Moment) (store : List String)
    (w : Watched F) : Prop := SubmitGated c msg now store w.2

theorem Clear.watch (hw : Clear store w) : Watch c msg now store w := hw.2.gated

/-- The scan of the keys leaves everything clear, and says no only when the store
holds none of them. -/
theorem wpc_gatedAnySeen {keys : List String} {Q : Except Exc Bool → Watched F → Prop}
    (hw : Clear store w)
    (hQ : ∀ r w', Clear store w' → w.2 <+: w'.2 →
      (r = .ok false → ∀ k ∈ keys, k ∉ store) → Q r w') :
    wpc (routedWorld honestStore.traced order) (Watch c msg now store)
      (Pipeline.anySeen keys) Q w := by
  induction keys generalizing w with
  | nil => exact ⟨hw.watch, hQ _ w hw (List.prefix_refl _) (by simp)⟩
  | cons key rest ih =>
      simp only [Pipeline.anySeen, Proc.bind_eq, wpc_bind]
      apply wpc_of_perform hw.watch
      intro r w' step
      obtain ⟨⟨hanswer, hstore⟩, htrace⟩ := step
      have hw' : Clear store w' := ⟨hstore.trans hw.1, htrace ▸ hw.2.append rfl⟩
      have hext : w.2 <+: w'.2 := htrace ▸ List.prefix_append _ _
      refine ⟨hw'.watch, ?_⟩
      cases r with
      | error e => exact hQ _ w' hw' hext (by simp)
      | ok seen =>
          have hseen : seen = decide (key ∈ store) := hw.1 ▸ hanswer seen rfl
          cases seen with
          | true => exact ⟨hw'.watch, hQ _ w' hw' hext (by simp)⟩
          | false =>
              apply ih hw'
              intro r w'' hw'' hext' hfresh
              apply hQ r w'' hw'' (hext.trans hext')
              intro hr k hk
              rcases List.mem_cons.mp hk with rfl | hrest
              · simpa using hseen.symm
              · exact hfresh hr k hrest

theorem wpc_gatedSubmit {p : Pipeline} {o : ConstructedOrder} (hw : Clear store w)
    (g : Gates c msg now store order w.2 o) :
    wpc (routedWorld honestStore.traced order) (Watch c msg now store)
      (p.submitAndRecord order o) (fun _ w' => Watch c msg now store w') w := by
  rw [Pipeline.submitAndRecord_eq]
  split_ifs
  · exact ⟨hw.watch, hw.watch⟩
  rw [wpc_bind]
  apply wpc_of_perform hw.watch
  rintro r w' ⟨-, htrace⟩
  have hw' : Watch c msg now store w' := by
    rw [Watch, htrace]
    exact SubmitGated.submit hw.2 g
  refine ⟨hw', ?_⟩
  cases r with
  | error e => exact hw'
  | ok fill =>
      refine wpc_of_only (J := Watch c msg now store) ?_ Pipeline.recorded_records hw'
      intro op u r u' hop hu step
      obtain ⟨e, he, htrace, -⟩ := routed_step step (by rintro o rfl; exact hop)
      rw [Watch, htrace]
      exact SubmitGated.append hu he

/-- A pipeline call before the submit keeps everything clear. -/
theorem wpc_pipelineAsk {op : PipelineCall F} {Q : Except Exc op.Ans → Watched F → Prop}
    (hsubmit : ∀ o, op ≠ .submit o) (hmark : ∀ k, op ≠ .mark k) (hw : Clear store w)
    (hQ : ∀ r w', routedWorld honestStore.traced order w op r w' → Clear store w' →
      w.2 <+: w'.2 → Q r w') :
    wpc (routedWorld honestStore.traced order) (Watch c msg now store)
      (Proc.perform (I := PipelineI F) op) Q w := by
  apply wpc_of_perform hw.watch
  intro r w' step
  obtain ⟨e, he, htrace, hsame⟩ := routed_step step hsubmit
  have hw' : Clear store w' := ⟨(hsame hmark).trans hw.1, htrace ▸ hw.2.append he⟩
  exact ⟨hw'.watch, hQ r w' step hw' (htrace ▸ List.prefix_append _ _)⟩

theorem wpc_gatedLastGates {p : Pipeline} {o : ConstructedOrder} {opens : List String}
    (hw : Clear store w)
    (g : ∀ calls, w.2 <+: calls → (p.hasValidate = true →
        ∃ reason, ⟨.pipeline (.validate o), .ok (true, reason)⟩ ∈ calls) →
      (backupGuard p.maxOpenPositions order opens).1 = true → p.shadow = false →
        Gates c msg now store order calls o) :
    wpc (routedWorld honestStore.traced order) (Watch c msg now store)
      (p.lastGates order o opens) (fun _ w' => Watch c msg now store w') w := by
  have hrest : ∀ (verdict : Bool × FString) (w' : Watched F), Clear store w' →
      w.2 <+: w'.2 → (p.hasValidate = true → verdict.1 = true →
        ∃ reason, ⟨.pipeline (.validate o), .ok (true, reason)⟩ ∈ w'.2) →
      wpc (routedWorld honestStore.traced order) (Watch c msg now store)
        (if !verdict.1 then .ret ⟨.rejectedValidation, some o, none, verdict.2⟩
         else if !(backupGuard p.maxOpenPositions order opens).1 then
           .ret ⟨.rejectedBackupGuard, some o, none,
             (backupGuard p.maxOpenPositions order opens).2⟩
         else if p.shadow then .ret ⟨.shadow, some o, none, []⟩
         else p.submitAndRecord order o)
        (fun _ w' => Watch c msg now store w') w' := by
    intro verdict w' hw' hext hvalid
    split_ifs with hverdict hguard hshadow
    · exact ⟨hw'.watch, hw'.watch⟩
    · exact ⟨hw'.watch, hw'.watch⟩
    · exact ⟨hw'.watch, hw'.watch⟩
    · have hpassed : verdict.1 = true := by simpa using hverdict
      exact wpc_gatedSubmit hw' (g w'.2 hext (fun h => hvalid h hpassed) (by simpa using hguard)
        (by simpa using hshadow))
  simp only [Pipeline.lastGates, Proc.bind_eq]
  cases hhook : p.hasValidate with
  | false => exact hrest (true, []) w hw (List.prefix_refl _) (by simp [hhook])
  | true =>
      simp only [if_true, wpc_bind]
      apply wpc_pipelineAsk (by simp) (by simp) hw
      intro r w' step hw' hext
      cases r with
      | error e => exact hw'.watch
      | ok verdict =>
          refine hrest verdict w' hw' hext fun _ hpassed => ?_
          obtain ⟨-, htrace⟩ := step
          refine ⟨verdict.2, ?_⟩
          rw [htrace, ← hpassed]
          exact List.mem_append_right _ (List.mem_singleton_self _)

/-- The pipeline submits only with the store, its clock, the construction and the last
gates behind it, on top of what the consumer has asked before. -/
theorem wpc_gatedProcess {p : Pipeline} {price : PyVal} {opens : List String}
    (hw : Clear store w)
    (g : ∀ calls o, w.2 <+: calls → (∀ k ∈ guardKeys order, k ∉ store) →
      (∃ t, ⟨.pipeline .clock, .ok t⟩ ∈ calls ∧ isInSession t = true) →
      Constructed order price o → (p.hasValidate = true →
        ∃ reason, ⟨.pipeline (.validate o), .ok (true, reason)⟩ ∈ calls) →
      (backupGuard p.maxOpenPositions order opens).1 = true → p.shadow = false →
      p.mode = .executionOnly → Gates c msg now store order calls o) :
    wpc (routedWorld honestStore.traced order) (Watch c msg now store)
      (p.process order price opens) (fun _ w' => Watch c msg now store w') w := by
  unfold Pipeline.process
  split_ifs with hmode
  · exact ⟨hw.watch, hw.watch⟩
  have hexec : p.mode = .executionOnly := by
    cases hm : p.mode with
    | legacy => exact absurd hm hmode
    | executionOnly => rfl
  simp only [Proc.bind_eq, wpc_bind]
  apply wpc_gatedAnySeen hw
  intro duplicate w₁ hw₁ hext₁ hfresh
  cases duplicate with
  | error e => exact hw₁.watch
  | ok duplicate =>
      cases duplicate with
      | true => exact ⟨hw₁.watch, hw₁.watch⟩
      | false =>
          simp only [Bool.false_eq_true, if_false, wpc_bind]
          apply wpc_pipelineAsk (by simp) (by simp) hw₁
          intro r w₂ step hw₂ hext₂
          cases r with
          | error e => exact hw₂.watch
          | ok t =>
              dsimp only
              split_ifs with hsession
              · exact ⟨hw₂.watch, hw₂.watch⟩
              · cases hbuild : buildOrder order price with
                | error e =>
                    dsimp only
                    split_ifs
                    · exact ⟨hw₂.watch, hw₂.watch⟩
                    · exact ⟨hw₂.watch, hw₂.watch⟩
                | ok o =>
                    apply wpc_gatedLastGates hw₂
                    intro calls hext₃ hvalid hguard hshadow
                    have hclock : (⟨.pipeline .clock, .ok t⟩ : Event (ConsumerI F) Exc) ∈ w₂.2 := by
                      rw [step.2]
                      exact List.mem_append_right _ (List.mem_singleton_self _)
                    exact g calls o ((hext₁.trans hext₂).trans hext₃) (hfresh rfl)
                      ⟨t, hext₃.subset hclock, by simpa using hsession⟩ (buildOrder_ok hbuild)
                      hvalid hguard hshadow hexec

/-! ### The consumer part -/

/-- The consumer's own calls: they neither submit nor mark. -/
def isOwn : ConsumerCall F → Bool
  | .pipeline _ => false
  | _ => true

theorem own_step {w w' : Watched F} {op : ConsumerCall F} {r : Except Exc op.Ans}
    (step : honestStore.traced w op r w') (hown : isOwn op = true) :
    isSubmit (⟨op, r⟩ : Event (ConsumerI F) Exc) = false ∧ w'.1 = w.1 := by
  cases op with
  | pipeline call => cases hown
  | _ => exact ⟨rfl, step.1⟩

/-- A call of the consumer's own, before any submit. -/
theorem wpc_ask {op : ConsumerCall F} {Q : Except Exc op.Ans → Watched F → Prop}
    (hown : isOwn op = true) (hw : Clear store w)
    (hQ : ∀ r w', Clear store w' → w'.2 = w.2 ++ [⟨op, r⟩] → Q r w') :
    wpc honestStore.traced (Watch c msg now store) (perform op) Q w := by
  apply wpc_of_perform hw.watch
  intro r w' step
  obtain ⟨hsubmit, hsame⟩ := own_step step hown
  have htrace : w'.2 = w.2 ++ [⟨op, r⟩] := step.2
  have hw' : Clear store w' := ⟨hsame.trans hw.1, htrace ▸ hw.2.append hsubmit⟩
  exact ⟨hw'.watch, hQ r w' hw' htrace⟩

/-- A call of the consumer's own, after the submit or without one. -/
theorem wpc_tell {op : ConsumerCall F} {Q : Except Exc op.Ans → Watched F → Prop}
    (hown : isOwn op = true) (hw : Watch c msg now store w)
    (hQ : ∀ r w', Watch c msg now store w' → Q r w') :
    wpc honestStore.traced (Watch c msg now store) (perform op) Q w := by
  apply wpc_of_perform hw
  intro r w' step
  have hw' : Watch c msg now store w' := by
    have htrace : w'.2 = w.2 ++ [⟨op, r⟩] := step.2
    rw [Watch, htrace]
    exact hw.append (own_step step hown).1
  exact ⟨hw', hQ r w' hw'⟩

/-- Settling the message and returning the outcome. -/
theorem wpc_tellOutcome {op : ConsumerCall F} (o : Outcome) (hown : isOwn op = true)
    (hw : Watch c msg now store w) :
    wpc honestStore.traced (Watch c msg now store) ((perform op).bind fun _ => .ret o)
      (fun _ w' => Watch c msg now store w') w := by
  simp only [wpc_bind]
  apply wpc_tell hown hw
  intro r w' hw'
  cases r with
  | error e => exact hw'
  | ok _ => exact ⟨hw', hw'⟩

theorem wpc_gatedSettle (r : Except Exc (ProcessResult F)) (hw : Watch c msg now store w) :
    wpc honestStore.traced (Watch c msg now store) (settle c msg r)
      (fun _ w' => Watch c msg now store w') w := by
  cases r with
  | error e => exact wpc_tellOutcome _ rfl hw
  | ok result =>
      simp only [settle]
      split_ifs
      · exact wpc_tellOutcome _ rfl hw
      · exact wpc_tellOutcome _ rfl hw

theorem wpc_gatedDeadLetter (res : ValidationResult) (hw : Watch c msg now store w) :
    wpc honestStore.traced (Watch c msg now store) (deadLetter c msg res)
      (fun _ w' => Watch c msg now store w') w := by
  simp only [deadLetter, Proc.bind_eq, wpc_bind, wpc_attempt]
  apply wpc_tell rfl hw
  intro r w' hw'
  cases r with
  | ok _ => exact ⟨hw', hw'⟩
  | error e => exact wpc_tellOutcome .dlqError rfl hw'

theorem wpc_gatedHeartbeat {raw : Dict} (hw : Watch c msg now store w) :
    wpc honestStore.traced (Watch c msg now store) (handleHeartbeat c msg raw)
      (fun _ w' => Watch c msg now store w') w := by
  have hack : ∀ (credited : Bool) (w' : Watched F), Watch c msg now store w' →
      wpc honestStore.traced (Watch c msg now store) ((perform (.ack msg)).bind fun _ =>
        .ret (if credited then Outcome.heartbeat else .heartbeatStale))
        (fun _ w' => Watch c msg now store w') w' :=
    fun credited w' hw' => wpc_tellOutcome _ rfl hw'
  have hsource : ∀ w' : Watched F, Watch c msg now store w' →
      wpc honestStore.traced (Watch c msg now store)
        (((convert (payloadSource raw)).bind fun _ => .ret false).bind fun credited =>
          (perform (.ack msg)).bind fun _ =>
            .ret (if credited then Outcome.heartbeat else .heartbeatStale))
        (fun _ w' => Watch c msg now store w') w' := by
    intro w' hw'
    simp only [wpc_bind] at hack ⊢
    cases payloadSource raw with
    | error e => exact ⟨hw', hw'⟩
    | ok v => exact ⟨hw', hw', hack false w' hw'⟩
  simp only [wpc_bind] at hack hsource
  simp only [handleHeartbeat, Proc.bind_eq, wpc_bind]
  cases parseTs c.host raw ["created_at", "produced_at"] with
  | error e => exact ⟨hw, hw⟩
  | ok sentAt =>
      refine ⟨hw, ?_⟩
      cases sentAt with
      | none =>
          simp only [wpc_bind]
          exact hsource w hw
      | some sentAt =>
          simp only [wpc_bind, creditHeartbeat]
          split_ifs
          · simp only [Proc.bind_eq, wpc_bind, wpc_attempt]
            apply wpc_tell rfl hw
            intro r w' hw'
            cases r with
            | ok b => exact ⟨hw', hack b w' hw'⟩
            | error e =>
                simp only [wpc_bind]
                exact hsource w' hw'
          · exact ⟨hw, hack false w hw⟩

/-- What the consumer has established when it starts to execute an order. -/
structure Admitted (c : Consumer) (msg : ReceivedMessage) (now : Moment)
    (order : ApprovedOrder) : Prop where
  envelope : ∃ res, validateEnvelope msg.body = .ok res ∧ res.ok = true
  unexpired : isExpired c.host msg.body.entries now c.maxAgeSec = .ok false
  decoded : ApprovedOrder.fromDict msg.body.entries = .ok order

theorem wpc_gatedExecute (ha : Admitted c msg now order) (hw : Clear store w)
    (hsession : isInSession now = true)
    (hgate : c.hasSubmitGate = true → ⟨.submitGateFn, .ok true⟩ ∈ w.2) :
    wpc honestStore.traced (Watch c msg now store) (execute c order)
      (fun _ w' => Watch c msg now store w') w := by
  simp only [execute, Proc.bind_eq, wpc_bind]
  apply wpc_ask rfl hw
  intro price w₁ hw₁ htrace₁
  cases price with
  | error e => exact hw₁.watch
  | ok v =>
      apply wpc_ask rfl hw₁
      intro opens w₂ hw₂ htrace₂
      cases opens with
      | error e => exact hw₂.watch
      | ok opens =>
          apply wpc_route
          apply wpc_gatedProcess hw₂
          intro calls o hext hunseen hclock hbuilt hvalid hbackup hshadow hmode
          -- every earlier answer is still in the trace
          have hsub : ∀ e ∈ w₂.2, e ∈ calls := fun e he => hext.subset he
          rw [htrace₂, htrace₁] at hsub
          refine ⟨ha.envelope, ha.unexpired, ha.decoded, hunseen, hsession, hclock, ?_, ?_, hvalid,
            ?_, hshadow, hmode⟩
          · intro h
            apply hsub
            simp [hgate h]
          · exact ⟨v, hsub _ (by simp), hbuilt⟩
          · exact ⟨opens, hsub _ (by simp), hbackup⟩

theorem wpc_gatedHandleOrder (ha : Admitted c msg now order) (hw : Clear store w) :
    wpc honestStore.traced (Watch c msg now store) (handleOrder c msg now order)
      (fun _ w' => Watch c msg now store w') w := by
  have hexecute : ∀ w' : Watched F, Clear store w' → isInSession now = true →
      (c.hasSubmitGate = true → ⟨.submitGateFn, .ok true⟩ ∈ w'.2) →
      wpc honestStore.traced (Watch c msg now store)
        ((execute c order).attempt.bind fun result => settle c msg result)
        (fun _ w' => Watch c msg now store w') w' := by
    intro w' hw' hsession hgate
    simp only [wpc_bind, wpc_attempt]
    apply wpc_post (wpc_gatedExecute ha hw' hsession hgate)
    intro r w'' _ hw''
    exact wpc_gatedSettle r hw''
  simp only [wpc_bind, wpc_attempt] at hexecute
  simp only [handleOrder, Proc.bind_eq, wpc_bind]
  apply wpc_route
  apply wpc_gatedAnySeen hw
  intro duplicate w₁ hw₁ _ _
  cases duplicate with
  | error e => exact hw₁.watch
  | ok duplicate =>
      cases duplicate with
      | true => exact wpc_tellOutcome .duplicate rfl hw₁.watch
      | false =>
          simp only [Bool.false_eq_true, if_false]
          split_ifs with hsession
          · exact wpc_tellOutcome .parked rfl hw₁.watch
          · have hopen : isInSession now = true := by simpa using hsession
            simp only [wpc_bind, gateOpen]
            split_ifs with hgiven
            · apply wpc_ask rfl hw₁
              intro r w₂ hw₂ htrace
              cases r with
              | error e => exact hw₂.watch
              | ok submitting =>
                  cases submitting with
                  | false => exact wpc_tellOutcome .pausedPark rfl hw₂.watch
                  | true =>
                      simp only [Bool.not_true, Bool.false_eq_true, if_false, wpc_bind, wpc_attempt]
                      exact hexecute w₂ hw₂ hopen fun _ => by simp [htrace]
            · refine ⟨hw₁.watch, ?_⟩
              simp only [Bool.not_true, Bool.false_eq_true, if_false, wpc_bind, wpc_attempt]
              exact hexecute w₁ hw₁ hopen fun h => absurd h hgiven

theorem wpc_gatedHandleEnvelope {res : ValidationResult}
    (hval : validateEnvelope msg.body = .ok res) (hok : res.ok = true) (hw : Clear store w) :
    wpc honestStore.traced (Watch c msg now store) (handleEnvelope c msg now msg.body.entries)
      (fun _ w' => Watch c msg now store w') w := by
  have horder : ∀ w' : Watched F, Clear store w' →
      isExpired c.host msg.body.entries now c.maxAgeSec = .ok false →
      wpc honestStore.traced (Watch c msg now store)
        ((convert (ApprovedOrder.fromDict msg.body.entries)).bind fun order =>
          handleOrder c msg now order) (fun _ w' => Watch c msg now store w') w' := by
    intro w' hw' hexp
    simp only [wpc_bind]
    cases hdict : ApprovedOrder.fromDict msg.body.entries with
    | error e => exact ⟨hw'.watch, hw'.watch⟩
    | ok order => exact ⟨hw'.watch, wpc_gatedHandleOrder ⟨⟨res, hval, hok⟩, hexp, hdict⟩ hw'⟩
  simp only [wpc_bind] at horder
  simp only [handleEnvelope, Proc.bind_eq, wpc_bind]
  apply wpc_ask rfl hw
  intro r w₁ hw₁ _
  cases r with
  | error e => exact hw₁.watch
  | ok _ =>
      simp only
      cases hexp : isExpired c.host msg.body.entries now c.maxAgeSec with
      | error e => exact ⟨hw₁.watch, hw₁.watch⟩
      | ok expired =>
          refine ⟨hw₁.watch, ?_⟩
          cases expired with
          | true => exact wpc_tellOutcome .expired rfl hw₁.watch
          | false =>
              simp only [Bool.false_eq_true, if_false, wpc_bind, creditFreshness, Proc.bind_eq]
              apply wpc_ask rfl hw₁
              intro r w₂ hw₂ _
              cases r with
              | error e => exact hw₂.watch
              | ok _ =>
                  cases parseTs c.host msg.body.entries ["created_at"] with
                  | error e => exact ⟨hw₂.watch, hw₂.watch⟩
                  | ok created =>
                      refine ⟨hw₂.watch, ?_⟩
                      cases created with
                      | none => exact ⟨hw₂.watch, horder w₂ hw₂ hexp⟩
                      | some created =>
                          apply wpc_ask rfl hw₂
                          intro r w₃ hw₃ _
                          cases r with
                          | error e => exact hw₃.watch
                          | ok _ => exact horder w₃ hw₃ hexp

theorem wpc_gatedHandle (hw : Clear store w) :
    wpc honestStore.traced (Watch c msg now store) (handle c msg now)
      (fun _ w' => Watch c msg now store w') w := by
  unfold handle
  split_ifs with hheart
  · exact wpc_gatedHeartbeat hw.watch
  · simp only [Proc.bind_eq, wpc_bind]
    cases hval : validateEnvelope msg.body with
    | error e => exact ⟨hw.watch, hw.watch⟩
    | ok res =>
        refine ⟨hw.watch, ?_⟩
        dsimp only
        cases hok : res.ok with
        | false => exact wpc_gatedDeadLetter res hw.watch
        | true => exact wpc_gatedHandleEnvelope hval hok hw

/-- One handling, complete or cut short, calls `submit_fn` at most once and only with
every gate behind it. -/
theorem handle_submits_gated (c : Consumer) (msg : ReceivedMessage) (now : Moment)
    (store store' : List String) (out : Option (Except Exc Outcome))
    (t : List (Event (ConsumerI F) Exc))
    (run : Exec honestStore.traced (handle c msg now) (store, []) out (store', t)) :
    (t.filter isSubmit).length ≤ 1 ∧
      ∀ before o r after, t = before ++ ⟨.pipeline (.submit o), r⟩ :: after →
        ∃ order, Gates c msg now store order before o := by
  have hclear : Clear store ((store, []) : Watched F) := ⟨rfl, fun e he => by cases he⟩
  exact (wpc_sound run (wpc_gatedHandle hclear)).1

/-- Answers under which an order reaches the broker: a quote of 1.1 and every gate open. -/
def calmAnswer (store : List String) : (op : ConsumerCall Unit) → Except Exc op.Ans
  | .clock => .ok Moment.first
  | .pull _ _ => .ok []
  | .heartbeatFn _ => .ok true
  | .submitGateFn => .ok true
  | .priceFn _ => .ok (.float (.ofRat (11 / 10)))
  | .openInstrumentsFn => .ok []
  | .pipeline (.seen key) => .ok (decide (key ∈ store))
  | .pipeline .clock => .ok Moment.first
  | .pipeline (.validate _) => .ok (true, [])
  | .pipeline (.mark _) => .ok ()
  | .pipeline (.submit _) => .ok ()
  | .pipeline (.persist _ _) => .ok ()
  | .pipeline (.emit _ _) => .ok ()
  | .ack _ => .ok ()
  | .nack _ _ => .ok ()
  | .toDlq _ _ => .ok ()
  | .setLastPollAt _ => .ok ()
  | .setLastMessageAt _ => .ok ()
  | .setLastMessageCreatedAt _ => .ok ()
  | .countMessage => .ok ()
  | .emitFn _ _ _ => .ok ()

/-- The environment of these answers; only marks change its store. -/
def calm (op : ConsumerCall Unit) (w : Watched Unit) : Except Exc op.Ans × Watched Unit :=
  let store := match op with
    | .pipeline (.mark key) => key :: w.1
    | _ => w.1
  (calmAnswer w.1 op, store, w.2 ++ [⟨op, calmAnswer w.1 op⟩])

theorem calm_step (op : ConsumerCall Unit) (w : Watched Unit) :
    honestStore.traced w op (calm op w).1 (calm op w).2 := by
  cases op with
  | pipeline call =>
      cases call with
      | seen key => exact ⟨⟨fun b hb => (Except.ok.inj hb).symm, rfl⟩, rfl⟩
      | mark key => exact ⟨Or.inr rfl, rfl⟩
      | _ => exact ⟨rfl, rfl⟩
  | _ => exact ⟨rfl, rfl⟩

/-- A buy of one thousand units without suggested stops. -/
def plainBuy : ReceivedMessage :=
  ⟨"ack-1", "ams-outbound.executor", .dict (orderMessage "BUY" (.int 1000) .null), 1⟩

theorem handle_submits_gated_plainBuy :
    let w := ((handle openConsumer plainBuy Moment.first).run calm ([], [])).2
    (w.2.filter isSubmit).length = 1 ∧
      ∀ before o r after, w.2 = before ++ ⟨.pipeline (.submit o), r⟩ :: after →
        ∃ order, Gates openConsumer plainBuy Moment.first [] order before o :=
  ⟨by decide +kernel, (handle_submits_gated openConsumer plainBuy Moment.first [] _ _ _
    (exec_run calm_step (handle openConsumer plainBuy Moment.first) ([], []))).2⟩

end Consumer

end System2
