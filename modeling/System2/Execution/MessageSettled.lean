import System2.Execution.OutboundConsumer

/-!
# Every message is settled once

`_handle` against a queue and a store that work and hooks that may do anything.
It settles its message exactly once unless a conversion in the consumer's own
code raises; which bodies those are is decidable.
-/

namespace System2
open Foundation

namespace Consumer

variable {F : Type}

/-- The calls that work here: the queue, the store, the clocks, the safety gate
and the lag record. The hooks may return or raise. -/
def works : ConsumerCall F → Bool
  | .heartbeatFn _ => false
  | .priceFn _ => false
  | .openInstrumentsFn => false
  | .emitFn _ _ _ => false
  | .pipeline (.validate _) => false
  | .pipeline (.submit _) => false
  | .pipeline (.persist _ _) => false
  | .pipeline (.emit _ _) => false
  | _ => true

/-- Every call is recorded, and the working ones return. -/
def hooksWorld : World (ConsumerI F) Exc (List (Event (ConsumerI F) Exc)) :=
  fun t op r t' => t' = t ++ [⟨op, r⟩] ∧ (works op = true → ∃ a, r = .ok a)

/-- The message that an event settles. -/
def settlement : Event (ConsumerI F) Exc → Option ReceivedMessage
  | ⟨.ack msg, _⟩ => some msg
  | ⟨.nack msg _, _⟩ => some msg
  | ⟨.toDlq msg _, _⟩ => some msg
  | _ => none

/-- The messages settled so far, in order. -/
def settlements (t : List (Event (ConsumerI F) Exc)) : List ReceivedMessage :=
  t.filterMap settlement

@[simp] theorem settlements_append (t u : List (Event (ConsumerI F) Exc)) :
    settlements (t ++ u) = settlements t ++ settlements u := List.filterMap_append

/-- Does the handling of this keepalive reach its `ack` whatever the hook does? -/
def heartbeatDigests (c : Consumer) (raw : Dict) : Bool :=
  match parseTs c.host raw ["created_at", "produced_at"] with
  | .error _ => false
  | .ok none => (payloadSource raw).isOk
  | .ok (some _) => !c.hasHeartbeat || (payloadSource raw).isOk

/-- Do the conversions of a valid envelope succeed, as far as they are reached? -/
def orderDigests (c : Consumer) (now : Moment) (raw : Dict) : Bool :=
  match isExpired c.host raw now c.maxAgeSec with
  | .error _ => false
  | .ok expired =>
      expired || (parseTs c.host raw ["created_at"]).isOk && (ApprovedOrder.fromDict raw).isOk

/-- The bodies on which no conversion in the consumer's own code raises. -/
def digests (c : Consumer) (now : Moment) (body : PyVal) : Bool :=
  if isHeartbeat body then c.heartbeatDigests body.entries
  else
    match validateEnvelope body with
    | .error _ => false
    | .ok res => !res.ok || c.orderDigests now body.entries

/-! ### Digestible messages are settled -/

variable {t : List (Event (ConsumerI F) Exc)}

/-- A working call returns, and its event is recorded. -/
theorem wpc_works {op : ConsumerCall F} {Q : Except Exc op.Ans → _ → Prop}
    (hop : works op = true) (hQ : ∀ a, Q (.ok a) (t ++ [⟨op, .ok a⟩])) :
    wp hooksWorld (perform op) Q t := by
  apply wpc_of_perform trivial
  rintro r t' ⟨rfl, hok⟩
  obtain ⟨a, rfl⟩ := hok hop
  exact ⟨trivial, hQ a⟩

/-- A hook returns or raises; either way its event is recorded. -/
theorem wpc_hookCall {op : ConsumerCall F} {Q : Except Exc op.Ans → _ → Prop}
    (hQ : ∀ r, Q r (t ++ [⟨op, r⟩])) : wp hooksWorld (perform op) Q t := by
  apply wpc_of_perform trivial
  rintro r t' ⟨rfl, -⟩
  exact ⟨trivial, hQ r⟩

/-- What the pipeline calls, whatever it does, settles no message. -/
theorem wpc_routed (order : ApprovedOrder) {α : Type} (p : Proc (PipelineI F) Exc α)
    {Q : Except Exc α → List (Event (ConsumerI F) Exc) → Prop}
    (hQ : ∀ r t', settlements t' = settlements t → Q r t') :
    wp hooksWorld (p.interp (route order)) Q t := by
  induction p generalizing t with
  | ret a => exact ⟨trivial, hQ _ t rfl⟩
  | raise e => exact ⟨trivial, hQ _ t rfl⟩
  | call op next ih =>
      have hstep : ∀ (r : Except Exc op.Ans) (e : Event (ConsumerI F) Exc),
          settlement e = none →
            wp hooksWorld ((next r).interp (route order)) Q (t ++ [e]) := by
        intro r e he
        apply ih
        intro r' t' ht'
        apply hQ r' t'
        rw [ht', settlements_append]
        simp [settlements, he]
      simp only [Proc.interp, wpc_bind, wpc_attempt]
      cases op with
      | seen key => exact wpc_hookCall fun r => hstep r _ rfl
      | mark key => exact wpc_hookCall fun r => hstep r _ rfl
      | clock => exact wpc_hookCall fun r => hstep r _ rfl
      | validate c => exact wpc_hookCall fun r => hstep r _ rfl
      | submit c => exact wpc_hookCall fun r => hstep r _ rfl
      | persist c fill => exact wpc_hookCall fun r => hstep r _ rfl
      | emit c fill => exact wpc_hookCall fun r => hstep r _ rfl

/-- The store works, so the scan of the guard keys returns. -/
theorem wpc_anySeenRouted (order : ApprovedOrder) (keys : List String)
    {Q : Except Exc Bool → List (Event (ConsumerI F) Exc) → Prop}
    (hQ : ∀ b t', settlements t' = settlements t → Q (.ok b) t') :
    wp hooksWorld ((Pipeline.anySeen keys).interp (route order)) Q t := by
  induction keys generalizing t with
  | nil => exact ⟨trivial, hQ false t rfl⟩
  | cons key rest ih =>
      simp only [Pipeline.anySeen, Proc.perform, Proc.bind_eq, Proc.bind, Proc.interp, wpc_bind,
        wpc_attempt]
      apply wpc_works (show works (.pipeline (.seen key)) = true from rfl)
      intro seen
      have hquiet : settlements (t ++ [⟨.pipeline (.seen key), .ok seen⟩]) = settlements t := by
        simp [settlements, settlement]
      cases seen with
      | true => exact ⟨trivial, hQ true _ hquiet⟩
      | false =>
          apply ih
          intro b t' ht'
          exact hQ b t' (ht'.trans hquiet)

/-- The handling returned an outcome and settled this one message on top of the
messages settled before. -/
def SettledOnce (before : List ReceivedMessage) (msg : ReceivedMessage)
    (r : Except Exc Outcome) (t : List (Event (ConsumerI F) Exc)) : Prop :=
  (∃ o, r = .ok o) ∧ settlements t = before ++ [msg]

variable {before : List ReceivedMessage} {msg : ReceivedMessage} {c : Consumer} {now : Moment}

/-- One settling call and the return of an outcome. -/
theorem wpc_settling {op : ConsumerCall F} (o : Outcome) (hop : works op = true)
    (hmsg : ∀ r, settlement ⟨op, r⟩ = some msg) (ht : settlements t = before) :
    wp hooksWorld ((perform op).bind fun _ => .ret o) (SettledOnce before msg) t := by
  simp only [wpc_bind]
  apply wpc_works hop
  intro a
  refine ⟨trivial, ⟨o, rfl⟩, ?_⟩
  rw [settlements_append, ht]
  simp [settlements, hmsg]

theorem wpc_settle (r : Except Exc (ProcessResult F)) (ht : settlements t = before) :
    wp hooksWorld (settle c msg r) (SettledOnce before msg) t := by
  cases r with
  | error e => exact wpc_settling .execError rfl (fun _ => rfl) ht
  | ok result =>
      simp only [settle]
      split_ifs
      · exact wpc_settling (.handled result.decision) rfl (fun _ => rfl) ht
      · exact wpc_settling (.nacked result.decision) rfl (fun _ => rfl) ht

/-- Inside the `try` block every call may raise, but none settles the message. -/
theorem wpc_execute (order : ApprovedOrder)
    {Q : Except Exc (ProcessResult F) → List (Event (ConsumerI F) Exc) → Prop}
    (hQ : ∀ r t', settlements t' = settlements t → Q r t') :
    wp hooksWorld (execute c order) Q t := by
  have hquiet : ∀ (u : List (Event (ConsumerI F) Exc)) (e : Event (ConsumerI F) Exc),
      settlement e = none → settlements (u ++ [e]) = settlements u := by
    intro u e he
    simp [settlements, he]
  simp only [execute, Proc.bind_eq, wpc_bind]
  apply wpc_hookCall
  intro price
  have hprice := hquiet t ⟨.priceFn order, price⟩ rfl
  cases price with
  | error e => exact hQ _ _ hprice
  | ok v =>
      apply wpc_hookCall
      intro opens
      have hopens := (hquiet _ ⟨.openInstrumentsFn, opens⟩ rfl).trans hprice
      cases opens with
      | error e => exact hQ _ _ hopens
      | ok xs =>
          apply wpc_routed
          intro r t' ht'
          exact hQ r t' (ht'.trans hopens)

/-- The gate answers without settling anything. -/
theorem wpc_gateOpen {Q : Except Exc Bool → List (Event (ConsumerI F) Exc) → Prop}
    (hQ : ∀ b t', settlements t' = settlements t → Q (.ok b) t') :
    wp hooksWorld (gateOpen c) Q t := by
  unfold gateOpen
  split_ifs
  · apply wpc_works rfl
    intro b
    exact hQ b _ (by simp [settlements, settlement])
  · exact ⟨trivial, hQ true t rfl⟩

theorem wpc_handleOrder (order : ApprovedOrder) (ht : settlements t = before) :
    wp hooksWorld (handleOrder c msg now order) (SettledOnce before msg) t := by
  simp only [handleOrder, Proc.bind_eq, wpc_bind]
  apply wpc_anySeenRouted
  intro duplicate t₁ ht₁
  cases duplicate with
  | true => exact wpc_settling .duplicate rfl (fun _ => rfl) (ht₁.trans ht)
  | false =>
      simp only [Bool.false_eq_true, if_false]
      split_ifs with hsession
      · exact wpc_settling .parked rfl (fun _ => rfl) (ht₁.trans ht)
      · simp only [wpc_bind]
        apply wpc_gateOpen
        intro submitting t₂ ht₂
        have ht₂' := ht₂.trans (ht₁.trans ht)
        cases submitting with
        | false => exact wpc_settling .pausedPark rfl (fun _ => rfl) ht₂'
        | true =>
            simp only [Bool.not_true, Bool.false_eq_true, if_false, wpc_bind, wpc_attempt]
            apply wpc_execute
            intro r t₃ ht₃
            exact wpc_settle r (ht₃.trans ht₂')

theorem wpc_handleEnvelope {raw : Dict} (hdig : c.orderDigests now raw = true)
    (ht : settlements t = before) :
    wp hooksWorld (handleEnvelope c msg now raw) (SettledOnce before msg) t := by
  simp only [handleEnvelope, Proc.bind_eq, wpc_bind]
  apply wpc_works rfl
  intro _
  have ht₁ : settlements (t ++ [⟨.countMessage, .ok ()⟩]) = before := by
    simp [settlements, settlement, ← ht]
  unfold orderDigests at hdig
  cases hexp : isExpired c.host raw now c.maxAgeSec with
  | error e =>
      rw [hexp] at hdig
      cases hdig
  | ok expired =>
      rw [hexp] at hdig
      refine ⟨trivial, ?_⟩
      cases expired with
      | true => exact wpc_settling .expired rfl (fun _ => rfl) ht₁
      | false =>
          cases hts : parseTs c.host raw ["created_at"] with
          | error e => simp [hts, Except.isOk, Except.toBool] at hdig
          | ok created =>
              cases hdict : ApprovedOrder.fromDict raw with
              | error e => simp [hdict, Except.isOk, Except.toBool] at hdig
              | ok order =>
                  simp only [Bool.false_eq_true, if_false, wpc_bind,
                    creditFreshness, hts, Proc.bind_eq]
                  apply wpc_works rfl
                  intro _
                  refine ⟨trivial, ?_⟩
                  have ht₂ : settlements (t ++ [⟨.countMessage, .ok ()⟩] ++
                      [⟨.setLastMessageAt now, .ok ()⟩]) = before := by
                    simp [settlements, settlement, ← ht]
                  cases created with
                  | none => exact ⟨trivial, trivial, wpc_handleOrder order ht₂⟩
                  | some created =>
                      apply wpc_works rfl
                      intro _
                      refine ⟨trivial, wpc_handleOrder order ?_⟩
                      simp [settlements, settlement, ← ht]

theorem wpc_deadLetter (res : ValidationResult) (ht : settlements t = before) :
    wp hooksWorld (deadLetter c msg res) (SettledOnce before msg) t := by
  simp only [deadLetter, Proc.bind_eq, wpc_bind, wpc_attempt]
  apply wpc_works rfl
  intro _
  refine ⟨trivial, ⟨.deadLettered, rfl⟩, ?_⟩
  simp [settlements, settlement, ← ht]

theorem wpc_creditHeartbeat {raw : Dict} {sentAt : Moment}
    {Q : Except Exc Bool → List (Event (ConsumerI F) Exc) → Prop}
    (hdig : (!c.hasHeartbeat || (payloadSource raw).isOk) = true)
    (hQ : ∀ b t', settlements t' = settlements t → Q (.ok b) t') :
    wp hooksWorld (creditHeartbeat c raw sentAt) Q t := by
  unfold creditHeartbeat
  cases hhook : c.hasHeartbeat with
  | false => exact ⟨trivial, hQ false t rfl⟩
  | true =>
      simp only [if_true, Proc.bind_eq, wpc_bind, wpc_attempt]
      apply wpc_hookCall
      intro r
      have hquiet : settlements (t ++ [⟨.heartbeatFn sentAt, r⟩]) = settlements t := by
        simp [settlements, settlement]
      cases r with
      | ok b => exact ⟨trivial, hQ b _ hquiet⟩
      | error e =>
          cases hpay : payloadSource raw with
          | error e => simp [hhook, hpay, Except.isOk, Except.toBool] at hdig
          | ok v => exact ⟨trivial, hQ false _ hquiet⟩

theorem wpc_handleHeartbeat {raw : Dict} (hdig : c.heartbeatDigests raw = true)
    (ht : settlements t = before) :
    wp hooksWorld (handleHeartbeat c msg raw) (SettledOnce before msg) t := by
  have hack : ∀ (credited : Bool) (t' : List (Event (ConsumerI F) Exc)),
      settlements t' = settlements t →
      wp hooksWorld ((perform (.ack msg)).bind fun _ =>
        .ret (if credited then Outcome.heartbeat else .heartbeatStale))
        (SettledOnce before msg) t' :=
    fun credited t' ht' => wpc_settling _ rfl (fun _ => rfl) (ht'.trans ht)
  simp only [wpc_bind] at hack
  unfold heartbeatDigests at hdig
  simp only [handleHeartbeat, Proc.bind_eq, wpc_bind]
  cases hts : parseTs c.host raw ["created_at", "produced_at"] with
  | error e =>
      rw [hts] at hdig
      cases hdig
  | ok sentAt =>
      rw [hts] at hdig
      refine ⟨trivial, ?_⟩
      cases sentAt with
      | none =>
          cases hpay : payloadSource raw with
          | error e => simp [hpay, Except.isOk, Except.toBool] at hdig
          | ok v =>
              simp only [wpc_bind]
              exact ⟨trivial, trivial, hack false t rfl⟩
      | some sentAt =>
          simp only [wpc_bind]
          apply wpc_creditHeartbeat hdig
          intro b t' ht'
          exact hack b t' ht'

/-- A digestible message is handled without an exception and settled once. -/
theorem wpc_handle (hdig : c.digests now msg.body = true) (ht : settlements t = before) :
    wp hooksWorld (handle c msg now) (SettledOnce before msg) t := by
  unfold digests at hdig
  unfold handle
  split_ifs at hdig ⊢ with hheart
  · exact wpc_handleHeartbeat hdig ht
  · simp only [Proc.bind_eq, wpc_bind]
    cases hval : validateEnvelope msg.body with
    | error e =>
        rw [hval] at hdig
        cases hdig
    | ok res =>
        rw [hval] at hdig
        refine ⟨trivial, ?_⟩
        dsimp only at hdig ⊢
        cases hok : res.ok with
        | false => exact wpc_deadLetter res ht
        | true => exact wpc_handleEnvelope (by simpa [hok] using hdig) ht

/-- A batch of digestible messages is handled to its end, each settled in turn. -/
theorem wpc_handleBatch {batch : List ReceivedMessage} {stats : Stats}
    (hdig : ∀ m ∈ batch, c.digests now m.body = true) (ht : settlements t = before) :
    wp hooksWorld (handleBatch c now batch stats)
      (fun r t' => (∃ s, r = .ok s) ∧ settlements t' = before ++ batch) t := by
  induction batch generalizing t before stats with
  | nil => exact ⟨trivial, ⟨stats, rfl⟩, by simpa using ht⟩
  | cons m rest ih =>
      simp only [handleBatch, Proc.bind_eq, wpc_bind]
      apply wpc_post (wpc_handle (hdig m List.mem_cons_self) ht)
      rintro r t' - ⟨⟨o, rfl⟩, ht'⟩
      apply wpc_post (ih (fun m' hm' => hdig m' (List.mem_cons_of_mem m hm')) ht')
      rintro r t'' - ⟨hret, ht''⟩
      exact ⟨hret, by simpa using ht''⟩

/-! ### The other messages escape -/

/-- An environment whose working calls return and whose hooks all raise. -/
def harshAnswer : (op : ConsumerCall F) → Except Exc op.Ans
  | .clock => .ok Moment.first
  | .pull _ _ => .ok []
  | .ack _ => .ok ()
  | .nack _ _ => .ok ()
  | .toDlq _ _ => .ok ()
  | .setLastPollAt _ => .ok ()
  | .setLastMessageAt _ => .ok ()
  | .setLastMessageCreatedAt _ => .ok ()
  | .countMessage => .ok ()
  | .submitGateFn => .ok true
  | .pipeline (.seen _) => .ok false
  | .pipeline (.mark _) => .ok ()
  | .pipeline .clock => .ok Moment.first
  | .heartbeatFn _ => .error (.ofErr .valueError)
  | .priceFn _ => .error (.ofErr .valueError)
  | .openInstrumentsFn => .error (.ofErr .valueError)
  | .emitFn _ _ _ => .error (.ofErr .valueError)
  | .pipeline (.validate _) => .error (.ofErr .valueError)
  | .pipeline (.submit _) => .error (.ofErr .valueError)
  | .pipeline (.persist _ _) => .error (.ofErr .valueError)
  | .pipeline (.emit _ _) => .error (.ofErr .valueError)

def harsh (op : ConsumerCall F) (t : List (Event (ConsumerI F) Exc)) :
    Except Exc op.Ans × List (Event (ConsumerI F) Exc) :=
  (harshAnswer op, t ++ [⟨op, harshAnswer op⟩])

theorem harsh_step (op : ConsumerCall F) (t : List (Event (ConsumerI F) Exc)) :
    hooksWorld t op (harsh op t).1 (harsh op t).2 := by
  refine ⟨rfl, fun hop => ?_⟩
  cases op with
  | heartbeatFn _ => cases hop
  | priceFn _ => cases hop
  | openInstrumentsFn => cases hop
  | emitFn _ _ _ => cases hop
  | pipeline call =>
      cases call with
      | validate _ => cases hop
      | submit _ => cases hop
      | persist _ _ => cases hop
      | emit _ _ => cases hop
      | seen _ => exact ⟨_, rfl⟩
      | mark _ => exact ⟨_, rfl⟩
      | clock => exact ⟨_, rfl⟩
  | _ => exact ⟨_, rfl⟩

/-- The handling raised. -/
def Escaped (r : Except Exc Outcome) (_ : List (Event (ConsumerI F) Exc)) : Prop :=
  ∃ e, r = .error e

theorem wp_handleEnvelope_escaped {raw : Dict} (hdig : c.orderDigests now raw = false) :
    wp (World.det harsh) (handleEnvelope c msg now raw) (Escaped (F := F)) t := by
  unfold orderDigests at hdig
  simp only [handleEnvelope, Proc.bind_eq, wpc_bind]
  apply wp_det_perform
  cases hexp : isExpired c.host raw now c.maxAgeSec with
  | error e => exact ⟨trivial, _, rfl⟩
  | ok expired =>
      rw [hexp] at hdig
      refine ⟨trivial, ?_⟩
      cases expired with
      | true => cases hdig
      | false =>
          simp only [Bool.false_eq_true, if_false, wpc_bind, creditFreshness, Proc.bind_eq]
          apply wp_det_perform
          cases hts : parseTs c.host raw ["created_at"] with
          | error e => exact ⟨trivial, _, rfl⟩
          | ok created =>
              cases hdict : ApprovedOrder.fromDict raw with
              | ok order =>
                  rw [hts, hdict] at hdig
                  cases hdig
              | error e =>
                  refine ⟨trivial, ?_⟩
                  cases created with
                  | none => exact ⟨trivial, trivial, _, rfl⟩
                  | some created => exact wp_det_perform ⟨trivial, _, rfl⟩

theorem wp_handleHeartbeat_escaped {raw : Dict} (hdig : c.heartbeatDigests raw = false) :
    wp (World.det harsh) (handleHeartbeat c msg raw) (Escaped (F := F)) t := by
  unfold heartbeatDigests at hdig
  simp only [handleHeartbeat, Proc.bind_eq, wpc_bind]
  cases hts : parseTs c.host raw ["created_at", "produced_at"] with
  | error e => exact ⟨trivial, _, rfl⟩
  | ok sentAt =>
      rw [hts] at hdig
      refine ⟨trivial, ?_⟩
      cases hpay : payloadSource raw with
      | ok v =>
          rw [hpay] at hdig
          cases sentAt with
          | none => cases hdig
          | some sentAt => simp [Except.isOk, Except.toBool] at hdig
      | error e =>
          cases sentAt with
          | none => exact ⟨trivial, _, rfl⟩
          | some sentAt =>
              have hhook : c.hasHeartbeat = true := by
                cases hh : c.hasHeartbeat with
                | true => rfl
                | false => simp [hh] at hdig
              simp only [creditHeartbeat, hhook, if_true, wpc_bind, wpc_attempt, Proc.bind_eq]
              apply wp_det_perform
              simp only [harsh, harshAnswer, hpay, wpc_bind]
              exact ⟨trivial, _, rfl⟩

/-- An indigestible message raises out of `_handle` when its hook raises. -/
theorem wp_handle_escaped (msg : ReceivedMessage) (hdig : c.digests now msg.body = false) :
    wp (World.det harsh) (handle c msg now) (Escaped (F := F)) t := by
  unfold digests at hdig
  unfold handle
  split_ifs at hdig ⊢ with hheart
  · exact wp_handleHeartbeat_escaped hdig
  · simp only [Proc.bind_eq, wpc_bind]
    cases hval : validateEnvelope msg.body with
    | error e => exact ⟨trivial, _, rfl⟩
    | ok res =>
        rw [hval] at hdig
        refine ⟨trivial, ?_⟩
        dsimp only at hdig ⊢
        cases hok : res.ok with
        | false => simp [hok] at hdig
        | true => exact wp_handleEnvelope_escaped (by simpa [hok] using hdig)

/-! ### The exact condition -/

/-- `_handle` returns an outcome and settles its message exactly once, whatever the
hooks do, exactly for the digestible bodies; a poll then handles its whole batch. -/
theorem handle_settles_iff_digests (c : Consumer) (now : Moment) :
    (∀ msg : ReceivedMessage,
      (∀ (r : Except Exc Outcome) (t : List (Event (ConsumerI F) Exc)),
        Exec hooksWorld (handle c msg now) [] (some r) t →
          (∃ o, r = .ok o) ∧ settlements t = [msg]) ↔ c.digests now msg.body = true) ∧
    (∀ (batch : List ReceivedMessage) (r : Except Exc Stats)
      (t : List (Event (ConsumerI F) Exc)), (∀ m ∈ batch, c.digests now m.body = true) →
        Exec hooksWorld (handleBatch c now batch []) [] (some r) t →
          (∃ stats, r = .ok stats) ∧ settlements t = batch) := by
  constructor
  · intro msg
    constructor
    · intro hall
      by_contra hdig
      have hdig' : c.digests now msg.body = false := by simpa using hdig
      obtain ⟨e, he⟩ := run_of_wp (wp_handle_escaped (F := F) (t := []) msg hdig')
      obtain ⟨⟨o, ho⟩, -⟩ := hall _ _ (exec_run harsh_step (handle c msg now) [])
      rw [he] at ho
      cases ho
    · intro hdig r t run
      exact wp_sound run (wpc_handle hdig rfl)
  · intro batch r t hdig run
    exact wp_sound run (wpc_handleBatch hdig rfl)

/-- A valid envelope whose suggested stop is a text that is no number. -/
def wordyStop : ReceivedMessage :=
  ⟨"ack-1", "ams-outbound.executor", .dict (orderMessage "BUY" (.int 1000) (.str "n/a")), 1⟩

theorem wordyStop_not_settled :
    ¬ ∀ (r : Except Exc Outcome) (t : List (Event (ConsumerI Unit) Exc)),
      Exec hooksWorld (handle openConsumer wordyStop Moment.first) [] (some r) t →
        (∃ o, r = .ok o) ∧ settlements t = [wordyStop] := by
  intro hall
  have hdig : openConsumer.digests Moment.first wordyStop.body = false := by decide +kernel
  obtain ⟨e, he⟩ := run_of_wp (wp_handle_escaped (F := Unit) (t := []) wordyStop hdig)
  obtain ⟨⟨o, ho⟩, -⟩ := hall _ _ (exec_run harsh_step (handle openConsumer wordyStop Moment.first) [])
  rw [he] at ho
  cases ho

end Consumer

end System2
