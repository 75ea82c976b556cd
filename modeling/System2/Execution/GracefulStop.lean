import System2.Execution.BookGuard
import System2.Execution.EngineRun

/-!
# How a run ends

The sweep of a tick is guarded; the evaluation, the poll, the prices and the pass of the
position manager are not, and the shutdown stands behind the loop. So a run shuts down
unless one of these four calls raises.
-/

namespace System2
open Foundation

namespace Engine

/-! ### The calls that may raise -/

/-- The calls of a tick that nothing guards. -/
def unguarded : EngineCall → Bool
  | .tick (.evaluate _ _) => true
  | .tick .pollOnce => true
  | .tick .priceSourceFn => true
  | .tick (.evaluateAll _) => true
  | _ => false

/-- What the loop relies on beside the components of the tick: the clock, the stop latch, the
sleep, the book, the ids of messages, and a broker whose list of trades holds objects. -/
def Works : Event EngineI Exc → Prop
  | ⟨.tick .isStopped, r⟩ => r.isOk = true
  | ⟨.tick .clock, r⟩ => r.isOk = true
  | ⟨.tick .lastMessageAt, r⟩ => r.isOk = true
  | ⟨.installSignalHandlers, r⟩ => r.isOk = true
  | ⟨.stopReason, r⟩ => r.isOk = true
  | ⟨.sleep _, r⟩ => r.isOk = true
  | ⟨.restart .getOpenTrades, r⟩ => ∀ v, r = .ok v →
      ∃ trades, v.iter = .ok trades ∧ ∀ trade ∈ trades, ∃ record, trade = .dict record
  | ⟨.restart (.register _), r⟩ => r.isOk = true
  | ⟨.live (.manager .trades), r⟩ => r.isOk = true
  | ⟨.live (.service (.producer .uuid4)), r⟩ => r.isOk = true
  | ⟨.live (.service (.producer .utcNowIso)), r⟩ => r.isOk = true
  | _ => True

/-- Every other call, each of a tick among them, may raise at any time. -/
def engineWorld : World EngineI Exc (List (Event EngineI Exc)) := World.free.under Works

/-- No call of a tick has raised that nothing guards. -/
def Quiet (t : List (Event EngineI Exc)) : Prop :=
  ∀ e ∈ t, unguarded e.1 = true → e.2.isOk = true

/-- A record in which the outbox was flushed and the stop was reported. -/
structure ShutDown (en : Engine) (t : List (Event EngineI Exc)) : Prop where
  flushed : ∃ r, (⟨.live (.service (.producer
    (.outboxPull en.live.service.producer.outboxTopic 10))), r⟩ : Event EngineI Exc) ∈ t
  told : ∃ body r, (⟨.live (.service (.producer
    (.outboxPublish en.live.service.producer.outboxTopic body))), r⟩ : Event EngineI Exc) ∈ t ∧
      Dict.get body.entries "event_type" = .str "STOPPED"

/-! ### Steps -/

section Steps
variable {α β : Type} {op : EngineCall} {t : List (Event EngineI Exc)}

theorem Quiet.snoc {e : Event EngineI Exc} (h : Quiet t)
    (he : unguarded e.1 = true → e.2.isOk = true) : Quiet (t ++ [e]) := by
  intro e' hmem
  rcases List.mem_append.mp hmem with hold | hlast
  · exact h e' hold
  · rw [List.mem_singleton.mp hlast]
    exact he

/-- A procedure that returns exactly when none of its unguarded calls raises. -/
def Faithful (p : Proc EngineI Exc α) : Prop :=
  ∀ t, Quiet t → wp engineWorld p (fun r t' => r.isOk = true ↔ Quiet t') t

theorem faithful_ret (a : α) : Faithful (.ret a) := fun _ ht =>
  ⟨trivial, iff_of_true rfl ht⟩

theorem Faithful.bind {p : Proc EngineI Exc α} {f : α → Proc EngineI Exc β} (hp : Faithful p)
    (hf : ∀ a, Faithful (f a)) : Faithful (p.bind f) := by
  intro t ht
  refine wpc_seq (hp t ht) (fun a t' _ h => hf a t' (h.mp rfl)) fun e t' _ h => ?_
  exact iff_of_false Bool.false_ne_true (mt h.mpr Bool.false_ne_true)

/-- A call that raises breaks the quiet exactly when nothing guards it. -/
theorem faithful_perform (op : EngineCall)
    (hworks : unguarded op = false → ∀ r, Works ⟨op, r⟩ → r.isOk = true) :
    Faithful (perform op) := by
  intro t ht
  refine wpc_of_perform trivial ?_
  rintro r t' ⟨rfl, hr⟩
  refine ⟨trivial, fun hok => ht.snoc fun _ => hok, fun hquiet => ?_⟩
  cases hop : unguarded op with
  | false => exact hworks hop r hr
  | true => exact hquiet ⟨op, r⟩ (List.mem_append_right _ (List.mem_singleton_self _)) hop

theorem faithful_given {flag : Bool} {p : Proc EngineI Exc Unit} (hp : Faithful p) :
    Faithful (.given flag p) := by
  cases flag with
  | false => exact faithful_ret ()
  | true => exact hp

/-- Guarded calls keep the quiet, whatever they answer. -/
theorem wp_quiet {p : Proc EngineI Exc α} (hp : p.Only fun op => unguarded op = false)
    (ht : Quiet t) : wp engineWorld p (fun _ t' => Quiet t') t := by
  refine wpc_mono (wpc_of_only (J := Quiet) ?_ hp ht) (fun _ _ => trivial) fun _ _ h _ => h
  rintro op t r t' hop ht ⟨rfl, -⟩
  exact ht.snoc fun hunguarded => by rw [hop] at hunguarded; cases hunguarded

/-- Guarded calls whose outcome is handed over as a value. -/
theorem faithful_attempt {p : Proc EngineI Exc α} (hp : p.Only fun op => unguarded op = false) :
    Faithful p.attempt := by
  intro t ht
  refine (wpc_attempt _ _ _).mpr ?_
  exact wpc_post (wp_quiet hp ht) fun _ _ _ h => iff_of_true rfl h

/-- Guarded calls of a procedure that returns then. -/
theorem wp_guarded {p : Proc EngineI Exc α} (hp : Faithful p)
    (honly : p.Only fun op => unguarded op = false) (ht : Quiet t) :
    wp engineWorld p (fun r t' => r.isOk = true ∧ Quiet t') t :=
  wpc_post (wpc_and (hp t ht) (wp_quiet honly ht)) fun _ _ _ h => ⟨h.1.mpr h.2, h.2⟩

theorem faithful_tryCall (hop : unguarded op = false) : Faithful (tryCall op) :=
  (faithful_attempt (Proc.along_perform hop)).bind fun _ => faithful_ret ()

end Steps

/-! ### The loop -/

section Loop
variable {α β : Type}

theorem faithful_onTick_call (call : TickCall)
    (hworks : unguarded (.tick call) = false → ∀ r, Works ⟨.tick call, r⟩ → r.isOk = true) :
    Faithful (onTick (ControlTick.perform call)) := by
  rw [onTick, ControlTick.perform, Proc.interp_perform (I := TickI)]
  exact faithful_perform _ hworks

theorem faithful_onTick_bind {p : Proc TickI Exc α} {f : α → Proc TickI Exc β}
    (hp : Faithful (onTick p)) (hf : ∀ a, Faithful (onTick (f a))) :
    Faithful (onTick (p.bind f)) := by
  rw [onTick, Proc.interp_bind]
  exact hp.bind hf

theorem faithful_manage (ct : ControlTick) : Faithful (onTick ct.manage) := by
  unfold ControlTick.manage
  split_ifs
  · refine faithful_onTick_bind (faithful_onTick_call .priceSourceFn fun h => by cases h)
      fun prices => ?_
    split_ifs
    · exact faithful_ret []
    · exact faithful_onTick_call (.evaluateAll prices) fun h => by cases h
  · exact faithful_ret []

theorem faithful_sweepCloses (ct : ControlTick) : Faithful (onTick ct.sweepCloses) := by
  unfold ControlTick.sweepCloses Proc.given
  split_ifs
  · refine faithful_onTick_bind ?_ fun _ => faithful_ret ()
    rw [onTick, Proc.interp_attempt, ControlTick.perform, Proc.interp_perform (I := TickI)]
    exact faithful_attempt (Proc.along_perform rfl)
  · exact faithful_ret ()

theorem faithful_tick (ct : ControlTick) : Faithful (onTick ct.tick) := by
  refine faithful_onTick_bind (faithful_onTick_call .isStopped fun _ _ h => h) fun stopped => ?_
  split_ifs
  · exact faithful_ret none
  · refine faithful_onTick_bind (faithful_onTick_call .clock fun _ _ h => h) fun now => ?_
    refine faithful_onTick_bind (faithful_onTick_call .lastMessageAt fun _ _ h => h) fun last => ?_
    refine faithful_onTick_bind (faithful_onTick_call (.evaluate last now) fun h => by cases h)
      fun state => ?_
    refine faithful_onTick_bind (faithful_onTick_call .pollOnce fun h => by cases h) fun consume => ?_
    refine faithful_onTick_bind (faithful_manage ct) fun managed => ?_
    exact faithful_onTick_bind (faithful_sweepCloses ct) fun _ => faithful_ret _

/-- Any number of ticks. -/
theorem faithful_loop (en : Engine) (ticks : ℕ) : Faithful (en.loop ticks) := by
  induction ticks with
  | zero => exact (faithful_perform (.tick .isStopped) fun _ _ h => h).bind fun _ => faithful_ret ()
  | succ ticks ih =>
      refine (faithful_perform (.tick .isStopped) fun _ _ h => h).bind fun stopped => ?_
      split_ifs
      · exact faithful_ret ()
      · refine (faithful_tick en.controlTick).bind fun res => ?_
        exact (faithful_given (faithful_perform (.sleep en.idleSleepSec) fun _ _ h => h)).bind fun _ => ih

end Loop

/-! ### The start -/

section Start
variable {α β : Type} {host : LocalZone} {outboxPath : Option String}

theorem onRestart_guarded (p : Proc RestartI Exc α) :
    (onRestart p).Only fun op => unguarded op = false :=
  Proc.Only.interp (Proc.only_true p) fun _ _ => Proc.along_perform rfl

theorem faithful_onRestart_call (call : RestartCall)
    (hworks : unguarded (.restart call) = false → ∀ r, Works ⟨.restart call, r⟩ → r.isOk = true) :
    Faithful (onRestart (StartupReconcile.perform call)) := by
  rw [onRestart, StartupReconcile.perform, Proc.interp_perform (I := RestartI)]
  exact faithful_perform _ hworks

theorem faithful_onRestart_bind {p : Proc RestartI Exc α} {f : α → Proc RestartI Exc β}
    (hp : Faithful (onRestart p)) (hf : ∀ a, Faithful (onRestart (f a))) :
    Faithful (onRestart (p.bind f)) := by
  rw [onRestart, Proc.interp_bind]
  exact hp.bind hf

/-- A trade that cannot be taken over is skipped. -/
theorem faithful_adopt (record : Dict) :
    Faithful (onRestart (StartupReconcile.adopt host outboxPath (.dict record))) := by
  refine faithful_onRestart_bind ?_ fun r => ?_
  · rw [onRestart, Proc.interp_attempt]
    exact faithful_attempt (onRestart_guarded _)
  rcases r with e | adopted
  · exact faithful_ret 0
  · cases adopted with
    | none => exact faithful_ret 0
    | some t =>
        exact faithful_onRestart_bind (faithful_onRestart_call (.register t) fun _ _ h => h)
          fun _ => faithful_ret 1

theorem faithful_adoptAll {trades : List PyVal}
    (h : ∀ trade ∈ trades, ∃ record, trade = .dict record) :
    Faithful (onRestart (StartupReconcile.adoptAll host outboxPath trades)) := by
  induction trades with
  | nil => exact faithful_ret 0
  | cons trade rest ih =>
      obtain ⟨record, rfl⟩ := h trade List.mem_cons_self
      refine faithful_onRestart_bind (faithful_adopt record) fun _ => ?_
      refine faithful_onRestart_bind (ih fun trade htrade => ?_) fun _ => faithful_ret _
      exact h trade (List.mem_cons_of_mem _ htrade)

/-- The reconcile at the start does not fail. -/
theorem faithful_startupReconcile :
    Faithful (onRestart (StartupReconcile.startupReconcile host outboxPath)) := by
  intro t ht
  rw [onRestart, StartupReconcile.startupReconcile, Proc.bind_eq, Proc.interp_bind,
    Proc.interp_attempt, StartupReconcile.perform, Proc.interp_perform (I := RestartI)]
  refine wpc_seq_attempt (wpc_of_perform trivial fun r t' step => ⟨trivial, step⟩) ?_
  rintro r t' - ⟨rfl, hworks⟩
  have ht' : Quiet (t ++ [⟨.restart .getOpenTrades, r⟩]) := ht.snoc fun h => by cases h
  cases r with
  | error e => exact ⟨trivial, iff_of_true rfl ht'⟩
  | ok v =>
      obtain ⟨trades, hiter, hobjects⟩ := hworks v rfl
      simp only [StartupReconcile.convert, hiter]
      exact faithful_adoptAll hobjects _ ht'

theorem faithful_start (en : Engine) : Faithful en.start := by
  refine (faithful_perform .installSignalHandlers fun _ _ h => h).bind fun _ => ?_
  refine (faithful_given (faithful_startupReconcile.bind fun _ => faithful_ret ())).bind fun _ => ?_
  exact faithful_given (faithful_tryCall rfl)

end Start

/-! ### The shutdown -/

section Shutdown
variable {α β : Type} {en : Engine} {rt : LiveRuntime} {t : List (Event EngineI Exc)}

/-- What is on record stays there. -/
theorem wp_keeps {e : Event EngineI Exc} (p : Proc EngineI Exc α) (h : e ∈ t) :
    wp engineWorld p (fun _ t' => e ∈ t') t := by
  refine wpc_mono (wpc_of_only (J := fun t => e ∈ t) ?_ p.only_true h) (fun _ _ => trivial)
    fun _ _ h _ => h
  rintro op t r t' - hmem ⟨rfl, -⟩
  exact List.mem_append_left _ hmem

/-- A procedure that does not fail. -/
def Settles (p : Proc EngineI Exc α) : Prop :=
  ∀ t, wp engineWorld p (fun r _ => r.isOk = true) t

theorem Settles.bind {p : Proc EngineI Exc α} {f : α → Proc EngineI Exc β} (hp : Settles p)
    (hf : ∀ a, Settles (f a)) : Settles (p.bind f) := fun t =>
  wpc_seq (hp t) (fun a t' _ _ => hf a t') fun _ _ _ h => h

theorem settles_ret (a : α) : Settles (.ret a) := fun _ => ⟨trivial, rfl⟩

theorem settles_attempt (p : Proc EngineI Exc α) : Settles p.attempt := fun t =>
  (wpc_attempt _ _ _).mpr (wpc_post (wp_true p t) fun _ _ _ _ => rfl)

theorem settles_onLive_bind {p : Proc LiveI Exc α} {f : α → Proc LiveI Exc β}
    (hp : Settles (onLive p)) (hf : ∀ a, Settles (onLive (f a))) :
    Settles (onLive (p.bind f)) := by
  rw [onLive, Proc.interp_bind]
  exact hp.bind hf

theorem settles_onLive_attempt (p : Proc LiveI Exc α) : Settles (onLive p.attempt) := by
  rw [onLive, Proc.interp_attempt]
  exact settles_attempt _

theorem settles_flattenTrade (trade : ManagedTrade) : Settles (onLive (rt.flattenTrade trade)) := by
  refine settles_onLive_bind (settles_onLive_attempt _) fun r => ?_
  rcases r with e | resp
  · exact settles_ret false
  · exact settles_onLive_bind (settles_onLive_attempt _) fun _ => settles_ret true

theorem settles_flattenAll (trades : List ManagedTrade) :
    Settles (onLive (rt.flattenAll trades)) := by
  induction trades with
  | nil => exact settles_ret 0
  | cons trade rest ih =>
      unfold LiveRuntime.flattenAll
      split_ifs
      · exact ih
      · exact settles_onLive_bind (settles_flattenTrade trade) fun _ =>
          settles_onLive_bind ih fun _ => settles_ret _

theorem settles_flatten : Settles (onLive rt.flatten) := by
  unfold LiveRuntime.flatten
  split_ifs
  · refine settles_onLive_bind (fun t => ?_) fun book => settles_flattenAll book.trades
    rw [onLive, LiveRuntime.perform, Proc.interp_perform (I := LiveI)]
    exact wpc_of_perform trivial fun r t' step => ⟨trivial, step.2⟩
  · exact settles_ret 0

/-- A call of the fill producer, as the engine makes it. -/
def produce (rt : LiveRuntime) (op : ProducerCall) : Proc EngineI Exc op.Ans :=
  onLive ((ConsumerService.wireProducer op).interp rt.wire)

theorem onLive_onProducer (p : Proc ProducerI Exc α) :
    onLive (rt.onProducer p) = p.interp (produce rt) := by
  have hproduce : produce rt = fun op : ProducerCall =>
      ((ConsumerService.wireProducer op).interp rt.wire).interp fun call =>
        perform (.live call) := rfl
  rw [onLive, LiveRuntime.onProducer, Proc.interp_interp, Proc.interp_interp, hproduce]
  exact congrArg (fun h => p.interp h) (funext fun op => (Proc.interp_interp _ _ _).symm)

/-- The outbox, the ids and the time stamps are calls of the engine. -/
theorem produce_eq {op : ProducerCall}
    (hwired : ConsumerService.wireProducer op = ConsumerService.perform (.producer op))
    (hserved : rt.wire (.producer op) = LiveRuntime.perform (.service (.producer op))) :
    produce rt op = perform (.live (.service (.producer op))) := by
  rw [produce, hwired, ConsumerService.perform, Proc.interp_perform (I := ServiceI), hserved,
    onLive, LiveRuntime.perform, Proc.interp_perform (I := LiveI)]

theorem wp_flush {p : FillProducer} {rounds : ℕ} (hrounds : 0 < rounds) :
    wp engineWorld (onLive (rt.onProducer (p.flush rounds)))
      (fun _ t' => ∃ r, (⟨.live (.service (.producer (.outboxPull p.outboxTopic 10))), r⟩ :
        Event EngineI Exc) ∈ t') t := by
  obtain ⟨rounds, rfl⟩ := Nat.exists_eq_succ_of_ne_zero hrounds.ne'
  rw [onLive_onProducer, FillProducer.flush, Proc.bind_eq, FillProducer.perform,
    Proc.interp_perform_bind (I := ProducerI), produce_eq rfl rfl]
  refine wpc_seq (R := fun r t' => (⟨.live (.service (.producer
    (.outboxPull p.outboxTopic 10))), r⟩ : Event EngineI Exc) ∈ t') ?_ ?_ ?_
  · refine wpc_of_perform trivial ?_
    rintro r t' ⟨rfl, -⟩
    exact ⟨trivial, List.mem_append_right _ (List.mem_singleton_self _)⟩
  · intro batch t' _ hpull
    exact wpc_post (wp_keeps _ hpull) fun _ _ _ h => ⟨_, h⟩
  · intro e t' _ hpull
    exact ⟨_, hpull⟩

/-- The control event is written to the outbox, whatever becomes of the flush behind it. -/
theorem wp_emitControl {p : FillProducer} {rounds : ℕ} {eventType correlationId : String}
    {payload : Dict} :
    wp engineWorld (onLive (rt.onProducer (p.emitControl rounds eventType payload correlationId)))
      (fun _ t' => ∃ body r, (⟨.live (.service (.producer (.outboxPublish p.outboxTopic body))), r⟩ :
        Event EngineI Exc) ∈ t' ∧ Dict.get body.entries "event_type" = .str eventType) t := by
  have hworks : ∀ {op : ProducerCall} {t : List (Event EngineI Exc)},
      (∀ r, Works ⟨.live (.service (.producer op)), r⟩ → r.isOk = true) →
        wp engineWorld (perform (.live (.service (.producer op)))) (fun r _ => r.isOk = true) t :=
    fun h => wpc_of_perform trivial fun r _ step => ⟨trivial, h r step.2⟩
  rw [onLive_onProducer, FillProducer.emitControl, Proc.bind_eq, FillProducer.perform,
    Proc.interp_perform_bind (I := ProducerI), produce_eq rfl rfl]
  refine wpc_seq (hworks fun r h => h) (fun messageId t₁ _ _ => ?_) fun e _ _ h => by cases h
  rw [Proc.bind_eq, FillProducer.perform, Proc.interp_perform_bind (I := ProducerI),
    produce_eq rfl rfl]
  refine wpc_seq (hworks fun r h => h) (fun createdAt t₂ _ _ => ?_) fun e _ _ h => by cases h
  simp only [Proc.bind_eq, FillProducer.perform]
  rw [Proc.interp_perform_bind (I := ProducerI), produce_eq rfl rfl]
  refine wpc_seq (R := fun r t' => (⟨.live (.service (.producer (.outboxPublish p.outboxTopic
    (makeEnvelope messageId createdAt (.dict payload)
      ("control:" ++ eventType ++ ":" ++ (payload.getOr "reason" (.str "")).toStr) correlationId
      none (some eventType))))), r⟩ : Event EngineI Exc) ∈ t') ?_ ?_ ?_
  · refine wpc_of_perform trivial ?_
    rintro r t' ⟨rfl, -⟩
    exact ⟨trivial, List.mem_append_right _ (List.mem_singleton_self _)⟩
  · intro _ t' _ hwritten
    exact wpc_post (wp_keeps _ hwritten) fun _ _ _ h => ⟨_, _, h, rfl⟩
  · intro e t' _ hwritten
    exact ⟨_, _, hwritten, rfl⟩

/-- The shutdown comes to its end, and it has flushed and reported. -/
theorem wp_liveShutdown {reason : String} (hrounds : 0 < en.live.service.rounds) :
    wp engineWorld (onLive (en.live.shutdown reason))
      (fun r t' => r.isOk = true ∧ ShutDown en t') t := by
  rw [LiveRuntime.shutdown, Proc.bind_eq, onLive, Proc.interp_bind, Proc.interp_attempt]
  refine wpc_seq_attempt (wp_flush hrounds) fun r t₁ _ hflushed => ?_
  obtain ⟨r, hpull⟩ := hflushed
  rw [Proc.bind_eq, Proc.interp_bind]
  refine wpc_seq (wpc_and (settles_flatten t₁) (wp_keeps _ hpull)) ?_ fun e _ _ h => by cases h.1
  rintro flattened t₂ - ⟨-, hpull⟩
  rw [Proc.bind_eq, Proc.interp_bind, Proc.interp_attempt]
  refine wpc_seq_attempt (wpc_and wp_emitControl (wp_keeps _ hpull)) ?_
  rintro r' t₃ - ⟨htold, hpull⟩
  exact ⟨trivial, rfl, ⟨_, hpull⟩, htold⟩

theorem onLive_guarded (p : Proc LiveI Exc α) :
    (onLive p).Only fun op => unguarded op = false :=
  Proc.Only.interp (Proc.only_true p) fun _ _ => Proc.along_perform rfl

theorem wp_shutdown (hrounds : 0 < en.live.service.rounds) (ht : Quiet t) :
    wp engineWorld en.shutdown (fun r t' => r.isOk = true ∧ Quiet t' ∧ ShutDown en t') t := by
  have hreason := wp_guarded (faithful_perform .stopReason fun _ _ h => h)
    (Proc.along_perform rfl) ht
  have hstop : (tryCall .schedulerStop).Only fun op => unguarded op = false :=
    Proc.Along.bind (Proc.along_perform (show unguarded .schedulerStop = false from rfl)).attempt
      fun _ => trivial
  refine wpc_seq hreason ?_ fun e _ _ h => by cases h.1
  rintro reason t₁ - ⟨-, ht₁⟩
  refine wpc_seq (wp_guarded (faithful_given (faithful_tryCall rfl)) (Proc.along_given hstop) ht₁)
    ?_ fun e _ _ h => by cases h.1
  rintro _ t₂ - ⟨-, ht₂⟩
  refine wpc_seq (wpc_and (wp_liveShutdown hrounds) (wp_quiet (onLive_guarded _) ht₂)) ?_
    fun e _ _ h => by cases h.1.1
  rintro flattened t₃ - ⟨⟨-, hdown⟩, ht₃⟩
  exact ⟨trivial, rfl, ht₃, hdown⟩

end Shutdown

/-- For every run that ends: it returns behind a shutdown that has flushed the outbox and
reported the stop, exactly when no unguarded call of any tick has raised. -/
theorem returns_iff_quiet {en : Engine} (hrounds : 0 < en.live.service.rounds) {maxTicks : ℕ}
    {out : Except Exc Unit} {t : List (Event EngineI Exc)}
    (exec : Exec engineWorld (en.run maxTicks) [] (some out) t) :
    (out.isOk = true ∧ ShutDown en t) ↔ Quiet t := by
  suffices h : wp engineWorld (en.run maxTicks)
      (fun r t' => (r.isOk = true ∧ ShutDown en t') ↔ Quiet t') [] from wp_sound exec h
  have hraised : ∀ {e : Exc} {t' : List (Event EngineI Exc)},
      ((.error e : Except Exc Unit).isOk = true ↔ Quiet t') →
        (((.error e : Except Exc Unit).isOk = true ∧ ShutDown en t') ↔ Quiet t') := fun h =>
    iff_of_false (fun hok => Bool.false_ne_true hok.1) (mt h.mpr Bool.false_ne_true)
  refine wpc_seq (faithful_start en [] fun e he => by cases he) ?_ fun e t' _ h => hraised h
  intro _ t₁ _ h₁
  refine wpc_seq (faithful_loop en maxTicks t₁ (h₁.mp rfl)) ?_ fun e t' _ h => hraised h
  intro _ t₂ _ h₂
  exact wpc_post (wp_shutdown hrounds (h₂.mp rfl)) fun r t' _ h =>
    iff_of_true ⟨h.1, h.2.2⟩ h.2.1

/-! ### One tick -/

/-- The executor's runtime, as it is put together: it has no source of prices. -/
def executorEngine : Engine where
  controlTick := ⟨false, true⟩
  live := LiveRuntime.executorRuntime
  reconciles := true
  outboxPath := some "fill_outbox.db"
  hasScheduler := false
  idleSleepSec := .ofRat 1

def unavailable : Exc := ⟨.other "OperationalError", [.lit "database is locked"]⟩

/-- The queue answers a poll as given. Nothing is on file, and nothing is open. -/
def pollAnswers (poll : Except Exc Stats) (op : EngineCall) : Except Exc op.Ans :=
  match op with
  | .tick .isStopped => .ok false
  | .tick .clock => .ok Moment.first
  | .tick .lastMessageAt => .ok none
  | .tick (.evaluate _ _) => .ok SafetyState.running
  | .tick .pollOnce => poll
  | .tick .priceSourceFn => .ok []
  | .tick (.evaluateAll _) => .ok []
  | .tick .sweep => .ok ()
  | .restart .getOpenTrades => .ok (.list [])
  | .restart (.register _) => .ok ()
  | .restart _ => .error unavailable
  | .live (.manager .trades) => .ok TradeBook.empty
  | .live (.service (.producer .uuid4)) => .ok "m-1"
  | .live (.service (.producer .utcNowIso)) => .ok "2026-07-21T10:00:00Z"
  | .live (.service (.producer (.outboxPull _ _))) => .ok []
  | .live (.service (.producer (.outboxPublish _ _))) => .ok ()
  | .live _ => .error unavailable
  | .installSignalHandlers => .ok ()
  | .stopReason => .ok none
  | .sleep _ => .ok ()
  | .schedulerStart => .ok ()
  | .schedulerStop => .ok ()

theorem works_pollAnswers (poll : Except Exc Stats) (op : EngineCall) :
    Works ⟨op, pollAnswers poll op⟩ := by
  unfold Works
  split <;> rename_i heq
  case h_7 =>
    cases heq
    rintro v ⟨⟩
    exact ⟨[], rfl, fun _ h => by cases h⟩
  case h_12 => trivial
  all_goals
    cases heq
    rfl

/-- One tick with this poll, and its record. -/
def polledRun (poll : Except Exc Stats) : Except Exc Unit × List (Event EngineI Exc) :=
  (executorEngine.run 1).run (World.record (pollAnswers poll)) []

theorem exec_polledRun (poll : Except Exc Stats) :
    Exec engineWorld (executorEngine.run 1) [] (some (polledRun poll).1) (polledRun poll).2 :=
  exec_run (fun op t => ⟨World.record_step _ op t, works_pollAnswers poll op⟩) _ []

theorem returns_iff_quiet_emptyPoll :
    (polledRun (.ok [])).1.isOk = true ∧ ShutDown executorEngine (polledRun (.ok [])).2 := by
  have hquiet : Quiet (polledRun (.ok [])).2 := by
    unfold Quiet
    decide +kernel
  exact (returns_iff_quiet (by decide) (exec_polledRun _)).mpr hquiet

/-- A call of the shutdown. -/
def isLive : EngineCall → Bool
  | .live _ => true
  | _ => false

/-- A poll that raises ends the run, and nothing is flushed. -/
theorem raisedPoll_not_shut_down :
    ∃ e t, Exec engineWorld (executorEngine.run 1) [] (some (.error e)) t ∧
      ¬ ShutDown executorEngine t := by
  have exec := exec_polledRun (.error unavailable)
  have hraised : (polledRun (.error unavailable)).1.isOk = false := by decide +kernel
  have hpull : ((polledRun (.error unavailable)).2.all fun e => !isLive e.1) = true := by
    decide +kernel
  cases hout : (polledRun (.error unavailable)).1 with
  | ok a =>
      rw [hout] at hraised
      cases hraised
  | error e =>
      rw [hout] at exec
      refine ⟨e, _, exec, ?_⟩
      rintro ⟨⟨r, hmem⟩, -⟩
      cases List.all_eq_true.mp hpull _ hmem

end Engine

end System2
