import System2.Execution.EmergencyStop
import System2.Execution.GracefulStop
import System2.Execution.MessageVerdict
import System2.Foundation.RunRecord

/-!
# Orders behind an emergency stop

A message is submitted once at most, a pull hands over no more messages than it was asked for,
and a poll is begun only behind a look that found no stop. So the orders that still go out
after a stop was asked for are those of one batch.
-/

namespace System2
open Foundation

/-! ### The submits of a poll -/

namespace Pipeline

variable {F : Type} {p : Pipeline} {order : ApprovedOrder}

/-- An order is submitted once at most. -/
theorem process_atMost (price : PyVal) (opens : List String) :
    (process (F := F) p order price opens).AtMost PipelineCall.isSubmit 1 := by
  have hasks : (p.gated (F := F) order price opens).Only
      fun op : PipelineCall F => op.isSubmit = false :=
    gated_only (fun _ _ => rfl) rfl fun _ => rfl
  rw [process_eq]
  refine (Proc.atMost_of_only hasks).bind (n := 1) fun passed => ?_
  cases passed with
  | inl refused => trivial
  | inr constructed =>
      rw [settle]
      split_ifs
      · trivial
      rw [submitAndRecord_eq]
      split_ifs
      · trivial
      refine (Proc.atMost_perform _).bind (n := 0) fun fill => Proc.atMost_of_only ?_
      refine recorded_records.mono fun op hop => ?_
      cases op with
      | submit c => exact hop.elim
      | _ => rfl

end Pipeline

namespace Consumer

variable {F : Type} {c : Consumer} {msg : ReceivedMessage} {now : Moment}

theorem call_atMost {op : ConsumerCall F} (hop : op.isSubmit = false) :
    (perform op).AtMost ConsumerCall.isSubmit 0 := Proc.atMost_of_only (Proc.along_perform hop)

theorem execute_atMost (order : ApprovedOrder) :
    (execute (F := F) c order).AtMost ConsumerCall.isSubmit 1 := by
  refine (call_atMost rfl).bind (n := 1) fun price => ?_
  refine (call_atMost rfl).bind (n := 1) fun opens => ?_
  refine (Pipeline.process_atMost price opens).interp fun op => ?_
  cases op with
  | submit constructed => exact Proc.atMost_perform _
  | _ => exact call_atMost rfl

/-- A message is submitted once at most. -/
theorem handle_atMost : (handle (F := F) c msg now).AtMost ConsumerCall.isSubmit 1 := by
  rw [handle_eq]
  have hassess : (assess (F := F) c msg now).AtMost ConsumerCall.isSubmit 1 := by
    refine (Proc.atMost_of_only (examine_asks.mono fun _ => asks_submitless)).bind (n := 1)
      fun finding => ?_
    cases finding with
    | verdict v => trivial
    | executable order => exact (execute_atMost order).attempt.bind (n := 0) fun _ => trivial
  exact hassess.bind (n := 0) fun v =>
    Proc.atMost_of_only ((conclude_settles v).mono fun _ => settles_submitless)

/-- A batch has a submit for each of its messages at most. -/
theorem handleBatch_atMost (batch : List ReceivedMessage) (stats : Stats) :
    (handleBatch (F := F) c now batch stats).AtMost ConsumerCall.isSubmit batch.length := by
  induction batch generalizing stats with
  | nil => trivial
  | cons msg rest ih =>
      rw [List.length_cons, Nat.add_comm]
      exact handle_atMost.bind fun outcome => ih _

end Consumer

namespace GuardedEngine

variable {g : GuardedEngine} {w : GuardedState}

/-! ### One poll -/

/-- A procedure with so many submits. -/
theorem wpc_late {α : Type} {p : Proc GuardedI Exc α} {n bound : ℕ} (hp : p.AtMost isSubmit n)
    (hw : w.late + n ≤ bound) :
    wpc (guardedWorld g) (fun w' => w'.late ≤ bound) p (fun _ w' => w'.late ≤ bound) w :=
  wpc_of_atMost (μ := GuardedState.late) (fun _ _ _ _ step => late_step step) hp hw

section Poll

/-- A call of the consumer inside the engine. -/
def consumerCall (g : GuardedEngine) (op : ConsumerCall FillResult) : Proc GuardedI Exc op.Ans :=
  onLive ((g.engine.live.service.wire op).interp g.engine.live.wire)

theorem onLive_pollOnce (g : GuardedEngine) :
    onLive (g.engine.live.service.pollOnce.interp g.engine.live.wire) =
      g.engine.live.service.consumer.pollOnce.interp g.consumerCall := by
  rw [onLive, ConsumerService.pollOnce, Proc.interp_interp, Proc.interp_interp]
  exact congrArg (fun h => Proc.interp h _) (funext fun op => (Proc.interp_interp _ _ _).symm)

/-- The live runtime's calls but the submit. -/
def submitless (op : LiveCall) : Prop := LiveRuntime.isSubmit op = false

theorem onLive_submitless {α : Type} {p : Proc LiveI Exc α} (hp : p.Only submitless) :
    (onLive p).Only fun op => isSubmit op = false :=
  hp.interp fun _ hop => Proc.along_perform hop

theorem askMonitor_submitless {α : Type} (p : Proc MonitorI Exc α) :
    (LiveRuntime.askMonitor p).Only submitless :=
  Proc.Only.interp p.only_true fun _ _ => Proc.along_perform rfl

theorem registerOnFill_submitless {rt : LiveRuntime} {order : ApprovedOrder} {c : ConstructedOrder}
    {fill : FillResult} : (rt.registerOnFill order c fill).Only submitless := by
  unfold LiveRuntime.registerOnFill
  cases managedTradeId fill with
  | none => trivial
  | some id =>
      refine (Proc.along_ofExcept _).bind fun opened => ?_
      cases opened with
      | some t => exact Proc.along_perform rfl
      | none => exact Proc.Along.bind (Proc.along_perform rfl) fun _ => Proc.along_perform rfl

theorem wire_submitless {rt : LiveRuntime} {op : ServiceCall}
    (hop : ConsumerService.isSubmit op = false) : (rt.wire op).Only submitless := by
  cases op with
  | queue call => exact Proc.along_perform rfl
  | producer call =>
      cases call with
      | registerTrade order c fill => exact registerOnFill_submitless
      | _ => exact Proc.along_perform rfl
  | consumer call =>
      cases call with
      | submitGateFn => exact Proc.Along.bind (Proc.along_perform rfl) fun _ => trivial
      | heartbeatFn sentAt => exact askMonitor_submitless _
      | openInstrumentsFn => exact Proc.Along.bind (Proc.along_perform rfl) fun _ => trivial
      | pipeline call =>
          cases call with
          | submit c => cases hop
          | _ => exact Proc.along_perform rfl
      | _ => exact Proc.along_perform rfl

theorem consumerCall_atMost (op : ConsumerCall FillResult) :
    (g.consumerCall op).AtMost isSubmit (if op.isSubmit then 1 else 0) := by
  have hquiet : ∀ {op : ConsumerCall FillResult}, op.isSubmit = false →
      (g.consumerCall op).AtMost isSubmit 0 := fun hop =>
    Proc.atMost_of_only (onLive_submitless
      (Proc.Only.interp (ConsumerService.wire_quiet hop) fun _ h => wire_submitless h))
  cases op with
  | pipeline call =>
      cases call with
      | submit c =>
          have hservice : g.engine.live.service.wire (.pipeline (.submit c)) =
            ConsumerService.perform (.consumer (.pipeline (.submit c))) := rfl
          have hlive : g.engine.live.wire (.consumer (.pipeline (.submit c))) =
            LiveRuntime.perform (.service (.consumer (.pipeline (.submit c)))) := rfl
          rw [consumerCall, hservice, ConsumerService.perform,
            Proc.interp_perform (I := ServiceI), hlive, onLive, LiveRuntime.perform,
            Proc.interp_perform (I := LiveI)]
          exact Proc.atMost_perform _
      | _ => exact hquiet rfl
  | _ => exact hquiet rfl

theorem leaseRows_length (b : LocalDurableBackend) (subscription : String)
    {allowed : (op : QueueCall) → Except Exc op.Ans → Prop} (rows : List Picked) :
    (b.leaseRows subscription rows).Yields allowed fun out => out.length ≤ rows.length := by
  induction rows with
  | nil => exact Nat.le_refl 0
  | cons row rest ih =>
      refine (Proc.yields_true _).bind fun ackId _ => ?_
      refine (Proc.yields_true _).bind fun claimed _ => ?_
      split_ifs
      · refine (Proc.yields_true _).bind fun body _ => ih.bind fun out hout => ?_
        exact Nat.succ_le_succ hout
      · rw [← Proc.bind_ret (b.leaseRows subscription rest)]
        exact ih.bind fun out hout => Nat.le_succ_of_le hout

/-- A pull hands over no more messages than it was asked for. -/
theorem pull_length (b : LocalDurableBackend) (subscription : String) {n : ℤ} (hn : 0 ≤ n) :
    (b.pull subscription n).Yields Limits fun out => out.length ≤ n.toNat := by
  refine (Proc.yields_true _).bind fun _ _ => (Proc.yields_true _).bind fun now _ => ?_
  have hselect : (LocalDurableBackend.perform (.selectAvailable subscription now n)).Yields Limits
      fun rows => rows.length ≤ n.toNat := Proc.yields_perform fun rows h => h hn rows rfl
  refine hselect.bind fun rows hrows => ?_
  rw [← Proc.bind_ret (b.leaseRows subscription rows)]
  exact (leaseRows_length b subscription rows).bind fun out hout => Nat.le_trans hout hrows

theorem consumerCall_pull (subscription : String) (n : ℤ) :
    g.consumerCall (.pull subscription n) =
      (g.engine.live.service.backend.pull subscription n).interp fun call =>
        perform (.engine (.live (.service (.queue call)))) := by
  have hcall : ∀ call : QueueCall,
      (g.engine.live.wire (.queue call)).interp (fun call => perform (.engine (.live call))) =
        perform (.engine (.live (.service (.queue call)))) := fun call => by
    have hlive : g.engine.live.wire (.queue call) = LiveRuntime.perform (.service (.queue call)) :=
      rfl
    rw [hlive, LiveRuntime.perform, Proc.interp_perform (I := LiveI)]
  rw [consumerCall, onLive, ConsumerService.wire, ConsumerService.onQueue, Proc.interp_interp,
    Proc.interp_interp]
  refine congrArg (fun h => Proc.interp h _) (funext fun call => ?_)
  rw [ConsumerService.perform, Proc.interp_perform (I := ServiceI)]
  exact hcall call

/-- A poll submits no more orders than it prefetches. -/
theorem wpc_pollOnce {bound : ℕ} (hprefetch : 0 ≤ g.engine.live.service.consumer.prefetch)
    (hw : w.late + g.engine.live.service.consumer.prefetch.toNat ≤ bound) :
    wpc (guardedWorld g) (fun w' => w'.late ≤ bound)
      (onLive (g.engine.live.service.pollOnce.interp g.engine.live.wire))
      (fun _ w' => w'.late ≤ bound) w := by
  set n := g.engine.live.service.consumer.prefetch.toNat with hn
  have hfree : ∀ {op : ConsumerCall FillResult} {w₁ : GuardedState}, op.isSubmit = false →
      w₁.late + n ≤ bound → wpc (guardedWorld g) (fun w' => w'.late ≤ bound) (g.consumerCall op)
        (fun _ w' => w'.late + n ≤ bound) w₁ := by
    intro op w₁ hop hw₁
    have hcall := g.consumerCall_atMost op
    rw [if_neg (by simp [hop])] at hcall
    have hleft : w₁.late + 0 ≤ bound - n := by omega
    exact wpc_mono (wpc_late hcall hleft) (fun _ h => by omega) fun _ _ _ h => by omega
  rw [onLive_pollOnce, Consumer.pollOnce, Proc.bind_eq, Consumer.perform,
    Proc.interp_perform_bind (I := ConsumerI FillResult)]
  refine wpc_seq (hfree rfl hw) ?_ fun _ _ h _ => h
  intro now w₁ _ hw₁
  rw [Proc.bind_eq, Consumer.perform, Proc.interp_perform_bind (I := ConsumerI FillResult)]
  refine wpc_seq (hfree rfl hw₁) ?_ fun _ _ h _ => h
  intro _ w₂ _ hw₂
  rw [Proc.bind_eq, Proc.interp_bind, Proc.interp_attempt, Consumer.perform,
    Proc.interp_perform (I := ConsumerI FillResult)]
  have hyields : (g.consumerCall (.pull g.engine.live.service.consumer.subscription
      g.engine.live.service.consumer.prefetch)).Yields Answers fun out => out.length ≤ n := by
    rw [consumerCall_pull]
    exact (pull_length _ _ hprefetch).interp fun op => Proc.yields_attempt_perform _
  have hworld : ∀ w op r w', guardedWorld g w op r w' → Answers op r := by
    rintro _ _ _ _ ⟨_, _, _, hanswers, _⟩
    exact hanswers
  refine wpc_seq_attempt (wpc_of_yields hworld hyields (hfree rfl hw₂)) ?_
  rintro r w₃ hbound ⟨hw₃, hlength⟩
  cases r with
  | error e => exact ⟨hbound, hbound⟩
  | ok batch =>
      have hle := hlength batch rfl
      exact wpc_late ((Consumer.handleBatch_atMost batch []).interp g.consumerCall_atMost)
        (by omega)

end Poll

/-! ### The loop -/

section Loop

variable {α β : Type}

/-- The calls of an engine outside its stop, its polls and its live runtime. -/
def aside : EngineCall → Prop
  | .tick .isStopped => False
  | .tick .pollOnce => False
  | .live _ => False
  | .stopReason => False
  | _ => True

theorem wire_aside {op : EngineCall} (hop : aside op) :
    (g.wire op).Only fun op => isSubmit op = false := by
  cases op with
  | tick call =>
      cases call with
      | isStopped => exact hop.elim
      | pollOnce => exact hop.elim
      | _ => exact Proc.along_perform rfl
  | live call => exact hop.elim
  | stopReason => exact hop.elim
  | _ => exact Proc.along_perform rfl

theorem aside_submitless {p : Proc EngineI Exc α} (hp : p.Only aside) :
    (p.interp g.wire).Only fun op => isSubmit op = false :=
  Proc.Only.interp hp fun _ hop => wire_aside hop

/-- No more late submits than a poll has, and none before a request. -/
structure Bounded (g : GuardedEngine) (w : GuardedState) : Prop where
  prompt : g.Prompt w
  late : w.late ≤ g.engine.live.service.consumer.prefetch.toNat

theorem wpc_bounded {p : Proc GuardedI Exc α} (h : g.Bounded w)
    (hp : p.Only fun op => isSubmit op = false) :
    wpc (guardedWorld g) g.Bounded p (fun _ w' => g.Bounded w') w := by
  have hlate := wpc_late (g := g) (Proc.atMost_of_only hp) (w := w) h.late
  refine wpc_mono (wpc_both (wpc_prompt p h.prompt) hlate) ?_ ?_
  · exact fun _ hc => ⟨hc.1, hc.2⟩
  · exact fun _ _ _ hq => ⟨hq.1, hq.2⟩

/-- A look at the stop. Where it finds none, nothing is late. -/
theorem wpc_look (h : g.Bounded w) :
    wpc (guardedWorld g) g.Bounded (g.wire (.tick .isStopped))
      (fun r w' => g.Bounded w' ∧ (r = .ok false → w'.late = 0)) w := by
  have hstop : (onStop g.stop.isStopped).Only fun op => isSubmit op = false :=
    Proc.Only.interp (Proc.only_true _) fun _ _ => Proc.along_perform rfl
  have hlate := wpc_late (g := g) (Proc.atMost_of_only hstop) (w := w) (Nat.le_refl _)
  refine wpc_mono (wpc_both (wpc_bounded h hstop) (wpc_both hlate (wpc_isStopped w))) ?_ ?_
  · exact fun _ hc => hc.1
  · rintro r w' - ⟨hbounded, hle, hlook⟩
    refine ⟨hbounded, fun hr => ?_⟩
    have hzero := h.prompt (hlook hr)
    omega

/-- A poll behind a look that found no stop. -/
theorem wpc_poll (hprefetch : 0 ≤ g.engine.live.service.consumer.prefetch) (h : g.Prompt w)
    (hzero : w.late = 0) :
    wpc (guardedWorld g) g.Bounded (g.wire (.tick .pollOnce)) (fun _ w' => g.Bounded w') w := by
  have hroom : w.late + g.engine.live.service.consumer.prefetch.toNat ≤
      g.engine.live.service.consumer.prefetch.toNat := by omega
  have hlate := wpc_pollOnce hprefetch hroom
  refine wpc_mono (wpc_both (wpc_prompt _ h) hlate) ?_ ?_
  · exact fun _ hc => ⟨hc.1, hc.2⟩
  · exact fun _ _ _ hq => ⟨hq.1, hq.2⟩

/-- Calls on the way from a look to a poll. -/
theorem wpc_between {p : Proc GuardedI Exc α} (h : g.Bounded w) (hzero : w.late = 0)
    (hp : p.Only fun op => isSubmit op = false) :
    wpc (guardedWorld g) g.Bounded p (fun _ w' => g.Bounded w' ∧ w'.late = 0) w := by
  have hlate := wpc_late (g := g) (Proc.atMost_of_only hp) (w := w) (Nat.le_of_eq hzero)
  refine wpc_mono (wpc_both (wpc_bounded h hp) hlate) ?_ ?_
  · exact fun _ hc => hc.1
  · exact fun _ _ _ hq => ⟨hq.1, Nat.le_zero.mp hq.2⟩

theorem manage_aside (ct : ControlTick) : (Engine.onTick ct.manage).Only aside := by
  unfold ControlTick.manage Engine.onTick
  split_ifs
  · rw [Proc.bind_eq, ControlTick.perform, Proc.interp_perform_bind (I := TickI)]
    refine (Proc.along_perform trivial).bind fun prices => ?_
    split_ifs
    · trivial
    · rw [ControlTick.perform, Proc.interp_perform (I := TickI)]
      exact Proc.along_perform trivial
  · trivial

theorem sweepCloses_aside (ct : ControlTick) : (Engine.onTick ct.sweepCloses).Only aside := by
  unfold ControlTick.sweepCloses Engine.onTick Proc.given
  split_ifs
  · rw [Proc.bind_eq, Proc.interp_bind, Proc.interp_attempt, ControlTick.perform,
      Proc.interp_perform (I := TickI)]
    exact (Proc.along_perform trivial).attempt.bind fun _ => trivial
  · trivial

/-- One tick of the loop. -/
theorem wpc_tick (hprefetch : 0 ≤ g.engine.live.service.consumer.prefetch) (h : g.Bounded w)
    (ct : ControlTick) :
    wpc (guardedWorld g) g.Bounded ((Engine.onTick ct.tick).interp g.wire)
      (fun _ w' => g.Bounded w') w := by
  unfold ControlTick.tick Engine.onTick
  have hcall : ∀ (call : TickCall) (f : call.Ans → Proc TickI Exc (Option TickResult)),
      (((Proc.perform (I := TickI) call).bind f).interp
        (fun call => Engine.perform (.tick call))).interp g.wire =
          (g.wire (.tick call)).bind fun a =>
            ((f a).interp fun call => Engine.perform (.tick call)).interp g.wire := by
    intro call f
    rw [Proc.interp_perform_bind (I := TickI), Engine.perform,
      Proc.interp_perform_bind (I := EngineI)]
  have hbetween : ∀ {call : TickCall} {w : GuardedState}, aside (.tick call) → g.Bounded w →
      w.late = 0 → wpc (guardedWorld g) g.Bounded (g.wire (.tick call))
        (fun _ w' => g.Bounded w' ∧ w'.late = 0) w :=
    fun hop hw hzero => wpc_between hw hzero (wire_aside hop)
  simp only [Proc.bind_eq, ControlTick.perform]
  rw [hcall .isStopped]
  refine wpc_seq (wpc_look h) ?_ fun _ _ _ hq => hq.1
  rintro stopped w₁ - ⟨h₁, hclear⟩
  cases stopped with
  | true => exact ⟨h₁, h₁⟩
  | false =>
      simp only [Bool.false_eq_true, if_false]
      rw [hcall .clock]
      refine wpc_seq (hbetween trivial h₁ (hclear rfl)) ?_ fun _ _ _ hq => hq.1
      rintro now w₂ - ⟨h₂, hzero₂⟩
      rw [hcall .lastMessageAt]
      refine wpc_seq (hbetween trivial h₂ hzero₂) ?_ fun _ _ _ hq => hq.1
      rintro lastMessageAt w₃ - ⟨h₃, hzero₃⟩
      rw [hcall (.evaluate lastMessageAt now)]
      refine wpc_seq (hbetween trivial h₃ hzero₃) ?_ fun _ _ _ hq => hq.1
      rintro state w₄ - ⟨h₄, hzero₄⟩
      rw [hcall .pollOnce]
      refine wpc_seq (wpc_poll hprefetch h₄.prompt hzero₄) ?_ fun _ _ _ hq => hq
      rintro consume w₅ - h₅
      rw [Proc.interp_bind, Proc.interp_bind]
      refine wpc_seq (wpc_bounded h₅ (aside_submitless (manage_aside ct))) ?_ fun _ _ _ hq => hq
      rintro managed w₆ - h₆
      rw [Proc.interp_bind, Proc.interp_bind]
      refine wpc_seq (wpc_bounded h₆ (aside_submitless (sweepCloses_aside ct))) ?_
        fun _ _ _ hq => hq
      exact fun _ w₇ _ h₇ => ⟨h₇, h₇⟩

/-- The loop, by induction on the ticks that are left. -/
theorem wpc_loop (hprefetch : 0 ≤ g.engine.live.service.consumer.prefetch) (ticks : ℕ)
    (h : g.Bounded w) :
    wpc (guardedWorld g) g.Bounded ((g.engine.loop ticks).interp g.wire)
      (fun _ w' => g.Bounded w') w := by
  induction ticks generalizing w with
  | zero =>
      rw [Engine.loop, Proc.bind_eq, Engine.perform, Proc.interp_perform_bind (I := EngineI)]
      exact wpc_seq (wpc_look h) (fun _ _ _ hq => ⟨hq.1, hq.1⟩) fun _ _ _ hq => hq.1
  | succ ticks ih =>
      rw [Engine.loop, Proc.bind_eq, Engine.perform, Proc.interp_perform_bind (I := EngineI)]
      refine wpc_seq (wpc_look h) ?_ fun _ _ _ hq => hq.1
      rintro stopped w₁ - ⟨h₁, -⟩
      cases stopped with
      | true => exact ⟨h₁, h₁⟩
      | false =>
          simp only [Bool.false_eq_true, if_false, Proc.bind_eq]
          rw [Proc.interp_bind]
          refine wpc_seq (wpc_tick hprefetch h₁ _) ?_ fun _ _ _ hq => hq
          intro res w₂ _ h₂
          rw [Proc.interp_bind]
          refine wpc_seq (wpc_bounded h₂ (aside_submitless
            (Proc.along_given (Proc.along_perform trivial)))) ?_ fun _ _ _ hq => hq
          exact fun _ w₃ _ h₃ => ih h₃

end Loop

/-! ### The start and the shutdown -/

section Ends

variable {rt : LiveRuntime}

theorem start_aside (en : Engine) : en.start.Only aside := by
  have hcall : ∀ op : EngineCall, aside op → (Engine.perform op).Only aside :=
    fun _ hop => Proc.along_perform hop
  refine (hcall .installSignalHandlers trivial).bind fun _ => ?_
  refine Proc.Along.bind (Proc.along_given ?_) fun _ => Proc.along_given ?_
  · have hreconcile : (Engine.onRestart (StartupReconcile.startupReconcile
        en.live.service.consumer.host en.outboxPath)).Only aside :=
      Proc.Only.interp (Proc.only_true _) fun _ _ => Proc.along_perform trivial
    exact hreconcile.bind fun _ => trivial
  · exact (hcall .schedulerStart trivial).attempt.bind fun _ => trivial

theorem onProducer_submitless {α : Type} (p : Proc ProducerI Exc α) :
    (rt.onProducer p).Only submitless :=
  Proc.Only.interp (Proc.Only.interp (Proc.only_true p) fun op _ =>
    ConsumerService.wireProducer_quiet op) fun _ hop => wire_submitless hop

theorem onTracker_submitless {α : Type} (p : Proc CloseI Exc α) :
    (LiveRuntime.onTracker p).Only submitless :=
  Proc.Only.interp (Proc.only_true p) fun _ _ => Proc.along_perform rfl

theorem flattenTrade_submitless (t : ManagedTrade) : (rt.flattenTrade t).Only submitless := by
  have hclosing : Proc.Only submitless (do
      let resp ← LiveRuntime.perform (.manager (.closeTrade t.brokerTradeId))
      let _ ← LiveRuntime.perform (.manager (.putTrade { t with closed := true }))
      return resp) :=
    Proc.Along.bind (Proc.along_perform rfl) fun resp =>
      Proc.Along.bind (Proc.along_perform rfl) fun _ => trivial
  refine hclosing.attempt.bind fun r => ?_
  cases r with
  | error e => trivial
  | ok resp => exact (onTracker_submitless _).attempt.bind fun _ => trivial

theorem flattenAll_submitless (trades : List ManagedTrade) :
    (rt.flattenAll trades).Only submitless := by
  induction trades with
  | nil => trivial
  | cons t rest ih =>
      unfold LiveRuntime.flattenAll
      split_ifs
      · exact ih
      · exact (flattenTrade_submitless t).bind fun _ => ih.bind fun _ => trivial

theorem shutdown_submitless (reason : String) : (rt.shutdown reason).Only submitless := by
  refine (onProducer_submitless _).attempt.bind fun _ => Proc.Along.bind ?_ fun flattened =>
    (onProducer_submitless _).attempt.bind fun _ => trivial
  unfold LiveRuntime.flatten
  split_ifs
  · exact Proc.Along.bind (Proc.along_perform rfl) fun book => flattenAll_submitless _
  · trivial

theorem wire_shutdown_submitless (g : GuardedEngine) :
    (g.engine.shutdown.interp g.wire).Only fun op => isSubmit op = false := by
  have hcall : ∀ {op : EngineCall}, aside op → ((Engine.perform op).interp g.wire).Only
      fun op => isSubmit op = false := fun hop => by
    rw [Engine.perform, Proc.interp_perform (I := EngineI)]
    exact wire_aside hop
  have hlive : ∀ reason, ((Engine.onLive (g.engine.live.shutdown reason)).interp g.wire).Only
      fun op => isSubmit op = false := by
    intro reason
    have hwired : (Engine.onLive (g.engine.live.shutdown reason)).interp g.wire =
        onLive (g.engine.live.shutdown reason) := by
      rw [Engine.onLive, Proc.interp_interp, onLive]
      refine congrArg (fun h => Proc.interp h _) (funext fun call => ?_)
      rw [Engine.perform, Proc.interp_perform (I := EngineI)]
      rfl
    rw [hwired]
    exact onLive_submitless (shutdown_submitless reason)
  rw [Engine.shutdown, Proc.bind_eq, Engine.perform, Proc.interp_perform_bind (I := EngineI)]
  refine Proc.Along.bind (Proc.Only.interp (Proc.only_true _) fun _ _ => Proc.along_perform rfl)
    fun reason => ?_
  simp only [Proc.bind_eq, Proc.interp_bind]
  refine Proc.Along.bind ?_ fun _ => (hlive _).bind fun _ => trivial
  exact aside_submitless (Proc.along_given ((Proc.along_perform trivial).attempt.bind
    fun _ => trivial))

end Ends

/-- For every run of the engine, complete or not, with the stop asked for by anyone at any time:
no more orders are submitted from then on than one poll prefetches. -/
theorem late_le_prefetch {g : GuardedEngine}
    (hprefetch : 0 ≤ g.engine.live.service.consumer.prefetch) {maxTicks : ℕ} {s : LatchState}
    {out : Option (Except Exc Unit)} {w : GuardedState}
    (exec : Exec (guardedWorld g) (g.run maxTicks) ⟨s, 0⟩ out w) :
    (w.late : ℤ) ≤ g.engine.live.service.consumer.prefetch := by
  have hrun : wpc (guardedWorld g) g.Bounded (g.run maxTicks) (fun _ w' => g.Bounded w') ⟨s, 0⟩ := by
    rw [run, Engine.run, Proc.bind_eq, Proc.interp_bind]
    have hstart : g.Bounded ⟨s, 0⟩ := ⟨fun _ => rfl, Nat.zero_le _⟩
    refine wpc_seq (wpc_bounded hstart (aside_submitless (start_aside _))) ?_ fun _ _ _ hq => hq
    rintro _ w₁ - h₁
    rw [Proc.bind_eq, Proc.interp_bind]
    refine wpc_seq (wpc_loop hprefetch maxTicks h₁) ?_ fun _ _ _ hq => hq
    exact fun _ w₂ _ h₂ => wpc_bounded h₂ (wire_shutdown_submitless g)
  have hlate := (wpc_sound exec hrun).1.late
  omega

/-! ### A stop while an order goes out -/

/-- The executor's engine, with a stop that has no file. -/
def executorGuarded : GuardedEngine := ⟨Engine.executorEngine, .ofPath none⟩

/-- One order is there, every hook works, and the queue file stands still. -/
def pressedAnswer (s : LatchState) : (op : GuardedCall) → Except Exc op.Ans
  | .stop .isSet => .ok s.latched
  | .stop .set => .ok ()
  | .stop (.setReason _) => .ok ()
  | .stop .getReason => .ok s.reason
  | .stop .sentinelExists => .ok s.sentinel
  | .engine (.live (.service call)) =>
      (LiveRuntime.tradingDay.env call ConsumerService.buyArrived).1
  | .engine (.live (.monitor .get)) => .ok ⟨.running, none, Moment.first, none, none⟩
  | .engine call => Engine.pollAnswers (.ok []) call

/-- The latch is set from outside, just before an order is submitted. -/
def pressed (op : GuardedCall) (w : GuardedState) : Except Exc op.Ans × GuardedState :=
  (pressedAnswer w.stop op, match op with
    | .stop .set => ⟨{ w.stop with latched := true }, w.late⟩
    | .stop (.setReason text) => ⟨{ w.stop with reason := some text }, w.late⟩
    | .stop _ => w
    | .engine call =>
        if isSubmit (.engine call) then ⟨{ w.stop with latched := true }, w.late + 1⟩ else w)

theorem limits_still (now : Binary64) (file : QueueFile) (op : QueueCall) :
    Limits op (still now op file).1 := by
  cases op with
  | selectAvailable subscription now limit =>
      intro hlimit rows hrows
      rw [← Except.ok.inj hrows, List.length_map, limited, if_neg (by omega)]
      exact List.length_take_le _ _
  | _ => trivial

theorem answers_pressed (s : LatchState) (op : GuardedCall) : Answers op (pressedAnswer s op) := by
  cases op with
  | stop call => trivial
  | engine call =>
      cases call with
      | live call =>
          cases call with
          | service call =>
              cases call with
              | queue call => exact limits_still _ _ call
              | _ => trivial
          | _ => trivial
      | _ => trivial

theorem pressed_step (op : GuardedCall) (w : GuardedState) :
    guardedWorld executorGuarded w op (pressed op w).1 (pressed op w).2 := by
  cases op with
  | stop call =>
      refine ⟨w.stop, .nothing, ?_, trivial, ?_⟩
      · cases call <;> simp [pressed, isSubmit]
      · cases call with
        | sentinelExists => exact ⟨fun b hb => (Except.ok.inj hb).symm, rfl⟩
        | _ => exact ⟨rfl, rfl⟩
  | engine call =>
      cases hsubmit : isSubmit (.engine call) with
      | true =>
          refine ⟨{ w.stop with latched := true }, .latched .nothing, ?_, answers_pressed _ _, ?_⟩
          · have hreq : executorGuarded.stop.Requested { w.stop with latched := true } := Or.inl rfl
            simp [pressed, hsubmit, hreq]
          · simp [pressed, hsubmit]
      | false =>
          refine ⟨w.stop, .nothing, ?_, answers_pressed _ _, ?_⟩
          · simp [pressed, hsubmit]
          · simp [pressed, hsubmit]

def pressedRun : Except Exc Unit × GuardedState :=
  (executorGuarded.run 2).run pressed ⟨⟨false, none, false⟩, 0⟩

theorem late_le_prefetch_pressed :
    pressedRun.2.late = 1 ∧ (pressedRun.2.late : ℤ) ≤
      executorGuarded.engine.live.service.consumer.prefetch :=
  ⟨by decide +kernel, late_le_prefetch (by decide) (exec_run pressed_step _ _)⟩

end GuardedEngine

end System2
