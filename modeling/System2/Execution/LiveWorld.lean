import System2.Execution.LiveRuntime
import System2.Execution.DarkRuntime

/-!
# The world of the wired runtime

The runtime's memory is its book, its monitor and the processed store; the calls of the
consumer's hooks are marked. Wired into the runtime, each call of the consumer does no more
than the live hooks allow.
-/

namespace System2
open Foundation

/-- A call of a hook of the consumer, with the safety state and the number of open trades at
that time. -/
structure Mark where
  call : Event (ConsumerI FillResult) Exc
  state : SafetyState
  openTrades : ℕ

/-- What a runtime remembers: its book, its monitor, the processed store. The marks are the
record of the hooks' calls. -/
structure LiveState where
  book : TradeBook
  monitor : MonitorState
  store : List String
  marks : List Mark

namespace LiveState

/-- The state with one more call on record. -/
def mark (w : LiveState) (call : Event (ConsumerI FillResult) Exc) : LiveState :=
  { w with marks := w.marks ++ [⟨call, w.monitor.state, w.book.openCount⟩] }

end LiveState

/-- The processed store tells the truth when it answers. -/
def Truthful (store : List String) : (op : ConsumerCall FillResult) → Except Exc op.Ans → Prop
  | .pipeline (.seen key), r => ∀ b, r = .ok b → b = decide (key ∈ store)
  | _, _ => True

/-- Only a mark changes the store, and it may fail. -/
def Stores (store : List String) : ConsumerCall FillResult → List String → Prop
  | .pipeline (.mark key), store' => store' = store ∨ store' = key :: store
  | _, store' => store' = store

/-- The hooks answer anything but for the store, and their calls are marked. -/
def hookWorld : World (ConsumerI FillResult) Exc LiveState := fun w op r w' =>
  Truthful w.store op r ∧
    ∃ store, Stores w.store op store ∧ w' = { w.mark ⟨op, r⟩ with store := store }

/-- The runtime's own book and monitor are read and written exactly, everything else answers
anything. -/
def liveWorld : World LiveI Exc LiveState := fun w op r w' =>
  match op with
  | .service (.consumer call) => hookWorld w call r w'
  | .monitor call => ∃ s, monitorWorld w.monitor call r s ∧ w' = { w with monitor := s }
  | .manager .trades => r = .ok w.book ∧ w' = w
  | .manager (.putTrade t) => w' = { w with book := w.book.put t }
  | .sweeper .trades => r = .ok w.book ∧ w' = w
  | .sweeper (.putTrade t) => w' = { w with book := w.book.put t }
  | .register t => w' = { w with book := w.book.register t }
  | _ => w' = w

/-- The consumer's calls as the wired runtime answers them. -/
def liveHooks : World (ConsumerI FillResult) Exc LiveState := fun w op r w' =>
  match op with
  | .submitGateFn => (∀ b, r = .ok b → b = w.monitor.canSubmit) ∧ w' = w
  | .heartbeatFn _ => ∃ s, s.state = w.monitor.state ∧ w' = { w with monitor := s }
  | .openInstrumentsFn => (∀ opens, r = .ok opens → opens = w.book.openInstruments) ∧ w' = w
  | .emitFn order _ _ => w' = w ∨
      ∃ t, t.instrument = order.instrument ∧ w' = { w with book := w.book.register t }
  | .pull _ _ => w' = w
  | .ack _ => w' = w
  | .nack _ _ => w' = w
  | .toDlq _ _ => w' = w
  | op => hookWorld w op r w'

namespace LiveRuntime

variable {rt : LiveRuntime} {C : LiveState → Prop} {w : LiveState}

/-! ### The wiring -/

/-- The calls that leave the runtime's memory alone. -/
def isAside : LiveCall → Prop
  | .service (.queue _) => True
  | .service (.producer _) => True
  | .utcNow => True
  | _ => False

theorem wpc_asideOnly {α : Type} {p : Proc LiveI Exc α} {Q : Except Exc α → LiveState → Prop}
    (hp : p.Only isAside) (hc : C w) (hQ : ∀ r, Q r w) : wpc liveWorld C p Q w := by
  refine wpc_mono (wpc_of_only (P := isAside) (J := (· = w)) ?_ hp rfl) ?_ ?_
  · rintro op u r u' hop rfl step
    cases op with
    | service call =>
        cases call with
        | consumer call => exact absurd hop id
        | producer call => exact step
        | queue call => exact step
    | utcNow => exact step
    | monitor call => exact absurd hop id
    | manager call => exact absurd hop id
    | sweeper call => exact absurd hop id
    | register t => exact absurd hop id
  · rintro _ rfl
    exact hc
  · rintro r _ - rfl
    exact hQ r

theorem onQueue_aside {α : Type} (p : Proc QueueI Exc α) :
    ((ConsumerService.onQueue p).interp rt.wire).Only isAside :=
  Proc.Only.interp (P := fun op : ServiceCall => ∃ call, op = .queue call)
    (Proc.Only.interp (Proc.only_true p) fun call _ => Proc.along_perform ⟨call, rfl⟩) <| by
      rintro _ ⟨call, rfl⟩
      exact Proc.along_perform trivial

/-- The fill producer's calls but the registration. -/
def unregistering : ProducerCall → Prop
  | .registerTrade _ _ _ => False
  | _ => True

theorem wireProducer_aside {op : ProducerCall} (hop : unregistering op) :
    ((ConsumerService.wireProducer op).interp rt.wire).Only isAside := by
  have hserved : ∀ {op : ProducerCall}, (rt.wire (.producer op)).Only isAside →
      ((Proc.perform (I := ServiceI) (.producer op)).interp rt.wire).Only isAside := fun h => by
    rw [Proc.interp_perform]
    exact h
  cases op with
  | queuePublish topic body => exact onQueue_aside _
  | registerTrade order c fill => exact absurd hop id
  | _ => exact hserved (Proc.along_perform trivial)

theorem unregistering_of_delivers (op : ProducerCall) (h : FillProducer.Delivers op) :
    unregistering op := by
  cases op with
  | registerTrade order c fill => exact h
  | _ => exact trivial

theorem flush_unregistering (p : FillProducer) (rounds : ℕ) :
    (p.flush rounds).Only unregistering :=
  (FillProducer.flush_delivers p rounds).mono unregistering_of_delivers

theorem publishFill_unregistering (p : FillProducer) (rounds : ℕ) (order : ApprovedOrder)
    (fill : FillResult) : (p.publishFill rounds order fill).Only unregistering :=
  FillProducer.only_publishFill trivial trivial (fun _ _ => trivial) unregistering_of_delivers

/-- Register-on-fill registers at most one trade, in the order's instrument. -/
theorem wpc_registerOnFill {order : ApprovedOrder} {c : ConstructedOrder} {fill : FillResult}
    {Q : Except Exc Unit → LiveState → Prop} (hc : C w)
    (hQ : ∀ r w', (w' = w ∨
      ∃ t, t.instrument = order.instrument ∧ w' = { w with book := w.book.register t }) →
        C w' ∧ Q r w') :
    wpc liveWorld C (rt.registerOnFill order c fill) Q w := by
  unfold registerOnFill
  cases managedTradeId fill with
  | none => exact hQ _ _ (Or.inl rfl)
  | some id =>
      have hregister : ∀ openTime, wpc liveWorld C
          (perform (.register (managedTradeFromFill order (some c) fill id openTime))) Q w :=
        fun openTime => wpc_of_perform hc fun r w' step => hQ r w' (Or.inr ⟨_, rfl, step⟩)
      simp only [Proc.bind_eq]
      refine (wpc_bind _ _ _ _).mpr ((wpc_ofExcept _ _ _).mpr ⟨hc, ?_⟩)
      cases parseTime rt.service.consumer.host fill.fillTime with
      | error e => exact (hQ _ w (Or.inl rfl)).2
      | ok openTime =>
          cases openTime with
          | some t => exact hregister t
          | none =>
              refine (wpc_bind _ _ _ _).mpr (wpc_of_perform hc fun r w' step => ?_)
              obtain rfl : w' = w := step
              cases r with
              | error e => exact ⟨hc, (hQ _ w' (Or.inl rfl)).2⟩
              | ok t => exact ⟨hc, hregister t⟩

theorem wpc_emitFill {order : ApprovedOrder} {c : ConstructedOrder} {fill : FillResult}
    {Q : Except Exc Unit → LiveState → Prop} (hc : C w)
    (hQ : ∀ r w', (w' = w ∨
      ∃ t, t.instrument = order.instrument ∧ w' = { w with book := w.book.register t }) →
        C w' ∧ Q r w') :
    wpc liveWorld C ((rt.service.wire (.emitFn order c fill)).interp rt.wire) Q w := by
  simp only [ConsumerService.wire, FillProducer.emitFill, Proc.bind_eq]
  rw [Proc.interp_interp, Proc.interp_bind]
  refine wpc_seq (R := fun _ w' => w' = w) ?_ ?_ ?_
  · exact wpc_asideOnly (Proc.Only.interp (publishFill_unregistering _ _ _ _)
      fun op hop => wireProducer_aside hop) hc fun _ => rfl
  · rintro _ w' - rfl
    rw [Proc.interp_bind, Proc.interp_attempt, Proc.interp_perform]
    refine wpc_seq (R := fun _ w'' => ∀ r, C w'' ∧ Q r w'') ?_ (fun _ w'' _ h => h _)
      fun _ w'' _ h => (h _).2
    change wpc liveWorld C ((Proc.perform (I := ServiceI)
      (.producer (.registerTrade order c fill))).interp rt.wire).attempt _ _
    rw [Proc.interp_perform, wpc_attempt]
    have hregister : wpc liveWorld C (rt.registerOnFill order c fill)
        (fun _ w'' => ∀ r, C w'' ∧ Q r w'') w' :=
      wpc_registerOnFill hc fun r w'' h => ⟨(hQ r w'' h).1, fun r' => hQ r' w'' h⟩
    exact hregister
  · rintro e w' - rfl
    exact (hQ _ w' (Or.inl rfl)).2

/-- What is proved of the monitor holds inside the runtime, and the rest stays. -/
theorem wpc_askMonitor {α : Type} {p : Proc MonitorI Exc α} {D : MonitorState → Prop}
    {Q : Except Exc α → MonitorState → Prop} (hp : wpc monitorWorld D p Q w.monitor) :
    wpc liveWorld (fun w' => ∃ s, D s ∧ w' = { w with monitor := s }) (askMonitor p)
      (fun r w' => ∃ s, Q r s ∧ w' = { w with monitor := s }) w := by
  have hview : wpc liveWorld (fun w' => D w'.monitor ∧ w' = { w with monitor := w'.monitor })
      (askMonitor p) (fun r w' => Q r w'.monitor) w := by
    refine wpc_interp_view (v := fun w' : LiveState => w'.monitor)
      (F := fun w' : LiveState => w' = { w with monitor := w'.monitor }) ?_ hp rfl
    intro op w₁ Q hD hrest hstep
    refine wpc_of_perform ⟨hD, hrest⟩ ?_
    rintro r w₂ ⟨s, hs, rfl⟩
    have hrest₂ : ({ w₁ with monitor := s } : LiveState) = { w with monitor := s } := by
      rw [hrest]
    obtain ⟨hD₂, hQ⟩ := hstep r { w₁ with monitor := s } hs hrest₂
    exact ⟨⟨hD₂, hrest₂⟩, hQ⟩
  exact wpc_mono hview (fun w' h => ⟨_, h⟩) fun r w' hC hQ => ⟨_, hQ, hC.2⟩

/-- Every call of the consumer, as it is wired, does what the live hooks allow. -/
theorem wpc_wire (op : ConsumerCall FillResult) {Q : Except Exc op.Ans → LiveState → Prop}
    (hc : C w) (hstep : ∀ r w', liveHooks w op r w' → C w' ∧ Q r w') :
    wpc liveWorld C ((rt.service.wire op).interp rt.wire) Q w := by
  have hqueue : ∀ {α : Type} (p : Proc QueueI Exc α) {Q : Except Exc α → LiveState → Prop},
      (∀ r, Q r w) → wpc liveWorld C ((ConsumerService.onQueue p).interp rt.wire) Q w :=
    fun p _ hQ => wpc_asideOnly (onQueue_aside p) hc hQ
  have hserved : ∀ {op : ConsumerCall FillResult} {Q : Except Exc op.Ans → LiveState → Prop},
      wpc liveWorld C (rt.wire (.consumer op)) Q w →
        wpc liveWorld C ((Proc.perform (I := ServiceI) (.consumer op)).interp rt.wire) Q w :=
    fun h => by
      rw [Proc.interp_perform]
      exact h
  cases op with
  | pull subscription n => exact hqueue _ fun r => (hstep r w rfl).2
  | ack msg => exact hqueue _ fun r => (hstep r w rfl).2
  | nack msg backoffSec => exact hqueue _ fun r => (hstep r w rfl).2
  | toDlq msg reason => exact hqueue _ fun r => (hstep r w rfl).2
  | emitFn order c fill => exact wpc_emitFill hc fun r w' h => hstep r w' h
  | submitGateFn =>
      refine hserved ((wpc_bind _ _ _ _).mpr (wpc_of_perform hc ?_))
      rintro r w' ⟨s, ⟨rfl, rfl⟩, rfl⟩
      exact ⟨hc, hc, (hstep _ w ⟨fun b hb => (Except.ok.inj hb).symm, rfl⟩).2⟩
  | heartbeatFn sentAt =>
      refine hserved (wpc_mono (wpc_askMonitor (w := w) SafetyMonitor.wpc_recordHeartbeat) ?_ ?_)
      · rintro _ ⟨s, hs, rfl⟩
        exact (hstep (.error (.ofErr .valueError)) _ ⟨s, hs.1, rfl⟩).1
      · rintro r _ - ⟨s, hs, rfl⟩
        exact (hstep r _ ⟨s, hs.1, rfl⟩).2
  | openInstrumentsFn =>
      refine hserved ((wpc_bind _ _ _ _).mpr (wpc_of_perform hc ?_))
      rintro r w' ⟨rfl, rfl⟩
      exact ⟨hc, hc, (hstep _ w' ⟨fun b hb => (Except.ok.inj hb).symm, rfl⟩).2⟩
  | pipeline call =>
      cases call with
      | _ => exact hserved (wpc_of_perform hc hstep)
  | _ => exact hserved (wpc_of_perform hc hstep)

end LiveRuntime

end System2
