import System2.Execution.CloseTracker
import System2.Execution.ConsumerService
import System2.Execution.Lifecycle

/-!
# The wired runtime (`build_from_secrets`, `execution/lifecycle.py`)

The composition root gives the consumer the safety monitor as its gate, the book of open
trades as its snapshot, and a register-on-fill hook behind the fill producer. The position
manager, the close sweeper and the flatten on a stop work on the same book.

## Implementation notes

What a runtime does is a sequence of activities: a tick is an evaluation, the handling of
the messages of a poll, a pass of the manager and a sweep, and the operator's requests come
between them. Any order of activities is a run here, and an activity may end early.
-/

namespace System2
open Foundation

/-- The calls of the components that the composition root ties together. -/
inductive LiveCall
  | service (call : ServiceCall)
  | monitor (call : MonitorCall)
  | manager (call : ManagerCall)
  | sweeper (call : CloseCall)
  | register (t : ManagedTrade)
  | utcNow

abbrev LiveCall.Ans : LiveCall → Type
  | .service call => call.Ans
  | .monitor call => call.Ans
  | .manager call => call.Ans
  | .sweeper call => call.Ans
  | .register _ => Unit
  | .utcNow => Moment

abbrev LiveI : Interface := ⟨LiveCall, LiveCall.Ans⟩

/-- The instruments of the trades that are not closed. -/
def TradeBook.openInstruments (book : TradeBook) : List String :=
  (book.trades.filter fun t => !t.closed).map (·.instrument)

/-- The number of trades that are not closed. -/
def TradeBook.openCount (book : TradeBook) : ℕ := book.openInstruments.length

/-- The components of a runtime. `bypassMaxPositions` is the cap of the safety settings
(`SafetyConfig.bypass_max_positions`). -/
structure LiveRuntime where
  service : ConsumerService
  monitor : SafetyMonitor
  manager : PositionManager
  sweeper : CloseSweeper
  flattenOnStop : Bool
  bypassMaxPositions : ℤ

namespace LiveRuntime

abbrev perform (op : LiveCall) : Proc LiveI Exc op.Ans := Proc.perform (I := LiveI) op

/-- A call of `submit_fn`. -/
def isSubmit : LiveCall → Bool
  | .service call => ConsumerService.isSubmit call
  | _ => false

/-- A method of the monitor inside the runtime. -/
def askMonitor {α : Type} (p : Proc MonitorI Exc α) : Proc LiveI Exc α :=
  p.interp fun call => perform (.monitor call)

/-- A method of the close tracker inside the runtime. -/
def onTracker {α : Type} (p : Proc CloseI Exc α) : Proc LiveI Exc α :=
  p.interp fun call => perform (.sweeper call)

/-- Register-on-fill: a fill with a trade to manage puts it into the book. -/
def registerOnFill (rt : LiveRuntime) (order : ApprovedOrder) (c : ConstructedOrder)
    (fill : FillResult) : Proc LiveI Exc Unit :=
  match managedTradeId fill with
  | none => .ret ()
  | some id => do
      let openTime ← match ← Proc.ofExcept
          (Exc.lift (parseTime rt.service.consumer.host fill.fillTime)) with
        | some t => Proc.ret t
        | none => perform .utcNow
      perform (.register (managedTradeFromFill order (some c) fill id openTime))

/-- The service's hooks: `submit_gate_fn` is the monitor's `can_submit`, `heartbeat_fn` its
`record_heartbeat`, and `open_instruments_fn` reads the book. -/
def wire (rt : LiveRuntime) : (op : ServiceCall) → Proc LiveI Exc op.Ans
  | .consumer .submitGateFn => do
      let s ← perform (.monitor .get)
      return s.canSubmit
  | .consumer (.heartbeatFn sentAt) => askMonitor (rt.monitor.recordHeartbeat (some sentAt))
  | .consumer .openInstrumentsFn => do
      let book ← perform (.manager .trades)
      return book.openInstruments
  | .producer (.registerTrade order c fill) => rt.registerOnFill order c fill
  | op => perform (.service op)

/-- The manager reports its closes to the emitter of the sweeper. -/
def wireManager (rt : LiveRuntime) : (op : ManagerCall) → Proc LiveI Exc op.Ans
  | .emitCloseFn t resp exitReason => do
      let _ ← onTracker (rt.sweeper.emitter.emitBrokerClose t resp exitReason)
      return ()
  | op => perform (.manager op)

/-- `_handle` of the wired consumer. -/
def handle (rt : LiveRuntime) (msg : ReceivedMessage) (now : Moment) : Proc LiveI Exc Outcome :=
  (rt.service.handle msg now).interp rt.wire

/-- `evaluate_all` of the position manager. -/
def manage (rt : LiveRuntime) (prices : List (String × Binary64)) :
    Proc LiveI Exc (List (String × List String)) :=
  (rt.manager.evaluateAll prices).interp rt.wireManager

def sweep (rt : LiveRuntime) : Proc LiveI Exc Stats := onTracker rt.sweeper.sweep

/-- One trade of the flatten on a stop: a close that the broker refuses is logged. -/
def flattenTrade (rt : LiveRuntime) (t : ManagedTrade) : Proc LiveI Exc Bool := do
  let closing : Proc LiveI Exc PyVal := do
    let resp ← perform (.manager (.closeTrade t.brokerTradeId))
    let _ ← perform (.manager (.putTrade { t with closed := true }))
    return resp
  match ← closing.attempt with
  | .error _ => return false
  | .ok resp => do
      let _ ← (onTracker
        (rt.sweeper.emitter.emitBrokerClose { t with closed := true } resp "flatten")).attempt
      return true

/-- The trades of the book one after the other: how many were flattened. -/
def flattenAll (rt : LiveRuntime) : List ManagedTrade → Proc LiveI Exc ℕ
  | [] => .ret 0
  | t :: rest =>
      if t.closed then flattenAll rt rest
      else do
        let flattened ← rt.flattenTrade t
        let more ← flattenAll rt rest
        return (if flattened then 1 else 0) + more

def flatten (rt : LiveRuntime) : Proc LiveI Exc ℕ :=
  if rt.flattenOnStop then do
    let book ← perform (.manager .trades)
    rt.flattenAll book.trades
  else .ret 0

/-- The fill producer inside the runtime. -/
def onProducer (rt : LiveRuntime) {α : Type} (p : Proc ProducerI Exc α) : Proc LiveI Exc α :=
  (p.interp ConsumerService.wireProducer).interp rt.wire

/-- `shutdown`, once: flush the fills, flatten, report the stop. Only a flatten that cannot
read the book fails. -/
def shutdown (rt : LiveRuntime) (reason : String) : Proc LiveI Exc ℕ := do
  let _ ← (rt.onProducer (rt.service.producer.flush rt.service.rounds)).attempt
  let flattened ← rt.flatten
  let _ ← (rt.onProducer (rt.service.producer.emitControl rt.service.rounds "STOPPED"
    [("reason", .str reason), ("flattened", .int flattened)] "")).attempt
  return flattened

/-- What a runtime does at a time. -/
inductive Activity
  | handle (msg : ReceivedMessage) (now : Moment)
  | manage (prices : List (String × Binary64))
  | sweep
  | evaluate (lastMessageAt clock : Option Moment)
  | requestBypass (token operator reason : String)
  | exitBypass (reason : String)
  | shutdown (reason : String)

/-- A procedure without its result. -/
def done {α : Type} (p : Proc LiveI Exc α) : Proc LiveI Exc Unit := p.bind fun _ => .ret ()

def act (rt : LiveRuntime) : Activity → Proc LiveI Exc Unit
  | .handle msg now => done (rt.handle msg now)
  | .manage prices => done (rt.manage prices)
  | .sweep => done rt.sweep
  | .evaluate lastMessageAt clock => done (askMonitor (rt.monitor.evaluate lastMessageAt clock))
  | .requestBypass token operator reason =>
      done (askMonitor (rt.monitor.requestBypass token operator reason))
  | .exitBypass reason => askMonitor (rt.monitor.exitBypass reason)
  | .shutdown reason => done (rt.shutdown reason)

/-- An activity with the states around it, and how it ended: `none` when it was cut short. -/
structure Episode (W : Type) where
  before : W
  activity : Activity
  out : Option (Except Exc Unit)
  after : W

/-- A run of a runtime. -/
inductive Runs {W : Type} (world : World LiveI Exc W) (rt : LiveRuntime) :
    W → List (Episode W) → W → Prop
  | refl {w} : Runs world rt w [] w
  | act {w es w' a out w''} (run : Runs world rt w es w') (exec : Exec world (rt.act a) w' out w'') :
      Runs world rt w (es ++ [⟨w', a, out, w''⟩]) w''

/-- What every activity of the run keeps, the run keeps. -/
theorem Runs.keeps {W : Type} {world : World LiveI Exc W} {rt : LiveRuntime} {J : W → Prop}
    {A : Episode W → Prop}
    (hact : ∀ a w out w', J w → Exec world (rt.act a) w out w' → A ⟨w, a, out, w'⟩ → J w')
    {w w' : W} {es : List (Episode W)} (run : Runs world rt w es w') (hA : ∀ e ∈ es, A e)
    (hw : J w) : J w' := by
  induction run with
  | refl => exact hw
  | act run exec ih =>
      exact hact _ _ _ _ (ih fun e he => hA e (List.mem_append_left _ he)) exec
        (hA _ (List.mem_append_right _ (List.mem_singleton_self _)))

end LiveRuntime

end System2
