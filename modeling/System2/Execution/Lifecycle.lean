import System2.Execution.SafetyMode

/-!
# The runtime (`execution/lifecycle.py`)

One tick: look at the emergency stop, evaluate the safety state, poll the queue,
manage what is open, sweep closed trades. The safety monitor and the lag record
belong to the runtime; the consumer reaches both through its hooks.
-/

namespace System2
open Foundation

/-- `ConsumerLag`. -/
structure ConsumerLag where
  lastMessageAt : Option Moment
  lastMessageCreatedAt : Option Moment
  lastPollAt : Option Moment
  messagesSeen : ℕ

/-- The calls of the runtime, those of its monitor and its consumer among them. -/
inductive RuntimeCall (F : Type)
  | isStopped
  | clock
  | getLag
  | putLag (lag : ConsumerLag)
  | monitor (call : MonitorCall)
  | consumer (call : ConsumerCall F)
  | priceSourceFn
  | evaluateAll (prices : Dict)
  | sweep

abbrev RuntimeCall.Ans {F : Type} : RuntimeCall F → Type
  | .isStopped => Bool
  | .clock => Moment
  | .getLag => ConsumerLag
  | .monitor call => call.Ans
  | .consumer call => call.Ans
  | .priceSourceFn => Dict
  | .evaluateAll _ => Dict
  | _ => Unit

abbrev RuntimeI (F : Type) : Interface := ⟨RuntimeCall F, RuntimeCall.Ans⟩

/-- What a tick returns: `none` when the emergency stop is set. -/
structure TickResult where
  state : SafetyState
  consume : Stats
  managed : Dict

/-- The parts of a runtime, and which of the optional ones are given. -/
structure ExecutionRuntime where
  consumer : Consumer
  monitor : SafetyMonitor
  hasPriceSource : Bool
  hasCloseSweeper : Bool

namespace ExecutionRuntime

variable {F : Type}

abbrev perform (op : RuntimeCall F) : Proc (RuntimeI F) Exc op.Ans :=
  Proc.perform (I := RuntimeI F) op

/-- The monitor inside the runtime. -/
def askMonitor {α : Type} (p : Proc MonitorI Exc α) : Proc (RuntimeI F) Exc α :=
  p.interp fun call => perform (.monitor call)

def updateLag (change : ConsumerLag → ConsumerLag) : Proc (RuntimeI F) Exc Unit := do
  let lag ← perform .getLag
  perform (.putLag (change lag))

/-- The consumer's hooks as the runtime wires them: `submit_gate_fn` is the monitor's
`can_submit`, `heartbeat_fn` its `record_heartbeat`, and the lag is a record it shares. -/
def hookup (rt : ExecutionRuntime) : (op : ConsumerCall F) → Proc (RuntimeI F) Exc op.Ans
  | .submitGateFn => do
      let s ← perform (.monitor .get)
      return s.canSubmit
  | .heartbeatFn sentAt => askMonitor (rt.monitor.recordHeartbeat (some sentAt))
  | .setLastPollAt t => updateLag fun lag => { lag with lastPollAt := some t }
  | .setLastMessageAt t => updateLag fun lag => { lag with lastMessageAt := some t }
  | .setLastMessageCreatedAt t => updateLag fun lag => { lag with lastMessageCreatedAt := some t }
  | .countMessage => updateLag fun lag => { lag with messagesSeen := lag.messagesSeen + 1 }
  | .clock => perform (.consumer .clock)
  | .pull subscription n => perform (.consumer (.pull subscription n))
  | .ack msg => perform (.consumer (.ack msg))
  | .nack msg backoffSec => perform (.consumer (.nack msg backoffSec))
  | .toDlq msg reason => perform (.consumer (.toDlq msg reason))
  | .priceFn order => perform (.consumer (.priceFn order))
  | .openInstrumentsFn => perform (.consumer .openInstrumentsFn)
  | .emitFn order c fill => perform (.consumer (.emitFn order c fill))
  | .pipeline call => perform (.consumer (.pipeline call))

/-- Existing positions are managed whatever the safety state is. -/
def manage (rt : ExecutionRuntime) : Proc (RuntimeI F) Exc Dict :=
  if rt.hasPriceSource then do
    let prices ← perform .priceSourceFn
    if prices = [] then return [] else perform (.evaluateAll prices)
  else return []

/-- A sweep that fails is tried again at the next tick. -/
def sweepCloses (rt : ExecutionRuntime) : Proc (RuntimeI F) Exc Unit :=
  Proc.given rt.hasCloseSweeper do
    let _ ← (perform .sweep).attempt
    return ()

/-- `tick`. -/
def tick (rt : ExecutionRuntime) : Proc (RuntimeI F) Exc (Option TickResult) := do
  let stopped ← perform .isStopped
  if stopped then return none
  else
    let now ← perform .clock
    let lag ← perform .getLag
    let state ← askMonitor (rt.monitor.evaluate lag.lastMessageAt (some now))
    let consume ← rt.consumer.pollOnce.interp rt.hookup
    let managed ← rt.manage
    let _ ← rt.sweepCloses
    return some ⟨state, consume, managed⟩

end ExecutionRuntime

/-- What the runtime remembers between two calls. -/
structure Runtime where
  monitor : MonitorState
  lag : ConsumerLag

/-- The freshest evidence of System 3. -/
def Runtime.freshAt (w : Runtime) : Moment := w.monitor.freshAt w.lag.lastMessageAt

section Worlds

variable {F : Type}

/-- The monitor's own fields are read and written exactly; everything else answers anything. -/
def monitorWorld : World MonitorI Exc MonitorState := fun s op =>
  match op with
  | .get => fun r s' => s' = s ∧ r = .ok s
  | .put new => fun r s' => s' = new ∧ r = .ok ()
  | _ => fun _ s' => s' = s

/-- A runtime in which nothing but its own code touches the monitor and the lag, at a tick
whose clock, when it answers, says `now`. -/
def runtimeWorld (now : Moment) : World (RuntimeI F) Exc Runtime := fun w op =>
  match op with
  | .clock => fun r w' => w' = w ∧ ∀ t, r = .ok t → t = now
  | .getLag => fun r w' => w' = w ∧ r = .ok w.lag
  | .putLag lag => fun r w' => w' = { w with lag := lag } ∧ r = .ok ()
  | .monitor call => fun r w' => monitorWorld w.monitor call r w'.monitor ∧ w'.lag = w.lag
  | _ => fun _ w' => w' = w

end Worlds

end System2
