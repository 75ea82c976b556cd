import System2.Execution.Lifecycle
import System2.Execution.LiveRuntime
import System2.Execution.StartupReconcile

/-!
# The run loop (`ExecutionRuntime.run`, `execution/lifecycle.py`)

The loop takes over the broker's open trades, makes ticks until the emergency stop is set,
and shuts down. The components of a tick are calls here, each of which may raise.

## Implementation notes

`run` has a bound on the number of ticks. A run without one makes the calls of a run with
a bound that it does not reach.
-/

namespace System2
open Foundation

/-! ### One tick over the components -/

/-- The calls of a tick. -/
inductive TickCall
  | isStopped
  | clock
  | lastMessageAt
  | evaluate (lastMessageAt : Option Moment) (now : Moment)
  | pollOnce
  | priceSourceFn
  | evaluateAll (prices : Dict)
  | sweep

abbrev TickCall.Ans : TickCall → Type
  | .isStopped => Bool
  | .clock => Moment
  | .lastMessageAt => Option Moment
  | .evaluate _ _ => SafetyState
  | .pollOnce => Stats
  | .priceSourceFn => Dict
  | .evaluateAll _ => Dict
  | .sweep => Unit

abbrev TickI : Interface := ⟨TickCall, TickCall.Ans⟩

/-- The optional components of a tick. -/
structure ControlTick where
  hasPriceSource : Bool
  hasCloseSweeper : Bool

namespace ControlTick

abbrev perform (op : TickCall) : Proc TickI Exc op.Ans := Proc.perform (I := TickI) op

def manage (ct : ControlTick) : Proc TickI Exc Dict :=
  if ct.hasPriceSource then do
    let prices ← perform .priceSourceFn
    if prices = [] then return [] else perform (.evaluateAll prices)
  else return []

def sweepCloses (ct : ControlTick) : Proc TickI Exc Unit :=
  Proc.given ct.hasCloseSweeper do
    let _ ← (perform .sweep).attempt
    return ()

def tick (ct : ControlTick) : Proc TickI Exc (Option TickResult) := do
  let stopped ← perform .isStopped
  if stopped then return none
  else
    let now ← perform .clock
    let lastMessageAt ← perform .lastMessageAt
    let state ← perform (.evaluate lastMessageAt now)
    let consume ← perform .pollOnce
    let managed ← ct.manage
    let _ ← ct.sweepCloses
    return some ⟨state, consume, managed⟩

end ControlTick

namespace ExecutionRuntime
variable {F : Type}

/-- The components of a runtime. -/
def components (rt : ExecutionRuntime) : (op : TickCall) → Proc (RuntimeI F) Exc op.Ans
  | .isStopped => perform .isStopped
  | .clock => perform .clock
  | .lastMessageAt => do
      let lag ← perform .getLag
      return lag.lastMessageAt
  | .evaluate lastMessageAt now => askMonitor (rt.monitor.evaluate lastMessageAt (some now))
  | .pollOnce => rt.consumer.pollOnce.interp rt.hookup
  | .priceSourceFn => perform .priceSourceFn
  | .evaluateAll prices => perform (.evaluateAll prices)
  | .sweep => perform .sweep

def controlTick (rt : ExecutionRuntime) : ControlTick := ⟨rt.hasPriceSource, rt.hasCloseSweeper⟩

theorem interp_call (rt : ExecutionRuntime) (op : TickCall) :
    (ControlTick.perform op).interp
        (rt.components : (op : TickCall) → Proc (RuntimeI F) Exc op.Ans) = rt.components op :=
  Proc.interp_perform (I := TickI) rt.components op

theorem manage_eq_interp (rt : ExecutionRuntime) :
    (manage rt : Proc (RuntimeI F) Exc Dict) = rt.controlTick.manage.interp rt.components := by
  unfold manage ControlTick.manage controlTick
  split_ifs
  · simp only [Proc.bind_eq, Proc.interp_bind]
    rw [interp_call rt .priceSourceFn]
    congr 1
    funext prices
    split_ifs
    · rfl
    · exact (interp_call rt (.evaluateAll prices)).symm
  · rfl

theorem sweepCloses_eq_interp (rt : ExecutionRuntime) :
    (sweepCloses rt : Proc (RuntimeI F) Exc Unit) =
      rt.controlTick.sweepCloses.interp rt.components := by
  unfold sweepCloses ControlTick.sweepCloses controlTick Proc.given
  split_ifs
  · simp only [Proc.bind_eq, Proc.interp_bind, Proc.interp_attempt]
    rw [interp_call rt .sweep]
    rfl
  · rfl

/-- The tick of a runtime is the tick over its components. -/
theorem tick_eq_interp (rt : ExecutionRuntime) :
    (tick rt : Proc (RuntimeI F) Exc (Option TickResult)) =
      rt.controlTick.tick.interp rt.components := by
  unfold tick ControlTick.tick
  simp only [Proc.bind_eq, Proc.interp_bind]
  rw [interp_call rt .isStopped]
  congr 1
  funext stopped
  split_ifs
  · rfl
  · simp only [Proc.interp_bind, interp_call rt .clock, interp_call rt .lastMessageAt,
      interp_call rt (.evaluate _ _), interp_call rt .pollOnce, ← manage_eq_interp,
      ← sweepCloses_eq_interp, components, Proc.bind_eq, Proc.bind_assoc, Proc.pure_eq,
      Proc.ret_bind]
    rfl

end ExecutionRuntime

/-! ### The loop -/

/-- The calls of the run loop: those of a tick, of the start and of the shutdown. -/
inductive EngineCall
  | tick (call : TickCall)
  | restart (call : RestartCall)
  | live (call : LiveCall)
  | installSignalHandlers
  | stopReason
  | sleep (seconds : Binary64)
  | schedulerStart
  | schedulerStop

abbrev EngineCall.Ans : EngineCall → Type
  | .tick call => call.Ans
  | .restart call => call.Ans
  | .live call => call.Ans
  | .stopReason => Option String
  | _ => Unit

abbrev EngineI : Interface := ⟨EngineCall, EngineCall.Ans⟩

/-- A runtime with what its loop needs: whether it reconciles at the start and has a regime
scheduler, and the path of its fill outbox. -/
structure Engine where
  controlTick : ControlTick
  live : LiveRuntime
  reconciles : Bool
  outboxPath : Option String
  hasScheduler : Bool
  idleSleepSec : Binary64

namespace Engine

abbrev perform (op : EngineCall) : Proc EngineI Exc op.Ans := Proc.perform (I := EngineI) op

def onTick {α : Type} (p : Proc TickI Exc α) : Proc EngineI Exc α :=
  p.interp fun call => perform (.tick call)

def onRestart {α : Type} (p : Proc RestartI Exc α) : Proc EngineI Exc α :=
  p.interp fun call => perform (.restart call)

def onLive {α : Type} (p : Proc LiveI Exc α) : Proc EngineI Exc α :=
  p.interp fun call => perform (.live call)

/-- A call whose exception is only logged. -/
def tryCall (op : EngineCall) : Proc EngineI Exc Unit := do
  let _ ← (perform op).attempt
  return ()

/-- What `run` does before its loop. -/
def start (en : Engine) : Proc EngineI Exc Unit := do
  let _ ← perform .installSignalHandlers
  let _ ← Proc.given en.reconciles do
    let _ ← onRestart
      (StartupReconcile.startupReconcile en.live.service.consumer.host en.outboxPath)
    return ()
  Proc.given en.hasScheduler (tryCall .schedulerStart)

/-- The loop with the number of ticks that are left: it sleeps when nothing was consumed. -/
def loop (en : Engine) : ℕ → Proc EngineI Exc Unit
  | 0 => do
      let _ ← perform (.tick .isStopped)
      return ()
  | ticks + 1 => do
      let stopped ← perform (.tick .isStopped)
      if stopped then return ()
      else
        let res ← onTick en.controlTick.tick
        let _ ← Proc.given (res.all fun r => r.consume.isEmpty)
          (perform (.sleep en.idleSleepSec))
        loop en ticks

/-- The shutdown at the end of the loop. -/
def shutdown (en : Engine) : Proc EngineI Exc Unit := do
  let reason ← perform .stopReason
  let _ ← Proc.given en.hasScheduler (tryCall .schedulerStop)
  let _ ← onLive (en.live.shutdown ((reason.filter (· != "")).getD "loop_exit"))
  return ()

/-- `run`. -/
def run (en : Engine) (maxTicks : ℕ) : Proc EngineI Exc Unit := do
  let _ ← en.start
  let _ ← en.loop maxTicks
  en.shutdown

end Engine

end System2
