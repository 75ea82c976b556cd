import System2.Execution.OutboundConsumer

/-!
# The safety monitor (`execution/safety_mode.py`)

RUNNING, PAUSED or BYPASS, recomputed from the age of the last evidence of
System 3. The monitor's fields are read and written by calls, so that a hook
that raises in the middle of a transition leaves what was written before it.
-/

namespace System2
open Foundation

inductive SafetyState
  | running | paused | bypass
  deriving DecidableEq, Repr

def SafetyState.value : SafetyState → String
  | .running => "running"
  | .paused => "paused"
  | .bypass => "bypass"

structure SafetyConfig where
  stalenessLimitSec : Binary64
  hysteresisSec : Binary64
  bypassEnable : Bool
  bypassConfirmToken : String
  bypassMaxDurationSec : Binary64

/-- What the monitor remembers. -/
structure MonitorState where
  state : SafetyState
  lastHeartbeatAt : Option Moment
  startedAt : Moment
  bypassStartedAt : Option Moment
  bypassOperator : Option String

/-- `can_submit`. -/
def MonitorState.canSubmit (s : MonitorState) : Bool := s.state = .running || s.state = .bypass

/-- `_fresh_at`: the later of the last order and the last heartbeat, else the start. -/
def MonitorState.freshAt (s : MonitorState) (lastMessageAt : Option Moment) : Moment :=
  match lastMessageAt, s.lastHeartbeatAt with
  | some message, some heartbeat => max message heartbeat
  | some message, none => message
  | none, some heartbeat => heartbeat
  | none, none => s.startedAt

/-- What the alert and the audit record of a transition say. -/
structure SafetyTransition where
  fromState : SafetyState
  toState : SafetyState
  reason : String
  ctx : Dict

/-- The calls of the monitor: its clock, its own fields and its hooks. -/
inductive MonitorCall
  | clock
  | get
  | put (s : MonitorState)
  | alert (event : SafetyTransition)
  | audit (event : SafetyTransition) (tsUtc : Moment)

abbrev MonitorCall.Ans : MonitorCall → Type
  | .clock => Moment
  | .get => MonitorState
  | _ => Unit

abbrev MonitorI : Interface := ⟨MonitorCall, MonitorCall.Ans⟩

/-- The settings of a monitor, its session window and which hooks are given. -/
structure SafetyMonitor where
  config : SafetyConfig
  sessionFn : Moment → Bool
  hasAlert : Bool
  hasAudit : Bool

namespace SafetyMonitor

abbrev perform (op : MonitorCall) : Proc MonitorI Exc op.Ans := Proc.perform (I := MonitorI) op

/-- `record_heartbeat`: a stamp in the future counts as now, and the mark never moves back. -/
def recordHeartbeat (mon : SafetyMonitor) (stamp : Option Moment) : Proc MonitorI Exc Bool := do
  let now ← perform .clock
  let ts := min (stamp.getD now) now
  if mon.config.stalenessLimitSec.lt (now.secondsSince ts) then return false
  else
    let s ← perform .get
    if s.lastHeartbeatAt.any fun last => decide (ts ≤ last) then return false
    else
      let _ ← perform (.put { s with lastHeartbeatAt := some ts })
      return true

/-- `_transition`: the state first, then the hooks. -/
def transition (mon : SafetyMonitor) (new : SafetyState) (reason : String) (now : Moment)
    (ctx : Dict) : Proc MonitorI Exc Unit := do
  let s ← perform .get
  if s.state = new ∧ !reason.startsWith "bypass" then return ()
  else
    let event : SafetyTransition := ⟨s.state, new, reason, ctx⟩
    let _ ← perform (.put { s with state := new })
    let _ ← Proc.given mon.hasAlert (perform (.alert event))
    Proc.given mon.hasAudit (perform (.audit event now))

def bypassCtx (operator : Option String) : Dict :=
  [("operator", optionalText operator), ("source", .str "BYPASS")]

/-- `_exit_bypass`. -/
def leaveBypass (mon : SafetyMonitor) (reason : String) (now : Moment) :
    Proc MonitorI Exc Unit := do
  let s ← perform .get
  let _ ← perform (.put { s with bypassStartedAt := none, bypassOperator := none })
  mon.transition .running ("bypass_exit:" ++ reason) now (bypassCtx s.bypassOperator)

/-- The window of a BYPASS: is it still open? One that has run out is left. -/
def bypassHolds (mon : SafetyMonitor) (now : Moment) : Proc MonitorI Exc Bool := do
  let s ← perform .get
  if s.state = .bypass then
    match s.bypassStartedAt with
    | none => .raise (.ofErr .assertionError)
    | some started =>
        if mon.config.bypassMaxDurationSec.le (now.secondsSince started) then
          let _ ← mon.leaveBypass "bypass_window_expired" now
          return false
        else return true
  else return false

/-- RUNNING to PAUSED beyond the limit, and back well under it. -/
def judge (mon : SafetyMonitor) (staleness : Binary64) (now : Moment) (state : SafetyState) :
    Proc MonitorI Exc Unit :=
  let limit := mon.config.stalenessLimitSec
  let ctx : Dict := [("staleness_sec", .float (staleness.roundDigits 1))]
  if state = .running ∧ limit.lt staleness then mon.transition .paused "queue_stale" now ctx
  else if state = .paused ∧ staleness.lt (limit.sub mon.config.hysteresisSec) then
    mon.transition .running "queue_fresh_resume" now ctx
  else .ret ()

/-- The part of `evaluate` outside a BYPASS. Silence outside the session is no outage. -/
def evaluateFreshness (mon : SafetyMonitor) (lastMessageAt : Option Moment) (now : Moment) :
    Proc MonitorI Exc SafetyState := do
  let s ← perform .get
  let _ ←
    if mon.sessionFn now then
      mon.judge (now.secondsSince (s.freshAt lastMessageAt)) now s.state
    else if s.state = .paused then
      mon.transition .running "out_of_session_no_false_pause" now []
    else Proc.ret ()
  let s ← perform .get
  return s.state

/-- `evaluate`. -/
def evaluate (mon : SafetyMonitor) (lastMessageAt : Option Moment) (clock : Option Moment) :
    Proc MonitorI Exc SafetyState := do
  let now ← match clock with
    | some now => Proc.ret now
    | none => perform .clock
  if ← mon.bypassHolds now then return .bypass
  else mon.evaluateFreshness lastMessageAt now

/-- `request_bypass`: the flag and a matching token that is not empty. -/
def requestBypass (mon : SafetyMonitor) (token operator reason : String) :
    Proc MonitorI Exc Bool :=
  if !mon.config.bypassEnable then .ret false
  else if mon.config.bypassConfirmToken = "" ∨ token ≠ mon.config.bypassConfirmToken then
    .ret false
  else do
    let now ← perform .clock
    let s ← perform .get
    let _ ← perform (.put { s with bypassStartedAt := some now, bypassOperator := some operator })
    let _ ← mon.transition .bypass ("bypass_enabled:" ++ reason) now (bypassCtx (some operator))
    return true

/-- `exit_bypass`. -/
def exitBypass (mon : SafetyMonitor) (reason : String) : Proc MonitorI Exc Unit := do
  let s ← perform .get
  if s.state = .bypass then
    let now ← perform .clock
    mon.leaveBypass reason now
  else return ()

end SafetyMonitor

end System2
