import System2.Execution.Validation

/-!
# The queue consumer (`execution/outbound_consumer.py`)

Everything outside the consumer is a call: the queue, the clock, the hooks, the
processed store and the lag record that other components read. The pipeline's
calls pass through, its emission with the approved order added.

## Implementation notes

Logging has no effect on the outcome. The one log field whose computation may
raise, the payload's `source` of a heartbeat, is kept.
-/

namespace System2
open Foundation

def heartbeatEventType : String := "system3.heartbeat"

/-- Decisions that mean that the message is done with. -/
def Decision.durable : Decision → Bool
  | .rejectedOutOfSession => false
  | _ => true

/-- `ReceivedMessage`. -/
structure ReceivedMessage where
  ackId : String
  topic : String
  body : PyVal
  attempts : ℕ

/-- The calls of the consumer. `F` is what `submit_fn` returns. -/
inductive ConsumerCall (F : Type)
  | clock
  | pull (subscription : String) (maxMessages : ℤ)
  | ack (msg : ReceivedMessage)
  | nack (msg : ReceivedMessage) (backoffSec : Binary64)
  | toDlq (msg : ReceivedMessage) (reason : FString)
  | setLastPollAt (t : Moment)
  | setLastMessageAt (t : Moment)
  | setLastMessageCreatedAt (t : Moment)
  | countMessage
  | heartbeatFn (sentAt : Moment)
  | submitGateFn
  | priceFn (order : ApprovedOrder)
  | openInstrumentsFn
  | emitFn (order : ApprovedOrder) (c : ConstructedOrder) (fill : F)
  | pipeline (call : PipelineCall F)

abbrev ConsumerCall.Ans {F : Type} : ConsumerCall F → Type
  | .clock => Moment
  | .pull _ _ => List ReceivedMessage
  | .heartbeatFn _ => Bool
  | .submitGateFn => Bool
  | .priceFn _ => PyVal
  | .openInstrumentsFn => List String
  | .pipeline call => call.Ans
  | _ => Unit

abbrev ConsumerI (F : Type) : Interface := ⟨ConsumerCall F, ConsumerCall.Ans⟩

def ConsumerCall.isSubmit {F : Type} : ConsumerCall F → Bool
  | .pipeline call => call.isSubmit
  | _ => false

/-- The settings of a consumer, which of its hooks are given, and the host's local time. -/
structure Consumer where
  subscription : String
  pipeline : Pipeline
  hasSubmitGate : Bool
  hasHeartbeat : Bool
  maxAgeSec : Option ℤ
  prefetch : ℤ
  parkBackoffSec : Binary64
  host : LocalZone

/-- What became of one message. -/
inductive Outcome
  | heartbeat | heartbeatStale | dlqError | deadLettered | expired | duplicate | parked
  | pausedPark | execError
  | handled (d : Decision)
  | nacked (d : Decision)
  deriving DecidableEq, Repr

def Outcome.text : Outcome → String
  | .heartbeat => "heartbeat"
  | .heartbeatStale => "heartbeat_stale"
  | .dlqError => "dlq_error"
  | .deadLettered => "dead_lettered"
  | .expired => "expired"
  | .duplicate => "duplicate"
  | .parked => "parked"
  | .pausedPark => "paused_park"
  | .execError => "exec_error"
  | .handled d => d.value
  | .nacked d => "nack_" ++ d.value

/-- The per-outcome counts of one poll. -/
abbrev Stats := List (String × ℕ)

/-- `stats[outcome] = stats.get(outcome, 0) + 1`. -/
def Stats.count (stats : Stats) (key : String) : Stats :=
  if stats.any fun e => e.1 == key then
    stats.map fun e => if e.1 == key then (e.1, e.2 + 1) else e
  else stats ++ [(key, 1)]

/-- `_parse_ts`: the first field with a timestamp that reads and converts. -/
def parseTs (host : LocalZone) (raw : Dict) : List String → Except PyErr (Option Moment)
  | [] => .ok none
  | f :: rest =>
      if !(raw.get f).truthy then parseTs host raw rest
      else
        match fromisoformat (replaceZulu (raw.get f).toStr) with
        | none => parseTs host raw rest
        | some dt =>
            match dt.toUtc host with
            | .ok t => .ok (some t)
            | .error e =>
                if e = .typeError ∨ e = .valueError then parseTs host raw rest else .error e

/-- `(raw.get("payload") or {}).get("source")`. -/
def payloadSource (raw : Dict) : Except PyErr PyVal := (raw.get "payload").orEmptyGet "source"

/-- Is this body a keepalive of System 3? -/
def isHeartbeat : PyVal → Bool
  | .dict raw => (Dict.get raw "event_type").isStr heartbeatEventType
  | _ => false

namespace Consumer

variable {F : Type}

/-- A consumer with every hook given, a host on UTC and no age limit. -/
def openConsumer : Consumer where
  subscription := "ams-outbound.executor"
  pipeline := Pipeline.live
  hasSubmitGate := true
  hasHeartbeat := true
  maxAgeSec := none
  prefetch := 4
  parkBackoffSec := .ofRat 30
  host := .ok

/-- A call of the consumer. -/
abbrev perform (op : ConsumerCall F) : Proc (ConsumerI F) Exc op.Ans :=
  Proc.perform (I := ConsumerI F) op

/-- The calls that are no `submit_fn`. -/
abbrev notSubmit (op : ConsumerCall F) : Prop := op.isSubmit = false

theorem along_notSubmit {allowed : (op : ConsumerCall F) → Except Exc op.Ans → Prop}
    {op : ConsumerCall F} (hop : op.isSubmit = false) : (perform op).Along allowed notSubmit :=
  Proc.along_perform hop

/-- The pipeline's calls as the consumer's: `emit_fn` also gets the approved order. -/
def route (order : ApprovedOrder) : (call : PipelineCall F) → Proc (ConsumerI F) Exc call.Ans
  | .emit c fill => perform (.emitFn order c fill)
  | .seen key => perform (.pipeline (.seen key))
  | .mark key => perform (.pipeline (.mark key))
  | .clock => perform (.pipeline .clock)
  | .validate c => perform (.pipeline (.validate c))
  | .submit c => perform (.pipeline (.submit c))
  | .persist c fill => perform (.pipeline (.persist c fill))

/-- A conversion inside the consumer's own code. -/
def convert {α : Type} (r : Except PyErr α) : Proc (ConsumerI F) Exc α :=
  .ofExcept (Exc.lift r)

/-- `_credit_freshness`: `last_message_at` is set before `created_at` is read. -/
def creditFreshness (c : Consumer) (raw : Dict) (now : Moment) : Proc (ConsumerI F) Exc Unit := do
  let _ ← perform (.setLastMessageAt now)
  match ← convert (parseTs c.host raw ["created_at"]) with
  | none => return ()
  | some created => perform (.setLastMessageCreatedAt created)

/-- The credit of a dated keepalive: a hook that raises credits nothing. -/
def creditHeartbeat (c : Consumer) (raw : Dict) (sentAt : Moment) :
    Proc (ConsumerI F) Exc Bool :=
  if c.hasHeartbeat then do
    match ← (perform (.heartbeatFn sentAt)).attempt with
    | .ok credited => return credited
    | .error _ => do
        let _ ← convert (payloadSource raw)
        return false
  else return false

/-- `_handle_heartbeat`. -/
def handleHeartbeat (c : Consumer) (msg : ReceivedMessage) (raw : Dict) :
    Proc (ConsumerI F) Exc Outcome := do
  let credited ←
    match ← convert (parseTs c.host raw ["created_at", "produced_at"]) with
    | none => do
        let _ ← convert (payloadSource raw)
        pure false
    | some sentAt => creditHeartbeat c raw sentAt
  let _ ← perform (.ack msg)
  return if credited then .heartbeat else .heartbeatStale

/-- A malformed message goes to the dead letters; when that fails it is nacked. -/
def deadLetter (c : Consumer) (msg : ReceivedMessage) (res : ValidationResult) :
    Proc (ConsumerI F) Exc Outcome := do
  match ← (perform (.toDlq msg (.lit res.code :: .lit ": " :: res.reason))).attempt with
  | .ok _ => return .deadLettered
  | .error _ => do
      let _ ← perform (.nack msg c.parkBackoffSec)
      return .dlqError

/-- The `try` block: price, open instruments, pipeline. -/
def execute (c : Consumer) (order : ApprovedOrder) : Proc (ConsumerI F) Exc (ProcessResult F) := do
  let price ← perform (.priceFn order)
  let openInstruments ← perform .openInstrumentsFn
  (c.pipeline.process order price openInstruments).interp (route order)

/-- Settle the message by what the pipeline decided; an exception redelivers. -/
def settle (c : Consumer) (msg : ReceivedMessage) :
    Except Exc (ProcessResult F) → Proc (ConsumerI F) Exc Outcome
  | .error _ => do
      let _ ← perform (.nack msg c.parkBackoffSec)
      return .execError
  | .ok result => do
      if result.decision.durable then
        let _ ← perform (.ack msg)
        return .handled result.decision
      else
        let _ ← perform (.nack msg c.parkBackoffSec)
        return .nacked result.decision

/-- The safety gate: closed only when it is given and says no. -/
def gateOpen (c : Consumer) : Proc (ConsumerI F) Exc Bool :=
  if c.hasSubmitGate then perform .submitGateFn else return true

/-- An order within its TTL: dedup, session, safety gate, execution. -/
def handleOrder (c : Consumer) (msg : ReceivedMessage) (now : Moment) (order : ApprovedOrder) :
    Proc (ConsumerI F) Exc Outcome := do
  let duplicate ← (Pipeline.anySeen (guardKeys order)).interp (route order)
  if duplicate then
    let _ ← perform (.ack msg)
    return .duplicate
  else if !isInSession now then
    let _ ← perform (.nack msg c.parkBackoffSec)
    return .parked
  else
    let submitting ← gateOpen c
    if !submitting then
      let _ ← perform (.nack msg c.parkBackoffSec)
      return .pausedPark
    else
      let result ← (execute c order).attempt
      settle c msg result

/-- A valid envelope: TTL, freshness, then the order. -/
def handleEnvelope (c : Consumer) (msg : ReceivedMessage) (now : Moment) (raw : Dict) :
    Proc (ConsumerI F) Exc Outcome := do
  let _ ← perform .countMessage
  let expired ← convert (isExpired c.host raw now c.maxAgeSec)
  if expired then
    let _ ← perform (.ack msg)
    return .expired
  else
    let _ ← creditFreshness c raw now
    let order ← convert (ApprovedOrder.fromDict raw)
    handleOrder c msg now order

/-- `_handle`. -/
def handle (c : Consumer) (msg : ReceivedMessage) (now : Moment) :
    Proc (ConsumerI F) Exc Outcome :=
  if isHeartbeat msg.body then handleHeartbeat c msg msg.body.entries
  else do
    let res ← convert (validateEnvelope msg.body)
    if !res.ok then deadLetter c msg res else handleEnvelope c msg now msg.body.entries

/-- The loop over a batch. -/
def handleBatch (c : Consumer) (now : Moment) :
    List ReceivedMessage → Stats → Proc (ConsumerI F) Exc Stats
  | [], stats => .ret stats
  | msg :: rest, stats => do
      let outcome ← handle c msg now
      handleBatch c now rest (stats.count outcome.text)

/-- `poll_once`. -/
def pollOnce (c : Consumer) : Proc (ConsumerI F) Exc Stats := do
  let now ← perform .clock
  let _ ← perform (.setLastPollAt now)
  match ← (perform (.pull c.subscription c.prefetch)).attempt with
  | .error _ => return [("pull_error", 1)]
  | .ok batch => handleBatch c now batch []

/-- The pipeline's calls as a world of the consumer answers them. -/
def routedWorld {W : Type} (world : World (ConsumerI F) Exc W) (order : ApprovedOrder) :
    World (PipelineI F) Exc W := fun w op =>
  match op with
  | .emit c fill => world w (.emitFn order c fill)
  | .seen key => world w (.pipeline (.seen key))
  | .mark key => world w (.pipeline (.mark key))
  | .clock => world w (.pipeline .clock)
  | .validate c => world w (.pipeline (.validate c))
  | .submit c => world w (.pipeline (.submit c))
  | .persist c fill => world w (.pipeline (.persist c fill))

/-- What is proved of the pipeline in the routed world holds inside the consumer. -/
theorem wpc_route {W α : Type} {world : World (ConsumerI F) Exc W} {order : ApprovedOrder}
    {C : W → Prop} {p : Proc (PipelineI F) Exc α} {Q : Except Exc α → W → Prop} {w : W}
    (h : wpc (routedWorld world order) C p Q w) : wpc world C (p.interp (route order)) Q w := by
  apply wpc_interp _ h
  intro op w' Q' hc hstep
  cases op with
  | emit c fill => exact wpc_of_perform hc hstep
  | seen key => exact wpc_of_perform hc hstep
  | mark key => exact wpc_of_perform hc hstep
  | clock => exact wpc_of_perform hc hstep
  | validate c => exact wpc_of_perform hc hstep
  | submit c => exact wpc_of_perform hc hstep
  | persist c fill => exact wpc_of_perform hc hstep

end Consumer

end System2
