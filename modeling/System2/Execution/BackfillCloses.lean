import System2.Execution.StartupReconcile
import System2.Execution.CloseScan

/-!
# The backfill tool (`tools/backfill_closes.py`)

The tool goes through the fill confirmations of the outbox, newest first, and looks every trade
up that they tell of. A close that is dated at or after a given time is emitted the way the
sweeper emits it.

## Implementation notes

The envelopes are given as decoded objects. What the tool prints is what a trade comes to; the
time it asks for when an envelope has none is its clock.
-/

namespace System2
open Foundation

/-- `_parse_since`: a date without an offset is one in UTC. -/
def parseSince (value : String) : Option DateTime :=
  (fromisoformat (replaceZulu value)).map fun dt =>
    { dt with utcoffset := some (dt.utcoffset.getD 0) }

/-- The arguments of the tool: without an emitter it is a dry run. -/
structure BackfillTool where
  since : DateTime
  emitter : Option CloseEmitter

/-- What the tool prints of a trade. A trade that is still open, or whose close is too old or has
no time that can be read, is passed over. -/
inductive Fate
  | passed
  | emitted
  | skipped
  deriving DecidableEq

namespace BackfillTool

open CloseTracker
open StartupReconcile (recoveredText)

attribute [local irreducible] resolveCloseFromTransactions

/-- The rest of `_trade_from_envelope`: the payload has a trade. -/
def rebuildTrade (host : LocalZone) (envelope payload : Dict) : Proc CloseI Exc ManagedTrade := do
  let entryPrice ← convert (payload.get "fill_price").floatOrZero
  let stop ← convert (payload.get "stop_loss_price").floatIf
  let target ← convert (payload.get "take_profit_price").floatIf
  let openTime ← match ← convert (parseTime host (payload.get "fill_time")) with
    | some t => Proc.ret t
    | none => perform .clock
  return buildManagedTrade (payload.get "broker_trade_id").toStr
    (payload.getOr "instrument" (.str "")).toStr (payload.getOr "side" (.str "BUY")).toStr
    entryPrice stop target openTime (recoveredText (envelope.get "granularity"))
    (recoveredText (envelope.get "correlation_id"))
    (recoveredText (envelope.get "idempotency_key"))

/-- `_trade_from_envelope`. -/
def tradeFromEnvelope (host : LocalZone) (envelope : Dict) :
    Proc CloseI Exc (Option ManagedTrade) := do
  let status ← convert ((envelope.get "payload").orEmptyGet "realized_status")
  let payload := (envelope.get "payload").entries
  if !(status.isStr "FILLED" || status.isStr "PARTIAL") then return none
  else if !(payload.get "broker_trade_id").truthy then return none
  else
    let t ← rebuildTrade host envelope payload
    return some t

/-- The details of a trade, when there are any. -/
def readDetails (details : PyVal) : Except PyErr Lookup := do
  let state ← details.getAttrGet "state"
  if state.isStr "CLOSED" then
    match ← factsFromTradeDetails details.entries with
    | none => return .unusable
    | some facts => do
        let exitReason ← exitReasonFromTradeDetails details.entries
        return .resolved facts exitReason
  else return .stillOpen

/-- The transaction stream is asked where there are no details. -/
def lookUp (t : ManagedTrade) (details : PyVal) : Proc CloseI Exc Lookup :=
  if details.truthy then convert (readDetails details)
  else do
    match ← resolveCloseFromTransactions t.brokerTradeId t.instrument with
    | none => return .unusable
    | some (facts, exitReason) => return .resolved facts exitReason

/-- Emit a close, unless the ledger has it. -/
def emitOnce (em : CloseEmitter) (t : ManagedTrade) (facts : CloseFacts) (exitReason : String) :
    Proc CloseI Exc Fate := do
  let seen ← perform (.ledgerSeen t.brokerTradeId)
  if seen then return .skipped
  else
    let recorded ← em.emit t facts exitReason
    return if recorded then .emitted else .skipped

/-- A dry run prints the event that would be written. -/
def dryRun (t : ManagedTrade) (facts : CloseFacts) (exitReason : String) :
    Proc CloseI Exc Fate := do
  let eventTime ← perform (.publisher .utcNowIso)
  let _ ← convert (buildCloseEvent t facts exitReason eventTime)
  return .emitted

/-- The close of a trade, by its date. -/
def replay (tool : BackfillTool) (t : ManagedTrade) (facts : CloseFacts) (exitReason : String) :
    Proc CloseI Exc Fate :=
  match fromisoformat (replaceZulu facts.closeTime.toStr) with
  | none => .ret .passed
  | some closedAt => do
      let tooOld ← convert (closedAt.isBefore tool.since)
      if tooOld then return .passed
      else
        match tool.emitter with
        | none => dryRun t facts exitReason
        | some em => emitOnce em t facts exitReason

/-- One trade. Only the request for its details is guarded. -/
def backfillTrade (tool : BackfillTool) (t : ManagedTrade) : Proc CloseI Exc Fate := do
  let details ← (perform (.getTrade t.brokerTradeId)).attempt
  match ← lookUp t (details.toOption.getD .null) with
  | .stillOpen => return .passed
  | .unusable => return .skipped
  | .resolved facts exitReason => tool.replay t facts exitReason

/-- The loop of `main` over the envelopes: every trade that they tell of is looked at once. -/
def backfill (tool : BackfillTool) (host : LocalZone) :
    List String → List Dict → Proc CloseI Exc (List Fate)
  | _, [] => .ret []
  | seenIds, envelope :: rest => do
      match ← tradeFromEnvelope host envelope with
      | none => tool.backfill host seenIds rest
      | some t =>
          if seenIds.contains t.brokerTradeId then tool.backfill host seenIds rest
          else do
            let fate ← tool.backfillTrade t
            let others ← tool.backfill host (t.brokerTradeId :: seenIds) rest
            return fate :: others

/-- What `main` reports at its end: the trades it scanned, what it emitted and what it skipped. -/
def main (tool : BackfillTool) (host : LocalZone) (envelopes : List Dict) :
    Proc CloseI Exc (ℕ × ℕ × ℕ) := do
  let fates ← tool.backfill host [] envelopes
  return (fates.length, fates.count .emitted, fates.count .skipped)

/-! ### What the parts call -/

/-- A trade without an opening time is opened now. -/
theorem rebuildTrade_clock {host : LocalZone} {envelope : Dict} (payload : Dict) :
    (rebuildTrade host envelope payload).Only fun op => op = CloseCall.clock := by
  have hclock : (perform .clock).Only fun op => op = CloseCall.clock := Proc.along_perform rfl
  refine (along_convert _).bind fun entryPrice => (along_convert _).bind fun stop =>
    (along_convert _).bind fun target => (along_convert _).bind fun read => ?_
  cases read with
  | none => exact hclock.bind fun _ => trivial
  | some time => exact trivial

theorem tradeFromEnvelope_clock {host : LocalZone} {envelope : Dict} :
    (tradeFromEnvelope host envelope).Only fun op => op = CloseCall.clock := by
  refine (along_convert _).bind fun status => ?_
  dsimp only
  split_ifs
  · exact trivial
  · exact trivial
  · exact (rebuildTrade_clock _).bind fun _ => trivial

theorem lookUp_reads (t : ManagedTrade) (details : PyVal) :
    (lookUp t details).Only CloseCall.Reads := by
  unfold lookUp
  split_ifs
  · exact along_convert _
  · rw [Proc.bind_eq]
    apply Proc.Along.bind (resolveCloseFromTransactions_reads t.brokerTradeId t.instrument)
    intro found
    match found with
    | none => exact trivial
    | some (facts, exitReason) => exact trivial

end BackfillTool

end System2
