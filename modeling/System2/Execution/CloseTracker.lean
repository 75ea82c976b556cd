import System2.Execution.CloseFacts
import System2.Execution.FillProducer

/-!
# The close tracker (`execution/close_tracker.py`)

One emitter records closes: the event into the outbox first, then the trade's id into the
ledger. The sweeper looks for open trades that the broker no longer lists and reads their
close from the trade's details, or from the transaction stream.

## Implementation notes

The broker's replies are values of any type. The transport has its own
`get_transactions_idrange`, so the detour through its private requests is left out.
-/

namespace System2
open Foundation

/-! ### The trade builder -/

/-- `_parse_time` of a JSON value: `none` where it takes the current time instead. -/
def parseTime (host : LocalZone) (value : PyVal) : Except PyErr (Option Moment) :=
  if !value.truthy then .ok none
  else
    match fromisoformat (replaceZulu value.toStr) with
    | none => .ok none
    | some dt =>
        match dt.toUtc host with
        | .ok t => .ok (some t)
        | .error e => if e = .valueError then .ok none else .error e

/-- `build_managed_trade`, once its opening time is read. -/
def buildManagedTrade (brokerTradeId instrument side : String) (entryPrice : Binary64)
    (initialStopPrice takeProfitPrice : Option Binary64) (openTime : Moment)
    (granularity correlationId orderRequestId : Option String) : ManagedTrade :=
  let stop := (initialStopPrice.filter fun x => !x.eq .zero).getD .zero
  { brokerTradeId, instrument
    side := upper side
    entryPrice
    initialStopPrice := stop
    takeProfitPrice := (takeProfitPrice.filter fun x => !x.eq .zero).getD .zero
    openTime
    granularity := (granularity.filter fun s => s != "").getD "H1"
    maxDurationSec := .zero
    correlationId := correlationId.getD ""
    currentStop := stop
    atBreakeven := false
    timeActionsDone := []
    closed := false
    orderRequestId }

/-- The broker id of the trade that a fill opened, when there is one to manage. -/
def managedTradeId (fill : FillResult) : Option String :=
  if fill.realizedStatus = "FILLED" || fill.realizedStatus = "PARTIAL" then
    fill.brokerTradeId.filter fun id => id != ""
  else none

/-- `managed_trade_from_fill`, for a fill with a trade to manage. -/
def managedTradeFromFill (order : ApprovedOrder) (constructed : Option ConstructedOrder)
    (fill : FillResult) (brokerTradeId : String) (openTime : Moment) : ManagedTrade :=
  buildManagedTrade brokerTradeId order.instrument order.side
    (fill.fillPrice.getD ((constructed.map (·.entryPrice)).getD .zero))
    (fill.stopLossPrice.or (constructed.map (·.stopLoss)))
    (fill.takeProfitPrice.or (constructed.map (·.takeProfit)))
    openTime (some order.granularity) (some order.correlationId) (some order.idempotencyKey)

/-! ### The calls of the tracker -/

def txnPageSize : ℤ := 500
def txnMaxScan : ℕ := 5000

/-- The calls of the close tracker: its clock and marks, the book of trades, the broker's
transport, the close ledger, and its own fill producer with the outbox. -/
inductive CloseCall
  | clock
  | getLastSweepAt
  | putLastSweepAt (t : Moment)
  | getFallbackAt (tradeId : String)
  | putFallbackAt (tradeId : String) (t : Moment)
  | trades
  | putTrade (t : ManagedTrade)
  | getOpenTrades
  | getTrade (tradeId : String)
  | getAccountSummary
  | getTransactionsIdrange (fromId toId : ℤ)
  | ledgerSeen (key : String)
  | ledgerMark (key : String)
  | publisher (call : ProducerCall)

abbrev CloseCall.Ans : CloseCall → Type
  | .clock => Moment
  | .getLastSweepAt => Option Moment
  | .getFallbackAt _ => Option Moment
  | .trades => TradeBook
  | .getOpenTrades => PyVal
  | .getTrade _ => PyVal
  | .getAccountSummary => PyVal
  | .getTransactionsIdrange _ _ => PyVal
  | .ledgerSeen _ => Bool
  | .publisher call => call.Ans
  | _ => Unit

abbrev CloseI : Interface := ⟨CloseCall, CloseCall.Ans⟩

namespace CloseTracker

abbrev perform (op : CloseCall) : Proc CloseI Exc op.Ans := Proc.perform (I := CloseI) op

/-- A conversion inside the tracker's own code. -/
def convert {α : Type} (r : Except PyErr α) : Proc CloseI Exc α := .ofExcept (Exc.lift r)

/-! ### The transaction stream -/

/-- `fetch_transaction_range`. -/
def fetchTransactionRange (fromId toId : ℤ) : Proc CloseI Exc (List PyVal) := do
  let page ← perform (.getTransactionsIdrange fromId toId)
  convert (if page.truthy then page.iter else .ok [])

/-- `_last_transaction_id`: `None` when anything fails. -/
def lastTransactionId : Proc CloseI Exc (Option ℤ) := do
  let read : Proc CloseI Exc (Option ℤ) := do
    let summary ← perform .getAccountSummary
    let raw ← convert (summary.orEmptyGet "lastTransactionID")
    convert (if raw.isNull then .ok none else raw.toInt.map some)
  match ← read.attempt with
  | .ok id => return id
  | .error _ => return none

/-- The highest transaction id of a page, where it can be read, and the end of the page. -/
def highestId (hi : ℤ) : List PyVal → Except PyErr ℤ
  | [] => .ok hi
  | txn :: rest =>
      match (txn.getAttrGet "id").bind PyVal.toInt with
      | .ok id => highestId (max hi id) rest
      | .error e => if e = .typeError ∨ e = .valueError then highestId hi rest else .error e

/-- What a scan knows: every transaction under its id, and the last fill that closed the trade
with its entry for the trade. -/
structure TxnScan where
  txnById : Dict
  found : Option (Dict × Dict)

/-- One entry of `tradesClosed`. -/
def TxnScan.readClosed (scan : TxnScan) (tid : String) (txn : Dict) (closed : PyVal) :
    Except PyErr TxnScan := do
  let named ← closed.getAttrGet "tradeID"
  return if named.toStr = tid then { scan with found := some (txn, closed.entries) } else scan

/-- One transaction. -/
def TxnScan.read (tid : String) (scan : TxnScan) (txn : PyVal) : Except PyErr TxnScan := do
  let id ← txn.getAttrGet "id"
  let scan := { scan with txnById := scan.txnById.set id.toStr txn }
  if !(txn.entries.get "type").isStr "ORDER_FILL" then return scan
  else
    let listed := txn.entries.get "tradesClosed"
    let entries ← if listed.truthy then listed.iter else .ok []
    entries.foldlM (fun scan closed => scan.readClosed tid txn.entries closed) scan

/-- The pages from `lo` on. A page has a transaction, so there are no more pages than
transactions that may be scanned. -/
def scanPages (tid : String) (toId : ℤ) : ℕ → ℤ → ℕ → TxnScan → Proc CloseI Exc TxnScan
  | 0, _, _, scan => .ret scan
  | pages + 1, lo, scanned, scan =>
      if toId < lo || txnMaxScan ≤ scanned then .ret scan
      else do
        let hi := min (lo + txnPageSize - 1) toId
        let batch ← fetchTransactionRange lo hi
        if batch.isEmpty then return scan
        else
          let scan ← convert (batch.foldlM (TxnScan.read tid) scan)
          let highest ← convert (highestId hi batch)
          scanPages tid toId pages (highest + 1) (scanned + batch.length) scan

/-- A closing fill: the transaction, its entry for the trade, the transactions by id. -/
structure CloseTransaction where
  txn : Dict
  closed : Dict
  txnById : Dict

/-- Where a scan ends: the id that is given, else the account's last one. -/
def scanEnd : Option ℤ → Proc CloseI Exc (Option ℤ)
  | some id => .ret (some id)
  | none => lastTransactionId

/-- `find_close_transaction`, over `iter_transactions`. -/
def findCloseTransaction (tradeId : String) (toId : Option ℤ) :
    Proc CloseI Exc (Option CloseTransaction) :=
  match (PyVal.str tradeId).toInt with
  | .error _ => .ret none
  | .ok fromId => do
      match ← scanEnd toId with
      | none => return none
      | some lastId =>
          if lastId < fromId then return none
          else
            let scan ← scanPages tradeId lastId txnMaxScan fromId 0 ⟨[], none⟩
            return scan.found.map fun (txn, closed) => ⟨txn, closed, scan.txnById⟩

/-- `resolve_close_from_transactions`: only the scan itself is guarded. -/
def resolveCloseFromTransactions (tradeId instrument : String) :
    Proc CloseI Exc (Option (CloseFacts × String)) := do
  match ← (findCloseTransaction tradeId none).attempt with
  | .error _ => return none
  | .ok none => return none
  | .ok (some located) => do
      let facts ←
        convert (factsFromTransaction located.txn located.closed instrument located.txnById)
      return facts.map fun facts => (facts, exitReasonFromTransaction located.txn)

end CloseTracker

/-! ### Emission -/

/-- The settings of a `CloseEmitter`, and how many rounds a flush of the outbox makes. -/
structure CloseEmitter where
  topic : String
  outboxTopic : String
  rounds : ℕ

namespace CloseEmitter

open CloseTracker

/-- The emitter's own fill producer, on the same outbox. -/
def publisher (em : CloseEmitter) : FillProducer := ⟨em.topic, em.outboxTopic⟩

/-- `flush`. -/
def flush (em : CloseEmitter) : Proc CloseI Exc ℕ := do
  let run : Proc CloseI Exc ℕ := (em.publisher.flush em.rounds).interp fun call =>
    perform (.publisher call)
  match ← run.attempt with
  | .ok delivered => return delivered
  | .error _ => return 0

/-- The `try` block of `emit`: the ledger, the event, the outbox, the ledger again. The answer
says whether something was written. -/
def record (em : CloseEmitter) (t : ManagedTrade) (facts : CloseFacts) (exitReason : String) :
    Proc CloseI Exc Bool := do
  let seen ← perform (.ledgerSeen t.brokerTradeId)
  if seen then return false
  else
    let eventTime ← perform (.publisher .utcNowIso)
    let event ← convert (buildCloseEvent t facts exitReason eventTime)
    let _ ← perform (.publisher (.outboxPublish em.outboxTopic event))
    let _ ← perform (.ledgerMark t.brokerTradeId)
    return true

/-- `emit`: is the close recorded, now or before? -/
def emit (em : CloseEmitter) (t : ManagedTrade) (facts : CloseFacts) (exitReason : String) :
    Proc CloseI Exc Bool := do
  match ← (em.record t facts exitReason).attempt with
  | .error _ => return false
  | .ok false => return true
  | .ok true => do
      let _ ← em.flush
      return true

/-- `emit_broker_close`. -/
def emitBrokerClose (em : CloseEmitter) (t : ManagedTrade) (resp : PyVal) (exitReason : String) :
    Proc CloseI Exc Bool :=
  match factsFromCloseResponse resp with
  | .error _ => .ret false
  | .ok none => .ret false
  | .ok (some facts) => em.emit t facts exitReason

end CloseEmitter

/-! ### The sweep -/

/-- The settings of a `CloseSweeper`. -/
structure CloseSweeper where
  emitter : CloseEmitter
  intervalSec : Binary64
  txnFallbackIntervalSec : Binary64

/-- What the details of a vanished trade come to. -/
inductive Lookup
  | stillOpen
  | unusable
  | resolved (facts : CloseFacts) (exitReason : String)

namespace CloseSweeper

open CloseTracker

/-- Has less than an interval passed since the mark? -/
def within (now : Moment) (intervalSec : Binary64) (mark : Option Moment) : Bool :=
  mark.any fun last => (now.secondsSince last).lt intervalSec

/-- `_fallback_due`: if it is, the mark is set. -/
def fallbackDue (s : CloseSweeper) (tradeId : String) (now : Moment) : Proc CloseI Exc Bool := do
  let last ← perform (.getFallbackAt tradeId)
  if within now s.txnFallbackIntervalSec last then return false
  else
    let _ ← perform (.putFallbackAt tradeId now)
    return true

/-- The ids of the broker's open list. -/
def openIds : List PyVal → Except PyErr (List String)
  | [] => .ok []
  | t :: rest => do
      let id ← t.getAttrGet "id"
      let ids ← openIds rest
      return id.toStr :: ids

/-- The reply to `get_trade`: details that are there and not CLOSED are those of an open
trade. -/
def readDetails (details : PyVal) : Except PyErr Lookup := do
  if !details.truthy then return .unusable
  else
    let state ← details.getAttrGet "state"
    if !state.isStr "CLOSED" then return .stillOpen
    else
      match ← factsFromTradeDetails details.entries with
      | none => return .unusable
      | some facts => do
          let exitReason ← exitReasonFromTradeDetails details.entries
          return .resolved facts exitReason

/-- What one trade adds to the counts of a sweep. -/
structure Swept where
  closed : Bool
  viaTransactions : Bool

def Swept.none : Swept := ⟨false, false⟩

/-- Emit a close that was found. The trade is marked when the close is recorded. -/
def conclude (s : CloseSweeper) (t : ManagedTrade) (facts : CloseFacts) (exitReason : String)
    (viaTransactions : Bool) : Proc CloseI Exc Swept := do
  let recorded ← s.emitter.emit t facts exitReason
  if recorded then
    let _ ← perform (.putTrade { t with closed := true })
    return ⟨true, viaTransactions⟩
  else return ⟨false, viaTransactions⟩

/-- The transaction stream, on its own cadence. -/
def fallback (s : CloseSweeper) (now : Moment) (t : ManagedTrade) : Proc CloseI Exc Swept := do
  let due ← s.fallbackDue t.brokerTradeId now
  if !due then return .none
  else
    match ← resolveCloseFromTransactions t.brokerTradeId t.instrument with
    | none => return .none
    | some (facts, exitReason) => s.conclude t facts exitReason true

/-- One trade that is not in the open list. Only the request itself is guarded. -/
def sweepVanished (s : CloseSweeper) (now : Moment) (t : ManagedTrade) :
    Proc CloseI Exc Swept := do
  let details ← (perform (.getTrade t.brokerTradeId)).attempt
  match ← convert (readDetails (details.toOption.getD .null)) with
  | .stillOpen => return .none
  | .unusable => s.fallback now t
  | .resolved facts exitReason => s.conclude t facts exitReason false

/-- The loop over the candidates: what each of them that vanished came to. -/
def sweepAll (s : CloseSweeper) (now : Moment) (openIds : List String) :
    List ManagedTrade → Proc CloseI Exc (List Swept)
  | [] => .ret []
  | t :: rest =>
      if openIds.contains t.brokerTradeId then sweepAll s now openIds rest
      else do
        let swept ← s.sweepVanished now t
        let others ← sweepAll s now openIds rest
        return swept :: others

/-- The counts of a sweep. -/
def sweepStats (candidates : ℕ) (swept : List Swept) : Stats :=
  let fallbacks := swept.countP (·.viaTransactions)
  [("candidates", candidates), ("closed", swept.countP (·.closed))] ++
    if fallbacks = 0 then [] else [("via_transactions", fallbacks)]

/-- The open list is read once for all candidates. -/
def sweepCandidates (s : CloseSweeper) (now : Moment) (candidates : List ManagedTrade) :
    Proc CloseI Exc Stats := do
  let listing : Proc CloseI Exc (List String) := do
    let listed ← perform .getOpenTrades
    convert (listed.iter.bind openIds)
  match ← listing.attempt with
  | .error _ => return [("sweep_error", 1)]
  | .ok ids => do
      let swept ← s.sweepAll now ids candidates
      return sweepStats candidates.length swept

/-- The part of `sweep` behind the throttle. -/
def sweepNow (s : CloseSweeper) (now : Moment) : Proc CloseI Exc Stats := do
  let _ ← perform (.putLastSweepAt now)
  let _ ← s.emitter.flush
  let book ← perform .trades
  let candidates := book.trades.filter fun t => !t.closed
  if candidates.isEmpty then return [("candidates", 0)]
  else s.sweepCandidates now candidates

/-- `sweep`. -/
def sweep (s : CloseSweeper) : Proc CloseI Exc Stats := do
  let now ← perform .clock
  let last ← perform .getLastSweepAt
  if within now s.intervalSec last then return [] else s.sweepNow now

end CloseSweeper

/-! ### What the parts call -/

/-- A request for the account's transactions. -/
def CloseCall.Reads : CloseCall → Prop
  | .getAccountSummary => True
  | .getTransactionsIdrange _ _ => True
  | _ => False

/-- A call that reads or sets the mark of a trade's last look at the stream. -/
def CloseCall.Paces : CloseCall → Prop
  | .getFallbackAt _ => True
  | .putFallbackAt _ _ => True
  | _ => False

/-- A call of the delivery of events that are in the outbox. -/
def CloseCall.Delivers : CloseCall → Prop
  | .publisher op => FillProducer.Delivers op
  | _ => False

/-- A call beside the closes: a request for transactions, a mark, or a call of the delivery. -/
def CloseCall.Aside : CloseCall → Prop
  | .getAccountSummary | .getTransactionsIdrange _ _ => True
  | .getFallbackAt _ | .putFallbackAt _ _ => True
  | .publisher op => FillProducer.Delivers op
  | _ => False

section Aside

variable {op : CloseCall}

theorem CloseCall.Reads.aside (h : op.Reads) : op.Aside := by
  cases op with
  | getAccountSummary => exact trivial
  | getTransactionsIdrange fromId toId => exact trivial
  | _ => exact h.elim

theorem CloseCall.Paces.aside (h : op.Paces) : op.Aside := by
  cases op with
  | getFallbackAt tradeId => exact trivial
  | putFallbackAt tradeId t => exact trivial
  | _ => exact h.elim

theorem CloseCall.Delivers.aside (h : op.Delivers) : op.Aside := by
  cases op with
  | publisher call => exact h
  | _ => exact h.elim

end Aside

namespace CloseTracker

open CloseCall (Reads)

theorem along_convert {α : Type} {allowed : (op : CloseCall) → Except Exc op.Ans → Prop}
    {P : CloseCall → Prop} (r : Except PyErr α) : (convert r).Along allowed P :=
  Proc.along_ofExcept _

theorem lastTransactionId_reads : lastTransactionId.Only Reads := by
  refine ((Proc.along_perform trivial).bind fun _ => (along_convert _).bind fun _ =>
    along_convert _).attempt.bind fun r => ?_
  cases r with
  | ok id => exact trivial
  | error e => exact trivial

theorem scanPages_reads (tid : String) (toId : ℤ) (pages : ℕ) :
    ∀ (lo : ℤ) (scanned : ℕ) (scan : TxnScan),
      (scanPages tid toId pages lo scanned scan).Only Reads := by
  induction pages with
  | zero => exact fun _ _ _ => trivial
  | succ pages ih =>
      intro lo scanned scan
      unfold scanPages
      split_ifs
      · exact trivial
      · refine ((Proc.along_perform trivial).bind fun _ => along_convert _).bind fun batch => ?_
        split_ifs
        · exact trivial
        · exact (along_convert _).bind fun _ => (along_convert _).bind fun _ => ih _ _ _

theorem findCloseTransaction_reads (tradeId : String) (toId : Option ℤ) :
    (findCloseTransaction tradeId toId).Only Reads := by
  unfold findCloseTransaction
  cases (PyVal.str tradeId).toInt with
  | error e => exact trivial
  | ok fromId =>
      refine Proc.Along.bind ?_ fun lastId => ?_
      · cases toId with
        | none => exact lastTransactionId_reads
        | some id => exact trivial
      · cases lastId with
        | none => exact trivial
        | some lastId =>
            dsimp only
            split_ifs
            · exact trivial
            · exact (scanPages_reads _ _ _ _ _ _).bind fun _ => trivial

theorem resolveCloseFromTransactions_reads (tradeId instrument : String) :
    (resolveCloseFromTransactions tradeId instrument).Only Reads := by
  simp only [resolveCloseFromTransactions, Proc.bind_eq]
  apply Proc.Along.bind (findCloseTransaction_reads tradeId none).attempt
  intro r
  match r with
  | .error e => exact trivial
  | .ok none => exact trivial
  | .ok (some located) => exact (along_convert _).bind fun _ => trivial

end CloseTracker

theorem CloseEmitter.flush_delivers (em : CloseEmitter) : em.flush.Only CloseCall.Delivers := by
  refine Proc.Along.bind (Proc.Along.attempt (Proc.Only.interp
    (em.publisher.flush_delivers em.rounds) fun _ h => Proc.along_perform h)) fun r => ?_
  cases r with
  | ok delivered => exact trivial
  | error e => exact trivial

/-- A call of the emission of a trade's close: the ledger under its id, an event that is built from
it, the delivery. -/
def CloseCall.Emits (em : CloseEmitter) (t : ManagedTrade) : CloseCall → Prop
  | .ledgerSeen key => key = t.brokerTradeId
  | .ledgerMark key => key = t.brokerTradeId
  | .publisher (.outboxPublish topic event) => topic = em.outboxTopic ∧
      ∃ facts exitReason eventTime, buildCloseEvent t facts exitReason eventTime = .ok event
  | .publisher _ => True
  | _ => False

theorem CloseCall.Delivers.emits {em : CloseEmitter} {t : ManagedTrade} {op : CloseCall}
    (h : op.Delivers) : op.Emits em t := by
  cases op with
  | publisher call =>
      cases call with
      | outboxPublish topic body => exact h.elim
      | _ => trivial
  | _ => exact h.elim

theorem CloseEmitter.emit_emits (em : CloseEmitter) (t : ManagedTrade) (facts : CloseFacts)
    (exitReason : String) : (em.emit t facts exitReason).Only (CloseCall.Emits em t) := by
  refine Proc.Along.bind (Proc.Along.attempt ?_) fun r => ?_
  · refine Proc.Along.bind (Proc.along_perform rfl) fun seen => ?_
    cases seen with
    | true => exact trivial
    | false =>
        refine Proc.Along.bind (Proc.along_perform trivial) fun eventTime => ?_
        cases hbuild : buildCloseEvent t facts exitReason eventTime with
        | error e => exact trivial
        | ok event =>
            have hpublish : CloseCall.Emits em t (.publisher (.outboxPublish em.outboxTopic event)) :=
              ⟨rfl, facts, exitReason, eventTime, hbuild⟩
            have hmark : CloseCall.Emits em t (.ledgerMark t.brokerTradeId) := rfl
            exact Proc.along_perform_bind (I := CloseI) hpublish fun _ _ =>
              Proc.along_perform_bind (I := CloseI) hmark fun _ _ => trivial
  · match r with
    | .error e => exact trivial
    | .ok false => exact trivial
    | .ok true => exact (em.flush_delivers.mono fun _ h => h.emits).bind fun _ => trivial

theorem CloseSweeper.fallbackDue_paces (s : CloseSweeper) (tradeId : String) (now : Moment) :
    (s.fallbackDue tradeId now).Only CloseCall.Paces := by
  simp only [fallbackDue, Proc.bind_eq]
  refine (Proc.along_perform trivial).bind fun last => ?_
  cases within now s.txnFallbackIntervalSec last with
  | true => exact trivial
  | false => exact (Proc.along_perform trivial).bind fun _ => trivial

end System2
