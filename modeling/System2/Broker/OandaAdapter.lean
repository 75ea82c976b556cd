import System2.Execution.FillProducer

/-!
# The broker adapter (`broker/oanda_adapter.py`)

Order submission: the payload, the look at the broker's recent transactions, the
retry loop and the confirmation of the stops. The transport is a set of calls;
the cache of instrument specifications is another.

## Implementation notes

Replies of the transport are JSON objects. Instrument names are ASCII. The
decimal context has 28 digits, and a result beyond them is `InvalidOperation`.
-/

namespace System2
open Foundation

def jpyPip : Binary64 := .ofRat (1 / 100)
def stdPip : Binary64 := .ofRat (1 / 10000)
def jpyDisplayPrecision : ℤ := 3
def stdDisplayPrecision : ℤ := 5
def reconcileTransactionWindow : ℕ := 200

/-- Is the instrument quoted in yen? -/
def isJpyQuoted (instrument : String) : Bool := (upper instrument).endsWith "_JPY"

def pipSize (instrument : String) : Binary64 := if isJpyQuoted instrument then jpyPip else stdPip

/-- `compute_slippage_pips`; a pip is not zero, so the quotient exists. -/
def computeSlippagePips (expectedPrice fillPrice : Binary64) (instrument : String) : Binary64 :=
  (((fillPrice.sub expectedPrice).div? (pipSize instrument)).getD .nan).roundDigits 2

def clientIdPrefix : String := "sb-"

def clientOrderId (idempotencyKey : String) : String := clientIdPrefix ++ idempotencyKey

theorem clientOrderId_injective {k k' : String} (h : clientOrderId k = clientOrderId k') :
    k = k' := by
  simpa [clientOrderId] using h

/-! ### Prices on the instrument's grid -/

structure InstrumentSpec where
  name : String
  displayPrecision : ℤ
  pipLocation : ℤ

/-- `InstrumentSpec.from_broker_row`. -/
def InstrumentSpec.fromBrokerRow (row : Dict) : Except PyErr InstrumentSpec := do
  let name := (← row.index "name").toStr
  let displayPrecision ← (← row.index "displayPrecision").toInt
  let pipLocation ← (← row.index "pipLocation").toInt
  return { name, displayPrecision, pipLocation }

def defaultDisplayPrecision (instrument : String) : ℤ :=
  if isJpyQuoted instrument then jpyDisplayPrecision else stdDisplayPrecision

/-- A decimal that is a multiple of `10 ^ -places`. -/
structure GridPrice where
  coefficient : ℤ
  places : ℕ

namespace GridPrice

def value (p : GridPrice) : ℚ := (p.coefficient : ℚ) / 10 ^ p.places

/-- The `f` format of the decimal. -/
def text (p : GridPrice) : String := fixedPoint p.coefficient p.places

/-- `float(p)`. -/
def toFloat (p : GridPrice) : Binary64 := .ofRat p.value

end GridPrice

inductive Rounding
  | halfUp | floor | ceiling

/-- Round to an integer; `halfUp` sends halves away from zero. -/
def Rounding.apply (r : Rounding) (q : ℚ) : ℤ :=
  match r with
  | .floor => ⌊q⌋
  | .ceiling => ⌈q⌉
  | .halfUp => if 0 ≤ q then ⌊q + 1 / 2⌋ else ⌈q - 1 / 2⌉

/-- The direction of rounding toward a reference. Comparing with a NaN is an
`InvalidOperation`. -/
def roundingToward (value : ℚ) (reference : Binary64) : Except PyErr Rounding :=
  match reference with
  | .nan => .error .invalidOperation
  | .inf negative => .ok (if negative then .floor else .ceiling)
  | r =>
      let q := r.reprValue?.getD 0
      .ok (if q < value then .floor else if value < q then .ceiling else .halfUp)

/-- `quantize_price` of a float, with the decimals already decided. The sign of a negative price
that rounds to zero is lost: its text is `0.00000`, where the code has `-0.00000`. -/
def quantizePrice (price : Binary64) (instrument : String) (decimals : ℤ)
    (toward : Option Binary64) : Except Exc GridPrice :=
  if decimals < 0 then
    .error ⟨.builtin .valueError,
      [.lit instrument, .lit ": negative display precision ", .val (.int decimals)]⟩
  else
    match price.reprValue? with
    | none => .error ⟨.builtin .valueError,
        [.lit instrument, .lit ": price ", .repr (.float price), .lit " is not finite"]⟩
    | some value =>
        match toward.elim (.ok .halfUp) (roundingToward value) with
        | .error e => .error (.ofErr e)
        | .ok rounding =>
            let coefficient := rounding.apply (value * 10 ^ decimals.toNat)
            if 28 < numDigits coefficient.natAbs then .error (.ofErr .invalidOperation)
            else .ok ⟨coefficient, decimals.toNat⟩

/-! ### What the transactions say -/

/-- `transaction_client_order_id`. -/
def transactionClientOrderId (txn : Dict) : Except PyErr (Option String) := do
  let raw := txn.get "clientOrderID"
  if raw.truthy then return some raw.toStr
  else
    let id ← (txn.get "clientExtensions").orEmptyGet "id"
    return if id.truthy then some id.toStr else none

/-- `str(txn.get("type") or "").upper()`. -/
def transactionType (txn : Dict) : String :=
  let t := txn.get "type"
  upper (if t.truthy then t.toStr else "")

/-- The verdict on one client order id; a fill comes with its transaction. -/
inductive PriorVerdict
  | filled (txn : Dict)
  | unfilled
  | pending
  | absent

/-- What the scan has seen so far of one client order id. -/
structure Sightings where
  fill : Option Dict
  sawOrder : Bool
  sawTerminal : Bool

/-- One transaction with the id we look for. -/
def Sightings.note (s : Sightings) (txn : Dict) : Sightings :=
  let type := transactionType txn
  if type = "ORDER_FILL" then { s with fill := some txn }
  else if type = "ORDER_CANCEL" || type.endsWith "_REJECT" then { s with sawTerminal := true }
  else { s with sawOrder := true }

def Sightings.verdict (s : Sightings) : PriorVerdict :=
  match s.fill with
  | some txn => .filled txn
  | none => if s.sawTerminal then .unfilled else if s.sawOrder then .pending else .absent

/-- The scan of `prior_submission_verdict`. -/
def scanTransactions (cid : String) : List Dict → Sightings → Except PyErr Sightings
  | [], s => .ok s
  | txn :: rest, s =>
      match transactionClientOrderId txn with
      | .error e => .error e
      | .ok id => scanTransactions cid rest (if id = some cid then s.note txn else s)

/-- `prior_submission_verdict`. -/
def priorSubmissionVerdict (transactions : List Dict) (cid : String) :
    Except PyErr PriorVerdict :=
  (scanTransactions cid transactions ⟨none, false, false⟩).map Sightings.verdict

/-! ### The adapter -/

/-- The calls of the adapter: the transport, its clock and the specification cache. -/
inductive BrokerCall
  | createOrder (payload : PyVal)
  | getRecentTransactions (count : ℕ)
  | getOpenTrades
  | getTrade (tradeId : String)
  | modifyTradeStop (tradeId : String) (stopPrice : Binary64) (instrument : String)
  | getAccountInstruments (instruments : List String)
  | sleep (sec : Binary64)
  | cachedSpec (key : String)
  | cacheSpec (key : String) (spec : InstrumentSpec)

abbrev BrokerCall.Ans : BrokerCall → Type
  | .createOrder _ => Dict
  | .getRecentTransactions _ => List Dict
  | .getOpenTrades => List Dict
  | .getTrade _ => Option Dict
  | .modifyTradeStop _ _ _ => Dict
  | .getAccountInstruments _ => List Dict
  | .sleep _ => Unit
  | .cachedSpec _ => Option InstrumentSpec
  | .cacheSpec _ _ => Unit

abbrev BrokerI : Interface := ⟨BrokerCall, BrokerCall.Ans⟩

/-- The settings of the adapter and the optional capabilities of its transport. -/
structure OandaAdapter where
  retryMax : ℤ
  backoffSec : Binary64
  slippageTolerancePips : Binary64
  hasRecentTransactions : Bool
  hasAccountInstruments : Bool

namespace OandaAdapter

abbrev perform (op : BrokerCall) : Proc BrokerI Exc op.Ans := Proc.perform (I := BrokerI) op

/-- A conversion inside the adapter's own code. -/
abbrev convert {α : Type} (r : Except PyErr α) : Proc BrokerI Exc α := .ofExcept (Exc.lift r)

/-- The rows of a specification reply go to the cache; unreadable ones are skipped. -/
def cacheRows : List Dict → Proc BrokerI Exc Unit
  | [] => .ret ()
  | row :: rest =>
      match InstrumentSpec.fromBrokerRow row with
      | .ok spec => do
          let _ ← perform (.cacheSpec (upper spec.name) spec)
          cacheRows rest
      | .error e =>
          if e = .keyError ∨ e = .typeError ∨ e = .valueError then cacheRows rest
          else .raise (.ofErr e)

/-- `instrument_spec`: from the cache, else from the broker; a failed lookup is not cached. -/
def instrumentSpec (a : OandaAdapter) (instrument : String) :
    Proc BrokerI Exc (Option InstrumentSpec) := do
  let key := upper instrument
  match ← perform (.cachedSpec key) with
  | some spec => return some spec
  | none =>
      if !a.hasAccountInstruments then return none
      else
        match ← (perform (.getAccountInstruments [key])).attempt with
        | .error _ => return none
        | .ok rows => do
            let _ ← cacheRows rows
            perform (.cachedSpec key)

def displayPrecision (a : OandaAdapter) (instrument : String) : Proc BrokerI Exc ℤ := do
  match ← instrumentSpec a instrument with
  | some spec => return spec.displayPrecision
  | none => return defaultDisplayPrecision instrument

/-- The order that goes over the wire. -/
def wireOrder (order : ConstructedOrder) (units : ℤ) (stopLoss takeProfit : GridPrice) : PyVal :=
  let cid := PyVal.str (clientOrderId order.idempotencyKey)
  .dict [("order", .dict [("type", .str "MARKET"), ("instrument", .str order.instrument),
    ("units", .str (toString units)), ("timeInForce", .str "FOK"),
    ("positionFill", .str "DEFAULT"), ("clientExtensions", .dict [("id", cid)]),
    ("tradeClientExtensions", .dict [("id", cid)]),
    ("stopLossOnFill", .dict [("price", .str stopLoss.text)]),
    ("takeProfitOnFill", .dict [("price", .str takeProfit.text)])])]

/-- The payload, once the precision is known. -/
def payloadAt (order : ConstructedOrder) (decimals : ℤ) : Except Exc PyVal := do
  let stopLoss ← quantizePrice order.stopLoss order.instrument decimals (some order.entryPrice)
  let takeProfit ← quantizePrice order.takeProfit order.instrument decimals (some order.entryPrice)
  let _ ← assertProtectivePrices order.instrument (if upper order.side = "BUY" then 1 else -1)
    order.entryPrice (some stopLoss.toFloat) (some takeProfit.toFloat)
  let units ← Exc.lift order.units.toInt
  return wireOrder order units stopLoss takeProfit

/-- A payload is the wire order of the order's own units. -/
theorem payloadAt_ok {order : ConstructedOrder} {decimals : ℤ} {p : PyVal}
    (h : payloadAt order decimals = .ok p) :
    ∃ units sl tp, order.units.toInt = .ok units ∧ p = wireOrder order units sl tp := by
  simp only [payloadAt, bind, Except.bind] at h
  split at h
  · cases h
  · split at h
    · cases h
    · split at h
      · cases h
      · rename_i sl _ _ tp _ _ _ _
        cases hunits : order.units.toInt with
        | error e =>
            rw [hunits] at h
            cases h
        | ok units =>
            rw [hunits] at h
            cases h
            exact ⟨units, sl, tp, rfl, rfl⟩

/-- `_build_payload`. -/
def buildPayload (a : OandaAdapter) (order : ConstructedOrder) : Proc BrokerI Exc PyVal := do
  let decimals ← displayPrecision a order.instrument
  .ofExcept (payloadAt order decimals)

/-- `_reject`. -/
def reject (order : ConstructedOrder) (expected : Binary64) (modelSetId : Option String)
    (reason : PyVal) (status : String) : FillResult where
  realizedStatus := status
  filledUnits := .zero
  brokerOrderId := none
  brokerTradeId := none
  requestedPrice := some expected
  fillPrice := none
  fillTime := .null
  slippagePips := none
  stopLossPrice := some order.stopLoss
  takeProfitPrice := some order.takeProfit
  rejectReason := reason
  modelSetId := modelSetId

/-! ### Stops -/

/-- The price of an attached order of a trade, where there is one. -/
def attachedPrice (attached : PyVal) : Except PyErr (Option Binary64) :=
  if !attached.truthy then .ok none
  else do
    let price ← attached.getAttrGet "price"
    if price.truthy then return some (← price.toFloat) else return none

/-- The stop, the target and whether the position is unsafe. -/
structure Stops where
  stopLoss : Option Binary64
  takeProfit : Option Binary64
  isUnsafe : Bool

/-- The stops of an open trade; a missing stop is attached if possible. -/
def confirmOpenTrade (order : ConstructedOrder) (tradeId : String) (trade : Dict) :
    Proc BrokerI Exc Stops := do
  let sl ← convert (attachedPrice (trade.get "stopLossOrder"))
  let tp ← convert (attachedPrice (trade.get "takeProfitOrder"))
  let target := some (tp.getD order.takeProfit)
  match sl with
  | some price => return ⟨some price, target, false⟩
  | none =>
      match ← (perform (.modifyTradeStop tradeId order.stopLoss order.instrument)).attempt with
      | .ok _ => return ⟨some order.stopLoss, target, false⟩
      | .error e => if e.isa .brokerError then return ⟨none, tp, true⟩ else .raise e

/-- The trade to look at: the one at hand, else the broker's; `none` if it cannot tell. -/
def lookUpTrade (tradeId : String) : Option Dict → Proc BrokerI Exc (Option Dict)
  | some trade => .ret (some trade)
  | none => do
      match ← (perform (.getTrade tradeId)).attempt with
      | .ok trade => return trade
      | .error e => if e.isa .brokerError then return none else .raise e

/-- The stops as the order wants them. -/
def intendedStops (order : ConstructedOrder) : Stops :=
  ⟨some order.stopLoss, some order.takeProfit, false⟩

/-- `str(trade.get("state") or "OPEN").upper()`. -/
def tradeState (trade : Dict) : String :=
  let state := trade.get "state"
  upper (if state.truthy then state.toStr else "OPEN")

/-- The stops of a trade. An empty trade counts as none, and a closed one has no stops. -/
def confirmTrade (order : ConstructedOrder) (tradeId : String) :
    Option Dict → Proc BrokerI Exc Stops
  | none => .ret (intendedStops order)
  | some [] => .ret (intendedStops order)
  | some (entry :: rest) =>
      if tradeState (entry :: rest) = "OPEN" then confirmOpenTrade order tradeId (entry :: rest)
      else .ret ⟨none, none, false⟩

/-- `_confirm_stops`. -/
def confirmStops (order : ConstructedOrder) (tradeId : String) (known : Option Dict) :
    Proc BrokerI Exc Stops :=
  if tradeId = "" then .ret (intendedStops order)
  else do
    let trade ← lookUpTrade tradeId known
    confirmTrade order tradeId trade

/-! ### Fills -/

/-- What a fill says, before the stops are confirmed. -/
structure FillReport where
  realizedStatus : String
  filledUnits : Binary64
  brokerOrderId : String
  brokerTradeId : String
  fillPrice : Binary64
  fillTime : PyVal

/-- The note on slippage beyond the tolerance. -/
def slippageNote (a : OandaAdapter) (slippage : Binary64) : Option String :=
  if a.slippageTolerancePips.lt slippage.abs then
    some (FString.render [.lit "SLIPPAGE_EXCEEDED:", .val (.float slippage), .lit "pips>",
      .val (.float a.slippageTolerancePips)])
  else none

/-- The reject reason of a fill: nothing, the slippage, the missing stop, or both. -/
def fillNote (slippage : Option String) (isUnsafe : Bool) : PyVal :=
  if isUnsafe then
    .str ((match slippage with | some s => s ++ "; " | none => "") ++ "NO_STOP_UNSAFE")
  else optionalText slippage

/-- `_finalize`, for a fill with a price. -/
def finalize (a : OandaAdapter) (order : ConstructedOrder) (expected : Binary64)
    (modelSetId : Option String) (report : FillReport) (trade : Option Dict) :
    Proc BrokerI Exc FillResult := do
  let slippage := computeSlippagePips expected report.fillPrice order.instrument
  let stops ← confirmStops order report.brokerTradeId trade
  return {
    realizedStatus := report.realizedStatus
    filledUnits := report.filledUnits
    brokerOrderId := some report.brokerOrderId
    brokerTradeId := some report.brokerTradeId
    requestedPrice := some expected
    fillPrice := some report.fillPrice
    fillTime := report.fillTime
    slippagePips := some slippage
    stopLossPrice := stops.stopLoss
    takeProfitPrice := stops.takeProfit
    rejectReason := fillNote (a.slippageNote slippage) stops.isUnsafe
    modelSetId := modelSetId }

/-- The trade that a fill opened, else a default. -/
def openedTradeId (fill : Dict) (dflt : PyVal) : Except PyErr PyVal :=
  let opened := fill.get "tradeOpened"
  if !opened.truthy then .ok dflt
  else
    match opened with
    | .dict d => .ok (Dict.getOr d "tradeID" dflt)
    | _ => .error .attributeError

/-- What an `ORDER_FILL` transaction reports about an order. -/
def readFill (order : ConstructedOrder) (fill : Dict) : Except PyErr FillReport := do
  let fillPrice ← (← fill.index "price").toFloat
  let filledUnits := (← (fill.getOr "units" (.float order.units)).toFloat).abs
  let id := fill.getOr "id" (.str "")
  let tradeId ← openedTradeId fill id
  return {
    realizedStatus := if filledUnits.lt order.units.abs then "PARTIAL" else "FILLED"
    filledUnits
    brokerOrderId := (fill.getOr "orderID" id).toStr
    brokerTradeId := tradeId.toStr
    fillPrice
    fillTime := fill.get "time" }

/-- A reply without a fill: cancelled with its reason, or rejected. -/
def unfilledResult (order : ConstructedOrder) (expected : Binary64) (modelSetId : Option String)
    (resp : Dict) : Except PyErr FillResult :=
  let cancel := resp.get "orderCancelTransaction"
  if !cancel.truthy then .ok (reject order expected modelSetId (.str "NOT_FILLED") "REJECTED")
  else
    match cancel with
    | .dict d => .ok (reject order expected modelSetId
        (Dict.getOr d "reason" (.str "NOT_FILLED")) "CANCELLED")
    | _ => .error .attributeError

/-- `_build_fill_result`. A truthy fill that is no object cannot be indexed by `"price"`. -/
def buildFillResult (a : OandaAdapter) (order : ConstructedOrder) (resp : Dict)
    (expected : Binary64) (modelSetId : Option String) : Proc BrokerI Exc FillResult :=
  let fill := resp.get "orderFillTransaction"
  if !fill.truthy then convert (unfilledResult order expected modelSetId resp)
  else
    match fill with
    | .dict fill => do
        let report ← convert (readFill order fill)
        finalize a order expected modelSetId report none
    | _ => .raise (.ofErr .typeError)

/-! ### Reconcile and submit -/

/-- The report of an open trade with the order's client id. -/
def readTrade (order : ConstructedOrder) (expected : Binary64) (trade : Dict) :
    Except PyErr FillReport := do
  let fillPrice ← (trade.getOr "price" (.float expected)).toFloat
  let filledUnits := (← (trade.getOr "currentUnits" (.float order.units)).toFloat).abs
  let id := (trade.getOr "id" (.str "")).toStr
  return {
    realizedStatus := "FILLED"
    filledUnits
    brokerOrderId := id
    brokerTradeId := id
    fillPrice
    fillTime := trade.get "openTime" }

/-- The first open trade with a client id. -/
def findTrade (cid : String) : List Dict → Except PyErr (Option Dict)
  | [] => .ok none
  | t :: rest =>
      match (t.get "clientExtensions").orEmptyGet "id" with
      | .error e => .error e
      | .ok ext => if ext.isStr cid then .ok (some t) else findTrade cid rest

/-- `_reconcile`: the fallback that sees open trades only. -/
def reconcile (a : OandaAdapter) (cid : String) (order : ConstructedOrder) (expected : Binary64)
    (modelSetId : Option String) : Proc BrokerI Exc (Option FillResult × Bool) := do
  match ← (perform .getOpenTrades).attempt with
  | .error e => if e.isa .brokerError then return (none, false) else .raise e
  | .ok trades => do
      match ← convert (findTrade cid trades) with
      | none => return (none, true)
      | some t => do
          let report ← convert (readTrade order expected t)
          let result ← finalize a order expected modelSetId report (some t)
          return (some result, true)

/-- `_prior_submission`: the result if the order is at the broker, and whether the
broker could tell. -/
def priorSubmission (a : OandaAdapter) (cid : String) (order : ConstructedOrder)
    (expected : Binary64) (modelSetId : Option String) :
    Proc BrokerI Exc (Option FillResult × Bool) :=
  if !a.hasRecentTransactions then reconcile a cid order expected modelSetId
  else do
    match ← (perform (.getRecentTransactions reconcileTransactionWindow)).attempt with
    | .error _ => return (none, false)
    | .ok transactions => do
        match ← convert (priorSubmissionVerdict transactions cid) with
        | .filled txn => do
            let result ← buildFillResult a order [("orderFillTransaction", .dict txn)] expected
              modelSetId
            return (some result, true)
        | .pending => return (none, false)
        | .unfilled => return (none, true)
        | .absent => return (none, true)

def reconcileUnavailable (key text : String) : Exc :=
  ⟨.reconcileUnavailableError, [.lit key, .lit text]⟩

/-- What `submit` works on. -/
structure Submission where
  order : ConstructedOrder
  expected : Binary64
  modelSetId : Option String
  payload : PyVal

def Submission.cid (s : Submission) : String := clientOrderId s.order.idempotencyKey

/-- What follows a transient error: nothing is sent again before the broker was read. -/
def afterTransient (a : OandaAdapter) (s : Submission) (attempt : ℤ) (e : Exc)
    (retry : Proc BrokerI Exc FillResult) : Proc BrokerI Exc FillResult := do
  let (reconciled, verified) ← priorSubmission a s.cid s.order s.expected s.modelSetId
  match reconciled with
  | some result => return result
  | none =>
      if !verified then
        .raise (reconcileUnavailable s.order.idempotencyKey
          ": broker unreadable after an ambiguous submit; refusing to retry into a possible duplicate")
      else if a.retryMax ≤ attempt then .raise e
      else do
        let _ ← perform (.sleep (a.backoffSec.mul (.ofRat attempt)))
        retry

/-- The attempts from a given one on. -/
def attempts (a : OandaAdapter) (s : Submission) : ℕ → ℤ → Proc BrokerI Exc FillResult
  | 0, _ => .raise (.ofErr .assertionError)
  | remaining + 1, attempt => do
      match ← (perform (.createOrder s.payload)).attempt with
      | .ok resp => buildFillResult a s.order resp s.expected s.modelSetId
      | .error e =>
          if e.isa .marketClosedError then
            return reject s.order s.expected s.modelSetId (.str "MARKET_CLOSED") "CANCELLED"
          else if e.isa .transientBrokerError then
            afterTransient a s attempt e (attempts a s remaining (attempt + 1))
          else .raise e

/-- `submit`: reconcile, then at most `retry_max` attempts. -/
def submit (a : OandaAdapter) (order : ConstructedOrder) (expectedPrice : Option Binary64)
    (modelSetId : Option String) : Proc BrokerI Exc FillResult := do
  let expected := expectedPrice.getD order.entryPrice
  let payload ← buildPayload a order
  let (prior, verified) ←
    priorSubmission a (clientOrderId order.idempotencyKey) order expected modelSetId
  match prior with
  | some result => return result
  | none =>
      if !verified then
        .raise (reconcileUnavailable order.idempotencyKey
          ": cannot prove this order was not already submitted; refusing to risk a duplicate live position")
      else attempts a { order, expected, modelSetId, payload } a.retryMax.toNat 1

/-- An adapter that sends at most twice and uses the default precisions. -/
def patientAdapter : OandaAdapter where
  retryMax := 2
  backoffSec := .ofRat (1 / 2)
  slippageTolerancePips := .ofRat 2
  hasRecentTransactions := true
  hasAccountInstruments := false

end OandaAdapter

end System2
