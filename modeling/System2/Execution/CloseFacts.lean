import System2.Broker.PositionManager

/-!
# Close facts and close events (`execution/close_tracker.py`)

Three replies of the broker tell of a close: the reply to a close request, the trade's
details, the transaction stream. Each has its own reader into `CloseFacts`, and one
builder makes the event for System 3 of them.
-/

namespace System2
open Foundation

def validExitReasons : List String := ["tp", "sl", "manual", "flatten", "expiry", "other"]

/-- `CloseFacts`: what the broker says about a completed close. -/
structure CloseFacts where
  closeTxnId : String
  realizedPnl : Binary64
  closePrice : Option Binary64
  closeTime : PyVal
  units : Option Binary64
  slippagePips : Option Binary64

/-- The handler of the slippage computations: what cannot be read is no slippage. -/
def orNone {α : Type} : Except PyErr (Option α) → Except PyErr (Option α)
  | .error .typeError => .ok none
  | .error .valueError => .ok none
  | r => r

/-! ### The reply to a close request -/

/-- `(txn.get("tradesClosed") or [{}])[0]`. -/
def firstClosed (listed : PyVal) : Except PyErr PyVal :=
  if listed.truthy then listed.first else .ok (.dict [])

/-- `facts_from_close_response`. -/
def factsFromCloseResponse (resp : PyVal) : Except PyErr (Option CloseFacts) := do
  let reply ← resp.orEmptyGet "orderFillTransaction"
  let txnId ← reply.orEmptyGet "id"
  if !txnId.truthy then return none
  else
    let txn := reply.entries
    let closed ← firstClosed (txn.get "tradesClosed")
    let realized ← closed.getAttrOr "realizedPL" (txn.get "pl")
    let units ← closed.getAttrOr "units" (txn.get "units")
    let realizedPnl ← realized.floatOrZero
    let closePrice ← (txn.get "price").floatIf
    let units ← units.floatIf
    return some { closeTxnId := txnId.toStr, realizedPnl, closePrice,
                  closeTime := txn.get "time", units := units.map Binary64.abs,
                  slippagePips := none }

/-! ### The details of a closed trade -/

/-- The price of the first dependent order that was filled. -/
def filledOrderPrice (trade : Dict) : List String → Except PyErr (Option Binary64)
  | [] => .ok none
  | key :: rest => do
      let state ← (trade.get key).orEmptyGet "state"
      let price ← (trade.get key).orEmptyGet "price"
      if state.isStr "FILLED" && price.truthy then price.toFloat.map some
      else filledOrderPrice trade rest

/-- The slippage against an expected price, when there is one and it is positive. -/
def slippageFrom (expected : Option Binary64) (closePrice : Binary64) (instrument : String) :
    Option Binary64 :=
  expected.bind fun expected =>
    if expected.le .zero || instrument = "" then none
    else some (computeSlippagePips expected closePrice instrument)

/-- `_exit_slippage_pips`. -/
def exitSlippagePips (trade : Dict) (closePrice : Option Binary64) :
    Except PyErr (Option Binary64) :=
  match closePrice with
  | none => .ok none
  | some closePrice => orNone do
      let expected ← filledOrderPrice trade ["stopLossOrder", "takeProfitOrder"]
      return slippageFrom expected closePrice (trade.get "instrument").strOrEmpty

/-- `facts_from_trade_details`. -/
def factsFromTradeDetails (trade : Dict) : Except PyErr (Option CloseFacts) :=
  if !(trade.get "closingTransactionIDs").truthy then .ok none
  else do
    let closePrice ← (trade.get "averageClosePrice").floatIf
    let closeTxnId ← (trade.get "closingTransactionIDs").last
    let realizedPnl ← (trade.get "realizedPL").floatOrZero
    let units ← (trade.get "initialUnits").floatIf
    let slippagePips ← exitSlippagePips trade closePrice
    return some { closeTxnId := closeTxnId.toStr, realizedPnl, closePrice,
                  closeTime := trade.get "closeTime", units := units.map Binary64.abs,
                  slippagePips }

/-- `exit_reason_from_trade_details`: which dependent order was filled, if one was. -/
def exitReasonFromTradeDetails (trade : Dict) : Except PyErr String := do
  let stopLoss ← (trade.get "stopLossOrder").orEmptyGet "state"
  if stopLoss.isStr "FILLED" then return "sl"
  else
    let takeProfit ← (trade.get "takeProfitOrder").orEmptyGet "state"
    return if takeProfit.isStr "FILLED" then "tp" else "other"

/-! ### A closing transaction -/

def txnReasonToExit : List (String × String) :=
  [("STOP_LOSS_ORDER", "sl"), ("TRAILING_STOP_LOSS_ORDER", "sl"),
    ("GUARANTEED_STOP_LOSS_ORDER", "sl"), ("TAKE_PROFIT_ORDER", "tp"),
    ("MARKET_ORDER_TRADE_CLOSE", "manual"), ("MARKET_ORDER", "manual"),
    ("CLIENT_ORDER", "manual"), ("MARKET_ORDER_POSITION_CLOSEOUT", "flatten"),
    ("MARKET_ORDER_MARGIN_CLOSEOUT", "flatten"), ("MARGIN_CLOSEOUT", "flatten")]

def dependentFillReasons : List String :=
  ["STOP_LOSS_ORDER", "TRAILING_STOP_LOSS_ORDER", "GUARANTEED_STOP_LOSS_ORDER",
    "TAKE_PROFIT_ORDER"]

/-- The `reason` of a transaction, as it is looked up. -/
def transactionReason (txn : Dict) : String := upper (txn.get "reason").strOrEmpty

/-- `exit_reason_from_transaction`. -/
def exitReasonFromTransaction (txn : Dict) : String :=
  (txnReasonToExit.lookup (transactionReason txn)).getD "other"

/-- `_exit_slippage_from_transaction`: the expected price is that of the order that fired. -/
def exitSlippageFromTransaction (txn : Dict) (closePrice : Option Binary64) (instrument : String)
    (txnById : Dict) : Except PyErr (Option Binary64) :=
  match closePrice with
  | none => .ok none
  | some closePrice =>
      if instrument = "" || !dependentFillReasons.contains (transactionReason txn) then .ok none
      else
        let orderTxn := (txnById.get (txn.get "orderID").strOrEmpty).entries
        orNone do
          let expected ← (orderTxn.get "price").floatIf
          return slippageFrom expected closePrice instrument

/-- `facts_from_transaction`. -/
def factsFromTransaction (txn closed : Dict) (instrument : String) (txnById : Dict) :
    Except PyErr (Option CloseFacts) :=
  if !(txn.get "id").truthy then .ok none
  else do
    let price := if (closed.get "price").truthy then closed.get "price" else txn.get "price"
    let closePrice ← price.floatIf
    let instrument := if instrument = "" then (txn.get "instrument").strOrEmpty else instrument
    let realizedPnl ← (closed.getOr "realizedPL" (txn.get "pl")).floatOrZero
    let units ← (closed.getOr "units" (txn.get "units")).floatIf
    let slippagePips ← exitSlippageFromTransaction txn closePrice instrument txnById
    return some { closeTxnId := (txn.get "id").toStr, realizedPnl, closePrice,
                  closeTime := txn.get "time", units := units.map Binary64.abs, slippagePips }

/-! ### The close event -/

/-- Does `^[A-Z]{3}_[A-Z]{3}$` match? The dollar sign also matches before a last line break. -/
def isPair (s : String) : Bool :=
  let isUpper (c : Char) : Bool := 'A'.toNat ≤ c.toNat && c.toNat ≤ 'Z'.toNat
  match s.toList with
  | a :: b :: c :: '_' :: d :: e :: f :: rest =>
      [a, b, c, d, e, f].all isUpper && (rest == [] || rest == ['\n'])
  | _ => false

/-- The units of the event: signed, whole, and absent when there are none. -/
def eventUnits (t : ManagedTrade) (units : Option Binary64) : Except PyErr (Option ℤ) :=
  match units with
  | some units =>
      if units.eq .zero then .ok none else units.roundInt.map fun n => some (n * t.direction)
  | none => .ok none

/-- The fill price of the event, when it is positive. -/
def eventPrice (closePrice : Option Binary64) : Option Binary64 :=
  closePrice.filter fun price => Binary64.zero.lt price

/-- `build_close_event`, with the time of the event. -/
def buildCloseEvent (t : ManagedTrade) (facts : CloseFacts) (exitReason eventTime : String) :
    Except PyErr PyVal := do
  let units ← eventUnits t facts.units
  let unknown := "s2-unknown:" ++ t.brokerTradeId
  let requestId := t.orderRequestId.getD ""
  return .dict ([("schema_version", .str "1"), ("broker_order_id", .str facts.closeTxnId),
    ("order_request_id", .str (if requestId = "" then unknown else requestId)),
    ("status", .str "closed"),
    ("signal_id", .str (if t.correlationId = "" then unknown else t.correlationId)),
    ("direction", .str (if t.direction = 1 then "long" else "short")),
    ("event_time", .str eventTime), ("realized_pnl", .float facts.realizedPnl),
    ("exit_reason", .str (if validExitReasons.contains exitReason then exitReason else "other"))] ++
    (if isPair t.instrument then [("pair", .str t.instrument)] else []) ++
    (units.toList.map fun n => ("units", .int n)) ++
    ((eventPrice facts.closePrice).toList.map fun price => ("fill_price", .float price)) ++
    (if facts.closeTime.truthy then [("fill_time", facts.closeTime)] else []) ++
    (facts.slippagePips.toList.map fun pips => ("slippage_pips", .float pips)))

end System2
