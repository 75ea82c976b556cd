import System2.Broker.OandaAdapter

/-!
# The REST transport (`broker/oanda_transport.py`)

The part of the transport that sends prices: the order goes out as the adapter
rendered it, and the price of a stop-move is rendered here. The calls that send no
price are left as they are.
-/

namespace System2
open Foundation

/-! ### Errors of the transport -/

def marketClosedTokens : List String := ["MARKET_HALTED", "MARKET_CLOSED", "TRADING_HALTED"]

/-- `_request`: what a `V20Error` with a code and a text is raised as. -/
def requestError (code : ℤ) (msg : String) : Exc :=
  if marketClosedTokens.any fun tok => decide (tok.toList <:+: (upper msg).toList) then
    ⟨.marketClosedError, [.lit msg]⟩
  else if code = 429 ∨ 500 ≤ code ∧ code < 600 then
    ⟨.transientBrokerError, [.lit "transient OANDA error ", .val (.int code), .lit (": " ++ msg)]⟩
  else ⟨.v20Error, [.lit msg]⟩

/-! ### Requests with prices -/

/-- The requests of the transport: a new order, the orders attached to a trade, and the
calls without a price. -/
inductive RestCall
  | orderCreate (data : PyVal)
  | tradeCRCDO (tradeId : String) (data : PyVal)
  | plain (call : BrokerCall)

abbrev RestCall.Ans : RestCall → Type
  | .orderCreate _ => Dict
  | .tradeCRCDO _ _ => Dict
  | .plain call => call.Ans

abbrev RestI : Interface := ⟨RestCall, RestCall.Ans⟩

/-- `format_price`. -/
def formatPrice (price : Binary64) (instrument : String) (displayPrecision : Option ℤ)
    (toward : Option Binary64) : Except Exc String :=
  (quantizePrice price instrument
    (displayPrecision.getD (defaultDisplayPrecision instrument)) toward).map GridPrice.text

namespace OandaRestTransport

abbrev perform (op : RestCall) : Proc RestI Exc op.Ans := Proc.perform (I := RestI) op

/-- `create_order`: a market-closed rejection inside the reply is raised. -/
def createOrder (payload : PyVal) : Proc RestI Exc Dict := do
  let resp ← perform (.orderCreate payload)
  let reason ← .ofExcept (Exc.lift ((resp.get "orderCancelTransaction").orEmptyGet "reason"))
  if marketClosedTokens.any reason.isStr then .raise ⟨.marketClosedError, [.val reason]⟩
  else return resp

/-- `_instrument_of`: the instrument of a trade, `None` when the trade cannot be read. -/
def instrumentOf (tradeId : String) : Proc RestI Exc PyVal := do
  match ← (perform (.plain (.getTrade tradeId))).attempt with
  | .error _ => return .null
  | .ok trade => return (trade.getD []).get "instrument"

/-- The name that a stop-move is rendered for. -/
def instrumentName (tradeId instrument : String) : Proc RestI Exc PyVal := do
  if instrument ≠ "" then return .str instrument
  else
    let name ← instrumentOf tradeId
    return if name.truthy then name else .str ""

/-- `modify_trade_stop`: the price is rendered at the default precision of the name. -/
def modifyTradeStop (tradeId : String) (stopPrice : Binary64) (instrument : String) :
    Proc RestI Exc Dict := do
  match ← instrumentName tradeId instrument with
  | .str name => do
      let price ← .ofExcept (formatPrice stopPrice name none none)
      perform (.tradeCRCDO tradeId
        (.dict [("stopLoss", .dict [("price", .str price), ("timeInForce", .str "GTC")])]))
  | _ => .raise (.ofErr .attributeError)

/-- The transport behind the adapter's calls. -/
def call : (op : BrokerCall) → Proc RestI Exc op.Ans
  | .createOrder payload => createOrder payload
  | .modifyTradeStop tradeId stopPrice instrument => modifyTradeStop tradeId stopPrice instrument
  | op => perform (.plain op)

end OandaRestTransport

namespace OandaAdapter

/-- `modify_stop`. -/
def modifyStop (tradeId : String) (newStopPrice : Binary64) (instrument : String) :
    Proc BrokerI Exc Dict :=
  if Binary64.zero.lt newStopPrice then perform (.modifyTradeStop tradeId newStopPrice instrument)
  else .raise ⟨.invalidOrderError, [.lit instrument, .lit ": refusing to move trade ",
    .lit tradeId, .lit " stop to ", .repr (.float newStopPrice)]⟩

end OandaAdapter

end System2
