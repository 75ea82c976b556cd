import System2.Execution.ServiceRuns
import System2.Broker.FillOnce

/-!
# The consumer service with its broker

The composition root (`execution/lifecycle.py`) hands the adapter's `submit` to the
consumer as `submit_fn`. The process may die between any two of the broker's calls,
too, and the broker's log outlives it.

## Implementation notes

A history shows the last transactions of the account only, however many there are. The state
counts the histories that were read for an order and left out a fill of it.
-/

namespace System2
open Foundation

/-- The calls of a trading process: the service's own, and the adapter's while it submits the
order of a client id. -/
inductive TradingCall
  | service (call : ServiceCall)
  | broker (cid : String) (call : BrokerCall)

abbrev TradingCall.Ans : TradingCall → Type
  | .service call => call.Ans
  | .broker _ call => call.Ans

abbrev TradingI : Interface := ⟨TradingCall, TradingCall.Ans⟩

/-- A consumer service and its broker adapter. -/
structure TradingService where
  service : ConsumerService
  adapter : OandaAdapter

namespace TradingService

abbrev perform (op : TradingCall) : Proc TradingI Exc op.Ans := Proc.perform (I := TradingI) op

/-- `submit_fn` is the adapter's `submit`, called with the order alone. -/
def wireSubmit (a : OandaAdapter) : (op : ServiceCall) → Proc TradingI Exc op.Ans
  | .consumer (.pipeline (.submit c)) => (a.submit c none none).interp fun call =>
      perform (.broker (clientOrderId c.idempotencyKey) call)
  | op => perform (.service op)

/-- `poll_once` of the trading process. -/
def pollOnce (t : TradingService) : Proc TradingI Exc Stats :=
  t.service.pollOnce.interp (wireSubmit t.adapter)

def fetch (t : TradingService) : Proc TradingI Exc (Moment × Option (List ReceivedMessage)) :=
  t.service.fetch.interp (wireSubmit t.adapter)

def handle (t : TradingService) (msg : ReceivedMessage) (now : Moment) :
    Proc TradingI Exc Outcome :=
  (t.service.handle msg now).interp (wireSubmit t.adapter)

end TradingService

/-- What outlives a trading process, and how many histories left out a fill of the order that they
were read for. -/
structure TradingState where
  service : ServiceState
  log : List Dict
  hidden : ℕ

/-- The service's calls and the broker's. Anybody may trade on the account during any call, but
not with a client id of ours. -/
def tradingWorld (subscription : String) : World TradingI Exc TradingState := fun s op r s' =>
  match op with
  | .service call => serviceWorld subscription s.service call r s'.service ∧
      s'.hidden = s.hidden ∧ ∃ foreign, OandaAdapter.Foreign foreign ∧ s'.log = s.log ++ foreign
  | .broker cid call =>
      OandaAdapter.openBroker.counting (OandaAdapter.Hides cid) (s.log, s.hidden) call r
        (s'.log, s'.hidden) ∧
      Elsewhere subscription s.service.file s'.service.file ∧
      s'.service.store = s.service.store ∧ s'.service.outbox = s.service.outbox

namespace TradingService

open ConsumerService

/-- The executions of a trading process's procedures. -/
def tradingSteps (world : World TradingI Exc TradingState) :
    PollSteps TradingService TradingState where
  fetch := fun t w out w' => Exec world t.fetch w out w'
  handle := fun t msg now w out w' => Exec world (t.handle msg now) w out w'

/-- Every execution of `poll_once` is a poll. -/
theorem polls_of_exec {world : World TradingI Exc TradingState} {t : TradingService}
    {w w' : TradingState} {out : Option (Except Exc Stats)}
    (exec : Exec world t.pollOnce w out w') : ∃ hs, Polls (tradingSteps world) t w hs w' :=
  polls_of_exec_interp (fun _ _ _ h => h) (fun _ _ _ _ _ h => h) exec

end TradingService

end System2
