import System2.Broker.OandaAdapter

/-!
# The position manager (`broker/position_manager.py`)

The rules applied to an open trade at a price: the time exit, breakeven at 1R, the
trailing stop. A trade changes only through the tick of its own, and every change is
put back into the book of trades.
-/

namespace System2
open Foundation

def rEps : Binary64 := .ofRat (1 / 1000000000)

/-- `ManagedTrade`. -/
structure ManagedTrade where
  brokerTradeId : String
  instrument : String
  side : String
  entryPrice : Binary64
  initialStopPrice : Binary64
  takeProfitPrice : Binary64
  openTime : Moment
  granularity : String
  maxDurationSec : Binary64
  correlationId : String
  currentStop : Binary64
  atBreakeven : Bool
  timeActionsDone : List String
  closed : Bool
  orderRequestId : Option String

namespace ManagedTrade

def direction (t : ManagedTrade) : ℤ := if upper t.side = "BUY" then 1 else -1

/-- The direction as a factor of a product of floats. -/
def sign (t : ManagedTrade) : Binary64 := .ofRat t.direction

def riskDistance (t : ManagedTrade) : Binary64 := (t.entryPrice.sub t.initialStopPrice).abs

def favorableMove (t : ManagedTrade) (price : Binary64) : Binary64 :=
  (price.sub t.entryPrice).mul t.sign

/-- `r_multiple`. -/
def rMultiple (t : ManagedTrade) (price : Binary64) : Binary64 :=
  if t.riskDistance.le .zero then .zero
  else ((t.favorableMove price).div? t.riskDistance).getD .nan

def breakevenStop (t : ManagedTrade) (bufferPips pip : Binary64) : Binary64 :=
  t.entryPrice.add ((t.sign.mul bufferPips).mul pip)

def trailingStop (t : ManagedTrade) (bestPrice trailDistance : Binary64) : Binary64 :=
  bestPrice.sub (t.sign.mul trailDistance)

/-- `is_tighter`. -/
def isTighter (t : ManagedTrade) (newStop currentStop : Binary64) : Bool :=
  if t.direction = 1 then currentStop.lt newStop else newStop.lt currentStop

/-- `time_fraction`. -/
def timeFraction (t : ManagedTrade) (now : Moment) : Binary64 :=
  if t.maxDurationSec.le .zero then .zero
  else ((now.secondsSince t.openTime).div? t.maxDurationSec).getD .nan

end ManagedTrade

/-- The trades of the manager, one for each broker id. -/
structure TradeBook where
  trades : List ManagedTrade
  distinct : (trades.map (·.brokerTradeId)).Nodup

namespace TradeBook

def empty : TradeBook := ⟨[], List.nodup_nil⟩

/-- A trade of the book as it is now. A trade that the book does not have is not added. -/
def put (book : TradeBook) (t : ManagedTrade) : TradeBook where
  trades := book.trades.map fun u => if u.brokerTradeId = t.brokerTradeId then t else u
  distinct := by
    have hids : (book.trades.map fun u => if u.brokerTradeId = t.brokerTradeId then t else u).map
        (·.brokerTradeId) = book.trades.map (·.brokerTradeId) := by
      rw [List.map_map]
      refine List.map_congr_left fun u _ => ?_
      simp only [Function.comp]
      split_ifs with h
      · exact h.symm
      · rfl
    rw [hids]
    exact book.distinct

/-- `register`: a trade of the same id gives way, another one goes to the end. -/
def register (book : TradeBook) (t : ManagedTrade) : TradeBook :=
  if h : t.brokerTradeId ∈ book.trades.map (·.brokerTradeId) then book.put t
  else
    { trades := book.trades ++ [t]
      distinct := by
        rw [List.map_append]
        exact List.Nodup.append book.distinct (List.nodup_singleton _)
          (List.disjoint_singleton.mpr h) }

end TradeBook

/-- The calls of the manager: the clock, its book, the adapter, the hook that reports a close. -/
inductive ManagerCall
  | clock
  | trades
  | putTrade (t : ManagedTrade)
  | modifyStop (tradeId : String) (newStop : Binary64) (instrument : String)
  | closeTrade (tradeId : String)
  | emitCloseFn (t : ManagedTrade) (resp : PyVal) (exitReason : String)

abbrev ManagerCall.Ans : ManagerCall → Type
  | .clock => Moment
  | .trades => TradeBook
  | .modifyStop _ _ _ => PyVal
  | .closeTrade _ => PyVal
  | _ => Unit

abbrev ManagerI : Interface := ⟨ManagerCall, ManagerCall.Ans⟩

/-- The settings of a `PositionManager`, and whether closes are reported. -/
structure PositionManager where
  hasEmitCloseFn : Bool
  breakevenR : Binary64
  breakevenBufferPips : Binary64
  trailDistance : Binary64
  timeExitFractions : List Binary64
  enabled : Bool

namespace PositionManager

abbrev perform (op : ManagerCall) : Proc ManagerI Exc op.Ans := Proc.perform (I := ManagerI) op

/-- `_close`: the trade is marked as soon as the broker has answered. -/
def close (m : PositionManager) (t : ManagedTrade) (exitReason : String) :
    Proc ManagerI Exc ManagedTrade := do
  let resp ← perform (.closeTrade t.brokerTradeId)
  let t := { t with closed := true }
  let _ ← perform (.putTrade t)
  let _ ← Proc.given m.hasEmitCloseFn (perform (.emitCloseFn t resp exitReason))
  return t

/-- `_set_stop`. -/
def setStop (t : ManagedTrade) (newStop : Binary64) : Proc ManagerI Exc ManagedTrade := do
  let _ ← perform (.modifyStop t.brokerTradeId newStop t.instrument)
  let t := { t with currentStop := newStop }
  let _ ← perform (.putTrade t)
  return t

/-- The time exit at the end of the allowed duration. -/
def timeExit (m : PositionManager) (t : ManagedTrade) : Proc ManagerI Exc (List String) := do
  let t ← m.close t "expiry"
  let _ ← perform (.putTrade { t with timeActionsDone := t.timeActionsDone ++ ["t100"] })
  return ["time_exit_close"]

/-- The staged time actions before the exit, the later one first: its tag, and what it is
called. -/
def timeAction? (m : PositionManager) (t : ManagedTrade) (frac : Binary64) :
    Option (String × String) :=
  [(Binary64.ofRat (3 / 4), "t75", "time_action_75pct"),
    (Binary64.ofRat (1 / 2), "t50", "time_action_50pct")].findSome? fun (f, tag, name) =>
    if m.timeExitFractions.any (·.eq f) && f.le frac && !t.timeActionsDone.contains tag then
      some (tag, name)
    else none

/-- At most one staged time action. -/
def timeActions (m : PositionManager) (t : ManagedTrade) (frac : Binary64) :
    Proc ManagerI Exc (ManagedTrade × List String) :=
  match m.timeAction? t frac with
  | none => .ret (t, [])
  | some (tag, name) => do
      let t := { t with timeActionsDone := t.timeActionsDone ++ [tag] }
      let _ ← perform (.putTrade t)
      return (t, [name])

/-- A stop that is tighter is set. -/
def tighten (t : ManagedTrade) (newStop : Binary64) (name : String) :
    Proc ManagerI Exc (ManagedTrade × List String) :=
  if t.isTighter newStop t.currentStop then do
    let t ← setStop t newStop
    return (t, [name])
  else .ret (t, [])

/-- Breakeven at 1R, once. -/
def breakeven (m : PositionManager) (t : ManagedTrade) (price : Binary64) :
    Proc ManagerI Exc (ManagedTrade × List String) :=
  if !t.atBreakeven && (m.breakevenR.sub rEps).le (t.rMultiple price) then do
    let (t, actions) ←
      tighten t (t.breakevenStop m.breakevenBufferPips (pipSize t.instrument)) "breakeven"
    let t := { t with atBreakeven := true }
    let _ ← perform (.putTrade t)
    return (t, actions)
  else .ret (t, [])

/-- Trailing beyond breakeven. -/
def trail (m : PositionManager) (t : ManagedTrade) (price : Binary64) :
    Proc ManagerI Exc (ManagedTrade × List String) :=
  if t.atBreakeven && Binary64.zero.lt m.trailDistance && !t.closed then
    tighten t (t.trailingStop price m.trailDistance) "trail"
  else .ret (t, [])

/-- The rules after the time exit. -/
def manageStop (m : PositionManager) (t : ManagedTrade) (frac price : Binary64) :
    Proc ManagerI Exc (List String) := do
  let (t, timed) ← m.timeActions t frac
  let (t, moved) ← m.breakeven t price
  let (_, trailed) ← m.trail t price
  return timed ++ moved ++ trailed

/-- `on_tick`. -/
def onTick (m : PositionManager) (t : ManagedTrade) (price : Binary64) :
    Proc ManagerI Exc (List String) :=
  if !m.enabled || t.closed then .ret []
  else do
    let now ← perform .clock
    let frac := t.timeFraction now
    if (Binary64.ofRat 1).le frac && !t.timeActionsDone.contains "t100" then m.timeExit t
    else m.manageStop t frac price

/-- The trades of the book one after the other. -/
def tickAll (m : PositionManager) (prices : List (String × Binary64)) :
    List ManagedTrade → Proc ManagerI Exc (List (String × List String))
  | [] => .ret []
  | t :: rest =>
      if t.closed then tickAll m prices rest
      else
        match prices.find? fun quote => quote.1 = t.instrument with
        | none => tickAll m prices rest
        | some (_, price) => do
            let actions ← m.onTick t price
            let others ← tickAll m prices rest
            return (t.brokerTradeId, actions) :: others

/-- `evaluate_all`. -/
def evaluateAll (m : PositionManager) (prices : List (String × Binary64)) :
    Proc ManagerI Exc (List (String × List String)) := do
  let book ← perform .trades
  m.tickAll prices book.trades

end PositionManager

end System2
