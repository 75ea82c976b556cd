import System2.Broker.FillReported
import System2.Foundation.RunRecord

/-!
# A fill that is read back

`submit` hears of the fill of its order from the reply of `create_order`, from the
window of recent transactions or, where the transport cannot read transactions, from
the open trades. The reply and the window go through one reader. The open trades have
a reader of their own, which knows no partial fill and takes the id of the trade for
the id of the order.

## Implementation notes

A path is the source from which a run hears of the fill, as a condition on each answer
of its record. The environment is free otherwise.
-/

namespace System2
open Foundation

namespace OandaAdapter

/-! ### What a submit yields -/

/-- Each answer that can bring a result leads to results of a kind. -/
structure LeadsTo (allowed : (op : BrokerCall) → Except Exc op.Ans → Prop) (a : OandaAdapter)
    (order : ConstructedOrder) (expected : Binary64) (modelSetId : Option String)
    (R : FillResult → Prop) : Prop where
  reply : ∀ payload resp, allowed (.createOrder payload) (.ok resp) →
    (buildFillResult a order resp expected modelSetId).Yields allowed R
  closed : ∀ payload e, allowed (.createOrder payload) (.error e) →
    e.isa .marketClosedError = true →
    R (reject order expected modelSetId (.str "MARKET_CLOSED") "CANCELLED")
  window : ∀ count txns fill, allowed (.getRecentTransactions count) (.ok txns) →
    priorSubmissionVerdict txns (clientOrderId order.idempotencyKey) = .ok (.filled fill) →
    (buildFillResult a order [("orderFillTransaction", .dict fill)] expected
      modelSetId).Yields allowed R
  held : ∀ trades trade, allowed .getOpenTrades (.ok trades) →
    findTrade (clientOrderId order.idempotencyKey) trades = .ok (some trade) →
    ∀ report, readTrade order expected trade = .ok report →
      (finalize a order expected modelSetId report (some trade)).Yields allowed R

section Yields
variable {allowed : (op : BrokerCall) → Except Exc op.Ans → Prop} {a : OandaAdapter}
  {order : ConstructedOrder} {expected : Binary64} {modelSetId : Option String}
  {R : FillResult → Prop}

/-- What the adapter converts itself is yielded when the conversion succeeds. -/
theorem yields_convert {α : Type} {r : Except PyErr α} {S : α → Prop}
    (h : ∀ v, r = .ok v → S v) : (convert r).Yields allowed S := by
  cases r with
  | ok v => exact h v rfl
  | error e => exact trivial

/-- A result that a look at the broker finds is of the kind. -/
abbrev Recovers (R : FillResult → Prop) (prior : Option FillResult × Bool) : Prop :=
  ∀ result, prior.1 = some result → R result

theorem yields_reconcile (h : LeadsTo allowed a order expected modelSetId R) :
    (reconcile a (clientOrderId order.idempotencyKey) order expected modelSetId).Yields allowed
      (Recovers R) := by
  have nothing : ∀ verified, Recovers R (none, verified) := fun _ _ hnone => nomatch hnone
  refine (Proc.yields_attempt_perform _).bind fun r hr => ?_
  cases r with
  | error e =>
      dsimp only
      split_ifs
      · exact nothing _
      · exact trivial
  | ok trades =>
      refine (yields_convert fun found hfound => hfound).bind fun found hfound => ?_
      cases found with
      | none => exact nothing _
      | some trade =>
          refine (yields_convert fun report hreport => hreport).bind fun report hreport => ?_
          refine (h.held trades trade hr hfound report hreport).bind fun result hresult => ?_
          exact fun _ heq => Option.some.inj heq ▸ hresult

theorem yields_priorSubmission (h : LeadsTo allowed a order expected modelSetId R) :
    (priorSubmission a (clientOrderId order.idempotencyKey) order expected
      modelSetId).Yields allowed (Recovers R) := by
  have nothing : ∀ verified, Recovers R (none, verified) := fun _ _ hnone => nomatch hnone
  unfold priorSubmission
  split_ifs
  · exact yields_reconcile h
  · refine (Proc.yields_attempt_perform _).bind fun r hr => ?_
    cases r with
    | error e => exact nothing _
    | ok txns =>
        refine (yields_convert fun v hv => hv).bind fun v hv => ?_
        cases v with
        | filled fill =>
            refine (h.window _ txns fill hr hv).bind fun result hresult => ?_
            exact fun _ heq => Option.some.inj heq ▸ hresult
        | pending => exact nothing _
        | unfilled => exact nothing _
        | absent => exact nothing _

theorem yields_attempts {s : Submission}
    (h : LeadsTo allowed a s.order s.expected s.modelSetId R) (remaining : ℕ) (attempt : ℤ) :
    (attempts a s remaining attempt).Yields allowed R := by
  induction remaining generalizing attempt with
  | zero => exact trivial
  | succ remaining ih =>
      refine (Proc.yields_attempt_perform _).bind fun r hr => ?_
      cases r with
      | ok resp => exact h.reply _ resp hr
      | error e =>
          dsimp only
          split_ifs with hclosed
          · exact h.closed _ e hr hclosed
          · refine (yields_priorSubmission h).bind fun prior hprior => ?_
            obtain ⟨reconciled, verified⟩ := prior
            cases reconciled with
            | some result => exact hprior result rfl
            | none =>
                dsimp only
                split_ifs
                · exact trivial
                · exact trivial
                · exact (Proc.yields_true _).bind fun _ _ => ih _
          · exact trivial

/-- A submit yields what the answers that can bring a result lead to. -/
theorem yields_submit {expectedPrice : Option Binary64}
    (h : LeadsTo allowed a order (expectedPrice.getD order.entryPrice) modelSetId R) :
    (submit a order expectedPrice modelSetId).Yields allowed R := by
  refine (Proc.yields_true _).bind fun payload _ => ?_
  refine (yields_priorSubmission h).bind fun prior hprior => ?_
  obtain ⟨result, verified⟩ := prior
  cases result with
  | some result => exact hprior result rfl
  | none =>
      dsimp only
      split_ifs
      · exact trivial
      · exact yields_attempts (s := ⟨order, _, modelSetId, payload⟩) h _ _

end Yields

/-! ### The three readers -/

/-- What two results of a submit have to agree on. -/
structure FillOutcome where
  realizedStatus : String
  filledUnits : Binary64
  brokerOrderId : Option String
  brokerTradeId : Option String
  fillPrice : Option Binary64
  slippagePips : Option Binary64
  stopLossPrice : Option Binary64
  takeProfitPrice : Option Binary64

def outcome (result : FillResult) : FillOutcome where
  realizedStatus := result.realizedStatus
  filledUnits := result.filledUnits
  brokerOrderId := result.brokerOrderId
  brokerTradeId := result.brokerTradeId
  fillPrice := result.fillPrice
  slippagePips := result.slippagePips
  stopLossPrice := result.stopLossPrice
  takeProfitPrice := result.takeProfitPrice

/-- The outcome of a report, once the stops are confirmed. -/
def outcomeOf (order : ConstructedOrder) (expected : Binary64) (report : FillReport)
    (stops : Stops) : FillOutcome where
  realizedStatus := report.realizedStatus
  filledUnits := report.filledUnits
  brokerOrderId := some report.brokerOrderId
  brokerTradeId := some report.brokerTradeId
  fillPrice := some report.fillPrice
  slippagePips := some (computeSlippagePips expected report.fillPrice order.instrument)
  stopLossPrice := stops.stopLoss
  takeProfitPrice := stops.takeProfit

/-- A fill that opened a trade, with the broker's record of the trade: still open, at the
price and with the units of the fill, its stops attached. -/
structure OpenFill where
  fill : Dict
  trade : Dict
  tradeId : String
  price : Binary64
  units : Binary64
  stop : Binary64
  target : Binary64
  fillPrice : ∃ v ∈ fill.get? "price", v.toFloat = .ok price
  fillUnits : ∃ v ∈ fill.get? "units", v.toFloat = .ok units
  opened : ∃ d, fill.get "tradeOpened" = .dict d ∧ ∃ v ∈ Dict.get? d "tradeID", v.toStr = tradeId
  tradeId_ne : tradeId ≠ ""
  sameTrade : ∃ v ∈ trade.get? "id", v.toStr = tradeId
  samePrice : ∃ v ∈ trade.get? "price", v.toFloat = .ok price
  sameUnits : ∃ v ∈ trade.get? "currentUnits", ∃ x, v.toFloat = .ok x ∧ x.abs = units.abs
  isOpen : tradeState trade = "OPEN"
  stopAttached : attachedPrice (trade.get "stopLossOrder") = .ok (some stop)
  targetAttached : attachedPrice (trade.get "takeProfitOrder") = .ok (some target)

namespace OpenFill
variable (f : OpenFill) {order : ConstructedOrder}

/-- The id of the order, as the fill names it. -/
def orderId : String := (f.fill.getOr "orderID" (f.fill.getOr "id" (.str ""))).toStr

/-- Fewer units than were ordered. -/
def IsPartial (order : ConstructedOrder) : Prop := f.units.abs.lt order.units.abs = true

instance : Decidable (f.IsPartial order) := inferInstanceAs (Decidable (_ = true))

/-- The stops that are reported, by whether the trade could be read. -/
def stops (order : ConstructedOrder) (reads : Bool) : Stops :=
  if reads then ⟨some f.stop, some f.target, false⟩ else intendedStops order

/-- What the reader of fills makes of it. -/
def report (order : ConstructedOrder) : FillReport where
  realizedStatus := if f.units.abs.lt order.units.abs then "PARTIAL" else "FILLED"
  filledUnits := f.units.abs
  brokerOrderId := f.orderId
  brokerTradeId := f.tradeId
  fillPrice := f.price
  fillTime := f.fill.get "time"

/-- What the reader of open trades makes of it. -/
def heldReport : FillReport where
  realizedStatus := "FILLED"
  filledUnits := f.units.abs
  brokerOrderId := f.tradeId
  brokerTradeId := f.tradeId
  fillPrice := f.price
  fillTime := f.trade.get "openTime"

theorem readFill_eq : readFill order f.fill = .ok (f.report order) := by
  obtain ⟨v, hprice, hx⟩ := f.fillPrice
  obtain ⟨u, hunits, hu⟩ := f.fillUnits
  obtain ⟨d, hopened, w, hid, hw⟩ := f.opened
  have hindex : f.fill.index "price" = .ok v := by
    rw [Dict.index, Option.mem_def.mp hprice]
  have hgetUnits : f.fill.getOr "units" (.float order.units) = u := by
    rw [Dict.getOr, Option.mem_def.mp hunits, Option.getD_some]
  have hd : (PyVal.dict d).truthy = true := by
    cases d with
    | nil => cases hid
    | cons entry rest => rfl
  have htradeId : ∀ dflt, openedTradeId f.fill dflt = .ok w := by
    intro dflt
    simp only [openedTradeId, hopened, hd, Bool.not_true, Bool.false_eq_true, if_false,
      Dict.getOr, Option.mem_def.mp hid, Option.getD_some]
  simp only [readFill, hindex, hx, hgetUnits, hu, htradeId, hw, bind, Except.bind, pure,
    Except.pure]
  rfl

theorem readTrade_eq (expected : Binary64) :
    readTrade order expected f.trade = .ok f.heldReport := by
  obtain ⟨v, hprice, hx⟩ := f.samePrice
  obtain ⟨u, hunits, x, hu, habs⟩ := f.sameUnits
  obtain ⟨w, hid, hw⟩ := f.sameTrade
  simp only [readTrade, Dict.getOr, Option.mem_def.mp hprice, Option.mem_def.mp hunits,
    Option.mem_def.mp hid, Option.getD_some, hx, hu, habs, hw, bind, Except.bind, pure,
    Except.pure]
  rfl

theorem trade_ne_nil : f.trade ≠ [] := by
  obtain ⟨v, hid, -⟩ := f.sameTrade
  intro hnil
  rw [hnil] at hid
  cases hid

theorem confirmTrade_eq (order : ConstructedOrder) :
    confirmTrade order f.tradeId (some f.trade) = .ret (f.stops order true) := by
  rw [confirmTrade_of_open f.trade_ne_nil f.isOpen]
  simp only [confirmOpenTrade, convert, f.stopAttached, f.targetAttached, Exc.lift_ok,
    Proc.ofExcept, Proc.bind_eq, Proc.ret_bind]
  rfl

end OpenFill

/-! ### The paths -/

/-- Where a submit hears of the fill. -/
inductive Path
  | reply | window | openTrades
  deriving DecidableEq

namespace OpenFill
variable (f : OpenFill) {order : ConstructedOrder} {path : Path} {reads : Bool}

/-- An answer to the question for the trade: its record, or nothing that could be read. -/
def Answers (reads : Bool) (r : Except Exc (Option Dict)) : Prop :=
  if reads then r = .ok (some f.trade) else ∀ trade, r = .ok (some trade) → trade = []

/-- An answer of a broker at which the order was filled so. Only one path tells of the
fill; the others tell of no fill. -/
def Tells (cid : String) (path : Path) (reads : Bool) : Event BrokerI Exc → Prop
  | ⟨.createOrder _, .ok resp⟩ =>
      path = .reply ∧ Dict.get resp "orderFillTransaction" = .dict f.fill
  | ⟨.createOrder _, .error e⟩ => e.isa .marketClosedError = false
  | ⟨.getRecentTransactions _, .ok txns⟩ => ∀ fill,
      priorSubmissionVerdict txns cid = .ok (.filled fill) → path = .window ∧ fill = f.fill
  | ⟨.getOpenTrades, .ok trades⟩ => ∀ trade,
      findTrade cid trades = .ok (some trade) → path = .openTrades ∧ trade = f.trade
  | ⟨.getTrade tradeId, r⟩ => tradeId = f.tradeId → f.Answers reads r
  | _ => True

/-- The outcome of a submit that heard of the fill on a path. -/
def outcome (order : ConstructedOrder) (expected : Binary64) (path : Path) (reads : Bool) :
    FillOutcome :=
  if path = .openTrades then outcomeOf order expected f.heldReport (f.stops order true)
  else outcomeOf order expected (f.report order) (f.stops order reads)

section Told
variable {allowed : (op : BrokerCall) → Except Exc op.Ans → Prop} {a : OandaAdapter}
  {expected : Binary64} {modelSetId : Option String}

theorem yields_finalize {report : FillReport} {trade : Option Dict} {stops : Stops}
    (h : (confirmStops order report.brokerTradeId trade).Yields allowed (· = stops)) :
    (finalize a order expected modelSetId report trade).Yields allowed
      fun result => OandaAdapter.outcome result = outcomeOf order expected report stops := by
  refine Proc.Yields.bind h fun s hs => ?_
  subst hs
  rfl

/-- The stops of the trade that a fill names. -/
theorem yields_confirmStops_fill (h : ∀ r, allowed (.getTrade f.tradeId) r → f.Answers reads r) :
    (confirmStops order f.tradeId none).Yields allowed (· = f.stops order reads) := by
  have hlook : (lookUpTrade f.tradeId none).Yields allowed
      fun trade => confirmTrade order f.tradeId trade = .ret (f.stops order reads) := by
    refine (Proc.yields_attempt_perform _).bind fun r hr => ?_
    have hanswer := h r hr
    cases reads with
    | true =>
        obtain rfl : r = .ok (some f.trade) := hanswer
        exact f.confirmTrade_eq order
    | false =>
        rcases r with e | - | trade
        · dsimp only
          split_ifs
          · rfl
          · exact trivial
        · rfl
        · obtain rfl : trade = [] := hanswer trade rfl
          rfl
  simp only [confirmStops, if_neg f.tradeId_ne, Proc.bind_eq]
  refine hlook.bind fun trade htrade => ?_
  rw [htrade]
  rfl

/-- The stops of a trade at hand. -/
theorem yields_confirmStops_trade :
    (confirmStops order f.tradeId (some f.trade)).Yields allowed (· = f.stops order true) := by
  simp only [confirmStops, if_neg f.tradeId_ne, lookUpTrade, Proc.bind_eq, Proc.ret_bind,
    f.confirmTrade_eq order]
  rfl

theorem yields_buildFillResult {resp : Dict} (hpath : path ≠ .openTrades)
    (hresp : resp.get "orderFillTransaction" = .dict f.fill)
    (h : ∀ r, allowed (.getTrade f.tradeId) r → f.Answers reads r) :
    (buildFillResult a order resp expected modelSetId).Yields allowed
      fun result => OandaAdapter.outcome result = f.outcome order expected path reads := by
  have hfill : (PyVal.dict f.fill).truthy = true := by
    obtain ⟨v, hprice, -⟩ := f.fillPrice
    cases hf : f.fill with
    | nil =>
        rw [hf] at hprice
        cases hprice
    | cons entry rest => rfl
  simp only [buildFillResult, hresp, hfill, Bool.not_true, Bool.false_eq_true, if_false, convert,
    f.readFill_eq, Exc.lift_ok, Proc.ofExcept, Proc.bind_eq, Proc.ret_bind, outcome, if_neg hpath]
  have hstops : (confirmStops order (f.report order).brokerTradeId none).Yields allowed
      (· = f.stops order reads) := f.yields_confirmStops_fill h
  exact yields_finalize hstops

end Told

theorem leadsTo (a : OandaAdapter) (expected : Binary64) (modelSetId : Option String) :
    LeadsTo (fun op r => f.Tells (clientOrderId order.idempotencyKey) path reads ⟨op, r⟩) a order
      expected modelSetId
      fun result => OandaAdapter.outcome result = f.outcome order expected path reads where
  reply := by
    rintro payload resp ⟨rfl, hresp⟩
    exact f.yields_buildFillResult (by simp) hresp fun r hr => hr rfl
  closed := by
    intro payload e hopen hclosed
    cases hclosed.symm.trans hopen
  window := by
    intro count txns fill htxns hverdict
    obtain ⟨rfl, rfl⟩ := htxns fill hverdict
    exact f.yields_buildFillResult (by simp) rfl fun r hr => hr rfl
  held := by
    intro trades trade htrades hfound report hreport
    obtain ⟨rfl, rfl⟩ := htrades trade hfound
    obtain rfl := Except.ok.inj ((f.readTrade_eq expected).symm.trans hreport)
    exact yields_finalize f.yields_confirmStops_trade

/-- The result of a submit that hears of the fill on one path. -/
theorem submit_outcome {a : OandaAdapter} {expectedPrice : Option Binary64}
    {modelSetId : Option String} {result : FillResult} {t : List (Event BrokerI Exc)}
    (exec : Exec World.free (submit a order expectedPrice modelSetId) [] (some (.ok result)) t)
    (told : ∀ e ∈ t, f.Tells (clientOrderId order.idempotencyKey) path reads e) :
    OandaAdapter.outcome result =
      f.outcome order (expectedPrice.getD order.entryPrice) path reads := by
  have hsubmit : (submit a order expectedPrice modelSetId).Yields
      (fun op r => f.Tells (clientOrderId order.idempotencyKey) path reads ⟨op, r⟩) _ :=
    yields_submit (f.leadsTo a _ modelSetId)
  have houtcome := exec_yields (exec_free_under exec told) (fun _ _ _ _ step => step.2) hsubmit
  exact houtcome

/-- The two outcomes of one fill are one, exactly if the reader of the open trades knows as much. -/
theorem outcome_eq_iff (expected : Binary64) :
    f.outcome order expected path reads = f.outcome order expected .openTrades true ↔
      (path ≠ .openTrades → ¬ f.IsPartial order ∧ f.orderId = f.tradeId ∧
        (reads = false → order.stopLoss = f.stop ∧ order.takeProfit = f.target)) := by
  by_cases hpath : path = .openTrades
  · simp [outcome, hpath]
  · have hstatus : (f.report order).realizedStatus = "FILLED" ↔ ¬ f.IsPartial order := by
      simp [report, IsPartial]
    have hstops : (f.stops order reads).stopLoss = (f.stops order true).stopLoss ∧
        (f.stops order reads).takeProfit = (f.stops order true).takeProfit ↔
        (reads = false → order.stopLoss = f.stop ∧ order.takeProfit = f.target) := by
      cases reads with
      | true => simp
      | false => simp [stops, intendedStops]
    simp only [outcome, if_neg hpath, if_true, outcomeOf, FillOutcome.mk.injEq, hstops]
    simp only [hpath, ne_eq, not_false_eq_true, true_implies]
    constructor
    · rintro ⟨status, -, orderId, -, -, -, stops⟩
      exact ⟨hstatus.mp status, Option.some.inj orderId, stops⟩
    · rintro ⟨whole, orderId, stops⟩
      exact ⟨hstatus.mpr whole, rfl, congrArg some orderId, rfl, rfl, rfl, stops⟩

end OpenFill

/-- The runs of `submit` that hear of one fill on the three paths end in the same outcome, exactly
when the fill is whole, the id of its order is that of its trade, and a path on which the trade
was not read reports the stops that are attached. -/
theorem reconciled_agrees_iff (f : OpenFill) {order : ConstructedOrder}
    {expectedPrice : Option Binary64} {a : Path → OandaAdapter} {modelSetId : Path → Option String}
    {reads : Path → Bool} {result : Path → FillResult} {t : Path → List (Event BrokerI Exc)}
    (exec : ∀ path, Exec World.free (submit (a path) order expectedPrice (modelSetId path)) []
      (some (.ok (result path))) (t path))
    (told : ∀ path, ∀ e ∈ t path,
      f.Tells (clientOrderId order.idempotencyKey) path (reads path) e) :
    (∀ path path', outcome (result path) = outcome (result path')) ↔
      ¬ f.IsPartial order ∧ f.orderId = f.tradeId ∧ ∀ path, path ≠ .openTrades →
        reads path = false → order.stopLoss = f.stop ∧ order.takeProfit = f.target := by
  have houtcome : ∀ path, outcome (result path) =
      f.outcome order (expectedPrice.getD order.entryPrice) path (reads path) :=
    fun path => f.submit_outcome (exec path) (told path)
  calc
    (∀ path path', outcome (result path) = outcome (result path')) ↔
        ∀ path, outcome (result path) = outcome (result .openTrades) :=
      ⟨fun h path => h path .openTrades, fun h path path' => (h path).trans (h path').symm⟩
    _ ↔ ∀ path, path ≠ .openTrades → ¬ f.IsPartial order ∧ f.orderId = f.tradeId ∧
        (reads path = false → order.stopLoss = f.stop ∧ order.takeProfit = f.target) := by
      refine forall_congr' fun path => ?_
      rw [houtcome path, houtcome .openTrades]
      exact f.outcome_eq_iff _
    _ ↔ _ := by
      constructor
      · intro h
        obtain ⟨whole, named, -⟩ := h .reply (by simp)
        exact ⟨whole, named, fun path hpath => (h path hpath).2.2⟩
      · rintro ⟨whole, named, hstops⟩ path hpath
        exact ⟨whole, named, hstops path hpath⟩

/-! ### One fill of a plain order -/

/-- The trade of `plainFill` at the broker. -/
def plainTrade : Dict :=
  [("id", .str "6357"), ("state", .str "OPEN"), ("price", .str "1.10012"),
    ("currentUnits", .str "1000"), ("openTime", .str "2026-07-21T10:00:00Z"),
    ("clientExtensions", .dict [("id", .str "sb-k")]),
    ("stopLossOrder", .dict [("price", .str "1.09")]),
    ("takeProfitOrder", .dict [("price", .str "1.13")])]

/-- `plainFill`, with an id of its own for the order or with that of the trade. -/
def openFill (own : Bool) : OpenFill where
  fill := [("id", .str "6357"), ("type", .str "ORDER_FILL"), ("clientOrderID", .str "sb-k"),
    ("orderID", .str (if own then "6356" else "6357")), ("price", .str "1.10012"), ("units", .str "1000"),
    ("time", .str "2026-07-21T10:00:00Z"), ("tradeOpened", .dict [("tradeID", .str "6357")])]
  trade := plainTrade
  tradeId := "6357"
  price := .ofRat (110012 / 100000)
  units := .ofRat 1000
  stop := .ofRat (109 / 100)
  target := .ofRat (113 / 100)
  fillPrice := ⟨.str "1.10012", rfl, by decide +kernel⟩
  fillUnits := ⟨.str "1000", rfl, by decide +kernel⟩
  opened := ⟨_, rfl, .str "6357", rfl, rfl⟩
  tradeId_ne := by decide
  sameTrade := ⟨.str "6357", rfl, rfl⟩
  samePrice := ⟨.str "1.10012", rfl, by decide +kernel⟩
  sameUnits := ⟨.str "1000", rfl, .ofRat 1000, by decide +kernel, rfl⟩
  isOpen := by decide +kernel
  stopAttached := by decide +kernel
  targetAttached := by decide +kernel

/-- A broker at which `plainOrder` was filled so, seen on one path. -/
def openFillBroker (own : Bool) (path : Path) (op : BrokerCall) : Except Exc op.Ans :=
  match op with
  | .createOrder _ => match path with
      | .reply => .ok [("orderFillTransaction", .dict (openFill own).fill)]
      | _ => .error ⟨.transientBrokerError, []⟩
  | .getRecentTransactions _ => match path with
      | .window => .ok [(openFill own).fill]
      | _ => .ok []
  | .getOpenTrades => match path with
      | .openTrades => .ok [plainTrade]
      | _ => .ok []
  | .getTrade _ => .ok (some plainTrade)
  | .modifyTradeStop _ _ _ => .ok []
  | .getAccountInstruments _ => .ok []
  | .sleep _ => .ok ()
  | .cachedSpec _ => .ok none
  | .cacheSpec _ _ => .ok ()

/-- An adapter that hears of a fill on a path. -/
def adapterOn (path : Path) : OandaAdapter where
  retryMax := 2
  backoffSec := .ofRat (1 / 2)
  slippageTolerancePips := .ofRat 2
  hasRecentTransactions := path ≠ .openTrades
  hasAccountInstruments := false

/-- The submit of `plainOrder` on a path, with its record. -/
def submitOn (own : Bool) (path : Path) : Except Exc FillResult × List (Event BrokerI Exc) :=
  (submit (adapterOn path) plainOrder none none).run (World.record (openFillBroker own path)) []

theorem openFillBroker_tells (own : Bool) (path : Path) :
    ∀ e ∈ (submitOn own path).2, (openFill own).Tells (clientOrderId "k") path true e := by
  intro e he
  rw [submitOn, Proc.run_record] at he
  obtain ⟨op, r⟩ := e
  obtain rfl : r = openFillBroker own path op := Proc.eq_of_mem_trail he
  cases op with
  | createOrder payload =>
      cases path with
      | reply => exact ⟨rfl, rfl⟩
      | window => rfl
      | openTrades => rfl
  | getRecentTransactions count =>
      cases path with
      | window =>
          intro fill hfill
          have hlast := ((priorSubmissionVerdict_filled_iff hfill) fill).mp rfl
          have hmem := (List.mem_filter.mp (List.mem_of_getLast? hlast)).1
          exact ⟨rfl, List.mem_singleton.mp hmem⟩
      | reply => exact fun fill hfill => nomatch hfill
      | openTrades => exact fun fill hfill => nomatch hfill
  | getOpenTrades =>
      cases path with
      | openTrades =>
          intro trade htrade
          have hfound : findTrade (clientOrderId "k") [plainTrade] = .ok (some plainTrade) := rfl
          exact ⟨rfl, (Option.some.inj (Except.ok.inj (hfound.symm.trans htrade))).symm⟩
      | reply => exact fun trade htrade => nomatch htrade
      | window => exact fun trade htrade => nomatch htrade
  | getTrade tradeId => exact fun _ => rfl
  | _ => exact trivial

theorem submitOn_returns (own : Bool) (path : Path) :
    ∃ result, (submitOn own path).1 = .ok result ∧
      Exec World.free (submit (adapterOn path) plainOrder none none) [] (some (.ok result))
        (submitOn own path).2 := by
  refine exec_record_isOk ?_
  revert own
  cases path with
  | reply => decide +kernel
  | window => decide +kernel
  | openTrades => decide +kernel

theorem reconciled_agrees_iff_sameId : ∃ result : Path → FillResult,
    (∀ path, (submitOn false path).1 = .ok (result path)) ∧
      ∀ path path', outcome (result path) = outcome (result path') := by
  choose result returned exec using submitOn_returns false
  have whole : ¬ (openFill false).IsPartial plainOrder := by decide +kernel
  have named : (openFill false).orderId = (openFill false).tradeId := by decide +kernel
  exact ⟨result, returned, (reconciled_agrees_iff (openFill false) exec
    (openFillBroker_tells false)).mpr ⟨whole, named, fun _ _ hunread => nomatch hunread⟩⟩

/-- A whole fill, read back from the open trades: its trade id stands for its order id. -/
theorem openTrades_names_trade : ∃ result : Path → FillResult,
    (∀ path, (submitOn true path).1 = .ok (result path) ∧
      ∀ e ∈ (submitOn true path).2, (openFill true).Tells (clientOrderId "k") path true e) ∧
      (result .reply).brokerOrderId = some "6356" ∧
      (result .openTrades).brokerOrderId = some "6357" := by
  choose result returned exec using submitOn_returns true
  have houtcome : ∀ path, outcome (result path) = (openFill true).outcome plainOrder _ path true :=
    fun path => (openFill true).submit_outcome (exec path) (openFillBroker_tells true path)
  refine ⟨result, fun path => ⟨returned path, openFillBroker_tells true path⟩, ?_, ?_⟩
  · exact congrArg FillOutcome.brokerOrderId (houtcome .reply)
  · exact congrArg FillOutcome.brokerOrderId (houtcome .openTrades)

end OandaAdapter

end System2
