import System2.Broker.OandaAdapter
import System2.Broker.StopRules
import System2.Execution.CloseTracker
import System2.Execution.ServiceRuns
import System2.Execution.SubmitOnce
import System2.Execution.Validation

/-!
# Startup reconcile (`execution/close_tracker.py`, `execution/lifecycle.py`)

After a restart the runtime takes over the trades that are open at the broker. The order's
key comes back from the trade's client id, and the signal and the granularity of the order
from the fill outbox.

## Implementation notes

A row of the outbox stands for what `json.loads` makes of its text. The calls to the
database raise nothing but its own errors.
-/

namespace System2
open Foundation

/-- The text of a row, decoded: `none` where it is not JSON. -/
abbrev OutboxRow := Option PyVal

/-- The calls of a restart: the file of the outbox with its rows, newest first, the clock,
the broker and the book. -/
inductive RestartCall
  | outboxExists (path : String)
  | selectBodies (path : String)
  | utcNow
  | getOpenTrades
  | register (t : ManagedTrade)

abbrev RestartCall.Ans : RestartCall → Type
  | .outboxExists _ => Bool
  | .selectBodies _ => List OutboxRow
  | .utcNow => Moment
  | .getOpenTrades => PyVal
  | .register _ => Unit

abbrev RestartI : Interface := ⟨RestartCall, RestartCall.Ans⟩

namespace StartupReconcile

abbrev perform (op : RestartCall) : Proc RestartI Exc op.Ans := Proc.perform (I := RestartI) op

def convert {α : Type} (r : Except PyErr α) : Proc RestartI Exc α := .ofExcept (Exc.lift r)

/-! ### The outbox scan -/

/-- `iter_fill_envelopes`, before it looks at the rows: nothing on any error. -/
def outboxRows (path : String) : Proc RestartI Exc (List OutboxRow) := do
  if ← perform (.outboxExists path) then
    match ← (perform (.selectBodies path)).attempt with
    | .ok rows => return rows
    | .error _ => return []
  else return []

/-- A fill confirmation of the order with this key. -/
def confirms (key : String) (envelope : Dict) : Bool :=
  (envelope.get "event_type").isStr "fill_confirmation" &&
    (envelope.get "idempotency_key").isStr key

/-- `find_fill_envelope`. The rows are decoded one by one, up to the one that is found. -/
def findFillEnvelope (key : String) : List OutboxRow → Except PyErr (Option Dict)
  | [] => .ok none
  | none :: rest => findFillEnvelope key rest
  | some (.dict envelope) :: rest =>
      if confirms key envelope then .ok (some envelope) else findFillEnvelope key rest
  | some _ :: _ => .error .attributeError

/-! ### The adopted trade -/

/-- `_CLIENT_ID_PREFIX` of the close tracker. -/
def clientIdPrefix : String := "sb-"

/-- The key of the order in the trade's client id. -/
def recoverKey (record : Dict) : Except PyErr (Option String) := do
  let id ← (record.get "clientExtensions").orEmptyGet "id"
  if !id.truthy then return none
  else
    match id with
    | .str text =>
        if clientIdPrefix.toList.isPrefixOf text.toList then
          return some (String.ofList (text.toList.drop clientIdPrefix.length))
        else return none
    | _ => .error .attributeError

/-- The envelope of the order's fill; an empty one when there is no path or no key. -/
def recoverEnvelope (outboxPath orderRequestId : Option String) : Proc RestartI Exc Dict :=
  match outboxPath.filter (· != ""), orderRequestId.filter (· != "") with
  | some path, some key => do
      let rows ← outboxRows path
      let found ← convert (findFillEnvelope key rows)
      return found.getD []
  | _, _ => .ret []

/-- A field of an envelope, as text. -/
def recoveredText (v : PyVal) : Option String := if v.truthy then some v.toStr else none

/-- The units of a trade, the initial ones where they are given. -/
def tradeUnits (record : Dict) : Except PyErr Binary64 :=
  if (record.get "initialUnits").truthy then (record.get "initialUnits").toFloat
  else (record.get "currentUnits").floatOrZero

/-- `_order_price`. -/
def orderPrice (dependentOrder : PyVal) : Except PyErr (Option Binary64) := do
  let price ← dependentOrder.orEmptyGet "price"
  price.floatIf

/-- `managed_trade_from_broker_trade`. -/
def managedTradeFromBrokerTrade (host : LocalZone) (outboxPath : Option String) (record : Dict) :
    Proc RestartI Exc (Option ManagedTrade) := do
  if !(record.get "id").truthy then return none
  else
    let orderRequestId ← convert (recoverKey record)
    let envelope ← recoverEnvelope outboxPath orderRequestId
    let units ← convert (tradeUnits record)
    let entryPrice ← convert (record.get "price").floatOrZero
    let stop ← convert (orderPrice (record.get "stopLossOrder"))
    let target ← convert (orderPrice (record.get "takeProfitOrder"))
    let openTime ← match ← convert (parseTime host (record.get "openTime")) with
      | some t => Proc.ret t
      | none => perform .utcNow
    return some (buildManagedTrade (record.get "id").toStr
      (record.getOr "instrument" (.str "")).toStr (if units.lt .zero then "SELL" else "BUY")
      entryPrice stop target openTime (recoveredText (envelope.get "granularity"))
      (recoveredText (envelope.get "correlation_id")) orderRequestId)

/-- `reconcile_fn` on what the broker lists. -/
def reconcile (host : LocalZone) (outboxPath : Option String) :
    PyVal → Proc RestartI Exc (Option ManagedTrade)
  | .dict record => managedTradeFromBrokerTrade host outboxPath record
  | _ => .raise (.ofErr .attributeError)

/-- One trade of the list: how many were adopted. -/
def adopt (host : LocalZone) (outboxPath : Option String) (trade : PyVal) :
    Proc RestartI Exc ℕ := do
  match ← (reconcile host outboxPath trade).attempt with
  | .error _ => do
      -- the log line asks the trade for its id
      let _ ← convert (trade.getAttrGet "id")
      return 0
  | .ok none => return 0
  | .ok (some t) => do
      let _ ← perform (.register t)
      return 1

def adoptAll (host : LocalZone) (outboxPath : Option String) :
    List PyVal → Proc RestartI Exc ℕ
  | [] => .ret 0
  | trade :: rest => do
      let adopted ← adopt host outboxPath trade
      let more ← adoptAll host outboxPath rest
      return adopted + more

/-- `startup_reconcile`. -/
def startupReconcile (host : LocalZone) (outboxPath : Option String) : Proc RestartI Exc ℕ := do
  match ← (perform .getOpenTrades).attempt with
  | .error _ => return 0
  | .ok trades => do
      let items ← convert trades.iter
      adoptAll host outboxPath items

/-! ### What a restart keeps -/

/-- A field that says a number. -/
def Says (v : PyVal) (x : Binary64) : Prop := v.truthy = true ∧ v.toFloat = .ok x

/-- The broker's record of an open trade is true to the fill of an order: its id, its
instrument, its price, the sign of its units and its client id. The attached orders and the
opening time can be read. -/
structure Truthful (host : LocalZone) (order : ApprovedOrder) (fill : FillResult)
    (record : Dict) : Prop where
  sameId : record.get? "id" = fill.brokerTradeId.map PyVal.str
  instrument : record.get? "instrument" = some (.str order.instrument)
  price : ∃ x, fill.fillPrice = some x ∧ Says (record.get "price") x
  units : ∃ u, Says (record.get "initialUnits") u ∧ (u.lt .zero = true ↔ order.side = "SELL")
  clientId : ∃ extensions : Dict, record.get "clientExtensions" = .dict extensions ∧
    extensions.get? "id" = some (.str (clientOrderId order.idempotencyKey))
  attached : (orderPrice (record.get "stopLossOrder")).isOk = true ∧
    (orderPrice (record.get "takeProfitOrder")).isOk = true
  opened : (parseTime host (record.get "openTime")).isOk = true

/-- A value that `publish_fill` writes to the outbox for this fill, in some run. -/
def Persisted (p : FillProducer) (rounds : ℕ) (order : ApprovedOrder) (fill : FillResult)
    (body : PyVal) : Prop :=
  ∃ (out : Option (Except Exc PyVal)) (t : List (Event ProducerI Exc)) (r : Except Exc Unit),
    Exec World.free (p.publishFill rounds order fill) [] out t ∧
      ⟨ProducerCall.outboxPublish p.outboxTopic body, r⟩ ∈ t

/-- The rows hold one confirmation for the key. The others are objects of any kind, and
text that is not JSON. -/
structure HoldsOnce (key : String) (body : PyVal) (rows : List OutboxRow) : Prop where
  stored : some body ∈ rows
  objects : ∀ v, some v ∈ rows → ∃ envelope, v = .dict envelope
  only : ∀ envelope, some (.dict envelope) ∈ rows → confirms key envelope = true →
    .dict envelope = body

/-- The file of the outbox can be read, and the clock works. -/
def restartWorld (path : String) (rows : List OutboxRow) : World RestartI Exc Unit :=
  fun _ op r _ =>
    match op with
    | .outboxExists p => p = path → r = .ok true
    | .selectBodies p => p = path → r = .ok rows
    | .utcNow => ∃ t, r = .ok t
    | _ => True

/-- Two trades are the same to the broker and to the journal. -/
structure SameIdentity (t t' : ManagedTrade) : Prop where
  brokerTradeId : t.brokerTradeId = t'.brokerTradeId
  orderRequestId : t.orderRequestId = t'.orderRequestId
  correlationId : t.correlationId = t'.correlationId
  granularity : t.granularity = t'.granularity
  instrument : t.instrument = t'.instrument
  side : t.side = t'.side
  entryPrice : t.entryPrice = t'.entryPrice

section Recovery
variable {host : LocalZone} {order : ApprovedOrder} {fill : FillResult} {record : Dict}
  {key path : String} {body : PyVal} {rows : List OutboxRow} {p : FillProducer} {rounds : ℕ}

/-- The key is behind the prefix of the client id. -/
theorem toList_clientOrderId :
    (clientOrderId key).toList = clientIdPrefix.toList ++ key.toList :=
  String.toList_append

theorem recoverKey_clientOrderId {extensions : Dict}
    (hext : record.get "clientExtensions" = .dict extensions)
    (hid : extensions.get? "id" = some (.str (clientOrderId key))) :
    recoverKey record = .ok (some key) := by
  have htruthy : (PyVal.dict extensions).truthy = true := by
    cases extensions with
    | nil => cases hid
    | cons entry rest => rfl
  have hget : Dict.get extensions "id" = .str (clientOrderId key) := by
    rw [Dict.get, hid]
    rfl
  have hne : (PyVal.str (clientOrderId key)).truthy = true := by
    rw [PyVal.truthy, bne_iff_ne]
    intro h
    have hlist := congrArg String.toList h
    rw [toList_clientOrderId] at hlist
    cases hlist
  have hprefix : clientIdPrefix.toList.isPrefixOf (clientOrderId key).toList = true := by
    rw [toList_clientOrderId, List.isPrefixOf_iff_prefix]
    exact List.prefix_append _ _
  have hdrop : String.ofList ((clientOrderId key).toList.drop clientIdPrefix.length) = key := by
    rw [toList_clientOrderId, ← String.length_toList, List.drop_left, String.ofList_toList]
  simp only [recoverKey, hext, PyVal.orEmptyGet, htruthy, PyVal.getAttrGet, hget, hne, hprefix,
    hdrop, bind, Except.bind, pure, Except.pure, if_true, Bool.not_true, Bool.false_eq_true,
    if_false]

/-- The confirmation is found, wherever it stands. -/
theorem findFillEnvelope_only {envelope : Dict} (holds : HoldsOnce key (.dict envelope) rows)
    (hconfirms : confirms key envelope = true) :
    findFillEnvelope key rows = .ok (some envelope) := by
  obtain ⟨stored, objects, only⟩ := holds
  induction rows with
  | nil => cases stored
  | cons row rest ih =>
      have hrest : ∀ v, some v ∈ rest → some v ∈ row :: rest := fun v => List.mem_cons_of_mem _
      cases row with
      | none =>
          rw [findFillEnvelope]
          exact ih ((List.mem_cons.mp stored).resolve_left (by simp))
            (fun v hv => objects v (hrest v hv)) fun e he => only e (hrest _ he)
      | some v =>
          obtain ⟨d, rfl⟩ := objects v List.mem_cons_self
          rw [findFillEnvelope]
          by_cases hfound : confirms key d = true
          · obtain rfl : d = envelope := PyVal.dict.inj (only d List.mem_cons_self hfound)
            rw [if_pos hfound]
          · rw [if_neg hfound]
            refine ih ((List.mem_cons.mp stored).resolve_left ?_)
              (fun v hv => objects v (hrest v hv)) fun e he => only e (hrest _ he)
            intro h
            rw [← PyVal.dict.inj (Option.some.inj h)] at hfound
            exact hfound hconfirms

/-- A call that writes nothing but this value to the outbox. -/
def WritesOnly (R : PyVal → Prop) (op : ProducerCall) : Prop :=
  ∀ topic body, op = .outboxPublish topic body → R body

/-- Only the confirmation is written to the outbox. -/
theorem persisted_eq (h : Persisted p rounds order fill body) :
    ∃ messageId createdAt, body = makeEnvelope messageId createdAt
      (FillProducer.fillPayload order fill) order.idempotencyKey order.correlationId
      (some order.granularity) (some "fill_confirmation") := by
  obtain ⟨out, t, r, exec, hmem⟩ := h
  have hwrites : (p.publishFill rounds order fill).Only (WritesOnly fun body =>
      ∃ messageId createdAt, body = makeEnvelope messageId createdAt
        (FillProducer.fillPayload order fill) order.idempotencyKey order.correlationId
        (some order.granularity) (some "fill_confirmation")) := by
    refine FillProducer.only_publishFill ?_ ?_ ?_ ?_
    · rintro topic body ⟨⟩
    · rintro topic body ⟨⟩
    · rintro messageId createdAt topic body ⟨⟩
      exact ⟨messageId, createdAt, rfl⟩
    · rintro op hdeliver topic body rfl
      cases hdeliver
  exact events_of_only hwrites exec _ hmem _ _ rfl

theorem confirms_makeEnvelope {messageId createdAt correlationId : String} {payload : PyVal}
    {granularity : Option String} {envelope : Dict}
    (h : PyVal.dict envelope = makeEnvelope messageId createdAt payload key correlationId
      granularity (some "fill_confirmation")) : confirms key envelope = true := by
  obtain rfl := PyVal.dict.inj h
  cases granularity <;> simp [confirms, Dict.get, Dict.get?, PyVal.isStr]

theorem wp_outboxRows :
    wp (restartWorld path rows) (outboxRows path) (fun r _ => r = .ok rows) () := by
  unfold outboxRows
  simp only [Proc.bind_eq]
  refine wpc_seq (R := fun r _ => r = .ok true)
    (wpc_of_perform trivial fun r _ step => ⟨trivial, step rfl⟩) ?_ fun e _ _ h => by cases h
  rintro found _ - ⟨⟩
  rw [if_pos rfl]
  refine wpc_seq_attempt (R := fun r _ => r = .ok rows)
    (wpc_of_perform trivial fun r _ step => ⟨trivial, step rfl⟩) ?_
  rintro r _ - rfl
  exact ⟨trivial, rfl⟩

/-- With the file there, the lookup finds the confirmation. -/
theorem wp_recoverEnvelope {envelope : Dict} (hpath : path ≠ "") (hkey : key ≠ "")
    (hfind : findFillEnvelope key rows = .ok (some envelope)) :
    wp (restartWorld path rows) (recoverEnvelope (some path) (some key))
      (fun r _ => r = .ok envelope) () := by
  have hpath' : (some path).filter (· != "") = some path := by simp [hpath]
  have hkey' : (some key).filter (· != "") = some key := by simp [hkey]
  simp only [recoverEnvelope, hpath', hkey', Proc.bind_eq]
  refine wpc_seq wp_outboxRows ?_ fun e _ _ h => by cases h
  rintro found _ - ⟨⟩
  simp only [convert, hfind, Exc.lift_ok, Proc.ofExcept, Proc.ret_bind]
  exact ⟨trivial, rfl⟩

theorem recoveredText_str (text : String) :
    recoveredText (.str text) = (some text).filter fun s => s != "" := by
  rw [recoveredText, PyVal.truthy, Option.filter]
  rfl

theorem getD_recoveredText (text : String) : (recoveredText (.str text)).getD "" = text := by
  rw [recoveredText_str]
  by_cases h : text = ""
  · rw [h]
    rfl
  · simp [Option.filter, h]

theorem brokerTradeId_of_managed {id : String} (h : managedTradeId fill = some id) :
    fill.brokerTradeId = some id ∧ id ≠ "" := by
  unfold managedTradeId at h
  split_ifs at h
  simpa [and_comm] using (Option.filter_eq_some_iff.mp h)

/-- The side that the sign of the units says is the order's. -/
theorem upper_side {u : Binary64} (sided : order.side ∈ validSides)
    (hsell : u.lt .zero = true ↔ order.side = "SELL") :
    upper (if u.lt .zero then "SELL" else "BUY") = upper order.side := by
  by_cases h : u.lt .zero = true
  · rw [if_pos h, hsell.mp h]
  · have hbuy : order.side = "BUY" := by
      simp only [validSides, List.mem_cons, List.not_mem_nil, or_false] at sided
      exact sided.resolve_right (mt hsell.mpr h)
    rw [if_neg h, hbuy]

/-- The trade is built from the record, and from the envelope that was found. -/
theorem wp_managedTradeFromBrokerTrade {id : String} {envelope : Dict} (hpath : path ≠ "")
    (keyed : order.idempotencyKey ≠ "") (managed : managedTradeId fill = some id)
    (hfind : findFillEnvelope order.idempotencyKey rows = .ok (some envelope))
    (truthful : Truthful host order fill record) :
    wp (restartWorld path rows) (managedTradeFromBrokerTrade host (some path) record)
      (fun r _ => ∃ (u x : Binary64) (stop target : Option Binary64) (openTime : Moment),
        (u.lt .zero = true ↔ order.side = "SELL") ∧
        fill.fillPrice = some x ∧
        r = .ok (some (buildManagedTrade id order.instrument
          (if u.lt .zero then "SELL" else "BUY") x stop target openTime
          (recoveredText (envelope.get "granularity"))
          (recoveredText (envelope.get "correlation_id")) (some order.idempotencyKey)))) () := by
  obtain ⟨htradeId, hne⟩ := brokerTradeId_of_managed managed
  have hid : record.get "id" = .str id := by
    rw [Dict.get, truthful.sameId, htradeId]
    rfl
  have htruthy : (PyVal.str id).truthy = true := by simpa [PyVal.truthy] using hne
  have hinstrument : record.getOr "instrument" (.str "") = .str order.instrument := by
    rw [Dict.getOr, truthful.instrument]
    rfl
  obtain ⟨extensions, hext, hclient⟩ := truthful.clientId
  obtain ⟨x, hfill, hpriced, hx⟩ := truthful.price
  obtain ⟨u, ⟨hunits, hu⟩, hsell⟩ := truthful.units
  obtain ⟨stop, hstop⟩ := exists_of_isOk truthful.attached.1
  obtain ⟨target, htarget⟩ := exists_of_isOk truthful.attached.2
  obtain ⟨opened, hopened⟩ := exists_of_isOk truthful.opened
  simp only [managedTradeFromBrokerTrade, hid, htruthy, recoverKey_clientOrderId hext hclient,
    hinstrument, convert, Exc.lift_ok, Proc.ofExcept, Proc.bind_eq, Proc.ret_bind, Bool.not_true,
    Bool.false_eq_true, if_false]
  refine wpc_seq (wp_recoverEnvelope hpath keyed hfind) ?_ fun e _ _ h => by cases h
  rintro found _ - ⟨⟩
  simp only [tradeUnits, hunits, hu, PyVal.floatOrZero, hpriced, hx, hstop, htarget, hopened,
    Exc.lift_ok, Proc.ret_bind, if_true]
  cases opened with
  | some t => exact ⟨trivial, u, x, stop, target, t, hsell, hfill, rfl⟩
  | none =>
      refine wpc_seq (R := fun r _ => ∃ t, r = .ok t)
        (wpc_of_perform trivial fun r _ step => ⟨trivial, step⟩) ?_ ?_
      · intro t _ _ _
        exact ⟨trivial, u, x, stop, target, t, hsell, hfill, rfl⟩
      · rintro e _ - ⟨t, ht⟩
        cases ht

end Recovery

section Stops
variable {t : ManagedTrade} {stop : Binary64} {record : Dict} {host : LocalZone}
  {outboxPath : Option String} {allowed : (op : RestartCall) → Except Exc op.Ans → Prop}

/-- A trade that is built with a stop is the one of the stop rules after a restart. -/
theorem stopState_buildManagedTrade {id side : String} {target : Option Binary64}
    {openTime : Moment} {granularity correlationId orderRequestId : Option String}
    (hset : stop.eq .zero = false) (hside : upper (upper side) = "BUY" ↔ upper t.side = "BUY") :
    (buildManagedTrade id t.instrument side t.entryPrice (some stop) target openTime granularity
      correlationId orderRequestId).stopState = t.stopState.rebuilt stop := by
  have hstop : ((some stop).filter fun x => !x.eq .zero).getD .zero = stop := by
    simp [Option.filter, hset]
  simp only [ManagedTrade.stopState, StopState.rebuilt, buildManagedTrade, hstop, hside]

/-- The broker's record of a trade, with the stop that is attached to it. -/
structure ListsStop (t : ManagedTrade) (stop : Binary64) (record : Dict) : Prop where
  instrument : record.get? "instrument" = some (.str t.instrument)
  price : Says (record.get "price") t.entryPrice
  units : ∃ u, tradeUnits record = .ok u ∧ (u.lt .zero = false ↔ upper t.side = "BUY")
  stopLoss : orderPrice (record.get "stopLossOrder") = .ok (some stop)
  set : stop.eq .zero = false

/-- Whatever the outbox and the clock say, a trade adopted from such a record goes on with the
attached stop as its initial one, and breakeven before it. -/
theorem yields_stopState (listed : ListsStop t stop record) :
    (managedTradeFromBrokerTrade host outboxPath record).Yields allowed fun found =>
      ∀ adopted, found = some adopted → adopted.stopState = t.stopState.rebuilt stop := by
  obtain ⟨u, hunits, hbuy⟩ := listed.units
  have hinstrument : record.getOr "instrument" (.str "") = .str t.instrument := by
    rw [Dict.getOr, listed.instrument]
    rfl
  have hprice : (record.get "price").floatOrZero = .ok t.entryPrice := by
    rw [PyVal.floatOrZero, if_pos listed.price.1, listed.price.2]
  have hside : upper (upper (if u.lt .zero then "SELL" else "BUY")) = "BUY" ↔
      upper t.side = "BUY" := by
    rw [← hbuy]
    cases u.lt .zero with
    | true => decide +kernel
    | false => decide +kernel
  unfold managedTradeFromBrokerTrade
  split_ifs
  · intro adopted hadopted
    cases hadopted
  · simp only [convert, hunits, hprice, listed.stopLoss, hinstrument, Exc.lift_ok, Proc.ofExcept,
      Proc.bind_eq, Proc.ret_bind]
    refine (Proc.yields_true _).bind fun orderRequestId _ => ?_
    refine (Proc.yields_true _).bind fun envelope _ => ?_
    refine (Proc.yields_true _).bind fun target _ => ?_
    refine (Proc.yields_true _).bind fun opened _ => ?_
    have hbuilt : ∀ openTime : Moment, ∀ adopted,
        some (buildManagedTrade (record.get "id").toStr t.instrument
          (if u.lt .zero then "SELL" else "BUY") t.entryPrice (some stop) target openTime
          (recoveredText (envelope.get "granularity"))
          (recoveredText (envelope.get "correlation_id")) orderRequestId) = some adopted →
        adopted.stopState = t.stopState.rebuilt stop := by
      rintro openTime adopted ⟨⟩
      exact stopState_buildManagedTrade listed.set hside
    cases opened with
    | some openTime => exact hbuilt openTime
    | none => exact (Proc.yields_true _).bind fun openTime _ => hbuilt openTime

end Stops

/-! ### A restart after one fill -/

/-- The order whose fill is on file, with its producer. -/
def heldOrder : ApprovedOrder := Pipeline.sampleOrder "k"

def outboxProducer : FillProducer := ⟨"executor-inbound", "fill_outbox"⟩

/-- The outbox takes what is written, and nothing is delivered. -/
def quietOutbox (op : ProducerCall) : Except Exc op.Ans :=
  match op with
  | .uuid4 => .ok "m-1"
  | .utcNowIso => .ok "2026-07-21T10:00:00Z"
  | .outboxPull _ _ => .ok []
  | .outboxPublish _ _ => .ok ()
  | .outboxAck _ => .ok ()
  | .outboxNack _ _ => .ok ()
  | .queuePublish _ _ => .ok ()
  | .registerTrade _ _ _ => .ok ()

/-- The confirmation of the fill. -/
def heldConfirmation : PyVal :=
  makeEnvelope "m-1" "2026-07-21T10:00:00Z"
    (FillProducer.fillPayload heldOrder ConsumerService.plainFill) "k" "corr" (some "H1")
    (some "fill_confirmation")

/-- A damaged row, a control event, and the confirmation. -/
def heldRows : List OutboxRow :=
  [none, some (.dict [("idempotency_key", .str "control:STOPPED:"), ("event_type", .str "STOPPED")]),
    some heldConfirmation]

/-- The trade of the fill as the broker lists it. -/
def listedTrade : Dict :=
  [("id", .str "trade-1"), ("instrument", .str "EUR_USD"), ("price", .str "1.1"),
    ("initialUnits", .str "1000"), ("openTime", .str "2026-07-21T10:00:00Z"),
    ("clientExtensions", .dict [("id", .str "sb-k")])]

def restartedHost (op : RestartCall) (_ : Unit) : Except Exc op.Ans × Unit :=
  match op with
  | .outboxExists _ => (.ok true, ())
  | .selectBodies _ => (.ok heldRows, ())
  | .utcNow => (.ok Moment.first, ())
  | .getOpenTrades => (.ok (.list [.dict listedTrade]), ())
  | .register _ => (.ok (), ())

end StartupReconcile

end System2
