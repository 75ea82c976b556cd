import System2.Execution.BookGuard
import System2.Execution.SubmitOnce
import System2.Broker.FillReported

/-!
# The trade that a fill opened

Register-on-fill puts the trade of a fill into the book under the broker's id. A fill
that opens a trade names it; one that only reduces or closes trades names none, and the
id of the transaction itself stands in for it.
-/

namespace System2
open Foundation

/-- The id of the trade that a fill opened. -/
def openedTrade? (fill : Dict) : Option String :=
  match Dict.get? (fill.get "tradeOpened").entries "tradeID" with
  | some (.str id) => some id
  | _ => none

/-- A fill of the documented shape: with an id and a time, and with a named trade where it
opened one. -/
structure WellFormedReply (host : LocalZone) (order : ConstructedOrder) (fill : Dict) : Prop
    extends OandaAdapter.WellFormedFill order fill where
  identified : ∃ id, id ≠ "" ∧ fill.get? "id" = some (.str id)
  named : (fill.get "tradeOpened").truthy = true → ∃ id, id ≠ "" ∧ openedTrade? fill = some id
  timed : (parseTime host (fill.get "time")).isOk = true

/-- Every trade that the hook puts into the book, in any run, is the one that the fill opened. -/
def RegistersOpened (rt : LiveRuntime) (order : ApprovedOrder) (c : ConstructedOrder)
    (fill : Dict) (result : FillResult) : Prop :=
  ∀ (out : Option (Except Exc Unit)) (t : List (Event LiveI Exc)),
    Exec World.free (rt.registerOnFill order c result) [] out t →
    ∀ (trade : ManagedTrade) (r : Except Exc Unit), ⟨LiveCall.register trade, r⟩ ∈ t →
      openedTrade? fill = some trade.brokerTradeId

section Reading
variable {host : LocalZone} {order : ConstructedOrder} {fill : Dict}

/-- The id that the adapter takes for the trade: the opened one, else the transaction's. -/
theorem openedTradeId_eq (h : WellFormedReply host order fill) (id : String) :
    ∃ v, OandaAdapter.openedTradeId fill (.str id) = .ok v ∧
      v.toStr = (openedTrade? fill).getD id := by
  unfold OandaAdapter.openedTradeId
  by_cases htruthy : (fill.get "tradeOpened").truthy = true
  · obtain ⟨opened, hopened⟩ := h.tradeOpened htruthy
    obtain ⟨id', -, hid'⟩ := h.named htruthy
    have hget : Dict.get? opened "tradeID" = some (.str id') := by
      unfold openedTrade? at hid'
      rw [hopened, PyVal.entries_dict] at hid'
      split at hid'
      · rename_i heq
        rw [heq, Option.some.inj hid']
      · cases hid'
    refine ⟨.str id', ?_, by rw [hid']; rfl⟩
    rw [hopened] at htruthy ⊢
    simp only [htruthy, Dict.getOr, hget, Bool.not_true, Bool.false_eq_true, if_false,
      Option.getD_some]
  · rw [Bool.not_eq_true] at htruthy
    refine ⟨.str id, by simp only [htruthy, Bool.not_false, if_true], ?_⟩
    rw [openedTrade?, PyVal.entries_of_not_truthy htruthy]
    rfl

/-- Neither id is empty. -/
theorem getD_openedTrade_ne (h : WellFormedReply host order fill) {id : String} (hne : id ≠ "") :
    (openedTrade? fill).getD id ≠ "" := by
  cases hopened : openedTrade? fill with
  | none => exact hne
  | some id' =>
      have htruthy : (fill.get "tradeOpened").truthy = true := by
        by_contra hfalse
        rw [openedTrade?, PyVal.entries_of_not_truthy (by simpa using hfalse)] at hopened
        cases hopened
      obtain ⟨id'', hne', hid''⟩ := h.named htruthy
      rw [hopened] at hid''
      rw [Option.some.inj hid'']
      exact hne'

/-- The result of a well-formed fill has a trade to manage. -/
theorem readFill_trade (h : WellFormedReply host order fill) {id : String}
    (hid : fill.get? "id" = some (.str id)) :
    ∃ report, OandaAdapter.readFill order fill = .ok report ∧
      (report.realizedStatus = "FILLED" ∨ report.realizedStatus = "PARTIAL") ∧
      report.brokerTradeId = (openedTrade? fill).getD id ∧ report.fillTime = fill.get "time" := by
  obtain ⟨v, hprice, x, hx⟩ := h.price
  obtain ⟨u, hu⟩ := h.units
  have hindex : fill.index "price" = .ok v := by
    rw [Dict.index, Option.mem_def.mp hprice]
  have hgetOr : fill.getOr "id" (.str "") = .str id := by
    rw [Dict.getOr, hid]
    rfl
  obtain ⟨tradeId, htradeId, hstr⟩ := openedTradeId_eq h id
  refine ⟨⟨if u.abs.lt order.units.abs then "PARTIAL" else "FILLED", u.abs,
    (fill.getOr "orderID" (.str id)).toStr, tradeId.toStr, x, fill.get "time"⟩, ?_, ?_, hstr, rfl⟩
  · simp only [OandaAdapter.readFill, hindex, hx, hu, hgetOr, htradeId, bind, Except.bind, pure,
      Except.pure]
  · dsimp only
    split_ifs
    · exact .inr rfl
    · exact .inl rfl

/-- Whatever is answered, the result has the opened trade to manage, else the transaction. -/
theorem wp_buildFillResult_trade (h : WellFormedReply host order fill) {id : String}
    (hid : fill.get? "id" = some (.str id)) (hne : id ≠ "") {a : OandaAdapter} {resp : Dict}
    (hresp : resp.get "orderFillTransaction" = .dict fill) {expected : Binary64}
    {modelSetId : Option String} (t : List (Event BrokerI Exc)) :
    wp World.free (OandaAdapter.buildFillResult a order resp expected modelSetId)
      (fun r _ => ∀ result, r = .ok result → result.fillTime = fill.get "time" ∧
        managedTradeId result = some ((openedTrade? fill).getD id)) t := by
  obtain ⟨report, hread, hstatus, htrade, htime⟩ := readFill_trade h hid
  have htruthy : (PyVal.dict fill).truthy = true := by
    obtain ⟨v, hprice, -⟩ := h.price
    cases fill with
    | nil => cases hprice
    | cons entry rest => rfl
  unfold OandaAdapter.buildFillResult OandaAdapter.convert
  simp only [hresp, htruthy, hread, Bool.not_true, Bool.false_eq_true, if_false, Exc.lift_ok,
    Proc.ofExcept, Proc.bind_eq, Proc.ret_bind]
  refine wpc_seq (wp_true _ _) ?_ ?_
  · rintro stops t' - -
    refine ⟨trivial, ?_⟩
    rintro result ⟨⟩
    refine ⟨htime, ?_⟩
    unfold managedTradeId
    rw [if_pos (by simpa using hstatus), htrade]
    simp [getD_openedTrade_ne h hne]
  · rintro e t' - - result ⟨⟩

end Reading

/-! ### The hook -/

section Hook
variable {rt : LiveRuntime} {order : ApprovedOrder} {c : ConstructedOrder} {result : FillResult}
  {id : String}

/-- A trade that is registered has this id. -/
def RegistersAs (id : String) (op : LiveCall) : Prop :=
  ∀ trade, op = .register trade → trade.brokerTradeId = id

theorem only_registerOnFill (h : managedTradeId result = some id) :
    (rt.registerOnFill order c result).Only (RegistersAs id) := by
  have hregister : ∀ openTime,
      RegistersAs id (.register (managedTradeFromFill order (some c) result id openTime)) := by
    rintro openTime trade ⟨⟩
    rfl
  simp only [LiveRuntime.registerOnFill, h, Proc.bind_eq]
  refine (Proc.along_ofExcept _).bind fun found => ?_
  cases found with
  | some t => exact Proc.along_perform (hregister t)
  | none =>
      exact (Proc.along_perform fun _ h => by cases h).bind fun t =>
        Proc.along_perform (hregister t)

variable (rt order c) in
/-- Some run registers it, when the time of the fill can be read. -/
theorem exists_registered (h : managedTradeId result = some id)
    (htimed : (parseTime rt.service.consumer.host result.fillTime).isOk = true) :
    ∃ (t : List (Event LiveI Exc)) (trade : ManagedTrade),
      Exec World.free (rt.registerOnFill order c result) [] (some (.ok ())) t ∧
        ⟨LiveCall.register trade, .ok ()⟩ ∈ t ∧ trade.brokerTradeId = id := by
  obtain ⟨time, htime⟩ := exists_of_isOk htimed
  simp only [LiveRuntime.registerOnFill, h, htime, Exc.lift_ok, Proc.ofExcept, Proc.bind_eq,
    Proc.ret_bind]
  cases time with
  | some t =>
      exact ⟨[⟨.register (managedTradeFromFill order (some c) result id t), .ok ()⟩],
        managedTradeFromFill order (some c) result id t, Exec.perform rfl,
        List.mem_cons_self, rfl⟩
  | none =>
      let now := Moment.first
      refine ⟨[⟨.utcNow, .ok now⟩,
          ⟨.register (managedTradeFromFill order (some c) result id now), .ok ()⟩],
        managedTradeFromFill order (some c) result id now,
        Exec.bind (Exec.perform (rfl : World.free [] _ _ _)) (Exec.perform rfl),
        List.mem_cons_of_mem _ List.mem_cons_self, rfl⟩

end Hook

/-- For every well-formed fill: in every run of register-on-fill with its result, every
trade that is put into the book is the one that the fill opened, exactly when the fill
opened one. -/
theorem registersOpened_iff {rt : LiveRuntime} {order : ApprovedOrder} {c : ConstructedOrder}
    {fill resp : Dict} (wellFormed : WellFormedReply rt.service.consumer.host c fill)
    (reply : resp.get "orderFillTransaction" = .dict fill) {a : OandaAdapter}
    {expected : Binary64} {modelSetId : Option String} {result : FillResult}
    {t : List (Event BrokerI Exc)}
    (exec : Exec World.free (OandaAdapter.buildFillResult a c resp expected modelSetId) []
      (some (.ok result)) t) :
    RegistersOpened rt order c fill result ↔ (openedTrade? fill).isSome = true := by
  obtain ⟨id, hne, hid⟩ := wellFormed.identified
  obtain ⟨htime, hmanaged⟩ :=
    wp_sound exec (wp_buildFillResult_trade wellFormed hid hne reply []) result rfl
  constructor
  · intro h
    have htimed := wellFormed.timed
    rw [← htime] at htimed
    obtain ⟨t, trade, hrun, hmem, -⟩ :=
      exists_registered rt order c hmanaged htimed
    rw [h _ _ hrun trade _ hmem]
    rfl
  · intro hopened out t hrun trade r hmem
    obtain ⟨id', hid'⟩ := Option.isSome_iff_exists.mp hopened
    rw [hid', Option.getD_some] at hmanaged
    rw [hid', events_of_only (only_registerOnFill hmanaged) hrun _ hmem trade rfl]

/-! ### A fill that opens a trade, and one that closes some -/

/-- The result of a reply with this fill to `plainOrder`, with its record. The broker does not
answer the question for the trade. -/
def repliedFill (fill : Dict) : Except Exc FillResult × List (Event BrokerI Exc) :=
  (OandaAdapter.buildFillResult OandaAdapter.patientAdapter OandaAdapter.plainOrder
    [("orderFillTransaction", .dict fill)] OandaAdapter.plainOrder.entryPrice none).run
    (World.record (OandaAdapter.fillingBroker (.error ⟨.transientBrokerError, []⟩))) []

/-- A fill of `plainOrder` that the documented runtime can read. -/
abbrev PlainReply (fill : Dict) : Prop :=
  WellFormedReply LiveRuntime.executorRuntime.service.consumer.host OandaAdapter.plainOrder fill

/-- The hook of the documented runtime registers only the trade that the fill opened. -/
def PlainRegistersOpened (fill : Dict) (result : FillResult) : Prop :=
  RegistersOpened LiveRuntime.executorRuntime (Pipeline.sampleOrder "k")
    OandaAdapter.plainOrder fill result

theorem registersOpened_iff_plainFill :
    ∃ result, (repliedFill OandaAdapter.plainFill).1 = .ok result ∧
      PlainRegistersOpened OandaAdapter.plainFill result := by
  have hok : (repliedFill OandaAdapter.plainFill).1.isOk = true := by decide +kernel
  obtain ⟨result, hresult, exec⟩ := exec_record_isOk hok
  have wellFormed : PlainReply OandaAdapter.plainFill :=
    { price := by decide +kernel
      units := by decide +kernel
      tradeOpened := by decide
      identified := ⟨"6357", by decide, rfl⟩
      named := fun _ => ⟨"6357", by decide, rfl⟩
      timed := by decide +kernel }
  exact ⟨result, hresult, (registersOpened_iff wellFormed rfl exec).mpr (by decide)⟩

/-- A fill of `plainOrder` that only closes an older trade. -/
def nettingFill : Dict :=
  [("id", .str "6401"), ("type", .str "ORDER_FILL"), ("clientOrderID", .str "sb-k"),
    ("orderID", .str "6400"), ("price", .str "1.10012"), ("units", .str "1000"),
    ("time", .str "2026-07-21T10:00:00Z"),
    ("tradesClosed", .list [.dict [("tradeID", .str "6357")]])]

/-- A trade of the transaction's id is put into the book. -/
theorem nettingFill_registered :
    PlainReply nettingFill ∧ openedTrade? nettingFill = none ∧
      ∃ result, (repliedFill nettingFill).1 = .ok result ∧
        ¬ PlainRegistersOpened nettingFill result := by
  have wellFormed : PlainReply nettingFill :=
    { price := by decide +kernel
      units := by decide +kernel
      tradeOpened := by decide
      identified := ⟨"6401", by decide, rfl⟩
      named := fun h => by cases h
      timed := by decide +kernel }
  have hok : (repliedFill nettingFill).1.isOk = true := by decide +kernel
  obtain ⟨result, hresult, exec⟩ := exec_record_isOk hok
  have hmanaged : (repliedFill nettingFill).1.toOption.bind managedTradeId = some "6401" := by
    decide +kernel
  have htimed : ((repliedFill nettingFill).1.toOption.map fun result =>
      (parseTime LiveRuntime.executorRuntime.service.consumer.host result.fillTime).isOk) =
        some true := by
    decide +kernel
  change (repliedFill nettingFill).1 = .ok result at hresult
  rw [hresult] at hmanaged htimed
  refine ⟨wellFormed, rfl, result, hresult, fun h => ?_⟩
  obtain ⟨t, trade, hrun, hmem, -⟩ :=
    exists_registered LiveRuntime.executorRuntime (Pipeline.sampleOrder "k")
      OandaAdapter.plainOrder hmanaged (Option.some.inj htimed)
  cases h _ _ hrun trade _ hmem

end System2
