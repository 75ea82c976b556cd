import System2.Broker.FillOnce
import System2.Broker.OandaTransport

/-!
# A fill that the broker reported

`submit` hears of a fill from the reply of `create_order` or from the window of
recent transactions. Afterwards it confirms the stops. Its transport raises a
4xx reply of the broker as it is, and the confirmation handles the adapter's own
error classes only.

## Implementation notes

The environment is free: a run is any record of calls and answers. What is asked
of the answers is that they have the broker's documented shape.
-/

namespace System2
open Foundation

namespace OandaAdapter

/-! ### Replies of the documented shape -/

/-- A value that `float` reads. -/
def Numeric (v : PyVal) : Prop := ∃ x, v.toFloat = .ok x

instance : DecidablePred Numeric := fun v =>
  match h : v.toFloat with
  | .ok x => isTrue ⟨x, h⟩
  | .error _ => isFalse fun ⟨_, hx⟩ => nomatch h.symm.trans hx

def IsObject (v : PyVal) : Prop := ∃ d, v = .dict d

instance : DecidablePred IsObject
  | .dict d => isTrue ⟨d, rfl⟩
  | .null | .bool _ | .int _ | .float _ | .str _ | .list _ => isFalse fun ⟨_, h⟩ => nomatch h

/-- A fill transaction that says its price, its units and the trade it opened. -/
structure WellFormedFill (order : ConstructedOrder) (fill : Dict) : Prop where
  price : ∃ v ∈ fill.get? "price", Numeric v
  units : Numeric (fill.getOr "units" (.float order.units))
  tradeOpened : (fill.get "tradeOpened").truthy = true → IsObject (fill.get "tradeOpened")

instance (order : ConstructedOrder) (fill : Dict) : Decidable (WellFormedFill order fill) :=
  decidable_of_iff ((∃ v ∈ fill.get? "price", Numeric v) ∧
      Numeric (fill.getOr "units" (.float order.units)) ∧
      ((fill.get "tradeOpened").truthy = true → IsObject (fill.get "tradeOpened")))
    ⟨fun h => ⟨h.1, h.2.1, h.2.2⟩, fun h => ⟨h.price, h.units, h.tradeOpened⟩⟩

/-- An order attached to a trade: absent, or an object whose price is absent or a number. -/
def ShapedAttached (attached : PyVal) : Prop :=
  attached.truthy = true → IsObject attached ∧
    ((Dict.get attached.entries "price").truthy = true → Numeric (Dict.get attached.entries "price"))

instance : DecidablePred ShapedAttached := fun attached =>
  inferInstanceAs (Decidable (attached.truthy = true → _))

/-- The client id of a transaction can be read. -/
def Readable (txn : Dict) : Prop := (transactionClientOrderId txn).isOk = true

instance : DecidablePred Readable := fun _ => inferInstanceAs (Decidable (_ = true))

/-- The window of transactions that an answer brings. -/
def windowOf : Event BrokerI Exc → List Dict
  | ⟨.getRecentTransactions _, .ok txns⟩ => txns
  | _ => []

/-- The trade that an answer brings. -/
def tradeOf? : Event BrokerI Exc → Option Dict
  | ⟨.getTrade _, .ok trade⟩ => trade
  | _ => none

/-- An answer of the documented shape: readable transactions, readable trades. -/
def Documented (e : Event BrokerI Exc) : Prop :=
  (∀ txn ∈ windowOf e, Readable txn) ∧ ∀ trade ∈ tradeOf? e,
    ShapedAttached (trade.get "stopLossOrder") ∧ ShapedAttached (trade.get "takeProfitOrder")

instance : DecidablePred Documented := fun _ => inferInstanceAs (Decidable (_ ∧ _))

/-- The fill that an answer reports for a client order id. -/
def reportedFill (cid : String) : Event BrokerI Exc → Option Dict
  | ⟨.createOrder _, .ok resp⟩ =>
      match Dict.get resp "orderFillTransaction" with
      | .dict fill => if fill.isEmpty then none else some fill
      | _ => none
  | ⟨.getRecentTransactions _, .ok txns⟩ => (txns.filter (isFillOf cid)).getLast?
  | _ => none

/-- How a call of the confirmation failed, if it did. -/
def confirmFailure? : Event BrokerI Exc → Option Exc
  | ⟨.getTrade _, .error e⟩ => some e
  | ⟨.modifyTradeStop _ _ _, .error e⟩ => some e
  | _ => none

/-- A call of the confirmation answered, or failed in a way that is handled. -/
def Confirmed (e : Event BrokerI Exc) : Prop := ∀ exc ∈ confirmFailure? e, exc.isa .brokerError

instance : DecidablePred Confirmed := fun _ => inferInstanceAs (Decidable (∀ exc ∈ _, _))

theorem confirmed_of_none {e : Event BrokerI Exc} (h : confirmFailure? e = none) :
    Confirmed e := by
  simp [Confirmed, h]

theorem confirmed_iff_of_some {e : Event BrokerI Exc} {exc : Exc}
    (h : confirmFailure? e = some exc) : Confirmed e ↔ exc.isa .brokerError := by
  simp [Confirmed, h]

/-- The result says what the fill says. -/
structure Describes (order : ConstructedOrder) (fill : Dict) (result : FillResult) : Prop where
  status : result.realizedStatus = "FILLED" ∨ result.realizedStatus = "PARTIAL"
  price : ∃ v x, fill.get? "price" = some v ∧ v.toFloat = .ok x ∧ result.fillPrice = some x
  units : ∃ x, (fill.getOr "units" (.float order.units)).toFloat = .ok x ∧
    result.filledUnits = x.abs
  orderId : result.brokerOrderId =
    some (fill.getOr "orderID" (fill.getOr "id" (.str ""))).toStr
  time : result.fillTime = fill.get "time"

/-! ### Reading a fill -/

theorem attachedPrice_shaped {attached : PyVal} (h : ShapedAttached attached) :
    ∃ price, attachedPrice attached = .ok price := by
  unfold attachedPrice
  by_cases htruthy : attached.truthy = true
  · obtain ⟨⟨d, rfl⟩, hprice⟩ := h htruthy
    simp only [htruthy, PyVal.getAttrGet, bind, Except.bind, pure, Except.pure, Bool.not_true,
      Bool.false_eq_true, if_false]
    split_ifs with hpresent
    · obtain ⟨x, hx⟩ := hprice hpresent
      rw [PyVal.entries_dict] at hx
      rw [hx]
      exact ⟨some x, rfl⟩
    · exact ⟨none, rfl⟩
  · rw [Bool.not_eq_true] at htruthy
    rw [htruthy]
    exact ⟨none, rfl⟩

theorem openedTradeId_wellFormed {order : ConstructedOrder} {fill : Dict}
    (h : WellFormedFill order fill) (dflt : PyVal) :
    ∃ tradeId, openedTradeId fill dflt = .ok tradeId := by
  simp only [openedTradeId]
  by_cases htruthy : (fill.get "tradeOpened").truthy = true
  · obtain ⟨opened, hopened⟩ := h.tradeOpened htruthy
    rw [htruthy, hopened]
    exact ⟨_, rfl⟩
  · rw [Bool.not_eq_true] at htruthy
    rw [htruthy]
    exact ⟨dflt, rfl⟩

/-- A well-formed fill can be read, and the report says what the fill says. -/
theorem readFill_wellFormed {order : ConstructedOrder} {fill : Dict}
    (h : WellFormedFill order fill) :
    ∃ report, readFill order fill = .ok report ∧ ∀ result : FillResult,
      result.realizedStatus = report.realizedStatus → result.fillPrice = some report.fillPrice →
      result.filledUnits = report.filledUnits →
      result.brokerOrderId = some report.brokerOrderId → result.fillTime = report.fillTime →
      Describes order fill result := by
  obtain ⟨v, hprice, x, hx⟩ := h.price
  obtain ⟨u, hu⟩ := h.units
  have hindex : fill.index "price" = .ok v := by
    rw [Dict.index, Option.mem_def.mp hprice]
  obtain ⟨tradeId, htradeId⟩ := openedTradeId_wellFormed h (fill.getOr "id" (.str ""))
  refine ⟨⟨if u.abs.lt order.units.abs then "PARTIAL" else "FILLED", u.abs,
    (fill.getOr "orderID" (fill.getOr "id" (.str ""))).toStr, tradeId.toStr, x,
    fill.get "time"⟩, ?_, ?_⟩
  · simp only [readFill, hindex, hx, hu, htradeId, bind, Except.bind, pure, Except.pure]
  · intro result hstatus hfillPrice hfilled horder htime
    refine ⟨?_, ⟨v, x, hprice, hx, hfillPrice⟩, ⟨u, hu, hfilled⟩, horder, htime⟩
    rw [hstatus]
    dsimp only
    split_ifs
    · exact .inr rfl
    · exact .inl rfl

/-! ### Confirming the stops -/

/-- What a procedure adds to the record, if its answers have their shape: it returns
exactly when the calls of the confirmation were answered. -/
def ReturnsIfConfirmed {α : Type} (t : List (Event BrokerI Exc)) (r : Except Exc α)
    (t' : List (Event BrokerI Exc)) : Prop :=
  ∃ s, t' = t ++ s ∧
    ((∀ e ∈ s, Documented e) → ((∃ a, r = .ok a) ↔ ∀ e ∈ s, Confirmed e))

theorem returnsIfConfirmed_ok {α : Type} {t : List (Event BrokerI Exc)} (a : α) :
    ReturnsIfConfirmed t (.ok a : Except Exc α) t :=
  ⟨[], by simp, fun _ => ⟨by simp, fun _ => ⟨a, rfl⟩⟩⟩

/-- One call in front of a procedure. -/
theorem ReturnsIfConfirmed.cons {α : Type} {t t' : List (Event BrokerI Exc)}
    {e : Event BrokerI Exc} {r : Except Exc α} (he : Confirmed e)
    (h : Documented e → ReturnsIfConfirmed (t ++ [e]) r t')
    (hgrow : ∃ s, t' = t ++ [e] ++ s) : ReturnsIfConfirmed t r t' := by
  obtain ⟨s, rfl⟩ := hgrow
  refine ⟨e :: s, by simp, ?_⟩
  intro hshape
  obtain ⟨s', hs', hiff⟩ := h (hshape e (by simp))
  obtain rfl := List.append_cancel_left hs'
  rw [hiff fun e' he' => hshape e' (by simp [he'])]
  simp [he]

/-- A call of the confirmation that fails in an unhandled way ends the procedure. -/
theorem returnsIfConfirmed_error {α : Type} {t : List (Event BrokerI Exc)}
    {e : Event BrokerI Exc} {exc : Exc} (he : ¬ Confirmed e) :
    ReturnsIfConfirmed t (.error exc : Except Exc α) (t ++ [e]) :=
  ⟨[e], rfl, fun _ => by simp [he]⟩

theorem wp_confirmOpenTrade {order : ConstructedOrder} {tradeId : String} {trade : Dict}
    (hsl : ShapedAttached (trade.get "stopLossOrder"))
    (htp : ShapedAttached (trade.get "takeProfitOrder")) (t : List (Event BrokerI Exc)) :
    wp World.free (confirmOpenTrade order tradeId trade) (ReturnsIfConfirmed t) t := by
  obtain ⟨sl, hsl⟩ := attachedPrice_shaped hsl
  obtain ⟨tp, htp⟩ := attachedPrice_shaped htp
  simp only [confirmOpenTrade, convert, hsl, htp, Exc.lift_ok, Proc.ofExcept, Proc.bind_eq, Proc.ret_bind]
  cases sl with
  | some price => exact ⟨trivial, returnsIfConfirmed_ok _⟩
  | none =>
      simp only [wpc_bind, wpc_attempt]
      apply wpc_of_perform trivial
      rintro r t' rfl
      refine ⟨trivial, ?_⟩
      cases r with
      | ok reply =>
          exact ⟨trivial, .cons (e := ⟨_, .ok reply⟩) (confirmed_of_none rfl) (fun _ => returnsIfConfirmed_ok _)
            ⟨[], by simp⟩⟩
      | error e =>
          dsimp only
          split_ifs with hbroker
          · exact ⟨trivial, .cons (e := ⟨.modifyTradeStop _ _ _, .error e⟩)
              ((confirmed_iff_of_some rfl).mpr hbroker)
              (fun _ => returnsIfConfirmed_ok _) ⟨[], by simp⟩⟩
          · exact ⟨trivial, returnsIfConfirmed_error
            fun h => hbroker ((confirmed_iff_of_some rfl).mp h)⟩

theorem wp_confirmStops {order : ConstructedOrder} {tradeId : String}
    (t : List (Event BrokerI Exc)) :
    wp World.free (confirmStops order tradeId none) (ReturnsIfConfirmed t) t := by
  unfold confirmStops
  split_ifs
  · exact ⟨trivial, returnsIfConfirmed_ok _⟩
  · simp only [lookUpTrade, Proc.bind_eq, wpc_bind, wpc_attempt]
    apply wpc_of_perform trivial
    rintro r t' rfl
    refine ⟨trivial, ?_⟩
    cases r with
    | error e =>
        dsimp only
        split_ifs with hbroker
        · exact ⟨trivial, trivial, .cons (e := ⟨.getTrade _, .error e⟩)
              ((confirmed_iff_of_some rfl).mpr hbroker)
            (fun _ => returnsIfConfirmed_ok _) ⟨[], by simp⟩⟩
        · exact ⟨trivial, returnsIfConfirmed_error
            fun h => hbroker ((confirmed_iff_of_some rfl).mp h)⟩
    | ok trade =>
        refine ⟨trivial, ?_⟩
        -- the shape of the trade is known only once the whole record is documented
        have hgrow := wp_free_of_only (along_confirmTrade (aboutStops_confirms order) tradeId trade)
          (t ++ [⟨.getTrade tradeId, .ok trade⟩])
        by_cases hshape : Documented ⟨.getTrade tradeId, .ok trade⟩
        · have hconfirm : wp World.free (confirmTrade order tradeId trade)
              (ReturnsIfConfirmed (t ++ [⟨.getTrade tradeId, .ok trade⟩]))
              (t ++ [⟨.getTrade tradeId, .ok trade⟩]) := by
            rcases trade with - | - | ⟨entry, rest⟩
            · exact ⟨trivial, returnsIfConfirmed_ok _⟩
            · exact ⟨trivial, returnsIfConfirmed_ok _⟩
            · rcases Decidable.em (tradeState (entry :: rest) = "OPEN") with hstate | hstate
              · rw [confirmTrade_of_open (by simp) hstate]
                exact wp_confirmOpenTrade (hshape.2 _ rfl).1 (hshape.2 _ rfl).2 _
              · rw [confirmTrade_of_not_open (by simp) hstate]
                exact ⟨trivial, returnsIfConfirmed_ok _⟩
          refine wpc_post (wpc_and hgrow hconfirm) ?_
          rintro r t' - ⟨⟨s, hs, -⟩, hiff⟩
          exact .cons (e := ⟨.getTrade _, .ok trade⟩) (confirmed_of_none rfl) (fun _ => hiff) ⟨s, hs⟩
        · refine wpc_post hgrow ?_
          rintro r t' - ⟨s, hs, -⟩
          exact .cons (e := ⟨.getTrade _, .ok trade⟩) (confirmed_of_none rfl) (fun h => absurd h hshape) ⟨s, hs⟩

/-! ### One submit -/

variable {a : OandaAdapter} {order : ConstructedOrder} {expected : Binary64}
  {modelSetId : Option String}

/-- Nothing was reported so far, and no call of the confirmation failed. -/
def Unreported (cid : String) (t : List (Event BrokerI Exc)) : Prop :=
  (∀ e ∈ t, Documented e) → ∀ e ∈ t, reportedFill cid e = none ∧ Confirmed e

/-- The outcome describes every reported fill exactly when the confirmation was answered. -/
def Answered (order : ConstructedOrder) (r : Except Exc FillResult)
    (t : List (Event BrokerI Exc)) : Prop :=
  (∀ e ∈ t, Documented e) → ∀ e ∈ t, ∀ fill,
    reportedFill (clientOrderId order.idempotencyKey) e = some fill → WellFormedFill order fill →
      ((∃ result, r = .ok result ∧ Describes order fill result) ↔ ∀ e ∈ t, Confirmed e)

theorem Unreported.answered {t : List (Event BrokerI Exc)} (r : Except Exc FillResult)
    (h : Unreported (clientOrderId order.idempotencyKey) t) : Answered order r t := by
  intro hshape e he fill hfill
  rw [(h hshape e he).1] at hfill
  cases hfill

theorem Unreported.snoc {cid : String} {t : List (Event BrokerI Exc)} {e : Event BrokerI Exc}
    (h : Unreported cid t) (hreport : reportedFill cid e = none) (hconf : Confirmed e) :
    Unreported cid (t ++ [e]) := by
  intro hshape e' he'
  rcases List.mem_append.mp he' with hmem | hlast
  · exact h (fun e₀ he₀ => hshape e₀ (List.mem_append_left [e] he₀)) e' hmem
  · rw [List.mem_singleton.mp hlast]
    exact ⟨hreport, hconf⟩

theorem reportedFill_aboutStops {cid : String} {e : Event BrokerI Exc} (h : AboutStops e.1) :
    reportedFill cid e = none := by
  obtain ⟨op, r⟩ := e
  cases op with
  | getTrade tradeId => rfl
  | modifyTradeStop tradeId stopPrice instrument => rfl
  | _ => exact h.elim

theorem WellFormedFill.isEmpty_eq_false {fill : Dict} (h : WellFormedFill order fill) :
    fill.isEmpty = false := by
  obtain ⟨v, hprice, -⟩ := h.price
  cases fill with
  | nil => cases hprice
  | cons entry rest => rfl

/-- Around a reply, only the reply can report. -/
theorem eq_of_reportedFill {cid : String} {t s : List (Event BrokerI Exc)}
    {e e' : Event BrokerI Exc} {fill : Dict} (h : Unreported cid t)
    (hs : ∀ e ∈ s, AboutStops e.1) (hshape : ∀ e' ∈ t ++ [e] ++ s, Documented e')
    (he' : e' ∈ t ++ [e] ++ s) (hfill : reportedFill cid e' = some fill) : e' = e := by
  rcases List.mem_append.mp he' with hmem | hmem
  · rcases List.mem_append.mp hmem with hbefore | hlast
    · have hnone := (h (fun e₀ he₀ => hshape e₀ (by simp [he₀])) e' hbefore).1
      rw [hnone] at hfill
      cases hfill
    · exact List.mem_singleton.mp hlast
  · rw [reportedFill_aboutStops (hs e' hmem)] at hfill
    cases hfill

/-- The result of a reply, where the last event is what the reply reports. -/
theorem wp_buildFillResult {t : List (Event BrokerI Exc)} {e : Event BrokerI Exc} {resp : Dict}
    (h : Unreported (clientOrderId order.idempotencyKey) t) (hconf : Confirmed e)
    (hresp : ∀ fill, reportedFill (clientOrderId order.idempotencyKey) e = some fill →
      resp.get "orderFillTransaction" = .dict fill) :
    wp World.free (buildFillResult a order resp expected modelSetId) (Answered order) (t ++ [e]) := by
  have hgrow := wp_free_of_only (along_buildFillResult (aboutStops_confirms order) a resp expected modelSetId) (t ++ [e])
  by_cases hfill : ∃ fill, reportedFill (clientOrderId order.idempotencyKey) e = some fill ∧
      WellFormedFill order fill
  · obtain ⟨fill, hreport, hwell⟩ := hfill
    obtain ⟨report, hread, hdescribes⟩ := readFill_wellFormed hwell
    have hresult : wp World.free (buildFillResult a order resp expected modelSetId)
        (fun r t' => ReturnsIfConfirmed (t ++ [e]) r t' ∧
          ∀ result, r = .ok result → Describes order fill result) (t ++ [e]) := by
      simp only [buildFillResult, hresp fill hreport, PyVal.truthy, hwell.isEmpty_eq_false,
        Bool.not_false, Bool.not_true, Bool.false_eq_true, if_false, convert, hread, Exc.lift_ok,
        Proc.ofExcept, Proc.bind_eq, Proc.ret_bind, finalize, wpc_bind]
      apply wpc_post (wp_confirmStops _)
      intro r t' _ hstops
      cases r with
      | error exc =>
          refine ⟨?_, by simp⟩
          obtain ⟨s, rfl, hiff⟩ := hstops
          exact ⟨s, rfl, fun hshape => by simpa using hiff hshape⟩
      | ok stops =>
          refine ⟨trivial, ?_, ?_⟩
          · obtain ⟨s, rfl, hiff⟩ := hstops
            exact ⟨s, rfl, fun hshape => by simpa using hiff hshape⟩
          · rintro result heq
            cases heq
            exact hdescribes _ rfl rfl rfl rfl rfl
    refine wpc_post (wpc_and hgrow hresult) ?_
    rintro r t' - ⟨⟨s, rfl, hstops⟩, ⟨s', hs', hiff⟩, hdesc⟩ hshape e' he' fill' hfill' hwell'
    obtain rfl := List.append_cancel_left hs'
    obtain rfl := eq_of_reportedFill h hstops hshape he' hfill'
    obtain rfl : fill = fill' := Option.some.inj (hreport.symm.trans hfill')
    have hbefore : ∀ e ∈ t, Confirmed e := fun e he =>
      (h (fun e₀ he₀ => hshape e₀ (by simp [he₀])) e he).2
    calc
      (∃ result, r = .ok result ∧ Describes order fill result) ↔ ∃ result, r = .ok result := by
        constructor
        · rintro ⟨result, hr, _⟩
          exact ⟨result, hr⟩
        · rintro ⟨result, hr⟩
          exact ⟨result, hr, hdesc result hr⟩
      _ ↔ ∀ e ∈ s, Confirmed e := hiff fun e he => hshape e (by simp [he])
      _ ↔ ∀ e ∈ t ++ [e'] ++ s, Confirmed e := by
        simp only [List.forall_mem_append, List.forall_mem_singleton]
        exact ⟨fun hs => ⟨⟨hbefore, hconf⟩, hs⟩, fun hall => hall.2⟩
  · refine wpc_post hgrow ?_
    rintro r t' - ⟨s, rfl, hstops⟩ hshape e' he' fill' hfill' hwell'
    obtain rfl := eq_of_reportedFill h hstops hshape he' hfill'
    exact absurd ⟨fill', hfill', hwell'⟩ hfill

/-- After a record without a report, the calls about stops report nothing either. -/
theorem Unreported.answered_append {t s : List (Event BrokerI Exc)}
    (h : Unreported (clientOrderId order.idempotencyKey) t) (hs : ∀ e ∈ s, AboutStops e.1)
    (r : Except Exc FillResult) : Answered order r (t ++ s) := by
  intro hshape e he fill hfill
  exfalso
  rcases List.mem_append.mp he with hmem | hmem
  · rw [(h (fun e₀ he₀ => hshape e₀ (List.mem_append_left s he₀)) e hmem).1] at hfill
    cases hfill
  · rw [reportedFill_aboutStops (hs e hmem)] at hfill
    cases hfill

/-- A window of readable transactions has a verdict. -/
theorem priorSubmissionVerdict_readable {cid : String} {txns : List Dict}
    (h : ∀ txn ∈ txns, Readable txn) :
    ∃ v, priorSubmissionVerdict txns cid = .ok v := by
  have hscan : ∀ s, ∃ s', scanTransactions cid txns s = .ok s' := by
    induction txns with
    | nil => exact fun s => ⟨s, rfl⟩
    | cons txn rest ih =>
        intro s
        obtain ⟨id, hid⟩ := exists_of_isOk (h txn (by simp))
        obtain ⟨s', hs'⟩ := ih (fun txn' htxn' => h txn' (by simp [htxn']))
          (if id = some cid then s.note txn else s)
        exact ⟨s', by rw [scanTransactions, hid]; exact hs'⟩
  obtain ⟨s', hs'⟩ := hscan ⟨none, false, false⟩
  exact ⟨s'.verdict, by rw [priorSubmissionVerdict, hs']; rfl⟩

/-- The open trades report nothing in the sense of the transactions. -/
theorem wp_reconcile {t : List (Event BrokerI Exc)}
    (h : Unreported (clientOrderId order.idempotencyKey) t)
    {Q : Except Exc (Option FillResult × Bool) → List (Event BrokerI Exc) → Prop}
    (hnone : ∀ verified t', Unreported (clientOrderId order.idempotencyKey) t' →
      Q (.ok (none, verified)) t')
    (hsome : ∀ result verified t', Answered order (.ok result) t' →
      Q (.ok (some result, verified)) t')
    (herror : ∀ e t', Answered order (.error e) t' → Q (.error e) t') :
    wp World.free (reconcile a (clientOrderId order.idempotencyKey) order expected modelSetId)
      Q t := by
  simp only [reconcile, Proc.bind_eq, wpc_bind, wpc_attempt]
  apply wpc_of_perform trivial
  rintro r t' rfl
  refine ⟨trivial, ?_⟩
  have h' : ∀ r, Unreported (clientOrderId order.idempotencyKey) (t ++ [⟨.getOpenTrades, r⟩]) :=
    fun r => h.snoc rfl (confirmed_of_none rfl)
  cases r with
  | error e =>
      dsimp only
      split_ifs
      · exact ⟨trivial, hnone _ _ (h' _)⟩
      · exact ⟨trivial, herror _ _ ((h' _).answered _)⟩
  | ok trades =>
      simp only [wpc_bind, convert, wpc_ofExcept]
      refine ⟨trivial, ?_⟩
      cases findTrade (clientOrderId order.idempotencyKey) trades with
      | error e => exact herror _ _ ((h' _).answered _)
      | ok found =>
          cases found with
          | none => exact ⟨trivial, hnone _ _ (h' _)⟩
          | some trade =>
              simp only [Exc.lift_ok, wpc_bind, wpc_ofExcept]
              refine ⟨trivial, ?_⟩
              cases readTrade order expected trade with
              | error e => exact herror _ _ ((h' _).answered _)
              | ok report =>
                  apply wpc_post (wp_free_of_only
                    (along_finalize (aboutStops_confirms order) a expected modelSetId report (some trade)) _)
                  rintro r t' - ⟨s, rfl, hs⟩
                  cases r with
                  | error e => exact herror _ _ ((h' _).answered_append hs _)
                  | ok result => exact ⟨trivial, hsome _ _ _ ((h' _).answered_append hs _)⟩

/-- Asking the broker first: no report yet, or an outcome that answers it. -/
theorem wp_priorSubmission {t : List (Event BrokerI Exc)}
    (h : Unreported (clientOrderId order.idempotencyKey) t)
    {Q : Except Exc (Option FillResult × Bool) → List (Event BrokerI Exc) → Prop}
    (hnone : ∀ verified t', Unreported (clientOrderId order.idempotencyKey) t' →
      Q (.ok (none, verified)) t')
    (hsome : ∀ result verified t', Answered order (.ok result) t' →
      Q (.ok (some result, verified)) t')
    (herror : ∀ e t', Answered order (.error e) t' → Q (.error e) t') :
    wp World.free (priorSubmission a (clientOrderId order.idempotencyKey) order expected modelSetId)
      Q t := by
  unfold priorSubmission
  split_ifs with hcap
  · exact wp_reconcile h hnone hsome herror
  · simp only [Proc.bind_eq, wpc_bind, wpc_attempt]
    apply wpc_of_perform trivial
    rintro r t' rfl
    refine ⟨trivial, ?_⟩
    cases r with
    | error e => exact ⟨trivial, hnone _ _ (h.snoc rfl (confirmed_of_none rfl))⟩
    | ok txns =>
        simp only [wpc_bind, convert, wpc_ofExcept]
        refine ⟨trivial, ?_⟩
        cases hverdict : priorSubmissionVerdict txns (clientOrderId order.idempotencyKey) with
        | error e =>
            refine herror _ _ fun hshape => ?_
            obtain ⟨v, hv⟩ : ∃ v, priorSubmissionVerdict txns
                (clientOrderId order.idempotencyKey) = .ok v := priorSubmissionVerdict_readable
              (hshape ⟨.getRecentTransactions reconcileTransactionWindow, .ok txns⟩ (by simp)).1
            cases hverdict.symm.trans hv
        | ok v =>
            have hfilled := priorSubmissionVerdict_filled_iff hverdict
            have hempty : (∀ txn, v ≠ .filled txn) → Unreported
                (clientOrderId order.idempotencyKey) (t ++ [⟨.getRecentTransactions _, .ok txns⟩]) := by
              intro hv
              have hlast : (txns.filter
                  (isFillOf (clientOrderId order.idempotencyKey))).getLast? = none := by
                rw [Option.eq_none_iff_forall_ne_some]
                exact fun txn htxn => hv txn ((hfilled txn).mpr htxn)
              exact h.snoc hlast (confirmed_of_none rfl)
            cases v with
            | filled txn =>
                simp only [Exc.lift_ok, wpc_bind]
                apply wpc_post (wp_buildFillResult
                  (e := ⟨.getRecentTransactions reconcileTransactionWindow, .ok txns⟩) h (confirmed_of_none rfl) ?_)
                · intro r t' _ hanswer
                  cases r with
                  | error e => exact herror _ _ hanswer
                  | ok result => exact ⟨trivial, hsome _ _ _ hanswer⟩
                · intro fill hfill
                  cases (hfilled fill).mpr hfill
                  rfl
            | pending => exact ⟨trivial, hnone _ _ (hempty (by simp))⟩
            | unfilled => exact ⟨trivial, hnone _ _ (hempty (by simp))⟩
            | absent => exact ⟨trivial, hnone _ _ (hempty (by simp))⟩

/-- A reply that reports a fill has it as an object. -/
theorem reply_of_reportedFill {cid : String} {payload : PyVal} {resp fill : Dict}
    (h : reportedFill cid ⟨.createOrder payload, .ok resp⟩ = some fill) :
    resp.get "orderFillTransaction" = .dict fill := by
  dsimp only [reportedFill] at h
  split at h
  · rename_i fill' hresp
    split_ifs at h with hempty
    cases h
    exact hresp
  · cases h

/-- The attempts from a record without a report on. -/
theorem wp_attempts (s : Submission) (remaining : ℕ) (attempt : ℤ)
    {t : List (Event BrokerI Exc)} (h : Unreported s.cid t) :
    wp World.free (attempts a s remaining attempt) (Answered s.order) t := by
  induction remaining generalizing attempt t with
  | zero => exact ⟨trivial, h.answered _⟩
  | succ remaining ih =>
      simp only [attempts, Proc.bind_eq, wpc_bind, wpc_attempt]
      apply wpc_of_perform trivial
      rintro r t' rfl
      refine ⟨trivial, ?_⟩
      cases r with
      | ok resp =>
          exact wp_buildFillResult (e := ⟨.createOrder s.payload, .ok resp⟩) h (confirmed_of_none rfl)
            fun fill hfill => reply_of_reportedFill hfill
      | error e =>
          have h' : Unreported s.cid (t ++ [⟨.createOrder s.payload, .error e⟩]) :=
            h.snoc rfl (confirmed_of_none rfl)
          dsimp only
          split_ifs
          · exact ⟨trivial, h'.answered _⟩
          · simp only [afterTransient, Proc.bind_eq, wpc_bind]
            refine wp_priorSubmission h' ?_ ?_ ?_
            · intro verified t'' h''
              dsimp only
              split_ifs
              · exact ⟨trivial, h''.answered _⟩
              · exact ⟨trivial, h''.answered _⟩
              · simp only [wpc_bind]
                apply wpc_of_perform trivial
                rintro r t₃ rfl
                refine ⟨trivial, ?_⟩
                have h₃ : ∀ r, Unreported s.cid
                    (t'' ++ [⟨.sleep (a.backoffSec.mul (.ofRat attempt)), r⟩]) :=
                  fun r => h''.snoc rfl (confirmed_of_none rfl)
                cases r with
                | error e => exact (h₃ _).answered _
                | ok _ => exact ih _ (h₃ _)
            · intro result verified t'' h''
              exact ⟨trivial, h''⟩
            · intro e t'' h''
              exact h''
          · exact ⟨trivial, h'.answered _⟩

theorem reportedFill_aboutSpec {cid : String} {e : Event BrokerI Exc} (h : AboutSpec e.1) :
    reportedFill cid e = none ∧ Confirmed e := by
  obtain ⟨op, r⟩ := e
  cases op with
  | cachedSpec key => exact ⟨rfl, confirmed_of_none rfl⟩
  | cacheSpec key spec => exact ⟨rfl, confirmed_of_none rfl⟩
  | getAccountInstruments instruments => exact ⟨rfl, confirmed_of_none rfl⟩
  | _ => exact h.elim

theorem wp_submit (expectedPrice : Option Binary64) :
    wp World.free (submit a order expectedPrice modelSetId) (Answered order) [] := by
  simp only [submit, buildPayload, Proc.bind_eq, wpc_bind]
  apply wpc_post (wp_free_of_only (only_displayPrecision a order.instrument) [])
  rintro r t - ⟨s, ht, hs⟩
  obtain rfl : t = s := ht
  have h : Unreported (clientOrderId order.idempotencyKey) t :=
    fun _ e he => reportedFill_aboutSpec (hs e he)
  cases r with
  | error e => exact h.answered _
  | ok decimals =>
      simp only [wpc_ofExcept]
      refine ⟨trivial, ?_⟩
      cases payloadAt order decimals with
      | error e => exact h.answered _
      | ok payload =>
          refine wp_priorSubmission h ?_ ?_ ?_
          · intro verified t' h'
            dsimp only
            split_ifs
            · exact ⟨trivial, h'.answered _⟩
            · exact wp_attempts ⟨order, expectedPrice.getD order.entryPrice, modelSetId, payload⟩
                _ _ h'
          · intro result verified t' h'
            exact ⟨trivial, h'⟩
          · intro e t' h'
            exact h'

/-- Whatever the broker answers in its documented shape: a submit that was told of a
well-formed fill returns a result that describes it, exactly when every call that
confirms the stops answers or fails with an error of the adapter's own classes. -/
theorem submit_describes_iff_confirmed {expectedPrice : Option Binary64}
    {t : List (Event BrokerI Exc)} {r : Except Exc FillResult}
    (exec : Exec World.free (submit a order expectedPrice modelSetId) [] (some r) t)
    (shape : ∀ e ∈ t, Documented e) {e : Event BrokerI Exc} (he : e ∈ t) {fill : Dict}
    (report : reportedFill (clientOrderId order.idempotencyKey) e = some fill)
    (wellFormed : WellFormedFill order fill) :
    (∃ result, r = .ok result ∧ Describes order fill result) ↔ ∀ e ∈ t, Confirmed e :=
  wp_sound exec (wp_submit expectedPrice) shape e he fill report wellFormed

/-! ### A trade that the broker does not find -/

/-- A fill of `plainOrder`. -/
def plainFill : Dict :=
  [("id", .str "6357"), ("type", .str "ORDER_FILL"), ("clientOrderID", .str "sb-k"),
    ("orderID", .str "6356"), ("price", .str "1.10012"), ("units", .str "1000"),
    ("time", .str "2026-07-21T10:00:00Z"), ("tradeOpened", .dict [("tradeID", .str "6357")])]

/-- A broker that fills every order, with its answer to the question for the trade. -/
def fillingBroker (trade : Except Exc (Option Dict)) (op : BrokerCall) : Except Exc op.Ans :=
  match op with
  | .createOrder _ => .ok [("orderFillTransaction", .dict plainFill)]
  | .getRecentTransactions _ => .ok []
  | .getOpenTrades => .ok []
  | .getTrade _ => trade
  | .modifyTradeStop _ _ _ => .ok []
  | .getAccountInstruments _ => .ok []
  | .sleep _ => .ok ()
  | .cachedSpec _ => .ok none
  | .cacheSpec _ _ => .ok ()

/-- The submit of `plainOrder` with its record. -/
def filledSubmit (trade : Except Exc (Option Dict)) :
    Except Exc FillResult × List (Event BrokerI Exc) :=
  (submit patientAdapter plainOrder none none).run (World.record (fillingBroker trade)) []

/-- What was reported in a record about `plainOrder`, in a shape the broker documents. -/
def reportedPlainFill (t : List (Event BrokerI Exc)) : Prop :=
  (∀ e ∈ t, Documented e) ∧
    ∃ e ∈ t, ∃ fill ∈ reportedFill (clientOrderId "k") e, WellFormedFill plainOrder fill

theorem submit_describes_iff_confirmed_openTrade :
    ∃ fill result, (filledSubmit (.ok (some [("state", .str "OPEN")]))).1 = .ok result ∧
      Describes plainOrder fill result := by
  have told : reportedPlainFill (filledSubmit (.ok (some [("state", .str "OPEN")]))).2 := by
    constructor
    · decide +kernel
    · decide +kernel
  obtain ⟨shape, e, he, fill, report, wellFormed⟩ := told
  exact ⟨fill, (submit_describes_iff_confirmed (exec_run (World.record_step _) _ _) shape he
    report wellFormed).mpr (by decide +kernel)⟩

/-- A 404 on the question for the trade: the fill was reported, and the submit raises. -/
theorem tradeNotFound_fill_raises :
    reportedPlainFill (filledSubmit (.error (requestError 404 "NO_SUCH_TRADE"))).2 ∧
      ¬ ∃ result, (filledSubmit (.error (requestError 404 "NO_SUCH_TRADE"))).1 = .ok result := by
  refine ⟨⟨by decide +kernel, by decide +kernel⟩, ?_⟩
  rintro ⟨result, hresult⟩
  have hraised : (filledSubmit (.error (requestError 404 "NO_SUCH_TRADE"))).1.isOk = false := by
    decide +kernel
  rw [hresult] at hraised
  cases hraised

end OandaAdapter

end System2
