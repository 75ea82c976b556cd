import System2.Broker.FillReported
import System2.Foundation.DecimalText

/-!
# The stops that a fill reports

After a fill the trade is read again. A stop and a target that its record names are
the broker's, and so is a stop that the broker accepts on the spot. A trade that
cannot be read, or a record without a target, is reported with the prices that the
order asked for.
-/

namespace System2
open Foundation

namespace OandaAdapter

/-! ### What the broker said -/

/-- The broker's record of the trade: handed over, or read in this call. -/
def RecordOf (tradeId : String) (known : Option Dict) (t : List (Event BrokerI Exc))
    (trade : Dict) : Prop :=
  known = some trade ∨ ⟨BrokerCall.getTrade tradeId, .ok (some trade)⟩ ∈ t

/-- A record of the trade names the price of an attached order. -/
def Names (tradeId : String) (known : Option Dict) (t : List (Event BrokerI Exc))
    (attached : String) (price : Binary64) : Prop :=
  ∃ trade, RecordOf tradeId known t trade ∧
    attachedPrice (trade.get attached) = .ok (some price)

/-- The broker accepted a stop for the trade in this call. -/
def AcceptsStop (tradeId : String) (t : List (Event BrokerI Exc)) (price : Binary64) : Prop :=
  ∃ instrument resp, ⟨BrokerCall.modifyTradeStop tradeId price instrument, .ok resp⟩ ∈ t

/-- The broker refused a stop for the trade in this call. -/
def RefusesStop (tradeId : String) (t : List (Event BrokerI Exc)) : Prop :=
  ∃ price instrument e, ⟨BrokerCall.modifyTradeStop tradeId price instrument, .error e⟩ ∈ t ∧
    e.isa .brokerError = true

def noStopUnsafe : String := "NO_STOP_UNSAFE"

/-- The reject reason says that the position is unsafe. -/
def FlaggedUnsafe (result : FillResult) : Prop :=
  ∃ text, result.rejectReason = .str text ∧ noStopUnsafe.toList <:+: text.toList

/-- The stop and the target of a result are the broker's. A stop that was sent afresh is the
price handed to `modify_trade_stop`; the transport below rounds it to the grid before it goes
to the broker. -/
structure StopsReal (tradeId : String) (known : Option Dict) (t : List (Event BrokerI Exc))
    (result : FillResult) : Prop where
  stop : ∀ price, result.stopLossPrice = some price →
    Names tradeId known t "stopLossOrder" price ∨ AcceptsStop tradeId t price
  target : ∀ price, result.takeProfitPrice = some price →
    Names tradeId known t "takeProfitOrder" price

/-- The trade was read, and its record is no longer of an open trade, names a target, or has
no stop and the broker refuses one. -/
def StopsTold (tradeId : String) (known : Option Dict) (t : List (Event BrokerI Exc)) : Prop :=
  ∃ trade, RecordOf tradeId known t trade ∧ trade ≠ [] ∧
    (tradeState trade ≠ "OPEN" ∨
      (∃ price, attachedPrice (trade.get "takeProfitOrder") = .ok (some price)) ∨
      RefusesStop tradeId t)

/-! ### The outcomes of the confirmation -/

/-- What the confirmation returns for the record it found, and what it called for that. -/
inductive StopsOutcome (order : ConstructedOrder) (tradeId : String) :
    Option Dict → Stops → List (Event BrokerI Exc) → Prop
  | untold {found : Option Dict} (h : ∀ trade, found = some trade → trade = []) :
      StopsOutcome order tradeId found (intendedStops order) []
  | closed {trade : Dict} (hne : trade ≠ []) (hstate : tradeState trade ≠ "OPEN") :
      StopsOutcome order tradeId (some trade) ⟨none, none, false⟩ []
  | told {trade : Dict} {sl : Binary64} {tp : Option Binary64} (hne : trade ≠ [])
      (hstate : tradeState trade = "OPEN")
      (hsl : attachedPrice (trade.get "stopLossOrder") = .ok (some sl))
      (htp : attachedPrice (trade.get "takeProfitOrder") = .ok tp) :
      StopsOutcome order tradeId (some trade) ⟨some sl, some (tp.getD order.takeProfit), false⟩ []
  | attached {trade resp : Dict} {tp : Option Binary64} (hne : trade ≠ [])
      (hstate : tradeState trade = "OPEN")
      (htp : attachedPrice (trade.get "takeProfitOrder") = .ok tp) :
      StopsOutcome order tradeId (some trade)
        ⟨some order.stopLoss, some (tp.getD order.takeProfit), false⟩
        [⟨.modifyTradeStop tradeId order.stopLoss order.instrument, .ok resp⟩]
  | refused {trade : Dict} {tp : Option Binary64} {e : Exc} (hne : trade ≠ [])
      (he : e.isa .brokerError = true) :
      StopsOutcome order tradeId (some trade) ⟨none, tp, true⟩
        [⟨.modifyTradeStop tradeId order.stopLoss order.instrument, .error e⟩]

theorem wp_confirmOpenTrade_outcome {order : ConstructedOrder} {tradeId : String} {trade : Dict}
    (hne : trade ≠ []) (hstate : tradeState trade = "OPEN") (t : List (Event BrokerI Exc)) :
    wp World.free (confirmOpenTrade order tradeId trade)
      (fun r t' => ∀ stops, r = .ok stops →
        ∃ s, t' = t ++ s ∧ StopsOutcome order tradeId (some trade) stops s) t := by
  unfold confirmOpenTrade convert
  cases hsl : attachedPrice (trade.get "stopLossOrder") with
  | error e => exact ⟨trivial, fun stops h => by cases h⟩
  | ok sl =>
      cases htp : attachedPrice (trade.get "takeProfitOrder") with
      | error e => exact ⟨trivial, fun stops h => by cases h⟩
      | ok tp =>
          simp only [Exc.lift_ok, Proc.ofExcept, Proc.bind_eq, Proc.ret_bind]
          cases sl with
          | some price =>
              refine ⟨trivial, ?_⟩
              rintro stops ⟨⟩
              exact ⟨[], by simp, .told hne hstate hsl htp⟩
          | none =>
              simp only [wpc_bind, wpc_attempt]
              apply wpc_of_perform trivial
              rintro r t' rfl
              refine ⟨trivial, ?_⟩
              cases r with
              | ok resp =>
                  refine ⟨trivial, ?_⟩
                  rintro stops ⟨⟩
                  exact ⟨_, rfl, .attached hne hstate htp⟩
              | error e =>
                  dsimp only
                  split_ifs with hbroker
                  · refine ⟨trivial, ?_⟩
                    rintro stops ⟨⟩
                    exact ⟨_, rfl, .refused hne hbroker⟩
                  · exact ⟨trivial, fun stops h => by cases h⟩

theorem wp_confirmTrade_outcome {order : ConstructedOrder} {tradeId : String}
    (found : Option Dict) (t : List (Event BrokerI Exc)) :
    wp World.free (confirmTrade order tradeId found)
      (fun r t' => ∀ stops, r = .ok stops →
        ∃ s, t' = t ++ s ∧ StopsOutcome order tradeId found stops s) t := by
  rcases found with - | - | ⟨entry, rest⟩
  · refine ⟨trivial, ?_⟩
    rintro stops ⟨⟩
    exact ⟨[], by simp, .untold (by simp)⟩
  · refine ⟨trivial, ?_⟩
    rintro stops ⟨⟩
    exact ⟨[], by simp, .untold (by simp)⟩
  · rcases Decidable.em (tradeState (entry :: rest) = "OPEN") with hstate | hstate
    · rw [confirmTrade_of_open (by simp) hstate]
      exact wp_confirmOpenTrade_outcome (by simp) hstate t
    · rw [confirmTrade_of_not_open (by simp) hstate]
      refine ⟨trivial, ?_⟩
      rintro stops ⟨⟩
      exact ⟨[], by simp, .closed (by simp) hstate⟩

/-- The lookup of a trade, and nothing else. -/
inductive LookUp (tradeId : String) :
    Option Dict → Option Dict → List (Event BrokerI Exc) → Prop
  | known {trade : Dict} : LookUp tradeId (some trade) (some trade) []
  | read {found : Option Dict} : LookUp tradeId none found [⟨.getTrade tradeId, .ok found⟩]
  | unread {e : Exc} (he : e.isa .brokerError = true) :
      LookUp tradeId none none [⟨.getTrade tradeId, .error e⟩]

theorem wp_lookUpTrade {tradeId : String} (known : Option Dict) :
    wp World.free (lookUpTrade tradeId known)
      (fun r t => ∀ found, r = .ok found → LookUp tradeId known found t) [] := by
  cases known with
  | some trade =>
      refine ⟨trivial, ?_⟩
      rintro found ⟨⟩
      exact .known
  | none =>
      simp only [lookUpTrade, Proc.bind_eq, wpc_bind, wpc_attempt]
      apply wpc_of_perform trivial
      rintro r t' rfl
      refine ⟨trivial, ?_⟩
      cases r with
      | ok trade =>
          refine ⟨trivial, ?_⟩
          rintro found ⟨⟩
          exact .read
      | error e =>
          dsimp only
          split_ifs with hbroker
          · refine ⟨trivial, ?_⟩
            rintro found ⟨⟩
            exact .unread hbroker
          · exact ⟨trivial, fun found h => by cases h⟩

/-- For a trade with an id: a lookup, and the outcome for what it found. -/
theorem wp_confirmStops_outcome {order : ConstructedOrder} {tradeId : String}
    (hid : tradeId ≠ "") (known : Option Dict) :
    wp World.free (confirmStops order tradeId known)
      (fun r t => ∀ stops, r = .ok stops → ∃ found looked s, t = looked ++ s ∧
        LookUp tradeId known found looked ∧ StopsOutcome order tradeId found stops s) [] := by
  unfold confirmStops
  rw [if_neg hid]
  refine wpc_seq (wp_lookUpTrade known) ?_ ?_
  · intro found looked _ hlooked
    refine wpc_post (wp_confirmTrade_outcome found looked) ?_
    rintro r t' - hout stops hstops
    obtain ⟨s, rfl, hs⟩ := hout stops hstops
    exact ⟨found, looked, s, rfl, hlooked found rfl, hs⟩
  · rintro e t - - stops ⟨⟩

/-! ### The flag -/

/-- No text without the letter N says that a position is unsafe. -/
theorem mem_of_noStopUnsafe {text : String} (h : noStopUnsafe.toList <:+: text.toList) :
    'N' ∈ text.toList :=
  h.subset (by decide)

theorem slippageNote_not_mem {a : OandaAdapter} {slippage : Binary64} {note : String}
    (h : a.slippageNote slippage = some note) : 'N' ∉ note.toList := by
  have hfloat : ∀ x : Binary64, 'N' ∉ x.repr.toList := fun x hmem =>
    absurd (numeral_repr x 'N' hmem) (by decide)
  unfold slippageNote at h
  split_ifs at h
  obtain rfl := Option.some.inj h
  simp [FString.render, Frag.render, PyVal.toStr, PyVal.repr, hfloat]

theorem flaggedUnsafe_iff {a : OandaAdapter} {slippage : Binary64} {isUnsafe : Bool}
    {result : FillResult} (h : result.rejectReason = fillNote (a.slippageNote slippage) isUnsafe) :
    FlaggedUnsafe result ↔ isUnsafe = true := by
  unfold FlaggedUnsafe
  rw [h]
  cases isUnsafe with
  | true =>
      refine iff_of_true ⟨_, if_pos rfl, ?_⟩ rfl
      rw [String.toList_append]
      exact List.infix_append' _ _ _
  | false =>
      refine iff_of_false ?_ (by decide)
      rintro ⟨text, htext, hinfix⟩
      simp only [fillNote, Bool.false_eq_true, if_false] at htext
      cases hnote : a.slippageNote slippage with
      | none =>
          rw [hnote] at htext
          cases htext
      | some note =>
          rw [hnote] at htext
          obtain rfl : note = text := PyVal.str.inj htext
          exact slippageNote_not_mem hnote (mem_of_noStopUnsafe hinfix)

/-! ### The result of a fill -/

section Real
variable {order : ConstructedOrder} {tradeId : String} {known found : Option Dict}
  {looked s : List (Event BrokerI Exc)} {stops : Stops}

/-- The record that the lookup found is the broker's only record of the trade. -/
theorem recordOf_iff (hlook : LookUp tradeId known found looked)
    (hout : StopsOutcome order tradeId found stops s) (trade : Dict) :
    RecordOf tradeId known (looked ++ s) trade ↔ found = some trade := by
  have hnone : ⟨BrokerCall.getTrade tradeId, .ok (some trade)⟩ ∉ s := by
    cases hout <;> simp
  cases hlook with
  | known => simp [RecordOf, hnone]
  | read => simp [RecordOf, hnone, eq_comm]
  | unread he => simp [RecordOf, hnone]

theorem names_iff (hlook : LookUp tradeId known found looked)
    (hout : StopsOutcome order tradeId found stops s) (attached : String) (price : Binary64) :
    Names tradeId known (looked ++ s) attached price ↔
      ∃ trade, found = some trade ∧ attachedPrice (trade.get attached) = .ok (some price) := by
  simp only [Names, recordOf_iff hlook hout]

theorem refusesStop_iff (hlook : LookUp tradeId known found looked)
    (hout : StopsOutcome order tradeId found stops s) :
    RefusesStop tradeId (looked ++ s) ↔ stops.isUnsafe = true := by
  have hlooked : ∀ price instrument e,
      ⟨BrokerCall.modifyTradeStop tradeId price instrument, .error e⟩ ∉ looked := by
    intro price instrument e
    cases hlook <;> simp
  simp only [RefusesStop, List.mem_append, hlooked, false_or]
  cases hout with
  | untold h => simp [intendedStops]
  | closed hne hstate => simp
  | told hne hstate hsl htp => simp
  | attached hne hstate htp => simp
  | refused hne he => exact iff_of_true ⟨_, _, _, List.mem_singleton.mpr rfl, he⟩ rfl

/-- A reported target is the record's exactly when the record has one. -/
theorem target_iff {result : FillResult} {trade : Dict} {tp : Option Binary64}
    (hnames : ∀ price, Names tradeId known (looked ++ s) "takeProfitOrder" price ↔
      attachedPrice (trade.get "takeProfitOrder") = .ok (some price))
    (htp : attachedPrice (trade.get "takeProfitOrder") = .ok tp)
    (hresult : result.takeProfitPrice = some (tp.getD order.takeProfit)) :
    (∀ price, result.takeProfitPrice = some price →
        Names tradeId known (looked ++ s) "takeProfitOrder" price) ↔
      ∃ price, attachedPrice (trade.get "takeProfitOrder") = .ok (some price) := by
  simp only [hnames]
  constructor
  · intro h
    exact ⟨_, h _ hresult⟩
  · rintro ⟨target, htarget⟩ price hprice
    obtain rfl : tp = some target := Except.ok.inj (htp.symm.trans htarget)
    rw [hresult] at hprice
    obtain rfl := Option.some.inj hprice
    exact htarget

/-- A result with these stops is the broker's word exactly when the broker gave it. -/
theorem StopsOutcome.real_iff {result : FillResult} (hlook : LookUp tradeId known found looked)
    (hout : StopsOutcome order tradeId found stops s) (hsl : result.stopLossPrice = stops.stopLoss)
    (htp : result.takeProfitPrice = stops.takeProfit) :
    (stops.isUnsafe = false → StopsReal tradeId known (looked ++ s) result) ↔
      StopsTold tradeId known (looked ++ s) := by
  have hrecord := recordOf_iff hlook hout
  have hnames := names_iff hlook hout
  have hrefuses := refusesStop_iff hlook hout
  -- for the record of an open trade only the target is in question
  have hopen : ∀ trade tp, found = some trade → trade ≠ [] → tradeState trade = "OPEN" →
      stops.isUnsafe = false → attachedPrice (trade.get "takeProfitOrder") = .ok tp →
      stops.takeProfit = some (tp.getD order.takeProfit) →
      (∀ price, result.stopLossPrice = some price →
        Names tradeId known (looked ++ s) "stopLossOrder" price ∨
          AcceptsStop tradeId (looked ++ s) price) →
      ((stops.isUnsafe = false → StopsReal tradeId known (looked ++ s) result) ↔
        StopsTold tradeId known (looked ++ s)) := by
    rintro trade tp rfl hne hstate hsafe hprice hstops hstop
    have hreported : result.takeProfitPrice = some (tp.getD order.takeProfit) := htp.trans hstops
    have htarget := target_iff (by simpa using hnames "takeProfitOrder") hprice hreported
    simp only [StopsTold, hrecord, hrefuses, hsafe]
    constructor
    · intro hreal
      exact ⟨trade, rfl, hne, Or.inr (Or.inl (htarget.mp (hreal trivial).target))⟩
    · rintro ⟨trade', hsame, -, hclosed | htold | hrefused⟩ -
      · obtain rfl := Option.some.inj hsame
        exact absurd hstate hclosed
      · obtain rfl := Option.some.inj hsame
        exact ⟨hstop, htarget.mpr htold⟩
      · cases hrefused
  cases hout with
  | untold h =>
      refine iff_of_false ?_ ?_
      · intro hreal
        obtain ⟨trade, hfound, hprice⟩ := (hnames _ _).mp ((hreal rfl).target _ htp)
        obtain rfl := h trade hfound
        cases hprice
      · rintro ⟨trade, htrade, hne, -⟩
        exact hne (h trade ((hrecord trade).mp htrade))
  | @closed trade hne hstate =>
      refine iff_of_true (fun _ => ⟨fun price h => ?_, fun price h => ?_⟩)
        ⟨trade, (hrecord trade).mpr rfl, hne, Or.inl hstate⟩
      · rw [hsl] at h
        cases h
      · rw [htp] at h
        cases h
  | @told trade sl tp hne hstate hslPrice htpPrice =>
      refine hopen trade tp rfl hne hstate rfl htpPrice rfl fun price h => ?_
      rw [hsl] at h
      cases h
      exact Or.inl ((hnames _ _).mpr ⟨trade, rfl, hslPrice⟩)
  | @attached trade resp tp hne hstate htpPrice =>
      refine hopen trade tp rfl hne hstate rfl htpPrice rfl fun price h => ?_
      rw [hsl] at h
      cases h
      exact Or.inr ⟨_, resp, List.mem_append_right _ (List.mem_singleton.mpr rfl)⟩
  | @refused trade tp e hne he =>
      exact iff_of_true (fun h => by cases h)
        ⟨trade, (hrecord trade).mpr rfl, hne, Or.inr (Or.inr (hrefuses.mpr rfl))⟩

end Real

/-- The iff for the result of a complete `_finalize`. -/
theorem wp_finalize_real {a : OandaAdapter} {order : ConstructedOrder} {expected : Binary64}
    {modelSetId : Option String} {report : FillReport} {known : Option Dict}
    (hopened : report.brokerTradeId ≠ "") :
    wp World.free (finalize a order expected modelSetId report known)
      (fun r t => ∀ result, r = .ok result →
        ((¬ FlaggedUnsafe result → StopsReal report.brokerTradeId known t result) ↔
          StopsTold report.brokerTradeId known t)) [] := by
  unfold finalize
  refine wpc_seq (wp_confirmStops_outcome hopened known) ?_ ?_
  · rintro stops t - hstops
    obtain ⟨found, looked, s, rfl, hlook, hout⟩ := hstops stops rfl
    refine ⟨trivial, ?_⟩
    rintro result ⟨⟩
    rw [flaggedUnsafe_iff rfl, Bool.not_eq_true]
    exact hout.real_iff hlook rfl rfl
  · rintro e t - - result ⟨⟩

/-- For every fill of a trade with an id, whatever is answered: when the result of
`_finalize` does not say that the position is unsafe, its stop and its target are the
broker's exactly when the trade was read and its record names a target, unless the trade
is closed or the missing stop was refused. -/
theorem stopsReal_iff {a : OandaAdapter} {order : ConstructedOrder} {expected : Binary64}
    {modelSetId : Option String} {report : FillReport} {known : Option Dict} {result : FillResult}
    {t : List (Event BrokerI Exc)} (hopened : report.brokerTradeId ≠ "")
    (exec : Exec World.free (finalize a order expected modelSetId report known) []
      (some (.ok result)) t) :
    (¬ FlaggedUnsafe result → StopsReal report.brokerTradeId known t result) ↔
      StopsTold report.brokerTradeId known t :=
  wp_sound exec (wp_finalize_real hopened) result rfl

/-! ### A trade that cannot be read -/

/-- The report of `plainFill`. -/
def plainReport : FillReport where
  realizedStatus := "FILLED"
  filledUnits := .ofRat 1000
  brokerOrderId := "6356"
  brokerTradeId := "6357"
  fillPrice := .ofRat (110012 / 100000)
  fillTime := .str "2026-07-21T10:00:00Z"

/-- The confirmation of that fill with its record. -/
def confirmedFill (trade : Except Exc (Option Dict)) :
    Except Exc FillResult × List (Event BrokerI Exc) :=
  (finalize patientAdapter plainOrder plainOrder.entryPrice none plainReport none).run
    (World.record (fillingBroker trade)) []

/-- A record of the trade with a target and without a stop. -/
def targetOnly : Dict :=
  [("state", .str "OPEN"), ("takeProfitOrder", .dict [("price", .str "1.125")])]

theorem stopsReal_iff_targetOnly :
    ∃ result, (confirmedFill (.ok (some targetOnly))).1 = .ok result ∧
      (¬ FlaggedUnsafe result →
        StopsReal "6357" none (confirmedFill (.ok (some targetOnly))).2 result) := by
  have htarget : ∃ price, attachedPrice (targetOnly.get "takeProfitOrder") = .ok (some price) :=
    ⟨.ofRat (9 / 8), by decide +kernel⟩
  have htold : StopsTold "6357" none (confirmedFill (.ok (some targetOnly))).2 :=
    ⟨targetOnly, Or.inr List.mem_cons_self, by decide, Or.inr (Or.inl htarget)⟩
  have hopened : plainReport.brokerTradeId ≠ "" := by decide
  have hok : (confirmedFill (.ok (some targetOnly))).1.isOk = true := by decide +kernel
  obtain ⟨result, hresult, exec⟩ := exec_record_isOk hok
  exact ⟨result, hresult, (stopsReal_iff hopened exec).mpr htold⟩

/-- The stop and the target of the order are reported although no record was read. -/
theorem unreadTrade_stops_not_real :
    ∃ result, (confirmedFill (.error ⟨.transientBrokerError, []⟩)).1 = .ok result ∧
      ¬ FlaggedUnsafe result ∧
      ¬ StopsReal "6357" none (confirmedFill (.error ⟨.transientBrokerError, []⟩)).2 result := by
  have htold : ¬ StopsTold "6357" none (confirmedFill (.error ⟨.transientBrokerError, []⟩)).2 := by
    rintro ⟨trade, hrecord | hrecord, -⟩
    · cases hrecord
    · cases List.mem_singleton.mp hrecord
  have hopened : plainReport.brokerTradeId ≠ "" := by decide
  have hok : (confirmedFill (.error ⟨.transientBrokerError, []⟩)).1.isOk = true := by
    decide +kernel
  obtain ⟨result, hresult, exec⟩ := exec_record_isOk hok
  have hiff := wp_sound exec (wp_finalize_real hopened) result rfl
  exact ⟨result, hresult, Classical.not_imp.mp (mt hiff.mp htold)⟩

end OandaAdapter

end System2
