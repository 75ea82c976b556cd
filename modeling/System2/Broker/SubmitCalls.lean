import System2.Broker.OandaAdapter

/-!
# The calls of a submit

Which calls the parts of `submit` make, whatever is answered: the specification of
the instrument, the order itself, the looks at what the broker has, the
confirmation of the stops. A kind of calls with all of these is met throughout.
-/

namespace System2
open Foundation

namespace OandaAdapter

/-- The calls that append no order of ours. -/
def NotCreate (op : BrokerCall) : Prop := ∀ payload, op ≠ .createOrder payload

/-- The calls about the instrument's specification. -/
def AboutSpec : BrokerCall → Prop
  | .cachedSpec _ => True
  | .cacheSpec _ _ => True
  | .getAccountInstruments _ => True
  | _ => False

/-- The calls that confirm the stops of a fill. -/
def AboutStops : BrokerCall → Prop
  | .getTrade _ => True
  | .modifyTradeStop _ _ _ => True
  | _ => False

theorem notCreate_of_aboutSpec {op : BrokerCall} (h : AboutSpec op) : NotCreate op := by
  rintro payload rfl
  exact h

theorem notCreate_of_aboutStops {op : BrokerCall} (h : AboutStops op) : NotCreate op := by
  rintro payload rfl
  exact h

/-- A kind of calls with those that confirm the stops of an order. -/
structure ConfirmsStops (P : BrokerCall → Prop) (order : ConstructedOrder) : Prop where
  reads : ∀ tradeId, P (.getTrade tradeId)
  repairs : ∀ tradeId, P (.modifyTradeStop tradeId order.stopLoss order.instrument)

/-- A kind of calls with those of a submit behind its payload, but for the order itself. -/
structure Submits (P : BrokerCall → Prop) (order : ConstructedOrder) : Prop
    extends ConfirmsStops P order where
  transactions : ∀ count, P (.getRecentTransactions count)
  openTrades : P .getOpenTrades
  sleeps : ∀ sec, P (.sleep sec)

theorem Submits.mono {P P' : BrokerCall → Prop} {order : ConstructedOrder} (h : Submits P order)
    (hP : ∀ op, P op → P' op) : Submits P' order where
  reads := fun tradeId => hP _ (h.reads tradeId)
  repairs := fun tradeId => hP _ (h.repairs tradeId)
  transactions := fun count => hP _ (h.transactions count)
  openTrades := hP _ h.openTrades
  sleeps := fun sec => hP _ (h.sleeps sec)

theorem aboutStops_confirms (order : ConstructedOrder) : ConfirmsStops AboutStops order where
  reads := fun _ => trivial
  repairs := fun _ => trivial

theorem notCreate_submits (order : ConstructedOrder) : Submits NotCreate order where
  reads := fun _ => notCreate_of_aboutStops trivial
  repairs := fun _ => notCreate_of_aboutStops trivial
  transactions := fun _ payload h => by cases h
  openTrades := fun payload h => by cases h
  sleeps := fun _ payload h => by cases h

/-! ### The specification -/

theorem only_cacheRows (rows : List Dict) : (cacheRows rows).Only AboutSpec := by
  induction rows with
  | nil => exact trivial
  | cons row rest ih =>
      simp only [cacheRows, Proc.bind_eq]
      split
      · exact (Proc.along_perform trivial).bind fun _ => ih
      · split_ifs
        · exact ih
        · exact trivial

theorem only_displayPrecision (a : OandaAdapter) (instrument : String) :
    (displayPrecision a instrument).Only AboutSpec := by
  have hspec : (instrumentSpec a instrument).Only AboutSpec := by
    simp only [instrumentSpec, Proc.bind_eq]
    refine (Proc.along_perform trivial).bind fun cached => ?_
    cases cached with
    | some spec => exact trivial
    | none =>
        dsimp only
        split_ifs
        · exact trivial
        · refine (Proc.along_perform trivial).attempt.bind fun rows => ?_
          cases rows with
          | error e => exact trivial
          | ok rows =>
              exact (only_cacheRows rows).bind fun _ => Proc.along_perform trivial
  simp only [displayPrecision, Proc.bind_eq]
  refine hspec.bind fun spec => ?_
  cases spec with
  | some spec => exact trivial
  | none => exact trivial

/-! ### The stops -/

theorem confirmTrade_of_open {order : ConstructedOrder} {tradeId : String} {trade : Dict}
    (hne : trade ≠ []) (hstate : tradeState trade = "OPEN") :
    confirmTrade order tradeId (some trade) = confirmOpenTrade order tradeId trade := by
  cases trade with
  | nil => exact absurd rfl hne
  | cons entry rest => exact if_pos hstate

theorem confirmTrade_of_not_open {order : ConstructedOrder} {tradeId : String} {trade : Dict}
    (hne : trade ≠ []) (hstate : tradeState trade ≠ "OPEN") :
    confirmTrade order tradeId (some trade) = .ret ⟨none, none, false⟩ := by
  cases trade with
  | nil => exact absurd rfl hne
  | cons entry rest => exact if_neg hstate

section Stops
variable {allowed : (op : BrokerCall) → Except Exc op.Ans → Prop} {P : BrokerCall → Prop}
  {order : ConstructedOrder}

theorem along_confirmTrade (h : ConfirmsStops P order) (tradeId : String) (trade : Option Dict) :
    (confirmTrade order tradeId trade).Along allowed P := by
  have hopen : ∀ trade, (confirmOpenTrade order tradeId trade).Along allowed P := by
    intro trade
    simp only [confirmOpenTrade, Proc.bind_eq]
    refine (Proc.along_ofExcept _).bind fun sl => (Proc.along_ofExcept _).bind fun tp => ?_
    cases sl with
    | some price => exact trivial
    | none =>
        refine (Proc.along_perform (h.repairs tradeId)).attempt.bind fun r => ?_
        cases r with
        | ok _ => exact trivial
        | error e =>
            dsimp only
            split_ifs
            · exact trivial
            · exact trivial
  rcases trade with - | - | ⟨entry, rest⟩
  · exact trivial
  · exact trivial
  · rcases Decidable.em (tradeState (entry :: rest) = "OPEN") with hstate | hstate
    · rw [confirmTrade_of_open (by simp) hstate]
      exact hopen _
    · rw [confirmTrade_of_not_open (by simp) hstate]
      exact trivial

theorem along_confirmStops (h : ConfirmsStops P order) (tradeId : String) (known : Option Dict) :
    (confirmStops order tradeId known).Along allowed P := by
  simp only [confirmStops, Proc.bind_eq]
  split_ifs
  · exact trivial
  · refine Proc.Along.bind ?_ fun trade => along_confirmTrade h tradeId trade
    cases known with
    | some trade => exact trivial
    | none =>
        refine (Proc.along_perform (h.reads tradeId)).attempt.bind fun r => ?_
        cases r with
        | ok trade => exact trivial
        | error e =>
            dsimp only
            split_ifs
            · exact trivial
            · exact trivial

theorem along_finalize (h : ConfirmsStops P order) (a : OandaAdapter) (expected : Binary64)
    (modelSetId : Option String) (report : FillReport) (trade : Option Dict) :
    (finalize a order expected modelSetId report trade).Along allowed P :=
  (along_confirmStops h report.brokerTradeId trade).bind fun _ => trivial

theorem along_buildFillResult (h : ConfirmsStops P order) (a : OandaAdapter) (resp : Dict)
    (expected : Binary64) (modelSetId : Option String) :
    (buildFillResult a order resp expected modelSetId).Along allowed P := by
  simp only [buildFillResult, Proc.bind_eq]
  split
  · exact Proc.along_ofExcept _
  · split
    · exact (Proc.along_ofExcept _).bind fun report =>
        along_finalize h a expected modelSetId report none
    · exact trivial

end Stops

/-! ### The reads and the attempts -/

section Attempts
variable {allowed : (op : BrokerCall) → Except Exc op.Ans → Prop} {P : BrokerCall → Prop}
  {order : ConstructedOrder}

theorem along_reconcile (h : Submits P order) (a : OandaAdapter) (cid : String)
    (expected : Binary64) (modelSetId : Option String) :
    (reconcile a cid order expected modelSetId).Along allowed P := by
  refine (Proc.along_perform h.openTrades).attempt.bind fun r => ?_
  cases r with
  | error e =>
      dsimp only
      split_ifs
      · exact trivial
      · exact trivial
  | ok trades =>
      refine (Proc.along_ofExcept _).bind fun found => ?_
      cases found with
      | none => exact trivial
      | some t =>
          exact (Proc.along_ofExcept _).bind fun report =>
            (along_finalize h.toConfirmsStops a expected modelSetId report (some t)).bind
              fun _ => trivial

theorem along_priorSubmission (h : Submits P order) (a : OandaAdapter) (cid : String)
    (expected : Binary64) (modelSetId : Option String) :
    (priorSubmission a cid order expected modelSetId).Along allowed P := by
  unfold priorSubmission
  split_ifs
  · exact along_reconcile h a cid expected modelSetId
  · refine (Proc.along_perform (h.transactions _)).attempt.bind fun r => ?_
    cases r with
    | error e => exact trivial
    | ok transactions =>
        refine (Proc.along_ofExcept _).bind fun v => ?_
        cases v with
        | filled txn =>
            exact (along_buildFillResult h.toConfirmsStops a _ expected modelSetId).bind
              fun _ => trivial
        | _ => exact trivial

theorem along_attempts {a : OandaAdapter} {s : Submission} (h : Submits P s.order)
    (hcreate : P (.createOrder s.payload)) (remaining : ℕ) (attempt : ℤ) :
    (attempts a s remaining attempt).Along allowed P := by
  induction remaining generalizing attempt with
  | zero => exact trivial
  | succ remaining ih =>
      refine (Proc.along_perform hcreate).attempt.bind fun r => ?_
      cases r with
      | ok resp => exact along_buildFillResult h.toConfirmsStops a resp _ _
      | error e =>
          dsimp only
          split_ifs
          · exact trivial
          · refine (along_priorSubmission h a _ _ _).bind fun prior => ?_
            obtain ⟨reconciled, verified⟩ := prior
            cases reconciled with
            | some result => exact trivial
            | none =>
                dsimp only
                split_ifs
                · exact trivial
                · exact trivial
                · exact (Proc.along_perform (h.sleeps _)).bind fun _ => ih _
          · exact trivial

/-- All calls of a submit, when the payloads at the precisions it can find may be sent. -/
theorem along_submit {D : ℤ → Prop} (h : Submits P order) {a : OandaAdapter}
    (hspec : (displayPrecision a order.instrument).Along allowed P)
    (hprecision : (displayPrecision a order.instrument).Yields allowed D)
    (hcreate : ∀ decimals payload, D decimals → payloadAt order decimals = .ok payload →
      P (.createOrder payload))
    (expectedPrice : Option Binary64) (modelSetId : Option String) :
    (submit a order expectedPrice modelSetId).Along allowed P := by
  simp only [submit, buildPayload, Proc.bind_eq, Proc.bind_assoc]
  refine hspec.bind_yields hprecision fun decimals hdecimals => ?_
  cases hpayload : payloadAt order decimals with
  | error e => exact trivial
  | ok payload =>
      refine (along_priorSubmission h a _ _ _).bind fun prior => ?_
      obtain ⟨result, verified⟩ := prior
      cases result with
      | some result => exact trivial
      | none =>
          dsimp only
          split_ifs
          · exact trivial
          · exact along_attempts (s := ⟨order, _, modelSetId, payload⟩) h
              (hcreate decimals payload hdecimals hpayload) _ _

end Attempts

end OandaAdapter

end System2
