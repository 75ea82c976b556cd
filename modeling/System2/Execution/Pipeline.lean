import System2.Common.Errors
import System2.Foundation.Calendar
import System2.Foundation.Procedure

/-!
# The execution-only pipeline (`execution/pipeline.py`)

Order construction is pure. `process` calls the processed-key store, the clock
and the injected hooks, so it is a procedure over `PipelineCall`.

## Implementation notes

Logging and the correlation id have no effect on the outcome and are left out.
-/

namespace System2
open Foundation

/-! ### Order data -/

def defaultRrRatio : Binary64 := .ofRat 3
def defaultAtrMultiplierSl : Binary64 := .ofRat 1
def defaultAtrMultiplierTp : Binary64 := .ofRat 3

inductive ExecMode
  | legacy | executionOnly
  deriving DecidableEq, Repr

inductive Decision
  | executed | shadow | skippedDuplicate | rejectedBackupGuard | rejectedOutOfSession
  | rejectedInvalid | rejectedValidation | deferredLegacy
  deriving DecidableEq, Repr

def Decision.value : Decision → String
  | .executed => "executed"
  | .shadow => "shadow_constructed"
  | .skippedDuplicate => "skipped_duplicate"
  | .rejectedBackupGuard => "rejected_backup_guard"
  | .rejectedOutOfSession => "rejected_out_of_session"
  | .rejectedInvalid => "rejected_invalid"
  | .rejectedValidation => "rejected_validation"
  | .deferredLegacy => "deferred_legacy"

structure RiskContext where
  atr : Binary64
  suggestedSl : Option Binary64
  suggestedTp : Option Binary64

/-- `float(v) if v is not None else None`. -/
def optionalFloat (v : PyVal) : Except PyErr (Option Binary64) :=
  if v.isNull then .ok none else v.toFloat.map some

def RiskContext.fromDict (d : Dict) : Except PyErr RiskContext := do
  let atr ← (← d.index "atr").toFloat
  let suggestedSl ← optionalFloat (d.get "suggested_sl")
  let suggestedTp ← optionalFloat (d.get "suggested_tp")
  return { atr, suggestedSl, suggestedTp }

/-- Already-sized, risk-approved order. -/
structure ApprovedOrder where
  idempotencyKey : String
  correlationId : String
  instrument : String
  side : String
  units : Binary64
  granularity : String
  riskContext : RiskContext
  signalId : PyVal
  strategyId : PyVal
  amsDecisionId : PyVal
  createdAt : PyVal
  schemaVersion : String
  messageId : PyVal

/-- A value that is not an object cannot be indexed by a text. -/
def riskContextOf : PyVal → Except PyErr RiskContext
  | .dict rc => RiskContext.fromDict rc
  | _ => .error .typeError

def ApprovedOrder.fromDict (d : Dict) : Except PyErr ApprovedOrder := do
  let idempotencyKey := (← d.index "idempotency_key").toStr
  let correlationId := (← d.index "correlation_id").toStr
  let instrument := (← d.index "instrument").toStr
  let side := upper (← d.index "side").toStr
  let units ← (← d.index "units").toFloat
  let granularity := (← d.index "granularity").toStr
  let riskContext ← riskContextOf (← d.index "risk_context")
  return {
    idempotencyKey, correlationId, instrument, side, units, granularity, riskContext
    signalId := d.get "signal_id"
    strategyId := d.get "strategy_id"
    amsDecisionId := d.get "ams_decision_id"
    createdAt := d.get "created_at"
    schemaVersion := ((d.get? "schema_version").getD (.str "1")).toStr
    messageId := d.get "message_id" }

/-- `1` for a buy, `-1` for everything else. -/
def ApprovedOrder.direction (o : ApprovedOrder) : ℤ := if o.side = "BUY" then 1 else -1

structure ConstructedOrder where
  idempotencyKey : String
  correlationId : String
  instrument : String
  side : String
  units : Binary64
  entryPrice : Binary64
  stopLoss : Binary64
  takeProfit : Binary64
  atrValue : Binary64
  rrRatio : Binary64

/-! ### Price sanity -/

def noMarketPrice (instrument : String) (text : FString) : Exc :=
  ⟨.noMarketPriceError, .lit instrument :: text⟩

def invalidOrder (text : FString) : Exc := ⟨.invalidOrderError, text⟩

/-- `require_market_price`: absence of a usable price is a reject. -/
def requireMarketPrice (instrument : String) (entryPrice : PyVal) : Except Exc Binary64 :=
  if entryPrice.isNull then
    .error (noMarketPrice instrument
      [.lit ": no market price available for the expected-entry reference; refusing to construct an order (fail-closed)"])
  else
    match entryPrice.toFloat with
    | .error e =>
        if e = .typeError ∨ e = .valueError then
          .error (noMarketPrice instrument
            [.lit ": entry price ", .repr entryPrice, .lit " is not a number"])
        else .error (.ofErr e)
    | .ok price =>
        if !price.isFinite then
          .error (noMarketPrice instrument
            [.lit ": entry price ", .repr (.float price), .lit " is not finite"])
        else if price.le .zero then
          .error (noMarketPrice instrument
            [.lit ": entry price ", .repr (.float price), .lit " is not positive"])
        else .ok price

/-- The check of one protective price: present, finite and positive. -/
def protectivePrice (instrument name : String) (entryPrice : Binary64) :
    Option Binary64 → Except Exc Binary64
  | none => .error (invalidOrder [.lit instrument, .lit ": ", .lit name, .lit " is missing"])
  | some value =>
      if !value.isFinite || value.le .zero then
        .error (invalidOrder [.lit instrument, .lit ": ", .lit name, .lit "=",
          .val (.float value), .lit " is not a positive price (entry=", .val (.float entryPrice),
          .lit "); refusing to construct an order"])
      else .ok value

def wrongSide (side : String) (entryPrice stopLoss takeProfit : Binary64) : Exc :=
  invalidOrder [.lit side, .lit " SL/TP wrong side: entry=", .val (.float entryPrice),
    .lit " SL=", .val (.float stopLoss), .lit " TP=", .val (.float takeProfit)]

/-- `assert_protective_prices`: both prices positive and on their side of the entry. -/
def assertProtectivePrices (instrument : String) (direction : ℤ) (entryPrice : Binary64)
    (stopLoss takeProfit : Option Binary64) : Except Exc (Binary64 × Binary64) := do
  let sl ← protectivePrice instrument "stop_loss" entryPrice stopLoss
  let tp ← protectivePrice instrument "take_profit" entryPrice takeProfit
  if direction = 1 then
    if entryPrice.le sl || tp.le entryPrice then
      .error (wrongSide (instrument ++ ": BUY") entryPrice sl tp)
    else .ok (sl, tp)
  else if sl.le entryPrice || entryPrice.le tp then
    .error (wrongSide (instrument ++ ": SELL") entryPrice sl tp)
  else .ok (sl, tp)

/-- `_atr_stops`: the stop one ATR away on one side, the target three on the other. -/
def atrStops (direction : ℤ) (entryPrice atr : Binary64) : Except Exc (Binary64 × Binary64) :=
  if atr.eq .zero || atr.le .zero then
    .error (invalidOrder [.lit "invalid ATR value: ", .val (.float atr)])
  else
    let slDistance := atr.mul defaultAtrMultiplierSl
    let tpDistance := atr.mul defaultAtrMultiplierTp
    if direction = 1 then
      let stopLoss := entryPrice.sub slDistance
      let takeProfit := entryPrice.add tpDistance
      if entryPrice.le stopLoss || takeProfit.le entryPrice then
        .error (wrongSide "BUY" entryPrice stopLoss takeProfit)
      else .ok (stopLoss, takeProfit)
    else
      let stopLoss := entryPrice.add slDistance
      let takeProfit := entryPrice.sub tpDistance
      if stopLoss.le entryPrice || entryPrice.le takeProfit then
        .error (wrongSide "SELL" entryPrice stopLoss takeProfit)
      else .ok (stopLoss, takeProfit)

/-- Sunday 22:00 to Friday 20:00 UTC. -/
def isInSession (t : Moment) : Bool :=
  if t.weekday = 5 then false
  else if t.weekday = 6 then decide (22 ≤ t.hour)
  else if t.weekday = 4 then decide (t.hour < 20)
  else true

/-! ### Backup guard and guard keys -/

/-- `BackupCorrelationGuard.evaluate`. -/
def backupGuard (maxOpenPositions : ℤ) (order : ApprovedOrder) (openInstruments : List String) :
    Bool × FString :=
  if maxOpenPositions ≤ openInstruments.length then
    (false, [.lit "backup_guard: open positions ", .val (.int openInstruments.length),
      .lit " >= cap ", .val (.int maxOpenPositions)])
  else if openInstruments.contains order.instrument then
    (false, [.lit "backup_guard: already an open position in ", .lit order.instrument])
  else (true, [])

/-- Every key an approved order is deduped on, most specific first. -/
def guardKeys (order : ApprovedOrder) : List String :=
  [order.idempotencyKey] ++
    if !order.signalId.isNull && order.signalId.toStr != "" then
      ["signal:" ++ order.signalId.toStr]
    else []

/-! ### Construction -/

/-- The stop and the target: System 3's when both are given, else from the ATR. -/
def proposedStops (order : ApprovedOrder) (price : Binary64) :
    Except Exc (Binary64 × Binary64) :=
  match order.riskContext.suggestedSl, order.riskContext.suggestedTp with
  | some sl, some tp => .ok (sl, tp)
  | _, _ => atrStops order.direction price order.riskContext.atr

/-- `ExecutionPipeline.build_order`. -/
def buildOrder (order : ApprovedOrder) (entryPrice : PyVal) : Except Exc ConstructedOrder := do
  let price ← requireMarketPrice order.instrument entryPrice
  let (sl, tp) ← proposedStops order price
  let (stopLoss, takeProfit) ←
    assertProtectivePrices order.instrument order.direction price (some sl) (some tp)
  return {
    idempotencyKey := order.idempotencyKey
    correlationId := order.correlationId
    instrument := order.instrument
    side := order.side
    units := order.units
    entryPrice := price
    stopLoss, takeProfit
    atrValue := order.riskContext.atr
    rrRatio := defaultRrRatio }

/-- What a constructed order is: the approved order with a market price as its
entry, and a stop and a target on either side of it. -/
structure Constructed (order : ApprovedOrder) (entryPrice : PyVal) (c : ConstructedOrder) :
    Prop where
  key : c.idempotencyKey = order.idempotencyKey
  instrument : c.instrument = order.instrument
  side : c.side = order.side
  units : c.units = order.units
  entryRead : entryPrice.toFloat = .ok c.entryPrice
  entryPositive : c.entryPrice.Positive
  stopPositive : c.stopLoss.Positive
  targetPositive : c.takeProfit.Positive
  buySides : order.direction = 1 →
    c.stopLoss.lt c.entryPrice = true ∧ c.entryPrice.lt c.takeProfit = true
  sellSides : order.direction ≠ 1 →
    c.entryPrice.lt c.stopLoss = true ∧ c.takeProfit.lt c.entryPrice = true

theorem requireMarketPrice_ok {instrument : String} {v : PyVal} {price : Binary64}
    (h : requireMarketPrice instrument v = .ok price) :
    v.toFloat = .ok price ∧ price.Positive := by
  unfold requireMarketPrice at h
  split_ifs at h with hnull
  split at h
  · split_ifs at h
  · rename_i p hp
    split_ifs at h with hfin hpos
    cases h
    exact ⟨hp, Binary64.positive_of_checks (by simpa using hfin) (by simpa using hpos)⟩

theorem protectivePrice_ok {instrument name : String} {entry value x : Binary64}
    (h : protectivePrice instrument name entry (some value) = .ok x) :
    x = value ∧ x.Positive := by
  unfold protectivePrice at h
  dsimp only at h
  split_ifs at h with hbad
  cases h
  have hgood : value.isFinite = true ∧ value.le .zero = false := by simpa using hbad
  exact ⟨rfl, Binary64.positive_of_checks hgood.1 hgood.2⟩

/-- Both prices pass, unchanged, and each lies on its own side of the entry. -/
theorem assertProtectivePrices_ok {instrument : String} {direction : ℤ}
    {entry sl tp : Binary64} {r : Binary64 × Binary64} (hentry : entry.isFinite = true)
    (h : assertProtectivePrices instrument direction entry (some sl) (some tp) = .ok r) :
    r = (sl, tp) ∧ sl.Positive ∧ tp.Positive ∧
      (direction = 1 → sl.lt entry = true ∧ entry.lt tp = true) ∧
      (direction ≠ 1 → entry.lt sl = true ∧ tp.lt entry = true) := by
  unfold assertProtectivePrices at h
  cases hsl : protectivePrice instrument "stop_loss" entry (some sl) with
  | error e =>
      rw [hsl] at h
      cases h
  | ok x =>
      obtain ⟨rfl, hslpos⟩ := protectivePrice_ok hsl
      cases htp : protectivePrice instrument "take_profit" entry (some tp) with
      | error e =>
          rw [hsl, htp] at h
          cases h
      | ok y =>
          obtain ⟨rfl, htppos⟩ := protectivePrice_ok htp
          rw [hsl, htp] at h
          simp only [bind, Except.bind] at h
          split_ifs at h with hdir hbuy hsell
          · cases h
            obtain ⟨h1, h2⟩ : entry.le x = false ∧ y.le entry = false := by simpa using hbuy
            refine ⟨rfl, hslpos, htppos, fun _ => ?_, fun hne => absurd hdir hne⟩
            exact ⟨Binary64.lt_of_le_false hentry hslpos.isFinite h1,
              Binary64.lt_of_le_false htppos.isFinite hentry h2⟩
          · cases h
            obtain ⟨h1, h2⟩ : x.le entry = false ∧ entry.le y = false := by simpa using hsell
            refine ⟨rfl, hslpos, htppos, fun heq => absurd heq hdir, fun _ => ?_⟩
            exact ⟨Binary64.lt_of_le_false hslpos.isFinite hentry h1,
              Binary64.lt_of_le_false hentry htppos.isFinite h2⟩

/-- Whatever `build_order` returns is well constructed. -/
theorem buildOrder_ok {order : ApprovedOrder} {v : PyVal} {c : ConstructedOrder}
    (h : buildOrder order v = .ok c) : Constructed order v c := by
  unfold buildOrder at h
  cases hprice : requireMarketPrice order.instrument v with
  | error e =>
      rw [hprice] at h
      cases h
  | ok price =>
      obtain ⟨hread, hpos⟩ := requireMarketPrice_ok hprice
      cases hstops : proposedStops order price with
      | error e =>
          simp only [hprice, hstops, bind, Except.bind] at h
          cases h
      | ok stops =>
          cases hassert : assertProtectivePrices order.instrument order.direction price
              (some stops.1) (some stops.2) with
          | error e =>
              simp only [hprice, hstops, hassert, bind, Except.bind] at h
              cases h
          | ok r =>
              simp only [hprice, hstops, hassert, bind, Except.bind] at h
              cases h
              obtain ⟨rfl, hsl, htp, hbuy, hsell⟩ :=
                assertProtectivePrices_ok hpos.isFinite hassert
              exact ⟨rfl, rfl, rfl, rfl, hread, hpos, hsl, htp, hbuy, hsell⟩

/-! ### Processing one order -/

/-- The calls of `ExecutionPipeline.process`. `F` is what `submit_fn` returns. -/
inductive PipelineCall (F : Type)
  | seen (key : String)
  | mark (key : String)
  | clock
  | validate (c : ConstructedOrder)
  | submit (c : ConstructedOrder)
  | persist (c : ConstructedOrder) (fill : F)
  | emit (c : ConstructedOrder) (fill : F)

abbrev PipelineCall.Ans {F : Type} : PipelineCall F → Type
  | .seen _ => Bool
  | .mark _ => Unit
  | .clock => Moment
  | .validate _ => Bool × FString
  | .submit _ => F
  | .persist _ _ => Unit
  | .emit _ _ => Unit

abbrev PipelineI (F : Type) : Interface := ⟨PipelineCall F, PipelineCall.Ans⟩

/-- A call of `submit_fn`. -/
def PipelineCall.isSubmit {F : Type} : PipelineCall F → Bool
  | .submit _ => true
  | _ => false

/-- The settings of a pipeline, and which of the optional hooks are given. -/
structure Pipeline where
  mode : ExecMode
  shadow : Bool
  maxOpenPositions : ℤ
  hasSubmit : Bool
  hasPersist : Bool
  hasEmit : Bool
  hasValidate : Bool

/-- The settings under which every hook is given and orders leave the box. -/
def Pipeline.live : Pipeline where
  mode := .executionOnly
  shadow := false
  maxOpenPositions := 8
  hasSubmit := true
  hasPersist := true
  hasEmit := true
  hasValidate := true

structure ProcessResult (F : Type) where
  decision : Decision
  order : Option ConstructedOrder
  fill : Option F
  reason : FString

namespace Pipeline

variable {F : Type}

/-- Is one of the keys in the processed store? The scan stops at the first. -/
def anySeen : List String → Proc (PipelineI F) Exc Bool
  | [] => .ret false
  | key :: rest => do
      let seen ← Proc.perform (I := PipelineI F) (.seen key)
      if seen then .ret true else anySeen rest

/-- Mark every key in order. -/
def markAll : List String → Proc (PipelineI F) Exc Unit
  | [] => .ret ()
  | key :: rest => do
      let _ ← Proc.perform (I := PipelineI F) (.mark key)
      markAll rest

/-- The end of `process`: submit, mark at once, then the hooks that may still fail.
The source's handler around the hooks only logs and raises again. -/
def submitAndRecord (p : Pipeline) (order : ApprovedOrder) (constructed : ConstructedOrder) :
    Proc (PipelineI F) Exc (ProcessResult F) :=
  if !p.hasSubmit then
    .raise ⟨.builtin .valueError,
      [.lit "submit_fn required in non-shadow execution_only mode (wired by EXEC-006)"]⟩
  else do
    let fill ← Proc.perform (I := PipelineI F) (.submit constructed)
    let _ ← markAll (guardKeys order)
    let _ ← Proc.given p.hasPersist (Proc.perform (I := PipelineI F) (.persist constructed fill))
    let _ ← Proc.given p.hasEmit (Proc.perform (I := PipelineI F) (.emit constructed fill))
    return { decision := .executed, order := some constructed, fill := some fill, reason := [] }

/-- The gates on a constructed order: `validate_fn`, the backup guard, shadow mode. -/
def lastGates (p : Pipeline) (order : ApprovedOrder) (constructed : ConstructedOrder)
    (openInstruments : List String) : Proc (PipelineI F) Exc (ProcessResult F) := do
  let verdict ←
    if p.hasValidate then Proc.perform (I := PipelineI F) (.validate constructed)
    else Proc.ret (true, [])
  if !verdict.1 then
    return { decision := .rejectedValidation, order := some constructed, fill := none,
             reason := verdict.2 }
  else
    let guard := backupGuard p.maxOpenPositions order openInstruments
    if !guard.1 then
      return { decision := .rejectedBackupGuard, order := some constructed, fill := none,
               reason := guard.2 }
    else if p.shadow then
      return { decision := .shadow, order := some constructed, fill := none, reason := [] }
    else submitAndRecord p order constructed

/-- A result without an order. -/
def unbuilt (decision : Decision) (reason : FString) : ProcessResult F :=
  { decision, order := none, fill := none, reason }

/-- `ExecutionPipeline.process`: the execution-only path for one approved order. -/
def process (p : Pipeline) (order : ApprovedOrder) (entryPrice : PyVal)
    (openInstruments : List String) : Proc (PipelineI F) Exc (ProcessResult F) :=
  if p.mode = .legacy then .ret (unbuilt .deferredLegacy [])
  else do
    let duplicate ← anySeen (guardKeys order)
    if duplicate then return unbuilt .skippedDuplicate []
    else
      let now ← Proc.perform (I := PipelineI F) .clock
      if !isInSession now then return unbuilt .rejectedOutOfSession []
      else
        match buildOrder order entryPrice with
        | .error e =>
            if e.isa .invalidOrderError then return unbuilt .rejectedInvalid e.msg
            else .raise e
        | .ok constructed => lastGates p order constructed openInstruments

end Pipeline

end System2
