import System2.Execution.Pipeline

/-!
# Message validation and the last-line gate (`execution/validation.py`)

`validateEnvelope` and `isExpired` look at the raw message. `OrderValidator` is
the gate on the constructed order.

## Implementation notes

A decoded integer has at most 4300 digits, so its `str` never fails.
-/

namespace System2
open Foundation

/-! ### The envelope -/

def supportedSchemaVersions : List String := ["1"]
def validGranularities : List String := ["H1", "H4"]
def validSides : List String := ["BUY", "SELL"]

def requiredOrderFields : List String :=
  ["schema_version", "message_id", "idempotency_key", "correlation_id", "instrument", "side",
    "units", "granularity", "risk_context"]

structure ValidationResult where
  ok : Bool
  code : String
  reason : FString

def ValidationResult.passed : ValidationResult := ⟨true, "", []⟩
def ValidationResult.failed (code : String) (reason : FString) : ValidationResult :=
  ⟨false, code, reason⟩

/-- `str(raw.get(key, ""))`. -/
def textField (raw : Dict) (key : String) : String := ((raw.get? key).getD (.str "")).toStr

/-- The first finding on a number that has to be finite, in the source's order. -/
def validateUnits (raw : Dict) : Except PyErr (Option ValidationResult) :=
  match raw.index "units" with
  | .error e => .error e
  | .ok v =>
      match v.toFloat with
      | .error e =>
          if e = .typeError ∨ e = .valueError then
            .ok (some (.failed "units" [.lit "units not numeric: ", .repr (raw.get "units")]))
          else .error e
      | .ok units =>
          if !units.isFinite then
            .ok (some (.failed "units" [.lit "units is not a finite number: ", .val (.float units)]))
          else if units.eq .zero then .ok (some (.failed "zero_units" [.lit "units == 0"]))
          else .ok none

/-- The check of `risk_context` and of its ATR. -/
def validateRiskContext (raw : Dict) : Except PyErr ValidationResult :=
  match raw.get "risk_context" with
  | .dict rc =>
      match (Dict.get rc "atr").toFloat with
      | .error e =>
          if e = .typeError ∨ e = .valueError then
            .ok (.failed "risk_context"
              [.lit "risk_context.atr not numeric: ", .repr (Dict.get rc "atr")])
          else .error e
      | .ok atr =>
          if !atr.isFinite then
            .ok (.failed "risk_context"
              [.lit "risk_context.atr is not a finite number: ", .val (.float atr)])
          else if atr.le .zero then
            .ok (.failed "risk_context"
              [.lit "risk_context.atr must be > 0, got ", .val (.float atr)])
          else .ok .passed
  | _ => .ok (.failed "risk_context" [.lit "risk_context is not an object"])

/-- `validate_envelope`. An integer beyond the floats escapes as `OverflowError`. -/
def validateEnvelope : PyVal → Except PyErr ValidationResult
  | .dict raw =>
      let sv := textField raw "schema_version"
      if !supportedSchemaVersions.contains sv then
        .ok (.failed "schema_version" [.lit "unsupported schema_version ", .repr (.str sv)])
      else
        let missing := requiredOrderFields.filter fun f => (Dict.get raw f).isNull
        if !missing.isEmpty then
          .ok (.failed "missing_field"
            [.lit "missing required field(s): ", .lit (", ".intercalate missing)])
        else if !validSides.contains (upper (textField raw "side")) then
          .ok (.failed "side" [.lit "invalid side ", .repr (Dict.get raw "side")])
        else
          let gran := textField raw "granularity"
          if !validGranularities.contains gran then
            .ok (.failed "granularity" [.lit "invalid granularity ", .repr (.str gran)])
          else
            match validateUnits raw with
            | .error e => .error e
            | .ok (some finding) => .ok finding
            | .ok none => validateRiskContext raw
  | v => .ok (.failed "not_a_dict"
      [.lit "message is ", .lit v.typeName, .lit ", expected object"])

/-! ### Expiry -/

/-- `ts.replace("Z", "+00:00")`. -/
def replaceZulu (s : String) : String :=
  String.ofList (s.toList.flatMap fun c => if c = 'Z' then "+00:00".toList else [c])

/-- `_parse_iso`: null where the value is no text or no ISO date. -/
def parseIso : PyVal → Option DateTime
  | .str ts => fromisoformat (replaceZulu ts)
  | _ => none

/-- `x > n` for a float and an integer, compared exactly. -/
def floatGtInt (x : Binary64) (n : ℤ) : Bool :=
  match x with
  | .nan => false
  | .inf negative => !negative
  | .fin q _ => decide ((n : ℚ) < q)

/-- The age check of `is_expired`, for a message without a readable `expires_at`. -/
def tooOld (host : LocalZone) (raw : Dict) (now : Moment) (maxAgeSec : Option ℤ) :
    Except PyErr Bool :=
  match maxAgeSec with
  | none => .ok false
  | some maxAge =>
      if (raw.get "created_at").truthy then
        match parseIso (raw.get "created_at") with
        | none => .ok false
        | some created => (created.toUtc host).map fun t => floatGtInt (now.secondsSince t) maxAge
      else .ok false

/-- `is_expired`. The conversion to UTC raises for a date at the edge of the calendar. -/
def isExpired (host : LocalZone) (raw : Dict) (now : Moment) (maxAgeSec : Option ℤ) :
    Except PyErr Bool :=
  let exp := if (raw.get "expires_at").truthy then parseIso (raw.get "expires_at") else none
  match exp with
  | some t => (t.toUtc host).map fun t => decide (t ≤ now)
  | none => tooOld host raw now maxAgeSec

/-! ### The last-line gate -/

structure OrderValidator where
  requireStopLoss : Bool
  maxUnitsPerPair : Binary64
  maxTotalNotional : Binary64
  maxLeverage : Binary64
  tradeableInstruments : Option (List String)

/-- The outside calls of the gate: the clock, and the quote of the wired conversion. -/
inductive GateCall
  | now
  | referencePrice (instrument side : String)

abbrev GateCall.Ans : GateCall → Type
  | .now => Moment
  | .referencePrice _ _ => Option Binary64

abbrev GateI : Interface := ⟨GateCall, GateCall.Ans⟩

namespace OrderValidator

/-- The leverage check: skipped without a positive account equity. -/
def leverageFinding (v : OrderValidator) (accountEquity : Option Binary64) (exposure : Binary64) :
    Option ValidationResult := do
  let equity ← accountEquity
  if equity.eq .zero || !Binary64.zero.lt equity then none
  else
    let leverage ← exposure.div? equity
    if v.maxLeverage.lt leverage then
      some (.failed "max_leverage" [.lit "leverage ", .fixed leverage 2, .lit "x > cap ",
        .val (.float v.maxLeverage), .lit "x"])
    else none

/-- `OrderValidator.validate`. -/
def validate (v : OrderValidator) (order : ConstructedOrder) (accountEquity : Option Binary64)
    (openNotional : Binary64) : Proc GateI Exc ValidationResult :=
  if v.requireStopLoss && order.stopLoss.eq .zero then
    .ret (.failed "no_stop_loss" [.lit "stop-loss required but missing"])
  else if v.tradeableInstruments.any fun allowed => !allowed.contains order.instrument then
    .ret (.failed "untradeable" [.lit order.instrument, .lit " not in tradeable allowlist"])
  else
    let units := order.units.abs
    if v.maxUnitsPerPair.lt units then
      .ret (.failed "max_units_per_pair" [.lit "|units| ", .val (.float units), .lit " > cap ",
        .val (.float v.maxUnitsPerPair)])
    else
      let exposure := (units.mul order.entryPrice).add openNotional
      if v.maxTotalNotional.lt exposure then
        .ret (.failed "max_total_notional" [.lit "notional ", .fixed exposure 2, .lit " > cap ",
          .val (.float v.maxTotalNotional)])
      else
        match v.leverageFinding accountEquity exposure with
        | some finding => .ret finding
        | none => do
            let now ← Proc.perform (I := GateI) .now
            if !isInSession now then
              return .failed "out_of_session" [.lit "outside trading session window"]
            else return .passed

/-- What an attribute of an instance may hold. -/
inductive Attribute
  | value (v : PyVal)
  | instruments (allowed : Option (List String))
  | callable

/-- The attributes of an instance: the fields of the dataclass and its methods. -/
def attributes (v : OrderValidator) : List (String × Attribute) :=
  [("require_stop_loss", .value (.bool v.requireStopLoss)),
    ("max_units_per_pair", .value (.float v.maxUnitsPerPair)),
    ("max_total_notional", .value (.float v.maxTotalNotional)),
    ("max_leverage", .value (.float v.maxLeverage)),
    ("tradeable_instruments", .instruments v.tradeableInstruments),
    ("clock", .callable), ("_now", .callable), ("validate", .callable),
    ("from_secrets", .callable)]

/-- `v.<name>`. -/
def getattr (v : OrderValidator) (name : String) : Except PyErr Attribute :=
  match v.attributes.find? fun a => a.1 == name with
  | some a => .ok a.2
  | none => .error .attributeError

/-- The keyword arguments that `validate` takes. -/
def validateKeywords : List String := ["account_equity", "open_notional"]

/-- `v.validate(order, **keywords)`: an unknown keyword is a `TypeError`. -/
def callValidate (v : OrderValidator) (order : ConstructedOrder)
    (keywords : List (String × Option Binary64)) : Proc GateI Exc ValidationResult :=
  if keywords.any fun kw => !validateKeywords.contains kw.1 then .raise (.ofErr .typeError)
  else
    let keyword (name : String) := (keywords.find? fun kw => kw.1 == name).map Prod.snd
    v.validate order ((keyword "account_equity").getD none)
      (((keyword "open_notional").getD (some .zero)).getD .zero)

end OrderValidator

/-! ### What an accepted envelope holds -/

/-- The facts that later code relies on: the side, the units and the risk context. -/
structure WellFormed (raw : Dict) (units atr : Binary64) (rc : Dict) : Prop where
  present : ∀ f ∈ requiredOrderFields, (raw.get f).isNull = false
  side : upper (textField raw "side") ∈ validSides
  unitsRead : (raw.get "units").toFloat = .ok units
  unitsFinite : units.isFinite = true
  unitsNonzero : units.eq .zero = false
  riskContext : raw.get "risk_context" = .dict rc
  atrRead : (Dict.get rc "atr").toFloat = .ok atr
  atrPositive : atr.Positive

theorem textField_of_present {raw : Dict} {key : String} (h : (raw.get key).isNull = false) :
    textField raw key = (raw.get key).toStr := by
  unfold textField Dict.get at *
  cases hget : raw.get? key with
  | none =>
      rw [hget] at h
      cases h
  | some v => rfl

/-- A key with a value other than null can be indexed. -/
theorem index_of_present {raw : Dict} {key : String} (h : (raw.get key).isNull = false) :
    raw.index key = .ok (raw.get key) := by
  unfold Dict.index Dict.get at *
  cases hget : raw.get? key with
  | none =>
      rw [hget] at h
      cases h
  | some v => rfl

/-- A value that reads as a float is not null. -/
theorem isNull_of_toFloat {v : PyVal} {x : Binary64} (h : v.toFloat = .ok x) :
    v.isNull = false := by
  cases v with
  | null => cases h
  | _ => rfl

/-- A finding on the units is a failure. -/
theorem validateUnits_finding {raw : Dict} {r : ValidationResult}
    (h : validateUnits raw = .ok (some r)) : r.ok = false := by
  unfold validateUnits at h
  split at h
  · cases h
  · split at h
    · split_ifs at h
      cases h
      rfl
    · split_ifs at h
      · cases h
        rfl
      · cases h
        rfl
      · cases h

theorem validateUnits_none {raw : Dict} (hpresent : (raw.get "units").isNull = false)
    (h : validateUnits raw = .ok none) :
    ∃ units, (raw.get "units").toFloat = .ok units ∧ units.isFinite = true ∧
      units.eq .zero = false := by
  simp only [validateUnits, index_of_present hpresent] at h
  split at h
  · split_ifs at h
    cases h
  · rename_i units hfloat
    split_ifs at h with hfin hzero
    · cases h
    · cases h
    · exact ⟨units, hfloat, by simpa using hfin, by simpa using hzero⟩

theorem validateRiskContext_ok {raw : Dict} {r : ValidationResult}
    (h : validateRiskContext raw = .ok r) (hok : r.ok = true) :
    ∃ rc atr, raw.get "risk_context" = .dict rc ∧ (Dict.get rc "atr").toFloat = .ok atr ∧
      atr.Positive := by
  unfold validateRiskContext at h
  split at h
  · rename_i rc hrc
    split at h
    · split_ifs at h
      cases h
      cases hok
    · rename_i atr hfloat
      split_ifs at h with hfin hpos
      · cases h
        cases hok
      · cases h
        cases hok
      · exact ⟨rc, atr, hrc, hfloat, Binary64.positive_of_checks (by simpa using hfin)
          (by simpa using hpos)⟩
  · cases h
    cases hok

/-- An accepted body is an object with everything that makes it well formed. -/
theorem validateEnvelope_ok {body : PyVal} {r : ValidationResult}
    (h : validateEnvelope body = .ok r) (hok : r.ok = true) :
    ∃ raw units atr rc, body = .dict raw ∧ WellFormed raw units atr rc := by
  cases body with
  | dict raw =>
      simp only [validateEnvelope] at h
      split_ifs at h with hversion hmissing hside hgran
      all_goals try (cases h; cases hok)
      have hpresent : ∀ f ∈ requiredOrderFields, (Dict.get raw f).isNull = false := by
        intro f hf
        have hnil : requiredOrderFields.filter (fun f => (Dict.get raw f).isNull) = [] := by
          simpa using hmissing
        simpa using List.filter_eq_nil_iff.mp hnil f hf
      have hunits := hpresent "units" (by decide)
      split at h
      · cases h
      · rename_i finding hfinding
        cases h
        rw [validateUnits_finding hfinding] at hok
        cases hok
      · rename_i hnone
        obtain ⟨units, hread, hfin, hzero⟩ := validateUnits_none hunits hnone
        obtain ⟨rc, atr, hrc, hatr, hpos⟩ := validateRiskContext_ok h hok
        refine ⟨raw, units, atr, rc, rfl, hpresent, ?_, hread, hfin, hzero, hrc, hatr, hpos⟩
        simpa using hside
  | _ =>
      cases h
      cases hok

/-- `from_dict` of a well-formed message can fail only on the suggested stops. -/
theorem WellFormed.fromDict {raw : Dict} {units atr : Binary64} {rc : Dict}
    (wf : WellFormed raw units atr rc) :
    ApprovedOrder.fromDict raw = (do
      let suggestedSl ← optionalFloat (Dict.get rc "suggested_sl")
      let suggestedTp ← optionalFloat (Dict.get rc "suggested_tp")
      return {
        idempotencyKey := (raw.get "idempotency_key").toStr
        correlationId := (raw.get "correlation_id").toStr
        instrument := (raw.get "instrument").toStr
        side := upper (textField raw "side")
        units
        granularity := (raw.get "granularity").toStr
        riskContext := { atr, suggestedSl, suggestedTp }
        signalId := raw.get "signal_id"
        strategyId := raw.get "strategy_id"
        amsDecisionId := raw.get "ams_decision_id"
        createdAt := raw.get "created_at"
        schemaVersion := ((raw.get? "schema_version").getD (.str "1")).toStr
        messageId := raw.get "message_id" }) := by
  have hatr : Dict.index rc "atr" = .ok (Dict.get rc "atr") :=
    index_of_present (isNull_of_toFloat wf.atrRead)
  have hfield : ∀ f ∈ requiredOrderFields, raw.index f = .ok (raw.get f) :=
    fun f hf => index_of_present (wf.present f hf)
  rw [textField_of_present (wf.present "side" (by decide))]
  simp only [ApprovedOrder.fromDict, hfield "idempotency_key" (by decide),
    hfield "correlation_id" (by decide), hfield "instrument" (by decide),
    hfield "side" (by decide), hfield "units" (by decide), hfield "granularity" (by decide),
    hfield "risk_context" (by decide), wf.unitsRead, wf.riskContext, riskContextOf,
    RiskContext.fromDict, hatr, wf.atrRead, bind, Except.bind, pure, Except.pure]
  cases optionalFloat (Dict.get rc "suggested_sl") with
  | error e => rfl
  | ok sl =>
      cases optionalFloat (Dict.get rc "suggested_tp") with
      | error e => rfl
      | ok tp => rfl

/-- An order message with a given side, units and suggested stop. -/
def orderMessage (side : String) (units suggestedSl : PyVal) : Dict :=
  [("schema_version", .str "1"), ("message_id", .str "m-1"), ("idempotency_key", .str "key-1"),
    ("correlation_id", .str "corr-1"), ("instrument", .str "EUR_USD"), ("side", .str side),
    ("units", units), ("granularity", .str "H1"),
    ("risk_context", .dict [("atr", .float (.ofRat (1 / 100))), ("suggested_sl", suggestedSl)])]

end System2
