import System2.Execution.GatesPassed
import System2.Execution.MessageSettled

/-!
# The last-line gate as it is wired (`execution/lifecycle.py`)

`build_from_secrets` hands the consumer a `validate_fn` that first asks the
validator for its account currency and then passes it a conversion rate. The
validator has neither such an attribute nor such a keyword.
-/

namespace System2
open Foundation

namespace OrderValidator

/-- `instrument.split("_")[0]`. -/
def baseCurrency (instrument : String) : String :=
  String.ofList (instrument.toList.takeWhile (· ≠ '_'))

/-- `validator.account_currency`, as a value to compare and to put into a text. -/
def accountCurrency (v : OrderValidator) : Except PyErr PyVal :=
  match v.getattr "account_currency" with
  | .ok (.value x) => .ok x
  | .ok _ => .error .typeError
  | .error e => .error e

/-- A quote that is there and is not zero. -/
def usableQuote (quote : Option Binary64) : Option Binary64 := quote.filter fun x => !x.eq .zero

/-- `_acct_ccy_per_base`. -/
def acctCcyPerBase (v : OrderValidator) (instrument : String) :
    Proc GateI Exc (Option Binary64) := do
  let base := baseCurrency instrument
  let account ← .ofExcept (Exc.lift v.accountCurrency)
  if account.isStr base then return some (.ofRat 1)
  else
    let direct ← Proc.perform (I := GateI) (.referencePrice (base ++ "_" ++ account.toStr) "BUY")
    match usableQuote direct with
    | some rate => return some rate
    | none => do
        let inverse ← Proc.perform (I := GateI)
          (.referencePrice (account.toStr ++ "_" ++ base) "BUY")
        return (usableQuote inverse).bind fun x => (Binary64.ofRat 1).div? x

/-- The `validate_fn` of `build_from_secrets`. -/
def validateFn (v : OrderValidator) (constructed : ConstructedOrder) :
    Proc GateI Exc (Bool × FString) := do
  let rate ← v.acctCcyPerBase constructed.instrument
  let r ← v.callValidate constructed [("acct_ccy_per_base", rate)]
  return (r.ok, r.reason)

/-- The gate raises before it asks for any quote. -/
theorem validateFn_raises (v : OrderValidator) (constructed : ConstructedOrder) :
    v.validateFn constructed = .raise (.ofErr .attributeError) := rfl

end OrderValidator

namespace Consumer

variable {F : Type}

/-- The calls of a consumer whose gate is the wired one, when everything else lets the
order through: a working queue, no earlier execution, an open session, an open safety
gate and a quote at which the order can be built. -/
def wiredWorld (v : OrderValidator) (order : ApprovedOrder) :
    World (ConsumerI F) Exc (List (Event (ConsumerI F) Exc)) := fun t op =>
  match op with
  | .pipeline (.seen key) => fun r t' => t' = t ++ [⟨.pipeline (.seen key), r⟩] ∧ r = .ok false
  | .pipeline .clock => fun r t' => t' = t ++ [⟨.pipeline .clock, r⟩] ∧
      ∃ now, r = .ok now ∧ isInSession now = true
  | .submitGateFn => fun r t' => t' = t ++ [⟨.submitGateFn, r⟩] ∧ r = .ok true
  | .priceFn asked => fun r t' => t' = t ++ [⟨.priceFn asked, r⟩] ∧
      ∃ price, r = .ok price ∧ (asked = order → (buildOrder order price).isOk = true)
  | .pipeline (.validate constructed) => fun r t' =>
      t' = t ++ [⟨.pipeline (.validate constructed), r⟩] ∧
        ∃ s s', Exec World.free (v.validateFn constructed) s (some r) s'
  | op => fun r t' => t' = t ++ [⟨op, r⟩] ∧ ∃ a, r = .ok a

/-- Neither settled nor submitted so far. -/
def Untouched (t : List (Event (ConsumerI F) Exc)) : Prop := settlements t = [] ∧ NoSubmit t

/-- The calls that neither settle nor submit. -/
def isQuiet : ConsumerCall F → Bool
  | .ack _ => false
  | .nack _ _ => false
  | .toDlq _ _ => false
  | .pipeline (.submit _) => false
  | _ => true

theorem Untouched.append {t : List (Event (ConsumerI F) Exc)} (h : Untouched t)
    {op : ConsumerCall F} (hop : isQuiet op = true) (r : Except Exc op.Ans) :
    Untouched (t ++ [⟨op, r⟩]) := by
  have hevent : settlement (⟨op, r⟩ : Event (ConsumerI F) Exc) = none ∧
      isSubmit (⟨op, r⟩ : Event (ConsumerI F) Exc) = false := by
    cases op with
    | ack msg => cases hop
    | nack msg backoffSec => cases hop
    | toDlq msg reason => cases hop
    | pipeline call =>
        cases call with
        | submit constructed => cases hop
        | _ => exact ⟨rfl, rfl⟩
    | _ => exact ⟨rfl, rfl⟩
  refine ⟨?_, h.2.append hevent.2⟩
  rw [settlements_append, h.1]
  simp [settlements, hevent.1]

/-- The message was put back, and nothing was submitted. -/
structure PutBack (c : Consumer) (msg : ReceivedMessage) (r : Except Exc Outcome)
    (t : List (Event (ConsumerI F) Exc)) : Prop where
  outcome : r = .ok .execError
  once : settlements t = [msg]
  nacked : ∃ a, ⟨.nack msg c.parkBackoffSec, a⟩ ∈ t
  notSubmitted : NoSubmit t

variable {v : OrderValidator} {c : Consumer} {msg : ReceivedMessage} {now : Moment}
  {order : ApprovedOrder} {t : List (Event (ConsumerI F) Exc)}

/-- A call that works and touches nothing. -/
theorem wp_quietCall {op : ConsumerCall F} {Q : Except Exc op.Ans → _ → Prop}
    (ht : Untouched t) (hop : isQuiet op = true)
    (hstep : ∀ r t', wiredWorld v order t op r t' →
      t' = t ++ [⟨op, r⟩] ∧ (Untouched t' → Q r t')) :
    wp (wiredWorld v order) (perform op) Q t := by
  apply wpc_of_perform trivial
  intro r t' step
  obtain ⟨rfl, hQ⟩ := hstep r t' step
  exact ⟨trivial, hQ (ht.append hop r)⟩

/-- The same for a call of the pipeline. -/
theorem wp_quietPipelineCall {op : PipelineCall F} {o : ConsumerCall F}
    {Q : Except Exc op.Ans → _ → Prop} (ht : Untouched t) (hop : isQuiet o = true)
    (hstep : ∀ r t', routedWorld (wiredWorld v order) order t op r t' →
      (∃ r', t' = t ++ [⟨o, r'⟩]) ∧ (Untouched t' → Q r t')) :
    wp (routedWorld (wiredWorld v order) order) (Proc.perform (I := PipelineI F) op) Q t := by
  apply wpc_of_perform trivial
  intro r t' step
  obtain ⟨⟨r', rfl⟩, hQ⟩ := hstep r t' step
  exact ⟨trivial, hQ (ht.append hop r')⟩

theorem wp_wiredAnySeen (keys : List String) {Q : Except Exc Bool → _ → Prop}
    (ht : Untouched t) (hQ : ∀ t', Untouched t' → Q (.ok false) t') :
    wp (routedWorld (wiredWorld v order) order) (Pipeline.anySeen keys) Q t := by
  induction keys generalizing t with
  | nil => exact ⟨trivial, hQ t ht⟩
  | cons key rest ih =>
      simp only [Pipeline.anySeen, Proc.bind_eq, wpc_bind]
      apply wp_quietPipelineCall (o := .pipeline (.seen key)) ht rfl
      rintro r t' ⟨rfl, rfl⟩
      exact ⟨⟨_, rfl⟩, fun ht' => ih ht'⟩

/-- The pipeline gets as far as the gate and raises the gate's exception. -/
theorem wp_wiredProcess {p : Pipeline} {price : PyVal} {opens : List String}
    {constructed : ConstructedOrder} (hmode : p.mode = .executionOnly)
    (hgate : p.hasValidate = true) (hbuilt : buildOrder order price = .ok constructed)
    (ht : Untouched t) :
    wp (routedWorld (wiredWorld v order) order) (p.process order price opens)
      (fun r t' => (∃ e, r = .error e) ∧ Untouched t') t := by
  unfold Pipeline.process
  rw [if_neg (by simp [hmode])]
  simp only [Proc.bind_eq, wpc_bind]
  apply wp_wiredAnySeen _ ht
  intro t₁ ht₁
  simp only [Bool.false_eq_true, if_false, wpc_bind]
  apply wp_quietPipelineCall (o := .pipeline .clock) ht₁ rfl
  rintro r t₂ ⟨rfl, clock, rfl, hsession⟩
  refine ⟨⟨_, rfl⟩, fun ht₂ => ?_⟩
  simp only [hsession, Bool.not_true, Bool.false_eq_true, if_false, hbuilt, Pipeline.lastGates,
    hgate, if_true, Proc.bind_eq, wpc_bind]
  apply wp_quietPipelineCall (o := .pipeline (.validate constructed)) ht₂ rfl
  rintro r t₃ ⟨rfl, s, s', exec⟩
  refine ⟨⟨_, rfl⟩, fun ht₃ => ?_⟩
  rw [OrderValidator.validateFn_raises] at exec
  cases exec with
  | raise => exact ⟨⟨_, rfl⟩, ht₃⟩

theorem wp_wiredExecute (hmode : c.pipeline.mode = .executionOnly)
    (hgate : c.pipeline.hasValidate = true) (ht : Untouched t) :
    wp (wiredWorld v order) (execute c order)
      (fun r t' => (∃ e, r = .error e) ∧ Untouched t') t := by
  simp only [execute, Proc.bind_eq, wpc_bind]
  apply wp_quietCall ht rfl
  rintro r t₁ ⟨rfl, price, rfl, hprice⟩
  obtain ⟨constructed, hbuilt⟩ := exists_of_isOk (hprice rfl)
  refine ⟨rfl, fun ht₁ => ?_⟩
  apply wp_quietCall ht₁ rfl
  rintro r t₂ ⟨rfl, opens, rfl⟩
  exact ⟨rfl, fun ht₂ => wpc_route (wp_wiredProcess hmode hgate hbuilt ht₂)⟩

/-- An exception of the `try` block puts the message back. -/
theorem wp_putBack {e : Exc} (ht : Untouched t) :
    wp (wiredWorld v order) (settle c msg (.error e : Except Exc (ProcessResult F))) (PutBack c msg) t := by
  simp only [settle, Proc.bind_eq, wpc_bind]
  apply wpc_of_perform trivial
  rintro r t' ⟨rfl, a, rfl⟩
  refine ⟨trivial, trivial, rfl, ?_, ⟨_, List.mem_append_right _ (List.mem_singleton_self _)⟩,
    ht.2.append rfl⟩
  rw [settlements_append, ht.1]
  rfl

theorem wp_wiredHandleOrder (hmode : c.pipeline.mode = .executionOnly)
    (hgate : c.pipeline.hasValidate = true) (hsession : isInSession now = true)
    (ht : Untouched t) :
    wp (wiredWorld v order) (handleOrder c msg now order) (PutBack c msg) t := by
  have hexecute : ∀ t' : List (Event (ConsumerI F) Exc), Untouched t' → wp (wiredWorld v order)
      ((execute c order).attempt.bind fun result => settle c msg result) (PutBack c msg) t' := by
    intro t' ht'
    simp only [wpc_bind, wpc_attempt]
    apply wpc_post (wp_wiredExecute hmode hgate ht')
    rintro r t'' - ⟨⟨e, rfl⟩, ht''⟩
    exact wp_putBack ht''
  simp only [handleOrder, Proc.bind_eq, wpc_bind]
  apply wpc_route
  apply wp_wiredAnySeen _ ht
  intro t₁ ht₁
  simp only [Bool.false_eq_true, if_false, hsession, Bool.not_true, gateOpen, wpc_bind]
  split_ifs
  · apply wp_quietCall ht₁ rfl
    rintro r t₂ ⟨rfl, rfl⟩
    exact ⟨rfl, hexecute _⟩
  · exact ⟨trivial, hexecute t₁ ht₁⟩

/-- A message that the consumer's own checks let through: a valid envelope within its
time to live, decoded, in an open session. -/
structure Executable (c : Consumer) (msg : ReceivedMessage) (now : Moment)
    (order : ApprovedOrder) : Prop extends Admitted c msg now order where
  notHeartbeat : isHeartbeat msg.body = false
  dated : ∃ created, parseTs c.host msg.body.entries ["created_at"] = .ok created
  session : isInSession now = true

theorem wp_wiredHandle (h : Executable c msg now order) (hmode : c.pipeline.mode = .executionOnly)
    (hgate : c.pipeline.hasValidate = true) (ht : Untouched t) :
    wp (wiredWorld v order) (handle c msg now) (PutBack c msg) t := by
  obtain ⟨res, hvalid, hok⟩ := h.envelope
  obtain ⟨created, hcreated⟩ := h.dated
  simp only [handle, h.notHeartbeat, Bool.false_eq_true, if_false, convert, hvalid, Exc.lift_ok,
    Proc.ofExcept, Proc.bind_eq, Proc.ret_bind, hok, Bool.not_true, handleEnvelope, h.unexpired,
    creditFreshness, hcreated, h.decoded, wpc_bind]
  apply wp_quietCall ht rfl
  rintro r t₁ ⟨rfl, -, rfl⟩
  refine ⟨rfl, fun ht₁ => ?_⟩
  apply wp_quietCall ht₁ rfl
  rintro r t₂ ⟨rfl, -, rfl⟩
  refine ⟨rfl, fun ht₂ => ?_⟩
  cases created with
  | none => exact ⟨trivial, wp_wiredHandleOrder hmode hgate h.session ht₂⟩
  | some created =>
      apply wp_quietCall ht₂ rfl
      rintro r t₃ ⟨rfl, -, rfl⟩
      exact ⟨rfl, wp_wiredHandleOrder hmode hgate h.session⟩

/-- The wired gate decides no order: it raises on every one, whatever the quotes. A
message that reaches it is put back, and nothing is submitted. -/
theorem wired_gate_never_decides (v : OrderValidator) :
    (∀ (constructed : ConstructedOrder) (s s' : List (Event GateI Exc))
      (r : Except Exc (Bool × FString)),
        Exec World.free (v.validateFn constructed) s (some r) s' → ∀ verdict, r ≠ .ok verdict) ∧
    (∀ (c : Consumer) (msg : ReceivedMessage) (now : Moment) (order : ApprovedOrder)
      (r : Except Exc Outcome) (t : List (Event (ConsumerI F) Exc)),
        Executable c msg now order → c.pipeline.mode = .executionOnly →
        c.pipeline.hasValidate = true →
          Exec (wiredWorld v order) (handle c msg now) [] (some r) t → PutBack c msg r t) := by
  constructor
  · intro constructed s s' r exec verdict
    rw [OrderValidator.validateFn_raises] at exec
    cases exec with
    | raise => exact fun h => by cases h
  · intro c msg now order r t h hmode hgate exec
    exact wp_sound exec (wp_wiredHandle h hmode hgate ⟨rfl, fun e he => by cases he⟩)

/-- The ceilings that apply when nothing is configured. -/
def defaultValidator : OrderValidator where
  requireStopLoss := true
  maxUnitsPerPair := .ofRat 1000000
  maxTotalNotional := .ofRat 5000000
  maxLeverage := .ofRat 30
  tradeableInstruments := none

/-- Calm answers, but for the gate's. -/
def wiredAnswer : (op : ConsumerCall Unit) → Except Exc op.Ans
  | .pipeline (.validate _) => .error (.ofErr .attributeError)
  | op => calmAnswer [] op

theorem wiredAnswer_step {v : OrderValidator} {order : ApprovedOrder}
    (hbuilt : (buildOrder order (.float (.ofRat (11 / 10)))).isOk = true)
    (op : ConsumerCall Unit) (t : List (Event (ConsumerI Unit) Exc)) :
    wiredWorld v order t op (World.record wiredAnswer op t).1 (World.record wiredAnswer op t).2 := by
  cases op with
  | priceFn asked => exact ⟨rfl, _, rfl, fun _ => hbuilt⟩
  | submitGateFn => exact ⟨rfl, rfl⟩
  | pipeline call =>
      cases call with
      | seen key => exact ⟨rfl, rfl⟩
      | clock => exact ⟨rfl, Moment.first, rfl, by decide +kernel⟩
      | validate constructed =>
          refine ⟨rfl, [], [], ?_⟩
          rw [OrderValidator.validateFn_raises]
          exact .raise
      | _ => exact ⟨rfl, _, rfl⟩
  | _ => exact ⟨rfl, _, rfl⟩

/-- The handling of `plainBuy` with the wired gate. -/
def wiredPlainBuy : Except Exc Outcome × List (Event (ConsumerI Unit) Exc) :=
  (handle openConsumer plainBuy Moment.first).run (World.record wiredAnswer) []

/-- `plainBuy` passes every check of the consumer and can be built at the quote. -/
theorem executable_plainBuy : ∃ order, Executable openConsumer plainBuy Moment.first order ∧
    (buildOrder order (.float (.ofRat (11 / 10)))).isOk = true := by
  have hvalid : ((validateEnvelope plainBuy.body).toOption.any (·.ok)) = true := by
    decide +kernel
  have hdecoded : ((ApprovedOrder.fromDict plainBuy.body.entries).toOption.any fun order =>
      (buildOrder order (.float (.ofRat (11 / 10)))).isOk) = true := by decide +kernel
  have hexpired : isExpired .ok plainBuy.body.entries Moment.first none = .ok false := by
    decide +kernel
  have hdated : (parseTs .ok plainBuy.body.entries ["created_at"]).isOk = true := by
    decide +kernel
  cases hres : validateEnvelope plainBuy.body with
  | error e =>
      rw [hres] at hvalid
      cases hvalid
  | ok res =>
      cases horder : ApprovedOrder.fromDict plainBuy.body.entries with
      | error e =>
          rw [horder] at hdecoded
          cases hdecoded
      | ok order =>
          rw [hres] at hvalid
          rw [horder] at hdecoded
          exact ⟨order, ⟨⟨⟨res, hres, hvalid⟩, hexpired, horder⟩, by decide +kernel,
            exists_of_isOk hdated, by decide +kernel⟩, hdecoded⟩

theorem wired_gate_never_decides_plainBuy :
    PutBack openConsumer plainBuy wiredPlainBuy.1 wiredPlainBuy.2 := by
  obtain ⟨order, hexec, hbuilt⟩ := executable_plainBuy
  exact (wired_gate_never_decides defaultValidator).2 openConsumer plainBuy Moment.first order _ _
    hexec rfl rfl (exec_run (wiredAnswer_step hbuilt) _ _)

/-- With the default ceilings the gate returns no verdict on an order well within them,
and a plain message goes back to the queue. -/
theorem wiredGate_raises_on_plainBuy :
    (∃ order constructed, buildOrder order (.float (.ofRat (11 / 10))) = .ok constructed ∧
      ¬ ∃ verdict s s', Exec World.free (defaultValidator.validateFn constructed) s
        (some (.ok verdict)) s') ∧
    PutBack openConsumer plainBuy wiredPlainBuy.1 wiredPlainBuy.2 := by
  obtain ⟨order, hexec, hbuilt⟩ := executable_plainBuy
  obtain ⟨constructed, hconstructed⟩ := exists_of_isOk hbuilt
  refine ⟨⟨order, constructed, hconstructed, ?_⟩, ?_⟩
  · rintro ⟨verdict, s, s', exec⟩
    rw [OrderValidator.validateFn_raises] at exec
    cases exec
  · exact wp_sound (exec_run (wiredAnswer_step (v := defaultValidator) hbuilt) _ _)
      (wp_wiredHandle hexec rfl rfl ⟨rfl, fun e he => by cases he⟩)

end Consumer

end System2
