import System2.Execution.OutboundConsumer

/-!
# Fill confirmations (`execution/fill_producer.py`)

`publish_fill` writes the confirmation to the outbox first and then tries to
deliver what the outbox holds. `emitFill` is the hook that the composition root
(`execution/lifecycle.py`) hands to the consumer.

## Implementation notes

`flush` loops while it makes progress. Its model has a bound on the number of
rounds as an argument; the loop of the source makes the calls of one of them.
-/

namespace System2
open Foundation

def validRealizedStatus : List String := ["FILLED", "PARTIAL", "REJECTED", "CANCELLED", "EXPIRED"]

/-- `FillResult`: what became of an order at the broker. -/
structure FillResult where
  realizedStatus : String
  filledUnits : Binary64
  brokerOrderId : Option String
  brokerTradeId : Option String
  requestedPrice : Option Binary64
  fillPrice : Option Binary64
  fillTime : PyVal
  slippagePips : Option Binary64
  stopLossPrice : Option Binary64
  takeProfitPrice : Option Binary64
  rejectReason : PyVal
  modelSetId : Option String

/-- `None` or a float, as a message field. -/
def floatField : Option Binary64 → PyVal
  | some x => .float x
  | none => .null

/-- `make_envelope` (`common/queue_backend.py`), given its id and its time stamp. -/
def makeEnvelope (messageId createdAt : String) (payload : PyVal)
    (idempotencyKey correlationId : String) (granularity eventType : Option String) : PyVal :=
  .dict ([("schema_version", .str "1"), ("message_id", .str messageId),
    ("idempotency_key", .str idempotencyKey), ("correlation_id", .str correlationId),
    ("created_at", .str createdAt), ("payload", payload)] ++
    (granularity.toList.map fun g => ("granularity", .str g)) ++
    (eventType.toList.map fun e => ("event_type", .str e)))

/-- The calls of the fill producer and of the hook around it. -/
inductive ProducerCall
  | uuid4
  | utcNowIso
  | outboxPublish (topic : String) (body : PyVal)
  | outboxPull (topic : String) (maxMessages : ℤ)
  | outboxAck (msg : ReceivedMessage)
  | outboxNack (msg : ReceivedMessage) (backoffSec : Binary64)
  | queuePublish (topic : String) (body : PyVal)
  | registerTrade (order : ApprovedOrder) (c : ConstructedOrder) (fill : FillResult)

abbrev ProducerCall.Ans : ProducerCall → Type
  | .uuid4 => String
  | .utcNowIso => String
  | .outboxPull _ _ => List ReceivedMessage
  | _ => Unit

abbrev ProducerI : Interface := ⟨ProducerCall, ProducerCall.Ans⟩

structure FillProducer where
  inboundTopic : String
  outboxTopic : String

namespace FillProducer

abbrev perform (op : ProducerCall) : Proc ProducerI Exc op.Ans := Proc.perform (I := ProducerI) op

/-- The payload of a fill confirmation. -/
def fillPayload (order : ApprovedOrder) (fill : FillResult) : PyVal :=
  .dict [("ams_decision_id", order.amsDecisionId), ("instrument", .str order.instrument),
    ("side", .str order.side), ("requested_units", .float order.units),
    ("filled_units", .float fill.filledUnits), ("realized_status", .str fill.realizedStatus),
    ("broker_order_id", optionalText fill.brokerOrderId),
    ("broker_trade_id", optionalText fill.brokerTradeId),
    ("requested_price", floatField fill.requestedPrice),
    ("fill_price", floatField fill.fillPrice), ("fill_time", fill.fillTime),
    ("slippage_pips", floatField fill.slippagePips),
    ("stop_loss_price", floatField fill.stopLossPrice),
    ("take_profit_price", floatField fill.takeProfitPrice),
    ("reject_reason", fill.rejectReason), ("model_set_id", optionalText fill.modelSetId)]

/-- `build_message`. -/
def buildMessage (order : ApprovedOrder) (fill : FillResult) : Proc ProducerI Exc PyVal :=
  if !validRealizedStatus.contains fill.realizedStatus then
    .raise ⟨.builtin .valueError,
      [.lit "invalid realized_status ", .repr (.str fill.realizedStatus)]⟩
  else do
    let messageId ← perform .uuid4
    let createdAt ← perform .utcNowIso
    return makeEnvelope messageId createdAt (fillPayload order fill) order.idempotencyKey
      order.correlationId (some order.granularity) (some "fill_confirmation")

/-- One outbox message: publish and ack; when either fails, nack. The answer says
whether it was delivered. -/
def deliver (p : FillProducer) (msg : ReceivedMessage) : Proc ProducerI Exc Bool := do
  let attempt := do
    let _ ← perform (.queuePublish p.inboundTopic msg.body)
    perform (.outboxAck msg)
  match ← attempt.attempt with
  | .ok _ => return true
  | .error _ => do
      -- the log line reads a field of the body, which is an object in the outbox
      let _ ← Proc.ofExcept (Exc.lift (msg.body.getAttrGet "correlation_id"))
      let _ ← perform (.outboxNack msg .zero)
      return false

/-- The loop over one outbox batch: how many were delivered. -/
def deliverBatch (p : FillProducer) : List ReceivedMessage → Proc ProducerI Exc ℕ
  | [] => .ret 0
  | msg :: rest => do
      let delivered ← deliver p msg
      let more ← deliverBatch p rest
      return (if delivered then 1 else 0) + more

/-- `flush`: rounds go on while the outbox has messages and some were delivered. -/
def flush (p : FillProducer) : ℕ → Proc ProducerI Exc ℕ
  | 0 => .ret 0
  | rounds + 1 => do
      let batch ← perform (.outboxPull p.outboxTopic 10)
      if batch.isEmpty then return 0
      else
        let delivered ← deliverBatch p batch
        if delivered = 0 then return 0
        else
          let more ← flush p rounds
          return delivered + more

/-- `publish_fill`: durable first, then delivery. -/
def publishFill (p : FillProducer) (rounds : ℕ) (order : ApprovedOrder) (fill : FillResult) :
    Proc ProducerI Exc PyVal := do
  let msg ← buildMessage order fill
  let _ ← perform (.outboxPublish p.outboxTopic msg)
  let _ ← flush p rounds
  return msg

/-- `emit_control`: a control event takes the same way. -/
def emitControl (p : FillProducer) (rounds : ℕ) (eventType : String) (payload : Dict)
    (correlationId : String) : Proc ProducerI Exc PyVal := do
  let messageId ← perform .uuid4
  let createdAt ← perform .utcNowIso
  let msg := makeEnvelope messageId createdAt (.dict payload)
    ("control:" ++ eventType ++ ":" ++ (payload.getOr "reason" (.str "")).toStr) correlationId
    none (some eventType)
  let _ ← perform (.outboxPublish p.outboxTopic msg)
  let _ ← flush p rounds
  return msg

/-- `_emit_fill` of the composition root: a failed registration is only logged. -/
def emitFill (p : FillProducer) (rounds : ℕ) (order : ApprovedOrder) (c : ConstructedOrder)
    (fill : FillResult) : Proc ProducerI Exc Unit := do
  let _ ← publishFill p rounds order fill
  let _ ← (perform (.registerTrade order c fill)).attempt
  return ()

/-! ### What is written -/

/-- A call of the delivery: it takes from the outbox and publishes to the queue. -/
def Delivers : ProducerCall → Prop
  | .outboxPull _ _ | .outboxAck _ | .outboxNack _ _ | .queuePublish _ _ => True
  | _ => False

/-- A call of the delivery of a batch that was taken. -/
def Settles : ProducerCall → Prop
  | .outboxAck _ | .outboxNack _ _ | .queuePublish _ _ => True
  | _ => False

theorem Settles.delivers {op : ProducerCall} (h : Settles op) : Delivers op := by
  cases op with
  | outboxAck msg => trivial
  | outboxNack msg backoffSec => trivial
  | queuePublish topic body => trivial
  | _ => exact h.elim

theorem deliverBatch_settles (p : FillProducer) (batch : List ReceivedMessage) :
    (p.deliverBatch batch).Only Settles := by
  induction batch with
  | nil => exact trivial
  | cons msg rest ih =>
      refine Proc.Along.bind ?_ fun delivered => ih.bind fun _ => trivial
      refine ((Proc.along_perform trivial).bind fun _ => Proc.along_perform trivial).attempt.bind
        fun r => ?_
      cases r with
      | ok _ => exact trivial
      | error e =>
          exact (Proc.along_ofExcept _).bind fun _ => (Proc.along_perform trivial).bind fun _ => trivial

theorem flush_delivers (p : FillProducer) (rounds : ℕ) : (p.flush rounds).Only Delivers := by
  induction rounds with
  | zero => exact trivial
  | succ rounds ih =>
      refine (Proc.along_perform trivial).bind fun batch => ?_
      split_ifs
      · exact trivial
      · refine ((deliverBatch_settles p batch).mono fun _ => Settles.delivers).bind fun delivered => ?_
        split_ifs
        · exact trivial
        · exact ih.bind fun _ => trivial

/-- `publish_fill` writes the envelope of the fill and delivers. -/
theorem only_publishFill {P : ProducerCall → Prop} {p : FillProducer} {rounds : ℕ}
    {order : ApprovedOrder} {fill : FillResult} (hid : P .uuid4) (htime : P .utcNowIso)
    (hwrite : ∀ messageId createdAt, P (.outboxPublish p.outboxTopic
      (makeEnvelope messageId createdAt (fillPayload order fill) order.idempotencyKey
        order.correlationId (some order.granularity) (some "fill_confirmation"))))
    (hdeliver : ∀ op, Delivers op → P op) : (p.publishFill rounds order fill).Only P := by
  unfold publishFill buildMessage
  split_ifs
  · exact trivial
  · simp only [Proc.bind_eq, Proc.bind_assoc, Proc.pure_eq, Proc.ret_bind]
    exact (Proc.along_perform hid).bind fun messageId =>
      (Proc.along_perform htime).bind fun createdAt =>
        (Proc.along_perform (hwrite messageId createdAt)).bind fun _ =>
          ((flush_delivers p rounds).mono hdeliver).bind fun _ => trivial

end FillProducer

end System2
