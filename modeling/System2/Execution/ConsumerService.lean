import System2.Execution.MessageVerdict
import System2.Execution.FillProducer
import System2.Common.ParkedRow

/-!
# The consumer as a service

`build_from_secrets` (`execution/lifecycle.py`) gives the consumer a durable local
queue and a fill producer. Their calls take the place of the consumer's hooks here.
Other components work on the same queue file at any time, and the process may die
between any two calls.
-/

namespace System2
open Foundation

/-- The calls of the service: the consumer's own, the fill producer's and the queue's. -/
inductive ServiceCall
  | consumer (call : ConsumerCall FillResult)
  | producer (call : ProducerCall)
  | queue (call : QueueCall)

abbrev ServiceCall.Ans : ServiceCall → Type
  | .consumer call => call.Ans
  | .producer call => call.Ans
  | .queue call => call.Ans

abbrev ServiceI : Interface := ⟨ServiceCall, ServiceCall.Ans⟩

/-- A process of the service: the consumer, its instance of the queue, its fill producer and
how many rounds a flush of the outbox makes. -/
structure ConsumerService where
  consumer : Consumer
  backend : LocalDurableBackend
  producer : FillProducer
  rounds : ℕ

namespace ConsumerService

abbrev perform (op : ServiceCall) : Proc ServiceI Exc op.Ans := Proc.perform (I := ServiceI) op

/-- A method of the queue inside the service. -/
def onQueue {α : Type} (p : Proc QueueI Exc α) : Proc ServiceI Exc α :=
  p.interp fun call => perform (.queue call)

/-- The fill producer publishes to the same queue; its outbox and its clock are calls. -/
def wireProducer : (op : ProducerCall) → Proc ServiceI Exc op.Ans
  | .queuePublish topic body => onQueue (LocalDurableBackend.publish topic body)
  | .uuid4 => perform (.producer .uuid4)
  | .utcNowIso => perform (.producer .utcNowIso)
  | .outboxPublish topic body => perform (.producer (.outboxPublish topic body))
  | .outboxPull topic n => perform (.producer (.outboxPull topic n))
  | .outboxAck msg => perform (.producer (.outboxAck msg))
  | .outboxNack msg backoffSec => perform (.producer (.outboxNack msg backoffSec))
  | .registerTrade order c fill => perform (.producer (.registerTrade order c fill))

/-- The consumer's calls as `build_from_secrets` wires them. -/
def wire (svc : ConsumerService) : (op : ConsumerCall FillResult) → Proc ServiceI Exc op.Ans
  | .pull subscription n => onQueue (svc.backend.pull subscription n)
  | .ack msg => onQueue (LocalDurableBackend.ack msg)
  | .nack msg backoffSec => onQueue (svc.backend.nack msg backoffSec)
  | .toDlq msg reason => onQueue (LocalDurableBackend.toDlq msg reason)
  | .emitFn order c fill => (svc.producer.emitFill svc.rounds order c fill).interp wireProducer
  | .clock => perform (.consumer .clock)
  | .setLastPollAt t => perform (.consumer (.setLastPollAt t))
  | .setLastMessageAt t => perform (.consumer (.setLastMessageAt t))
  | .setLastMessageCreatedAt t => perform (.consumer (.setLastMessageCreatedAt t))
  | .countMessage => perform (.consumer .countMessage)
  | .heartbeatFn sentAt => perform (.consumer (.heartbeatFn sentAt))
  | .submitGateFn => perform (.consumer .submitGateFn)
  | .priceFn order => perform (.consumer (.priceFn order))
  | .openInstrumentsFn => perform (.consumer .openInstrumentsFn)
  | .pipeline call => perform (.consumer (.pipeline call))

/-- `poll_once` of the service. -/
def pollOnce (svc : ConsumerService) : Proc ServiceI Exc Stats :=
  svc.consumer.pollOnce.interp svc.wire

/-- `_handle` of the service. -/
def handle (svc : ConsumerService) (msg : ReceivedMessage) (now : Moment) :
    Proc ServiceI Exc Outcome :=
  (svc.consumer.handle msg now).interp svc.wire

/-- The start of a poll: the time and the batch, none when the pull fails. -/
def fetch (svc : ConsumerService) : Proc ServiceI Exc (Moment × Option (List ReceivedMessage)) :=
  Proc.interp svc.wire do
    let now ← Consumer.perform (F := FillResult) .clock
    let _ ← Consumer.perform (.setLastPollAt now)
    let batch ← (Consumer.perform (.pull svc.consumer.subscription svc.consumer.prefetch)).attempt
    return (now, batch.toOption)

/-- A poll fetches a batch and handles it. -/
theorem pollOnce_eq (svc : ConsumerService) : svc.pollOnce = svc.fetch.bind fun x =>
    match x.2 with
    | none => .ret [("pull_error", 1)]
    | some batch => (svc.consumer.handleBatch x.1 batch []).interp svc.wire := by
  simp only [pollOnce, Consumer.pollOnce, fetch, Proc.bind_eq, Proc.interp_bind, Proc.bind_assoc]
  congr 1
  funext now
  congr 1
  funext _
  congr 1
  funext batch
  cases batch with
  | ok batch => rfl
  | error e => rfl

end ConsumerService

/-- What outlives a process: the queue file, the processed store, and the bodies that were
written to the fill outbox. -/
structure ServiceState where
  file : QueueFile
  store : List String
  outbox : List PyVal

/-- The service's calls: the queue and the store as they are, an outbox that keeps what a
successful write gave it, and anything from the rest. -/
def serviceWorld (subscription : String) : World ServiceI Exc ServiceState := fun s op r s' =>
  match op with
  | .queue call => sharedWorld subscription s.file call r s'.file ∧ s'.store = s.store ∧
      s'.outbox = s.outbox
  | .consumer (.pipeline (.seen key)) => (∀ b, r = .ok b → b = decide (key ∈ s.store)) ∧
      Elsewhere subscription s.file s'.file ∧ s'.store = s.store ∧ s'.outbox = s.outbox
  | .consumer (.pipeline (.mark key)) => ((∃ e, r = .error e) ∧ s'.store = s.store ∨
        s'.store = key :: s.store) ∧
      Elsewhere subscription s.file s'.file ∧ s'.outbox = s.outbox
  | .producer (.outboxPublish _ body) => (s'.outbox = match r with
        | .ok _ => s.outbox ++ [body]
        | .error _ => s.outbox) ∧ Elsewhere subscription s.file s'.file ∧ s'.store = s.store
  | _ => Elsewhere subscription s.file s'.file ∧ s'.store = s.store ∧ s'.outbox = s.outbox

namespace ConsumerService

variable {svc : ConsumerService} {subscription : String} {s s' : ServiceState} {op : ServiceCall}
  {r : Except Exc op.Ans}

/-- No call takes a key out of the store. -/
theorem store_grows (step : serviceWorld subscription s op r s') : ∀ g ∈ s.store, g ∈ s'.store := by
  intro g hg
  cases op with
  | queue call => exact step.2.1 ▸ hg
  | producer call =>
      cases call with
      | outboxPublish topic body => exact step.2.2 ▸ hg
      | _ => exact step.2.1 ▸ hg
  | consumer call =>
      cases call with
      | pipeline call =>
          cases call with
          | seen key => exact step.2.2.1 ▸ hg
          | mark key =>
              rcases step.1 with ⟨-, hsame⟩ | hmarked
              · exact hsame ▸ hg
              · exact hmarked ▸ List.mem_cons_of_mem _ hg
          | _ => exact step.2.1 ▸ hg
      | _ => exact step.2.1 ▸ hg

/-! ### The calls that submit nothing -/

def isSubmit : ServiceCall → Bool
  | .consumer call => call.isSubmit
  | _ => false

theorem onQueue_quiet {α : Type} (p : Proc QueueI Exc α) :
    (onQueue p).Only fun o => isSubmit o = false :=
  Proc.Only.interp (Proc.only_true p) fun _ _ => Proc.along_perform rfl

theorem wireProducer_quiet (op : ProducerCall) :
    (wireProducer op).Only fun o => isSubmit o = false := by
  cases op with
  | queuePublish topic body => exact onQueue_quiet _
  | _ => exact Proc.along_perform rfl

theorem wire_quiet {op : ConsumerCall FillResult} (hop : op.isSubmit = false) :
    (svc.wire op).Only fun o => isSubmit o = false := by
  cases op with
  | pull subscription n => exact onQueue_quiet _
  | ack msg => exact onQueue_quiet _
  | nack msg backoffSec => exact onQueue_quiet _
  | toDlq msg reason => exact onQueue_quiet _
  | emitFn order c fill =>
      exact Proc.Only.interp (Proc.only_true _) fun op _ => wireProducer_quiet op
  | pipeline call =>
      cases call with
      | submit c => cases hop
      | _ => exact Proc.along_perform rfl
  | _ => exact Proc.along_perform rfl

end ConsumerService

end System2
