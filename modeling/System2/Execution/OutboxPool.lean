import System2.Common.DeadLetters
import System2.Execution.CloseTracker
import System2.Foundation.Beside

/-!
# Producers that share an outbox file

Fill producers and close emitters, in one process or in several, use one durable queue as
their outbox. Each of their methods is a sequence of statements on that file, between calls
of other things: the queue downstream, the close ledger, clocks. A process may die between
any two of them.

A producer marks a row done only under the handle of a message that it was handed and that it
has published, a row is dead-lettered only when its attempts were seen to be used up, and what is
written are objects.
-/

namespace System2
open Foundation

/-- The statements on the outbox file, and beside them the other calls of the producers. -/
abbrev OutboxI : Interface := QueueI.beside CloseI

abbrev OutboxEvent := Event OutboxI Exc

/-- What was done on the outbox file and beside it, by whom and when. -/
abbrev OutboxLog (ι : Type) := List (Happened ι OutboxI Exc ClockedFile)

/-- The tracker's calls, with a durable queue for its outbox. -/
def wireFile (b : LocalDurableBackend) : (op : CloseCall) → Proc OutboxI Exc op.Ans
  | .publisher (.outboxPublish topic body) => (LocalDurableBackend.publish topic body).onLeft
  | .publisher (.outboxPull topic n) => (b.pull topic n).onLeft
  | .publisher (.outboxAck msg) => (LocalDurableBackend.ack msg).onLeft
  | .publisher (.outboxNack msg backoffSec) => (b.nack msg backoffSec).onLeft
  | op => Proc.perform (I := OutboxI) (.inr op)

/-- The producer's calls, with a durable queue for its outbox. -/
def wireProducer (b : LocalDurableBackend) (call : ProducerCall) : Proc OutboxI Exc call.Ans :=
  wireFile b (.publisher call)

variable {ι : Type}

/-- Objects are written, and a row is dead-lettered only when a `SELECT` of the instance has read
as many attempts. -/
def drainProtocol (limit : ℤ) : Protocol ι QueueI Exc ClockedFile := fun _ t op =>
  match op with
  | .insert _ body => ∃ d, body = .json (.dict d)
  | .lease _ ackId _ _ => t.getLast? = some ⟨.uuid4, .ok ackId⟩
  | .claimDead seq => ∃ subscription notOwner picks,
      ⟨.selectOrphans subscription notOwner, .ok picks⟩ ∈ t ∧
        ∃ pick ∈ (picks : List Picked), pick.seq = seq ∧ limit ≤ pick.attempts
  | .setDead ackId => ∃ pick, ⟨.selectAckId ackId, .ok (some pick)⟩ ∈ t ∧ limit ≤ pick.attempts
  | _ => True

/-- The message was published by a producer of its topic. -/
def Sent (producers : FillProducer → Prop) (t : List OutboxEvent) (topic : String)
    (body : PyVal) : Prop :=
  ∃ p, producers p ∧ p.outboxTopic = topic ∧
    ⟨.inr (.publisher (.queuePublish p.inboundTopic body)), .ok ()⟩ ∈ t

/-- An ack is one of a message that was handed over and has been published. -/
def AcksSent (producers : FillProducer → Prop) (t : List OutboxEvent) (op : QueueCall) : Prop :=
  ∀ ackId, op = .setDone ackId → ∃ msg, HandleIn (leftEvents t) msg ∧ msg.ackId = ackId ∧
    Sent producers t msg.topic msg.body

/-- The protocol of a producer on its outbox. -/
def outboxProtocol (producers : FillProducer → Prop) (limit : ℤ) :
    Protocol ι OutboxI Exc ClockedFile := (drainProtocol limit).beside (AcksSent producers)

theorem drainProtocol_monotone (limit : ℤ) : (drainProtocol (ι := ι) limit).Monotone :=
  fun _ _ _ _ h => h

theorem drainProtocol_drawsFirst (limit : ℤ) (log : QueueLog ι) (t : List QueueEvent)
    (op : QueueCall) (h : drainProtocol limit log t op) : DrawsFirst t op := by
  rintro seq ackId owner leaseSec rfl
  exact h

/-! ### The statements of the queue -/

/-- Any statement but the one of an ack. -/
def NoAck (op : QueueCall) : Prop := ∀ ackId, op ≠ .setDone ackId

theorem NoAck.acksSent {producers : FillProducer → Prop} {t : List OutboxEvent} {op : QueueCall}
    (h : NoAck op) : AcksSent producers t op := fun ackId heq => absurd heq (h ackId)

namespace LocalDurableBackend

variable {limit : ℤ} {log : QueueLog ι} {t : List QueueEvent} {b : LocalDurableBackend}
  {subscription : String} {msg : ReceivedMessage}

theorem noAck_perform {op : QueueCall} (h : NoAck op) : (perform op).Only NoAck :=
  Proc.along_perform h

theorem reclaim_noAck : (b.reclaim subscription).Only NoAck := by
  refine only_reclaim.mono fun op hop => ?_
  rintro ackId rfl
  exact hop.elim

theorem leaseRows_noAck (rows : List Picked) : (b.leaseRows subscription rows).Only NoAck := by
  induction rows with
  | nil => trivial
  | cons row rest ih =>
      refine Proc.Along.bind (noAck_perform (by simp [NoAck])) fun _ => ?_
      refine Proc.Along.bind (noAck_perform (by simp [NoAck])) fun claimed => ?_
      split_ifs
      · exact Proc.Along.bind (Proc.along_ofExcept _) fun _ => ih.bind fun _ => trivial
      · exact ih

theorem pull_noAck {maxMessages : ℤ} : (b.pull subscription maxMessages).Only NoAck := by
  refine Proc.Along.bind reclaim_noAck fun _ => ?_
  refine Proc.Along.bind (noAck_perform (by simp [NoAck])) fun _ => ?_
  exact Proc.Along.bind (noAck_perform (by simp [NoAck])) leaseRows_noAck

theorem nack_noAck {backoffSec : Binary64} : (b.nack msg backoffSec).Only NoAck := by
  refine Proc.Along.bind (noAck_perform (by simp [NoAck])) fun picked => ?_
  cases picked with
  | none => trivial
  | some pick =>
      simp only
      split_ifs
      · refine Proc.Along.bind (noAck_perform (by simp [NoAck])) fun _ => ?_
        exact Proc.Along.bind (noAck_perform (by simp [NoAck])) fun _ =>
          noAck_perform (by simp [NoAck])
      · exact Proc.Along.bind (noAck_perform (by simp [NoAck])) fun _ =>
          noAck_perform (by simp [NoAck])

/-- Every orphan that is still to be handled was selected, with its attempts. -/
def Selected (t : List QueueEvent) (orphans : List Picked) : Prop :=
  ∀ orphan ∈ orphans, ∃ subscription notOwner picks,
    ⟨.selectOrphans subscription notOwner, .ok picks⟩ ∈ t ∧ orphan ∈ (picks : List Picked)

theorem Selected.append {orphans : List Picked} (h : Selected t orphans) (t' : List QueueEvent) :
    Selected (t ++ t') orphans := by
  intro orphan horphan
  obtain ⟨subscription, notOwner, picks, hmem, hpick⟩ := h orphan horphan
  exact ⟨subscription, notOwner, picks, List.mem_append_left _ hmem, hpick⟩

theorem wpc_reclaimRow_drains (hb : limit ≤ b.maxAttempts) {orphan : Picked} {rest : List Picked}
    (hkept : (drainProtocol limit).Kept log t) (horphans : Selected t (orphan :: rest)) :
    wpc World.free ((drainProtocol limit).Kept log) (b.reclaimRow subscription orphan)
      (fun _ t' => Selected t' rest) t := by
  have hrest : Selected t rest := fun o ho => horphans o (List.mem_cons_of_mem _ ho)
  unfold reclaimRow
  split_ifs with hexhausted
  · have hused : limit ≤ orphan.attempts := hb.trans (by simpa [exhausted] using hexhausted)
    obtain ⟨topic, notOwner, picks, hmem, hpick⟩ := horphans orphan List.mem_cons_self
    refine Protocol.wpc_allowed_bind hkept ⟨topic, notOwner, picks, hmem, orphan, hpick, rfl, hused⟩
      ?_ fun e => hrest.append _
    intro claimed hkept₁
    split_ifs
    · refine Protocol.wpc_allowed_bind hkept₁ trivial ?_ fun e => (hrest.append _).append _
      intro timestamp hkept₂
      exact Protocol.wpc_allowed hkept₂ ⟨_, rfl⟩ fun r => ((hrest.append _).append _).append _
    · exact ⟨hkept₁, hrest.append _⟩
  · exact Protocol.wpc_allowed hkept trivial fun r => hrest.append _

theorem wpc_reclaimRows_drains (hb : limit ≤ b.maxAttempts) {orphans : List Picked}
    (hkept : (drainProtocol limit).Kept log t) (horphans : Selected t orphans) :
    wpc World.free ((drainProtocol limit).Kept log) (b.reclaimRows subscription orphans)
      (fun _ _ => True) t := by
  induction orphans generalizing t with
  | nil => exact ⟨hkept, trivial⟩
  | cons orphan rest ih =>
      refine wpc_seq (wpc_reclaimRow_drains hb hkept horphans) ?_ fun _ _ _ _ => trivial
      exact fun _ t₁ hkept₁ hrest => ih hkept₁ hrest

theorem wpc_reclaim_drains (hb : limit ≤ b.maxAttempts) (hkept : (drainProtocol limit).Kept log t) :
    wpc World.free ((drainProtocol limit).Kept log) (b.reclaim subscription) (fun _ _ => True) t := by
  refine Protocol.wpc_allowed_bind hkept trivial ?_ fun _ => trivial
  intro firstPull hkept₁
  refine Protocol.wpc_allowed_bind hkept₁ trivial ?_ fun _ => trivial
  intro orphans hkept₂
  refine wpc_seq (wpc_reclaimRows_drains hb hkept₂ fun orphan horphan => ?_) ?_
    fun _ _ _ _ => trivial
  · exact ⟨_, _, orphans, List.mem_append_right _ (List.mem_singleton_self _), horphan⟩
  · exact fun _ t₃ hkept₃ _ => ⟨hkept₃, trivial⟩

theorem wpc_pull_drains (hb : limit ≤ b.maxAttempts) {maxMessages : ℤ}
    (hkept : (drainProtocol limit).Kept log t) :
    wpc World.free ((drainProtocol limit).Kept log) (b.pull subscription maxMessages)
      (fun r t' => ∀ msgs, r = .ok msgs → ∀ msg ∈ msgs,
        HandleIn t' msg ∧ msg.topic = subscription) t := by
  refine wpc_seq (wpc_reclaim_drains hb hkept) ?_ fun _ _ _ _ _ h => by cases h
  rintro - t₁ hkept₁ -
  refine Protocol.wpc_allowed_bind hkept₁ trivial ?_ fun _ _ h => by cases h
  intro now hkept₂
  refine Protocol.wpc_allowed_bind hkept₂ trivial ?_ fun _ _ h => by cases h
  intro rows hkept₃
  refine wpc_post (wpc_leaseRows_handles (fun _ => trivial) (fun _ _ _ _ _ h => h) hkept₃
    fun row hrow => ?_) fun _ _ _ h => h.2
  exact ⟨now, maxMessages, rows, row.attempts,
    List.mem_append_right _ (List.mem_singleton_self _), hrow⟩

theorem wpc_nack_drains (hb : limit ≤ b.maxAttempts) {backoffSec : Binary64}
    (hkept : (drainProtocol limit).Kept log t) :
    wpc World.free ((drainProtocol limit).Kept log) (b.nack msg backoffSec) (fun _ _ => True) t := by
  refine Protocol.wpc_allowed_bind hkept trivial ?_ fun _ => trivial
  intro picked hkept₁
  cases picked with
  | none => exact ⟨hkept₁, trivial⟩
  | some pick =>
      simp only
      split_ifs with hexhausted
      · have hused : limit ≤ pick.attempts := hb.trans (by simpa [exhausted] using hexhausted)
        refine Protocol.wpc_allowed_bind hkept₁ trivial ?_ fun _ => trivial
        intro timestamp hkept₂
        refine Protocol.wpc_allowed_bind hkept₂ ⟨_, rfl⟩ ?_ fun _ => trivial
        intro _ hkept₃
        refine Protocol.wpc_allowed hkept₃ ⟨pick, ?_, hused⟩ fun _ => trivial
        simp
      · refine Protocol.wpc_allowed_bind hkept₁ trivial ?_ fun _ => trivial
        intro now hkept₂
        exact Protocol.wpc_allowed hkept₂ trivial fun _ => trivial

end LocalDurableBackend

/-! ### The methods of the producers -/

section Producers

variable {producers : FillProducer → Prop} {limit : ℤ} {log : OutboxLog ι} {t : List OutboxEvent}
  {b : LocalDurableBackend} {p : FillProducer} {em : CloseEmitter}

/-- Statements without an ack, between other calls. -/
theorem wpc_statements {α : Type} {q : Proc QueueI Exc α}
    {R : Except Exc α → List QueueEvent → Prop} (hq : q.Only NoAck)
    (h : ∀ s, (drainProtocol limit).Kept (leftLog log) s →
      wpc World.free ((drainProtocol limit).Kept (leftLog log)) q R s)
    (hkept : (outboxProtocol producers limit).Kept log t) :
    wpc World.free ((outboxProtocol producers limit).Kept log) (q.onLeft : Proc OutboxI Exc α)
      (fun r t' => R r (leftEvents t') ∧ ∃ u, t' = t ++ u) t :=
  wpc_onLeft hq (fun _ _ hop => hop.acksSent) (h _ hkept.left) hkept

/-- The record of a producer that keeps to the protocol. -/
abbrev Drains (producers : FillProducer → Prop) (limit : ℤ) {α : Type}
    (q : Proc OutboxI Exc α) : Prop :=
  ∀ (ι : Type) (log : OutboxLog ι), Maintains World.free
    ((outboxProtocol producers limit).Kept log) ((outboxProtocol producers limit).Kept log) q

theorem drains_beside (op : CloseCall) :
    Drains producers limit (Proc.perform (I := OutboxI) (ε := Exc) (.inr op)) := by
  intro ι log t hkept
  apply wpc_of_perform hkept
  rintro r _ rfl
  have hkept' : (outboxProtocol producers limit).Kept log (t ++ [⟨.inr op, r⟩]) :=
    Protocol.kept_concat_iff.mpr ⟨hkept, trivial⟩
  exact ⟨hkept', hkept'⟩

theorem drains_publish (topic : String) (d : Dict) :
    Drains producers limit (wireFile b (.publisher (.outboxPublish topic (.dict d)))) := by
  intro ι log t hkept
  have hinsert : (LocalDurableBackend.publish topic (.dict d)).Only NoAck :=
    LocalDurableBackend.noAck_perform (by simp [NoAck])
  refine wpc_mono (wpc_statements (R := fun _ _ => True) hinsert (fun s hs => ?_) hkept)
    (fun _ h => h) fun _ _ h _ => h
  exact Protocol.wpc_allowed hs ⟨d, rfl⟩ fun _ => trivial

/-- A message that was handed over is published and then acked, or given back. -/
theorem wpc_deliver (hb : limit ≤ b.maxAttempts) (hp : producers p) {msg : ReceivedMessage}
    (hmsg : HandleIn (leftEvents t) msg) (htopic : msg.topic = p.outboxTopic)
    (hkept : (outboxProtocol producers limit).Kept log t) :
    wpc World.free ((outboxProtocol producers limit).Kept log)
      ((p.deliver msg).interp (wireProducer b)) (fun _ t' => ∃ u, t' = t ++ u) t := by
  unfold FillProducer.deliver
  simp only [Proc.bind_eq, Proc.interp_bind, Proc.interp_attempt]
  refine wpc_seq_attempt (R := fun _ t' => ∃ u, t' = t ++ u) ?_ ?_
  · rw [Proc.interp_perform]
    refine wpc_seq (Protocol.wpc_allowed (Q := fun r t' => t' = t ++
      [⟨.inr (.publisher (.queuePublish p.inboundTopic msg.body)), r⟩]) hkept trivial fun _ => rfl)
      ?_ ?_
    · rintro _ _ hkept₁ rfl
      rw [Proc.interp_perform]
      have hack : wireProducer b (.outboxAck msg) =
          Proc.perform (I := OutboxI) (.inl (.setDone msg.ackId)) :=
        Proc.onLeft_perform (I := QueueI) (J := CloseI) (.setDone msg.ackId)
      rw [hack]
      refine Protocol.wpc_allowed hkept₁ ⟨trivial, ?_⟩ fun r => ⟨_, List.append_assoc _ _ _⟩
      rintro ackId ⟨⟩
      refine ⟨msg, ?_, rfl, p, hp, htopic.symm, List.mem_append_right _ (List.mem_singleton_self _)⟩
      rw [leftEvents_append]
      exact hmsg.append _
    · rintro e _ - rfl
      exact ⟨_, rfl⟩
  · rintro r _ hkept₁ ⟨u, rfl⟩
    cases r with
    | ok _ => exact ⟨hkept₁, u, rfl⟩
    | error e =>
        simp only [Proc.interp_bind, Proc.interp_ofExcept]
        refine wpc_seq (R := fun _ t' => t' = t ++ u) ((wpc_ofExcept _ _ _).mpr ⟨hkept₁, rfl⟩) ?_ ?_
        · rintro body _ hkept₂ rfl
          rw [Proc.interp_perform]
          refine wpc_seq (wpc_statements (R := fun _ _ => True) LocalDurableBackend.nack_noAck
            (fun s hs => LocalDurableBackend.wpc_nack_drains hb hs) hkept₂) ?_ ?_
          · rintro _ _ hkept₃ ⟨-, v, rfl⟩
            exact ⟨hkept₃, u ++ v, List.append_assoc _ _ _⟩
          · rintro e' _ - ⟨-, v, rfl⟩
            exact ⟨u ++ v, List.append_assoc _ _ _⟩
        · rintro e' _ - rfl
          exact ⟨u, rfl⟩

theorem wpc_deliverBatch (hb : limit ≤ b.maxAttempts) (hp : producers p)
    {batch : List ReceivedMessage}
    (hbatch : ∀ msg ∈ batch, HandleIn (leftEvents t) msg ∧ msg.topic = p.outboxTopic)
    (hkept : (outboxProtocol producers limit).Kept log t) :
    wpc World.free ((outboxProtocol producers limit).Kept log)
      ((p.deliverBatch batch).interp (wireProducer b))
      (fun _ t' => (outboxProtocol producers limit).Kept log t') t := by
  induction batch generalizing t with
  | nil => exact ⟨hkept, hkept⟩
  | cons msg rest ih =>
      obtain ⟨hmsg, htopic⟩ := hbatch msg List.mem_cons_self
      simp only [FillProducer.deliverBatch, Proc.bind_eq, Proc.interp_bind]
      refine wpc_seq (R := fun _ t' => (outboxProtocol producers limit).Kept log t' ∧
        ∃ u, t' = t ++ u) (wpc_post (wpc_deliver hb hp hmsg htopic hkept) fun _ _ h hu => ⟨h, hu⟩)
        ?_ fun _ _ _ h => h.1
      rintro delivered _ hkept₁ ⟨-, u, rfl⟩
      refine wpc_seq (ih (fun m hm => ?_) hkept₁) (fun _ _ h _ => ⟨h, h⟩) fun _ _ h _ => h
      obtain ⟨hhandle, htopic'⟩ := hbatch m (List.mem_cons_of_mem _ hm)
      rw [leftEvents_append]
      exact ⟨hhandle.append _, htopic'⟩

theorem drains_flush (hb : limit ≤ b.maxAttempts) (hp : producers p) (rounds : ℕ) :
    Drains producers limit ((p.flush rounds).interp (wireProducer b)) := by
  intro ι log
  induction rounds with
  | zero => exact maintains_ret (fun _ h => h) 0
  | succ rounds ih =>
      intro t hkept
      simp only [FillProducer.flush, Proc.bind_eq, Proc.interp_bind]
      rw [Proc.interp_perform]
      refine wpc_seq (wpc_statements LocalDurableBackend.pull_noAck
        (fun s hs => LocalDurableBackend.wpc_pull_drains hb hs) hkept) ?_ fun _ _ h _ => h
      rintro batch _ hkept₁ ⟨hbatch, u, rfl⟩
      split_ifs
      · exact ⟨hkept₁, hkept₁⟩
      · rw [Proc.interp_bind]
        refine wpc_seq (wpc_deliverBatch hb hp (hbatch batch rfl) hkept₁) ?_ fun _ _ h _ => h
        rintro delivered t₂ hkept₂ -
        split_ifs
        · exact ⟨hkept₂, hkept₂⟩
        · rw [Proc.interp_bind]
          exact Maintains.bind ih (fun more => maintains_ret (fun _ h => h) _) t₂ hkept₂

/-- Any call but the three of a delivery that act on rows which are there; what is written is an
object. -/
def CloseCall.Plain : CloseCall → Prop
  | .publisher (.outboxPublish _ body) => ∃ d, body = .dict d
  | .publisher (.outboxPull _ _) => False
  | .publisher (.outboxAck _) => False
  | .publisher (.outboxNack _ _) => False
  | _ => True

theorem drains_plain (op : CloseCall) (h : op.Plain) : Drains producers limit (wireFile b op) := by
  cases op with
  | publisher call =>
      cases call with
      | outboxPublish topic body =>
          obtain ⟨d, rfl⟩ := h
          exact drains_publish topic d
      | outboxPull topic n => exact h.elim
      | outboxAck msg => exact h.elim
      | outboxNack msg backoffSec => exact h.elim
      | _ => exact drains_beside _
  | _ => exact drains_beside _

theorem drains_of_only {α : Type} {q : Proc CloseI Exc α} (hq : q.Only CloseCall.Plain) :
    Drains producers limit (q.interp (wireFile b)) := by
  intro ι log t hkept
  refine wpc_interp_of_along (fun op s hop hs => ?_) hq hkept
  exact wpc_post (drains_plain op hop ι log s hs) fun _ _ _ h => ⟨trivial, h⟩

/-- The producer of an emitter is wired like any other. -/
theorem interp_wireProducer {α : Type} (q : Proc ProducerI Exc α) :
    (q.interp fun call => CloseTracker.perform (.publisher call)).interp (wireFile b) =
      q.interp (wireProducer b) := by
  rw [Proc.interp_interp]
  congr 1
  funext call
  exact Proc.interp_perform _ _

theorem drains_of_only_producer {α : Type} {q : Proc ProducerI Exc α}
    (hq : q.Only fun call => (CloseCall.publisher call).Plain) :
    Drains producers limit (q.interp (wireProducer b)) := by
  rw [← interp_wireProducer]
  exact drains_of_only (Proc.Only.interp hq fun _ hop => Proc.along_perform hop)

theorem Drains.bind {α β : Type} {q : Proc OutboxI Exc α} {f : α → Proc OutboxI Exc β}
    (hq : Drains producers limit q) (hf : ∀ a, Drains producers limit (f a)) :
    Drains producers limit (q.bind f) := fun ι log => (hq ι log).bind fun a => hf a ι log

theorem Drains.attempt {α : Type} {q : Proc OutboxI Exc α} (hq : Drains producers limit q) :
    Drains producers limit q.attempt := fun ι log => (hq ι log).attempt

theorem drains_ret {α : Type} (a : α) : Drains producers limit (.ret a : Proc OutboxI Exc α) :=
  fun _ _ => maintains_ret (fun _ h => h) a

/-- A message is written first; then what the outbox holds is delivered. -/
theorem drains_write_flush (hb : limit ≤ b.maxAttempts) (hp : producers p) (rounds : ℕ) (d : Dict) :
    Drains producers limit (((FillProducer.perform (.outboxPublish p.outboxTopic (.dict d))).bind
      fun _ => (p.flush rounds).bind fun _ => .ret (PyVal.dict d)).interp (wireProducer b)) := by
  rw [Proc.interp_bind, Proc.interp_perform]
  refine (drains_publish p.outboxTopic d).bind fun _ => ?_
  rw [Proc.interp_bind]
  exact (drains_flush hb hp rounds).bind fun _ => drains_ret _

theorem drains_publishFill (hb : limit ≤ b.maxAttempts) (hp : producers p) {rounds : ℕ}
    {order : ApprovedOrder} {fill : FillResult} :
    Drains producers limit ((p.publishFill rounds order fill).interp (wireProducer b)) := by
  unfold FillProducer.publishFill FillProducer.buildMessage
  split_ifs
  · exact fun ι log => maintains_ofExcept (fun _ h => h) (.error _)
  · simp only [Proc.bind_eq, Proc.bind_assoc, Proc.pure_eq, Proc.ret_bind]
    rw [Proc.interp_bind, Proc.interp_perform]
    refine Drains.bind (drains_plain (.publisher .uuid4) trivial) fun messageId => ?_
    rw [Proc.interp_bind, Proc.interp_perform]
    refine Drains.bind (drains_plain (.publisher .utcNowIso) trivial) fun createdAt => ?_
    exact drains_write_flush hb hp rounds _

theorem drains_emitControl (hb : limit ≤ b.maxAttempts) (hp : producers p) {rounds : ℕ}
    {eventType correlationId : String} {payload : Dict} : Drains producers limit
      ((p.emitControl rounds eventType payload correlationId).interp (wireProducer b)) := by
  rw [FillProducer.emitControl, Proc.bind_eq, Proc.interp_bind, Proc.interp_perform]
  refine Drains.bind (drains_plain (.publisher .uuid4) trivial) fun messageId => ?_
  rw [Proc.bind_eq, Proc.interp_bind, Proc.interp_perform]
  refine Drains.bind (drains_plain (.publisher .utcNowIso) trivial) fun createdAt => ?_
  exact drains_write_flush hb hp rounds _

theorem drains_emitFill (hb : limit ≤ b.maxAttempts) (hp : producers p) {rounds : ℕ}
    {order : ApprovedOrder} {c : ConstructedOrder} {fill : FillResult} :
    Drains producers limit ((p.emitFill rounds order c fill).interp (wireProducer b)) := by
  rw [FillProducer.emitFill, Proc.bind_eq, Proc.interp_bind]
  refine (drains_publishFill hb hp).bind fun _ => drains_of_only_producer ?_
  exact (Proc.along_perform trivial).attempt.bind fun _ => trivial

theorem drains_flushCloses (hb : limit ≤ b.maxAttempts) (hp : producers em.publisher) :
    Drains producers limit (em.flush.interp (wireFile b)) := by
  rw [CloseEmitter.flush, Proc.bind_eq, Proc.interp_bind, Proc.interp_attempt, interp_wireProducer]
  refine (drains_flush hb hp em.rounds).attempt.bind fun r => ?_
  cases r with
  | ok delivered => exact drains_ret delivered
  | error e => exact drains_ret 0

theorem buildCloseEvent_dict {t : ManagedTrade} {facts : CloseFacts}
    {exitReason eventTime : String} {event : PyVal}
    (h : buildCloseEvent t facts exitReason eventTime = .ok event) : ∃ d, event = .dict d := by
  unfold buildCloseEvent at h
  cases hunits : eventUnits t facts.units with
  | error e =>
      rw [hunits] at h
      cases h
  | ok units =>
      rw [hunits] at h
      exact ⟨_, (Except.ok.inj h).symm⟩

theorem drains_emit (hb : limit ≤ b.maxAttempts) (hp : producers em.publisher) {t : ManagedTrade}
    {facts : CloseFacts} {exitReason : String} :
    Drains producers limit ((em.emit t facts exitReason).interp (wireFile b)) := by
  have hrecord : (em.record t facts exitReason).Only CloseCall.Plain := by
    refine (Proc.along_perform trivial).bind fun seen => ?_
    split_ifs
    · trivial
    · refine (Proc.along_perform trivial).bind fun eventTime => ?_
      cases hbuild : buildCloseEvent t facts exitReason eventTime with
      | error e => trivial
      | ok event =>
          obtain ⟨d, rfl⟩ := buildCloseEvent_dict hbuild
          have hpublish : (CloseCall.publisher (.outboxPublish em.outboxTopic (.dict d))).Plain :=
            ⟨d, rfl⟩
          have hmark : (CloseCall.ledgerMark t.brokerTradeId).Plain := trivial
          refine Proc.along_perform_bind (I := CloseI) hpublish fun _ _ => ?_
          exact Proc.along_perform_bind (I := CloseI) hmark
            fun _ _ => trivial
  rw [CloseEmitter.emit, Proc.bind_eq, Proc.interp_bind, Proc.interp_attempt]
  refine (drains_of_only hrecord).attempt.bind fun r => ?_
  cases r with
  | error e => exact drains_ret false
  | ok written =>
      cases written with
      | false => exact drains_ret true
      | true =>
          show Drains producers limit ((em.flush.bind fun _ => .ret true).interp (wireFile b))
          rw [Proc.interp_bind]
          exact (drains_flushCloses hb hp).bind fun _ => drains_ret true

theorem drains_emitBrokerClose (hb : limit ≤ b.maxAttempts) (hp : producers em.publisher)
    {t : ManagedTrade} {resp : PyVal} {exitReason : String} :
    Drains producers limit ((em.emitBrokerClose t resp exitReason).interp (wireFile b)) := by
  unfold CloseEmitter.emitBrokerClose
  cases factsFromCloseResponse resp with
  | error e => exact drains_ret false
  | ok facts =>
      cases facts with
      | none => exact drains_ret false
      | some facts => exact drains_emit hb hp

/-- What a process on the outbox may start: a method of a fill producer or of a close emitter, on
a backend with at least so many attempts. -/
inductive OutboxUser (producers : FillProducer → Prop) (limit : ℤ) :
    ι → OutboxLog ι → Proc OutboxI Exc Unit → Prop
  | publishFill {i log p b rounds order fill} (hp : producers p) (hb : limit ≤ b.maxAttempts) :
      OutboxUser producers limit i log
        (((p.publishFill rounds order fill).interp (wireProducer b)).bind fun _ => .ret ())
  | emitControl {i log p b rounds eventType payload correlationId} (hp : producers p)
      (hb : limit ≤ b.maxAttempts) : OutboxUser producers limit i log
        (((p.emitControl rounds eventType payload correlationId).interp (wireProducer b)).bind
          fun _ => .ret ())
  | flush {i log p b rounds} (hp : producers p) (hb : limit ≤ b.maxAttempts) :
      OutboxUser producers limit i log
        (((p.flush rounds).interp (wireProducer b)).bind fun _ => .ret ())
  | emitFill {i log p b rounds order c fill} (hp : producers p) (hb : limit ≤ b.maxAttempts) :
      OutboxUser producers limit i log ((p.emitFill rounds order c fill).interp (wireProducer b))
  | emit {i log} {em : CloseEmitter} {b : LocalDurableBackend} {t facts exitReason}
      (hp : producers em.publisher) (hb : limit ≤ b.maxAttempts) : OutboxUser producers limit i log
        (((em.emit t facts exitReason).interp (wireFile b)).bind fun _ => .ret ())
  | emitBrokerClose {i log} {em : CloseEmitter} {b : LocalDurableBackend} {t resp exitReason}
      (hp : producers em.publisher) (hb : limit ≤ b.maxAttempts) : OutboxUser producers limit i log
        (((em.emitBrokerClose t resp exitReason).interp (wireFile b)).bind fun _ => .ret ())
  | flushCloses {i log} {em : CloseEmitter} {b : LocalDurableBackend}
      (hp : producers em.publisher) (hb : limit ≤ b.maxAttempts) : OutboxUser producers limit i log
        ((em.flush.interp (wireFile b)).bind fun _ => .ret ())

theorem OutboxUser.drains {i : ι} {q : Proc OutboxI Exc Unit}
    (h : OutboxUser producers limit i log q) : Drains producers limit q := by
  cases h with
  | publishFill hp hb => exact (drains_publishFill hb hp).bind fun _ => drains_ret ()
  | emitControl hp hb => exact (drains_emitControl hb hp).bind fun _ => drains_ret ()
  | flush hp hb => exact (drains_flush hb hp _).bind fun _ => drains_ret ()
  | emitFill hp hb => exact drains_emitFill hb hp
  | emit hp hb => exact (drains_emit hb hp).bind fun _ => drains_ret ()
  | emitBrokerClose hp hb => exact (drains_emitBrokerClose hb hp).bind fun _ => drains_ret ()
  | flushCloses hp hb => exact (drains_flushCloses hb hp).bind fun _ => drains_ret ()

/-- In every run of producers each call keeps to the protocol. -/
theorem outboxHistory [DecidableEq ι] {s₀ : ClockedFile} {pool : Pool ι OutboxI Exc ClockedFile}
    (reaches : Pool.Reaches (World.beside clockedWorld) (OutboxUser producers limit) (.idle s₀) pool) :
    History (World.beside clockedWorld) (outboxProtocol producers limit) s₀ pool.log pool.shared :=
  reaches.history (drainProtocol_monotone limit).beside fun _ log _ t huser hkept =>
    wpc_post (huser.drains _ log t hkept) fun _ _ _ _ => trivial

end Producers

/-- The outbox file with a clock that stands still, and a queue that takes every message. -/
def standing (op : OutboxI.Op) (s : ClockedFile) : Except Exc (OutboxI.Ans op) × ClockedFile :=
  match op with
  | .inl op => clocked true .zero op s
  | .inr (.publisher .uuid4) => (.ok "message-1", s)
  | .inr (.publisher .utcNowIso) => (.ok "1970-01-01T00:00:00Z", s)
  | .inr (.publisher (.queuePublish _ _)) => (.ok (), s)
  | .inr _ => (.error (.ofErr .valueError), s)

theorem standing_step (op : OutboxI.Op) (s : ClockedFile) :
    World.beside clockedWorld s op (standing op s).1 (standing op s).2 := by
  cases op with
  | inl op => exact clocked_step true .zero op s
  | inr op =>
      cases op with
      | publisher call => cases call <;> rfl
      | _ => rfl

end System2
