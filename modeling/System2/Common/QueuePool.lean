import System2.Common.HandleFencing
import System2.Common.LeaseIds
import System2.Foundation.Sharing

/-!
# Backends that share a queue file

Any number of instances publish, pull and settle on one file, statement by statement, and
each may die between two of its statements. What an instance does next depends on its own
statements alone, and keeps to a protocol: a lease takes the id that was just drawn, a
row is given back by the key that the last `SELECT` of the instance read, and a handle is
dead-lettered after its copy was filed.
-/

namespace System2
open Foundation

/-- The shared file, and the readings of its clock so far. -/
structure ClockedFile where
  file : QueueFile
  clocks : List Binary64

/-- Statements on the file, each at a reading of its clock. -/
def clockedWorld : World QueueI Exc ClockedFile := fun s op r s' =>
  (∃ dbNow a, r = .ok a ∧ op.answers dbNow s.file a ∧
    s' = ⟨⟨op.after dbNow s.file.table, op.draws a ++ s.file.drawn⟩, dbNow :: s.clocks⟩) ∨
  ((∃ e, r = .error e) ∧ s' = s)

/-- A file whose clock stands still, with the answer for the record of the recovered
subscriptions. -/
def clocked (first : Bool) (now : Binary64) (op : QueueCall) (s : ClockedFile) :
    Except Exc op.Ans × ClockedFile :=
  match op with
  | .firstPull _ => (.ok first, ⟨s.file, now :: s.clocks⟩)
  | op =>
      match stillAnswer now s.file op with
      | .ok a => (.ok a, ⟨⟨op.after now s.file.table, op.draws a ++ s.file.drawn⟩, now :: s.clocks⟩)
      | .error e => (.error e, s)

theorem clocked_step (first : Bool) (now : Binary64) (op : QueueCall) (s : ClockedFile) :
    clockedWorld s op (clocked first now op s).1 (clocked first now op s).2 := by
  unfold clocked
  split
  · exact Or.inl ⟨now, first, rfl, trivial, rfl⟩
  · cases h : stillAnswer now s.file op with
    | ok a => exact Or.inl ⟨now, a, rfl, stillAnswer_answers h, rfl⟩
    | error e => exact Or.inr ⟨⟨e, rfl⟩, rfl⟩

abbrev QueueEvent := Event QueueI Exc

/-- What was done on a queue file, by whom and when. -/
abbrev QueueLog (ι : Type) := List (Happened ι QueueI Exc ClockedFile)

/-! ### What a record of statements says -/

/-- Row `seq` was leased under an id. -/
def LeasedIn (t : List QueueEvent) (seq : ℕ) (ackId : String) : Prop :=
  ∃ owner leaseSec, ⟨.lease seq ackId owner leaseSec, .ok true⟩ ∈ t

/-- Row `seq` of a topic was selected for delivery with this body. -/
def OfferedIn (t : List QueueEvent) (topic : String) (seq : ℕ) (body : RowBody) : Prop :=
  ∃ now limit picks attempts, ⟨.selectAvailable topic now limit, .ok picks⟩ ∈ t ∧
    ⟨seq, body, attempts⟩ ∈ (picks : List Picked)

/-- The handle of a leased row: it has the topic and the body that the row was selected with. -/
def HandleIn (t : List QueueEvent) (msg : ReceivedMessage) : Prop :=
  ∃ seq, LeasedIn t seq msg.ackId ∧ OfferedIn t msg.topic seq (.json msg.body)

/-- Is this the `SELECT` of a reclaim or of a nack? -/
def isPick (e : QueueEvent) : Bool :=
  match e.1 with
  | .selectOrphans _ _ => true
  | .selectAckId _ => true
  | _ => false

/-- The last `SELECT` of a reclaim or of a nack. -/
def lastPick (t : List QueueEvent) : Option QueueEvent := (t.filter isPick).getLast?

@[simp] theorem lastPick_concat (t : List QueueEvent) (e : QueueEvent) :
    lastPick (t ++ [e]) = if isPick e then some e else lastPick t := by
  unfold lastPick
  rw [List.filter_append]
  by_cases he : isPick e = true
  · simp [he]
  · simp [he]

variable {ι : Type}

/-- The protocol of a backend. -/
def queueProtocol : Protocol ι QueueI Exc ClockedFile := fun log t op =>
  match op with
  | .lease _ ackId _ _ => t.getLast? = some ⟨.uuid4, .ok ackId⟩
  | .selectOrphans subscription (some _) => ⟨.firstPull subscription, .ok true⟩ ∈ t
  | .reclaim seq => ∃ subscription notOwner picks,
      lastPick t = some ⟨.selectOrphans subscription notOwner, .ok picks⟩ ∧
        seq ∈ (picks : List Picked).map Picked.seq
  | .release seq _ => ∃ ackId pick, lastPick t = some ⟨.selectAckId ackId, .ok (some pick)⟩ ∧
      pick.seq = seq
  | .setDead ackId => ∃ msg, HandleIn (log.map Happened.event) msg ∧ msg.ackId = ackId ∧
      ∃ reason timestamp, ⟨.insert (msg.topic ++ ".dlq")
        (LocalDurableBackend.dlqBody msg.body reason timestamp msg.attempts), .ok ()⟩ ∈ t
  | _ => True

/-- What a process on the file may start: a publish, a pull, or the settlement of a handle that
some pull gave out. -/
inductive Caller : ι → QueueLog ι → Proc QueueI Exc Unit → Prop
  | publish {i log topic body} : Caller i log (LocalDurableBackend.publish topic body)
  | pull {i log b subscription maxMessages} : Caller i log
      ((LocalDurableBackend.pull b subscription maxMessages).bind fun _ => .ret ())
  | settle {i log b msg how} (h : HandleIn (log.map Happened.event) msg) :
      Caller i log (LocalDurableBackend.settleWith b msg how)

theorem LeasedIn.append {t : List QueueEvent} {seq : ℕ} {ackId : String}
    (h : LeasedIn t seq ackId) (t' : List QueueEvent) : LeasedIn (t ++ t') seq ackId := by
  obtain ⟨owner, leaseSec, hmem⟩ := h
  exact ⟨owner, leaseSec, List.mem_append_left _ hmem⟩

theorem OfferedIn.append {t : List QueueEvent} {topic : String} {seq : ℕ} {body : RowBody}
    (h : OfferedIn t topic seq body) (t' : List QueueEvent) :
    OfferedIn (t ++ t') topic seq body := by
  obtain ⟨now, limit, picks, attempts, hmem, hpick⟩ := h
  exact ⟨now, limit, picks, attempts, List.mem_append_left _ hmem, hpick⟩

theorem HandleIn.append {t : List QueueEvent} {msg : ReceivedMessage} (h : HandleIn t msg)
    (t' : List QueueEvent) : HandleIn (t ++ t') msg := by
  obtain ⟨seq, hleased, hoffered⟩ := h
  exact ⟨seq, hleased.append t', hoffered.append t'⟩

theorem queueProtocol_monotone : (queueProtocol (ι := ι)).Monotone := by
  intro log log' t op h
  cases op with
  | setDead ackId =>
      obtain ⟨msg, hmsg, hid, reason, timestamp, hmem⟩ := h
      refine ⟨msg, ?_, hid, reason, timestamp, hmem⟩
      rw [List.map_append]
      exact hmsg.append _
  | selectOrphans subscription notOwner =>
      cases notOwner with
      | none => exact trivial
      | some owner => exact h
  | _ => exact h

/-! ### The procedures follow the protocol -/

namespace LocalDurableBackend

variable {log : QueueLog ι} {t : List QueueEvent} {b : LocalDurableBackend}
  {subscription : String} {msg : ReceivedMessage}

/-- Every orphan that is still to be handled was read by the last `SELECT`. -/
def Orphaned (t : List QueueEvent) (orphans : List Picked) : Prop :=
  ∃ subscription notOwner picks,
    lastPick t = some ⟨.selectOrphans subscription notOwner, .ok picks⟩ ∧
      ∀ orphan ∈ orphans, orphan.seq ∈ (picks : List Picked).map Picked.seq

theorem wpc_reclaimRow_follows {orphan : Picked} (hkept : queueProtocol.Kept log t)
    (horphan : Orphaned t [orphan]) :
    wpc World.free (queueProtocol.Kept log) (b.reclaimRow subscription orphan)
      (fun _ t' => lastPick t' = lastPick t) t := by
  unfold reclaimRow
  split_ifs
  · refine Protocol.wpc_allowed_bind hkept trivial ?_ fun e => by simp [isPick]
    intro claimed hkept₁
    split_ifs
    · refine Protocol.wpc_allowed_bind hkept₁ trivial ?_ fun e => by
        simp only [lastPick_concat, isPick, Bool.false_eq_true, if_false]
      intro timestamp hkept₂
      refine Protocol.wpc_allowed hkept₂ trivial fun r => ?_
      simp only [lastPick_concat, isPick, Bool.false_eq_true, if_false]
    · exact ⟨hkept₁, by simp [isPick]⟩
  · obtain ⟨topic, notOwner, picks, hlast, hmem⟩ := horphan
    refine Protocol.wpc_allowed hkept ?_ fun r => by simp [isPick]
    exact ⟨topic, notOwner, picks, hlast, hmem orphan List.mem_cons_self⟩

theorem wpc_reclaimRows_follows {orphans : List Picked} (hkept : queueProtocol.Kept log t)
    (horphans : Orphaned t orphans) :
    wpc World.free (queueProtocol.Kept log) (b.reclaimRows subscription orphans)
      (fun _ _ => True) t := by
  induction orphans generalizing t with
  | nil => exact ⟨hkept, trivial⟩
  | cons orphan rest ih =>
      obtain ⟨topic, notOwner, picks, hlast, hmem⟩ := horphans
      have hhead : Orphaned t [orphan] := ⟨topic, notOwner, picks, hlast, fun o ho =>
        hmem o (List.mem_singleton.mp ho ▸ List.mem_cons_self)⟩
      refine wpc_seq (wpc_reclaimRow_follows hkept hhead) ?_ fun _ _ _ _ => trivial
      intro _ t₁ hkept₁ hsame
      exact ih hkept₁ ⟨topic, notOwner, picks, hsame.trans hlast, fun o ho =>
        hmem o (List.mem_cons_of_mem _ ho)⟩

theorem wpc_reclaim_follows (hkept : queueProtocol.Kept log t) :
    wpc World.free (queueProtocol.Kept log) (b.reclaim subscription) (fun _ _ => True) t := by
  refine Protocol.wpc_allowed_bind hkept trivial ?_ fun _ => trivial
  intro firstPull hkept₁
  refine Protocol.wpc_allowed_bind hkept₁ ?_ ?_ fun _ => trivial
  · cases firstPull with
    | true => exact List.mem_append_right _ (List.mem_singleton_self _)
    | false => exact trivial
  · intro orphans hkept₂
    refine wpc_seq (wpc_reclaimRows_follows hkept₂ ⟨subscription, _, orphans, ?_, ?_⟩) ?_
      fun _ _ _ _ => trivial
    · simp only [lastPick_concat, isPick, if_true]
    · exact fun orphan horphan => List.mem_map_of_mem horphan
    · exact fun _ t₃ hkept₃ _ => ⟨hkept₃, trivial⟩

/-- What a pull hands out are handles of the rows that it leased, under every protocol that allows
to draw an id and to lease under the id that was just drawn. -/
theorem wpc_leaseRows_handles {P : Protocol ι QueueI Exc ClockedFile} (hdraw : ∀ t, P log t .uuid4)
    (hlease : ∀ t seq ackId owner leaseSec, t.getLast? = some ⟨.uuid4, .ok ackId⟩ →
      P log t (.lease seq ackId owner leaseSec))
    {rows : List Picked} (hkept : P.Kept log t)
    (hrows : ∀ row ∈ rows, OfferedIn t subscription row.seq row.body) :
    wpc World.free (P.Kept log) (b.leaseRows subscription rows)
      (fun r t' => (∃ s, t' = t ++ s) ∧ ∀ msgs, r = .ok msgs → ∀ msg ∈ msgs,
        HandleIn t' msg ∧ msg.topic = subscription) t := by
  induction rows generalizing t with
  | nil =>
      refine ⟨hkept, ⟨[], (List.append_nil t).symm⟩, ?_⟩
      rintro msgs ⟨⟩ msg hmsg
      exact nomatch hmsg
  | cons row rest ih =>
      refine Protocol.wpc_allowed_bind hkept (hdraw t) ?_ fun e => ⟨⟨_, rfl⟩, fun _ h => nomatch h⟩
      intro ackId hkept₁
      refine Protocol.wpc_allowed_bind hkept₁ (hlease _ _ _ _ _ List.getLast?_concat) ?_ fun e =>
        ⟨⟨_, List.append_assoc _ _ _⟩, fun _ h => nomatch h⟩
      intro claimed hkept₂
      have hlater : ∀ r ∈ rest, OfferedIn ((t ++ [⟨.uuid4, .ok ackId⟩]) ++
          [⟨.lease row.seq ackId b.owner b.leaseSec, .ok claimed⟩]) subscription r.seq r.body :=
        fun r hr => ((hrows r (List.mem_cons_of_mem _ hr)).append _).append _
      have hgrows : ∀ s, ∃ s', ((t ++ [⟨.uuid4, .ok ackId⟩]) ++
          [⟨.lease row.seq ackId b.owner b.leaseSec, .ok claimed⟩]) ++ s = t ++ s' := fun s =>
        ⟨_, by rw [List.append_assoc, List.append_assoc]⟩
      split_ifs with hclaimed
      · cases hloads : row.body.loads with
        | error e => exact ⟨hkept₂, ⟨_, List.append_assoc _ _ _⟩, fun _ h => nomatch h⟩
        | ok body =>
            refine wpc_seq (p := b.leaseRows subscription rest) (ih hkept₂ hlater) ?_ ?_
            · rintro msgs _ hkept₃ ⟨⟨s, rfl⟩, hmsgs⟩
              refine ⟨hkept₃, hgrows s, ?_⟩
              rintro out ⟨⟩ msg hmsg
              rcases List.mem_cons.mp hmsg with rfl | hmsg
              · have hjson : row.body = .json body := by
                  cases hbody : row.body with
                  | json v => simpa [hbody, RowBody.loads] using hloads
                  | text raw => simp [hbody, RowBody.loads] at hloads
                refine ⟨HandleIn.append ⟨row.seq, ⟨b.owner, b.leaseSec, ?_⟩, ?_⟩ s, rfl⟩
                · rw [hclaimed]
                  exact List.mem_append_right _ (List.mem_singleton_self _)
                · exact hjson ▸ ((hrows row List.mem_cons_self).append _).append _
              · exact hmsgs msgs rfl msg hmsg
            · rintro e _ - ⟨⟨s, rfl⟩, -⟩
              exact ⟨hgrows s, fun _ h => nomatch h⟩
      · refine wpc_post (ih hkept₂ hlater) ?_
        rintro r _ - ⟨⟨s, rfl⟩, hmsgs⟩
        exact ⟨hgrows s, hmsgs⟩

theorem wpc_leaseRows_follows {rows : List Picked} (hkept : queueProtocol.Kept log t)
    (hrows : ∀ row ∈ rows, OfferedIn t subscription row.seq row.body) :
    wpc World.free (queueProtocol.Kept log) (b.leaseRows subscription rows)
      (fun r t' => (∃ s, t' = t ++ s) ∧ ∀ msgs, r = .ok msgs → ∀ msg ∈ msgs, HandleIn t' msg) t := by
  refine wpc_post (wpc_leaseRows_handles (fun _ => trivial) (fun _ _ _ _ _ h => h) hkept hrows) ?_
  rintro r t' - ⟨hgrow, hmsgs⟩
  exact ⟨hgrow, fun msgs hr msg hmsg => (hmsgs msgs hr msg hmsg).1⟩

theorem wpc_pull_follows {maxMessages : ℤ} (hkept : queueProtocol.Kept log t) :
    wpc World.free (queueProtocol.Kept log) (b.pull subscription maxMessages)
      (fun r t' => ∀ msgs, r = .ok msgs → ∀ msg ∈ msgs, HandleIn t' msg) t := by
  refine wpc_seq (wpc_reclaim_follows hkept) ?_ fun _ _ _ _ _ h => nomatch h
  rintro - t₁ hkept₁ -
  refine Protocol.wpc_allowed_bind hkept₁ trivial ?_ fun _ _ h => nomatch h
  intro now hkept₂
  refine Protocol.wpc_allowed_bind hkept₂ trivial ?_ fun _ _ h => nomatch h
  intro rows hkept₃
  refine wpc_post (wpc_leaseRows_follows hkept₃ fun row hrow => ?_) fun _ _ _ h => h.2
  exact ⟨now, maxMessages, rows, row.attempts,
    List.mem_append_right _ (List.mem_singleton_self _), hrow⟩

theorem wpc_toDlq_follows {reason : FString} (hkept : queueProtocol.Kept log t)
    (hmsg : HandleIn (log.map Happened.event) msg) :
    wpc World.free (queueProtocol.Kept log) (toDlq msg reason) (fun _ _ => True) t := by
  refine Protocol.wpc_allowed_bind hkept trivial ?_ fun _ => trivial
  intro timestamp hkept₁
  refine Protocol.wpc_allowed_bind hkept₁ trivial ?_ fun _ => trivial
  intro _ hkept₂
  refine Protocol.wpc_allowed hkept₂ ⟨msg, hmsg, rfl, reason, timestamp, ?_⟩ fun _ => trivial
  exact List.mem_append_right _ (List.mem_singleton_self _)

theorem wpc_nack_follows {backoffSec : Binary64} (hkept : queueProtocol.Kept log t)
    (hmsg : HandleIn (log.map Happened.event) msg) :
    wpc World.free (queueProtocol.Kept log) (b.nack msg backoffSec) (fun _ _ => True) t := by
  refine Protocol.wpc_allowed_bind hkept trivial ?_ fun _ => trivial
  intro picked hkept₁
  cases picked with
  | none => exact ⟨hkept₁, trivial⟩
  | some pick =>
      simp only
      split_ifs
      · exact wpc_toDlq_follows hkept₁ hmsg
      · refine Protocol.wpc_allowed_bind hkept₁ trivial ?_ fun _ => trivial
        intro now hkept₂
        refine Protocol.wpc_allowed hkept₂ ⟨msg.ackId, pick, ?_, rfl⟩ fun _ => trivial
        simp only [lastPick_concat, isPick, Bool.false_eq_true, if_false, if_true]

end LocalDurableBackend

theorem Caller.follows {i : ι} {log : QueueLog ι} {p : Proc QueueI Exc Unit}
    {t : List QueueEvent} (h : Caller i log p) (hkept : queueProtocol.Kept log t) :
    queueProtocol.Follows log p t := by
  cases h with
  | publish => exact Protocol.wpc_allowed hkept trivial fun _ => trivial
  | pull =>
      refine wpc_seq (LocalDurableBackend.wpc_pull_follows hkept) ?_ fun _ _ _ _ => trivial
      exact fun _ t' hkept' _ => ⟨hkept', trivial⟩
  | @settle b msg how hmsg =>
      cases how with
      | ack => exact Protocol.wpc_allowed hkept trivial fun _ => trivial
      | nack backoffSec => exact LocalDurableBackend.wpc_nack_follows hkept hmsg
      | toDlq reason => exact LocalDurableBackend.wpc_toDlq_follows hkept hmsg

/-- In every run each statement keeps to the protocol. -/
theorem queueHistory [DecidableEq ι] {s₀ : ClockedFile} {pool : Pool ι QueueI Exc ClockedFile}
    (reaches : Pool.Reaches clockedWorld Caller (.idle s₀) pool) :
    History clockedWorld queueProtocol s₀ pool.log pool.shared :=
  reaches.history queueProtocol_monotone fun _ _ _ _ => Caller.follows

/-! ### The ids of a log -/

section Ids

variable [DecidableEq ι] {s₀ s s' : ClockedFile} {log : QueueLog ι} {op : QueueCall}
  {r : Except Exc op.Ans}

theorem leasedIn_concat_iff {t : List QueueEvent} {e : QueueEvent} {seq : ℕ} {ackId : String} :
    LeasedIn (t ++ [e]) seq ackId ↔
      LeasedIn t seq ackId ∨ ∃ owner leaseSec, e = ⟨.lease seq ackId owner leaseSec, .ok true⟩ := by
  simp only [LeasedIn, List.mem_append, List.mem_singleton, eq_comm, exists_or]

/-- What the log says of the ids on the rows: each was drawn for one lease of one row, and an id
that an instance has just drawn is not used yet. -/
structure LeaseRecord (log : QueueLog ι) (s : ClockedFile) : Prop where
  drawn : ∀ ackId, ⟨.uuid4, .ok ackId⟩ ∈ log.map Happened.event → ackId ∈ s.file.drawn
  spare : ∀ i ackId, (own i log).getLast? = some ⟨.uuid4, .ok ackId⟩ →
    (∀ seq, ¬ LeasedIn (log.map Happened.event) seq ackId) ∧
      ∀ j, (own j log).getLast? = some ⟨.uuid4, .ok ackId⟩ → j = i
  leased : ∀ seq ackId, LeasedIn (log.map Happened.event) seq ackId → ackId ∈ s.file.drawn
  once : ∀ seq seq' ackId, LeasedIn (log.map Happened.event) seq ackId →
    LeasedIn (log.map Happened.event) seq' ackId → seq = seq'
  rows : ∀ q row ackId, s.file.table.get? q = some row → row.ackId = some ackId →
    LeasedIn (log.map Happened.event) q ackId

omit [DecidableEq ι] in
theorem drawn_grow (step : clockedWorld s op r s') : ∀ id ∈ s.file.drawn, id ∈ s'.file.drawn := by
  rcases step with ⟨dbNow, a, -, -, rfl⟩ | ⟨-, rfl⟩
  · exact fun id hid => List.mem_append_right _ hid
  · exact fun id hid => hid

/-- A row has an id that it had before, or that it has just been leased under. -/
theorem ackId_before (step : clockedWorld s op r s') {q : ℕ} {row' : QueueRow} {ackId : String}
    (hrow' : s'.file.table.get? q = some row') (hid : row'.ackId = some ackId) :
    (∃ row, s.file.table.get? q = some row ∧ row.ackId = some ackId) ∨
    ∃ owner leaseSec, (⟨op, r⟩ : QueueEvent) = ⟨.lease q ackId owner leaseSec, .ok true⟩ := by
  rcases step with ⟨dbNow, a, rfl, hanswers, rfl⟩ | ⟨-, rfl⟩
  swap
  · exact Or.inl ⟨row', hrow', hid⟩
  rcases QueueCall.of_after hrow' with ⟨row, hrow, hleft⟩ | ⟨topic, body, rfl, -, rfl⟩
  swap
  · cases hid
  cases hleft with
  | @leased id owner leaseSec hready =>
      obtain rfl : id = ackId := Option.some.inj hid
      refine Or.inr ⟨owner, leaseSec, ?_⟩
      rw [show a = QueueTable.isIn s.file.table q .ready from hanswers]
      simp [QueueTable.isIn, hrow, hready]
  | reclaimed => cases hid
  | released => cases hid
  | kept => exact Or.inl ⟨row', hrow, hid⟩
  | claimed => exact Or.inl ⟨row, hrow, hid⟩
  | done => exact Or.inl ⟨row, hrow, hid⟩
  | dead => exact Or.inl ⟨row, hrow, hid⟩

/-- What an instance called stands in the log. -/
theorem mem_events_of_own {i : ι} {e : QueueEvent} (h : e ∈ own i log) :
    e ∈ log.map Happened.event := by
  obtain ⟨happened, hmem, -, rfl⟩ := mem_own_iff.mp h
  exact List.mem_map_of_mem hmem

/-- A lease takes the id that its instance has just drawn. -/
def DrawsFirst (t : List QueueEvent) (op : QueueCall) : Prop :=
  ∀ seq ackId owner leaseSec, op = .lease seq ackId owner leaseSec →
    t.getLast? = some ⟨.uuid4, .ok ackId⟩

theorem LeaseRecord.step {i : ι} (h : LeaseRecord log s) (hop : DrawsFirst (own i log) op)
    (step : clockedWorld s op r s') : LeaseRecord (log ++ [⟨i, op, r, s, s'⟩]) s' := by
  have hself := own_concat_self log ⟨i, op, r, s, s'⟩
  have hother : ∀ j, i ≠ j → own j (log ++ [⟨i, op, r, s, s'⟩]) = own j log := fun j hj =>
    own_concat_other log hj
  have hevents : List.map Happened.event (log ++ [⟨i, op, r, s, s'⟩]) =
      log.map Happened.event ++ [⟨op, r⟩] := List.map_append
  -- an id that is drawn now was not drawn before
  have hfresh : ∀ ackId, (⟨op, r⟩ : QueueEvent) = ⟨.uuid4, .ok ackId⟩ → ackId ∉ s.file.drawn := by
    intro ackId heq
    obtain ⟨rfl, hr⟩ := Sigma.mk.inj heq
    obtain rfl := eq_of_heq hr
    rcases step with ⟨dbNow, a, ha, hanswers, -⟩ | ⟨⟨e, he⟩, -⟩
    · exact Except.ok.inj ha ▸ hanswers
    · exact nomatch he
  -- an id that is leased now is the one that the instance drew last
  have hlast : ∀ seq ackId owner leaseSec,
      (⟨op, r⟩ : QueueEvent) = ⟨.lease seq ackId owner leaseSec, .ok true⟩ →
        (own i log).getLast? = some ⟨.uuid4, .ok ackId⟩ := by
    intro seq ackId owner leaseSec heq
    obtain ⟨rfl, -⟩ := Sigma.mk.inj heq
    exact hop seq ackId owner leaseSec rfl
  refine ⟨fun ackId hmem => ?_, fun j ackId hdrew => ?_, fun seq ackId hleased => ?_,
    fun seq seq' ackId hleased hleased' => ?_, fun q row' ackId hrow' hid => ?_⟩
  · rw [hevents, List.mem_append, List.mem_singleton] at hmem
    rcases hmem with hold | hnow
    · exact drawn_grow step ackId (h.drawn ackId hold)
    · obtain ⟨rfl, hr⟩ := Sigma.mk.inj hnow.symm
      obtain rfl := eq_of_heq hr
      rcases step with ⟨dbNow, a, ha, -, rfl⟩ | ⟨⟨e, he⟩, -⟩
      · rw [← Except.ok.inj ha]
        exact List.mem_cons_self
      · exact nomatch he
  · rw [hevents]
    by_cases hj : i = j
    · subst hj
      rw [hself, List.getLast?_concat, Option.some.injEq] at hdrew
      have hnew := hfresh ackId hdrew
      refine ⟨fun seq hleased => ?_, fun k hk => ?_⟩
      · rcases leasedIn_concat_iff.mp hleased with hold | ⟨owner, leaseSec, heq⟩
        · exact hnew (h.leased seq ackId hold)
        · exact nomatch heq.symm.trans hdrew
      · by_contra hne
        rw [hother k fun heq => hne heq.symm] at hk
        exact hnew (h.drawn ackId (mem_events_of_own (List.mem_of_getLast? hk)))
    · rw [hother j hj] at hdrew
      obtain ⟨hunleased, hunique⟩ := h.spare j ackId hdrew
      refine ⟨fun seq hleased => ?_, fun k hk => ?_⟩
      · rcases leasedIn_concat_iff.mp hleased with hold | ⟨owner, leaseSec, heq⟩
        · exact hunleased seq hold
        · exact hj (hunique i (hlast seq ackId owner leaseSec heq))
      · by_cases hki : i = k
        · subst hki
          rw [hself, List.getLast?_concat, Option.some.injEq] at hk
          exact absurd (h.drawn ackId (mem_events_of_own (List.mem_of_getLast? hdrew))) (hfresh ackId hk)
        · rw [hother k hki] at hk
          exact hunique k hk
  · rw [hevents] at hleased
    rcases leasedIn_concat_iff.mp hleased with hold | ⟨owner, leaseSec, heq⟩
    · exact drawn_grow step ackId (h.leased seq ackId hold)
    · have hdrew := hlast seq ackId owner leaseSec heq
      exact drawn_grow step ackId (h.drawn ackId (mem_events_of_own (List.mem_of_getLast? hdrew)))
  · rw [hevents] at hleased hleased'
    rcases leasedIn_concat_iff.mp hleased with hold | ⟨owner, leaseSec, heq⟩
    · rcases leasedIn_concat_iff.mp hleased' with hold' | ⟨owner', leaseSec', heq'⟩
      · exact h.once seq seq' ackId hold hold'
      · exact absurd hold ((h.spare i ackId (hlast _ _ _ _ heq')).1 seq)
    · rcases leasedIn_concat_iff.mp hleased' with hold' | ⟨owner', leaseSec', heq'⟩
      · exact absurd hold' ((h.spare i ackId (hlast _ _ _ _ heq)).1 seq')
      · have hsame := (Sigma.mk.inj (heq.symm.trans heq')).1
        exact (QueueCall.lease.inj hsame).1
  · rw [hevents]
    rcases ackId_before step hrow' hid with ⟨row, hrow, hidrow⟩ | ⟨owner, leaseSec, heq⟩
    · exact (h.rows q row ackId hrow hidrow).append _
    · exact leasedIn_concat_iff.mpr (Or.inr ⟨owner, leaseSec, heq⟩)

/-- A log that starts with an empty file accounts for every id on a row, under every protocol that
draws the id of a lease first. -/
theorem leaseRecord_of {P : Protocol ι QueueI Exc ClockedFile}
    (hP : ∀ log t op, P log t op → DrawsFirst t op)
    (history : History clockedWorld P ⟨⟨.empty, []⟩, []⟩ log s) : LeaseRecord log s := by
  induction history with
  | start =>
      have hnone : ∀ seq ackId, ¬ LeasedIn [] seq ackId := by
        rintro seq ackId ⟨owner, leaseSec, hmem⟩
        exact nomatch hmem
      refine ⟨fun ackId hmem => ?_, fun i ackId hdrew => ?_, fun seq ackId hleased => ?_,
        fun seq seq' ackId hleased => ?_, fun q row ackId hrow => ?_⟩
      · exact nomatch hmem
      · exact nomatch hdrew
      · exact absurd hleased (hnone seq ackId)
      · exact absurd hleased (hnone seq ackId)
      · exact nomatch hrow
  | call _ hop step ih => exact ih.step (hP _ _ _ hop) step

theorem leaseRecord (history : History clockedWorld queueProtocol ⟨⟨.empty, []⟩, []⟩ log s) :
    LeaseRecord log s := by
  refine leaseRecord_of ?_ history
  rintro log t _ hop seq ackId owner leaseSec rfl
  exact hop

end Ids

/-! ### A message on its way -/

namespace LocalDurableBackend

def pulling (maxAttempts : ℤ) (owner : String) : Proc QueueI Exc Unit :=
  (pull ⟨maxAttempts, .ofRat 10, owner⟩ "orders" 1).bind fun _ => .ret ()

/-- A moment when the first lease has run out. -/
def later : Binary64 := .ofRat 20

/-- A published message that instance 1 has leased. -/
def leasedByOne (maxAttempts : ℤ) : Pool ℕ QueueI Exc ClockedFile :=
  (((Pool.idle ⟨⟨.empty, []⟩, []⟩).starting 0 (publish "orders" .null)).calls
    (clocked false .zero) 0 1 |>.starting 1 (pulling maxAttempts "one")).calls
      (clocked false .zero) 1 6

theorem reaches_leasedByOne (maxAttempts : ℤ) :
    Pool.Reaches clockedWorld Caller (.idle ⟨⟨.empty, []⟩, []⟩) (leasedByOne maxAttempts) := by
  refine .calls (clocked_step false .zero) 6 (.starting ?_ rfl .pull)
  exact .calls (clocked_step false .zero) 1 (.starting .refl rfl .publish)

end LocalDurableBackend

end System2
