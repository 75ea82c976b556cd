import System2.Execution.OutboundConsumer
import System2.Foundation.Table

/-!
# The durable local queue (`common/queue_backend.py`)

One table holds every topic of the shared file. A pull first reclaims orphaned
rows, then leases ready ones; an ack, a nack or a dead-lettering finds its row by
the id that the lease gave it. Every SQL statement is one call, because another
process may act, and this one may die, between any two of them.
-/

namespace System2
open Foundation

inductive RowState
  | ready | inflight | done | dead
  deriving DecidableEq, Repr

/-- The stored text of a body: JSON, or a text that does not decode. -/
inductive RowBody
  | json (v : PyVal)
  | text (raw : String)

/-- `json.loads`. -/
def RowBody.loads : RowBody → Except Exc PyVal
  | .json v => .ok v
  | .text _ => .error (.ofErr .valueError)

/-- The body of a reclaimed row inside a dead letter: raw when it does not decode. -/
def RowBody.original : RowBody → PyVal
  | .json v => v
  | .text raw => .str raw

structure QueueRow where
  topic : String
  body : RowBody
  state : RowState
  attempts : ℕ
  availableAt : Binary64
  ackId : Option String
  leasedUntil : Binary64
  leaseOwner : Option String

namespace QueueRow

/-- A row as `INSERT` leaves it. -/
def inserted (topic : String) (body : RowBody) : QueueRow where
  topic := topic
  body := body
  state := .ready
  attempts := 0
  availableAt := .zero
  ackId := none
  leasedUntil := .zero
  leaseOwner := none

/-- A row given back: ready, and available from a moment on. -/
def released (availableAt : Binary64) (row : QueueRow) : QueueRow :=
  { row with
    state := .ready, ackId := none, leaseOwner := none, leasedUntil := .zero,
    availableAt := availableAt }

def withState (state : RowState) (row : QueueRow) : QueueRow := { row with state := state }

/-- A row given to an owner for a time. -/
def leased (ackId owner : String) (leasedUntil : Binary64) (row : QueueRow) : QueueRow :=
  { row with
    state := .inflight, ackId := some ackId, attempts := row.attempts + 1,
    leaseOwner := some owner, leasedUntil := leasedUntil }

end QueueRow

/-- What a `SELECT seq, body, attempts` gives of a row. -/
structure Picked where
  seq : ℕ
  body : RowBody
  attempts : ℕ

/-- The calls of a backend: its clock, fresh ids and time stamps, the record of the
subscriptions it has recovered, and one call for each SQL statement. -/
inductive QueueCall
  | time
  | uuid4
  | utcNowIso
  | firstPull (subscription : String)
  | insert (topic : String) (body : RowBody)
  | selectOrphans (subscription : String) (notOwner : Option String)
  | selectAvailable (subscription : String) (now : Binary64) (limit : ℤ)
  | selectAckId (ackId : String)
  | lease (seq : ℕ) (ackId owner : String) (leaseSec : Binary64)
  | reclaim (seq : ℕ)
  | claimDead (seq : ℕ)
  | setDone (ackId : String)
  | setDead (ackId : String)
  | release (seq : ℕ) (availableAt : Binary64)

abbrev QueueCall.Ans : QueueCall → Type
  | .time => Binary64
  | .uuid4 => String
  | .utcNowIso => String
  | .firstPull _ => Bool
  | .selectOrphans _ _ => List Picked
  | .selectAvailable _ _ _ => List Picked
  | .selectAckId _ => Option Picked
  | .lease _ _ _ _ => Bool
  | .claimDead _ => Bool
  | _ => Unit

abbrev QueueI : Interface := ⟨QueueCall, QueueCall.Ans⟩

/-- The settings of a `LocalDurableBackend`. -/
structure LocalDurableBackend where
  maxAttempts : ℤ
  leaseSec : Binary64
  owner : String

namespace LocalDurableBackend

abbrev perform (op : QueueCall) : Proc QueueI Exc op.Ans := Proc.perform (I := QueueI) op

/-- The body of a dead letter. -/
def dlqBody (original : PyVal) (reason : FString) (timestamp : String) (attempts : ℕ) : RowBody :=
  .json (.dict [("original", original), ("dlq_reason", .str reason.render),
    ("dlq_timestamp", .str timestamp), ("attempts", .int attempts)])

/-- `max_attempts` is used up. -/
def exhausted (b : LocalDurableBackend) (attempts : ℕ) : Bool := b.maxAttempts ≤ attempts

def maxAttemptsReason (b : LocalDurableBackend) (lead : String) : FString :=
  [.lit (lead ++ "max_attempts "), .val (.int b.maxAttempts), .lit " exceeded"]

/-- `publish`. -/
def publish (topic : String) (body : PyVal) : Proc QueueI Exc Unit :=
  perform (.insert topic (.json body))

/-- `_dead_letter_row`: the row is claimed first, and filed only when the claim won. -/
def deadLetterRow (orphan : Picked) (topic : String) (reason : FString) :
    Proc QueueI Exc Unit := do
  let claimed ← perform (.claimDead orphan.seq)
  if claimed then
    let timestamp ← perform .utcNowIso
    perform (.insert (topic ++ ".dlq")
      (dlqBody orphan.body.original reason timestamp orphan.attempts))
  else return ()

/-- One orphan: dead letters when its attempts are used up, else ready again at once. -/
def reclaimRow (b : LocalDurableBackend) (subscription : String) (orphan : Picked) :
    Proc QueueI Exc Unit :=
  if b.exhausted orphan.attempts then
    deadLetterRow orphan subscription (b.maxAttemptsReason "lease expired; ")
  else perform (.reclaim orphan.seq)

def reclaimRows (b : LocalDurableBackend) (subscription : String) :
    List Picked → Proc QueueI Exc Unit
  | [] => .ret ()
  | orphan :: rest => do
      let _ ← b.reclaimRow subscription orphan
      b.reclaimRows subscription rest

/-- `reclaim`: on the first pull of this instance also the leases of other owners. -/
def reclaim (b : LocalDurableBackend) (subscription : String) : Proc QueueI Exc ℕ := do
  let firstPull ← perform (.firstPull subscription)
  let orphans ← perform (.selectOrphans subscription (if firstPull then some b.owner else none))
  let _ ← b.reclaimRows subscription orphans
  return orphans.length

/-- A call of the recovery of expired leases. -/
def Reclaims : QueueCall → Prop
  | .firstPull _ | .selectOrphans _ _ => True
  | .claimDead _ | .utcNowIso | .insert _ _ | .reclaim _ => True
  | _ => False

theorem only_reclaim {b : LocalDurableBackend} {subscription : String} :
    (b.reclaim subscription).Only Reclaims := by
  have hrow : ∀ orphan, (b.reclaimRow subscription orphan).Only Reclaims := by
    intro orphan
    unfold reclaimRow deadLetterRow
    split_ifs
    · refine (Proc.along_perform trivial).bind fun claimed => ?_
      split_ifs
      · exact (Proc.along_perform trivial).bind fun _ => Proc.along_perform trivial
      · exact trivial
    · exact Proc.along_perform trivial
  have hrows : ∀ orphans, (b.reclaimRows subscription orphans).Only Reclaims := by
    intro orphans
    induction orphans with
    | nil => exact trivial
    | cons orphan rest ih => exact (hrow orphan).bind fun _ => ih
  exact (Proc.along_perform trivial).bind fun _ => (Proc.along_perform trivial).bind fun orphans =>
    (hrows orphans).bind fun _ => trivial

/-- Lease the selected rows one by one. A body that does not decode raises, with the rows
before it leased and not delivered. -/
def leaseRows (b : LocalDurableBackend) (subscription : String) :
    List Picked → Proc QueueI Exc (List ReceivedMessage)
  | [] => .ret []
  | row :: rest => do
      let ackId ← perform .uuid4
      let claimed ← perform (.lease row.seq ackId b.owner b.leaseSec)
      if claimed then
        let body ← Proc.ofExcept row.body.loads
        let out ← b.leaseRows subscription rest
        return ⟨ackId, subscription, body, row.attempts + 1⟩ :: out
      else b.leaseRows subscription rest

/-- `pull`. -/
def pull (b : LocalDurableBackend) (subscription : String) (maxMessages : ℤ) :
    Proc QueueI Exc (List ReceivedMessage) := do
  let _ ← b.reclaim subscription
  let now ← perform .time
  let rows ← perform (.selectAvailable subscription now maxMessages)
  b.leaseRows subscription rows

/-- `ack`. -/
def ack (msg : ReceivedMessage) : Proc QueueI Exc Unit := perform (.setDone msg.ackId)

/-- `to_dlq`. -/
def toDlq (msg : ReceivedMessage) (reason : FString) : Proc QueueI Exc Unit := do
  let timestamp ← perform .utcNowIso
  let _ ← perform (.insert (msg.topic ++ ".dlq") (dlqBody msg.body reason timestamp msg.attempts))
  perform (.setDead msg.ackId)

/-- `nack`: used-up attempts go to the dead letters, whatever the message was nacked for. -/
def nack (b : LocalDurableBackend) (msg : ReceivedMessage) (backoffSec : Binary64) :
    Proc QueueI Exc Unit := do
  match ← perform (.selectAckId msg.ackId) with
  | none => return ()
  | some row =>
      if b.exhausted row.attempts then toDlq msg (b.maxAttemptsReason "")
      else do
        let now ← perform .time
        perform (.release row.seq (now.add backoffSec))

end LocalDurableBackend

/-! ### What the statements do -/

/-- `WHERE ack_id=?`. -/
def QueueRow.hasAckId (ackId : String) (row : QueueRow) : Bool := row.ackId = some ackId

def QueueRow.picked (e : ℕ × QueueRow) : Picked := ⟨e.1, e.2.body, e.2.attempts⟩

/-- An in-flight row that is not held any more: its lease has run out by the file's clock, or
it belongs to another owner than the one given. -/
def QueueRow.isOrphan (dbNow : Binary64) (subscription : String) (notOwner : Option String)
    (row : QueueRow) : Bool :=
  row.topic = subscription ∧ row.state = .inflight ∧ (row.leasedUntil.le dbNow ∨
    (notOwner.isSome ∧ row.leaseOwner ≠ notOwner))

/-- A ready row of the subscription whose time has come. -/
def QueueRow.isAvailable (subscription : String) (now : Binary64) (row : QueueRow) : Bool :=
  row.topic = subscription ∧ row.state = .ready ∧ row.availableAt.le now

/-- `LIMIT`, which is no limit when it is negative. -/
def limited {α : Type} (n : ℤ) (rows : List α) : List α := if n < 0 then rows else rows.take n.toNat

theorem limited_sublist {α : Type} (n : ℤ) (rows : List α) : (limited n rows).Sublist rows := by
  unfold limited
  split_ifs
  · exact List.Sublist.refl rows
  · exact List.take_sublist _ rows

abbrev QueueTable := Table QueueRow

/-- Does an update that asks for one key and one state find its row? -/
def QueueTable.isIn (t : QueueTable) (seq : ℕ) (state : RowState) : Bool :=
  (t.get? seq).any fun row => row.state = state

/-- Update the row of a key when it is in a state. -/
def QueueTable.updateIn (t : QueueTable) (seq : ℕ) (state : RowState) (f : QueueRow → QueueRow) :
    QueueTable :=
  t.update (fun k row => k = seq ∧ row.state = state) f

/-- The shared file, and the ids that were ever drawn for a lease. -/
structure QueueFile where
  table : QueueTable
  drawn : List String

/-- The table after a call. -/
def QueueCall.after (dbNow : Binary64) (t : QueueTable) : QueueCall → QueueTable
  | .insert topic body => t.insert (.inserted topic body)
  | .lease seq ackId owner leaseSec =>
      QueueTable.updateIn t seq .ready (.leased ackId owner (dbNow.add leaseSec))
  | .reclaim seq => QueueTable.updateIn t seq .inflight (.released .zero)
  | .claimDead seq => QueueTable.updateIn t seq .inflight (.withState .dead)
  | .setDone ackId => t.update (fun _ row => row.hasAckId ackId) (.withState .done)
  | .setDead ackId => t.update (fun _ row => row.hasAckId ackId) (.withState .dead)
  | .release seq availableAt => t.update (fun k _ => k = seq) (.released availableAt)
  | _ => t

section After

variable (dbNow : Binary64) (t : QueueTable)

theorem QueueCall.after_lease (seq : ℕ) (ackId owner : String) (leaseSec : Binary64) :
    (QueueCall.lease seq ackId owner leaseSec).after dbNow t =
      t.update (fun k row => k = seq ∧ row.state = .ready)
        (.leased ackId owner (dbNow.add leaseSec)) := rfl

theorem QueueCall.after_reclaim (seq : ℕ) : (QueueCall.reclaim seq).after dbNow t =
    t.update (fun k row => k = seq ∧ row.state = .inflight) (.released .zero) := rfl

theorem QueueCall.after_claimDead (seq : ℕ) : (QueueCall.claimDead seq).after dbNow t =
    t.update (fun k row => k = seq ∧ row.state = .inflight) (.withState .dead) := rfl

theorem QueueCall.after_setDone (ackId : String) : (QueueCall.setDone ackId).after dbNow t =
    t.update (fun _ row => row.hasAckId ackId) (.withState .done) := rfl

theorem QueueCall.after_setDead (ackId : String) : (QueueCall.setDead ackId).after dbNow t =
    t.update (fun _ row => row.hasAckId ackId) (.withState .dead) := rfl

theorem QueueCall.after_release (seq : ℕ) (availableAt : Binary64) :
    (QueueCall.release seq availableAt).after dbNow t =
      t.update (fun k _ => k = seq) (.released availableAt) := rfl

/-- What one statement makes of the row of a key. -/
def QueueCall.change (dbNow : Binary64) : QueueCall → ℕ → QueueRow → QueueRow
  | .lease seq ackId owner leaseSec, k, row =>
      if k = seq ∧ row.state = .ready then row.leased ackId owner (dbNow.add leaseSec) else row
  | .reclaim seq, k, row => if k = seq ∧ row.state = .inflight then row.released .zero else row
  | .claimDead seq, k, row => if k = seq ∧ row.state = .inflight then row.withState .dead else row
  | .setDone ackId, _, row => if row.hasAckId ackId then row.withState .done else row
  | .setDead ackId, _, row => if row.hasAckId ackId then row.withState .dead else row
  | .release seq availableAt, k, row => if k = seq then row.released availableAt else row
  | _, _, row => row

/-- What a statement may leave in the place of a row. -/
inductive QueueCall.Leaves (q : ℕ) (row : QueueRow) : QueueCall → QueueRow → Prop
  | kept {op} : Leaves q row op row
  | leased {ackId owner leaseSec} (ready : row.state = .ready) :
      Leaves q row (.lease q ackId owner leaseSec) (row.leased ackId owner (dbNow.add leaseSec))
  | reclaimed (inflight : row.state = .inflight) : Leaves q row (.reclaim q) (row.released .zero)
  | claimed (inflight : row.state = .inflight) :
      Leaves q row (.claimDead q) (row.withState .dead)
  | done {ackId} (held : row.ackId = some ackId) :
      Leaves q row (.setDone ackId) (row.withState .done)
  | dead {ackId} (held : row.ackId = some ackId) :
      Leaves q row (.setDead ackId) (row.withState .dead)
  | released {availableAt} :
      Leaves q row (.release q availableAt) (row.released availableAt)

variable {dbNow t} {op : QueueCall} {q : ℕ} {row row' : QueueRow}

/-- Topic and body stay. -/
theorem QueueCall.Leaves.same (h : op.Leaves dbNow q row row') :
    row'.topic = row.topic ∧ row'.body = row.body := by
  cases h with
  | _ => exact ⟨rfl, rfl⟩

theorem QueueCall.leaves_change (dbNow : Binary64) (q : ℕ) (row : QueueRow) (op : QueueCall) :
    op.Leaves dbNow q row (op.change dbNow q row) := by
  cases op with
  | lease seq ackId owner leaseSec =>
      dsimp only [change]
      split_ifs with hp
      · exact hp.1 ▸ .leased hp.2
      · exact .kept
  | reclaim seq =>
      dsimp only [change]
      split_ifs with hp
      · exact hp.1 ▸ .reclaimed hp.2
      · exact .kept
  | claimDead seq =>
      dsimp only [change]
      split_ifs with hp
      · exact hp.1 ▸ .claimed hp.2
      · exact .kept
  | setDone ackId =>
      dsimp only [change]
      split_ifs with hp
      · exact .done (by simpa [QueueRow.hasAckId] using hp)
      · exact .kept
  | setDead ackId =>
      dsimp only [change]
      split_ifs with hp
      · exact .dead (by simpa [QueueRow.hasAckId] using hp)
      · exact .kept
  | release seq availableAt =>
      dsimp only [change]
      split_ifs with hp
      · exact hp ▸ .released
      · exact .kept
  | _ => exact .kept

/-- A row that is there stays, as the statement changes it. -/
theorem QueueCall.get?_after (op : QueueCall) (h : t.get? q = some row) :
    (op.after dbNow t).get? q = some (op.change dbNow q row) := by
  cases op with
  | insert topic body => exact Table.get?_insert_of_some h
  | lease seq ackId owner leaseSec => simp [after_lease, Table.get?_update, h, change]
  | reclaim seq => simp [after_reclaim, Table.get?_update, h, change]
  | claimDead seq => simp [after_claimDead, Table.get?_update, h, change]
  | setDone ackId => simp [after_setDone, Table.get?_update, h, change]
  | setDead ackId => simp [after_setDead, Table.get?_update, h, change]
  | release seq availableAt => simp [after_release, Table.get?_update, h, change]
  | _ => exact h

theorem QueueCall.exists_after (op : QueueCall) (h : t.get? q = some row) :
    ∃ row', (op.after dbNow t).get? q = some row' ∧ op.Leaves dbNow q row row' :=
  ⟨_, op.get?_after h, leaves_change dbNow q row op⟩

/-- A row of the table afterwards was there before, or it is the one inserted. -/
theorem QueueCall.of_after (h : (op.after dbNow t).get? q = some row') :
    (∃ row, t.get? q = some row ∧ op.Leaves dbNow q row row') ∨
      ∃ topic body, op = .insert topic body ∧ q = t.next ∧ row' = .inserted topic body := by
  cases hrow : t.get? q with
  | some row =>
      obtain ⟨row'', hrow'', hleft⟩ := exists_after op hrow
      obtain rfl := Option.some.inj (h.symm.trans hrow'')
      exact Or.inl ⟨row, rfl, hleft⟩
  | none =>
      have hupdate : ∀ p f, (t.update p f).get? q ≠ some row' := by
        intro p f
        rw [Table.get?_update, hrow]
        exact Option.some_ne_none row' ∘ Eq.symm
      cases op with
      | insert topic body =>
          rcases Table.get?_insert_cases h with hold | ⟨hnext, rfl⟩
          · cases hrow.symm.trans hold
          · exact Or.inr ⟨topic, body, rfl, hnext, rfl⟩
      | lease seq ackId owner leaseSec => exact absurd h (hupdate _ _)
      | reclaim seq => exact absurd h (hupdate _ _)
      | claimDead seq => exact absurd h (hupdate _ _)
      | setDone ackId => exact absurd h (hupdate _ _)
      | setDead ackId => exact absurd h (hupdate _ _)
      | release seq availableAt => exact absurd h (hupdate _ _)
      | _ => cases hrow.symm.trans h

end After

/-- May a call be answered like this? Clocks, time stamps and the record of recovered
subscriptions are free, an id is never drawn twice, and the SQL statements answer for the table. -/
def QueueCall.answers (dbNow : Binary64) (file : QueueFile) : (op : QueueCall) → op.Ans → Prop
  | .uuid4, ackId => ackId ∉ file.drawn
  | .selectOrphans subscription notOwner, rows =>
      rows = (file.table.select (QueueRow.isOrphan dbNow subscription notOwner)).map
        QueueRow.picked
  | .selectAvailable subscription now limit, rows =>
      rows = (limited limit (file.table.select (QueueRow.isAvailable subscription now))).map
        QueueRow.picked
  | .selectAckId ackId, row =>
      row = ((file.table.select (QueueRow.hasAckId ackId)).head?).map QueueRow.picked
  | .lease seq _ _ _, claimed => claimed = QueueTable.isIn file.table seq .ready
  | .claimDead seq, claimed => claimed = QueueTable.isIn file.table seq .inflight
  | _, _ => True

/-- The ids drawn after a call. -/
def QueueCall.draws : (op : QueueCall) → op.Ans → List String
  | .uuid4, ackId => [ackId]
  | _, _ => []

/-- The shared file: a statement works, or it fails and changes nothing. -/
def queueWorld : World QueueI Exc QueueFile := fun file op r file' =>
  (∃ dbNow a, r = .ok a ∧ op.answers dbNow file a ∧
    file' = ⟨op.after dbNow file.table, op.draws a ++ file.drawn⟩) ∨
  ((∃ e, r = .error e) ∧ file' = file)

/-- A file whose clocks stand still and whose ids are numbered; an id that was drawn before is
not given out. -/
def stillAnswer (now : Binary64) (file : QueueFile) : (op : QueueCall) → Except Exc op.Ans
  | .time => .ok now
  | .uuid4 =>
      if "lease-" ++ toString file.drawn.length ∈ file.drawn then .error (.ofErr .valueError)
      else .ok ("lease-" ++ toString file.drawn.length)
  | .utcNowIso => .ok "1970-01-01T00:00:00Z"
  | .firstPull _ => .ok true
  | .insert _ _ => .ok ()
  | .selectOrphans subscription notOwner =>
      .ok ((file.table.select (QueueRow.isOrphan now subscription notOwner)).map QueueRow.picked)
  | .selectAvailable subscription now limit =>
      .ok ((limited limit (file.table.select (QueueRow.isAvailable subscription now))).map
        QueueRow.picked)
  | .selectAckId ackId =>
      .ok (((file.table.select (QueueRow.hasAckId ackId)).head?).map QueueRow.picked)
  | .lease seq _ _ _ => .ok (QueueTable.isIn file.table seq .ready)
  | .reclaim _ => .ok ()
  | .claimDead seq => .ok (QueueTable.isIn file.table seq .inflight)
  | .setDone _ => .ok ()
  | .setDead _ => .ok ()
  | .release _ _ => .ok ()

def still (now : Binary64) (op : QueueCall) (file : QueueFile) : Except Exc op.Ans × QueueFile :=
  match stillAnswer now file op with
  | .ok a => (.ok a, ⟨op.after now file.table, op.draws a ++ file.drawn⟩)
  | .error e => (.error e, file)

theorem stillAnswer_answers {now : Binary64} {file : QueueFile} {op : QueueCall} {a : op.Ans}
    (h : stillAnswer now file op = .ok a) : op.answers now file a := by
  cases op with
  | uuid4 =>
      unfold stillAnswer at h
      split_ifs at h with hdrawn
      rw [← Except.ok.inj h]
      exact hdrawn
  | selectOrphans subscription notOwner => exact (Except.ok.inj h).symm
  | selectAvailable subscription now limit => exact (Except.ok.inj h).symm
  | selectAckId ackId => exact (Except.ok.inj h).symm
  | lease seq ackId owner leaseSec => exact (Except.ok.inj h).symm
  | claimDead seq => exact (Except.ok.inj h).symm
  | _ => exact trivial

theorem still_step (now : Binary64) (op : QueueCall) (file : QueueFile) :
    queueWorld file op (still now op file).1 (still now op file).2 := by
  unfold still
  cases h : stillAnswer now file op with
  | ok a => exact Or.inl ⟨now, a, rfl, stillAnswer_answers h, rfl⟩
  | error e => exact Or.inr ⟨⟨e, rfl⟩, rfl⟩

end System2
