import System2.Common.PullHandsOver
import System2.Common.SoleConsumer
import System2.Execution.FillProducer

/-!
# A flush of the durable outbox

`build_outbox` gives the fill producer a durable queue of its own as its outbox. A flush pulls
batches of ten, publishes each message downstream, and settles it; a message that was not
published is given back at once and comes with the next batch again.
-/

namespace System2
open Foundation

/-- The calls of a flush: the statements on the outbox file, and the producer's other calls. -/
inductive DrainCall
  | outbox (call : QueueCall)
  | producer (call : ProducerCall)

abbrev DrainCall.Ans : DrainCall → Type
  | .outbox call => call.Ans
  | .producer call => call.Ans

abbrev DrainI : Interface := ⟨DrainCall, DrainCall.Ans⟩

/-- A method of the outbox. -/
def onOutbox {α : Type} (p : Proc QueueI Exc α) : Proc DrainI Exc α :=
  p.interp fun call => Proc.perform (I := DrainI) (.outbox call)

/-- The producer's calls of its outbox, which is a durable queue. -/
def wireOutbox (b : LocalDurableBackend) : (op : ProducerCall) → Proc DrainI Exc op.Ans
  | .outboxPublish topic body => onOutbox (LocalDurableBackend.publish topic body)
  | .outboxPull topic n => onOutbox (b.pull topic n)
  | .outboxAck msg => onOutbox (LocalDurableBackend.ack msg)
  | .outboxNack msg backoffSec => onOutbox (b.nack msg backoffSec)
  | .uuid4 => Proc.perform (I := DrainI) (.producer .uuid4)
  | .utcNowIso => Proc.perform (I := DrainI) (.producer .utcNowIso)
  | .queuePublish topic body => Proc.perform (I := DrainI) (.producer (.queuePublish topic body))
  | .registerTrade order c fill => Proc.perform (I := DrainI) (.producer (.registerTrade order c fill))

/-- The outbox with this producer as its only user, while its statements work. The message that
is published is that of the row leased first of those not sent on yet, and the downstream publish
is answered as the row's message allows. -/
def drainWorld (subscription : String) (tick : Binary64 → Binary64 → Prop)
    (answers : ℕ → Except Exc Unit → Prop) : World DrainI Exc SoleFile := fun s op r s' =>
  match op with
  | .outbox call => soleWorld subscription tick s call r s'
  | .producer (.queuePublish _ _) => (∀ k ∈ s.leased.head?, answers k r) ∧
      RowsStay subscription s.file s'.file ∧ s'.clock = s.clock ∧ s'.leased = s.leased.tail
  | .producer _ => RowsStay subscription s.file s'.file ∧ s'.clock = s.clock ∧ s'.leased = s.leased

/-- The outbox between two rounds. -/
structure Outbox (subscription : String) (s : SoleFile) : Prop where
  ids : s.file.IdsOk
  bodies : ∀ k row, s.file.table.get? k = some row → row.topic = subscription →
    ∃ d, row.body = .json (.dict d)
  leased : s.leased = []

namespace FillProducer

/-- `flush` over a durable outbox. -/
def drain (p : FillProducer) (b : LocalDurableBackend) (rounds : ℕ) : Proc DrainI Exc ℕ :=
  (p.flush rounds).interp (wireOutbox b)

/-- One round of `flush`: how many messages it delivered. -/
def round (p : FillProducer) : Proc ProducerI Exc ℕ := do
  let batch ← perform (.outboxPull p.outboxTopic 10)
  p.deliverBatch batch

theorem flush_succ (p : FillProducer) (rounds : ℕ) : p.flush (rounds + 1) =
    p.round.bind fun delivered => if delivered = 0 then .ret 0
      else (p.flush rounds).bind fun more => .ret (delivered + more) := by
  simp only [flush, round, Proc.bind_eq, Proc.bind_assoc]
  congr 1
  funext batch
  cases batch with
  | nil => rfl
  | cons msg rest => rfl

/-- What a round made of a row that it took, when its message was sent and when not; the other
rows are at most reclaimed. -/
def Rounded (b : LocalDurableBackend) (tick : Binary64 → Binary64 → Prop) (taken : List ℕ)
    (sent : Finset ℕ) (clock : Binary64) (k : ℕ) (row row' : QueueRow) : Prop :=
  if k ∈ taken then (row.state = .ready ∨ row.state = .inflight) ∧
    if k ∈ sent then row'.state = .done
    else ∃ leased : QueueRow, leased.attempts = row.attempts + 1 ∧
      b.GivenBack tick .zero clock leased row'
  else LocalDurableBackend.Reclaimed row row'

section Rounds

variable {p : FillProducer} {b : LocalDurableBackend} {subscription : String}
  {tick : Binary64 → Binary64 → Prop} {answers : ℕ → Except Exc Unit → Prop} {s s' : SoleFile}

theorem returns_onOutbox {α : Type} {q : Proc QueueI Exc α} {Q : α → SoleFile → Prop}
    (h : Returns (soleWorld subscription tick) q Q s) :
    Returns (drainWorld subscription tick answers) (onOutbox q) Q s := by
  refine wpc_interp ?_ h
  intro op w Q' _ hQ
  exact wpc_of_perform trivial fun r w' step => hQ r w' step

theorem GivenBack.later {clock clock' : Binary64} {backoffSec : Binary64} {row row' : QueueRow}
    (h : b.GivenBack tick backoffSec clock row row') (hlater : Relation.ReflTransGen tick clock clock') :
    b.GivenBack tick backoffSec clock' row row' := by
  rcases h with hdead | ⟨hspare, hstate, hattempts, c, t, htick, havailable, ht⟩
  · exact Or.inl hdead
  · exact Or.inr ⟨hspare, hstate, hattempts, c, t, htick, havailable, ht.trans hlater⟩

/-- What the delivery of one message makes of its row. -/
def DeliveredRow (b : LocalDurableBackend) (tick : Binary64 → Binary64 → Prop) (sent : Bool)
    (clock : Binary64) (row row' : QueueRow) : Prop :=
  if sent then row'.state = .done else b.GivenBack tick .zero clock row row'

theorem returns_deliver {k : ℕ} {rest : List ℕ} {msg : ReceivedMessage} (hids : s.file.IdsOk)
    (hheld : LocalDurableBackend.Holds subscription s.file k msg) (hleased : s.leased = k :: rest) :
    Returns (drainWorld subscription tick answers) ((p.deliver msg).interp (wireOutbox b))
      (fun sent s' => (∃ r, answers k r ∧ r.isOk = sent) ∧
        Rowwise subscription (LocalDurableBackend.OnlyAt k (DeliveredRow b tick sent s'.clock))
          s.file s'.file ∧
        s'.file.IdsOk ∧ Relation.ReflTransGen tick s.clock s'.clock ∧ s'.leased = rest) s := by
  unfold deliver
  simp only [Proc.bind_eq, Proc.interp_bind, Proc.interp_attempt]
  refine wpc_seq_attempt (R := fun r s' => (∃ x, answers k x ∧ x.isOk = r.isOk) ∧
    s'.file.IdsOk ∧ Relation.ReflTransGen tick s.clock s'.clock ∧ s'.leased = rest ∧
    Rowwise subscription (LocalDurableBackend.OnlyAt k fun row row' =>
      if r.isOk then row'.state = .done else row' = row) s.file s'.file) ?_ ?_
  · rw [Proc.interp_perform]
    refine wpc_seq (R := fun r s' => answers k r ∧ s'.file.IdsOk ∧ s'.clock = s.clock ∧
      s'.leased = rest ∧ Rowwise subscription (fun _ row row' => row' = row) s.file s'.file) ?_ ?_ ?_
    · refine wpc_of_perform trivial ?_
      rintro r s₁ ⟨hanswer, hapart, hclock, hleased'⟩
      rw [hleased] at hanswer hleased'
      exact ⟨trivial, hanswer k rfl, hids.elsewhere hapart.others, hclock, hleased', hapart.rowwise⟩
    · rintro _ s₁ - ⟨hanswer, hids₁, hclock, hleased', hrows⟩
      rw [Proc.interp_perform]
      have hheld₁ := hheld.stays hrows fun _ _ hrow => hrow
      refine wpc_post (returns_onOutbox (LocalDurableBackend.returns_ack hids₁ hheld₁)) ?_
      rintro r s₂ - ⟨_, rfl, hleads⟩
      refine ⟨⟨_, hanswer, rfl⟩, hleads.ids, hclock ▸ hleads.clock, ?_, ?_⟩
      · rw [hleads.leased, hleased', List.append_nil]
      · refine (hrows.trans hleads.rows).mono ?_
        rintro k' row row' - - ⟨row₁, rfl, hrow⟩
        exact hrow
    · rintro e s₁ - ⟨hanswer, hids₁, hclock, hleased', hrows⟩
      refine ⟨⟨_, hanswer, rfl⟩, hids₁, hclock ▸ .refl, hleased', hrows.mono ?_⟩
      intro k' row row' _ _ hrow
      simp [LocalDurableBackend.OnlyAt, hrow, Except.isOk, Except.toBool]
  · rintro r s₁ - ⟨hanswer, hids₁, hclock, hleased', hrows⟩
    cases r with
    | ok _ => exact returns_ret ⟨hanswer, hrows, hids₁, hclock, hleased'⟩
    | error e =>
        obtain ⟨-, ⟨d, hbody⟩, -⟩ := id hheld
        have hsame : Rowwise subscription (fun _ row row' => row' = row) s.file s₁.file := by
          refine hrows.mono ?_
          intro k' row row' _ _ hrow
          simpa [LocalDurableBackend.OnlyAt, Except.isOk, Except.toBool] using hrow
        simp only [hbody, PyVal.getAttrGet, Exc.lift, Proc.ofExcept, Proc.ret_bind]
        rw [Proc.interp_bind, Proc.interp_perform]
        refine Returns.bind (returns_onOutbox (LocalDurableBackend.returns_nack hids₁
          (hheld.stays hsame fun _ _ hrow => hrow))) ?_
        intro _ s₂ hleads
        refine returns_ret ⟨hanswer, (hsame.trans hleads.rows).mono ?_, hleads.ids,
          hclock.trans hleads.clock, ?_⟩
        · rintro k' row row' - - ⟨row₁, rfl, hrow⟩
          exact hrow
        · rw [hleads.leased, hleased', List.append_nil]

/-- What the delivery of a batch makes of the rows. -/
def BatchRow (b : LocalDurableBackend) (tick : Binary64 → Binary64 → Prop) (taken : List ℕ)
    (sent : Finset ℕ) (clock : Binary64) (k : ℕ) (row row' : QueueRow) : Prop :=
  if k ∈ taken then DeliveredRow b tick (decide (k ∈ sent)) clock row row' else row' = row

theorem returns_deliverBatch {taken : List ℕ} {batch : List ReceivedMessage}
    (hheld : List.Forall₂ (LocalDurableBackend.Holds subscription s.file) taken batch)
    (hids : s.file.IdsOk) (hnodup : taken.Nodup) (hleased : s.leased = taken) :
    Returns (drainWorld subscription tick answers) ((p.deliverBatch batch).interp (wireOutbox b))
      (fun n s' => ∃ sent : Finset ℕ, n = sent.card ∧ (∀ k ∈ sent, k ∈ taken) ∧
        (∀ k ∈ taken, ∃ r, answers k r ∧ r.isOk = decide (k ∈ sent)) ∧
        Rowwise subscription (BatchRow b tick taken sent s'.clock) s.file s'.file ∧
        s'.file.IdsOk ∧ Relation.ReflTransGen tick s.clock s'.clock ∧ s'.leased = []) s := by
  induction taken generalizing s batch with
  | nil =>
      cases hheld
      refine returns_ret ⟨∅, rfl, by simp, by simp, ?_, hids, .refl, hleased⟩
      refine (Rowwise.refl s.file).mono ?_
      intro k row row' _ _ hrow
      simpa [BatchRow] using hrow
  | cons k rest ih =>
      cases hheld with
      | @cons _ msg _ batch hfirst hrest =>
          obtain ⟨hfresh, hnodup⟩ := List.nodup_cons.mp hnodup
          simp only [deliverBatch, Proc.bind_eq, Proc.interp_bind]
          refine Returns.bind (returns_deliver hids hfirst hleased) ?_
          rintro delivered s₁ ⟨⟨r, hanswer, hr⟩, hrows, hids₁, hclock, hleased₁⟩
          -- the rows of the later messages stay
          have hrest₁ : List.Forall₂ (LocalDurableBackend.Holds subscription s₁.file) rest batch := by
            have hmem := (List.forall₂_and_left rest batch).mpr
              ⟨fun k' (hk' : k' ∈ rest) => hk', hrest⟩
            refine hmem.imp fun k' msg' ⟨hk', hheld⟩ => hheld.stays hrows fun row row' hrow => ?_
            rwa [LocalDurableBackend.OnlyAt, if_neg] at hrow
            rintro rfl
            exact hfresh hk'
          refine Returns.bind (ih hrest₁ hids₁ hnodup hleased₁) ?_
          rintro more s₂ ⟨sent, rfl, hsent, hanswers, hrows₂, hids₂, hclock₂, hleased₂⟩
          have hnotin : k ∉ sent := fun hmem => hfresh (hsent k hmem)
          refine returns_ret ⟨if delivered then insert k sent else sent, ?_, ?_, ?_, ?_, hids₂,
            hclock.trans hclock₂, hleased₂⟩
          · cases delivered with
            | true => simp [hnotin, Nat.add_comm]
            | false => simp
          · intro k' hk'
            split_ifs at hk'
            · rcases Finset.mem_insert.mp hk' with rfl | hmem
              · exact List.mem_cons_self
              · exact List.mem_cons_of_mem _ (hsent k' hmem)
            · exact List.mem_cons_of_mem _ (hsent k' hk')
          · intro k' hk'
            rcases List.mem_cons.mp hk' with rfl | hmem
            · refine ⟨r, hanswer, hr.trans ?_⟩
              cases delivered <;> simp [hnotin]
            · obtain ⟨r', hanswer', hr'⟩ := hanswers k' hmem
              have hne : k' ≠ k := fun h => hfresh (h ▸ hmem)
              refine ⟨r', hanswer', hr'.trans ?_⟩
              cases delivered <;> simp [hne]
          · refine (hrows.trans hrows₂).mono ?_
            rintro k' row row' - - ⟨row₁, hrow, hrow'⟩
            unfold LocalDurableBackend.OnlyAt at hrow
            unfold BatchRow at hrow' ⊢
            by_cases hkey : k' = k
            · subst hkey
              rw [if_pos rfl] at hrow
              rw [if_neg hfresh] at hrow'
              rw [if_pos List.mem_cons_self, hrow']
              cases delivered with
              | true => simpa [DeliveredRow] using hrow
              | false => simpa [DeliveredRow, hnotin] using GivenBack.later hrow hclock₂
            · rw [if_neg hkey] at hrow
              subst hrow
              have hsame : (k' ∈ if delivered then insert k sent else sent) ↔ k' ∈ sent := by
                cases delivered <;> simp [hkey]
              simpa [hkey, hsame] using hrow'

/-- A round: the rows it took, those of them whose message was sent, and what it leads to. -/
structure RoundOf (p : FillProducer) (b : LocalDurableBackend)
    (tick : Binary64 → Binary64 → Prop) (answers : ℕ → Except Exc Unit → Prop) (taken : List ℕ)
    (sent : Finset ℕ) (s s' : SoleFile) : Prop where
  sent_mem : ∀ k ∈ sent, k ∈ taken
  answered : ∀ k ∈ taken, ∃ r, answers k r ∧ r.isOk = decide (k ∈ sent)
  there : ∀ k ∈ taken, ∃ row, s.file.table.get? k = some row ∧ row.topic = p.outboxTopic
  rows : Rowwise p.outboxTopic (Rounded b tick taken sent s'.clock) s.file s'.file
  outbox : Outbox p.outboxTopic s'
  clock : Relation.ReflTransGen tick s.clock s'.clock
  batch : LocalDurableBackend.NoneInFlight p.outboxTopic s.file →
    ∃ now, taken = LocalDurableBackend.batchKeys s.file p.outboxTopic now 10 ∧
      Relation.ReflTransGen tick s.clock now

theorem returns_round (h : Outbox p.outboxTopic s) :
    Returns (drainWorld p.outboxTopic tick answers) (p.round.interp (wireOutbox b))
      (fun n s' => ∃ taken sent, n = sent.card ∧ RoundOf p b tick answers taken sent s s') s := by
  unfold round
  rw [Proc.bind_eq, Proc.interp_bind, Proc.interp_perform]
  refine Returns.bind (returns_onOutbox (LocalDurableBackend.returns_pull h.ids h.bodies)) ?_
  rintro msgs s₁ ⟨taken, hpull, hnodup, hheld, hbatch⟩
  have hleased : s₁.leased = taken := by rw [hpull.leased, h.leased, List.nil_append]
  refine (returns_deliverBatch hheld hpull.ids hnodup hleased).mono ?_
  rintro n s₂ ⟨sent, rfl, hsent, hanswers, hrows, hids, hclock, hnone⟩
  have hall : Rowwise p.outboxTopic (Rounded b tick taken sent s₂.clock) s.file s₂.file := by
    refine (hpull.rows.trans hrows).mono ?_
    rintro k row row' - - ⟨row₁, hpulled, hbatched⟩
    unfold LocalDurableBackend.Pulled at hpulled
    unfold BatchRow DeliveredRow at hbatched
    unfold Rounded
    simp only [decide_eq_true_eq] at hbatched
    split_ifs at hpulled hbatched ⊢
    · exact ⟨hpulled.1, hbatched⟩
    · exact ⟨hpulled.1, row₁, hpulled.2.2, hbatched⟩
    · rwa [hbatched]
  refine ⟨taken, sent, rfl, hsent, hanswers, ?_, hall, ⟨hids, ?_, hnone⟩, hpull.clock.trans hclock,
    hbatch⟩
  · intro k hk
    obtain ⟨i, hi, rfl⟩ := List.getElem_of_mem hk
    obtain ⟨-, -, row, hrow, htopic, -⟩ := hheld.get hi (hheld.length_eq ▸ hi)
    exact hpull.rows.back _ row hrow htopic
  · intro k row' hk' htopic'
    obtain ⟨row, hk, htopic, hbody, -⟩ := hall.of_after hk' htopic'
    exact hbody ▸ h.bodies k row hk htopic

end Rounds

/-! ### How often a flush pulls -/

/-- The rows of a subscription that are done. -/
def doneKeys (f : QueueFile) (subscription : String) : Finset ℕ :=
  f.table.keys fun row => row.topic = subscription ∧ row.state = .done

/-- The rows of a subscription that are not done. -/
def unsentKeys (f : QueueFile) (subscription : String) : Finset ℕ :=
  f.table.keys fun row => row.topic = subscription ∧ row.state ≠ .done

section Keys

variable {p : FillProducer} {b : LocalDurableBackend} {subscription : String}
  {tick : Binary64 → Binary64 → Prop} {answers : ℕ → Except Exc Unit → Prop} {s s' : SoleFile}
  {taken : List ℕ} {sent : Finset ℕ} {k : ℕ} {f : QueueFile}

theorem mem_doneKeys : k ∈ doneKeys f subscription ↔
    ∃ row, f.table.get? k = some row ∧ row.topic = subscription ∧ row.state = .done := by
  simp [doneKeys, Table.mem_keys]

theorem mem_unsentKeys : k ∈ unsentKeys f subscription ↔
    ∃ row, f.table.get? k = some row ∧ row.topic = subscription ∧ row.state ≠ .done := by
  simp [unsentKeys, Table.mem_keys]

theorem Rounded.done_iff {clock : Binary64} {row row' : QueueRow}
    (h : Rounded b tick taken sent clock k row row') (hsent : k ∈ sent → k ∈ taken) :
    row'.state = .done ↔ row.state = .done ∨ k ∈ sent := by
  unfold Rounded at h
  split_ifs at h with htaken hmem
  · simp [h.2, hmem]
  · obtain ⟨hopen, leased, -, hback⟩ := h
    have hrow : row.state ≠ .done := by
      rcases hopen with hstate | hstate <;> rw [hstate] <;> nofun
    have hrow' : row'.state ≠ .done := by
      rcases hback with ⟨-, hstate⟩ | ⟨-, hstate, -⟩ <;> rw [hstate] <;> nofun
    simp [hrow, hrow', hmem]
  · have hnot : k ∉ sent := fun hmem => htaken (hsent hmem)
    rcases h with rfl | ⟨hflight, -, hstate⟩
    · simp [hnot]
    · rcases hstate with hstate | hstate <;> simp [hflight, hstate, hnot]

/-- A row that a round took was not done. -/
theorem RoundOf.taken_unsent (h : RoundOf p b tick answers taken sent s s') (hk : k ∈ taken) :
    k ∈ unsentKeys s.file p.outboxTopic := by
  obtain ⟨row, hrow, htopic⟩ := h.there k hk
  obtain ⟨row', -, -, -, hrounded⟩ := h.rows.forth k row hrow htopic
  rw [Rounded, if_pos hk] at hrounded
  refine mem_unsentKeys.mpr ⟨row, hrow, htopic, ?_⟩
  rcases hrounded.1 with hstate | hstate <;> rw [hstate] <;> nofun

/-- A round makes the rows done whose messages it sent, and no others. -/
theorem RoundOf.doneKeys_eq (h : RoundOf p b tick answers taken sent s s') :
    doneKeys s'.file p.outboxTopic = doneKeys s.file p.outboxTopic ∪ sent := by
  ext k
  rw [Finset.mem_union, mem_doneKeys, mem_doneKeys]
  constructor
  · rintro ⟨row', hk', htopic', hdone⟩
    obtain ⟨row, hk, htopic, -, hrounded⟩ := h.rows.of_after hk' htopic'
    rcases (hrounded.done_iff (h.sent_mem k)).mp hdone with hold | hnew
    · exact Or.inl ⟨row, hk, htopic, hold⟩
    · exact Or.inr hnew
  · intro hk
    have ⟨row, hrow, htopic⟩ : ∃ row, s.file.table.get? k = some row ∧
        row.topic = p.outboxTopic := by
      rcases hk with ⟨row, hrow, htopic, -⟩ | hnew
      · exact ⟨row, hrow, htopic⟩
      · exact h.there k (h.sent_mem k hnew)
    obtain ⟨row', hrow', htopic', -, hrounded⟩ := h.rows.forth k row hrow htopic
    refine ⟨row', hrow', htopic', (hrounded.done_iff (h.sent_mem k)).mpr (hk.imp_left ?_)⟩
    rintro ⟨old, hold, -, hdone⟩
    obtain rfl : row = old := Option.some.inj (hrow.symm.trans hold)
    exact hdone

theorem RoundOf.unsentKeys_eq (h : RoundOf p b tick answers taken sent s s') :
    unsentKeys s'.file p.outboxTopic = unsentKeys s.file p.outboxTopic \ sent := by
  ext k
  rw [Finset.mem_sdiff, mem_unsentKeys, mem_unsentKeys]
  constructor
  · rintro ⟨row', hk', htopic', hopen⟩
    obtain ⟨row, hk, htopic, -, hrounded⟩ := h.rows.of_after hk' htopic'
    have hnot := not_or.mp (mt (hrounded.done_iff (h.sent_mem k)).mpr hopen)
    exact ⟨⟨row, hk, htopic, hnot.1⟩, hnot.2⟩
  · rintro ⟨⟨row, hk, htopic, hopen⟩, hnot⟩
    obtain ⟨row', hk', htopic', -, hrounded⟩ := h.rows.forth k row hk htopic
    refine ⟨row', hk', htopic', mt (hrounded.done_iff (h.sent_mem k)).mp ?_⟩
    exact not_or.mpr ⟨hopen, hnot⟩

theorem RoundOf.sent_subset (h : RoundOf p b tick answers taken sent s s') :
    sent ⊆ unsentKeys s.file p.outboxTopic :=
  fun k hk => h.taken_unsent (h.sent_mem k hk)

theorem disjoint_doneKeys_unsentKeys (f : QueueFile) (subscription : String) :
    Disjoint (doneKeys f subscription) (unsentKeys f subscription) := by
  refine Finset.disjoint_left.mpr fun k hdone hopen => ?_
  obtain ⟨row, hrow, -, hstate⟩ := mem_doneKeys.mp hdone
  obtain ⟨row', hrow', -, hstate'⟩ := mem_unsentKeys.mp hopen
  obtain rfl : row = row' := Option.some.inj (hrow.symm.trans hrow')
  exact hstate' hstate

theorem RoundOf.card_doneKeys (h : RoundOf p b tick answers taken sent s s') :
    (doneKeys s'.file p.outboxTopic).card = (doneKeys s.file p.outboxTopic).card + sent.card := by
  rw [h.doneKeys_eq, Finset.card_union_of_disjoint]
  exact (disjoint_doneKeys_unsentKeys s.file p.outboxTopic).mono_right h.sent_subset

/-- Every message that was sent is one less to send. -/
theorem RoundOf.card_unsentKeys (h : RoundOf p b tick answers taken sent s s') :
    (unsentKeys s'.file p.outboxTopic).card + sent.card =
      (unsentKeys s.file p.outboxTopic).card := by
  rw [h.unsentKeys_eq]
  exact Finset.card_sdiff_add_card_eq_card h.sent_subset

/-- What a flush returns is the number of rows that it made done. -/
theorem returns_drain {rounds : ℕ} (h : Outbox p.outboxTopic s) :
    Returns (drainWorld p.outboxTopic tick answers) (p.drain b rounds) (fun n s' =>
      (doneKeys s'.file p.outboxTopic).card = (doneKeys s.file p.outboxTopic).card + n) s := by
  induction rounds generalizing s with
  | zero => exact returns_ret rfl
  | succ rounds ih =>
      rw [drain, flush_succ, Proc.interp_bind]
      refine Returns.bind (returns_round h) ?_
      rintro n s₁ ⟨taken, sent, rfl, hround⟩
      have hcard := hround.card_doneKeys
      split_ifs with hnone
      · refine returns_ret ?_
        rw [hcard, hnone]
      · rw [Proc.interp_bind]
        refine Returns.bind (ih hround.outbox) fun more s₂ hmore => returns_ret ?_
        omega

/-- A flush whose bound exceeds the number of rows that are not done runs as under any other such
bound. -/
theorem exec_drain_of_bound {rounds rounds' : ℕ} {out : Option (Except Exc ℕ)}
    {t : List (Event DrainI Exc)} {w' : SoleFile × List (Event DrainI Exc)}
    (h : Outbox p.outboxTopic s) (hbound : (unsentKeys s.file p.outboxTopic).card < rounds)
    (hbound' : (unsentKeys s.file p.outboxTopic).card < rounds')
    (exec : Exec (drainWorld p.outboxTopic tick answers).traced (p.drain b rounds) (s, t) out w') :
    Exec (drainWorld p.outboxTopic tick answers).traced (p.drain b rounds') (s, t) out w' := by
  induction rounds generalizing rounds' s t out w' with
  | zero => cases hbound
  | succ rounds ih =>
      obtain ⟨rounds', rfl⟩ := Nat.exists_eq_succ_of_ne_zero (Nat.ne_zero_of_lt hbound')
      rw [drain, flush_succ, Proc.interp_bind] at exec ⊢
      rcases exec_bind exec with ⟨n, ⟨s₁, t₁⟩, hround, hrest⟩ | ⟨e, hround, rfl⟩ | ⟨hround, rfl⟩
      · obtain ⟨⟨_, hn, taken, sent, rfl, hof⟩, -⟩ := wp_sound hround
          (wpc_traced (returns_round h) (Proc.only_true _) (t := t) fun _ _ => trivial)
        obtain rfl := Except.ok.inj hn
        refine hround.bind ?_
        split_ifs at hrest ⊢ with hnone
        · exact hrest
        · have hless := hof.card_unsentKeys
          rw [Proc.interp_bind] at hrest ⊢
          -- the rest of the flush has one round less, and at least one row less to send
          have hless' : (unsentKeys s₁.file p.outboxTopic).card + sent.card =
              (unsentKeys s.file p.outboxTopic).card := hless
          rcases exec_bind hrest with ⟨more, w'', hflush, hret⟩ | ⟨e, hflush, rfl⟩ | ⟨hflush, rfl⟩
          · exact (ih hof.outbox (by omega) (by omega) hflush).bind hret
          · exact (ih hof.outbox (by omega) (by omega) hflush).bind_error
          · exact (ih hof.outbox (by omega) (by omega) hflush).bind_cut
      · exact hround.bind_error
      · exact hround.bind_cut

/-- A call that selects a batch: every pull makes one. -/
def isPull : DrainCall → Bool
  | .outbox (.selectAvailable _ _ _) => true
  | _ => false

theorem onOutbox_pulls_nothing {α : Type} {q : Proc QueueI Exc α}
    (hq : q.Only fun op => isPull (.outbox op) = false) :
    (onOutbox q).Only fun op => isPull op = false :=
  Proc.Only.interp hq fun _ hop => Proc.along_perform hop

theorem pull_atMost_one (b : LocalDurableBackend) (subscription : String) (n : ℤ) :
    (onOutbox (b.pull subscription n)).AtMost isPull 1 := by
  have hreclaim : (b.reclaim subscription).Only fun op => isPull (.outbox op) = false := by
    refine LocalDurableBackend.reclaim_aside.mono fun op hop => ?_
    cases op with
    | selectAvailable subscription now limit => exact hop.elim
    | _ => rfl
  have hlease : ∀ rows, (b.leaseRows subscription rows).Only
      fun op => isPull (.outbox op) = false := by
    refine fun rows => (LocalDurableBackend.leaseRows_selects_nothing rows).mono fun op hop => ?_
    cases op with
    | selectAvailable subscription now limit => cases hop (.ok [])
    | _ => rfl
  have hselect : ∀ now : Binary64, (onOutbox (LocalDurableBackend.perform
      (.selectAvailable subscription now n))).AtMost isPull 1 := by
    intro now
    rw [onOutbox, Proc.interp_perform]
    exact Proc.atMost_perform _
  unfold onOutbox LocalDurableBackend.pull
  simp only [Proc.bind_eq, Proc.interp_bind]
  show Proc.AtMost (I := DrainI) isPull _ (0 + (0 + (1 + 0)))
  refine (Proc.atMost_of_only (onOutbox_pulls_nothing hreclaim)).bind fun _ => ?_
  refine (Proc.atMost_of_only (onOutbox_pulls_nothing (Proc.along_perform rfl))).bind fun now => ?_
  exact (hselect now).bind fun rows => Proc.atMost_of_only (onOutbox_pulls_nothing (hlease rows))

theorem drain_atMost (p : FillProducer) (b : LocalDurableBackend) (rounds : ℕ) :
    (p.drain b rounds).AtMost isPull rounds := by
  have hsettle : ∀ op, Settles op → (wireOutbox b op).Only fun op => isPull op = false := by
    intro op hop
    cases op with
    | outboxAck msg => exact onOutbox_pulls_nothing (Proc.along_perform rfl)
    | queuePublish topic body => exact Proc.along_perform rfl
    | outboxNack msg backoffSec =>
        refine onOutbox_pulls_nothing ?_
        unfold LocalDurableBackend.nack
        refine Proc.Along.bind (Proc.along_perform rfl) fun row => ?_
        cases row with
        | none => trivial
        | some row =>
            simp only
            split_ifs
            · unfold LocalDurableBackend.toDlq
              refine Proc.Along.bind (Proc.along_perform rfl) fun _ => ?_
              exact Proc.Along.bind (Proc.along_perform rfl) fun _ => Proc.along_perform rfl
            · exact Proc.Along.bind (Proc.along_perform rfl) fun _ => Proc.along_perform rfl
    | _ => exact hop.elim
  induction rounds with
  | zero => trivial
  | succ rounds ih =>
      have hround : (p.round.interp (wireOutbox b)).AtMost isPull 1 := by
        rw [round, Proc.bind_eq, Proc.interp_bind, Proc.interp_perform]
        exact (pull_atMost_one b p.outboxTopic 10).bind fun batch =>
          Proc.atMost_of_only (Proc.Only.interp (deliverBatch_settles p batch) hsettle)
      rw [drain, flush_succ, Proc.interp_bind, Nat.add_comm]
      refine hround.bind fun delivered => ?_
      split_ifs
      · trivial
      · rw [Proc.interp_bind]
        exact Proc.AtMost.bind (n := 0) ih fun more => trivial

/-- A row as it was written, with an object in it. -/
def asWritten (row : QueueRow) : Bool :=
  row.ackId.isNone && match row.body with
    | .json (.dict _) => true
    | _ => false

theorem outbox_asWritten {f : QueueFile} {clock : Binary64}
    (h : f.table.rows.all (fun e => asWritten e.2) = true) : Outbox subscription ⟨f, clock, []⟩ := by
  have hrow : ∀ k row, f.table.get? k = some row → asWritten row = true := fun k row hk =>
    List.all_eq_true.mp h _ (Table.mem_of_get? hk)
  have hnone : ∀ k row id, f.table.get? k = some row → row.ackId ≠ some id := by
    intro k row id hk hid
    have hwritten := hrow k row hk
    rw [asWritten, hid] at hwritten
    cases hwritten
  refine ⟨⟨fun k row id hk hid => absurd hid (hnone k row id hk), fun k row _ _ id hk _ hid =>
    absurd hid (hnone k row id hk)⟩, fun k row hk _ => ?_, rfl⟩
  have hwritten := (Bool.and_eq_true_iff.mp (hrow k row hk)).2
  split at hwritten
  · exact ⟨_, ‹row.body = _›⟩
  · cases hwritten

/-- The outbox while its clocks stand still, and a downstream that takes the messages of some
rows. -/
def steady (now : Binary64) (good : ℕ → Bool) (op : DrainCall) (s : SoleFile) :
    Except Exc op.Ans × SoleFile :=
  match op with
  | .outbox call =>
      match stillAnswer now s.file call with
      | .ok a => (.ok a, ⟨⟨call.after now s.file.table, call.draws a ++ s.file.drawn⟩,
          (call.reading a).getD s.clock, s.leased ++ call.takes a⟩)
      | .error e => (.error e, s)
  | .producer (.queuePublish _ _) =>
      (if s.leased.head?.all good then .ok () else .error (.ofErr .valueError),
        { s with leased := s.leased.tail })
  | .producer _ => (.error (.ofErr .valueError), s)

/-- Does the outbox answer, at a time that is not before the last one? -/
def steadyCheck (now : Binary64) (op : DrainCall) (s : SoleFile) : Bool :=
  match op with
  | .outbox call => (stillAnswer now s.file call).isOk && s.clock.le now
  | .producer _ => true

theorem steady_step {now : Binary64} {good : ℕ → Bool} (htick : ∀ c, c.le now = true → tick c now)
    (hgood : ∀ k, answers k (if good k then .ok () else .error (.ofErr .valueError)))
    (op : DrainCall) (s : SoleFile) (h : steadyCheck now op s = true) :
    drainWorld subscription tick answers s op (steady now good op s).1 (steady now good op s).2 := by
  cases op with
  | outbox call =>
      obtain ⟨hok, hle⟩ := Bool.and_eq_true_iff.mp h
      unfold steady
      cases ha : stillAnswer now s.file call with
      | error e =>
          rw [ha] at hok
          cases hok
      | ok a =>
          simp only [ha]
          refine ⟨a, _, rfl, Or.inl ⟨now, a, rfl, stillAnswer_answers ha, rfl⟩, .refl _ _, ?_, rfl, rfl⟩
          intro t ht
          cases call with
          | time =>
              obtain rfl := Option.some.inj ht
              obtain rfl := Except.ok.inj ha
              exact htick s.clock hle
          | _ => cases ht
  | producer call =>
      cases call with
      | queuePublish topic body =>
          refine ⟨fun k hk => ?_, .refl _ _, rfl, rfl⟩
          have hhead : s.leased.head?.all good = good k := by
            rw [show s.leased.head? = some k from hk]
            rfl
          show answers k (if s.leased.head?.all good then _ else _)
          rw [hhead]
          exact hgood k
      | _ => exact ⟨.refl _ _, rfl, rfl⟩

/-- The outbox of the executor with some confirmations in it, none of them sent yet. -/
def fillOutbox (n : ℕ) : QueueFile where
  table := (List.range n).foldl (fun t k =>
    t.insert (.inserted "fill_outbox" (.json (.dict [("fill", .int k)])))) Table.empty
  drawn := []

def fillProducer : FillProducer := ⟨"ams-inbound", "fill_outbox"⟩

/-- `build_outbox` makes the attempts practically unlimited. -/
def outboxBackend : LocalDurableBackend := ⟨1000000000, .ofRat 300, "executor-1"⟩

/-- A flush of so many confirmations, of which the downstream takes some. -/
def drained (n rounds : ℕ) (good : ℕ → Bool) :
    Except Exc ℕ × (SoleFile × List (Event DrainI Exc)) :=
  (fillProducer.drain outboxBackend rounds).run (World.recording (steady .zero good))
    (⟨fillOutbox n, .zero, []⟩, [])

theorem exec_drained {n rounds : ℕ} {good : ℕ → Bool}
    (htick : ∀ c, c.le .zero = true → tick c .zero)
    (hgood : ∀ k, answers k (if good k then .ok () else .error (.ofErr .valueError)))
    (hchecks : (fillProducer.drain outboxBackend rounds).runChecks
      (World.recording (steady .zero good)) (fun op w => steadyCheck .zero op w.1)
      (⟨fillOutbox n, .zero, []⟩, []) = true) :
    Exec (drainWorld subscription tick answers).traced (fillProducer.drain outboxBackend rounds)
      (⟨fillOutbox n, .zero, []⟩, []) (some (drained n rounds good).1) (drained n rounds good).2 :=
  exec_run_of_checks (fun op w h => ⟨steady_step htick hgood op w.1 h, rfl⟩) hchecks

/-- With any publishes succeeding and failing as they like: a flush makes at most one pull more
than there are rows not done, so that no larger bound on its rounds changes it, and it returns
the number of rows that it moved to done. -/
theorem flush_pulls_le {rounds : ℕ} {out : Option (Except Exc ℕ)}
    {w' : SoleFile × List (Event DrainI Exc)} (h : Outbox p.outboxTopic s)
    (hbound : (unsentKeys s.file p.outboxTopic).card + 1 < rounds)
    (exec : Exec (drainWorld p.outboxTopic (fun _ _ => True) fun _ _ => True).traced
      (p.drain b rounds) (s, []) out w') :
    w'.2.countP (fun e => isPull e.1) ≤ (unsentKeys s.file p.outboxTopic).card + 1 ∧
      ∀ r, out = some r → ∃ n, r = .ok n ∧ (doneKeys w'.1.file p.outboxTopic).card =
        (doneKeys s.file p.outboxTopic).card + n := by
  constructor
  · have hshort := exec_drain_of_bound h (by omega) (Nat.lt_succ_self _) exec
    simpa using countP_of_atMost (drain_atMost p b _) hshort
  · rintro r rfl
    exact (wp_sound exec (wpc_traced (returns_drain h) (Proc.only_true _) fun _ _ => trivial)).1

/-- Three confirmations, of which the downstream takes the second. -/
theorem flush_pulls_le_three :
    (drained 3 5 fun k => k = 1).2.2.countP (fun e => isPull e.1) ≤
        (unsentKeys (fillOutbox 3) "fill_outbox").card + 1 ∧
      ∀ r, some (drained 3 5 fun k => k = 1).1 = some r → ∃ n, r = .ok n ∧
        (doneKeys (drained 3 5 fun k => k = 1).2.1.file "fill_outbox").card =
          (doneKeys (fillOutbox 3) "fill_outbox").card + n :=
  flush_pulls_le (p := fillProducer) (s := ⟨fillOutbox 3, .zero, []⟩)
    (outbox_asWritten (by decide)) (by decide)
    (exec_drained (fun _ _ => trivial) (fun _ => trivial) (by decide +kernel))

end Keys

end FillProducer

end System2
