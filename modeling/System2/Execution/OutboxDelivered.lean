import System2.Execution.OutboxDrain
import System2.Execution.OutboxPool

/-!
# What a shared outbox keeps

Whatever producers do at the same time on one outbox file, and wherever each of them dies: a
written message stays with its body, it is done only when a publish of it has returned, and
it is dead only when it was handed out as often as the limit says.
-/

namespace System2
open Foundation

/-! ### Rows only grow -/

/-- Rows stay, with their topics, their bodies and at least their attempts. -/
def Grown (t t' : QueueTable) : Prop :=
  ∀ q row, t.get? q = some row → ∃ row', t'.get? q = some row' ∧ row'.topic = row.topic ∧
    row'.body = row.body ∧ row.attempts ≤ row'.attempts

theorem Grown.refl (t : QueueTable) : Grown t t := fun _ row hrow => ⟨row, hrow, rfl, rfl, le_rfl⟩

theorem Grown.trans {t t' t'' : QueueTable} (h : Grown t t') (h' : Grown t' t'') :
    Grown t t'' := by
  intro q row hrow
  obtain ⟨row', hrow', htopic, hbody, hattempts⟩ := h q row hrow
  obtain ⟨row'', hrow'', htopic', hbody', hattempts'⟩ := h' q row' hrow'
  exact ⟨row'', hrow'', htopic'.trans htopic, hbody'.trans hbody, hattempts.trans hattempts'⟩

theorem grown_after (dbNow : Binary64) (t : QueueTable) (op : QueueCall) :
    Grown t (op.after dbNow t) := by
  intro q row hrow
  obtain ⟨row', hrow', hleft⟩ := op.exists_after hrow
  refine ⟨row', hrow', hleft.same.1, hleft.same.2, ?_⟩
  cases hleft with
  | leased => exact Nat.le_succ _
  | _ => exact le_rfl

variable {s s' : ClockedFile} {op : QueueCall} {r : Except Exc op.Ans} {q : ℕ} {row' : QueueRow}

theorem grown_step (step : clockedWorld s op r s') : Grown s.file.table s'.file.table := by
  rcases step with ⟨dbNow, a, -, -, rfl⟩ | ⟨-, rfl⟩
  · exact grown_after dbNow s.file.table op
  · exact .refl _

/-- A row is done because it was, or because its handle was acked. -/
theorem done_before (step : clockedWorld s op r s') (hrow' : s'.file.table.get? q = some row')
    (hdone : row'.state = .done) : ∃ row, s.file.table.get? q = some row ∧
      row'.topic = row.topic ∧ row'.body = row.body ∧
      (row.state = .done ∨ ∃ ackId, op = .setDone ackId ∧ row.ackId = some ackId) := by
  rcases step with ⟨dbNow, a, rfl, -, rfl⟩ | ⟨-, rfl⟩
  swap
  · exact ⟨row', hrow', rfl, rfl, Or.inl hdone⟩
  rcases QueueCall.of_after hrow' with ⟨row, hrow, hleft⟩ | ⟨topic, body, rfl, -, rfl⟩
  swap
  · cases hdone
  refine ⟨row, hrow, hleft.same.1, hleft.same.2, ?_⟩
  cases hleft with
  | kept => exact Or.inl hdone
  | done held => exact Or.inr ⟨_, rfl, held⟩
  | leased => cases hdone
  | reclaimed => cases hdone
  | claimed => cases hdone
  | dead => cases hdone
  | released => cases hdone

/-! ### What was read of the attempts -/

/-- A row has had at least the attempts that were read of it. -/
def ReadOf (table : QueueTable) (pick : Picked) : Prop :=
  ∃ row, table.get? pick.seq = some row ∧ pick.attempts ≤ row.attempts

theorem ReadOf.grown {t t' : QueueTable} {pick : Picked} (h : ReadOf t pick) (hgrown : Grown t t') :
    ReadOf t' pick := by
  obtain ⟨row, hrow, hattempts⟩ := h
  obtain ⟨row', hrow', -, -, hle⟩ := hgrown _ row hrow
  exact ⟨row', hrow', hattempts.trans hle⟩

theorem readOf_of_select {t : QueueTable} {p : QueueRow → Bool} {e : ℕ × QueueRow}
    (h : e ∈ t.select p) : ReadOf t (QueueRow.picked e) :=
  ⟨e.2, (Table.mem_select_iff.mp h).1, le_rfl⟩

/-- What a reclaim or a nack has read: of each row its attempts, and by an id the row that was
leased under it. -/
structure ReadRecord (t : List QueueEvent) (table : QueueTable) : Prop where
  orphans : ∀ subscription notOwner picks, ⟨.selectOrphans subscription notOwner, .ok picks⟩ ∈ t →
    ∀ pick ∈ (picks : List Picked), ReadOf table pick
  handles : ∀ ackId pick, ⟨.selectAckId ackId, .ok (some pick)⟩ ∈ t →
    LeasedIn t pick.seq ackId ∧ ReadOf table pick

variable {ι : Type} [DecidableEq ι] {log : QueueLog ι}

omit [DecidableEq ι] in
theorem ReadRecord.step {t : List QueueEvent} (h : ReadRecord t s.file.table)
    (hids : ∀ k row ackId, s.file.table.get? k = some row → row.ackId = some ackId →
      LeasedIn t k ackId) (step : clockedWorld s op r s') :
    ReadRecord (t ++ [⟨op, r⟩]) s'.file.table where
  orphans := by
    intro subscription notOwner picks hmem pick hpick
    refine ReadOf.grown ?_ (grown_step step)
    rcases List.mem_append.mp hmem with hold | hnew
    · exact h.orphans subscription notOwner picks hold pick hpick
    · obtain ⟨rfl, hr⟩ := Sigma.mk.inj (List.mem_singleton.mp hnew)
      obtain rfl := eq_of_heq hr
      rcases step with ⟨dbNow, a, ha, hanswers, -⟩ | ⟨⟨e, he⟩, -⟩
      · obtain rfl := Except.ok.inj ha
        rw [show picks = _ from hanswers] at hpick
        obtain ⟨e, he, rfl⟩ := List.mem_map.mp hpick
        exact readOf_of_select he
      · cases he
  handles := by
    intro ackId pick hmem
    rcases List.mem_append.mp hmem with hold | hnew
    · obtain ⟨hleased, hread⟩ := h.handles ackId pick hold
      exact ⟨hleased.append _, hread.grown (grown_step step)⟩
    · obtain ⟨rfl, hr⟩ := Sigma.mk.inj (List.mem_singleton.mp hnew)
      obtain rfl := eq_of_heq hr
      have hgrown := grown_step step
      rcases step with ⟨dbNow, a, ha, hanswers, -⟩ | ⟨⟨e, he⟩, -⟩
      · obtain rfl := Except.ok.inj ha
        obtain ⟨e, he, rfl⟩ := Option.map_eq_some_iff.mp (show some pick = _ from hanswers).symm
        have hselect := List.mem_of_head? he
        obtain ⟨hrow, hid⟩ := Table.mem_select_iff.mp hselect
        have hackId : e.2.ackId = some ackId := by simpa [QueueRow.hasAckId] using hid
        exact ⟨(hids e.1 e.2 ackId hrow hackId).append _, (readOf_of_select hselect).grown hgrown⟩
      · cases he

theorem readRecord {P : Protocol ι QueueI Exc ClockedFile}
    (hP : ∀ log t op, P log t op → DrawsFirst t op)
    (history : History clockedWorld P ⟨⟨.empty, []⟩, []⟩ log s) :
    ReadRecord (log.map Happened.event) s.file.table := by
  induction history with
  | start =>
      refine ⟨?_, ?_⟩
      · intro subscription notOwner picks hmem
        cases hmem
      · intro ackId pick hmem
        cases hmem
  | call history _ step ih =>
      rw [List.map_append]
      exact ih.step (leaseRecord_of hP history).rows step

/-! ### Delivered at least once -/

variable {producers : FillProducer → Prop} {limit : ℤ}

/-- What a state of a row says of the run: a done row's message was sent, a dead row's attempts
are used up. -/
structure Fated (producers : FillProducer → Prop) (limit : ℤ) (t : List OutboxEvent)
    (row : QueueRow) : Prop where
  done : row.state = .done → ∃ body, row.body = .json body ∧ Sent producers t row.topic body
  dead : row.state = .dead → limit ≤ row.attempts

theorem Sent.append {t : List OutboxEvent} {topic : String} {body : PyVal}
    (h : Sent producers t topic body) (t' : List OutboxEvent) :
    Sent producers (t ++ t') topic body := by
  obtain ⟨p, hp, htopic, hmem⟩ := h
  exact ⟨p, hp, htopic, List.mem_append_left _ hmem⟩

theorem Fated.append {t : List OutboxEvent} {row : QueueRow} (h : Fated producers limit t row)
    (t' : List OutboxEvent) : Fated producers limit (t ++ t') row where
  done := by
    intro hdone
    obtain ⟨body, hbody, hsent⟩ := h.done hdone
    exact ⟨body, hbody, hsent.append t'⟩
  dead := h.dead

theorem mem_events_of_ownBeside {i : ι} {log : OutboxLog ι} {e : OutboxEvent}
    (h : e ∈ own i log) : e ∈ log.map Happened.event := by
  obtain ⟨happened, hmem, -, rfl⟩ := mem_own_iff.mp h
  exact List.mem_map_of_mem hmem

/-- The row of a handle that is acked has the body that was sent. -/
theorem sent_of_setDone {log : OutboxLog ι} {i : ι} {ackId : String} {row : QueueRow}
    (history : History (World.beside clockedWorld) (outboxProtocol producers limit)
      ⟨⟨.empty, []⟩, []⟩ log s)
    (hop : AcksSent producers (own i log) (.setDone ackId))
    (hrow : s.file.table.get? q = some row) (hid : row.ackId = some ackId) :
    ∃ body, row.body = .json body ∧ Sent producers (log.map Happened.event) row.topic body := by
  have hids := leaseRecord_of (drainProtocol_drawsFirst limit) history.left
  have hrows := rowRecord history.left
  obtain ⟨msg, ⟨seq, hleased, hoffered⟩, rfl, p, hp, htopic, hmem⟩ := hop ackId rfl
  have hin : ∀ e ∈ leftEvents (own i log), e ∈ (leftLog log).map Happened.event := by
    intro e he
    rw [← own_leftLog] at he
    exact mem_events_of_own he
  have hleased' : LeasedIn ((leftLog log).map Happened.event) seq msg.ackId := by
    obtain ⟨owner, leaseSec, hlease⟩ := hleased
    exact ⟨owner, leaseSec, hin _ hlease⟩
  have hoffered' : OfferedIn ((leftLog log).map Happened.event) msg.topic seq (.json msg.body) := by
    obtain ⟨now, n, picks, attempts, hselect, hpick⟩ := hoffered
    exact ⟨now, n, picks, attempts, hin _ hselect, hpick⟩
  obtain rfl : seq = q := hids.once seq q msg.ackId hleased' (hids.rows q row msg.ackId hrow hid)
  obtain ⟨offered, hofferedRow, htopic', hbody⟩ := hrows.offered msg.topic seq _ hoffered'
  obtain rfl : offered = row := Option.some.inj (hofferedRow.symm.trans hrow)
  exact ⟨msg.body, hbody, p, hp, htopic.trans htopic'.symm, mem_events_of_ownBeside hmem⟩

/-- A row that is marked dead has had as many attempts as the limit says. -/
theorem attempts_of_died {i : ι} {row : QueueRow}
    (history : History clockedWorld (drainProtocol limit) ⟨⟨.empty, []⟩, []⟩ log s)
    (hop : drainProtocol limit log (own i log) op) (hrow : s.file.table.get? q = some row)
    (hdied : op = .claimDead q ∨ ∃ ackId, op = .setDead ackId ∧ row.ackId = some ackId) :
    limit ≤ row.attempts := by
  have hids := leaseRecord_of (drainProtocol_drawsFirst limit) history
  have hreads := readRecord (drainProtocol_drawsFirst limit) history
  have hspent : ∀ pick : Picked, ReadOf s.file.table pick → pick.seq = q →
      limit ≤ pick.attempts → limit ≤ row.attempts := by
    rintro pick ⟨read, hread, hle⟩ rfl hlimit
    obtain rfl : read = row := Option.some.inj (hread.symm.trans hrow)
    exact hlimit.trans (Int.ofNat_le.mpr hle)
  rcases hdied with rfl | ⟨ackId, rfl, hid⟩
  · obtain ⟨subscription, notOwner, picks, hmem, pick, hpick, hseq, hlimit⟩ := hop
    have hread := hreads.orphans subscription notOwner picks (mem_events_of_own hmem) pick hpick
    exact hspent pick hread hseq hlimit
  · obtain ⟨pick, hmem, hlimit⟩ := hop
    obtain ⟨hleased, hread⟩ := hreads.handles ackId pick (mem_events_of_own hmem)
    exact hspent pick hread (hids.once _ q ackId hleased (hids.rows q row ackId hrow hid)) hlimit

/-- The rows of an outbox that started empty. -/
theorem fated {log : OutboxLog ι} (history : History (World.beside clockedWorld)
      (outboxProtocol producers limit) ⟨⟨.empty, []⟩, []⟩ log s) :
    ∀ q row, s.file.table.get? q = some row →
      Fated producers limit (log.map Happened.event) row := by
  induction history with
  | start => exact fun q row hrow => by cases hrow
  | @call log s i op r s' history hop step ih =>
      intro q row' hrow'
      rw [List.map_append]
      cases op with
      | inr op =>
          obtain rfl : s' = s := step
          exact (ih q row' hrow').append _
      | inl op =>
          refine ⟨fun hdone => ?_, fun hdead => ?_⟩
          · obtain ⟨row, hrow, htopic, hbody, hwas⟩ := done_before step hrow' hdone
            have hsent : ∃ body, row.body = .json body ∧
                Sent producers (log.map Happened.event) row.topic body := by
              rcases hwas with hstate | ⟨ackId, rfl, hid⟩
              · exact (ih q row hrow).done hstate
              · exact sent_of_setDone history hop.2 hrow hid
            obtain ⟨body, hjson, hsent⟩ := hsent
            exact ⟨body, hbody.trans hjson, htopic ▸ hsent.append _⟩
          · obtain ⟨row, hrow, -, -, hdied⟩ := dead_before step hrow' hdead
            obtain ⟨grown, hgrownRow, -, -, hle⟩ := grown_step step q row hrow
            obtain rfl : grown = row' := Option.some.inj (hgrownRow.symm.trans hrow')
            refine le_trans ?_ (Int.ofNat_le.mpr hle)
            have hprotocol : drainProtocol limit (leftLog log) (own i (leftLog log)) op := by
              rw [own_leftLog]
              exact hop.1
            rcases hdied with hstate | hclaimed | ⟨ackId, hset, hid⟩
            · exact (ih q row hrow).dead hstate
            · exact attempts_of_died history.left hprotocol hrow (.inl (Sigma.mk.inj hclaimed).1)
            · exact attempts_of_died history.left hprotocol hrow (.inr ⟨ackId, hset, hid⟩)

theorem grown_since {log : OutboxLog ι} {P : Protocol ι OutboxI Exc ClockedFile}
    {s₀ : ClockedFile} (history : History (World.beside clockedWorld) P s₀ log s) :
    ∀ h ∈ log, Grown h.after.file.table s.file.table := by
  induction history with
  | start => exact fun h hmem => by cases hmem
  | @call log s i op r s' history hop step ih =>
      intro h hmem
      rcases List.mem_append.mp hmem with hold | hnew
      · refine (ih h hold).trans ?_
        cases op with
        | inl op => exact grown_step step
        | inr op =>
            obtain rfl : s' = s := step
            exact .refl _
      · rw [List.mem_singleton.mp hnew]
        exact .refl _

/-- In every run of producers and emitters on an outbox that started empty: a written message is
there with its body and stays, it is done only if a producer of its topic has published exactly
this body, and it is dead only with its attempts used up. -/
theorem outbox_at_least_once (pool : Pool ι OutboxI Exc ClockedFile)
    (reaches : Pool.Reaches (World.beside clockedWorld) (OutboxUser producers limit)
      (.idle ⟨⟨.empty, []⟩, []⟩) pool) :
    (∀ q row, pool.shared.file.table.get? q = some row →
      Fated producers limit (pool.log.map Happened.event) row) ∧
    (∀ topic body, ⟨.inl (.insert topic body), .ok ()⟩ ∈ pool.log.map Happened.event →
      ∃ q row, pool.shared.file.table.get? q = some row ∧ row.topic = topic ∧ row.body = body) ∧
    ∀ h ∈ pool.log, Grown h.after.file.table pool.shared.file.table := by
  have history := outboxHistory reaches
  refine ⟨fated history, fun topic body hmem => ?_, grown_since history⟩
  apply (rowRecord history.left).inserted topic body
  rw [events_leftLog]
  exact mem_leftEvents.mpr hmem

/-- A control event on its way: written, handed over, published and acked. -/
def paused : Pool ℕ OutboxI Exc ClockedFile :=
  ((Pool.idle ⟨⟨.empty, []⟩, []⟩).starting 0
    (((FillProducer.fillProducer.emitControl 1 "PAUSED" [] "").interp
      (wireProducer FillProducer.outboxBackend)).bind fun _ => .ret ())).calls standing 0 11

theorem outbox_at_least_once_paused :
    LocalDurableBackend.rowState paused.shared.file.table 0 = some .done ∧
    (∀ q row, paused.shared.file.table.get? q = some row →
      Fated (fun p => p = FillProducer.fillProducer) 1000000000 (paused.log.map Happened.event) row) ∧
    (∀ topic body, ⟨.inl (.insert topic body), .ok ()⟩ ∈ paused.log.map Happened.event →
      ∃ q row, paused.shared.file.table.get? q = some row ∧ row.topic = topic ∧ row.body = body) ∧
    ∀ h ∈ paused.log, Grown h.after.file.table paused.shared.file.table := by
  refine ⟨by decide +kernel, outbox_at_least_once paused ?_⟩
  exact .calls standing_step 11 (.starting .refl rfl (.emitControl rfl le_rfl))

end System2
