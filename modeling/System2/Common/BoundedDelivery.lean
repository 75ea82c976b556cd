import System2.Common.HandleFencing
import System2.Common.LeaseIds

/-!
# How often a row is delivered

A lease counts in the row that it takes, and a row with `max_attempts` leases never becomes
ready again, whichever way it comes back: a nack, a lease that ran out, or the takeover of a
new instance. What a consumer is handed is counted against the row's own column.
-/

namespace System2
open Foundation

/-- The column of a row; a row that is not there has no attempts. -/
def QueueTable.attemptsAt (t : QueueTable) (q : ℕ) : ℕ := (t.get? q).elim 0 QueueRow.attempts

/-- Is row `q` leased under an id? -/
def QueueTable.leasedUnder (t : QueueTable) (q : ℕ) (ackId : String) : Bool :=
  (t.get? q).any (QueueRow.hasAckId ackId)

namespace LocalDurableBackend

/-- How many of the messages that a pull returned are row `q`: those whose id it carries. -/
def handedOut (t : QueueTable) (q : ℕ) (msgs : List ReceivedMessage) : ℕ :=
  msgs.countP fun msg => t.leasedUnder q msg.ackId

/-- How often a call handed out row `q`. A pull that raised or died handed out nothing. -/
def handedBy (t : QueueTable) (q : ℕ) : Option (Except Exc (List ReceivedMessage)) → ℕ
  | some (.ok msgs) => handedOut t q msgs
  | _ => 0

/-- The files that the calls of any number of backends with the same `max_attempts` lead to, and
how often each row was handed to a consumer. A handle may be any, and a call may die. -/
inductive Deliveries (maxAttempts : ℤ) : QueueFile → (ℕ → ℕ) → Prop
  | empty : Deliveries maxAttempts ⟨.empty, []⟩ fun _ => 0
  | publish {file file' handed topic body out} (run : Deliveries maxAttempts file handed)
      (exec : Exec queueWorld (publish topic body) file out file') :
      Deliveries maxAttempts file' handed
  | pull {file file' handed b subscription maxMessages out}
      (run : Deliveries maxAttempts file handed) (settings : b.maxAttempts = maxAttempts)
      (exec : Exec queueWorld (pull b subscription maxMessages) file out file') :
      Deliveries maxAttempts file' fun q => handed q + handedBy file'.table q out
  | settle {file file' handed b msg how out} (run : Deliveries maxAttempts file handed)
      (settings : b.maxAttempts = maxAttempts)
      (exec : Exec queueWorld (settleWith b msg how) file out file') :
      Deliveries maxAttempts file' handed
  | reclaim {file file' handed b subscription out} (run : Deliveries maxAttempts file handed)
      (settings : b.maxAttempts = maxAttempts)
      (exec : Exec queueWorld (reclaim b subscription) file out file') :
      Deliveries maxAttempts file' handed

/-- What bounds the deliveries of a row, when each row has been handed out so often. -/
structure Bounded (maxAttempts : ℤ) (handed : ℕ → ℕ) (f : QueueFile) : Prop where
  ids : f.IdsOk
  handed_le : ∀ q, handed q ≤ f.table.attemptsAt q
  attempts_le : ∀ q row, f.table.get? q = some row → (row.attempts : ℤ) ≤ maxAttempts
  ready_lt : ∀ q row, f.table.get? q = some row → row.state = .ready →
    (row.attempts : ℤ) < maxAttempts

/-- What a `SELECT` read of its rows is still so. -/
def Current (picks : List Picked) (t : QueueTable) : Prop :=
  ∀ pick ∈ picks, ∃ row, t.get? pick.seq = some row ∧ row.attempts = pick.attempts

/-- Statements that give out no row: ids are only drawn, and the rows keep their attempts. -/
structure Uncounted (f f' : QueueFile) : Prop where
  drawn : ∀ id ∈ f.drawn, id ∈ f'.drawn
  ids : QueueFile.NoNewIds f f'
  kept : ∀ q row, f.table.get? q = some row →
    ∃ row', f'.table.get? q = some row' ∧ row'.attempts = row.attempts
  old : ∀ q row', f'.table.get? q = some row' →
    (∃ row, f.table.get? q = some row ∧ row'.attempts = row.attempts) ∨ row'.attempts = 0

variable {maxAttempts : ℤ} {handed handed' : ℕ → ℕ} {f f' : QueueFile} {b : LocalDurableBackend}
  {picks : List Picked} {msg : ReceivedMessage} {subscription : String}

theorem attemptsAt_of_get? {t : QueueTable} {q : ℕ} {row : QueueRow} (h : t.get? q = some row) :
    t.attemptsAt q = row.attempts := by
  simp [QueueTable.attemptsAt, h]

theorem leasedUnder_iff {t : QueueTable} {q : ℕ} {ackId : String} :
    t.leasedUnder q ackId = true ↔ ∃ row, t.get? q = some row ∧ row.ackId = some ackId := by
  unfold QueueTable.leasedUnder
  cases t.get? q with
  | none => simp
  | some row => simp

theorem Bounded.mono (h : Bounded maxAttempts handed' f) (hle : ∀ q, handed q ≤ handed' q) :
    Bounded maxAttempts handed f where
  ids := h.ids
  handed_le := fun q => (hle q).trans (h.handed_le q)
  attempts_le := h.attempts_le
  ready_lt := h.ready_lt

theorem Bounded.of_uncounted (h : Bounded maxAttempts handed f) (hlimit : 1 ≤ maxAttempts)
    (hsame : Uncounted f f')
    (hready : ∀ q row, f'.table.get? q = some row → row.state = .ready →
      (row.attempts : ℤ) < maxAttempts) : Bounded maxAttempts handed f' where
  ids := h.ids.of_noNewIds hsame.ids hsame.drawn
  handed_le := by
    intro q
    refine (h.handed_le q).trans ?_
    cases hq : f.table.get? q with
    | none => simp [QueueTable.attemptsAt, hq]
    | some row =>
        obtain ⟨row', hq', hattempts⟩ := hsame.kept q row hq
        rw [attemptsAt_of_get? hq, attemptsAt_of_get? hq', hattempts]
  attempts_le := by
    intro q row' hq'
    rcases hsame.old q row' hq' with ⟨row, hq, hattempts⟩ | hzero
    · rw [hattempts]
      exact h.attempts_le q row hq
    · omega
  ready_lt := hready

theorem Current.of_uncounted (h : Current picks f.table) (hsame : Uncounted f f') :
    Current picks f'.table := by
  intro pick hpick
  obtain ⟨row, hq, hattempts⟩ := h pick hpick
  obtain ⟨row', hq', hattempts'⟩ := hsame.kept pick.seq row hq
  exact ⟨row', hq', hattempts'.trans hattempts⟩

theorem Uncounted.refl (f : QueueFile) : Uncounted f f where
  drawn := fun _ h => h
  ids := fun _ row _ h hid => ⟨row, h, hid⟩
  kept := fun _ row h => ⟨row, h, rfl⟩
  old := fun _ row h => Or.inl ⟨row, h, rfl⟩

theorem Uncounted.trans {f'' : QueueFile} (h : Uncounted f f') (h' : Uncounted f' f'') :
    Uncounted f f'' where
  drawn := fun id hid => h'.drawn id (h.drawn id hid)
  ids := by
    intro q row'' id hq'' hid''
    obtain ⟨row', hq', hid'⟩ := h'.ids q row'' id hq'' hid''
    exact h.ids q row' id hq' hid'
  kept := by
    intro q row hq
    obtain ⟨row', hq', hattempts⟩ := h.kept q row hq
    obtain ⟨row'', hq'', hattempts'⟩ := h'.kept q row' hq'
    exact ⟨row'', hq'', hattempts'.trans hattempts⟩
  old := by
    intro q row'' hq''
    rcases h'.old q row'' hq'' with ⟨row', hq', hattempts'⟩ | hzero
    · rcases h.old q row' hq' with ⟨row, hq, hattempts⟩ | hzero
      · exact Or.inl ⟨row, hq, hattempts'.trans hattempts⟩
      · exact Or.inr (hattempts'.trans hzero)
    · exact Or.inr hzero

/-- No statement but a lease counts. -/
theorem uncounted_after {o : QueueCall} (ho : QueueFile.isLease o = false) (dbNow : Binary64)
    (a : o.Ans) : Uncounted f ⟨o.after dbNow f.table, o.draws a ++ f.drawn⟩ := by
  have hattempts : ∀ {q row row'}, o.Leaves dbNow q row row' → row'.attempts = row.attempts := by
    intro q row row' hleft
    cases hleft with
    | leased => cases ho
    | _ => rfl
  refine ⟨fun _ hid => List.mem_append_right _ hid, QueueFile.noNewIds_after ho dbNow _, ?_, ?_⟩
  · intro q row hq
    obtain ⟨row', hq', hleft⟩ := o.exists_after hq
    exact ⟨row', hq', hattempts hleft⟩
  · intro q row' hq'
    rcases QueueCall.of_after hq' with ⟨row, hq, hleft⟩ | ⟨topic, body, -, -, rfl⟩
    · exact Or.inl ⟨row, hq, hattempts hleft⟩
    · exact Or.inr rfl

/-- The row that a statement makes ready has attempts left. -/
def Spares (maxAttempts : ℤ) (t : QueueTable) : QueueCall → Prop
  | .reclaim seq => ∃ row, t.get? seq = some row ∧ (row.attempts : ℤ) < maxAttempts
  | .release seq _ => ∃ row, t.get? seq = some row ∧ (row.attempts : ℤ) < maxAttempts
  | op => QueueFile.isLease op = false

theorem Spares.not_lease {t : QueueTable} {o : QueueCall} (h : Spares maxAttempts t o) :
    QueueFile.isLease o = false := by
  cases o with
  | lease seq ackId owner leaseSec => exact h
  | _ => rfl

/-- After a statement that counts nothing the ready rows still have attempts left. -/
theorem Bounded.ready_after {o : QueueCall} (h : Bounded maxAttempts handed f)
    (hlimit : 1 ≤ maxAttempts) (ho : Spares maxAttempts f.table o) (dbNow : Binary64) {q : ℕ}
    {row' : QueueRow} (hq' : (o.after dbNow f.table).get? q = some row')
    (hready : row'.state = .ready) : (row'.attempts : ℤ) < maxAttempts := by
  rcases QueueCall.of_after hq' with ⟨row, hq, hleft⟩ | ⟨topic, body, -, -, rfl⟩
  swap
  · change ((0 : ℕ) : ℤ) < maxAttempts
    omega
  cases hleft with
  | kept => exact h.ready_lt q row' hq hready
  | reclaimed =>
      obtain ⟨picked, hpicked, hspare⟩ := ho
      obtain rfl : row = picked := Option.some.inj (hq.symm.trans hpicked)
      exact hspare
  | released =>
      obtain ⟨picked, hpicked, hspare⟩ := ho
      obtain rfl : row = picked := Option.some.inj (hq.symm.trans hpicked)
      exact hspare
  | leased => cases hready
  | claimed => cases hready
  | done => cases hready
  | dead => cases hready

section Methods

variable (hlimit : 1 ≤ maxAttempts)
include hlimit

/-- A statement that counts nothing. -/
theorem Bounded.wpc_uncounted {op : QueueCall} (h : Bounded maxAttempts handed f)
    (hop : Spares maxAttempts f.table op) :
    wpc queueWorld (Bounded maxAttempts handed) (perform op)
      (fun r f' => Uncounted f f' ∧ ∀ a, r = .ok a → ∃ dbNow, op.answers dbNow f a) f := by
  apply wpc_of_perform h
  rintro r f' (⟨dbNow, a, rfl, hanswers, rfl⟩ | ⟨⟨e, rfl⟩, rfl⟩)
  · have hsame := uncounted_after (f := f) hop.not_lease dbNow a
    refine ⟨h.of_uncounted hlimit hsame fun q row => h.ready_after hlimit hop dbNow, hsame, ?_⟩
    rintro a' ⟨⟩
    exact ⟨dbNow, hanswers⟩
  · exact ⟨h, .refl f', fun a ha => nomatch ha⟩

theorem Bounded.wpc_reclaimRow {orphan : Picked} (hb : b.maxAttempts = maxAttempts)
    (h : Bounded maxAttempts handed f) (hcurrent : Current [orphan] f.table) :
    wpc queueWorld (Bounded maxAttempts handed) (b.reclaimRow subscription orphan)
      (fun _ f' => Uncounted f f') f := by
  unfold reclaimRow
  split_ifs with hexhausted
  · refine wpc_seq (Bounded.wpc_uncounted hlimit h rfl) ?_ fun e f₁ _ h₁ => h₁.1
    rintro claimed f₁ hf₁ ⟨hsame₁, -⟩
    split_ifs
    · refine wpc_seq (Bounded.wpc_uncounted hlimit hf₁ rfl) ?_ fun e f₂ _ h₂ => hsame₁.trans h₂.1
      rintro timestamp f₂ hf₂ ⟨hsame₂, -⟩
      exact wpc_post (Bounded.wpc_uncounted hlimit hf₂ rfl) fun r f₃ _ h₃ =>
        (hsame₁.trans hsame₂).trans h₃.1
    · exact ⟨hf₁, hsame₁⟩
  · obtain ⟨row, hq, hattempts⟩ := hcurrent orphan List.mem_cons_self
    have hspare : (orphan.attempts : ℤ) < b.maxAttempts := by simpa [exhausted] using hexhausted
    refine wpc_post (Bounded.wpc_uncounted hlimit h ⟨row, hq, ?_⟩) fun r f₁ _ h₁ => h₁.1
    omega

theorem Bounded.wpc_reclaimRows {orphans : List Picked} (hb : b.maxAttempts = maxAttempts)
    (h : Bounded maxAttempts handed f) (hcurrent : Current orphans f.table) :
    wpc queueWorld (Bounded maxAttempts handed) (b.reclaimRows subscription orphans)
      (fun _ _ => True) f := by
  induction orphans generalizing f with
  | nil => exact ⟨h, trivial⟩
  | cons orphan rest ih =>
      have hhead : Current [orphan] f.table := fun pick hpick =>
        hcurrent pick (List.mem_singleton.mp hpick ▸ List.mem_cons_self)
      refine wpc_seq (Bounded.wpc_reclaimRow hlimit hb h hhead) ?_ fun _ _ _ _ => trivial
      intro _ f₁ hf₁ hsame
      refine ih hf₁ (Current.of_uncounted (fun pick hpick => ?_) hsame)
      exact hcurrent pick (List.mem_cons_of_mem _ hpick)

theorem Bounded.wpc_reclaim (hb : b.maxAttempts = maxAttempts) (h : Bounded maxAttempts handed f) :
    wpc queueWorld (Bounded maxAttempts handed) (b.reclaim subscription) (fun _ _ => True) f := by
  refine wpc_seq (Bounded.wpc_uncounted hlimit h rfl) ?_ fun _ _ _ _ => trivial
  rintro firstPull f₁ hf₁ -
  refine wpc_seq (Bounded.wpc_uncounted hlimit hf₁ rfl) ?_ fun _ _ _ _ => trivial
  rintro orphans f₂ hf₂ ⟨hsame, hanswer⟩
  obtain ⟨dbNow, hselected⟩ := hanswer orphans rfl
  have hcurrent : Current orphans f₁.table := by
    intro pick hpick
    rw [hselected] at hpick
    obtain ⟨⟨q, row⟩, hmem, rfl⟩ := List.mem_map.mp hpick
    exact ⟨row, (Table.mem_select_iff.mp hmem).1, rfl⟩
  refine wpc_seq (Bounded.wpc_reclaimRows hlimit hb hf₂ (hcurrent.of_uncounted hsame)) ?_
    fun _ _ _ _ => trivial
  exact fun _ f₃ hf₃ _ => ⟨hf₃, trivial⟩

theorem Bounded.wpc_toDlq {reason : FString} (h : Bounded maxAttempts handed f) :
    wpc queueWorld (Bounded maxAttempts handed) (toDlq msg reason) (fun _ _ => True) f := by
  refine wpc_seq (Bounded.wpc_uncounted hlimit h rfl) ?_ fun _ _ _ _ => trivial
  rintro timestamp f₁ hf₁ -
  refine wpc_seq (Bounded.wpc_uncounted hlimit hf₁ rfl) ?_ fun _ _ _ _ => trivial
  exact fun _ f₂ hf₂ _ => wpc_post (Bounded.wpc_uncounted hlimit hf₂ rfl) fun _ _ _ _ => trivial

theorem Bounded.wpc_nack {backoffSec : Binary64} (hb : b.maxAttempts = maxAttempts)
    (h : Bounded maxAttempts handed f) :
    wpc queueWorld (Bounded maxAttempts handed) (b.nack msg backoffSec) (fun _ _ => True) f := by
  refine wpc_seq (Bounded.wpc_uncounted hlimit h rfl) ?_ fun _ _ _ _ => trivial
  rintro picked f₁ hf₁ ⟨hsame, hanswer⟩
  cases picked with
  | none => exact ⟨hf₁, trivial⟩
  | some pick =>
      simp only
      split_ifs with hexhausted
      · exact Bounded.wpc_toDlq hlimit hf₁
      · refine wpc_seq (Bounded.wpc_uncounted hlimit hf₁ rfl) ?_ fun _ _ _ _ => trivial
        rintro now f₂ hf₂ ⟨hsame₂, -⟩
        obtain ⟨dbNow, hselected⟩ := hanswer (some pick) rfl
        obtain ⟨e, hhead, rfl⟩ := Option.map_eq_some_iff.mp hselected.symm
        have hrow := (Table.mem_select_iff.mp (List.mem_of_mem_head? hhead)).1
        have hcurrent : Current [QueueRow.picked e] f.table := fun pick hpick =>
          ⟨e.2, List.mem_singleton.mp hpick ▸ hrow, List.mem_singleton.mp hpick ▸ rfl⟩
        obtain ⟨row, hq, hattempts⟩ :=
          hcurrent.of_uncounted (hsame.trans hsame₂) _ List.mem_cons_self
        have hspare : ((QueueRow.picked e).attempts : ℤ) < b.maxAttempts := by
          simpa [exhausted] using hexhausted
        refine wpc_post (Bounded.wpc_uncounted hlimit hf₂ ⟨row, hq, ?_⟩) fun _ _ _ _ => trivial
        omega

theorem Bounded.wpc_settleWith {how : Settlement} (hb : b.maxAttempts = maxAttempts)
    (h : Bounded maxAttempts handed f) :
    wpc queueWorld (Bounded maxAttempts handed) (b.settleWith msg how) (fun _ _ => True) f := by
  cases how with
  | ack => exact wpc_post (Bounded.wpc_uncounted hlimit h rfl) fun _ _ _ _ => trivial
  | nack backoffSec => exact Bounded.wpc_nack hlimit hb h
  | toDlq reason => exact Bounded.wpc_toDlq hlimit h

end Methods

/-! ### Leases -/

/-- Ids that were drawn before stand on no row on which they did not stand then. -/
def NoOldIds (f f' : QueueFile) : Prop := ∀ id ∈ f.drawn, ∀ q,
  f'.table.leasedUnder q id = true → f.table.leasedUnder q id = true

/-- A file in which the id of the next lease is drawn. -/
theorem Bounded.drawn (h : Bounded maxAttempts handed f) (id : String) :
    Bounded maxAttempts handed ⟨f.table, id :: f.drawn⟩ where
  ids := h.ids.of_noNewIds (fun _ row _ hq hid => ⟨row, hq, hid⟩)
    fun _ hmem => List.mem_cons_of_mem _ hmem
  handed_le := h.handed_le
  attempts_le := h.attempts_le
  ready_lt := h.ready_lt

/-- A lease counts in the row that carries its id afterwards. -/
theorem Bounded.lease {seq : ℕ} {ackId owner : String} {leaseSec dbNow : Binary64}
    {t : QueueTable} (h : Bounded maxAttempts handed f) (hunused : f.Unused ackId)
    (ht : t = (QueueCall.lease seq ackId owner leaseSec).after dbNow f.table) :
    Bounded maxAttempts (fun q => handed q + if t.leasedUnder q ackId then 1 else 0)
      ⟨t, f.drawn⟩ := by
  have hrow : ∀ q row', t.get? q = some row' → ∃ row, f.table.get? q = some row ∧
      (row.state = .ready ∧ row' = row.leased ackId owner (dbNow.add leaseSec) ∨ row' = row) := by
    intro q row' hq'
    rw [ht, QueueCall.after_lease, Table.get?_update] at hq'
    obtain ⟨row, hq, rfl⟩ := Option.map_eq_some_iff.mp hq'
    refine ⟨row, hq, ?_⟩
    split_ifs with hp
    · simp only [decide_eq_true_eq] at hp
      exact Or.inl ⟨hp.2, rfl⟩
    · exact Or.inr rfl
  refine ⟨ht ▸ h.ids.lease hunused, fun q => ?_, fun q row' hq' => ?_, fun q row' hq' hready => ?_⟩
  · have hold := h.handed_le q
    cases hq' : t.get? q with
    | none =>
        have hnone : f.table.get? q = none := by
          rw [ht, QueueCall.after_lease, Table.get?_update, Option.map_eq_none_iff] at hq'
          exact hq'
        simpa [QueueTable.attemptsAt, QueueTable.leasedUnder, hnone, hq'] using hold
    | some row' =>
        obtain ⟨row, hq, ⟨-, rfl⟩ | rfl⟩ := hrow q row' hq'
        · rw [attemptsAt_of_get? hq] at hold
          rw [attemptsAt_of_get? hq']
          simp only [QueueRow.leased]
          split_ifs <;> omega
        · have hnot : t.leasedUnder q ackId = false := by
            simpa [QueueTable.leasedUnder, hq', QueueRow.hasAckId] using hunused.absent q row' hq
          rw [attemptsAt_of_get? hq] at hold
          rw [attemptsAt_of_get? hq', hnot]
          simpa using hold
  · obtain ⟨row, hq, ⟨hready, rfl⟩ | rfl⟩ := hrow q row' hq'
    · have hspare := h.ready_lt q row hq hready
      simp only [QueueRow.leased]
      omega
    · exact h.attempts_le q row' hq
  · obtain ⟨row, hq, ⟨-, rfl⟩ | rfl⟩ := hrow q row' hq'
    · cases hready
    · exact h.ready_lt q row' hq hready

/-- A lease puts no id but its own on a row. -/
theorem leasedUnder_of_lease {seq q : ℕ} {ackId owner id : String} {leaseSec dbNow : Binary64}
    (hid : id ≠ ackId)
    (h : ((QueueCall.lease seq ackId owner leaseSec).after dbNow f.table).leasedUnder q id = true) :
    f.table.leasedUnder q id = true := by
  obtain ⟨row', hq', hrow'⟩ := leasedUnder_iff.mp h
  rcases QueueFile.ackId_of_lease hq' hrow' with hold | ⟨-, heq⟩
  · exact leasedUnder_iff.mpr hold
  · exact absurd heq hid

/-- Counted is what the consumer is about to be handed under an id. -/
def counted (handed : ℕ → ℕ) (t : QueueTable) (ackId : String) (q : ℕ) : ℕ :=
  handed q + if t.leasedUnder q ackId then 1 else 0

/-- A fresh id is drawn, and a row is leased under it. -/
theorem Bounded.wpc_drawn_lease {seq : ℕ} {owner : String} {leaseSec : Binary64} {α : Type}
    {rest : String → Bool → Proc QueueI Exc α} {Q : Except Exc α → QueueFile → Prop}
    (h : Bounded maxAttempts handed f) (herr : ∀ e f', Q (.error e) f')
    (hrest : ∀ ackId claimed f', ackId ∈ f'.drawn → NoOldIds f f' →
      (∀ id ∈ f.drawn, id ∈ f'.drawn) →
      Bounded maxAttempts (counted handed f'.table ackId) f' →
      wpc queueWorld (Bounded maxAttempts handed) (rest ackId claimed) Q f') :
    wpc queueWorld (Bounded maxAttempts handed) ((perform .uuid4).bind fun ackId =>
      (perform (.lease seq ackId owner leaseSec)).bind (rest ackId)) Q f := by
  refine wpc_seq (R := fun r f' => ∀ ackId, r = .ok ackId →
    ackId ∉ f.drawn ∧ f' = ⟨f.table, ackId :: f.drawn⟩) ?_ ?_ fun e f' _ _ => herr e f'
  · apply wpc_of_perform h
    rintro r f' (⟨dbNow, a, rfl, hfresh, rfl⟩ | ⟨⟨e, rfl⟩, rfl⟩)
    · refine ⟨h.drawn a, ?_⟩
      rintro ackId ⟨⟩
      exact ⟨hfresh, rfl⟩
    · exact ⟨h, fun ackId ha => nomatch ha⟩
  · intro ackId f₁ hf₁ hdrawn
    obtain ⟨hfresh, rfl⟩ := hdrawn ackId rfl
    refine wpc_seq (R := fun r f' => ∀ claimed, r = .ok claimed → ∃ dbNow,
      f' = ⟨(QueueCall.lease seq ackId owner leaseSec).after dbNow f.table,
        ackId :: f.drawn⟩) ?_ ?_ fun e f' _ _ => herr e f'
    · apply wpc_of_perform hf₁
      rintro r f' (⟨dbNow, a, rfl, -, rfl⟩ | ⟨⟨e, rfl⟩, rfl⟩)
      · exact ⟨(hf₁.lease (h.ids.unused hfresh) rfl).mono fun q => Nat.le_add_right _ _,
          fun _ _ => ⟨dbNow, rfl⟩⟩
      · exact ⟨hf₁, fun claimed hclaimed => nomatch hclaimed⟩
    · intro claimed f₂ hf₂ hleased
      obtain ⟨dbNow, rfl⟩ := hleased claimed rfl
      refine hrest ackId claimed _ List.mem_cons_self (fun id hid q hq => ?_)
        (fun id hid => List.mem_cons_of_mem _ hid) (hf₁.lease (h.ids.unused hfresh) rfl)
      refine leasedUnder_of_lease (fun heq => hfresh ?_) hq
      exact heq ▸ hid

theorem Bounded.wpc_leaseRows {rows : List Picked} (h : Bounded maxAttempts handed f) :
    wpc queueWorld (Bounded maxAttempts handed) (b.leaseRows subscription rows)
      (fun r f' => ∀ msgs, r = .ok msgs → NoOldIds f f' ∧
        Bounded maxAttempts (fun q => handed q + handedOut f'.table q msgs) f') f := by
  induction rows generalizing f handed with
  | nil =>
      refine ⟨h, ?_⟩
      rintro msgs ⟨⟩
      exact ⟨fun _ _ _ hid => hid, h⟩
  | cons row rest ih =>
      refine Bounded.wpc_drawn_lease h (fun e f' msgs hmsgs => nomatch hmsgs) ?_
      intro ackId claimed f₁ hdrawn hids hgrows hcounted
      have hf₁ := hcounted.mono fun q => Nat.le_add_right _ _
      have hlater : ∀ f', NoOldIds f₁ f' → NoOldIds f f' := fun f' hnew id hid q hq =>
        hids id hid q (hnew id (hgrows id hid) q hq)
      -- the rest is counted on top of this lease
      have hrest := wpc_mono (ih hcounted) (fun f' hf' => hf'.mono fun q => Nat.le_add_right _ _)
        fun r f' _ hr => hr
      split_ifs
      · cases row.body.loads with
        | error e => exact ⟨hf₁, fun msgs hmsgs => nomatch hmsgs⟩
        | ok body =>
            refine wpc_seq (p := b.leaseRows subscription rest) hrest ?_
              fun e f' _ _ msgs hmsgs => by cases hmsgs
            intro msgs f' hf' hmsgs
            obtain ⟨hnew, hbounded⟩ := hmsgs msgs rfl
            refine ⟨hf', ?_⟩
            rintro out ⟨⟩
            refine ⟨hlater f' hnew, hbounded.mono fun q => ?_⟩
            have hle : (if f'.table.leasedUnder q ackId then 1 else 0) ≤
                if f₁.table.leasedUnder q ackId then 1 else 0 := by
              split_ifs with hlast hfirst
              · rfl
              · exact absurd (hnew ackId hdrawn q hlast) hfirst
              · exact Nat.zero_le _
              · rfl
            simp only [handedOut, List.countP_cons, counted] at *
            omega
      · refine wpc_post hrest fun r f' hf' hr msgs hmsgs => ?_
        obtain ⟨hnew, hbounded⟩ := hr msgs hmsgs
        refine ⟨hlater f' hnew, hbounded.mono fun q => ?_⟩
        exact Nat.add_le_add_right (Nat.le_add_right _ _) _

theorem Bounded.wpc_pull {n : ℤ} (hlimit : 1 ≤ maxAttempts) (hb : b.maxAttempts = maxAttempts)
    (h : Bounded maxAttempts handed f) :
    wpc queueWorld (Bounded maxAttempts handed) (b.pull subscription n)
      (fun r f' => ∀ msgs, r = .ok msgs →
        Bounded maxAttempts (fun q => handed q + handedOut f'.table q msgs) f') f := by
  refine wpc_seq (Bounded.wpc_reclaim hlimit hb h) ?_ fun e f' _ _ msgs hmsgs => nomatch hmsgs
  rintro - f₁ hf₁ -
  refine wpc_seq (Bounded.wpc_uncounted hlimit hf₁ rfl) ?_ fun e f' _ _ msgs hmsgs => nomatch hmsgs
  rintro now f₂ hf₂ -
  refine wpc_seq (Bounded.wpc_uncounted hlimit hf₂ rfl) ?_ fun e f' _ _ msgs hmsgs => nomatch hmsgs
  rintro rows f₃ hf₃ -
  exact wpc_post (Bounded.wpc_leaseRows hf₃) fun r f' _ hr msgs hmsgs => (hr msgs hmsgs).2

/-- In every run each row is bounded by its own column. -/
theorem Deliveries.bounded (hlimit : 1 ≤ maxAttempts) (run : Deliveries maxAttempts f handed) :
    Bounded maxAttempts handed f := by
  induction run with
  | empty =>
      refine ⟨⟨fun q row id hq => ?_, fun q row q' row' id hq => ?_⟩, fun q => Nat.zero_le _,
        fun q row hq => ?_, fun q row hq => ?_⟩
      all_goals exact nomatch hq
  | publish run exec ih => exact (wpc_sound exec (Bounded.wpc_uncounted hlimit ih rfl)).1
  | @pull file file' handed b subscription maxMessages out run settings exec ih =>
      obtain ⟨hkept, hout⟩ := wpc_sound exec (Bounded.wpc_pull hlimit settings ih)
      match out with
      | some (.ok msgs) => exact hout _ rfl msgs rfl
      | some (.error e) => exact hkept
      | none => exact hkept
  | settle run settings exec ih => exact (wpc_sound exec (Bounded.wpc_settleWith hlimit settings ih)).1
  | reclaim run settings exec ih => exact (wpc_sound exec (Bounded.wpc_reclaim hlimit settings ih)).1

/-- A row is handed out at most as often as its `attempts` column says, the column never exceeds
`max_attempts`, and a row that is ready stays below it. -/
theorem bounded_delivery (maxAttempts : ℤ) (hlimit : 1 ≤ maxAttempts) (file : QueueFile)
    (handed : ℕ → ℕ) (run : Deliveries maxAttempts file handed) (q : ℕ) (row : QueueRow)
    (hrow : file.table.get? q = some row) :
    handed q ≤ row.attempts ∧ (row.attempts : ℤ) ≤ maxAttempts ∧
      (row.state = .ready → (row.attempts : ℤ) < maxAttempts) := by
  have hbounded := run.bounded hlimit
  refine ⟨?_, hbounded.attempts_le q row hrow, hbounded.ready_lt q row hrow⟩
  have hle := hbounded.handed_le q
  rwa [attemptsAt_of_get? hrow] at hle

/-- How often each row was handed out by one publish and one pull. -/
def pulledHanded (q : ℕ) : ℕ := 0 + handedBy pulledFile.2.table q (some pulledFile.1)

theorem bounded_delivery_pulled : ∃ row, pulledFile.2.table.get? 0 = some row ∧
    pulledHanded 0 = 1 ∧ pulledHanded 0 ≤ row.attempts ∧ (row.attempts : ℤ) ≤ 5 ∧
      (row.state = .ready → (row.attempts : ℤ) < 5) := by
  have hthere : (pulledFile.2.table.get? 0).isSome = true := by decide +kernel
  obtain ⟨row, hrow⟩ := Option.isSome_iff_exists.mp hthere
  have hpublished : Deliveries 5 ((publish "orders" .null).run (still .zero) ⟨.empty, []⟩).2 _ :=
    .publish .empty (exec_run (still_step .zero) _ _)
  have hpulled : Deliveries 5 pulledFile.2 pulledHanded :=
    .pull hpublished rfl (exec_run (still_step .zero) (plainBackend.pull "orders" 1) _)
  exact ⟨row, hrow, by decide +kernel,
    bounded_delivery 5 (by decide) pulledFile.2 pulledHanded hpulled 0 row hrow⟩

end LocalDurableBackend

end System2
