import Mathlib.Logic.Relation
import System2.Common.ParkedRow

/-!
# A queue with one consumer

The rows of a subscription while one instance takes them and nobody else publishes to it or
consumes from it, and while every statement works. Other subscriptions of the same file may
change at any time.
-/

namespace System2
open Foundation

/-- What happens to the file elsewhere: no row of the subscription changes or arrives. -/
structure RowsStay (subscription : String) (f f' : QueueFile) : Prop where
  others : Elsewhere subscription f f'
  arrived : ∀ k row, f'.table.get? k = some row → row.topic = subscription →
    f.table.get? k = some row

theorem RowsStay.refl (subscription : String) (f : QueueFile) : RowsStay subscription f f :=
  ⟨.refl subscription f, fun _ _ h _ => h⟩

/-- The rows of a subscription from one file to another: none comes and none goes, their bodies
stay, and what becomes of each. -/
structure Rowwise (subscription : String) (R : ℕ → QueueRow → QueueRow → Prop)
    (f f' : QueueFile) : Prop where
  forth : ∀ k row, f.table.get? k = some row → row.topic = subscription →
    ∃ row', f'.table.get? k = some row' ∧ row'.topic = subscription ∧ row'.body = row.body ∧
      R k row row'
  back : ∀ k row', f'.table.get? k = some row' → row'.topic = subscription →
    ∃ row, f.table.get? k = some row ∧ row.topic = subscription

theorem QueueRow.isAvailable_iff {subscription : String} {now : Binary64} {row : QueueRow} :
    row.isAvailable subscription now = true ↔
      row.topic = subscription ∧ row.state = .ready ∧ row.availableAt.le now = true := by
  simp [QueueRow.isAvailable]

section Rowwise

variable {subscription : String} {R R' : ℕ → QueueRow → QueueRow → Prop} {f f' f'' : QueueFile}
  {k : ℕ} {row row' : QueueRow}

theorem Rowwise.mono (h : Rowwise subscription R f f')
    (hR : ∀ k row row', f.table.get? k = some row → row.topic = subscription → R k row row' →
      R' k row row') :
    Rowwise subscription R' f f' where
  forth := by
    intro k row hk htopic
    obtain ⟨row', hk', htopic', hbody, hrow⟩ := h.forth k row hk htopic
    exact ⟨row', hk', htopic', hbody, hR k row row' hk htopic hrow⟩
  back := h.back

theorem Rowwise.refl (f : QueueFile) : Rowwise subscription (fun _ row row' => row' = row) f f where
  forth := fun _ row hk htopic => ⟨row, hk, htopic, rfl, rfl⟩
  back := fun _ row hk htopic => ⟨row, hk, htopic⟩

theorem Rowwise.trans (h : Rowwise subscription R f f') (h' : Rowwise subscription R' f' f'') :
    Rowwise subscription (fun k row row'' => ∃ row', R k row row' ∧ R' k row' row'') f f'' where
  forth := by
    intro k row hk htopic
    obtain ⟨row', hk', htopic', hbody, hrow⟩ := h.forth k row hk htopic
    obtain ⟨row'', hk'', htopic'', hbody', hrow'⟩ := h'.forth k row' hk' htopic'
    exact ⟨row'', hk'', htopic'', hbody'.trans hbody, row', hrow, hrow'⟩
  back := by
    intro k row'' hk'' htopic''
    obtain ⟨row', hk', htopic'⟩ := h'.back k row'' hk'' htopic''
    exact h.back k row' hk' htopic'

/-- What became of a row that is there afterwards. -/
theorem Rowwise.of_after (h : Rowwise subscription R f f') (hk' : f'.table.get? k = some row')
    (htopic' : row'.topic = subscription) :
    ∃ row, f.table.get? k = some row ∧ row.topic = subscription ∧ row'.body = row.body ∧
      R k row row' := by
  obtain ⟨row, hk, htopic⟩ := h.back k row' hk' htopic'
  obtain ⟨row'', hk'', -, hbody, hrow⟩ := h.forth k row hk htopic
  obtain rfl : row' = row'' := Option.some.inj (hk'.symm.trans hk'')
  exact ⟨row, hk, htopic, hbody, hrow⟩

/-- Rows that all stay are selected as before. -/
theorem Rowwise.select_eq (h : Rowwise subscription (fun _ row row' => row' = row) f f')
    {p : QueueRow → Bool} (hp : ∀ row, p row = true → row.topic = subscription) :
    f'.table.select p = f.table.select p := by
  refine Table.select_eq_of_same fun k row hrow => ?_
  constructor
  · intro hk'
    obtain ⟨old, hk, -, -, rfl⟩ := h.of_after hk' (hp row hrow)
    exact hk
  · intro hk
    obtain ⟨row', hk', -, -, rfl⟩ := h.forth k row hk (hp row hrow)
    exact hk'

theorem RowsStay.rowwise (h : RowsStay subscription f f') :
    Rowwise subscription (fun _ row row' => row' = row) f f' where
  forth := fun k row hk htopic => ⟨row, h.others.kept k row hk htopic, htopic, rfl, rfl⟩
  back := fun k row hk htopic => ⟨row, h.arrived k row hk htopic, htopic⟩

end Rowwise

section Change

variable {subscription : String} {f : QueueFile}

/-- A statement acts on the rows of a subscription one by one, unless it adds to them. -/
theorem rowwise_after {op : QueueCall} (hop : ∀ topic body, op = .insert topic body →
    topic ≠ subscription) (dbNow : Binary64) (drawn : List String) :
    Rowwise subscription (fun k row row' => row' = op.change dbNow k row) f
      ⟨op.after dbNow f.table, drawn⟩ where
  forth := by
    intro k row hk htopic
    have hsame := (QueueCall.leaves_change dbNow k row op).same
    exact ⟨_, QueueCall.get?_after op hk, hsame.1.trans htopic, hsame.2, rfl⟩
  back := by
    intro k row' hk' htopic'
    rcases QueueCall.of_after hk' with ⟨row, hk, hleft⟩ | ⟨topic, body, rfl, -, rfl⟩
    · exact ⟨row, hk, hleft.same.1.symm.trans htopic'⟩
    · exact absurd htopic' (hop topic body rfl)

end Change

/-- The reading of the clock that an answer gives. -/
def QueueCall.reading : (op : QueueCall) → op.Ans → Option Binary64
  | .time, t => some t
  | _, _ => none

/-- The row that an answer hands over. -/
def QueueCall.takes : (op : QueueCall) → op.Ans → List ℕ
  | .lease seq _ _ _, true => [seq]
  | _, _ => []

/-- The file, the latest reading of the clock, and the rows that were leased and whose message
was not sent on yet, in order. -/
structure SoleFile where
  file : QueueFile
  clock : Binary64
  leased : List ℕ

/-- A subscription with one consumer: every statement works, and nobody else touches its rows. -/
def soleWorld (subscription : String) (tick : Binary64 → Binary64 → Prop) :
    World QueueI Exc SoleFile := fun s op r s' =>
  ∃ a f, r = .ok a ∧ queueWorld s.file op r f ∧ RowsStay subscription f s'.file ∧
    (∀ t ∈ op.reading a, tick s.clock t) ∧ s'.clock = (op.reading a).getD s.clock ∧
    s'.leased = s.leased ++ op.takes a

/-- What a part of a run leads to: what becomes of each row, and the rows it has leased. -/
structure Leads (subscription : String) (tick : Binary64 → Binary64 → Prop)
    (R : ℕ → QueueRow → QueueRow → Prop) (taken : List ℕ) (s s' : SoleFile) : Prop where
  rows : Rowwise subscription R s.file s'.file
  ids : s'.file.IdsOk
  clock : Relation.ReflTransGen tick s.clock s'.clock
  leased : s'.leased = s.leased ++ taken

section Steps

variable {subscription : String} {tick : Binary64 → Binary64 → Prop}
  {R R' : ℕ → QueueRow → QueueRow → Prop} {taken taken' : List ℕ} {s s' s'' : SoleFile}

theorem Leads.mono (h : Leads subscription tick R taken s s')
    (hR : ∀ k row row', s.file.table.get? k = some row → row.topic = subscription →
      R k row row' → R' k row row') :
    Leads subscription tick R' taken s s' :=
  ⟨h.rows.mono hR, h.ids, h.clock, h.leased⟩

theorem Leads.trans (h : Leads subscription tick R taken s s')
    (h' : Leads subscription tick R' taken' s' s'') :
    Leads subscription tick (fun k row row'' => ∃ row', R k row row' ∧ R' k row' row'')
      (taken ++ taken') s s'' where
  rows := h.rows.trans h'.rows
  ids := h'.ids
  clock := h.clock.trans h'.clock
  leased := by rw [h'.leased, h.leased, List.append_assoc]

theorem Leads.refl (hids : s.file.IdsOk) :
    Leads subscription tick (fun _ row row' => row' = row) [] s s where
  rows := .refl s.file
  ids := hids
  clock := .refl
  leased := (List.append_nil _).symm

/-- A part of a run behind which the rows stay. -/
theorem Leads.stays {taken : List ℕ} {s'' : SoleFile} (h : Leads subscription tick R taken s s')
    (h' : Leads subscription tick (fun _ row row' => row' = row) [] s' s'') :
    Leads subscription tick R taken s s'' := by
  have htrans := h.trans h'
  rw [List.append_nil] at htrans
  refine htrans.mono ?_
  rintro k row row' - - ⟨row₁, hrow, rfl⟩
  exact hrow

/-- One statement. A lease needs an id that is on no row. -/
theorem returns_call {op : QueueCall} {Q : op.Ans → SoleFile → Prop} (hids : s.file.IdsOk)
    (hinsert : ∀ topic body, op = .insert topic body → topic ≠ subscription)
    (hlease : ∀ seq ackId owner leaseSec, op = .lease seq ackId owner leaseSec →
      s.file.Unused ackId)
    (hQ : ∀ dbNow a s', op.answers dbNow s.file a →
      Leads subscription tick (fun k row row' => row' = op.change dbNow k row) (op.takes a) s s' →
      (∀ t ∈ op.reading a, s'.clock = t ∧ tick s.clock t) →
      (∀ id ∈ op.draws a, s'.file.Unused id) → Q a s') :
    Returns (soleWorld subscription tick) (LocalDurableBackend.perform op) Q s := by
  refine wpc_of_perform trivial ?_
  rintro r s' ⟨a, f, rfl, hfile, hapart, htick, hclock, hleased⟩
  refine ⟨trivial, a, rfl, ?_⟩
  rcases hfile with ⟨dbNow, a', ha, hanswer, rfl⟩ | ⟨⟨e, he⟩, -⟩
  · obtain rfl := Except.ok.inj ha
    have hrows := ((rowwise_after hinsert dbNow (op.draws a ++ s.file.drawn)).trans
      hapart.rowwise).mono fun _ _ _ _ _ h => h
    refine hQ dbNow a s' hanswer ⟨hrows.mono ?_, ?_, ?_, hleased⟩ ?_ ?_
    · rintro k row row' - - ⟨-, rfl, rfl⟩
      rfl
    · refine QueueFile.IdsOk.elsewhere ?_ hapart.others
      cases hop : QueueFile.isLease op with
      | false =>
          exact hids.of_noNewIds (QueueFile.noNewIds_after hop dbNow _)
            fun id hid => List.mem_append_right _ hid
      | true =>
          cases op with
          | lease seq ackId owner leaseSec => exact hids.lease (hlease _ _ _ _ rfl)
          | _ => cases hop
    · cases ht : op.reading a with
      | none => rw [hclock, ht]; exact .refl
      | some t => rw [hclock, ht]; exact .single (htick t ht)
    · intro t ht
      refine ⟨?_, htick t ht⟩
      rw [hclock, ht]
      rfl
    · intro id hid
      cases op with
      | uuid4 =>
          rw [show id = a from List.mem_singleton.mp hid]
          exact (hids.unused hanswer).elsewhere hapart.others
      | _ => cases hid
  · cases he

/-- A statement that gives out no row and draws no id. -/
theorem returns_plain {op : QueueCall} {Q : op.Ans → SoleFile → Prop} (hids : s.file.IdsOk)
    (hlease : QueueFile.isLease op = false)
    (hinsert : ∀ topic body, op = .insert topic body → topic ≠ subscription)
    (hQ : ∀ dbNow a s', op.answers dbNow s.file a →
      Leads subscription tick (fun k row row' => row' = op.change dbNow k row) [] s s' →
      (∀ t ∈ op.reading a, s'.clock = t ∧ tick s.clock t) → Q a s') :
    Returns (soleWorld subscription tick) (LocalDurableBackend.perform op) Q s := by
  refine returns_call hids hinsert ?_ ?_
  · rintro seq ackId owner leaseSec rfl
    cases hlease
  · intro dbNow a s' hanswer hleads hclock _
    refine hQ dbNow a s' hanswer ?_ hclock
    have htakes : op.takes a = [] := by
      cases op with
      | lease seq ackId owner leaseSec => cases hlease
      | _ => rfl
    rwa [htakes] at hleads

/-- A statement that changes no row. -/
theorem returns_read {op : QueueCall} (hids : s.file.IdsOk) (hlease : QueueFile.isLease op = false)
    (hinsert : ∀ topic body, op = .insert topic body → topic ≠ subscription)
    (hread : ∀ dbNow k row, op.change dbNow k row = row) :
    Returns (soleWorld subscription tick) (LocalDurableBackend.perform op) (fun a s' =>
      Leads subscription tick (fun _ row row' => row' = row) [] s s' ∧
        (∃ dbNow, op.answers dbNow s.file a) ∧
        ∀ t ∈ op.reading a, s'.clock = t ∧ tick s.clock t) s := by
  refine returns_plain hids hlease hinsert fun dbNow a s' hanswer hleads hclock => ?_
  refine ⟨hleads.mono ?_, ⟨dbNow, hanswer⟩, hclock⟩
  intro k row row' _ _ hrow
  rw [hrow, hread]

end Steps

namespace LocalDurableBackend

/-- The dead letters of a subscription are another one. -/
theorem dlq_ne (subscription : String) : subscription ++ ".dlq" ≠ subscription := by
  intro h
  have hlength := congrArg String.length h
  rw [String.length_append] at hlength
  exact absurd (Nat.add_eq_left.mp hlength) (by decide)

/-- What the reaper makes of a row: nothing, or a row in flight becomes ready or dead. -/
def Reclaimed (row row' : QueueRow) : Prop :=
  row' = row ∨ (row.state = .inflight ∧ row'.attempts = row.attempts ∧
    (row'.state = .ready ∨ row'.state = .dead))

theorem Reclaimed.trans {row row' row'' : QueueRow} (h : Reclaimed row row')
    (h' : Reclaimed row' row'') : Reclaimed row row'' := by
  rcases h with rfl | ⟨hflight, hattempts, hstate⟩
  · exact h'
  · rcases h' with rfl | ⟨hflight', -, -⟩
    · exact Or.inr ⟨hflight, hattempts, hstate⟩
    · rcases hstate with hstate | hstate <;> rw [hstate] at hflight' <;> cases hflight'

/-- A selected row that is still ready, with a message in it. -/
def ReadyPick (subscription : String) (f : QueueFile) (pick : Picked) : Prop :=
  (∃ d, pick.body = .json (.dict d)) ∧ ∃ row, f.table.get? pick.seq = some row ∧
    row.topic = subscription ∧ row.state = .ready ∧ row.attempts = pick.attempts

/-- The row of a key is leased for a message. -/
def Holds (subscription : String) (f : QueueFile) (k : ℕ) (msg : ReceivedMessage) : Prop :=
  msg.topic = subscription ∧ (∃ d, msg.body = .dict d) ∧ ∃ row, f.table.get? k = some row ∧
    row.topic = subscription ∧ row.state = .inflight ∧ row.ackId = some msg.ackId

/-- What the leasing of some rows makes of each. -/
def Leased (taken : List ℕ) (k : ℕ) (row row' : QueueRow) : Prop :=
  if k ∈ taken then row.state = .ready ∧ row'.state = .inflight ∧ row'.attempts = row.attempts + 1
  else row' = row

/-- What a pull makes of each row. -/
def Pulled (taken : List ℕ) (k : ℕ) (row row' : QueueRow) : Prop :=
  if k ∈ taken then (row.state = .ready ∨ row.state = .inflight) ∧ row'.state = .inflight ∧
    row'.attempts = row.attempts + 1
  else Reclaimed row row'

section Specs

variable {b : LocalDurableBackend} {subscription : String} {tick : Binary64 → Binary64 → Prop}
  {s s' : SoleFile} {R : ℕ → QueueRow → QueueRow → Prop} {k : ℕ} {msg : ReceivedMessage}

theorem returns_deadLetterRow {orphan : Picked} {reason : FString} (hids : s.file.IdsOk) :
    Returns (soleWorld subscription tick) (deadLetterRow orphan subscription reason)
      (fun _ s' => Leads subscription tick (fun _ => Reclaimed) [] s s') s := by
  have hclaim : Returns (soleWorld subscription tick) (perform (.claimDead orphan.seq))
      (fun _ s' => Leads subscription tick (fun _ => Reclaimed) [] s s') s := by
    refine returns_plain hids rfl (fun _ _ h => by cases h) fun dbNow _ s₁ _ h₁ _ => h₁.mono ?_
    intro k row row' _ _ hrow
    rw [hrow, QueueCall.change]
    split_ifs with hflight
    · exact Or.inr ⟨hflight.2, rfl, Or.inr rfl⟩
    · exact Or.inl rfl
  refine hclaim.bind fun claimed s₁ h₁ => ?_
  split_ifs
  · refine Returns.bind (returns_read h₁.ids rfl (fun _ _ h => by cases h) fun _ _ _ => rfl) ?_
    rintro timestamp s₂ ⟨h₂, -⟩
    refine (returns_read h₂.ids rfl ?_ fun _ _ _ => rfl).mono fun _ s₃ h₃ => (h₁.stays h₂).stays h₃.1
    rintro topic body ⟨⟩
    exact dlq_ne subscription
  · exact returns_ret h₁

theorem returns_reclaimRows {orphans : List Picked} (hids : s.file.IdsOk) :
    Returns (soleWorld subscription tick) (b.reclaimRows subscription orphans)
      (fun _ s' => Leads subscription tick (fun _ => Reclaimed) [] s s') s := by
  induction orphans generalizing s with
  | nil => exact returns_ret ((Leads.refl hids).mono fun _ _ _ _ _ hrow => Or.inl hrow)
  | cons orphan rest ih =>
      have hfirst : Returns (soleWorld subscription tick) (b.reclaimRow subscription orphan)
          (fun _ s' => Leads subscription tick (fun _ => Reclaimed) [] s s') s := by
        unfold reclaimRow
        split_ifs
        · exact returns_deadLetterRow hids
        · refine returns_plain hids rfl nofun fun dbNow _ s₁ _ h₁ _ => h₁.mono ?_
          intro k row row' _ _ hrow
          rw [hrow, QueueCall.change]
          split_ifs with hflight
          · exact Or.inr ⟨hflight.2, rfl, Or.inl rfl⟩
          · exact Or.inl rfl
      refine Returns.bind hfirst fun _ s₁ h₁ => (ih h₁.ids).mono ?_
      intro _ s₂ h₂
      refine (h₁.trans h₂).mono ?_
      rintro k row row' - - ⟨row₁, hrow, hrow'⟩
      exact hrow.trans hrow'

theorem returns_reclaim (hids : s.file.IdsOk) :
    Returns (soleWorld subscription tick) (b.reclaim subscription)
      (fun _ s' => Leads subscription tick (fun _ => Reclaimed) [] s s') s := by
  refine Returns.bind (returns_read hids rfl nofun fun _ _ _ => rfl) ?_
  rintro firstPull s₁ ⟨h₁, -⟩
  refine Returns.bind (returns_read h₁.ids rfl nofun fun _ _ _ => rfl) ?_
  rintro orphans s₂ ⟨h₂, -⟩
  refine Returns.bind (returns_reclaimRows h₂.ids) fun _ s₃ h₃ => returns_ret ?_
  refine ((h₁.stays h₂).trans h₃).mono ?_
  rintro k row row' - - ⟨row₁, rfl, hrow⟩
  exact hrow

/-- A ready row is leased under a fresh id. -/
theorem returns_lease {pick : Picked} {ackId : String} (hids : s.file.IdsOk)
    (hready : ReadyPick subscription s.file pick) (hunused : s.file.Unused ackId) :
    Returns (soleWorld subscription tick) (perform (.lease pick.seq ackId b.owner b.leaseSec))
      (fun claimed s' => claimed = true ∧
        Leads subscription tick (Leased [pick.seq]) [pick.seq] s s' ∧
        ∃ row, s'.file.table.get? pick.seq = some row ∧ row.topic = subscription ∧
          row.state = .inflight ∧ row.ackId = some ackId) s := by
  obtain ⟨-, row, hrow, htopic, hstate, -⟩ := hready
  refine returns_call hids nofun ?_ ?_
  · rintro seq id owner leaseSec ⟨⟩
    exact hunused
  · intro dbNow claimed s' hanswer hleads _ _
    have hclaimed : claimed = true := by
      rw [show claimed = QueueTable.isIn s.file.table pick.seq .ready from hanswer]
      simp [QueueTable.isIn, hrow, hstate]
    subst hclaimed
    refine ⟨rfl, hleads.mono ?_, ?_⟩
    · intro k row₁ row' hk _ hrow'
      rw [hrow', QueueCall.change, Leased]
      by_cases hkey : k = pick.seq
      · obtain rfl : row₁ = row := Option.some.inj ((hkey ▸ hk).symm.trans hrow)
        simp [hkey, hstate, QueueRow.leased]
      · simp [hkey]
    · obtain ⟨row', hrow', htopic', -, hchange⟩ := hleads.rows.forth pick.seq row hrow htopic
      refine ⟨row', hrow', htopic', ?_⟩
      rw [hchange, QueueCall.change, if_pos ⟨rfl, hstate⟩]
      exact ⟨rfl, rfl⟩

theorem returns_leaseRows {rows : List Picked} (hids : s.file.IdsOk)
    (hrows : ∀ pick ∈ rows, ReadyPick subscription s.file pick)
    (hnodup : (rows.map Picked.seq).Nodup) :
    Returns (soleWorld subscription tick) (b.leaseRows subscription rows) (fun msgs s' =>
      Leads subscription tick (Leased (rows.map Picked.seq)) (rows.map Picked.seq) s s' ∧
        List.Forall₂ (Holds subscription s'.file) (rows.map Picked.seq) msgs) s := by
  induction rows generalizing s with
  | nil =>
      refine returns_ret ⟨(Leads.refl hids).mono ?_, .nil⟩
      intro k row row' _ _ hrow
      simpa [Leased] using hrow
  | cons pick rest ih =>
      obtain ⟨hfresh, hnodup⟩ := List.nodup_cons.mp hnodup
      have hpick := hrows pick List.mem_cons_self
      have hdraw : Returns (soleWorld subscription tick) (perform .uuid4) (fun ackId s' =>
          Leads subscription tick (fun _ row row' => row' = row) [] s s' ∧
            s'.file.Unused ackId) s :=
        returns_call hids nofun nofun fun _ ackId s₁ _ h₁ _ hunused =>
          ⟨h₁, hunused ackId List.mem_cons_self⟩
      refine hdraw.bind ?_
      rintro ackId s₁ ⟨h₁, hunused⟩
      have hstay : ∀ {pick' : Picked}, ReadyPick subscription s.file pick' →
          ReadyPick subscription s₁.file pick' := by
        rintro pick' ⟨hbody, row, hrow, htopic, hready⟩
        obtain ⟨row', hrow', htopic', -, rfl⟩ := h₁.rows.forth _ row hrow htopic
        exact ⟨hbody, row', hrow', htopic', hready⟩
      refine (returns_lease h₁.ids (hstay hpick) hunused).bind ?_
      rintro claimed s₂ ⟨rfl, h₂, row, hrow, htopic, hstate, hackId⟩
      rw [if_pos rfl]
      obtain ⟨d, hd⟩ := hpick.1
      simp only [hd, RowBody.loads, Proc.ofExcept, Proc.bind_eq, Proc.ret_bind]
      have hrest : ∀ pick' ∈ rest, ReadyPick subscription s₂.file pick' := by
        intro pick' hpick'
        obtain ⟨hbody, row, hrow, htopic, hready⟩ := hstay (hrows pick' (List.mem_cons_of_mem _ hpick'))
        obtain ⟨row', hrow', htopic', -, hleased⟩ := h₂.rows.forth _ row hrow htopic
        have hne : pick'.seq ∉ [pick.seq] := by
          intro hmem
          rw [List.mem_singleton] at hmem
          exact hfresh (hmem ▸ List.mem_map_of_mem hpick')
        rw [Leased, if_neg hne] at hleased
        exact ⟨hbody, row', hrow', htopic', hleased ▸ hready⟩
      refine Returns.bind (ih h₂.ids hrest hnodup) ?_
      rintro msgs s₃ ⟨h₃, hmsgs⟩
      refine returns_ret ⟨?_, .cons ⟨rfl, ⟨d, rfl⟩, ?_⟩ hmsgs⟩
      · have htrans := h₁.trans (h₂.trans h₃)
        refine Leads.mono htrans ?_
        rintro k row row' - - ⟨row₁, rfl, row₂, hfirst, hlater⟩
        -- the row of this pick is not among the later ones
        simp only [Leased, List.map_cons, List.mem_cons, List.not_mem_nil, or_false] at hfirst hlater ⊢
        by_cases hkey : k = pick.seq
        · rw [if_neg (hkey ▸ hfresh)] at hlater
          rw [if_pos hkey] at hfirst
          rw [if_pos (Or.inl hkey), hlater]
          exact hfirst
        · rw [if_neg hkey] at hfirst
          subst hfirst
          simpa [hkey] using hlater
      · obtain ⟨row', hrow', htopic', -, hleased⟩ := h₃.rows.forth _ row hrow htopic
        rw [Leased, if_neg hfresh] at hleased
        subst hleased
        exact ⟨row', hrow', htopic', hstate, hackId⟩

/-- No row of the subscription is in flight. -/
def NoneInFlight (subscription : String) (f : QueueFile) : Prop :=
  ∀ k row, f.table.get? k = some row → row.topic = subscription → row.state ≠ .inflight

/-- The keys that a pull takes when no row is in flight. -/
def batchKeys (f : QueueFile) (subscription : String) (now : Binary64) (n : ℤ) : List ℕ :=
  (limited n (f.table.select (QueueRow.isAvailable subscription now))).map Prod.fst

theorem returns_pull {n : ℤ} (hids : s.file.IdsOk)
    (hbodies : ∀ k row, s.file.table.get? k = some row → row.topic = subscription →
      ∃ d, row.body = .json (.dict d)) :
    Returns (soleWorld subscription tick) (b.pull subscription n) (fun msgs s' => ∃ taken,
      Leads subscription tick (Pulled taken) taken s s' ∧ taken.Nodup ∧
        List.Forall₂ (Holds subscription s'.file) taken msgs ∧
        (NoneInFlight subscription s.file →
          ∃ now, taken = batchKeys s.file subscription now n ∧
            Relation.ReflTransGen tick s.clock now)) s := by
  refine Returns.bind (returns_reclaim hids) fun _ s₁ h₁ => ?_
  refine Returns.bind (returns_read h₁.ids rfl nofun fun _ _ _ => rfl) ?_
  rintro now s₂ ⟨h₂, -, hnow⟩
  obtain ⟨hclock, -⟩ := hnow now rfl
  refine Returns.bind (returns_read h₂.ids rfl nofun fun _ _ _ => rfl) ?_
  rintro rows s₃ ⟨h₃, ⟨dbNow, hrows⟩, -⟩
  have hreclaimed := (h₁.stays h₂).stays h₃
  -- the rows were ready when they were selected, and still are
  have hselected : ∀ pick ∈ rows, ∃ row, s₂.file.table.get? pick.seq = some row ∧
      QueueRow.isAvailable subscription now row = true ∧ pick = QueueRow.picked (pick.seq, row) := by
    intro pick hpick
    rw [show rows = _ from hrows] at hpick
    obtain ⟨⟨k, row⟩, hmem, rfl⟩ := List.mem_map.mp hpick
    obtain ⟨hk, havailable⟩ := Table.mem_select_iff.mp ((limited_sublist _ _).subset hmem)
    exact ⟨row, hk, havailable, rfl⟩
  have hready : ∀ pick ∈ rows, ReadyPick subscription s₃.file pick := by
    intro pick hpick
    obtain ⟨row, hk, havailable, hpicked⟩ := hselected pick hpick
    obtain ⟨htopic, hstate, -⟩ := QueueRow.isAvailable_iff.mp havailable
    obtain ⟨old, hold, hotopic, hbody, -⟩ := (h₁.stays h₂).rows.of_after hk htopic
    obtain ⟨d, hd⟩ := hbodies _ old hold hotopic
    obtain ⟨row', hk', htopic', -, rfl⟩ := h₃.rows.forth _ row hk htopic
    refine ⟨⟨d, ?_⟩, row', hk', htopic', hstate, ?_⟩
    · rw [hpicked]
      exact hbody.trans hd
    · rw [hpicked]
      rfl
  have hkeys : rows.map Picked.seq = batchKeys s₂.file subscription now n := by
    rw [show rows = _ from hrows, List.map_map]
    rfl
  have hnodup : (rows.map Picked.seq).Nodup := by
    rw [hkeys]
    exact (Table.select_keys_nodup _).sublist ((limited_sublist _ _).map _)
  refine (returns_leaseRows h₃.ids hready hnodup).mono ?_
  rintro msgs s₄ ⟨h₄, hmsgs⟩
  refine ⟨rows.map Picked.seq, (hreclaimed.trans h₄).mono ?_, hnodup, hmsgs, ?_⟩
  · rintro k row row' - - ⟨row₁, hrow, hleased⟩
    unfold Leased at hleased
    unfold Pulled
    split_ifs at hleased ⊢ with hmem
    · obtain ⟨hstate, hstate', hattempts⟩ := hleased
      rcases hrow with rfl | ⟨hflight, hsame, -⟩
      · exact ⟨Or.inl hstate, hstate', hattempts⟩
      · exact ⟨Or.inr hflight, hstate', by rw [hattempts, hsame]⟩
    · rwa [hleased]
  · intro hnone
    refine ⟨now, ?_, hclock ▸ (h₁.stays h₂).clock⟩
    rw [hkeys, batchKeys, batchKeys]
    congr 2
    refine Rowwise.select_eq ((h₁.stays h₂).rows.mono ?_) ?_
    · intro k row row' hk htopic hrow
      rcases hrow with hsame | ⟨hflight, -⟩
      · exact hsame
      · exact absurd hflight (hnone k row hk htopic)
    · exact fun row hrow => (QueueRow.isAvailable_iff.mp hrow).1

/-- The id of a held message is on its row alone. -/
theorem Holds.hasAckId_iff (h : Holds subscription s.file k msg) (hids : s.file.IdsOk) {k' : ℕ}
    {row : QueueRow} (hk' : s.file.table.get? k' = some row) :
    row.hasAckId msg.ackId = true ↔ k' = k := by
  obtain ⟨-, -, held, hk, -, -, hid⟩ := h
  rw [QueueRow.hasAckId, decide_eq_true_eq]
  constructor
  · exact fun hrow => hids.unique k' row k held _ hk' hk hrow hid
  · rintro rfl
    obtain rfl : row = held := Option.some.inj (hk'.symm.trans hk)
    exact hid

/-- A message stays held while its row stays. -/
theorem Holds.stays {f f' : QueueFile} (h : Holds subscription f k msg)
    (hrows : Rowwise subscription R f f') (hR : ∀ row row', R k row row' → row' = row) :
    Holds subscription f' k msg := by
  obtain ⟨htopic, hbody, row, hk, hrow, hstate, hid⟩ := h
  obtain ⟨row', hk', htopic', -, hsame⟩ := hrows.forth k row hk hrow
  exact ⟨htopic, hbody, row', hk', htopic', hR _ _ hsame ▸ hstate, hR _ _ hsame ▸ hid⟩

/-- One row changes, and the others stay. -/
def OnlyAt (k : ℕ) (P : QueueRow → QueueRow → Prop) (k' : ℕ) (row row' : QueueRow) : Prop :=
  if k' = k then P row row' else row' = row

theorem returns_ack (hids : s.file.IdsOk) (h : Holds subscription s.file k msg) :
    Returns (soleWorld subscription tick) (ack msg) (fun _ s' =>
      Leads subscription tick (OnlyAt k fun _ row' => row'.state = .done) [] s s') s := by
  refine returns_plain hids rfl nofun fun dbNow _ s' _ hleads _ => hleads.mono ?_
  intro k' row row' hk' _ hrow
  rw [hrow, QueueCall.change, OnlyAt]
  by_cases hkey : k' = k
  · rw [if_pos hkey, if_pos ((h.hasAckId_iff hids hk').mpr hkey)]
    rfl
  · rw [if_neg hkey, if_neg (mt (h.hasAckId_iff hids hk').mp hkey)]

theorem returns_toDlq {reason : FString} (hids : s.file.IdsOk)
    (h : Holds subscription s.file k msg) :
    Returns (soleWorld subscription tick) (toDlq msg reason) (fun _ s' =>
      Leads subscription tick (OnlyAt k fun _ row' => row'.state = .dead) [] s s') s := by
  refine Returns.bind (returns_read hids rfl nofun fun _ _ _ => rfl) ?_
  rintro timestamp s₁ ⟨h₁, -⟩
  refine Returns.bind (returns_read h₁.ids rfl ?_ fun _ _ _ => rfl) ?_
  · rintro topic body ⟨⟩
    rw [h.1]
    exact dlq_ne subscription
  · rintro _ s₂ ⟨h₂, -⟩
    have hstays := h₁.stays h₂
    have hheld := h.stays hstays.rows fun _ _ hrow => hrow
    refine returns_plain h₂.ids rfl nofun fun dbNow _ s₃ _ h₃ _ => ?_
    have hdead : Leads subscription tick (OnlyAt k fun _ row' => row'.state = .dead) [] s₂ s₃ := by
      refine h₃.mono ?_
      intro k' row row' hk' _ hrow
      rw [hrow, QueueCall.change, OnlyAt]
      by_cases hkey : k' = k
      · rw [if_pos hkey, if_pos ((hheld.hasAckId_iff h₂.ids hk').mpr hkey)]
        rfl
      · rw [if_neg hkey, if_neg (mt (hheld.hasAckId_iff h₂.ids hk').mp hkey)]
    refine (hstays.trans hdead).mono ?_
    rintro k' row row' - - ⟨row₁, rfl, hrow⟩
    exact hrow

/-- Where a nack leaves a row: under the dead letters, or ready again from a reading of the
clock on. -/
def GivenBack (b : LocalDurableBackend) (tick : Binary64 → Binary64 → Prop) (backoffSec : Binary64)
    (clock : Binary64) (row row' : QueueRow) : Prop :=
  (b.exhausted row.attempts = true ∧ row'.state = .dead) ∨
    (b.exhausted row.attempts = false ∧ row'.state = .ready ∧ row'.attempts = row.attempts ∧
      ∃ c t, tick c t ∧ row'.availableAt = t.add backoffSec ∧ Relation.ReflTransGen tick t clock)

theorem returns_nack {backoffSec : Binary64} (hids : s.file.IdsOk)
    (h : Holds subscription s.file k msg) :
    Returns (soleWorld subscription tick) (b.nack msg backoffSec) (fun _ s' =>
      Leads subscription tick (OnlyAt k (GivenBack b tick backoffSec s'.clock)) [] s s') s := by
  refine Returns.bind (returns_read hids rfl nofun fun _ _ _ => rfl) ?_
  rintro picked s₁ ⟨h₁, ⟨dbNow, hpicked⟩, -⟩
  -- the id finds the row of the message
  obtain ⟨-, -, row, hk, htopic, hstate, hid⟩ := id h
  have hfound : picked = some (QueueRow.picked (k, row)) := by
    rw [show picked = _ from hpicked]
    have hmem : (k, row) ∈ s.file.table.select (QueueRow.hasAckId msg.ackId) :=
      Table.mem_select_iff.mpr ⟨hk, (h.hasAckId_iff hids hk).mpr rfl⟩
    cases hselect : s.file.table.select (QueueRow.hasAckId msg.ackId) with
    | nil =>
        rw [hselect] at hmem
        cases hmem
    | cons e rest =>
        have he : e ∈ s.file.table.select (QueueRow.hasAckId msg.ackId) := by
          rw [hselect]
          exact List.mem_cons_self
        obtain ⟨he, hhas⟩ := Table.mem_select_iff.mp he
        obtain rfl : e.1 = k := (h.hasAckId_iff hids he).mp hhas
        obtain rfl : e.2 = row := Option.some.inj (he.symm.trans hk)
        rfl
  subst hfound
  have hheld := h.stays h₁.rows fun _ _ hrow => hrow
  simp only
  split_ifs with hexhausted
  · refine (returns_toDlq h₁.ids hheld).mono fun _ s₂ h₂ => (h₁.trans h₂).mono ?_
    rintro k' row₁ row' hk' - ⟨row₂, hsame, hrow⟩
    rw [hsame] at hrow
    unfold OnlyAt at hrow ⊢
    split_ifs at hrow ⊢ with hkey
    · obtain rfl : row₁ = row := Option.some.inj ((hkey ▸ hk').symm.trans hk)
      exact Or.inl ⟨hexhausted, hrow⟩
    · exact hrow
  · refine Returns.bind (returns_read h₁.ids rfl nofun fun _ _ _ => rfl) ?_
    rintro now s₂ ⟨h₂, -, hnow⟩
    obtain ⟨hclock, htick⟩ := hnow now rfl
    refine returns_plain h₂.ids rfl nofun fun dbNow' _ s₃ _ h₃ _ => ?_
    have hlater : Relation.ReflTransGen tick now s₃.clock := hclock ▸ h₃.clock
    refine ((h₁.stays h₂).trans h₃).mono ?_
    rintro k' row₁ row' hk' - ⟨row₂, hsame, hrow⟩
    rw [hrow, hsame, QueueCall.change, OnlyAt]
    by_cases hkey : k' = k
    · obtain rfl : row₁ = row := Option.some.inj ((hkey ▸ hk').symm.trans hk)
      rw [if_pos hkey, if_pos (show k' = (QueueRow.picked (k, row₁)).seq from hkey)]
      refine Or.inr ⟨?_, rfl, rfl, s₁.clock, now, htick, rfl, hlater⟩
      simpa [QueueRow.picked] using hexhausted
    · rw [if_neg hkey, if_neg (show ¬ k' = (QueueRow.picked (k, row)).seq from hkey)]

end Specs

end LocalDurableBackend

end System2
