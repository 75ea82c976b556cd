import System2.Common.LeaseIds

/-!
# A row that is only ever parked

Several components work on one queue file, and one of them consumes a given
subscription. A nack gives a row back while it was delivered fewer times than
`max_attempts`; after that the nack, and the reaper, file it under the dead
letters. Whatever else happens to the file, a row that is only given back stays.
-/

namespace System2
open Foundation

/-- What the other components may do to the file: rows of the subscription are theirs to add
and not to touch, and the ids of their own leases are freshly drawn. -/
structure Elsewhere (subscription : String) (f f' : QueueFile) : Prop where
  kept : ∀ k row, f.table.get? k = some row → row.topic = subscription →
    f'.table.get? k = some row
  arrived : ∀ k row, f'.table.get? k = some row → row.topic = subscription →
    f.table.get? k = some row ∨ row = .inserted subscription row.body
  drawn : ∀ id ∈ f.drawn, id ∈ f'.drawn
  ids : ∀ k row id, f'.table.get? k = some row → row.ackId = some id →
    (∃ old, f.table.get? k = some old ∧ old.ackId = some id) ∨
    (id ∉ f.drawn ∧ id ∈ f'.drawn ∧
      ∀ k' row', f'.table.get? k' = some row' → row'.ackId = some id → k' = k)

theorem Elsewhere.refl (subscription : String) (f : QueueFile) : Elsewhere subscription f f where
  kept := fun _ _ h _ => h
  arrived := fun _ _ h _ => Or.inl h
  drawn := fun _ h => h
  ids := fun _ row _ h hid => Or.inl ⟨row, h, hid⟩

/-- A message arrives. -/
theorem Elsewhere.arrival (subscription : String) (f : QueueFile) (body : RowBody) :
    Elsewhere subscription f ⟨f.table.insert (.inserted subscription body), f.drawn⟩ where
  kept := fun k row hk _ => Table.get?_insert_of_some hk
  arrived := by
    intro k row hk _
    rcases Table.get?_insert_cases hk with hold | ⟨-, rfl⟩
    · exact Or.inl hold
    · exact Or.inr rfl
  drawn := fun id hid => hid
  ids := by
    intro k row id hk hid
    rcases Table.get?_insert_cases hk with hold | ⟨-, rfl⟩
    · exact Or.inl ⟨row, hold, hid⟩
    · cases hid

/-- The queue file while others work on it. -/
def sharedWorld (subscription : String) : World QueueI Exc QueueFile := fun f op r f' =>
  ∃ f₁, queueWorld f op r f₁ ∧ Elsewhere subscription f₁ f'

namespace QueueFile

/-- The life of a row that is only ever parked. -/
def Life (limit : ℤ) (row : QueueRow) : Prop :=
  (row.state = .ready ∧ row.ackId = none ∧ (row.attempts : ℤ) < limit) ∨ row.state = .inflight ∨
    (row.state = .dead ∧ limit ≤ row.attempts)

/-- What is kept of row `q` of a subscription. When the body is given, the row is there. -/
structure Kept (subscription : String) (limit : ℤ) (q : ℕ) (body : Option RowBody)
    (f : QueueFile) : Prop where
  ids : f.IdsOk
  life : ∀ row, f.table.get? q = some row → row.topic = subscription → Life limit row
  present : ∀ b, body = some b → ∃ row, f.table.get? q = some row ∧ row.topic = subscription ∧
    row.body = b

/-- Row `q` of the subscription is leased under the id of a message. -/
def IsRow (subscription : String) (q : ℕ) (f : QueueFile) (ackId : String) : Prop :=
  ∃ row, f.table.get? q = some row ∧ row.topic = subscription ∧ row.ackId = some ackId

/-- Row `q` of the subscription has been delivered `n` times. -/
def Delivered (subscription : String) (q : ℕ) (n : ℕ) (f : QueueFile) : Prop :=
  ∃ row, f.table.get? q = some row ∧ row.topic = subscription ∧ row.attempts = n

variable {subscription : String} {limit : ℤ} {q : ℕ} {body : Option RowBody} {f f' : QueueFile}
  {ackId : String} {n : ℕ}

theorem IdsOk.elsewhere (h : f.IdsOk) (others : Elsewhere subscription f f') : f'.IdsOk where
  drawn := by
    intro k row id hk hid
    rcases others.ids k row id hk hid with ⟨old, hold, holdid⟩ | ⟨-, hnew, -⟩
    · exact others.drawn id (h.drawn k old id hold holdid)
    · exact hnew
  unique := by
    intro k row k' row' id hk hk' hid hid'
    rcases others.ids k row id hk hid with ⟨old, hold, holdid⟩ | ⟨-, -, hone⟩
    · rcases others.ids k' row' id hk' hid' with ⟨old', hold', holdid'⟩ | ⟨hfresh, -, -⟩
      · exact h.unique k old k' old' id hold hold' holdid holdid'
      · exact absurd (h.drawn k old id hold holdid) hfresh
    · exact (hone k' row' hk' hid').symm

theorem Unused.elsewhere (h : f.Unused ackId) (others : Elsewhere subscription f f') :
    f'.Unused ackId where
  drawn := others.drawn ackId h.drawn
  absent := by
    intro k row hk hid
    rcases others.ids k row ackId hk hid with ⟨old, hold, holdid⟩ | ⟨hfresh, -, -⟩
    · exact h.absent k old hold holdid
    · exact hfresh h.drawn

theorem Kept.elsewhere (hlimit : 1 ≤ limit) (h : f.Kept subscription limit q body)
    (others : Elsewhere subscription f f') : f'.Kept subscription limit q body where
  ids := h.ids.elsewhere others
  life := by
    intro row hk htopic
    rcases others.arrived q row hk htopic with hold | hnew
    · exact h.life row hold htopic
    · rw [hnew]
      refine Or.inl ⟨rfl, rfl, ?_⟩
      change ((0 : ℕ) : ℤ) < limit
      omega
  present := by
    intro b hb
    obtain ⟨row, hk, htopic, hbody⟩ := h.present b hb
    exact ⟨row, others.kept q row hk htopic, htopic, hbody⟩

theorem IsRow.elsewhere (others : Elsewhere subscription f f')
    (h : f'.IsRow subscription q ackId) : f.IsRow subscription q ackId := by
  obtain ⟨row, hk, htopic, hid⟩ := h
  rcases others.arrived q row hk htopic with hold | hnew
  · exact ⟨row, hold, htopic, hid⟩
  · rw [hnew] at hid
    cases hid

theorem Delivered.elsewhere (h : f.Delivered subscription q n)
    (others : Elsewhere subscription f f') : f'.Delivered subscription q n := by
  obtain ⟨row, hk, htopic, hn⟩ := h
  exact ⟨row, others.kept q row hk htopic, htopic, hn⟩

/-- A change of rows that keeps topics and bodies. -/
theorem Kept.update {t : QueueTable} {p : ℕ → QueueRow → Bool} {g : QueueRow → QueueRow}
    {drawn : List String} (h : f.Kept subscription limit q body) (ht : t = f.table.update p g)
    (hids : IdsOk ⟨t, drawn⟩) (hg : ∀ row, (g row).topic = row.topic ∧ (g row).body = row.body)
    (hlife : ∀ row, f.table.get? q = some row → row.topic = subscription → p q row = true →
      Life limit row → Life limit (g row)) :
    Kept subscription limit q body ⟨t, drawn⟩ where
  ids := hids
  life := by
    intro row hk htopic
    subst ht
    obtain ⟨old, hold, hrow⟩ := Option.map_eq_some_iff.mp (Table.get?_update p g ▸ hk)
    split_ifs at hrow with hp
    · have htopic' : old.topic = subscription := by rw [← (hg old).1, hrow, htopic]
      exact hrow ▸ hlife old hold htopic' hp (h.life old hold htopic')
    · subst hrow
      exact h.life old hold htopic
  present := by
    intro b hb
    subst ht
    obtain ⟨row, hk, htopic, hbody⟩ := h.present b hb
    refine ⟨if p q row then g row else row, by rw [Table.get?_update, hk]; rfl, ?_, ?_⟩
    · split_ifs
      · exact (hg row).1.trans htopic
      · exact htopic
    · split_ifs
      · exact (hg row).2.trans hbody
      · exact hbody

theorem Kept.insert (hlimit : 1 ≤ limit) (h : f.Kept subscription limit q body) {topic : String}
    {b : RowBody} {drawn : List String} (hdrawn : ∀ id ∈ f.drawn, id ∈ drawn) :
    Kept subscription limit q body ⟨f.table.insert (.inserted topic b), drawn⟩ where
  ids := h.ids.of_noNewIds noNewIds_insert hdrawn
  life := by
    intro row hk htopic
    rcases Table.get?_insert_cases hk with hold | ⟨-, rfl⟩
    · exact h.life row hold htopic
    · refine Or.inl ⟨rfl, rfl, ?_⟩
      change ((0 : ℕ) : ℤ) < limit
      omega
  present := by
    intro b hb
    obtain ⟨row, hk, htopic, hbody⟩ := h.present b hb
    exact ⟨row, Table.get?_insert_of_some hk, htopic, hbody⟩

theorem Delivered.update {t : QueueTable} {p : ℕ → QueueRow → Bool} {g : QueueRow → QueueRow}
    {drawn : List String} (h : f.Delivered subscription q n) (ht : t = f.table.update p g)
    (hg : ∀ row, (g row).topic = row.topic ∧ (g row).attempts = row.attempts) :
    Delivered subscription q n ⟨t, drawn⟩ := by
  obtain ⟨row, hk, htopic, hn⟩ := h
  subst ht
  refine ⟨if p q row then g row else row, by rw [Table.get?_update, hk]; rfl, ?_, ?_⟩
  · split_ifs
    · exact (hg row).1.trans htopic
    · exact htopic
  · split_ifs
    · exact (hg row).2.trans hn
    · exact hn

theorem Delivered.insert (h : f.Delivered subscription q n) {row : QueueRow} {drawn : List String} :
    Delivered subscription q n ⟨f.table.insert row, drawn⟩ := by
  obtain ⟨old, hk, htopic, hn⟩ := h
  exact ⟨old, Table.get?_insert_of_some hk, htopic, hn⟩

theorem Delivered.eq (h : f.Delivered subscription q n) {row : QueueRow}
    (hk : f.table.get? q = some row) : row.attempts = n := by
  obtain ⟨old, hold, -, hn⟩ := h
  rw [hk] at hold
  rw [Option.some.inj hold]
  exact hn

theorem IsRow.of_noNewIds (hnew : NoNewIds f f')
    (htopic : ∀ row row', f.table.get? q = some row → f'.table.get? q = some row' →
      row'.topic = subscription → row.topic = subscription)
    (h : f'.IsRow subscription q ackId) : f.IsRow subscription q ackId := by
  obtain ⟨row', hk', ht, hid'⟩ := h
  obtain ⟨row, hk, hid⟩ := hnew q row' ackId hk' hid'
  exact ⟨row, hk, htopic row row' hk hk' ht, hid⟩

end QueueFile

namespace LocalDurableBackend

open QueueFile

section Methods

variable {subscription : String} {limit : ℤ} {q : ℕ} {body : Option RowBody} {f : QueueFile}
  {b : LocalDurableBackend} {msg : ReceivedMessage} {C : QueueFile → Prop}

/-- A call on the shared file: its own effect, then what the others do. -/
theorem wpc_shared {op : QueueCall} {Q : Except Exc op.Ans → QueueFile → Prop} (hf : C f)
    (hok : ∀ dbNow a f', op.answers dbNow f a →
      Elsewhere subscription ⟨op.after dbNow f.table, op.draws a ++ f.drawn⟩ f' →
        C f' ∧ Q (.ok a) f')
    (herr : ∀ e f', Elsewhere subscription f f' → C f' ∧ Q (.error e) f') :
    wpc (sharedWorld subscription) C (perform op) Q f := by
  apply wpc_of_perform hf
  rintro r f' ⟨f₁, ⟨dbNow, a, rfl, hanswers, rfl⟩ | ⟨⟨e, rfl⟩, rfl⟩, others⟩
  · exact hok dbNow a f' hanswers others
  · exact herr e f' others

/-- A call that changes no row. -/
theorem wpc_reads {op : QueueCall} {Q : Except Exc op.Ans → QueueFile → Prop}
    (hop : ∀ dbNow, op.after dbNow f.table = f.table) (hdraws : ∀ a, op.draws a = []) (hf : C f)
    (hC : ∀ f', Elsewhere subscription f f' → C f')
    (hQ : ∀ dbNow a f', op.answers dbNow f a → Elsewhere subscription f f' → Q (.ok a) f')
    (herr : ∀ e f', Elsewhere subscription f f' → Q (.error e) f') :
    wpc (sharedWorld subscription) C (perform op) Q f := by
  refine wpc_shared hf ?_ fun e f' others => ⟨hC f' others, herr e f' others⟩
  intro dbNow a f' hanswers others
  rw [hop, hdraws] at others
  exact ⟨hC f' others, hQ dbNow a f' hanswers others⟩

/-- What the reaper knows of an orphan that is row `q`. -/
def OrphanOk (subscription : String) (q : ℕ) (f : QueueFile) (orphan : Picked) : Prop :=
  orphan.seq = q → f.Delivered subscription q orphan.attempts

theorem wpc_reclaimRow (hlimit : 1 ≤ b.maxAttempts) {orphan : Picked} {rest : List Picked}
    (hf : f.Kept subscription b.maxAttempts q body)
    (horphans : ∀ o ∈ orphan :: rest, OrphanOk subscription q f o) :
    wpc (sharedWorld subscription) (Kept subscription b.maxAttempts q body)
      (b.reclaimRow subscription orphan)
      (fun _ f' => ∀ o ∈ rest, OrphanOk subscription q f' o) f := by
  have hrest : ∀ f', (∀ n, f.Delivered subscription q n → f'.Delivered subscription q n) →
      ∀ o ∈ rest, OrphanOk subscription q f' o := fun f' hkeep o ho hq =>
    hkeep _ (horphans o (List.mem_cons_of_mem _ ho) hq)
  have hhead := horphans orphan List.mem_cons_self
  unfold reclaimRow
  split_ifs with hexhausted
  · have hused : b.maxAttempts ≤ orphan.attempts := by simpa [exhausted] using hexhausted
    refine wpc_seq (R := fun _ f' => ∀ n, f.Delivered subscription q n →
      f'.Delivered subscription q n) ?_ ?_ ?_
    · refine wpc_shared hf ?_ fun e f' others => ⟨hf.elsewhere hlimit others, fun n hn =>
        hn.elsewhere others⟩
      intro dbNow a f' _ others
      have hafter := QueueCall.after_claimDead dbNow f.table orphan.seq
      have hids := hf.ids.of_noNewIds (noNewIds_after (o := .claimDead orphan.seq) rfl dbNow
        f.drawn) fun id hid => hid
      have hkept := hf.update hafter hids (fun row => ⟨rfl, rfl⟩) fun row hk _ hp _ => by
        simp only [decide_eq_true_eq] at hp
        have hn := (hhead hp.1.symm).eq hk
        exact Or.inr (Or.inr ⟨rfl, by rw [QueueRow.withState, hn]; exact hused⟩)
      refine ⟨hkept.elsewhere hlimit others, fun n hn => ?_⟩
      exact (hn.update hafter fun row => ⟨rfl, rfl⟩).elsewhere others
    · intro claimed f₁ hf₁ hkeep₁
      split_ifs
      · refine wpc_seq (R := fun _ f' => ∀ n, f.Delivered subscription q n →
          f'.Delivered subscription q n) (wpc_reads (fun _ => rfl) (fun _ => rfl) hf₁
          (fun f' others => hf₁.elsewhere hlimit others)
          (fun dbNow a f' _ others n hn => (hkeep₁ n hn).elsewhere others)
          fun e f' others n hn => (hkeep₁ n hn).elsewhere others) ?_ fun e f₂ _ hkeep₂ => hrest f₂ hkeep₂
        intro timestamp f₂ hf₂ hkeep₂
        refine wpc_shared hf₂ ?_ fun e f' others => ⟨hf₂.elsewhere hlimit others,
          hrest f' fun n hn => (hkeep₂ n hn).elsewhere others⟩
        intro dbNow a f' _ others
        refine ⟨(hf₂.insert hlimit fun id hid => hid).elsewhere hlimit others,
          hrest f' fun n hn => ?_⟩
        exact (hkeep₂ n hn).insert.elsewhere others
      · exact ⟨hf₁, hrest f₁ hkeep₁⟩
    · exact fun e f₁ _ hkeep₁ => hrest f₁ hkeep₁
  · have hspare : (orphan.attempts : ℤ) < b.maxAttempts := by simpa [exhausted] using hexhausted
    refine wpc_shared hf ?_ fun e f' others => ⟨hf.elsewhere hlimit others,
      hrest f' fun n hn => hn.elsewhere others⟩
    intro dbNow a f' _ others
    have hafter := QueueCall.after_reclaim dbNow f.table orphan.seq
    have hids := hf.ids.of_noNewIds (noNewIds_after (o := .reclaim orphan.seq) rfl dbNow
      f.drawn) fun id hid => hid
    have hkept := hf.update hafter hids (fun row => ⟨rfl, rfl⟩) fun row hk _ hp _ => by
      simp only [decide_eq_true_eq] at hp
      have hn := (hhead hp.1.symm).eq hk
      exact Or.inl ⟨rfl, rfl, by rw [QueueRow.released, hn]; exact hspare⟩
    refine ⟨hkept.elsewhere hlimit others, hrest f' fun n hn => ?_⟩
    exact (hn.update hafter fun row => ⟨rfl, rfl⟩).elsewhere others

theorem wpc_reclaimRows (hlimit : 1 ≤ b.maxAttempts) {orphans : List Picked}
    (hf : f.Kept subscription b.maxAttempts q body)
    (horphans : ∀ o ∈ orphans, OrphanOk subscription q f o) :
    wpc (sharedWorld subscription) (Kept subscription b.maxAttempts q body)
      (b.reclaimRows subscription orphans) (fun _ _ => True) f := by
  induction orphans generalizing f with
  | nil => exact ⟨hf, trivial⟩
  | cons orphan rest ih =>
      refine wpc_seq (wpc_reclaimRow hlimit hf horphans) ?_ fun _ _ _ _ => trivial
      exact fun _ f' hf' hrest => ih hf' hrest

theorem wpc_reclaim (hlimit : 1 ≤ b.maxAttempts)
    (hf : f.Kept subscription b.maxAttempts q body) :
    wpc (sharedWorld subscription) (Kept subscription b.maxAttempts q body)
      (b.reclaim subscription) (fun _ _ => True) f := by
  refine wpc_seq (R := fun _ _ => True) (wpc_reads (fun _ => rfl) (fun _ => rfl) hf
    (fun f' others => hf.elsewhere hlimit others) (fun _ _ _ _ _ => trivial) fun _ _ _ => trivial)
    ?_ fun _ _ _ _ => trivial
  rintro firstPull f₁ hf₁ -
  refine wpc_seq (R := fun r f' => ∀ orphans, r = .ok orphans →
    ∀ o ∈ orphans, OrphanOk subscription q f' o) (wpc_reads (fun _ => rfl) (fun _ => rfl) hf₁
    (fun f' others => hf₁.elsewhere hlimit others) ?_ fun e f' _ orphans h => by cases h) ?_
    fun _ _ _ _ => trivial
  · rintro dbNow a f' hanswers others orphans ⟨⟩ o ho hq
    rw [hanswers] at ho
    obtain ⟨⟨k, row⟩, hmem, rfl⟩ := List.mem_map.mp ho
    obtain ⟨hk, horphan⟩ := Table.mem_select_iff.mp hmem
    have htopic : row.topic = subscription := by
      simp only [QueueRow.isOrphan, decide_eq_true_eq] at horphan
      exact horphan.1
    obtain rfl : k = q := hq
    exact Delivered.elsewhere ⟨row, hk, htopic, rfl⟩ others
  · intro orphans f₂ hf₂ horphans
    refine wpc_seq (wpc_reclaimRows hlimit hf₂ (horphans orphans rfl)) ?_ fun _ _ _ _ => trivial
    exact fun _ f₃ hf₃ _ => ⟨hf₃, trivial⟩

theorem wpc_leaseRows (hlimit : 1 ≤ limit) {rows : List Picked}
    (hf : f.Kept subscription limit q body) :
    wpc (sharedWorld subscription) (Kept subscription limit q body)
      (b.leaseRows subscription rows) (fun _ _ => True) f := by
  induction rows generalizing f with
  | nil => exact ⟨hf, trivial⟩
  | cons row rest ih =>
      refine wpc_seq (R := fun r f' => ∀ ackId, r = .ok ackId → f'.Unused ackId) ?_ ?_
        fun _ _ _ _ => trivial
      · refine wpc_shared hf ?_ fun e f' others =>
          ⟨hf.elsewhere hlimit others, fun ackId h => by cases h⟩
        intro dbNow a f' hfresh others
        have hids : IdsOk ⟨f.table, a :: f.drawn⟩ := hf.ids.of_noNewIds
          (fun k row id hk hid => ⟨row, hk, hid⟩) fun id hid => List.mem_cons_of_mem _ hid
        have hkept : Kept subscription limit q body ⟨f.table, a :: f.drawn⟩ :=
          ⟨hids, hf.life, hf.present⟩
        refine ⟨hkept.elsewhere hlimit others, ?_⟩
        rintro ackId ⟨⟩
        exact (hf.ids.unused hfresh).elsewhere others
      · intro ackId f₁ hf₁ hunused
        refine wpc_seq (R := fun _ _ => True) ?_ ?_ fun _ _ _ _ => trivial
        · refine wpc_shared hf₁ ?_ fun e f' others => ⟨hf₁.elsewhere hlimit others, trivial⟩
          intro dbNow a f' _ others
          have hkept := hf₁.update (QueueCall.after_lease dbNow f₁.table row.seq ackId b.owner
            b.leaseSec) (hf₁.ids.lease (hunused ackId rfl)) (fun _ => ⟨rfl, rfl⟩)
            fun _ _ _ _ _ => Or.inr (Or.inl rfl)
          exact ⟨hkept.elsewhere hlimit others, trivial⟩
        · rintro claimed f₂ hf₂ -
          split_ifs
          · cases row.body.loads with
            | error e => exact ⟨hf₂, trivial⟩
            | ok rowBody =>
                refine wpc_seq (p := b.leaseRows subscription rest) (ih hf₂) ?_
                  fun _ _ _ _ => trivial
                exact fun _ f₃ hf₃ _ => ⟨hf₃, trivial⟩
          · exact ih hf₂

/-- A pull keeps row `q`, whether it delivers it or not. -/
theorem wpc_pull (hlimit : 1 ≤ b.maxAttempts) {n : ℤ}
    (hf : f.Kept subscription b.maxAttempts q body) :
    wpc (sharedWorld subscription) (Kept subscription b.maxAttempts q body)
      (b.pull subscription n) (fun _ _ => True) f := by
  refine wpc_seq (wpc_reclaim hlimit hf) ?_ fun _ _ _ _ => trivial
  rintro - f₁ hf₁ -
  have hread : ∀ (op : QueueCall) (f : QueueFile), (∀ dbNow, op.after dbNow f.table = f.table) →
      (∀ a, op.draws a = []) → f.Kept subscription b.maxAttempts q body →
      wpc (sharedWorld subscription) (Kept subscription b.maxAttempts q body) (perform op)
        (fun _ _ => True) f := fun op f hop hdraws hf =>
    wpc_reads hop hdraws hf (fun f' others => hf.elsewhere hlimit others)
      (fun _ _ _ _ _ => trivial) fun _ _ _ => trivial
  refine wpc_seq (hread .time f₁ (fun _ => rfl) (fun _ => rfl) hf₁) ?_ fun _ _ _ _ => trivial
  rintro now f₂ hf₂ -
  refine wpc_seq (hread (.selectAvailable subscription now n) f₂ (fun _ => rfl) (fun _ => rfl) hf₂)
    ?_ fun _ _ _ _ => trivial
  exact fun rows f₃ hf₃ _ => wpc_leaseRows hlimit hf₃

/-- What dead-lettering under an id knows of row `q`: its attempts are used up. -/
def SpentUnder (subscription : String) (limit : ℤ) (q : ℕ) (ackId : String) (f : QueueFile) :
    Prop :=
  ∀ row, f.table.get? q = some row → row.topic = subscription → row.ackId = some ackId →
    limit ≤ row.attempts

theorem SpentUnder.elsewhere {ackId : String} {f' : QueueFile}
    (h : SpentUnder subscription limit q ackId f) (others : Elsewhere subscription f f') :
    SpentUnder subscription limit q ackId f' := by
  intro row hk htopic hid
  rcases others.arrived q row hk htopic with hold | hnew
  · exact h row hold htopic hid
  · rw [hnew] at hid
    cases hid

/-- A dead-lettering of row `q` only when its attempts are used up. -/
theorem wpc_toDlqKept (hlimit : 1 ≤ limit) {reason : FString}
    (hf : f.Kept subscription limit q body)
    (hspent : SpentUnder subscription limit q msg.ackId f) :
    wpc (sharedWorld subscription) (Kept subscription limit q body) (toDlq msg reason)
      (fun _ _ => True) f := by
  refine wpc_seq (R := fun _ f' => SpentUnder subscription limit q msg.ackId f')
    (wpc_reads (fun _ => rfl) (fun _ => rfl) hf (fun f' others => hf.elsewhere hlimit others)
      (fun _ _ _ _ others => hspent.elsewhere others) fun _ _ others => hspent.elsewhere others)
    ?_ fun _ _ _ _ => trivial
  intro timestamp f₁ hf₁ hspent₁
  refine wpc_seq (R := fun _ f' => SpentUnder subscription limit q msg.ackId f') ?_ ?_
    fun _ _ _ _ => trivial
  · refine wpc_shared hf₁ ?_ fun e f' others =>
      ⟨hf₁.elsewhere hlimit others, hspent₁.elsewhere others⟩
    intro dbNow a f' _ others
    refine ⟨(hf₁.insert hlimit fun id hid => hid).elsewhere hlimit others,
      SpentUnder.elsewhere ?_ others⟩
    intro row hk htopic hid
    rcases Table.get?_insert_cases hk with hold | ⟨-, rfl⟩
    · exact hspent₁ row hold htopic hid
    · cases hid
  · intro _ f₂ hf₂ hspent₂
    refine wpc_shared hf₂ ?_ fun e f' others => ⟨hf₂.elsewhere hlimit others, trivial⟩
    intro dbNow a f' _ others
    have hids := hf₂.ids.of_noNewIds (noNewIds_after (o := .setDead msg.ackId) rfl dbNow
      f₂.drawn) fun id hid => hid
    have hkept := hf₂.update (QueueCall.after_setDead dbNow f₂.table msg.ackId) hids
      (fun row => ⟨rfl, rfl⟩) fun row hk htopic hp _ => by
        have hid : row.ackId = some msg.ackId := by simpa [QueueRow.hasAckId] using hp
        exact Or.inr (Or.inr ⟨rfl, hspent₂ row hk htopic hid⟩)
    exact ⟨hkept.elsewhere hlimit others, trivial⟩

/-- Row `q` of the subscription, if it is there, was delivered at most `n` times. -/
def AtMost (subscription : String) (q n : ℕ) (f : QueueFile) : Prop :=
  ∀ row, f.table.get? q = some row → row.topic = subscription → row.attempts ≤ n

theorem AtMost.elsewhere {n : ℕ} {f' : QueueFile} (h : AtMost subscription q n f)
    (others : Elsewhere subscription f f') : AtMost subscription q n f' := by
  intro row hk htopic
  rcases others.arrived q row hk htopic with hold | hnew
  · exact h row hold htopic
  · rw [hnew]
    exact Nat.zero_le n

/-- A nack of any message, row `q`'s own or another one. -/
theorem wpc_nackKept (hlimit : 1 ≤ b.maxAttempts) {backoffSec : Binary64}
    (hf : f.Kept subscription b.maxAttempts q body) :
    wpc (sharedWorld subscription) (Kept subscription b.maxAttempts q body)
      (b.nack msg backoffSec) (fun _ _ => True) f := by
  refine wpc_seq (R := fun r f' => ∀ picked, r = .ok (some picked) →
      (picked.seq = q → AtMost subscription q picked.attempts f') ∧
      (b.maxAttempts ≤ picked.attempts → SpentUnder subscription b.maxAttempts q msg.ackId f'))
    (wpc_reads (fun _ => rfl) (fun _ => rfl) hf (fun f' others => hf.elsewhere hlimit others) ?_
      fun e f' _ picked h => by cases h) ?_ fun _ _ _ _ => trivial
  · rintro dbNow a f' hanswers others picked ⟨⟩
    obtain ⟨⟨k, row⟩, hhead, rfl⟩ := Option.map_eq_some_iff.mp hanswers.symm
    obtain ⟨hk, hid⟩ := Table.mem_select_iff.mp (List.mem_of_mem_head? hhead)
    have hid' : row.ackId = some msg.ackId := by simpa [QueueRow.hasAckId] using hid
    refine ⟨?_, fun hspent => SpentUnder.elsewhere ?_ others⟩
    · intro hq
      obtain rfl : k = q := hq
      refine AtMost.elsewhere (f := f) (fun row' hk' _ => ?_) others
      rw [hk] at hk'
      rw [← Option.some.inj hk']
      exact le_refl _
    · intro row' hk' _ hrow'
      obtain rfl := hf.ids.unique q row' k row msg.ackId hk' hk hrow' hid'
      rw [hk] at hk'
      rw [← Option.some.inj hk']
      exact hspent
  · intro picked f₁ hf₁ hpicked
    cases picked with
    | none => exact ⟨hf₁, trivial⟩
    | some picked =>
        obtain ⟨hseq, hspent⟩ := hpicked picked rfl
        dsimp only
        split_ifs with hexhausted
        · exact wpc_toDlqKept hlimit hf₁ (hspent (by simpa [exhausted] using hexhausted))
        · have hspare : (picked.attempts : ℤ) < b.maxAttempts := by
            simpa [exhausted] using hexhausted
          refine wpc_seq (R := fun _ f' => picked.seq = q →
              AtMost subscription q picked.attempts f')
            (wpc_reads (fun _ => rfl) (fun _ => rfl) hf₁
              (fun f' others => hf₁.elsewhere hlimit others)
              (fun _ _ _ _ others hq => (hseq hq).elsewhere others)
              fun _ _ others hq => (hseq hq).elsewhere others) ?_ fun _ _ _ _ => trivial
          intro now f₂ hf₂ hseq₂
          refine wpc_shared hf₂ ?_ fun e f' others => ⟨hf₂.elsewhere hlimit others, trivial⟩
          intro dbNow a f' _ others
          have hids := hf₂.ids.of_noNewIds (noNewIds_after
            (o := .release picked.seq (now.add backoffSec)) rfl dbNow f₂.drawn) fun id hid => hid
          have hkept := hf₂.update (QueueCall.after_release dbNow f₂.table picked.seq _) hids
            (fun row => ⟨rfl, rfl⟩) fun row hk htopic hp _ => by
              have hq : picked.seq = q := by simpa [eq_comm] using hp
              have hle := hseq₂ hq row hk htopic
              refine Or.inl ⟨rfl, rfl, ?_⟩
              change (row.attempts : ℤ) < b.maxAttempts
              omega
          exact ⟨hkept.elsewhere hlimit others, trivial⟩

/-- Row `q` is kept, and it is not leased under the id of a message. -/
def Apart (subscription : String) (limit : ℤ) (q : ℕ) (body : Option RowBody) (ackId : String)
    (f : QueueFile) : Prop :=
  f.Kept subscription limit q body ∧ ¬ f.IsRow subscription q ackId

theorem Apart.elsewhere {ackId : String} {f' : QueueFile} (hlimit : 1 ≤ limit)
    (h : Apart subscription limit q body ackId f) (others : Elsewhere subscription f f') :
    Apart subscription limit q body ackId f' :=
  ⟨h.1.elsewhere hlimit others, fun hrow => h.2 (hrow.elsewhere others)⟩

theorem Apart.spentUnder {ackId : String} (h : Apart subscription limit q body ackId f) :
    SpentUnder subscription limit q ackId f :=
  fun row hk htopic hid => absurd ⟨row, hk, htopic, hid⟩ h.2

/-- An ack of another message. -/
theorem wpc_ackApart (hlimit : 1 ≤ limit) (hf : Apart subscription limit q body msg.ackId f) :
    wpc (sharedWorld subscription) (Kept subscription limit q body) (ack msg)
      (fun _ _ => True) f := by
  refine wpc_shared hf.1 ?_ fun e f' others => ⟨hf.1.elsewhere hlimit others, trivial⟩
  intro dbNow a f' _ others
  have hids := hf.1.ids.of_noNewIds (noNewIds_after (o := .setDone msg.ackId) rfl dbNow
    f.drawn) fun id hid => hid
  have hkept := hf.1.update (QueueCall.after_setDone dbNow f.table msg.ackId) hids
    (fun row => ⟨rfl, rfl⟩) fun row hk htopic hp _ => by
      have hid : row.ackId = some msg.ackId := by simpa [QueueRow.hasAckId] using hp
      exact absurd ⟨row, hk, htopic, hid⟩ hf.2
  exact ⟨hkept.elsewhere hlimit others, trivial⟩

end Methods

end LocalDurableBackend

end System2
