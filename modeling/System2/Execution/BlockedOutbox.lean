import System2.Execution.OutboxDrain

/-!
# Messages that block a flush

A flush takes the ten first ready rows of the outbox and gives those back whose publish fails, so
they are among the first ready rows of the next round again. Ten of them fill every batch, and no
message behind them is tried.
-/

namespace System2
open Foundation

/-- A clock that is not set back. -/
def Onward (c t : Binary64) : Prop := c.le t = true

theorem le_of_onward {x c t : Binary64} (h : x.le c = true)
    (hlater : Relation.ReflTransGen Onward c t) : x.le t = true := by
  induction hlater with
  | refl => exact h
  | tail _ hstep ih => exact Binary64.le_trans ih hstep

namespace FillProducer

/-- The downstream takes the messages of some rows, and fails on all others. -/
def Fixed (good : ℕ → Bool) (k : ℕ) (r : Except Exc Unit) : Prop := r.isOk = good k

/-- The rows of a subscription that are ready. -/
def readyKeys (f : QueueFile) (subscription : String) : Finset ℕ :=
  f.table.keys fun row => row.topic = subscription ∧ row.state = .ready

/-- No row is in flight, and the time of every ready row has come. -/
def AllReady (subscription : String) (s : SoleFile) : Prop :=
  ∀ k row, s.file.table.get? k = some row → row.topic = subscription →
    row.state ≠ .inflight ∧ (row.state = .ready → row.availableAt.le s.clock = true)

/-- Every message that the downstream takes is done afterwards. -/
def AllSent (good : ℕ → Bool) (subscription : String) (f f' : QueueFile) : Prop :=
  ∀ k ∈ readyKeys f subscription, good k = true → k ∈ doneKeys f' subscription

/-- The failing messages ahead of a row. -/
def failingAhead (good : ℕ → Bool) (subscription : String) (f : QueueFile) (k : ℕ) : Finset ℕ :=
  (readyKeys f subscription).filter fun q => q < k ∧ good q = false

/-- Ahead of every message that the downstream takes there are fewer than ten that it does not. -/
def FewAhead (good : ℕ → Bool) (subscription : String) (f : QueueFile) : Prop :=
  ∀ k ∈ readyKeys f subscription, good k = true → (failingAhead good subscription f k).card < 10

/-- No row comes near the attempts after which it is filed under the dead letters. -/
def Unspent (b : LocalDurableBackend) (subscription : String) (f : QueueFile) : Prop :=
  ∀ k row, f.table.get? k = some row → row.topic = subscription → row.state = .ready →
    (row.attempts : ℤ) + (unsentKeys f subscription).card + 1 < b.maxAttempts

section Flush

variable {p : FillProducer} {b : LocalDurableBackend} {good : ℕ → Bool} {s s' s₀ : SoleFile}
  {taken : List ℕ} {sent : Finset ℕ} {k : ℕ} {f : QueueFile} {subscription : String}

theorem mem_readyKeys : k ∈ readyKeys f subscription ↔
    ∃ row, f.table.get? k = some row ∧ row.topic = subscription ∧ row.state = .ready := by
  simp [readyKeys, Table.mem_keys]

theorem mem_failingAhead {q : ℕ} : q ∈ failingAhead good subscription f k ↔
    q ∈ readyKeys f subscription ∧ q < k ∧ good q = false := by
  simp [failingAhead]

/-- The rows that a round takes are the ten first ready ones. -/
theorem RoundOf.taken_eq (h : RoundOf p b Onward (Fixed good) taken sent s s')
    (hready : AllReady p.outboxTopic s) : ∃ keys : List ℕ, keys.Pairwise (· < ·) ∧
      (∀ q, q ∈ keys ↔ q ∈ readyKeys s.file p.outboxTopic) ∧ taken = keys.take 10 := by
  obtain ⟨now, rfl, hlater⟩ := h.batch fun k row hk htopic => (hready k row hk htopic).1
  refine ⟨(s.file.table.select (QueueRow.isAvailable p.outboxTopic now)).map Prod.fst,
    Table.select_ascending _, fun q => ?_, ?_⟩
  · rw [mem_readyKeys, List.mem_map]
    constructor
    · rintro ⟨⟨q, row⟩, hmem, rfl⟩
      obtain ⟨hrow, havailable⟩ := Table.mem_select_iff.mp hmem
      obtain ⟨htopic, hstate, -⟩ := QueueRow.isAvailable_iff.mp havailable
      exact ⟨row, hrow, htopic, hstate⟩
    · rintro ⟨row, hrow, htopic, hstate⟩
      have havailable := le_of_onward ((hready q row hrow htopic).2 hstate) hlater
      exact ⟨(q, row), Table.mem_select_iff.mpr ⟨hrow,
        QueueRow.isAvailable_iff.mpr ⟨htopic, hstate, havailable⟩⟩, rfl⟩
  · rw [LocalDurableBackend.batchKeys, limited, if_neg (by decide), List.map_take]
    rfl

/-- Of the rows taken those are sent that the downstream takes. -/
theorem RoundOf.sent_iff (h : RoundOf p b Onward (Fixed good) taken sent s s') (hk : k ∈ taken) :
    k ∈ sent ↔ good k = true := by
  obtain ⟨r, hgood, hsent⟩ := h.answered k hk
  rw [← show r.isOk = good k from hgood, hsent, decide_eq_true_eq]

/-- What a round makes of a row that was ready. -/
theorem RoundOf.of_ready (h : RoundOf p b Onward (Fixed good) taken sent s s')
    (hready : AllReady p.outboxTopic s) {row : QueueRow} (hk : s.file.table.get? k = some row)
    (htopic : row.topic = p.outboxTopic) : ∃ row', s'.file.table.get? k = some row' ∧
      row'.topic = p.outboxTopic ∧ ((k ∉ taken ∧ row' = row) ∨
        (k ∈ taken ∧ row.state = .ready ∧ ((k ∈ sent ∧ row'.state = .done) ∨
          (k ∉ sent ∧ ∃ leased : QueueRow, leased.attempts = row.attempts + 1 ∧
            b.GivenBack Onward .zero s'.clock leased row')))) := by
  obtain ⟨row', hk', htopic', -, hrounded⟩ := h.rows.forth k row hk htopic
  refine ⟨row', hk', htopic', ?_⟩
  have hnot := (hready k row hk htopic).1
  unfold Rounded at hrounded
  split_ifs at hrounded with htaken hsent
  · exact Or.inr ⟨htaken, hrounded.1.resolve_right hnot, Or.inl ⟨hsent, hrounded.2⟩⟩
  · exact Or.inr ⟨htaken, hrounded.1.resolve_right hnot, Or.inr ⟨hsent, hrounded.2⟩⟩
  · exact Or.inl ⟨htaken, hrounded.resolve_right fun hflight => hnot hflight.1⟩

/-- After a round all rows are ready again. -/
theorem RoundOf.allReady (h : RoundOf p b Onward (Fixed good) taken sent s s')
    (hready : AllReady p.outboxTopic s) : AllReady p.outboxTopic s' := by
  intro k row' hk' htopic'
  obtain ⟨row, hk, htopic, -, -⟩ := h.rows.of_after hk' htopic'
  obtain ⟨row'', hk'', -, hcases⟩ := h.of_ready hready hk htopic
  obtain rfl : row' = row'' := Option.some.inj (hk'.symm.trans hk'')
  rcases hcases with ⟨-, rfl⟩ | ⟨-, -, ⟨-, hdone⟩ | ⟨-, leased, -, hback⟩⟩
  · obtain ⟨hflight, havailable⟩ := hready k row' hk htopic
    exact ⟨hflight, fun hstate => le_of_onward (havailable hstate) h.clock⟩
  · rw [hdone]
    exact ⟨nofun, nofun⟩
  · rcases hback with ⟨-, hdead⟩ | ⟨-, hstate, -, c, t, htick, havailable, hlater⟩
    · rw [hdead]
      exact ⟨nofun, nofun⟩
    · refine ⟨by rw [hstate]; nofun, fun _ => ?_⟩
      rw [havailable]
      exact le_of_onward (Binary64.add_zero_le htick) hlater

theorem RoundOf.readyKeys_subset (h : RoundOf p b Onward (Fixed good) taken sent s s')
    (hready : AllReady p.outboxTopic s) :
    readyKeys s'.file p.outboxTopic ⊆ readyKeys s.file p.outboxTopic := by
  intro k hk
  obtain ⟨row', hk', htopic', hstate'⟩ := mem_readyKeys.mp hk
  obtain ⟨row, hrow, htopic, -, -⟩ := h.rows.of_after hk' htopic'
  obtain ⟨row'', hk'', -, hcases⟩ := h.of_ready hready hrow htopic
  obtain rfl : row' = row'' := Option.some.inj (hk'.symm.trans hk'')
  rcases hcases with ⟨-, rfl⟩ | ⟨-, hstate, -⟩
  · exact mem_readyKeys.mpr ⟨row', hrow, htopic, hstate'⟩
  · exact mem_readyKeys.mpr ⟨row, hrow, htopic, hstate⟩

/-- A round sends a message that the downstream takes, or leaves it ready. -/
theorem RoundOf.ready_or_done (h : RoundOf p b Onward (Fixed good) taken sent s s')
    (hready : AllReady p.outboxTopic s) (hk : k ∈ readyKeys s.file p.outboxTopic)
    (hgood : good k = true) :
    k ∈ readyKeys s'.file p.outboxTopic ∨ k ∈ doneKeys s'.file p.outboxTopic := by
  obtain ⟨row, hrow, htopic, hstate⟩ := mem_readyKeys.mp hk
  obtain ⟨row', hk', htopic', hcases⟩ := h.of_ready hready hrow htopic
  rcases hcases with ⟨-, rfl⟩ | ⟨htaken, -, ⟨-, hdone⟩ | ⟨hnot, -⟩⟩
  · exact Or.inl (mem_readyKeys.mpr ⟨row', hk', htopic', hstate⟩)
  · exact Or.inr (mem_doneKeys.mpr ⟨row', hk', htopic', hdone⟩)
  · exact absurd ((h.sent_iff htaken).mpr hgood) hnot

/-- A round that sends nothing has ten failing messages ahead of every one it leaves behind. -/
theorem RoundOf.ten_ahead (h : RoundOf p b Onward (Fixed good) taken ∅ s s')
    (hready : AllReady p.outboxTopic s) (hk : k ∈ readyKeys s.file p.outboxTopic)
    (hgood : good k = true) : 10 ≤ (failingAhead good p.outboxTopic s.file k).card := by
  obtain ⟨keys, hkeys, hmem, htaken⟩ := h.taken_eq hready
  have hfails : ∀ q ∈ taken, good q = false := by
    intro q hq
    have hnot := mt (h.sent_iff hq).mpr (Finset.notMem_empty q)
    simpa using hnot
  have hnot : k ∉ keys.take 10 := by
    rw [← htaken]
    intro hin
    rw [hfails k hin] at hgood
    cases hgood
  obtain ⟨hlength, hahead⟩ := Table.length_take_of_notMem hkeys ((hmem k).mpr hk) hnot
  have hsubset : (keys.take 10).toFinset ⊆ failingAhead good p.outboxTopic s.file k := by
    intro q hq
    rw [List.mem_toFinset] at hq
    exact mem_failingAhead.mpr ⟨(hmem q).mp (List.mem_of_mem_take hq), hahead q hq,
      hfails q (htaken ▸ hq)⟩
  have hnodup : (keys.take 10).Nodup := (hkeys.imp Nat.ne_of_lt).sublist (List.take_sublist _ _)
  calc 10 = (keys.take 10).toFinset.card := by rw [List.toFinset_card_of_nodup hnodup, hlength]
    _ ≤ _ := Finset.card_le_card hsubset

theorem failingAhead_mono {f' : QueueFile}
    (h : readyKeys f' subscription ⊆ readyKeys f subscription) (k : ℕ) :
    failingAhead good subscription f' k ⊆ failingAhead good subscription f k :=
  Finset.filter_subset_filter _ h

/-- A flush that is never blocked goes on until every message is sent that can be. -/
theorem returns_drain_allSent {rounds : ℕ} (h : Outbox p.outboxTopic s)
    (hready : AllReady p.outboxTopic s) (hfew : FewAhead good p.outboxTopic s.file)
    (hbound : (unsentKeys s.file p.outboxTopic).card < rounds) :
    Returns (drainWorld p.outboxTopic Onward (Fixed good)) (p.drain b rounds)
      (fun _ s' => doneKeys s.file p.outboxTopic ⊆ doneKeys s'.file p.outboxTopic ∧
        AllSent good p.outboxTopic s.file s'.file) s := by
  induction rounds generalizing s with
  | zero => cases hbound
  | succ rounds ih =>
      rw [drain, flush_succ, Proc.interp_bind]
      refine Returns.bind (returns_round h) ?_
      rintro n s₁ ⟨taken, sent, rfl, hround⟩
      have hdone : doneKeys s.file p.outboxTopic ⊆ doneKeys s₁.file p.outboxTopic := by
        rw [hround.doneKeys_eq]
        exact Finset.subset_union_left
      have hsubset := hround.readyKeys_subset hready
      split_ifs with hnone
      · refine returns_ret ⟨hdone, fun k hk hgood => ?_⟩
        obtain rfl := Finset.card_eq_zero.mp hnone
        have hten := hround.ten_ahead hready hk hgood
        exact absurd (hfew k hk hgood) (by omega)
      · rw [Proc.interp_bind]
        have hless := hround.card_unsentKeys
        have hfew₁ : FewAhead good p.outboxTopic s₁.file := fun k hk hgood =>
          (Finset.card_le_card (failingAhead_mono hsubset k)).trans_lt (hfew k (hsubset hk) hgood)
        refine Returns.bind (ih hround.outbox (hround.allReady hready) hfew₁ (by omega)) ?_
        rintro more s₂ ⟨hdone₂, hsent⟩
        refine returns_ret ⟨hdone.trans hdone₂, fun k hk hgood => ?_⟩
        rcases hround.ready_or_done hready hk hgood with hleft | hsent₁
        · exact hsent k hleft hgood
        · exact hdone₂ hsent₁

/-- Failing messages with attempts left stay ready, and a message behind ten of them too. -/
theorem RoundOf.blocked (h : RoundOf p b Onward (Fixed good) taken sent s s')
    (hready : AllReady p.outboxTopic s) (hunspent : Unspent b p.outboxTopic s.file)
    (hk : k ∈ readyKeys s.file p.outboxTopic)
    (hten : 10 ≤ (failingAhead good p.outboxTopic s.file k).card) :
    k ∈ readyKeys s'.file p.outboxTopic ∧
      failingAhead good p.outboxTopic s.file k ⊆ failingAhead good p.outboxTopic s'.file k := by
  obtain ⟨keys, hkeys, hmem, htaken⟩ := h.taken_eq hready
  have hnot : k ∉ taken := by
    rw [htaken]
    intro hin
    have hlt : (failingAhead good p.outboxTopic s.file k).card < 10 :=
      Table.card_lt_of_mem_take hkeys (fun q hq =>
        ⟨(hmem q).mpr (mem_failingAhead.mp hq).1, (mem_failingAhead.mp hq).2.1⟩) hin
    omega
  constructor
  · obtain ⟨row, hrow, htopic, hstate⟩ := mem_readyKeys.mp hk
    obtain ⟨row', hk', htopic', hcases⟩ := h.of_ready hready hrow htopic
    rcases hcases with ⟨-, rfl⟩ | ⟨hin, -⟩
    · exact mem_readyKeys.mpr ⟨row', hk', htopic', hstate⟩
    · exact absurd hin hnot
  · intro q hq
    obtain ⟨hqready, hlt, hfails⟩ := mem_failingAhead.mp hq
    obtain ⟨row, hrow, htopic, hstate⟩ := mem_readyKeys.mp hqready
    obtain ⟨row', hq', htopic', hcases⟩ := h.of_ready hready hrow htopic
    refine mem_failingAhead.mpr ⟨mem_readyKeys.mpr ⟨row', hq', htopic', ?_⟩, hlt, hfails⟩
    rcases hcases with ⟨-, rfl⟩ | ⟨hin, -, ⟨hsent, -⟩ | ⟨-, leased, hattempts, hback⟩⟩
    · exact hstate
    · rw [h.sent_iff hin, hfails] at hsent
      cases hsent
    · have hspare := hunspent q row hrow htopic hstate
      rcases hback with ⟨hspent, -⟩ | ⟨-, hstate', -⟩
      · rw [LocalDurableBackend.exhausted, decide_eq_true_eq, hattempts] at hspent
        omega
      · exact hstate'

/-- A round that sends something leaves the attempts as far from the limit as they were. -/
theorem RoundOf.unspent (h : RoundOf p b Onward (Fixed good) taken sent s s')
    (hready : AllReady p.outboxTopic s) (hunspent : Unspent b p.outboxTopic s.file)
    (hsent : sent.card ≠ 0) : Unspent b p.outboxTopic s'.file := by
  intro k row' hk' htopic' hstate'
  obtain ⟨row, hk, htopic, -, -⟩ := h.rows.of_after hk' htopic'
  obtain ⟨row'', hk'', -, hcases⟩ := h.of_ready hready hk htopic
  obtain rfl : row' = row'' := Option.some.inj (hk'.symm.trans hk'')
  have hless := h.card_unsentKeys
  rcases hcases with ⟨-, rfl⟩ | ⟨-, hstate, ⟨-, hdone⟩ | ⟨-, leased, hattempts, hback⟩⟩
  · have hspare := hunspent k row' hk htopic hstate'
    omega
  · rw [hdone] at hstate'
    cases hstate'
  · have hspare := hunspent k row hk htopic hstate
    rcases hback with ⟨-, hdead⟩ | ⟨-, -, hsame, -⟩
    · rw [hdead] at hstate'
      cases hstate'
    · rw [hsame, hattempts]
      omega

/-- A message behind ten failing ones is never tried. -/
theorem returns_drain_blocked {rounds : ℕ} (h : Outbox p.outboxTopic s)
    (hready : AllReady p.outboxTopic s) (hunspent : Unspent b p.outboxTopic s.file)
    (hk : k ∈ readyKeys s.file p.outboxTopic)
    (hten : 10 ≤ (failingAhead good p.outboxTopic s.file k).card) :
    Returns (drainWorld p.outboxTopic Onward (Fixed good)) (p.drain b rounds)
      (fun _ s' => k ∈ readyKeys s'.file p.outboxTopic) s := by
  induction rounds generalizing s with
  | zero => exact returns_ret hk
  | succ rounds ih =>
      rw [drain, flush_succ, Proc.interp_bind]
      refine Returns.bind (returns_round h) ?_
      rintro n s₁ ⟨taken, sent, rfl, hround⟩
      obtain ⟨hk₁, hahead⟩ := hround.blocked hready hunspent hk hten
      split_ifs with hnone
      · exact returns_ret hk₁
      · rw [Proc.interp_bind]
        refine Returns.bind (ih hround.outbox (hround.allReady hready)
          (hround.unspent hready hunspent hnone) hk₁ (hten.trans (Finset.card_le_card hahead))) ?_
        exact fun more s₂ hk₂ => returns_ret hk₂

theorem notMem_doneKeys (hk : k ∈ readyKeys f subscription) : k ∉ doneKeys f subscription := by
  intro hdone
  obtain ⟨row, hrow, -, hstate⟩ := mem_readyKeys.mp hk
  obtain ⟨row', hrow', -, hstate'⟩ := mem_doneKeys.mp hdone
  obtain rfl : row = row' := Option.some.inj (hrow.symm.trans hrow')
  rw [hstate] at hstate'
  cases hstate'

/-- For every outbox of ready rows and every choice of the messages that the downstream takes: a
flush sends all of these when ahead of each there are fewer than ten failing messages, and, while
no row comes near its last attempt, only then. -/
theorem allSent_iff {rounds : ℕ} {r : Except Exc ℕ} (h : Outbox p.outboxTopic s)
    (hready : AllReady p.outboxTopic s)
    (hbound : (unsentKeys s.file p.outboxTopic).card + 1 < rounds)
    (exec : Exec (drainWorld p.outboxTopic Onward (Fixed good)) (p.drain b rounds) s (some r) s') :
    (FewAhead good p.outboxTopic s.file → AllSent good p.outboxTopic s.file s'.file) ∧
      (Unspent b p.outboxTopic s.file →
        (AllSent good p.outboxTopic s.file s'.file ↔ FewAhead good p.outboxTopic s.file)) := by
  have henough : FewAhead good p.outboxTopic s.file →
      AllSent good p.outboxTopic s.file s'.file := by
    intro hfew
    obtain ⟨_, -, -, hsent⟩ := wp_sound exec (returns_drain_allSent h hready hfew (by omega))
    exact hsent
  refine ⟨henough, fun hunspent => ⟨fun hsent k hk hgood => ?_, henough⟩⟩
  by_contra hten
  obtain ⟨_, -, hleft⟩ := wp_sound exec
    (returns_drain_blocked h hready hunspent hk (not_lt.mp hten))
  exact notMem_doneKeys hleft (hsent k hk hgood)

/-- Is a row not in flight, and available when it is ready? -/
def available (clock : Binary64) (row : QueueRow) : Bool :=
  row.state ≠ .inflight && (row.state ≠ .ready || row.availableAt.le clock)

theorem allReady_of_rows (h : s.file.table.rows.all (fun e => available s.clock e.2) = true) :
    AllReady subscription s := by
  intro k row hk _
  have hrow : available s.clock row = true := List.all_eq_true.mp h _ (Table.mem_of_get? hk)
  simp only [available, ne_eq, Bool.and_eq_true, Bool.or_eq_true, decide_eq_true_eq] at hrow
  exact ⟨hrow.1, fun hstate => hrow.2.resolve_left (not_not.mpr hstate)⟩

theorem fixed_steady (good : ℕ → Bool) (k : ℕ) :
    Fixed good k (if good k then .ok () else .error (.ofErr .valueError)) := by
  unfold Fixed
  cases good k <;> rfl

/-- Three confirmations, of which the downstream takes the last. -/
theorem allSent_iff_last :
    let s' := (drained 3 5 fun k => k = 2).2.1
    (FewAhead (fun k => k = 2) "fill_outbox" (fillOutbox 3) →
        AllSent (fun k => k = 2) "fill_outbox" (fillOutbox 3) s'.file) ∧
      (Unspent outboxBackend "fill_outbox" (fillOutbox 3) →
        (AllSent (fun k => k = 2) "fill_outbox" (fillOutbox 3) s'.file ↔
          FewAhead (fun k => k = 2) "fill_outbox" (fillOutbox 3))) :=
  allSent_iff (p := fillProducer) (s := ⟨fillOutbox 3, .zero, []⟩) (outbox_asWritten (by decide))
    (allReady_of_rows (by decide)) (by decide) (exec_of_traced (exec_drained (fun _ h => h)
      (fixed_steady _) (by decide +kernel)))

/-- Ten confirmations that the downstream does not take, and one behind them that it does. -/
theorem blocked_by_ten : ¬ ∀ (p : FillProducer) (b : LocalDurableBackend) (good : ℕ → Bool)
    (s s' : SoleFile) (rounds : ℕ) (r : Except Exc ℕ), Outbox p.outboxTopic s →
      AllReady p.outboxTopic s → (unsentKeys s.file p.outboxTopic).card + 1 < rounds →
      Exec (drainWorld p.outboxTopic Onward (Fixed good)) (p.drain b rounds) s (some r) s' →
      AllSent good p.outboxTopic s.file s'.file := by
  intro h
  have hsent := h fillProducer outboxBackend (fun k => k = 10) ⟨fillOutbox 11, .zero, []⟩ _ 13 _
    (outbox_asWritten (by decide +kernel)) (allReady_of_rows (by decide +kernel))
    (by decide +kernel) (exec_of_traced (exec_drained (n := 11) (fun _ h => h)
      (fixed_steady fun k => k = 10) (by decide +kernel)))
  have hdone := hsent 10 (by decide +kernel) rfl
  exact absurd hdone (by decide +kernel)

end Flush

end FillProducer

end System2
