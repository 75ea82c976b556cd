import System2.Common.QueuePool

/-!
# Whom a leased row belongs to

A reclaim and a nack read a row in one statement and give it back by its key in another. In
between another instance may give the row back first, and a third one lease it anew: the
second statement then takes it from that one. Where no row is leased between the two
statements, a lease that has not run out ends only through its own handle.
-/

namespace System2
open Foundation

/-- The row that a statement leased. -/
def leasedRow : QueueEvent → Option ℕ
  | ⟨.lease seq _ _ _, .ok true⟩ => some seq
  | _ => none

/-- The last `SELECT` of a reclaim or of a nack of an instance, and the rows that anyone leased
since. -/
structure View (ι : Type) where
  pick : Option (Happened ι QueueI Exc ClockedFile)
  leased : List ℕ

variable {ι : Type} [DecidableEq ι]

def View.next (i : ι) (v : View ι) (h : Happened ι QueueI Exc ClockedFile) : View ι :=
  if h.who = i ∧ isPick h.event then ⟨some h, []⟩
  else ⟨v.pick, (leasedRow h.event).toList ++ v.leased⟩

def view (i : ι) (log : QueueLog ι) : View ι := log.foldl (View.next i) ⟨none, []⟩

@[simp] theorem view_concat (i : ι) (log : QueueLog ι) (h : Happened ι QueueI Exc ClockedFile) :
    view i (log ++ [h]) = (view i log).next i h := by
  simp [view]

/-- Some reading of the file's clock has reached the end of the lease. -/
def ClockedFile.Expired (s : ClockedFile) (row : QueueRow) : Prop :=
  ∃ now ∈ s.clocks, row.leasedUntil.le now = true

/-- Row `q` is in flight under a lease that has not expired. -/
structure Held (s : ClockedFile) (q : ℕ) (row : QueueRow) : Prop where
  there : s.file.table.get? q = some row
  inflight : row.state = .inflight
  unexpired : ¬ s.Expired row

/-- The statements that give a row back by its key. -/
def GivesBack (q : ℕ) : QueueCall → Prop
  | .reclaim seq => seq = q
  | .release seq _ => seq = q
  | _ => False

/-- A statement gives a held row back only if nobody leased the row since the `SELECT` that the
statement goes by. -/
def Steady (pre : QueueLog ι) (h : Happened ι QueueI Exc ClockedFile) : Prop :=
  ∀ q row, GivesBack q h.op → Held h.before q row → q ∉ (view h.who pre).leased

/-- The statement with which a nack of the handle `ackId` gives the row back. -/
def OwnNack (pre : QueueLog ι) (h : Happened ι QueueI Exc ClockedFile) (ackId : String) : Prop :=
  (∃ seq availableAt, h.op = .release seq availableAt) ∧
    ∃ pick, (view h.who pre).pick = some pick ∧ pick.op = .selectAckId ackId

/-- The row is still not ready, and goes to nobody else. -/
def StaysLeased (t : QueueTable) (q : ℕ) (row : QueueRow) : Prop :=
  ∃ row', t.get? q = some row' ∧ row'.state ≠ .ready ∧ row'.ackId = row.ackId ∧
    row'.leaseOwner = row.leaseOwner

/-- Every held row stays with its lease, unless its own handle is nacked. -/
def Exclusive (pre : QueueLog ι) (h : Happened ι QueueI Exc ClockedFile) : Prop :=
  ∀ q row, Held h.before q row → (∃ ackId, row.ackId = some ackId ∧ OwnNack pre h ackId) ∨
    StaysLeased h.after.file.table q row

/-! ### What a statement does to a row in flight -/

variable {s s' : ClockedFile} {op : QueueCall} {r : Except Exc op.Ans} {q : ℕ} {row row' : QueueRow}

theorem clocks_grow (step : clockedWorld s op r s') : ∀ now ∈ s.clocks, now ∈ s'.clocks := by
  rcases step with ⟨dbNow, a, -, -, rfl⟩ | ⟨-, rfl⟩
  · exact fun now hnow => List.mem_cons_of_mem _ hnow
  · exact fun now hnow => hnow

/-- A row in flight that was not just leased was so before the statement. -/
theorem inflight_before (step : clockedWorld s op r s') (hlease : leasedRow ⟨op, r⟩ ≠ some q)
    (h : s'.file.table.get? q = some row') (hstate : row'.state = .inflight) :
    s.file.table.get? q = some row' := by
  rcases step with ⟨dbNow, a, rfl, hanswers, rfl⟩ | ⟨-, rfl⟩
  swap
  · exact h
  rcases QueueCall.of_after h with ⟨row, hrow, hleft⟩ | ⟨topic, body, rfl, -, rfl⟩
  swap
  · cases hstate
  cases hleft with
  | kept => exact hrow
  | leased hready =>
      have hclaimed : a = true := by
        rw [show a = QueueTable.isIn s.file.table q .ready from hanswers]
        simp [QueueTable.isIn, hrow, hready]
      subst hclaimed
      exact absurd rfl hlease
  | reclaimed => cases hstate
  | claimed => cases hstate
  | done => cases hstate
  | dead => cases hstate
  | released => cases hstate

/-- Only the statements that give a row back end its lease, and a lease of the row itself. -/
theorem staysLeased_step (step : clockedWorld s op r s') (hop : ¬ GivesBack q op)
    (hrow : s.file.table.get? q = some row) (hstate : row.state = .inflight) :
    StaysLeased s'.file.table q row := by
  have hinflight : row.state ≠ .ready := by simp [hstate]
  rcases step with ⟨dbNow, a, rfl, -, rfl⟩ | ⟨-, rfl⟩
  swap
  · exact ⟨row, hrow, hinflight, rfl, rfl⟩
  obtain ⟨row', hrow', hleft⟩ := op.exists_after hrow
  refine ⟨row', hrow', ?_⟩
  cases hleft with
  | kept => exact ⟨hinflight, rfl, rfl⟩
  | leased hready => exact absurd hready hinflight
  | reclaimed => exact absurd rfl hop
  | released => exact absurd rfl hop
  | claimed => exact ⟨RowState.noConfusion, rfl, rfl⟩
  | done => exact ⟨RowState.noConfusion, rfl, rfl⟩
  | dead => exact ⟨RowState.noConfusion, rfl, rfl⟩

/-! ### What an instance knows -/

/-- What still holds of the last `SELECT` of an instance: rows that nobody leased since and that
are in flight now were in flight then, under the same lease. -/
structure StillSeen (s : ClockedFile) (v : View ι)
    (pick : Happened ι QueueI Exc ClockedFile) : Prop where
  answered : clockedWorld pick.before pick.op pick.answer pick.after
  clocks : ∀ now ∈ pick.after.clocks, now ∈ s.clocks
  rows : ∀ q row, q ∉ v.leased → s.file.table.get? q = some row → row.state = .inflight →
    pick.before.file.table.get? q = some row
  ownLeases : ∀ subscription owner, pick.op ≠ .selectOrphans subscription (some owner)

/-- The instances of a log have all made their first pull before. -/
def Recovered (log : QueueLog ι) : Prop :=
  ∀ h ∈ log, ∀ subscription, h.event ≠ ⟨.firstPull subscription, .ok true⟩

variable {s₀ : ClockedFile} {log : QueueLog ι}

theorem lastPick_own (i : ι) (log : QueueLog ι) :
    lastPick (own i log) = (view i log).pick.map Happened.event := by
  induction log using List.reverseRecOn with
  | nil => rfl
  | append_singleton log h ih =>
      by_cases hi : h.who = i
      · subst hi
        rw [own_concat_self, lastPick_concat, view_concat, View.next]
        by_cases hpick : isPick h.event = true
        · simp [hpick]
        · simp [hpick, ih]
      · rw [own_concat_other log hi, ih, view_concat, View.next, if_neg fun h => hi h.1]

/-- A `SELECT` changes no row. -/
theorem rows_of_pick (hpick : isPick ⟨op, r⟩ = true) (step : clockedWorld s op r s') :
    s'.file.table = s.file.table := by
  rcases step with ⟨dbNow, a, -, -, rfl⟩ | ⟨-, rfl⟩
  · cases op with
    | selectOrphans subscription notOwner => rfl
    | selectAckId ackId => rfl
    | _ => exact nomatch hpick
  · rfl

theorem view_stillSeen (history : History clockedWorld queueProtocol s₀ log s)
    (recovered : Recovered log) :
    ∀ i pick, (view i log).pick = some pick → StillSeen s (view i log) pick := by
  induction history with
  | start => exact fun i pick hpick => nomatch hpick
  | @call log s i op r s' history hop step ih =>
      have hrecovered : Recovered log := fun h hmem => recovered h (List.mem_append_left _ hmem)
      intro j pick hpick
      rw [view_concat] at hpick ⊢
      unfold View.next at hpick ⊢
      split_ifs at hpick ⊢ with hown
      · -- the instance has just selected
        obtain ⟨rfl, hselect⟩ := hown
        obtain rfl : _ = pick := Option.some.inj hpick
        refine ⟨step, fun now hnow => hnow, fun q row _ hrow _ => ?_, ?_⟩
        · rwa [rows_of_pick hselect step] at hrow
        · rintro subscription owner rfl
          obtain ⟨h, hmem, -, hevent⟩ := mem_own_iff.mp hop
          exact hrecovered h hmem subscription hevent
      · have hseen := ih hrecovered j pick hpick
        refine ⟨hseen.answered, fun now hnow => clocks_grow step now (hseen.clocks now hnow),
          fun q row hq hrow hstate => ?_, hseen.ownLeases⟩
        rw [List.mem_append, not_or] at hq
        refine hseen.rows q row hq.2 (inflight_before step ?_ hrow hstate) hstate
        intro hlease
        exact hq.1 (by simp [Happened.event, hlease])

omit [DecidableEq ι] in
/-- An instance that goes by its last `SELECT` reclaims no held row that nobody leased since. -/
theorem StillSeen.not_held {v : View ι} {pick : Happened ι QueueI Exc ClockedFile}
    {subscription : String} {notOwner : Option String} {picks : List Picked}
    (seen : StillSeen s v pick)
    (hevent : pick.event = ⟨.selectOrphans subscription notOwner, .ok picks⟩)
    (hmem : q ∈ picks.map Picked.seq) (hq : q ∉ v.leased) : ¬ Held s q row := by
  intro held
  obtain ⟨who, op, answer, before, after⟩ := pick
  obtain ⟨rfl, hanswer⟩ := Sigma.mk.inj hevent
  obtain rfl := eq_of_heq hanswer
  obtain rfl : notOwner = none := by
    cases notOwner with
    | none => rfl
    | some owner => exact absurd rfl (seen.ownLeases subscription owner)
  obtain ⟨dbNow, a, ha, hpicks, hafter⟩ | ⟨⟨e, he⟩, -⟩ := seen.answered
  · obtain rfl := Except.ok.inj ha
    have hrow := seen.rows q row hq held.there held.inflight
    rw [show picks = _ from hpicks] at hmem
    simp only [List.map_map, List.mem_map] at hmem
    obtain ⟨⟨k, old⟩, hselected, rfl⟩ := hmem
    obtain ⟨hold, horphan⟩ := Table.mem_select_iff.mp hselected
    obtain rfl : old = row := Option.some.inj (hold.symm.trans hrow)
    have hexpired : old.leasedUntil.le dbNow = true := by
      simpa [QueueRow.isOrphan, held.inflight] using (decide_eq_true_iff.mp horphan).2.2
    refine held.unexpired ⟨dbNow, seen.clocks dbNow ?_, hexpired⟩
    rw [show after = _ from hafter]
    exact List.mem_cons_self
  · exact nomatch he

omit [DecidableEq ι] in
/-- A nack that goes by its last `SELECT` gives back the row of its own handle, if nobody leased
that row since. -/
theorem StillSeen.ackId_eq {v : View ι} {pick : Happened ι QueueI Exc ClockedFile}
    {ackId : String} {picked : Picked} (seen : StillSeen s v pick)
    (hevent : pick.event = ⟨.selectAckId ackId, .ok (some picked)⟩) (hq : picked.seq ∉ v.leased)
    (hrow : s.file.table.get? picked.seq = some row) (hstate : row.state = .inflight) :
    row.ackId = some ackId := by
  obtain ⟨who, op, answer, before, after⟩ := pick
  obtain ⟨rfl, hanswer⟩ := Sigma.mk.inj hevent
  obtain rfl := eq_of_heq hanswer
  obtain ⟨dbNow, a, ha, hpicked, -⟩ | ⟨⟨e, he⟩, -⟩ := seen.answered
  · obtain rfl := Except.ok.inj ha
    obtain ⟨entry, hhead, rfl⟩ := Option.map_eq_some_iff.mp (show some picked = _ from hpicked).symm
    obtain ⟨hold, hid⟩ := Table.mem_select_iff.mp (List.mem_of_mem_head? hhead)
    have hthen := seen.rows _ row hq hrow hstate
    obtain rfl : entry.2 = row := Option.some.inj (hold.symm.trans hthen)
    simpa [QueueRow.hasAckId] using hid
  · cases he

/-- Among instances that have all made their first pull before, a lease that has not expired ends
only through its own handle, in every run in which no held row is given back by a statement
whose `SELECT` is older than the lease. -/
theorem lease_exclusive (s₀ : ClockedFile) (pool : Pool ι QueueI Exc ClockedFile)
    (reaches : Pool.Reaches clockedWorld Caller (.idle s₀) pool) (recovered : Recovered pool.log)
    (steady : ∀ pre h post, pool.log = pre ++ h :: post → Steady pre h) :
    ∀ pre h post, pool.log = pre ++ h :: post → Exclusive pre h := by
  intro pre h post heq q row held
  obtain ⟨history, hop, step⟩ := (queueHistory reaches).split pre h post heq
  have hrecovered : Recovered pre := fun e he =>
    recovered e (heq ▸ List.mem_append_left _ he)
  have hsteady := steady pre h post heq q row
  have hlast := lastPick_own h.who pre
  have hseen := view_stillSeen history hrecovered h.who
  by_cases hgives : GivesBack q h.op
  · have hq := hsteady hgives held
    obtain ⟨who, op, answer, before, after⟩ := h
    cases op with
    | reclaim seq =>
        obtain rfl : seq = q := hgives
        obtain ⟨subscription, notOwner, picks, hpick, hmem⟩ := hop
        rw [hpick] at hlast
        obtain ⟨pick, hview, hevent⟩ := Option.map_eq_some_iff.mp hlast.symm
        exact absurd held ((hseen pick hview).not_held hevent hmem hq)
    | release seq availableAt =>
        obtain rfl : seq = q := hgives
        obtain ⟨ackId, picked, hpick, rfl⟩ := hop
        rw [hpick] at hlast
        obtain ⟨pick, hview, hevent⟩ := Option.map_eq_some_iff.mp hlast.symm
        refine Or.inl ⟨ackId, ?_, ⟨picked.seq, availableAt, rfl⟩, pick, hview,
          congrArg Sigma.fst hevent⟩
        exact (hseen pick hview).ackId_eq hevent hq held.there held.inflight
    | _ => exact hgives.elim
  · exact Or.inr (staysLeased_step step hgives held.there held.inflight)

/-! ### Three instances -/

/-- Does no statement of a log give back a row that was leased since its `SELECT`? -/
def steadyCheck (log : QueueLog ι) : Bool :=
  (List.range log.length).all fun n => log[n]?.all fun h =>
    match h.op with
    | .reclaim seq => !(view h.who (log.take n)).leased.contains seq
    | .release seq _ => !(view h.who (log.take n)).leased.contains seq
    | _ => true

theorem steady_of_check (hcheck : steadyCheck log = true) (pre : QueueLog ι)
    (h : Happened ι QueueI Exc ClockedFile) (post : QueueLog ι) (heq : log = pre ++ h :: post) :
    Steady pre h := by
  subst heq
  intro q row hgives _ hmem
  have hstep := List.all_eq_true.mp hcheck pre.length (by simp)
  obtain ⟨who, op, answer, before, after⟩ := h
  cases op with
  | reclaim seq =>
      obtain rfl : seq = q := hgives
      simp [hmem] at hstep
  | release seq availableAt =>
      obtain rfl : seq = q := hgives
      simp [hmem] at hstep
  | _ => exact hgives

/-- Was no first pull made? -/
def recoveredCheck (log : QueueLog ι) : Bool :=
  log.all fun h =>
    match h.event with
    | ⟨.firstPull _, .ok true⟩ => false
    | _ => true

omit [DecidableEq ι] in
theorem recovered_of_check (hcheck : recoveredCheck log = true) : Recovered log := by
  intro h hmem subscription hevent
  have hone := List.all_eq_true.mp hcheck h hmem
  rw [hevent] at hone
  exact nomatch hone

namespace LocalDurableBackend

/-- Instance 2 takes it over later. -/
def takenOver : Pool ℕ QueueI Exc ClockedFile :=
  ((leasedByOne 5).starting 2 (pulling 5 "two")).calls (clocked false later) 2 7

/-- Instance 2 has read the orphan; before it goes on, instance 3 takes the row over. -/
def overtaken : Pool ℕ QueueI Exc ClockedFile :=
  (((leasedByOne 5).starting 2 (pulling 5 "two")).calls (clocked false later) 2 2
    |>.starting 3 (pulling 5 "three")).calls (clocked false later) 3 7

/-- The row that instance 2 is about to give back. -/
def nextReclaim (pool : Pool ℕ QueueI Exc ClockedFile) : Option ℕ :=
  match pool.running 2 with
  | some (.call (.reclaim seq) _) => some seq
  | _ => none

theorem lease_exclusive_takenOver :
    takenOver.shared.file.table.rows.map (fun e => e.2.leaseOwner) = [some "two"] ∧
      ∀ pre h post, takenOver.log = pre ++ h :: post → Exclusive pre h := by
  refine ⟨by decide +kernel, lease_exclusive ⟨⟨.empty, []⟩, []⟩ takenOver ?_ ?_ ?_⟩
  · exact (reaches_leasedByOne 5).starting (by decide +kernel) .pull |>.calls
      (clocked_step false later) 7
  · exact recovered_of_check (by decide +kernel)
  · exact steady_of_check (by decide +kernel)

/-- The row that instance 3 has just leased is made ready by the statement of instance 2. -/
theorem fresh_lease_given_back : ∃ pool : Pool ℕ QueueI Exc ClockedFile,
    Pool.Reaches clockedWorld Caller (.idle ⟨⟨.empty, []⟩, []⟩) pool ∧ Recovered pool.log ∧
    ∃ pre h post, pool.log = pre ++ h :: post ∧ ¬ Exclusive pre h := by
  have hreach : Pool.Reaches clockedWorld Caller (.idle ⟨⟨.empty, []⟩, []⟩) overtaken :=
    ((reaches_leasedByOne 5).starting (by decide +kernel) .pull |>.calls (clocked_step false later) 2
      |>.starting (by decide +kernel) .pull).calls (clocked_step false later) 7
  refine ⟨overtaken.calls (clocked false later) 2 1, hreach.calls (clocked_step false later) 1,
    recovered_of_check (by decide +kernel), overtaken.log, ?_⟩
  have hnext : nextReclaim overtaken = some 0 := by decide +kernel
  unfold nextReclaim at hnext
  split at hnext
  · rename_i seq next hrunning
    obtain rfl : seq = 0 := Option.some.inj hnext
    refine ⟨_, [], by rw [Pool.calls, hrunning]; rfl, ?_⟩
    intro hexclusive
    have hheld : (overtaken.shared.file.table.get? 0).any (fun row =>
        row.state = .inflight ∧ overtaken.shared.clocks.all fun now => !row.leasedUntil.le now) =
          true := by decide +kernel
    have hready : rowState (clocked false later (.reclaim 0) overtaken.shared).2.file.table 0 =
        some .ready := by decide +kernel
    obtain ⟨row, hrow, hstate⟩ := (Option.any_eq_true _ _).mp hheld
    obtain ⟨hinflight, hclocks⟩ := decide_eq_true_iff.mp hstate
    have hunexpired : ¬ overtaken.shared.Expired row := by
      rintro ⟨now, hmem, hexpired⟩
      have hlate := List.all_eq_true.mp hclocks now hmem
      rw [hexpired] at hlate
      exact nomatch hlate
    rcases hexclusive 0 row ⟨hrow, hinflight, hunexpired⟩ with
      ⟨ackId, -, ⟨seq, availableAt, hop⟩, -⟩ | ⟨row', hrow', hnot, -⟩
    · exact nomatch hop
    · simp only [rowState, hrow', Option.map_some, Option.some.injEq] at hready
      exact hnot hready
  · exact nomatch hnext

end LocalDurableBackend

end System2
