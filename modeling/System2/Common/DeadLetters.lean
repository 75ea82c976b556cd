import System2.Common.QueuePool

/-!
# Dead rows and their copies

A handle is dead-lettered by filing its copy and then marking the row. The reaper does it
the other way round: it claims the row first, so that nobody else files it too, and files
the copy afterwards. A process that dies in between leaves a dead row without a copy.
-/

namespace System2
open Foundation

/-- On the dead-letter topic of a row there is a row whose wrapper carries its body. -/
def HasCopy (t : QueueTable) (row : QueueRow) : Prop :=
  ∃ q copy entries, t.get? q = some copy ∧ copy.topic = row.topic ++ ".dlq" ∧
    copy.body = .json (.dict entries) ∧ entries.lookup "original" = some row.body.original

/-- Every dead row has its copy. -/
def Covered (t : QueueTable) : Prop :=
  ∀ q row, t.get? q = some row → row.state = .dead → HasCopy t row

variable {ι : Type}

/-- A reaper that wins a row finds the copy of the row filed already. -/
def CopiedFirst (h : Happened ι QueueI Exc ClockedFile) : Prop :=
  ∀ seq row, h.event = ⟨.claimDead seq, .ok true⟩ → h.before.file.table.get? seq = some row →
    HasCopy h.before.file.table row

/-! ### What a statement leaves of the rows -/

variable {s s' : ClockedFile} {op : QueueCall} {r : Except Exc op.Ans} {q : ℕ}
  {row row' : QueueRow}

/-- Rows stay, with their topics and bodies. -/
def RowsKept (t t' : QueueTable) : Prop :=
  ∀ q row, t.get? q = some row →
    ∃ row', t'.get? q = some row' ∧ row'.topic = row.topic ∧ row'.body = row.body

theorem rowsKept_after (dbNow : Binary64) (t : QueueTable) (op : QueueCall) :
    RowsKept t (op.after dbNow t) := by
  intro q row hrow
  obtain ⟨row', hrow', hleft⟩ := op.exists_after hrow
  exact ⟨row', hrow', hleft.same⟩

theorem rowsKept_step (step : clockedWorld s op r s') :
    RowsKept s.file.table s'.file.table := by
  rcases step with ⟨dbNow, a, -, -, rfl⟩ | ⟨-, rfl⟩
  · exact rowsKept_after dbNow s.file.table op
  · exact fun q row hrow => ⟨row, hrow, rfl, rfl⟩

theorem HasCopy.mono {t t' : QueueTable} (h : HasCopy t row) (hkept : RowsKept t t')
    (htopic : row'.topic = row.topic) (hbody : row'.body = row.body) : HasCopy t' row' := by
  obtain ⟨q, copy, entries, hcopy, hfiled, hwrapper, horiginal⟩ := h
  obtain ⟨copy', hcopy', htopic', hbody'⟩ := hkept q copy hcopy
  exact ⟨q, copy', entries, hcopy', by rw [htopic', hfiled, htopic], hbody'.trans hwrapper,
    by rw [hbody, horiginal]⟩

/-- How a row came to be dead: it was before, the reaper claimed it, or its handle was
dead-lettered. -/
def DiedBy (e : QueueEvent) (q : ℕ) (row : QueueRow) : Prop :=
  row.state = .dead ∨ e = ⟨.claimDead q, .ok true⟩ ∨
    ∃ ackId, e.1 = .setDead ackId ∧ row.ackId = some ackId

theorem dead_before (step : clockedWorld s op r s') (hrow' : s'.file.table.get? q = some row')
    (hdead : row'.state = .dead) : ∃ row, s.file.table.get? q = some row ∧
      row'.topic = row.topic ∧ row'.body = row.body ∧ DiedBy ⟨op, r⟩ q row := by
  rcases step with ⟨dbNow, a, rfl, hanswers, rfl⟩ | ⟨-, rfl⟩
  swap
  · exact ⟨row', hrow', rfl, rfl, Or.inl hdead⟩
  rcases QueueCall.of_after hrow' with ⟨row, hrow, hleft⟩ | ⟨topic, body, rfl, -, rfl⟩
  swap
  · cases hdead
  refine ⟨row, hrow, hleft.same.1, hleft.same.2, ?_⟩
  cases hleft with
  | kept => exact Or.inl hdead
  | claimed hinflight =>
      refine Or.inr (Or.inl ?_)
      rw [show a = QueueTable.isIn s.file.table q .inflight from hanswers]
      simp [QueueTable.isIn, hrow, hinflight]
  | dead held => exact Or.inr (Or.inr ⟨_, rfl, held⟩)
  | leased => cases hdead
  | reclaimed => cases hdead
  | done => cases hdead
  | released => cases hdead

/-! ### What the log says of the rows -/

variable [DecidableEq ι] {s₀ : ClockedFile} {P : Protocol ι QueueI Exc ClockedFile}
  {log : QueueLog ι}

/-- What was selected or inserted is there, with its topic and its body. -/
structure RowRecord (t : List QueueEvent) (s : ClockedFile) : Prop where
  offered : ∀ topic seq body, OfferedIn t topic seq body →
    ∃ row, s.file.table.get? seq = some row ∧ row.topic = topic ∧ row.body = body
  inserted : ∀ topic body, ⟨.insert topic body, .ok ()⟩ ∈ t →
    ∃ q row, s.file.table.get? q = some row ∧ row.topic = topic ∧ row.body = body

omit [DecidableEq ι] in
theorem RowRecord.step {t : List QueueEvent} (h : RowRecord t s)
    (step : clockedWorld s op r s') : RowRecord (t ++ [⟨op, r⟩]) s' where
  offered := by
    rintro topic seq body ⟨now, limit, picks, attempts, hmem, hpick⟩
    have hthere : ∃ row, s.file.table.get? seq = some row ∧ row.topic = topic ∧
        row.body = body := by
      rcases List.mem_append.mp hmem with hold | hnew
      · exact h.offered topic seq body ⟨now, limit, picks, attempts, hold, hpick⟩
      · obtain ⟨rfl, hr⟩ := Sigma.mk.inj (List.mem_singleton.mp hnew)
        obtain rfl := eq_of_heq hr
        rcases step with ⟨dbNow, a, ha, hpicks, -⟩ | ⟨⟨e, he⟩, -⟩
        · obtain rfl := Except.ok.inj ha
          rw [show picks = _ from hpicks] at hpick
          obtain ⟨⟨k, row⟩, hselected, hsame⟩ := List.mem_map.mp hpick
          obtain ⟨rfl, rfl, -⟩ := Picked.mk.inj hsame
          have hselect : (k, row) ∈ s.file.table.select (QueueRow.isAvailable topic now) := by
            unfold limited at hselected
            split_ifs at hselected
            · exact hselected
            · exact List.mem_of_mem_take hselected
          obtain ⟨hrow, havailable⟩ := Table.mem_select_iff.mp hselect
          exact ⟨row, hrow, (decide_eq_true_iff.mp havailable).1, rfl⟩
        · exact nomatch he
    obtain ⟨row, hrow, htopic, hbody⟩ := hthere
    obtain ⟨row', hrow', htopic', hbody'⟩ := rowsKept_step step seq row hrow
    exact ⟨row', hrow', htopic'.trans htopic, hbody'.trans hbody⟩
  inserted := by
    intro topic body hmem
    rcases List.mem_append.mp hmem with hold | hnew
    · obtain ⟨q, row, hrow, htopic, hbody⟩ := h.inserted topic body hold
      obtain ⟨row', hrow', htopic', hbody'⟩ := rowsKept_step step q row hrow
      exact ⟨q, row', hrow', htopic'.trans htopic, hbody'.trans hbody⟩
    · obtain ⟨rfl, hr⟩ := Sigma.mk.inj (List.mem_singleton.mp hnew)
      obtain rfl := eq_of_heq hr
      rcases step with ⟨dbNow, a, -, -, rfl⟩ | ⟨⟨e, he⟩, -⟩
      · refine ⟨s.file.table.next, .inserted topic body, ?_, rfl, rfl⟩
        exact Table.get?_of_mem (List.mem_append_right _ (List.mem_singleton_self _))
      · exact nomatch he

theorem rowRecord (history : History clockedWorld P ⟨⟨.empty, []⟩, []⟩ log s) :
    RowRecord (log.map Happened.event) s := by
  induction history with
  | start =>
      refine ⟨?_, fun topic body hmem => nomatch hmem⟩
      rintro topic seq body ⟨now, limit, picks, attempts, hmem, -⟩
      exact nomatch hmem
  | call _ _ step ih =>
      rw [List.map_append]
      exact ih.step step

/-! ### Every dead row has its copy -/

/-- The copy that a handle is dead-lettered with is one of its row. -/
theorem hasCopy_of_setDead {i : ι} {ackId : String}
    (history : History clockedWorld queueProtocol ⟨⟨.empty, []⟩, []⟩ log s)
    (hop : queueProtocol log (own i log) (.setDead ackId))
    (hrow : s.file.table.get? q = some row) (hid : row.ackId = some ackId) :
    HasCopy s.file.table row := by
  obtain ⟨msg, ⟨seq, hleased, hoffered⟩, rfl, reason, timestamp, hfiled⟩ := hop
  have hids := leaseRecord history
  have hrows := rowRecord history
  obtain rfl : seq = q := hids.once seq q msg.ackId hleased (hids.rows q row msg.ackId hrow hid)
  obtain ⟨offered, hofferedRow, htopic, hbody⟩ := hrows.offered msg.topic seq _ hoffered
  obtain rfl : offered = row := Option.some.inj (hofferedRow.symm.trans hrow)
  obtain ⟨k, copy, hcopy, hcopyTopic, hcopyBody⟩ := hrows.inserted _ _ (mem_events_of_own hfiled)
  refine ⟨k, copy, _, hcopy, by rw [hcopyTopic, htopic], hcopyBody, ?_⟩
  rw [hbody]
  rfl

theorem covered_of_copiedFirst
    (history : History clockedWorld queueProtocol ⟨⟨.empty, []⟩, []⟩ log s)
    (copied : ∀ h ∈ log, CopiedFirst h) : Covered s.file.table := by
  induction history with
  | start => exact fun q row hrow => nomatch hrow
  | @call log s i op r s' history hop step ih =>
      have hbefore := ih fun h hmem => copied h (List.mem_append_left _ hmem)
      intro q row' hrow' hdead
      obtain ⟨row, hrow, htopic, hbody, hdied⟩ := dead_before step hrow' hdead
      refine HasCopy.mono ?_ (rowsKept_step step) htopic hbody
      rcases hdied with hstate | hclaimed | ⟨ackId, hset, hid⟩
      · exact hbefore q row hrow hstate
      · exact copied ⟨i, op, r, s, s'⟩ (List.mem_append_right _ (List.mem_singleton_self _)) q row
          hclaimed hrow
      · obtain rfl : op = .setDead ackId := hset
        exact hasCopy_of_setDead history hop hrow hid

omit [DecidableEq ι] in
/-- A claimed row is dead at once, so its copy has to be there before. -/
theorem copiedFirst_of_covered {h : Happened ι QueueI Exc ClockedFile}
    (step : clockedWorld h.before h.op h.answer h.after) (covered : Covered h.after.file.table) :
    CopiedFirst h := by
  obtain ⟨who, op, answer, before, after⟩ := h
  intro seq row hevent hrow
  obtain ⟨rfl, hanswer⟩ := Sigma.mk.inj hevent
  obtain rfl := eq_of_heq hanswer
  rcases step with ⟨dbNow, a, ha, hanswers, hafter⟩ | ⟨⟨e, he⟩, -⟩
  swap
  · exact nomatch he
  obtain rfl := Except.ok.inj ha
  have hstate : row.state = .inflight := by
    have hin : true = QueueTable.isIn before.file.table seq .inflight := hanswers
    simpa [QueueTable.isIn, show before.file.table.get? seq = some row from hrow] using hin.symm
  have htable : after.file.table = before.file.table.update
      (fun k row => k = seq ∧ row.state = .inflight) (.withState .dead) := by
    rw [show after = _ from hafter]
    rfl
  have hrow' : after.file.table.get? seq = some (row.withState .dead) := by
    rw [htable, Table.get?_update, show before.file.table.get? seq = some row from hrow]
    simp [hstate]
  obtain ⟨q, copy, entries, hcopy, hfiled, hwrapper, horiginal⟩ := covered seq _ hrow' rfl
  rw [show Happened.after _ = after from rfl, htable, Table.get?_update] at hcopy
  obtain ⟨old, hold, hsame⟩ := Option.map_eq_some_iff.mp hcopy
  have hkept : copy.topic = old.topic ∧ copy.body = old.body := by
    rw [← hsame]
    split_ifs
    · exact ⟨rfl, rfl⟩
    · exact ⟨rfl, rfl⟩
  exact ⟨q, old, entries, hold, hkept.1 ▸ hfiled, hkept.2 ▸ hwrapper, horiginal⟩

/-- In a run on an empty file every dead row has its copy in every state reached exactly when
each row that a reaper claims has its copy before. -/
theorem dead_rows_covered_iff (pool : Pool ι QueueI Exc ClockedFile)
    (reaches : Pool.Reaches clockedWorld Caller (.idle ⟨⟨.empty, []⟩, []⟩) pool) :
    (∀ h ∈ pool.log, Covered h.after.file.table) ↔ ∀ h ∈ pool.log, CopiedFirst h := by
  have history := queueHistory reaches
  constructor
  · intro covered h hmem
    obtain ⟨pre, post, heq⟩ := List.append_of_mem hmem
    obtain ⟨-, -, step⟩ := history.split pre h post heq
    exact copiedFirst_of_covered step (covered h hmem)
  · intro copied h hmem
    obtain ⟨pre, post, heq⟩ := List.append_of_mem hmem
    obtain ⟨hpre, hop, step⟩ := history.split pre h post heq
    refine covered_of_copiedFirst (History.call hpre hop step) fun e he => copied e ?_
    rw [heq]
    exact List.append_cons pre h post ▸ List.mem_append_left _ he

namespace LocalDurableBackend

/-- The handle of instance 1 is dead-lettered. -/
def buried : Pool ℕ QueueI Exc ClockedFile :=
  ((leasedByOne 5).starting 2 (settleWith plainBackend pulledMessage (.toDlq []))).calls
    (clocked false .zero) 2 3

/-- A reaper has claimed the row, whose attempts are used up. -/
def claimed : Pool ℕ QueueI Exc ClockedFile :=
  ((leasedByOne 1).starting 2 (pulling 1 "two")).calls (clocked false later) 2 3

theorem dead_rows_covered_iff_buried : rowState buried.shared.file.table 0 = some .dead ∧
    ((∀ h ∈ buried.log, Covered h.after.file.table) ↔ ∀ h ∈ buried.log, CopiedFirst h) := by
  have hhandle : HandleIn ((leasedByOne 5).log.map Happened.event) pulledMessage :=
    ⟨0, ⟨"one", .ofRat 10, List.mem_of_getElem? (i := 6) rfl⟩, .zero, 1, [⟨0, .json .null, 0⟩], 0,
      List.mem_of_getElem? (i := 4) rfl, List.mem_cons_self⟩
  exact ⟨by decide +kernel, dead_rows_covered_iff buried
    ((reaches_leasedByOne 5).starting rfl (.settle hhandle) |>.calls (clocked_step false .zero) 3)⟩

/-- The reaper dies here: the row is dead, and nothing was filed. -/
theorem claimed_without_copy : ∃ pool : Pool ℕ QueueI Exc ClockedFile,
    Pool.Reaches clockedWorld Caller (.idle ⟨⟨.empty, []⟩, []⟩) pool ∧ pool.running 2 = none ∧
      ¬ Covered pool.shared.file.table := by
  have hreach : Pool.Reaches clockedWorld Caller (.idle ⟨⟨.empty, []⟩, []⟩) claimed :=
    (reaches_leasedByOne 1).starting rfl .pull |>.calls (clocked_step false later) 3
  refine ⟨_, .step hreach (.stop (i := 2)), by simp, fun covered => ?_⟩
  have hdead : (claimed.shared.file.table.get? 0).any (fun row =>
      row.state = .dead ∧ row.topic = "orders") = true := by decide +kernel
  have hnone : claimed.shared.file.table.rows.all (fun e => e.2.topic ≠ "orders.dlq") = true := by
    decide +kernel
  obtain ⟨row, hrow, hstate⟩ := (Option.any_eq_true _ _).mp hdead
  obtain ⟨hstate, htopic⟩ := decide_eq_true_iff.mp hstate
  obtain ⟨q, copy, -, hcopy, hfiled, -⟩ := covered 0 row hrow hstate
  have hother := List.all_eq_true.mp hnone (q, copy) (Table.mem_of_get? hcopy)
  rw [hfiled, htopic] at hother
  exact nomatch hother

end LocalDurableBackend

end System2
