import System2.Common.QueueBackend
import System2.Foundation.RunRecord

/-!
# What a pull claims and what it hands over

A pull claims the rows that it selected one by one, and decodes the body of a row right behind
its claim. Where a body does not decode the pull raises: that row and the rows claimed before
it are in flight, and no message of theirs is returned.
-/

namespace System2
open Foundation

/-- The row that a call moved to in-flight, and the id under which it did. -/
def claim? : Event QueueI Exc → Option (ℕ × String)
  | ⟨.lease seq ackId _ _, .ok true⟩ => some (seq, ackId)
  | _ => none

/-- The rows that a `SELECT` of ready rows gave. -/
def selected? : Event QueueI Exc → Option (List Picked)
  | ⟨.selectAvailable _ _ _, .ok rows⟩ => some rows
  | _ => none

/-- The file between two calls of a pull: other processes may do to it what `others` allows. -/
def contestedWorld (others : QueueFile → QueueFile → Prop) : World QueueI Exc QueueFile :=
  fun f op r f' => ∃ f₁, queueWorld f op r f₁ ∧ others f₁ f'

/-- Every row that a pull moved to in-flight is among the messages that it returns. -/
def HandsOver (r : Except Exc (List ReceivedMessage)) (log : List (Event QueueI Exc)) : Prop :=
  ∀ e ∈ log, ∀ claim ∈ claim? e, ∃ out, r = .ok out ∧ ∃ msg ∈ out, msg.ackId = claim.2

/-- Behind a claim no call raises, and the body of every row claimed decodes. -/
def ClaimsDecode (log : List (Event QueueI Exc)) : Prop :=
  ∀ before e after, log = before ++ e :: after → ∀ claim ∈ claim? e,
    (∀ e' ∈ after, e'.raised = false) ∧
      ∀ e' ∈ log, ∀ rows ∈ selected? e', ∀ row ∈ rows, row.seq = claim.1 →
        row.body.loads.isOk = true

/-- A `SELECT` names a row once. -/
def NamesOnce : Event QueueI Exc → Prop
  | ⟨.selectAvailable _ _ _, .ok rows⟩ => (rows.map Picked.seq).Nodup
  | _ => True

theorem namesOnce_of_step {others : QueueFile → QueueFile → Prop} {f f' : QueueFile}
    {op : QueueCall} {r : Except Exc op.Ans} (step : contestedWorld others f op r f') :
    NamesOnce ⟨op, r⟩ := by
  obtain ⟨f₁, ⟨dbNow, a, rfl, hanswers, -⟩ | ⟨⟨e, rfl⟩, -⟩, -⟩ := step
  · cases op with
    | selectAvailable subscription now limit =>
        obtain rfl := hanswers
        show List.Nodup _
        rw [List.map_map]
        have hkeys : (f.table.rows.map Prod.fst).Nodup :=
          (List.pairwise_map.mpr f.table.ascending).imp Nat.ne_of_lt
        exact hkeys.sublist ((limited_sublist _ _).trans List.filter_sublist |>.map _)
    | _ => trivial
  · cases op with
    | _ => trivial

namespace LocalDurableBackend

variable {b : LocalDurableBackend} {subscription : String}

/-- Calls that neither claim a row nor select ready ones. -/
def Aside : QueueCall → Prop
  | .lease _ _ _ _ => False
  | .selectAvailable _ _ _ => False
  | _ => True

theorem reclaim_aside : (b.reclaim subscription).Only Aside := by
  refine only_reclaim.mono fun op hop => ?_
  cases op with
  | lease seq ackId owner leaseSec => exact hop.elim
  | selectAvailable subscription now limit => exact hop.elim
  | _ => exact trivial

/-- How the leasing of some rows ends: it returns a message for every claim, each of a row that
decodes, and no call has raised; or its last call raised, or claimed a row that does not decode. -/
inductive LeaseEnd (rows : List Picked) :
    Except Exc (List ReceivedMessage) → List (Event QueueI Exc) → Prop
  | returned {out log} (smooth : ∀ e ∈ log, e.raised = false)
      (handed : ∀ e ∈ log, ∀ claim ∈ claim? e, (∃ msg ∈ out, msg.ackId = claim.2) ∧
        ∃ row ∈ rows, row.seq = claim.1 ∧ row.body.loads.isOk = true) :
      LeaseEnd rows (.ok out) log
  | raised {e log last} (raised : last.raised = true) : LeaseEnd rows (.error e) (log ++ [last])
  | undecoded {e log last claim row} (claimed : claim? last = some claim) (mem : row ∈ rows)
      (seq : row.seq = claim.1) (undecoded : row.body.loads.isOk = false) :
      LeaseEnd rows (.error e) (log ++ [last])

/-- More rows, and smooth calls without a claim in front. -/
theorem LeaseEnd.cons {rows : List Picked} {r : Except Exc (List ReceivedMessage)}
    {log front : List (Event QueueI Exc)} (h : LeaseEnd rows r log) (row : Picked)
    (hfront : ∀ e ∈ front, e.raised = false ∧ claim? e = none) :
    LeaseEnd (row :: rows) r (front ++ log) := by
  cases h with
  | returned smooth handed =>
      refine .returned ?_ ?_
      · intro e he
        rcases List.mem_append.mp he with hf | hlog
        · exact (hfront e hf).1
        · exact smooth e hlog
      · intro e he claim hclaim
        rcases List.mem_append.mp he with hf | hlog
        · rw [(hfront e hf).2] at hclaim
          cases hclaim
        · obtain ⟨hmsg, row', hrow, hseq, hdecodes⟩ := handed e hlog claim hclaim
          exact ⟨hmsg, row', List.mem_cons_of_mem _ hrow, hseq, hdecodes⟩
  | raised raised =>
      rw [← List.append_assoc]
      exact .raised raised
  | undecoded claimed mem seq undecoded =>
      rw [← List.append_assoc]
      exact .undecoded claimed (List.mem_cons_of_mem _ mem) seq undecoded

/-- A claim of a row that decodes, and its message, in front. -/
theorem LeaseEnd.claimed {rows : List Picked} {r : Except Exc (List ReceivedMessage)}
    {log : List (Event QueueI Exc)} (h : LeaseEnd rows r log) {row : Picked} {msg : ReceivedMessage}
    {draw lease : Event QueueI Exc} (hdraw : draw.raised = false ∧ claim? draw = none)
    (hlease : lease.raised = false) (hclaim : claim? lease = some (row.seq, msg.ackId))
    (hdecodes : row.body.loads.isOk = true) :
    LeaseEnd (row :: rows) (r.map fun out => msg :: out) (draw :: lease :: log) := by
  cases h with
  | @returned out log smooth handed =>
      refine .returned ?_ ?_
      · simpa using ⟨hdraw.1, hlease, smooth⟩
      · intro e he claim hc
        rcases List.mem_cons.mp he with rfl | he'
        · rw [hdraw.2] at hc
          cases hc
        · rcases List.mem_cons.mp he' with rfl | hlog
          · rw [hclaim] at hc
            obtain rfl := Option.some.inj hc
            exact ⟨⟨msg, by simp, rfl⟩, row, by simp, rfl, hdecodes⟩
          · obtain ⟨⟨msg', hmsg, hid⟩, row', hrow, hseq, hok⟩ := handed e hlog claim hc
            exact ⟨⟨msg', List.mem_cons_of_mem _ hmsg, hid⟩, row', List.mem_cons_of_mem _ hrow, hseq,
              hok⟩
  | raised raised =>
      rw [← List.cons_append, ← List.cons_append]
      exact .raised raised
  | undecoded claimed mem seq undecoded =>
      rw [← List.cons_append, ← List.cons_append]
      exact .undecoded claimed (List.mem_cons_of_mem _ mem) seq undecoded

theorem leaseEnd_leaseRows {rows : List Picked} {r : Except Exc (List ReceivedMessage)}
    {log : List (Event QueueI Exc)}
    (exec : Exec (World.free.under NamesOnce) (b.leaseRows subscription rows) [] (some r) log) :
    LeaseEnd rows r log := by
  induction rows generalizing r log with
  | nil =>
      cases exec
      exact .returned (by simp) (by simp)
  | cons row rest ih =>
      unfold leaseRows at exec
      simp only [Proc.bind_eq] at exec
      rcases exec_free_call exec with ⟨ackId, s, rfl, -, hlease⟩ | ⟨e, rfl, rfl⟩
      · rcases exec_free_call hlease with ⟨claimed, s', rfl, -, hrest⟩ | ⟨e, rfl, rfl⟩
        · cases claimed with
          | false =>
              simp only [Bool.false_eq_true, if_false] at hrest
              have hend : LeaseEnd (row :: rest) r ([⟨.uuid4, .ok ackId⟩,
                  ⟨.lease row.seq ackId b.owner b.leaseSec, .ok false⟩] ++ s') := by
                refine (ih hrest).cons row ?_
                intro e he
                rcases List.mem_cons.mp he with rfl | he'
                · exact ⟨rfl, rfl⟩
                · rw [List.mem_singleton.mp he']
                  exact ⟨rfl, rfl⟩
              exact hend
          | true =>
              simp only [if_true] at hrest
              have hclaim : claim? ⟨.lease row.seq ackId b.owner b.leaseSec, .ok true⟩ =
                  some (row.seq, ackId) := rfl
              cases hbody : row.body.loads with
              | error e =>
                  rw [hbody] at hrest
                  cases hrest
                  have hend : LeaseEnd (row :: rest) (.error e) ([⟨.uuid4, .ok ackId⟩] ++
                      [⟨.lease row.seq ackId b.owner b.leaseSec, .ok true⟩]) :=
                    .undecoded hclaim List.mem_cons_self rfl (by rw [hbody]; rfl)
                  exact hend
              | ok body =>
                  rw [hbody] at hrest
                  have hdecodes : row.body.loads.isOk = true := by
                    rw [hbody]
                    rfl
                  -- the message of this claim goes in front of those of the rows behind it
                  let msg : ReceivedMessage := ⟨ackId, subscription, body, row.attempts + 1⟩
                  have hmsg : claim? ⟨.lease row.seq ackId b.owner b.leaseSec, .ok true⟩ =
                      some (row.seq, msg.ackId) := rfl
                  simp only [Proc.ofExcept, Proc.ret_bind] at hrest
                  rcases exec_free_bind hrest with ⟨out, s₁, s₂, rfl, hothers, hret⟩ |
                      ⟨e, rfl, hothers⟩
                  · cases hret
                    rw [List.append_nil]
                    exact (ih hothers).claimed ⟨rfl, rfl⟩ rfl hmsg hdecodes
                  · exact (ih hothers).claimed ⟨rfl, rfl⟩ rfl hmsg hdecodes
        · have hend : LeaseEnd (row :: rest) (.error e) ([⟨.uuid4, .ok ackId⟩] ++
              [⟨.lease row.seq ackId b.owner b.leaseSec, .error e⟩]) := .raised rfl
          exact hend
      · have hend : LeaseEnd (row :: rest) (.error e) ([] ++ [⟨.uuid4, .error e⟩]) := .raised rfl
        exact hend

theorem Aside.event {op : QueueCall} (h : Aside op) (r : Except Exc op.Ans) :
    claim? ⟨op, r⟩ = none ∧ selected? ⟨op, r⟩ = none := by
  cases op with
  | lease seq ackId owner leaseSec => exact h.elim
  | selectAvailable subscription now limit => exact h.elim
  | _ => exact ⟨rfl, rfl⟩

/-- The leasing selects nothing. -/
theorem leaseRows_selects_nothing (rows : List Picked) : (b.leaseRows subscription rows).Only
    fun op => ∀ r, selected? ⟨op, r⟩ = none := by
  induction rows with
  | nil => trivial
  | cons row rest ih =>
      refine (Proc.along_perform fun _ => rfl).bind fun ackId => ?_
      refine (Proc.along_perform fun _ => rfl).bind fun claimed => ?_
      split_ifs
      · exact (Proc.along_ofExcept _).bind fun body => ih.bind fun out => trivial
      · exact ih

/-- How a pull ends: before a row was claimed, or with the leasing of the rows that it selected. -/
theorem leaseEnd_pull {n : ℤ} {r : Except Exc (List ReceivedMessage)}
    {log : List (Event QueueI Exc)}
    (exec : Exec (World.free.under NamesOnce) (b.pull subscription n) [] (some r) log) :
    (∀ e ∈ log, claim? e = none) ∨
      ∃ front now rows s, log = front ++ ⟨.selectAvailable subscription now n, .ok rows⟩ :: s ∧
        (∀ e ∈ front, claim? e = none ∧ selected? e = none) ∧ (rows.map Picked.seq).Nodup ∧
        (∀ e ∈ s, selected? e = none) ∧ LeaseEnd rows r s := by
  have haside : ∀ {out : Option (Except Exc ℕ)} {front : List (Event QueueI Exc)},
      Exec (World.free.under NamesOnce) (b.reclaim subscription) [] out front →
      ∀ e ∈ front, claim? e = none ∧ selected? e = none := fun exec e he =>
    (events_of_only_under reclaim_aside exec e he).1.event e.2
  unfold pull at exec
  rcases exec_free_bind exec with ⟨_, front, s, rfl, hreclaim, hrest⟩ | ⟨e, rfl, hreclaim⟩
  · have hfront := haside hreclaim
    rcases exec_free_call hrest with ⟨now, s', rfl, -, hselect⟩ | ⟨e, rfl, rfl⟩
    · rcases exec_free_call hselect with ⟨rows, s'', rfl, hnodup, hlease⟩ | ⟨e, rfl, rfl⟩
      · refine Or.inr ⟨front ++ [⟨.time, .ok now⟩], now, rows, s'', by simp, ?_, hnodup, ?_,
          leaseEnd_leaseRows hlease⟩
        · intro e he
          rcases List.mem_append.mp he with hmem | htime
          · exact hfront e hmem
          · rw [List.mem_singleton.mp htime]
            exact ⟨rfl, rfl⟩
        · exact fun e he => (events_of_only_under (leaseRows_selects_nothing rows) hlease e he).1 e.2
      · refine Or.inl fun e' he' => ?_
        rcases List.mem_append.mp he' with hmem | hlast
        · exact (hfront e' hmem).1
        · rcases List.mem_cons.mp hlast with rfl | hselect
          · rfl
          · rw [List.mem_singleton.mp hselect]
            rfl
    · refine Or.inl fun e' he' => ?_
      rcases List.mem_append.mp he' with hmem | hlast
      · exact (hfront e' hmem).1
      · rw [List.mem_singleton.mp hlast]
        rfl
  · exact Or.inl fun e he => (haside hreclaim e he).1

/-- A claim did not raise. -/
theorem raised_of_claim {e : Event QueueI Exc} {claim : ℕ × String} (h : claim? e = some claim) :
    e.raised = false := by
  obtain ⟨op, r⟩ := e
  cases r with
  | ok a => rfl
  | error e => cases op <;> cases h

/-- For every table, whatever the bodies hold and whatever other processes do to the file between
the statements: every row that a pull moves to in-flight is among the messages that it returns
exactly when, behind its first claim, no statement raises and the body of every claimed row
decodes. -/
theorem handsOver_iff {others : QueueFile → QueueFile → Prop} {n : ℤ} {f f' : QueueFile}
    {log : List (Event QueueI Exc)} {r : Except Exc (List ReceivedMessage)}
    (exec : Exec (contestedWorld others).traced (b.pull subscription n) (f, []) (some r) (f', log)) :
    HandsOver r log ↔ ClaimsDecode log := by
  rcases leaseEnd_pull (exec_free_of_traced (fun _ _ _ _ => namesOnce_of_step) exec) with
    hnone | ⟨front, now, rows, s, rfl, hfront, hnodup, hs, hend⟩
  · refine iff_of_true ?_ ?_
    · intro e he claim hclaim
      rw [hnone e he] at hclaim
      cases hclaim
    · rintro before e after rfl claim hclaim
      rw [hnone e (by simp)] at hclaim
      cases hclaim
  · have hclaimed : ∀ {e claim}, e ∈ front ++ ⟨.selectAvailable subscription now n, .ok rows⟩ :: s →
        claim? e = some claim → e ∈ s := by
      intro e claim he hclaim
      rcases List.mem_append.mp he with hmem | hrest
      · rw [(hfront e hmem).1] at hclaim
        cases hclaim
      · rcases List.mem_cons.mp hrest with rfl | hmem
        · cases hclaim
        · exact hmem
    constructor
    · intro hhands before e after hsplit claim hclaim
      have he : e ∈ front ++ ⟨.selectAvailable subscription now n, .ok rows⟩ :: s := by
        rw [hsplit]
        simp
      obtain ⟨out, rfl, -⟩ := hhands e he claim hclaim
      cases hend with
      | returned smooth handed =>
          obtain ⟨-, row, hrow, hseq, hok⟩ := handed e (hclaimed he hclaim) claim hclaim
          constructor
          · intro e' he'
            rcases List.append_eq_append_iff.mp hsplit with ⟨x, rfl, hx⟩ | ⟨x, rfl, hx⟩
            · have hmem : e' ∈ (⟨.selectAvailable subscription now n, .ok rows⟩ :: s :
                  List (Event QueueI Exc)) := by
                rw [hx]
                exact List.mem_append_right x (List.mem_cons_of_mem e he')
              rcases List.mem_cons.mp hmem with rfl | hmem
              · rfl
              · exact smooth e' hmem
            · cases x with
              | nil =>
                  obtain ⟨rfl, -⟩ := List.cons.inj hx
                  cases hclaim
              | cons y x =>
                  obtain ⟨rfl, -⟩ := List.cons.inj hx
                  rw [(hfront e (by simp)).1] at hclaim
                  cases hclaim
          · intro e' he' rows' hrows' row' hrow' hseq'
            have hselect : e' = ⟨.selectAvailable subscription now n, .ok rows⟩ := by
              rcases List.mem_append.mp he' with hmem | hrest
              · rw [(hfront e' hmem).2] at hrows'
                cases hrows'
              · rcases List.mem_cons.mp hrest with rfl | hmem
                · rfl
                · rw [hs e' hmem] at hrows'
                  cases hrows'
            obtain rfl : rows = rows' := by
              rw [hselect] at hrows'
              exact Option.some.inj hrows'
            have hsame : row' = row :=
              List.inj_on_of_nodup_map hnodup hrow' hrow (hseq'.trans hseq.symm)
            rwa [hsame]
    · intro hdecode e he claim hclaim
      have hes := hclaimed he hclaim
      cases hend with
      | returned smooth handed => exact ⟨_, rfl, (handed e hes claim hclaim).1⟩
      | @raised _ log' last raised =>
          have hne : e ≠ last := by
            rintro rfl
            rw [raised_of_claim hclaim] at raised
            cases raised
          have hmem : e ∈ log' := (List.mem_append.mp hes).resolve_right fun h =>
            hne (List.mem_singleton.mp h)
          obtain ⟨x, y, rfl⟩ := List.append_of_mem hmem
          have hsmooth := (hdecode (front ++ ⟨.selectAvailable subscription now n, .ok rows⟩ :: x) e
            (y ++ [last]) (by simp) claim hclaim).1 last (by simp)
          rw [raised] at hsmooth
          cases hsmooth
      | @undecoded _ log' last claim' row claimed mem seq undecoded =>
          have hok := (hdecode (front ++ ⟨.selectAvailable subscription now n, .ok rows⟩ :: log') last
            [] (by simp) claim' claimed).2 ⟨.selectAvailable subscription now n, .ok rows⟩ (by simp)
            rows rfl row mem seq
          rw [undecoded] at hok
          cases hok

/-- A backend of the executor. -/
def executorBackend : LocalDurableBackend := ⟨5, .ofRat 300, "executor-1"⟩

/-- Rows of one topic with the given bodies, all ready. -/
def readyFile (bodies : List RowBody) : QueueFile where
  table := bodies.foldl (fun t body => t.insert (.inserted "orders" body)) Table.empty
  drawn := []

/-- A pull of these rows by the only process, on a file that stands still. -/
def pulledFrom (bodies : List RowBody) :
    Except Exc (List ReceivedMessage) × (QueueFile × List (Event QueueI Exc)) :=
  (executorBackend.pull "orders" 4).run (World.recording (still .zero)) (readyFile bodies, [])

theorem exec_pulledFrom (bodies : List RowBody) :
    Exec (contestedWorld Eq).traced (executorBackend.pull "orders" 4) (readyFile bodies, [])
      (some (pulledFrom bodies).1) (pulledFrom bodies).2 :=
  exec_run (World.recording_step fun op f => ⟨_, still_step .zero op f, rfl⟩) _ _

/-- Two orders. -/
theorem handsOver_iff_decoded :
    ((pulledFrom [.json (.int 1), .json (.int 2)]).2.2.filterMap claim?).length = 2 ∧
      (HandsOver (pulledFrom [.json (.int 1), .json (.int 2)]).1
          (pulledFrom [.json (.int 1), .json (.int 2)]).2.2 ↔
        ClaimsDecode (pulledFrom [.json (.int 1), .json (.int 2)]).2.2) :=
  ⟨by decide +kernel, handsOver_iff (exec_pulledFrom _)⟩

/-- An order in front of a row that does not decode: both are in flight, and none is returned. -/
theorem claimed_not_handed_over :
    ¬ ∀ (b : LocalDurableBackend) (subscription : String) (n : ℤ) (f f' : QueueFile)
      (log : List (Event QueueI Exc)) (r : Except Exc (List ReceivedMessage)),
      Exec (contestedWorld Eq).traced (b.pull subscription n) (f, []) (some r) (f', log) →
        HandsOver r log := by
  intro h
  have hhands := h _ _ _ _ _ _ _ (exec_pulledFrom [.json (.int 1), .text "not json"])
  have hclaims : ((pulledFrom [.json (.int 1), .text "not json"]).2.2.filterMap claim?).length = 2 := by
    decide +kernel
  have hraised : (pulledFrom [.json (.int 1), .text "not json"]).1.isOk = false := by decide +kernel
  obtain ⟨claim, hclaim⟩ := List.exists_mem_of_length_pos (hclaims ▸ Nat.two_pos)
  obtain ⟨e, he, hclaim⟩ := List.mem_filterMap.mp hclaim
  obtain ⟨out, hout, -⟩ := hhands e he claim hclaim
  rw [hout] at hraised
  cases hraised

end LocalDurableBackend

end System2
