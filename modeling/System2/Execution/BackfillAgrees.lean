import System2.Execution.BackfillCloses

/-!
# The backfill tool and the sweeper

Both resolve a trade that the broker no longer lists, from the same answers of the broker. They
are compared by the events that they write to the outbox.

## Implementation notes

The comparison is per trade, with its pair of answers: the tool on the trade's envelope and the
sweep of the trade alone. On a longer outbox another trade may end the tool's run before this
one is reached, when its details raise where the tool reads them; the sweeper logs such a trade
and goes on.
-/

namespace System2
open Foundation

/-- A call that writes no event. -/
def CloseCall.Silent : CloseCall → Prop
  | .publisher (.outboxPublish _ _) => False
  | _ => True

theorem CloseCall.Aside.silent {op : CloseCall} (h : op.Aside) : op.Silent := by
  cases op with
  | publisher call =>
      cases call with
      | outboxPublish topic body => exact h.elim
      | _ => exact trivial
  | _ => exact trivial

/-- The event that a call writes to the outbox of an emitter. -/
def CloseEmitter.written (em : CloseEmitter) : Event CloseI Exc → Option PyVal
  | ⟨.publisher (.outboxPublish topic body), .ok _⟩ =>
      if topic = em.outboxTopic then some body else none
  | _ => none

/-- The events that a procedure writes, when every call has one answer. -/
def CloseEmitter.events {α : Type} (em : CloseEmitter)
    (answer : (op : CloseCall) → Except Exc op.Ans) (p : Proc CloseI Exc α) : List PyVal :=
  (p.trail answer).filterMap em.written

namespace CloseEmitter

open CloseTracker

variable {em : CloseEmitter} {answer : (op : CloseCall) → Except Exc op.Ans} {α β : Type}
  {p : Proc CloseI Exc α} {f : α → Proc CloseI Exc β}

theorem written_of_silent {e : Event CloseI Exc} (h : e.1.Silent) : em.written e = none := by
  obtain ⟨op, r⟩ := e
  cases op with
  | publisher call =>
      cases call with
      | outboxPublish topic body => exact h.elim
      | _ => rfl
  | _ => rfl

theorem events_of_silent (hp : p.Only CloseCall.Silent) : em.events answer p = [] :=
  List.filterMap_eq_nil_iff.mpr fun e he => written_of_silent (hp.trail e he)

/-- Behind a part that writes nothing. -/
theorem events_bind (hp : p.Only CloseCall.Silent) :
    em.events answer (p.bind f) =
      match p.outcome answer with
      | .ok a => em.events answer (f a)
      | .error _ => [] := by
  have hnone : (p.trail answer).filterMap em.written = [] := events_of_silent hp
  cases hout : p.outcome answer with
  | ok a => rw [events, Proc.trail_bind_ok f hout, List.filterMap_append, hnone]; rfl
  | error e => rw [events, Proc.trail_bind_error f hout, hnone]

theorem events_call (op : CloseCall) {f : op.Ans → Proc CloseI Exc β} (hop : op.Silent) :
    em.events answer ((perform op).bind f) =
      match answer op with
      | .ok a => em.events answer (f a)
      | .error _ => [] := by
  rw [events_bind (Proc.along_perform hop), Proc.outcome_perform]
  cases answer op with
  | ok a => rfl
  | error e => rfl

theorem events_convert (r : Except PyErr α) :
    em.events answer ((convert r).bind f) =
      match r with
      | .ok a => em.events answer (f a)
      | .error _ => [] := by
  rw [events_bind (along_convert r), convert, Proc.outcome_ofExcept]
  cases r with
  | ok a => rfl
  | error e => rfl

/-- In front of a part that writes nothing. -/
theorem events_bind_silent (hf : ∀ a, (f a).Only CloseCall.Silent) :
    em.events answer (p.bind f) = em.events answer p := by
  cases hout : p.outcome answer with
  | ok a =>
      have hnone : ((f a).trail answer).filterMap em.written = [] := events_of_silent (hf a)
      rw [events, Proc.trail_bind_ok f hout, List.filterMap_append, hnone, List.append_nil]
      rfl
  | error e => rw [events, Proc.trail_bind_error f hout]; rfl

theorem events_attempt : em.events answer p.attempt = em.events answer p := by
  rw [events, Proc.trail_attempt]; rfl

/-- The event under which a close can be recorded: the ledger does not have the trade, the event
can be built, and the outbox takes it. -/
def Records (em : CloseEmitter) (answer : (op : CloseCall) → Except Exc op.Ans) (t : ManagedTrade)
    (facts : CloseFacts) (exitReason : String) (event : PyVal) : Prop :=
  answer (.ledgerSeen t.brokerTradeId) = .ok false ∧
    ∃ eventTime, answer (.publisher .utcNowIso) = .ok eventTime ∧
      buildCloseEvent t facts exitReason eventTime = .ok event ∧
      answer (.publisher (.outboxPublish em.outboxTopic event)) = .ok ()

variable {t : ManagedTrade} {facts : CloseFacts} {exitReason : String} {event : PyVal}

theorem mark_silent (t : ManagedTrade) :
    (do let _ ← perform (.ledgerMark t.brokerTradeId)
        return true : Proc CloseI Exc Bool).Only CloseCall.Silent :=
  Proc.Along.bind (Proc.along_perform trivial) fun _ => trivial

theorem events_emit :
    em.events answer (em.emit t facts exitReason) =
      em.events answer (em.record t facts exitReason) := by
  refine (events_bind_silent fun r => ?_).trans events_attempt
  match r with
  | .error e => exact trivial
  | .ok false => exact trivial
  | .ok true => exact (em.flush_delivers.mono fun _ h => h.aside.silent).bind fun _ => trivial

/-- An emission writes the event of a close that can be recorded. -/
theorem events_emit_of_records (h : em.Records answer t facts exitReason event) :
    em.events answer (em.emit t facts exitReason) = [event] := by
  obtain ⟨hseen, eventTime, htime, hbuild, hpublish⟩ := h
  have hwritten : em.written ⟨.publisher (.outboxPublish em.outboxTopic event), .ok ()⟩ =
      some event := if_pos rfl
  have hlast : em.events answer (perform (.publisher (.outboxPublish em.outboxTopic event))) =
      [event] := by
    rw [events, Proc.trail_perform, hpublish, List.filterMap_cons, hwritten]
    rfl
  rw [events_emit, record, Proc.bind_eq, events_call (.ledgerSeen t.brokerTradeId) trivial, hseen]
  dsimp only
  rw [if_neg Bool.false_ne_true, Proc.bind_eq, events_call (.publisher .utcNowIso) trivial, htime]
  dsimp only
  rw [Proc.bind_eq, events_convert, hbuild]
  dsimp only
  rw [Proc.bind_eq, events_bind_silent fun _ => mark_silent t, hlast]

/-- Where a close cannot be recorded, nothing is written. -/
theorem events_emit_of_not (h : ∀ event, ¬em.Records answer t facts exitReason event) :
    em.events answer (em.emit t facts exitReason) = [] := by
  have hnone (event : PyVal) (e : Exc)
      (hpublish : answer (.publisher (.outboxPublish em.outboxTopic event)) = .error e) :
      em.events answer (perform (.publisher (.outboxPublish em.outboxTopic event))) = [] := by
    rw [events, Proc.trail_perform, hpublish]
    rfl
  rw [events_emit, record, Proc.bind_eq, events_call (.ledgerSeen t.brokerTradeId) trivial]
  cases hseen : answer (.ledgerSeen t.brokerTradeId) with
  | error e => rfl
  | ok seen =>
      cases seen with
      | true => rfl
      | false =>
          dsimp only
          rw [if_neg Bool.false_ne_true, Proc.bind_eq,
            events_call (.publisher .utcNowIso) trivial]
          cases htime : answer (.publisher .utcNowIso) with
          | error e => rfl
          | ok eventTime =>
              dsimp only
              rw [Proc.bind_eq, events_convert]
              cases hbuild : buildCloseEvent t facts exitReason eventTime with
              | error e => rfl
              | ok event =>
                  dsimp only
                  rw [Proc.bind_eq, events_bind_silent fun _ => mark_silent t]
                  cases hpublish : answer (.publisher (.outboxPublish em.outboxTopic event)) with
                  | error e => exact hnone event e hpublish
                  | ok u => exact absurd ⟨hseen, eventTime, htime, hbuild, hpublish⟩ (h event)

end CloseEmitter

/-! ### What the broker tells -/

open CloseTracker

attribute [local irreducible] resolveCloseFromTransactions

/-- The details of a trade: `None` where the request fails. -/
def detailsOf (answer : (op : CloseCall) → Except Exc op.Ans) (t : ManagedTrade) : PyVal :=
  (answer (.getTrade t.brokerTradeId)).toOption.getD .null

/-- The close that the broker's answers tell of: that of the details, or else that of the
transaction stream. -/
def toldClose (answer : (op : CloseCall) → Except Exc op.Ans) (t : ManagedTrade) :
    Except Exc (Option (CloseFacts × String)) :=
  match CloseSweeper.readDetails (detailsOf answer t) with
  | .error e => .error (.ofErr e)
  | .ok .stillOpen => .ok none
  | .ok .unusable => (resolveCloseFromTransactions t.brokerTradeId t.instrument).outcome answer
  | .ok (.resolved facts exitReason) => .ok (some (facts, exitReason))

/-- Details that say CLOSED and list no closing transactions. -/
def ClosedWithoutIds (details : PyVal) : Prop :=
  (details.entries.get "state").isStr "CLOSED" = true ∧
    (details.entries.get "closingTransactionIDs").truthy = false

/-- The close is dated, and not before a date. -/
def NotOlder (since : DateTime) (facts : CloseFacts) : Prop :=
  ∃ dt, fromisoformat (replaceZulu facts.closeTime.toStr) = some dt ∧
    dt.isBefore since = .ok false

/-- The sweeper's mark allows a look at the stream, and can be set. -/
def FallbackDue (s : CloseSweeper) (now : Moment) (answer : (op : CloseCall) → Except Exc op.Ans)
    (t : ManagedTrade) : Prop :=
  (∃ last, answer (.getFallbackAt t.brokerTradeId) = .ok last ∧
    CloseSweeper.within now s.txnFallbackIntervalSec last = false) ∧
  answer (.putFallbackAt t.brokerTradeId now) = .ok ()

variable {answer : (op : CloseCall) → Except Exc op.Ans} {em : CloseEmitter} {s : CloseSweeper}
  {t : ManagedTrade} {now : Moment} {details : PyVal} {facts : CloseFacts} {exitReason : String}
  {since : DateTime} {openIds : List String}

theorem not_closedWithoutIds (h : details.truthy = false) : ¬ClosedWithoutIds details := by
  rw [ClosedWithoutIds, PyVal.entries_of_not_truthy h]
  exact fun hclosed => nomatch hclosed.1

/-- Both read details that are there the same way. -/
theorem readDetails_eq (h : details.truthy = true) :
    CloseSweeper.readDetails details = BackfillTool.readDetails details := by
  unfold CloseSweeper.readDetails BackfillTool.readDetails
  rw [h]
  cases details.getAttrGet "state" with
  | error e => rfl
  | ok state =>
      simp only [bind, Except.bind, Bool.not_true, Bool.false_eq_true, if_false]
      cases state.isStr "CLOSED" with
      | false => rfl
      | true => rfl

/-- Details without closing transactions, and no others, have no facts of a close. -/
theorem factsFromTradeDetails_eq_none (d : Dict) :
    factsFromTradeDetails d = .ok none ↔
      (Dict.get d "closingTransactionIDs").truthy = false := by
  unfold factsFromTradeDetails
  cases (Dict.get d "closingTransactionIDs").truthy with
  | false => exact iff_of_true rfl rfl
  | true =>
      refine iff_of_false (fun h => ?_) fun h => nomatch h
      rw [Bool.not_true, if_neg Bool.false_ne_true] at h
      simp only [bind, Except.bind] at h
      repeat' split at h
      all_goals exact nomatch h

/-- Details are unusable when they say CLOSED and list no closing transactions. -/
theorem readDetails_unusable_iff :
    BackfillTool.readDetails details = .ok .unusable ↔ ClosedWithoutIds details := by
  unfold BackfillTool.readDetails ClosedWithoutIds
  cases details with
  | dict d =>
      rw [PyVal.entries_dict, ← factsFromTradeDetails_eq_none]
      simp only [PyVal.getAttrGet, bind, Except.bind]
      cases (Dict.get d "state").isStr "CLOSED" with
      | false => exact iff_of_false (fun h => by cases h) fun h => by cases h.1
      | true =>
          rw [if_pos rfl]
          cases hfacts : factsFromTradeDetails d with
          | error e => exact iff_of_false (fun h => by cases h) fun h => by cases h.2
          | ok facts =>
              cases facts with
              | none => exact iff_of_true rfl ⟨rfl, rfl⟩
              | some facts =>
                  refine iff_of_false (fun h => ?_) fun h => by cases h.2
                  cases hreason : exitReasonFromTradeDetails d with
                  | error e => rw [hreason] at h; cases h
                  | ok exitReason => rw [hreason] at h; cases h
  | _ => exact iff_of_false (fun h => by cases h) fun h => by cases h.1

theorem resolve_silent (tradeId instrument : String) :
    (resolveCloseFromTransactions tradeId instrument).Only CloseCall.Silent := by
  apply Proc.Along.mono (resolveCloseFromTransactions_reads tradeId instrument)
  intro op h
  exact h.aside.silent

/-! ### The sweeper -/

namespace CloseSweeper

theorem outcome_fallbackDue (due : FallbackDue s now answer t) :
    (s.fallbackDue t.brokerTradeId now).outcome answer = .ok true := by
  obtain ⟨⟨last, hlast, hwithin⟩, hput⟩ := due
  unfold fallbackDue
  rw [Proc.bind_eq, Proc.outcome_bind_ok _ ((Proc.outcome_perform _).trans hlast), hwithin,
    if_neg Bool.false_ne_true, Proc.bind_eq,
    Proc.outcome_bind_ok _ ((Proc.outcome_perform _).trans hput)]
  rfl

theorem events_conclude {viaTransactions : Bool} :
    s.emitter.events answer (s.conclude t facts exitReason viaTransactions) =
      s.emitter.events answer (s.emitter.emit t facts exitReason) := by
  refine CloseEmitter.events_bind_silent fun recorded => ?_
  split_ifs
  · exact (Proc.along_perform trivial).bind fun _ => trivial
  · exact trivial

/-- What the stream tells is emitted. -/
theorem events_fallback (due : FallbackDue s now answer t) :
    s.emitter.events answer (s.fallback now t) =
      match (resolveCloseFromTransactions t.brokerTradeId t.instrument).outcome answer with
      | .ok (some (facts, exitReason)) =>
          s.emitter.events answer (s.emitter.emit t facts exitReason)
      | _ => [] := by
  unfold fallback
  rw [Proc.bind_eq, CloseEmitter.events_bind ((s.fallbackDue_paces _ now).mono fun _ h =>
    h.aside.silent), outcome_fallbackDue due]
  dsimp only
  rw [Bool.not_true, if_neg Bool.false_ne_true, Proc.bind_eq,
    CloseEmitter.events_bind (resolve_silent t.brokerTradeId t.instrument)]
  generalize (resolveCloseFromTransactions t.brokerTradeId t.instrument).outcome answer = told
  match told with
  | .error e => rfl
  | .ok none => rfl
  | .ok (some (facts, exitReason)) => exact events_conclude

/-- A sweep writes the event of the close that the broker's answers tell of. -/
theorem events_sweepAll (absent : t.brokerTradeId ∉ openIds) (due : FallbackDue s now answer t) :
    s.emitter.events answer (s.sweepAll now openIds [t]) =
      match toldClose answer t with
      | .ok (some (facts, exitReason)) =>
          s.emitter.events answer (s.emitter.emit t facts exitReason)
      | _ => [] := by
  have hguarded : ((perform (.getTrade t.brokerTradeId)).attempt).Only CloseCall.Silent :=
    (Proc.along_perform trivial).attempt
  have hrest (swept : Swept) : (do
      let others ← s.sweepAll now openIds []
      return swept :: others : Proc CloseI Exc (List Swept)).Only CloseCall.Silent := trivial
  have hvanished : ¬openIds.contains t.brokerTradeId = true := by simpa using absent
  rw [sweepAll, if_neg hvanished, Proc.bind_eq, CloseEmitter.events_bind_silent hrest]
  unfold sweepVanished toldClose
  rw [Proc.bind_eq, CloseEmitter.events_bind hguarded, Proc.outcome_attempt, Proc.outcome_perform]
  dsimp only
  rw [Proc.bind_eq, CloseEmitter.events_convert, ← detailsOf]
  generalize readDetails (detailsOf answer t) = lookup
  match lookup with
  | .error e => rfl
  | .ok .stillOpen => rfl
  | .ok .unusable =>
      dsimp only
      rw [events_fallback due]
  | .ok (.resolved facts exitReason) => exact events_conclude

end CloseSweeper

/-! ### The tool -/

namespace BackfillTool

variable {tool : BackfillTool} {host : LocalZone} {envelope : Dict}

/-- The ledger is asked twice, and answers the same. -/
theorem events_emitOnce :
    em.events answer (emitOnce em t facts exitReason) =
      em.events answer (em.emit t facts exitReason) := by
  unfold emitOnce
  rw [Proc.bind_eq, CloseEmitter.events_call (.ledgerSeen t.brokerTradeId) trivial]
  cases hseen : answer (.ledgerSeen t.brokerTradeId) with
  | error e =>
      refine (CloseEmitter.events_emit_of_not fun event h => ?_).symm
      exact nomatch hseen.symm.trans h.1
  | ok seen =>
      cases seen with
      | true =>
          refine (CloseEmitter.events_emit_of_not fun event h => ?_).symm
          exact nomatch hseen.symm.trans h.1
      | false =>
          refine CloseEmitter.events_bind_silent fun recorded => ?_
          exact trivial

/-- A close that is not too old is emitted. -/
theorem events_replay (notOlder : NotOlder since facts) :
    em.events answer (replay ⟨since, some em⟩ t facts exitReason) =
      em.events answer (em.emit t facts exitReason) := by
  obtain ⟨closedAt, hread, hbefore⟩ := notOlder
  unfold replay
  rw [hread]
  dsimp only
  rw [Proc.bind_eq, CloseEmitter.events_convert, hbefore]
  exact events_emitOnce

/-- The tool goes by the close that the sweeper finds, but for details that say CLOSED without
closing transactions. -/
theorem events_backfillTrade :
    em.events answer (tool.backfillTrade t) = [] ∧ ClosedWithoutIds (detailsOf answer t) ∨
      em.events answer (tool.backfillTrade t) =
          (match toldClose answer t with
          | .ok (some (facts, exitReason)) => em.events answer (tool.replay t facts exitReason)
          | _ => []) ∧
        ¬ClosedWithoutIds (detailsOf answer t) := by
  have hguarded : ((perform (.getTrade t.brokerTradeId)).attempt).Only CloseCall.Silent :=
    (Proc.along_perform trivial).attempt
  unfold backfillTrade toldClose
  rw [Proc.bind_eq, CloseEmitter.events_bind hguarded, Proc.outcome_attempt, Proc.outcome_perform]
  dsimp only
  rw [Proc.bind_eq, CloseEmitter.events_bind ((lookUp_reads t _).mono fun _ h => h.aside.silent),
    ← detailsOf]
  generalize detailsOf answer t = details
  unfold lookUp
  cases htruthy : details.truthy with
  | true =>
      rw [if_pos rfl, readDetails_eq htruthy, convert, Proc.outcome_ofExcept]
      cases hread : readDetails details with
      | error e =>
          refine Or.inr ⟨rfl, fun hclosed => ?_⟩
          cases hread.symm.trans (readDetails_unusable_iff.mpr hclosed)
      | ok lookup =>
          cases lookup with
          | unusable => exact Or.inl ⟨rfl, readDetails_unusable_iff.mp hread⟩
          | stillOpen =>
              refine Or.inr ⟨rfl, fun hclosed => ?_⟩
              cases hread.symm.trans (readDetails_unusable_iff.mpr hclosed)
          | resolved facts exitReason =>
              refine Or.inr ⟨rfl, fun hclosed => ?_⟩
              cases hread.symm.trans (readDetails_unusable_iff.mpr hclosed)
  | false =>
      refine Or.inr ⟨?_, not_closedWithoutIds htruthy⟩
      rw [if_neg Bool.false_ne_true, CloseSweeper.readDetails, htruthy, Bool.not_false, if_pos rfl,
        Proc.bind_eq, Proc.outcome_bind]
      generalize (resolveCloseFromTransactions t.brokerTradeId t.instrument).outcome answer = told
      cases told with
      | error e => rfl
      | ok close =>
          cases close with
          | none => rfl
          | some close => rfl

theorem events_backfillTrade_of_told (em : CloseEmitter)
    (htold : toldClose answer t = .ok (some (facts, exitReason)))
    (notOlder : NotOlder since facts) :
    em.events answer (backfillTrade ⟨since, some em⟩ t) = [] ∧
        ClosedWithoutIds (detailsOf answer t) ∨
      em.events answer (backfillTrade ⟨since, some em⟩ t) =
          em.events answer (em.emit t facts exitReason) ∧
        ¬ClosedWithoutIds (detailsOf answer t) := by
  rcases events_backfillTrade with ⟨htool, hclosed⟩ | ⟨htool, hclosed⟩
  · exact Or.inl ⟨htool, hclosed⟩
  · rw [htold] at htool
    exact Or.inr ⟨htool.trans (events_replay notOlder), hclosed⟩

/-- Without a close nothing is emitted. -/
theorem events_backfillTrade_of_not (htold : ∀ close, toldClose answer t ≠ .ok (some close)) :
    em.events answer (tool.backfillTrade t) = [] := by
  rcases events_backfillTrade with ⟨htool, -⟩ | ⟨htool, -⟩
  · exact htool
  · rw [htool]
    split
    · next facts exitReason heq => exact absurd heq (htold _)
    · rfl

/-- A run of the tool on one envelope looks at its trade. -/
theorem events_main (rebuilt : (tradeFromEnvelope host envelope).outcome answer = .ok (some t)) :
    em.events answer (tool.main host [envelope]) = em.events answer (tool.backfillTrade t) := by
  have hrest (fate : Fate) : (do
      let others ← tool.backfill host [t.brokerTradeId] []
      return fate :: others : Proc CloseI Exc (List Fate)).Only CloseCall.Silent := trivial
  have hreport (fates : List Fate) :
      (pure (fates.length, fates.count .emitted, fates.count .skipped) :
        Proc CloseI Exc (ℕ × ℕ × ℕ)).Only CloseCall.Silent := trivial
  rw [main, Proc.bind_eq, CloseEmitter.events_bind_silent hreport, backfill, Proc.bind_eq,
    CloseEmitter.events_bind (tradeFromEnvelope_clock.mono fun _ h => h ▸ trivial), rebuilt]
  have hfresh : ¬([] : List String).contains t.brokerTradeId = true := Bool.false_ne_true
  dsimp only
  rw [if_neg hfresh, Proc.bind_eq, CloseEmitter.events_bind_silent hrest]

end BackfillTool

/-! ### The comparison -/

/-- What System 3 books of an event of a close. -/
def booked (event : PyVal) : List (Option PyVal) :=
  ["broker_order_id", "realized_pnl", "units", "fill_price", "exit_reason"].map
    (Dict.get? event.entries)

/-- The tool and the sweeper write events of the same closes. -/
def SameCloses (em : CloseEmitter) (answer : (op : CloseCall) → Except Exc op.Ans) {α β : Type}
    (tool : Proc CloseI Exc α) (sweep : Proc CloseI Exc β) : Prop :=
  (em.events answer tool).map booked = (em.events answer sweep).map booked

variable {host : LocalZone} {envelope : Dict}

/-- For a trade that is rebuilt from its envelope, and its pair of answers, the tool does as the
sweeper exactly when the details do not say CLOSED without closing transactions, unless the
stream then tells of no close that can be recorded. -/
theorem sameCloses_iff
    (rebuilt : (BackfillTool.tradeFromEnvelope host envelope).outcome answer = .ok (some t))
    (absent : t.brokerTradeId ∉ openIds) (due : FallbackDue s now answer t)
    (notOlder : ∀ facts exitReason, toldClose answer t = .ok (some (facts, exitReason)) →
      NotOlder since facts) :
    SameCloses s.emitter answer (BackfillTool.main ⟨since, some s.emitter⟩ host [envelope])
        (s.sweepAll now openIds [t]) ↔
      (ClosedWithoutIds (detailsOf answer t) → ∀ facts exitReason event,
        toldClose answer t = .ok (some (facts, exitReason)) →
          ¬s.emitter.Records answer t facts exitReason event) := by
  rw [SameCloses, BackfillTool.events_main rebuilt, CloseSweeper.events_sweepAll absent due]
  by_cases hclose : ∃ close, toldClose answer t = .ok (some close)
  · obtain ⟨⟨facts, exitReason⟩, htold⟩ := hclose
    have htool := BackfillTool.events_backfillTrade_of_told s.emitter htold
      (notOlder facts exitReason htold)
    rw [htold]
    dsimp only
    by_cases hrecords : ∃ event, s.emitter.Records answer t facts exitReason event
    · obtain ⟨event, hevent⟩ := hrecords
      rw [CloseEmitter.events_emit_of_records hevent] at htool ⊢
      rcases htool with ⟨htool, hclosed⟩ | ⟨htool, hclosed⟩
      · refine iff_of_false ?_ fun h => h hclosed facts exitReason event rfl hevent
        rw [htool]
        exact fun h => nomatch h
      · exact iff_of_true (by rw [htool]) fun h => absurd h hclosed
    · -- nothing can be recorded, by either of the two
      have hnone := CloseEmitter.events_emit_of_not fun event h => hrecords ⟨event, h⟩
      rw [hnone] at htool ⊢
      refine iff_of_true ?_ ?_
      · rcases htool with ⟨htool, -⟩ | ⟨htool, -⟩
        · rw [htool]
        · rw [htool]
      · intro _ facts' exitReason' event hsame hevent
        obtain ⟨rfl, rfl⟩ := Prod.mk.inj (Option.some.inj (Except.ok.inj hsame))
        exact hrecords ⟨event, hevent⟩
  · have hnot (close : CloseFacts × String) : toldClose answer t ≠ .ok (some close) :=
      fun h => hclose ⟨close, h⟩
    rw [BackfillTool.events_backfillTrade_of_not hnot]
    refine iff_of_true ?_ fun _ facts exitReason event h => absurd h (hnot _)
    split
    · next facts exitReason heq => exact absurd heq (hnot _)
    · rfl

/-- The confirmation of a fill that opened the trade 10. -/
def openedEnvelope : Dict :=
  [("event_type", .str "fill_confirmation"), ("idempotency_key", .str "k"),
    ("correlation_id", .str "c"), ("payload", .dict [("realized_status", .str "FILLED"),
      ("broker_trade_id", .str "10"), ("instrument", .str "EUR_USD"), ("side", .str "BUY")])]

/-- The trade that is rebuilt from it. -/
def openedTrade : ManagedTrade :=
  buildManagedTrade "10" "EUR_USD" "BUY" .zero none none Moment.first none (some "c") (some "k")

/-- The fill that stopped it out. -/
def stoppedOut : PyVal :=
  .dict [("id", .str "12"), ("type", .str "ORDER_FILL"), ("reason", .str "STOP_LOSS_ORDER"),
    ("time", .str "2026-07-21T10:00:00.000000000Z"),
    ("tradesClosed", .list [.dict [("tradeID", .str "10"), ("realizedPL", .str "-12.5"),
      ("units", .str "-1000"), ("price", .str "1.09")]])]

/-- A broker that gives some details of the trade, and has the close in its transactions. -/
def stoppedBroker (details : PyVal) : (op : CloseCall) → Except Exc op.Ans
  | .clock => .ok Moment.first
  | .getTrade _ => .ok details
  | .getAccountSummary => .ok (.dict [("lastTransactionID", .str "12")])
  | .getTransactionsIdrange _ _ => .ok (.list [stoppedOut])
  | .getFallbackAt _ => .ok none
  | .putFallbackAt _ _ => .ok ()
  | .ledgerSeen _ => .ok false
  | .ledgerMark _ => .ok ()
  | .publisher .utcNowIso => .ok "2026-07-21T11:00:00Z"
  | .publisher (.outboxPublish _ _) => .ok ()
  | .publisher (.outboxPull _ _) => .ok []
  | _ => .error (.ofErr .attributeError)

def wiredSweeper : CloseSweeper :=
  ⟨⟨"ams-inbound.ams", "close_outbox", 3⟩, .ofRat 30, .ofRat 300⟩

def gapBegan : DateTime := (parseSince "2026-07-15T00:00:00Z").get (by decide +kernel)

theorem openedTrade_rebuilt : (BackfillTool.tradeFromEnvelope (fun t => .ok t)
    openedEnvelope).outcome (stoppedBroker details) = .ok (some openedTrade) := rfl

theorem fallbackDue_wired :
    FallbackDue wiredSweeper Moment.first (stoppedBroker details) openedTrade :=
  ⟨⟨none, rfl, rfl⟩, rfl⟩

theorem stoppedOut_notOlder
    (htime : (toldClose (stoppedBroker details) openedTrade).toOption.join.map
      (fun close => close.1.closeTime.toStr) = some "2026-07-21T10:00:00.000000000Z") :
    ∀ facts exitReason, toldClose (stoppedBroker details) openedTrade =
      .ok (some (facts, exitReason)) → NotOlder gapBegan facts := by
  intro facts exitReason htold
  rw [htold] at htime
  have htext : facts.closeTime.toStr = "2026-07-21T10:00:00.000000000Z" := Option.some.inj htime
  have hlater : (fromisoformat (replaceZulu "2026-07-21T10:00:00.000000000Z")).any
      (fun dt => (dt.isBefore gapBegan).toOption == some false) = true := by decide +kernel
  obtain ⟨dt, hread, hbefore⟩ := (Option.any_eq_true _ _).mp hlater
  refine ⟨dt, htext ▸ hread, ?_⟩
  cases h : dt.isBefore gapBegan with
  | error e => rw [h] at hbefore; cases hbefore
  | ok tooOld =>
      rw [h] at hbefore
      exact congrArg Except.ok (Option.some.inj (eq_of_beq hbefore))

theorem sameCloses_iff_missing :
    SameCloses wiredSweeper.emitter (stoppedBroker .null)
        (BackfillTool.main ⟨gapBegan, some wiredSweeper.emitter⟩ (fun t => .ok t) [openedEnvelope])
        (wiredSweeper.sweepAll Moment.first [] [openedTrade]) ↔
      (ClosedWithoutIds (detailsOf (stoppedBroker .null) openedTrade) →
        ∀ facts exitReason event,
          toldClose (stoppedBroker .null) openedTrade = .ok (some (facts, exitReason)) →
            ¬wiredSweeper.emitter.Records (stoppedBroker .null) openedTrade facts exitReason
              event) :=
  sameCloses_iff openedTrade_rebuilt List.not_mem_nil fallbackDue_wired
    (stoppedOut_notOlder (by decide +kernel))

/-- The details say CLOSED and list no closing transactions: the sweeper emits the close of the
stream, and the tool does not look there. -/
theorem closedWithoutIds_skipped : ¬ ∀ (s : CloseSweeper) (host : LocalZone) (envelope : Dict)
    (answer : (op : CloseCall) → Except Exc op.Ans) (t : ManagedTrade) (now : Moment)
    (openIds : List String) (value : String) (since : DateTime), parseSince value = some since →
      (BackfillTool.tradeFromEnvelope host envelope).outcome answer = .ok (some t) →
      t.brokerTradeId ∉ openIds → FallbackDue s now answer t →
      (∀ facts exitReason, toldClose answer t = .ok (some (facts, exitReason)) →
        NotOlder since facts) →
      SameCloses s.emitter answer (BackfillTool.main ⟨since, some s.emitter⟩ host [envelope])
        (s.sweepAll now openIds [t]) := by
  intro h
  have hsame := h wiredSweeper (fun t => .ok t) openedEnvelope
    (stoppedBroker (.dict [("id", .str "10"), ("state", .str "CLOSED")])) openedTrade Moment.first []
    "2026-07-15T00:00:00Z" gapBegan (Option.some_get _).symm openedTrade_rebuilt List.not_mem_nil
    fallbackDue_wired (stoppedOut_notOlder (by decide +kernel))
  have hlengths := congrArg List.length hsame
  rw [List.length_map, List.length_map] at hlengths
  exact absurd hlengths (by decide +kernel)

end System2
