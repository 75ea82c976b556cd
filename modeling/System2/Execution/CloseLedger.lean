import System2.Execution.BackfillAgrees
import System2.Execution.LiveRuntime

/-!
# The close ledger and the close events

An emission writes the event into the outbox and then the trade into the ledger. Every process
may die between the two, and either of the two may raise, with or without its effect.

## Implementation notes

An event does not say which trade it is for. The store files it under the trade that the emission
asked the ledger for, and the events are those ever written: a delivered row stays in the outbox,
marked done.
-/

namespace System2
open Foundation

/-- What outlives a process: the trades in the ledger and the close events of the outbox under
their trades. Beside them, the trade that the ledger was last asked for, an event whose trade is
not marked yet, and the trades whose mark a crash or a failure kept away. -/
structure CloseStore where
  ledger : List String
  events : List (String × PyVal)
  asked : String
  unmarked : Option String
  faults : List String

namespace CloseStore

/-- Nothing was ever closed. -/
def start : CloseStore := ⟨[], [], "", none, []⟩

/-- The ledger is asked for a trade. -/
def ask (s : CloseStore) (key : String) : CloseStore := { s with asked := key }

/-- An event is written. -/
def write (s : CloseStore) (event : PyVal) : CloseStore :=
  { s with events := s.events ++ [(s.asked, event)], unmarked := some s.asked }

/-- A trade is marked. -/
def mark (s : CloseStore) (key : String) : CloseStore :=
  { s with ledger := s.ledger ++ [key], unmarked := s.unmarked.filter (· != key) }

/-- A crash or a failure: an event that is not marked yet stays so. -/
def fault (s : CloseStore) : CloseStore :=
  { s with unmarked := none, faults := s.faults ++ s.unmarked.toList }

/-- The number of close events of a trade. -/
def eventsOf (s : CloseStore) (key : String) : ℕ := s.events.countP fun e => e.1 = key

/-- The number of crashes and failures between an event of a trade and its mark. -/
def faultsOf (s : CloseStore) (key : String) : ℕ := s.faults.count key

end CloseStore

/-- The event is one of a close of the trade. -/
def ClosedBy (key : String) (event : PyVal) : Prop :=
  ∃ t facts exitReason eventTime, t.brokerTradeId = key ∧
    buildCloseEvent t facts exitReason eventTime = .ok event

/-- The tracker's calls on the store. A mark and a write may raise, with or without their effect;
a write to another topic is none of close events. -/
def closeWorld (topic : String) : World CloseI Exc CloseStore := fun s op r s' =>
  match op with
  | .ledgerSeen key => (∀ seen, r = .ok seen → (seen = true ↔ key ∈ s.ledger)) ∧ s' = s.ask key
  | .ledgerMark key => s' = s.mark key ∨ r.isOk = false ∧ s' = s.fault
  | .publisher (.outboxPublish topic' event) =>
      if topic' = topic then
        r.isOk = true ∧ s' = s.write event ∨
          r.isOk = false ∧ (s' = s ∨ s' = (s.write event).fault)
      else s' = s
  | _ => s' = s

namespace CloseStore

/-- The invariant. An event whose trade is not marked counts as a fault beforehand. -/
structure Accounted (s : CloseStore) : Prop where
  persisted : ∀ key ∈ s.ledger, 0 < s.eventsOf key
  counted : ∀ key, s.eventsOf key ≤ s.fault.faultsOf key + if key ∈ s.ledger then 1 else 0
  pending : ∀ key, s.unmarked = some key → key ∉ s.ledger ∧ 0 < s.eventsOf key
  built : ∀ e ∈ s.events, ClosedBy e.1 e.2

/-- Between two emissions there is no event without its mark. -/
def AtRest (s : CloseStore) : Prop := s.Accounted ∧ s.unmarked = none

variable {s : CloseStore} {key : String} {event : PyVal}

theorem AtRest.accounted (h : s.AtRest) : s.Accounted := h.1

theorem fault_eq_self (h : s.unmarked = none) : s.fault = s := by
  obtain ⟨ledger, events, asked, unmarked, faults⟩ := s
  obtain rfl : unmarked = none := h
  exact congrArg (CloseStore.mk ledger events asked none) (List.append_nil faults)

theorem start_atRest : start.AtRest := by
  refine ⟨⟨?_, ?_, ?_, ?_⟩, rfl⟩
  · exact fun key h => absurd h List.not_mem_nil
  · exact fun key => Nat.zero_le _
  · exact fun key h => nomatch h
  · exact fun e h => absurd h List.not_mem_nil

theorem AtRest.ask (h : s.AtRest) (key : String) : (s.ask key).AtRest :=
  ⟨⟨h.1.persisted, h.1.counted, h.1.pending, h.1.built⟩, h.2⟩

theorem eventsOf_write : (s.write event).eventsOf key =
    s.eventsOf key + if s.asked = key then 1 else 0 := by
  simp [eventsOf, write, List.countP_append, List.countP_singleton]

/-- An event of a trade that is not in the ledger is written. -/
theorem AtRest.write (h : s.AtRest) (hnew : s.asked ∉ s.ledger) (hbuilt : ClosedBy s.asked event) :
    (s.write event).Accounted := by
  constructor
  · intro key hkey
    have := h.1.persisted key hkey
    rw [eventsOf_write]
    omega
  · intro key
    have hcounted := h.1.counted key
    have hfaults : (s.write event).fault.faultsOf key =
        s.fault.faultsOf key + if s.asked = key then 1 else 0 := by
      rw [fault_eq_self h.2]
      simp [faultsOf, fault, CloseStore.write, List.count_append, List.count_singleton]
    rw [eventsOf_write, hfaults]
    change _ ≤ _ + if key ∈ s.ledger then 1 else 0
    omega
  · intro key hkey
    obtain rfl : s.asked = key := Option.some.inj hkey
    refine ⟨hnew, ?_⟩
    rw [eventsOf_write, if_pos rfl]
    omega
  · intro e he
    rcases List.mem_append.mp he with he | he
    · exact h.1.built e he
    · rw [List.mem_singleton.mp he]
      exact hbuilt

/-- The number of a trade's faults goes up by its pending event. -/
theorem Accounted.fault (h : s.Accounted) : s.fault.AtRest := by
  refine ⟨⟨h.persisted, ?_, ?_, h.built⟩, rfl⟩
  · rw [fault_eq_self (s := s.fault) rfl]
    exact h.counted
  · exact fun key hkey => nomatch hkey

/-- The trade of the pending event is marked. -/
theorem Accounted.mark (h : s.Accounted) (hkey : s.unmarked = some key) : (s.mark key).AtRest := by
  have hnone : (s.mark key).unmarked = none := by simp [CloseStore.mark, hkey]
  obtain ⟨hnew, hpos⟩ := h.pending key hkey
  refine ⟨⟨?_, ?_, ?_, h.built⟩, hnone⟩
  · intro k hk
    rcases List.mem_append.mp hk with hk | hk
    · exact h.persisted k hk
    · rw [List.mem_singleton.mp hk]
      exact hpos
  · intro k
    have hcounted := h.counted k
    have hfaults : s.fault.faultsOf k = s.faultsOf k + if key = k then 1 else 0 := by
      simp [faultsOf, CloseStore.fault, hkey, List.count_append, List.count_singleton]
    rw [fault_eq_self hnone]
    change s.eventsOf k ≤ s.faultsOf k + if k ∈ s.ledger ++ [key] then 1 else 0
    rw [hfaults] at hcounted
    by_cases hk : key = k
    · subst hk
      rw [if_pos rfl, if_neg hnew] at hcounted
      rw [if_pos (by simp)]
      exact hcounted
    · rw [if_neg hk, Nat.add_zero] at hcounted
      simpa [Ne.symm hk] using hcounted
  · exact fun k hk => nomatch hnone.symm.trans hk

/-- At any time, a trade has at most one event more than faults. -/
theorem Accounted.eventsOf_le (h : s.Accounted) (key : String) :
    s.eventsOf key ≤ 1 + s.faultsOf key := by
  have hcounted := h.counted key
  cases hunmarked : s.unmarked with
  | none =>
      rw [fault_eq_self hunmarked] at hcounted
      split_ifs at hcounted
      · omega
      · omega
  | some k =>
      have hfaults : s.fault.faultsOf key = s.faultsOf key + if k = key then 1 else 0 := by
        simp [faultsOf, CloseStore.fault, hunmarked, List.count_append, List.count_singleton]
      rw [hfaults] at hcounted
      by_cases hk : k = key
      · subst hk
        rw [if_pos rfl, if_neg (h.pending k hunmarked).1] at hcounted
        omega
      · rw [if_neg hk] at hcounted
        split_ifs at hcounted
        · omega
        · omega

theorem Accounted.exists_event (h : s.Accounted) (hkey : key ∈ s.ledger) :
    ∃ event, (key, event) ∈ s.events := by
  obtain ⟨⟨k, event⟩, he, hk⟩ := List.countP_pos_iff.mp (h.persisted key hkey)
  exact ⟨event, of_decide_eq_true hk ▸ he⟩

end CloseStore

/-! ### One emission -/

/-- A call that writes neither to the outbox nor to the ledger. -/
def CloseCall.Quiet : CloseCall → Prop
  | .ledgerMark _ => False
  | .publisher (.outboxPublish _ _) => False
  | _ => True

theorem CloseCall.Aside.quiet {op : CloseCall} (h : op.Aside) : op.Quiet := by
  cases op with
  | ledgerMark key => exact h.elim
  | publisher call =>
      cases call with
      | outboxPublish topic body => exact h.elim
      | _ => exact trivial
  | _ => exact trivial

open CloseStore (Accounted AtRest)

section Emission

open CloseTracker

variable {topic : String} {s s' : CloseStore} {op : CloseCall} {α : Type}

theorem ledger_of_quiet {r : Except Exc op.Ans} (hop : op.Quiet)
    (step : closeWorld topic s op r s') : s' = s ∨ ∃ key, s' = s.ask key := by
  cases op with
  | ledgerSeen key => exact Or.inr ⟨key, step.2⟩
  | ledgerMark key => exact hop.elim
  | publisher call =>
      cases call with
      | outboxPublish topic body => exact hop.elim
      | _ => exact Or.inl step
  | _ => exact Or.inl step

theorem maintains_quiet {p : Proc CloseI Exc α} (hp : p.Only CloseCall.Quiet) :
    Maintains (closeWorld topic) Accounted AtRest p := by
  refine maintains_of_only (fun _ h => h.accounted) ?_ hp
  intro op s r s' hop hs step
  rcases ledger_of_quiet hop step with rfl | ⟨key, rfl⟩
  · exact hs
  · exact hs.ask key

theorem maintains_convert (r : Except PyErr α) :
    Maintains (closeWorld topic) Accounted AtRest (convert r) :=
  maintains_quiet (along_convert r)

end Emission

namespace CloseEmitter

open CloseTracker

variable {em : CloseEmitter} {topic : String} {t : ManagedTrade} {facts : CloseFacts}
  {exitReason : String} {s : CloseStore}

/-- The trade is asked for and not in the ledger. -/
def Asked (t : ManagedTrade) (s : CloseStore) : Prop :=
  s.AtRest ∧ s.asked = t.brokerTradeId ∧ t.brokerTradeId ∉ s.ledger

/-- The write of an event and the mark that follows. -/
theorem wpc_write {event : PyVal} (htopic : em.outboxTopic = topic) (hs : Asked t s)
    (hbuilt : ClosedBy t.brokerTradeId event) :
    wpc (closeWorld topic) Accounted (do
      let _ ← perform (.publisher (.outboxPublish em.outboxTopic event))
      let _ ← perform (.ledgerMark t.brokerTradeId)
      return true) (fun _ s' => s'.AtRest) s := by
  obtain ⟨hrest, hasked, hnew⟩ := hs
  have hwrite : (s.write event).Accounted := hrest.write (hasked ▸ hnew) (hasked ▸ hbuilt)
  refine wpc_seq (R := fun r s' => if r.isOk then s' = s.write event else s'.AtRest)
    (wpc_of_perform hrest.accounted ?_) ?_ ?_
  · intro r s' step
    rw [closeWorld, if_pos htopic] at step
    rcases step with ⟨hok, rfl⟩ | ⟨herr, rfl | rfl⟩
    · exact ⟨hwrite, by rw [if_pos hok]⟩
    · exact ⟨hrest.accounted, by rw [herr]; exact hrest⟩
    · exact ⟨hwrite.fault.accounted, by rw [herr]; exact hwrite.fault⟩
  · rintro _ s' - (rfl : s' = s.write event)
    have hpending : (s.write event).unmarked = some t.brokerTradeId := congrArg some hasked
    refine wpc_seq (R := fun _ s' => s'.AtRest) (wpc_of_perform hwrite ?_)
      (fun _ _ hc hr => ⟨hc, hr⟩) fun _ _ _ hr => hr
    rintro r s' (rfl | ⟨-, rfl⟩)
    · exact ⟨(hwrite.mark hpending).accounted, hwrite.mark hpending⟩
    · exact ⟨hwrite.fault.accounted, hwrite.fault⟩
  · exact fun e s' _ hr => hr

/-- The `try` block of an emission. -/
theorem record_maintains (htopic : em.outboxTopic = topic) :
    Maintains (closeWorld topic) Accounted AtRest (em.record t facts exitReason) := by
  intro s hs
  refine wpc_seq (R := fun r s' => s'.AtRest ∧ (r = .ok false → Asked t s'))
    (wpc_of_perform hs.accounted ?_) ?_ fun _ _ _ h => h.1
  · rintro r s' ⟨hseen, rfl⟩
    refine ⟨(hs.ask _).accounted, hs.ask _, fun hr => ⟨hs.ask _, rfl, fun hmem => ?_⟩⟩
    exact absurd ((hseen false hr).mpr hmem) Bool.false_ne_true
  · intro seen s' _ h
    cases seen with
    | true => exact ⟨h.1.accounted, h.1⟩
    | false =>
        have hasked := h.2 rfl
        rw [if_neg Bool.false_ne_true, Proc.bind_eq]
        refine wpc_seq (R := fun _ s' => Asked t s') (wpc_of_perform h.1.accounted ?_) ?_
          fun _ _ _ hr => hr.1
        · rintro r s' rfl
          exact ⟨hasked.1.accounted, hasked⟩
        · intro eventTime s' _ hs'
          cases hbuild : buildCloseEvent t facts exitReason eventTime with
          | error e => exact ⟨hs'.1.accounted, hs'.1⟩
          | ok event => exact wpc_write htopic hs' ⟨t, facts, exitReason, eventTime, rfl, hbuild⟩

theorem emit_maintains (htopic : em.outboxTopic = topic) :
    Maintains (closeWorld topic) Accounted AtRest (em.emit t facts exitReason) := by
  refine (record_maintains htopic).attempt.bind fun r => ?_
  match r with
  | .error e => exact maintains_ret (fun _ h => h.accounted) false
  | .ok false => exact maintains_ret (fun _ h => h.accounted) true
  | .ok true =>
      exact (maintains_quiet (em.flush_delivers.mono fun _ h => h.aside.quiet)).bind fun _ =>
        maintains_ret (fun _ h => h.accounted) true

theorem emitBrokerClose_maintains (htopic : em.outboxTopic = topic) {resp : PyVal} :
    Maintains (closeWorld topic) Accounted AtRest (em.emitBrokerClose t resp exitReason) := by
  unfold emitBrokerClose
  split
  · exact maintains_ret (fun _ h => h.accounted) false
  · exact maintains_ret (fun _ h => h.accounted) false
  · exact emit_maintains htopic

/-- The `try` block ends without an exception only if the trade is in the ledger. -/
theorem wp_record : wp (closeWorld topic) (em.record t facts exitReason)
    (fun r s' => r.isOk = true → t.brokerTradeId ∈ s'.ledger) s := by
  refine wpc_seq (R := fun r s' => r = .ok true → t.brokerTradeId ∈ s'.ledger)
    (wpc_of_perform trivial ?_) ?_ fun _ _ _ _ hok => nomatch hok
  · rintro r s' ⟨hseen, rfl⟩
    exact ⟨trivial, fun hr => (hseen true hr).mp rfl⟩
  · intro seen s' _ h
    cases seen with
    | true => exact ⟨trivial, fun _ => h rfl⟩
    | false =>
        rw [if_neg Bool.false_ne_true, Proc.bind_eq]
        refine wpc_seq (wp_true _ _) (fun eventTime s₁ _ _ => ?_) fun _ _ _ _ hok => nomatch hok
        refine wpc_seq (wp_true _ _) (fun event s₂ _ _ => ?_) fun _ _ _ _ hok => nomatch hok
        refine wpc_seq (wp_true _ _) (fun _ s₃ _ _ => ?_) fun _ _ _ _ hok => nomatch hok
        refine wpc_seq (R := fun r s' => r.isOk = true → t.brokerTradeId ∈ s'.ledger)
          (wpc_of_perform trivial ?_) (fun _ _ _ hr => ⟨trivial, fun _ => hr rfl⟩)
          fun _ _ _ _ hok => nomatch hok
        rintro r s' (rfl | ⟨herr, rfl⟩)
        · exact ⟨trivial, fun _ => List.mem_append_right _ (List.mem_singleton_self _)⟩
        · exact ⟨trivial, fun hok => nomatch herr.symm.trans hok⟩

/-- An emission says that the close is recorded only if the trade is in the ledger. -/
theorem wp_emit : wp (closeWorld topic) (em.emit t facts exitReason)
    (fun r s' => r = .ok true → t.brokerTradeId ∈ s'.ledger) s := by
  refine wpc_seq_attempt wp_record fun r s' _ h => ?_
  match r with
  | .error e => exact ⟨trivial, fun hr => nomatch hr⟩
  | .ok false => exact ⟨trivial, fun _ => h rfl⟩
  | .ok true =>
      have hmem : t.brokerTradeId ∈ s'.ledger := h rfl
      have hflush : wp (closeWorld topic) em.flush
          (fun _ s' => t.brokerTradeId ∈ s'.ledger) s' := by
        refine wpc_mono (wpc_of_only (J := fun s' => t.brokerTradeId ∈ s'.ledger) ?_
          (em.flush_delivers.mono fun _ h => h.aside.quiet) hmem) (fun _ _ => trivial) fun _ _ _ h => h
        intro op s r s' hop hs step
        rcases ledger_of_quiet hop step with rfl | ⟨key, rfl⟩
        · exact hs
        · exact hs
      exact wpc_seq hflush (fun _ _ _ h => ⟨trivial, fun _ => h⟩) fun _ _ _ h _ => h

end CloseEmitter

/-! ### The callers -/

section Callers

open CloseTracker

attribute [local irreducible] resolveCloseFromTransactions fromisoformat

variable {topic : String} {t : ManagedTrade}

namespace CloseSweeper

variable {s : CloseSweeper} {now : Moment}

theorem conclude_maintains (htopic : s.emitter.outboxTopic = topic) {facts : CloseFacts}
    {exitReason : String} {viaTransactions : Bool} :
    Maintains (closeWorld topic) Accounted AtRest
      (s.conclude t facts exitReason viaTransactions) := by
  refine (CloseEmitter.emit_maintains htopic).bind fun recorded => maintains_quiet ?_
  split_ifs
  · exact (Proc.along_perform trivial).bind fun _ => trivial
  · exact trivial

theorem fallback_maintains (htopic : s.emitter.outboxTopic = topic) :
    Maintains (closeWorld topic) Accounted AtRest (s.fallback now t) := by
  unfold fallback
  rw [Proc.bind_eq]
  refine (maintains_quiet ((s.fallbackDue_paces _ now).mono fun _ h => h.aside.quiet)).bind fun due => ?_
  split_ifs
  · exact maintains_quiet trivial
  · rw [Proc.bind_eq]
    refine (maintains_quiet ((resolveCloseFromTransactions_reads _ _).mono
      fun _ h => h.aside.quiet)).bind fun found => ?_
    match found with
    | none => exact maintains_quiet trivial
    | some (facts, exitReason) => exact conclude_maintains htopic

theorem sweepVanished_maintains (htopic : s.emitter.outboxTopic = topic) :
    Maintains (closeWorld topic) Accounted AtRest (s.sweepVanished now t) := by
  unfold sweepVanished
  rw [Proc.bind_eq]
  refine (maintains_quiet (Proc.along_perform trivial).attempt).bind fun details => ?_
  refine (maintains_convert _).bind fun lookup => ?_
  match lookup with
  | .stillOpen => exact maintains_quiet trivial
  | .unusable => exact fallback_maintains htopic
  | .resolved facts exitReason => exact conclude_maintains htopic

theorem sweepAll_maintains (htopic : s.emitter.outboxTopic = topic) (openIds : List String)
    (candidates : List ManagedTrade) :
    Maintains (closeWorld topic) Accounted AtRest (s.sweepAll now openIds candidates) := by
  induction candidates with
  | nil => exact maintains_quiet trivial
  | cons t rest ih =>
      unfold sweepAll
      split_ifs
      · exact ih
      · exact (sweepVanished_maintains htopic).bind fun swept =>
          ih.bind fun others => maintains_quiet trivial

theorem sweep_maintains (htopic : s.emitter.outboxTopic = topic) :
    Maintains (closeWorld topic) Accounted AtRest s.sweep := by
  refine Maintains.bind (maintains_quiet (Proc.along_perform trivial)) fun now =>
    Maintains.bind (maintains_quiet (Proc.along_perform trivial)) fun last => ?_
  split_ifs
  · exact maintains_quiet trivial
  refine Maintains.bind (maintains_quiet (Proc.along_perform trivial)) fun _ =>
    (maintains_quiet (s.emitter.flush_delivers.mono fun _ h => h.aside.quiet)).bind fun _ =>
      Maintains.bind (maintains_quiet (Proc.along_perform trivial)) fun book => ?_
  dsimp only
  split_ifs
  · exact maintains_quiet trivial
  refine Maintains.bind (maintains_quiet ((Proc.along_perform trivial).bind fun _ =>
    along_convert _)).attempt fun r => ?_
  cases r with
  | error e => exact maintains_quiet trivial
  | ok ids => exact (sweepAll_maintains htopic ids _).bind fun _ => maintains_quiet trivial

end CloseSweeper

namespace BackfillTool

variable {tool : BackfillTool} {host : LocalZone}

theorem replay_maintains (htopic : ∀ em, tool.emitter = some em → em.outboxTopic = topic)
    {facts : CloseFacts} {exitReason : String} :
    Maintains (closeWorld topic) Accounted AtRest (tool.replay t facts exitReason) := by
  unfold replay
  cases fromisoformat (replaceZulu facts.closeTime.toStr) with
  | none => exact maintains_quiet trivial
  | some closedAt =>
      refine (maintains_convert _).bind fun tooOld => ?_
      split_ifs
      · exact maintains_quiet trivial
      cases hem : tool.emitter with
      | none =>
          exact maintains_quiet ((Proc.along_perform trivial).bind fun _ =>
            (along_convert _).bind fun _ => trivial)
      | some em =>
          refine Maintains.bind (maintains_quiet (Proc.along_perform trivial)) fun seen => ?_
          split_ifs
          · exact maintains_quiet trivial
          · exact (CloseEmitter.emit_maintains (htopic em hem)).bind fun _ =>
              maintains_quiet trivial

theorem backfillTrade_maintains
    (htopic : ∀ em, tool.emitter = some em → em.outboxTopic = topic) :
    Maintains (closeWorld topic) Accounted AtRest (tool.backfillTrade t) := by
  refine (maintains_quiet (Proc.along_perform trivial).attempt).bind fun details =>
    (maintains_quiet ((lookUp_reads t _).mono fun _ h => h.aside.quiet)).bind fun lookup => ?_
  match lookup with
  | .stillOpen => exact maintains_quiet trivial
  | .unusable => exact maintains_quiet trivial
  | .resolved facts exitReason => exact replay_maintains htopic

theorem backfill_maintains (htopic : ∀ em, tool.emitter = some em → em.outboxTopic = topic)
    (seenIds : List String) (envelopes : List Dict) :
    Maintains (closeWorld topic) Accounted AtRest (tool.backfill host seenIds envelopes) := by
  induction envelopes generalizing seenIds with
  | nil => exact maintains_quiet trivial
  | cons envelope rest ih =>
      refine (maintains_quiet (tradeFromEnvelope_clock.mono fun _ h => h ▸ trivial)).bind
        fun rebuilt => ?_
      cases rebuilt with
      | none => exact ih seenIds
      | some t =>
          dsimp only
          split_ifs
          · exact ih seenIds
          · exact (backfillTrade_maintains htopic).bind fun _ =>
              (ih _).bind fun _ => maintains_quiet trivial

theorem main_maintains (htopic : ∀ em, tool.emitter = some em → em.outboxTopic = topic)
    (envelopes : List Dict) :
    Maintains (closeWorld topic) Accounted AtRest (tool.main host envelopes) :=
  (backfill_maintains htopic [] envelopes).bind fun _ => maintains_quiet trivial

end BackfillTool

end Callers

/-! ### The wired runtime -/

/-- The runtime's calls on the store: the tracker's are its only ones. -/
def ledgerWorld (topic : String) : World LiveI Exc CloseStore := fun s op r s' =>
  match op with
  | .sweeper call => closeWorld topic s call r s'
  | _ => s' = s

namespace LiveRuntime

variable {rt : LiveRuntime} {topic : String} {α : Type}

/-- A call of another component than the tracker. -/
def offTracker : LiveCall → Prop
  | .sweeper _ => False
  | _ => True

theorem maintains_off {p : Proc LiveI Exc α} (hp : p.Only offTracker) :
    Maintains (ledgerWorld topic) Accounted AtRest p := by
  refine maintains_of_only (fun _ h => h.accounted) ?_ hp
  intro op s r s' hop hs step
  cases op with
  | sweeper call => exact hop.elim
  | _ => exact step ▸ hs

theorem maintains_onTracker {p : Proc CloseI Exc α}
    (hp : Maintains (closeWorld topic) Accounted AtRest p) :
    Maintains (ledgerWorld topic) Accounted AtRest (onTracker p) := by
  intro s hs
  refine wpc_interp ?_ (hp s hs)
  exact fun op s' Q hc hstep => wpc_of_perform hc hstep

/-- A method of the monitor makes the monitor's calls. -/
theorem askMonitor_off (p : Proc MonitorI Exc α) : (askMonitor p).Only offTracker :=
  Proc.Only.interp p.only_true fun _ _ => Proc.along_perform trivial

theorem registerOnFill_off (order : ApprovedOrder) (c : ConstructedOrder) (fill : FillResult) :
    (rt.registerOnFill order c fill).Only offTracker := by
  unfold registerOnFill
  cases managedTradeId fill with
  | none => exact trivial
  | some id =>
      refine (Proc.along_ofExcept _).bind fun read => ?_
      cases read with
      | none => exact Proc.Along.bind (Proc.along_perform trivial) fun _ => Proc.along_perform trivial
      | some time => exact Proc.along_perform trivial

theorem wire_off (op : ServiceCall) : (rt.wire op).Only offTracker := by
  cases op with
  | consumer call =>
      cases call with
      | submitGateFn => exact Proc.Along.bind (Proc.along_perform trivial) fun _ => trivial
      | heartbeatFn sentAt => exact askMonitor_off _
      | openInstrumentsFn => exact Proc.Along.bind (Proc.along_perform trivial) fun _ => trivial
      | _ => exact Proc.along_perform trivial
  | producer call =>
      cases call with
      | registerTrade order c fill => exact registerOnFill_off order c fill
      | _ => exact Proc.along_perform trivial
  | queue call => exact Proc.along_perform trivial

theorem wireManager_maintains (htopic : rt.sweeper.emitter.outboxTopic = topic) (op : ManagerCall) :
    Maintains (ledgerWorld topic) Accounted AtRest (rt.wireManager op) := by
  cases op with
  | emitCloseFn t resp exitReason =>
      refine (maintains_onTracker (CloseEmitter.emitBrokerClose_maintains htopic)).bind fun _ => ?_
      exact maintains_off trivial
  | _ => exact maintains_off (Proc.along_perform trivial)

theorem flattenTrade_maintains (htopic : rt.sweeper.emitter.outboxTopic = topic)
    (t : ManagedTrade) : Maintains (ledgerWorld topic) Accounted AtRest (rt.flattenTrade t) := by
  refine Maintains.bind (Maintains.attempt (maintains_off ?_)) fun r => ?_
  · exact Proc.Along.bind (Proc.along_perform trivial) fun resp =>
      Proc.Along.bind (Proc.along_perform trivial) fun _ => trivial
  · cases r with
    | error e => exact maintains_off trivial
    | ok resp =>
        exact (maintains_onTracker (CloseEmitter.emitBrokerClose_maintains htopic)).attempt.bind
          fun _ => maintains_off trivial

theorem flattenAll_maintains (htopic : rt.sweeper.emitter.outboxTopic = topic)
    (trades : List ManagedTrade) :
    Maintains (ledgerWorld topic) Accounted AtRest (rt.flattenAll trades) := by
  induction trades with
  | nil => exact maintains_off trivial
  | cons t rest ih =>
      unfold flattenAll
      split_ifs
      · exact ih
      · exact (flattenTrade_maintains htopic t).bind fun _ => ih.bind fun _ => maintains_off trivial

/-- The service's own calls, wired, leave the close ledger alone. -/
theorem maintains_wired (p : Proc ServiceI Exc α) :
    Maintains (ledgerWorld topic) Accounted AtRest (p.interp rt.wire) :=
  maintains_off (Proc.Only.interp p.only_true fun op _ => wire_off op)

theorem shutdown_maintains (htopic : rt.sweeper.emitter.outboxTopic = topic) (reason : String) :
    Maintains (ledgerWorld topic) Accounted AtRest (rt.shutdown reason) := by
  refine (maintains_wired _).attempt.bind fun _ => Maintains.bind ?_ fun flattened =>
    (maintains_wired _).attempt.bind fun _ => maintains_off trivial
  unfold flatten
  split_ifs
  · exact Maintains.bind (maintains_off (Proc.along_perform trivial)) fun book =>
      flattenAll_maintains htopic book.trades
  · exact maintains_off trivial

theorem act_maintains (htopic : rt.sweeper.emitter.outboxTopic = topic) (a : Activity) :
    Maintains (ledgerWorld topic) Accounted AtRest (rt.act a) := by
  have hdone {β : Type} {p : Proc LiveI Exc β}
      (hp : Maintains (ledgerWorld topic) Accounted AtRest p) :
      Maintains (ledgerWorld topic) Accounted AtRest (done p) :=
    hp.bind fun _ => maintains_off trivial
  cases a with
  | handle msg now => exact hdone (maintains_wired _)
  | manage prices =>
      exact hdone (maintains_interp (fun _ h => h.accounted) (wireManager_maintains htopic) _)
  | sweep => exact hdone (maintains_onTracker (CloseSweeper.sweep_maintains htopic))
  | evaluate lastMessageAt clock => exact hdone (maintains_off (askMonitor_off _))
  | requestBypass token operator reason => exact hdone (maintains_off (askMonitor_off _))
  | exitBypass reason => exact maintains_off (askMonitor_off _)
  | shutdown reason => exact hdone (shutdown_maintains htopic reason)

end LiveRuntime

/-! ### One process after the other -/

/-- What a process does: an activity of a runtime, or a run of the backfill tool. -/
inductive Job
  | live (rt : LiveRuntime) (a : LiveRuntime.Activity)
  | backfill (tool : BackfillTool) (host : LocalZone) (envelopes : List Dict)

namespace Job

def run : Job → Proc LiveI Exc Unit
  | live rt a => rt.act a
  | backfill tool host envelopes =>
      LiveRuntime.done (LiveRuntime.onTracker (tool.main host envelopes))

/-- The outbox topic for closes is one and the same in all settings. -/
def EmitsTo (topic : String) : Job → Prop
  | live rt _ => rt.sweeper.emitter.outboxTopic = topic
  | backfill tool _ _ => ∀ em, tool.emitter = some em → em.outboxTopic = topic

theorem run_maintains {topic : String} {job : Job} (hjob : job.EmitsTo topic) :
    Maintains (ledgerWorld topic) Accounted AtRest job.run := by
  cases job with
  | live rt a => exact LiveRuntime.act_maintains hjob a
  | backfill tool host envelopes =>
      exact (LiveRuntime.maintains_onTracker (BackfillTool.main_maintains hjob envelopes)).bind
        fun _ => LiveRuntime.maintains_off trivial

end Job

/-- What a process leaves behind: if it died, a pending event stays without its mark. -/
def CloseStore.left (s : CloseStore) : Option (Except Exc Unit) → CloseStore
  | none => s.fault
  | some _ => s

/-- The stores that processes leave behind, one after the other, each ended or dead. -/
inductive CloseStore.Reached (topic : String) : CloseStore → Prop
  | start : Reached topic .start
  | after {s s' : CloseStore} {job : Job} {out : Option (Except Exc Unit)}
      (before : Reached topic s) (hjob : job.EmitsTo topic)
      (exec : Exec (ledgerWorld topic) job.run s out s') : Reached topic (s'.left out)

theorem CloseStore.Reached.atRest {topic : String} {s : CloseStore} (h : Reached topic s) :
    s.AtRest := by
  induction h with
  | start => exact start_atRest
  | @after s s' job out _ hjob exec ih =>
      obtain ⟨haccounted, hend⟩ := wpc_sound exec (Job.run_maintains hjob s ih)
      cases out with
      | none => exact haccounted.fault
      | some r => exact hend r rfl

/-- The close accounts, wherever a process may be. A trade in the ledger has an event; a trade has
at most one event more than there were crashes and failures between one of its events and the mark;
an event is one of its trade; an emission says that the close is recorded only if the trade is in
the ledger. -/
theorem CloseStore.Reached.accounts {topic : String} {s s' : CloseStore} {job : Job}
    {out : Option (Except Exc Unit)} (h : Reached topic s) (hjob : job.EmitsTo topic)
    (exec : Exec (ledgerWorld topic) job.run s out s') :
    (∀ key, (key ∈ s'.ledger → ∃ event, (key, event) ∈ s'.events) ∧
        s'.eventsOf key ≤ 1 + s'.faultsOf key) ∧
      (∀ e ∈ s'.events, ClosedBy e.1 e.2) ∧
      ∀ (em : CloseEmitter) t facts exitReason s₁ s₂,
        Exec (closeWorld topic) (em.emit t facts exitReason) s₁ (some (.ok true)) s₂ →
          t.brokerTradeId ∈ s₂.ledger := by
  have haccounted : s'.Accounted := (wpc_sound exec (Job.run_maintains hjob s h.atRest)).1
  refine ⟨fun key => ⟨haccounted.exists_event, haccounted.eventsOf_le key⟩, haccounted.built, ?_⟩
  intro em t facts exitReason s₁ s₂ hemit
  exact wp_sound hemit CloseEmitter.wp_emit rfl

/-! ### A crash between the event and the mark -/

/-- A run of the tool on the confirmation of the trade that was stopped out. -/
def backfillJob : Job :=
  .backfill ⟨gapBegan, some wiredSweeper.emitter⟩ (fun t => .ok t) [openedEnvelope]

/-- The broker knows of the close from its transactions, and the store works. -/
def storeHost (op : LiveCall) (s : CloseStore) : Except Exc op.Ans × CloseStore :=
  match op with
  | .sweeper (.ledgerSeen key) => (.ok (s.ledger.contains key), s.ask key)
  | .sweeper (.ledgerMark key) => (.ok (), s.mark key)
  | .sweeper (.publisher (.outboxPublish topic event)) =>
      (.ok (), if topic = "close_outbox" then s.write event else s)
  | .sweeper call => (stoppedBroker .null call, s)
  | _ => (.error (.ofErr .attributeError), s)

theorem storeHost_step (op : LiveCall) (s : CloseStore) :
    ledgerWorld "close_outbox" s op (storeHost op s).1 (storeHost op s).2 := by
  cases op with
  | sweeper call =>
      cases call with
      | ledgerSeen key =>
          refine ⟨fun seen h => ?_, rfl⟩
          rw [← Except.ok.inj h]
          exact List.contains_iff_mem
      | ledgerMark key => exact Or.inl rfl
      | publisher call =>
          cases call with
          | outboxPublish topic event =>
              by_cases htopic : topic = "close_outbox"
              · simp [ledgerWorld, closeWorld, storeHost, htopic, Except.isOk, Except.toBool]
              · simp [ledgerWorld, closeWorld, storeHost, htopic]
          | _ => exact rfl
      | _ => exact rfl
  | _ => exact rfl

/-- The tool dies behind the write of the event, and is run again. -/
theorem accounts_afterCrash :
    let s := (backfillJob.run.runFor storeHost 8 CloseStore.start).left none
    let s' := (backfillJob.run.run storeHost s).2
    (s'.eventsOf "10" = 2 ∧ s'.faultsOf "10" = 1) ∧
      (∀ key, (key ∈ s'.ledger → ∃ event, (key, event) ∈ s'.events) ∧
          s'.eventsOf key ≤ 1 + s'.faultsOf key) ∧
        (∀ e ∈ s'.events, ClosedBy e.1 e.2) ∧
        ∀ (em : CloseEmitter) t facts exitReason s₁ s₂,
          Exec (closeWorld "close_outbox") (em.emit t facts exitReason) s₁ (some (.ok true)) s₂ →
            t.brokerTradeId ∈ s₂.ledger := by
  have hjob : backfillJob.EmitsTo "close_outbox" := fun em hem => Option.some.inj hem ▸ rfl
  refine ⟨by decide +kernel, CloseStore.Reached.accounts ?_ hjob (exec_run storeHost_step _ _)⟩
  exact .after .start hjob (exec_runFor storeHost_step 8 _ _)

end System2
