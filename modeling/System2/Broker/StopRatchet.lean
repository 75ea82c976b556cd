import Mathlib.Logic.Relation
import System2.Broker.PositionManager

/-!
# The ticks of one trade

A managed trade is ticked again and again, with other prices and settings each time. The
broker answers every call or raises. The stop of the trade only ever gets tighter, and
what the trade says of its stop is what the broker has accepted.

## Implementation notes

The record of the trade is memory: a write to it takes place. The log keeps every call
with the trade as it was at the time of the call.
-/

namespace System2
open Foundation

/-- One tick: the settings of the manager, and the price. -/
structure Tick where
  manager : PositionManager
  price : Binary64

/-- The stop that the rules ask for: breakeven while the trade is not there yet, then
the trailing stop. -/
def Tick.target (tick : Tick) (t : ManagedTrade) : Binary64 :=
  if t.atBreakeven then t.trailingStop tick.price tick.manager.trailDistance
  else t.breakevenStop tick.manager.breakevenBufferPips (pipSize t.instrument)

/-- A call of a tick with its answer, and the trade at the time of the call. -/
structure TickEvent where
  tick : Tick
  trade : ManagedTrade
  call : Event ManagerI Exc

namespace TickEvent

/-- The stop that a call asks the adapter for. -/
def stopSent? (e : TickEvent) : Option Binary64 :=
  match e.call with
  | ⟨.modifyStop _ newStop _, _⟩ => some newStop
  | _ => none

/-- The stop that the adapter has accepted with a call. -/
def stopAccepted? (e : TickEvent) : Option Binary64 :=
  match e.call with
  | ⟨.modifyStop _ newStop _, .ok _⟩ => some newStop
  | _ => none

/-- A call of the adapter. -/
def ofAdapter (e : TickEvent) : Bool :=
  match e.call.1 with
  | .modifyStop _ _ _ => true
  | .closeTrade _ => true
  | _ => false

/-- The breakeven move, accepted. -/
def movedToBreakeven (e : TickEvent) : Bool := e.stopAccepted?.isSome && !e.trade.atBreakeven

end TickEvent

/-- The stops that the adapter has accepted, in order. -/
def acceptedStops (log : List TickEvent) : List Binary64 := log.filterMap TickEvent.stopAccepted?

/-- How often the breakeven move was accepted. -/
def breakevenMoves (log : List TickEvent) : ℕ := log.countP TickEvent.movedToBreakeven

theorem acceptedStops_concat (log : List TickEvent) (e : TickEvent) :
    acceptedStops (log ++ [e]) = acceptedStops log ++ e.stopAccepted?.toList := by
  cases h : e.stopAccepted? with
  | none => simp [acceptedStops, h]
  | some stop => simp [acceptedStops, h]

theorem breakevenMoves_concat (log : List TickEvent) (e : TickEvent) :
    breakevenMoves (log ++ [e]) = breakevenMoves log + if e.movedToBreakeven then 1 else 0 := by
  simp [breakevenMoves, List.countP_singleton]

/-- A trade and what was called about it. -/
structure TickState where
  trade : ManagedTrade
  log : List TickEvent

/-- The trade behind a call: written by `putTrade`, untouched by every other call. -/
def tradeAfter (op : ManagerCall) (t : ManagedTrade) : ManagedTrade :=
  match op with
  | .putTrade u => u
  | _ => t

/-- Only the write to the record cannot fail. -/
def MayAnswer : (op : ManagerCall) → Except Exc op.Ans → Prop
  | .putTrade _, r => r = .ok ()
  | _, _ => True

/-- The world of one trade during a tick. -/
def tradeWorld (tick : Tick) : World ManagerI Exc TickState := fun s op r s' =>
  MayAnswer op r ∧ s' = ⟨tradeAfter op s.trade, s.log ++ [⟨tick, s.trade, ⟨op, r⟩⟩]⟩

/-- One tick of the trade, to its end or to an exception. -/
def Ticked (s s' : TickState) : Prop :=
  ∃ tick r, Exec (tradeWorld tick) (tick.manager.onTick s.trade tick.price) s (some r) s'

/-- What the ticks of a trade keep, with a number of breakeven moves so far. -/
structure StopsKept (start : ManagedTrade) (moves : ℕ) (s : TickState) : Prop where
  side : s.trade.side = start.side
  tightened : List.IsChain (fun old new => start.isTighter new old = true)
    (start.currentStop :: acceptedStops s.log)
  current : s.trade.currentStop = (acceptedStops s.log).getLastD start.currentStop
  once : breakevenMoves s.log ≤ moves
  forward : (s.log.map (·.trade.atBreakeven) ++ [s.trade.atBreakeven]).Pairwise (· ≤ ·)
  shut : (s.log.map (·.trade.closed) ++ [s.trade.closed]).Pairwise (· ≤ ·)
  asTargeted : ∀ e ∈ s.log, ∀ newStop ∈ e.stopSent?, newStop = e.tick.target e.trade
  quiet : ∀ e ∈ s.log, e.ofAdapter = true → e.trade.closed = false

section Kept

variable {start : ManagedTrade} {tick : Tick} {moves : ℕ} {s : TickState}

theorem isTighter_congr {t u : ManagedTrade} (h : t.side = u.side) (new old : Binary64) :
    t.isTighter new old = u.isTighter new old := by
  simp [ManagedTrade.isTighter, ManagedTrade.direction, h]

/-- A link from the last stop to one more. -/
theorem isChain_concat {R : Binary64 → Binary64 → Prop} {first last : Binary64}
    {stops : List Binary64} (h : List.IsChain R (first :: stops))
    (hlast : R (stops.getLastD first) last) : List.IsChain R (first :: (stops ++ [last])) := by
  rw [← List.cons_append, List.isChain_append]
  refine ⟨h, List.isChain_singleton last, ?_⟩
  rintro old hold new hnew
  rw [List.getLast?_cons, Option.mem_some_iff] at hold
  rw [List.head?_cons, Option.mem_some_iff] at hnew
  rw [← hold, ← hnew]
  simpa [List.getLastD_eq_getLast?] using hlast

/-- A later flag that is not below the last one goes to the end. -/
theorem forward_concat {flags : List Bool} {now next : Bool}
    (h : (flags ++ [now]).Pairwise (· ≤ ·)) (hnext : now ≤ next) :
    (flags ++ [now] ++ [next]).Pairwise (· ≤ ·) := by
  refine List.pairwise_append.mpr ⟨h, List.pairwise_singleton _ _, ?_⟩
  intro flag hflag last hlast
  rw [List.mem_singleton.mp hlast]
  rcases List.mem_append.mp hflag with hbefore | hnow
  · exact ((List.pairwise_append.mp h).2.2 flag hbefore now (by simp)).trans hnext
  · rwa [List.mem_singleton.mp hnow]

/-- What holds of the log and of one more call holds of both. -/
theorem forall_log_concat {P : TickEvent → Prop} {e : TickEvent} (h : ∀ e ∈ s.log, P e)
    (hlast : P e) : ∀ e' ∈ s.log ++ [e], P e' := by
  intro e' he'
  rcases List.mem_append.mp he' with hmem | hnew
  · exact h e' hmem
  · rw [List.mem_singleton.mp hnew]
    exact hlast

/-- A call that moves no stop keeps everything, also when it is a write that keeps the side and
the stop and takes back no flag. -/
theorem StopsKept.call (h : StopsKept start moves s) (op : ManagerCall)
    {r : Except Exc op.Ans} (hstop : (TickEvent.mk tick s.trade ⟨op, r⟩).stopAccepted? = none)
    (hsent : ∀ newStop ∈ (TickEvent.mk tick s.trade ⟨op, r⟩).stopSent?,
      newStop = tick.target s.trade)
    (hquiet : (TickEvent.mk tick s.trade ⟨op, r⟩).ofAdapter = true → s.trade.closed = false)
    (hside : (tradeAfter op s.trade).side = s.trade.side)
    (hcurrent : (tradeAfter op s.trade).currentStop = s.trade.currentStop)
    (hforward : s.trade.atBreakeven ≤ (tradeAfter op s.trade).atBreakeven)
    (hshut : s.trade.closed ≤ (tradeAfter op s.trade).closed) :
    StopsKept start moves ⟨tradeAfter op s.trade, s.log ++ [⟨tick, s.trade, ⟨op, r⟩⟩]⟩ where
  side := hside.trans h.side
  tightened := by simpa [acceptedStops, hstop] using h.tightened
  current := by simpa [acceptedStops, hstop, hcurrent] using h.current
  once := by simpa [breakevenMoves, TickEvent.movedToBreakeven, hstop] using h.once
  forward := by simpa using forward_concat h.forward hforward
  shut := by simpa using forward_concat h.shut hshut
  asTargeted := forall_log_concat h.asTargeted hsent
  quiet := forall_log_concat h.quiet hquiet

/-- A call that only reads. -/
theorem StopsKept.read (h : StopsKept start moves s) (op : ManagerCall) {r : Except Exc op.Ans}
    (hstop : (TickEvent.mk tick s.trade ⟨op, r⟩).stopSent? = none)
    (hquiet : (TickEvent.mk tick s.trade ⟨op, r⟩).ofAdapter = true → s.trade.closed = false)
    (hafter : tradeAfter op s.trade = s.trade) :
    StopsKept start moves ⟨s.trade, s.log ++ [⟨tick, s.trade, ⟨op, r⟩⟩]⟩ := by
  have hkept : StopsKept start moves
      ⟨tradeAfter op s.trade, s.log ++ [⟨tick, s.trade, ⟨op, r⟩⟩]⟩ := by
    refine h.call op ?_ (by simp [hstop]) hquiet (by rw [hafter]) (by rw [hafter])
      (by rw [hafter]) (by rw [hafter])
    cases op with
    | modifyStop id newStop instrument => cases hstop
    | _ => rfl
  rwa [hafter] at hkept

/-- A write to the record of the trade that is not about its stop. -/
theorem StopsKept.put (h : StopsKept start moves s) {u : ManagedTrade}
    (hside : u.side = s.trade.side) (hcurrent : u.currentStop = s.trade.currentStop)
    (hforward : s.trade.atBreakeven ≤ u.atBreakeven) (hshut : s.trade.closed ≤ u.closed)
    {r : Except Exc Unit} :
    StopsKept start moves ⟨u, s.log ++ [⟨tick, s.trade, ⟨.putTrade u, r⟩⟩]⟩ :=
  h.call (.putTrade u) rfl (by simp [TickEvent.stopSent?]) (fun hadapter => by cases hadapter)
    hside hcurrent hforward hshut

/-- A tighter stop, as the rules ask for it, accepted and written to the record. -/
theorem StopsKept.moved (h : StopsKept start moves s) {newStop : Binary64} {id instrument : String}
    {resp : PyVal} {r : Except Exc Unit}
    (htarget : newStop = tick.target s.trade)
    (htighter : s.trade.isTighter newStop s.trade.currentStop = true)
    (hopen : s.trade.closed = false) :
    StopsKept start (if s.trade.atBreakeven then moves else moves + 1)
      ⟨{ s.trade with currentStop := newStop },
        s.log ++ [⟨tick, s.trade, ⟨.modifyStop id newStop instrument, .ok resp⟩⟩] ++
          [⟨tick, s.trade, ⟨.putTrade { s.trade with currentStop := newStop }, r⟩⟩]⟩ where
  side := h.side
  tightened := by
    rw [isTighter_congr h.side, h.current] at htighter
    rw [acceptedStops_concat, acceptedStops_concat]
    simpa only [TickEvent.stopAccepted?, Option.toList_some, Option.toList_none, List.append_nil]
      using isChain_concat h.tightened htighter
  current := by
    rw [acceptedStops_concat, acceptedStops_concat]
    simp [TickEvent.stopAccepted?]
  once := by
    have honce := h.once
    rw [breakevenMoves_concat, breakevenMoves_concat]
    cases hbreakeven : s.trade.atBreakeven with
    | false => simpa [TickEvent.movedToBreakeven, TickEvent.stopAccepted?, hbreakeven] using honce
    | true => simpa [TickEvent.movedToBreakeven, TickEvent.stopAccepted?, hbreakeven] using honce
  forward := by
    simpa using forward_concat (forward_concat h.forward le_rfl) (le_refl s.trade.atBreakeven)
  shut := by simpa using forward_concat (forward_concat h.shut le_rfl) (le_refl s.trade.closed)
  asTargeted := by
    refine forall_log_concat (s := ⟨s.trade, _⟩) (forall_log_concat h.asTargeted ?_)
      (by simp [TickEvent.stopSent?])
    intro sent hsent
    obtain rfl : newStop = sent := by simpa [TickEvent.stopSent?] using hsent
    exact htarget
  quiet := by
    refine forall_log_concat (s := ⟨s.trade, _⟩) (forall_log_concat h.quiet fun _ => hopen) ?_
    intro hadapter
    cases hadapter

/-- Before and after a rule: the breakeven move was made if the trade says so. -/
def TradeKept (start : ManagedTrade) (s : TickState) : Prop :=
  StopsKept start (if s.trade.atBreakeven then 1 else 0) s

theorem StopsKept.mono {more : ℕ} (h : StopsKept start moves s) (hmore : moves ≤ more) :
    StopsKept start more s :=
  { h with once := h.once.trans hmore }

end Kept

namespace PositionManager

variable {start : ManagedTrade} {tick : Tick} {s : TickState}

/-- What `tighten` leaves: the trade it returns, with at most the one breakeven move. -/
def Tightened (start : ManagedTrade) (s : TickState) (r : Except Exc (ManagedTrade × List String))
    (s' : TickState) : Prop :=
  match r with
  | .ok (t, _) => s'.trade = t ∧ t.atBreakeven = s.trade.atBreakeven ∧ t.closed = false ∧
      StopsKept start 1 s'
  | .error _ => TradeKept start s'

theorem wp_tighten (h : TradeKept start s) (hopen : s.trade.closed = false) {newStop : Binary64}
    (htarget : newStop = tick.target s.trade) (name : String) :
    wp (tradeWorld tick) (tighten s.trade newStop name) (Tightened start s) s := by
  have hallowed : (if s.trade.atBreakeven then 1 else 0) ≤ 1 := by split_ifs <;> omega
  unfold tighten
  split_ifs with htighter
  · simp only [setStop, Proc.bind_eq, Proc.pure_eq, Proc.bind_assoc]
    apply wpc_seq (wpc_of_perform trivial fun r s' hs' => ⟨trivial, hs'⟩)
    · rintro resp _ - ⟨-, rfl⟩
      apply wpc_seq (wpc_of_perform trivial fun r s' hs' => ⟨trivial, hs'⟩)
      · rintro _ _ - ⟨-, rfl⟩
        refine ⟨trivial, rfl, rfl, hopen, (h.moved htarget htighter hopen).mono ?_⟩
        split_ifs <;> omega
      · rintro e _ - ⟨hr, -⟩
        cases hr
    · rintro e _ - ⟨-, rfl⟩
      -- the adapter refused: nothing is written
      exact StopsKept.call h (.modifyStop _ _ _) rfl
        (fun sent hsent => (Option.some.inj hsent).symm.trans htarget) (fun _ => hopen) rfl rfl
        le_rfl le_rfl
  · exact ⟨trivial, rfl, rfl, hopen, h.mono hallowed⟩

/-- What a rule leaves: the trade it returns, still open. -/
def Leaves (start : ManagedTrade) {α : Type} (r : Except Exc (ManagedTrade × α))
    (s' : TickState) : Prop :=
  TradeKept start s' ∧ ∀ t a, r = .ok (t, a) → s'.trade = t ∧ t.closed = false

theorem wp_breakeven (h : TradeKept start s) (hopen : s.trade.closed = false) :
    wp (tradeWorld tick) (tick.manager.breakeven s.trade tick.price) (Leaves start) s := by
  unfold breakeven
  split_ifs with hdue
  · have hbefore : s.trade.atBreakeven = false := by
      simp only [Bool.and_eq_true, Bool.not_eq_true'] at hdue
      exact hdue.1
    apply wpc_seq (wp_tighten h hopen (by simp [Tick.target, hbefore]) "breakeven")
    · rintro ⟨t, actions⟩ s' - ⟨rfl, hkeeps, hopen', hkept⟩
      apply wpc_seq (wpc_of_perform trivial fun r s' hs' => ⟨trivial, hs'⟩)
      · rintro _ _ - ⟨-, rfl⟩
        refine ⟨trivial, hkept.put (u := { s'.trade with atBreakeven := true }) rfl rfl
          (Bool.le_true _) le_rfl, ?_⟩
        rintro t a ⟨⟩
        exact ⟨rfl, hopen'⟩
      · rintro e _ - ⟨hr, -⟩
        cases hr
    · intro e s' _ hs'
      exact ⟨hs', fun t a hr => by cases hr⟩
  · refine ⟨trivial, h, ?_⟩
    rintro t a ⟨⟩
    exact ⟨rfl, hopen⟩

theorem wp_trail (h : TradeKept start s) :
    wp (tradeWorld tick) (tick.manager.trail s.trade tick.price) (fun _ s' => TradeKept start s') s := by
  unfold trail
  split_ifs with hdue
  · simp only [Bool.and_eq_true, Bool.not_eq_true'] at hdue
    obtain ⟨⟨hthere, -⟩, hopen⟩ := hdue
    refine wpc_post (wp_tighten h hopen (by simp [Tick.target, hthere]) "trail") ?_
    rintro r s' - hs'
    cases r with
    | error e => exact hs'
    | ok moved =>
        obtain ⟨htrade, hkeeps, -, hkept⟩ := hs'
        unfold TradeKept
        rw [htrade, hkeeps, hthere]
        exact hkept
  · exact ⟨trivial, h⟩

theorem wp_timeActions (h : TradeKept start s) (hopen : s.trade.closed = false) (frac : Binary64) :
    wp (tradeWorld tick) (tick.manager.timeActions s.trade frac) (Leaves start) s := by
  unfold timeActions
  split
  · refine ⟨trivial, h, ?_⟩
    rintro t a ⟨⟩
    exact ⟨rfl, hopen⟩
  · rename_i tag name _
    apply wpc_seq (wpc_of_perform trivial fun r s' hs' => ⟨trivial, hs'⟩)
    · rintro _ _ - ⟨-, rfl⟩
      refine ⟨trivial, StopsKept.put h
        (u := { s.trade with timeActionsDone := s.trade.timeActionsDone ++ [tag] }) rfl rfl le_rfl
        le_rfl, ?_⟩
      rintro t a ⟨⟩
      exact ⟨rfl, hopen⟩
    · rintro e _ - ⟨hr, -⟩
      cases hr

theorem wp_manageStop (h : TradeKept start s) (hopen : s.trade.closed = false) (frac : Binary64) :
    wp (tradeWorld tick) (tick.manager.manageStop s.trade frac tick.price)
      (fun _ s' => TradeKept start s') s := by
  unfold manageStop
  apply wpc_seq (wp_timeActions h hopen frac)
  · rintro ⟨t, timed⟩ s₁ - ⟨hkept, hleft⟩
    obtain ⟨rfl, hopen'⟩ := hleft _ _ rfl
    apply wpc_seq (wp_breakeven hkept hopen')
    · rintro ⟨t, moved⟩ s₂ - ⟨hkept', hleft'⟩
      obtain ⟨rfl, -⟩ := hleft' _ _ rfl
      apply wpc_seq (wp_trail hkept')
      · intro trailed s₃ _ hs₃
        exact ⟨trivial, hs₃⟩
      · intro e s₃ _ hs₃
        exact hs₃
    · intro e s₂ _ hs₂
      exact hs₂.1
  · intro e s₁ _ hs₁
    exact hs₁.1

/-- The forced close: after the broker has answered, only the record and the hook follow. -/
theorem wp_close (h : TradeKept start s) (hopen : s.trade.closed = false) (exitReason : String) :
    wp (tradeWorld tick) (tick.manager.close s.trade exitReason)
      (fun r s' => TradeKept start s' ∧ ∀ t, r = .ok t → s'.trade = t) s := by
  apply wpc_seq (wpc_of_perform trivial fun r s' hs' => ⟨trivial, hs'⟩)
  · rintro resp _ - ⟨-, rfl⟩
    have hread : TradeKept start ⟨s.trade, s.log ++ [⟨tick, s.trade, ⟨.closeTrade _, .ok resp⟩⟩]⟩ :=
      StopsKept.read h (.closeTrade s.trade.brokerTradeId) rfl (fun _ => hopen) rfl
    apply wpc_seq (wpc_of_perform trivial fun r s' hs' => ⟨trivial, hs'⟩)
    · rintro _ _ - ⟨-, rfl⟩
      have hput : TradeKept start ⟨{ s.trade with closed := true },
          s.log ++ [⟨tick, s.trade, ⟨.closeTrade s.trade.brokerTradeId, .ok resp⟩⟩] ++
            [⟨tick, s.trade, ⟨.putTrade { s.trade with closed := true }, .ok ()⟩⟩]⟩ :=
        StopsKept.put hread (u := { s.trade with closed := true }) rfl rfl le_rfl (Bool.le_true _)
      apply wpc_seq (R := fun _ s' => TradeKept start s' ∧ s'.trade = { s.trade with closed := true })
      · refine wpc_given (fun _ => wpc_of_perform trivial ?_) fun _ => ⟨trivial, hput, rfl⟩
        rintro r _ ⟨-, rfl⟩
        -- the hook runs on the closed trade, and is no call of the adapter
        exact ⟨trivial, StopsKept.read hput (.emitCloseFn _ _ _) rfl
          (fun hadapter => by cases hadapter) rfl, rfl⟩
      · rintro _ s' - ⟨hkept, htrade⟩
        exact ⟨trivial, hkept, fun t ht => htrade.trans (Except.ok.inj ht)⟩
      · rintro e s' - ⟨hkept, -⟩
        exact ⟨hkept, fun t ht => by cases ht⟩
    · rintro e _ - ⟨hr, -⟩
      cases hr
  · rintro e _ - ⟨-, rfl⟩
    exact ⟨StopsKept.read h (.closeTrade _) rfl (fun _ => hopen) rfl,
      fun t ht => by cases ht⟩

theorem wp_timeExit (h : TradeKept start s) (hopen : s.trade.closed = false) :
    wp (tradeWorld tick) (tick.manager.timeExit s.trade) (fun _ s' => TradeKept start s') s := by
  unfold timeExit
  apply wpc_seq (wp_close h hopen "expiry")
  · rintro t s' - ⟨hkept, htrade⟩
    obtain rfl := htrade t rfl
    apply wpc_seq (wpc_of_perform trivial fun r s'' hs'' => ⟨trivial, hs''⟩)
    · rintro _ _ - ⟨-, rfl⟩
      exact ⟨trivial, StopsKept.put hkept
        (u := { s'.trade with timeActionsDone := s'.trade.timeActionsDone ++ ["t100"] })
        rfl rfl le_rfl le_rfl⟩
    · rintro e _ - ⟨hr, -⟩
      cases hr
  · rintro e s' - ⟨hkept, -⟩
    exact hkept

/-- One tick keeps what the ticks before it kept, however it ends. -/
theorem wp_onTick (h : TradeKept start s) :
    wp (tradeWorld tick) (tick.manager.onTick s.trade tick.price) (fun _ s' => TradeKept start s') s := by
  unfold onTick
  split_ifs with hoff
  · exact ⟨trivial, h⟩
  · have hopen : s.trade.closed = false := by
      simp only [Bool.or_eq_true, Bool.not_eq_true', not_or, Bool.not_eq_true] at hoff
      exact hoff.2
    apply wpc_seq (wpc_of_perform trivial fun r s' hs' => ⟨trivial, hs'⟩)
    · rintro now _ - ⟨-, rfl⟩
      have hread : TradeKept start ⟨s.trade, s.log ++ [⟨tick, s.trade, ⟨.clock, .ok now⟩⟩]⟩ :=
        StopsKept.read h .clock rfl (fun hadapter => by cases hadapter) rfl
      dsimp only
      split_ifs
      · exact wp_timeExit hread hopen
      · exact wp_manageStop hread hopen _
    · rintro e _ - ⟨-, rfl⟩
      exact StopsKept.read h .clock rfl (fun hadapter => by cases hadapter) rfl

/-- For every trade and every sequence of ticks, each with its own settings, price and clock
and with the broker free to refuse any call: the stops that the adapter accepted are each
tighter than the one before, the trade's stop is the last of them, the breakeven move was
accepted at most once, the flags for breakeven and for the close never go back, every stop sent
is the one the rules ask for, and no call of the adapter is about a closed trade. -/
theorem stopsKept_of_ticks {start : ManagedTrade} {s : TickState}
    (run : Relation.ReflTransGen Ticked ⟨start, []⟩ s) : StopsKept start 1 s := by
  have hkept : TradeKept start s := by
    induction run with
    | refl =>
        exact ⟨rfl, List.isChain_singleton _, rfl, Nat.zero_le _, List.pairwise_singleton _ _,
          List.pairwise_singleton _ _, by simp, by simp⟩
    | tail _ ticked ih =>
        obtain ⟨tick, r, exec⟩ := ticked
        exact wp_sound exec (wp_onTick ih)
  refine hkept.mono ?_
  split_ifs <;> omega

/-- A long trade with a hundred pips of risk. -/
def longTrade : ManagedTrade where
  brokerTradeId := "7"
  instrument := "EUR_USD"
  side := "BUY"
  entryPrice := .ofRat (11 / 10)
  initialStopPrice := .ofRat (109 / 100)
  takeProfitPrice := .ofRat (6 / 5)
  openTime := Moment.first
  granularity := "H1"
  maxDurationSec := .zero
  correlationId := "c"
  currentStop := .ofRat (109 / 100)
  atBreakeven := false
  timeActionsDone := []
  closed := false
  orderRequestId := some "k"

/-- The wired settings with a trail of fifty pips, at 2R. -/
def trailingTick : Tick where
  manager :=
    { hasEmitCloseFn := true
      breakevenR := .ofRat 1
      breakevenBufferPips := .ofRat 1
      trailDistance := .ofRat (1 / 200)
      timeExitFractions := []
      enabled := true }
  price := .ofRat (28 / 25)

/-- A broker that accepts every call, at a time of the clock. -/
def willing (now : Moment) (op : ManagerCall) : Except Exc op.Ans :=
  match op with
  | .clock => .ok now
  | .trades => .ok TradeBook.empty
  | .putTrade _ => .ok ()
  | .modifyStop _ _ _ => .ok .null
  | .closeTrade _ => .ok .null
  | .emitCloseFn _ _ _ => .ok ()

/-- One call during a tick with that broker. -/
def willingStep (tick : Tick) (now : Moment) (op : ManagerCall) (s : TickState) :
    Except Exc op.Ans × TickState :=
  (willing now op, ⟨tradeAfter op s.trade, s.log ++ [⟨tick, s.trade, ⟨op, willing now op⟩⟩]⟩)

theorem willingStep_allowed (tick : Tick) (now : Moment) (op : ManagerCall) (s : TickState) :
    tradeWorld tick s op (willingStep tick now op s).1 (willingStep tick now op s).2 := by
  refine ⟨?_, rfl⟩
  cases op with
  | putTrade t => rfl
  | _ => trivial

/-- That tick of that trade. -/
def trailedTrade : Except Exc (List String) × TickState :=
  (trailingTick.manager.onTick longTrade trailingTick.price).run
    (willingStep trailingTick Moment.first) ⟨longTrade, []⟩

theorem stopsKept_of_ticks_trailed :
    (acceptedStops trailedTrade.2.log).length = 2 ∧ StopsKept longTrade 1 trailedTrade.2 := by
  refine ⟨by decide +kernel, stopsKept_of_ticks (.single ⟨trailingTick, trailedTrade.1, ?_⟩)⟩
  exact exec_run (willingStep_allowed trailingTick Moment.first) _ _

end PositionManager

end System2
