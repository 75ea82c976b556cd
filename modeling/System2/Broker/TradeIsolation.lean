import System2.Broker.StopRatchet
import System2.Foundation.RunRecord

/-!
# One pass over the open trades

`evaluate_all` ticks the trades of the book one after the other and catches nothing. A call
that raises for one trade ends the pass, and the trades behind it are not looked at.

## Implementation notes

The clock and the manager's own memory do not fail; the adapter and the hook may raise at any
call.
-/

namespace System2
open Foundation

/-- An open trade with its price, if there is one. -/
def ManagedTrade.priced? (prices : List (String × Binary64)) (t : ManagedTrade) :
    Option (ManagedTrade × Binary64) :=
  if t.closed then none
  else (prices.find? fun quote => quote.1 = t.instrument).map fun quote => (t, quote.2)

/-- The open trades of a book that have a price, in the order of the book. -/
def TradeBook.managed (book : TradeBook) (prices : List (String × Binary64)) :
    List (ManagedTrade × Binary64) :=
  book.trades.filterMap (ManagedTrade.priced? prices)

/-- The trade that a call of the adapter or of the hook is about. -/
def ManagerCall.tradeId? : ManagerCall → Option String
  | .modifyStop tradeId _ _ => some tradeId
  | .closeTrade tradeId => some tradeId
  | .emitCloseFn t _ _ => some t.brokerTradeId
  | _ => none

/-- The memory of the manager answers with what it holds, and the clock answers. -/
def Remembers (book : TradeBook) : Event ManagerI Exc → Prop
  | ⟨.clock, r⟩ => r.isOk = true
  | ⟨.trades, r⟩ => r = .ok book
  | ⟨.putTrade _, r⟩ => r = .ok ()
  | _ => True

/-- The environment of a pass: the broker and the hook are free to raise. -/
def passWorld (book : TradeBook) : World ManagerI Exc (List (Event ManagerI Exc)) :=
  World.free.under (Remembers book)

namespace PositionManager

variable {m : PositionManager} {book : TradeBook} {prices : List (String × Binary64)}

/-- The rules are applied to a trade: its tick, to the end or to an exception. -/
def Applied (m : PositionManager) (book : TradeBook) (managed : ManagedTrade × Binary64)
    (record : List (Event ManagerI Exc)) : Prop :=
  ∃ r, Exec (passWorld book) (m.onTick managed.1 managed.2) [] (some r) record

/-- The record of a pass holds the ticks of all trades that there are to manage, one after the
other. -/
def AppliedToAll (m : PositionManager) (book : TradeBook) (prices : List (String × Binary64))
    (record : List (Event ManagerI Exc)) : Prop :=
  ∃ ticks, record = ⟨.trades, .ok book⟩ :: ticks.flatten ∧
    List.Forall₂ (Applied m book) (book.managed prices) ticks

/-! ### One tick -/

theorem strict_tighten (t : ManagedTrade) (newStop : Binary64) (name : String) :
    (tighten t newStop name).Strict := by
  unfold tighten
  split_ifs
  · have hset : (setStop t newStop).Strict :=
      (Proc.strict_perform _).bind fun _ => (Proc.strict_perform _).bind fun _ => trivial
    exact hset.bind fun _ => trivial
  · trivial

theorem strict_manageStop (t : ManagedTrade) (frac price : Binary64) :
    (m.manageStop t frac price).Strict := by
  have htimed : (m.timeActions t frac).Strict := by
    unfold timeActions
    split
    · trivial
    · exact (Proc.strict_perform _).bind fun _ => trivial
  refine htimed.bind fun timed => ?_
  have hbreakeven : (m.breakeven timed.1 price).Strict := by
    unfold breakeven
    split_ifs
    · exact (strict_tighten _ _ _).bind fun _ => (Proc.strict_perform _).bind fun _ => trivial
    · trivial
  refine hbreakeven.bind fun moved => ?_
  have htrail : (m.trail moved.1 price).Strict := by
    unfold trail
    split_ifs
    · exact strict_tighten _ _ _
    · trivial
  exact htrail.bind fun _ => trivial

/-- A tick catches nothing. -/
theorem strict_onTick (t : ManagedTrade) (price : Binary64) : (m.onTick t price).Strict := by
  unfold onTick
  split_ifs
  · trivial
  · refine (Proc.strict_perform _).bind fun now => ?_
    dsimp only
    split_ifs
    · have hclose : (m.close t "expiry").Strict :=
        (Proc.strict_perform _).bind fun _ => (Proc.strict_perform _).bind fun _ =>
          (Proc.strict_given (Proc.strict_perform _)).bind fun _ => trivial
      exact hclose.bind fun _ => (Proc.strict_perform _).bind fun _ => trivial
    · exact strict_manageStop t _ _

/-- A call behind the reading of the clock: of the adapter or the hook about one trade, or a
write to memory. -/
def AboutTrade (tradeId : String) : ManagerCall → Prop
  | .clock => False
  | .trades => False
  | .putTrade _ => True
  | op => op.tradeId? = some tradeId

theorem about_tighten {t : ManagedTrade} (newStop : Binary64) (name : String) :
    (tighten t newStop name).Only (AboutTrade t.brokerTradeId) := by
  unfold tighten
  split_ifs
  · have hmodify : AboutTrade t.brokerTradeId
        (.modifyStop t.brokerTradeId newStop t.instrument) := rfl
    have hset : (setStop t newStop).Only (AboutTrade t.brokerTradeId) :=
      (Proc.along_perform hmodify).bind fun _ => (Proc.along_perform trivial).bind fun _ => trivial
    exact hset.bind fun _ => trivial
  · trivial

theorem sameId_tighten (t : ManagedTrade) (newStop : Binary64) (name : String) :
    (tighten t newStop name).Yields (fun _ _ => True)
      fun r => r.1.brokerTradeId = t.brokerTradeId := by
  unfold tighten
  split_ifs
  · have hset : (setStop t newStop).Yields (fun _ _ => True)
        fun u => u.brokerTradeId = t.brokerTradeId :=
      (Proc.yields_true _).bind fun _ _ => (Proc.yields_true _).bind fun _ _ => rfl
    exact hset.bind fun _ h => h
  · rfl

theorem about_manageStop (t : ManagedTrade) (frac price : Binary64) :
    (m.manageStop t frac price).Only (AboutTrade t.brokerTradeId) := by
  have htimed : (m.timeActions t frac).Only (AboutTrade t.brokerTradeId) ∧
      (m.timeActions t frac).Yields (fun _ _ => True)
        fun r => r.1.brokerTradeId = t.brokerTradeId := by
    unfold timeActions
    split
    · exact ⟨trivial, rfl⟩
    · exact ⟨(Proc.along_perform trivial).bind fun _ => trivial,
        (Proc.yields_true _).bind fun _ _ => rfl⟩
  refine htimed.1.bind_yields htimed.2 fun timed hid => ?_
  rw [← hid]
  have hbreakeven : (m.breakeven timed.1 price).Only (AboutTrade timed.1.brokerTradeId) ∧
      (m.breakeven timed.1 price).Yields (fun _ _ => True)
        fun r => r.1.brokerTradeId = timed.1.brokerTradeId := by
    unfold breakeven
    split_ifs
    · exact ⟨(about_tighten _ _).bind fun _ => (Proc.along_perform trivial).bind fun _ => trivial,
        (sameId_tighten _ _ _).bind fun _ hid => (Proc.yields_true _).bind fun _ _ => hid⟩
    · exact ⟨trivial, rfl⟩
  refine hbreakeven.1.bind_yields hbreakeven.2 fun moved hid => ?_
  rw [← hid]
  have htrail : (m.trail moved.1 price).Only (AboutTrade moved.1.brokerTradeId) := by
    unfold trail
    split_ifs
    · exact about_tighten _ _
    · trivial
  exact htrail.bind fun _ => trivial

theorem about_timeExit (t : ManagedTrade) : (m.timeExit t).Only (AboutTrade t.brokerTradeId) := by
  have hcall : AboutTrade t.brokerTradeId (.closeTrade t.brokerTradeId) := rfl
  have hemit : ∀ resp, AboutTrade t.brokerTradeId
      (.emitCloseFn { t with closed := true } resp "expiry") := fun _ => rfl
  have hclose : (m.close t "expiry").Only (AboutTrade t.brokerTradeId) :=
    (Proc.along_perform hcall).bind fun resp => (Proc.along_perform trivial).bind fun _ =>
      (Proc.along_given (Proc.along_perform (hemit resp))).bind fun _ => trivial
  exact hclose.bind fun _ => (Proc.along_perform trivial).bind fun _ => trivial

/-- The tick of an open trade reads the clock once; what follows is about that trade. -/
theorem Applied.record {t : ManagedTrade} {price : Binary64} {seg : List (Event ManagerI Exc)}
    (h : Applied m book (t, price) seg) (hon : m.enabled = true) (hopen : t.closed = false) :
    ∃ now s, seg = ⟨.clock, .ok now⟩ :: s ∧
      ∀ e ∈ s, AboutTrade t.brokerTradeId e.1 ∧ Remembers book e := by
  obtain ⟨r, exec⟩ := h
  unfold onTick at exec
  rw [if_neg (by simp [hon, hopen])] at exec
  cases exec with
  | @call _ _ _ answer _ _ _ step tail =>
      obtain ⟨rfl, hclock⟩ := step
      cases answer with
      | error e => cases hclock
      | ok now =>
          obtain ⟨s, rfl, hshift⟩ := exec_free_suffix tail
          refine ⟨now, s, rfl, ?_⟩
          refine events_of_only_under (P := AboutTrade t.brokerTradeId) ?_ (by simpa using hshift [])
          simp only [Proc.ofExcept, Proc.ret_bind]
          split_ifs
          · exact about_timeExit t
          · exact about_manageStop t _ _

/-- With the manager off a tick calls nothing. -/
theorem Applied.off {managed : ManagedTrade × Binary64} {seg : List (Event ManagerI Exc)}
    (h : Applied m book managed seg) (hoff : m.enabled = false) : seg = [] := by
  obtain ⟨r, exec⟩ := h
  unfold onTick at exec
  rw [if_pos (by simp [hoff])] at exec
  cases exec
  rfl

/-- A call that raises in a tick is about its trade. -/
theorem Applied.raised {t : ManagedTrade} {price : Binary64} {seg : List (Event ManagerI Exc)}
    (h : Applied m book (t, price) seg) (hopen : t.closed = false) {e : Event ManagerI Exc}
    (he : e ∈ seg) (hraised : e.raised = true) : e.1.tradeId? = some t.brokerTradeId := by
  cases hon : m.enabled with
  | false =>
      rw [h.off hon] at he
      cases he
  | true =>
      obtain ⟨now, s, rfl, hs⟩ := h.record hon hopen
      rcases List.mem_cons.mp he with rfl | hmem
      · cases hraised
      · obtain ⟨habout, hremembers⟩ := hs e hmem
        obtain ⟨op, r⟩ := e
        cases op with
        | clock => exact habout.elim
        | trades => exact habout.elim
        | putTrade u =>
            obtain rfl : r = .ok () := hremembers
            cases hraised
        | modifyStop id newStop instrument => exact habout
        | closeTrade id => exact habout
        | emitCloseFn u resp reason => exact habout

def isClock (e : Event ManagerI Exc) : Bool :=
  match e.1 with
  | .clock => true
  | _ => false

/-- As many readings of the clock as ticks. -/
theorem countP_clock {managed : List (ManagedTrade × Binary64)}
    {ticks : List (List (Event ManagerI Exc))} (h : List.Forall₂ (Applied m book) managed ticks)
    (hon : m.enabled = true) (hopen : ∀ x ∈ managed, x.1.closed = false) :
    ticks.flatten.countP isClock = managed.length := by
  induction h with
  | nil => rfl
  | @cons x seg rest ticks happlied _ ih =>
      obtain ⟨now, s, rfl, hs⟩ := happlied.record hon (hopen x (by simp))
      have hnone : s.countP isClock = 0 := by
        rw [List.countP_eq_zero]
        rintro ⟨op, r⟩ he hclock
        have habout := (hs _ he).1
        cases op with
        | clock => exact habout
        | _ => cases hclock
      rw [List.flatten_cons, List.countP_append, List.countP_cons, hnone,
        ih fun y hy => hopen y (List.mem_cons_of_mem _ hy)]
      simp [isClock, Nat.add_comm]

/-! ### The pass -/

/-- The end of a pass: all trades are ticked and no call has raised, or a call has raised in the
tick of one trade and the pass ends there. -/
inductive PassEnd (m : PositionManager) (book : TradeBook) :
    List (ManagedTrade × Binary64) → List (Event ManagerI Exc) → Prop
  | all {managed ticks} (applied : List.Forall₂ (Applied m book) managed ticks)
      (smooth : ∀ e ∈ ticks.flatten, e.raised = false) : PassEnd m book managed ticks.flatten
  | stopped {before failed behind ticks seg}
      (applied : List.Forall₂ (Applied m book) before ticks)
      (smooth : ∀ e ∈ ticks.flatten, e.raised = false) (last : Applied m book failed seg)
      (raised : ∃ e ∈ seg, e.raised = true) :
      PassEnd m book (before ++ failed :: behind) (ticks.flatten ++ seg)

/-- One more trade in front, whose tick went through. -/
theorem PassEnd.cons {x : ManagedTrade × Binary64} {managed : List (ManagedTrade × Binary64)}
    {seg log : List (Event ManagerI Exc)} (hx : Applied m book x seg)
    (hsmooth : ∀ e ∈ seg, e.raised = false) (h : PassEnd m book managed log) :
    PassEnd m book (x :: managed) (seg ++ log) := by
  have hboth : ∀ {ticks : List (List (Event ManagerI Exc))},
      (∀ e ∈ ticks.flatten, e.raised = false) → ∀ e ∈ (seg :: ticks).flatten, e.raised = false := by
    intro ticks hticks e he
    rcases List.mem_append.mp (List.flatten_cons ▸ he) with hfirst | hrest
    · exact hsmooth e hfirst
    · exact hticks e hrest
  cases h with
  | all applied smooth =>
      rw [← List.flatten_cons]
      exact .all (.cons hx applied) (hboth smooth)
  | stopped applied smooth last raised =>
      rw [← List.append_assoc, ← List.flatten_cons, ← List.cons_append]
      exact .stopped (.cons hx applied) (hboth smooth) last raised

/-- The loop over the trades ends in one of the two ways. -/
theorem passEnd_tickAll {trades : List ManagedTrade} {r : Except Exc (List (String × List String))}
    {log : List (Event ManagerI Exc)}
    (exec : Exec (passWorld book) (m.tickAll prices trades) [] (some r) log) :
    PassEnd m book (trades.filterMap (ManagedTrade.priced? prices)) log := by
  induction trades generalizing r log with
  | nil =>
      cases exec
      exact .all .nil (by simp)
  | cons t rest ih =>
      unfold tickAll at exec
      cases hclosed : t.closed with
      | true =>
          rw [if_pos hclosed] at exec
          rw [List.filterMap_cons_none (by simp [ManagedTrade.priced?, hclosed])]
          exact ih exec
      | false =>
          rw [if_neg (by simp [hclosed])] at exec
          cases hprice : prices.find? fun quote => quote.1 = t.instrument with
          | none =>
              simp only [hprice] at exec
              rw [List.filterMap_cons_none (by simp [ManagedTrade.priced?, hclosed, hprice])]
              exact ih exec
          | some quote =>
              simp only [hprice] at exec
              rw [List.filterMap_cons_some (b := (t, quote.2))
                (by simp [ManagedTrade.priced?, hclosed, hprice])]
              rcases exec_free_bind exec with ⟨actions, seg, s, rfl, htick, hrest⟩ | ⟨e, rfl, htick⟩
              · have hsmooth : ∀ e ∈ seg, e.raised = false := by
                  rcases exec_strict (strict_onTick t quote.2) htick with ⟨-, h⟩ | ⟨h, -⟩
                  · exact h
                  · cases h
                refine PassEnd.cons ⟨_, htick⟩ hsmooth ?_
                rcases exec_free_bind hrest with ⟨others, s₁, s₂, rfl, hothers, hret⟩ |
                    ⟨e, rfl, hothers⟩
                · cases hret
                  rw [List.append_nil]
                  exact ih hothers
                · exact ih hothers
              · have hraised : ∃ e ∈ log, e.raised = true := by
                  rcases exec_strict (strict_onTick t quote.2) htick with ⟨h, -⟩ | ⟨-, h⟩
                  · cases h
                  · exact h
                have hnothing : ∀ e ∈ ([] : List (List (Event ManagerI Exc))).flatten,
                    e.raised = false := by simp
                exact PassEnd.stopped .nil hnothing ⟨_, htick⟩ hraised

theorem open_of_managed {x : ManagedTrade × Binary64} (h : x ∈ book.managed prices) :
    x.1.closed = false := by
  obtain ⟨t, -, hpriced⟩ := List.mem_filterMap.mp h
  unfold ManagedTrade.priced? at hpriced
  split_ifs at hpriced with hclosed
  obtain ⟨quote, -, rfl⟩ := Option.map_eq_some_iff.mp hpriced
  simpa using hclosed

/-- The trades to manage have different ids. -/
theorem managed_nodup :
    ((book.managed prices).map fun x => x.1.brokerTradeId).Nodup := by
  refine List.Nodup.sublist ?_ book.distinct
  unfold TradeBook.managed
  induction book.trades with
  | nil => exact .slnil
  | cons t rest ih =>
      cases hpriced : t.priced? prices with
      | none =>
          rw [List.filterMap_cons_none hpriced]
          exact ih.cons _
      | some x =>
          have hid : x.1 = t := by
            unfold ManagedTrade.priced? at hpriced
            split_ifs at hpriced
            obtain ⟨quote, -, rfl⟩ := Option.map_eq_some_iff.mp hpriced
            rfl
          rw [List.filterMap_cons_some hpriced, List.map_cons, List.map_cons, hid]
          exact ih.cons_cons _

/-- A pass that stopped at a trade has ticked all of them only if that was the last. -/
theorem behind_of_appliedToAll {before behind : List (ManagedTrade × Binary64)}
    {failed : ManagedTrade × Binary64} {ticks all : List (List (Event ManagerI Exc))}
    {seg : List (Event ManagerI Exc)} (hon : m.enabled = true)
    (hopen : ∀ x ∈ before ++ failed :: behind, x.1.closed = false)
    (applied : List.Forall₂ (Applied m book) before ticks) (last : Applied m book failed seg)
    (happlied : List.Forall₂ (Applied m book) (before ++ failed :: behind) all)
    (hsame : ticks.flatten ++ seg = all.flatten) : behind = [] := by
  have hall := countP_clock happlied hon hopen
  have hbefore := countP_clock applied hon fun x hx => hopen x (List.mem_append_left _ hx)
  have hlast := countP_clock (.cons last .nil) hon (by simpa using hopen failed (by simp))
  have hcounts := congrArg (List.countP isClock) hsame
  rw [List.countP_append, hall, hbefore, List.length_append, List.length_cons] at hcounts
  simp only [List.flatten_cons, List.flatten_nil, List.append_nil, List.length_singleton] at hlast
  exact List.length_eq_zero_iff.mp (by omega)

/-- In a pass that stopped at a trade, every call that raised is about that trade. -/
theorem raised_in_stopped {failed : ManagedTrade × Binary64}
    {ticks : List (List (Event ManagerI Exc))} {seg : List (Event ManagerI Exc)}
    (hopen : failed.1.closed = false) (smooth : ∀ e ∈ ticks.flatten, e.raised = false)
    (last : Applied m book failed seg) {e : Event ManagerI Exc} (he : e ∈ ticks.flatten ++ seg)
    (hraised : e.raised = true) : e.1.tradeId? = some failed.1.brokerTradeId := by
  rcases List.mem_append.mp he with hbefore | hlast
  · rw [smooth e hbefore] at hraised
    cases hraised
  · exact Applied.raised last hopen hlast hraised

/-- For every book, every price map and every pass over them, with the adapter and the hook free to
raise at any call: the rules are applied to all open trades that have a price exactly when every
call that raises is about the last of them. -/
theorem appliedToAll_iff {r : Except Exc (List (String × List String))}
    {log : List (Event ManagerI Exc)}
    (exec : Exec (passWorld book) (m.evaluateAll prices) [] (some r) log) :
    AppliedToAll m book prices log ↔ ∀ e ∈ log, e.raised = true →
      e.1.tradeId? = (book.managed prices).getLast?.map fun x => x.1.brokerTradeId := by
  obtain ⟨s, rfl, hend⟩ : ∃ s, log = ⟨.trades, .ok book⟩ :: s ∧
      PassEnd m book (book.managed prices) s := by
    cases exec with
    | @call _ _ _ answer _ _ _ step tail =>
        obtain ⟨rfl, rfl⟩ := step
        obtain ⟨s, rfl, hshift⟩ := exec_free_suffix tail
        have hloop := hshift []
        rw [List.nil_append] at hloop
        exact ⟨s, rfl, passEnd_tickAll hloop⟩
  have hopen : ∀ x ∈ book.managed prices, x.1.closed = false := fun x hx => open_of_managed hx
  have hdistinct : ((book.managed prices).map fun x => x.1.brokerTradeId).Nodup := managed_nodup
  unfold AppliedToAll
  generalize book.managed prices = managed at hend hopen hdistinct ⊢
  rw [List.forall_mem_cons, and_iff_right (fun h : Event.raised _ = true => by cases h)]
  cases hend with
  | all applied smooth =>
      refine iff_of_true ⟨_, rfl, applied⟩ ?_
      intro e he hraised
      rw [smooth e he] at hraised
      cases hraised
  | @stopped before failed behind ticks seg applied smooth last raised =>
      have hfailed : failed.1.closed = false := hopen failed (by simp)
      obtain ⟨e, he, hraised⟩ := raised
      have hon : m.enabled = true := by
        by_contra hoff
        rw [last.off (by simpa using hoff)] at he
        cases he
      constructor
      · rintro ⟨all, hsame, happlied⟩ e he hraised
        obtain rfl := behind_of_appliedToAll hon hopen applied last happlied (List.cons.inj hsame).2
        rw [raised_in_stopped hfailed smooth last he hraised]
        simp
      · intro hlast
        have hid := hlast e (List.mem_append_right _ he) hraised
        rw [raised_in_stopped hfailed smooth last (List.mem_append_right _ he) hraised] at hid
        cases behind with
        | nil =>
            refine ⟨ticks ++ [seg], by simp, ?_⟩
            exact List.rel_append applied (.cons last .nil)
        | cons next rest =>
            obtain ⟨x, hx, hxid⟩ := Option.map_eq_some_iff.mp hid.symm
            have hmem : x ∈ next :: rest := by
              rw [List.getLast?_append_of_ne_nil _ (by simp), List.getLast?_cons_cons] at hx
              exact List.mem_of_getLast? hx
            rw [List.map_append, List.map_cons] at hdistinct
            have hfresh := (List.nodup_cons.mp (List.nodup_append.mp hdistinct).2.1).1
            exact absurd (List.mem_map.mpr ⟨x, hmem, hxid⟩) hfresh

/-- Two trades at 2R. -/
def pairOfTrades : TradeBook where
  trades := [longTrade, { longTrade with brokerTradeId := "8" }]
  distinct := by decide

/-- A broker that rejects a stop move of the given trade. -/
def rejecting (tradeId : String) (op : ManagerCall) : Except Exc op.Ans :=
  match op with
  | .clock => .ok Moment.first
  | .trades => .ok pairOfTrades
  | .putTrade _ => .ok ()
  | .modifyStop id _ _ => if id = tradeId then .error ⟨.v20Error, []⟩ else .ok .null
  | .closeTrade _ => .ok .null
  | .emitCloseFn _ _ _ => .ok ()

/-- One pass over the two trades. -/
def passOver (tradeId : String) :
    Except Exc (List (String × List String)) × List (Event ManagerI Exc) :=
  (trailingTick.manager.evaluateAll [("EUR_USD", trailingTick.price)]).run
    (World.record (rejecting tradeId)) []

theorem exec_passOver (tradeId : String) :
    Exec (passWorld pairOfTrades)
      (trailingTick.manager.evaluateAll [("EUR_USD", trailingTick.price)]) []
      (some (passOver tradeId).1) (passOver tradeId).2 := by
  refine exec_run (fun op t => ⟨rfl, ?_⟩) _ _
  cases op with
  | clock => rfl
  | trades => rfl
  | putTrade u => rfl
  | _ => trivial

/-- The broker rejects the move of the last trade. -/
theorem appliedToAll_iff_last :
    AppliedToAll trailingTick.manager pairOfTrades [("EUR_USD", trailingTick.price)]
      (passOver "8").2 :=
  (appliedToAll_iff (exec_passOver "8")).mpr (by decide +kernel)

/-- The broker rejects the move of the first trade, and the second is not ticked. -/
theorem second_not_applied :
    ¬ ∀ (m : PositionManager) (book : TradeBook) (prices : List (String × Binary64))
      (r : Except Exc (List (String × List String))) (log : List (Event ManagerI Exc)),
      Exec (passWorld book) (m.evaluateAll prices) [] (some r) log →
        AppliedToAll m book prices log := by
  intro h
  obtain ⟨ticks, hrecord, happlied⟩ := h _ _ _ _ _ (exec_passOver "7")
  have hclocks := countP_clock happlied rfl fun x hx => open_of_managed hx
  have hcounted : (passOver "7").2.countP isClock = 1 := by decide +kernel
  have hmanaged : (pairOfTrades.managed [("EUR_USD", trailingTick.price)]).length = 2 := by decide
  rw [hrecord, List.countP_cons_of_neg (by simp [isClock]), hclocks, hmanaged] at hcounted
  cases hcounted

end PositionManager

end System2
