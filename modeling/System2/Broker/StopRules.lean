import System2.Broker.ProtectiveMoves

/-!
# The stop rules over any arithmetic

The breakeven and trailing rules use a few operations on prices. Over the floats they are
what a tick of the manager does when the broker accepts; over the rationals they are the
same rules without rounding.
-/

namespace System2
open Foundation

/-- The operations on prices that the rules use, and their constants. -/
structure PriceOps (N : Type) where
  zero : N
  sign : ℤ → N
  rEps : N
  pipSize : String → N
  add : N → N → N
  sub : N → N → N
  mul : N → N → N
  div : N → N → N
  abs : N → N
  lt : N → N → Bool
  le : N → N → Bool

/-- The operations of the code. -/
def floatOps : PriceOps Binary64 where
  zero := .zero
  sign := fun n => .ofRat n
  rEps := rEps
  pipSize := pipSize
  add := Binary64.add
  sub := Binary64.sub
  mul := Binary64.mul
  div := fun x y => (x.div? y).getD .nan
  abs := Binary64.abs
  lt := Binary64.lt
  le := Binary64.le

/-- The operations on exact prices. -/
def exactOps : PriceOps ℚ where
  zero := 0
  sign := fun n => n
  rEps := 1 / 1000000000
  pipSize := fun instrument => if isJpyQuoted instrument then 1 / 100 else 1 / 10000
  add := (· + ·)
  sub := (· - ·)
  mul := (· * ·)
  div := (· / ·)
  abs := fun x => |x|
  lt := fun x y => decide (x < y)
  le := fun x y => decide (x ≤ y)

/-- The settings of the rules. -/
structure RuleSettings (N : Type) where
  breakevenR : N
  breakevenBufferPips : N
  trailDistance : N

/-- What the rules read and write of a trade. -/
structure StopState (N : Type) where
  isBuy : Bool
  instrument : String
  entryPrice : N
  initialStopPrice : N
  currentStop : N
  atBreakeven : Bool

namespace StopState

section Rules

variable {N : Type} (ops : PriceOps N) (c : RuleSettings N) (p : StopState N)

def direction : ℤ := if p.isBuy then 1 else -1

def riskDistance : N := ops.abs (ops.sub p.entryPrice p.initialStopPrice)

def favorableMove (price : N) : N := ops.mul (ops.sub price p.entryPrice) (ops.sign p.direction)

/-- `r_multiple`. -/
def rMultiple (price : N) : N :=
  if ops.le (p.riskDistance ops) ops.zero then ops.zero
  else ops.div (p.favorableMove ops price) (p.riskDistance ops)

def breakevenStop : N :=
  ops.add p.entryPrice
    (ops.mul (ops.mul (ops.sign p.direction) c.breakevenBufferPips) (ops.pipSize p.instrument))

def trailingStop (bestPrice : N) : N :=
  ops.sub bestPrice (ops.mul (ops.sign p.direction) c.trailDistance)

/-- `is_tighter`. -/
def isTighter (newStop currentStop : N) : Bool :=
  if p.isBuy then ops.lt currentStop newStop else ops.lt newStop currentStop

/-- A stop that is tighter is sent, and accepted. -/
def tighten (newStop : N) : StopState N × List N :=
  if p.isTighter ops newStop p.currentStop then ({ p with currentStop := newStop }, [newStop])
  else (p, [])

/-- Breakeven at 1R, once: the state and the stops sent. -/
def breakeven (price : N) : StopState N × List N :=
  if !p.atBreakeven && ops.le (ops.sub c.breakevenR ops.rEps) (p.rMultiple ops price) then
    let moved := p.tighten ops (p.breakevenStop ops c)
    ({ moved.1 with atBreakeven := true }, moved.2)
  else (p, [])

/-- Trailing beyond breakeven. -/
def trail (price : N) : StopState N × List N :=
  if p.atBreakeven && ops.lt ops.zero c.trailDistance then p.tighten ops (p.trailingStop ops c price)
  else (p, [])

/-- `on_tick` of an open trade without a time limit. -/
def tick (price : N) : StopState N × List N :=
  let moved := p.breakeven ops c price
  let trailed := moved.1.trail ops c price
  (trailed.1, moved.2 ++ trailed.2)

/-- The ticks one after the other. -/
def ticks : StopState N → List N → StopState N × List N
  | p, [] => (p, [])
  | p, price :: rest =>
      let ticked := p.tick ops c price
      let later := ticks ticked.1 rest
      (later.1, ticked.2 ++ later.2)

/-- The state of a trade rebuilt from the broker's record: the stop of the record is the initial
one, and breakeven has not been reached. -/
def rebuilt (stop : N) : StopState N :=
  { p with initialStopPrice := stop, currentStop := stop, atBreakeven := false }

end Rules

end StopState

/-! ### The rules over the floats are the manager's -/

/-- What the rules read of a managed trade. -/
def ManagedTrade.stopState (t : ManagedTrade) : StopState Binary64 where
  isBuy := upper t.side = "BUY"
  instrument := t.instrument
  entryPrice := t.entryPrice
  initialStopPrice := t.initialStopPrice
  currentStop := t.currentStop
  atBreakeven := t.atBreakeven

def PositionManager.ruleSettings (m : PositionManager) : RuleSettings Binary64 :=
  ⟨m.breakevenR, m.breakevenBufferPips, m.trailDistance⟩

namespace PositionManager

variable {m : PositionManager} {t : ManagedTrade}

theorem direction_stopState : t.stopState.direction = t.direction := by
  simp [StopState.direction, ManagedTrade.stopState, ManagedTrade.direction]

theorem isTighter_stopState (newStop currentStop : Binary64) :
    t.stopState.isTighter floatOps newStop currentStop = t.isTighter newStop currentStop := by
  by_cases hbuy : upper t.side = "BUY"
  · simp [StopState.isTighter, ManagedTrade.isTighter, ManagedTrade.stopState,
      ManagedTrade.direction, hbuy, floatOps]
  · simp [StopState.isTighter, ManagedTrade.isTighter, ManagedTrade.stopState,
      ManagedTrade.direction, hbuy, floatOps]

theorem rMultiple_stopState (price : Binary64) :
    t.stopState.rMultiple floatOps price = t.rMultiple price := by
  unfold StopState.rMultiple StopState.favorableMove
  rw [direction_stopState]
  rfl

theorem breakevenStop_stopState :
    t.stopState.breakevenStop floatOps m.ruleSettings =
      t.breakevenStop m.breakevenBufferPips (pipSize t.instrument) := by
  unfold StopState.breakevenStop
  rw [direction_stopState]
  rfl

theorem trailingStop_stopState (price : Binary64) :
    t.stopState.trailingStop floatOps m.ruleSettings price =
      t.trailingStop price m.trailDistance := by
  unfold StopState.trailingStop
  rw [direction_stopState]
  rfl

/-- A rule of the manager did what the rule over the floats says: the state of the trade and
the stops that were accepted. -/
structure AsRules (u : ManagedTrade) (s : TickState) (step : StopState Binary64 × List Binary64)
    (s' : TickState) : Prop where
  state : s'.trade.stopState = step.1
  sent : acceptedStops s'.log = acceptedStops s.log ++ step.2
  frame : ∃ stop flag, s'.trade = { u with currentStop := stop, atBreakeven := flag }

variable {tick : Tick} {now : Moment} {s : TickState}

/-- A call of another kind accepts no stop. -/
theorem acceptedStops_other (op : ManagerCall) (hop : NoStop op) :
    acceptedStops (willingStep tick now op s).2.log = acceptedStops s.log := by
  rw [willingStep, acceptedStops_concat]
  cases op with
  | modifyStop id newStop instrument => exact hop.elim
  | _ => exact List.append_nil _

theorem wp_tighten_rules (newStop : Binary64) (name : String) :
    wp (World.det (willingStep tick now)) (tighten s.trade newStop name) (fun r s' =>
      (∃ actions, r = .ok (s'.trade, actions)) ∧
        AsRules s.trade s (s.trade.stopState.tighten floatOps newStop) s') s := by
  have hrule : s.trade.stopState.isTighter floatOps newStop s.trade.stopState.currentStop =
      s.trade.isTighter newStop s.trade.currentStop := isTighter_stopState _ _
  unfold tighten StopState.tighten
  rw [hrule]
  by_cases htighter : s.trade.isTighter newStop s.trade.currentStop = true
  · rw [if_pos htighter, if_pos htighter]
    simp only [setStop, Proc.bind_eq, Proc.pure_eq, Proc.bind_assoc]
    apply wpc_seq (wpc_of_perform trivial fun r s' hs' => ⟨trivial, hs'⟩)
    · rintro resp _ - ⟨-, rfl⟩
      apply wpc_seq (wpc_of_perform trivial fun r s' hs' => ⟨trivial, hs'⟩)
      · rintro _ _ - ⟨-, rfl⟩
        refine ⟨trivial, ⟨[name], rfl⟩, rfl, ?_, newStop, s.trade.atBreakeven, rfl⟩
        rw [acceptedStops_other (.putTrade _) trivial, willingStep, acceptedStops_concat]
        rfl
      · rintro e _ - ⟨hr, -⟩
        cases hr
    · rintro e _ - ⟨hr, -⟩
      cases hr
  · rw [if_neg htighter, if_neg htighter]
    exact ⟨trivial, ⟨[], rfl⟩, rfl, (List.append_nil _).symm, s.trade.currentStop,
      s.trade.atBreakeven, rfl⟩

theorem wp_breakeven_rules :
    wp (World.det (willingStep tick now)) (tick.manager.breakeven s.trade tick.price) (fun r s' =>
      (∃ actions, r = .ok (s'.trade, actions)) ∧ AsRules s.trade s
        (s.trade.stopState.breakeven floatOps tick.manager.ruleSettings tick.price) s') s := by
  unfold breakeven StopState.breakeven
  rw [rMultiple_stopState, breakevenStop_stopState]
  by_cases hdue : (!s.trade.atBreakeven &&
      (tick.manager.breakevenR.sub rEps).le (s.trade.rMultiple tick.price)) = true
  · have hrule : (!s.trade.stopState.atBreakeven && floatOps.le
        (floatOps.sub tick.manager.ruleSettings.breakevenR floatOps.rEps)
        (s.trade.rMultiple tick.price)) = true := hdue
    rw [if_pos hdue, if_pos hrule]
    apply wpc_seq (wp_tighten_rules _ "breakeven")
    · rintro ⟨u, actions⟩ s₁ - ⟨⟨actions', hu⟩, has⟩
      cases hu
      obtain ⟨stop, flag, hframe⟩ := has.frame
      apply wpc_seq (wpc_of_perform trivial fun r s' hs' => ⟨trivial, hs'⟩)
      · rintro _ _ - ⟨-, rfl⟩
        refine ⟨trivial, ⟨actions, rfl⟩, ?_, ?_, stop, true, ?_⟩
        · exact congrArg (fun q : StopState Binary64 => { q with atBreakeven := true }) has.state
        · rw [acceptedStops_other (.putTrade _) trivial, has.sent]
        · change { s₁.trade with atBreakeven := true } = _
          rw [hframe]
      · rintro e _ - ⟨hr, -⟩
        cases hr
    · rintro e s₁ - ⟨⟨actions, hr⟩, -⟩
      cases hr
  · have hrule : ¬ (!s.trade.stopState.atBreakeven && floatOps.le
        (floatOps.sub tick.manager.ruleSettings.breakevenR floatOps.rEps)
        (s.trade.rMultiple tick.price)) = true := hdue
    rw [if_neg hdue, if_neg hrule]
    exact ⟨trivial, ⟨[], rfl⟩, rfl, (List.append_nil _).symm, s.trade.currentStop,
      s.trade.atBreakeven, rfl⟩

theorem wp_trail_rules (hopen : s.trade.closed = false) :
    wp (World.det (willingStep tick now)) (tick.manager.trail s.trade tick.price) (fun r s' =>
      (∃ actions, r = .ok (s'.trade, actions)) ∧ AsRules s.trade s
        (s.trade.stopState.trail floatOps tick.manager.ruleSettings tick.price) s') s := by
  unfold trail StopState.trail
  rw [trailingStop_stopState, hopen, Bool.not_false, Bool.and_true]
  by_cases hdue : (s.trade.atBreakeven && Binary64.zero.lt tick.manager.trailDistance) = true
  · have hrule : (s.trade.stopState.atBreakeven &&
        floatOps.lt floatOps.zero tick.manager.ruleSettings.trailDistance) = true := hdue
    rw [if_pos hdue, if_pos hrule]
    exact wp_tighten_rules _ "trail"
  · have hrule : ¬ (s.trade.stopState.atBreakeven &&
        floatOps.lt floatOps.zero tick.manager.ruleSettings.trailDistance) = true := hdue
    rw [if_neg hdue, if_neg hrule]
    exact ⟨trivial, ⟨[], rfl⟩, rfl, (List.append_nil _).symm, s.trade.currentStop,
      s.trade.atBreakeven, rfl⟩

/-- A trade without a time limit has no time action. -/
theorem timeAction?_zero (m : PositionManager) (u : ManagedTrade) :
    m.timeAction? u .zero = none := by
  have hthree : (Binary64.ofRat (3 / 4)).le .zero = false := by decide +kernel
  have htwo : (Binary64.ofRat 2⁻¹).le .zero = false := by decide +kernel
  simp [timeAction?, hthree, htwo]

theorem manageStop_zero (m : PositionManager) (u : ManagedTrade) (price : Binary64) :
    m.manageStop u .zero price = (m.breakeven u price).bind fun moved =>
      (m.trail moved.1 price).bind fun trailed => .ret (moved.2 ++ trailed.2) := by
  unfold manageStop timeActions
  rw [timeAction?_zero]
  rfl

/-- A tick of an open trade without a time limit, with a broker that accepts, is the rules over
the floats. -/
theorem wp_onTick_rules (hon : tick.manager.enabled = true) (hopen : s.trade.closed = false)
    (hlimit : s.trade.maxDurationSec.le .zero = true) :
    wp (World.det (willingStep tick now)) (tick.manager.onTick s.trade tick.price) (fun r s' =>
      (∃ actions, r = .ok actions) ∧ AsRules s.trade s
        (s.trade.stopState.tick floatOps tick.manager.ruleSettings tick.price) s') s := by
  have hfrac : s.trade.timeFraction now = .zero := if_pos hlimit
  have hone : (Binary64.ofRat 1).le .zero = false := by decide +kernel
  unfold onTick
  rw [if_neg (by simp [hon, hopen])]
  apply wpc_seq (wpc_of_perform trivial fun r s' hs' => ⟨trivial, hs'⟩)
  · rintro now' s₁ - ⟨hnow, rfl⟩
    obtain rfl := Except.ok.inj hnow
    dsimp only
    rw [hfrac, hone, Bool.false_and, if_neg Bool.false_ne_true]
    rw [manageStop_zero]
    apply wpc_seq (wp_breakeven_rules (s := (willingStep tick now' .clock s).2))
    · rintro ⟨u, moved⟩ s₂ - ⟨⟨actions, hu⟩, has⟩
      cases hu
      obtain ⟨stop, flag, hframe⟩ := has.frame
      apply wpc_seq (wp_trail_rules (by rw [hframe]; exact hopen))
      · rintro ⟨u', trailed⟩ s₃ - ⟨⟨actions', hu'⟩, has'⟩
        cases hu'
        obtain ⟨stop', flag', hframe'⟩ := has'.frame
        refine ⟨trivial, ⟨_, rfl⟩, ?_, ?_, stop', flag', ?_⟩
        · rw [has'.state, has.state]
          rfl
        · rw [has'.sent, has.state, has.sent, acceptedStops_other .clock trivial, List.append_assoc]
          rfl
        · rw [hframe', hframe]
          rfl
      · rintro e s₃ - ⟨⟨actions', hr⟩, -⟩
        cases hr
    · rintro e s₂ - ⟨⟨actions, hr⟩, -⟩
      cases hr
  · rintro e _ - ⟨hr, -⟩
    cases hr

/-- Ticks of a trade at some prices, with a broker that accepts. -/
def willingTicks (m : PositionManager) (now : Moment) : List Binary64 → TickState → TickState
  | [], s => s
  | price :: rest, s =>
      willingTicks m now rest ((m.onTick s.trade price).run (willingStep ⟨m, price⟩ now) s).2

/-- The ticks of an open trade without a time limit are the rules over the floats. -/
theorem willingTicks_rules {m : PositionManager} (hon : m.enabled = true) (prices : List Binary64)
    (hopen : s.trade.closed = false) (hlimit : s.trade.maxDurationSec.le .zero = true) :
    let s' := willingTicks m now prices s
    let rules := s.trade.stopState.ticks floatOps m.ruleSettings prices
    s'.trade.stopState = rules.1 ∧ acceptedStops s'.log = acceptedStops s.log ++ rules.2 := by
  induction prices generalizing s with
  | nil => exact ⟨rfl, (List.append_nil _).symm⟩
  | cons price rest ih =>
      have htick : wp (World.det (willingStep ⟨m, price⟩ now)) (m.onTick s.trade price) _ s :=
        wp_onTick_rules hon hopen hlimit
      obtain ⟨-, has⟩ := run_of_wp htick
      obtain ⟨stop, flag, hframe⟩ := has.frame
      obtain ⟨hstate, hsent⟩ := ih (s := ((m.onTick s.trade price).run
        (willingStep ⟨m, price⟩ now) s).2) (by rw [hframe]; exact hopen) (by rw [hframe]; exact hlimit)
      rw [has.state] at hstate hsent
      refine ⟨hstate, ?_⟩
      rw [willingTicks, hsent, has.sent, List.append_assoc]
      rfl

end PositionManager

end System2
