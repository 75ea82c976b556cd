import Mathlib.Tactic.LinearCombination
import Mathlib.Tactic.Linarith
import System2.Broker.StopRules

/-!
# A restart between two ticks

After a restart the trade is rebuilt from the broker's record: its stop at that time is the
initial one, and breakeven counts as not reached (`StartupReconcile.yields_stopState`). Over
exact prices the remaining ticks send the same stops. Once the stop is at the entry and its
buffer or beyond, the breakeven stop is not tighter any more, and a price that trails is more
than one rebuilt R away.
-/

namespace System2
open Foundation

namespace StopState

/-- The settings as they are wired: breakeven at 1R, a positive buffer, a trail or none. -/
structure WiredSettings (c : RuleSettings ℚ) : Prop where
  breakevenR : c.breakevenR = 1
  buffer : 0 < c.breakevenBufferPips
  trail : 0 ≤ c.trailDistance

/-- A price in the direction of the trade. -/
def along (p : StopState ℚ) (x : ℚ) : ℚ := p.direction * x

/-- The buffer in price units. -/
def buffer (c : RuleSettings ℚ) (p : StopState ℚ) : ℚ :=
  c.breakevenBufferPips * exactOps.pipSize p.instrument

/-- How far the stop of a trade is beyond its entry. -/
def locked (p : StopState ℚ) : ℚ := p.along p.currentStop - p.along p.entryPrice

variable {c : RuleSettings ℚ} {p q : StopState ℚ}

theorem direction_mul_self (p : StopState ℚ) : (p.direction : ℚ) * p.direction = 1 := by
  unfold direction
  split_ifs <;> norm_num

theorem buffer_pos (hc : WiredSettings c) (p : StopState ℚ) : 0 < buffer c p := by
  have hpip : 0 < exactOps.pipSize p.instrument := by
    simp only [exactOps]
    split_ifs <;> norm_num
  exact mul_pos hc.buffer hpip

theorem isTighter_iff (p : StopState ℚ) (newStop currentStop : ℚ) :
    p.isTighter exactOps newStop currentStop = true ↔ p.along currentStop < p.along newStop := by
  unfold isTighter along direction
  split_ifs with hbuy
  · simp [exactOps]
  · simp [exactOps]

theorem along_breakevenStop (c : RuleSettings ℚ) (p : StopState ℚ) :
    p.along (p.breakevenStop exactOps c) = p.along p.entryPrice + buffer c p := by
  have hsq := direction_mul_self p
  have hstop : p.breakevenStop exactOps c =
      p.entryPrice + p.direction * c.breakevenBufferPips * exactOps.pipSize p.instrument := rfl
  rw [hstop, along, along, buffer]
  linear_combination (c.breakevenBufferPips * exactOps.pipSize p.instrument) * hsq

theorem along_trailingStop (c : RuleSettings ℚ) (p : StopState ℚ) (price : ℚ) :
    p.along (p.trailingStop exactOps c price) = p.along price - c.trailDistance := by
  have hsq := direction_mul_self p
  have hstop : p.trailingStop exactOps c price = price - p.direction * c.trailDistance := rfl
  rw [hstop, along, along]
  linear_combination (-c.trailDistance) * hsq

/-! ### What a tick does -/

/-- The stop is on the loss side of the entry at the start. -/
def LossSide (p : StopState ℚ) : Prop :=
  if p.isBuy then p.initialStopPrice < p.entryPrice else p.entryPrice < p.initialStopPrice

theorem along_of_lossSide (h : p.LossSide) :
    p.along p.initialStopPrice < p.along p.entryPrice := by
  unfold LossSide at h
  unfold along direction
  split_ifs at h ⊢ with hbuy
  · simpa using h
  · simpa using h

/-- The trade as it was opened, or with a stop at entry and buffer or beyond. -/
inductive Managed (c : RuleSettings ℚ) (p : StopState ℚ) : Prop
  | opened (stop : p.currentStop = p.initialStopPrice) (loss : p.LossSide)
      (pending : p.atBreakeven = false)
  | secured (reached : p.atBreakeven = true) (beyond : buffer c p ≤ p.locked)

/-- The trailing rule as a comparison of prices along the direction. -/
theorem trail_eq (c : RuleSettings ℚ) (hreached : p.atBreakeven = true) (price : ℚ) :
    p.trail exactOps c price =
      if 0 < c.trailDistance ∧ p.along p.currentStop < p.along price - c.trailDistance then
        ({ p with currentStop := p.trailingStop exactOps c price },
          [p.trailingStop exactOps c price])
      else (p, []) := by
  have htrail : exactOps.lt exactOps.zero c.trailDistance = decide (0 < c.trailDistance) := rfl
  have htighter := isTighter_iff p (p.trailingStop exactOps c price) p.currentStop
  rw [along_trailingStop] at htighter
  unfold trail tighten
  rw [hreached, Bool.true_and, htrail]
  by_cases hdistance : 0 < c.trailDistance
  · by_cases hbehind : p.along p.currentStop < p.along price - c.trailDistance
    · rw [if_pos (decide_eq_true hdistance), if_pos (htighter.mpr hbehind),
        if_pos ⟨hdistance, hbehind⟩]
    · rw [if_pos (decide_eq_true hdistance), if_neg (mt htighter.mp hbehind),
        if_neg fun h => hbehind h.2]
  · rw [if_neg (by simpa using hdistance), if_neg fun h => hdistance h.1]

/-- Trailing never gives up what is locked in. -/
theorem locked_trail (hreached : p.atBreakeven = true) (price : ℚ) :
    p.locked ≤ (p.trail exactOps c price).1.locked := by
  rw [trail_eq c hreached]
  split_ifs with hmoves
  · have hstop := along_trailingStop c p price
    change p.locked ≤ p.along (p.trailingStop exactOps c price) - p.along p.entryPrice
    rw [hstop, locked]
    linarith [hmoves.2]
  · exact le_rfl

/-- The trailing rule writes the stop only. -/
theorem trail_frame (c : RuleSettings ℚ) (p : StopState ℚ) (price : ℚ) :
    ∃ stop, (p.trail exactOps c price).1 = { p with currentStop := stop } := by
  unfold trail tighten
  split_ifs
  · exact ⟨_, rfl⟩
  · exact ⟨p.currentStop, rfl⟩
  · exact ⟨p.currentStop, rfl⟩

theorem secured_trail (hreached : p.atBreakeven = true) (hbeyond : buffer c p ≤ p.locked)
    (price : ℚ) : (p.trail exactOps c price).1.atBreakeven = true ∧
      buffer c (p.trail exactOps c price).1 ≤ (p.trail exactOps c price).1.locked := by
  have hlocked := hbeyond.trans (locked_trail (c := c) hreached price)
  obtain ⟨stop, hframe⟩ := trail_frame c p price
  rw [hframe] at hlocked ⊢
  exact ⟨hreached, hlocked⟩

/-- Once breakeven is reached only the trailing rule is left. -/
theorem tick_secured (hreached : p.atBreakeven = true) (price : ℚ) :
    p.tick exactOps c price = p.trail exactOps c price := by
  have hbreakeven : p.breakeven exactOps c price = (p, []) := by
    unfold breakeven
    rw [hreached, Bool.not_true, Bool.false_and, if_neg Bool.false_ne_true]
  rw [tick, hbreakeven]
  rfl

theorem Managed.tick (hc : WiredSettings c) (h : Managed c p) (price : ℚ) :
    Managed c (p.tick exactOps c price).1 := by
  cases h with
  | secured reached beyond =>
      rw [tick_secured reached]
      obtain ⟨reached', beyond'⟩ := secured_trail reached beyond price
      exact .secured reached' beyond'
  | opened stop loss pending =>
      -- the first stop is sent at breakeven, whatever the price is
      have htighter : p.isTighter exactOps (p.breakevenStop exactOps c) p.currentStop = true := by
        rw [isTighter_iff, along_breakevenStop, stop]
        linarith [along_of_lossSide loss, buffer_pos hc p]
      by_cases hdue : (!p.atBreakeven && exactOps.le (exactOps.sub c.breakevenR exactOps.rEps)
          (p.rMultiple exactOps price)) = true
      · have hbreakeven : p.breakeven exactOps c price =
            ({ p with currentStop := p.breakevenStop exactOps c, atBreakeven := true },
              [p.breakevenStop exactOps c]) := by
          unfold breakeven tighten
          rw [if_pos hdue, if_pos htighter]
        rw [StopState.tick, hbreakeven]
        have hlocked : buffer c p =
            p.along (p.breakevenStop exactOps c) - p.along p.entryPrice := by
          rw [along_breakevenStop]
          ring
        let moved : StopState ℚ :=
          { p with currentStop := p.breakevenStop exactOps c, atBreakeven := true }
        obtain ⟨reached', beyond'⟩ := secured_trail (p := moved) rfl hlocked.le price
        exact .secured reached' beyond'
      · have hbreakeven : p.breakeven exactOps c price = (p, []) := by
          unfold breakeven
          rw [if_neg hdue]
        have htrail : p.trail exactOps c price = (p, []) := by
          unfold trail
          rw [pending, Bool.false_and, if_neg Bool.false_ne_true]
        rw [StopState.tick, hbreakeven]
        change Managed c (p.trail exactOps c price).1
        rw [htrail]
        exact .opened stop loss pending

theorem Managed.ticks (hc : WiredSettings c) (prices : List ℚ) (h : Managed c p) :
    Managed c (p.ticks exactOps c prices).1 := by
  induction prices generalizing p with
  | nil => exact h
  | cons price rest ih => exact ih (h.tick hc price)

theorem getLastD_concat (before after : List ℚ) (first : ℚ) :
    (before ++ after).getLastD first = after.getLastD (before.getLastD first) := by
  simp only [List.getLastD_eq_getLast?, List.getLast?_append]
  cases after.getLast? with
  | none => rfl
  | some last => rfl

/-- The stop is the last one sent, or the one before all of them. -/
theorem currentStop_ticks (c : RuleSettings ℚ) (p : StopState ℚ) (prices : List ℚ) :
    (p.ticks exactOps c prices).1.currentStop =
      (p.ticks exactOps c prices).2.getLastD p.currentStop := by
  have htighten : ∀ (q : StopState ℚ) newStop, (q.tighten exactOps newStop).1.currentStop =
      (q.tighten exactOps newStop).2.getLastD q.currentStop := by
    intro q newStop
    unfold tighten
    split_ifs
    · rfl
    · rfl
  have hbreakeven : ∀ (q : StopState ℚ) price, (q.breakeven exactOps c price).1.currentStop =
      (q.breakeven exactOps c price).2.getLastD q.currentStop := by
    intro q price
    unfold breakeven
    split_ifs
    · exact htighten q _
    · rfl
  have htrail : ∀ (q : StopState ℚ) price, (q.trail exactOps c price).1.currentStop =
      (q.trail exactOps c price).2.getLastD q.currentStop := by
    intro q price
    unfold trail
    split_ifs
    · exact htighten q _
    · rfl
  have htick : ∀ (q : StopState ℚ) price, (q.tick exactOps c price).1.currentStop =
      (q.tick exactOps c price).2.getLastD q.currentStop := by
    intro q price
    rw [tick, getLastD_concat, ← hbreakeven q price]
    exact htrail _ price
  induction prices generalizing p with
  | nil => rfl
  | cons price rest ih =>
      rw [ticks, getLastD_concat, ← htick p price]
      exact ih _

/-! ### The rebuilt trade -/

/-- The rebuilt trade behind the one that went on: the same but for the initial stop, which is
the stop at the restart, and for breakeven, which may still count as open. -/
inductive Rebuilt (c : RuleSettings ℚ) (p q : StopState ℚ) : Prop
  | same (eq : q = p)
  | later (stop : ℚ) (flag : Bool)
      (eq : q = { p with initialStopPrice := stop, atBreakeven := flag })
      (reached : p.atBreakeven = true) (beyond : buffer c p ≤ p.locked)
      (fresh : flag = false → stop = p.currentStop)

/-- The risk of a rebuilt trade is what its stop has locked in. -/
theorem riskDistance_rebuilt (hpos : 0 < p.locked) :
    ({ p with initialStopPrice := p.currentStop, atBreakeven := false } : StopState ℚ).riskDistance
      exactOps = p.locked := by
  have hrisk : p.locked = p.direction * (p.currentStop - p.entryPrice) := by
    rw [locked, along, along]
    ring
  change |p.entryPrice - p.currentStop| = p.locked
  rw [hrisk] at hpos ⊢
  unfold direction at hpos ⊢
  split_ifs at hpos ⊢ with hbuy
  · rw [abs_of_nonpos (by norm_num at hpos; linarith)]
    push_cast
    ring
  · rw [abs_of_nonneg (by norm_num at hpos; linarith)]
    push_cast
    ring

/-- The rebuilt trade counts as at breakeven exactly from a locked-in distance on. -/
theorem breakevenDue_rebuilt (hc : WiredSettings c) (hpos : 0 < p.locked) (price : ℚ) :
    exactOps.le (exactOps.sub c.breakevenR exactOps.rEps)
      (({ p with initialStopPrice := p.currentStop, atBreakeven := false } : StopState ℚ).rMultiple
        exactOps price) = true ↔
      (1 - 1 / 1000000000) * p.locked ≤ p.along price - p.along p.entryPrice := by
  have hmove : (price - p.entryPrice) * p.direction = p.along price - p.along p.entryPrice := by
    rw [along, along]
    ring
  unfold rMultiple
  rw [riskDistance_rebuilt hpos, if_neg (by simpa [exactOps] using hpos), hc.breakevenR]
  change decide (1 - 1 / 1000000000 ≤ (price - p.entryPrice) * p.direction / p.locked) = true ↔ _
  rw [decide_eq_true_iff, le_div_iff₀ hpos, hmove]

/-- Once the rebuilt trade is at breakeven too, both trail alike. -/
theorem Rebuilt.trail (reached : p.atBreakeven = true) (beyond : buffer c p ≤ p.locked)
    (stop price : ℚ) :
    let q : StopState ℚ := { p with initialStopPrice := stop, atBreakeven := true }
    (q.trail exactOps c price).2 = (p.trail exactOps c price).2 ∧
      Rebuilt c (p.trail exactOps c price).1 (q.trail exactOps c price).1 := by
  intro q
  obtain ⟨reached', beyond'⟩ := secured_trail reached beyond price
  have hq := trail_eq (p := q) c rfl price
  have hp := trail_eq c reached price
  by_cases hmoves : 0 < c.trailDistance ∧ p.along p.currentStop < p.along price - c.trailDistance
  · rw [if_pos hmoves] at hp
    have hmoves' : 0 < c.trailDistance ∧
        q.along q.currentStop < q.along price - c.trailDistance := hmoves
    rw [hp] at reached' beyond' ⊢
    rw [hq, if_pos hmoves']
    exact ⟨rfl, .later stop true rfl reached' beyond' fun h => by cases h⟩
  · have hmoves' : ¬ (0 < c.trailDistance ∧
        q.along q.currentStop < q.along price - c.trailDistance) := hmoves
    rw [if_neg hmoves] at hp
    rw [hp, hq, if_neg hmoves']
    exact ⟨rfl, .later stop true rfl reached beyond fun h => by cases h⟩

/-- One tick after the restart: the same stops, and the trades stay related. -/
theorem Rebuilt.tick (hc : WiredSettings c) (h : Rebuilt c p q) (price : ℚ) :
    (q.tick exactOps c price).2 = (p.tick exactOps c price).2 ∧
      Rebuilt c (p.tick exactOps c price).1 (q.tick exactOps c price).1 := by
  cases h with
  | same eq =>
      subst eq
      exact ⟨rfl, .same rfl⟩
  | later stop flag eq reached beyond fresh =>
      rw [tick_secured reached]
      cases flag with
      | true =>
          rw [eq, tick_secured rfl]
          exact Rebuilt.trail reached beyond stop price
      | false =>
          obtain rfl := fresh rfl
          have hpos : 0 < p.locked := (buffer_pos hc p).trans_le beyond
          have hdue := breakevenDue_rebuilt hc hpos price
          by_cases hfar : (1 - 1 / 1000000000) * p.locked ≤ p.along price - p.along p.entryPrice
          · -- breakeven counts as reached now, and its stop is not tighter
            have hbreakeven : q.breakeven exactOps c price =
                ({ p with initialStopPrice := p.currentStop, atBreakeven := true }, []) := by
              have hloose : ¬ q.isTighter exactOps (q.breakevenStop exactOps c) q.currentStop = true := by
                rw [isTighter_iff, along_breakevenStop, eq]
                change ¬ p.along p.currentStop < p.along p.entryPrice + buffer c p
                rw [locked] at beyond
                linarith
              have hreaches : (!q.atBreakeven && exactOps.le (exactOps.sub c.breakevenR exactOps.rEps)
                  (q.rMultiple exactOps price)) = true := by
                rw [eq, Bool.not_false, Bool.true_and]
                exact hdue.mpr hfar
              unfold breakeven tighten
              rw [if_pos hreaches, if_neg hloose, eq]
            have htick : q.tick exactOps c price = ({ p with
                initialStopPrice := p.currentStop
                atBreakeven := true } : StopState ℚ).trail exactOps c price := by
              rw [StopState.tick, hbreakeven]
              rfl
            rw [htick]
            exact Rebuilt.trail reached beyond p.currentStop price
          · -- no price as near as this one trails
            have hstays : p.trail exactOps c price = (p, []) := by
              rw [trail_eq c reached, if_neg]
              rintro ⟨hdistance, hbehind⟩
              rw [locked] at hfar hpos
              linarith
            have htick : q.tick exactOps c price = (q, []) := by
              have hbreakeven : q.breakeven exactOps c price = (q, []) := by
                rw [eq, breakeven, if_neg]
                rw [Bool.not_false, Bool.true_and]
                exact mt hdue.mp hfar
              have htrail : q.trail exactOps c price = (q, []) := by
                rw [eq, StopState.trail, Bool.false_and, if_neg Bool.false_ne_true]
              rw [StopState.tick, hbreakeven]
              change ((q.trail exactOps c price).1, [] ++ (q.trail exactOps c price).2) = (q, [])
              rw [htrail]
              rfl
            rw [hstays, htick]
            exact ⟨rfl, .later p.currentStop false eq reached beyond fun _ => rfl⟩

theorem Rebuilt.ticks (hc : WiredSettings c) (prices : List ℚ) (h : Rebuilt c p q) :
    (q.ticks exactOps c prices).2 = (p.ticks exactOps c prices).2 := by
  induction prices generalizing p q with
  | nil => rfl
  | cons price rest ih =>
      obtain ⟨hsent, hnext⟩ := h.tick hc price
      rw [StopState.ticks, StopState.ticks, hsent, ih hnext]

/-- For every trade with its initial stop on the loss side, the wired settings, and all exact
prices before and after: a trade rebuilt from the broker's record with the last accepted stop
sends on the remaining ticks exactly the stops that the trade itself would have sent. -/
theorem rebuilt_sends_same (hc : WiredSettings c) (hstop : p.currentStop = p.initialStopPrice)
    (hloss : p.LossSide) (hpending : p.atBreakeven = false) (before after : List ℚ) :
    let ticked := p.ticks exactOps c before
    ((ticked.1.rebuilt (ticked.2.getLastD p.initialStopPrice)).ticks exactOps c after).2 =
      (ticked.1.ticks exactOps c after).2 := by
  intro ticked
  have hlast : ticked.2.getLastD p.initialStopPrice = ticked.1.currentStop := by
    rw [← hstop]
    exact (currentStop_ticks c p before).symm
  rw [hlast]
  apply Rebuilt.ticks hc
  cases Managed.ticks hc before (.opened hstop hloss hpending) with
  | opened stop loss pending =>
      refine .same ?_
      change ({ ticked.1 with
        initialStopPrice := ticked.1.currentStop
        atBreakeven := false } : StopState ℚ) = ticked.1
      rw [stop, ← pending]
  | secured reached beyond =>
      exact .later ticked.1.currentStop false rfl reached beyond fun _ => rfl

/-- A pip of buffer and a trail of fifty pips. -/
def wiredTrail : RuleSettings ℚ := ⟨1, 1, 1 / 200⟩

/-- A long trade with a hundred pips of risk. -/
def openedLong : StopState ℚ where
  isBuy := true
  instrument := "EUR_USD"
  entryPrice := 11 / 10
  initialStopPrice := 109 / 100
  currentStop := 109 / 100
  atBreakeven := false

theorem rebuilt_sends_same_long :
    let ticked := openedLong.ticks exactOps wiredTrail [28 / 25]
    ((ticked.1.rebuilt (ticked.2.getLastD (109 / 100))).ticks exactOps wiredTrail
      [28 / 25, 113 / 100]).2 = [9 / 8] := by
  have hwired : WiredSettings wiredTrail := ⟨rfl, by norm_num [wiredTrail], by norm_num [wiredTrail]⟩
  have hloss : openedLong.LossSide := by
    change (109 / 100 : ℚ) < 11 / 10
    norm_num
  exact (rebuilt_sends_same hwired rfl hloss rfl [28 / 25] [28 / 25, 113 / 100]).trans
    (by decide +kernel)

end StopState

end System2
