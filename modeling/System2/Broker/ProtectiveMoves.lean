import System2.Broker.StopRatchet

/-!
# Which stops a tick sends

A tick sends at most two stops, the breakeven stop and the trailing stop. The trailing
stop keeps its distance from the price of the tick. The breakeven stop is the entry with
a buffer in pips, whatever the risk of the trade is, and nothing compares it with the price.
-/

namespace System2
open Foundation

/-- Is a stop strictly on the protective side of a price? -/
def ManagedTrade.protects (t : ManagedTrade) (stop price : Binary64) : Bool :=
  if t.direction = 1 then stop.lt price else price.lt stop

namespace Tick

variable (tick : Tick) (t : ManagedTrade)

/-- Entry and buffer. -/
def breakevenStop : Binary64 :=
  t.breakevenStop tick.manager.breakevenBufferPips (pipSize t.instrument)

def trailingStop : Binary64 := t.trailingStop tick.price tick.manager.trailDistance

/-- Breakeven is reached at the price of the tick, for the first time. -/
def breakevenDue : Bool :=
  !t.atBreakeven && (tick.manager.breakevenR.sub rEps).le (t.rMultiple tick.price)

/-- The breakeven move is due, and it tightens the stop. -/
def movesToBreakeven : Bool :=
  tick.breakevenDue t && t.isTighter (tick.breakevenStop t) t.currentStop

/-- The trade after the breakeven rule, when the broker accepts. -/
def afterBreakeven : ManagedTrade :=
  if tick.breakevenDue t then
    { t with
      currentStop :=
        if t.isTighter (tick.breakevenStop t) t.currentStop then tick.breakevenStop t
        else t.currentStop
      atBreakeven := true }
  else t

/-- The trailing move is due behind the breakeven rule, and it tightens the stop. -/
def trails : Bool :=
  let u := tick.afterBreakeven t
  u.atBreakeven && Binary64.zero.lt tick.manager.trailDistance &&
    u.isTighter (tick.trailingStop t) u.currentStop

/-- The stops that a tick may send for a trade. -/
def Sendable (stop : Binary64) : Prop :=
  (tick.movesToBreakeven t = true ∧ stop = tick.breakevenStop t) ∨
    (tick.trails t = true ∧ stop = tick.trailingStop t)

/-- When the trade moves to breakeven, the price is strictly beyond the entry and its buffer;
when it trails, the distance is not lost in the rounding of the price. -/
structure ClearOfPrice : Prop where
  breakeven : tick.movesToBreakeven t = true → t.protects (tick.breakevenStop t) tick.price = true
  trail : tick.trails t = true → (tick.trailingStop t).eq tick.price = false

/-- Every stop that the tick sends for the trade is strictly on the protective side of its
price, whatever the clock and the broker answer. -/
def SendsProtective : Prop :=
  ∀ out s, Exec (tradeWorld tick) (tick.manager.onTick t tick.price) ⟨t, []⟩ out s →
    ∀ e ∈ s.log, ∀ stop ∈ e.stopSent?, t.protects stop tick.price = true

end Tick

/-! ### The trailing stop and the price -/

theorem ManagedTrade.sign_mul (t : ManagedTrade) (x : Binary64) :
    t.sign.mul x = if t.direction = 1 then x else x.neg := by
  by_cases hbuy : upper t.side = "BUY"
  · simpa [sign, direction, hbuy] using Binary64.one_mul x
  · simpa [sign, direction, hbuy] using Binary64.neg_one_mul x

/-- The trailing stop is behind the price unless it is the price itself. -/
theorem ManagedTrade.trailingStop_protects {t : ManagedTrade} {price distance current : Binary64}
    (hdistance : Binary64.zero.lt distance = true)
    (htighter : t.isTighter (t.trailingStop price distance) current = true) :
    t.protects (t.trailingStop price distance) price =
      !(t.trailingStop price distance).eq price := by
  have hzero : Binary64.zero.le distance = true := by
    cases distance with
    | nan => cases hdistance
    | inf a => cases a <;> first | rfl | cases hdistance
    | fin q hq =>
        have hpos : 0 < q := by simpa [Binary64.zero] using hdistance
        simpa [Binary64.zero] using hpos.le
  have hnan : t.trailingStop price distance ≠ .nan := by
    intro hnan
    rw [hnan] at htighter
    unfold isTighter at htighter
    split_ifs at htighter
    · cases current with
      | nan => cases htighter
      | inf a => cases a <;> cases htighter
      | fin q hq => cases htighter
    · cases htighter
  unfold protects trailingStop at *
  rw [sign_mul] at *
  split_ifs at * with hbuy
  · exact Binary64.lt_eq_not_eq ((Binary64.sub_nan_or_le hzero).resolve_left hnan)
  · rw [Binary64.eq_comm]
    exact Binary64.lt_eq_not_eq ((Binary64.sub_neg_nan_or_le hzero).resolve_left hnan)

namespace PositionManager

variable {tick : Tick} {t : ManagedTrade} {s : TickState}

/-! ### No other stop is sent -/

section Sent

variable {P : Binary64 → Prop}

/-- Every stop sent so far is of a kind. -/
def Sent (P : Binary64 → Prop) (s : TickState) : Prop :=
  ∀ e ∈ s.log, ∀ stop ∈ e.stopSent?, P stop

theorem wp_perform_sent {op : ManagerCall} (h : Sent P s)
    (hop : ∀ r, ∀ stop ∈ (TickEvent.mk tick s.trade ⟨op, r⟩).stopSent?, P stop) :
    wpc (tradeWorld tick) (Sent P) (perform op) (fun _ s' => Sent P s') s := by
  refine wpc_of_perform h ?_
  rintro r _ ⟨-, rfl⟩
  exact ⟨forall_log_concat h (hop r), forall_log_concat h (hop r)⟩

theorem wp_put_sent {u : ManagedTrade} (h : Sent P s) :
    wpc (tradeWorld tick) (Sent P) (perform (.putTrade u)) (fun _ s' => Sent P s') s :=
  wp_perform_sent h fun r stop hstop => by cases hstop

/-- What a rule leaves: stops of the kind, and the trade it says. -/
def SentLeaving (P : Binary64 → Prop) (u : ManagedTrade)
    (r : Except Exc (ManagedTrade × List String)) (s' : TickState) : Prop :=
  Sent P s' ∧ ∀ u' actions, r = .ok (u', actions) → u' = u

theorem wp_tighten_sent (u : ManagedTrade) {newStop : Binary64} (name : String) (h : Sent P s)
    (hP : u.isTighter newStop u.currentStop = true → P newStop) :
    wpc (tradeWorld tick) (Sent P) (tighten u newStop name)
      (SentLeaving P { u with
        currentStop := if u.isTighter newStop u.currentStop then newStop else u.currentStop }) s := by
  unfold tighten
  split_ifs with htighter
  · simp only [setStop, Proc.bind_eq, Proc.pure_eq, Proc.bind_assoc]
    apply wpc_seq (wp_perform_sent h ?_)
    · intro resp s₁ _ hs₁
      apply wpc_seq (wp_put_sent hs₁)
      · intro _ s₂ _ hs₂
        refine ⟨hs₂, hs₂, ?_⟩
        rintro u' actions ⟨⟩
        rfl
      · exact fun e s₂ _ hs₂ => ⟨hs₂, fun u' actions hr => by cases hr⟩
    · exact fun e s₁ _ hs₁ => ⟨hs₁, fun u' actions hr => by cases hr⟩
    · intro r stop hstop
      rw [← Option.some.inj hstop]
      exact hP htighter
  · refine ⟨h, h, ?_⟩
    rintro u' actions ⟨⟩
    rfl

theorem wp_breakeven_sent (u : ManagedTrade) (h : Sent P s)
    (hP : tick.movesToBreakeven u = true → P (tick.breakevenStop u)) :
    wpc (tradeWorld tick) (Sent P) (tick.manager.breakeven u tick.price)
      (SentLeaving P (tick.afterBreakeven u)) s := by
  unfold breakeven Tick.afterBreakeven
  by_cases hdue : tick.breakevenDue u = true
  · have hdue' := hdue
    unfold Tick.breakevenDue at hdue'
    rw [if_pos hdue', if_pos hdue]
    apply wpc_seq (wp_tighten_sent u "breakeven" h fun htighter => ?_)
    · rintro ⟨u₁, actions⟩ s₁ - ⟨hs₁, hu₁⟩
      obtain rfl := hu₁ _ _ rfl
      apply wpc_seq (wp_put_sent hs₁)
      · intro _ s₂ _ hs₂
        refine ⟨hs₂, hs₂, ?_⟩
        rintro u' actions ⟨⟩
        rfl
      · exact fun e s₂ _ hs₂ => ⟨hs₂, fun u' actions hr => by cases hr⟩
    · exact fun e s₁ _ hs₁ => ⟨hs₁.1, fun u' actions hr => by cases hr⟩
    · exact hP (Bool.and_eq_true_iff.mpr ⟨hdue, htighter⟩)
  · have hdue' := hdue
    unfold Tick.breakevenDue at hdue'
    rw [if_neg hdue', if_neg hdue]
    refine ⟨h, h, ?_⟩
    rintro u' actions ⟨⟩
    rfl

theorem wp_trail_sent (u : ManagedTrade) (h : Sent P s)
    (hP : u.atBreakeven = true → Binary64.zero.lt tick.manager.trailDistance = true →
      u.isTighter (tick.trailingStop u) u.currentStop = true → P (tick.trailingStop u)) :
    wpc (tradeWorld tick) (Sent P) (tick.manager.trail u tick.price) (fun _ s' => Sent P s') s := by
  unfold trail
  split_ifs with hdue
  · simp only [Bool.and_eq_true] at hdue
    refine wpc_post (wp_tighten_sent u "trail" h fun htighter => ?_) fun r s' _ hs' => hs'.1
    exact hP hdue.1.1 hdue.1.2 htighter
  · exact ⟨h, h⟩

/-- The time actions change their own tags only. -/
def withActions (u : ManagedTrade) (done : List String) : ManagedTrade :=
  { u with timeActionsDone := done }

theorem trails_withActions (u : ManagedTrade) (done : List String) :
    tick.trails (withActions u done) = tick.trails u := by
  have hdue : tick.breakevenDue (withActions u done) = tick.breakevenDue u := rfl
  unfold Tick.trails Tick.afterBreakeven
  rw [hdue]
  by_cases h : tick.breakevenDue u = true
  · rw [if_pos h, if_pos h]
    rfl
  · rw [if_neg h, if_neg h]
    rfl

theorem trailingStop_afterBreakeven (u : ManagedTrade) :
    tick.trailingStop (tick.afterBreakeven u) = tick.trailingStop u := by
  unfold Tick.afterBreakeven
  by_cases h : tick.breakevenDue u = true
  · rw [if_pos h]
    rfl
  · rw [if_neg h]

theorem wp_timeActions_sent (u : ManagedTrade) (frac : Binary64) (h : Sent P s) :
    wpc (tradeWorld tick) (Sent P) (tick.manager.timeActions u frac) (fun r s' =>
      Sent P s' ∧ ∀ u' actions, r = .ok (u', actions) → ∃ done, u' = withActions u done) s := by
  unfold timeActions
  split
  · refine ⟨h, h, ?_⟩
    rintro u' actions ⟨⟩
    exact ⟨u.timeActionsDone, rfl⟩
  · rename_i tag name _
    apply wpc_seq (wp_put_sent h)
    · intro _ s₁ _ hs₁
      refine ⟨hs₁, hs₁, ?_⟩
      rintro u' actions ⟨⟩
      exact ⟨u.timeActionsDone ++ [tag], rfl⟩
    · exact fun e s₁ _ hs₁ => ⟨hs₁, fun u' actions hr => by cases hr⟩

theorem wp_manageStop_sent (u : ManagedTrade) (frac : Binary64) (h : Sent (tick.Sendable u) s) :
    wpc (tradeWorld tick) (Sent (tick.Sendable u)) (tick.manager.manageStop u frac tick.price)
      (fun _ s' => Sent (tick.Sendable u) s') s := by
  unfold manageStop
  apply wpc_seq (wp_timeActions_sent u frac h)
  · rintro ⟨u₁, timed⟩ s₁ - ⟨hs₁, hu₁⟩
    obtain ⟨done, rfl⟩ := hu₁ _ _ rfl
    apply wpc_seq (wp_breakeven_sent (withActions u done) hs₁ fun hmoves => Or.inl ⟨hmoves, rfl⟩)
    · rintro ⟨u₂, moved⟩ s₂ - ⟨hs₂, hu₂⟩
      obtain rfl := hu₂ _ _ rfl
      apply wpc_seq (wp_trail_sent (tick.afterBreakeven (withActions u done)) hs₂
        fun hthere hdistance htighter => Or.inr ⟨?_, ?_⟩)
      · exact fun trailed s₃ _ hs₃ => ⟨hs₃, hs₃⟩
      · exact fun e s₃ _ hs₃ => hs₃
      · rw [← trails_withActions u done]
        rw [trailingStop_afterBreakeven] at htighter
        simp only [Tick.trails, hthere, hdistance, htighter, Bool.and_self]
      · exact trailingStop_afterBreakeven _
    · exact fun e s₂ _ hs₂ => hs₂.1
  · exact fun e s₁ _ hs₁ => hs₁.1

/-- A call that does not ask for a stop. -/
def NoStop : ManagerCall → Prop
  | .modifyStop _ _ _ => False
  | _ => True

theorem only_timeExit (m : PositionManager) (u : ManagedTrade) : (m.timeExit u).Only NoStop := by
  refine Proc.Along.bind (Proc.along_perform_bind trivial fun resp _ =>
    Proc.along_perform_bind trivial fun _ _ => ?_) fun v => ?_
  · exact Proc.Along.bind (Proc.along_given (Proc.along_perform trivial)) fun _ => trivial
  · exact Proc.along_perform_bind trivial fun _ _ => trivial

theorem wp_noStop_sent {α : Type} {p : Proc ManagerI Exc α} (hp : p.Only NoStop) (h : Sent P s) :
    wpc (tradeWorld tick) (Sent P) p (fun _ s' => Sent P s') s := by
  refine wpc_of_only ?_ hp h
  rintro op s₁ r _ hop hs₁ ⟨-, rfl⟩
  refine forall_log_concat hs₁ fun stop hstop => ?_
  cases op with
  | modifyStop id newStop instrument => exact hop.elim
  | _ => cases hstop

/-- Whatever happens in a tick, it sends no stop but the sendable ones. -/
theorem wp_onTick_sent (u : ManagedTrade) (h : Sent (tick.Sendable u) s) :
    wpc (tradeWorld tick) (Sent (tick.Sendable u)) (tick.manager.onTick u tick.price)
      (fun _ s' => Sent (tick.Sendable u) s') s := by
  unfold onTick
  split_ifs
  · exact ⟨h, h⟩
  · apply wpc_seq (wp_perform_sent h fun r stop hstop => by cases hstop)
    · intro now s₁ _ hs₁
      dsimp only
      split_ifs
      · exact wp_noStop_sent (only_timeExit _ u) hs₁
      · exact wp_manageStop_sent u _ hs₁
    · exact fun e s₁ _ hs₁ => hs₁

end Sent

/-! ### Both are sent -/

section Sending

variable {now : Moment}

/-- A stop was sent. -/
def WasSent (stop : Binary64) (s : TickState) : Prop := ∃ e ∈ s.log, e.stopSent? = some stop

/-- A rule comes to its end with a trade, and what was sent before it was sent. -/
def Arrives (u : ManagedTrade) (s : TickState) (r : Except Exc (ManagedTrade × List String))
    (s' : TickState) : Prop :=
  (∃ actions, r = .ok (u, actions)) ∧ ∀ stop, WasSent stop s → WasSent stop s'

theorem wasSent_willing {stop : Binary64} (h : WasSent stop s) (op : ManagerCall) :
    WasSent stop (willingStep tick now op s).2 := by
  obtain ⟨e, he, hsent⟩ := h
  exact ⟨e, List.mem_append_left _ he, hsent⟩

theorem wp_tighten_willing (u : ManagedTrade) (newStop : Binary64) (name : String) :
    wp (World.det (willingStep tick now)) (tighten u newStop name) (fun r s' =>
      Arrives { u with
        currentStop := if u.isTighter newStop u.currentStop then newStop else u.currentStop } s r s' ∧
      (u.isTighter newStop u.currentStop = true → WasSent newStop s')) s := by
  unfold tighten
  split_ifs with htighter
  · simp only [setStop, Proc.bind_eq, Proc.pure_eq, Proc.bind_assoc]
    apply wpc_seq (wpc_of_perform trivial fun r s' hs' => ⟨trivial, hs'⟩)
    · rintro resp _ - ⟨-, rfl⟩
      apply wpc_seq (wpc_of_perform trivial fun r s' hs' => ⟨trivial, hs'⟩)
      · rintro _ _ - ⟨-, rfl⟩
        refine ⟨trivial, ⟨⟨[name], rfl⟩, fun stop hstop => ?_⟩, fun _ => ?_⟩
        · exact wasSent_willing (wasSent_willing hstop _) _
        · exact wasSent_willing ⟨_, List.mem_append_right _ (List.mem_singleton_self _), rfl⟩ _
      · rintro e _ - ⟨hr, -⟩
        cases hr
    · rintro e _ - ⟨hr, -⟩
      cases hr
  · exact ⟨trivial, ⟨⟨[], rfl⟩, fun stop hstop => hstop⟩, fun h => absurd h htighter⟩

theorem wp_breakeven_willing (u : ManagedTrade) :
    wp (World.det (willingStep tick now)) (tick.manager.breakeven u tick.price) (fun r s' =>
      Arrives (tick.afterBreakeven u) s r s' ∧
      (tick.movesToBreakeven u = true → WasSent (tick.breakevenStop u) s')) s := by
  unfold breakeven Tick.afterBreakeven Tick.movesToBreakeven
  by_cases hdue : tick.breakevenDue u = true
  · have hdue' := hdue
    unfold Tick.breakevenDue at hdue'
    rw [if_pos hdue', if_pos hdue, hdue, Bool.true_and]
    apply wpc_seq (wp_tighten_willing u (tick.breakevenStop u) "breakeven")
    · rintro ⟨u₁, actions⟩ s₁ - ⟨⟨⟨actions', hu₁⟩, hgrows⟩, hsent⟩
      cases hu₁
      apply wpc_seq (wpc_of_perform trivial fun r s' hs' => ⟨trivial, hs'⟩)
      · rintro _ _ - ⟨-, rfl⟩
        refine ⟨trivial, ⟨⟨actions, rfl⟩, fun stop hstop => ?_⟩, fun htighter => ?_⟩
        · exact wasSent_willing (hgrows stop hstop) _
        · exact wasSent_willing (hsent htighter) _
      · rintro e _ - ⟨hr, -⟩
        cases hr
    · rintro e s₁ - ⟨⟨⟨actions, hr⟩, -⟩, -⟩
      cases hr
  · have hdue' := hdue
    unfold Tick.breakevenDue at hdue'
    rw [if_neg hdue', if_neg hdue]
    refine ⟨trivial, ⟨⟨[], rfl⟩, fun stop hstop => hstop⟩, fun hmoves => ?_⟩
    exact absurd (Bool.and_eq_true_iff.mp hmoves).1 hdue

theorem wp_trail_willing {u : ManagedTrade} (hopen : u.closed = false) :
    wp (World.det (willingStep tick now)) (tick.manager.trail u tick.price) (fun r s' =>
      (∃ a, r = .ok a) ∧ (∀ stop, WasSent stop s → WasSent stop s') ∧
      (u.atBreakeven = true → Binary64.zero.lt tick.manager.trailDistance = true →
        u.isTighter (tick.trailingStop u) u.currentStop = true →
          WasSent (tick.trailingStop u) s')) s := by
  unfold trail
  split_ifs with hdue
  · refine wpc_post (wp_tighten_willing u (tick.trailingStop u) "trail") ?_
    rintro r s' - ⟨⟨⟨actions, hr⟩, hgrows⟩, hsent⟩
    exact ⟨⟨_, hr⟩, hgrows, fun _ _ htighter => hsent htighter⟩
  · refine ⟨trivial, ⟨_, rfl⟩, fun stop hstop => hstop, fun hthere hdistance => ?_⟩
    simp [hthere, hdistance, hopen] at hdue

theorem wp_timeActions_willing (u : ManagedTrade) (frac : Binary64) :
    wp (World.det (willingStep tick now)) (tick.manager.timeActions u frac) (fun r _ =>
      ∃ done actions, r = .ok (withActions u done, actions)) s := by
  unfold timeActions
  split
  · exact ⟨trivial, u.timeActionsDone, [], rfl⟩
  · rename_i tag name _
    apply wpc_seq (wpc_of_perform trivial fun r s' hs' => ⟨trivial, hs'⟩)
    · rintro _ _ - ⟨-, rfl⟩
      exact ⟨trivial, u.timeActionsDone ++ [tag], [name], rfl⟩
    · rintro e _ - ⟨hr, -⟩
      cases hr

theorem closed_afterBreakeven (u : ManagedTrade) : (tick.afterBreakeven u).closed = u.closed := by
  unfold Tick.afterBreakeven
  by_cases h : tick.breakevenDue u = true
  · rw [if_pos h]
  · rw [if_neg h]

theorem wp_manageStop_willing {u : ManagedTrade} (hopen : u.closed = false) (frac : Binary64) :
    wp (World.det (willingStep tick now)) (tick.manager.manageStop u frac tick.price)
      (fun _ s' => ∀ stop, tick.Sendable u stop → WasSent stop s') s := by
  unfold manageStop
  apply wpc_seq (wp_timeActions_willing u frac)
  · rintro ⟨u₁, timed⟩ s₁ - ⟨done, actions, hu₁⟩
    cases hu₁
    apply wpc_seq (wp_breakeven_willing (withActions u done))
    · rintro ⟨u₂, moved⟩ s₂ - ⟨⟨⟨actions', hu₂⟩, -⟩, hbreakeven⟩
      cases hu₂
      apply wpc_seq (wp_trail_willing ((closed_afterBreakeven (withActions u done)).trans hopen))
      · rintro trailed s₃ - ⟨-, hgrows, htrail⟩
        refine ⟨trivial, ?_⟩
        rintro stop (⟨hmoves, rfl⟩ | ⟨htrails, rfl⟩)
        · exact hgrows _ (hbreakeven hmoves)
        · rw [← trails_withActions u done] at htrails
          simp only [Tick.trails, Bool.and_eq_true] at htrails
          rw [trailingStop_afterBreakeven] at htrail
          exact htrail htrails.1.1 htrails.1.2 htrails.2
      · rintro e s₃ - ⟨⟨a, hr⟩, -⟩
        cases hr
    · rintro e s₂ - ⟨⟨⟨actions', hr⟩, -⟩, -⟩
      cases hr
  · rintro e s₁ - ⟨done, actions, hr⟩
    cases hr

/-- At the time a trade was opened its time is not over. -/
theorem timeFraction_openTime (u : ManagedTrade) :
    (Binary64.ofRat 1).le (u.timeFraction u.openTime) = false := by
  have hone : (Binary64.ofRat 1).le .zero = false := by decide +kernel
  have hnow : u.openTime.secondsSince u.openTime = .zero := by
    rw [Moment.secondsSince, sub_self]
    decide +kernel
  unfold ManagedTrade.timeFraction
  split_ifs
  · exact hone
  · rw [hnow]
    cases u.maxDurationSec with
    | nan => decide +kernel
    | inf a => exact hone
    | fin q hq =>
        by_cases hq0 : q = 0
        · subst hq0
          have hnone : Binary64.zero.div? (.fin 0 hq) = none := rfl
          rw [hnone]
          decide +kernel
        · rw [Binary64.zero, Binary64.div?_fin _ hq hq0, zero_div]
          decide +kernel

/-- A trade is ticked at the time it was opened, with a broker that accepts: every sendable
stop is sent. -/
theorem wp_onTick_willing {u : ManagedTrade} (hon : tick.manager.enabled = true)
    (hopen : u.closed = false) :
    wp (World.det (willingStep tick u.openTime)) (tick.manager.onTick u tick.price)
      (fun _ s' => ∀ stop, tick.Sendable u stop → WasSent stop s') s := by
  unfold onTick
  rw [if_neg (by simp [hon, hopen])]
  apply wpc_seq (wpc_of_perform trivial fun r s' hs' => ⟨trivial, hs'⟩)
  · rintro now _ - ⟨hnow, rfl⟩
    obtain rfl := Except.ok.inj hnow
    dsimp only
    rw [if_neg (by simp [timeFraction_openTime])]
    exact wp_manageStop_willing hopen _
  · rintro e _ - ⟨hr, -⟩
    cases hr

end Sending

/-! ### Protective stops -/

theorem trails_distance {u : ManagedTrade} (htrails : tick.trails u = true) :
    Binary64.zero.lt tick.manager.trailDistance = true ∧
      ∃ current, u.isTighter (tick.trailingStop u) current = true := by
  simp only [Tick.trails, Bool.and_eq_true] at htrails
  refine ⟨htrails.1.2, (tick.afterBreakeven u).currentStop, ?_⟩
  have hside : (tick.afterBreakeven u).side = u.side := by
    unfold Tick.afterBreakeven
    by_cases h : tick.breakevenDue u = true
    · rw [if_pos h]
    · rw [if_neg h]
  rw [isTighter_congr hside.symm]
  exact htrails.2

/-- For every trade, all settings and every price: the tick sends only stops strictly on the
protective side of its price exactly if the manager is off, the trade is closed, or the price
is clear of the stops: strictly beyond entry and buffer where the trade moves to breakeven, and
large enough a distance to count where it trails. -/
theorem sendsProtective_iff (tick : Tick) (t : ManagedTrade) :
    tick.SendsProtective t ↔
      (tick.manager.enabled = true → t.closed = false → tick.ClearOfPrice t) := by
  have htrail : tick.trails t = true → t.protects (tick.trailingStop t) tick.price =
      !(tick.trailingStop t).eq tick.price := by
    intro htrails
    obtain ⟨hdistance, current, htighter⟩ := trails_distance htrails
    exact ManagedTrade.trailingStop_protects hdistance htighter
  constructor
  · intro h hon hopen
    have exec := exec_run (willingStep_allowed tick t.openTime)
      (tick.manager.onTick t tick.price) ⟨t, []⟩
    have hsent := run_of_wp (wp_onTick_willing (s := ⟨t, []⟩) hon hopen)
    have hprotects : ∀ stop, tick.Sendable t stop → t.protects stop tick.price = true := by
      intro stop hstop
      obtain ⟨e, he, hstop'⟩ := hsent stop hstop
      exact h _ _ exec e he stop hstop'
    refine ⟨fun hmoves => hprotects _ (Or.inl ⟨hmoves, rfl⟩), fun htrails => ?_⟩
    have hprotected := hprotects _ (Or.inr ⟨htrails, rfl⟩)
    rw [htrail htrails] at hprotected
    simpa using hprotected
  · intro h out s exec e he stop hstop
    by_cases hactive : tick.manager.enabled = true ∧ t.closed = false
    · have hclear := h hactive.1 hactive.2
      have hsent := (wpc_sound exec (wp_onTick_sent t (by simp [Sent]))).1
      rcases hsent e he stop hstop with ⟨hmoves, rfl⟩ | ⟨htrails, rfl⟩
      · exact hclear.breakeven hmoves
      · rw [htrail htrails, hclear.trail htrails, Bool.not_false]
    · have hoff : (!tick.manager.enabled || t.closed) = true := by
        simpa [imp_iff_not_or] using hactive
      rw [onTick, if_pos hoff] at exec
      have hlog := (wpc_sound exec (C := fun s => s.log = [])
        (Q := fun _ _ => True) ⟨rfl, trivial⟩).1
      rw [hlog] at he
      cases he

/-- A long trade that was filled half a pip above its stop. -/
def tightTrade : ManagedTrade :=
  { longTrade with
    initialStopPrice := .ofRat (109995 / 100000)
    currentStop := .ofRat (109995 / 100000) }

/-- The wired settings without a trail, at six tenths of a pip of profit. -/
def earlyTick : Tick where
  manager := { trailingTick.manager with trailDistance := .zero }
  price := .ofRat (110006 / 100000)

/-- The trade has made more than its risk, and its stop is sent to one pip of profit, above
the price. -/
theorem earlyTick_not_protective : ¬ earlyTick.SendsProtective tightTrade := by
  intro h
  have exec := exec_run (willingStep_allowed earlyTick tightTrade.openTime)
    (earlyTick.manager.onTick tightTrade earlyTick.price) ⟨tightTrade, []⟩
  have hmoves : earlyTick.movesToBreakeven tightTrade = true := by decide +kernel
  obtain ⟨e, he, hstop⟩ := run_of_wp (wp_onTick_willing (s := ⟨tightTrade, []⟩) rfl rfl) _
    (Or.inl ⟨hmoves, rfl⟩)
  have hprotects := h _ _ exec e he _ hstop
  exact absurd hprotects (by decide +kernel)

end PositionManager

end System2
