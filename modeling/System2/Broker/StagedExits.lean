import System2.Broker.StopRatchet

/-!
# The staged time actions of one trade

At half, at three quarters and at the end of the allowed duration a tick acts on the trade
once. A tick takes the later of the two stages first and stops there, so a clock that skips
the first stage leaves it open for the tick behind.
-/

namespace System2
open Foundation

inductive TimeStage
  | half
  | threeQuarters
  | full
  deriving DecidableEq

namespace TimeStage

def fraction : TimeStage → ℚ
  | .half => 1 / 2
  | .threeQuarters => 3 / 4
  | .full => 1

def tag : TimeStage → String
  | .half => "t50"
  | .threeQuarters => "t75"
  | .full => "t100"

/-- The fraction as the rules compare it. -/
def bound (stage : TimeStage) : Binary64 := .ofRat stage.fraction

end TimeStage

namespace ManagedTrade

def stageDone (t : ManagedTrade) (stage : TimeStage) : Bool :=
  t.timeActionsDone.contains stage.tag

/-- Does a reading of the clock ask for the exit at the end of the duration? -/
def exitDue (t : ManagedTrade) (now : Moment) : Bool :=
  TimeStage.full.bound.le (t.timeFraction now) && !t.stageDone .full

def markStage (t : ManagedTrade) (stage : TimeStage) : ManagedTrade :=
  { t with timeActionsDone := t.timeActionsDone ++ [stage.tag] }

/-- What the stages are about. The stop of a trade is no part of it. -/
def SameStages (t u : ManagedTrade) : Prop :=
  u.openTime = t.openTime ∧ u.maxDurationSec = t.maxDurationSec ∧
    u.timeActionsDone = t.timeActionsDone ∧ u.closed = t.closed

theorem SameStages.refl (t : ManagedTrade) : t.SameStages t := ⟨rfl, rfl, rfl, rfl⟩

theorem SameStages.trans {t u v : ManagedTrade} (h : t.SameStages u) (h' : u.SameStages v) :
    t.SameStages v :=
  ⟨h'.1.trans h.1, h'.2.1.trans h.2.1, h'.2.2.1.trans h.2.2.1, h'.2.2.2.trans h.2.2.2⟩

theorem SameStages.symm {t u : ManagedTrade} (h : t.SameStages u) : u.SameStages t :=
  ⟨h.1.symm, h.2.1.symm, h.2.2.1.symm, h.2.2.2.symm⟩

theorem SameStages.timeFraction {t u : ManagedTrade} (h : t.SameStages u) (now : Moment) :
    u.timeFraction now = t.timeFraction now := by
  simp [ManagedTrade.timeFraction, h.1, h.2.1]

@[simp] theorem markStage_timeFraction (t : ManagedTrade) (stage : TimeStage) (now : Moment) :
    (t.markStage stage).timeFraction now = t.timeFraction now := rfl

theorem markStage_done (t : ManagedTrade) (stage other : TimeStage) :
    (t.markStage stage).stageDone other = (t.stageDone other || decide (stage = other)) := by
  cases stage <;> cases other <;> simp [stageDone, markStage, TimeStage.tag]

end ManagedTrade

namespace PositionManager

variable (m : PositionManager)

/-- Is a stage before the exit configured? -/
def configured (stage : TimeStage) : Bool := m.timeExitFractions.any (·.eq stage.bound)

/-- May a stage before the exit still come? -/
def stageOpen (t : ManagedTrade) (stage : TimeStage) : Bool :=
  m.configured stage && !t.stageDone stage

/-- The stage before the exit that a tick acts on, at a reading of the clock. -/
def stageAt? (t : ManagedTrade) (now : Moment) : Option TimeStage :=
  if t.exitDue now then none
  else [TimeStage.threeQuarters, .half].find? fun stage =>
    m.stageOpen t stage && stage.bound.le (t.timeFraction now)

/-- The stages that a sequence of readings leads to. -/
def schedule (t : ManagedTrade) : List Moment → List TimeStage
  | [] => []
  | now :: rest =>
      match m.stageAt? t now with
      | none => schedule t rest
      | some stage => stage :: schedule (t.markStage stage) rest

/-- A clock that skips the first stage: of the readings between half of the duration and its
end, the first is beyond three quarters already, and it is not the only one. -/
def Skips (start : ManagedTrade) (readings : List Moment) : Prop :=
  m.stageOpen start .half = true ∧ m.stageOpen start .threeQuarters = true ∧
    ∃ first second rest,
      (readings.filter fun now =>
        !start.exitDue now && TimeStage.half.bound.le (start.timeFraction now)) =
          first :: second :: rest ∧
      TimeStage.threeQuarters.bound.le (start.timeFraction first) = true

end PositionManager

namespace TickEvent

/-- The stage that a call performs: its mark is new on the trade, or the trade is closed by it. -/
def performed? (e : TickEvent) : Option TimeStage :=
  match e.call.1 with
  | .putTrade t =>
      if t.closed && !e.trade.closed then some .full
      else [TimeStage.threeQuarters, .half].find? fun stage =>
        t.stageDone stage && !e.trade.stageDone stage
  | _ => none

/-- A reading of the clock. -/
def reading? (e : TickEvent) : Option Moment :=
  match e.call with
  | ⟨.clock, .ok now⟩ => some now
  | _ => none

end TickEvent

/-- The stages performed, in order. -/
def performedStages (log : List TickEvent) : List TimeStage := log.filterMap TickEvent.performed?

/-- The readings of the clock, in order. -/
def readings (log : List TickEvent) : List Moment := log.filterMap TickEvent.reading?

/-- One tick of the trade by a manager, to its end or to an exception. -/
def TickedBy (m : PositionManager) (s s' : TickState) : Prop :=
  ∃ price r, Exec (tradeWorld ⟨m, price⟩) (m.onTick s.trade price) s (some r) s'

namespace ManagedTrade

def markStages (t : ManagedTrade) (stages : List TimeStage) : ManagedTrade :=
  stages.foldl markStage t

theorem SameStages.stageDone {t u : ManagedTrade} (h : t.SameStages u) (stage : TimeStage) :
    u.stageDone stage = t.stageDone stage := by
  simp [ManagedTrade.stageDone, h.2.2.1]

theorem SameStages.mark {t u : ManagedTrade} (h : t.SameStages u) (stage : TimeStage) :
    (t.markStage stage).SameStages (u.markStage stage) :=
  ⟨h.1, h.2.1, by simp [markStage, h.2.2.1], h.2.2.2⟩

end ManagedTrade

/-! ### The schedule -/

namespace PositionManager

section Schedule

variable {m : PositionManager} {t : ManagedTrade}

theorem stageAt?_congr {u : ManagedTrade} (h : t.SameStages u) (now : Moment) :
    m.stageAt? u now = m.stageAt? t now := by
  simp [stageAt?, stageOpen, ManagedTrade.exitDue, h.stageDone, h.timeFraction]

/-- One more reading. -/
theorem schedule_concat (nows : List Moment) (now : Moment) :
    m.schedule t (nows ++ [now]) =
      m.schedule t nows ++ (m.stageAt? (t.markStages (m.schedule t nows)) now).toList := by
  induction nows generalizing t with
  | nil =>
      cases h : m.stageAt? t now with
      | none => simp [schedule, h, ManagedTrade.markStages]
      | some stage => simp [schedule, h, ManagedTrade.markStages]
  | cons first rest ih =>
      cases h : m.stageAt? t first with
      | none => simpa [schedule, h] using ih
      | some stage => simpa [schedule, h, ManagedTrade.markStages] using ih (t := t.markStage stage)

/-- A stage that is due is open and reached, and the exit is not due. -/
theorem stageAt?_eq_some {now : Moment} {stage : TimeStage} (h : m.stageAt? t now = some stage) :
    t.exitDue now = false ∧ m.stageOpen t stage = true ∧
      stage.bound.le (t.timeFraction now) = true ∧ stage ≠ .full := by
  unfold stageAt? at h
  split_ifs at h with hexit
  have hfound := List.find?_some h
  have hmem := List.mem_of_find?_eq_some h
  rw [Bool.and_eq_true] at hfound
  refine ⟨by simpa using hexit, hfound.1, hfound.2, ?_⟩
  rintro rfl
  simp at hmem

/-- A stage that has come does not come again. -/
theorem stageOpen_markStage (stage other : TimeStage) :
    m.stageOpen (t.markStage stage) other = (m.stageOpen t other && decide (stage ≠ other)) := by
  unfold stageOpen
  rw [ManagedTrade.markStage_done]
  cases m.configured other <;> cases t.stageDone other <;> simp

theorem full_notMem_schedule (nows : List Moment) : .full ∉ m.schedule t nows := by
  induction nows generalizing t with
  | nil => simp [schedule]
  | cons now rest ih =>
      cases h : m.stageAt? t now with
      | none => simpa [schedule, h] using ih
      | some stage =>
          simp only [schedule, h, List.mem_cons, not_or]
          exact ⟨(stageAt?_eq_some h).2.2.2.symm, ih⟩

/-- A stage that is not open does not come. -/
theorem notMem_schedule {stage : TimeStage} (hclosed : m.stageOpen t stage = false)
    (nows : List Moment) : stage ∉ m.schedule t nows := by
  induction nows generalizing t with
  | nil => simp [schedule]
  | cons now rest ih =>
      cases h : m.stageAt? t now with
      | none => simpa [schedule, h] using ih hclosed
      | some other =>
          simp only [schedule, h, List.mem_cons, not_or]
          constructor
          · rintro rfl
            rw [(stageAt?_eq_some h).2.1] at hclosed
            cases hclosed
          · exact ih (by rw [stageOpen_markStage, hclosed, Bool.false_and])

/-- No stage comes twice. -/
theorem schedule_nodup (nows : List Moment) : (m.schedule t nows).Nodup := by
  induction nows generalizing t with
  | nil => simp [schedule]
  | cons now rest ih =>
      cases h : m.stageAt? t now with
      | none => simpa [schedule, h] using ih
      | some stage =>
          simp only [schedule, h, List.nodup_cons]
          exact ⟨notMem_schedule (by simp [stageOpen_markStage]) rest, ih⟩

/-- A reading between half of the duration and its end. -/
def staged (t : ManagedTrade) (now : Moment) : Bool :=
  !t.exitDue now && TimeStage.half.bound.le (t.timeFraction now)

@[simp] theorem staged_markStage {stage : TimeStage} (h : stage ≠ .full) (now : Moment) :
    staged (t.markStage stage) now = staged t now := by
  simp [staged, ManagedTrade.exitDue, ManagedTrade.markStage_done, h]

theorem half_le_of_threeQuarters_le {x : Binary64} (h : TimeStage.threeQuarters.bound.le x = true) :
    TimeStage.half.bound.le x = true :=
  Binary64.le_trans (Binary64.ofRat_mono (by norm_num [TimeStage.fraction])) h

/-- Outside the stages a tick acts on none. -/
theorem stageAt?_of_not_staged {now : Moment} (h : staged t now = false) :
    m.stageAt? t now = none := by
  cases hstage : m.stageAt? t now with
  | none => rfl
  | some stage =>
      obtain ⟨hexit, -, hreached, hfull⟩ := stageAt?_eq_some hstage
      have hhalf : TimeStage.half.bound.le (t.timeFraction now) = true := by
        cases stage with
        | half => exact hreached
        | threeQuarters => exact half_le_of_threeQuarters_le hreached
        | full => exact absurd rfl hfull
      simp [staged, hexit, hhalf] at h

/-- Inside the stages a tick acts on the later one that is open and reached. -/
theorem stageAt?_of_staged {now : Moment} (h : staged t now = true) :
    m.stageAt? t now =
      if m.stageOpen t .threeQuarters && TimeStage.threeQuarters.bound.le (t.timeFraction now) then
        some .threeQuarters
      else if m.stageOpen t .half then some .half else none := by
  simp only [staged, Bool.and_eq_true, Bool.not_eq_true'] at h
  obtain ⟨hexit, hhalf⟩ := h
  unfold stageAt?
  rw [if_neg (by simp [hexit])]
  cases hlate : m.stageOpen t .threeQuarters &&
      TimeStage.threeQuarters.bound.le (t.timeFraction now) with
  | true => simp [hlate]
  | false => cases hopen : m.stageOpen t .half <;> simp [hlate, hopen, hhalf]

/-- Alone, the half stage comes as soon as a reading is between half and the end. -/
theorem half_mem_schedule (hhalf : m.stageOpen t .half = true)
    (hlate : m.stageOpen t .threeQuarters = false) (nows : List Moment) :
    .half ∈ m.schedule t nows ↔ nows.filter (staged t) ≠ [] := by
  induction nows with
  | nil => simp [schedule]
  | cons now rest ih =>
      cases hstaged : staged t now with
      | false => simpa [schedule, stageAt?_of_not_staged hstaged, hstaged] using ih
      | true => simp [schedule, stageAt?_of_staged hstaged, hstaged, hhalf, hlate]

/-- The stages before the exit, when one of the two does not come. -/
theorem schedule_ordered_of_notMem {stage other : TimeStage} (nows : List Moment)
    (hstages : ∀ x ∈ m.schedule t nows, x = stage ∨ x = other)
    (h : other ∉ m.schedule t nows) :
    (m.schedule t nows).Pairwise fun a b => a.fraction < b.fraction := by
  refine (schedule_nodup nows).imp_of_mem ?_
  intro a b ha hb hne
  rcases hstages a ha with rfl | rfl
  · rcases hstages b hb with rfl | rfl
    · exact absurd rfl hne
    · exact absurd hb h
  · exact absurd ha h

theorem mem_schedule_cases {nows : List Moment} {stage : TimeStage} (h : stage ∈ m.schedule t nows) :
    stage = .half ∨ stage = .threeQuarters := by
  cases stage with
  | half => exact Or.inl rfl
  | threeQuarters => exact Or.inr rfl
  | full => exact absurd h (full_notMem_schedule nows)

/-- Behind the half stage only the later one is left. -/
theorem ordered_behind_half (nows : List Moment) :
    (TimeStage.half :: m.schedule (t.markStage .half) nows).Pairwise fun a b =>
      a.fraction < b.fraction := by
  have hgone : .half ∉ m.schedule (t.markStage .half) nows :=
    notMem_schedule (by simp [stageOpen_markStage]) nows
  rw [List.pairwise_cons]
  constructor
  · intro stage hstage
    rcases mem_schedule_cases hstage with rfl | rfl
    · exact absurd hstage hgone
    · norm_num [TimeStage.fraction]
  · exact schedule_ordered_of_notMem nows (fun x hx => (mem_schedule_cases hx).symm) hgone

/-- Behind the later stage the half stage is still open, and every reading before the end
brings it. -/
theorem ordered_behind_threeQuarters_iff (hhalf : m.stageOpen t .half = true)
    (nows : List Moment) :
    ((TimeStage.threeQuarters :: m.schedule (t.markStage .threeQuarters) nows).Pairwise fun a b =>
      a.fraction < b.fraction) ↔ nows.filter (staged t) = [] := by
  have hgone : .threeQuarters ∉ m.schedule (t.markStage .threeQuarters) nows :=
    notMem_schedule (by simp [stageOpen_markStage]) nows
  have hmem : .half ∈ m.schedule (t.markStage .threeQuarters) nows ↔
      nows.filter (staged t) ≠ [] := by
    rw [half_mem_schedule (by simp [stageOpen_markStage, hhalf]) (by simp [stageOpen_markStage]),
      List.filter_congr fun now _ => staged_markStage (by decide) now]
  rw [List.pairwise_cons]
  constructor
  · rintro ⟨hlater, -⟩
    by_contra hne
    have hlt := hlater .half (hmem.mpr hne)
    norm_num [TimeStage.fraction] at hlt
  · intro hnone
    have hnever : .half ∉ m.schedule (t.markStage .threeQuarters) nows := fun h =>
      hmem.mp h hnone
    constructor
    · intro stage hstage
      rcases mem_schedule_cases hstage with rfl | rfl
      · exact absurd hstage hnever
      · exact absurd hstage hgone
    · exact schedule_ordered_of_notMem nows (fun x hx => (mem_schedule_cases hx).symm) hnever

/-- With both stages open, the first reading between half and the end decides. -/
theorem skips_cons_of_staged (hhalf : m.stageOpen t .half = true)
    (hlate : m.stageOpen t .threeQuarters = true) {now : Moment} (hstaged : staged t now = true)
    (rest : List Moment) :
    m.Skips t (now :: rest) ↔
      TimeStage.threeQuarters.bound.le (t.timeFraction now) = true ∧
        rest.filter (staged t) ≠ [] := by
  unfold Skips
  rw [List.filter_cons_of_pos (by simpa [staged] using hstaged)]
  constructor
  · rintro ⟨-, -, first, second, rest', hfilter, hreached⟩
    obtain ⟨rfl, hrest⟩ := List.cons.inj hfilter
    exact ⟨hreached, fun hnone => by cases hrest.symm.trans hnone⟩
  · rintro ⟨hreached, hne⟩
    obtain ⟨second, rest', hrest⟩ := List.exists_cons_of_ne_nil hne
    exact ⟨hhalf, hlate, now, second, rest', congrArg _ hrest, hreached⟩

/-- The stages come in order exactly when the clock does not skip the first of the two. -/
theorem schedule_ordered_iff (nows : List Moment) :
    ((m.schedule t nows).Pairwise fun a b => a.fraction < b.fraction) ↔ ¬ m.Skips t nows := by
  cases hhalf : m.stageOpen t .half with
  | false =>
      refine iff_of_true ?_ fun hskips => by simp [Skips, hhalf] at hskips
      exact schedule_ordered_of_notMem nows (fun x hx => (mem_schedule_cases hx).symm)
        (notMem_schedule hhalf nows)
  | true =>
      cases hlate : m.stageOpen t .threeQuarters with
      | false =>
          refine iff_of_true ?_ fun hskips => by simp [Skips, hlate] at hskips
          exact schedule_ordered_of_notMem nows (fun x hx => mem_schedule_cases hx)
            (notMem_schedule hlate nows)
      | true =>
          induction nows with
          | nil => simp [schedule, Skips]
          | cons now rest ih =>
              cases hstaged : staged t now with
              | false =>
                  -- the reading is outside the stages and drops out of both sides
                  have hdrop : m.Skips t (now :: rest) ↔ m.Skips t rest := by
                    unfold Skips
                    rw [List.filter_cons_of_neg (by simpa [staged] using hstaged)]
                  rw [schedule, stageAt?_of_not_staged hstaged, hdrop]
                  exact ih
              | true =>
                  rw [schedule, stageAt?_of_staged hstaged, hhalf, hlate, Bool.true_and,
                    skips_cons_of_staged hhalf hlate hstaged]
                  cases TimeStage.threeQuarters.bound.le (t.timeFraction now) with
                  | false => simpa using ordered_behind_half (m := m) (t := t) rest
                  | true => simpa using ordered_behind_threeQuarters_iff hhalf rest

end Schedule

/-! ### The ticks -/

/-- The calls that read no clock, and write the trade only with the stages as they are. -/
def Quiet (t : ManagedTrade) : ManagerCall → Prop
  | .putTrade u => t.SameStages u
  | .clock => False
  | _ => True

section Ticks

variable {m : PositionManager} {t u : ManagedTrade}

theorem tighten_quiet (h : t.SameStages u) (newStop : Binary64) (name : String) :
    (tighten u newStop name).Only (Quiet t) := by
  unfold tighten
  split_ifs
  · have hset : (setStop u newStop).Only (Quiet t) :=
      (Proc.along_perform trivial).bind fun _ =>
        (Proc.along_perform (show Quiet t (.putTrade { u with currentStop := newStop }) from h)).bind
          fun _ => trivial
    exact hset.bind fun _ => trivial
  · exact trivial

theorem tighten_yields (h : t.SameStages u) (newStop : Binary64) (name : String) :
    (tighten u newStop name).Yields (fun _ _ => True) fun r => t.SameStages r.1 := by
  unfold tighten
  split_ifs
  · have hset : (setStop u newStop).Yields (fun _ _ => True) t.SameStages :=
      (Proc.yields_true _).bind fun _ _ => (Proc.yields_true _).bind fun _ _ => h
    exact hset.bind fun _ hr => hr
  · exact h

theorem breakeven_quiet (h : t.SameStages u) (price : Binary64) :
    (m.breakeven u price).Only (Quiet t) := by
  unfold breakeven
  split_ifs
  · refine (tighten_quiet h _ _).bind_yields (tighten_yields h _ _) ?_
    intro r hr
    exact (Proc.along_perform
      (show Quiet t (.putTrade { r.1 with atBreakeven := true }) from hr)).bind fun _ => trivial
  · exact trivial

theorem breakeven_yields (h : t.SameStages u) (price : Binary64) :
    (m.breakeven u price).Yields (fun _ _ => True) fun r => t.SameStages r.1 := by
  unfold breakeven
  split_ifs
  · refine (tighten_yields h _ _).bind ?_
    intro r hr
    exact (Proc.yields_true _).bind fun _ _ => hr
  · exact h

/-- The rules about the stop, behind the staged action. -/
theorem stopRules_quiet (h : t.SameStages u) (price : Binary64) (timed : List String) :
    ((m.breakeven u price).bind fun moved =>
      (m.trail moved.1 price).bind fun trailed =>
        .ret (timed ++ moved.2 ++ trailed.2)).Only (Quiet t) := by
  refine (breakeven_quiet h price).bind_yields (breakeven_yields h price) ?_
  intro moved hmoved
  refine Proc.Along.bind ?_ fun _ => trivial
  unfold trail
  split_ifs
  · exact tighten_quiet hmoved _ _
  · exact trivial

/-- While the trade goes on, its ticks have performed what the schedule says. -/
structure Ongoing (m : PositionManager) (start : ManagedTrade) (s : TickState) : Prop where
  now : (start.markStages (performedStages s.log)).SameStages s.trade
  planned : performedStages s.log = m.schedule start (readings s.log)

/-- Once it is over, the exit at the end as well. -/
structure Over (m : PositionManager) (start : ManagedTrade) (s : TickState) : Prop where
  closed : s.trade.closed = true
  planned : performedStages s.log = m.schedule start (readings s.log) ++ [.full]

def Performed (m : PositionManager) (start : ManagedTrade) (s : TickState) : Prop :=
  Ongoing m start s ∨ Over m start s

variable {tick : Tick} {start : ManagedTrade}

theorem performedStages_concat (log : List TickEvent) (e : TickEvent) :
    performedStages (log ++ [e]) = performedStages log ++ e.performed?.toList := by
  cases h : e.performed? with
  | none => simp [performedStages, h]
  | some stage => simp [performedStages, h]

theorem readings_concat (log : List TickEvent) (e : TickEvent) :
    readings (log ++ [e]) = readings log ++ e.reading?.toList := by
  cases h : e.reading? with
  | none => simp [readings, h]
  | some now => simp [readings, h]

/-- A write that keeps what the stages are about performs none. -/
theorem performed?_of_sameStages (h : t.SameStages u) (tick : Tick) (r : Except Exc Unit) :
    (TickEvent.mk tick t ⟨.putTrade u, r⟩).performed? = none := by
  simp only [TickEvent.performed?, h.2.2.2, Bool.and_not_self, h.stageDone, Bool.false_eq_true,
    if_false]
  rfl

/-- The write of a new mark performs its stage. -/
theorem performed?_markStage {stage : TimeStage} (h : t.stageDone stage = false)
    (hfull : stage ≠ .full) (tick : Tick) (r : Except Exc Unit) :
    (TickEvent.mk tick t ⟨.putTrade (t.markStage stage), r⟩).performed? = some stage := by
  have hclosed : (t.markStage stage).closed = t.closed := rfl
  simp only [TickEvent.performed?, hclosed, Bool.and_not_self, ManagedTrade.markStage_done,
    Bool.false_eq_true, if_false]
  cases stage with
  | half => cases hlate : t.stageDone .threeQuarters <;> simp [h, hlate]
  | threeQuarters => simp [h]
  | full => exact absurd rfl hfull

/-- The write of the mark of the stage that is due. -/
theorem Ongoing.marked {log : List TickEvent} {now : Moment} {stage : TimeStage}
    (hnow : (start.markStages (performedStages log)).SameStages t)
    (hplanned : performedStages log ++ (m.stageAt? t now).toList = m.schedule start (readings log))
    (hstage : m.stageAt? t now = some stage) (tick : Tick) :
    Ongoing m start ⟨t.markStage stage,
      log ++ [⟨tick, t, ⟨.putTrade (t.markStage stage), .ok ()⟩⟩]⟩ := by
  obtain ⟨-, hstageOpen, -, hfull⟩ := stageAt?_eq_some hstage
  have hopen : t.stageDone stage = false := by
    simp only [stageOpen, Bool.and_eq_true, Bool.not_eq_true'] at hstageOpen
    exact hstageOpen.2
  have hperformed := performed?_markStage hopen hfull tick (.ok ())
  constructor
  · rw [performedStages_concat, hperformed]
    simpa [ManagedTrade.markStages] using hnow.mark stage
  · rw [performedStages_concat, readings_concat, hperformed]
    rw [hstage] at hplanned
    simpa [TickEvent.reading?] using hplanned

/-- A call that changes no stage adds nothing to either record. -/
theorem quiet_step {op : ManagerCall} {r : Except Exc op.Ans} {s s' : TickState}
    (hop : Quiet s.trade op) (step : tradeWorld tick s op r s') :
    s.trade.SameStages s'.trade ∧ performedStages s'.log = performedStages s.log ∧
      readings s'.log = readings s.log := by
  obtain ⟨-, rfl⟩ := step
  have hsame : s.trade.SameStages (tradeAfter op s.trade) := by
    cases op with
    | putTrade u => exact hop
    | _ => exact .refl _
  have hperformed : (TickEvent.mk tick s.trade ⟨op, r⟩).performed? = none := by
    cases op with
    | putTrade u => exact performed?_of_sameStages hop tick r
    | _ => rfl
  have hreading : (TickEvent.mk tick s.trade ⟨op, r⟩).reading? = none := by
    cases op with
    | clock => exact absurd hop id
    | _ => rfl
  refine ⟨hsame, ?_, ?_⟩
  · rw [performedStages_concat, hperformed, Option.toList_none, List.append_nil]
  · rw [readings_concat, hreading, Option.toList_none, List.append_nil]

theorem Ongoing.quiet {s s' : TickState} (h : Ongoing m start s)
    (hs : s.trade.SameStages s'.trade ∧ performedStages s'.log = performedStages s.log ∧
      readings s'.log = readings s.log) : Ongoing m start s' := by
  obtain ⟨hsame, hperformed, hreadings⟩ := hs
  constructor
  · rw [hperformed]
    exact h.now.trans hsame
  · rw [hperformed, hreadings]
    exact h.planned

theorem Over.quiet {s s' : TickState} (h : Over m start s)
    (hs : s.trade.SameStages s'.trade ∧ performedStages s'.log = performedStages s.log ∧
      readings s'.log = readings s.log) : Over m start s' := by
  obtain ⟨hsame, hperformed, hreadings⟩ := hs
  constructor
  · exact hsame.2.2.2.trans h.closed
  · rw [hperformed, hreadings]
    exact h.planned

theorem wp_quiet {α : Type} {p : Proc ManagerI Exc α} {s : TickState} (hp : p.Only (Quiet s.trade))
    (h : Ongoing m start s) : wp (tradeWorld tick) p (fun _ s' => Ongoing m start s') s := by
  refine wpc_mono (wpc_of_only (P := Quiet s.trade)
    (J := fun s' => Ongoing m start s' ∧ s.trade.SameStages s'.trade) ?_ hp ⟨h, .refl _⟩)
    (fun _ _ => trivial) fun _ _ _ h => h.1
  rintro op s' r s'' hop ⟨h', hsame⟩ step
  have hquiet : Quiet s'.trade op := by
    cases op with
    | putTrade u => exact hsame.symm.trans hop
    | _ => exact hop
  have hstep := quiet_step hquiet step
  exact ⟨h'.quiet hstep, hsame.trans hstep.1⟩

/-- What the code calls the staged actions. -/
def actionName : TimeStage → String
  | .half => "time_action_50pct"
  | .threeQuarters => "time_action_75pct"
  | .full => "time_exit_close"

/-- The scan of the code finds the stage that is due. -/
theorem timeAction?_eq {now : Moment} (hexit : t.exitDue now = false) :
    m.timeAction? t (t.timeFraction now) =
      (m.stageAt? t now).map fun stage => (stage.tag, actionName stage) := by
  have hdue : ∀ stage : TimeStage,
      (m.timeExitFractions.any (·.eq stage.bound) && stage.bound.le (t.timeFraction now) &&
        !t.timeActionsDone.contains stage.tag) =
      (m.stageOpen t stage && stage.bound.le (t.timeFraction now)) := fun stage =>
    Bool.and_right_comm _ _ _
  have hlate := hdue .threeQuarters
  have hhalf := hdue .half
  simp only [TimeStage.bound, TimeStage.fraction, TimeStage.tag] at hlate hhalf
  unfold timeAction? stageAt?
  rw [if_neg (by simp [hexit])]
  simp only [List.findSome?_cons, List.findSome?_nil, List.find?_cons, List.find?_nil, hlate, hhalf,
    TimeStage.bound, TimeStage.fraction]
  cases m.stageOpen t .threeQuarters && (Binary64.ofRat (3 / 4)).le (t.timeFraction now) with
  | true => rfl
  | false =>
      cases m.stageOpen t .half && (Binary64.ofRat (1 / 2)).le (t.timeFraction now) with
      | true => rfl
      | false => rfl

/-- The staged action of a tick, behind the reading that asks for it. -/
theorem wp_timeActions_performed {log : List TickEvent} {now : Moment}
    (hnow : (start.markStages (performedStages log)).SameStages t)
    (hplanned : performedStages log ++ (m.stageAt? t now).toList = m.schedule start (readings log))
    (hexit : t.exitDue now = false) :
    wp (tradeWorld tick) (m.timeActions t (t.timeFraction now))
      (fun r s' => Ongoing m start s' ∧ ∀ u timed, r = .ok (u, timed) → s'.trade = u) ⟨t, log⟩ := by
  unfold timeActions
  rw [timeAction?_eq hexit]
  cases hstage : m.stageAt? t now with
  | none =>
      rw [hstage, Option.toList_none, List.append_nil] at hplanned
      refine ⟨trivial, ⟨hnow, hplanned⟩, ?_⟩
      rintro u timed ⟨⟩
      rfl
  | some stage =>
      apply wpc_seq (wpc_of_perform trivial fun r s' hs' => ⟨trivial, hs'⟩)
      · rintro _ _ - ⟨-, rfl⟩
        refine ⟨trivial, .marked hnow hplanned hstage tick, ?_⟩
        rintro u timed ⟨⟩
        rfl
      · rintro e _ - ⟨hr, -⟩
        cases hr

/-- The close of the trade is the last stage. -/
theorem Ongoing.close {s : TickState} (h : Ongoing m start s) (hopen : s.trade.closed = false)
    (tick : Tick) :
    Over m start ⟨{ s.trade with closed := true },
      s.log ++ [⟨tick, s.trade, ⟨.putTrade { s.trade with closed := true }, .ok ()⟩⟩]⟩ := by
  have hperformed : (TickEvent.mk tick s.trade
      ⟨.putTrade { s.trade with closed := true }, .ok ()⟩).performed? = some .full := by
    simp [TickEvent.performed?, hopen]
  refine ⟨rfl, ?_⟩
  rw [performedStages_concat, readings_concat, hperformed, h.planned]
  simp [TickEvent.reading?]

/-- The mark of the exit on the closed trade performs nothing more. -/
theorem Over.marked {s : TickState} (h : Over m start s) (tick : Tick) :
    Over m start ⟨s.trade.markStage .full,
      s.log ++ [⟨tick, s.trade, ⟨.putTrade (s.trade.markStage .full), .ok ()⟩⟩]⟩ := by
  have hperformed : (TickEvent.mk tick s.trade
      ⟨.putTrade (s.trade.markStage .full), .ok ()⟩).performed? = none := by
    have hmarked : (s.trade.markStage .full).closed = true := h.closed
    simp [TickEvent.performed?, hmarked, h.closed, ManagedTrade.markStage_done]
  refine ⟨h.closed, ?_⟩
  rw [performedStages_concat, readings_concat, hperformed]
  simpa [TickEvent.reading?] using h.planned

/-- The exit at the end of the duration, with the broker and the hook free to raise. -/
theorem wp_timeExit_performed {s : TickState} (h : Ongoing m start s)
    (hopen : s.trade.closed = false) :
    wp (tradeWorld tick) (m.timeExit s.trade) (fun _ s' => Performed m start s') s := by
  unfold timeExit close
  simp only [Proc.bind_eq, Proc.pure_eq, Proc.bind_assoc]
  apply wpc_seq (R := fun _ s' => Ongoing m start s' ∧ s'.trade = s.trade)
  · apply wpc_of_perform trivial
    intro r s' step
    have hquiet : Quiet s.trade (.closeTrade s.trade.brokerTradeId) := trivial
    exact ⟨trivial, h.quiet (quiet_step hquiet step), by rw [step.2]; rfl⟩
  · rintro resp ⟨t, log⟩ - ⟨h', rfl⟩
    apply wpc_seq (wpc_of_perform trivial fun r s' hs' => ⟨trivial, hs'⟩)
    · rintro _ _ - ⟨-, rfl⟩
      have hover := h'.close hopen tick
      apply wpc_seq (R := fun _ s' => Over m start s' ∧ s'.trade = { s.trade with closed := true })
      · refine wpc_given (fun _ => wpc_of_perform trivial ?_) fun _ => ⟨trivial, hover, rfl⟩
        intro r s' step
        have hquiet : ∀ u : ManagedTrade, Quiet u (.emitCloseFn { s.trade with closed := true } resp
          "expiry") := fun _ => trivial
        exact ⟨trivial, hover.quiet (quiet_step (hquiet _) step), congrArg TickState.trade step.2⟩
      · rintro _ ⟨t, log⟩ - ⟨hemitted, rfl⟩
        apply wpc_seq (wpc_of_perform trivial fun r s' hs' => ⟨trivial, hs'⟩)
        · rintro _ _ - ⟨-, rfl⟩
          exact ⟨trivial, Or.inr (hemitted.marked tick)⟩
        · rintro e _ - ⟨hr, -⟩
          cases hr
      · rintro e s' - ⟨hemitted, -⟩
        exact Or.inr hemitted
    · rintro e _ - ⟨hr, -⟩
      cases hr
  · rintro e s' - ⟨h', -⟩
    exact Or.inl h'

/-- One tick goes on as the schedule says. -/
theorem wp_onTick_performed {s : TickState} (h : Performed m start s) (price : Binary64) :
    wp (tradeWorld ⟨m, price⟩) (m.onTick s.trade price) (fun _ s' => Performed m start s') s := by
  unfold onTick
  split_ifs with hoff
  · exact ⟨trivial, h⟩
  · have hopen : s.trade.closed = false := by
      simp only [Bool.or_eq_true, Bool.not_eq_true', not_or, Bool.not_eq_true] at hoff
      exact hoff.2
    obtain ⟨hnow, hplanned⟩ : Ongoing m start s := by
      refine h.resolve_right fun hover => ?_
      rw [hover.closed] at hopen
      cases hopen
    apply wpc_seq (wpc_of_perform trivial fun r s' hs' => ⟨trivial, hs'⟩)
    · rintro now _ - ⟨-, rfl⟩
      have hperformed : performedStages (s.log ++ [⟨⟨m, price⟩, s.trade, ⟨.clock, .ok now⟩⟩]) =
          performedStages s.log := by
        rw [performedStages_concat]
        exact List.append_nil _
      have hreadings : m.schedule start (readings (s.log ++
          [⟨⟨m, price⟩, s.trade, ⟨.clock, .ok now⟩⟩])) =
            performedStages s.log ++ (m.stageAt? s.trade now).toList := by
        rw [readings_concat]
        exact (schedule_concat _ now).trans (by rw [← hplanned, stageAt?_congr hnow])
      rw [← hperformed] at hnow hreadings
      dsimp only
      split_ifs with hexit
      · have hnone : m.stageAt? s.trade now = none := if_pos hexit
        rw [hnone, Option.toList_none, List.append_nil] at hreadings
        exact wp_timeExit_performed (s := ⟨s.trade, _⟩) ⟨hnow, hreadings.symm⟩ hopen
      · apply wpc_seq (wp_timeActions_performed hnow hreadings.symm ((Bool.not_eq_true _).mp hexit))
        · rintro ⟨u, timed⟩ s' - ⟨hgoes, htrade⟩
          obtain rfl := htrade u timed rfl
          exact wpc_post (wp_quiet (stopRules_quiet (.refl _) price timed) hgoes)
            fun _ _ _ h => Or.inl h
        · rintro e s' - ⟨hgoes, -⟩
          exact Or.inl hgoes
    · rintro e _ - ⟨-, rfl⟩
      refine Or.inl ⟨?_, ?_⟩
      · rw [performedStages_concat]
        simpa [TickEvent.performed?, tradeAfter] using hnow
      · rw [performedStages_concat, readings_concat]
        simpa [TickEvent.performed?, TickEvent.reading?] using hplanned

/-- For every manager, every trade and every sequence of ticks, with the broker free to refuse any
call: the stages are performed in increasing order of their fraction, and so each at most once,
exactly when the clock does not skip the first stage with both stages open. -/
theorem performed_ordered_iff {s : TickState}
    (run : Relation.ReflTransGen (TickedBy m) ⟨start, []⟩ s) :
    ((performedStages s.log).Pairwise fun a b => a.fraction < b.fraction) ↔
      ¬ m.Skips start (readings s.log) := by
  have hperformed : Performed m start s := by
    induction run with
    | refl => exact Or.inl ⟨.refl _, rfl⟩
    | tail _ ticked ih =>
        obtain ⟨price, r, exec⟩ := ticked
        exact wp_sound exec (wp_onTick_performed ih price)
  rw [← schedule_ordered_iff]
  rcases hperformed with hgoes | hover
  · rw [hgoes.planned]
  · rw [hover.planned, List.pairwise_append]
    constructor
    · exact fun h => h.1
    · intro h
      refine ⟨h, List.pairwise_singleton _ _, ?_⟩
      intro stage hstage last hlast
      rw [List.mem_singleton.mp hlast]
      rcases mem_schedule_cases hstage with rfl | rfl
      · norm_num [TimeStage.fraction]
      · norm_num [TimeStage.fraction]

end Ticks

/-- The wired fractions, with no trail. -/
def stagedManager : PositionManager where
  hasEmitCloseFn := true
  breakevenR := .ofRat 1
  breakevenBufferPips := .ofRat 1
  trailDistance := .zero
  timeExitFractions := [.ofRat (1 / 2), .ofRat (3 / 4), .ofRat 1]
  enabled := true

/-- A trade that may last a hundred seconds. -/
def shortTrade : ManagedTrade := { longTrade with maxDurationSec := .ofRat 100 }

/-- One tick at the entry price, with a broker that accepts every call. -/
def tickAt (now : Moment) (s : TickState) : TickState :=
  ((stagedManager.onTick s.trade s.trade.entryPrice).run
    (willingStep ⟨stagedManager, s.trade.entryPrice⟩ now) s).2

theorem tickedBy_tickAt (now : Moment) (s : TickState) :
    TickedBy stagedManager s (tickAt now s) :=
  ⟨s.trade.entryPrice, _, exec_run (willingStep_allowed _ now) _ _⟩

/-- Ticks at the given seconds. -/
def ticksAt (seconds : List (Fin 86400)) : TickState :=
  seconds.foldl (fun s n => tickAt (.atSecond n) s) ⟨shortTrade, []⟩

theorem ticked_ticksAt (seconds : List (Fin 86400)) :
    Relation.ReflTransGen (TickedBy stagedManager) ⟨shortTrade, []⟩ (ticksAt seconds) := by
  have hfold : ∀ s, Relation.ReflTransGen (TickedBy stagedManager) s
      (seconds.foldl (fun s n => tickAt (.atSecond n) s) s) := by
    induction seconds with
    | nil => exact fun s => .refl
    | cons n rest ih => exact fun s => .head (tickedBy_tickAt (.atSecond n) s) (ih _)
  exact hfold _

/-- Ticks at 40, 60, 80 and 100 seconds. -/
theorem performed_ordered_iff_steady :
    performedStages (ticksAt [40, 60, 80, 100]).log = [.half, .threeQuarters, .full] ∧
      ((performedStages (ticksAt [40, 60, 80, 100]).log).Pairwise (fun a b =>
        a.fraction < b.fraction) ↔
          ¬ stagedManager.Skips shortTrade (readings (ticksAt [40, 60, 80, 100]).log)) :=
  ⟨by decide +kernel, performed_ordered_iff (ticked_ticksAt _)⟩

/-- After a gap, the first tick comes at 80 of 100 seconds and the next at 90: the action of the
75% is followed by that of the 50%. -/
theorem half_behind_threeQuarters :
    ¬ ∀ (m : PositionManager) (start : ManagedTrade) (s : TickState),
      Binary64.zero.lt start.maxDurationSec = true →
      Relation.ReflTransGen (TickedBy m) ⟨start, []⟩ s → (readings s.log).Pairwise (· ≤ ·) →
      (performedStages s.log).Pairwise fun a b => a.fraction < b.fraction := by
  intro h
  have hordered := h stagedManager shortTrade (ticksAt [80, 90]) (by decide +kernel)
    (ticked_ticksAt _) (by decide +kernel)
  have hperformed : performedStages (ticksAt [80, 90]).log = [.threeQuarters, .half] := by
    decide +kernel
  rw [hperformed] at hordered
  norm_num [TimeStage.fraction] at hordered

end PositionManager

end System2
