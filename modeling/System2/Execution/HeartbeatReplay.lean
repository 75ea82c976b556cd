import System2.Execution.Lifecycle

/-!
# One heartbeat, delivered again and again

The monitor credits a heartbeat by the stamp of its producer, and a stamp in the future by the
clock. A stamp that the clock has reached is credited at most once, since the mark does not move
back; one that is still ahead is a new stamp at every later reading.
-/

namespace System2
open Foundation

/-- The clock of a delivery. -/
def ClockSays (now : Moment) : Event MonitorI Exc → Prop
  | ⟨.clock, r⟩ => r = .ok now
  | _ => True

/-- What one delivery of a heartbeat read, answered and left. -/
structure Delivery where
  reading : Moment
  credited : Bool
  mark : Option Moment

namespace SafetyMonitor

variable (mon : SafetyMonitor)

/-- One delivery of a heartbeat at a reading of the clock. -/
def Delivered (stamp now : Moment) (s : MonitorState) (credited : Bool) (s' : MonitorState) :
    Prop :=
  Exec (monitorWorld.under (ClockSays now)) (mon.recordHeartbeat (some stamp)) s
    (some (.ok credited)) s'

/-- Deliveries of the same heartbeat, one after the other. -/
inductive Deliveries (stamp : Moment) : MonitorState → List Delivery → MonitorState → Prop
  | none {s} : Deliveries stamp s [] s
  | next {now s credited s' rest s''} (first : mon.Delivered stamp now s credited s')
      (tail : Deliveries stamp s' rest s'') :
      Deliveries stamp s (⟨now, credited, s'.lastHeartbeatAt⟩ :: rest) s''

/-- A replay buys nothing: behind the first delivery that is credited none is, and the mark
stays as that one set it. -/
def ReplayWorthless (deliveries : List Delivery) (s' : MonitorState) : Prop :=
  ∀ before first after, deliveries = before ++ first :: after →
    (∀ d ∈ before, d.credited = false) → first.credited = true →
      s'.lastHeartbeatAt = first.mark ∧ ∀ d ∈ after, d.credited = false

/-- Is a stamp, clamped to the clock, recent enough and above the mark? -/
def creditable (stamp : Moment) (mark : Option Moment) (now : Moment) : Bool :=
  !mon.config.stalenessLimitSec.lt (now.secondsSince (min stamp now)) &&
    mark.all fun last => decide (last < min stamp now)

/-- The first reading at which the heartbeat may count has reached the stamp, or no reading
behind it is both later and within the limit. -/
def StampReached (stamp : Moment) (mark : Option Moment) (readings : List Moment) : Prop :=
  ∀ before first after, readings = before ++ first :: after →
    (∀ now ∈ before, mon.creditable stamp mark now = false) →
    mon.creditable stamp mark first = true →
      stamp ≤ first ∨ ∀ later ∈ after, later ≤ first ∨
        mon.config.stalenessLimitSec.lt (later.secondsSince (min stamp later)) = true

variable {mon} {stamp now : Moment} {s s' : MonitorState}

/-- A property of the first entry of a kind and what follows it, when the head is of another
kind. -/
theorem forall_first_cons_of_not {α : Type} {kind : α → Bool} {P : α → List α → Prop} {x : α}
    {rest : List α} (hx : kind x = false) :
    (∀ before first after, x :: rest = before ++ first :: after →
      (∀ y ∈ before, kind y = false) → kind first = true → P first after) ↔
    ∀ before first after, rest = before ++ first :: after →
      (∀ y ∈ before, kind y = false) → kind first = true → P first after := by
  constructor
  · rintro h before first after rfl hbefore
    exact h (x :: before) first after rfl (List.forall_mem_cons.mpr ⟨hx, hbefore⟩)
  · intro h before first after hsplit hbefore hfirst
    cases before with
    | nil =>
        obtain ⟨rfl, rfl⟩ := List.cons.inj hsplit
        rw [hx] at hfirst
        cases hfirst
    | cons y before =>
        obtain ⟨rfl, hrest⟩ := List.cons.inj hsplit
        exact h before first after hrest (List.forall_mem_cons.mp hbefore).2 hfirst

/-- The same when the head is of the kind. -/
theorem forall_first_cons {α : Type} {kind : α → Bool} {P : α → List α → Prop} {x : α}
    {rest : List α} (hx : kind x = true) :
    (∀ before first after, x :: rest = before ++ first :: after →
      (∀ y ∈ before, kind y = false) → kind first = true → P first after) ↔ P x rest := by
  constructor
  · intro h
    exact h [] x rest rfl (by simp) hx
  · intro h before first after hsplit hbefore hfirst
    cases before with
    | nil =>
        obtain ⟨rfl, rfl⟩ := List.cons.inj hsplit
        exact h
    | cons y before =>
        obtain ⟨rfl, -⟩ := List.cons.inj hsplit
        rw [(List.forall_mem_cons.mp hbefore).1] at hx
        cases hx

/-- As the code asks it. -/
theorem creditable_eq (mark : Option Moment) : mon.creditable stamp mark now =
    (!mon.config.stalenessLimitSec.lt (now.secondsSince (min stamp now)) &&
      !mark.any fun last => decide (min stamp now ≤ last)) := by
  unfold creditable
  cases mark with
  | none => rfl
  | some last => simp only [Option.all_some, Option.any_some, ← not_le, decide_not]

/-- What a delivery leaves. -/
def credit (mon : SafetyMonitor) (stamp now : Moment) (s : MonitorState) : MonitorState :=
  if mon.creditable stamp s.lastHeartbeatAt now then
    { s with lastHeartbeatAt := some (min stamp now) }
  else s

theorem wp_recordHeartbeat_at : wp (monitorWorld.under (ClockSays now))
    (mon.recordHeartbeat (some stamp)) (fun r s' =>
      r = .ok (mon.creditable stamp s.lastHeartbeatAt now) ∧ s' = mon.credit stamp now s) s := by
  unfold recordHeartbeat
  apply wpc_seq (wpc_of_perform trivial fun r s' hs' => ⟨trivial, hs'⟩)
  · rintro t s₁ - ⟨hs₁, ht⟩
    obtain rfl : s₁ = s := hs₁
    obtain rfl : t = now := Except.ok.inj ht
    dsimp only [Option.getD_some]
    split_ifs with hstale
    · exact ⟨trivial, by simp [creditable, hstale], by simp [credit, creditable, hstale]⟩
    · rw [Bool.not_eq_true] at hstale
      apply wpc_seq (wpc_of_perform trivial fun r s' hs' => ⟨trivial, hs'⟩)
      · rintro a s₂ - ⟨⟨rfl, ha⟩, -⟩
        obtain rfl := Except.ok.inj ha
        split_ifs with hback
        · simp only [credit, creditable_eq, hback, Bool.not_true, Bool.and_false,
            Bool.false_eq_true, if_false]
          exact ⟨trivial, rfl, rfl⟩
        · rw [Bool.not_eq_true] at hback
          apply wpc_seq (wpc_of_perform trivial fun r s' hs' => ⟨trivial, hs'⟩)
          · rintro u s₃ - ⟨⟨rfl, -⟩, -⟩
            simp only [credit, creditable_eq, hback, hstale, Bool.not_false, Bool.and_self, if_true]
            exact ⟨trivial, rfl, rfl⟩
          · rintro e s₃ - ⟨⟨-, hr⟩, -⟩
            cases hr
      · rintro e s₂ - ⟨⟨-, hr⟩, -⟩
        cases hr
  · rintro e s₁ - ⟨-, hr⟩
    cases hr

/-- A delivery credits what is creditable, and moves the mark to the clamped stamp. -/
theorem Delivered.eq {credited : Bool} (h : mon.Delivered stamp now s credited s') :
    credited = mon.creditable stamp s.lastHeartbeatAt now ∧ s' = mon.credit stamp now s := by
  obtain ⟨hr, hs'⟩ := wp_sound h wp_recordHeartbeat_at
  exact ⟨Except.ok.inj hr, hs'⟩

/-- No delivery is credited exactly when no reading makes the heartbeat count. -/
theorem Deliveries.none_credited_iff {ds : List Delivery} (h : mon.Deliveries stamp s ds s') :
    (∀ d ∈ ds, d.credited = false) ↔
      ∀ d ∈ ds, mon.creditable stamp s.lastHeartbeatAt d.reading = false := by
  induction h with
  | none => simp
  | @next now s credited s' rest s'' first tail ih =>
      obtain ⟨rfl, rfl⟩ := first.eq
      simp only [List.forall_mem_cons]
      cases hcredited : mon.creditable stamp s.lastHeartbeatAt now with
      | true => simp
      | false => simpa [credit, hcredited] using ih

/-- Deliveries that are not credited leave the mark. -/
theorem Deliveries.mark_eq {ds : List Delivery} (h : mon.Deliveries stamp s ds s')
    (hnone : ∀ d ∈ ds, d.credited = false) : s'.lastHeartbeatAt = s.lastHeartbeatAt := by
  induction h with
  | none => rfl
  | @next now s credited s' rest s'' first tail ih =>
      obtain ⟨hcredited, hrest⟩ := List.forall_mem_cons.mp hnone
      obtain ⟨rfl, rfl⟩ := first.eq
      have hsame : mon.creditable stamp s.lastHeartbeatAt now = false := hcredited
      rw [ih hrest]
      simp [credit, hsame]

/-- Behind a credit, a later reading makes the heartbeat count again only if the stamp was ahead
of the first one. -/
theorem not_creditable_behind {first later : Moment} :
    mon.creditable stamp (some (min stamp first)) later = false ↔
      stamp ≤ first ∨ later ≤ first ∨
        mon.config.stalenessLimitSec.lt (later.secondsSince (min stamp later)) = true := by
  have habove : min stamp first < min stamp later ↔ first < stamp ∧ first < later := by
    rw [lt_min_iff, min_lt_iff, min_lt_iff]
    constructor
    · rintro ⟨hstamp | hstamp, hlater⟩
      · exact absurd hstamp (lt_irrefl stamp)
      · exact ⟨hstamp, hlater.elim (fun h => hstamp.trans h) id⟩
    · rintro ⟨hstamp, hlater⟩
      exact ⟨Or.inr hstamp, Or.inr hlater⟩
  simp only [creditable, Option.all_some, habove, Bool.and_eq_false_iff, Bool.not_eq_false',
    decide_eq_false_iff_not, not_and_or, not_lt]
  tauto

/-- For every monitor, stamp and starting state and every sequence of readings of the clock: the
deliveries behind the first one that is credited buy nothing exactly when that one's reading has
reached the stamp, or no reading behind it is later and within the limit. -/
theorem replayWorthless_iff {ds : List Delivery} (h : mon.Deliveries stamp s ds s') :
    ReplayWorthless ds s' ↔
      mon.StampReached stamp s.lastHeartbeatAt (ds.map Delivery.reading) := by
  induction h with
  | none => simp [ReplayWorthless, StampReached]
  | @next now s credited s' rest s'' first tail ih =>
      obtain ⟨hcredited, hs'⟩ := first.eq
      cases credited with
      | false =>
          obtain rfl : s' = s := by rw [hs', credit, ← hcredited]; rfl
          -- the first delivery is credited on neither side
          have hworthless : ReplayWorthless (⟨now, false, s'.lastHeartbeatAt⟩ :: rest) s'' ↔
              ReplayWorthless rest s'' := forall_first_cons_of_not rfl
          have hreached : mon.StampReached stamp s'.lastHeartbeatAt
                (now :: rest.map Delivery.reading) ↔
              mon.StampReached stamp s'.lastHeartbeatAt (rest.map Delivery.reading) :=
            forall_first_cons_of_not hcredited.symm
          rw [hworthless, List.map_cons, hreached]
          exact ih
      | true =>
          have hmark : s'.lastHeartbeatAt = some (min stamp now) := by
            rw [hs', credit, ← hcredited]
            rfl
          have hworthless : ReplayWorthless (⟨now, true, s'.lastHeartbeatAt⟩ :: rest) s'' ↔
              s''.lastHeartbeatAt = s'.lastHeartbeatAt ∧ ∀ d ∈ rest, d.credited = false :=
            forall_first_cons rfl
          have hreached : mon.StampReached stamp s.lastHeartbeatAt
                (now :: rest.map Delivery.reading) ↔ _ := forall_first_cons hcredited.symm
          rw [hworthless, List.map_cons, hreached, and_iff_right_of_imp tail.mark_eq,
            tail.none_credited_iff, hmark]
          simp only [not_creditable_behind, List.forall_mem_map]
          constructor
          · intro h
            by_contra hnot
            obtain ⟨hahead, hlater⟩ := not_or.mp hnot
            exact hlater fun d hd => (h d hd).resolve_left hahead
          · rintro (hreached' | hlater) d hd
            · exact Or.inl hreached'
            · exact Or.inr (hlater d hd)

/-- A monitor at a reading of the clock. -/
def monitorAt (now : Moment) (op : MonitorCall) (s : MonitorState) :
    Except Exc op.Ans × MonitorState :=
  match op with
  | .clock => (.ok now, s)
  | .get => (.ok s, s)
  | .put new => (.ok (), new)
  | .alert _ => (.ok (), s)
  | .audit _ _ => (.ok (), s)

theorem monitorAt_allowed (now : Moment) (op : MonitorCall) (s : MonitorState) :
    monitorWorld.under (ClockSays now) s op (monitorAt now op s).1 (monitorAt now op s).2 := by
  cases op with
  | clock => exact ⟨rfl, rfl⟩
  | get => exact ⟨⟨rfl, rfl⟩, trivial⟩
  | put new => exact ⟨⟨rfl, rfl⟩, trivial⟩
  | alert event => exact ⟨rfl, trivial⟩
  | audit event t => exact ⟨rfl, trivial⟩

/-- A heartbeat can be delivered at every reading. -/
theorem delivered_credit (mon : SafetyMonitor) (stamp now : Moment) (s : MonitorState) :
    mon.Delivered stamp now s (mon.creditable stamp s.lastHeartbeatAt now)
      (mon.credit stamp now s) := by
  have exec := exec_run (monitorAt_allowed now) (mon.recordHeartbeat (some stamp)) s
  obtain ⟨hr, hs'⟩ := wp_sound exec wp_recordHeartbeat_at
  rwa [hr, hs'] at exec

/-- The default limits. -/
def plainMonitor : SafetyMonitor where
  config :=
    { stalenessLimitSec := .ofRat 300
      hysteresisSec := .ofRat 30
      bypassEnable := false
      bypassConfirmToken := ""
      bypassMaxDurationSec := .ofRat 3600 }
  sessionFn := fun _ => true
  hasAlert := false
  hasAudit := false

/-- A monitor that has heard nothing yet. -/
def silent : MonitorState := ⟨.running, none, .first, none, none⟩

/-- Deliveries at given readings. -/
def deliver (stamp : Moment) : MonitorState → List Moment → List Delivery × MonitorState
  | s, [] => ([], s)
  | s, now :: rest =>
      let s' := plainMonitor.credit stamp now s
      let (ds, s'') := deliver stamp s' rest
      (⟨now, plainMonitor.creditable stamp s.lastHeartbeatAt now, s'.lastHeartbeatAt⟩ :: ds, s'')

theorem deliveries_deliver (stamp : Moment) (s : MonitorState) (readings : List Moment) :
    plainMonitor.Deliveries stamp s (deliver stamp s readings).1 (deliver stamp s readings).2 := by
  induction readings generalizing s with
  | nil => exact .none
  | cons now rest ih => exact .next (delivered_credit _ _ _ _) (ih _)

/-- A stamp that the clock has reached, delivered twice. -/
theorem replayWorthless_iff_reached :
    (deliver (.atSecond 10) silent [.atSecond 20, .atSecond 50]).1.map Delivery.credited =
        [true, false] ∧
      (ReplayWorthless (deliver (.atSecond 10) silent [.atSecond 20, .atSecond 50]).1
          (deliver (.atSecond 10) silent [.atSecond 20, .atSecond 50]).2 ↔
        plainMonitor.StampReached (.atSecond 10) none
          ((deliver (.atSecond 10) silent [.atSecond 20, .atSecond 50]).1.map Delivery.reading)) :=
  ⟨by decide +kernel, replayWorthless_iff (deliveries_deliver _ _ _)⟩

/-- A stamp forty seconds ahead is credited now, and thirty seconds later again. -/
theorem future_stamp_credited_twice :
    ¬ ∀ (mon : SafetyMonitor) (stamp : Moment) (s s' : MonitorState) (ds : List Delivery),
      mon.Deliveries stamp s ds s' → (ds.map Delivery.reading).Pairwise (· ≤ ·) →
        ReplayWorthless ds s' := by
  intro h
  have hworthless := h _ (.atSecond 60) silent _ _
    (deliveries_deliver (.atSecond 60) silent [.atSecond 20, .atSecond 50]) (by decide +kernel)
  have hcredited : (deliver (.atSecond 60) silent [.atSecond 20, .atSecond 50]).1.map
      Delivery.credited = [true, true] := by decide +kernel
  obtain ⟨first, rest, hsplit, hfirst, hrest⟩ := List.map_eq_cons_iff.mp hcredited
  obtain ⟨second, rest', rfl, hsecond, -⟩ := List.map_eq_cons_iff.mp hrest
  obtain ⟨-, hafter⟩ := hworthless [] first (second :: rest') hsplit (by simp) hfirst
  rw [hafter second (by simp)] at hsecond
  cases hsecond

end SafetyMonitor

end System2
