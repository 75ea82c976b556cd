import System2.Execution.DarkRuntime

/-!
# Whole sessions of the safety monitor

A session is any sequence of calls on a fresh monitor, each with a clock of its own that
may also run backwards. While the hooks return, BYPASS and its start time come and go
together, only an authorised request opens it, an evaluation that leaves it open saw less
than the allowed time since the last grant, and the audit records lead from RUNNING to the
current state without a gap.

## Implementation notes

A call reads the clock at most once, so one reading for each call is all of its clock.
-/

namespace System2
open Foundation

/-- The calls on a monitor from outside. -/
inductive MonitorOp
  | recordHeartbeat (stamp : Option Moment)
  | evaluate (lastMessageAt clock : Option Moment)
  | requestBypass (token operator reason : String)
  | exitBypass (reason : String)

/-- What they return. -/
inductive MonitorAnswer
  | credited (b : Bool)
  | judged (state : SafetyState)
  | granted (b : Bool)
  | done

def MonitorOp.run (mon : SafetyMonitor) : MonitorOp → Proc MonitorI Exc MonitorAnswer
  | .recordHeartbeat stamp => (mon.recordHeartbeat stamp).bind fun b => .ret (.credited b)
  | .evaluate lastMessageAt clock =>
      (mon.evaluate lastMessageAt clock).bind fun state => .ret (.judged state)
  | .requestBypass token operator reason =>
      (mon.requestBypass token operator reason).bind fun b => .ret (.granted b)
  | .exitBypass reason => (mon.exitBypass reason).bind fun _ => .ret .done

/-- The monitor's fields with the audit records it has written. -/
structure Audited where
  monitor : MonitorState
  audits : List SafetyTransition

/-- A fresh monitor. -/
def Audited.fresh (startedAt : Moment) : Audited where
  monitor :=
    { state := .running
      lastHeartbeatAt := none
      startedAt := startedAt
      bypassStartedAt := none
      bypassOperator := none }
  audits := []

/-- A clock at `now`, and hooks that return. -/
def hookedWorld (now : Moment) : World MonitorI Exc Audited := fun w op =>
  match op with
  | .clock => fun r w' => r = .ok now ∧ w' = w
  | .get => fun r w' => r = .ok w.monitor ∧ w' = w
  | .put new => fun r w' => r = .ok () ∧ w' = { w with monitor := new }
  | .alert _ => fun r w' => r = .ok () ∧ w' = w
  | .audit event _ => fun r w' => r = .ok () ∧ w' = { w with audits := w.audits ++ [event] }

/-- A call of a session with its clock, its answer and the states around it. -/
structure MonitorCalled where
  op : MonitorOp
  now : Moment
  before : Audited
  answer : Except Exc MonitorAnswer
  after : Audited

/-- Did the call grant a BYPASS? -/
def MonitorCalled.grants (h : MonitorCalled) : Bool :=
  match h.answer with
  | .ok (.granted true) => true
  | _ => false

/-- The sessions of a monitor from a state. -/
inductive Session (mon : SafetyMonitor) (start : Audited) : List MonitorCalled → Audited → Prop
  | fresh : Session mon start [] start
  | call {hs w op now r w'} (session : Session mon start hs w)
      (exec : Exec (hookedWorld now) (op.run mon) w (some r) w') :
      Session mon start (hs ++ [⟨op, now, w, r, w'⟩]) w'

/-- When BYPASS was granted last. -/
def lastGrant (hs : List MonitorCalled) : Option Moment :=
  hs.foldl (fun last h => if h.grants then some h.now else last) none

@[simp] theorem lastGrant_concat (hs : List MonitorCalled) (h : MonitorCalled) :
    lastGrant (hs ++ [h]) = if h.grants then some h.now else lastGrant hs := by
  simp [lastGrant]

/-- Records that lead from one state to another, each from where the one before it ended. -/
def AuditChain : SafetyState → List SafetyTransition → SafetyState → Prop
  | a, [], b => a = b
  | a, event :: rest, b => event.fromState = a ∧ AuditChain event.toState rest b

theorem AuditChain.concat {a b : SafetyState} {events : List SafetyTransition}
    {event : SafetyTransition} (h : AuditChain a events b) (hfrom : event.fromState = b) :
    AuditChain a (events ++ [event]) event.toState := by
  induction events generalizing a with
  | nil => exact ⟨hfrom.trans h.symm, rfl⟩
  | cons first rest ih => exact ⟨h.1, ih h.2⟩

namespace SafetyMonitor

/-- An authorised request: the flag, and the configured token, which is not empty. -/
def Authorises (mon : SafetyMonitor) (op : MonitorOp) : Prop :=
  ∃ token operator reason, op = .requestBypass token operator reason ∧
    mon.config.bypassEnable = true ∧ token = mon.config.bypassConfirmToken ∧ token ≠ ""

/-- Less than the allowed time of a BYPASS lies between two moments. -/
def Within (mon : SafetyMonitor) (granted now : Moment) : Prop :=
  mon.config.bypassMaxDurationSec.le (now.secondsSince granted) = false ∧
    (mon.config.bypassMaxDurationSec ≠ .nan →
      (now.secondsSince granted).lt mon.config.bypassMaxDurationSec = true)

/-- The audit records account for the current state; without the hook there are none. -/
def Accounted (mon : SafetyMonitor) (w : Audited) : Prop :=
  (mon.hasAudit = true → AuditChain .running w.audits w.monitor.state) ∧
    (mon.hasAudit = false → w.audits = [])

/-- BYPASS has a start time, which is its last grant; the other states have none. -/
def Timed (granted : Option Moment) (s : MonitorState) : Prop :=
  (s.state = .bypass → ∃ t, granted = some t ∧ s.bypassStartedAt = some t) ∧
    (s.state ≠ .bypass → s.bypassStartedAt = none)

variable {mon : SafetyMonitor} {now stamp : Moment} {w : Audited} {granted : Option Moment}

/-- BYPASS exactly while there is a start time. -/
theorem Timed.iff {s : MonitorState} (h : Timed granted s) :
    s.state = .bypass ↔ s.bypassStartedAt.isSome = true := by
  constructor
  · intro hstate
    obtain ⟨t, -, ht⟩ := h.1 hstate
    rw [ht]
    rfl
  · intro hsome
    by_contra hstate
    rw [h.2 hstate] at hsome
    cases hsome

theorem within_of_not_le {granted : Moment}
    (h : mon.config.bypassMaxDurationSec.le (now.secondsSince granted) = false) :
    mon.Within granted now := by
  refine ⟨h, fun hnan => Binary64.lt_of_le_false_of_ne_nan hnan ?_ h⟩
  exact Binary64.ofRat_ne_nan _

/-- A transition ends in its new state, accounted for. -/
theorem wp_transition {new : SafetyState} {reason : String} {ctx : Dict}
    {Q : Except Exc Unit → Audited → Prop} (hw : mon.Accounted w)
    (hQ : ∀ w', mon.Accounted w' → w'.monitor = { w.monitor with state := new } → Q (.ok ()) w') :
    wp (hookedWorld now) (mon.transition new reason stamp ctx) Q w := by
  simp only [transition, Proc.bind_eq]
  refine wpc_answered (fun _ _ h => h) trivial ?_
  split_ifs with hsame
  · exact ⟨trivial, hQ w hw (by rw [← hsame.1])⟩
  · refine wpc_answered (fun _ _ h => h) trivial ?_
    have haudit : wp (hookedWorld now) (Proc.given mon.hasAudit
        (perform (.audit ⟨w.monitor.state, new, reason, ctx⟩ stamp))) Q
        { w with monitor := { w.monitor with state := new } } := by
      refine wpc_given (fun hgiven => wpc_of_perform trivial ?_) fun hnone => ?_
      · rintro r w' ⟨rfl, rfl⟩
        refine ⟨trivial, hQ _ ⟨fun _ => ?_, fun hnone => ?_⟩ rfl⟩
        · exact (hw.1 hgiven).concat rfl
        · rw [hgiven] at hnone
          cases hnone
      · refine ⟨trivial, hQ _ ⟨fun hgiven => ?_, hw.2⟩ rfl⟩
        rw [hgiven] at hnone
        cases hnone
    refine (wpc_bind _ _ _ _).mpr ?_
    refine wpc_given (fun _ => wpc_of_perform trivial ?_) fun _ => ⟨trivial, haudit⟩
    rintro r w' ⟨rfl, rfl⟩
    exact ⟨trivial, haudit⟩

theorem wp_leaveBypass {reason : String} {Q : Except Exc Unit → Audited → Prop}
    (hw : mon.Accounted w)
    (hQ : ∀ w', mon.Accounted w' → w'.monitor.state = .running →
      w'.monitor.bypassStartedAt = none → Q (.ok ()) w') :
    wp (hookedWorld now) (mon.leaveBypass reason stamp) Q w := by
  simp only [leaveBypass, Proc.bind_eq]
  refine wpc_answered (fun _ _ h => h) trivial ?_
  refine wpc_answered (fun _ _ h => h) trivial ?_
  refine wp_transition (w := { w with monitor := _ }) hw ?_
  intro w' hw' hmon
  exact hQ w' hw' (by rw [hmon]) (by rw [hmon])

/-- What a call that grants nothing leaves: a sound monitor that did not enter BYPASS. -/
def Kept (mon : SafetyMonitor) (granted : Option Moment) (w w' : Audited) : Prop :=
  mon.Accounted w' ∧ Timed granted w'.monitor ∧
    (w'.monitor.state = .bypass → w.monitor.state = .bypass)

/-- A transition between RUNNING and PAUSED. -/
theorem wp_judge {staleness : Binary64} (hw : mon.Accounted w) (htimed : Timed granted w.monitor)
    (hstate : w.monitor.state ≠ .bypass) :
    wp (hookedWorld now) (mon.judge staleness stamp w.monitor.state)
      (fun r w' => r = .ok () ∧ mon.Kept granted w w' ∧ w'.monitor.state ≠ .bypass) w := by
  have hmoved : ∀ new, new ≠ SafetyState.bypass → ∀ w', mon.Accounted w' →
      w'.monitor = { w.monitor with state := new } →
      mon.Kept granted w w' ∧ w'.monitor.state ≠ .bypass := by
    intro new hnew w' hw' hmon
    have hleft : w'.monitor.state ≠ .bypass := by
      rw [hmon]
      exact hnew
    refine ⟨⟨hw', ⟨fun h => absurd h hleft, fun _ => ?_⟩, fun h => absurd h hleft⟩, hleft⟩
    rw [hmon]
    exact htimed.2 hstate
  simp only [judge]
  split_ifs
  · exact wp_transition hw fun w' hw' hmon => ⟨rfl, hmoved .paused (by decide) w' hw' hmon⟩
  · exact wp_transition hw fun w' hw' hmon => ⟨rfl, hmoved .running (by decide) w' hw' hmon⟩
  · exact ⟨trivial, rfl, ⟨hw, htimed, fun h => absurd h hstate⟩, hstate⟩

/-- Outside a BYPASS an evaluation stays outside. -/
theorem wp_evaluateFreshness {last : Option Moment} (hw : mon.Accounted w)
    (htimed : Timed granted w.monitor) (hstate : w.monitor.state ≠ .bypass) :
    wp (hookedWorld now) (mon.evaluateFreshness last stamp)
      (fun r w' => (∃ state, r = .ok state) ∧ mon.Kept granted w w' ∧
        w'.monitor.state ≠ .bypass) w := by
  have hrest : ∀ p : Proc MonitorI Exc Unit, wp (hookedWorld now) p (fun r w' => r = .ok () ∧
      mon.Kept granted w w' ∧ w'.monitor.state ≠ .bypass) w →
      wp (hookedWorld now) (p.bind fun _ => (perform .get).bind fun s => Proc.ret s.state)
        (fun r w' => (∃ state, r = .ok state) ∧ mon.Kept granted w w' ∧
          w'.monitor.state ≠ .bypass) w := by
    intro p hp
    refine wpc_seq hp ?_ ?_
    · rintro _ w' - ⟨-, hkept⟩
      exact wpc_answered (fun _ _ h => h) trivial ⟨trivial, ⟨_, rfl⟩, hkept⟩
    · rintro e w' - ⟨herr, -⟩
      cases herr
  simp only [evaluateFreshness, Proc.bind_eq]
  refine wpc_answered (fun _ _ h => h) trivial ?_
  split_ifs with hsession hpaused
  · exact hrest _ (wp_judge hw htimed hstate)
  · refine hrest _ (wp_transition hw ?_)
    intro w' hw' hmon
    have hleft : w'.monitor.state ≠ .bypass := by simp [hmon]
    refine ⟨rfl, ⟨hw', ⟨fun h => absurd h hleft, fun _ => ?_⟩, fun h => absurd h hleft⟩, hleft⟩
    rw [hmon]
    exact htimed.2 hstate
  · exact hrest _ ⟨trivial, rfl, ⟨hw, htimed, fun h => absurd h hstate⟩, hstate⟩

/-- An evaluation returns; when it leaves BYPASS on, the window is still open. -/
theorem wp_evaluate {last clock : Option Moment} (hw : mon.Accounted w)
    (htimed : Timed granted w.monitor) :
    wp (hookedWorld now) (mon.evaluate last clock)
      (fun r w' => (∃ state, r = .ok state) ∧ mon.Kept granted w w' ∧
        (w'.monitor.state = .bypass → ∃ t, granted = some t ∧ mon.Within t (clock.getD now))) w := by
  have hstamp : ∀ stamp : Moment, wp (hookedWorld now)
      ((mon.bypassHolds stamp).bind fun holds =>
        if holds then Proc.ret SafetyState.bypass else mon.evaluateFreshness last stamp)
      (fun r w' => (∃ state, r = .ok state) ∧ mon.Kept granted w w' ∧
        (w'.monitor.state = .bypass → ∃ t, granted = some t ∧ mon.Within t stamp)) w := by
    intro stamp
    have houtside : ∀ w', mon.Accounted w' → Timed granted w'.monitor →
        w'.monitor.state ≠ .bypass → wp (hookedWorld now) (mon.evaluateFreshness last stamp)
          (fun r w' => (∃ state, r = .ok state) ∧ mon.Kept granted w w' ∧
            (w'.monitor.state = .bypass → ∃ t, granted = some t ∧ mon.Within t stamp)) w' := by
      intro w₁ hw₁ htimed₁ hstate₁
      apply wpc_post (wp_evaluateFreshness hw₁ htimed₁ hstate₁)
      rintro r w' - ⟨hr, ⟨hw', htimed', -⟩, hstate'⟩
      exact ⟨hr, ⟨hw', htimed', fun h => absurd h hstate'⟩, fun h => absurd h hstate'⟩
    refine wpc_seq (R := fun r w' => r = .ok true ∧ w' = w ∧
        (∃ t, granted = some t ∧ mon.Within t stamp) ∨
      r = .ok false ∧ mon.Accounted w' ∧ Timed granted w'.monitor ∧
        w'.monitor.state ≠ .bypass) ?_ ?_ ?_
    · simp only [bypassHolds, Proc.bind_eq]
      refine wpc_answered (fun _ _ h => h) trivial ?_
      split_ifs with hstate
      · obtain ⟨t, hgrant, hstarted⟩ := htimed.1 hstate
        simp only [hstarted]
        split_ifs with hexpired
        · refine wpc_seq (R := fun r w' => r = .ok () ∧ mon.Accounted w' ∧
            Timed granted w'.monitor ∧ w'.monitor.state ≠ .bypass) ?_ ?_ ?_
          · apply wp_leaveBypass hw
            intro w' hw' hrunning hnone
            have hleft : w'.monitor.state ≠ .bypass := by simp [hrunning]
            exact ⟨rfl, hw', ⟨fun h => absurd h hleft, fun _ => hnone⟩, hleft⟩
          · rintro _ w' - ⟨-, hleft⟩
            exact ⟨trivial, Or.inr ⟨rfl, hleft⟩⟩
          · rintro e w' - ⟨herr, -⟩
            cases herr
        · refine ⟨trivial, Or.inl ⟨rfl, rfl, t, hgrant, within_of_not_le ?_⟩⟩
          simpa using hexpired
      · exact ⟨trivial, Or.inr ⟨rfl, hw, htimed, hstate⟩⟩
    · rintro holds w' - (⟨hholds, rfl, hwithin⟩ | ⟨hholds, hw', htimed', hstate'⟩)
      · cases hholds
        exact ⟨trivial, ⟨_, rfl⟩, ⟨hw, htimed, fun h => h⟩, fun _ => hwithin⟩
      · cases hholds
        exact houtside w' hw' htimed' hstate'
    · rintro e w' - (⟨herr, -⟩ | ⟨herr, -⟩)
      · cases herr
      · cases herr
  simp only [evaluate, Proc.bind_eq]
  cases clock with
  | some stamp => exact hstamp stamp
  | none => exact wpc_answered (fun _ _ h => h) trivial (hstamp now)

theorem wp_recordHeartbeat {stamp : Option Moment} (hw : mon.Accounted w)
    (htimed : Timed granted w.monitor) :
    wp (hookedWorld now) (mon.recordHeartbeat stamp)
      (fun r w' => (∃ b, r = .ok b) ∧ mon.Kept granted w w') w := by
  have hkept : mon.Kept granted w w := ⟨hw, htimed, fun h => h⟩
  simp only [recordHeartbeat, Proc.bind_eq]
  refine wpc_answered (fun _ _ h => h) trivial ?_
  split_ifs
  · exact ⟨trivial, ⟨_, rfl⟩, hkept⟩
  · refine wpc_answered (fun _ _ h => h) trivial ?_
    split_ifs
    · exact ⟨trivial, ⟨_, rfl⟩, hkept⟩
    · exact wpc_answered (fun _ _ h => h) trivial ⟨trivial, ⟨_, rfl⟩, hkept⟩

theorem wp_exitBypass {reason : String} (hw : mon.Accounted w) (htimed : Timed granted w.monitor) :
    wp (hookedWorld now) (mon.exitBypass reason)
      (fun r w' => r = .ok () ∧ mon.Kept granted w w') w := by
  simp only [exitBypass, Proc.bind_eq]
  refine wpc_answered (fun _ _ h => h) trivial ?_
  split_ifs with hstate
  · refine wpc_answered (fun _ _ h => h) trivial ?_
    apply wp_leaveBypass hw
    intro w' hw' hrunning hnone
    have hleft : w'.monitor.state ≠ .bypass := by simp [hrunning]
    exact ⟨rfl, hw', ⟨fun h => absurd h hleft, fun _ => hnone⟩, fun h => absurd h hleft⟩
  · exact ⟨trivial, rfl, hw, htimed, fun h => h⟩

/-- A request is refused without effect, or it is authorised and starts the time of BYPASS. -/
theorem wp_requestBypass {token operator reason : String} (hw : mon.Accounted w) :
    wp (hookedWorld now) (mon.requestBypass token operator reason)
      (fun r w' => r = .ok false ∧ w' = w ∨ r = .ok true ∧ mon.Accounted w' ∧
        Timed (some now) w'.monitor ∧ mon.Authorises (.requestBypass token operator reason)) w := by
  unfold requestBypass
  split_ifs with hflag htoken
  · exact ⟨trivial, Or.inl ⟨rfl, rfl⟩⟩
  · exact ⟨trivial, Or.inl ⟨rfl, rfl⟩⟩
  · push Not at htoken
    simp only [Proc.bind_eq]
    refine wpc_answered (fun _ _ h => h) trivial ?_
    refine wpc_answered (fun _ _ h => h) trivial ?_
    refine wpc_answered (fun _ _ h => h) trivial ?_
    refine wpc_seq (R := fun r w' => r = .ok () ∧ mon.Accounted w' ∧
      Timed (some now) w'.monitor) ?_ ?_ ?_
    · refine wp_transition (w := { w with monitor := _ }) hw ?_
      intro w' hw' hmon
      refine ⟨rfl, hw', ⟨fun _ => ⟨now, rfl, by rw [hmon]⟩, fun h => ?_⟩⟩
      exact absurd (by rw [hmon]) h
    · rintro _ w' - ⟨-, hw', htimed'⟩
      refine ⟨trivial, Or.inr ⟨rfl, hw', htimed', token, operator, reason, rfl, ?_, htoken.2, ?_⟩⟩
      · simpa using hflag
      · rw [htoken.2]
        exact htoken.1
    · rintro e w' - ⟨herr, -⟩
      cases herr

/-! ### Sessions -/

/-- What holds of a call made in a sound state after the calls before it. -/
structure SoundCall (mon : SafetyMonitor) (granted : Option Moment) (h : MonitorCalled) : Prop where
  returns : ∃ a, h.answer = .ok a
  accounted : mon.Accounted h.after
  timed : Timed (if h.grants then some h.now else granted) h.after.monitor
  enters : h.before.monitor.state ≠ .bypass → h.after.monitor.state = .bypass →
    mon.Authorises h.op
  within : ∀ last clock, h.op = .evaluate last clock → h.after.monitor.state = .bypass →
    ∃ t, granted = some t ∧ mon.Within t (clock.getD h.now)

/-- A call that grants nothing and stays outside BYPASS if it began there. -/
theorem Kept.soundCall {h : MonitorCalled} (hkept : mon.Kept granted h.before h.after)
    (hreturns : ∃ a, h.answer = .ok a) (hgrants : h.grants = false)
    (hwithin : ∀ last clock, h.op = .evaluate last clock → h.after.monitor.state = .bypass →
      ∃ t, granted = some t ∧ mon.Within t (clock.getD h.now)) : mon.SoundCall granted h where
  returns := hreturns
  accounted := hkept.1
  timed := by
    rw [hgrants]
    exact hkept.2.1
  enters := fun hbefore hafter => absurd (hkept.2.2 hafter) hbefore
  within := hwithin

/-- One call from a sound state. -/
theorem wp_run (op : MonitorOp) (hw : mon.Accounted w) (htimed : Timed granted w.monitor) :
    wp (hookedWorld now) (op.run mon)
      (fun r w' => mon.SoundCall granted ⟨op, now, w, r, w'⟩) w := by
  cases op with
  | recordHeartbeat stamp =>
      refine wpc_seq (wp_recordHeartbeat hw htimed) ?_ ?_
      · rintro b w' - ⟨-, hkept⟩
        exact ⟨trivial, hkept.soundCall ⟨_, rfl⟩ rfl fun last clock hop => by cases hop⟩
      · rintro e w' - ⟨⟨b, herr⟩, -⟩
        cases herr
  | evaluate last clock =>
      refine wpc_seq (wp_evaluate hw htimed) ?_ ?_
      · rintro state w' - ⟨-, hkept, hwithin⟩
        refine ⟨trivial, hkept.soundCall ⟨_, rfl⟩ rfl fun last' clock' hop => ?_⟩
        cases hop
        exact hwithin
      · rintro e w' - ⟨⟨b, herr⟩, -⟩
        cases herr
  | requestBypass token operator reason =>
      refine wpc_seq (wp_requestBypass hw) ?_ ?_
      · rintro b w' - (⟨hb, rfl⟩ | ⟨hb, hw', htimed', hauth⟩)
        · cases hb
          have hkept : mon.Kept granted w' w' := ⟨hw, htimed, fun h => h⟩
          exact ⟨trivial, hkept.soundCall ⟨_, rfl⟩ rfl fun last clock hop => by cases hop⟩
        · cases hb
          exact ⟨trivial, ⟨_, rfl⟩, hw', htimed', fun _ _ => hauth, fun last clock hop => by
            cases hop⟩
      · rintro e w' - (⟨herr, -⟩ | ⟨herr, -⟩)
        · cases herr
        · cases herr
  | exitBypass reason =>
      refine wpc_seq (wp_exitBypass hw htimed) ?_ ?_
      · rintro _ w' - ⟨-, hkept⟩
        exact ⟨trivial, hkept.soundCall ⟨_, rfl⟩ rfl fun last clock hop => by cases hop⟩
      · rintro e w' - ⟨herr, -⟩
        cases herr

/-- Every session keeps the monitor sound, and every call of it is sound. -/
theorem session_invariant {start w : Audited} {hs : List MonitorCalled}
    (hstart : mon.Accounted start ∧ Timed none start.monitor) (session : Session mon start hs w) :
    mon.Accounted w ∧ Timed (lastGrant hs) w.monitor ∧
      ∀ hs₁ h hs₂, hs = hs₁ ++ h :: hs₂ → mon.SoundCall (lastGrant hs₁) h := by
  induction session with
  | fresh => exact ⟨hstart.1, hstart.2, fun hs₁ h hs₂ heq => by simp at heq⟩
  | @call hs w op now r w' session exec ih =>
      obtain ⟨hw, htimed, hcalls⟩ := ih
      have hcall := wp_sound exec (wp_run op hw htimed)
      refine ⟨hcall.accounted, ?_, fun hs₁ h hs₂ heq => ?_⟩
      · rw [lastGrant_concat]
        exact hcall.timed
      · rcases List.eq_nil_or_concat hs₂ with rfl | ⟨hs₃, last, rfl⟩
        · obtain ⟨rfl, rfl⟩ : hs = hs₁ ∧ _ = h := by simpa using List.append_inj' heq rfl
          exact hcall
        · rw [List.concat_eq_append, ← List.cons_append, ← List.append_assoc] at heq
          exact hcalls hs₁ h hs₃ (List.append_inj' heq rfl).1

/-- What is promised of a session that has come to a state. -/
structure SoundSession (mon : SafetyMonitor) (hs : List MonitorCalled) (w : Audited) : Prop where
  timed : w.monitor.state = .bypass ↔ w.monitor.bypassStartedAt.isSome = true
  returns : ∀ h ∈ hs, ∃ a, h.answer = .ok a
  enters : ∀ h ∈ hs, h.before.monitor.state ≠ .bypass → h.after.monitor.state = .bypass →
    mon.Authorises h.op
  within : ∀ hs₁ h hs₂ last clock, hs = hs₁ ++ h :: hs₂ → h.op = .evaluate last clock →
    h.after.monitor.state = .bypass →
      ∃ granted, lastGrant hs₁ = some granted ∧ mon.Within granted (clock.getD h.now)
  chained : if mon.hasAudit then AuditChain .running w.audits w.monitor.state else w.audits = []

/-- Every session from a fresh monitor is sound. -/
theorem session_sound {startedAt : Moment} {hs : List MonitorCalled} {w : Audited}
    (session : Session mon (.fresh startedAt) hs w) : mon.SoundSession hs w := by
  have hfresh : mon.Accounted (.fresh startedAt) ∧ Timed none (Audited.fresh startedAt).monitor :=
    ⟨⟨fun _ => rfl, fun _ => rfl⟩, ⟨(fun h => by cases h), fun _ => rfl⟩⟩
  obtain ⟨haccounted, htimed, hcalls⟩ := session_invariant hfresh session
  refine ⟨htimed.iff, fun h hh => ?_, fun h hh => ?_, ?_, ?_⟩
  · obtain ⟨hs₁, hs₂, heq⟩ := List.append_of_mem hh
    exact (hcalls hs₁ h hs₂ heq).returns
  · obtain ⟨hs₁, hs₂, heq⟩ := List.append_of_mem hh
    exact (hcalls hs₁ h hs₂ heq).enters
  · intro hs₁ h hs₂ last clock heq
    exact (hcalls hs₁ h hs₂ heq).within last clock
  · split_ifs with haudit
    · exact haccounted.1 haudit
    · exact haccounted.2 (by simpa using haudit)

/-- A deterministic host: a clock at `now`, and hooks that return. -/
def hooked (now : Moment) (op : MonitorCall) (w : Audited) : Except Exc op.Ans × Audited :=
  match op with
  | .clock => (.ok now, w)
  | .get => (.ok w.monitor, w)
  | .put new => (.ok (), { w with monitor := new })
  | .alert _ => (.ok (), w)
  | .audit event _ => (.ok (), { w with audits := w.audits ++ [event] })

theorem hooked_step (now : Moment) (op : MonitorCall) (w : Audited) :
    hookedWorld now w op (hooked now op w).1 (hooked now op w).2 := by
  cases op with
  | clock => exact ⟨rfl, rfl⟩
  | get => exact ⟨rfl, rfl⟩
  | put new => exact ⟨rfl, rfl⟩
  | alert event => exact ⟨rfl, rfl⟩
  | audit event tsUtc => exact ⟨rfl, rfl⟩

/-- A call as the deterministic host answers it. -/
def called (mon : SafetyMonitor) (w : Audited) (op : MonitorOp) (now : Moment) : MonitorCalled where
  op := op
  now := now
  before := w
  answer := ((op.run mon).run (hooked now) w).1
  after := ((op.run mon).run (hooked now) w).2

/-- A monitor whose BYPASS may be opened with a token for an hour. -/
def armed : SafetyMonitor where
  config :=
    { stalenessLimitSec := .ofRat 300
      hysteresisSec := .ofRat 30
      bypassEnable := true
      bypassConfirmToken := "token"
      bypassMaxDurationSec := .ofRat 3600 }
  sessionFn := fun _ => true
  hasAlert := true
  hasAudit := true

/-- The grant of a BYPASS. -/
def granting : MonitorCalled := called armed (.fresh .first) (.requestBypass "token" "ops" "outage") .first

/-- An evaluation right after it. -/
def evaluating : MonitorCalled := called armed granting.after (.evaluate none (some .first)) .first

/-- The evaluation leaves BYPASS on, and the one record leads there. -/
theorem session_sound_granted : evaluating.after.monitor.state = .bypass ∧
    armed.SoundSession [granting, evaluating] evaluating.after := by
  have session : Session armed (.fresh .first) [granting, evaluating] evaluating.after :=
    .call (.call .fresh (exec_run (hooked_step .first) _ _))
      (exec_run (hooked_step .first) _ _)
  exact ⟨by decide +kernel, session_sound session⟩

end SafetyMonitor

end System2
