import System2.Execution.Lifecycle
import System2.Execution.GatesPassed
import System2.Execution.MessageVerdict
import Mathlib.Logic.Relation

/-!
# A dark System 3 gets nothing submitted

When the session is open, no BYPASS window is running and the last evidence of
System 3 is older than the limit, a tick evaluates to PAUSED before it polls, and
with a closed gate no path of the consumer reaches `submit_fn`. Nothing but newer
evidence or a granted BYPASS ends this.

## Implementation notes

The evaluation may leave RUNNING behind when a hook raises while an expired BYPASS
is left; such a tick does not poll. So PAUSED is claimed from the poll on.
-/

namespace System2
open Foundation

namespace SafetyMonitor

/-- No BYPASS is active whose window is still open. -/
def Unbypassed (mon : SafetyMonitor) (now : Moment) (s : MonitorState) : Prop :=
  s.state = .bypass → ∀ started, s.bypassStartedAt = some started →
    mon.config.bypassMaxDurationSec.le (now.secondsSince started) = true

/-- The evidence is older than the limit. -/
def Stale (mon : SafetyMonitor) (now fresh : Moment) : Prop :=
  mon.config.stalenessLimitSec.lt (now.secondsSince fresh) = true

variable {mon : SafetyMonitor} {now now' : Moment} {s s' : MonitorState}

/-- An expired window stays expired. -/
theorem Unbypassed.mono (h : mon.Unbypassed now s) (later : now ≤ now') :
    mon.Unbypassed now' s := fun hstate started hstarted =>
  Binary64.le_trans (h hstate started hstarted)
    (Moment.secondsSince_mono later (le_refl started))

/-- Stale evidence stays stale, and older evidence is stale as well. -/
theorem Stale.mono {fresh fresh' : Moment} (h : mon.Stale now fresh) (later : now ≤ now')
    (older : fresh' ≤ fresh) : mon.Stale now' fresh' :=
  Binary64.lt_of_lt_of_le h (Moment.secondsSince_mono later older)

section Calls

variable {C : MonitorState → Prop}

/-- The hooks leave the monitor's fields alone. -/
theorem wpc_hooks {event : SafetyTransition} {Q : Except Exc Unit → MonitorState → Prop}
    (hC : C s) (hQ : ∀ r, Q r s) :
    wpc monitorWorld C ((Proc.given mon.hasAlert (perform (.alert event))).bind fun _ =>
      Proc.given mon.hasAudit (perform (.audit event now))) Q s := by
  have haudit : wpc monitorWorld C (Proc.given mon.hasAudit (perform (.audit event now))) Q s := by
    refine wpc_given (fun _ => wpc_of_perform hC ?_) fun _ => ⟨hC, hQ _⟩
    rintro r s' rfl
    exact ⟨hC, hQ r⟩
  rw [wpc_bind]
  refine wpc_given (fun _ => wpc_of_perform hC ?_) fun _ => ⟨hC, haudit⟩
  rintro r s' rfl
  refine ⟨hC, ?_⟩
  cases r with
  | error e => exact hQ _
  | ok _ => exact haudit

theorem wpc_transition {new : SafetyState} {reason : String} {ctx : Dict}
    {Q : Except Exc Unit → MonitorState → Prop} (hC : C s) (hnew : C { s with state := new })
    (hQ : ∀ r, Q r { s with state := new }) :
    wpc monitorWorld C (mon.transition new reason now ctx) Q s := by
  simp only [transition, Proc.bind_eq]
  refine wpc_answered (fun _ _ h => h.symm) hC ?_
  split_ifs with hsame
  · have hkept : { s with state := new } = s := by rw [← hsame.1]
    exact ⟨hC, hkept ▸ hQ _⟩
  · exact wpc_answered (fun _ _ h => h.symm) hC (wpc_hooks hnew hQ)

theorem wpc_leaveBypass {reason : String} {Q : Except Exc Unit → MonitorState → Prop} (hC : C s)
    (hleft : ∀ state, C { s with
      state := state, bypassStartedAt := none, bypassOperator := none })
    (hQ : ∀ r, Q r { s with
      state := .running, bypassStartedAt := none, bypassOperator := none }) :
    wpc monitorWorld C (mon.leaveBypass reason now) Q s := by
  simp only [leaveBypass, Proc.bind_eq]
  refine wpc_answered (fun _ _ h => h.symm) hC ?_
  exact wpc_answered (fun _ _ h => h.symm) hC (wpc_transition (hleft s.state) (hleft .running) hQ)

end Calls

/-- What the monitor still has of `s` while it evaluates: PAUSED is not left. -/
def KeepsPaused (s s' : MonitorState) : Prop := s.state = .paused → s'.state = .paused

/-- Beyond the limit RUNNING turns into PAUSED, and the hysteresis does not let PAUSED go. -/
theorem wpc_judge {staleness : Binary64} (hhyst : Binary64.zero.le mon.config.hysteresisSec = true)
    (hstale : mon.config.stalenessLimitSec.lt staleness = true) (hbypass : s.state ≠ .bypass)
    {s₀ : MonitorState} (hkeeps : KeepsPaused s₀ s) :
    wpc monitorWorld (KeepsPaused s₀) (mon.judge staleness now s.state)
      (fun _ s' => s'.state = .paused) s := by
  simp only [judge]
  split_ifs with hrun hresume
  · exact wpc_transition hkeeps (fun _ => rfl) fun _ => rfl
  · have hfresh := Binary64.lt_of_lt_sub hhyst hresume.2
    rw [Binary64.lt_asymm hstale] at hfresh
    cases hfresh
  · refine ⟨hkeeps, ?_⟩
    cases hstate : s.state with
    | running => exact absurd ⟨hstate, hstale⟩ hrun
    | paused => exact hstate
    | bypass => exact absurd hstate hbypass

/-- Outside a BYPASS a dark evaluation ends PAUSED. -/
theorem wpc_evaluateFreshness {last : Option Moment}
    (hhyst : Binary64.zero.le mon.config.hysteresisSec = true)
    (hsession : mon.sessionFn now = true) (hstale : mon.Stale now (s.freshAt last))
    (hbypass : s.state ≠ .bypass) {s₀ : MonitorState} (hkeeps : KeepsPaused s₀ s) :
    wpc monitorWorld (KeepsPaused s₀) (mon.evaluateFreshness last now)
      (fun r s' => ∀ state, r = .ok state → state = .paused ∧ s'.state = .paused) s := by
  simp only [evaluateFreshness, hsession, if_true, Proc.bind_eq]
  refine wpc_answered (fun _ _ h => h.symm) hkeeps ?_
  rw [wpc_bind]
  apply wpc_post (wpc_judge hhyst hstale hbypass hkeeps)
  intro r s' hkeeps' hpaused
  cases r with
  | error e => exact fun state h => by cases h
  | ok _ =>
      refine wpc_answered (fun _ _ h => h.symm) hkeeps' ⟨hkeeps', ?_⟩
      rintro state ⟨⟩
      exact ⟨hpaused, hpaused⟩

/-- An expired BYPASS falls through to the staleness check of the same evaluation. -/
theorem wpc_darkEvaluate {last : Option Moment}
    (hhyst : Binary64.zero.le mon.config.hysteresisSec = true)
    (hsession : mon.sessionFn now = true) (hstale : mon.Stale now (s.freshAt last))
    (hbypass : mon.Unbypassed now s) :
    wpc monitorWorld (KeepsPaused s) (mon.evaluate last (some now))
      (fun r s' => ∀ state, r = .ok state → state = .paused ∧ s'.state = .paused) s := by
  have hkeeps : KeepsPaused s s := fun h => h
  simp only [evaluate, Proc.bind_eq, Proc.ret_bind]
  rw [wpc_bind]
  refine wpc_answered (fun _ _ h => h.symm) hkeeps ?_
  split_ifs with hstate
  · cases hstarted : s.bypassStartedAt with
    | none => exact ⟨hkeeps, fun state h => by cases h⟩
    | some started =>
        simp only [hbypass hstate started hstarted, if_true, Proc.bind_eq]
        rw [wpc_bind]
        have hleft : ∀ s', KeepsPaused s s' := fun s' h => by rw [hstate] at h; cases h
        apply wpc_leaveBypass hkeeps (fun _ => hleft _)
        intro r
        cases r with
        | error e => exact fun state h => by cases h
        | ok _ =>
            refine ⟨hleft _, wpc_evaluateFreshness hhyst hsession ?_ (by simp) (hleft _)⟩
            exact hstale
  · exact ⟨hkeeps, wpc_evaluateFreshness hhyst hsession hstale hstate hkeeps⟩

section NoGrant

/-- Calls that open no BYPASS: what is written is not in BYPASS or has no window. -/
def grantsNothing : MonitorCall → Prop
  | .put new => new.state ≠ .bypass ∨ new.bypassStartedAt = none
  | _ => True

theorem Unbypassed.step {op : MonitorCall} {r : Except Exc op.Ans} (hop : grantsNothing op)
    (h : mon.Unbypassed now s) (step : monitorWorld s op r s') : mon.Unbypassed now s' := by
  cases op with
  | put new =>
      obtain ⟨rfl, -⟩ := step
      intro hstate started hstarted
      rcases hop with hleft | hnone
      · exact absurd hstate hleft
      · rw [hnone] at hstarted
        cases hstarted
  | get =>
      obtain ⟨rfl, -⟩ := step
      exact h
  | clock =>
      subst step
      exact h
  | alert event =>
      subst step
      exact h
  | audit event tsUtc =>
      subst step
      exact h

theorem transition_grantsNothing {new : SafetyState} {reason : String} {ctx : Dict}
    (hnew : new ≠ .bypass) : (mon.transition new reason now ctx).Only grantsNothing := by
  refine (Proc.along_perform trivial).bind fun s => ?_
  dsimp only
  split_ifs
  · exact trivial
  · refine (Proc.along_perform (Or.inl hnew)).bind fun _ => ?_
    refine (Proc.along_given (Proc.along_perform trivial)).bind fun _ => ?_
    exact Proc.along_given (Proc.along_perform trivial)

theorem leaveBypass_grantsNothing {reason : String} :
    (mon.leaveBypass reason now).Only grantsNothing := by
  refine (Proc.along_perform trivial).bind fun s => ?_
  refine (Proc.along_perform (Or.inr rfl)).bind fun _ => ?_
  exact transition_grantsNothing (by decide)

theorem judge_grantsNothing {staleness : Binary64} {state : SafetyState} :
    (mon.judge staleness now state).Only grantsNothing := by
  simp only [judge]
  split_ifs
  · exact transition_grantsNothing (by decide)
  · exact transition_grantsNothing (by decide)
  · exact trivial

theorem evaluate_grantsNothing {last clock : Option Moment} :
    (mon.evaluate last clock).Only grantsNothing := by
  have hfreshness : ∀ now, (mon.evaluateFreshness last now).Only grantsNothing := by
    intro now
    refine (Proc.along_perform trivial).bind fun s => ?_
    have hrest : ∀ _ : Unit, ((perform .get).bind fun s => Proc.ret s.state).Only
        grantsNothing := fun _ => (Proc.along_perform trivial).bind fun _ => trivial
    dsimp only
    split_ifs
    · exact judge_grantsNothing.bind hrest
    · exact (transition_grantsNothing (by decide)).bind hrest
    · exact hrest ()
  have hholds : ∀ now, (mon.bypassHolds now).Only grantsNothing := by
    intro now
    refine (Proc.along_perform trivial).bind fun s => ?_
    split_ifs
    · cases s.bypassStartedAt with
      | none => exact trivial
      | some started =>
          dsimp only
          split_ifs
          · exact leaveBypass_grantsNothing.bind fun _ => trivial
          · exact trivial
    · exact trivial
  have hrest : ∀ now, ((mon.bypassHolds now).bind fun holds =>
      if holds then Proc.ret .bypass else mon.evaluateFreshness last now).Only grantsNothing := by
    intro now
    refine (hholds now).bind fun holds => ?_
    split_ifs
    · exact trivial
    · exact hfreshness now
  cases clock with
  | some now => exact hrest now
  | none => exact (Proc.along_perform trivial).bind hrest

theorem exitBypass_grantsNothing {reason : String} :
    (mon.exitBypass reason).Only grantsNothing := by
  refine (Proc.along_perform trivial).bind fun s => ?_
  split_ifs
  · exact (Proc.along_perform trivial).bind fun _ => leaveBypass_grantsNothing
  · exact trivial

/-- Without a grant no BYPASS becomes active. -/
theorem wpc_unbypassed {α : Type} {p : Proc MonitorI Exc α} (hp : p.Only grantsNothing)
    (h : mon.Unbypassed now s) :
    wpc monitorWorld (mon.Unbypassed now) p (fun _ s' => mon.Unbypassed now s') s :=
  wpc_of_only (fun _ _ _ _ hop hs step => hs.step hop step) hp h

end NoGrant

/-- Same state, same BYPASS window. -/
def SameMode (s s' : MonitorState) : Prop :=
  s'.state = s.state ∧ s'.bypassStartedAt = s.bypassStartedAt

/-- A heartbeat changes the mark alone. -/
theorem wpc_recordHeartbeat {stamp : Option Moment} :
    wpc monitorWorld (SameMode s) (mon.recordHeartbeat stamp) (fun _ s' => SameMode s s') s := by
  have hsame : SameMode s s := ⟨rfl, rfl⟩
  simp only [recordHeartbeat, Proc.bind_eq]
  rw [wpc_bind]
  apply wpc_of_perform hsame
  rintro r s' rfl
  refine ⟨hsame, ?_⟩
  cases r with
  | error e => exact hsame
  | ok now =>
      dsimp only
      split_ifs
      · exact ⟨hsame, hsame⟩
      · refine wpc_answered (fun _ _ h => h.symm) hsame ?_
        split_ifs
        · exact ⟨hsame, hsame⟩
        · exact wpc_answered (fun _ _ h => h.symm) hsame ⟨⟨rfl, rfl⟩, rfl, rfl⟩

/-- A refused request changes nothing. -/
theorem wp_requestBypass_refused {token operator reason : String} :
    wp monitorWorld (mon.requestBypass token operator reason)
      (fun r s' => r = .ok false → s' = s) s := by
  unfold requestBypass
  split_ifs
  · exact ⟨trivial, fun _ => rfl⟩
  · exact ⟨trivial, fun _ => rfl⟩
  · simp only [Proc.bind_eq, wpc_bind]
    apply wpc_of_perform trivial
    rintro r s' rfl
    refine ⟨trivial, ?_⟩
    cases r with
    | error e => exact fun h => by cases h
    | ok now =>
        simp only [← wpc_bind]
        refine wpc_answered (fun _ _ h => h.symm) trivial ?_
        refine wpc_answered (fun _ _ h => h.symm) trivial ?_
        rw [wpc_bind]
        apply wpc_transition trivial trivial
        intro r
        cases r with
        | error e => exact fun h => by cases h
        | ok _ => exact ⟨trivial, fun h => by cases h⟩

end SafetyMonitor

namespace Consumer

variable {F : Type} {c : Consumer} {msg : ReceivedMessage} {now : Moment}

/-- The answers while the safety gate is closed. -/
def gateShut : (op : ConsumerCall F) → Except Exc op.Ans → Prop
  | .submitGateFn, r => r ≠ .ok true
  | _, _ => True

/-- Behind a closed gate an order is answered, parked or left in the queue. -/
theorem handleOrder_notSubmit (hgate : c.hasSubmitGate = true) (order : ApprovedOrder) :
    (handleOrder (F := F) c msg now order).Along gateShut notSubmit := by
  refine (Proc.Only.along (anySeen_only order fun _ _ => rfl)).bind fun duplicate => ?_
  split_ifs
  · exact (along_notSubmit rfl).bind fun _ => trivial
  · exact (along_notSubmit rfl).bind fun _ => trivial
  · simp only [gateOpen, hgate, if_true, Proc.bind_eq]
    refine Proc.along_perform_bind rfl fun submitting hshut => ?_
    cases submitting with
    | true => exact absurd rfl hshut
    | false => exact (along_notSubmit rfl).bind fun _ => trivial

theorem handleEnvelope_notSubmit (hgate : c.hasSubmitGate = true) (raw : Dict) :
    (handleEnvelope (F := F) c msg now raw).Along gateShut notSubmit := by
  have hfreshness : (creditFreshness (F := F) c raw now).Along gateShut notSubmit :=
    Proc.Only.along ((creditFreshness_asks raw).mono fun _ => asks_submitless)
  refine (along_notSubmit rfl).bind fun _ => (Proc.along_ofExcept _).bind fun expired => ?_
  split_ifs
  · exact (along_notSubmit rfl).bind fun _ => trivial
  · exact hfreshness.bind fun _ => (Proc.along_ofExcept _).bind fun order =>
      handleOrder_notSubmit hgate order

/-- While the gate is closed no handling of a message calls `submit_fn`. -/
theorem handle_notSubmit (hgate : c.hasSubmitGate = true) :
    (handle (F := F) c msg now).Along gateShut notSubmit := by
  unfold handle
  split_ifs
  · exact Proc.Only.along (handleHeartbeat_notSubmit _)
  · refine (Proc.along_ofExcept _).bind fun res => ?_
    split_ifs
    · exact Proc.Only.along (P := notSubmit)
        ((conclude_settles (.malformed res)).mono fun _ => settles_submitless)
    · exact handleEnvelope_notSubmit hgate _

/-- Whatever is in the batch, and in whatever order. -/
theorem handleBatch_notSubmit (hgate : c.hasSubmitGate = true) (batch : List ReceivedMessage)
    (stats : Stats) : (handleBatch (F := F) c now batch stats).Along gateShut notSubmit := by
  induction batch generalizing stats with
  | nil => exact trivial
  | cons msg rest ih => exact (handle_notSubmit hgate).bind fun outcome => ih _

theorem pollOnce_notSubmit (hgate : c.hasSubmitGate = true) :
    (pollOnce (F := F) c).Along gateShut notSubmit := by
  refine (along_notSubmit rfl).bind fun now => (along_notSubmit rfl).bind fun _ => ?_
  refine (along_notSubmit rfl).attempt.bind fun r => ?_
  cases r with
  | ok batch => exact handleBatch_notSubmit hgate batch []
  | error e => exact trivial

end Consumer

namespace ExecutionRuntime

variable {F : Type} {rt : ExecutionRuntime} {now : Moment}

/-- A call of `submit_fn`. -/
def submits : Event (RuntimeI F) Exc → Bool
  | ⟨.consumer call, _⟩ => call.isSubmit
  | _ => false

/-- A call of the consumer: the tick has evaluated and polls. -/
def polls : Event (RuntimeI F) Exc → Bool
  | ⟨.consumer _, _⟩ => true
  | _ => false

/-- A runtime with the record of its calls. -/
abbrev Watched (F : Type) := Runtime × List (Event (RuntimeI F) Exc)

def NeverSubmits (t : List (Event (RuntimeI F) Exc)) : Prop := ∀ e ∈ t, submits e = false

def Unpolled (t : List (Event (RuntimeI F) Exc)) : Prop := ∀ e ∈ t, polls e = false

/-- What the safety gate answers while the monitor is in a state with `D`. -/
def gateAnswers (D : MonitorState → Prop) : (op : ConsumerCall F) → Except Exc op.Ans → Prop
  | .submitGateFn, r => ∃ s, D s ∧ r = .ok s.canSubmit
  | _, _ => True

/-- A phase of a tick: what holds of the monitor and of the record. -/
def Phase (D : MonitorState → Prop) (G : List (Event (RuntimeI F) Exc) → Prop)
    (w : Watched F) : Prop := D w.1.monitor ∧ G w.2

/-- A property of the record that the consumer's calls of a kind, and all others, keep. -/
def Admits (P : ConsumerCall F → Prop) (G : List (Event (RuntimeI F) Exc) → Prop) : Prop :=
  ∀ t op r, (∀ call, op = .consumer call → P call) → G t → G (t ++ [⟨op, r⟩])

section Phases

variable {D : MonitorState → Prop} {G : List (Event (RuntimeI F) Exc) → Prop}
  {P : ConsumerCall F → Prop} {w : Watched F}

/-- What is proved of the monitor holds inside the runtime. -/
theorem wpc_askMonitor {α : Type} {p : Proc MonitorI Exc α} {Q : Except Exc α → MonitorState → Prop}
    (hG : ∀ t call r, G t → G (t ++ [⟨.monitor call, r⟩]))
    (hp : wpc monitorWorld D p Q w.1.monitor) (hw : G w.2) :
    wpc (runtimeWorld now).traced (Phase D G) (askMonitor p)
      (fun r w' => Q r w'.1.monitor) w := by
  refine wpc_interp_view (v := fun w : Watched F => w.1.monitor)
    (F := fun w : Watched F => G w.2) ?_ hp hw
  intro op w Q hD hGw hstep
  apply wpc_of_perform ⟨hD, hGw⟩
  rintro r w' ⟨⟨hmonitor, -⟩, htrace⟩
  have hGw' : G w'.2 := htrace ▸ hG _ op r hGw
  obtain ⟨hD', hQ⟩ := hstep r w' hmonitor hGw'
  exact ⟨⟨hD', hGw'⟩, hQ⟩

/-- The calls that leave the monitor and the lag alone. -/
def isOutside : RuntimeCall F → Bool
  | .putLag _ => false
  | .monitor _ => false
  | _ => true

theorem outside_step {op : RuntimeCall F} (hop : isOutside op = true) {w w' : Runtime}
    {r : Except Exc op.Ans} (step : runtimeWorld now w op r w') : w' = w := by
  cases op with
  | putLag lag => cases hop
  | monitor call => cases hop
  | clock => exact step.1
  | getLag => exact step.1
  | _ => exact step

/-- A call outside the monitor and the lag keeps the phase. -/
theorem wpc_outside {op : RuntimeCall F} {Q : Except Exc op.Ans → Watched F → Prop}
    (hop : isOutside op = true) (hG : ∀ t r, G t → G (t ++ [⟨op, r⟩])) (hw : Phase D G w)
    (hQ : ∀ r w', w'.1 = w.1 → runtimeWorld now w.1 op r w'.1 → Phase D G w' → Q r w') :
    wpc (runtimeWorld now).traced (Phase D G) (perform op) Q w := by
  apply wpc_of_perform hw
  rintro r w' ⟨hstep, htrace⟩
  have hsame : w'.1 = w.1 := outside_step hop hstep
  have hw' : Phase D G w' := ⟨hsame ▸ hw.1, htrace ▸ hG _ r hw.2⟩
  exact ⟨hw', hQ r w' hsame hstep hw'⟩

/-- A change of the lag keeps the phase. -/
theorem wpc_updateLag {change : ConsumerLag → ConsumerLag}
    (hG : ∀ t op r, polls ⟨op, r⟩ = false → G t → G (t ++ [⟨op, r⟩])) (hw : Phase D G w) :
    wpc (runtimeWorld now).traced (Phase D G) (updateLag change)
      (fun _ w' => Phase D G w') w := by
  simp only [updateLag, Proc.bind_eq, wpc_bind]
  apply wpc_outside rfl (fun t r => hG t _ r rfl) hw
  intro r w₁ _ _ hw₁
  cases r with
  | error e => exact hw₁
  | ok lag =>
      apply wpc_of_perform hw₁
      rintro r w₂ ⟨⟨hstep, -⟩, htrace⟩
      have hw₂ : Phase D G w₂ := by
        refine ⟨?_, htrace ▸ hG _ _ r rfl hw₁.2⟩
        rw [hstep]
        exact hw₁.1
      exact ⟨hw₂, hw₂⟩

/-- What one call of the consumer does through the runtime's hooks. -/
theorem wpc_hookup (hmode : ∀ s s', SafetyMonitor.SameMode s s' → D s → D s')
    (hG : Admits P G)
    {op : ConsumerCall F} (hop : P op) (hw : Phase D G w) :
    wpc (runtimeWorld now).traced (Phase D G) (rt.hookup op)
      (fun r w' => gateAnswers D op r ∧ Phase D G w') w := by
  have hlag : ∀ change, wpc (runtimeWorld now).traced (Phase D G) (updateLag (F := F) change)
      (fun _ w' => True ∧ Phase D G w') w := by
    intro change
    refine wpc_post (wpc_updateLag (fun t op r hpolls => hG t op r ?_) hw)
      fun r w' _ hw' => ⟨trivial, hw'⟩
    rintro call rfl
    cases hpolls
  have hpass : ∀ call : ConsumerCall F, P call → wpc (runtimeWorld now).traced (Phase D G)
      (perform (.consumer call)) (fun _ w' => True ∧ Phase D G w') w := by
    intro call hcall
    apply wpc_outside rfl _ hw fun r w' _ _ hw' => ⟨trivial, hw'⟩
    intro t r ht
    refine hG t _ r ?_ ht
    rintro call' ⟨⟩
    exact hcall
  cases op with
  | submitGateFn =>
      simp only [hookup, Proc.bind_eq, wpc_bind]
      apply wpc_of_perform hw
      rintro r w' ⟨⟨⟨hsame, rfl⟩, -⟩, htrace⟩
      have hw' : Phase D G w' := by
        refine ⟨?_, htrace ▸ hG _ _ _ (by rintro call ⟨⟩) hw.2⟩
        rw [hsame]
        exact hw.1
      exact ⟨hw', hw', ⟨_, hw.1, rfl⟩, hw'⟩
  | heartbeatFn sentAt =>
      have hrecord : wpc monitorWorld D (rt.monitor.recordHeartbeat (some sentAt))
          (fun _ _ => True) w.1.monitor :=
        wpc_mono SafetyMonitor.wpc_recordHeartbeat (fun s hsame => hmode _ s hsame hw.1)
          fun r s _ _ => trivial
      refine wpc_post (wpc_askMonitor (Q := fun _ _ => True) (fun t call r => hG t _ r ?_) hrecord
        hw.2) fun r w' hw' _ => ⟨trivial, hw'⟩
      rintro call' ⟨⟩
  | setLastPollAt t => exact hlag _
  | setLastMessageAt t => exact hlag _
  | setLastMessageCreatedAt t => exact hlag _
  | countMessage => exact hlag _
  | _ => exact hpass _ hop

/-- The whole poll. -/
theorem wpc_poll (hmode : ∀ s s', SafetyMonitor.SameMode s s' → D s → D s')
    (hG : Admits P G)
    (hpoll : (rt.consumer.pollOnce (F := F)).Along (gateAnswers D) P) (hw : Phase D G w) :
    wpc (runtimeWorld now).traced (Phase D G) (rt.consumer.pollOnce.interp rt.hookup)
      (fun _ w' => Phase D G w') w :=
  wpc_interp_of_along (fun _ _ hop hw => wpc_hookup hmode hG hop hw) hpoll hw

/-- Managing positions and sweeping closes keep the phase. -/
theorem wpc_afterPoll (hG : Admits P G) {state : SafetyState} {consume : Stats}
    (hw : Phase D G w) :
    wpc (runtimeWorld now).traced (Phase D G)
      (rt.manage.bind fun managed => rt.sweepCloses.bind fun _ =>
        (.ret (some ⟨state, consume, managed⟩) : Proc (RuntimeI F) Exc (Option TickResult)))
      (fun r w' => Phase D G w' ∧ ∀ res, r = .ok (some res) → res.state = state) w := by
  have hcall : ∀ {op : RuntimeCall F} {w : Watched F}, isOutside op = true →
      (∀ call, op ≠ .consumer call) → Phase D G w → wpc (runtimeWorld now).traced (Phase D G)
        (perform op) (fun _ w' => Phase D G w') w := by
    intro op w hop hown hw
    exact wpc_outside hop (fun t r => hG t op r fun call h => absurd h (hown call)) hw
      fun _ _ _ _ hw' => hw'
  have hmanage : wpc (runtimeWorld now).traced (Phase D G) (rt.manage (F := F))
      (fun _ w' => Phase D G w') w := by
    unfold manage
    split_ifs
    · refine wpc_seq (hcall rfl (fun call h => by cases h) hw) ?_ fun _ _ h _ => h
      intro prices w₁ hw₁ _
      split_ifs
      · exact ⟨hw₁, hw₁⟩
      · exact hcall rfl (fun call h => by cases h) hw₁
    · exact ⟨hw, hw⟩
  have hsweep : ∀ {w : Watched F}, Phase D G w → wpc (runtimeWorld now).traced (Phase D G)
      (rt.sweepCloses (F := F)) (fun _ w' => Phase D G w') w := by
    intro w hw
    refine wpc_given (fun _ => ?_) fun _ => ⟨hw, hw⟩
    rw [Proc.bind_eq, wpc_bind, wpc_attempt]
    apply wpc_post (hcall rfl (fun call h => by cases h) hw)
    exact fun r w₁ _ hw₁ => ⟨hw₁, hw₁⟩
  refine wpc_seq hmanage ?_ fun e _ hw₁ _ => ⟨hw₁, fun res h => by cases h⟩
  intro managed w₁ hw₁ _
  refine wpc_seq (hsweep hw₁) ?_ fun e _ hw₂ _ => ⟨hw₂, fun res h => by cases h⟩
  rintro - w₂ hw₂ -
  refine ⟨hw₂, hw₂, ?_⟩
  rintro res ⟨⟩
  rfl

/-- A tick evaluates in one phase and polls in another, or ends before it polls. -/
theorem wpc_tick {D' : MonitorState → Prop} {R : SafetyState → Prop}
    (heval : wpc monitorWorld D' (rt.monitor.evaluate w.1.lag.lastMessageAt (some now))
      (fun r s => ∀ state, r = .ok state → R state ∧ D s) w.1.monitor)
    (hmode : ∀ s s', SafetyMonitor.SameMode s s' → D s → D s') (hG : Admits P G)
    (hunpolled : ∀ t, Unpolled t → G t)
    (hpoll : (rt.consumer.pollOnce (F := F)).Along (gateAnswers D) P) (hw : Unpolled w.2) :
    wpc (runtimeWorld now).traced (fun w' => Phase D' Unpolled w' ∨ Phase D G w') rt.tick
      (fun r _ => ∀ res, r = .ok (some res) → R res.state) w := by
  have hquiet : ∀ (t : List (Event (RuntimeI F) Exc)) op r, polls ⟨op, r⟩ = false → Unpolled t →
      Unpolled (t ++ [⟨op, r⟩]) := by
    intro t op r hop ht e he
    rcases List.mem_append.mp he with hmem | hlast
    · exact ht e hmem
    · rw [List.mem_singleton.mp hlast]
      exact hop
  have hcall : ∀ {op : RuntimeCall F} {w₁ : Watched F}, isOutside op = true →
      (∀ r, polls ⟨op, r⟩ = false) → w₁.1 = w.1 → Phase D' Unpolled w₁ →
      wpc (runtimeWorld now).traced (fun w' => Phase D' Unpolled w' ∨ Phase D G w') (perform op)
        (fun r w' => runtimeWorld now w.1 op r w'.1 ∧ w'.1 = w.1 ∧ Phase D' Unpolled w') w₁ := by
    intro op w₁ hop hown hsame hw₁
    refine wpc_mono (wpc_outside hop (fun t r => hquiet t op r (hown r)) hw₁ ?_)
      (fun _ h => Or.inl h) fun _ _ _ h => h
    exact fun r w' hsame' step hw' => ⟨hsame ▸ step, hsame'.trans hsame, hw'⟩
  have hraise : ∀ e : Exc, ∀ res : TickResult, Except.error e = .ok (some res) → R res.state :=
    fun e res h => by cases h
  refine wpc_seq (hcall rfl (fun _ => rfl) rfl ⟨wpc_crash heval, hw⟩) ?_ fun e _ _ _ => hraise e
  rintro stopped w₁ - ⟨-, hsame₁, hw₁⟩
  split_ifs
  · exact ⟨Or.inl hw₁, fun res h => by cases h⟩
  refine wpc_seq (hcall rfl (fun _ => rfl) hsame₁ hw₁) ?_ fun e _ _ _ => hraise e
  rintro clock w₂ - ⟨⟨-, hclock⟩, hsame₂, hw₂⟩
  obtain rfl := hclock clock rfl
  refine wpc_seq (hcall rfl (fun _ => rfl) hsame₂ hw₂) ?_ fun e _ _ _ => hraise e
  rintro lag w₃ - ⟨⟨-, hlag⟩, hsame₃, hw₃⟩
  obtain rfl := Except.ok.inj hlag
  have heval₃ : wpc monitorWorld D' (rt.monitor.evaluate w.1.lag.lastMessageAt (some clock))
      (fun r s => ∀ state, r = .ok state → R state ∧ D s) w₃.1.monitor := by
    rw [hsame₃]
    exact heval
  have hevaluate : wpc (runtimeWorld clock).traced (Phase D' Unpolled)
      (askMonitor (F := F) (rt.monitor.evaluate w.1.lag.lastMessageAt (some clock)))
      (fun r w' => ∀ state, r = .ok state → R state ∧ D w'.1.monitor) w₃ :=
    wpc_askMonitor (fun t call r => hquiet t (.monitor call) r rfl) heval₃ hw₃.2
  refine wpc_seq (R := fun r w' => Phase D' Unpolled w' ∧
    ∀ state, r = .ok state → R state ∧ D w'.1.monitor)
    (wpc_mono hevaluate (fun _ h => Or.inl h) fun _ _ h hQ => ⟨h, hQ⟩) ?_ fun e _ _ _ => hraise e
  rintro state w₄ - ⟨hw₄, hstate⟩
  obtain ⟨hR, hD⟩ := hstate state rfl
  have hready : Phase D G w₄ := ⟨hD, hunpolled _ hw₄.2⟩
  refine wpc_seq (wpc_mono (wpc_poll hmode hG hpoll hready) (fun _ h => Or.inr h)
    fun _ _ _ h => h) ?_ fun e _ _ _ => hraise e
  rintro consume w₅ - hw₅
  refine wpc_mono (wpc_afterPoll hG hw₅) (fun _ h => Or.inr h) ?_
  rintro r w₆ - ⟨-, hres⟩ res hr
  rw [hres res hr]
  exact hR

end Phases

/-- At `now` no BYPASS window is open and the evidence of System 3 is beyond the limit. -/
structure Silent (rt : ExecutionRuntime) (now : Moment) (w : Runtime) : Prop where
  unbypassed : rt.monitor.Unbypassed now w.monitor
  stale : rt.monitor.Stale now w.freshAt

/-- What a tick over a dark System 3 comes to: nothing is submitted, from the poll on the
state is PAUSED, and a state that was PAUSED stays so even when the tick is cut short. -/
structure DarkTick (w w' : Runtime) (out : Option (Except Exc (Option TickResult)))
    (t : List (Event (RuntimeI F) Exc)) : Prop where
  neverSubmits : NeverSubmits t
  pausedAtPoll : (∃ e ∈ t, polls e = true) → w'.monitor.state = .paused
  keepsPaused : w.monitor.state = .paused → w'.monitor.state = .paused
  result : ∀ res, out = some (.ok (some res)) → res.state = .paused

theorem Unpolled.neverSubmits {t : List (Event (RuntimeI F) Exc)} (h : Unpolled t) :
    NeverSubmits t := by
  rintro ⟨op, r⟩ he
  cases op with
  | consumer call => exact absurd (h _ he) (by simp [polls])
  | _ => rfl

theorem admits_neverSubmits : Admits (F := F) Consumer.notSubmit NeverSubmits := by
  intro t op r hop ht e he
  rcases List.mem_append.mp he with hmem | hlast
  · exact ht e hmem
  · rw [List.mem_singleton.mp hlast]
    cases op with
    | consumer call => exact hop call rfl
    | _ => rfl

/-- In session and silent: one tick. -/
theorem darkTick {w w' : Runtime} {out : Option (Except Exc (Option TickResult))}
    {t : List (Event (RuntimeI F) Exc)} (hgate : rt.consumer.hasSubmitGate = true)
    (hhyst : Binary64.zero.le rt.monitor.config.hysteresisSec = true)
    (hsession : rt.monitor.sessionFn now = true) (hsilent : Silent rt now w)
    (run : Exec (runtimeWorld now).traced rt.tick (w, []) out (w', t)) : DarkTick w w' out t := by
  have hpoll : (rt.consumer.pollOnce (F := F)).Along (gateAnswers fun s => s.state = .paused)
      Consumer.notSubmit := by
    refine (Consumer.pollOnce_notSubmit hgate).restrict fun op r hr => ?_
    cases op with
    | submitGateFn =>
        obtain ⟨s, hs, rfl⟩ := hr
        intro h
        simp [MonitorState.canSubmit, hs] at h
    | _ => exact trivial
  have hmode : ∀ s s', SafetyMonitor.SameMode s s' → s.state = .paused → s'.state = .paused :=
    fun s s' hsame h => hsame.1.trans h
  obtain ⟨hphase, hresult⟩ := wpc_sound run (wpc_tick (w := (w, [])) (SafetyMonitor.wpc_darkEvaluate
    hhyst hsession hsilent.stale hsilent.unbypassed) hmode admits_neverSubmits
    (fun t => Unpolled.neverSubmits) hpoll (fun e he => by cases he))
  have hres : ∀ res, out = some (.ok (some res)) → res.state = .paused :=
    fun res hout => hresult _ hout res rfl
  rcases hphase with ⟨hkeeps, hunpolled⟩ | ⟨hpaused, hnever⟩
  · refine ⟨hunpolled.neverSubmits, ?_, hkeeps, hres⟩
    rintro ⟨e, he, hpolls⟩
    rw [hunpolled e he] at hpolls
    cases hpolls
  · exact ⟨hnever, fun _ => hpaused, fun _ => hpaused, hres⟩

/-- No tick opens a BYPASS, whatever it finds. -/
theorem tick_unbypassed {now' : Moment} {w w' : Runtime}
    {out : Option (Except Exc (Option TickResult))} {t : List (Event (RuntimeI F) Exc)}
    (h : rt.monitor.Unbypassed now w.monitor)
    (run : Exec (runtimeWorld now').traced rt.tick (w, []) out (w', t)) :
    rt.monitor.Unbypassed now w'.monitor := by
  have heval : wpc monitorWorld (rt.monitor.Unbypassed now)
      (rt.monitor.evaluate w.lag.lastMessageAt (some now'))
      (fun r s => ∀ state, r = .ok state → True ∧ rt.monitor.Unbypassed now s) w.monitor :=
    wpc_post (SafetyMonitor.wpc_unbypassed SafetyMonitor.evaluate_grantsNothing h)
      fun r s hs _ state _ => ⟨trivial, hs⟩
  have hmode : ∀ s s', SafetyMonitor.SameMode s s' → rt.monitor.Unbypassed now s →
      rt.monitor.Unbypassed now s' := by
    intro s s' hsame hs hstate started hstarted
    exact hs (hsame.1.symm.trans hstate) started (hsame.2.symm.trans hstarted)
  have hphase := (wpc_sound run (wpc_tick (w := (w, [])) (R := fun _ => True) (G := fun _ => True)
    (P := fun _ => True) heval hmode (fun _ _ _ _ _ => trivial) (fun _ _ => trivial)
    (Proc.only_true _).along (fun e he => by cases he))).1
  rcases hphase with hbefore | hafter
  · exact hbefore.1
  · exact hafter.1

/-- One step of the runtime or of its operator in which no BYPASS is granted. The clock of
the ticks does not go back. -/
inductive Step (F : Type) (rt : ExecutionRuntime) : Moment × Runtime → Moment × Runtime → Prop
  | tick {now now' w w' out t} (later : now ≤ now')
      (run : Exec (runtimeWorld (F := F) now').traced rt.tick (w, []) out (w', t)) :
      Step F rt (now, w) (now', w')
  | refused {now w s' token operator reason}
      (run : Exec monitorWorld (rt.monitor.requestBypass token operator reason) w.monitor
        (some (.ok false)) s') : Step F rt (now, w) (now, { w with monitor := s' })
  | exit {now w s' reason out}
      (run : Exec monitorWorld (rt.monitor.exitBypass reason) w.monitor out s') :
      Step F rt (now, w) (now, { w with monitor := s' })

/-- A step after which no evidence is newer than `fresh`. -/
def QuietStep (F : Type) (rt : ExecutionRuntime) (fresh : Moment) (a b : Moment × Runtime) :
    Prop := Step F rt a b ∧ b.2.freshAt ≤ fresh

theorem Step.later {a b : Moment × Runtime} (step : Step F rt a b) : a.1 ≤ b.1 := by
  cases step with
  | tick later run => exact later
  | refused run => exact le_refl _
  | exit run => exact le_refl _

theorem Step.unbypassed {a b : Moment × Runtime} (step : Step F rt a b)
    (h : rt.monitor.Unbypassed now a.2.monitor) : rt.monitor.Unbypassed now b.2.monitor := by
  cases step with
  | tick later run => exact tick_unbypassed h run
  | refused run =>
      rw [wp_sound run SafetyMonitor.wp_requestBypass_refused rfl]
      exact h
  | exit run =>
      exact (wpc_sound run (SafetyMonitor.wpc_unbypassed SafetyMonitor.exitBypass_grantsNothing
        h)).1

/-- Silence lasts as long as nothing newer is credited and no BYPASS is granted. -/
theorem Silent.lasts {a b : Moment × Runtime} (h : Silent rt a.1 a.2)
    (run : Relation.ReflTransGen (QuietStep F rt a.2.freshAt) a b) :
    a.1 ≤ b.1 ∧ Silent rt b.1 b.2 := by
  have hkept : a.1 ≤ b.1 ∧ rt.monitor.Unbypassed a.1 b.2.monitor ∧ b.2.freshAt ≤ a.2.freshAt := by
    induction run with
    | refl => exact ⟨le_refl _, h.unbypassed, le_refl _⟩
    | tail _ step ih =>
        exact ⟨le_trans ih.1 step.1.later, step.1.unbypassed ih.2.1, step.2⟩
  obtain ⟨hlater, hunbypassed, hfresh⟩ := hkept
  exact ⟨hlater, hunbypassed.mono hlater, h.stale.mono hlater hfresh⟩

/-- While System 3 is dark an in-session tick submits nothing, and neither does any later one
until newer evidence is credited or a BYPASS is granted; all of them poll PAUSED. -/
theorem dark_runtime_never_submits (hgate : rt.consumer.hasSubmitGate = true)
    (hhyst : Binary64.zero.le rt.monitor.config.hysteresisSec = true) {w : Runtime}
    (hsession : rt.monitor.sessionFn now = true) (hsilent : Silent rt now w) :
    (∀ out w' (t : List (Event (RuntimeI F) Exc)),
      Exec (runtimeWorld now).traced rt.tick (w, []) out (w', t) → DarkTick w w' out t) ∧
    ∀ now₁ w₁, Relation.ReflTransGen (QuietStep F rt w.freshAt) (now, w) (now₁, w₁) →
      ∀ now₂ out w₂ (t : List (Event (RuntimeI F) Exc)), now₁ ≤ now₂ →
        rt.monitor.sessionFn now₂ = true →
          Exec (runtimeWorld now₂).traced rt.tick (w₁, []) out (w₂, t) → DarkTick w₁ w₂ out t := by
  constructor
  · intro out w' t run
    exact darkTick hgate hhyst hsession hsilent run
  · intro now₁ w₁ quiet now₂ out w₂ t later hsession₂ run
    have hsilent₁ : Silent rt now₁ w₁ := (Silent.lasts (a := (now, w)) hsilent quiet).2
    have hsilent₂ : Silent rt now₂ w₁ :=
      ⟨hsilent₁.unbypassed.mono later, hsilent₁.stale.mono later (le_refl _)⟩
    exact darkTick hgate hhyst hsession₂ hsilent₂ run

/-- A runtime with the documented limits and no BYPASS. -/
def documentedRuntime : ExecutionRuntime where
  consumer := Consumer.openConsumer
  monitor :=
    { config :=
        { stalenessLimitSec := .ofRat 300
          hysteresisSec := .ofRat 30
          bypassEnable := false
          bypassConfirmToken := ""
          bypassMaxDurationSec := .ofRat 3600 }
      sessionFn := isInSession
      hasAlert := false
      hasAudit := false }
  hasPriceSource := false
  hasCloseSweeper := false

/-- A runtime just started, with nothing heard. -/
def justStarted : Runtime :=
  ⟨⟨.running, none, Moment.first, none, none⟩, ⟨none, none, none, 0⟩⟩

/-- A queue that always holds `plainBuy`, on hosts whose clocks say `now`. -/
def busyAnswer (now : Moment) (w : Runtime) : (op : RuntimeCall Unit) → Except Exc op.Ans × Runtime
  | .isStopped => (.ok false, w)
  | .clock => (.ok now, w)
  | .getLag => (.ok w.lag, w)
  | .putLag lag => (.ok (), { w with lag := lag })
  | .monitor .clock => (.ok now, w)
  | .monitor .get => (.ok w.monitor, w)
  | .monitor (.put s) => (.ok (), { w with monitor := s })
  | .monitor (.alert _) => (.ok (), w)
  | .monitor (.audit _ _) => (.ok (), w)
  | .consumer (.pull _ _) => (.ok [Consumer.plainBuy], w)
  | .consumer call => (Consumer.calmAnswer [] call, w)
  | .priceSourceFn => (.ok [], w)
  | .evaluateAll _ => (.ok [], w)
  | .sweep => (.ok (), w)

def busy (now : Moment) (op : RuntimeCall Unit) (w : Watched Unit) :
    Except Exc op.Ans × Watched Unit :=
  ((busyAnswer now w.1 op).1, (busyAnswer now w.1 op).2, w.2 ++ [⟨op, (busyAnswer now w.1 op).1⟩])

theorem busy_step (now : Moment) (op : RuntimeCall Unit) (w : Watched Unit) :
    (runtimeWorld now).traced w op (busy now op w).1 (busy now op w).2 := by
  refine ⟨?_, rfl⟩
  cases op with
  | clock => exact ⟨rfl, fun t h => (Except.ok.inj h).symm⟩
  | getLag => exact ⟨rfl, rfl⟩
  | putLag lag => exact ⟨rfl, rfl⟩
  | monitor call =>
      cases call with
      | get => exact ⟨⟨rfl, rfl⟩, rfl⟩
      | put s => exact ⟨⟨rfl, rfl⟩, rfl⟩
      | _ => exact ⟨rfl, rfl⟩
  | consumer call =>
      cases call with
      | _ => rfl
  | _ => rfl

/-- Ten minutes after the start. -/
def tenPast : Moment := ⟨600 * 1000000, by decide, by decide⟩

/-- The first tick of `documentedRuntime` at ten past, and the second one over its result. -/
def firstTick : Except Exc (Option TickResult) × Watched Unit :=
  documentedRuntime.tick.run (busy tenPast) (justStarted, [])

def secondTick : Except Exc (Option TickResult) × Watched Unit :=
  documentedRuntime.tick.run (busy tenPast) (firstTick.2.1, [])

theorem dark_runtime_never_submits_busy :
    (firstTick.2.2.any polls = true ∧ DarkTick justStarted firstTick.2.1 (some firstTick.1)
      firstTick.2.2) ∧
    (secondTick.2.2.any polls = true ∧ DarkTick firstTick.2.1 secondTick.2.1 (some secondTick.1)
      secondTick.2.2) := by
  have hsilent : Silent documentedRuntime tenPast justStarted := by
    refine ⟨fun h => (by cases h), ?_⟩
    show _ = true
    decide +kernel
  have hdark := @dark_runtime_never_submits Unit documentedRuntime tenPast rfl
    (by decide +kernel) justStarted (by decide +kernel) hsilent
  have hfirst := exec_run (busy_step tenPast) documentedRuntime.tick (justStarted, [])
  have hevidence : firstTick.2.1.freshAt ≤ justStarted.freshAt := by decide +kernel
  refine ⟨⟨by decide +kernel, hdark.1 _ _ _ hfirst⟩, by decide +kernel, ?_⟩
  refine hdark.2 tenPast firstTick.2.1 ?_ tenPast _ _ _ (le_refl _) (by decide +kernel)
    (exec_run (busy_step tenPast) documentedRuntime.tick (firstTick.2.1, []))
  exact .single ⟨.tick (le_refl _) hfirst, hevidence⟩

end ExecutionRuntime

end System2
