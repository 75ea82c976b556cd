import System2.Execution.DarkRuntime

/-!
# What may count as evidence of System 3

The consumer credits an order that is well formed and within its TTL, and the monitor a
heartbeat whose own stamp is recent. Both marks move in no other way, so messages that are
past their TTL cannot take the engine out of PAUSED.

## Implementation notes

`expires_at` wins over `created_at`: an order that has not expired is evidence however long
ago it was created.
-/

namespace System2
open Foundation

/-- A date of a message as `is_expired` reads it. -/
def readableDate (raw : Dict) (field : String) : Option DateTime :=
  if (raw.get field).truthy then parseIso (raw.get field) else none

/-- One of the two dates of the TTL can be read. -/
def Dated (raw : Dict) : Prop :=
  readableDate raw "expires_at" ≠ none ∨ readableDate raw "created_at" ≠ none

/-- The TTL of an order: `expires_at` lies ahead, or there is none to read and `created_at`
is at most `L` seconds ago. -/
def WithinTtl (host : LocalZone) (raw : Dict) (now : Moment) (L : ℤ) : Prop :=
  (∃ dt t, readableDate raw "expires_at" = some dt ∧ dt.toUtc host = .ok t ∧ now < t) ∨
    (readableDate raw "expires_at" = none ∧ ∃ dt t, readableDate raw "created_at" = some dt ∧
      dt.toUtc host = .ok t ∧ floatGtInt (now.secondsSince t) L = false)

/-- A dated order that has not expired is within its TTL. -/
theorem withinTtl_of_not_expired {host : LocalZone} {raw : Dict} {now : Moment} {L : ℤ}
    (h : isExpired host raw now (some L) = .ok false) (hdated : Dated raw) :
    WithinTtl host raw now L := by
  unfold isExpired at h
  have hexp : (if (raw.get "expires_at").truthy then parseIso (raw.get "expires_at") else none) =
      readableDate raw "expires_at" := rfl
  rw [hexp] at h
  cases hread : readableDate raw "expires_at" with
  | some dt =>
      rw [hread] at h
      cases hutc : dt.toUtc host with
      | error e =>
          simp only [hutc] at h
          cases h
      | ok t =>
          simp only [hutc, Except.map, Except.ok.injEq, decide_eq_false_iff_not] at h
          exact Or.inl ⟨dt, t, hread, hutc, not_le.mp h⟩
  | none =>
      rw [hread] at h
      obtain ⟨dt, hcreated⟩ : ∃ dt, readableDate raw "created_at" = some dt :=
        Option.ne_none_iff_exists'.mp (hdated.resolve_left fun hne => hne hread)
      simp only [tooOld] at h
      have htruthy : (raw.get "created_at").truthy = true := by
        unfold readableDate at hcreated
        split_ifs at hcreated with htruthy
        exact htruthy
      have hparse : parseIso (raw.get "created_at") = some dt := by
        unfold readableDate at hcreated
        rwa [if_pos htruthy] at hcreated
      rw [if_pos htruthy, hparse] at h
      cases hutc : dt.toUtc host with
      | error e =>
          simp only [hutc] at h
          cases h
      | ok t =>
          simp only [hutc, Except.map, Except.ok.injEq] at h
          exact Or.inr ⟨hread, dt, t, hcreated, hutc, h⟩

/-! ### The consumer's credits -/

namespace Consumer

variable {F : Type} {c : Consumer} {msg : ReceivedMessage} {now : Moment}

/-- An order that is no heartbeat and has not expired. -/
def FreshOrder (c : Consumer) (body : PyVal) (now : Moment) : Prop :=
  isHeartbeat body = false ∧ isExpired c.host body.entries now c.maxAgeSec = .ok false

/-- The producer's stamp of a heartbeat. -/
def StampedHeartbeat (c : Consumer) (body : PyVal) (sentAt : Moment) : Prop :=
  isHeartbeat body = true ∧
    parseTs c.host body.entries ["created_at", "produced_at"] = .ok (some sentAt)

/-- A credit goes to the poll's moment for a fresh order, or to the stamp of a heartbeat. -/
def Justified (c : Consumer) (body : PyVal) (now : Moment) : ConsumerCall F → Prop
  | .setLastMessageAt t => t = now ∧ c.FreshOrder body now
  | .heartbeatFn sentAt => c.StampedHeartbeat body sentAt
  | _ => True

theorem route_justified {α : Type} (body : PyVal) (order : ApprovedOrder)
    (p : Proc (PipelineI F) Exc α) : (p.interp (route order)).Only (c.Justified body now) := by
  refine (Proc.only_true p).interp fun op _ => ?_
  cases op with
  | _ => exact Proc.along_perform trivial

theorem handleOrder_justified (body : PyVal) (order : ApprovedOrder) :
    (handleOrder (F := F) c msg now order).Only (c.Justified body now) := by
  refine (route_justified body order _).bind fun duplicate => ?_
  split_ifs
  · exact (Proc.along_perform trivial).bind fun _ => trivial
  · exact (Proc.along_perform trivial).bind fun _ => trivial
  · have hgate : (gateOpen (F := F) c).Only (c.Justified body now) := by
      unfold gateOpen
      split_ifs
      · exact Proc.along_perform trivial
      · exact trivial
    refine hgate.bind fun submitting => ?_
    split_ifs
    · exact (Proc.along_perform trivial).bind fun _ => trivial
    · have hexecute : (execute (F := F) c order).Only (c.Justified body now) :=
        (Proc.along_perform trivial).bind fun price =>
          (Proc.along_perform trivial).bind fun opens => route_justified body order _
      refine hexecute.attempt.bind fun result => ?_
      cases result with
      | error e => exact (Proc.along_perform trivial).bind fun _ => trivial
      | ok result =>
          simp only [settle]
          split_ifs
          · exact (Proc.along_perform trivial).bind fun _ => trivial
          · exact (Proc.along_perform trivial).bind fun _ => trivial

/-- `last_message_at` moves behind the TTL check. -/
theorem handleEnvelope_justified {body : PyVal} (horder : isHeartbeat body = false) :
    (handleEnvelope (F := F) c msg now body.entries).Only (c.Justified body now) := by
  refine (Proc.along_perform trivial).bind fun _ => ?_
  cases hexpired : isExpired c.host body.entries now c.maxAgeSec with
  | error e => exact trivial
  | ok expired =>
      cases expired with
      | true => exact (Proc.along_perform trivial).bind fun _ => trivial
      | false =>
          have hcredit : (creditFreshness (F := F) c body.entries now).Only
              (c.Justified body now) := by
            refine (Proc.along_perform ⟨rfl, horder, hexpired⟩).bind fun _ => ?_
            refine (Proc.along_ofExcept _).bind fun created => ?_
            cases created with
            | none => exact trivial
            | some created => exact Proc.along_perform trivial
          exact hcredit.bind fun _ => (Proc.along_ofExcept _).bind fun order =>
            handleOrder_justified body order

/-- The monitor hears the stamp of the heartbeat and nothing else. -/
theorem handleHeartbeat_justified {body : PyVal} (hheart : isHeartbeat body = true) :
    (handleHeartbeat (F := F) c msg body.entries).Only (c.Justified body now) := by
  have hack : ∀ credited : Bool, ((perform (F := F) (.ack msg)).bind fun _ =>
      Proc.ret (if credited then Outcome.heartbeat else .heartbeatStale)).Only
        (c.Justified body now) := fun _ => (Proc.along_perform trivial).bind fun _ => trivial
  cases hstamp : parseTs c.host body.entries ["created_at", "produced_at"] with
  | error e =>
      simp only [handleHeartbeat, hstamp]
      exact trivial
  | ok sentAt =>
      simp only [handleHeartbeat, hstamp, convert, Exc.lift_ok, Proc.ofExcept, Proc.bind_eq,
        Proc.ret_bind]
      cases sentAt with
      | none => exact (Proc.along_ofExcept _).bind fun _ => hack false
      | some sentAt =>
          have hcredit : (creditHeartbeat (F := F) c body.entries sentAt).Only
              (c.Justified body now) := by
            unfold creditHeartbeat
            split_ifs
            · refine (Proc.along_perform ⟨hheart, hstamp⟩).attempt.bind fun r => ?_
              cases r with
              | ok credited => exact trivial
              | error e => exact (Proc.along_ofExcept _).bind fun _ => trivial
            · exact trivial
          exact hcredit.bind hack

/-- Every credit of a handling is justified by the body. -/
theorem handle_justified : (handle (F := F) c msg now).Only (c.Justified msg.body now) := by
  unfold handle
  split_ifs with hheart
  · exact handleHeartbeat_justified hheart
  · refine (Proc.along_ofExcept _).bind fun res => ?_
    split_ifs
    · refine (Proc.along_perform trivial).attempt.bind fun r => ?_
      cases r with
      | ok _ => exact trivial
      | error e => exact (Proc.along_perform trivial).bind fun _ => trivial
    · exact handleEnvelope_justified (by simpa using hheart)

end Consumer

/-! ### The monitor's credits -/

namespace SafetyMonitor

variable {mon : SafetyMonitor} {heard now : Moment} {s : MonitorState}

/-- The stamp of a heartbeat is within the limit; one in the future counts as now. -/
def RecentStamp (mon : SafetyMonitor) (sentAt heard : Moment) : Prop :=
  mon.config.stalenessLimitSec.lt (heard.secondsSince (min sentAt heard)) = false

/-- A clock that, when it answers, says `heard`. -/
def hears (heard : Moment) : Event MonitorI Exc → Prop
  | ⟨.clock, .ok t⟩ => t = heard
  | _ => True

/-- A heartbeat moves the mark only for a stamp within the limit. -/
theorem wpc_recordHeartbeat_recent {sentAt : Moment} {D : MonitorState → Prop} (hs : D s)
    (hmark : mon.RecentStamp sentAt heard →
      D { s with lastHeartbeatAt := some (min sentAt heard) }) :
    wpc (monitorWorld.under (hears heard)) D (mon.recordHeartbeat (some sentAt))
      (fun _ _ => True) s := by
  simp only [recordHeartbeat, Proc.bind_eq, wpc_bind]
  apply wpc_of_perform hs
  rintro r s' ⟨rfl, hheard⟩
  refine ⟨hs, ?_⟩
  cases r with
  | error e => exact trivial
  | ok t =>
      obtain rfl : t = heard := hheard
      dsimp only [Option.getD_some]
      split_ifs with hold
      · exact ⟨hs, trivial⟩
      · rw [wpc_bind]
        apply wpc_of_perform hs
        rintro r s' ⟨⟨rfl, rfl⟩, -⟩
        refine ⟨hs, ?_⟩
        dsimp only
        split_ifs
        · exact ⟨hs, trivial⟩
        · rw [wpc_bind]
          apply wpc_of_perform hs
          rintro r s₁ ⟨⟨rfl, rfl⟩, -⟩
          have hrecent : mon.RecentStamp sentAt t := by
            unfold RecentStamp
            simpa using hold
          have hmarked := hmark hrecent
          exact ⟨hmarked, hmarked, trivial⟩

/-- The evidence is not fresh enough to leave PAUSED. -/
def Unresumable (mon : SafetyMonitor) (now fresh : Moment) : Prop :=
  (now.secondsSince fresh).lt
    (mon.config.stalenessLimitSec.sub mon.config.hysteresisSec) = false

theorem Unresumable.mono {fresh now' : Moment} (h : mon.Unresumable now fresh)
    (later : now ≤ now') : mon.Unresumable now' fresh := by
  unfold Unresumable at h ⊢
  by_contra hfresh
  have hlt := Binary64.le_lt_trans (Moment.secondsSince_mono later (le_refl fresh))
    (by simpa using hfresh)
  rw [h] at hlt
  cases hlt

/-- In session an evaluation of PAUSED over such evidence writes nothing. -/
theorem wpc_evaluate_paused {last : Option Moment} (hstate : s.state = .paused)
    (hsession : mon.sessionFn now = true) (hold : mon.Unresumable now (s.freshAt last)) :
    wpc monitorWorld (Eq s) (mon.evaluate last (some now)) (fun _ _ => True) s := by
  have hjudge : mon.judge (now.secondsSince (s.freshAt last)) now s.state = .ret () := by
    unfold Unresumable at hold
    simp [judge, hstate, hold]
  have hsame : Eq s s := rfl
  have hfreshness : wpc monitorWorld (Eq s) (mon.evaluateFreshness last now)
      (fun _ _ => True) s := by
    simp only [evaluateFreshness, hsession, if_true, Proc.bind_eq]
    refine wpc_answered (fun _ _ h => h.symm) hsame ?_
    rw [hjudge]
    exact wpc_answered (fun _ _ h => h.symm) hsame ⟨hsame, trivial⟩
  simp only [evaluate, bypassHolds, Proc.bind_eq, Proc.ret_bind]
  rw [wpc_bind]
  refine wpc_answered (fun _ _ h => h.symm) hsame ?_
  rw [if_neg (by simp [hstate])]
  exact ⟨hsame, hfreshness⟩

end SafetyMonitor

/-! ### The runtime's marks -/

namespace ExecutionRuntime

variable {F : Type} {rt : ExecutionRuntime} {body : PyVal} {now heard : Moment} {w : Runtime}

/-- The monitor's clock, when it answers, says `heard`. -/
def hears (heard : Moment) : Event (RuntimeI F) Exc → Prop
  | ⟨.monitor .clock, .ok t⟩ => t = heard
  | _ => True

abbrev hearingWorld (now heard : Moment) : World (RuntimeI F) Exc Runtime :=
  (runtimeWorld now).under (hears heard)

/-- What a handling may do to the marks of freshness; the rest of the monitor stays. -/
structure Credited (rt : ExecutionRuntime) (body : PyVal) (now heard : Moment) (w w' : Runtime) :
    Prop where
  order : w'.lag.lastMessageAt = w.lag.lastMessageAt ∨ rt.consumer.FreshOrder body now
  heartbeat : w'.monitor.lastHeartbeatAt = w.monitor.lastHeartbeatAt ∨
    ∃ t, rt.consumer.StampedHeartbeat body t ∧ rt.monitor.RecentStamp t heard
  frame : w'.monitor = { w.monitor with lastHeartbeatAt := w'.monitor.lastHeartbeatAt }

theorem Credited.refl (rt : ExecutionRuntime) (body : PyVal) (now heard : Moment) (w : Runtime) :
    Credited rt body now heard w w := ⟨Or.inl rfl, Or.inl rfl, rfl⟩

section Hooks

variable {C : Runtime → Prop}

theorem wpc_lag {change : ConsumerLag → ConsumerLag} (hw : C w)
    (hchange : C { w with lag := change w.lag }) :
    wpc (hearingWorld (F := F) now heard) C (updateLag change) (fun _ w' => True ∧ C w') w := by
  simp only [updateLag, Proc.bind_eq, wpc_bind]
  apply wpc_of_perform hw
  rintro r w' ⟨⟨rfl, rfl⟩, -⟩
  refine ⟨hw, wpc_of_perform hw ?_⟩
  rintro r w' ⟨⟨rfl, rfl⟩, -⟩
  exact ⟨hchange, trivial, hchange⟩

/-- What is proved of the monitor holds inside the runtime, and the lag stays. -/
theorem wpc_ask {α : Type} {p : Proc MonitorI Exc α} {D : MonitorState → Prop}
    {Q : Except Exc α → MonitorState → Prop}
    (hp : wpc (monitorWorld.under (SafetyMonitor.hears heard)) D p Q w.monitor) :
    wpc (hearingWorld (F := F) now heard) (fun w' => D w'.monitor ∧ w'.lag = w.lag)
      (askMonitor p) (fun r w' => Q r w'.monitor) w := by
  refine wpc_interp_view (v := fun w' : Runtime => w'.monitor)
    (F := fun w' : Runtime => w'.lag = w.lag) ?_ hp rfl
  intro op w₁ Q hD hlag hstep
  apply wpc_of_perform ⟨hD, hlag⟩
  rintro r w₂ ⟨⟨hmonitor, hsame⟩, hheard⟩
  have hlag₂ : w₂.lag = w.lag := hsame.trans hlag
  have hhears : SafetyMonitor.hears heard ⟨op, r⟩ := by
    cases op with
    | clock => cases r with
      | ok t => exact hheard
      | error e => exact trivial
    | _ => exact trivial
  obtain ⟨hD₂, hQ⟩ := hstep r w₂ ⟨hmonitor, hhears⟩ hlag₂
  exact ⟨⟨hD₂, hlag₂⟩, hQ⟩

end Hooks

/-- One call of the consumer through the runtime's hooks. -/
theorem wpc_hookup_credited {w₀ : Runtime} {op : ConsumerCall F}
    (hop : rt.consumer.Justified body now op) (hw : Credited rt body now heard w₀ w) :
    wpc (hearingWorld now heard) (Credited rt body now heard w₀) (rt.hookup op)
      (fun _ w' => True ∧ Credited rt body now heard w₀ w') w := by
  have hlag : ∀ change : ConsumerLag → ConsumerLag,
      (change w.lag).lastMessageAt = w.lag.lastMessageAt →
      wpc (hearingWorld (F := F) now heard) (Credited rt body now heard w₀) (updateLag change)
        (fun _ w' => True ∧ Credited rt body now heard w₀ w') w := by
    intro change hkeeps
    refine wpc_lag hw ⟨?_, hw.heartbeat, hw.frame⟩
    rw [show (change w.lag).lastMessageAt = _ from hkeeps]
    exact hw.order
  have hpass : ∀ call : ConsumerCall F, wpc (hearingWorld now heard)
      (Credited rt body now heard w₀) (perform (.consumer call))
      (fun _ w' => True ∧ Credited rt body now heard w₀ w') w := by
    intro call
    apply wpc_of_perform hw
    rintro r w' ⟨rfl, -⟩
    exact ⟨hw, trivial, hw⟩
  cases op with
  | submitGateFn =>
      simp only [hookup, Proc.bind_eq, wpc_bind]
      apply wpc_of_perform hw
      rintro r w' ⟨⟨⟨hsame, rfl⟩, hlag'⟩, -⟩
      have hw' : Credited rt body now heard w₀ w' :=
        ⟨hlag' ▸ hw.order, hsame ▸ hw.heartbeat, hsame ▸ hw.frame⟩
      exact ⟨hw', hw', trivial, hw'⟩
  | heartbeatFn sentAt =>
      have hheard : wpc (monitorWorld.under (SafetyMonitor.hears heard))
          (fun s' => (s'.lastHeartbeatAt = w₀.monitor.lastHeartbeatAt ∨
            ∃ t, rt.consumer.StampedHeartbeat body t ∧ rt.monitor.RecentStamp t heard) ∧
            s' = { w₀.monitor with lastHeartbeatAt := s'.lastHeartbeatAt })
          (rt.monitor.recordHeartbeat (some sentAt)) (fun _ _ => True) w.monitor :=
        SafetyMonitor.wpc_recordHeartbeat_recent ⟨hw.heartbeat, hw.frame⟩ fun hrecent =>
          ⟨Or.inr ⟨sentAt, hop, hrecent⟩, by rw [hw.frame]⟩
      refine wpc_mono (wpc_ask hheard) ?_ ?_
      · rintro w' ⟨⟨hheartbeat, hframe⟩, hlag'⟩
        exact ⟨hlag' ▸ hw.order, hheartbeat, hframe⟩
      · rintro r w' ⟨⟨hheartbeat, hframe⟩, hlag'⟩ -
        exact ⟨trivial, hlag' ▸ hw.order, hheartbeat, hframe⟩
  | setLastMessageAt t =>
      have horder : rt.consumer.FreshOrder body now := hop.2
      exact wpc_lag hw ⟨Or.inr horder, hw.heartbeat, hw.frame⟩
  | setLastPollAt t => exact hlag _ rfl
  | setLastMessageCreatedAt t => exact hlag _ rfl
  | countMessage => exact hlag _ rfl
  | _ => exact hpass _

/-- Every handling, complete or not, credits only what its body justifies. -/
theorem handle_credited {msg : ReceivedMessage} {out : Option (Except Exc Outcome)} {w' : Runtime}
    (exec : Exec (hearingWorld now heard)
      ((rt.consumer.handle (F := F) msg now).interp rt.hookup) w out w') :
    Credited rt msg.body now heard w w' := by
  have hcredited : wpc (hearingWorld now heard) (Credited rt msg.body now heard w)
      ((rt.consumer.handle (F := F) msg now).interp rt.hookup)
      (fun _ w' => Credited rt msg.body now heard w w') w :=
    wpc_interp_of_along (fun _ _ hop hw => wpc_hookup_credited hop hw) Consumer.handle_justified
      (.refl rt msg.body now heard w)
  exact (wpc_sound exec hcredited).1

/-! ### Replays -/

/-- The message is past its TTL: an order with a readable date whose TTL has run out, or a
heartbeat without a stamp inside the limit. -/
def Past (rt : ExecutionRuntime) (L : ℤ) (body : PyVal) (now heard : Moment) : Prop :=
  (isHeartbeat body = false → Dated body.entries ∧
    ¬ WithinTtl rt.consumer.host body.entries now L) ∧
  ∀ t, rt.consumer.StampedHeartbeat body t → ¬ rt.monitor.RecentStamp t heard

/-- Messages that are past their TTL are handled, and the monitor is evaluated in session at
any time from `since` on. -/
inductive Replay (F : Type) (rt : ExecutionRuntime) (L : ℤ) (since : Moment) :
    Runtime → Runtime → Prop
  | handle {msg now heard w out w'} (past : Past rt L msg.body now heard)
      (exec : Exec (hearingWorld now heard)
        ((rt.consumer.handle (F := F) msg now).interp rt.hookup) w out w') :
      Replay F rt L since w w'
  | evaluate {now heard w out w'} (later : since ≤ now)
      (session : rt.monitor.sessionFn now = true)
      (exec : Exec (hearingWorld (F := F) now heard)
        (askMonitor (rt.monitor.evaluate w.lag.lastMessageAt (some now))) w out w') :
      Replay F rt L since w w'

/-- A message past its TTL leaves the monitor and the evidence as they were. -/
theorem Credited.unchanged {L : ℤ} {w' : Runtime} (hlimit : rt.consumer.maxAgeSec = some L)
    (past : Past rt L body now heard) (h : Credited rt body now heard w w') :
    w'.monitor = w.monitor ∧ w'.freshAt = w.freshAt := by
  have hlast : w'.lag.lastMessageAt = w.lag.lastMessageAt := by
    refine h.order.resolve_right fun ⟨horder, hexpired⟩ => ?_
    obtain ⟨hdated, hpast⟩ := past.1 horder
    rw [hlimit] at hexpired
    exact hpast (withinTtl_of_not_expired hexpired hdated)
  have hbeat : w'.monitor.lastHeartbeatAt = w.monitor.lastHeartbeatAt :=
    h.heartbeat.resolve_right fun ⟨t, hstamp, hrecent⟩ => past.2 t hstamp hrecent
  have hmonitor : w'.monitor = w.monitor := by
    rw [h.frame, hbeat]
  exact ⟨hmonitor, by rw [Runtime.freshAt, hmonitor, hlast]; rfl⟩

/-- The engine is PAUSED, and what it has heard is too old to resume. -/
structure PausedStale (rt : ExecutionRuntime) (since : Moment) (w : Runtime) : Prop where
  paused : w.monitor.state = .paused
  stale : rt.monitor.Unresumable since w.freshAt

theorem PausedStale.step {L : ℤ} {since : Moment} {w' : Runtime}
    (hlimit : rt.consumer.maxAgeSec = some L) (h : PausedStale rt since w)
    (step : Replay F rt L since w w') : PausedStale rt since w' := by
  cases step with
  | handle past exec =>
      obtain ⟨hmonitor, hfresh⟩ := (handle_credited exec).unchanged hlimit past
      exact ⟨hmonitor ▸ h.paused, hfresh.symm ▸ h.stale⟩
  | @evaluate now heard _ _ _ later session exec =>
      have hmonitor : wpc (monitorWorld.under (SafetyMonitor.hears heard)) (Eq w.monitor)
          (rt.monitor.evaluate w.lag.lastMessageAt (some now)) (fun _ _ => True) w.monitor :=
        wpc_of_world (fun _ _ _ _ step => step.1)
          (SafetyMonitor.wpc_evaluate_paused h.paused session (h.stale.mono later))
      obtain ⟨hsame, hlag⟩ := (wpc_sound exec (wpc_ask hmonitor)).1
      refine ⟨hsame ▸ h.paused, ?_⟩
      rw [Runtime.freshAt, ← hsame, hlag]
      exact h.stale

theorem PausedStale.lasts {L : ℤ} {since : Moment} {w' : Runtime}
    (hlimit : rt.consumer.maxAgeSec = some L) (h : PausedStale rt since w)
    (run : Relation.ReflTransGen (Replay F rt L since) w w') : PausedStale rt since w' := by
  induction run with
  | refl => exact h
  | tail _ step ih => exact ih.step hlimit step

/-- With an age limit the marks of freshness move for orders within their TTL and for recent
heartbeats alone, and replays of what is past it leave the engine PAUSED. -/
theorem freshness_is_earned {L : ℤ} (hlimit : rt.consumer.maxAgeSec = some L) :
    (∀ (msg : ReceivedMessage) (now heard : Moment) (w w' : Runtime)
      (out : Option (Except Exc Outcome)), Exec (hearingWorld now heard)
        ((rt.consumer.handle (F := F) msg now).interp rt.hookup) w out w' →
      (w'.lag.lastMessageAt ≠ w.lag.lastMessageAt → Dated msg.body.entries →
        WithinTtl rt.consumer.host msg.body.entries now L) ∧
      (w'.monitor.lastHeartbeatAt ≠ w.monitor.lastHeartbeatAt →
        ∃ t, rt.consumer.StampedHeartbeat msg.body t ∧ rt.monitor.RecentStamp t heard)) ∧
    ∀ (since : Moment) (w w' : Runtime), PausedStale rt since w →
      Relation.ReflTransGen (Replay F rt L since) w w' → w'.monitor.state = .paused := by
  constructor
  · intro msg now heard w w' out exec
    have hcredited := handle_credited exec
    refine ⟨fun hmoved hdated => ?_, fun hmoved => hcredited.heartbeat.resolve_left hmoved⟩
    obtain ⟨-, hexpired⟩ := hcredited.order.resolve_left hmoved
    rw [hlimit] at hexpired
    exact withinTtl_of_not_expired hexpired hdated
  · intro since w w' hpaused run
    exact (hpaused.lasts hlimit run).paused

/-- `documentedRuntime` with an age limit of five minutes. -/
def limitedRuntime : ExecutionRuntime :=
  { documentedRuntime with consumer := { Consumer.openConsumer with maxAgeSec := some 300 } }

/-- PAUSED, with nothing heard since the start. -/
def pausedRuntime : Runtime := { justStarted with
  monitor := { justStarted.monitor with state := .paused } }

/-- An order of the first moment with a last moment of its own. -/
def longLived (expiresAt : String) : ReceivedMessage :=
  ⟨"ack-1", "ams-outbound.executor", .dict (orderMessage "BUY" (.int 1000) .null ++
    [("created_at", .str "0001-01-01T00:00:00Z"), ("expires_at", .str expiresAt)]), 1⟩

/-- The host of `busyAnswer` without a record. -/
def busyHost (now : Moment) (op : RuntimeCall Unit) (w : Runtime) : Except Exc op.Ans × Runtime :=
  busyAnswer now w op

theorem busyHost_step (now : Moment) (op : RuntimeCall Unit) (w : Runtime) :
    hearingWorld now now w op (busyHost now op w).1 (busyHost now op w).2 := by
  refine ⟨(busy_step now op (w, [])).1, ?_⟩
  cases op with
  | monitor call =>
      cases call with
      | clock => exact rfl
      | _ => exact trivial
  | _ => exact trivial

/-- What a message of ten past leaves of a PAUSED runtime, and what it evaluates to then. -/
def handledAtTen (msg : ReceivedMessage) : Runtime :=
  (((limitedRuntime.consumer.handle (F := Unit) msg tenPast).interp limitedRuntime.hookup).run
    (busyHost tenPast) pausedRuntime).2

def resumedAtTen (msg : ReceivedMessage) : Except Exc SafetyState :=
  ((askMonitor (limitedRuntime.monitor.evaluate (handledAtTen msg).lag.lastMessageAt
    (some tenPast))).run (busyHost tenPast) (handledAtTen msg)).1

theorem handledAtTen_exec (msg : ReceivedMessage) : ∃ out, Exec (hearingWorld tenPast tenPast)
    ((limitedRuntime.consumer.handle (F := Unit) msg tenPast).interp limitedRuntime.hookup)
    pausedRuntime out (handledAtTen msg) :=
  ⟨_, exec_run (busyHost_step tenPast) _ _⟩

/-- A replay of an order that expired a minute ago leaves the engine PAUSED. -/
theorem freshness_is_earned_expired :
    (handledAtTen (longLived "0001-01-01T00:09:00Z")).monitor.state = .paused := by
  obtain ⟨out, exec⟩ := handledAtTen_exec (longLived "0001-01-01T00:09:00Z")
  have hpaused : PausedStale limitedRuntime tenPast pausedRuntime := by
    refine ⟨rfl, ?_⟩
    show _ = false
    decide +kernel
  have hpast : Past limitedRuntime 300 (longLived "0001-01-01T00:09:00Z").body tenPast tenPast := by
    have hheart : isHeartbeat (longLived "0001-01-01T00:09:00Z").body = false := by
      decide +kernel
    refine ⟨fun _ => ⟨Or.inl (by decide +kernel), ?_⟩, fun t hstamp => ?_⟩
    · have hover : ((readableDate (longLived "0001-01-01T00:09:00Z").body.entries
          "expires_at").bind fun dt => (dt.toUtc limitedRuntime.consumer.host).toOption).any
          (fun t => decide (tenPast < t)) = false := by decide +kernel
      rintro (⟨dt, t, hread, hutc, hahead⟩ | ⟨hnone, -⟩)
      · rw [hread] at hover
        simp [hutc, Except.toOption, hahead] at hover
      · exact absurd hnone (by decide +kernel)
    · cases hheart.symm.trans hstamp.1
  exact (freshness_is_earned rfl).2 tenPast _ _ hpaused (.single (.handle hpast exec))

/-- An order ten minutes old that does not expire before tomorrow counts as evidence of now,
and takes the engine out of PAUSED. -/
theorem old_order_resumes :
    (¬ ∀ (msg : ReceivedMessage) (now heard : Moment) (w w' : Runtime)
      (out : Option (Except Exc Outcome)), Exec (hearingWorld now heard)
        ((limitedRuntime.consumer.handle (F := Unit) msg now).interp limitedRuntime.hookup)
          w out w' →
      w'.lag.lastMessageAt ≠ w.lag.lastMessageAt →
        ∃ t, parseTs limitedRuntime.consumer.host msg.body.entries ["created_at"] =
          .ok (some t) ∧ floatGtInt (now.secondsSince t) 300 = false) ∧
    (resumedAtTen (longLived "0001-01-02T00:00:00Z")).toOption = some .running := by
  constructor
  · intro hall
    obtain ⟨out, exec⟩ := handledAtTen_exec (longLived "0001-01-02T00:00:00Z")
    obtain ⟨t, hread, hrecent⟩ := hall _ _ _ _ _ _ exec (by decide +kernel)
    have hstamp : (parseTs limitedRuntime.consumer.host
        (longLived "0001-01-02T00:00:00Z").body.entries ["created_at"]).toOption.bind id =
          some Moment.first := by decide +kernel
    rw [hread] at hstamp
    obtain rfl : t = Moment.first := Option.some.inj hstamp
    rw [show floatGtInt (tenPast.secondsSince Moment.first) 300 = true by decide +kernel] at hrecent
    cases hrecent
  · decide +kernel

end ExecutionRuntime

end System2
