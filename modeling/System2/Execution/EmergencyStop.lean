import System2.Execution.EngineRun

/-!
# The emergency stop (`EmergencyStop`, `execution/lifecycle.py`)

A latch that a signal, a call or a file sets. The run loop and each tick look at it, and a poll
goes through its whole batch between two looks.

## Implementation notes

Signal handlers and other threads may set the latch and the operator may put the file there
before any call; nobody takes the file away before it has been seen.
-/

namespace System2
open Foundation

/-! ### The latch -/

/-- The calls of the stop: its event, its reason and the file. -/
inductive StopCall
  | isSet
  | set
  | setReason (reason : String)
  | getReason
  | sentinelExists

abbrev StopCall.Ans : StopCall → Type
  | .isSet => Bool
  | .getReason => Option String
  | .sentinelExists => Bool
  | _ => Unit

abbrev StopI : Interface := ⟨StopCall, StopCall.Ans⟩

/-- `EmergencyStop`, with the path of its file when it has one. -/
structure EmergencyStop where
  sentinelPath : Option String

namespace EmergencyStop

abbrev perform (op : StopCall) : Proc StopI Exc op.Ans := Proc.perform (I := StopI) op

/-- `__init__`: an empty path is none. -/
def ofPath (sentinelPath : Option String) : EmergencyStop := ⟨sentinelPath.filter (· ≠ "")⟩

/-- `trigger`: the reason is there before the event is set. -/
def trigger (reason : String) : Proc StopI Exc Unit := do
  let isSet ← perform .isSet
  if isSet then return ()
  else
    let _ ← perform (.setReason reason)
    perform .set

/-- `is_stopped`. -/
def isStopped (stop : EmergencyStop) : Proc StopI Exc Bool := do
  let isSet ← perform .isSet
  if isSet then return true
  else
    match stop.sentinelPath with
    | none => return false
    | some path =>
        let found ← perform .sentinelExists
        if found then
          let _ ← trigger ("sentinel:" ++ path)
          return true
        else return false

/-- `reason`. -/
def reason : Proc StopI Exc (Option String) := perform .getReason

end EmergencyStop

/-! ### The engine behind it -/

/-- The calls of an engine, with those of its stop. -/
inductive GuardedCall
  | engine (call : EngineCall)
  | stop (call : StopCall)

abbrev GuardedCall.Ans : GuardedCall → Type
  | .engine call => call.Ans
  | .stop call => call.Ans

abbrev GuardedI : Interface := ⟨GuardedCall, GuardedCall.Ans⟩

/-- An engine and its emergency stop. -/
structure GuardedEngine where
  engine : Engine
  stop : EmergencyStop

namespace GuardedEngine

abbrev perform (op : GuardedCall) : Proc GuardedI Exc op.Ans := Proc.perform (I := GuardedI) op

def onStop {α : Type} (p : Proc StopI Exc α) : Proc GuardedI Exc α :=
  p.interp fun call => perform (.stop call)

def onLive {α : Type} (p : Proc LiveI Exc α) : Proc GuardedI Exc α :=
  p.interp fun call => perform (.engine (.live call))

/-- The engine looks at its stop, and polls through its consumer. The other parts of a tick hold
no `submit_fn`; they stay calls. -/
def wire (g : GuardedEngine) : (op : EngineCall) → Proc GuardedI Exc op.Ans
  | .tick .isStopped => onStop g.stop.isStopped
  | .tick .pollOnce => onLive (g.engine.live.service.pollOnce.interp g.engine.live.wire)
  | .stopReason => onStop EmergencyStop.reason
  | op => perform (.engine op)

/-- `run` of the wired engine. -/
def run (g : GuardedEngine) (maxTicks : ℕ) : Proc GuardedI Exc Unit :=
  (g.engine.run maxTicks).interp g.wire

end GuardedEngine

/-! ### What goes on around it -/

/-- The latch, its reason, and whether the file is there. -/
structure LatchState where
  latched : Bool
  reason : Option String
  sentinel : Bool

/-- What signal handlers, other threads and the operator may do. -/
inductive Meanwhile : LatchState → LatchState → Prop
  | nothing {s} : Meanwhile s s
  | explained {s s'} (before : Meanwhile s s') (text : String) :
      Meanwhile s { s' with reason := some text }
  | latched {s s'} (before : Meanwhile s s') : Meanwhile s { s' with latched := true }
  | touched {s s'} (before : Meanwhile s s') : Meanwhile s { s' with sentinel := true }

/-- What a call of the stop does, and its answer. A look at the file may fail. -/
def LatchState.step (s : LatchState) : (op : StopCall) → Except Exc op.Ans → LatchState → Prop
  | .isSet, r, s' => r = .ok s.latched ∧ s' = s
  | .set, r, s' => r = .ok () ∧ s' = { s with latched := true }
  | .setReason text, r, s' => r = .ok () ∧ s' = { s with reason := some text }
  | .getReason, r, s' => r = .ok s.reason ∧ s' = s
  | .sentinelExists, r, s' => (∀ b, r = .ok b → b = s.sentinel) ∧ s' = s

/-- No request is taken back. -/
structure LatchState.Upto (s s' : LatchState) : Prop where
  latched : s.latched = true → s'.latched = true
  sentinel : s.sentinel = true → s'.sentinel = true

theorem Meanwhile.upto {s s' : LatchState} (h : Meanwhile s s') : s.Upto s' := by
  induction h with
  | nothing => exact ⟨id, id⟩
  | explained before text ih => exact ⟨ih.latched, ih.sentinel⟩
  | latched before ih => exact ⟨fun _ => rfl, ih.sentinel⟩
  | touched before ih => exact ⟨ih.latched, fun _ => rfl⟩

theorem LatchState.step.upto {s s' : LatchState} {op : StopCall} {r : Except Exc op.Ans}
    (step : s.step op r s') : s.Upto s' := by
  cases op with
  | set => exact ⟨fun _ => by rw [step.2], fun h => by rw [step.2]; exact h⟩
  | setReason text => exact ⟨fun h => by rw [step.2]; exact h, fun h => by rw [step.2]; exact h⟩
  | _ => exact step.2 ▸ ⟨id, id⟩

/-- A stop has been asked for: the latch is set, or the file is there. -/
def EmergencyStop.Requested (stop : EmergencyStop) (s : LatchState) : Prop :=
  s.latched = true ∨ stop.sentinelPath.isSome = true ∧ s.sentinel = true

instance (stop : EmergencyStop) (s : LatchState) : Decidable (stop.Requested s) :=
  inferInstanceAs (Decidable (_ ∨ _))

theorem EmergencyStop.Requested.upto {stop : EmergencyStop} {s s' : LatchState}
    (h : stop.Requested s) (later : s.Upto s') : stop.Requested s' :=
  h.imp later.latched fun hfile => ⟨hfile.1, later.sentinel hfile.2⟩

/-- The state of a stop, and the number of orders submitted since a stop was asked for. -/
structure GuardedState where
  stop : LatchState
  late : ℕ

namespace GuardedEngine

/-- A call of `submit_fn`. -/
def isSubmit : GuardedCall → Bool
  | .engine (.live call) => LiveRuntime.isSubmit call
  | _ => false

/-- A `SELECT` of ready rows keeps to its limit. -/
def Limits : (op : QueueCall) → Except Exc op.Ans → Prop
  | .selectAvailable _ _ limit, r => 0 ≤ limit → ∀ rows, r = .ok rows → rows.length ≤ limit.toNat
  | _, _ => True

/-- The queue keeps to its limits; everything else answers anything. -/
def Answers : (op : GuardedCall) → Except Exc op.Ans → Prop
  | .engine (.live (.service (.queue call))), r => Limits call r
  | _, _ => True

/-- Before each call the stop may be asked for; a submit behind a request is late. -/
def guardedWorld (g : GuardedEngine) : World GuardedI Exc GuardedState := fun w op r w' =>
  ∃ m, Meanwhile w.stop m ∧
    w'.late = w.late + (if isSubmit op = true ∧ g.stop.Requested m then 1 else 0) ∧
    Answers op r ∧
    match op with
    | .engine _ => w'.stop = m
    | .stop call => m.step call r w'.stop

/-- Nothing is late before a stop has been asked for. -/
def Prompt (g : GuardedEngine) (w : GuardedState) : Prop := ¬ g.stop.Requested w.stop → w.late = 0

variable {g : GuardedEngine} {w w' : GuardedState}

theorem upto_step {op : GuardedCall} {r : Except Exc op.Ans} (step : guardedWorld g w op r w') :
    w.stop.Upto w'.stop := by
  obtain ⟨m, hm, -, -, hstep⟩ := step
  have hbefore := hm.upto
  cases op with
  | engine call => exact hstep ▸ hbefore
  | stop call =>
      have hown := hstep.upto
      exact ⟨hown.latched ∘ hbefore.latched, hown.sentinel ∘ hbefore.sentinel⟩

theorem prompt_step {op : GuardedCall} {r : Except Exc op.Ans} (h : g.Prompt w)
    (step : guardedWorld g w op r w') : g.Prompt w' := by
  intro hnot
  have hclear : w.late = 0 := h fun hreq => hnot (hreq.upto (upto_step step))
  obtain ⟨m, -, hlate, -, hstep⟩ := step
  have hnotm : ¬ g.stop.Requested m := by
    intro hreq
    apply hnot
    cases op with
    | engine call => exact hstep ▸ hreq
    | stop call => exact hreq.upto hstep.upto
  rw [hlate, if_neg fun h => hnotm h.2, hclear]

theorem late_step {op : GuardedCall} {r : Except Exc op.Ans} (step : guardedWorld g w op r w') :
    w'.late ≤ w.late + if isSubmit op then 1 else 0 := by
  obtain ⟨m, -, hlate, -⟩ := step
  rw [hlate]
  split_ifs with hboth hsubmit <;> simp_all

theorem wpc_prompt {α : Type} (p : Proc GuardedI Exc α) (h : g.Prompt w) :
    wpc (guardedWorld g) g.Prompt p (fun _ w' => g.Prompt w') w :=
  wpc_of_only (P := fun _ => True) (fun _ _ _ _ _ hw step => prompt_step hw step) p.only_true h

/-! ### Looks at the stop -/

/-- The event is not set: it was not set when the look began. -/
theorem wpc_isSet (w : GuardedState) :
    wp (guardedWorld g) (perform (.stop .isSet))
      (fun r w' => (r = .ok false → w.stop.latched = false) ∧ w.stop.Upto w'.stop ∧ r.isOk = true)
      w := by
  refine wpc_of_perform trivial fun r w' step => ⟨trivial, ?_, upto_step step, ?_⟩
  · obtain ⟨m, hm, -, -, rfl, -⟩ := step
    intro hclear
    by_contra hset
    have hlatched := hm.upto.latched (by simpa using hset)
    rw [hlatched] at hclear
    cases hclear
  · obtain ⟨m, -, -, -, rfl, -⟩ := step
    rfl

/-- The file is not there: it was not there when the look began. -/
theorem wpc_sentinelExists (w : GuardedState) :
    wp (guardedWorld g) (perform (.stop .sentinelExists))
      (fun r _ => r = .ok false → w.stop.sentinel = false) w := by
  refine wpc_of_perform trivial ?_
  rintro r w' ⟨m, hm, -, -, hanswer, -⟩
  refine ⟨trivial, fun hr => ?_⟩
  by_contra hthere
  have hkept := hm.upto.sentinel (by simpa using hthere)
  rw [← hanswer false hr] at hkept
  cases hkept

/-- A look misses only a request that comes after it has begun. -/
theorem wpc_isStopped (w : GuardedState) :
    wp (guardedWorld g) (onStop g.stop.isStopped)
      (fun r _ => r = .ok false → ¬ g.stop.Requested w.stop) w := by
  unfold EmergencyStop.isStopped onStop
  rw [Proc.bind_eq, EmergencyStop.perform, Proc.interp_perform_bind (I := StopI)]
  refine wpc_seq (wpc_isSet w) ?_ fun e _ _ h => by cases h.2.2
  rintro isSet w₁ - ⟨hclear, hupto, -⟩
  cases isSet with
  | true => exact ⟨trivial, fun h => by cases h⟩
  | false =>
      have hunset : w.stop.latched ≠ true := by simp [hclear rfl]
      simp only [Bool.false_eq_true, if_false]
      cases hpath : g.stop.sentinelPath with
      | none =>
          refine ⟨trivial, ?_⟩
          rintro - (hlatched | hthere)
          · exact hunset hlatched
          · simp [hpath] at hthere
      | some path =>
          dsimp only
          rw [Proc.bind_eq, EmergencyStop.perform, Proc.interp_perform_bind (I := StopI)]
          refine wpc_seq (wpc_sentinelExists w₁) ?_ fun e _ _ _ h => by cases h
          intro found w₂ _ hseen
          cases found with
          | true =>
              simp only [if_true, Proc.bind_eq, Proc.pure_eq, Proc.interp_bind]
              exact wpc_seq (wp_true _ _) (fun _ _ _ _ => ⟨trivial, fun h => by cases h⟩)
                fun e _ _ _ h => by cases h
          | false =>
              refine ⟨trivial, ?_⟩
              rintro - (hlatched | hthere)
              · exact hunset hlatched
              · rw [hupto.sentinel hthere.2] at hseen
                cases hseen rfl

end GuardedEngine

end System2
