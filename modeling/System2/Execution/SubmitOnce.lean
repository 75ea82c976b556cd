import System2.Execution.Pipeline
import System2.Foundation.OnceGuard

/-!
# One returned submit per guard key

Whole runs of `process` over any orders. The processed store works and keeps
its keys across restarts; every hook may return or raise as it likes.

## Implementation notes

A call may also end with the death of the process. The store then keeps the
keys it has, and every mark that a returned submit asks for has succeeded.
-/

namespace System2
open Foundation

namespace Pipeline

variable {F : Type}

/-- The durable store: `seen` and `mark` work, the clock tells some time and the
hooks are free. -/
def storeWorld : World (PipelineI F) Exc (List String) := fun s op =>
  match op with
  | .seen key => fun r s' => r = .ok (decide (key ∈ s)) ∧ s' = s
  | .mark key => fun r s' => r = .ok () ∧ s' = key :: s
  | .clock => fun r s' => (∃ t, r = .ok t) ∧ s' = s
  | .validate _ => fun _ s' => s' = s
  | .submit _ => fun _ s' => s' = s
  | .persist _ _ => fun _ s' => s' = s
  | .emit _ _ => fun _ s' => s' = s

/-- Is this the event of a `submit_fn` call that returned? -/
def isReturnedSubmit : Event (PipelineI F) Exc → Bool
  | ⟨.submit _, .ok _⟩ => true
  | _ => false

/-- A recorded `process` call has a `submit_fn` call that returned. -/
def submitReturned (trace : List (Event (PipelineI F) Exc)) : Bool :=
  trace.any isReturnedSubmit

@[simp] theorem submitReturned_append (t u : List (Event (PipelineI F) Exc)) :
    submitReturned (t ++ u) = (submitReturned t || submitReturned u) := by
  simp [submitReturned]

/-- A store together with the calls recorded so far. -/
abbrev Recorded (F : Type) := List String × List (Event (PipelineI F) Exc)

/-- Nothing that matters to the guard has happened between two states. -/
def Quiet (w w' : Recorded F) : Prop :=
  w'.1 = w.1 ∧ submitReturned w'.2 = submitReturned w.2

theorem Quiet.refl (w : Recorded F) : Quiet w w := ⟨rfl, rfl⟩

theorem Quiet.trans {u v w : Recorded F} (huv : Quiet u v) (hvw : Quiet v w) : Quiet u w :=
  ⟨hvw.1.trans huv.1, hvw.2.trans huv.2⟩

theorem submitReturned_single (op : PipelineCall F) (r : Except Exc op.Ans)
    (hop : ∀ c, op ≠ .submit c) :
    submitReturned [(⟨op, r⟩ : Event (PipelineI F) Exc)] = false := by
  cases op with
  | submit c => exact absurd rfl (hop c)
  | _ => rfl

/-- A call that is neither a mark nor a submit is quiet. -/
theorem quiet_of_step {w w' : Recorded F} {op : PipelineCall F} {r : Except Exc op.Ans}
    (step : storeWorld.traced w op r w') (hsubmit : ∀ c, op ≠ .submit c)
    (hmark : ∀ k, op ≠ .mark k) : Quiet w w' := by
  obtain ⟨hstore, htrace⟩ := step
  constructor
  · cases op with
    | mark k => exact absurd rfl (hmark k)
    | submit c => exact absurd rfl (hsubmit c)
    | seen key => exact hstore.2
    | clock => exact hstore.2
    | validate c => exact hstore
    | persist c fill => exact hstore
    | emit c fill => exact hstore
  · rw [htrace, submitReturned_append, submitReturned_single op r hsubmit, Bool.or_false]

/-- What the guard keeps true wherever a call may stop: the store has not lost a
key, and a submit returned only if none of the order's keys was spent before. -/
def Guarded (order : ApprovedOrder) (s : List String) (w : Recorded F) : Prop :=
  s ⊆ w.1 ∧ (submitReturned w.2 = true → ∀ k ∈ guardKeys order, k ∉ s)

/-- A returned submit has spent every key of the order. -/
def Spent (order : ApprovedOrder) (w : Recorded F) : Prop :=
  submitReturned w.2 = true → ∀ k ∈ guardKeys order, k ∈ w.1

variable {order : ApprovedOrder} {s : List String}

theorem Guarded.of_quiet {w w' : Recorded F} (hw : Guarded order s w) (q : Quiet w w') :
    Guarded order s w' := by
  obtain ⟨hstore, hsubmit⟩ := q
  refine ⟨hstore ▸ hw.1, fun h => hw.2 ?_⟩
  rw [← hsubmit]
  exact h

theorem Spent.of_quiet {w w' : Recorded F} (hw : Spent order w) (q : Quiet w w') :
    Spent order w' := by
  obtain ⟨hstore, hsubmit⟩ := q
  intro h
  rw [hstore]
  exact hw (hsubmit ▸ h)

/-- Nothing has been submitted yet. -/
theorem spent_of_not_submitted {w : Recorded F} (h : submitReturned w.2 = false) :
    Spent order w := by
  intro hsub
  rw [h] at hsub
  cases hsub

/-- `any_seen` reads the store and says whether it holds one of the keys. -/
theorem wpc_anySeen {keys : List String} {w : Recorded F} {C : Recorded F → Prop}
    {Q : Except Exc Bool → Recorded F → Prop} (hC : ∀ w', Quiet w w' → C w')
    (hQ : ∀ b w', Quiet w w' → (b = false → ∀ k ∈ keys, k ∉ w.1) → Q (.ok b) w') :
    wpc storeWorld.traced C (anySeen keys) Q w := by
  induction keys generalizing w with
  | nil => exact ⟨hC w (.refl w), hQ false w (.refl w) (by simp)⟩
  | cons key rest ih =>
      simp only [anySeen, Proc.bind_eq, wpc_bind]
      apply wpc_of_perform (hC w (.refl w))
      intro r w' step
      have q : Quiet w w' := quiet_of_step step (by simp) (by simp)
      obtain ⟨⟨rfl, -⟩, -⟩ := step
      refine ⟨hC w' q, ?_⟩
      by_cases hkey : key ∈ w.1
      · simp only [hkey, decide_true, if_true, wpc_ret]
        exact ⟨hC w' q, hQ true w' q (by simp)⟩
      · simp only [hkey, decide_false, Bool.false_eq_true, if_false]
        apply ih
        · intro w'' q'
          exact hC w'' (q.trans q')
        · intro b w'' q' hb
          apply hQ b w'' (q.trans q')
          intro hfalse k hk
          rcases List.mem_cons.mp hk with rfl | hrest
          · exact hkey
          · exact q.1 ▸ hb hfalse k hrest

/-- `mark_all` ends with every key in the store and loses none on the way. -/
theorem wpc_markAll {keys : List String} {w : Recorded F} {C : Recorded F → Prop}
    {Q : Except Exc Unit → Recorded F → Prop}
    (hC : ∀ w', w.1 ⊆ w'.1 → submitReturned w'.2 = submitReturned w.2 → C w')
    (hQ : ∀ w', w.1 ⊆ w'.1 → submitReturned w'.2 = submitReturned w.2 →
      (∀ k ∈ keys, k ∈ w'.1) → Q (.ok ()) w') :
    wpc storeWorld.traced C (markAll keys) Q w := by
  induction keys generalizing w with
  | nil => exact ⟨hC w (fun _ h => h) rfl, hQ w (fun _ h => h) rfl (by simp)⟩
  | cons key rest ih =>
      simp only [markAll, Proc.bind_eq, wpc_bind]
      apply wpc_of_perform (hC w (fun _ h => h) rfl)
      intro r w' step
      obtain ⟨⟨rfl, hstore⟩, htrace⟩ := step
      have hgrow : w.1 ⊆ w'.1 := by
        rw [hstore]
        exact List.subset_cons_self key w.1
      have hkey : key ∈ w'.1 := by
        rw [hstore]
        exact List.mem_cons_self
      have hsub : submitReturned w'.2 = submitReturned w.2 := by
        rw [htrace, submitReturned_append, submitReturned_single _ _ (by simp), Bool.or_false]
      refine ⟨hC w' hgrow hsub, ?_⟩
      apply ih
      · intro w'' hsubset hsame
        exact hC w'' (fun _ h => hsubset (hgrow h)) (hsame.trans hsub)
      · intro w'' hsubset hsame hrest
        apply hQ w'' (fun _ h => hsubset (hgrow h)) (hsame.trans hsub)
        intro k hk
        rcases List.mem_cons.mp hk with rfl | hmem
        · exact hsubset hkey
        · exact hrest k hmem

/-- What a complete call establishes. -/
def Settled (order : ApprovedOrder) (s : List String) (w : Recorded F) : Prop :=
  Guarded order s w ∧ Spent order w

theorem Settled.of_quiet {w w' : Recorded F} (hw : Settled order s w) (q : Quiet w w') :
    Settled order s w' := ⟨hw.1.of_quiet q, hw.2.of_quiet q⟩

/-- A hook keeps what the submit established, whether it returns or raises. -/
theorem wpc_hook {op : PipelineCall F} {w : Recorded F}
    {Q : Except Exc op.Ans → Recorded F → Prop} (hsubmit : ∀ c, op ≠ .submit c)
    (hmark : ∀ k, op ≠ .mark k) (hw : Settled order s w)
    (hQ : ∀ r w', Settled order s w' → Q r w') :
    wpc storeWorld.traced (Guarded order s) (Proc.perform (I := PipelineI F) op) Q w := by
  apply wpc_of_perform hw.1
  intro r w' step
  have hw' := hw.of_quiet (quiet_of_step step hsubmit hmark)
  exact ⟨hw'.1, hQ r w' hw'⟩

/-- Submit, mark and hooks: a submit that returns spends every key before anything
that may still fail. -/
theorem wpc_submitAndRecord {p : Pipeline} {c : ConstructedOrder} {w : Recorded F}
    (hgrow : s ⊆ w.1) (hsub : submitReturned w.2 = false)
    (hfresh : ∀ k ∈ guardKeys order, k ∉ s) :
    wpc storeWorld.traced (Guarded order s) (submitAndRecord p order c)
      (fun _ w' => Settled order s w') w := by
  have hkeep : ∀ w' : Recorded F, w.1 ⊆ w'.1 → Guarded order s w' :=
    fun w' h => ⟨fun _ hk => h (hgrow hk), fun _ => hfresh⟩
  have hw : Guarded order s w := hkeep w fun _ h => h
  unfold submitAndRecord
  cases p.hasSubmit with
  | false => exact ⟨hw, hw, spent_of_not_submitted hsub⟩
  | true =>
      simp only [Bool.not_true, Bool.false_eq_true, if_false, Proc.bind_eq, wpc_bind]
      apply wpc_of_perform hw
      intro r w' step
      obtain ⟨hstore, htrace⟩ := step
      have hsame : w'.1 = w.1 := hstore
      have hw' : Guarded order s w' := hkeep w' (hsame ▸ fun _ h => h)
      refine ⟨hw', ?_⟩
      cases r with
      | error e =>
          -- a submit that raised has not returned, so nothing has to be spent
          refine ⟨hw', spent_of_not_submitted ?_⟩
          rw [htrace, submitReturned_append, hsub]
          rfl
      | ok fill =>
          apply wpc_markAll
          · intro v hv _
            exact ⟨fun _ hk => hv (hw'.1 hk), fun _ => hfresh⟩
          · intro v hv _ hmarked
            have hsettled : Settled order s v :=
              ⟨⟨fun _ hk => hv (hw'.1 hk), fun _ => hfresh⟩, fun _ => hmarked⟩
            have hemit : ∀ v', Settled order s v' →
                wpc storeWorld.traced (Guarded order s)
                  ((Proc.given p.hasEmit (Proc.perform (I := PipelineI F) (.emit c fill))).bind
                    fun _ => (.ret ⟨.executed, some c, some fill, []⟩ :
                      Proc (PipelineI F) Exc (ProcessResult F)))
                  (fun _ w' => Settled order s w') v' := by
              intro v' hv'
              simp only [wpc_bind]
              refine wpc_given (fun _ => ?_) (fun _ => ⟨hv'.1, hv'.1, hv'⟩)
              apply wpc_hook (by simp) (by simp) hv'
              intro r₂ v₂ hv₂
              cases r₂ with
              | error e => exact hv₂
              | ok _ => exact ⟨hv₂.1, hv₂⟩
            simp only [wpc_bind] at hemit
            refine wpc_given (fun _ => ?_) (fun _ => ⟨hsettled.1, hemit v hsettled⟩)
            apply wpc_hook (by simp) (by simp) hsettled
            intro r₁ v₁ hv₁
            cases r₁ with
            | error e => exact hv₁
            | ok _ => exact hemit v₁ hv₁

/-- The gates before the submit are quiet. -/
theorem wpc_lastGates {p : Pipeline} {c : ConstructedOrder} {opens : List String}
    {w : Recorded F} (hgrow : s ⊆ w.1) (hsub : submitReturned w.2 = false)
    (hfresh : ∀ k ∈ guardKeys order, k ∉ s) :
    wpc storeWorld.traced (Guarded order s) (lastGates p order c opens)
      (fun _ w' => Settled order s w') w := by
  have hkeep : ∀ w', Quiet w w' → Settled order s w' := by
    intro w' q
    have hsub' : submitReturned w'.2 = false := q.2.trans hsub
    exact ⟨⟨q.1 ▸ hgrow, fun _ => hfresh⟩, spent_of_not_submitted hsub'⟩
  have hrest : ∀ (verdict : Bool × FString) (w' : Recorded F), Quiet w w' →
      wpc storeWorld.traced (Guarded order s)
        (if !verdict.1 then .ret ⟨.rejectedValidation, some c, none, verdict.2⟩
         else if !(backupGuard p.maxOpenPositions order opens).1 then
           .ret ⟨.rejectedBackupGuard, some c, none,
             (backupGuard p.maxOpenPositions order opens).2⟩
         else if p.shadow then .ret ⟨.shadow, some c, none, []⟩
         else submitAndRecord p order c)
        (fun _ w' => Settled order s w') w' := by
    intro verdict w' q
    have hw' := hkeep w' q
    split_ifs with hverdict hguard hshadow
    · exact ⟨hw'.1, hw'⟩
    · exact ⟨hw'.1, hw'⟩
    · exact ⟨hw'.1, hw'⟩
    · exact wpc_submitAndRecord (q.1 ▸ hgrow) (q.2.trans hsub) hfresh
  have hw : Settled order s w := hkeep w (.refl w)
  simp only [lastGates, Proc.bind_eq]
  cases p.hasValidate with
  | false => exact hrest (true, []) w (.refl w)
  | true =>
      simp only [if_true, wpc_bind]
      apply wpc_of_perform hw.1
      intro r w' step
      have q : Quiet w w' := quiet_of_step step (by simp) (by simp)
      refine ⟨(hkeep w' q).1, ?_⟩
      cases r with
      | error e => exact hkeep w' q
      | ok verdict => exact hrest verdict w' q

/-- One call of `process` on a store: if the submit returned, the keys were fresh
before and are spent after. -/
theorem wpc_process {p : Pipeline} {price : PyVal} {opens : List String} :
    wpc storeWorld.traced (Guarded order s) (process p order price opens)
      (fun _ w' => Settled order s w') ((s, []) : Recorded F) := by
  have hstart : ∀ w' : Recorded F, Quiet (s, []) w' → Settled order s w' := by
    intro w' q
    have hsub : submitReturned w'.2 = false := q.2
    refine ⟨⟨?_, fun h => ?_⟩, spent_of_not_submitted hsub⟩
    · rw [q.1]
      exact fun _ h => h
    · rw [hsub] at h
      cases h
  unfold process
  split_ifs with hmode
  · exact ⟨(hstart _ (.refl _)).1, hstart _ (.refl _)⟩
  simp only [Proc.bind_eq, wpc_bind]
  apply wpc_anySeen (fun w' q => (hstart w' q).1)
  intro duplicate w' q hfresh
  cases duplicate with
  | true => exact ⟨(hstart w' q).1, hstart w' q⟩
  | false =>
      simp only [Bool.false_eq_true, if_false, wpc_bind]
      apply wpc_of_perform (hstart w' q).1
      intro r w'' step
      have q'' : Quiet (s, []) w'' := q.trans (quiet_of_step step (by simp) (by simp))
      have hw'' := hstart w'' q''
      obtain ⟨⟨now, rfl⟩, -⟩ := step.1
      refine ⟨hw''.1, ?_⟩
      dsimp only
      split_ifs with hsession
      · exact ⟨hw''.1, hw''⟩
      · cases buildOrder order price with
        | error e =>
            dsimp only
            split_ifs
            · exact ⟨hw''.1, hw''⟩
            · exact ⟨hw''.1, hw''⟩
        | ok c =>
            apply wpc_lastGates _ q''.2 (hfresh rfl)
            rw [q''.1]
            exact fun _ h => h

/-- Runs of `process` on one store, with any settings, order, price and open
instruments each time. A call may end with the death of the process, but not
between a returned submit and its marks. -/
inductive StoreRun :
    List String → List (ApprovedOrder × List (Event (PipelineI F) Exc)) → List String → Prop
  | nil {s : List String} : StoreRun s [] s
  | call {s s' s'' : List String} {p : Pipeline} {order : ApprovedOrder} {price : PyVal}
      {opens : List String} {out : Option (Except Exc (ProcessResult F))}
      {trace : List (Event (PipelineI F) Exc)}
      {calls : List (ApprovedOrder × List (Event (PipelineI F) Exc))}
      (exec : Exec storeWorld.traced (process p order price opens) (s, []) out (s', trace))
      (marks : out = none → Spent order (s', trace))
      (tail : StoreRun s' calls s'') : StoreRun s ((order, trace) :: calls) s''

/-- What a recorded call did to the guard. -/
def fired (call : ApprovedOrder × List (Event (PipelineI F) Exc)) : Option (List String) :=
  if submitReturned call.2 then some (guardKeys call.1) else none

/-- A run of `process` is a run of the guard on the keys in the store. -/
theorem StoreRun.guardRun {s s' : List String}
    {calls : List (ApprovedOrder × List (Event (PipelineI F) Exc))} (run : StoreRun s calls s') :
    OnceGuard.Run {k | k ∈ s} (calls.map fired) {k | k ∈ s'} := by
  induction run with
  | nil => exact .nil
  | @call s s' s'' p order price opens out trace calls exec marks tail ih =>
      obtain ⟨hguard, hpost⟩ := wpc_sound exec wpc_process
      have hspent : Spent order (s', trace) := by
        cases out with
        | none => exact marks rfl
        | some r => exact (hpost r rfl).2
      rw [List.map_cons]
      by_cases hsub : submitReturned trace = true
      · rw [show fired (order, trace) = some (guardKeys order) by simp [fired, hsub]]
        exact .fire (hguard.2 hsub) hguard.1 (hspent hsub) ih
      · rw [show fired (order, trace) = none by simp [fired, hsub]]
        exact .quiet hguard.1 ih

/-- In every run, at most one of the calls on orders that carry a key has a
`submit_fn` call that returned. -/
theorem submit_returns_at_most_once {s s' : List String}
    {calls : List (ApprovedOrder × List (Event (PipelineI F) Exc))} (run : StoreRun s calls s')
    (k : String) :
    (calls.filter fun call => (guardKeys call.1).contains k && submitReturned call.2).length ≤ 1 := by
  have honce := run.guardRun.fires_at_most_once k
  rw [List.filter_map, List.length_map] at honce
  have hsame : (OnceGuard.firesWith k ∘ fired : _ → Bool) =
      fun call : ApprovedOrder × List (Event (PipelineI F) Exc) =>
        (guardKeys call.1).contains k && submitReturned call.2 := by
    funext call
    by_cases hsub : submitReturned call.2 = true
    · simp [OnceGuard.firesWith, fired, hsub]
    · simp [OnceGuard.firesWith, fired, hsub]
  rwa [hsame] at honce

/-- A store with hooks that all return, at one moment. -/
def calmStore (now : Moment) (fill : F) (op : PipelineCall F) (w : Recorded F) :
    Except Exc op.Ans × Recorded F :=
  match op with
  | .seen key => (.ok (decide (key ∈ w.1)), w.1, w.2 ++ [⟨.seen key, .ok (decide (key ∈ w.1))⟩])
  | .mark key => (.ok (), key :: w.1, w.2 ++ [⟨.mark key, .ok ()⟩])
  | .clock => (.ok now, w.1, w.2 ++ [⟨.clock, .ok now⟩])
  | .validate c => (.ok (true, []), w.1, w.2 ++ [⟨.validate c, .ok (true, [])⟩])
  | .submit c => (.ok fill, w.1, w.2 ++ [⟨.submit c, .ok fill⟩])
  | .persist c f => (.ok (), w.1, w.2 ++ [⟨.persist c f, .ok ()⟩])
  | .emit c f => (.ok (), w.1, w.2 ++ [⟨.emit c f, .ok ()⟩])

theorem calmStore_step (now : Moment) (fill : F) (op : PipelineCall F) (w : Recorded F) :
    storeWorld.traced w op (calmStore now fill op w).1 (calmStore now fill op w).2 := by
  cases op with
  | clock => exact ⟨⟨⟨now, rfl⟩, rfl⟩, rfl⟩
  | seen key => exact ⟨⟨rfl, rfl⟩, rfl⟩
  | mark key => exact ⟨⟨rfl, rfl⟩, rfl⟩
  | validate c => exact ⟨rfl, rfl⟩
  | submit c => exact ⟨rfl, rfl⟩
  | persist c f => exact ⟨rfl, rfl⟩
  | emit c f => exact ⟨rfl, rfl⟩

/-- An order for one thousand units, with its stops taken from the ATR. -/
def sampleOrder (key : String) : ApprovedOrder where
  idempotencyKey := key
  correlationId := "corr"
  instrument := "EUR_USD"
  side := "BUY"
  units := .ofRat 1000
  granularity := "H1"
  riskContext := { atr := .ofRat (1 / 100), suggestedSl := none, suggestedTp := none }
  signalId := .str "7"
  strategyId := .null
  amsDecisionId := .null
  createdAt := .null
  schemaVersion := "1"
  messageId := .str "m"

/-- The first call of a re-minted pair submits, the second meets the signal's mark. -/
def remintedCall (key : String) (w : Recorded Unit) : Except Exc (ProcessResult Unit) × Recorded Unit :=
  (process live (sampleOrder key) (.float (.ofRat (11 / 10))) []).run
    (calmStore Moment.first ()) (w.1, [])

theorem submit_returns_at_most_once_reminted :
    let first := (remintedCall "a" ([], [])).2
    let second := (remintedCall "b" first).2
    submitReturned first.2 = true ∧
      ([(sampleOrder "a", first.2), (sampleOrder "b", second.2)].filter fun call =>
        (guardKeys call.1).contains "signal:7" && submitReturned call.2).length ≤ 1 :=
  ⟨by decide +kernel,
    submit_returns_at_most_once
      (.call (exec_run (calmStore_step Moment.first ()) _ _) (fun h => nomatch h)
        (.call (exec_run (calmStore_step Moment.first ()) _ _) (fun h => nomatch h) .nil))
      "signal:7"⟩

end Pipeline

end System2
