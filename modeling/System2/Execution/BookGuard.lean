import System2.Execution.BookClosing
import System2.Execution.ServiceRuns

/-!
# The book under the backup guard

The guard compares an order with a snapshot of the open trades, and the trade of the order
is registered later in the same handling. Nothing else of the handling touches the book, so
each message meets what the messages before it registered.
-/

namespace System2
open Foundation

/-- A call is on record with its answer. -/
def Marked (marks : List Mark) (call : Event (ConsumerI FillResult) Exc) : Prop :=
  ∃ m ∈ marks, m.call = call

theorem Marked.mono {marks marks' : List Mark} {call : Event (ConsumerI FillResult) Exc}
    (h : Marked marks call) : Marked (marks ++ marks') call := by
  obtain ⟨m, hm, hcall⟩ := h
  exact ⟨m, List.mem_append_left _ hm, hcall⟩

namespace Consumer

/-- An order of the message passes every check before its submit: those of the state before the
handling, and those whose answers are on record. -/
structure Clears (c : Consumer) (msg : ReceivedMessage) (now : Moment) (w : LiveState)
    (marks : List Mark) (order : ApprovedOrder) (o : ConstructedOrder) : Prop where
  examined : c.Examined msg now w.store w.monitor.canSubmit order
  session : ∃ t, Marked marks ⟨.pipeline .clock, .ok t⟩ ∧ isInSession t = true
  quoted : ∃ v, Marked marks ⟨.priceFn order, .ok v⟩ ∧ buildOrder order v = .ok o
  validated : c.pipeline.hasValidate = true →
    ∃ reason, Marked marks ⟨.pipeline (.validate o), .ok (true, reason)⟩
  backup : (backupGuard c.pipeline.maxOpenPositions order w.book.openInstruments).1 = true
  notShadow : c.pipeline.shadow = false
  mode : c.pipeline.mode = .executionOnly

variable {c : Consumer} {msg : ReceivedMessage} {now : Moment} {w₀ w w' : LiveState}
  {order : ApprovedOrder} {o : ConstructedOrder} {calls : List (Event (ConsumerI FillResult) Exc)}

theorem Clears.mono {marks marks' : List Mark} (h : c.Clears msg now w marks order o) :
    c.Clears msg now w (marks ++ marks') order o := by
  obtain ⟨t, ht, hopen⟩ := h.session
  obtain ⟨v, hv, hbuilt⟩ := h.quoted
  refine ⟨h.examined, ⟨t, ht.mono, hopen⟩, ⟨v, hv.mono, hbuilt⟩, fun hgiven => ?_, h.backup,
    h.notShadow, h.mode⟩
  obtain ⟨reason, hreason⟩ := h.validated hgiven
  exact ⟨reason, hreason.mono⟩

/-! ### The phases of a handling -/

/-- Nothing has been submitted or stored yet, and some calls are on record. -/
structure Asking (w₀ : LiveState) (calls : List (Event (ConsumerI FillResult) Exc))
    (w : LiveState) : Prop where
  book : w.book = w₀.book
  state : w.monitor.state = w₀.monitor.state
  store : w.store = w₀.store
  marks : ∃ new, w.marks = w₀.marks ++ new ∧ (∀ m ∈ new, isSubmit m.call = false) ∧
    ∀ e ∈ calls, Marked new e

/-- An order that passed every check is submitted, in the state before the handling. -/
structure Placed (c : Consumer) (msg : ReceivedMessage) (now : Moment) (w₀ : LiveState)
    (order : ApprovedOrder) (w : LiveState) : Prop where
  state : w.monitor.state = w₀.monitor.state
  marks : ∃ new o, w.marks = w₀.marks ++ new ∧ (∀ m ∈ new, isSubmit m.call = true →
    m.state = w₀.monitor.state ∧ m.openTrades = w₀.book.openCount) ∧
      c.Clears msg now w₀ new order o

/-- What a handling may come to, wherever it stops: nothing, or an order placed and at most its
trade registered. -/
def Handled (c : Consumer) (msg : ReceivedMessage) (now : Moment) (w₀ w : LiveState) : Prop :=
  Asking w₀ [] w ∨ ∃ order, c.Placed msg now w₀ order w ∧ (w.book = w₀.book ∨
    ∃ t, t.instrument = order.instrument ∧ w.book = w₀.book.register t)

theorem Asking.refl (w : LiveState) : Asking w [] w :=
  ⟨rfl, rfl, rfl, [], (List.append_nil _).symm, by simp, by simp⟩

theorem Asking.handled (h : Asking w₀ calls w) : c.Handled msg now w₀ w := by
  obtain ⟨new, hnew, hsubmit, -⟩ := h.marks
  exact Or.inl ⟨h.book, h.state, h.store, new, hnew, hsubmit, by simp⟩

theorem Asking.mark (h : Asking w₀ calls w) {e : Event (ConsumerI FillResult) Exc}
    (he : isSubmit e = false) : Asking w₀ (e :: calls) (w.mark e) := by
  obtain ⟨new, hnew, hsubmit, hcalls⟩ := h.marks
  refine ⟨h.book, h.state, h.store, new ++ [⟨e, w.monitor.state, w.book.openCount⟩], ?_, ?_, ?_⟩
  · rw [LiveState.mark, hnew, List.append_assoc]
  · intro m hm
    rcases List.mem_append.mp hm with hold | hlast
    · exact hsubmit m hold
    · rw [List.mem_singleton.mp hlast]
      exact he
  · intro e' he'
    rcases List.mem_cons.mp he' with rfl | hold
    · exact ⟨_, List.mem_append_right _ (List.mem_singleton_self _), rfl⟩
    · exact (hcalls e' hold).mono

theorem Asking.weaken (h : Asking w₀ calls w) : Asking w₀ [] w := by
  obtain ⟨new, hnew, hsubmit, -⟩ := h.marks
  exact ⟨h.book, h.state, h.store, new, hnew, hsubmit, by simp⟩

/-- A hook that neither submits nor marks a key. -/
theorem Asking.hook {op : ConsumerCall FillResult} {r : Except Exc op.Ans}
    (h : Asking w₀ calls w) (step : hookWorld w op r w') (hop : ∀ key, op ≠ .pipeline (.mark key))
    (hsubmit : isSubmit (⟨op, r⟩ : Event (ConsumerI FillResult) Exc) = false) :
    Asking w₀ (⟨op, r⟩ :: calls) w' := by
  obtain ⟨-, store, hstore, rfl⟩ := step
  have hsame : store = w.store := by
    cases op with
    | pipeline call =>
        cases call with
        | mark key => exact absurd rfl (hop key)
        | _ => exact hstore
    | _ => exact hstore
  have hmark := h.mark hsubmit
  exact ⟨hmark.book, hmark.state, hsame.trans hmark.store, hmark.marks⟩

/-- The calls of an examination change nothing. -/
theorem Asking.ask {op : ConsumerCall FillResult} {r : Except Exc op.Ans} (hop : asks op)
    (h : Asking w₀ [] w) (step : liveHooks w op r w') : Asking w₀ [] w' := by
  cases op with
  | submitGateFn => exact step.2 ▸ h
  | heartbeatFn sentAt =>
      obtain ⟨s, hs, rfl⟩ := step
      exact ⟨h.book, hs.trans h.state, h.store, h.marks⟩
  | countMessage => exact (h.hook step (by simp) rfl).weaken
  | setLastMessageAt t => exact (h.hook step (by simp) rfl).weaken
  | setLastMessageCreatedAt t => exact (h.hook step (by simp) rfl).weaken
  | pipeline call =>
      cases call with
      | seen key => exact (h.hook step (by simp) rfl).weaken
      | _ => exact absurd hop id
  | _ => exact absurd hop id

/-- The submit of an order that passed. -/
theorem Asking.submit {r : Except Exc FillResult} (h : Asking w₀ calls w)
    (hclears : ∀ new, (∀ e ∈ calls, Marked new e) → c.Clears msg now w₀ new order o)
    (step : hookWorld w (.pipeline (.submit o)) r w') :
    c.Placed msg now w₀ order w' ∧ w'.book = w₀.book := by
  obtain ⟨-, store, -, rfl⟩ := step
  obtain ⟨new, hnew, hsubmit, hcalls⟩ := h.marks
  refine ⟨⟨h.state, new ++ [⟨⟨.pipeline (.submit o), r⟩, w.monitor.state, w.book.openCount⟩], o,
    ?_, ?_, (hclears new hcalls).mono⟩, h.book⟩
  · rw [LiveState.mark, hnew, List.append_assoc]
  · intro m hm hm'
    rcases List.mem_append.mp hm with hold | hlast
    · rw [hsubmit m hold] at hm'
      cases hm'
    · rw [List.mem_singleton.mp hlast]
      exact ⟨h.state, by rw [h.book]⟩

/-- A hook behind the submit. -/
theorem Placed.hook {op : ConsumerCall FillResult} {r : Except Exc op.Ans}
    (h : c.Placed msg now w₀ order w) (step : hookWorld w op r w')
    (hsubmit : isSubmit (⟨op, r⟩ : Event (ConsumerI FillResult) Exc) = false) :
    c.Placed msg now w₀ order w' ∧ w'.book = w.book := by
  obtain ⟨-, store, -, rfl⟩ := step
  obtain ⟨new, o, hnew, hplaced, hclears⟩ := h.marks
  refine ⟨⟨h.state, new ++ [⟨⟨op, r⟩, w.monitor.state, w.book.openCount⟩], o, ?_, ?_,
    hclears.mono⟩, rfl⟩
  · rw [LiveState.mark, hnew, List.append_assoc]
  · intro m hm hm'
    rcases List.mem_append.mp hm with hold | hlast
    · exact hplaced m hold hm'
    · rw [List.mem_singleton.mp hlast, hsubmit] at hm'
      cases hm'

/-! ### One handling -/

/-- Placed, and the trade is not registered yet. -/
def Unregistered (c : Consumer) (msg : ReceivedMessage) (now : Moment) (w₀ : LiveState)
    (order : ApprovedOrder) (w : LiveState) : Prop :=
  c.Placed msg now w₀ order w ∧ w.book = w₀.book

theorem Unregistered.handled (h : c.Unregistered msg now w₀ order w) : c.Handled msg now w₀ w :=
  Or.inr ⟨order, h.1, Or.inl h.2⟩

/-- The hooks behind the submit but the emission. -/
theorem wpc_behindSubmit {α : Type} {p : Proc (PipelineI FillResult) Exc α}
    (hp : p.Only fun op : PipelineCall FillResult =>
      (∃ key, op = .mark key) ∨ ∃ o fill, op = .persist o fill)
    (hw : c.Unregistered msg now w₀ order w) :
    wpc (routedWorld liveHooks order) (c.Handled msg now w₀) p
      (fun _ w' => c.Unregistered msg now w₀ order w') w := by
  refine wpc_mono (wpc_of_only (J := c.Unregistered msg now w₀ order) ?_ hp hw)
    (fun _ h => h.handled) fun _ _ _ h => h
  rintro op u r u' (⟨key, rfl⟩ | ⟨o, fill, rfl⟩) hu step
  · obtain ⟨hplaced, hbook⟩ := hu.1.hook step rfl
    exact ⟨hplaced, hbook.trans hu.2⟩
  · obtain ⟨hplaced, hbook⟩ := hu.1.hook step rfl
    exact ⟨hplaced, hbook.trans hu.2⟩

theorem wpc_emission {fill : FillResult} (hw : c.Unregistered msg now w₀ order w) :
    wpc (routedWorld liveHooks order) (c.Handled msg now w₀)
      (Proc.perform (I := PipelineI FillResult) (.emit o fill))
      (fun _ w' => c.Handled msg now w₀ w') w := by
  refine wpc_of_perform hw.handled ?_
  rintro r w' (rfl | ⟨t, ht, rfl⟩)
  · exact ⟨hw.handled, hw.handled⟩
  · have hdone : c.Handled msg now w₀ { w with book := w.book.register t } :=
      Or.inr ⟨order, ⟨hw.1.state, hw.1.marks⟩, Or.inr ⟨t, ht, by rw [hw.2]⟩⟩
    exact ⟨hdone, hdone⟩

theorem wpc_submitPlaced (h : Asking w₀ calls w)
    (hclears : ∀ new, (∀ e ∈ calls, Marked new e) → c.Clears msg now w₀ new order o) :
    wpc (routedWorld liveHooks order) (c.Handled msg now w₀)
      (c.pipeline.submitAndRecord order o) (fun _ w' => c.Handled msg now w₀ w') w := by
  unfold Pipeline.submitAndRecord
  split_ifs
  · exact ⟨h.handled, h.handled⟩
  simp only [Proc.bind_eq]
  refine (wpc_bind _ _ _ _).mpr (wpc_of_perform h.handled fun r w₁ step => ?_)
  have hw₁ : c.Unregistered msg now w₀ order w₁ := h.submit hclears step
  refine ⟨hw₁.handled, ?_⟩
  cases r with
  | error e => exact hw₁.handled
  | ok fill =>
      refine wpc_seq (wpc_behindSubmit (Pipeline.markAll_only fun key _ => Or.inl ⟨key, rfl⟩) hw₁) ?_
        fun _ _ hc _ => hc
      intro _ w₂ _ hw₂
      refine wpc_seq (wpc_behindSubmit
        (Proc.along_given (Proc.along_perform (Or.inr ⟨o, fill, rfl⟩))) hw₂) ?_
        fun _ _ hc _ => hc
      intro _ w₃ hc₃ hw₃
      refine wpc_seq (R := fun _ w' => c.Handled msg now w₀ w') ?_ (fun _ _ hc _ => ⟨hc, hc⟩)
        fun _ _ hc _ => hc
      exact wpc_given (fun _ => wpc_emission hw₃) fun _ => ⟨hc₃, hc₃⟩

/-- The last gates, asked in a state in which some calls are on record. -/
theorem wpc_lastGatesPlaced (h : Asking w₀ calls w)
    (hclears : ∀ new, (∀ e ∈ calls, Marked new e) →
      (c.pipeline.hasValidate = true →
        ∃ reason, Marked new ⟨.pipeline (.validate o), .ok (true, reason)⟩) →
      (backupGuard c.pipeline.maxOpenPositions order w₀.book.openInstruments).1 = true →
      c.pipeline.shadow = false → c.Clears msg now w₀ new order o) :
    wpc (routedWorld liveHooks order) (c.Handled msg now w₀)
      (c.pipeline.lastGates order o w₀.book.openInstruments)
      (fun _ w' => c.Handled msg now w₀ w') w := by
  have hrest : ∀ (verdict : Bool × FString) (calls' : List (Event (ConsumerI FillResult) Exc))
      (w' : LiveState), Asking w₀ calls' w' → calls ⊆ calls' →
      (c.pipeline.hasValidate = true → verdict.1 = true →
        ⟨.pipeline (.validate o), .ok (true, verdict.2)⟩ ∈ calls') →
      wpc (routedWorld liveHooks order) (c.Handled msg now w₀)
        (if !verdict.1 then .ret ⟨.rejectedValidation, some o, none, verdict.2⟩
         else if !(backupGuard c.pipeline.maxOpenPositions order w₀.book.openInstruments).1 then
           .ret ⟨.rejectedBackupGuard, some o, none,
             (backupGuard c.pipeline.maxOpenPositions order w₀.book.openInstruments).2⟩
         else if c.pipeline.shadow then .ret ⟨.shadow, some o, none, []⟩
         else c.pipeline.submitAndRecord order o)
        (fun _ w' => c.Handled msg now w₀ w') w' := by
    intro verdict calls' w' hw' hsub hvalid
    split_ifs with hverdict hguard hshadow
    · exact ⟨hw'.handled, hw'.handled⟩
    · exact ⟨hw'.handled, hw'.handled⟩
    · exact ⟨hw'.handled, hw'.handled⟩
    · refine wpc_submitPlaced hw' fun new hnew => hclears new (fun e he => hnew e (hsub he)) ?_
        (by simpa using hguard) (by simpa using hshadow)
      exact fun hgiven => ⟨verdict.2, hnew _ (hvalid hgiven (by simpa using hverdict))⟩
  simp only [Pipeline.lastGates, Proc.bind_eq]
  cases hhook : c.pipeline.hasValidate with
  | false => exact hrest (true, []) calls w h (List.Subset.refl _) (by simp [hhook])
  | true =>
      simp only [if_true]
      refine (wpc_bind _ _ _ _).mpr (wpc_of_perform h.handled fun r w₁ step => ?_)
      have hw₁ := h.hook step (by simp) rfl
      refine ⟨hw₁.handled, ?_⟩
      cases r with
      | error e => exact hw₁.handled
      | ok verdict =>
          refine hrest verdict _ w₁ hw₁ (List.subset_cons_self _ _) fun _ hpassed => ?_
          rw [← hpassed]
          exact List.mem_cons_self

/-- The pipeline on a snapshot of the book, for an order that was examined at a quote. -/
theorem wpc_processPlaced {price : PyVal} (h : Asking w₀ calls w)
    (hexamined : c.Examined msg now w₀.store w₀.monitor.canSubmit order)
    (hquote : ⟨.priceFn order, .ok price⟩ ∈ calls) :
    wpc (routedWorld liveHooks order) (c.Handled msg now w₀)
      (c.pipeline.process order price w₀.book.openInstruments)
      (fun _ w' => c.Handled msg now w₀ w') w := by
  unfold Pipeline.process
  split_ifs with hlegacy
  · exact ⟨h.handled, h.handled⟩
  have hmode : c.pipeline.mode = .executionOnly := by
    cases hm : c.pipeline.mode with
    | legacy => exact absurd hm hlegacy
    | executionOnly => rfl
  have hseen : (Pipeline.anySeen (F := FillResult) (guardKeys order)).Only
      fun op : PipelineCall FillResult => ∃ key, op = .seen key :=
    Pipeline.anySeen_only fun key _ => ⟨key, rfl⟩
  simp only [Proc.bind_eq]
  refine wpc_seq (R := fun _ w' => Asking w₀ calls w') (wpc_mono (wpc_of_only ?_ hseen h)
    (fun _ h => h.handled) fun _ _ _ h => h) ?_ fun _ _ hc _ => hc
  · rintro _ u r u' ⟨key, rfl⟩ hu step
    obtain ⟨hbook, hstate, hstore, new, hnew, hsubmit, hcalls⟩ := hu.hook step (by simp) rfl
    exact ⟨hbook, hstate, hstore, new, hnew, hsubmit,
      fun e he => hcalls e (List.mem_cons_of_mem _ he)⟩
  intro duplicate w₁ hc₁ hw₁
  split_ifs
  · exact ⟨hc₁, hc₁⟩
  refine (wpc_bind _ _ _ _).mpr (wpc_of_perform hc₁ fun r w₂ step => ?_)
  have hw₂ := hw₁.hook step (by simp) rfl
  refine ⟨hw₂.handled, ?_⟩
  cases r with
  | error e => exact hw₂.handled
  | ok t =>
      dsimp only
      split_ifs with hsession
      · exact ⟨hw₂.handled, hw₂.handled⟩
      cases hbuild : buildOrder order price with
      | error e =>
          dsimp only
          split_ifs
          · exact ⟨hw₂.handled, hw₂.handled⟩
          · exact ⟨hw₂.handled, hw₂.handled⟩
      | ok o =>
          refine wpc_lastGatesPlaced hw₂ fun new hnew hvalid hguard hshadow => ?_
          exact ⟨hexamined, ⟨t, hnew _ List.mem_cons_self, by simpa using hsession⟩,
            ⟨price, hnew _ (List.mem_cons_of_mem _ hquote), hbuild⟩, hvalid, hguard, hshadow, hmode⟩

theorem wpc_executePlaced (h : Asking w₀ [] w)
    (hexamined : c.Examined msg now w₀.store w₀.monitor.canSubmit order) :
    wpc liveHooks (c.Handled msg now w₀) (execute c order)
      (fun _ w' => c.Handled msg now w₀ w') w := by
  simp only [execute, Proc.bind_eq]
  refine (wpc_bind _ _ _ _).mpr (wpc_of_perform h.handled fun r w₁ step => ?_)
  have hw₁ := h.hook step (by simp) rfl
  refine ⟨hw₁.handled, ?_⟩
  cases r with
  | error e => exact hw₁.handled
  | ok price =>
      refine (wpc_bind _ _ _ _).mpr (wpc_of_perform hw₁.handled ?_)
      rintro r w₂ ⟨hopens, rfl⟩
      refine ⟨hw₁.handled, ?_⟩
      cases r with
      | error e => exact hw₁.handled
      | ok opens =>
          -- the snapshot is the book before the handling
          obtain rfl : opens = w₀.book.openInstruments := by rw [hopens opens rfl, hw₁.book]
          exact wpc_route (wpc_processPlaced hw₁ hexamined List.mem_cons_self)

theorem wpc_handleWired (w₀ : LiveState) :
    wpc liveHooks (c.Handled msg now w₀) (handle c msg now)
      (fun _ w' => c.Handled msg now w₀ w') w₀ := by
  rw [handle_eq, assess]
  refine wpc_seq (R := fun _ w' => c.Handled msg now w₀ w') ?_ ?_ fun _ _ hc _ => hc
  · have hexamine : wpc liveHooks (Asking w₀ []) (examine c msg now) (fun r w => Asking w₀ [] w ∧
        ∀ order, r = .ok (.executable order) →
          c.Examined msg now w₀.store w₀.monitor.canSubmit order) w₀ := by
      refine wpc_examine (fun op w r w' hop hw step => hw.ask hop step) ?_ ?_ (Asking.refl w₀)
      · rintro key w b w' hw ⟨hanswer, -⟩
        rw [hanswer b rfl, hw.store]
      · rintro w b w' hw ⟨hanswer, -⟩
        rw [hanswer b rfl, MonitorState.canSubmit, MonitorState.canSubmit, hw.state]
    refine wpc_seq (wpc_mono hexamine (fun _ h => h.handled) fun _ _ _ h => h) ?_
      fun _ _ hc _ => hc
    rintro finding w - ⟨hw, hexamined⟩
    cases finding with
    | verdict v => exact ⟨hw.handled, hw.handled⟩
    | executable order =>
        refine (wpc_bind _ _ _ _).mpr ((wpc_attempt _ _ _).mpr ?_)
        exact wpc_post (wpc_executePlaced hw (hexamined order rfl)) fun _ _ hc _ => ⟨hc, hc⟩
  · intro v w hc _
    refine wpc_of_only (fun op u r u' hop hu step => ?_) (conclude_settles v) hc
    have hsame : u' = u := by
      cases op with
      | ack msg => exact step
      | nack msg backoffSec => exact step
      | toDlq msg reason => exact step
      | _ => exact absurd hop id
    exact hsame ▸ hu

end Consumer

namespace LiveRuntime

variable {rt : LiveRuntime}

/-- One handling of the wired consumer, complete or not. -/
theorem handle_handled {msg : ReceivedMessage} {now : Moment} {w₀ w : LiveState}
    {out : Option (Except Exc Outcome)} (exec : Exec liveWorld (rt.handle msg now) w₀ out w) :
    rt.service.consumer.Handled msg now w₀ w := by
  have hwired : wpc liveHooks (rt.service.consumer.Handled msg now w₀)
      (rt.service.consumer.handle msg now)
      (fun _ w' => rt.service.consumer.Handled msg now w₀ w') w₀ := Consumer.wpc_handleWired w₀
  have hlive : wpc liveWorld (rt.service.consumer.Handled msg now w₀) (rt.handle msg now)
      (fun _ _ => True) w₀ := by
    unfold handle ConsumerService.handle
    rw [Proc.interp_interp]
    exact wpc_interp (fun op w Q hc hstep => wpc_wire op hc hstep)
      (wpc_post hwired fun _ _ _ _ => trivial)
  exact (wpc_sound exec hlive).1

end LiveRuntime

/-! ### The guarded book -/

namespace TradeBook

variable {book : TradeBook} {t : ManagedTrade}

/-- The instruments of the trades of a list that are not closed. -/
def openOf (trades : List ManagedTrade) : List String :=
  (trades.filter fun t => !t.closed).map (·.instrument)

theorem openOf_cons (t : ManagedTrade) (rest : List ManagedTrade) :
    openOf (t :: rest) = if t.closed then openOf rest else t.instrument :: openOf rest := by
  unfold openOf
  cases h : t.closed with
  | true => simp [h]
  | false => simp [h]

theorem openOf_replaced {trades : List ManagedTrade}
    (hids : (trades.map (·.brokerTradeId)).Nodup) :
    (openOf (trades.map fun u => if u.brokerTradeId = t.brokerTradeId then t else u)).Subperm
      (t.instrument :: openOf trades) := by
  induction trades with
  | nil => exact List.nil_subperm
  | cons u rest ih =>
      obtain ⟨hu, hrest⟩ := List.nodup_cons.mp hids
      rw [List.map_cons]
      split_ifs with h
      · -- the other trades have other ids
        have hsame : rest.map (fun v => if v.brokerTradeId = t.brokerTradeId then t else v) =
            rest := by
          refine (List.map_congr_left fun v hv => if_neg fun hvt => hu ?_).trans (List.map_id _)
          exact List.mem_map.mpr ⟨v, hv, hvt.trans h.symm⟩
        rw [hsame, openOf_cons, openOf_cons]
        split_ifs
        · exact (List.sublist_cons_self _ _).subperm
        · exact ((List.sublist_cons_self _ _).trans (List.sublist_cons_self _ _)).subperm
        · exact List.Subperm.refl _
        · exact ((List.sublist_cons_self _ _).cons_cons _).subperm
      · rw [openOf_cons, openOf_cons]
        split_ifs
        · exact ih hrest
        · exact ((List.subperm_cons _).mpr (ih hrest)).trans (List.Perm.swap _ _ _).subperm

/-- A registration adds at most the instrument of its trade. -/
theorem openInstruments_register :
    (book.register t).openInstruments.Subperm (t.instrument :: book.openInstruments) := by
  unfold register
  split_ifs with hmem
  · exact openOf_replaced book.distinct
  · change (openOf (book.trades ++ [t])).Subperm _
    have hsplit : openOf (book.trades ++ [t]) = openOf book.trades ++ openOf [t] := by
      simp [openOf]
    rw [hsplit, openOf_cons]
    split_ifs
    · rw [show openOf [] = [] from rfl, List.append_nil]
      exact (List.sublist_cons_self _ _).subperm
    · exact (List.perm_append_singleton _ _).subperm

/-- The open trades are in different instruments, and no more than the cap. -/
structure Guarded (maxOpenPositions : ℤ) (book : TradeBook) : Prop where
  distinct : book.openInstruments.Nodup
  capped : (book.openCount : ℤ) ≤ maxOpenPositions

variable {maxOpenPositions : ℤ}

theorem Guarded.later {book' : TradeBook} (h : Guarded maxOpenPositions book)
    (hlater : book.Later book') : Guarded maxOpenPositions book' := by
  have hsub := hlater.openInstruments
  have hlength : book'.openCount ≤ book.openCount := hsub.length_le
  have hcapped := h.capped
  exact ⟨h.distinct.sublist hsub, by omega⟩

/-- What the guard lets through is below the cap and in a new instrument. -/
theorem backupGuard_passes {order : ApprovedOrder} {opens : List String}
    (h : (backupGuard maxOpenPositions order opens).1 = true) :
    (opens.length : ℤ) < maxOpenPositions ∧ order.instrument ∉ opens := by
  unfold backupGuard at h
  split_ifs at h with hcap hdup
  exact ⟨by omega, by simpa using hdup⟩

/-- The trade of an order that the guard let through keeps the book guarded. -/
theorem Guarded.register {order : ApprovedOrder} (h : Guarded maxOpenPositions book)
    (hguard : (backupGuard maxOpenPositions order book.openInstruments).1 = true)
    (ht : t.instrument = order.instrument) : Guarded maxOpenPositions (book.register t) := by
  obtain ⟨hbelow, hnew⟩ := backupGuard_passes hguard
  have hopens : (book.register t).openInstruments.Subperm (t.instrument :: book.openInstruments) :=
    openInstruments_register
  obtain ⟨opens, hperm, hsub⟩ := hopens
  constructor
  · refine hperm.nodup_iff.mp (List.Nodup.sublist hsub ?_)
    exact List.nodup_cons.mpr ⟨ht ▸ hnew, h.distinct⟩
  · have hlength : (book.register t).openCount ≤ book.openCount + 1 :=
      hperm.length_eq.symm.le.trans hsub.length_le
    have hcount : (book.openCount : ℤ) < maxOpenPositions := hbelow
    omega

end TradeBook

namespace LiveRuntime

open TradeBook (Guarded)
open ConsumerService (StillHost)

variable {rt : LiveRuntime} {w w' : LiveState} {es : List (Episode LiveState)}

theorem handle_guarded {msg : ReceivedMessage} {now : Moment}
    (h : rt.service.consumer.Handled msg now w w')
    (hw : Guarded rt.service.consumer.pipeline.maxOpenPositions w.book) :
    Guarded rt.service.consumer.pipeline.maxOpenPositions w'.book := by
  rcases h with hasked | ⟨order, hplaced, hsame | ⟨t, ht, hregistered⟩⟩
  · exact hasked.book ▸ hw
  · exact hsame ▸ hw
  · obtain ⟨new, o, -, -, hclears⟩ := hplaced.marks
    rw [hregistered]
    exact hw.register hclears.backup ht

/-- An execution without its result. -/
theorem exec_done {α W : Type} {world : World LiveI Exc W} {p : Proc LiveI Exc α} {w w' : W}
    {out : Option (Except Exc Unit)} (exec : Exec world (done p) w out w') :
    ∃ out', Exec world p w out' w' := by
  rcases exec_bind exec with ⟨a, w₁, hp, hret⟩ | ⟨e, hp, -⟩ | ⟨hp, -⟩
  · cases hret with
    | ret => exact ⟨_, hp⟩
    | crash => exact ⟨_, hp⟩
  · exact ⟨_, hp⟩
  · exact ⟨_, hp⟩

/-- From a guarded book on, the book of every run stays guarded. -/
theorem backup_guard_invariant (run : Runs liveWorld rt w es w')
    (hstart : Guarded rt.service.consumer.pipeline.maxOpenPositions w.book) :
    Guarded rt.service.consumer.pipeline.maxOpenPositions w'.book := by
  refine run.keeps (J := fun w => Guarded rt.service.consumer.pipeline.maxOpenPositions w.book)
    (A := fun _ => True) ?_ (fun _ _ => trivial) hstart
  intro a u out u' hu exec _
  cases ha : a.isHandling with
  | false => exact hu.later (act_opensNone ha exec).book
  | true =>
      cases a with
      | handle msg now =>
          obtain ⟨out', hexec⟩ := exec_done exec
          exact handle_guarded (handle_handled hexec) hu
      | _ => cases ha

/-! ### A runtime on a trading day -/

/-- The answers of a host that stands still, with the book and the monitor of the state. -/
def liveHost (host : StillHost) (op : LiveCall) (w : LiveState) : Except Exc op.Ans × LiveState :=
  match op with
  | .service (.consumer call) =>
      let r := (host.env (.consumer call) ⟨ConsumerService.nothing.file, w.store, []⟩).1
      let store := match call with
        | .pipeline (.mark key) => key :: w.store
        | _ => w.store
      (r, { w.mark ⟨call, r⟩ with store := store })
  | .service call => ((host.env call ConsumerService.nothing).1, w)
  | .monitor .get => (.ok w.monitor, w)
  | .monitor (.put s) => (.ok (), { w with monitor := s })
  | .monitor .clock => (.ok Moment.first, w)
  | .manager .trades => (.ok w.book, w)
  | .manager (.putTrade t) => (.ok (), { w with book := w.book.put t })
  | .sweeper .trades => (.ok w.book, w)
  | .sweeper (.putTrade t) => (.ok (), { w with book := w.book.put t })
  | .register t => (.ok (), { w with book := w.book.register t })
  | .utcNow => (.ok Moment.first, w)
  | _ => (.error (.ofErr .valueError), w)

theorem liveHost_step (host : StillHost) (op : LiveCall) (w : LiveState) :
    liveWorld w op (liveHost host op w).1 (liveHost host op w).2 := by
  cases op with
  | service call =>
      cases call with
      | consumer call =>
          refine ⟨?_, _, ?_, rfl⟩
          · cases call with
            | pipeline call =>
                cases call with
                | seen key => exact fun b hb => (Except.ok.inj hb).symm
                | _ => exact trivial
            | _ => exact trivial
          · cases call with
            | pipeline call =>
                cases call with
                | mark key => exact Or.inr rfl
                | _ => rfl
            | _ => rfl
      | _ => rfl
  | monitor call =>
      cases call with
      | get => exact ⟨w.monitor, ⟨rfl, rfl⟩, rfl⟩
      | put s => exact ⟨s, ⟨rfl, rfl⟩, rfl⟩
      | _ => exact ⟨w.monitor, rfl, rfl⟩
  | manager call =>
      cases call with
      | trades => exact ⟨rfl, rfl⟩
      | _ => rfl
  | sweeper call =>
      cases call with
      | trades => exact ⟨rfl, rfl⟩
      | _ => rfl
  | _ => rfl

/-- The executor's runtime with the documented settings. -/
def executorRuntime : LiveRuntime where
  service := ConsumerService.executor 10
  monitor := ExecutionRuntime.documentedRuntime.monitor
  manager := ⟨true, .ofRat 1, .ofRat 1, .zero, [], true⟩
  sweeper := ⟨⟨"ams-inbound.ams", "close_outbox", 3⟩, .ofRat 30, .ofRat 300⟩
  flattenOnStop := false
  bypassMaxPositions := 3

/-- Every hook works, and an order fills at once. -/
def tradingDay : StillHost := ⟨.zero, true, ConsumerService.plainFill, true⟩

/-- The state after an activity on the host. -/
def actOn (rt : LiveRuntime) (host : StillHost) (a : Activity) (w : LiveState) : LiveState :=
  ((rt.act a).run (liveHost host) w).2

/-- The activity on the host. -/
def episodeOn (rt : LiveRuntime) (host : StillHost) (a : Activity) (w : LiveState) :
    Episode LiveState :=
  ⟨w, a, some ((rt.act a).run (liveHost host) w).1, rt.actOn host a w⟩

theorem Runs.actOn (run : Runs liveWorld rt w es w') (host : StillHost) (a : Activity) :
    Runs liveWorld rt w (es ++ [rt.episodeOn host a w']) (rt.actOn host a w') :=
  .act run (exec_run (liveHost_step host) (rt.act a) w')

/-- A fresh runtime without trades. -/
def freshRuntime : LiveState := ⟨TradeBook.empty, ExecutionRuntime.justStarted.monitor, [], []⟩

/-- The runtime after it has handled a buy that fills at once. -/
def boughtRuntime : LiveState :=
  executorRuntime.actOn tradingDay (.handle Consumer.plainBuy Moment.first) freshRuntime

theorem backup_guard_invariant_bought :
    boughtRuntime.book.openInstruments = ["EUR_USD"] ∧ Guarded 8 boughtRuntime.book := by
  have run : Runs liveWorld executorRuntime freshRuntime _ _ :=
    Runs.refl.actOn tradingDay (.handle Consumer.plainBuy Moment.first)
  exact ⟨by decide +kernel, backup_guard_invariant run ⟨List.nodup_nil, by decide⟩⟩

end LiveRuntime

end System2
