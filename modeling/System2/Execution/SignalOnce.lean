import System2.Execution.TradingService

/-!
# At most one fill per signal

The broker's log knows orders by their idempotency key alone; that two orders carry
one signal is known to the processed store only, through the mark that follows a
fill. While no second order of a signal is taken up between a fill and that mark, and
no history that is read for one of them leaves out its own fill, the log has at most one
fill among the orders of the signal.
-/

namespace System2
open Foundation

namespace Pipeline

variable {F : Type}

/-- A submit only of what was built from an order. -/
def OwnSubmit (order : ApprovedOrder) (call : PipelineCall F) : Prop :=
  ∀ c, call = .submit c → c.idempotencyKey = order.idempotencyKey

/-- The pipeline submits the order that it was given. -/
theorem process_ownSubmit {p : Pipeline} {order : ApprovedOrder} {price : PyVal}
    {opens : List String} : (p.process order price opens).Only (OwnSubmit (F := F) order) := by
  have hasks : (p.gated order price opens).Only (OwnSubmit (F := F) order) :=
    gated_only (fun _ _ _ h => by cases h) (fun _ h => by cases h) fun _ _ h => by cases h
  rw [process_eq]
  refine hasks.bind_yields gated_built fun passed hpassed => ?_
  cases passed with
  | inl refused => exact trivial
  | inr constructed =>
      rw [settle]
      split_ifs
      · exact trivial
      rw [submitAndRecord_eq]
      split_ifs
      · exact trivial
      refine (Proc.along_perform fun c h => ?_).bind fun fill => recorded_records.mono ?_
      · rw [← PipelineCall.submit.inj h]
        exact (buildOrder_ok hpassed).key
      · rintro _ hop c rfl
        exact hop.elim

end Pipeline

namespace Consumer

/-! ### Which orders a handling submits -/

/-- A submit only of orders whose key is among some. -/
def SubmitsOf (A : String → Prop) : ConsumerCall FillResult → Prop
  | .pipeline (.submit c) => A c.idempotencyKey
  | _ => True

/-- The store knows some keys. -/
def StoreSays (known : List String) : (op : ConsumerCall FillResult) → Except Exc op.Ans → Prop
  | .pipeline (.seen key), .ok b => key ∈ known → b = true
  | _, _ => True

variable {c : Consumer} {msg : ReceivedMessage} {now : Moment} {A : String → Prop}
  {known : List String}

theorem submitsOf_of_submitless {op : ConsumerCall FillResult} (h : op.isSubmit = false) :
    SubmitsOf A op := by
  cases op with
  | pipeline call =>
      cases call with
      | submit c => cases h
      | _ => exact trivial
  | _ => exact trivial

/-- Settling submits nothing. -/
theorem conclude_submitsOf (v : Verdict FillResult) : (conclude c msg v).Only (SubmitsOf A) :=
  (conclude_settles v).mono fun _ h => submitsOf_of_submitless (settles_submitless h)

theorem process_submitsOf {p : Pipeline} {order : ApprovedOrder} {price : PyVal}
    {opens : List String} (hA : A order.idempotencyKey) :
    ((p.process order price opens).interp (route order)).Only (SubmitsOf A) := by
  refine Pipeline.process_ownSubmit.interp fun call hcall => ?_
  cases call with
  | submit c =>
      refine Proc.along_perform ?_
      change A c.idempotencyKey
      rw [hcall c rfl]
      exact hA
  | _ => exact Proc.along_perform trivial

/-- No order of the examined message gets past a store that knows one of its guard keys. -/
theorem anySeen_blocked {β : Type} {order : ApprovedOrder} {keys : List String}
    (hknown : ∃ g ∈ keys, g ∈ known) {P : ConsumerCall FillResult → Prop} (hasks : ∀ op, asks op → P op)
    {f : Bool → Proc (ConsumerI FillResult) Exc β} (hf : (f true).Along (StoreSays known) P) :
    (((Pipeline.anySeen keys).interp (route order)).bind f).Along (StoreSays known) P := by
  induction keys with
  | nil =>
      obtain ⟨g, hg, -⟩ := hknown
      cases hg
  | cons key rest ih =>
      simp only [Pipeline.anySeen, Proc.bind_eq]
      rw [Proc.interp_bind, Proc.interp_perform, Proc.bind_assoc]
      refine ⟨hasks (.pipeline (.seen key)) trivial, fun r hr => ?_⟩
      cases r with
      | error e => exact trivial
      | ok seen =>
          cases seen with
          | true => exact hf
          | false =>
              refine ih ?_
              obtain ⟨g, hg, hmem⟩ := hknown
              rcases List.mem_cons.mp hg with rfl | hrest
              · cases hr hmem
              · exact ⟨g, hrest, hmem⟩

/-- A handling submits only orders of `A`, when the store knows a guard key of every other order
that the message may hold. -/
theorem handle_submitsOf (hmsg : isHeartbeat msg.body = false →
      ∀ order, ApprovedOrder.fromDict msg.body.entries = .ok order →
        (∃ g ∈ guardKeys order, g ∈ known) ∨ A order.idempotencyKey) :
    (c.handle msg now).Along (StoreSays known) (SubmitsOf A) := by
  have hasks : ∀ op : ConsumerCall FillResult, asks op → SubmitsOf A op := fun _ h =>
    submitsOf_of_submitless (asks_submitless h)
  have horder : ∀ order, (∃ g ∈ guardKeys order, g ∈ known) ∨ A order.idempotencyKey →
      (handleOrder c msg now order).Along (StoreSays known) (SubmitsOf A) := by
    intro order hor
    rcases hor with hblocked | hA
    · rw [handleOrder_eq, examineOrder, Proc.bind_eq, Proc.bind_assoc]
      exact anySeen_blocked hblocked hasks (Proc.Only.along (conclude_submitsOf (c := c) .duplicate))
    · refine Proc.Only.along (((anySeen_asks order _).mono hasks).bind fun duplicate => ?_)
      split_ifs
      · exact conclude_submitsOf (c := c) .duplicate
      · exact conclude_submitsOf .parked
      · refine Proc.Along.bind ?_ fun submitting => ?_
        · unfold gateOpen
          split_ifs
          · exact Proc.along_perform trivial
          · exact trivial
        · split_ifs
          · exact conclude_submitsOf .pausedPark
          · refine Proc.Along.bind (Proc.Along.attempt ?_) fun r => conclude_submitsOf (.executed r)
            exact (Proc.along_perform trivial).bind fun price => (Proc.along_perform trivial).bind
              fun opens => process_submitsOf hA
  unfold handle
  split_ifs with hbeat
  · refine Proc.Only.along ((Proc.along_ofExcept _).bind fun sentAt => ?_)
    have hack : ∀ credited : Bool, Proc.Only (SubmitsOf A) ((perform (.ack msg)).bind fun _ =>
        .ret (if credited then Outcome.heartbeat else .heartbeatStale)) := fun credited =>
      (Proc.along_perform trivial).bind fun _ => trivial
    cases sentAt with
    | none => exact (Proc.along_ofExcept _).bind fun _ => hack false
    | some sentAt => exact Proc.Along.bind ((creditHeartbeat_asks _ sentAt).mono hasks) hack
  · refine (Proc.along_ofExcept _).bind fun res => ?_
    split_ifs
    · exact Proc.Only.along (conclude_submitsOf (c := c) (.malformed res))
    · refine (Proc.along_perform trivial).bind fun _ => (Proc.along_ofExcept _).bind fun expired => ?_
      split_ifs
      · exact Proc.Only.along (conclude_submitsOf (c := c) .expired)
      · refine (Proc.Only.along ((creditFreshness_asks _).mono hasks)).bind fun _ => ?_
        cases horder' : ApprovedOrder.fromDict msg.body.entries with
        | error e => exact trivial
        | ok order => exact horder order (hmsg (by simpa using hbeat) order horder')

end Consumer

namespace TradingService

open OandaAdapter ConsumerService

/-- The order of a message, as the consumer reads it. -/
def orderOf (msg : ReceivedMessage) : Option ApprovedOrder :=
  if isHeartbeat msg.body then none else (ApprovedOrder.fromDict msg.body.entries).toOption

/-- What a handling keeps from its start on: the keys that the store knows, at most one fill for
each of some keys while no history leaves out a fill, and the fills of every key outside `A`. -/
structure Held (keys known : List String) (A : String → Prop) (start w : TradingState) :
    Prop where
  known : ∀ g ∈ known, g ∈ w.service.store
  hidden : start.hidden ≤ w.hidden
  once : ∀ k ∈ keys, A k → w.hidden = start.hidden → AtMostOneFill k w.log
  others : ∀ k, ¬ A k → fills k w.log = fills k start.log

variable {subscription : String} {t : TradingService} {msg : ReceivedMessage} {now : Moment}
  {keys known : List String} {A : String → Prop} {start w : TradingState}

theorem Held.foreign {w' : TradingState} {foreign : List Dict} (h : Held keys known A start w)
    (hstore : ∀ g ∈ w.service.store, g ∈ w'.service.store) (hhidden : w'.hidden = w.hidden)
    (hforeign : Foreign foreign) (hlog : w'.log = w.log ++ foreign) :
    Held keys known A start w' where
  known := fun g hg => hstore g (h.known g hg)
  hidden := hhidden ▸ h.hidden
  once := fun k hk hA hstart => hlog ▸ (h.once k hk hA (hhidden ▸ hstart)).foreign hforeign
  others := fun k hk => by rw [hlog, fills_append, hforeign.fills, h.others k hk]; rfl

/-- A call of the service that is no submit. -/
theorem wpc_serviceCall {op : ServiceCall} (hop : isSubmit op = false)
    (hw : Held keys known A start w) :
    wpc (tradingWorld subscription) (Held keys known A start) (wireSubmit t.adapter op)
      (fun _ w' => Held keys known A start w') w := by
  have hperform : wpc (tradingWorld subscription) (Held keys known A start) (perform (.service op))
      (fun _ w' => Held keys known A start w') w := by
    apply wpc_of_perform hw
    rintro r w' ⟨hservice, hhidden, foreign, hforeign, hlog⟩
    have hw' := hw.foreign (store_grows hservice) hhidden hforeign hlog
    exact ⟨hw', hw'⟩
  unfold wireSubmit
  split
  · cases hop
  · exact hperform

theorem wpc_quietService {α : Type} {p : Proc ServiceI Exc α}
    (hp : p.Only fun o => isSubmit o = false) (hw : Held keys known A start w) :
    wpc (tradingWorld subscription) (Held keys known A start) (p.interp (wireSubmit t.adapter))
      (fun _ w' => Held keys known A start w') w :=
  wpc_interp_of_along (fun _ _ hop hw => wpc_post (wpc_serviceCall hop hw) fun _ _ _ h =>
    ⟨trivial, h⟩) hp hw

/-- A submit of an order of `A`. -/
theorem wpc_submitHeld (hcap : t.adapter.hasRecentTransactions = true) {c : ConstructedOrder}
    (hA : A c.idempotencyKey) (hw : Held keys known A start w) :
    wpc (tradingWorld subscription) (Held keys known A start)
      (wireSubmit t.adapter (.consumer (.pipeline (.submit c))))
      (fun _ w' => Held keys known A start w') w := by
  have hown : wpc (brokerWorld (clientOrderId c.idempotencyKey))
      (fun log => c.idempotencyKey ∈ keys → w.hidden = start.hidden →
        AtMostOneFill c.idempotencyKey log) (t.adapter.submit c none none) (fun _ _ => True)
      w.log := by
    by_cases hstart : c.idempotencyKey ∈ keys ∧ w.hidden = start.hidden
    · exact wpc_mono (wpc_submit hcap (hw.once _ hstart.1 hA hstart.2)) (fun _ h _ _ => h)
        fun _ _ _ _ => trivial
    · exact wpc_mono (wp_true _ _) (fun _ _ hk heq => (hstart ⟨hk, heq⟩).elim)
        fun _ _ _ _ => trivial
  have hothers : wpc openBroker
      (fun log => ∀ k, k ≠ c.idempotencyKey → fills k log = fills k w.log)
      (t.adapter.submit c none none)
      (fun _ log => ∀ k, k ≠ c.idempotencyKey → fills k log = fills k w.log) w.log :=
    wpc_submit_others fun _ _ => rfl
  have hlog := wpc_both (wpc_counting hothers w.hidden) (wpc_counting_of_avoiding hown w.hidden)
  have hheld : ∀ w' : TradingState,
      ((∀ k, k ≠ c.idempotencyKey → fills k w'.log = fills k w.log) ∧ w.hidden ≤ w'.hidden ∧
        (w'.hidden = w.hidden → c.idempotencyKey ∈ keys → w.hidden = start.hidden →
          AtMostOneFill c.idempotencyKey w'.log)) →
      (∀ g ∈ known, g ∈ w'.service.store) → Held keys known A start w' := by
    rintro w' ⟨hkept, hgrow, honce⟩ hknown
    refine ⟨hknown, hw.hidden.trans hgrow, fun k hk hAk heq => ?_, fun k hk => ?_⟩
    · have hstart : w.hidden = start.hidden := le_antisymm (heq ▸ hgrow) hw.hidden
      by_cases hkey : k = c.idempotencyKey
      · subst hkey
        exact honce (heq.trans hstart.symm) hk hstart
      · exact (hkept k hkey).le.trans (hw.once k hk hAk hstart)
    · exact (hkept k fun heq => hk (heq ▸ hA)).trans (hw.others k hk)
  refine wpc_mono (wpc_post (wpc_interp_view (v := fun w' : TradingState => (w'.log, w'.hidden))
    (F := fun w' : TradingState => ∀ g ∈ known, g ∈ w'.service.store) ?_ hlog hw.known)
      fun r w' hc _ => hheld w' hc.1 hc.2) (fun w' h => hheld w' h.1 h.2) fun _ _ _ h => h
  intro op w' Q hD hF hstep
  apply wpc_of_perform ⟨hD, hF⟩
  rintro r w'' ⟨hbroker, -, hstore, -⟩
  have hF' : ∀ g ∈ known, g ∈ w''.service.store := fun g hg => hstore ▸ hF g hg
  obtain ⟨hD', hQ⟩ := hstep r w'' hbroker hF'
  exact ⟨⟨hD', hF'⟩, hQ⟩

/-- A handling, complete or not, that submits only orders of `A`. -/
theorem wpc_handleHeld (hcap : t.adapter.hasRecentTransactions = true)
    (hmsg : ∀ order, orderOf msg = some order →
      (∃ g ∈ guardKeys order, g ∈ known) ∨ A order.idempotencyKey)
    (hw : Held keys known A start w) :
    wpc (tradingWorld subscription) (Held keys known A start) (t.handle msg now)
      (fun _ w' => Held keys known A start w') w := by
  have hquiet : ∀ (op : ConsumerCall FillResult) w, op.isSubmit = false → Held keys known A start w →
      wpc (tradingWorld subscription) (Held keys known A start)
        ((t.service.wire op).interp (wireSubmit t.adapter))
        (fun _ w' => Held keys known A start w') w :=
    fun op w hop hw => wpc_quietService (wire_quiet hop) hw
  have hstep : ∀ (op : ConsumerCall FillResult) w, Consumer.SubmitsOf A op →
      Held keys known A start w → wpc (tradingWorld subscription) (Held keys known A start)
        ((t.service.wire op).interp (wireSubmit t.adapter))
        (fun r w' => Consumer.StoreSays known op r ∧ Held keys known A start w') w := by
    intro op w hop hw
    cases op with
    | pipeline call =>
        cases call with
        | submit c =>
            rw [wire, Proc.interp_perform]
            exact wpc_post (wpc_submitHeld hcap hop hw) fun _ _ _ h => ⟨trivial, h⟩
        | seen key =>
            rw [wire, Proc.interp_perform]
            apply wpc_of_perform hw
            rintro r w' ⟨hservice, hhidden, foreign, hforeign, hlog⟩
            have hw' := hw.foreign (store_grows hservice) hhidden hforeign hlog
            refine ⟨hw', ?_, hw'⟩
            cases r with
            | error e => exact trivial
            | ok b => exact fun hkey => (hservice.1 b rfl).trans (decide_eq_true (hw.known key hkey))
        | _ => exact wpc_post (hquiet _ w rfl hw) fun _ _ _ h => ⟨trivial, h⟩
    | _ => exact wpc_post (hquiet _ w rfl hw) fun _ _ _ h => ⟨trivial, h⟩
  unfold handle ConsumerService.handle
  rw [Proc.interp_interp]
  refine wpc_interp_of_along hstep (Consumer.handle_submitsOf fun hbeat order horder => ?_) hw
  exact hmsg order (by simp [orderOf, hbeat, horder, Except.toOption])

/-- Fetching a batch submits nothing. -/
theorem wpc_fetchHeld (hw : Held keys known A start w) :
    wpc (tradingWorld subscription) (Held keys known A start) t.fetch
      (fun _ w' => Held keys known A start w') w := by
  refine wpc_quietService (Proc.Only.interp (P := Consumer.notSubmit) ?_
    fun _ hop => wire_quiet hop) hw
  exact (Consumer.along_notSubmit rfl).bind fun _ => (Consumer.along_notSubmit rfl).bind fun _ =>
    (Consumer.along_notSubmit rfl).attempt.bind fun _ => trivial

/-! ### Runs -/

/-- The order carries the signal. -/
def carriesSignal (signal : String) (order : ApprovedOrder) : Bool :=
  !order.signalId.isNull && order.signalId.toStr == signal

/-- The keys of the orders of a run that carry the signal. -/
def signalKeys (signal : String) (hs : List (Handling TradingState)) : List String :=
  hs.filterMap fun h => (orderOf h.msg).bind fun order =>
    if carriesSignal signal order then some order.idempotencyKey else none

/-- The number of fills in a log among the orders of some keys. -/
def fillsAmong (keys : List String) (log : List Dict) : ℕ :=
  (log.filter fun txn => keys.any fun k => isFillOf (clientOrderId k) txn).length

/-- When an order of the keys is taken up, the store knows a guard key of it; or no other one of
the keys is filled, and no history that is read for the order leaves out its fill. -/
def Covered (keys : List String) (h : Handling TradingState) : Prop :=
  ∀ order, orderOf h.msg = some order → order.idempotencyKey ∈ keys →
    (∃ g ∈ guardKeys order, g ∈ h.before.service.store) ∨
      (∀ k ∈ keys, 0 < fills k h.before.log → k = order.idempotencyKey) ∧
        h.after.hidden = h.before.hidden

/-- An adapter that can read the broker's history. -/
def readsHistory (t : TradingService) : Prop := t.adapter.hasRecentTransactions = true

/-- The steps of others between two polls: the queue, and trades of other origin. -/
def othersTrade (subscription : String) (w w' : TradingState) : Prop :=
  Elsewhere subscription w.service.file w'.service.file ∧ w'.service.store = w.service.store ∧
    ∃ foreign, Foreign foreign ∧ w'.log = w.log ++ foreign

/-- At most one fill for each of some keys, and at most one of them is filled. -/
structure OneOf (keys : List String) (log : List Dict) : Prop where
  once : ∀ k ∈ keys, AtMostOneFill k log
  one : ∀ k ∈ keys, ∀ k' ∈ keys, 0 < fills k log → 0 < fills k' log → k = k'

theorem OneOf.fillsAmong_le {keys : List String} {log : List Dict} (h : OneOf keys log) :
    fillsAmong keys log ≤ 1 := by
  have hpos : ∀ txn ∈ log, ∀ k ∈ keys, isFillOf (clientOrderId k) txn = true → 0 < fills k log := by
    intro txn htxn k _ hfill
    exact List.length_pos_of_mem (List.mem_filter.mpr ⟨htxn, hfill⟩)
  by_cases hnone : ∀ k ∈ keys, fills k log = 0
  · have hempty : (log.filter fun txn => keys.any fun k => isFillOf (clientOrderId k) txn) = [] := by
      refine List.filter_eq_nil_iff.mpr fun txn htxn hany => ?_
      obtain ⟨k, hk, hfill⟩ := List.any_eq_true.mp hany
      have := hpos txn htxn k hk hfill
      have := hnone k hk
      omega
    rw [fillsAmong, hempty]
    exact Nat.zero_le 1
  · push Not at hnone
    obtain ⟨k, hk, hfilled⟩ := hnone
    calc
      fillsAmong keys log ≤ fills k log := by
        refine List.Sublist.length_le ?_
        have hsub : (log.filter fun txn => keys.any fun k => isFillOf (clientOrderId k) txn) =
            (log.filter fun txn => keys.any fun k => isFillOf (clientOrderId k) txn).filter
              (isFillOf (clientOrderId k)) := by
          refine (List.filter_eq_self.mpr fun txn htxn => ?_).symm
          obtain ⟨htxn, hany⟩ := List.mem_filter.mp htxn
          obtain ⟨k', hk', hfill⟩ := List.any_eq_true.mp hany
          rw [h.one k hk k' hk' (Nat.pos_of_ne_zero hfilled) (hpos txn htxn k' hk' hfill)]
          exact hfill
        rw [hsub]
        exact List.Sublist.filter _ List.filter_sublist
      _ ≤ 1 := h.once k hk

/-- Only the fills of some keys count. -/
theorem OneOf.of_fills {log log' : List Dict} (h : OneOf keys log)
    (hfills : ∀ k ∈ keys, fills k log' = fills k log) : OneOf keys log' where
  once := fun k hk => (hfills k hk).le.trans (h.once k hk)
  one := fun k hk k' hk' hpos hpos' =>
    h.one k hk k' hk' (hfills k hk ▸ hpos) (hfills k' hk' ▸ hpos')

/-- One covered handling. -/
theorem OneOf.handled {out : Option (Except Exc Outcome)} {w' : TradingState}
    (hcap : readsHistory t) (h : OneOf keys w.log)
    (exec : Exec (tradingWorld subscription) (t.handle msg now) w out w')
    (hcovered : Covered keys ⟨w, msg, out, w'⟩) : OneOf keys w'.log := by
  have hheld : ∀ (known : List String) (A : String → Prop), (∀ g ∈ known, g ∈ w.service.store) →
      (∀ order, orderOf msg = some order →
        (∃ g ∈ guardKeys order, g ∈ known) ∨ A order.idempotencyKey) →
      Held keys known A w w' := fun known A hknown hmsg =>
    (wpc_sound exec (wpc_handleHeld hcap hmsg
      ⟨hknown, le_rfl, fun k hk _ _ => h.once k hk, fun _ _ => rfl⟩)).1
  cases horder : orderOf msg with
  | none =>
      have hnone := hheld [] (fun _ => False) (fun g hg => by cases hg)
        fun order h => by rw [horder] at h; cases h
      exact h.of_fills fun k _ => hnone.others k id
  | some order =>
      have hown := hheld [] (fun k => k = order.idempotencyKey) (fun g hg => by cases hg)
        fun order' h => by
          rw [horder] at h
          exact Or.inr (Option.some.inj h ▸ rfl)
      by_cases hin : order.idempotencyKey ∈ keys
      · rcases hcovered order horder hin with ⟨g, hg, hstore⟩ | ⟨hfresh, hshown⟩
        · have hblocked := hheld [g] (fun _ => False) (fun g' hg' => by
            rw [List.mem_singleton.mp hg']
            exact hstore) fun order' h => by
              rw [horder] at h
              exact Option.some.inj h ▸ Or.inl ⟨g, hg, List.mem_singleton.mpr rfl⟩
          exact h.of_fills fun k _ => hblocked.others k id
        · -- only the order's own key may gain a fill, and no other one of the keys is filled
          have hfilled : ∀ k ∈ keys, 0 < fills k w'.log → k = order.idempotencyKey := by
            intro k hk hpos
            by_contra hne
            exact hne (hfresh k hk (hown.others k hne ▸ hpos))
          refine ⟨fun k hk => ?_, fun k hk k' hk' hpos hpos' => ?_⟩
          · by_cases hkey : k = order.idempotencyKey
            · exact hown.once k hk hkey hshown
            · exact (hown.others k hkey).le.trans (h.once k hk)
          · rw [hfilled k hk hpos, hfilled k' hk' hpos']
      · exact h.of_fills fun k hk => hown.others k fun heq => hin (heq ▸ hk)

/-- In a run from an empty log in which every handling is covered, the log has at most one fill
among the orders that carry a signal. -/
theorem one_fill_per_signal {w₀ w : TradingState} {hs : List (Handling TradingState)}
    (signal : String) (hstart : w₀.log = [])
    (run : Runs (tradingSteps (tradingWorld subscription)) readsHistory (othersTrade subscription)
      w₀ hs w) (hcovered : ∀ h ∈ hs, Covered (signalKeys signal hs) h) :
    fillsAmong (signalKeys signal hs) w.log ≤ 1 := by
  have hinit : OneOf (signalKeys signal hs) w₀.log := by
    have hnone : ∀ k, fills k w₀.log = 0 := fun k => by rw [hstart]; rfl
    exact ⟨fun k _ => (hnone k).le.trans (Nat.zero_le 1), fun k _ k' _ hpos => by
      rw [hnone k] at hpos
      cases hpos⟩
  refine OneOf.fillsAmong_le (run.keeps (J := fun w => OneOf (signalKeys signal hs) w.log) ?_ ?_ ?_
    hcovered hinit)
  · intro t w₁ out w₂ _ hw₁ exec
    have hw : Held [] [] (fun _ => False) w₁ w₁ :=
      ⟨fun g hg => (by cases hg), le_rfl, fun k hk => (by cases hk), fun _ _ => rfl⟩
    have hheld := (wpc_sound exec (wpc_fetchHeld hw)).1
    exact hw₁.of_fills fun k _ => hheld.others k id
  · exact fun t now msg w₁ out w₂ hcap hw₁ exec hcovered => hw₁.handled hcap exec hcovered
  · rintro w₁ w₂ hw₁ ⟨-, -, foreign, hforeign, hlog⟩
    refine hw₁.of_fills fun k _ => ?_
    rw [hlog, fills_append, hforeign.fills]
    rfl

/-! ### Two orders of one signal -/

/-- An order of signal 7 under some key. -/
def remintedBuy (key : String) : PyVal :=
  .dict ((orderMessage "BUY" (.int 1000) .null).map (fun e =>
    if e.1 = "idempotency_key" then (e.1, .str key) else e) ++ [("signal_id", .str "7")])

/-- The transactions of an order that is filled at once. -/
def placed (cid : String) : List Dict :=
  [[("type", .str "MARKET_ORDER"), ("clientExtensions", .dict [("id", .str cid)])],
    [("type", .str "ORDER_FILL"), ("clientOrderID", .str cid), ("price", .str "1.1")]]

/-- A broker that fills the orders of two keys at once and shows its whole log. -/
def fillingBroker (call : BrokerCall) (log : List Dict) : Except Exc call.Ans × List Dict :=
  match call with
  | .createOrder payload =>
      match wireClientId payload with
      | .str cid =>
          if cid = "sb-a" ∨ cid = "sb-b" then
            (.ok [("orderFillTransaction", .dict ((placed cid).getD 1 []))], log ++ placed cid)
          else (.error ⟨.brokerError, []⟩, log)
      | _ => (.error ⟨.brokerError, []⟩, log)
  | .getRecentTransactions count =>
      if log.length ≤ count then (.ok log, log) else (.error ⟨.brokerError, []⟩, log)
  | .cachedSpec _ => (.ok none, log)
  | .cacheSpec _ _ => (.ok (), log)
  | .getTrade _ => (.ok none, log)
  | .getOpenTrades => (.ok [], log)
  | .modifyTradeStop _ _ _ => (.ok [], log)
  | .getAccountInstruments _ => (.ok [], log)
  | .sleep _ => (.ok (), log)

/-- The host of the service and this broker. -/
def hostEnv (host : StillHost) (op : TradingCall) (s : TradingState) :
    Except Exc op.Ans × TradingState :=
  match op with
  | .service call => ((host.env call s.service).1, { s with service := (host.env call s.service).2 })
  | .broker _ call => ((fillingBroker call s.log).1, { s with log := (fillingBroker call s.log).2 })

theorem orderWithOutcome_placed {cid : String} (hcid : cid = "sb-a" ∨ cid = "sb-b") :
    ∃ order outcome, placed cid = [order, outcome] ∧ OrderWithOutcome cid order outcome := by
  refine ⟨_, _, rfl, ?_⟩
  rcases hcid with rfl | rfl
  · exact ⟨by decide +kernel, by decide +kernel, by decide +kernel, .inl (by decide +kernel)⟩
  · exact ⟨by decide +kernel, by decide +kernel, by decide +kernel, .inl (by decide +kernel)⟩

theorem fillingBroker_step (call : BrokerCall) (log : List Dict) :
    openBroker log call (fillingBroker call log).1 (fillingBroker call log).2 := by
  have quiet : ∃ foreign, Foreign foreign ∧ log = log ++ foreign :=
    ⟨[], fun txn h => (by cases h), (List.append_nil log).symm⟩
  cases call with
  | createOrder payload =>
      have nothing : ∃ own foreign, Appended payload own ∧ Foreign foreign ∧
          log = log ++ own ++ foreign :=
        ⟨[], [], .nothing, fun txn h => (by cases h), by simp⟩
      simp only [openBroker, fillingBroker]
      split
      · rename_i cid' hid
        split_ifs with hours
        · obtain ⟨order, outcome, hplaced, pair⟩ := orderWithOutcome_placed hours
          refine ⟨placed cid', [], ?_, fun txn h => (by cases h), by simp⟩
          rw [hplaced]
          exact .order hid pair
        · exact nothing
      · exact nothing
  | getRecentTransactions count =>
      simp only [openBroker, fillingBroker]
      split_ifs with hcount
      · refine ⟨?_, quiet⟩
        intro txns htxns
        cases htxns
        simp [window, Nat.sub_eq_zero_of_le hcount]
      · exact ⟨by simp, quiet⟩
  | _ => exact quiet

theorem fillingBroker_shows (cid : String) (call : BrokerCall) (log : List Dict) :
    ¬ Hides cid log ⟨call, (fillingBroker call log).1⟩ := by
  refine not_hides ?_
  rintro count rfl hok
  simp only [fillingBroker] at hok
  split_ifs at hok with hcount
  · exact hcount
  · cases hok

theorem hostEnv_step (host : StillHost) (subscription : String) (op : TradingCall)
    (s : TradingState) :
    tradingWorld subscription s op (hostEnv host op s).1 (hostEnv host op s).2 := by
  cases op with
  | service call =>
      exact ⟨host.env_step subscription call s.service, rfl, [], fun txn h => (by cases h),
        (List.append_nil _).symm⟩
  | broker cid call =>
      exact ⟨⟨fillingBroker_step call s.log, .inr ⟨fillingBroker_shows cid call s.log, rfl⟩⟩,
        .refl _ _, rfl, rfl⟩

/-- A host on which everything works. -/
def tradingHost : StillHost := ⟨.zero, true, plainFill, true⟩

def trader : TradingService := ⟨executor 10, patientAdapter⟩

/-- An order of the signal arrives. -/
def withOrder (key : String) (s : TradingState) : TradingState :=
  { s with service := { s.service with
      file := ⟨s.service.file.table.insert (.inserted Consumer.plainBuy.topic
        (.json (remintedBuy key))), s.service.file.drawn⟩ } }

theorem othersTrade_withOrder (key : String) (s : TradingState) :
    othersTrade Consumer.plainBuy.topic s (withOrder key s) :=
  ⟨.arrival _ _ _, rfl, [], fun txn h => (by cases h), (List.append_nil _).symm⟩

/-- A fetch on this host, and the handling of its first message. -/
def fetchedOn (w : TradingState) :
    Except Exc (Moment × Option (List ReceivedMessage)) × TradingState :=
  trader.fetch.run (hostEnv tradingHost) w

def messageOn (w : TradingState) : ReceivedMessage := firstMessage (fetchedOn w).1

def handledOn (w : TradingState) : Except Exc Outcome × TradingState :=
  (trader.handle (messageOn w) Moment.first).run (hostEnv tradingHost) (fetchedOn w).2

/-- The process dies after this many calls of the handling. -/
def diedOn (calls : ℕ) (w : TradingState) : TradingState :=
  (trader.handle (messageOn w) Moment.first).runFor (hostEnv tradingHost) calls (fetchedOn w).2

/-- Was one message fetched at the first moment? -/
def fetchesOne (w : TradingState) : Bool :=
  (fetchedOn w).1.toOption.any fun x => x.1 = Moment.first ∧ (x.2.map List.length) = some 1

theorem polls_handledOn {w : TradingState} {o : Outcome} (hone : fetchesOne w = true)
    (ho : (handledOn w).1.toOption = some o) :
    Polls (tradingSteps (tradingWorld Consumer.plainBuy.topic)) trader w
      [⟨(fetchedOn w).2, messageOn w, some (.ok o), (handledOn w).2⟩] (handledOn w).2 := by
  have henv := hostEnv_step tradingHost Consumer.plainBuy.topic
  have hfetch := exec_run henv trader.fetch w
  have hhandle := exec_run henv (trader.handle (messageOn w) Moment.first) (fetchedOn w).2
  exact .fetched (fetched_one hone ▸ hfetch) (.next (eq_ok_of_toOption ho ▸ hhandle) .stop)

theorem polls_diedOn {w : TradingState} (calls : ℕ) (hone : fetchesOne w = true) :
    Polls (tradingSteps (tradingWorld Consumer.plainBuy.topic)) trader w
      [⟨(fetchedOn w).2, messageOn w, none, diedOn calls w⟩] (diedOn calls w) := by
  have henv := hostEnv_step tradingHost Consumer.plainBuy.topic
  have hfetch := exec_run henv trader.fetch w
  have hhandle := exec_runFor henv calls (trader.handle (messageOn w) Moment.first) (fetchedOn w).2
  exact .fetched (fetched_one hone ▸ hfetch) (.cut hhandle fun o h => by cases h)

/-- The first order has arrived. -/
def oneOrder : TradingState := withOrder "a" ⟨nothing, [], 0⟩

/-- It was executed, and the second one has arrived. -/
def twoOrders : TradingState := withOrder "b" (handledOn oneOrder).2

/-- The process died after the fill of the first order and before its marks, and the second one
has arrived. -/
def twoOrdersUnmarked : TradingState := withOrder "b" (diedOn 14 oneOrder)

theorem one_fill_per_signal_reminted :
    ∃ keys, keys.length = 2 ∧ fillsAmong keys (handledOn twoOrders).2.log ≤ 1 := by
  have hfirst := polls_handledOn (w := oneOrder) (o := .handled .executed) (by decide +kernel)
    (by decide +kernel)
  have hsecond := polls_handledOn (w := twoOrders) (o := .duplicate) (by decide +kernel)
    (by decide +kernel)
  have hcap : readsHistory trader := rfl
  refine ⟨_, ?_, one_fill_per_signal "7" rfl (.poll (.other (.poll (.other .refl
    (othersTrade_withOrder "a" ⟨nothing, [], 0⟩)) hcap hfirst) (othersTrade_withOrder "b" _)) hcap
      hsecond) ?_⟩
  · decide +kernel
  · have hknown : ((orderOf (messageOn twoOrders)).all fun order => (guardKeys order).any fun g =>
        (fetchedOn twoOrders).2.service.store.contains g) = true := by decide +kernel
    have hempty : (fetchedOn oneOrder).2.log.isEmpty = true := by decide +kernel
    have hshown : (handledOn oneOrder).2.hidden = (fetchedOn oneOrder).2.hidden := by
      decide +kernel
    intro h hh order horder _
    rcases List.mem_append.mp hh with hmem | hmem
    · rw [List.mem_singleton.mp hmem]
      refine .inr ⟨fun k _ hpos => ?_, hshown⟩
      rw [List.isEmpty_iff.mp hempty] at hpos
      cases hpos
    · rw [List.mem_singleton.mp hmem] at horder ⊢
      left
      rw [horder] at hknown
      obtain ⟨g, hg, hstore⟩ := List.any_eq_true.mp hknown
      exact ⟨g, hg, List.contains_iff_mem.mp hstore⟩

theorem reminted_filled_twice : ∃ (hs : List (Handling TradingState)) (w : TradingState),
    Runs (tradingSteps (tradingWorld Consumer.plainBuy.topic)) readsHistory
      (othersTrade Consumer.plainBuy.topic) ⟨nothing, [], 0⟩ hs w ∧
    fillsAmong (signalKeys "7" hs) w.log = 2 := by
  have hfirst := polls_diedOn (w := oneOrder) 14 (by decide +kernel)
  have hsecond := polls_handledOn (w := twoOrdersUnmarked) (o := .handled .executed)
    (by decide +kernel) (by decide +kernel)
  have hcap : readsHistory trader := rfl
  refine ⟨_, _, .poll (.other (.poll (.other .refl (othersTrade_withOrder "a" ⟨nothing, [], 0⟩)) hcap
    hfirst) (othersTrade_withOrder "b" _)) hcap hsecond, ?_⟩
  decide +kernel

end TradingService

end System2
