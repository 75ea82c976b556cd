import System2.Execution.MessageVerdict
import System2.Execution.SignalOnce

/-!
# What a message is a duplicate of

Idempotency keys and signal ids share one store of processed keys; a prefix keeps them
apart only while no idempotency key begins with it. A run handles any messages from an
empty store, with consumers of any settings, and each handling may be cut short.
-/

namespace System2
open Foundation

/-! ### Two kinds of identifiers in one store -/

namespace ApprovedOrder

/-- The text of the signal that an order is deduped on, when it has one. -/
def signalText (order : ApprovedOrder) : Option String :=
  if !order.signalId.isNull && order.signalId.toStr != "" then some order.signalId.toStr else none

/-- The same order again, or another one for the same signal. -/
def SameIdentity (order earlier : ApprovedOrder) : Prop :=
  order.idempotencyKey = earlier.idempotencyKey ∨
    ∃ t, order.signalText = some t ∧ earlier.signalText = some t

/-- The idempotency key of one order reads as the signal mark of the other. -/
def Collides (order earlier : ApprovedOrder) : Prop :=
  (∃ t, earlier.signalText = some t ∧ order.idempotencyKey = "signal:" ++ t) ∨
    ∃ t, order.signalText = some t ∧ earlier.idempotencyKey = "signal:" ++ t

variable {order earlier : ApprovedOrder}

instance : Decidable (order.SameIdentity earlier) :=
  decidable_of_iff (order.idempotencyKey = earlier.idempotencyKey ∨
    (order.signalText.any fun t => earlier.signalText == some t) = true) (by
      simp [SameIdentity, Option.any_eq_true])

instance : Decidable (order.Collides earlier) :=
  decidable_of_iff ((earlier.signalText.any fun t => order.idempotencyKey == "signal:" ++ t) = true ∨
    (order.signalText.any fun t => earlier.idempotencyKey == "signal:" ++ t) = true) (by
      simp [Collides, Option.any_eq_true])

theorem mem_guardKeys {key : String} : key ∈ guardKeys order ↔
    key = order.idempotencyKey ∨ ∃ t, order.signalText = some t ∧ key = "signal:" ++ t := by
  unfold guardKeys signalText
  split_ifs
  · simp
  · simp

/-- Two orders share a key exactly when they are one order or one signal, or collide. -/
theorem shared_key_iff : (∃ key ∈ guardKeys order, key ∈ guardKeys earlier) ↔
    order.SameIdentity earlier ∨ order.Collides earlier := by
  simp only [mem_guardKeys]
  constructor
  · rintro ⟨key, rfl | ⟨t, ht, rfl⟩, hkey | ⟨u, hu, hkey⟩⟩
    · exact Or.inl (Or.inl hkey)
    · exact Or.inr (Or.inl ⟨u, hu, hkey⟩)
    · exact Or.inr (Or.inr ⟨t, ht, hkey.symm⟩)
    · obtain rfl : t = u := (String.append_right_inj _).mp hkey
      exact Or.inl (Or.inr ⟨t, ht, hu⟩)
  · rintro ((hkey | ⟨t, ht, hu⟩) | (⟨t, ht, hkey⟩ | ⟨t, ht, hkey⟩))
    · exact ⟨_, Or.inl rfl, Or.inl hkey⟩
    · exact ⟨_, Or.inr ⟨t, ht, rfl⟩, Or.inr ⟨t, hu, rfl⟩⟩
    · exact ⟨_, Or.inl rfl, Or.inr ⟨t, ht, hkey⟩⟩
    · exact ⟨_, Or.inr ⟨t, ht, hkey⟩, Or.inl rfl⟩

end ApprovedOrder

/-- The message was acked as a duplicate by the consumer or skipped as one by the pipeline. -/
def Outcome.asDuplicate : Outcome → Bool
  | .duplicate => true
  | .handled .skippedDuplicate => true
  | _ => false

namespace Consumer

open TradingService (orderOf)

variable {F : Type}

/-! ### One handling and the store -/

/-- A key that the order of a message is deduped on. -/
def OwnKey (msg : ReceivedMessage) (key : String) : Prop :=
  ∃ order, orderOf msg = some order ∧ key ∈ guardKeys order

/-- Is this the event of a `submit_fn` call that returned? -/
def isReturnedSubmit : Event (ConsumerI F) Exc → Bool
  | ⟨.pipeline (.submit _), .ok _⟩ => true
  | _ => false

/-- Is this a look-up that found its key in the store? -/
def isHit : Event (ConsumerI F) Exc → Bool
  | ⟨.pipeline (.seen _), .ok true⟩ => true
  | _ => false

/-- A `submit_fn` call returned. -/
def Returned (calls : List (Event (ConsumerI F) Exc)) : Prop := ∃ e ∈ calls, isReturnedSubmit e = true

/-- What a handling owes to the store it started with: a look-up finds a key of the message
that was there, and what is added are keys of the message behind a returned submit. -/
structure Accounts (msg : ReceivedMessage) (store : List String) (w : Watched F) : Prop where
  found : (∃ e ∈ w.2, isHit e = true) → ∃ key, OwnKey msg key ∧ key ∈ store
  spent : ∀ key ∈ w.1, key ∈ store ∨ OwnKey msg key ∧ Returned w.2

/-- Nothing has been added yet. -/
def Unspent (msg : ReceivedMessage) (store : List String) (w : Watched F) : Prop :=
  Accounts msg store w ∧ w.1 = store

/-- The submit has returned. -/
def Spending (msg : ReceivedMessage) (store : List String) (w : Watched F) : Prop :=
  Accounts msg store w ∧ Returned w.2

variable {c : Consumer} {msg : ReceivedMessage} {now : Moment} {store : List String}
  {w w' : Watched F} {order : ApprovedOrder}

theorem Returned.append {calls more : List (Event (ConsumerI F) Exc)} (h : Returned calls) :
    Returned (calls ++ more) := by
  obtain ⟨e, he, hsubmit⟩ := h
  exact ⟨e, List.mem_append_left _ he, hsubmit⟩

/-- A call that is neither a hit nor a mark. -/
theorem Accounts.call {e : Event (ConsumerI F) Exc} (h : Accounts msg store w)
    (he : isHit e = false) (hsame : w'.1 = w.1) (htrace : w'.2 = w.2 ++ [e]) :
    Accounts msg store w' := by
  constructor
  · rintro ⟨e', he', hhit⟩
    rw [htrace] at he'
    rcases List.mem_append.mp he' with hold | hnew
    · exact h.found ⟨e', hold, hhit⟩
    · rw [List.mem_singleton.mp hnew, he] at hhit
      cases hhit
  · intro key hkey
    rw [hsame] at hkey
    rcases h.spent key hkey with hold | ⟨hown, hreturned⟩
    · exact Or.inl hold
    · exact Or.inr ⟨hown, htrace ▸ hreturned.append⟩

theorem Unspent.call {e : Event (ConsumerI F) Exc} (h : Unspent msg store w)
    (he : isHit e = false) (hsame : w'.1 = w.1) (htrace : w'.2 = w.2 ++ [e]) :
    Unspent msg store w' := ⟨h.1.call he hsame htrace, hsame.trans h.2⟩

theorem Spending.call {e : Event (ConsumerI F) Exc} (h : Spending msg store w)
    (he : isHit e = false) (hsame : w'.1 = w.1) (htrace : w'.2 = w.2 ++ [e]) :
    Spending msg store w' := ⟨h.1.call he hsame htrace, htrace ▸ h.2.append⟩

/-- A look-up of a key of the message, while the store is as it was. -/
theorem Unspent.seen {key : String} {r : Except Exc Bool} (h : Unspent msg store w)
    (hown : OwnKey msg key) (step : honestStore.traced w (.pipeline (.seen key)) r w') :
    Unspent msg store w' := by
  obtain ⟨⟨hanswer, hsame⟩, htrace⟩ := step
  cases r with
  | error e => exact h.call rfl hsame htrace
  | ok b =>
      cases b with
      | false => exact h.call rfl hsame htrace
      | true =>
          have hkey : key ∈ w.1 := by simpa using hanswer true rfl
          refine ⟨⟨fun _ => ⟨key, hown, h.2 ▸ hkey⟩, fun k hk => ?_⟩, hsame.trans h.2⟩
          rw [hsame, h.2] at hk
          exact Or.inl hk

/-- A mark of a key of the message behind the submit. -/
theorem Spending.mark {key : String} {r : Except Exc Unit} (h : Spending msg store w)
    (hown : OwnKey msg key) (step : honestStore.traced w (.pipeline (.mark key)) r w') :
    Spending msg store w' := by
  obtain ⟨hstore, htrace⟩ := step
  rcases hstore with hsame | hadded
  · exact h.call rfl hsame htrace
  · have hreturned : Returned w'.2 := htrace ▸ h.2.append
    refine ⟨⟨?_, fun k hk => ?_⟩, hreturned⟩
    · rintro ⟨e, he, hhit⟩
      rw [htrace] at he
      rcases List.mem_append.mp he with hold | hnew
      · exact h.1.found ⟨e, hold, hhit⟩
      · rw [List.mem_singleton.mp hnew] at hhit
        cases hhit
    · rw [hadded] at hk
      rcases List.mem_cons.mp hk with rfl | hold
      · exact Or.inr ⟨hown, hreturned⟩
      · exact (h.1.spent k hold).imp_right fun hspent => ⟨hspent.1, hreturned⟩

/-! ### The calls of one handling -/

/-- The calls of the gates, their look-ups those of the order's own keys. -/
def Inspects (order : ApprovedOrder) : PipelineCall F → Prop
  | .seen key => key ∈ guardKeys order
  | .clock => True
  | .validate _ => True
  | _ => False

theorem Unspent.inspects {op : PipelineCall F} {r : Except Exc op.Ans}
    (horder : orderOf msg = some order) (hop : Inspects order op) (h : Unspent msg store w)
    (step : routedWorld honestStore.traced order w op r w') : Unspent msg store w' := by
  cases op with
  | seen key => exact h.seen ⟨order, horder, hop⟩ step
  | clock => exact h.call rfl step.1 step.2
  | validate o => exact h.call rfl step.1 step.2
  | _ => exact absurd hop id

theorem Spending.records {op : PipelineCall F} {r : Except Exc op.Ans}
    (horder : orderOf msg = some order) (hop : Pipeline.Records order op) (h : Spending msg store w)
    (step : routedWorld honestStore.traced order w op r w') : Spending msg store w' := by
  cases op with
  | mark key => exact h.mark ⟨order, horder, hop⟩ step
  | persist o fill => exact h.call rfl step.1 step.2
  | emit o fill => exact h.call rfl step.1 step.2
  | _ => exact absurd hop id

/-- Where a handling may stop, and what it comes to. -/
theorem wpc_submitAccounts {p : Pipeline} {o : ConstructedOrder}
    (horder : orderOf msg = some order) (h : Unspent msg store w) :
    wpc (routedWorld honestStore.traced order) (Accounts msg store) (p.submitAndRecord order o)
      (fun _ w' => Accounts msg store w') w := by
  rw [Pipeline.submitAndRecord_eq]
  split_ifs
  · exact ⟨h.1, h.1⟩
  refine (wpc_bind _ _ _ _).mpr (wpc_of_perform h.1 fun r w₁ step => ?_)
  obtain ⟨hsame, htrace⟩ := step
  have hcalled := h.call rfl hsame htrace
  refine ⟨hcalled.1, ?_⟩
  cases r with
  | error e => exact hcalled.1
  | ok fill =>
      have hspending : Spending msg store w₁ :=
        ⟨hcalled.1, _, htrace ▸ List.mem_append_right _ (List.mem_singleton_self _), rfl⟩
      exact wpc_mono (wpc_of_only (J := Spending msg store)
        (fun op u r u' hop hu step => hu.records horder hop step) Pipeline.recorded_records hspending)
        (fun _ h => h.1) fun _ _ _ h => h.1

theorem wpc_processAccounts {p : Pipeline} {price : PyVal} {opens : List String}
    (horder : orderOf msg = some order) (h : Unspent msg store w) :
    wpc (routedWorld honestStore.traced order) (Accounts msg store) (p.process order price opens)
      (fun _ w' => Accounts msg store w') w := by
  have hinspects : (p.gated (F := F) order price opens).Only (Inspects order) :=
    Pipeline.gated_only (fun _ hkey => hkey) trivial fun _ => trivial
  rw [Pipeline.process_eq]
  refine wpc_seq (wpc_mono (wpc_of_only (J := Unspent msg store)
    (fun op u r u' hop hu step => hu.inspects horder hop step) hinspects h) (fun _ h => h.1)
    fun _ _ _ h => h) ?_ fun _ _ hc _ => hc
  rintro passed w₁ - hw₁
  cases passed with
  | inl refused => exact ⟨hw₁.1, hw₁.1⟩
  | inr constructed =>
      rw [Pipeline.settle]
      split_ifs
      · exact ⟨hw₁.1, hw₁.1⟩
      · exact wpc_submitAccounts horder hw₁

theorem wpc_executeAccounts (horder : orderOf msg = some order) (h : Unspent msg store w) :
    wpc honestStore.traced (Accounts msg store) (execute c order)
      (fun _ w' => Accounts msg store w') w := by
  simp only [execute, Proc.bind_eq]
  refine (wpc_bind _ _ _ _).mpr (wpc_of_perform h.1 fun r w₁ step => ?_)
  have hw₁ := h.call rfl step.1 step.2
  refine ⟨hw₁.1, ?_⟩
  cases r with
  | error e => exact hw₁.1
  | ok price =>
      refine (wpc_bind _ _ _ _).mpr (wpc_of_perform hw₁.1 fun r w₂ step => ?_)
      have hw₂ := hw₁.call rfl step.1 step.2
      refine ⟨hw₂.1, ?_⟩
      cases r with
      | error e => exact hw₂.1
      | ok opens => exact wpc_route (wpc_processAccounts horder hw₂)

/-- The calls of an examination, its look-ups those of the message's own keys. -/
def Inquires (msg : ReceivedMessage) (op : ConsumerCall F) : Prop :=
  asks op ∧ ¬looksUp op ∨ ∃ key, op = .pipeline (.seen key) ∧ OwnKey msg key

theorem orderOf_eq (hheart : isHeartbeat msg.body = false)
    (horder : ApprovedOrder.fromDict msg.body.entries = .ok order) : orderOf msg = some order := by
  simp [TradingService.orderOf, hheart, horder, Except.toOption]

theorem examine_inquires : (examine (F := F) c msg now).Only (Inquires msg) :=
  examine_only (fun _ hasks hlook => Or.inl ⟨hasks, hlook⟩) fun order hheart horder key hkey =>
    Or.inr ⟨key, rfl, order, orderOf_eq hheart horder, hkey⟩

theorem Unspent.inquires {op : ConsumerCall F} {r : Except Exc op.Ans} (hop : Inquires msg op)
    (h : Unspent msg store w) (step : honestStore.traced w op r w') : Unspent msg store w' := by
  rcases hop with ⟨hasks, hlook⟩ | ⟨key, rfl, hown⟩
  · cases op with
    | submitGateFn => exact h.call rfl step.1 step.2
    | heartbeatFn sentAt => exact h.call rfl step.1 step.2
    | countMessage => exact h.call rfl step.1 step.2
    | setLastMessageAt t => exact h.call rfl step.1 step.2
    | setLastMessageCreatedAt t => exact h.call rfl step.1 step.2
    | pipeline call =>
        cases call with
        | seen key => exact absurd trivial hlook
        | _ => exact absurd hasks id
    | _ => exact absurd hasks id
  · exact h.seen hown step

/-! ### What a handling comes to -/

section Findings

variable {allowed : (op : ConsumerCall F) → Except Exc op.Ans → Prop} {hit : Prop}

/-- What an examination may find, when look-ups answer yes only under a condition. -/
def Finds (msg : ReceivedMessage) (hit : Prop) : Finding F → Prop
  | .executable order => orderOf msg = some order
  | .verdict .duplicate => hit
  | .verdict (.executed _) => False
  | .verdict _ => True

/-- The answers of the pipeline's calls, when look-ups answer yes only under a condition. -/
def foundOnly (hit : Prop) : (op : PipelineCall F) → Except Exc op.Ans → Prop
  | .seen _, r => r = .ok true → hit
  | _, _ => True

theorem route_foundOnly (hhit : ∀ key, allowed (.pipeline (.seen key)) (.ok true) → hit)
    (op : PipelineCall F) : (route order op).attempt.Yields allowed (foundOnly hit op) := by
  cases op with
  | seen key =>
      intro r hr
      cases r with
      | ok b => exact fun h => hhit key (Except.ok.inj h ▸ hr)
      | error e => exact fun h => by cases h
  | _ => exact Proc.yields_true _

theorem anySeen_yields (hhit : ∀ key, allowed (.pipeline (.seen key)) (.ok true) → hit)
    (keys : List String) : Proc.Yields (I := ConsumerI F) allowed (fun b => b = true → hit)
      ((Pipeline.anySeen keys).interp (route order)) := by
  have hscan : (Pipeline.anySeen (F := F) keys).Yields (foundOnly hit) fun b => b = true → hit :=
    Pipeline.anySeen_yields fun _ _ h => h rfl
  exact hscan.interp (route_foundOnly hhit)

theorem examine_finds (hhit : ∀ key, allowed (.pipeline (.seen key)) (.ok true) → hit) :
    Proc.Yields (I := ConsumerI F) allowed (Finds msg hit) (examine c msg now) := by
  unfold examine
  split_ifs with hheart
  · refine (yields_convert _).bind fun sentAt _ => ?_
    cases sentAt with
    | none => exact (yields_convert _).bind fun _ _ => trivial
    | some sentAt => exact (Proc.yields_true _).bind fun _ _ => trivial
  · refine (yields_convert _).bind fun res _ => ?_
    split_ifs
    · exact trivial
    refine (Proc.yields_true _).bind fun _ _ => (yields_convert _).bind fun expired _ => ?_
    split_ifs
    · exact trivial
    refine (Proc.yields_true _).bind fun _ _ => (yields_convert _).bind fun order horder => ?_
    refine (anySeen_yields hhit _).bind fun duplicate hduplicate => ?_
    split_ifs with hdup
    · exact hduplicate hdup
    · exact trivial
    refine (Proc.yields_true _).bind fun submitting _ => ?_
    split_ifs
    · exact trivial
    · exact orderOf_eq (by simpa using hheart) horder

/-- The pipeline skips an order as a duplicate only where a look-up answered yes. -/
theorem process_yields {p : Pipeline} {price : PyVal} {opens : List String} :
    (p.process (F := F) order price opens).Yields (foundOnly hit)
      fun res => res.decision = .skippedDuplicate → hit := by
  rw [Pipeline.process_eq]
  refine (Pipeline.gated_passed fun _ _ h => h rfl).bind fun passed hpassed => ?_
  cases passed with
  | inl refused => exact hpassed.2.2
  | inr constructed =>
      rw [Pipeline.settle]
      split_ifs
      · exact fun h => by cases h
      · refine Pipeline.submitAndRecord_executed.mono fun res hexecuted hskipped => ?_
        rw [hexecuted] at hskipped
        cases hskipped

theorem execute_yields (hhit : ∀ key, allowed (.pipeline (.seen key)) (.ok true) → hit) :
    Proc.Yields (I := ConsumerI F) allowed (fun res => res.decision = .skippedDuplicate → hit)
      (execute c order) := by
  refine (Proc.yields_true _).bind fun price _ => (Proc.yields_true _).bind fun opens _ => ?_
  exact process_yields.interp (route_foundOnly hhit)

/-- What a verdict says of a duplicate, when look-ups answer yes only under a condition. -/
def Calls (hit : Prop) : Verdict F → Prop
  | .duplicate => hit
  | .executed (.ok res) => res.decision = .skippedDuplicate → hit
  | _ => True

theorem assess_yields (hhit : ∀ key, allowed (.pipeline (.seen key)) (.ok true) → hit) :
    Proc.Yields (I := ConsumerI F) allowed (Calls hit) (assess c msg now) := by
  refine (examine_finds hhit).bind fun x hx => ?_
  cases x with
  | verdict v =>
      cases v with
      | duplicate => exact hx
      | executed r => exact absurd hx id
      | _ => exact trivial
  | executable order =>
      refine (execute_yields hhit).attempt.bind fun r hr => ?_
      cases r with
      | ok res => exact hr res rfl
      | error e => exact trivial

/-- A message is acked or skipped as a duplicate only where a look-up answered yes. -/
theorem handle_yields (hhit : ∀ key, allowed (.pipeline (.seen key)) (.ok true) → hit) :
    Proc.Yields (I := ConsumerI F) allowed (fun o => o.asDuplicate = true → hit)
      (handle c msg now) := by
  rw [handle_eq]
  refine (assess_yields hhit).bind fun v hv => ?_
  cases v with
  | heartbeat credited =>
      refine (Proc.yields_true _).bind fun _ _ => ?_
      cases credited with
      | true => exact fun h => by cases h
      | false => exact fun h => by cases h
  | malformed res =>
      refine (Proc.yields_true _).bind fun r _ => ?_
      cases r with
      | ok _ => exact fun h => by cases h
      | error e => exact (Proc.yields_true _).bind fun _ _ h => by cases h
  | duplicate => exact (Proc.yields_true _).bind fun _ _ _ => hv
  | executed r =>
      cases r with
      | error e => exact (Proc.yields_true _).bind fun _ _ h => by cases h
      | ok res =>
          have houtcome : (Outcome.handled res.decision).asDuplicate = true → hit := by
            intro h
            cases hdecision : res.decision with
            | skippedDuplicate => exact hv hdecision
            | _ => simp [hdecision, Outcome.asDuplicate] at h
          simp only [conclude, settle]
          split_ifs
          · exact (Proc.yields_true _).bind fun _ _ => houtcome
          · exact (Proc.yields_true _).bind fun _ _ h => by cases h
  | _ => exact (Proc.yields_true _).bind fun _ _ h => by cases h

end Findings

/-! ### Runs -/

/-- What a run records of one message: how its handling ended, none when the process died in
it, and its calls. -/
structure Taken (F : Type) where
  msg : ReceivedMessage
  out : Option (Except Exc Outcome)
  calls : List (Event (ConsumerI F) Exc)

/-- A run on one store, empty at first: messages handled one after the other, by processes of any
settings at any time. The store outlives the processes. -/
inductive HandleRun : List (Taken F) → List String → Prop
  | start : HandleRun [] []
  | message {hs : List (Taken F)} {store store' : List String} {c : Consumer}
      {msg : ReceivedMessage} {now : Moment} {out : Option (Except Exc Outcome)}
      {calls : List (Event (ConsumerI F) Exc)} (run : HandleRun hs store)
      (exec : Exec honestStore.traced (handle c msg now) (store, []) out (store', calls)) :
      HandleRun (hs ++ [⟨msg, out, calls⟩]) store'

/-- The message was taken for a duplicate: the handling said so, or a look-up did before the
process died. -/
def Taken.AsDuplicate (h : Taken F) : Prop :=
  (∃ o, h.out = some (.ok o) ∧ o.asDuplicate = true) ∨ ∃ e ∈ h.calls, isHit e = true

/-- The submit of an earlier order of the same identity returned. -/
def Taken.Justified (before : List (Taken F)) (h : Taken F) : Prop :=
  ∃ order, orderOf h.msg = some order ∧ ∃ e ∈ before, Returned e.calls ∧
    ∃ earlier, orderOf e.msg = some earlier ∧ order.SameIdentity earlier

/-- Every message that was taken for a duplicate is one. -/
def NoFalseDuplicates (hs : List (Taken F)) : Prop :=
  ∀ before h after, hs = before ++ h :: after → h.AsDuplicate → h.Justified before

/-- The orders of the messages of a run. -/
def ordersOf (hs : List (Taken F)) : List ApprovedOrder := hs.filterMap fun h => orderOf h.msg

/-- A handling accounts for what it adds to the store and for what it finds there. -/
theorem handle_accounts {out : Option (Except Exc Outcome)}
    (exec : Exec honestStore.traced (handle c msg now) (store, []) out w) :
    Accounts msg store w := by
  have hstart : Unspent msg store ((store, []) : Watched F) :=
    ⟨⟨fun ⟨e, he, _⟩ => (nomatch he), fun key hkey => Or.inl hkey⟩, rfl⟩
  have hhandle : wpc honestStore.traced (Accounts msg store)
      (handle (F := F) c msg now) (fun _ _ => True) (store, []) := by
    rw [handle_eq, assess]
    refine wpc_seq (R := fun _ w' => Accounts msg store w') ?_ ?_ fun _ _ _ _ => trivial
    · have hexamine : wpc honestStore.traced (Accounts msg store) (examine (F := F) c msg now)
          (fun _ w' => Unspent msg store w') (store, []) :=
        wpc_mono (wpc_of_only (fun _ _ _ _ hop hu step => Unspent.inquires hop hu step)
          examine_inquires hstart) (fun _ h => h.1) fun _ _ _ h => h
      have hfinds : Proc.Yields (I := ConsumerI F) (fun _ _ => True) (Finds msg True)
          (examine c msg now) := examine_finds fun _ _ => trivial
      refine wpc_seq (wpc_of_yields (fun _ _ _ _ _ => trivial) hfinds hexamine) ?_
        fun _ _ hc _ => hc
      rintro x u hc ⟨hu, hx⟩
      cases x with
      | verdict v => exact ⟨hc, hc⟩
      | executable order =>
          refine (wpc_bind _ _ _ _).mpr ((wpc_attempt _ _ _).mpr ?_)
          exact wpc_post (wpc_executeAccounts (hx _ rfl) hu) fun _ _ hc _ => ⟨hc, hc⟩
    · intro v u hc _
      refine wpc_post (wpc_of_only (fun op u r u' hop hu step => ?_) (conclude_settles v) hc)
        fun _ _ _ _ => trivial
      cases op with
      | ack m => exact hu.call rfl step.1 step.2
      | nack m backoffSec => exact hu.call rfl step.1 step.2
      | toDlq m reason => exact hu.call rfl step.1 step.2
      | _ => exact absurd hop id
  exact (wpc_sound exec hhandle).1

/-- A handling that took its message for a duplicate found a key of the message in the store. -/
theorem duplicate_found {h : Taken F} {store' : List String}
    (exec : Exec honestStore.traced (handle c h.msg now) (store, []) h.out (store', h.calls))
    (hdup : h.AsDuplicate) : ∃ key, OwnKey h.msg key ∧ key ∈ store := by
  refine (handle_accounts exec).found ?_
  rcases hdup with ⟨o, hout, ho⟩ | hhit
  · -- without a hit every look-up says no
    by_contra hnone
    have hcalls : ∀ e ∈ h.calls, isHit e = false := by
      intro e he
      by_contra hhit
      exact hnone ⟨e, he, by simpa using hhit⟩
    rw [hout] at exec
    have hyields : Proc.Yields (I := ConsumerI F)
        (fun op r => isHit (⟨op, r⟩ : Event (ConsumerI F) Exc) = false)
        (fun o => o.asDuplicate = true → False) (handle c h.msg now) :=
      handle_yields fun _ h => nomatch h
    exact exec_yields (exec_under exec hcalls) (fun _ _ _ _ step => step.2) hyields ho
  · exact hhit

/-- A handling of a run meets the store that the handlings before it left. -/
theorem HandleRun.handling {hs : List (Taken F)} (run : HandleRun hs store) :
    ∀ before h after, hs = before ++ h :: after → ∃ store₀ c now store₁, HandleRun before store₀ ∧
      Exec honestStore.traced (handle c h.msg now) (store₀, []) h.out (store₁, h.calls) := by
  induction run with
  | start =>
      intro before h after heq
      simp at heq
  | @message hs store store' c msg now out calls run exec ih =>
      intro before h after heq
      rcases List.eq_nil_or_concat after with rfl | ⟨rest, last, rfl⟩
      · obtain ⟨rfl, hlast⟩ := List.append_inj' heq rfl
        obtain rfl := List.singleton_inj.mp hlast
        exact ⟨store, c, now, store', run, exec⟩
      · rw [List.concat_eq_append, ← List.cons_append, ← List.append_assoc] at heq
        exact ih before h rest (List.append_inj' heq rfl).1

/-- Every key in the store is one of an order whose submit returned. -/
theorem HandleRun.spent {hs : List (Taken F)} (run : HandleRun hs store) :
    ∀ key ∈ store, ∃ e ∈ hs, Returned e.calls ∧ OwnKey e.msg key := by
  induction run with
  | start => simp
  | message run exec ih =>
      intro key hkey
      rcases (handle_accounts exec).spent key hkey with hold | ⟨hown, hreturned⟩
      · obtain ⟨e, he, hspent⟩ := ih key hold
        exact ⟨e, List.mem_append_left _ he, hspent⟩
      · exact ⟨_, List.mem_append_right _ (List.mem_singleton_self _), hreturned, hown⟩

/-- In a run on which no order collides with an earlier one of another identity, every message
that is acked or skipped as a duplicate is one. -/
theorem no_false_duplicates {hs : List (Taken F)} (run : HandleRun hs store)
    (hcollide : (ordersOf hs).Pairwise fun earlier order =>
      order.Collides earlier → order.SameIdentity earlier) : NoFalseDuplicates hs := by
  rintro before h after rfl hdup
  obtain ⟨store₀, c, now, store₁, hrun, exec⟩ := run.handling before h after rfl
  obtain ⟨key, ⟨order, horder, hkey⟩, hstored⟩ := duplicate_found exec hdup
  obtain ⟨e, he, hreturned, earlier, hearlier, hshared⟩ := hrun.spent key hstored
  refine ⟨order, horder, e, he, hreturned, earlier, hearlier, ?_⟩
  rcases ApprovedOrder.shared_key_iff.mp ⟨key, hkey, hshared⟩ with hsame | hcross
  · exact hsame
  · rw [ordersOf, List.filterMap_append, List.filterMap_cons, horder] at hcollide
    have hbefore := (List.pairwise_append.mp hcollide).2.2
    exact hbefore earlier (List.mem_filterMap.mpr ⟨e, he, hearlier⟩) order List.mem_cons_self hcross

/-- A buy with an idempotency key and a signal. -/
def signalled (key signal : String) : ReceivedMessage :=
  { plainBuy with body := .dict (((orderMessage "BUY" (.int 1000) .null).set "idempotency_key"
      (.str key)).set "signal_id" (.str signal)) }

/-- A message handled against the calm host on a store. -/
def taken (msg : ReceivedMessage) (store : List String) : Except Exc Outcome × Watched Unit :=
  (handle openConsumer msg Moment.first).run calm (store, [])

/-- Two messages handled one after the other. -/
def twoTaken (first second : ReceivedMessage) : List (Taken Unit) :=
  let w := taken first []
  let w' := taken second w.2.1
  [⟨first, some w.1, w.2.2⟩, ⟨second, some w'.1, w'.2.2⟩]

theorem twoTaken_run (first second : ReceivedMessage) :
    HandleRun (twoTaken first second) (taken second (taken first []).2.1).2.1 :=
  (HandleRun.start.message (exec_run calm_step (handle openConsumer first Moment.first)
    ([], []))).message (exec_run calm_step (handle openConsumer second Moment.first) (_, []))

/-- The second of two orders for one signal is a duplicate. -/
theorem no_false_duplicates_reminted :
    let hs := twoTaken (signalled "a" "7") (signalled "b" "7")
    (hs.map fun h => h.out.any fun r => r.toOption.any Outcome.asDuplicate) = [false, true] ∧
      NoFalseDuplicates hs :=
  ⟨by decide +kernel, no_false_duplicates (twoTaken_run _ _) (by decide +kernel)⟩

/-- Signal `7` is executed, then another order with the idempotency key `signal:7` is acked as its
duplicate. -/
theorem key_taken_for_signal :
    ∃ (hs : List (Taken Unit)) (store : List String), HandleRun hs store ∧
      ¬NoFalseDuplicates hs := by
  refine ⟨_, _, twoTaken_run (signalled "a" "7") (signalled "signal:7" "8"), fun h => ?_⟩
  have hdup : (taken (signalled "signal:7" "8") (taken (signalled "a" "7") []).2.1).1.toOption =
      some .duplicate := by decide +kernel
  have hother : ((orderOf (signalled "signal:7" "8")).bind fun order =>
      (orderOf (signalled "a" "7")).map fun earlier => decide (order.SameIdentity earlier)) =
      some false := by decide +kernel
  obtain ⟨order, horder, e, he, -, earlier, hearlier, hsame⟩ := h [_] _ [] rfl
    (Or.inl ⟨.duplicate, congrArg some (ConsumerService.eq_ok_of_toOption hdup), rfl⟩)
  rw [List.mem_singleton.mp he] at hearlier
  simp only [horder, hearlier, Option.bind_some, Option.map_some, Option.some.injEq,
    decide_eq_false_iff_not] at hother
  exact hother hsame

/-! ### The polls of the consumer are such runs -/

theorem exec_own {α : Type} {p : Proc (ConsumerI F) Exc α} {out : Option (Except Exc α)}
    (hp : p.Only fun op => isOwn op = true) (exec : Exec honestStore.traced p w out w') :
    w'.1 = w.1 := by
  have hkept : wpc honestStore.traced (fun u : Watched F => u.1 = w.1) p
      (fun _ u => u.1 = w.1) w := by
    refine wpc_of_only (fun op u r u' hown hu step => ?_) hp rfl
    exact (own_step step hown).2.trans hu
  exact (wpc_sound exec hkept).1

theorem HandleRun.batch {batch : List ReceivedMessage} {stats : Stats} {hs : List (Taken F)}
    {out : Option (Except Exc Stats)} (run : HandleRun hs w.1)
    (exec : Exec honestStore.traced (handleBatch c now batch stats) w out w') :
    ∃ hs', HandleRun (hs ++ hs') w'.1 := by
  induction batch generalizing stats hs w with
  | nil =>
      cases exec with
      | ret => exact ⟨[], (List.append_nil hs).symm ▸ run⟩
      | crash => exact ⟨[], (List.append_nil hs).symm ▸ run⟩
  | cons msg batch ih =>
      simp only [handleBatch, Proc.bind_eq] at exec
      rcases exec_bind exec with ⟨o, w₁, hfirst, htail⟩ | ⟨e, hfirst, -⟩ | ⟨hfirst, -⟩
      · obtain ⟨t, -, hagain⟩ := exec_retraced hfirst
        obtain ⟨hs', hrun⟩ := ih (run.message (hagain [])) htail
        rw [List.append_assoc] at hrun
        exact ⟨_, hrun⟩
      · obtain ⟨t, -, hagain⟩ := exec_retraced hfirst
        exact ⟨_, run.message (hagain [])⟩
      · obtain ⟨t, -, hagain⟩ := exec_retraced hfirst
        exact ⟨_, run.message (hagain [])⟩

/-- Every poll, complete or cut short, continues a run by the messages of its batch. -/
theorem HandleRun.poll {hs : List (Taken F)} {out : Option (Except Exc Stats)}
    (run : HandleRun hs w.1) (exec : Exec honestStore.traced (pollOnce c) w out w') :
    ∃ hs', HandleRun (hs ++ hs') w'.1 := by
  have hsame : w'.1 = w.1 → ∃ hs', HandleRun (hs ++ hs') w'.1 := fun h =>
    ⟨[], (List.append_nil hs).symm ▸ h ▸ run⟩
  have hbatch : ((perform (F := F) (.pull c.subscription c.prefetch)).attempt).Only
      fun op => isOwn op = true := by
    refine Proc.Along.attempt ?_
    exact Proc.along_perform rfl
  simp only [pollOnce, Proc.bind_eq] at exec
  rcases exec_bind exec with ⟨now, w₁, hclock, exec₁⟩ | ⟨e, hclock, -⟩ | ⟨hclock, -⟩
  · have h₁ := exec_own (Proc.along_perform rfl) hclock
    rcases exec_bind exec₁ with ⟨_, w₂, hset, exec₂⟩ | ⟨e, hset, -⟩ | ⟨hset, -⟩
    · have h₂ := (exec_own (Proc.along_perform rfl) hset).trans h₁
      rcases exec_bind exec₂ with ⟨batch, w₃, hpull, exec₃⟩ | ⟨e, hpull, -⟩ | ⟨hpull, -⟩
      · have h₃ := (exec_own hbatch hpull).trans h₂
        cases batch with
        | ok batch => exact HandleRun.batch (h₃ ▸ run) exec₃
        | error e =>
            cases exec₃ with
            | ret => exact hsame h₃
            | crash => exact hsame h₃
      · exact hsame ((exec_own hbatch hpull).trans h₂)
      · exact hsame ((exec_own hbatch hpull).trans h₂)
    · exact hsame ((exec_own (Proc.along_perform rfl) hset).trans h₁)
    · exact hsame ((exec_own (Proc.along_perform rfl) hset).trans h₁)
  · exact hsame (exec_own (Proc.along_perform rfl) hclock)
  · exact hsame (exec_own (Proc.along_perform rfl) hclock)

end Consumer

end System2
