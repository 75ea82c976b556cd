import System2.Broker.SubmitCalls

/-!
# At most one fill per idempotency key

The broker is an append-only log of transactions. A `create_order` call appends
nothing, or an order with its outcome, before it answers or raises. Other
activity on the account may append transactions at any time.

## Implementation notes

The log is only read through a window of its last entries. In `brokerWorld` a read returns
only while the fills of the order it is about are inside that window.
-/

namespace System2
open Foundation

namespace OandaAdapter

/-- Does the transaction carry this client order id? -/
def carries (cid : String) (txn : Dict) : Bool :=
  match transactionClientOrderId txn with
  | .ok (some id) => id == cid
  | _ => false

/-- A fill of the order with this client order id. -/
def isFillOf (cid : String) (txn : Dict) : Bool :=
  carries cid txn && transactionType txn == "ORDER_FILL"

/-- The number of fills in a log for an idempotency key. -/
def fills (key : String) (log : List Dict) : ℕ :=
  (log.filter (isFillOf (clientOrderId key))).length

/-- The client order id that a payload asks for. -/
def wireClientId (payload : PyVal) : PyVal :=
  let order := Dict.get payload.entries "order"
  Dict.get (Dict.get order.entries "clientExtensions").entries "id"

/-- An order transaction and its outcome, a fill or a cancel, both with the client id. -/
structure OrderWithOutcome (cid : String) (order outcome : Dict) : Prop where
  orderId : carries cid order = true
  orderType : transactionType order ≠ "ORDER_FILL"
  outcomeId : carries cid outcome = true
  outcomeType : transactionType outcome = "ORDER_FILL" ∨ transactionType outcome = "ORDER_CANCEL"

/-- What one `create_order` call appends: nothing, or the order with its outcome. -/
inductive Appended (payload : PyVal) : List Dict → Prop
  | nothing : Appended payload []
  | order {cid : String} {order outcome : Dict} (id : wireClientId payload = .str cid)
      (pair : OrderWithOutcome cid order outcome) : Appended payload [order, outcome]

/-- Transactions of other origin: they carry no client id of an order of ours. -/
def Foreign (txns : List Dict) : Prop :=
  ∀ txn ∈ txns, ∀ key, carries (clientOrderId key) txn = false

/-- The last entries of the log. -/
def window (count : ℕ) (log : List Dict) : List Dict := log.drop (log.length - count)

/-- No fill with this client id has left the window. -/
def InWindow (cid : String) (count : ℕ) (log : List Dict) : Prop :=
  ∀ txn ∈ log.take (log.length - count), isFillOf cid txn = false

/-- The broker. Every answer is free but that of the history, and every call may fail. -/
def openBroker : World BrokerI Exc (List Dict) := fun log op =>
  match op with
  | .createOrder payload => fun _ log' =>
      ∃ own foreign, Appended payload own ∧ Foreign foreign ∧ log' = log ++ own ++ foreign
  | .getRecentTransactions count => fun r log' =>
      (∀ txns, r = .ok txns → txns = window count log) ∧
        ∃ foreign, Foreign foreign ∧ log' = log ++ foreign
  | _ => fun _ log' => ∃ foreign, Foreign foreign ∧ log' = log ++ foreign

/-- A history is read that leaves out a fill with this client id. -/
def Hides (cid : String) (log : List Dict) (e : Event BrokerI Exc) : Prop :=
  ∃ count txns, e = ⟨.getRecentTransactions count, .ok txns⟩ ∧ ¬ InWindow cid count log

/-- The broker, as the submit of one client id meets it while no history leaves out a fill of
that order. -/
def brokerWorld (cid : String) : World BrokerI Exc (List Dict) := openBroker.avoiding (Hides cid)

/-! ### Counting fills -/

theorem fills_append (key : String) (log log' : List Dict) :
    fills key (log ++ log') = fills key log + fills key log' := by
  simp [fills]

theorem fills_eq_zero_iff (key : String) (log : List Dict) :
    fills key log = 0 ↔ ∀ txn ∈ log, isFillOf (clientOrderId key) txn = false := by
  simp [fills]

theorem fills_of_not_carried {key : String} {log : List Dict}
    (h : ∀ txn ∈ log, carries (clientOrderId key) txn = false) : fills key log = 0 := by
  rw [fills_eq_zero_iff]
  intro txn htxn
  simp [isFillOf, h txn htxn]

/-- A transaction carries at most one client order id. -/
theorem carries_unique {cid cid' : String} {txn : Dict} (h : carries cid txn = true)
    (h' : carries cid' txn = true) : cid = cid' := by
  unfold carries at h h'
  split at h
  · rename_i id hid
    rw [hid] at h'
    calc
      cid = id := (by simpa using h : id = cid).symm
      _ = cid' := by simpa using h'
  · cases h

/-- An order with its outcome is at most one fill of its own key, and none of another. -/
theorem fills_pair {cid : String} {order outcome : Dict}
    (pair : OrderWithOutcome cid order outcome) (key : String) :
    fills key [order, outcome] ≤ if cid = clientOrderId key then 1 else 0 := by
  have horder : isFillOf (clientOrderId key) order = false := by
    simp [isFillOf, pair.orderType]
  split_ifs with hkey
  · rw [fills, List.filter_cons_of_neg (by simp [horder])]
    exact List.length_filter_le _ _
  · have houtcome : isFillOf (clientOrderId key) outcome = false := by
      by_contra hfill
      have hcarries : carries (clientOrderId key) outcome = true := by
        simp only [isFillOf, Bool.not_eq_false, Bool.and_eq_true] at hfill
        exact hfill.1
      exact hkey (carries_unique pair.outcomeId hcarries)
    simp [fills, horder, houtcome]

/-! ### The verdict on the history -/

/-- The id of a readable transaction is the one it carries. -/
theorem carries_of_id {cid : String} {txn : Dict} {id : Option String}
    (h : transactionClientOrderId txn = .ok id) : carries cid txn = decide (id = some cid) := by
  unfold carries
  rw [h]
  cases id with
  | none => rfl
  | some id => by_cases hid : id = cid <;> simp [hid]

/-- A transaction of ours is the fill if it says so, and else leaves the fill alone. -/
theorem Sightings.note_fill (s : Sightings) (txn : Dict) :
    (s.note txn).fill = if transactionType txn = "ORDER_FILL" then some txn else s.fill := by
  simp only [Sightings.note]
  split_ifs
  · rfl
  · rfl
  · rfl

/-- The scan keeps the last fill of the order it looks for. -/
theorem scanTransactions_fill {cid : String} {txns : List Dict} {s s' : Sightings}
    (h : scanTransactions cid txns s = .ok s') :
    s'.fill = ((txns.filter (isFillOf cid)).getLast?).or s.fill := by
  induction txns generalizing s with
  | nil =>
      cases h
      rfl
  | cons txn rest ih =>
      unfold scanTransactions at h
      split at h
      · cases h
      · rename_i id hid
        rw [ih h]
        by_cases hfill : isFillOf cid txn = true
        · have hours : id = some cid ∧ transactionType txn = "ORDER_FILL" := by
            simpa [isFillOf, carries_of_id hid] using hfill
          rw [List.filter_cons_of_pos hfill, List.getLast?_cons, if_pos hours.1,
            Sightings.note_fill, if_pos hours.2]
          cases (rest.filter (isFillOf cid)).getLast? with
          | none => rfl
          | some last => rfl
        · rw [List.filter_cons_of_neg hfill]
          congr 1
          split_ifs with hours
          · have htype : transactionType txn ≠ "ORDER_FILL" := by
              simpa [isFillOf, carries_of_id hid, hours] using hfill
            rw [Sightings.note_fill, if_neg htype]
          · rfl

/-- The verdict is a fill exactly if the window has one, and then it is the last. -/
theorem priorSubmissionVerdict_filled_iff {cid : String} {txns : List Dict} {v : PriorVerdict}
    (h : priorSubmissionVerdict txns cid = .ok v) (txn : Dict) :
    v = .filled txn ↔ (txns.filter (isFillOf cid)).getLast? = some txn := by
  unfold priorSubmissionVerdict at h
  cases hscan : scanTransactions cid txns ⟨none, false, false⟩ with
  | error e =>
      rw [hscan] at h
      cases h
  | ok s =>
      have hv : v = s.verdict := by
        rw [hscan] at h
        exact (Except.ok.inj h).symm
      have hfill := scanTransactions_fill hscan
      rw [Option.or_none] at hfill
      rw [hv, ← hfill]
      cases hs : s.fill with
      | none =>
          simp only [Sightings.verdict, hs]
          split_ifs
          · simp
          · simp
          · simp
      | some last => simp [Sightings.verdict, hs]

/-- A verdict other than a fill rules out every fill among the transactions. -/
theorem priorSubmissionVerdict_no_fill {cid : String} {txns : List Dict} {v : PriorVerdict}
    (h : priorSubmissionVerdict txns cid = .ok v) (hv : ∀ txn, v ≠ .filled txn) :
    ∀ txn ∈ txns, isFillOf cid txn = false := by
  have hlast : (txns.filter (isFillOf cid)).getLast? = none := by
    rw [Option.eq_none_iff_forall_ne_some]
    exact fun txn htxn => hv txn ((priorSubmissionVerdict_filled_iff h txn).mpr htxn)
  intro txn htxn
  have hnil := List.getLast?_eq_none_iff.mp hlast
  simpa using List.filter_eq_nil_iff.mp hnil txn htxn

/-! ### One submit -/

/-- The key has at most one fill. -/
def AtMostOneFill (key : String) (log : List Dict) : Prop := fills key log ≤ 1

theorem Foreign.fills {foreign : List Dict} (hf : Foreign foreign) (key : String) :
    fills key foreign = 0 :=
  fills_of_not_carried fun txn htxn => hf txn htxn key

theorem AtMostOneFill.foreign {key : String} {log foreign : List Dict} (h : AtMostOneFill key log)
    (hf : Foreign foreign) : AtMostOneFill key (log ++ foreign) := by
  rw [AtMostOneFill, fills_append, hf.fills]
  exact h

/-- What an order of a key appends is at most one fill of it, and none of another key. -/
theorem Appended.fills_le {own : List Dict} {payload : PyVal} {key : String}
    (hown : Appended payload own) (hid : wireClientId payload = .str (clientOrderId key))
    (key' : String) : fills key' own ≤ if key' = key then 1 else 0 := by
  cases hown with
  | nothing => exact Nat.zero_le _
  | @order cid order outcome id pair =>
      have hcid : cid = clientOrderId key := by
        rw [hid] at id
        exact (PyVal.str.inj id).symm
      refine (fills_pair pair key').trans (le_of_eq (if_congr ?_ rfl rfl))
      rw [hcid]
      exact ⟨fun heq => (clientOrderId_injective heq).symm, fun heq => heq ▸ rfl⟩

/-- Every other call leaves at most some foreign transactions behind. -/
theorem openBroker_foreign {log log' : List Dict} {op : BrokerCall} {r : Except Exc op.Ans}
    (hop : NotCreate op) (step : openBroker log op r log') :
    ∃ foreign, Foreign foreign ∧ log' = log ++ foreign := by
  cases op with
  | createOrder payload => exact absurd rfl (hop payload)
  | getRecentTransactions count => exact step.2
  | _ => exact step

/-- A procedure without `create_order` keeps a key at one fill. -/
theorem wpc_notCreate {α : Type} {cid key : String} {p : Proc BrokerI Exc α}
    (hp : p.Only NotCreate) {log : List Dict} (h : AtMostOneFill key log) :
    wpc (brokerWorld cid) (AtMostOneFill key) p (fun _ log' => AtMostOneFill key log') log := by
  refine wpc_of_only ?_ hp h
  intro op log r log' hop hlog step
  obtain ⟨foreign, hforeign, rfl⟩ := openBroker_foreign hop step.1
  exact hlog.foreign hforeign

/-- An order that is sent asks for one client id. -/
def Sends (cid : String) (op : BrokerCall) : Prop :=
  ∀ payload, op = .createOrder payload → wireClientId payload = .str cid

theorem sends_of_notCreate {cid : String} {op : BrokerCall} (h : NotCreate op) : Sends cid op :=
  fun payload hop => absurd hop (h payload)

/-- A submit sends orders of its own client id only. -/
theorem only_submit_sends {a : OandaAdapter} {order : ConstructedOrder}
    {expectedPrice : Option Binary64} {modelSetId : Option String} :
    (submit a order expectedPrice modelSetId).Only (Sends (clientOrderId order.idempotencyKey)) := by
  have hother : Submits (Sends (clientOrderId order.idempotencyKey)) order :=
    (notCreate_submits order).mono fun _ => sends_of_notCreate
  refine along_submit (D := fun _ => True) hother
    ((only_displayPrecision a order.instrument).mono fun _ h =>
      sends_of_notCreate (notCreate_of_aboutSpec h)) (Proc.yields_true _) ?_ _ _
  intro decimals payload _ hpayload payload' hsent
  obtain ⟨units, sl, tp, -, rfl⟩ := payloadAt_ok hpayload
  rw [← BrokerCall.createOrder.inj hsent]
  rfl

/-- A submit adds no fill of another key, whatever the histories leave out. -/
theorem wpc_submit_others {a : OandaAdapter} {order : ConstructedOrder}
    {expectedPrice : Option Binary64} {modelSetId : Option String} {n : String → ℕ}
    {log : List Dict} (h : ∀ k, k ≠ order.idempotencyKey → fills k log = n k) :
    wpc openBroker (fun log' => ∀ k, k ≠ order.idempotencyKey → fills k log' = n k)
      (submit a order expectedPrice modelSetId)
      (fun _ log' => ∀ k, k ≠ order.idempotencyKey → fills k log' = n k) log := by
  refine wpc_of_only ?_ only_submit_sends h
  intro op log r log' hop hlog step k hk
  by_cases hcreate : NotCreate op
  · obtain ⟨foreign, hforeign, rfl⟩ := openBroker_foreign hcreate step
    rw [fills_append, hforeign.fills, hlog k hk, Nat.add_zero]
  · cases op with
    | createOrder payload =>
        obtain ⟨own, foreign, hown, hforeign, rfl⟩ := step
        have hnone : fills k own = 0 :=
          Nat.le_zero.mp ((hown.fills_le (hop payload rfl) k).trans_eq (if_neg hk))
        rw [fills_append, fills_append, hforeign.fills, hnone, hlog k hk]
        rfl
    | _ => exact absurd (fun _ h => by cases h) hcreate

/-- A window without a fill, with none outside it, is a log without one. -/
theorem fills_of_window {key : String} {count : ℕ} {log : List Dict}
    (hin : InWindow (clientOrderId key) count log)
    (hwindow : ∀ txn ∈ window count log, isFillOf (clientOrderId key) txn = false) :
    fills key log = 0 := by
  calc
    fills key log = fills key (log.take (log.length - count)) + fills key (window count log) := by
      rw [window, ← fills_append, List.take_append_drop]
    _ = 0 := by
      rw [(fills_eq_zero_iff key _).mpr hin, (fills_eq_zero_iff key _).mpr hwindow]

/-- "Not at the broker, and verified" means that the log has no fill of the order. -/
theorem wpc_priorSubmission {a : OandaAdapter} (hcap : a.hasRecentTransactions = true)
    {order : ConstructedOrder} {expected : Binary64} {modelSetId : Option String}
    {Q : Except Exc (Option FillResult × Bool) → List Dict → Prop} {log : List Dict}
    (h : AtMostOneFill order.idempotencyKey log)
    (hQ : ∀ r log', AtMostOneFill order.idempotencyKey log' →
      (r = .ok (none, true) → fills order.idempotencyKey log' = 0) → Q r log') :
    wpc (brokerWorld (clientOrderId order.idempotencyKey)) (AtMostOneFill order.idempotencyKey)
      (priorSubmission a (clientOrderId order.idempotencyKey) order expected modelSetId) Q log := by
  unfold priorSubmission
  simp only [hcap, Bool.not_true, Bool.false_eq_true, if_false, Proc.bind_eq, wpc_bind,
    wpc_attempt]
  apply wpc_of_perform h
  rintro r log' ⟨⟨hanswer, foreign, hforeign, rfl⟩, hshown⟩
  have h' := h.foreign hforeign
  refine ⟨h', ?_⟩
  cases r with
  | error e => exact ⟨h', hQ _ _ h' (by simp)⟩
  | ok txns =>
      have htxns := hanswer txns rfl
      have hin : InWindow (clientOrderId order.idempotencyKey) reconcileTransactionWindow log := by
        by_contra hout
        exact hshown ⟨_, txns, rfl, hout⟩
      simp only [wpc_bind]
      cases hverdict : priorSubmissionVerdict txns (clientOrderId order.idempotencyKey) with
      | error e => exact ⟨h', hQ _ _ h' (by simp)⟩
      | ok v =>
          have hnone : (∀ txn, v ≠ .filled txn) →
              fills order.idempotencyKey (log ++ foreign) = 0 := by
            intro hv
            have hwindow := priorSubmissionVerdict_no_fill hverdict hv
            rw [htxns] at hwindow
            rw [fills_append, fills_of_window hin hwindow, hforeign.fills]
          refine ⟨h', ?_⟩
          cases v with
          | filled txn =>
              simp only [wpc_bind]
              apply wpc_post (wpc_notCreate ((along_buildFillResult (aboutStops_confirms order) a _ expected modelSetId).mono
                fun _ => notCreate_of_aboutStops) h')
              intro r log'' _ h''
              cases r with
              | error e => exact hQ _ _ h'' (by simp)
              | ok result => exact ⟨h'', hQ _ _ h'' (by simp)⟩
          | pending => exact ⟨h', hQ _ _ h' (by simp)⟩
          | unfilled => exact ⟨h', hQ _ _ h' fun _ => hnone (by simp)⟩
          | absent => exact ⟨h', hQ _ _ h' fun _ => hnone (by simp)⟩

/-- From a log without a fill of the order, however many attempts follow. -/
theorem wpc_attempts {a : OandaAdapter} (hcap : a.hasRecentTransactions = true) {s : Submission}
    (hid : wireClientId s.payload = .str (clientOrderId s.order.idempotencyKey))
    (remaining : ℕ) (attempt : ℤ) {log : List Dict}
    (hclear : fills s.order.idempotencyKey log = 0) :
    wpc (brokerWorld s.cid) (AtMostOneFill s.order.idempotencyKey) (attempts a s remaining attempt)
      (fun _ log' => AtMostOneFill s.order.idempotencyKey log') log := by
  have hzero : ∀ {log}, fills s.order.idempotencyKey log = 0 →
      AtMostOneFill s.order.idempotencyKey log := fun h => h.le.trans (Nat.zero_le 1)
  induction remaining generalizing attempt log with
  | zero => exact ⟨hzero hclear, hzero hclear⟩
  | succ remaining ih =>
      simp only [attempts, Proc.bind_eq, wpc_bind, wpc_attempt]
      apply wpc_of_perform (hzero hclear)
      rintro r log' ⟨⟨own, foreign, hown, hforeign, rfl⟩, -⟩
      have happended : AtMostOneFill s.order.idempotencyKey (log ++ own) := by
        rw [AtMostOneFill, fills_append, hclear, Nat.zero_add]
        exact (hown.fills_le hid _).trans_eq (if_pos rfl)
      have h' := happended.foreign hforeign
      refine ⟨h', ?_⟩
      cases r with
      | ok resp =>
          exact wpc_notCreate ((along_buildFillResult (aboutStops_confirms s.order) a _ _ _).mono
            fun _ => notCreate_of_aboutStops) h'
      | error e =>
          dsimp only
          split_ifs
          · exact ⟨h', h'⟩
          · simp only [afterTransient, Proc.bind_eq, wpc_bind]
            apply wpc_priorSubmission hcap h'
            intro r log'' h'' hverified
            cases r with
            | error e => exact h''
            | ok prior =>
                obtain ⟨reconciled, verified⟩ := prior
                cases reconciled with
                | some result => exact ⟨h'', h''⟩
                | none =>
                    cases verified with
                    | false => exact ⟨h'', h''⟩
                    | true =>
                        dsimp only
                        simp only [Bool.not_true, Bool.false_eq_true, if_false]
                        split_ifs
                        · exact ⟨h'', h''⟩
                        · simp only [wpc_bind]
                          apply wpc_of_perform h''
                          rintro r log₃ ⟨⟨foreign₃, hforeign₃, rfl⟩, -⟩
                          have h₃ := h''.foreign hforeign₃
                          refine ⟨h₃, ?_⟩
                          cases r with
                          | error e => exact h₃
                          | ok _ =>
                              apply ih
                              rw [fills_append, hverified rfl,
                                hforeign₃.fills]
          · exact ⟨h', h'⟩

/-- One submit, complete or cut short, keeps its key at one fill. -/
theorem wpc_submit {a : OandaAdapter} (hcap : a.hasRecentTransactions = true)
    {order : ConstructedOrder} {expectedPrice : Option Binary64} {modelSetId : Option String}
    {log : List Dict} (h : AtMostOneFill order.idempotencyKey log) :
    wpc (brokerWorld (clientOrderId order.idempotencyKey)) (AtMostOneFill order.idempotencyKey)
      (submit a order expectedPrice modelSetId)
      (fun _ log' => AtMostOneFill order.idempotencyKey log') log := by
  simp only [submit, buildPayload, Proc.bind_eq, wpc_bind]
  apply wpc_post (wpc_notCreate ((only_displayPrecision a order.instrument).mono
    fun _ => notCreate_of_aboutSpec) h)
  intro r log₁ _ h₁
  cases r with
  | error e => exact h₁
  | ok decimals =>
      simp only [wpc_ofExcept]
      refine ⟨h₁, ?_⟩
      cases hpayload : payloadAt order decimals with
      | error e => exact h₁
      | ok payload =>
          obtain ⟨units, sl, tp, -, rfl⟩ := payloadAt_ok hpayload
          apply wpc_priorSubmission hcap h₁
          intro r log₂ h₂ hverified
          cases r with
          | error e => exact h₂
          | ok prior =>
              obtain ⟨reconciled, verified⟩ := prior
              cases reconciled with
              | some result => exact ⟨h₂, h₂⟩
              | none =>
                  cases verified with
                  | false => exact ⟨h₂, h₂⟩
                  | true =>
                      exact wpc_attempts (s := ⟨order, expectedPrice.getD order.entryPrice,
                        modelSetId, wireOrder order units sl tp⟩) hcap rfl _ _ (hverified rfl)

/-! ### Runs -/

/-- Submits one after another on one log: any adapter that can read the history, any
order, any end (`none` is the death of the process), and other activity in between. -/
inductive BrokerRun : List Dict → List Dict → Prop
  | nil {log : List Dict} : BrokerRun log log
  | submit {a : OandaAdapter} {order : ConstructedOrder} {expectedPrice : Option Binary64}
      {modelSetId : Option String} {out : Option (Except Exc FillResult)}
      {log log' log'' : List Dict} (cap : a.hasRecentTransactions = true)
      (exec : Exec (brokerWorld (clientOrderId order.idempotencyKey))
        (submit a order expectedPrice modelSetId) log out log')
      (tail : BrokerRun log' log'') : BrokerRun log log''
  | other {log foreign log' : List Dict} (origin : Foreign foreign)
      (tail : BrokerRun (log ++ foreign) log') : BrokerRun log log'

theorem BrokerRun.atMostOneFill {key : String} {log log' : List Dict} (run : BrokerRun log log')
    (h : AtMostOneFill key log) : AtMostOneFill key log' := by
  induction run with
  | nil => exact h
  | @submit a order _ _ _ log₁ log₂ _ cap exec _ ih =>
      by_cases hkey : key = order.idempotencyKey
      · subst hkey
        exact ih (wpc_sound exec (wpc_submit cap h)).1
      · have hsame := (wpc_sound exec (wpc_of_avoiding (wpc_submit_others fun _ _ => rfl))).1 key hkey
        exact ih (hsame.le.trans h)
  | other origin _ ih => exact ih (h.foreign origin)

/-- However often and with whatever ends `submit` is called, the log never holds two
fills for one idempotency key. -/
theorem at_most_one_fill_per_key {log : List Dict} (run : BrokerRun [] log) (key : String) :
    fills key log ≤ 1 :=
  run.atMostOneFill (Nat.zero_le 1)

/-- The transactions of an order that is filled at once. -/
def marketOrder : Dict :=
  [("type", .str "MARKET_ORDER"), ("clientExtensions", .dict [("id", .str "sb-k")])]

def orderFill : Dict :=
  [("type", .str "ORDER_FILL"), ("clientOrderID", .str "sb-k"), ("price", .str "1.1")]

/-- A broker that fills every order of one key and loses the reply. -/
def lossyBroker (op : BrokerCall) (log : List Dict) : Except Exc op.Ans × List Dict :=
  match op with
  | .createOrder payload =>
      match wireClientId payload with
      | .str cid =>
          if cid = "sb-k" then
            (.error ⟨.transientBrokerError, []⟩, log ++ [marketOrder, orderFill])
          else (.error ⟨.brokerError, []⟩, log)
      | _ => (.error ⟨.brokerError, []⟩, log)
  | .getRecentTransactions count =>
      if log.length ≤ count then (.ok log, log) else (.error ⟨.brokerError, []⟩, log)
  | .getOpenTrades => (.ok [], log)
  | .getTrade _ => (.ok none, log)
  | .modifyTradeStop _ _ _ => (.ok [], log)
  | .getAccountInstruments _ => (.ok [], log)
  | .sleep _ => (.ok (), log)
  | .cachedSpec _ => (.ok none, log)
  | .cacheSpec _ _ => (.ok (), log)

theorem orderWithOutcome_lossy : OrderWithOutcome "sb-k" marketOrder orderFill where
  orderId := by decide +kernel
  orderType := by decide +kernel
  outcomeId := by decide +kernel
  outcomeType := .inl (by decide +kernel)

/-- A log that is no longer than the window is shown as a whole. -/
theorem not_hides {cid : String} {log : List Dict} {op : BrokerCall} {r : Except Exc op.Ans}
    (h : ∀ count, op = .getRecentTransactions count → r.isOk = true → log.length ≤ count) :
    ¬ Hides cid log ⟨op, r⟩ := by
  rintro ⟨count, txns, he, hout⟩
  obtain ⟨rfl, hr⟩ := Sigma.mk.inj he
  obtain rfl := eq_of_heq hr
  exact hout (by simp [InWindow, Nat.sub_eq_zero_of_le (h count rfl rfl)])

theorem lossyBroker_open (op : BrokerCall) (log : List Dict) :
    openBroker log op (lossyBroker op log).1 (lossyBroker op log).2 := by
  have quiet : ∃ foreign, Foreign foreign ∧ log = log ++ foreign :=
    ⟨[], by simp [Foreign], by simp⟩
  cases op with
  | createOrder payload =>
      have nothing : ∃ own foreign, Appended payload own ∧ Foreign foreign ∧
          log = log ++ own ++ foreign := ⟨[], [], .nothing, by simp [Foreign], by simp⟩
      simp only [openBroker, lossyBroker]
      split
      · rename_i cid' hid
        split_ifs with hours
        · rw [hours] at hid
          exact ⟨_, [], .order hid orderWithOutcome_lossy, by simp [Foreign], by simp⟩
        · exact nothing
      · exact nothing
  | getRecentTransactions count =>
      simp only [openBroker, lossyBroker]
      split_ifs with hcount
      · refine ⟨?_, quiet⟩
        intro txns htxns
        cases htxns
        simp [window, Nat.sub_eq_zero_of_le hcount]
      · exact ⟨by simp, quiet⟩
  | _ => exact quiet

theorem lossyBroker_step (cid : String) (op : BrokerCall) (log : List Dict) :
    brokerWorld cid log op (lossyBroker op log).1 (lossyBroker op log).2 := by
  refine ⟨lossyBroker_open op log, not_hides ?_⟩
  rintro count rfl hok
  simp only [lossyBroker] at hok
  split_ifs at hok with hcount
  · exact hcount
  · cases hok

/-- An order for the adapter. -/
def plainOrder : ConstructedOrder where
  idempotencyKey := "k"
  correlationId := "corr"
  instrument := "EUR_USD"
  side := "BUY"
  units := .ofRat 1000
  entryPrice := .ofRat (11 / 10)
  stopLoss := .ofRat (109 / 100)
  takeProfit := .ofRat (113 / 100)
  atrValue := .ofRat (1 / 100)
  rrRatio := .ofRat 2

/-- The log after one more submit of the same order. -/
def lossySubmit (log : List Dict) : List Dict :=
  ((submit patientAdapter plainOrder none none).run lossyBroker log).2

theorem at_most_one_fill_per_key_lossy :
    0 < fills "k" (lossySubmit []) ∧ fills "k" (lossySubmit (lossySubmit [])) ≤ 1 :=
  ⟨by decide +kernel,
    at_most_one_fill_per_key
      (.submit rfl (exec_run (lossyBroker_step _) _ _)
        (.submit rfl (exec_run (lossyBroker_step _) _ _) .nil)) "k"⟩

end OandaAdapter

end System2
