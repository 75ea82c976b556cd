import System2.Execution.CloseTracker

/-!
# Close events and their contract

System 3 puts an event aside that has a field it does not know, lacks one it needs, or has a
value that the field does not allow. Every close that the broker tells of in whole units makes an
event that it takes.
-/

namespace System2
open Foundation

/-! ### The contract -/

/-- The fields that an event may have. -/
def fillEventFields : List String :=
  ["schema_version", "broker_order_id", "order_request_id", "status", "signal_id", "direction",
    "event_time", "realized_pnl", "exit_reason", "pair", "units", "fill_price", "fill_time",
    "slippage_pips"]

/-- The fields that it must have. -/
def fillEventRequired : List String :=
  ["schema_version", "broker_order_id", "order_request_id", "status", "event_time"]

/-- `AAA_BBB`, in capitals, and nothing behind it. -/
def IsPairText (s : String) : Prop :=
  ∃ a b c d e f : Char, s.toList = [a, b, c, '_', d, e, f] ∧
    ∀ x ∈ [a, b, c, d, e, f], 'A'.toNat ≤ x.toNat ∧ x.toNat ≤ 'Z'.toNat

/-- An event of a close of this direction that the contract allows. -/
structure FillEventValid (direction : ℤ) (event : Dict) : Prop where
  distinct : (event.map Prod.fst).Nodup
  known : ∀ key ∈ event.map Prod.fst, key ∈ fillEventFields
  required : ∀ key ∈ fillEventRequired, key ∈ event.map Prod.fst
  version : event.get "schema_version" = .str "1"
  status : event.get "status" = .str "closed"
  signal : ∃ id, event.get "signal_id" = .str id ∧ id ≠ ""
  request : ∃ id, event.get "order_request_id" = .str id ∧ id ≠ ""
  exitReason : ∃ reason ∈ validExitReasons, event.get "exit_reason" = .str reason
  side : event.get "direction" = .str (if direction = 1 then "long" else "short")
  pair : ∀ v, Dict.get? event "pair" = some v → ∃ s, v = .str s ∧ IsPairText s
  units : ∀ v, Dict.get? event "units" = some v →
    ∃ n : ℤ, v = .int n ∧ n ≠ 0 ∧ n.sign = direction.sign
  price : ∀ v, Dict.get? event "fill_price" = some v →
    ∃ x, v = .float x ∧ Binary64.zero.lt x = true

/-! ### The broker's answers -/

/-- An answer of the broker about a close, in the shape that its reader takes. -/
inductive CloseAnswer
  | reply (resp : PyVal)
  | details (trade : Dict)
  | transaction (txn closed : Dict) (instrument : String) (txnById : Dict)

namespace CloseAnswer

/-- What its reader makes of an answer. -/
def facts : CloseAnswer → Except PyErr (Option CloseFacts)
  | reply resp => factsFromCloseResponse resp
  | details trade => factsFromTradeDetails trade
  | transaction txn closed instrument txnById =>
      factsFromTransaction txn closed instrument txnById

/-- The unit count of an answer. -/
def unitCount : CloseAnswer → PyVal
  | reply resp =>
      let txn := (resp.entries.get "orderFillTransaction").entries
      let closed := ((firstClosed (txn.get "tradesClosed")).toOption.getD .null).entries
      closed.getOr "units" (txn.get "units")
  | details trade => trade.get "initialUnits"
  | transaction txn closed _ _ => closed.getOr "units" (txn.get "units")

/-- The unit count is a whole number, and finite as a float. -/
def WholeUnits (answer : CloseAnswer) : Prop :=
  ∀ x, answer.unitCount.toFloat = .ok x →
    x.isFinite = true ∧ ∃ n : ℤ, answer.unitCount.rational? = some (n : ℚ)

end CloseAnswer

/-- A look-up in an object that may be missing is one in the entries of the value. -/
theorem get_of_orEmptyGet {v a : PyVal} {key : String} (h : v.orEmptyGet key = .ok a) :
    a = v.entries.get key := by
  unfold PyVal.orEmptyGet at h
  cases htruthy : v.truthy with
  | true =>
      rw [htruthy, if_pos rfl] at h
      cases v with
      | dict kvs => exact (Except.ok.inj h).symm
      | _ => exact nomatch h
  | false =>
      rw [htruthy, if_neg Bool.false_ne_true] at h
      rw [PyVal.entries_of_not_truthy htruthy]
      exact (Except.ok.inj h).symm

theorem getOr_of_getAttrOr {v a dflt : PyVal} {key : String} (h : v.getAttrOr key dflt = .ok a) :
    a = v.entries.getOr key dflt := by
  cases v with
  | dict kvs => exact (Except.ok.inj h).symm
  | _ => exact nomatch h

namespace CloseAnswer

variable {facts : CloseFacts}

theorem units_of_reply {resp : PyVal} (h : factsFromCloseResponse resp = .ok (some facts)) :
    ∃ units, (reply resp).unitCount.floatIf = .ok units ∧
      facts.units = units.map Binary64.abs := by
  unfold factsFromCloseResponse at h
  obtain ⟨txn, htxn, h⟩ := exists_of_bind h
  obtain ⟨txnId, -, h⟩ := exists_of_bind h
  split_ifs at h
  · exact nomatch Except.ok.inj h
  · obtain ⟨closed, hclosed, h⟩ := exists_of_bind h
    obtain ⟨realized, -, h⟩ := exists_of_bind h
    obtain ⟨count, hcount, h⟩ := exists_of_bind h
    obtain ⟨realizedPnl, -, h⟩ := exists_of_bind h
    obtain ⟨closePrice, -, h⟩ := exists_of_bind h
    obtain ⟨units, hunits, h⟩ := exists_of_bind h
    obtain rfl := Option.some.inj (Except.ok.inj h)
    refine ⟨units, ?_, rfl⟩
    obtain rfl := get_of_orEmptyGet htxn
    obtain rfl := getOr_of_getAttrOr hcount
    simp only [unitCount, hclosed]
    exact hunits

theorem units_of_details {trade : Dict} (h : factsFromTradeDetails trade = .ok (some facts)) :
    ∃ units, (details trade).unitCount.floatIf = .ok units ∧
      facts.units = units.map Binary64.abs := by
  unfold factsFromTradeDetails at h
  split_ifs at h
  · exact nomatch Except.ok.inj h
  · obtain ⟨closePrice, -, h⟩ := exists_of_bind h
    obtain ⟨closeTxnId, -, h⟩ := exists_of_bind h
    obtain ⟨realizedPnl, -, h⟩ := exists_of_bind h
    obtain ⟨units, hunits, h⟩ := exists_of_bind h
    obtain ⟨slippagePips, -, h⟩ := exists_of_bind h
    obtain rfl := Option.some.inj (Except.ok.inj h)
    exact ⟨units, hunits, rfl⟩

theorem units_of_transaction {txn closed txnById : Dict} {instrument : String}
    (h : factsFromTransaction txn closed instrument txnById = .ok (some facts)) :
    ∃ units, (transaction txn closed instrument txnById).unitCount.floatIf = .ok units ∧
      facts.units = units.map Binary64.abs := by
  unfold factsFromTransaction at h
  by_cases hid : (!(txn.get "id").truthy) = true
  · rw [if_pos hid] at h
    exact nomatch Except.ok.inj h
  · rw [if_neg hid] at h
    obtain ⟨closePrice, -, h⟩ := exists_of_bind h
    obtain ⟨realizedPnl, -, h⟩ := exists_of_bind h
    obtain ⟨units, hunits, h⟩ := exists_of_bind h
    obtain ⟨slippagePips, -, h⟩ := exists_of_bind h
    obtain rfl := Option.some.inj (Except.ok.inj h)
    exact ⟨units, hunits, rfl⟩

/-- Whole units of an answer are a whole number, and not negative, in the facts. -/
theorem units_whole {answer : CloseAnswer} (h : answer.facts = .ok (some facts))
    (hwhole : answer.WholeUnits) : ∀ x, facts.units = some x →
      ∃ (k : ℕ) (valid : nearest (k : ℤ) = (k : ℤ) ∧ |((k : ℤ) : ℚ)| < overflowBound),
        x = .fin (k : ℤ) valid := by
  have hunits : ∃ units, answer.unitCount.floatIf = .ok units ∧
      facts.units = units.map Binary64.abs := by
    cases answer with
    | reply resp => exact units_of_reply h
    | details trade => exact units_of_details h
    | transaction txn closed instrument txnById => exact units_of_transaction h
  obtain ⟨units, hread, hfacts⟩ := hunits
  intro x hx
  rw [hfacts] at hx
  obtain ⟨y, rfl, rfl⟩ := Option.map_eq_some_iff.mp hx
  unfold PyVal.floatIf at hread
  split_ifs at hread
  · have htold : answer.unitCount.toFloat = .ok y := by
      cases htold : answer.unitCount.toFloat with
      | error e =>
          rw [htold] at hread
          exact nomatch hread
      | ok z =>
          rw [htold] at hread
          exact congrArg Except.ok (Option.some.inj (Except.ok.inj hread))
    obtain ⟨hfin, n, hn⟩ := hwhole y htold
    obtain ⟨k, valid, rfl⟩ := PyVal.toFloat_whole htold hfin hn
    obtain ⟨valid', habs⟩ := Binary64.abs_fin _ valid
    have hcast : |(k : ℚ)| = ((k.natAbs : ℤ) : ℚ) := by rw [← Int.cast_abs, Int.abs_eq_natAbs]
    rw [habs]
    simp only [hcast] at valid' ⊢
    exact ⟨k.natAbs, valid', rfl⟩
  · exact nomatch Except.ok.inj hread

end CloseAnswer

/-! ### The event -/

section Fields

variable {α : Type} {key name : String}

theorem get?_given {b : Bool} {v : PyVal} :
    Dict.get? (if b then [(name, v)] else []) key = if b ∧ name = key then some v else none := by
  cases b with
  | true => by_cases hname : name = key <;> simp [Dict.get?, hname]
  | false => rfl

theorem get?_option {o : Option α} {f : α → PyVal} :
    Dict.get? (o.toList.map fun a => (name, f a)) key = if name = key then o.map f else none := by
  cases o with
  | some a => by_cases hname : name = key <;> simp [Dict.get?, hname]
  | none => simp [Dict.get?]

theorem keys_given {b : Bool} {v : PyVal} :
    ((if b then [(name, v)] else []).map Prod.fst).Sublist [name] := by
  cases b with
  | true => exact List.Sublist.refl _
  | false => exact List.nil_sublist _

theorem keys_option {o : Option α} {f : α → PyVal} :
    ((o.toList.map fun a => (name, f a)).map Prod.fst).Sublist [name] := by
  cases o with
  | some a => exact List.Sublist.refl _
  | none => exact List.nil_sublist _

/-- The fields of an event that has the first nine and some of the others. -/
theorem keys_event {α β γ : Type} {base : Dict} {isPair timed : Bool} {pair time : PyVal}
    {units : Option α} {price : Option β} {pips : Option γ} {f : α → PyVal} {g : β → PyVal}
    {h : γ → PyVal} (hbase : base.map Prod.fst = fillEventFields.take 9) :
    ((base ++ (if isPair then [("pair", pair)] else []) ++
      (units.toList.map fun n => ("units", f n)) ++
      (price.toList.map fun x => ("fill_price", g x)) ++
      (if timed then [("fill_time", time)] else []) ++
      (pips.toList.map fun x => ("slippage_pips", h x))).map Prod.fst).Sublist fillEventFields := by
  simp only [List.map_append, hbase]
  have hnine : fillEventFields = fillEventFields.take 9 ++ ["pair"] ++ ["units"] ++
      ["fill_price"] ++ ["fill_time"] ++ ["slippage_pips"] := rfl
  rw [hnine]
  exact (((((List.Sublist.refl _).append keys_given).append keys_option).append keys_option).append
    keys_given).append keys_option

end Fields

theorem isPairText_of_isPair {s : String} (h : isPair s = true) (hline : '\n' ∉ s.toList) :
    IsPairText s := by
  unfold isPair at h
  split at h
  · rename_i a b c d e f rest hchars
    rw [Bool.and_eq_true, List.all_eq_true] at h
    obtain ⟨hupper, hrest⟩ := h
    have hnil : rest = [] := by
      rcases Bool.or_eq_true _ _ |>.mp hrest with hnil | hbreak
      · exact eq_of_beq hnil
      · rw [eq_of_beq hbreak] at hchars
        rw [hchars] at hline
        simp at hline
    refine ⟨a, b, c, d, e, f, by rw [hchars, hnil], ?_⟩
    intro x hx
    simpa using hupper x hx
  · exact nomatch h

/-- The units of the event, when those of the facts are whole and not negative. -/
theorem eventUnits_whole {t : ManagedTrade} {units : Option Binary64}
    (hwhole : ∀ x, units = some x →
      ∃ (k : ℕ) (valid : nearest (k : ℤ) = (k : ℤ) ∧ |((k : ℤ) : ℚ)| < overflowBound),
        x = .fin (k : ℤ) valid) :
    ∃ n, eventUnits t units = .ok n ∧
      ∀ m, n = some m → m ≠ 0 ∧ m.sign = t.direction.sign := by
  cases units with
  | none => exact ⟨none, rfl, fun _ hm => nomatch hm⟩
  | some x =>
      obtain ⟨k, valid, rfl⟩ := hwhole x rfl
      by_cases hzero : k = 0
      · refine ⟨none, ?_, fun _ hm => nomatch hm⟩
        subst hzero
        rfl
      · have hk : (0 : ℤ) < k := by omega
        have hne : (Binary64.fin (k : ℤ) valid).eq .zero = false := by
          simp [Binary64.zero, hzero]
        refine ⟨some (k * t.direction), ?_, ?_⟩
        · rw [eventUnits, hne, if_neg Bool.false_ne_true]
          change Except.ok (some (roundHalfEven ((k : ℤ) : ℚ) * t.direction)) = _
          rw [roundHalfEven_int]
        · intro m hm
          obtain rfl := Option.some.inj hm
          have hdirection : t.direction ≠ 0 := by
            unfold ManagedTrade.direction
            split_ifs <;> decide
          refine ⟨mul_ne_zero hk.ne' hdirection, ?_⟩
          rw [Int.sign_mul, Int.sign_eq_one_of_pos hk, one_mul]

/-- A close that the broker tells of in whole units makes an event that the contract allows, for a
trade whose instrument has no line break, any exit reason and any time. -/
theorem buildCloseEvent_valid {t : ManagedTrade} {answer : CloseAnswer} {facts : CloseFacts}
    (hline : '\n' ∉ t.instrument.toList) (h : answer.facts = .ok (some facts))
    (hwhole : answer.WholeUnits) (exitReason eventTime : String) :
    ∃ event, buildCloseEvent t facts exitReason eventTime = .ok (.dict event) ∧
      FillEventValid t.direction event := by
  obtain ⟨units, hunits, hsign⟩ := eventUnits_whole (t := t) (CloseAnswer.units_whole h hwhole)
  refine ⟨_, by rw [buildCloseEvent, hunits]; rfl, ?_⟩
  have hgiven (id : String) :
      ∃ s, (if id = "" then "s2-unknown:" ++ t.brokerTradeId else id) = s ∧ s ≠ "" := by
    split_ifs with hid
    · refine ⟨_, rfl, fun hempty => ?_⟩
      exact absurd (congrArg String.length hempty) (by rw [String.length_append]; simp)
    · exact ⟨id, rfl, hid⟩
  constructor
  case distinct => exact List.Nodup.sublist (keys_event rfl) (by decide)
  case known => exact fun key hkey => (keys_event rfl).subset hkey
  case required => simp [fillEventRequired]
  case version => simp [Dict.get, Dict.get?]
  case status => simp [Dict.get, Dict.get?]
  case signal =>
    obtain ⟨s, hs, hne⟩ := hgiven t.correlationId
    exact ⟨s, by rw [← hs]; simp [Dict.get, Dict.get?], hne⟩
  case request =>
    obtain ⟨s, hs, hne⟩ := hgiven (t.orderRequestId.getD "")
    exact ⟨s, by rw [← hs]; simp [Dict.get, Dict.get?], hne⟩
  case exitReason =>
    refine ⟨if validExitReasons.contains exitReason then exitReason else "other", ?_,
      by simp [Dict.get, Dict.get?]⟩
    split_ifs with hreason
    · simpa using hreason
    · decide
  case side => simp [Dict.get, Dict.get?]
  case pair =>
    simp only [Dict.get?_append, get?_given, get?_option]
    simpa [Dict.get?] using fun hpair => isPairText_of_isPair hpair hline
  case units =>
    simp only [Dict.get?_append, get?_given, get?_option]
    simpa [Dict.get?] using hsign
  case price =>
    have hprice : ∀ x, eventPrice facts.closePrice = some x → Binary64.zero.lt x = true :=
      fun x hx => (Option.filter_eq_some_iff.mp hx).2
    simp only [Dict.get?_append, get?_given, get?_option]
    simpa [Dict.get?] using hprice

/-- A stop that was hit, told of by the trade's details. -/
def stoppedDetails : CloseAnswer :=
  .details [("closingTransactionIDs", .list [.str "12"]), ("initialUnits", .str "-1000"),
    ("averageClosePrice", .str "1.0950"), ("realizedPL", .str "-5.0")]

/-- A short position that the tracker cannot attribute to a signal. -/
def unattributedShort : ManagedTrade :=
  buildManagedTrade "10" "EUR_USD" "SELL" (.ofRat (11 / 10)) none none Moment.first none none none

theorem buildCloseEvent_valid_stopped :
    ∃ facts, stoppedDetails.facts = .ok (some facts) ∧
      ∃ event, buildCloseEvent unattributedShort facts "sl" "2026-07-21T11:00:00Z" =
          .ok (.dict event) ∧ FillEventValid unattributedShort.direction event := by
  have hwhole : stoppedDetails.WholeUnits := by
    intro x hx
    have hfin : stoppedDetails.unitCount.toFloat.toOption.map Binary64.isFinite = some true := by
      decide +kernel
    rw [hx] at hfin
    exact ⟨Option.some.inj hfin, -1000, by decide +kernel⟩
  exact ⟨_, rfl, buildCloseEvent_valid (by decide) rfl hwhole "sl" "2026-07-21T11:00:00Z"⟩

end System2
