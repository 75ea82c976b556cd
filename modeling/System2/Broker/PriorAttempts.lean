import System2.Broker.FillReported

/-!
# Several attempts under one client order id

A client order id may stand on several orders, one for each attempt. Every order has
an outcome of its own, which refers to it by the order's id. The verdict on the window
keeps one mark for all cancels and rejects, so the outcome of one attempt also speaks
for the others.
-/

namespace System2
open Foundation

/-- A suffix of a text is a suffix of its characters. -/
theorem endsWith_iff_suffix (text suffix : String) :
    text.endsWith suffix = true ↔ suffix.toList <:+ text.toList := by
  change text.toSlice.endsWith suffix = true ↔ _
  rw [String.Slice.endsWith_string_iff]
  simp

namespace OandaAdapter

/-- The types of transactions that end an order without a fill. -/
def isEndType (type : String) : Bool := type == "ORDER_CANCEL" || type.endsWith "_REJECT"

/-- The transaction of an order with this client order id. -/
def isOrderOf (cid : String) (txn : Dict) : Bool :=
  carries cid txn && (transactionType txn).endsWith "_ORDER"

/-- A cancel or a reject with this client order id. -/
def isEndOf (cid : String) (txn : Dict) : Bool :=
  carries cid txn && isEndType (transactionType txn)

/-- A fill, a cancel or a reject that refers to an order by the order's id. -/
structure OutcomeOf (order outcome : Dict) : Prop where
  type : transactionType outcome = "ORDER_FILL" ∨ isEndType (transactionType outcome) = true
  refers : ∃ id, id ≠ .null ∧ order.get "id" = id ∧ outcome.get "orderID" = id

/-- An order of the window with this client order id whose outcome the window does not have. -/
structure Undecided (cid : String) (txns : List Dict) (order : Dict) : Prop where
  seen : order ∈ txns
  ours : isOrderOf cid order = true
  noOutcome : ∀ outcome ∈ txns, ¬ OutcomeOf order outcome

end OandaAdapter

/-- The verdicts after which nothing is sent. -/
def PriorVerdict.Refuses : PriorVerdict → Prop
  | .filled _ => True
  | .pending => True
  | .unfilled => False
  | .absent => False

namespace OandaAdapter

/-- An unknown outcome is not read as safe: while an order of the window is undecided,
there is a verdict, and after it nothing is sent. -/
def HeedsUndecided (cid : String) (txns : List Dict) : Prop :=
  (∃ order, Undecided cid txns order) →
    ∃ v, priorSubmissionVerdict txns cid = .ok v ∧ v.Refuses

/-! ### The marks of the scan -/

theorem orderType_ne_fill {type : String} (h : type.endsWith "_ORDER" = true) :
    type ≠ "ORDER_FILL" := by
  rintro rfl
  exact absurd h (by decide +kernel)

theorem isEndType_orderType {type : String} (h : type.endsWith "_ORDER" = true) :
    isEndType type = false := by
  have hcancel : type ≠ "ORDER_CANCEL" := by
    rintro rfl
    exact absurd h (by decide +kernel)
  have hreject : type.endsWith "_REJECT" = false := by
    by_contra hends
    rw [Bool.not_eq_false, endsWith_iff_suffix] at hends
    rw [endsWith_iff_suffix] at h
    obtain ⟨front, hfront⟩ := h
    obtain ⟨front', hfront'⟩ := hends
    -- the two suffixes differ in their last character
    have hlast := congrArg List.getLast? (hfront.trans hfront'.symm)
    simp at hlast
  simp [isEndType, hcancel, hreject]

/-- The note on a transaction with the id, mark by mark. -/
theorem Sightings.note_sawTerminal (s : Sightings) (txn : Dict) :
    (s.note txn).sawTerminal =
      (s.sawTerminal || (transactionType txn != "ORDER_FILL" && isEndType (transactionType txn))) := by
  simp only [Sightings.note, isEndType]
  split_ifs with hfill hend
  · simp [hfill]
  · simp only [Bool.or_eq_true, decide_eq_true_eq] at hend
    rcases hend with hcancel | hreject
    · simp [hcancel]
    · simp [hreject, hfill]
  · simp only [Bool.or_eq_true, decide_eq_true_eq, not_or, Bool.not_eq_true] at hend
    simp [hend.1, hend.2]

theorem Sightings.note_sawOrder (s : Sightings) (txn : Dict)
    (h : (transactionType txn).endsWith "_ORDER" = true) : (s.note txn).sawOrder = true := by
  have hend := isEndType_orderType h
  simp only [isEndType, Bool.or_eq_false_iff, beq_eq_false_iff_ne, ne_eq] at hend
  simp [Sightings.note, orderType_ne_fill h, hend.1, hend.2]

theorem isEndType_ne_fill {type : String} (h : isEndType type = true) : type ≠ "ORDER_FILL" := by
  rintro rfl
  exact absurd h (by decide +kernel)

/-- The scan has seen an end of an attempt exactly if the window has one. -/
theorem scanTransactions_sawTerminal {cid : String} {txns : List Dict} {s s' : Sightings}
    (h : scanTransactions cid txns s = .ok s') :
    s'.sawTerminal = (s.sawTerminal || txns.any (isEndOf cid)) := by
  induction txns generalizing s with
  | nil =>
      cases h
      simp
  | cons txn rest ih =>
      unfold scanTransactions at h
      split at h
      · cases h
      · rename_i id hid
        rw [ih h, List.any_cons, ← Bool.or_assoc]
        congr 1
        split_ifs with hours
        · rw [Sightings.note_sawTerminal, isEndOf, carries_of_id hid, decide_eq_true hours,
            Bool.true_and]
          cases hend : isEndType (transactionType txn) with
          | false => simp
          | true => simp [isEndType_ne_fill hend]
        · simp [isEndOf, carries_of_id hid, hours]

/-- What the scan has seen stays seen. -/
theorem scanTransactions_sawOrder_kept {cid : String} {txns : List Dict} {s s' : Sightings}
    (h : scanTransactions cid txns s = .ok s') (hs : s.sawOrder = true) :
    s'.sawOrder = true := by
  induction txns generalizing s with
  | nil =>
      cases h
      exact hs
  | cons txn rest ih =>
      unfold scanTransactions at h
      split at h
      · cases h
      · apply ih h
        split_ifs
        · simp only [Sightings.note]
          split_ifs
          · exact hs
          · exact hs
          · rfl
        · exact hs

theorem scanTransactions_sawOrder {cid : String} {txns : List Dict} {s s' : Sightings}
    (h : scanTransactions cid txns s = .ok s') {order : Dict} (hseen : order ∈ txns)
    (hours : isOrderOf cid order = true) : s'.sawOrder = true := by
  obtain ⟨hcarries, htype⟩ := Bool.and_eq_true_iff.mp hours
  induction txns generalizing s with
  | nil => cases hseen
  | cons txn rest ih =>
      unfold scanTransactions at h
      split at h
      · cases h
      · rename_i id hid
        rcases List.mem_cons.mp hseen with rfl | hrest
        · have hid' : id = some cid := by simpa [carries_of_id hid] using hcarries
          rw [if_pos hid'] at h
          exact scanTransactions_sawOrder_kept h (Sightings.note_sawOrder s order htype)
        · exact ih h hrest

/-- A scan that comes to its end has read every transaction. -/
theorem readable_of_scanTransactions {cid : String} {txns : List Dict} {s s' : Sightings}
    (h : scanTransactions cid txns s = .ok s') : ∀ txn ∈ txns, Readable txn := by
  induction txns generalizing s with
  | nil => simp
  | cons txn rest ih =>
      unfold scanTransactions at h
      split at h
      · cases h
      · rename_i id hid
        intro txn' htxn'
        rcases List.mem_cons.mp htxn' with rfl | hrest
        · simp [Readable, hid, Except.isOk, Except.toBool]
        · exact ih h txn' hrest

/-! ### The verdict on several attempts -/

/-- With an order in the window the verdict refuses exactly if there is a fill, or no
attempt was cancelled or rejected. -/
theorem verdict_refuses_iff {cid : String} {txns : List Dict} {v : PriorVerdict}
    (h : priorSubmissionVerdict txns cid = .ok v) {order : Dict} (hseen : order ∈ txns)
    (hours : isOrderOf cid order = true) :
    v.Refuses ↔ txns.any (isFillOf cid) = true ∨ txns.any (isEndOf cid) = false := by
  unfold priorSubmissionVerdict at h
  cases hscan : scanTransactions cid txns ⟨none, false, false⟩ with
  | error e =>
      rw [hscan] at h
      cases h
  | ok s =>
      have hv : v = s.verdict := by
        rw [hscan] at h
        exact (Except.ok.inj h).symm
      have hfill := scanTransactions_fill hscan
      have hterminal := scanTransactions_sawTerminal hscan
      have horder := scanTransactions_sawOrder hscan hseen hours
      rw [Option.or_none] at hfill
      rw [Bool.false_or] at hterminal
      rw [hv, ← hterminal]
      cases hs : s.fill with
      | some txn =>
          rw [hs] at hfill
          have hmem := List.mem_filter.mp (List.mem_of_getLast? hfill.symm)
          have hany : txns.any (isFillOf cid) = true := List.any_eq_true.mpr ⟨txn, hmem⟩
          simp [Sightings.verdict, hs, PriorVerdict.Refuses, hany]
      | none =>
          rw [hs] at hfill
          have hnone : txns.any (isFillOf cid) = false := by
            rw [List.any_eq_false]
            intro txn htxn
            exact List.filter_eq_nil_iff.mp (List.getLast?_eq_none_iff.mp hfill.symm) txn htxn
          cases hends : s.sawTerminal with
          | false => simp [Sightings.verdict, hs, hends, horder, PriorVerdict.Refuses]
          | true => simp [Sightings.verdict, hs, hends, hnone, PriorVerdict.Refuses]

/-- For every window and every client order id: an undecided order is heeded exactly if,
whenever there is one, every transaction can be read, and a fill carries the id or no
cancel and no reject does. -/
theorem heedsUndecided_iff (cid : String) (txns : List Dict) :
    HeedsUndecided cid txns ↔
      ((∃ order, Undecided cid txns order) → (∀ txn ∈ txns, Readable txn) ∧
        (txns.any (isFillOf cid) = true ∨ txns.any (isEndOf cid) = false)) := by
  unfold HeedsUndecided
  refine forall_congr' fun hundecided => ?_
  obtain ⟨order, hseen, hours, -⟩ := hundecided
  constructor
  · rintro ⟨v, hv, hrefuses⟩
    refine ⟨?_, (verdict_refuses_iff hv hseen hours).mp hrefuses⟩
    cases hscan : scanTransactions cid txns ⟨none, false, false⟩ with
    | error e =>
        rw [priorSubmissionVerdict, hscan] at hv
        cases hv
    | ok s => exact readable_of_scanTransactions hscan
  · rintro ⟨hreadable, hmarks⟩
    obtain ⟨v, hv⟩ : ∃ v, priorSubmissionVerdict txns cid = .ok v :=
      priorSubmissionVerdict_readable hreadable
    exact ⟨v, hv, (verdict_refuses_iff hv hseen hours).mpr hmarks⟩

/-- A market order with the client order id `sb-k`. -/
def attemptOrder (id : String) : Dict :=
  [("type", .str "MARKET_ORDER"), ("id", .str id),
    ("clientExtensions", .dict [("id", .str "sb-k")])]

/-- The cancel of an order with the client order id `sb-k`. -/
def attemptCancel (id orderId : String) : Dict :=
  [("type", .str "ORDER_CANCEL"), ("id", .str id), ("orderID", .str orderId),
    ("clientOrderID", .str "sb-k")]

/-- The first attempt was cancelled; of the second one only the order is in the window. -/
def secondAttempt : List Dict := [attemptOrder "1", attemptCancel "2" "1", attemptOrder "3"]

theorem undecided_secondAttempt : Undecided "sb-k" secondAttempt (attemptOrder "3") := by
  refine ⟨by simp [secondAttempt], by decide +kernel, ?_⟩
  rintro outcome houtcome ⟨htype, id, -, hid, hrefers⟩
  simp only [secondAttempt, List.mem_cons, List.not_mem_nil, or_false] at houtcome
  rcases houtcome with rfl | rfl | rfl
  · exact absurd htype (by decide +kernel)
  · have hone : PyVal.str "1" = id := hrefers
    have hthree : PyVal.str "3" = id := hid
    exact absurd (hone.trans hthree.symm) (by simp)
  · exact absurd htype (by decide +kernel)

theorem secondAttempt_not_heeded : ¬ HeedsUndecided "sb-k" secondAttempt := by
  intro h
  have hundecided := undecided_secondAttempt
  obtain ⟨v, hv, hrefuses⟩ := h ⟨_, hundecided⟩
  rcases (verdict_refuses_iff hv hundecided.seen hundecided.ours).mp hrefuses with hfill | hend
  · exact absurd hfill (by decide +kernel)
  · exact absurd hend (by decide +kernel)

end OandaAdapter

end System2
