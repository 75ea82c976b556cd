import System2.Broker.OandaAdapter

/-!
# The wire order and the approved order

A message passes the envelope check, becomes an approved order, gets its entry
and its stops, and is rendered as a payload. The units are read as a float and
cut to an integer; the side decides the stops only. What goes over the wire
agrees with the message when these readings of it agree.
-/

namespace System2
open Foundation

/-- A message whose order reached the wire: accepted, decoded, constructed at a market
price and rendered at whatever precision the broker gave. -/
structure Wired (a : OandaAdapter) (raw : Dict) (entryPrice : PyVal) (order : ApprovedOrder)
    (constructed : ConstructedOrder) (payload : PyVal) : Prop where
  accepted : ∃ r, validateEnvelope (.dict raw) = .ok r ∧ r.ok = true
  approved : ApprovedOrder.fromDict raw = .ok order
  built : buildOrder order entryPrice = .ok constructed
  rendered : ∃ t, Exec World.free (OandaAdapter.buildPayload a constructed) []
    (some (.ok payload)) t

/-- The units of a payload. -/
def wireUnits (payload : PyVal) : PyVal :=
  let order := Dict.get payload.entries "order"
  Dict.get order.entries "units"

/-- An integer on the wire that is the approved number of units, in the direction of the side. -/
structure WiresApproved (side : String) (approved : ℚ) (n : ℤ) : Prop where
  nonzero : n ≠ 0
  size : (n : ℚ) = approved
  buy : side = "BUY" → 0 < n
  sell : side = "SELL" → n < 0

/-- A number of units that survives the float and the cut, with the sign of its side. -/
structure Wireable (side : String) (approved : ℚ) : Prop where
  whole : ∃ m : ℤ, approved = m
  exactly : nearest approved = approved
  buy : side = "BUY" → 0 < approved
  sell : side = "SELL" → approved < 0

/-! ### The layers -/

/-- Rendering is the payload at some precision. -/
theorem exists_payloadAt {a : OandaAdapter} {c : ConstructedOrder} {p : PyVal}
    {t t' : List (Event BrokerI Exc)}
    (exec : Exec World.free (OandaAdapter.buildPayload a c) t (some (.ok p)) t') :
    ∃ decimals, OandaAdapter.payloadAt c decimals = .ok p := by
  have h : wp World.free (OandaAdapter.buildPayload a c)
      (fun r _ => ∀ p, r = .ok p → ∃ decimals, OandaAdapter.payloadAt c decimals = .ok p) t := by
    simp only [OandaAdapter.buildPayload, Proc.bind_eq, wpc_bind]
    refine wpc_post (wpc_of_only (P := fun _ => True) (J := fun _ => True)
      (fun _ _ _ _ _ _ _ => trivial) (Proc.only_true _) trivial) ?_
    intro r t' _ _
    cases r with
    | error e => simp
    | ok decimals =>
        simp only [wpc_ofExcept]
        exact ⟨trivial, fun p hp => ⟨decimals, hp⟩⟩
  exact wp_sound exec h p rfl

/-- Every precision may be the broker's. -/
theorem exec_buildPayload (a : OandaAdapter) {c : ConstructedOrder} {decimals : ℤ} {p : PyVal}
    (h : OandaAdapter.payloadAt c decimals = .ok p) :
    ∃ t, Exec World.free (OandaAdapter.buildPayload a c) [] (some (.ok p)) t := by
  let spec : InstrumentSpec := ⟨c.instrument, decimals, 0⟩
  refine ⟨[⟨.cachedSpec (upper c.instrument), .ok (some spec)⟩],
    .call (r := .ok (some spec)) rfl ?_⟩
  simp only [Proc.ofExcept, Proc.ret_bind, Proc.pure_eq, spec, h]
  exact .ret

/-- An accepted message hands its units and its side on as they were read. -/
theorem WellFormed.approved {raw : Dict} {units atr : Binary64} {rc : Dict}
    {order : ApprovedOrder} (wf : WellFormed raw units atr rc)
    (h : ApprovedOrder.fromDict raw = .ok order) :
    order.units = units ∧ order.side = upper (textField raw "side") := by
  rw [wf.fromDict] at h
  cases hsl : optionalFloat (Dict.get rc "suggested_sl") with
  | error e =>
      rw [hsl] at h
      cases h
  | ok sl =>
      cases htp : optionalFloat (Dict.get rc "suggested_tp") with
      | error e =>
          rw [hsl, htp] at h
          cases h
      | ok tp =>
          rw [hsl, htp] at h
          cases h
          exact ⟨rfl, rfl⟩

/-- Cutting a float to an integer keeps exactly the whole numbers. -/
theorem toInt_eq_iff {q : ℚ} {valid : nearest (nearest q) = nearest q ∧ |nearest q| < overflowBound}
    {n : ℤ} (h : (Binary64.fin (nearest q) valid).toInt = .ok n) :
    (n : ℚ) = q ↔ (∃ m : ℤ, q = m) ∧ nearest q = q := by
  have hn : (nearest q).num.tdiv (nearest q).den = n := Except.ok.inj h
  have cut : ∀ k : ℤ, nearest q = k → n = k := by
    intro k hk
    rw [← hn, hk]
    simp
  constructor
  · rintro rfl
    obtain ⟨k, hk⟩ := nearest_int n
    refine ⟨⟨n, rfl⟩, ?_⟩
    rw [hk, cut k hk]
  · rintro ⟨⟨m, rfl⟩, hexact⟩
    rw [cut m hexact]

/-- For every message that reaches the wire: the integer in the payload is the approved
number of units, nonzero and in the direction of the side, exactly when the message's
units are a whole number that a float holds, with the sign of the message's side. -/
theorem wireUnits_approved_iff {a : OandaAdapter} {raw : Dict} {entryPrice : PyVal}
    {order : ApprovedOrder} {c : ConstructedOrder} {p : PyVal}
    (wired : Wired a raw entryPrice order c p) :
    ∃ n approved, wireUnits p = .str (toString (n : ℤ)) ∧
      (raw.get "units").rational? = some approved ∧
      (WiresApproved (upper (textField raw "side")) approved n ↔
        Wireable (upper (textField raw "side")) approved) := by
  obtain ⟨r, hvalid, hok⟩ := wired.accepted
  obtain ⟨raw', units, atr, rc, heq, wf⟩ := validateEnvelope_ok hvalid hok
  cases heq
  obtain ⟨horder, -⟩ := wf.approved wired.approved
  obtain ⟨t, exec⟩ := wired.rendered
  obtain ⟨decimals, hpayload⟩ := exists_payloadAt exec
  obtain ⟨n, sl, tp, hunits, rfl⟩ := OandaAdapter.payloadAt_ok hpayload
  obtain ⟨q, hq, rfl⟩ := PyVal.toFloat_eq_ofRat wf.unitsRead wf.unitsFinite wf.unitsNonzero
  obtain ⟨valid, hfin⟩ := Binary64.exists_fin_of_ofRat rfl wf.unitsFinite
  rw [(buildOrder_ok wired.built).units, horder, hfin] at hunits
  have hcut := toInt_eq_iff hunits
  have hnonzero : q ≠ 0 := by
    rintro rfl
    have hzero := wf.unitsNonzero
    simp [hfin, Binary64.zero] at hzero
  refine ⟨n, q, rfl, hq, ?_⟩
  constructor
  · intro h
    obtain ⟨hwhole, hexact⟩ := hcut.mp h.size
    refine ⟨hwhole, hexact, fun hbuy => ?_, fun hsell => ?_⟩
    · rw [← h.size]
      exact_mod_cast h.buy hbuy
    · rw [← h.size]
      exact_mod_cast h.sell hsell
  · intro h
    have hsize := hcut.mpr ⟨h.whole, h.exactly⟩
    refine ⟨?_, hsize, fun hbuy => ?_, fun hsell => ?_⟩
    · rintro rfl
      exact hnonzero (by simpa using hsize.symm)
    · have hpos := h.buy hbuy
      rw [← hsize] at hpos
      exact_mod_cast hpos
    · have hneg := h.sell hsell
      rw [← hsize] at hneg
      exact_mod_cast hneg

/-! ### A message whose side and units disagree -/

/-- The layers one after another at a given precision. -/
def wireOf (raw : Dict) (entryPrice : PyVal) (decimals : ℤ) :
    Except Exc (ApprovedOrder × ConstructedOrder × PyVal) := do
  let order ← Exc.lift (ApprovedOrder.fromDict raw)
  let constructed ← buildOrder order entryPrice
  let payload ← OandaAdapter.payloadAt constructed decimals
  return (order, constructed, payload)

theorem wired_of_wireOf {a : OandaAdapter} {raw : Dict} {entryPrice : PyVal} {decimals : ℤ}
    {w : ApprovedOrder × ConstructedOrder × PyVal}
    (haccepted : ∃ r, validateEnvelope (.dict raw) = .ok r ∧ r.ok = true)
    (h : wireOf raw entryPrice decimals = .ok w) : Wired a raw entryPrice w.1 w.2.1 w.2.2 := by
  unfold wireOf at h
  cases horder : ApprovedOrder.fromDict raw with
  | error e =>
      rw [horder] at h
      cases h
  | ok order =>
      cases hbuilt : buildOrder order entryPrice with
      | error e =>
          simp only [horder, hbuilt, Exc.lift_ok, bind, Except.bind] at h
          cases h
      | ok c =>
          cases hpayload : OandaAdapter.payloadAt c decimals with
          | error e =>
              simp only [horder, hbuilt, hpayload, Exc.lift_ok, bind, Except.bind] at h
              cases h
          | ok p =>
              simp only [horder, hbuilt, hpayload, Exc.lift_ok, bind, Except.bind] at h
              cases h
              exact ⟨haccepted, horder, hbuilt, exec_buildPayload a hpayload⟩

/-- A message is accepted and its order reaches the wire with a property. -/
def wiresWith (raw : Dict) (entryPrice : PyVal) (decimals : ℤ)
    (check : ConstructedOrder → PyVal → Bool) : Bool :=
  (validateEnvelope (.dict raw)).toOption.any (·.ok) &&
    (wireOf raw entryPrice decimals).toOption.any fun w => check w.2.1 w.2.2

theorem exists_wired (a : OandaAdapter) {raw : Dict} {entryPrice : PyVal} {decimals : ℤ}
    {check : ConstructedOrder → PyVal → Bool}
    (h : wiresWith raw entryPrice decimals check = true) :
    ∃ order c p, Wired a raw entryPrice order c p ∧ check c p = true := by
  obtain ⟨haccepted, hwire⟩ := Bool.and_eq_true_iff.mp h
  cases hvalid : validateEnvelope (.dict raw) with
  | error e =>
      rw [hvalid] at haccepted
      cases haccepted
  | ok r =>
      rw [hvalid] at haccepted
      cases hw : wireOf raw entryPrice decimals with
      | error e =>
          rw [hw] at hwire
          cases hwire
      | ok w =>
          rw [hw] at hwire
          exact ⟨w.1, w.2.1, w.2.2, wired_of_wireOf ⟨r, hvalid, haccepted⟩ hw, hwire⟩

/-- A price of 1.1. -/
def quotedPrice : PyVal := .float (.ofRat (11 / 10))

theorem wireUnits_approved_iff_plainBuy :
    ∃ (p : PyVal) (n : ℤ), wireUnits p = .str (toString n) ∧ WiresApproved "BUY" 1000 n := by
  have hwires : wiresWith (orderMessage "BUY" (.int 1000) .null) quotedPrice 5
      (fun _ _ => true) = true := by decide +kernel
  obtain ⟨order, c, p, wired, -⟩ := exists_wired OandaAdapter.patientAdapter hwires
  obtain ⟨n, approved, hwire, happroved, hiff⟩ := wireUnits_approved_iff wired
  obtain rfl : (1000 : ℚ) = approved := Option.some.inj happroved
  have hside : upper (textField (orderMessage "BUY" (.int 1000) .null) "side") = "BUY" := by
    decide +kernel
  rw [hside] at hiff
  exact ⟨p, n, hwire, hiff.mpr
    ⟨⟨1000, by norm_num⟩, by decide +kernel, fun _ => by norm_num, fun h => absurd h (by decide)⟩⟩

/-- A SELL of plus a thousand units: the stop lies above the entry, as for a sale, and
the wire order buys. -/
theorem sellMessage_wired_as_buy :
    ∃ order c p, Wired OandaAdapter.patientAdapter (orderMessage "SELL" (.int 1000) .null)
        quotedPrice order c p ∧
      c.side = "SELL" ∧ c.entryPrice.lt c.stopLoss = true ∧
      wireUnits p = .str (toString (1000 : ℤ)) ∧ ¬ WiresApproved "SELL" 1000 1000 := by
  have hwires : wiresWith (orderMessage "SELL" (.int 1000) .null) quotedPrice 5
      (fun c p => c.side == "SELL" && c.entryPrice.lt c.stopLoss &&
        (wireUnits p).isStr (toString (1000 : ℤ))) = true := by decide +kernel
  obtain ⟨order, c, p, wired, hcheck⟩ := exists_wired OandaAdapter.patientAdapter hwires
  simp only [Bool.and_eq_true, beq_iff_eq] at hcheck
  obtain ⟨⟨hside, hstop⟩, hunits⟩ := hcheck
  exact ⟨order, c, p, wired, hside, hstop, PyVal.eq_of_isStr hunits,
    fun h => absurd (h.sell rfl) (by norm_num)⟩

end System2
