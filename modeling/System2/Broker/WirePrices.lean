import System2.Broker.WireOrder
import System2.Foundation.DecimalText

/-!
# Wire prices against the order's prices

The stop and the target go over the wire on the instrument's grid, each rounded
toward the entry. Both stay less than a tick from the order's own price. They
are tighter than the order's and on their own sides of the entry exactly when
the order's prices were on these sides; the check after rounding looks at the
rounded prices only.
-/

namespace System2
open Foundation

/-! ### Rounding onto the grid -/

theorem Rounding.abs_apply_sub_lt (r : Rounding) (q : ℚ) : |(r.apply q : ℚ) - q| < 1 := by
  rw [abs_lt]
  cases r with
  | floor =>
      have hlo := Int.floor_le q
      have hhi := Int.lt_floor_add_one q
      simp only [Rounding.apply]
      constructor
      · linarith
      · linarith
  | ceiling =>
      have hlo := Int.le_ceil q
      have hhi := Int.ceil_lt_add_one q
      simp only [Rounding.apply]
      constructor
      · linarith
      · linarith
  | halfUp =>
      simp only [Rounding.apply]
      split_ifs
      · have hlo := Int.floor_le (q + 1 / 2)
        have hhi := Int.lt_floor_add_one (q + 1 / 2)
        constructor
        · linarith
        · linarith
      · have hlo := Int.le_ceil (q - 1 / 2)
        have hhi := Int.ceil_lt_add_one (q - 1 / 2)
        constructor
        · linarith
        · linarith

namespace GridPrice

theorem readDecimal_text (p : GridPrice) : readDecimal p.text = some p.value :=
  readDecimal_fixedPoint p.coefficient p.places

theorem fractionDigits_text (p : GridPrice) : fractionDigits p.text = p.places :=
  fractionDigits_fixedPoint p.coefficient p.places

end GridPrice

/-- A grid price is a decimal rounded in one direction. -/
structure RoundedTo (v : ℚ) (r : Rounding) (d : ℕ) (p : GridPrice) : Prop where
  places : p.places = d
  rounds : p.coefficient = r.apply (v * 10 ^ d)

namespace RoundedTo
variable {v : ℚ} {r : Rounding} {d : ℕ} {p : GridPrice}

theorem value_eq (h : RoundedTo v r d p) : p.value = (r.apply (v * 10 ^ d) : ℚ) / 10 ^ d := by
  rw [GridPrice.value, h.places, h.rounds]

/-- The grid price is less than a tick away. -/
theorem near (h : RoundedTo v r d p) : |p.value - v| < 1 / 10 ^ d := by
  have hten : (0 : ℚ) < 10 ^ d := by positivity
  have hsub : p.value - v = ((r.apply (v * 10 ^ d) : ℚ) - v * 10 ^ d) / 10 ^ d := by
    rw [h.value_eq, sub_div, mul_div_cancel_right₀ v hten.ne']
  rw [hsub, abs_div, abs_of_pos hten]
  exact div_lt_div_of_pos_right (r.abs_apply_sub_lt _) hten

theorem le_of_floor (h : RoundedTo v .floor d p) : p.value ≤ v := by
  have hten : (0 : ℚ) < 10 ^ d := by positivity
  rw [h.value_eq, div_le_iff₀ hten]
  exact Int.floor_le _

theorem le_of_ceiling (h : RoundedTo v .ceiling d p) : v ≤ p.value := by
  have hten : (0 : ℚ) < 10 ^ d := by positivity
  rw [h.value_eq, le_div_iff₀ hten]
  exact Int.le_ceil _

end RoundedTo

/-- A quantized price is the price's decimal, rounded as the reference tells. -/
theorem quantizePrice_ok {price : Binary64} {instrument : String} {decimals : ℤ}
    {toward : Option Binary64} {p : GridPrice}
    (h : quantizePrice price instrument decimals toward = .ok p) :
    ∃ (d : ℕ) (v : ℚ) (r : Rounding), decimals = d ∧ price.reprValue? = some v ∧
      toward.elim (.ok .halfUp) (roundingToward v) = .ok r ∧ RoundedTo v r d p := by
  unfold quantizePrice at h
  by_cases hneg : decimals < 0
  · rw [if_pos hneg] at h
    cases h
  · rw [if_neg hneg] at h
    cases hv : price.reprValue? with
    | none =>
        rw [hv] at h
        cases h
    | some v =>
        cases hr : toward.elim (.ok .halfUp) (roundingToward v) with
        | error e =>
            simp only [hv, hr] at h
            cases h
        | ok r =>
            simp only [hv, hr] at h
            split_ifs at h
            cases h
            exact ⟨decimals.toNat, v, r, by omega, rfl, hr, rfl, rfl⟩

/-- Above a finite reference a price is rounded down, below it up. -/
theorem roundingToward_ok {v w : ℚ} {reference : Binary64} {r : Rounding}
    (hw : reference.reprValue? = some w) (h : roundingToward v reference = .ok r) :
    (w < v → r = .floor) ∧ (v < w → r = .ceiling) := by
  match reference, hw, h with
  | .fin q valid, hw, h =>
      simp only [roundingToward, hw, Option.getD_some, Except.ok.injEq] at h
      constructor
      · intro hlt
        rw [← h, if_pos hlt]
      · intro hlt
        rw [← h, if_neg hlt.not_gt, if_pos hlt]

/-! ### One price against the entry -/

/-- A rounded price below the entry: no higher than the entry, and no lower than the
order's price if that was below the entry too. -/
theorem RoundedTo.below {v w : ℚ} {entry : Binary64} {r : Rounding} {d : ℕ} {p : GridPrice}
    (h : RoundedTo v r d p) (hw : entry.reprValue? = some w)
    (hr : roundingToward v entry = .ok r) (hlt : p.toFloat.lt entry = true) :
    p.value < w ∧ (v < w ↔ v ≤ p.value) := by
  rw [← Binary64.ofRat_reprValue hw] at hlt
  have hbelow : p.value < w := Binary64.lt_of_ofRat_lt hlt
  refine ⟨hbelow, fun hvw => ?_, fun hle => lt_of_le_of_lt hle hbelow⟩
  obtain rfl := (roundingToward_ok hw hr).2 hvw
  exact h.le_of_ceiling

/-- The same above the entry. -/
theorem RoundedTo.above {v w : ℚ} {entry : Binary64} {r : Rounding} {d : ℕ} {p : GridPrice}
    (h : RoundedTo v r d p) (hw : entry.reprValue? = some w)
    (hr : roundingToward v entry = .ok r) (hlt : entry.lt p.toFloat = true) :
    w < p.value ∧ (w < v ↔ p.value ≤ v) := by
  rw [← Binary64.ofRat_reprValue hw] at hlt
  have habove : w < p.value := Binary64.lt_of_ofRat_lt hlt
  refine ⟨habove, fun hwv => ?_, fun hle => lt_of_lt_of_le habove hle⟩
  obtain rfl := (roundingToward_ok hw hr).1 hwv
  exact h.le_of_floor

/-- An entry that passes the check against rounded prices is a finite number. -/
theorem assertProtectivePrices_entry {instrument : String} {direction : ℤ}
    {entry sl tp : Binary64} {r : Binary64 × Binary64} (hnan : entry ≠ .nan)
    (h : assertProtectivePrices instrument direction entry (some sl) (some tp) = .ok r) :
    entry.isFinite = true := by
  match entry, hnan, h with
  | .fin _ _, _, _ => rfl
  | .inf negative, _, h =>
      unfold assertProtectivePrices at h
      cases hsl : protectivePrice instrument "stop_loss" (.inf negative) (some sl) with
      | error e =>
          rw [hsl] at h
          cases h
      | ok x =>
          obtain ⟨rfl, a, ha, rfl, -⟩ := protectivePrice_ok hsl
          cases htp : protectivePrice instrument "take_profit" (.inf negative) (some tp) with
          | error e =>
              rw [hsl, htp] at h
              cases h
          | ok y =>
              obtain ⟨rfl, b, hb, rfl, -⟩ := protectivePrice_ok htp
              rw [hsl, htp] at h
              simp only [bind, Except.bind] at h
              cases negative
              · split_ifs at h with hdir hbuy hsell
                · simp [Binary64.le] at hbuy
                · simp [Binary64.le] at hsell
              · split_ifs at h with hdir hbuy hsell
                · simp [Binary64.le] at hbuy
                · simp [Binary64.le] at hsell

/-! ### The payload -/

/-- What stands behind the prices of a payload. -/
structure PricedAt (order : ConstructedOrder) (d : ℕ) (payload : PyVal) (sl tp : GridPrice) :
    Prop where
  stop : ∃ v r, order.stopLoss.reprValue? = some v ∧
    roundingToward v order.entryPrice = .ok r ∧ RoundedTo v r d sl
  target : ∃ v r, order.takeProfit.reprValue? = some v ∧
    roundingToward v order.entryPrice = .ok r ∧ RoundedTo v r d tp
  entry : ∃ w, order.entryPrice.reprValue? = some w
  buySides : upper order.side = "BUY" →
    sl.toFloat.lt order.entryPrice = true ∧ order.entryPrice.lt tp.toFloat = true
  sellSides : upper order.side ≠ "BUY" →
    order.entryPrice.lt sl.toFloat = true ∧ tp.toFloat.lt order.entryPrice = true
  wire : ∃ units, payload = OandaAdapter.wireOrder order units sl tp

theorem OandaAdapter.payloadAt_prices {order : ConstructedOrder} {decimals : ℤ} {payload : PyVal}
    (h : payloadAt order decimals = .ok payload) :
    ∃ (d : ℕ) (sl tp : GridPrice), decimals = d ∧ PricedAt order d payload sl tp := by
  unfold payloadAt at h
  cases hsl : quantizePrice order.stopLoss order.instrument decimals (some order.entryPrice) with
  | error e =>
      rw [hsl] at h
      cases h
  | ok sl =>
      cases htp : quantizePrice order.takeProfit order.instrument decimals
          (some order.entryPrice) with
      | error e =>
          rw [hsl, htp] at h
          cases h
      | ok tp =>
          cases hassert : assertProtectivePrices order.instrument
              (if upper order.side = "BUY" then 1 else -1) order.entryPrice
              (some sl.toFloat) (some tp.toFloat) with
          | error e =>
              simp only [hsl, htp, hassert, bind, Except.bind] at h
              cases h
          | ok r =>
              cases hunits : order.units.toInt with
              | error e =>
                  simp only [hsl, htp, hassert, hunits, bind, Except.bind] at h
                  cases h
              | ok units =>
                  simp only [hsl, htp, hassert, hunits, Exc.lift_ok, bind, Except.bind] at h
                  cases h
                  obtain ⟨d, v, rv, rfl, hv, hrv, hround⟩ := quantizePrice_ok hsl
                  obtain ⟨d', v', rv', hd, hv', hrv', hround'⟩ := quantizePrice_ok htp
                  obtain rfl : d = d' := by exact_mod_cast hd
                  have hnan : order.entryPrice ≠ .nan := by
                    intro hnan
                    rw [hnan] at hrv
                    cases hrv
                  have hfinite := assertProtectivePrices_entry hnan hassert
                  obtain ⟨-, -, -, hbuy, hsell⟩ := assertProtectivePrices_ok hfinite hassert
                  refine ⟨d, sl, tp, rfl, ⟨v, rv, hv, hrv, hround⟩, ⟨v', rv', hv', hrv', hround'⟩,
                    Binary64.exists_reprValue hfinite, ?_, ?_, ⟨units, rfl⟩⟩
                  · intro hside
                    exact hbuy (by rw [if_pos hside])
                  · intro hside
                    exact hsell (by rw [if_neg hside]; decide)

/-- The price of an order attached to a payload. -/
def onFillPrice (payload : PyVal) (attached : String) : PyVal :=
  let order := Dict.get payload.entries "order"
  let attached := Dict.get order.entries attached
  Dict.get attached.entries "price"

/-- A text on the wire has `d` decimals and is less than a tick from a price, both read as
exact decimals. -/
structure OnTick (d : ℕ) (price : Binary64) (wire : PyVal) (value wireValue : ℚ) : Prop where
  exactly : price.reprValue? = some value
  text : ∃ text, wire = .str text ∧ readDecimal text = some wireValue ∧ fractionDigits text = d
  near : |wireValue - value| < 1 / 10 ^ d

/-- The exact prices of an order and of its payload on the grid of `d` decimals. -/
structure WirePrices (order : ConstructedOrder) (d : ℕ) (payload : PyVal)
    (stop entry target wireStop wireTarget : ℚ) : Prop where
  stopLoss : OnTick d order.stopLoss (onFillPrice payload "stopLossOnFill") stop wireStop
  takeProfit : OnTick d order.takeProfit (onFillPrice payload "takeProfitOnFill") target wireTarget
  entryPrice : order.entryPrice.reprValue? = some entry

/-- The wire prices are no further from the entry than the order's, and on their own sides of it. -/
def Tighter (side : String) (stop entry target wireStop wireTarget : ℚ) : Prop :=
  if upper side = "BUY" then
    stop ≤ wireStop ∧ wireStop < entry ∧ entry < wireTarget ∧ wireTarget ≤ target
  else target ≤ wireTarget ∧ wireTarget < entry ∧ entry < wireStop ∧ wireStop ≤ stop

/-- The order's own prices are on their sides of its entry. -/
def ConstructedOrder.Protective (order : ConstructedOrder) : Prop :=
  if upper order.side = "BUY" then
    order.stopLoss.lt order.entryPrice = true ∧ order.entryPrice.lt order.takeProfit = true
  else order.takeProfit.lt order.entryPrice = true ∧ order.entryPrice.lt order.stopLoss = true

theorem RoundedTo.onTick {price : Binary64} {v : ℚ} {r : Rounding} {d : ℕ} {p : GridPrice}
    (h : RoundedTo v r d p) (hv : price.reprValue? = some v) :
    OnTick d price (.str p.text) v p.value where
  exactly := hv
  text := ⟨p.text, rfl, p.readDecimal_text, by rw [p.fractionDigits_text, h.places]⟩
  near := h.near

theorem PricedAt.tighter_iff {order : ConstructedOrder} {d : ℕ} {payload : PyVal}
    {sl tp : GridPrice} (h : PricedAt order d payload sl tp) :
    ∃ stop entry target, WirePrices order d payload stop entry target sl.value tp.value ∧
      (Tighter order.side stop entry target sl.value tp.value ↔ order.Protective) := by
  obtain ⟨v, r, hv, hr, hround⟩ := h.stop
  obtain ⟨v', r', hv', hr', hround'⟩ := h.target
  obtain ⟨w, hw⟩ := h.entry
  obtain ⟨units, rfl⟩ := h.wire
  refine ⟨v, w, v', ⟨hround.onTick hv, hround'.onTick hv', hw⟩, ?_⟩
  unfold Tighter ConstructedOrder.Protective
  split_ifs with hside
  · obtain ⟨hstop, htarget⟩ := h.buySides hside
    obtain ⟨hbelow, hle⟩ := hround.below hw hr hstop
    obtain ⟨habove, hge⟩ := hround'.above hw hr' htarget
    rw [Binary64.reprValue_lt_iff hv hw, Binary64.reprValue_lt_iff hw hv', hle, hge]
    constructor
    · rintro ⟨hnear, -, -, hfar⟩
      exact ⟨hnear, hfar⟩
    · rintro ⟨hnear, hfar⟩
      exact ⟨hnear, hbelow, habove, hfar⟩
  · obtain ⟨hstop, htarget⟩ := h.sellSides hside
    obtain ⟨hbelow, hle⟩ := hround'.below hw hr' htarget
    obtain ⟨habove, hge⟩ := hround.above hw hr hstop
    rw [Binary64.reprValue_lt_iff hv' hw, Binary64.reprValue_lt_iff hw hv, hle, hge]
    constructor
    · rintro ⟨hnear, -, -, hfar⟩
      exact ⟨hnear, hfar⟩
    · rintro ⟨hnear, hfar⟩
      exact ⟨hnear, hbelow, habove, hfar⟩

/-- An order that `build_order` constructs has its prices on their sides. -/
theorem Constructed.protective {order : ApprovedOrder} {entryPrice : PyVal} {c : ConstructedOrder}
    (h : Constructed order entryPrice c) (hside : upper order.side = order.side) :
    c.Protective := by
  unfold ConstructedOrder.Protective
  rw [h.side, hside]
  split_ifs with hbuy
  · exact h.buySides (if_pos hbuy)
  · obtain ⟨hstop, htarget⟩ := h.sellSides (by rw [ApprovedOrder.direction, if_neg hbuy]; decide)
    exact ⟨htarget, hstop⟩

/-- For every order and every precision at which its payload is rendered: the texts of the
stop and of the target have that many decimals and are less than a tick from the order's
prices, and they are no further from the entry and on their own sides of it exactly when
the order's prices are on these sides. -/
theorem OandaAdapter.wirePrices_tighten {a : OandaAdapter} {order : ConstructedOrder}
    {payload : PyVal} {t t' : List (Event BrokerI Exc)}
    (exec : Exec World.free (buildPayload a order) t (some (.ok payload)) t') :
    ∃ (d : ℕ) (stop entry target wireStop wireTarget : ℚ),
      Exec World.free (displayPrecision a order.instrument) t (some (.ok (d : ℤ))) t' ∧
      WirePrices order d payload stop entry target wireStop wireTarget ∧
      (Tighter order.side stop entry target wireStop wireTarget ↔ order.Protective) := by
  unfold buildPayload at exec
  rcases exec_bind exec with ⟨decimals, mid, hprecision, hpayload⟩ | ⟨e, -, hout⟩ | ⟨-, hout⟩
  · cases hat : payloadAt order decimals with
    | error e =>
        rw [hat] at hpayload
        cases hpayload
    | ok p =>
        rw [hat] at hpayload
        cases hpayload
        obtain ⟨d, sl, tp, rfl, hpriced⟩ := payloadAt_prices hat
        obtain ⟨stop, entry, target, hprices, hiff⟩ := hpriced.tighter_iff
        exact ⟨d, stop, entry, target, sl.value, tp.value, hprecision, hprices, hiff⟩
  · cases hout
  · cases hout

theorem OandaAdapter.exists_rendered {order : ConstructedOrder} {decimals : ℤ}
    (h : (payloadAt order decimals).toOption.isSome = true) :
    ∃ payload, payloadAt order decimals = .ok payload := by
  cases hpayload : payloadAt order decimals with
  | error e =>
      rw [hpayload] at h
      cases h
  | ok payload => exact ⟨payload, rfl⟩

/-- A purchase at 1.25 with a stop at 1.125 and a target at 1.375. -/
def protectedOrder : ConstructedOrder where
  idempotencyKey := "k"
  correlationId := ""
  instrument := "EUR_USD"
  side := "BUY"
  units := .ofRat 1000
  entryPrice := .ofRat (5 / 4)
  stopLoss := .ofRat (9 / 8)
  takeProfit := .ofRat (11 / 8)
  atrValue := .ofRat (1 / 1000)
  rrRatio := defaultRrRatio

theorem OandaAdapter.wirePrices_tighten_protectedOrder :
    ∃ (payload : PyVal) (d : ℕ) (stop entry target wireStop wireTarget : ℚ),
      WirePrices protectedOrder d payload stop entry target wireStop wireTarget ∧
      Tighter "BUY" stop entry target wireStop wireTarget := by
  obtain ⟨payload, hpayload⟩ : ∃ payload, payloadAt protectedOrder 2 = .ok payload :=
    exists_rendered (by decide +kernel)
  obtain ⟨t, exec⟩ := exec_buildPayload patientAdapter hpayload
  obtain ⟨d, stop, entry, target, wireStop, wireTarget, -, hprices, hiff⟩ :=
    wirePrices_tighten exec
  exact ⟨payload, d, stop, entry, target, wireStop, wireTarget, hprices,
    hiff.mpr (by unfold ConstructedOrder.Protective; decide +kernel)⟩

/-- A purchase at 1.125 with its stop above the entry, at 1.129. -/
def invertedOrder : ConstructedOrder :=
  { protectedOrder with
    entryPrice := .ofRat (9 / 8)
    stopLoss := .ofRat (1129 / 1000) }

/-- With two decimals the stop above the entry is rounded to 1.12, and goes out. -/
theorem OandaAdapter.invertedOrder_moved_across :
    ∃ (payload : PyVal) (t : List (Event BrokerI Exc)) (stop entry target wireStop wireTarget : ℚ),
      Exec World.free (buildPayload patientAdapter invertedOrder) [] (some (.ok payload)) t ∧
      WirePrices invertedOrder 2 payload stop entry target wireStop wireTarget ∧
      ¬ Tighter "BUY" stop entry target wireStop wireTarget := by
  obtain ⟨payload, hpayload⟩ : ∃ payload, payloadAt invertedOrder 2 = .ok payload :=
    exists_rendered (by decide +kernel)
  obtain ⟨t, exec⟩ := exec_buildPayload patientAdapter hpayload
  obtain ⟨d, sl, tp, hd, hpriced⟩ := payloadAt_prices hpayload
  obtain rfl : 2 = d := by exact_mod_cast hd
  obtain ⟨stop, entry, target, hprices, hiff⟩ := hpriced.tighter_iff
  refine ⟨payload, t, stop, entry, target, sl.value, tp.value, exec, hprices, fun htighter => ?_⟩
  have hprotective := hiff.mp htighter
  revert hprotective
  unfold ConstructedOrder.Protective
  decide +kernel

end System2
