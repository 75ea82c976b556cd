import System2.Execution.PipelineGates

/-!
# The dual run (`execution/pipeline.py`)

Before a cutover the pipeline runs in shadow mode beside the legacy one, and its constructed
orders are compared with the legacy formula. A comparison says something about the live
pipeline because both modes pass the same gates: they part where one returns the constructed
order and the other submits it.

## Implementation notes

The legacy formula is the source's own reproduction of it, with its parameters in the same order.
-/

namespace System2
open Foundation

/-- `legacy_atr_risk_parameters`: the stop and the target of the monolith. -/
def legacyAtrRiskParameters (direction : ℤ) (entryPrice atr : Binary64)
    (_rrRatio : Binary64 := defaultRrRatio) (atrMultiplierSl : Binary64 := defaultAtrMultiplierSl)
    (atrMultiplierTp : Binary64 := defaultAtrMultiplierTp) : Binary64 × Binary64 :=
  let slDistance := atr.mul atrMultiplierSl
  let tpDistance := atr.mul atrMultiplierTp
  if direction = 1 then (entryPrice.sub slDistance, entryPrice.add tpDistance)
  else (entryPrice.add slDistance, entryPrice.sub tpDistance)

/-- The stops of an accepted ATR are the legacy ones. -/
theorem atrStops_eq_legacy {direction : ℤ} {entryPrice atr : Binary64} {stops : Binary64 × Binary64}
    (h : atrStops direction entryPrice atr = .ok stops) :
    stops = legacyAtrRiskParameters direction entryPrice atr := by
  unfold atrStops at h
  unfold legacyAtrRiskParameters
  dsimp only at h ⊢
  split_ifs at h with hatr hdirection hbuy hsell
  · rw [if_pos hdirection]
    exact (Except.ok.inj h).symm
  · rw [if_neg hdirection]
    exact (Except.ok.inj h).symm

/-- Without both of System 3's prices, an order is built with the legacy stops. -/
theorem buildOrder_eq_legacy {order : ApprovedOrder} {entryPrice : PyVal} {c : ConstructedOrder}
    (h : buildOrder order entryPrice = .ok c)
    (hatr : order.riskContext.suggestedSl = none ∨ order.riskContext.suggestedTp = none) :
    (c.stopLoss, c.takeProfit) =
      legacyAtrRiskParameters order.direction c.entryPrice order.riskContext.atr := by
  obtain ⟨price, hprice, h⟩ := bind_eq_ok_iff.mp h
  obtain ⟨stops, hstops, h⟩ := bind_eq_ok_iff.mp h
  obtain ⟨kept, hkept, h⟩ := bind_eq_ok_iff.mp h
  have hfinite := (requireMarketPrice_ok hprice).2.isFinite
  obtain ⟨hsame, -⟩ := assertProtectivePrices_ok hfinite hkept
  have hfromAtr : proposedStops order price = atrStops order.direction price
      order.riskContext.atr := by
    unfold proposedStops
    rcases hatr with hnone | hnone
    · rw [hnone]
    · rw [hnone]
      cases order.riskContext.suggestedSl <;> rfl
  rw [hfromAtr] at hstops
  rw [← Except.ok.inj h, hsame]
  exact atrStops_eq_legacy hstops

namespace Pipeline

variable {F W : Type} {p : Pipeline} {order : ApprovedOrder} {entryPrice : PyVal}
  {openInstruments : List String}

/-- The pipeline with the flag of the shadow mode set to a value. -/
def withShadow (p : Pipeline) (shadow : Bool) : Pipeline := { p with shadow }

theorem gated_withShadow (p : Pipeline) (shadow : Bool) (order : ApprovedOrder) (entryPrice : PyVal)
    (openInstruments : List String) :
    (p.withShadow shadow).gated (F := F) order entryPrice openInstruments =
      p.gated order entryPrice openInstruments := rfl

/-! ### The two runs -/

/-- What a run in shadow mode says of the same order processed live. -/
structure Predicts (p : Pipeline) (order : ApprovedOrder) (entryPrice : PyVal)
    (openInstruments : List String) (world : World (PipelineI F) Exc W) (w : W) : Prop where
  /-- Nothing is submitted, marked or recorded. -/
  asks : ((p.withShadow true).process (F := F) order entryPrice openInstruments).Only asks
  /-- A shadow order is the one that would be submitted, built by the legacy formula when
  System 3 leaves its prices out. -/
  legacy : ∀ {r w₁}, Exec world ((p.withShadow true).process order entryPrice openInstruments) w
    (some (.ok r)) w₁ → r.decision = .shadow → ∃ c, r.order = some c ∧
      buildOrder order entryPrice = .ok c ∧
        (order.riskContext.suggestedSl = none ∨ order.riskContext.suggestedTp = none →
          (c.stopLoss, c.takeProfit) =
            legacyAtrRiskParameters order.direction c.entryPrice order.riskContext.atr)
  /-- A live run is a shadow run, with the submission of its order behind it if there is one. -/
  live : ∀ out w', Exec world ((p.withShadow false).process order entryPrice openInstruments) w
    out w' ↔
      (∃ r w₁ c, Exec world ((p.withShadow true).process order entryPrice openInstruments) w
        (some (.ok r)) w₁ ∧ r.decision = .shadow ∧ r.order = some c ∧
          Exec world (p.submitAndRecord order c) w₁ out w') ∨
      Exec world ((p.withShadow true).process order entryPrice openInstruments) w out w' ∧
        ∀ r, out = some (.ok r) → r.decision ≠ .shadow

/-- The result of the shadow mode. -/
def shadowResult : ProcessResult F ⊕ ConstructedOrder → ProcessResult F
  | .inl refused => refused
  | .inr constructed => ⟨.shadow, some constructed, none, []⟩

theorem shadow_eq (p : Pipeline) (order : ApprovedOrder) (entryPrice : PyVal)
    (openInstruments : List String) :
    (p.withShadow true).process (F := F) order entryPrice openInstruments =
      (p.gated order entryPrice openInstruments).bind fun out => .ret (shadowResult out) := by
  have hsettle : (p.withShadow true).settle (F := F) order = fun out => .ret (shadowResult out) := by
    funext out
    cases out with
    | inl refused => rfl
    | inr constructed => rfl
  rw [process_eq, hsettle]
  rfl

variable {world : World (PipelineI F) Exc W} {w w' : W}

/-- How a run in shadow mode ends. -/
theorem exec_shadow_iff {out : Option (Except Exc (ProcessResult F))} :
    Exec world ((p.withShadow true).process order entryPrice openInstruments) w out w' ↔
      (∃ x, Exec world (p.gated order entryPrice openInstruments) w (some (.ok x)) w' ∧
        out = some (.ok (shadowResult x))) ∨
      (∃ e, Exec world (p.gated order entryPrice openInstruments) w (some (.error e)) w' ∧
        out = some (.error e)) ∨
      (Exec world (p.gated order entryPrice openInstruments) w none w' ∧ out = none) := by
  rw [shadow_eq]
  constructor
  · intro exec
    rcases exec_bind exec with ⟨x, w₁, hgated, hend⟩ | hraised | hcut
    · cases hend with
      | ret => exact Or.inl ⟨x, hgated, rfl⟩
      | crash => exact Or.inr (Or.inr ⟨hgated.cut, rfl⟩)
    · exact Or.inr (Or.inl hraised)
    · exact Or.inr (Or.inr hcut)
  · rintro (⟨x, hgated, rfl⟩ | ⟨e, hgated, rfl⟩ | ⟨hgated, rfl⟩)
    · exact hgated.bind .ret
    · exact hgated.bind_error
    · exact hgated.bind_cut

theorem passed_of_exec {x : ProcessResult F ⊕ ConstructedOrder}
    (exec : Exec world (p.gated order entryPrice openInstruments) w (some (.ok x)) w') :
    Passed True order entryPrice x :=
  exec_yields exec (fun _ _ _ _ _ => trivial) (gated_passed fun _ _ _ => trivial)

/-- A shadow order has passed the gates. -/
theorem exec_of_shadow {r : ProcessResult F}
    (exec : Exec world ((p.withShadow true).process order entryPrice openInstruments) w
      (some (.ok r)) w') (hdecision : r.decision = .shadow) :
    ∃ c, Exec world (p.gated order entryPrice openInstruments) w (some (.ok (.inr c))) w' ∧
      r.order = some c := by
  rcases exec_shadow_iff.mp exec with ⟨x, hgated, hr⟩ | ⟨e, -, hr⟩ | ⟨-, hr⟩
  · obtain rfl := Except.ok.inj (Option.some.inj hr)
    cases x with
    | inl refused => exact absurd hdecision (passed_of_exec hgated).1
    | inr c => exact ⟨c, hgated, rfl⟩
  · cases Option.some.inj hr
  · cases hr

theorem exec_live_iff {out : Option (Except Exc (ProcessResult F))} :
    Exec world ((p.withShadow false).process order entryPrice openInstruments) w out w' ↔
      (∃ r w₁ c, Exec world ((p.withShadow true).process order entryPrice openInstruments) w
        (some (.ok r)) w₁ ∧ r.decision = .shadow ∧ r.order = some c ∧
          Exec world (p.submitAndRecord order c) w₁ out w') ∨
      Exec world ((p.withShadow true).process order entryPrice openInstruments) w out w' ∧
        ∀ r, out = some (.ok r) → r.decision ≠ .shadow := by
  rw [process_eq (p.withShadow false), gated_withShadow]
  constructor
  · intro exec
    rcases exec_bind exec with ⟨x, w₁, hgated, hend⟩ | ⟨e, hgated, rfl⟩ | ⟨hgated, rfl⟩
    · cases x with
      | inl refused =>
          refine Or.inr ?_
          cases hend with
          | ret =>
              refine ⟨exec_shadow_iff.mpr (Or.inl ⟨_, hgated, rfl⟩), fun r hr => ?_⟩
              rw [← Except.ok.inj (Option.some.inj hr)]
              exact (passed_of_exec hgated).1
          | crash =>
              exact ⟨exec_shadow_iff.mpr (Or.inr (Or.inr ⟨hgated.cut, rfl⟩)), fun r hr => by cases hr⟩
      | inr c =>
          exact Or.inl ⟨_, w₁, c, exec_shadow_iff.mpr (Or.inl ⟨_, hgated, rfl⟩), rfl, rfl, hend⟩
    · exact Or.inr ⟨exec_shadow_iff.mpr (Or.inr (Or.inl ⟨e, hgated, rfl⟩)), fun r hr => by
        cases Option.some.inj hr⟩
    · exact Or.inr ⟨exec_shadow_iff.mpr (Or.inr (Or.inr ⟨hgated, rfl⟩)), fun r hr => by cases hr⟩
  · rintro (⟨r, w₁, c, hshadow, hdecision, horder, hend⟩ | ⟨hshadow, hrefused⟩)
    · obtain ⟨c', hgated, horder'⟩ := exec_of_shadow hshadow hdecision
      obtain rfl : c' = c := Option.some.inj (horder'.symm.trans horder)
      exact hgated.bind hend
    · rcases exec_shadow_iff.mp hshadow with ⟨x, hgated, rfl⟩ | ⟨e, hgated, rfl⟩ | ⟨hgated, rfl⟩
      · cases x with
        | inl refused => exact hgated.bind .ret
        | inr c => exact absurd rfl (hrefused _ rfl)
      · exact hgated.bind_error
      · exact hgated.bind_cut

/-- The dual run predicts the live run, whatever the store, the clock and the hooks answer. -/
theorem dual_run (p : Pipeline) (order : ApprovedOrder) (entryPrice : PyVal)
    (openInstruments : List String) (world : World (PipelineI F) Exc W) (w : W) :
    p.Predicts order entryPrice openInstruments world w where
  asks := by
    rw [shadow_eq]
    exact gated_asks.bind fun _ => trivial
  legacy := by
    intro r w₁ exec hdecision
    obtain ⟨c, hgated, horder⟩ := exec_of_shadow exec hdecision
    have hbuilt : buildOrder order entryPrice = .ok c := passed_of_exec hgated
    exact ⟨c, horder, hbuilt, buildOrder_eq_legacy hbuilt⟩
  live := fun _ _ => exec_live_iff

end Pipeline

end System2
