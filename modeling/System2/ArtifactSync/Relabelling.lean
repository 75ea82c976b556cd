import System2.ArtifactSync.StateMapping

/-!
# The numbering of the states

The states of a fitted model come in no order. With four states whose scores differ, the
mapping of a renumbered model orders the renumbered posteriors as before: the picks depend on
the means and not on the places of the rows.

## Implementation notes

The picks are described without the order of the scan, and that description moves along a
permutation. With a tie the first row wins, and a fifth state may take `Ranging`.
-/

namespace System2
open Foundation

section
variable {n cols : ℕ} {rows : Fin n → Column cols Binary64} {featureNames : List String}
  {directionFeature : String} {vol atr ret : Fin cols}

/-- The score of a state by which the most volatile one is found. -/
def volScore (rows : Fin n → Column cols Binary64) (vol atr : Fin cols) (s : Fin n) : Binary64 :=
  (rows s vol).add (rows s atr)

/-- The means of a model, a row for each state. -/
def meansOf (rows : Fin n → Column cols Binary64) : Array2 := ⟨cols, List.ofFn rows⟩

theorem column_meansOf (j : Fin cols) :
    (meansOf rows).column j = .ok (List.ofFn fun s => rows s j) := by
  unfold Array2.column meansOf
  rw [dif_pos j.isLt, List.map_ofFn]
  rfl

theorem cell_meansOf (s : Fin n) (j : Fin cols) : (meansOf rows).cell s j = .ok (rows s j) := by
  unfold Array2.cell meansOf
  rw [List.getElem?_ofFn, dif_pos s.isLt, Option.bind_some, dif_pos j.isLt]
  rfl

theorem zipWith_ofFn {α β γ : Type} (f : α → β → γ) (a : Fin n → α) (b : Fin n → β) :
    List.zipWith f (List.ofFn a) (List.ofFn b) = List.ofFn fun s => f (a s) (b s) := by
  apply List.ext_getElem
  · simp
  · intro i hi hi'
    simp

/-- The places of the states are the states. -/
theorem pick_range {beats : Binary64 → Binary64 → Bool} (score : Fin n → Binary64) :
    pick beats (fun k => (List.ofFn score).getD k .nan) (List.range n) =
      (pick beats score (List.finRange n)).map Fin.val := by
  rw [← List.map_coe_finRange_eq_range, pick_map]
  have hscore : (fun s : Fin n => (List.ofFn score).getD s .nan) = score := by
    ext s
    rw [List.getD_eq_getElem?_getD, List.getElem?_ofFn, dif_pos s.isLt]
    rfl
  rw [hscore]

/-- The columns of a model whose most volatile state is known. -/
theorem directionScores_meansOf (hvol : featureNames.idxOf? "volatility_20" = some (vol : ℕ))
    (hatr : featureNames.idxOf? "atr_14" = some (atr : ℕ))
    (hret : featureNames.idxOf? directionFeature = some (ret : ℕ)) {highVol : Fin n}
    (hpick : pick outranks (volScore rows vol atr) (List.finRange n) = some highVol) :
    directionScores (meansOf rows) featureNames directionFeature =
      .ok ((highVol : ℕ), ((List.finRange n).filter fun s => s ≠ highVol).map
        fun s : Fin n => ((s : ℕ), rows s ret)) := by
  have hargmax : argmax (List.zipWith Binary64.add (List.ofFn fun s => rows s vol)
      (List.ofFn fun s => rows s atr)) = .ok (highVol : ℕ) := by
    rw [zipWith_ofFn, argmax_eq_pick, List.length_ofFn, pick_range]
    exact congrArg (orErr PyErr.valueError) (congrArg (Option.map Fin.val) hpick)
  have hremaining : (List.range (meansOf rows).rows.length).filter (fun i => i ≠ (highVol : ℕ)) =
      ((List.finRange n).filter fun s => s ≠ highVol).map Fin.val := by
    rw [meansOf, List.length_ofFn, ← List.map_coe_finRange_eq_range, List.filter_map]
    congr 1
    exact List.filter_congr fun s _ => by simp [Fin.ext_iff]
  have hcells : ((((List.finRange n).filter fun s => s ≠ highVol).map Fin.val).mapM fun i : ℕ =>
      ((meansOf rows).cell i ret).map fun score => (i, score)) =
        .ok (((List.finRange n).filter fun s => s ≠ highVol).map
          fun s : Fin n => ((s : ℕ), rows s ret)) := by
    rw [mapM_eq_ok_iff, List.forall₂_map_left_iff, List.forall₂_map_right_iff, List.forall₂_same]
    intro s _
    rw [cell_meansOf]
    rfl
  unfold directionScores
  simp only [hvol, hatr, hret, orErr, column_meansOf, hargmax, hremaining, hcells, bind,
    Except.bind, pure, Except.pure]

/-! ### Four states that differ -/

/-- No two states have one score. -/
def Differ (score : Fin n → Binary64) : Prop :=
  ∀ s t, s ≠ t → above (score s) (score t) = true ∨ above (score t) (score s) = true

instance (score : Fin n → Binary64) : Decidable (Differ score) :=
  inferInstanceAs (Decidable (∀ s t, s ≠ t → _))

theorem outranks_of_above {x y : Binary64} (h : above x y = true) : outranks x y = true := by
  rw [outranks, decide_eq_true_eq]
  refine ⟨?_, Or.inr h⟩
  rintro rfl
  cases h

/-- Who is labelled how, whatever the order of the states. -/
structure Ranks (volScores returns : Fin 4 → Binary64) (highVol up down ranging : Fin 4) :
    Prop where
  highVol_first : ∀ s, s ≠ highVol → outranks (volScores highVol) (volScores s) = true
  up_first : ∀ s, s ≠ highVol → s ≠ up → above (returns up) (returns s) = true
  down_last : ∀ s, s ≠ highVol → s ≠ down → above (returns s) (returns down) = true
  nodup : [highVol, up, down, ranging].Nodup

variable {volScores returns : Fin 4 → Binary64} {highVol up down ranging : Fin 4}

/-- Renumbered states have the renumbered labels. -/
theorem Ranks.relabel (h : Ranks volScores returns highVol up down ranging)
    (σ : Equiv.Perm (Fin 4)) :
    Ranks (fun s => volScores (σ s)) (fun s => returns (σ s)) (σ.symm highVol) (σ.symm up)
      (σ.symm down) (σ.symm ranging) := by
  have hne : ∀ {s t : Fin 4}, s ≠ σ.symm t → σ s ≠ t := by
    intro s t hs heq
    exact hs (by rw [← heq, Equiv.symm_apply_apply])
  constructor
  · intro s hs
    rw [Equiv.apply_symm_apply]
    exact h.highVol_first _ (hne hs)
  · intro s hs hup
    rw [Equiv.apply_symm_apply]
    exact h.up_first _ (hne hs) (hne hup)
  · intro s hs hdown
    rw [Equiv.apply_symm_apply]
    exact h.down_last _ (hne hs) (hne hdown)
  · exact (h.nodup.map σ.symm.injective : ([highVol, up, down, ranging].map σ.symm).Nodup)

/-- The first of some states that beats the others. -/
theorem exists_first {score : Fin 4 → Binary64} (hdiffer : Differ score) {states : List (Fin 4)}
    (hstates : states ≠ []) :
    ∃ first ∈ states, ∀ s ∈ states, s ≠ first → above (score first) (score s) = true := by
  obtain ⟨first, hfirst⟩ := Option.isSome_iff_exists.mp
    ((isSome_pick above score).mpr hstates)
  refine ⟨first, pick_mem hfirst, fun s hs hne => ?_⟩
  refine (hdiffer s first hne).resolve_left fun hbeats => ?_
  rw [strict_above.pick_unbeaten hfirst s hs] at hbeats
  cases hbeats

theorem exists_last {score : Fin 4 → Binary64} (hdiffer : Differ score) {states : List (Fin 4)}
    (hstates : states ≠ []) :
    ∃ last ∈ states, ∀ s ∈ states, s ≠ last → above (score s) (score last) = true := by
  obtain ⟨last, hlast⟩ := Option.isSome_iff_exists.mp
    ((isSome_pick (fun x y => above y x) score).mpr hstates)
  refine ⟨last, pick_mem hlast, fun s hs hne => ?_⟩
  refine (hdiffer s last hne).resolve_right fun hbeats => ?_
  rw [strict_above.flip.pick_unbeaten hlast s hs] at hbeats
  cases hbeats

/-- States that differ are labelled in one way. -/
theorem exists_ranks (hvol : Differ volScores) (hret : Differ returns) :
    ∃ highVol up down ranging, Ranks volScores returns highVol up down ranging := by
  obtain ⟨highVol, -, hfirst⟩ := exists_first hvol (by decide : List.finRange 4 ≠ [])
  have hothers : ∀ highVol : Fin 4, (List.finRange 4).filter (fun s => s ≠ highVol) ≠ [] := by
    decide
  have hmem : ∀ {s : Fin 4}, s ∈ (List.finRange 4).filter (fun s => s ≠ highVol) ↔
      s ≠ highVol := by
    simp
  obtain ⟨up, hupMem, hup⟩ := exists_first hret (hothers highVol)
  obtain ⟨down, hdownMem, hdown⟩ := exists_last hret (hothers highVol)
  rw [hmem] at hupMem hdownMem
  have hupDown : up ≠ down := by
    rintro rfl
    have hthird : ∀ highVol up : Fin 4, ∃ s, s ≠ highVol ∧ s ≠ up := by decide
    obtain ⟨s, hs, hsUp⟩ := hthird highVol up
    have hback := strict_above.asymm (hup s (hmem.mpr hs) hsUp)
    rw [hdown s (hmem.mpr hs) hsUp] at hback
    cases hback
  have hfourth : ∀ a b c : Fin 4, a ≠ b → a ≠ c → b ≠ c → ∃ d, [a, b, c, d].Nodup := by decide
  obtain ⟨ranging, hnodup⟩ := hfourth highVol up down hupMem.symm hdownMem.symm hupDown
  refine ⟨highVol, up, down, ranging, ?_, ?_, ?_, hnodup⟩
  · exact fun s hs => outranks_of_above (hfirst s (List.mem_finRange s) hs)
  · exact fun s hs hsUp => hup s (hmem.mpr hs) hsUp
  · exact fun s hs hsDown => hdown s (hmem.mpr hs) hsDown

/-! ### The ordered posteriors -/

/-- The mapping of four states that differ. -/
def labelsOf (highVol up down ranging : Fin 4) : OrderedDict ℤ String :=
  [(((highVol : ℕ) : ℤ), "High-Vol"), (((up : ℕ) : ℤ), "Trending-Up"),
    (((down : ℕ) : ℤ), "Trending-Down"), (((ranging : ℕ) : ℤ), "Ranging")]

theorem ofPairs_labelsOf : [highVol, up, down, ranging].Nodup →
    OrderedDict.ofPairs (labelsOf highVol up down ranging) = labelsOf highVol up down ranging := by
  revert highVol up down ranging
  decide

theorem mapStatesToLabels_meansOf {rows : Fin 4 → Column cols Binary64}
    (hvol : featureNames.idxOf? "volatility_20" = some (vol : ℕ))
    (hatr : featureNames.idxOf? "atr_14" = some (atr : ℕ))
    (hret : featureNames.idxOf? directionFeature = some (ret : ℕ))
    (h : Ranks (volScore rows vol atr) (fun s => rows s ret) highVol up down ranging) :
    mapStatesToLabels (meansOf rows) featureNames directionFeature =
      .ok (labelsOf highVol up down ranging) := by
  have hne := h.nodup
  simp only [List.nodup_cons, List.mem_cons, List.not_mem_nil, or_false, not_or] at hne
  obtain ⟨⟨hvu, hvd, hvr⟩, ⟨hud, hur⟩, hdr, -⟩ := hne
  have hmem : ∀ {s : Fin 4}, s ∈ (List.finRange 4).filter (fun s => s ≠ highVol) ↔
      s ≠ highVol := by
    simp
  have hfirst : pick outranks (volScore rows vol atr) (List.finRange 4) = some highVol :=
    strict_outranks.pick_eq_of_dominant (List.mem_finRange highVol)
      fun s _ hs => h.highVol_first s hs
  have hup : pick above (fun s => rows s ret) ((List.finRange 4).filter fun s => s ≠ highVol) =
      some up :=
    strict_above.pick_eq_of_dominant (hmem.mpr (Ne.symm hvu))
      fun s hs hne => h.up_first s (hmem.mp hs) hne
  have hdown : pick (fun x y => above y x) (fun s => rows s ret)
      ((List.finRange 4).filter fun s => s ≠ highVol) = some down :=
    strict_above.flip.pick_eq_of_dominant (hmem.mpr (Ne.symm hvd))
      fun s hs hne => h.down_last s (hmem.mp hs) hne
  have hranging : (((((List.finRange 4).filter fun s => s ≠ highVol).map
      fun s : Fin 4 => ((s : ℕ), rows s ret)).map Prod.fst).filter
        fun i => i ≠ (up : ℕ) ∧ i ≠ (down : ℕ)).head? = some (ranging : ℕ) := by
    rw [List.map_map]
    have hrest : ∀ highVol up down ranging : Fin 4, [highVol, up, down, ranging].Nodup →
        ((((List.finRange 4).filter fun s => s ≠ highVol).map fun s : Fin 4 => (s : ℕ)).filter
          fun i => i ≠ (up : ℕ) ∧ i ≠ (down : ℕ)).head? = some (ranging : ℕ) := by
      decide
    exact hrest highVol up down ranging h.nodup
  rw [mapStatesToLabels, directionScores_meansOf hvol hatr hret hfirst]
  refine labelStates_eq_ok_iff.mpr ⟨((up : ℕ), rows up ret), ((down : ℕ), rows down ret),
    (ranging : ℕ), ?_, ?_, hranging, (ofPairs_labelsOf h.nodup).symm⟩
  · rw [pick_map]
    exact congrArg (Option.map fun s : Fin 4 => ((s : ℕ), rows s ret)) hup
  · rw [pick_map]
    exact congrArg (Option.map fun s : Fin 4 => ((s : ℕ), rows s ret)) hdown

variable {K : Type} {zero : K} {sum : List K → K}

/-- The columns of the ordered matrix are the posteriors of the labelled states. -/
theorem orderMatrix_labelsOf (hsum : ∀ x, sum [x] = x) (posteriors : List (Fin 4 → K)) :
    orderMatrix zero sum posteriors (labelsOf highVol up down ranging) =
      .ok (posteriors.map fun row => [row up, row down, row ranging, row highVol]) := by
  have hchecked : ((labelsOf highVol up down ranging).map Prod.fst).filter
      (fun s => s < 0 ∨ ((4 : ℕ) : ℤ) ≤ s) = [] := by
    revert highVol up down ranging
    decide
  have hstates : semanticOrder.map (statesOf (labelsOf highVol up down ranging)) =
      [[((up : ℕ) : ℤ)], [((down : ℕ) : ℤ)], [((ranging : ℕ) : ℤ)], [((highVol : ℕ) : ℤ)]] := by
    revert highVol up down ranging
    decide
  have hposterior : ∀ (row : Fin 4 → K) (s : Fin 4), posteriorOf zero row ((s : ℕ) : ℤ) = row s := by
    intro row s
    rw [posteriorOf, dif_pos (by simp)]
    rfl
  unfold orderMatrix
  dsimp only
  rw [hchecked]
  refine congrArg Except.ok (List.map_congr_left fun row _ => ?_)
  have hcolumns := congrArg (List.map fun states : List ℤ =>
    if states.isEmpty then zero else sum (states.map (posteriorOf zero row))) hstates
  rw [List.map_map] at hcolumns
  refine hcolumns.trans ?_
  simp only [List.map_cons, List.map_nil, List.isEmpty_cons, Bool.false_eq_true, if_false, hsum,
    hposterior]

/-- Renumbering the states of a model changes no ordered posterior. -/
theorem orderMatrix_relabel {rows : Fin 4 → Column cols Binary64} (hsum : ∀ x, sum [x] = x)
    (hvol : featureNames.idxOf? "volatility_20" = some (vol : ℕ))
    (hatr : featureNames.idxOf? "atr_14" = some (atr : ℕ))
    (hret : featureNames.idxOf? directionFeature = some (ret : ℕ))
    (hvolDiffer : Differ (volScore rows vol atr)) (hretDiffer : Differ fun s => rows s ret)
    (σ : Equiv.Perm (Fin 4)) :
    ∃ mapping renumbered,
      mapStatesToLabels (meansOf rows) featureNames directionFeature = .ok mapping ∧
        mapStatesToLabels (meansOf fun s => rows (σ s)) featureNames directionFeature =
          .ok renumbered ∧
          ∀ posteriors : List (Fin 4 → K),
            orderMatrix zero sum (posteriors.map fun row s => row (σ s)) renumbered =
              orderMatrix zero sum posteriors mapping := by
  obtain ⟨highVol, up, down, ranging, hranks⟩ := exists_ranks hvolDiffer hretDiffer
  refine ⟨_, _, mapStatesToLabels_meansOf hvol hatr hret hranks,
    mapStatesToLabels_meansOf hvol hatr hret (hranks.relabel σ), fun posteriors => ?_⟩
  rw [orderMatrix_labelsOf hsum, orderMatrix_labelsOf hsum,
    List.map_map]
  refine congrArg Except.ok (List.map_congr_left fun row _ => ?_)
  simp only [Function.comp_apply, Equiv.apply_symm_apply]

end

/-- The four states of a model that was fitted twice, the most volatile one last and first. -/
theorem orderMatrix_relabel_swap :
    let rows : Fin 4 → Column 3 Binary64 := ![![.ofRat 1, .ofRat 2, .ofRat 2],
      ![.ofRat (-1), .ofRat 3, .ofRat 2], ![.zero, .ofRat 1, .ofRat 1], ![.ofRat 3, .ofRat 5, .ofRat 4]]
    let names := ["returns_1", "volatility_20", "atr_14"]
    let row : Fin 4 → ℚ := ![1 / 2, 1 / 4, 1 / 8, 1 / 8]
    let σ : Equiv.Perm (Fin 4) := Equiv.swap 0 3
    ∃ mapping renumbered, mapStatesToLabels (meansOf rows) names = .ok mapping ∧
      mapStatesToLabels (meansOf fun s => rows (σ s)) names = .ok renumbered ∧
        orderMatrix 0 List.sum [fun s => row (σ s)] renumbered =
          orderMatrix 0 List.sum [row] mapping := by
  intro rows names row σ
  have hvol : names.idxOf? "volatility_20" = some ((1 : Fin 3) : ℕ) := rfl
  have hatr : names.idxOf? "atr_14" = some ((2 : Fin 3) : ℕ) := rfl
  have hret : names.idxOf? "returns_1" = some ((0 : Fin 3) : ℕ) := rfl
  have hvolDiffer : Differ (volScore rows 1 2) := by decide +kernel
  have hretDiffer : Differ fun s => rows s 0 := by decide +kernel
  have hsum : ∀ x : ℚ, [x].sum = x := fun x => List.sum_singleton
  obtain ⟨mapping, renumbered, hmapping, hrenumbered, hequal⟩ :=
    orderMatrix_relabel hsum hvol hatr hret hvolDiffer hretDiffer σ
  exact ⟨mapping, renumbered, hmapping, hrenumbered, hequal [row]⟩

end System2
