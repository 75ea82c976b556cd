import System2.ArtifactSync.RegimeInference
import Mathlib.Algebra.BigOperators.Fin
import Mathlib.Algebra.Order.BigOperators.Group.Finset
import Mathlib.Algebra.Order.Field.Rat
import Mathlib.Algebra.Order.Ring.Defs

/-!
# The mass of the ordered probabilities

`order_probabilities` gives each semantic label the sum over its states. Where these sums are
exact, the row has the mass of the states that have a semantic label: a state that the
mapping leaves out, or maps to another label, takes its mass with it. A sum of floats that
rounds changes the mass too.

## Implementation notes

The sum is a parameter of the matrix form, so that one definition covers the floats of the
detector and exact numbers. The total of a row of floats is that of the numbers that they are.
-/

namespace System2
open Foundation

section
variable {K : Type} {n : ℕ}

/-- The posterior of a state. The states of a checked mapping are in range. -/
def posteriorOf (zero : K) (row : Fin n → K) (s : ℤ) : K :=
  if h : s.toNat < n then row ⟨s.toNat, h⟩ else zero

/-- The states that carry a label. -/
def statesOf (mapping : OrderedDict ℤ String) (label : String) : List ℤ :=
  (mapping.filter fun e => e.2 == label).map Prod.fst

/-- `order_probabilities`, row by row. -/
def orderMatrix (zero : K) (sum : List K → K) (posteriors : List (Fin n → K))
    (mapping : OrderedDict ℤ String) : Except Exc (List (List K)) :=
  let unknown := (mapping.map Prod.fst).filter fun s => s < 0 ∨ (n : ℤ) ≤ s
  if !unknown.isEmpty then
    .error ⟨.builtin .valueError, [.lit "mapping references states ",
      .val (.list ((unknown.mergeSort (· ≤ ·)).map .int)), .lit " outside the model's ",
      .val (.int n), .lit " states"]⟩
  else
    .ok (posteriors.map fun row => semanticOrder.map fun label =>
      let states := statesOf mapping label
      if states.isEmpty then zero else sum (states.map (posteriorOf zero row)))

/-- A mapping that the check lets through has its states in range. -/
theorem mem_range_of_checked {mapping : OrderedDict ℤ String}
    (h : (((mapping.map Prod.fst).filter fun s => s < 0 ∨ (n : ℤ) ≤ s).isEmpty) = true) {s : ℤ}
    (hs : s ∈ mapping.map Prod.fst) : 0 ≤ s ∧ s < n := by
  have hnone := List.filter_eq_nil_iff.mp (List.isEmpty_iff.mp h) s hs
  rw [decide_eq_true_eq] at hnone
  omega

/-- The detector orders the scores of its last bar as the matrix of that bar. -/
theorem orderProbabilities_eq_orderMatrix (np : Numerics) (row : Fin n → Binary64)
    (mapping : OrderedDict ℤ String) :
    (orderProbabilities np (List.ofFn row) mapping).map (fun ordered => [ordered]) =
      orderMatrix .zero np.sum [row] mapping := by
  unfold orderProbabilities orderMatrix
  rw [List.length_ofFn]
  dsimp only
  by_cases hchecked : ((mapping.map Prod.fst).filter fun s => s < 0 ∨ (n : ℤ) ≤ s).isEmpty = true
  · have hnot : ¬ (!((mapping.map Prod.fst).filter
        fun s => s < 0 ∨ (n : ℤ) ≤ s).isEmpty) = true := by
      rw [hchecked]
      decide
    rw [if_neg hnot, if_neg hnot]
    refine congrArg Except.ok (congrArg (fun ordered => [ordered]) (List.map_congr_left ?_))
    intro label hlabel
    have hstates : ∀ s ∈ statesOf mapping label,
        ((List.ofFn row)[s.toNat]?).getD .nan = posteriorOf .zero row s := by
      intro s hs
      obtain ⟨e, he, rfl⟩ := List.mem_map.mp hs
      obtain ⟨hlow, hhigh⟩ := mem_range_of_checked hchecked
        (List.mem_map_of_mem (List.mem_filter.mp he).1)
      have hlt : e.1.toNat < n := by omega
      rw [posteriorOf, dif_pos hlt, List.getElem?_ofFn, dif_pos hlt]
      rfl
    rw [← statesOf, List.map_congr_left hstates]
  · rw [Bool.not_eq_true] at hchecked
    have hunknown : (!((mapping.map Prod.fst).filter
        fun s => s < 0 ∨ (n : ℤ) ≤ s).isEmpty) = true := by
      rw [hchecked]
      decide
    rw [if_pos hunknown, if_pos hunknown]
    rfl

end

/-! ### Exact numbers -/

section
variable {K : Type} [AddCommGroup K] {n : ℕ} {pairs : List (ℤ × String)}

/-- The masses of some labels are the mass of the states that have one of them. -/
theorem sum_masses {ι κ : Type} [Fintype ι] [DecidableEq ι] [DecidableEq κ]
    (labelOf : ι → Option κ) (f : ι → K)
    {labels : List κ} (h : labels.Nodup) :
    (labels.map fun label => ∑ i with labelOf i = some label, f i).sum =
      ∑ i with ∃ label ∈ labels, labelOf i = some label, f i := by
  induction labels with
  | nil => simp
  | cons label rest ih =>
      obtain ⟨hlabel, hrest⟩ := List.nodup_cons.mp h
      have hdisjoint : Disjoint (Finset.univ.filter fun i => labelOf i = some label)
          (Finset.univ.filter fun i => ∃ other ∈ rest, labelOf i = some other) := by
        rw [Finset.disjoint_filter]
        rintro i - hi ⟨other, hother, hi'⟩
        rw [hi, Option.some.injEq] at hi'
        exact hlabel (hi' ▸ hother)
      rw [List.map_cons, List.sum_cons, ih hrest, ← Finset.sum_union hdisjoint, ← Finset.filter_or]
      simp only [List.exists_mem_cons_iff]

/-- The label of a state. -/
def labelOf (mapping : OrderedDict ℤ String) (s : Fin n) : Option String :=
  mapping.get? ((s : ℕ) : ℤ)

/-- The sum over the states that a mapping lists for a label. -/
theorem sum_statesOf (row : Fin n → K)
    (h : ∀ s ∈ (OrderedDict.ofPairs pairs).map Prod.fst, 0 ≤ s ∧ s < n) (label : String) :
    ((statesOf (OrderedDict.ofPairs pairs) label).map (posteriorOf 0 row)).sum =
      ∑ s : Fin n with labelOf (OrderedDict.ofPairs pairs) s = some label, row s := by
  have hkeys := OrderedDict.nodup_keys_ofPairs pairs
  have hmem : ∀ s : ℤ, s ∈ statesOf (OrderedDict.ofPairs pairs) label ↔
      (OrderedDict.ofPairs pairs).get? s = some label := by
    intro s
    rw [OrderedDict.get?_eq_some_iff hkeys, statesOf, List.mem_map]
    constructor
    · rintro ⟨⟨s', label'⟩, he, rfl⟩
      obtain ⟨he, hlabel⟩ := List.mem_filter.mp he
      exact beq_iff_eq.mp hlabel ▸ he
    · intro he
      exact ⟨(s, label), List.mem_filter.mpr ⟨he, beq_self_eq_true label⟩, rfl⟩
  have hnodup : (statesOf (OrderedDict.ofPairs pairs) label).Nodup :=
    hkeys.sublist (List.filter_sublist.map Prod.fst)
  rw [← List.sum_toFinset _ hnodup]
  symm
  refine Finset.sum_nbij (fun s => ((s : ℕ) : ℤ)) ?_ ?_ ?_ ?_
  · intro s hs
    rw [List.mem_toFinset, hmem]
    exact (Finset.mem_filter.mp hs).2
  · intro s hs s' hs' heq
    exact Fin.ext (by simpa using heq)
  · intro s hs
    have hget := (hmem s).mp (List.mem_toFinset.mp hs)
    obtain ⟨hlow, hhigh⟩ := h s (OrderedDict.isSome_get?.mp (hget ▸ rfl))
    obtain ⟨k, rfl⟩ := Int.eq_ofNat_of_zero_le hlow
    refine ⟨⟨k, by omega⟩, ?_, rfl⟩
    rw [Finset.mem_coe, Finset.mem_filter]
    exact ⟨Finset.mem_univ _, hget⟩
  · intro s hs
    rw [posteriorOf, dif_pos (by simp)]
    rfl

/-- The column of a label in a row. -/
def labelSum {K : Type} (zero : K) (sum : List K → K) (mapping : OrderedDict ℤ String)
    (row : Fin n → K) (label : String) : K :=
  if (statesOf mapping label).isEmpty then zero
  else sum ((statesOf mapping label).map (posteriorOf zero row))

/-- What a matrix becomes under a mapping that the check lets through. -/
theorem orderMatrix_rows {K : Type} {zero : K} {sum : List K → K} {posteriors : List (Fin n → K)}
    {mapping : OrderedDict ℤ String} {ordered : List (List K)}
    (h : orderMatrix zero sum posteriors mapping = .ok ordered) :
    (∀ s ∈ mapping.map Prod.fst, 0 ≤ s ∧ s < n) ∧
      ordered = posteriors.map fun row => semanticOrder.map (labelSum zero sum mapping row) := by
  unfold orderMatrix at h
  dsimp only at h
  split_ifs at h with hunknown
  exact ⟨fun s hs => mem_range_of_checked (by simpa using hunknown) hs, (Except.ok.inj h).symm⟩

/-- Over exact numbers a label has the mass of its states. -/
theorem labelSum_eq_sum (row : Fin n → K)
    (h : ∀ s ∈ (OrderedDict.ofPairs pairs).map Prod.fst, 0 ≤ s ∧ s < n) (label : String) :
    labelSum 0 List.sum (OrderedDict.ofPairs pairs) row label =
      ∑ s : Fin n with labelOf (OrderedDict.ofPairs pairs) s = some label, row s := by
  rw [← sum_statesOf row h, labelSum]
  split_ifs with hstates
  · rw [List.isEmpty_iff.mp hstates]
    rfl
  · rfl

theorem orderMatrix_eq_ok {posteriors : List (Fin n → K)} {ordered : List (List K)}
    (h : orderMatrix 0 List.sum posteriors (OrderedDict.ofPairs pairs) = .ok ordered) :
    ordered = posteriors.map fun row => semanticOrder.map fun label =>
      ∑ s : Fin n with labelOf (OrderedDict.ofPairs pairs) s = some label, row s := by
  obtain ⟨hrange, rfl⟩ := orderMatrix_rows h
  exact List.map_congr_left fun row _ => List.map_congr_left fun label _ =>
    labelSum_eq_sum row hrange label

/-- A state has a semantic label. -/
def Semantic (mapping : OrderedDict ℤ String) (s : Fin n) : Prop :=
  ∃ label ∈ semanticOrder, labelOf mapping s = some label

instance (mapping : OrderedDict ℤ String) : DecidablePred (Semantic (n := n) mapping) :=
  fun _ => inferInstanceAs (Decidable (∃ label ∈ semanticOrder, _))

/-- The masses of the semantic labels and that of the other states make up the row. -/
theorem masses_add_lost (mapping : OrderedDict ℤ String) (row : Fin n → K) :
    (semanticOrder.map fun label =>
        ∑ s : Fin n with labelOf mapping s = some label, row s).sum +
      ∑ s : Fin n with ¬ Semantic mapping s, row s = ∑ s, row s := by
  rw [sum_masses _ _ (by decide : semanticOrder.Nodup)]
  exact Finset.sum_filter_add_sum_filter_not Finset.univ (Semantic mapping) row

variable [PartialOrder K] [IsOrderedAddMonoid K] [One K]

/-- A row of probabilities. -/
def IsDistribution (row : Fin n → K) : Prop := (∀ i, 0 ≤ row i) ∧ ∑ i, row i = 1

/-- The ordered row has the mass of the posteriors, label by label. -/
structure Preserves (mapping : OrderedDict ℤ String) (row : Fin n → K) (ordered : List K) :
    Prop where
  nonneg : ∀ p ∈ ordered, 0 ≤ p
  total : ordered.sum = 1
  entries : ordered =
    semanticOrder.map fun label => ∑ s : Fin n with labelOf mapping s = some label, row s

/-- A row keeps its mass exactly if its states without a semantic label have none. -/
theorem preserves_iff {row : Fin n → K} (h : IsDistribution row)
    (mapping : OrderedDict ℤ String) :
    Preserves mapping row (semanticOrder.map fun label =>
        ∑ s : Fin n with labelOf mapping s = some label, row s) ↔
      ∑ s : Fin n with ¬ Semantic mapping s, row s = 0 := by
  have hmass := masses_add_lost mapping row
  rw [h.2] at hmass
  constructor
  · intro hpreserves
    rw [hpreserves.total] at hmass
    exact add_eq_left.mp hmass
  · intro hlost
    rw [hlost, add_zero] at hmass
    constructor
    · intro p hp
      obtain ⟨label, -, rfl⟩ := List.mem_map.mp hp
      exact Finset.sum_nonneg fun s _ => h.1 s
    · exact hmass
    · rfl

end

/-! ### Floats -/

section
variable {n : ℕ} {pairs : List (ℤ × String)} {sum : List Binary64 → Binary64}

/-- A row of floats that are no negative numbers. -/
def IsNonnegative (row : Fin n → Binary64) : Prop :=
  ∀ s, (row s).isFinite = true ∧ 0 ≤ (row s).value

/-- The ordered row has the mass of the posteriors, label by label: it sums to one if they do. -/
structure KeepsMass (mapping : OrderedDict ℤ String) (row : Fin n → Binary64)
    (ordered : List Binary64) : Prop where
  nonneg : ∀ p ∈ ordered, p.isFinite = true ∧ 0 ≤ p.value
  total : (ordered.map Binary64.value).sum = ∑ s, (row s).value
  entries : ordered.map Binary64.value =
    semanticOrder.map fun label => ∑ s : Fin n with labelOf mapping s = some label, (row s).value

/-- A sum of floats that does not round. -/
def SumsExactly (sum : List Binary64 → Binary64) (xs : List Binary64) : Prop :=
  (sum xs).isFinite = true ∧ (sum xs).value = (xs.map Binary64.value).sum

instance (xs : List Binary64) : Decidable (SumsExactly sum xs) :=
  inferInstanceAs (Decidable (_ ∧ _))

/-- The posteriors of a state as a float and as a number. -/
theorem value_posteriorOf (row : Fin n → Binary64) (s : ℤ) :
    (posteriorOf .zero row s).value = posteriorOf 0 (fun i => (row i).value) s := by
  unfold posteriorOf
  split_ifs
  · rfl
  · rfl

/-- A label has the mass of its states exactly if the sum over them does not round. -/
theorem labelSum_exact_iff (mapping : OrderedDict ℤ String) (row : Fin n → Binary64)
    (label : String) :
    (labelSum .zero sum mapping row label).isFinite = true ∧
        (labelSum .zero sum mapping row label).value =
          labelSum 0 List.sum mapping (fun s => (row s).value) label ↔
      (statesOf mapping label ≠ [] →
        SumsExactly sum ((statesOf mapping label).map (posteriorOf .zero row))) := by
  unfold labelSum SumsExactly
  by_cases hstates : statesOf mapping label = []
  · simp [hstates, Binary64.zero, Binary64.value]
  · have hvalues : ((statesOf mapping label).map (posteriorOf .zero row)).map Binary64.value =
        (statesOf mapping label).map (posteriorOf 0 fun s => (row s).value) := by
      rw [List.map_map]
      exact List.map_congr_left fun s _ => value_posteriorOf row s
    have hfull : ¬ (statesOf mapping label).isEmpty = true := by
      rwa [List.isEmpty_iff]
    rw [if_neg hfull, if_neg hfull, hvalues]
    exact ⟨fun h _ => h, fun h => h hstates⟩

/-- The sum of no label rounds exactly if every label has the mass of its states. -/
theorem sumsExactly_iff {row : Fin n → Binary64}
    (h : ∀ s ∈ (OrderedDict.ofPairs pairs).map Prod.fst, 0 ≤ s ∧ s < n) :
    (∀ label ∈ semanticOrder, statesOf (OrderedDict.ofPairs pairs) label ≠ [] →
        SumsExactly sum
          ((statesOf (OrderedDict.ofPairs pairs) label).map (posteriorOf .zero row))) ↔
      (∀ p ∈ semanticOrder.map (labelSum .zero sum (OrderedDict.ofPairs pairs) row),
          p.isFinite = true) ∧
        (semanticOrder.map (labelSum .zero sum (OrderedDict.ofPairs pairs) row)).map
            Binary64.value =
          semanticOrder.map fun label =>
            ∑ s : Fin n with labelOf (OrderedDict.ofPairs pairs) s = some label, (row s).value := by
  have hmasses : (semanticOrder.map fun label =>
      ∑ s : Fin n with labelOf (OrderedDict.ofPairs pairs) s = some label, (row s).value) =
        semanticOrder.map (labelSum 0 List.sum (OrderedDict.ofPairs pairs) fun s => (row s).value) :=
    List.map_congr_left fun label _ => (labelSum_eq_sum _ h label).symm
  rw [hmasses, List.forall_mem_map, List.map_map, List.map_inj_left, ← forall₂_and]
  exact forall₂_congr fun label _ => (labelSum_exact_iff _ row label).symm

/-- Where `order_probabilities` returns, a row keeps its mass exactly if the states without a
semantic label have none and the sum of no label rounds. -/
theorem orderMatrix_preserves_iff {posteriors : List (Fin n → Binary64)}
    {ordered : List (List Binary64)} (hrows : ∀ row ∈ posteriors, IsNonnegative row)
    (h : orderMatrix .zero sum posteriors (OrderedDict.ofPairs pairs) = .ok ordered) :
    List.Forall₂ (KeepsMass (OrderedDict.ofPairs pairs)) posteriors ordered ↔
      ∀ row ∈ posteriors,
        ∑ s : Fin n with ¬ Semantic (OrderedDict.ofPairs pairs) s, (row s).value = 0 ∧
          ∀ label ∈ semanticOrder, statesOf (OrderedDict.ofPairs pairs) label ≠ [] →
            SumsExactly sum
              ((statesOf (OrderedDict.ofPairs pairs) label).map (posteriorOf .zero row)) := by
  obtain ⟨hrange, rfl⟩ := orderMatrix_rows h
  rw [List.forall₂_map_right_iff, List.forall₂_same]
  refine forall₂_congr fun row hrow => ?_
  rw [sumsExactly_iff hrange]
  have hmass := masses_add_lost (OrderedDict.ofPairs pairs) fun s => (row s).value
  constructor
  · intro hkeeps
    rw [← hkeeps.entries, hkeeps.total] at hmass
    exact ⟨add_eq_left.mp hmass, fun p hp => (hkeeps.nonneg p hp).1, hkeeps.entries⟩
  · rintro ⟨hlost, hfinite, hentries⟩
    rw [hlost, add_zero, ← hentries] at hmass
    refine ⟨fun p hp => ⟨hfinite p hp, ?_⟩, hmass, hentries⟩
    have hvalue := List.mem_map_of_mem (f := Binary64.value) hp
    rw [hentries] at hvalue
    obtain ⟨label, -, hlabel⟩ := List.mem_map.mp hvalue
    rw [← hlabel]
    exact Finset.sum_nonneg fun s _ => (hrows row hrow s).2

/-- `np.sum` of a few floats. -/
def sumLeft (xs : List Binary64) : Binary64 := xs.foldl Binary64.add .zero

/-- A label with a small and a large posterior loses the small one. -/
example : ¬ SumsExactly sumLeft [.ofRat (1 / 2 ^ 54), .ofRat (1 / 2)] := by decide +kernel

/-- A mapping without the second state halves the mass of a row, and says nothing. -/
theorem orderMatrix_loses_mass :
    let row : Fin 2 → Binary64 := ![.ofRat (1 / 2), .ofRat (1 / 2)]
    let mapping := OrderedDict.ofPairs [((0 : ℤ), "Ranging")]
    IsNonnegative row ∧ ∑ s, (row s).value = 1 ∧
      orderMatrix .zero sumLeft [row] mapping = .ok [[.zero, .zero, .ofRat (1 / 2), .zero]] ∧
      ([.zero, .zero, .ofRat (1 / 2), .zero].map Binary64.value).sum ≠ 1 := by
  intro row mapping
  have hreturns : orderMatrix .zero sumLeft [row] mapping =
      .ok [[.zero, .zero, .ofRat (1 / 2), .zero]] := by
    rw [orderMatrix, if_neg (by decide)]
    exact congrArg Except.ok (by decide +kernel)
  exact ⟨by unfold IsNonnegative; decide +kernel, by decide +kernel, hreturns, by decide +kernel⟩

/-- Two states with one label and none with two others: the mass is kept. -/
theorem orderMatrix_preserves_iff_many :
    let row : Fin 2 → Binary64 := ![.ofRat (1 / 4), .ofRat (3 / 4)]
    let mapping := OrderedDict.ofPairs [((0 : ℤ), "Ranging"), (1, "Ranging")]
    List.Forall₂ (KeepsMass mapping) [row] [[.zero, .zero, .ofRat 1, .zero]] := by
  intro row mapping
  have hrows : ∀ r ∈ [row], IsNonnegative r := by
    intro r hr
    rw [List.mem_singleton.mp hr, IsNonnegative]
    decide +kernel
  have hreturns : orderMatrix .zero sumLeft [row] mapping =
      .ok [[.zero, .zero, .ofRat 1, .zero]] := by
    rw [orderMatrix, if_neg (by decide)]
    exact congrArg Except.ok (by decide +kernel)
  exact (orderMatrix_preserves_iff hrows hreturns).mpr (by decide +kernel)

end

end System2
