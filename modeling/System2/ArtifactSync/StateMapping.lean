import System2.ArtifactSync.OrderedMass
import System2.Foundation.FirstPick

/-!
# The labels of the states (`artifact_sync/regime_mapping.py`)

A fitted model numbers its states as it likes. `map_states_to_labels` names them by their
means: the most volatile state first, then the highest and the lowest direction of the rest,
then the first of what remains. The names of two features may be missing, a column may be out
of range, and the search for a state that remains may find none.

## Implementation notes

`max` and `min` over a dictionary keep the first key that no later one beats, and a
comparison with a NaN is false. The columns and the labels are two definitions.
-/

namespace System2
open Foundation

/-! ### The comparisons -/

/-- `x > y`, by which `max` replaces its best key. -/
def above (x y : Binary64) : Bool := y.lt x

/-- How `np.argmax` replaces its best place. -/
def outranks (x top : Binary64) : Bool := top ≠ .nan ∧ (x = .nan ∨ top.lt x)

theorem strict_above : StrictlyBeats above where
  irrefl x := by
    by_contra h
    rw [Bool.not_eq_false, above] at h
    have hback := Binary64.lt_asymm h
    rw [h] at hback
    cases hback
  trans := fun hab hbc => Binary64.lt_lt_trans hbc hab

theorem strict_outranks : StrictlyBeats outranks where
  irrefl x := by
    have h := strict_above.irrefl x
    rw [above] at h
    simp [outranks, h]
  trans := by
    intro a b c hab hbc
    simp only [outranks, decide_eq_true_eq] at hab hbc ⊢
    refine ⟨hbc.1, hab.2.imp_right fun hlt => ?_⟩
    exact Binary64.lt_lt_trans (hbc.2.resolve_left hab.1) hlt

/-- The loop of `np.argmax` is a scan over the places. -/
theorem argmaxFrom_eq_pickFrom (scores : List Binary64) : ∀ {rest : List Binary64} {i : ℕ} (best : ℕ),
    rest = scores.drop i →
    argmaxFrom best (scores.getD best .nan) i rest =
      pickFrom outranks (fun k => scores.getD k .nan) best (List.range' i rest.length)
  | [], _, _, _ => rfl
  | x :: rest, i, best, hdrop => by
      have hx : scores.getD i .nan = x := by
        rw [List.getD_eq_getElem?_getD, ← List.head?_drop, ← hdrop]
        rfl
      have hrest : rest = scores.drop (i + 1) := by
        rw [← List.tail_drop, ← hdrop]
        rfl
      rw [argmaxFrom]
      split_ifs with htop hx'
      · refine ((strict_outranks.pickFrom_eq_self_iff).mpr fun k _ => ?_).symm
        rw [htop]
        simp [outranks]
      · have hbeats : outranks (scores.getD i .nan) (scores.getD best .nan) = true := by
          rw [hx, outranks, decide_eq_true_eq]
          exact ⟨htop, hx'⟩
        rw [List.length_cons, List.range'_succ, pickFrom, if_pos hbeats,
          ← argmaxFrom_eq_pickFrom scores i hrest, hx]
      · have hbeats : ¬ outranks (scores.getD i .nan) (scores.getD best .nan) = true := by
          rw [hx, outranks, decide_eq_true_eq]
          exact fun h => hx' h.2
        rw [List.length_cons, List.range'_succ, pickFrom, if_neg hbeats,
          ← argmaxFrom_eq_pickFrom scores best hrest]

theorem argmax_eq_pick (scores : List Binary64) :
    argmax scores = orErr .valueError
      (pick outranks (fun k => scores.getD k .nan) (List.range scores.length)) := by
  cases scores with
  | nil => rfl
  | cons x rest =>
      rw [List.length_cons, List.range_eq_range', List.range'_succ]
      exact congrArg Except.ok (argmaxFrom_eq_pickFrom (x :: rest) 0 rfl)

/-! ### The mapping -/

/-- `a[i, j]`. -/
def Array2.cell (a : Array2) (i j : ℕ) : Except PyErr Binary64 :=
  orErr .indexError (a.rows[i]?.bind fun row => if h : j < a.cols then some (row ⟨j, h⟩) else none)

/-- `a[:, j]`. -/
def Array2.column (a : Array2) (j : ℕ) : Except PyErr (List Binary64) :=
  if h : j < a.cols then .ok (a.rows.map fun row => row ⟨j, h⟩) else .error .indexError

/-- The columns of `map_states_to_labels`: the most volatile state, and the mean direction of
each of the others. -/
def directionScores (means : Array2) (featureNames : List String) (directionFeature : String) :
    Except PyErr (ℕ × List (ℕ × Binary64)) := do
  let volI ← orErr .valueError (featureNames.idxOf? "volatility_20")
  let atrI ← orErr .valueError (featureNames.idxOf? "atr_14")
  let retI ← orErr .valueError (featureNames.idxOf? directionFeature)
  let vol ← means.column volI
  let atr ← means.column atrI
  let highVol ← argmax (List.zipWith Binary64.add vol atr)
  let remaining := (List.range means.rows.length).filter fun i => i ≠ highVol
  let retScores ← remaining.mapM fun i => (means.cell i retI).map fun score => (i, score)
  return (highVol, retScores)

/-- The labels of `map_states_to_labels`: a later label of one state stands. -/
def labelStates (highVol : ℕ) (retScores : List (ℕ × Binary64)) :
    Except PyErr (OrderedDict ℤ String) := do
  let up ← orErr .valueError (pick above Prod.snd retScores)
  let down ← orErr .valueError (pick (fun x y => above y x) Prod.snd retScores)
  let ranging ← orErr .indexError
    ((retScores.map Prod.fst).filter fun i => i ≠ up.1 ∧ i ≠ down.1).head?
  return .ofPairs [((highVol : ℤ), "High-Vol"), ((up.1 : ℤ), "Trending-Up"),
    ((down.1 : ℤ), "Trending-Down"), ((ranging : ℤ), "Ranging")]

/-- `map_states_to_labels`. -/
def mapStatesToLabels (means : Array2) (featureNames : List String)
    (directionFeature : String := "returns_1") : Except PyErr (OrderedDict ℤ String) := do
  let (highVol, retScores) ← directionScores means featureNames directionFeature
  labelStates highVol retScores

/-! ### What is labelled -/

/-- No remaining direction differs from the first one. A NaN differs from nothing. -/
def AllTied (retScores : List (ℕ × Binary64)) : Prop :=
  ∀ first ∈ retScores.head?, ∀ e ∈ retScores,
    above e.2 first.2 = false ∧ above first.2 e.2 = false

/-- The most volatile state and the remaining ones of some states. -/
structure Scored (n highVol : ℕ) (retScores : List (ℕ × Binary64)) : Prop where
  lt : highVol < n
  keys : retScores.map Prod.fst = (List.range n).filter fun i => i ≠ highVol

section
variable {n highVol : ℕ} {retScores : List (ℕ × Binary64)} {means : Array2}
  {featureNames : List String} {directionFeature : String} {mapping : OrderedDict ℤ String}
  {up down : ℕ × Binary64} {ranging : ℕ}

theorem length_column {j : ℕ} {col : List Binary64} (h : means.column j = .ok col) :
    col.length = means.rows.length := by
  unfold Array2.column at h
  split_ifs at h
  rw [← Except.ok.inj h, List.length_map]

theorem keys_of_mapM {states : List ℕ} {score : ℕ → Except PyErr Binary64}
    (h : (states.mapM fun i => (score i).map fun x => (i, x)) = .ok retScores) :
    retScores.map Prod.fst = states := by
  have hpairs := mapM_eq_ok_iff.mp h
  clear h
  induction hpairs with
  | nil => rfl
  | @cons i e _ _ hhead _ ih =>
      have hkey : e.1 = i := by
        cases hscore : score i with
        | error err =>
            rw [hscore] at hhead
            cases hhead
        | ok x =>
            rw [hscore] at hhead
            rw [← Except.ok.inj hhead]
      rw [List.map_cons, ih, hkey]

theorem scored_of_directionScores
    (h : directionScores means featureNames directionFeature = .ok (highVol, retScores)) :
    Scored means.rows.length highVol retScores := by
  obtain ⟨volI, -, h⟩ := bind_eq_ok_iff.mp h
  obtain ⟨atrI, -, h⟩ := bind_eq_ok_iff.mp h
  obtain ⟨retI, -, h⟩ := bind_eq_ok_iff.mp h
  obtain ⟨vol, hvol, h⟩ := bind_eq_ok_iff.mp h
  obtain ⟨atr, hatr, h⟩ := bind_eq_ok_iff.mp h
  obtain ⟨best, hbest, h⟩ := bind_eq_ok_iff.mp h
  obtain ⟨scores, hscores, h⟩ := bind_eq_ok_iff.mp h
  obtain ⟨rfl, rfl⟩ := Prod.mk.inj (Except.ok.inj h)
  constructor
  · rw [argmax_eq_pick] at hbest
    have hmem := List.mem_range.mp (pick_mem (orErr_ok hbest))
    rwa [List.length_zipWith, length_column hvol, length_column hatr, Nat.min_self] at hmem
  · exact keys_of_mapM hscores

theorem Scored.length (h : Scored n highVol retScores) : retScores.length + 1 = n := by
  have hlength := congrArg List.length h.keys
  rw [List.length_map] at hlength
  have herase : ((List.range n).filter fun i => i ≠ highVol).length = n - 1 := by
    have hfilter : ((List.range n).filter fun i => i ≠ highVol) = (List.range n).erase highVol := by
      rw [List.nodup_range.erase_eq_filter]
      exact List.filter_congr fun i _ => by by_cases hi : i = highVol <;> simp [hi]
    rw [hfilter, List.length_erase_of_mem (List.mem_range.mpr h.lt), List.length_range]
  have hlt := h.lt
  omega

theorem Scored.nodup (h : Scored n highVol retScores) : (retScores.map Prod.fst).Nodup := by
  rw [h.keys]
  exact List.nodup_range.filter _

/-- The scans for the highest and the lowest direction meet exactly if all are tied. -/
theorem up_eq_down_iff (hup : pick above Prod.snd retScores = some up)
    (hdown : pick (fun x y => above y x) Prod.snd retScores = some down) :
    up = down ↔ AllTied retScores := by
  cases retScores with
  | nil => cases hup
  | cons first rest =>
      rw [← Option.some.inj hup, ← Option.some.inj hdown, strict_above.pickFrom_eq_flip_iff]
      have hself : above first.2 first.2 = false := strict_above.irrefl _
      simp [AllTied, hself]

/-- A list without duplicates has a third element exactly if it is long enough. -/
theorem exists_other_iff {keys : List ℕ} (hnodup : keys.Nodup) {a b : ℕ} (ha : a ∈ keys)
    (hb : b ∈ keys) :
    (∃ i ∈ keys, i ≠ a ∧ i ≠ b) ↔ (if a = b then 1 else 2) < keys.length := by
  have hpair : ({a, b} : Finset ℕ).card = if a = b then 1 else 2 := by
    split_ifs with hab
    · simp [hab]
    · exact Finset.card_pair hab
  have hsub : ({a, b} : Finset ℕ) ⊆ keys.toFinset := by
    intro i hi
    rw [List.mem_toFinset]
    rcases Finset.mem_insert.mp hi with rfl | hi
    · exact ha
    · exact Finset.mem_singleton.mp hi ▸ hb
  rw [← hpair, ← List.toFinset_card_of_nodup hnodup]
  constructor
  · rintro ⟨i, hi, hia, hib⟩
    refine Finset.card_lt_card (hsub.ssubset_of_not_subset fun h => ?_)
    have hmem := h (List.mem_toFinset.mpr hi)
    simp [hia, hib] at hmem
  · intro hlt
    obtain ⟨i, hi, hnot⟩ := Finset.exists_mem_notMem_of_card_lt_card hlt
    simp only [Finset.mem_insert, Finset.mem_singleton, not_or] at hnot
    exact ⟨i, List.mem_toFinset.mp hi, hnot⟩

theorem labelStates_eq_ok_iff : labelStates highVol retScores = .ok mapping ↔
    ∃ up down ranging, pick above Prod.snd retScores = some up ∧
      pick (fun x y => above y x) Prod.snd retScores = some down ∧
      ((retScores.map Prod.fst).filter fun i => i ≠ up.1 ∧ i ≠ down.1).head? = some ranging ∧
      mapping = .ofPairs [((highVol : ℤ), "High-Vol"), ((up.1 : ℤ), "Trending-Up"),
        ((down.1 : ℤ), "Trending-Down"), ((ranging : ℤ), "Ranging")] := by
  unfold labelStates
  simp only [bind_eq_ok_iff, orErr_eq_ok_iff, pure, Except.pure, Except.ok.injEq]
  constructor
  · rintro ⟨up, hup, down, hdown, ranging, hranging, rfl⟩
    exact ⟨up, down, ranging, hup, hdown, hranging, rfl⟩
  · rintro ⟨up, down, ranging, hup, hdown, hranging, rfl⟩
    exact ⟨up, hup, down, hdown, ranging, hranging, rfl⟩

theorem Scored.key_eq_iff (h : Scored n highVol retScores) (hup : up ∈ retScores)
    (hdown : down ∈ retScores) : up.1 = down.1 ↔ up = down :=
  ⟨fun heq => List.inj_on_of_nodup_map h.nodup hup hdown heq, fun heq => congrArg Prod.fst heq⟩

/-- The labels are found with four states, and with three that leave two tied ones. -/
theorem Scored.labelStates_returns_iff (h : Scored n highVol retScores) :
    (∃ mapping, labelStates highVol retScores = .ok mapping) ↔
      4 ≤ n ∨ n = 3 ∧ AllTied retScores := by
  have hlength := h.length
  by_cases hempty : retScores = []
  · subst hempty
    rw [List.length_nil] at hlength
    constructor
    · rintro ⟨mapping, hmapping⟩
      cases hmapping
    · omega
  · obtain ⟨up, hup⟩ := Option.isSome_iff_exists.mp
      ((isSome_pick above Prod.snd).mpr hempty)
    obtain ⟨down, hdown⟩ := Option.isSome_iff_exists.mp
      ((isSome_pick (fun x y => above y x) Prod.snd).mpr hempty)
    have hthird := exists_other_iff h.nodup (List.mem_map_of_mem (pick_mem hup))
      (List.mem_map_of_mem (pick_mem hdown))
    have hreturns : (∃ mapping, labelStates highVol retScores = .ok mapping) ↔
        ∃ i ∈ retScores.map Prod.fst, i ≠ up.1 ∧ i ≠ down.1 := by
      simp only [labelStates_eq_ok_iff, hup, hdown]
      constructor
      · rintro ⟨_, up', down', ranging, hup', hdown', hranging, -⟩
        obtain rfl := Option.some.inj hup'
        obtain rfl := Option.some.inj hdown'
        obtain ⟨hmem, hne⟩ := List.mem_filter.mp (List.mem_of_mem_head? hranging)
        exact ⟨ranging, hmem, of_decide_eq_true hne⟩
      · rintro ⟨i, hi, hne⟩
        have hsome : ((retScores.map Prod.fst).filter
            fun i => i ≠ up.1 ∧ i ≠ down.1).head?.isSome = true := by
          rw [List.isSome_head?, ne_eq, List.filter_eq_nil_iff]
          exact fun hnone => hnone i hi (decide_eq_true hne)
        obtain ⟨ranging, hranging⟩ := Option.isSome_iff_exists.mp hsome
        exact ⟨_, up, down, ranging, rfl, rfl, hranging, rfl⟩
    have htied : up.1 = down.1 ↔ AllTied retScores :=
      (h.key_eq_iff (pick_mem hup) (pick_mem hdown)).trans (up_eq_down_iff hup hdown)
    rw [hreturns, hthird, List.length_map, ← htied]
    split_ifs with hkey
    · simp only [hkey, and_true]
      omega
    · simp only [hkey, and_false, or_false]
      omega

/-- The states that a found mapping labels: three if the directions are all tied, else four. -/
theorem Scored.labelled (h : Scored n highVol retScores)
    (hmapping : labelStates highVol retScores = .ok mapping) :
    ∃ labelled ⊆ Finset.range n, (AllTied retScores ∧ labelled.card = 3 ∨
        ¬ AllTied retScores ∧ labelled.card = 4) ∧
      (∀ s ∈ mapping.map Prod.fst, 0 ≤ s ∧ s < n) ∧
      ∀ s : ℕ, (∃ label ∈ semanticOrder, mapping.get? (s : ℤ) = some label) ↔ s ∈ labelled := by
  obtain ⟨up, down, ranging, hup, hdown, hranging, rfl⟩ := labelStates_eq_ok_iff.mp hmapping
  obtain ⟨hrangingMem, hother⟩ := List.mem_filter.mp (List.mem_of_mem_head? hranging)
  have hremaining : ∀ i ∈ retScores.map Prod.fst, i < n ∧ i ≠ highVol := by
    intro i hi
    rw [h.keys, List.mem_filter, List.mem_range] at hi
    exact ⟨hi.1, of_decide_eq_true hi.2⟩
  have hupKey := hremaining up.1 (List.mem_map_of_mem (pick_mem hup))
  have hdownKey := hremaining down.1 (List.mem_map_of_mem (pick_mem hdown))
  have hrangingKey := hremaining ranging hrangingMem
  obtain ⟨hrangingUp, hrangingDown⟩ := of_decide_eq_true hother
  have htied : up.1 = down.1 ↔ AllTied retScores :=
    (h.key_eq_iff (pick_mem hup) (pick_mem hdown)).trans (up_eq_down_iff hup hdown)
  have hkeys : ∀ s : ℤ, s ∈ (OrderedDict.ofPairs [((highVol : ℤ), "High-Vol"),
      ((up.1 : ℤ), "Trending-Up"), ((down.1 : ℤ), "Trending-Down"),
      ((ranging : ℤ), "Ranging")]).map Prod.fst ↔
        s = highVol ∨ s = up.1 ∨ s = down.1 ∨ s = ranging := by
    intro s
    rw [OrderedDict.mem_keys_ofPairs]
    simp
  refine ⟨{highVol, up.1, down.1, ranging}, ?_, ?_, ?_, ?_⟩
  · intro s hs
    simp only [Finset.mem_insert, Finset.mem_singleton] at hs
    rw [Finset.mem_range]
    rcases hs with rfl | rfl | rfl | rfl
    · exact h.lt
    · exact hupKey.1
    · exact hdownKey.1
    · exact hrangingKey.1
  · rw [← htied]
    by_cases heq : up.1 = down.1
    · refine Or.inl ⟨heq, ?_⟩
      rw [← heq, Finset.insert_idem, Finset.card_eq_three]
      exact ⟨highVol, up.1, ranging, hupKey.2.symm, hrangingKey.2.symm, hrangingUp.symm, rfl⟩
    · refine Or.inr ⟨heq, ?_⟩
      rw [Finset.card_insert_of_notMem, Finset.card_eq_three.mpr
        ⟨up.1, down.1, ranging, heq, hrangingUp.symm, hrangingDown.symm, rfl⟩]
      simp only [Finset.mem_insert, Finset.mem_singleton, not_or]
      exact ⟨hupKey.2.symm, hdownKey.2.symm, hrangingKey.2.symm⟩
  · intro s hs
    have hlt := h.lt
    rcases (hkeys s).mp hs with rfl | rfl | rfl | rfl <;> omega
  · intro s
    constructor
    · rintro ⟨label, -, hget⟩
      have hkey := (hkeys s).mp (OrderedDict.isSome_get?.mp (hget ▸ rfl))
      simpa only [Finset.mem_insert, Finset.mem_singleton, Nat.cast_inj] using hkey
    · intro hs
      have hkey : (s : ℤ) ∈ (OrderedDict.ofPairs [((highVol : ℤ), "High-Vol"),
          ((up.1 : ℤ), "Trending-Up"), ((down.1 : ℤ), "Trending-Down"),
          ((ranging : ℤ), "Ranging")]).map Prod.fst := by
        rw [hkeys]
        simpa only [Finset.mem_insert, Finset.mem_singleton, Nat.cast_inj] using hs
      obtain ⟨label, hget⟩ := Option.isSome_iff_exists.mp (OrderedDict.isSome_get?.mpr hkey)
      refine ⟨label, ?_, hget⟩
      have hpair := OrderedDict.mem_of_get?_ofPairs hget
      simp only [List.mem_cons, List.not_mem_nil, or_false, Prod.mk.injEq] at hpair
      rcases hpair with ⟨-, rfl⟩ | ⟨-, rfl⟩ | ⟨-, rfl⟩ | ⟨-, rfl⟩ <;> decide

/-! ### The mass under a found mapping -/

variable {K : Type} [Field K] [LinearOrder K] [IsStrictOrderedRing K]

/-- All the mass on one state. -/
def pointMass (s : Fin n) : Fin n → K := fun i => if i = s then 1 else 0

theorem isDistribution_pointMass (s : Fin n) : IsDistribution (pointMass (K := K) s) := by
  constructor
  · intro i
    unfold pointMass
    split_ifs
    · exact zero_le_one
    · exact le_rfl
  · simp [pointMass]

/-- Every distribution keeps its mass exactly if every state has a semantic label. -/
theorem keepsMass_iff_forall_semantic {pairs : List (ℤ × String)}
    (hrange : ∀ s ∈ (OrderedDict.ofPairs pairs).map Prod.fst, 0 ≤ s ∧ s < n) :
    (∀ row : Fin n → K, IsDistribution row → ∃ ordered,
        orderMatrix 0 List.sum [row] (OrderedDict.ofPairs pairs) = .ok [ordered] ∧
          Preserves (OrderedDict.ofPairs pairs) row ordered) ↔
      ∀ s : Fin n, Semantic (OrderedDict.ofPairs pairs) s := by
  have hreturns : ∀ row : Fin n → K,
      orderMatrix 0 List.sum [row] (OrderedDict.ofPairs pairs) = .ok [semanticOrder.map fun label =>
        ∑ s : Fin n with labelOf (OrderedDict.ofPairs pairs) s = some label, row s] := by
    intro row
    have hchecked : ((OrderedDict.ofPairs pairs).map Prod.fst).filter
        (fun s => s < 0 ∨ (n : ℤ) ≤ s) = [] := by
      rw [List.filter_eq_nil_iff]
      intro s hs
      have hbounds := hrange s hs
      rw [decide_eq_true_eq]
      omega
    have hok : ∃ ordered,
        orderMatrix 0 List.sum [row] (OrderedDict.ofPairs pairs) = .ok ordered := by
      unfold orderMatrix
      dsimp only
      rw [hchecked]
      exact ⟨_, rfl⟩
    obtain ⟨ordered, hordered⟩ := hok
    rw [hordered, orderMatrix_eq_ok hordered]
    rfl
  constructor
  · intro hkeeps s
    obtain ⟨ordered, hordered, hpreserves⟩ := hkeeps (pointMass s) (isDistribution_pointMass s)
    rw [hreturns, Except.ok.injEq, List.cons.injEq] at hordered
    rw [← hordered.1, preserves_iff (isDistribution_pointMass s)] at hpreserves
    by_contra hnot
    have hmass : ∑ i : Fin n with ¬ Semantic (OrderedDict.ofPairs pairs) i,
        pointMass (K := K) s i = 1 := by
      rw [Finset.sum_eq_single s]
      · exact if_pos rfl
      · exact fun i _ hne => if_neg hne
      · exact fun hmem => absurd (Finset.mem_filter.mpr ⟨Finset.mem_univ s, hnot⟩) hmem
    rw [hmass] at hpreserves
    exact one_ne_zero hpreserves
  · intro hall row hrow
    refine ⟨_, hreturns row, (preserves_iff hrow _).mpr (Finset.sum_eq_zero fun s hs => ?_)⟩
    exact absurd (hall s) (Finset.mem_filter.mp hs).2

/-- A mapping is found for four states or more, and for three of which the two less volatile
are tied. With it, every distribution keeps its mass for exactly three states, or for four with
different directions. -/
theorem mapStatesToLabels_mass
    (h : directionScores means featureNames directionFeature = .ok (highVol, retScores)) :
    ((∃ mapping, mapStatesToLabels means featureNames directionFeature = .ok mapping) ↔
        4 ≤ means.rows.length ∨ means.rows.length = 3 ∧ AllTied retScores) ∧
      ∀ mapping, mapStatesToLabels means featureNames directionFeature = .ok mapping →
        ((∀ row : Fin means.rows.length → K, IsDistribution row → ∃ ordered,
            orderMatrix 0 List.sum [row] mapping = .ok [ordered] ∧
              Preserves mapping row ordered) ↔
          means.rows.length = 3 ∨ means.rows.length = 4 ∧ ¬ AllTied retScores) := by
  have hscored := scored_of_directionScores h
  have hmap : mapStatesToLabels means featureNames directionFeature =
      labelStates highVol retScores := by
    rw [mapStatesToLabels, h]
    rfl
  rw [hmap]
  refine ⟨hscored.labelStates_returns_iff, fun mapping hmapping => ?_⟩
  have hfound := hscored.labelStates_returns_iff.mp ⟨mapping, hmapping⟩
  obtain ⟨labelled, hsub, hcard, hrange, hlabelled⟩ := hscored.labelled hmapping
  obtain ⟨_, _, _, -, -, -, hpairs⟩ := labelStates_eq_ok_iff.mp hmapping
  have hall : (∀ s : Fin means.rows.length, Semantic mapping s) ↔
      labelled.card = means.rows.length := by
    calc
      (∀ s : Fin means.rows.length, Semantic mapping s) ↔
          Finset.range means.rows.length ⊆ labelled := by
        constructor
        · exact fun hsem s hs => (hlabelled s).mp (hsem ⟨s, Finset.mem_range.mp hs⟩)
        · exact fun hcover s => (hlabelled s).mpr (hcover (Finset.mem_range.mpr s.isLt))
      _ ↔ labelled.card = means.rows.length := by
        constructor
        · intro hcover
          rw [hsub.antisymm hcover, Finset.card_range]
        · intro hfull
          rw [Finset.eq_of_subset_of_card_le hsub (by rw [Finset.card_range, hfull])]
  rw [hpairs] at hrange hall ⊢
  rw [keepsMass_iff_forall_semantic hrange, hall]
  by_cases htied : AllTied retScores
  · simp only [htied, not_true_eq_false, true_and, false_and, or_false, and_true,
      and_false] at hcard hfound ⊢
    omega
  · simp only [htied, not_false_eq_true, true_and, false_and, false_or, and_true, and_false,
      or_false] at hcard hfound ⊢
    omega

end

/-- Means of four states, by return, volatility and range. -/
def fourStates : Array2 where
  cols := 3
  rows := [![.ofRat 1, .ofRat 2, .ofRat 2], ![.ofRat (-1), .ofRat 2, .ofRat 2],
    ![.zero, .ofRat 1, .ofRat 1], ![.zero, .ofRat 5, .ofRat 4]]

theorem mapStatesToLabels_mass_four :
    let mapping := OrderedDict.ofPairs [((3 : ℤ), "High-Vol"), (0, "Trending-Up"),
      (1, "Trending-Down"), (2, "Ranging")]
    let row : Fin 4 → ℚ := ![1 / 2, 1 / 4, 1 / 8, 1 / 8]
    mapStatesToLabels fourStates ["returns_1", "volatility_20", "atr_14"] = .ok mapping ∧
      ∃ ordered, orderMatrix 0 List.sum [row] mapping = .ok [ordered] ∧
        Preserves mapping row ordered := by
  intro mapping row
  have hscores : directionScores fourStates ["returns_1", "volatility_20", "atr_14"] "returns_1" =
      .ok (3, [(0, .ofRat 1), (1, .ofRat (-1)), (2, .zero)]) := by
    decide +kernel
  have hdiffer : ¬ AllTied [(0, .ofRat 1), (1, .ofRat (-1)), (2, .zero)] := by
    intro htied
    have hnot := (htied (0, .ofRat 1) rfl (1, .ofRat (-1)) (by simp)).2
    have habove : above (.ofRat 1) (.ofRat (-1)) = true := by decide +kernel
    rw [habove] at hnot
    cases hnot
  have hmapping : mapStatesToLabels fourStates ["returns_1", "volatility_20", "atr_14"] =
      .ok mapping := by
    decide +kernel
  have hrow : IsDistribution row := ⟨by decide +kernel, by decide +kernel⟩
  exact ⟨hmapping, ((mapStatesToLabels_mass hscores).2 mapping hmapping).mpr
    (Or.inr ⟨rfl, hdiffer⟩) row hrow⟩

end System2
