import System2.ArtifactSync.PersistenceSmooth

/-!
# The flicker of a list of labels (`artifact_sync/regime_mapping.py`)

`flicker_rate` is the share of bars that change the label. A smoothed list is the list with
some labels written over by the one before them, or at the head by the one behind, and that
adds no change. A list that has no short segment is left as it is.

## Implementation notes

An array of texts pads its entries with NUL characters, so two labels that differ in trailing
NUL characters only are equal there. The length of a list fits a machine word.
-/

namespace System2
open Foundation Runs

/-- An entry of an array of texts. -/
def npText (label : String) : List Char :=
  (label.toList.reverse.dropWhile (· == Char.ofNat 0)).reverse

/-- `(arr[1:] != arr[:-1]).sum()`. -/
def labelChanges (labels : List String) : ℕ :=
  (List.zipWith (fun later earlier => decide (npText later ≠ npText earlier)) labels.tail
    labels.dropLast).count true

/-- `flicker_rate`. -/
def flickerRate (labels : List String) : Except PyErr Binary64 :=
  if labels.length < 2 then .ok .zero
  else orErr .zeroDivisionError
    ((Binary64.ofRat (labelChanges labels)).div? (.ofRat ((labels.length - 1 : ℕ) : ℚ)))

theorem labelChanges_eq_changes (labels : List String) :
    labelChanges labels = changes npText labels := by
  induction labels with
  | nil => rfl
  | cons a rest ih =>
      cases rest with
      | nil => rfl
      | cons b rest =>
          have hhead : labelChanges (a :: b :: rest) =
              (if npText b ≠ npText a then 1 else 0) + labelChanges (b :: rest) := by
            unfold labelChanges
            simp only [List.tail_cons, List.dropLast_cons_cons, List.zipWith_cons_cons,
              List.count_cons, beq_iff_eq, decide_eq_true_eq]
            rw [Nat.add_comm]
          rw [hhead, ih, changes]

variable {β : Type} [DecidableEq β] (f : String → β)

/-! ### The changes of a smoothed list -/

/-- Behind a label, the loop adds no change. -/
theorem changes_smoothSegments_le (minBars : ℤ) {rs : List (String × ℕ)} (hrs : ∀ r ∈ rs, 0 < r.2)
    (prev : String) :
    changes f (prev :: smoothSegments minBars (some prev) rs) ≤ changes f (prev :: expand rs) := by
  induction rs generalizing prev with
  | nil => exact Nat.le_refl _
  | cons r rest ih =>
      obtain ⟨label, length⟩ := r
      obtain ⟨hlength, hrest⟩ := List.forall_mem_cons.mp hrs
      have hwritten : ∀ written later, changes f (prev :: (List.replicate length written ++ later)) =
          (if f written ≠ f prev then 1 else 0) + changes f (written :: later) := by
        intro written later
        rw [← changes_replicate_append f hlength written later]
        obtain ⟨k, rfl⟩ := Nat.exists_eq_add_one_of_ne_zero (Nat.pos_iff_ne_zero.mp hlength)
        rfl
      rw [smoothSegments, expand_cons, hwritten, hwritten]
      by_cases hshort : (length : ℤ) < minBars
      · simp only [hshort, if_true, Option.getD_some, ne_eq, not_true_eq_false, if_false,
          Nat.zero_add]
        calc
          changes f (prev :: smoothSegments minBars (some prev) rest) ≤
              changes f (prev :: expand rest) := ih hrest prev
          _ ≤ changes f (prev :: label :: expand rest) := changes_cons_le f prev label _
          _ = (if ¬ f label = f prev then 1 else 0) + changes f (label :: expand rest) := rfl
      · simp only [hshort, if_false]
        exact Nat.add_le_add_left (ih hrest label) _

/-- The pass over the head adds no change. -/
theorem changes_smoothHead_le (minBars : ℤ) {rs : List (String × ℕ)} (h : Maximal rs) :
    changes f (smoothHead minBars (expand rs)) ≤ changes f (expand rs) := by
  cases rs with
  | nil => exact Nat.le_refl _
  | cons r rest =>
      obtain ⟨label, k⟩ := r
      rw [smoothHead_expand minBars h]
      cases rest with
      | nil => simp
      | cons s rest =>
          obtain ⟨next, n⟩ := s
          dsimp only
          split_ifs with hshort
          · have hk := h.positive (label, k) List.mem_cons_self
            have hn := h.positive (next, n) (List.mem_cons_of_mem _ List.mem_cons_self)
            obtain ⟨j, rfl⟩ := Nat.exists_eq_add_one_of_ne_zero (Nat.pos_iff_ne_zero.mp hn)
            rw [changes_replicate_append f (Nat.add_pos_left hk _), expand_cons,
              changes_replicate_append f hk, expand_cons]
            calc
              changes f (next :: expand rest) =
                  changes f (List.replicate (j + 1) next ++ expand rest) :=
                (changes_replicate_append f hn next (expand rest)).symm
              _ ≤ changes f (label :: (List.replicate (j + 1) next ++ expand rest)) :=
                Nat.le_add_left _ _
          · exact Nat.le_refl _

/-- Smoothing adds no change. -/
theorem changes_persistenceSmooth_le (minBars : ℤ) (labels : List String) :
    changes f (persistenceSmooth minBars labels) ≤ changes f labels := by
  by_cases hempty : labels = []
  · subst hempty
    exact Nat.le_refl _
  obtain ⟨label, n, tail, hloop, hmaximal, -⟩ := persistenceSmooth_runs minBars labels hempty
  rw [persistenceSmooth, hloop]
  refine Nat.le_trans (changes_smoothHead_le f minBars hmaximal) ?_
  rw [← hloop]
  have hpositive := (maximal_runs labels).positive
  have hexpand := expand_runs labels
  cases hruns : runs labels with
  | nil =>
      rw [hruns] at hexpand
      exact absurd hexpand.symm hempty
  | cons r rest =>
      obtain ⟨first, k⟩ := r
      rw [hruns] at hpositive hexpand
      obtain ⟨hk, hrest⟩ := List.forall_mem_cons.mp hpositive
      have hwritten : (if (k : ℤ) < minBars then (none : Option String).getD first else first) =
          first := ite_self first
      rw [← hexpand, smoothSegments, hwritten, expand_cons, changes_replicate_append f hk,
        changes_replicate_append f hk]
      exact changes_smoothSegments_le f minBars hrest first

/-! ### The lists that smoothing leaves alone -/

/-- A list has no short segment: one segment is all of it, or none is short. -/
def NoShortSegment (minBars : ℤ) (labels : List String) : Prop :=
  (runs labels).length ≤ 1 ∨ ∀ r ∈ runs labels, minBars ≤ (r.2 : ℤ)

theorem smoothSegments_of_long {minBars : ℤ} {rs : List (String × ℕ)}
    (h : ∀ r ∈ rs, minBars ≤ (r.2 : ℤ)) (prev : Option String) :
    smoothSegments minBars prev rs = expand rs := by
  induction rs generalizing prev with
  | nil => rfl
  | cons r rest ih =>
      obtain ⟨label, length⟩ := r
      obtain ⟨hlong, hrest⟩ := List.forall_mem_cons.mp h
      have hkept : (if (length : ℤ) < minBars then prev.getD label else label) = label :=
        if_neg (not_lt.mpr hlong)
      rw [smoothSegments, hkept, expand_cons, ih hrest]

/-- A list without short segments is smooth. -/
theorem persistenceSmooth_of_noShortSegment {minBars : ℤ} {labels : List String}
    (h : NoShortSegment minBars labels) : persistenceSmooth minBars labels = labels := by
  have hmaximal := maximal_runs labels
  have hexpand := expand_runs labels
  unfold persistenceSmooth
  rcases h with hone | hlong
  · cases hruns : runs labels with
    | nil =>
        rw [hruns] at hexpand
        rw [← hexpand]
        rfl
    | cons r rest =>
        obtain ⟨label, k⟩ := r
        rw [hruns] at hone hmaximal hexpand
        obtain rfl : rest = [] := List.length_eq_zero_iff.mp
          (Nat.le_zero.mp (Nat.le_of_succ_le_succ hone))
        have hloop : smoothSegments minBars none [(label, k)] = expand [(label, k)] := by
          simp [smoothSegments]
        rw [hloop, smoothHead_expand minBars hmaximal, ← hexpand]
        simp
  · rw [smoothSegments_of_long hlong]
    cases hruns : runs labels with
    | nil =>
        rw [hruns] at hexpand
        rw [← hexpand]
        rfl
    | cons r rest =>
        obtain ⟨label, k⟩ := r
        rw [hruns] at hlong hmaximal hexpand
        have hfirst := hlong (label, k) List.mem_cons_self
        rw [smoothHead_expand minBars hmaximal]
        cases rest with
        | nil => simpa using hexpand
        | cons s rest => simpa [not_lt.mpr hfirst] using hexpand

/-- Smoothing is a projection on the lists without short segments. -/
theorem persistenceSmooth_projects (minBars : ℤ) (labels : List String) :
    (persistenceSmooth minBars labels = labels ↔ NoShortSegment minBars labels) ∧
      persistenceSmooth minBars (persistenceSmooth minBars labels) =
        persistenceSmooth minBars labels := by
  have hsmooth : NoShortSegment minBars (persistenceSmooth minBars labels) :=
    runs_persistenceSmooth minBars labels
  refine ⟨⟨fun h => h ▸ hsmooth, persistenceSmooth_of_noShortSegment⟩, ?_⟩
  exact persistenceSmooth_of_noShortSegment hsmooth

/-! ### The rate -/

theorem ofRat_length {n : ℕ} (h : n < 2 ^ 63) :
    ∃ valid, Binary64.ofRat n = .fin (nearest n) valid := by
  have hbound : |nearest (n : ℚ)| < overflowBound := by
    have hlow : 0 ≤ nearest (n : ℚ) := le_nearest representable_zero (Nat.cast_nonneg n)
    have hpower : Representable (2 ^ 63) :=
      ⟨1, 63, by norm_num, by norm_num, by norm_num⟩
    have hhigh : nearest (n : ℚ) ≤ 2 ^ 63 := nearest_le hpower (by exact_mod_cast h.le)
    rw [abs_of_nonneg hlow, overflowBound, pow2_eq]
    calc
      nearest (n : ℚ) ≤ 2 ^ 63 := hhigh
      _ = (2 : ℚ) ^ (63 : ℤ) := (zpow_ofNat 2 63).symm
      _ < (2 : ℚ) ^ (1024 : ℤ) := zpow_lt_zpow_right₀ (by norm_num) (by norm_num)
  exact ⟨⟨nearest_nearest _, hbound⟩, dif_pos hbound⟩

/-- The rate of so many changes. -/
theorem rate_eq {k n : ℕ} (hk : k < 2 ^ 63) (hn : n < 2 ^ 63) (hpos : 0 < n) :
    orErr PyErr.zeroDivisionError ((Binary64.ofRat k).div? (.ofRat (n : ℚ))) =
      .ok (.ofRat (nearest k / nearest n)) ∧ 0 < nearest (n : ℚ) := by
  obtain ⟨hkValid, hkEq⟩ := ofRat_length hk
  obtain ⟨hnValid, hnEq⟩ := ofRat_length hn
  have hone : (1 : ℚ) ≤ nearest n := le_nearest Binary64.representable_one (by exact_mod_cast hpos)
  have hnearest : 0 < nearest (n : ℚ) := lt_of_lt_of_le zero_lt_one hone
  refine ⟨?_, hnearest⟩
  rw [hkEq, hnEq, Binary64.div?_fin hkValid hnValid hnearest.ne']
  rfl

theorem changes_lt_length (f : String → β) : ∀ labels : List String,
    changes f labels ≤ labels.length - 1
  | [] => Nat.le_refl _
  | [_] => Nat.le_refl _
  | a :: b :: rest => by
      have hrest := changes_lt_length f (b :: rest)
      simp only [changes, List.length_cons] at hrest ⊢
      split_ifs <;> omega

end System2
