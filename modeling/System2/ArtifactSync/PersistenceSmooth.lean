import System2.Common.Errors
import System2.Foundation.Runs

/-!
# The batch debounce (`artifact_sync/regime_mapping.py`)

The loop of `persistence_smooth` measures the segments of its input and writes a short one
with the label before it. A last pass gives a short first run the label behind it. Both
make runs grow only, so no short run is left beside another.
-/

namespace System2
open Foundation Runs

/-- The loop over the segments. Before each one stands `smoothed[i - 1]`, none for the first. -/
def smoothSegments (minBars : ℤ) : Option String → List (String × ℕ) → List String
  | _, [] => []
  | prev, (label, length) :: rest =>
      let written := if (length : ℤ) < minBars then prev.getD label else label
      List.replicate length written ++ smoothSegments minBars (some written) rest

/-- The pass over the head: the first run, when it is short and not the whole list. -/
def smoothHead (minBars : ℤ) (smoothed : List String) : List String :=
  match smoothed.head? with
  | none => smoothed
  | some first =>
      let head := smoothed.takeWhile (· == first)
      match smoothed.dropWhile (· == first) with
      | [] => smoothed
      | next :: later =>
          if (head.length : ℤ) < minBars then List.replicate head.length next ++ next :: later
          else smoothed

/-- `persistence_smooth`. -/
def persistenceSmooth (minBars : ℤ) (labels : List String) : List String :=
  smoothHead minBars (smoothSegments minBars none (runs labels))

variable {minBars : ℤ} {labels : List String} {label : String} {k : ℕ}
  {rs : List (String × ℕ)}

/-! ### The runs of what is written -/

/-- Behind a run of the label before them, the segments leave runs of full length. -/
theorem runs_smoothSegments (minBars : ℤ) (hk : 0 < k) (hrs : ∀ r ∈ rs, 0 < r.2) (prev : String) :
    ∃ n tail, runs (List.replicate k prev ++ smoothSegments minBars (some prev) rs) =
      (prev, n) :: tail ∧ k ≤ n ∧ ∀ r ∈ tail, minBars ≤ (r.2 : ℤ) := by
  induction rs generalizing prev k with
  | nil =>
      refine ⟨k, [], ?_, le_rfl, by simp⟩
      rw [smoothSegments, runs_replicate_append hk]
      rfl
  | cons r rest ih =>
      obtain ⟨label, length⟩ := r
      obtain ⟨hlength, hrest⟩ := List.forall_mem_cons.mp hrs
      by_cases hgrow : (length : ℤ) < minBars ∨ label = prev
      · have hwritten : (if (length : ℤ) < minBars then (some prev).getD label else label) = prev := by
          split_ifs with hshort
          · rfl
          · exact hgrow.resolve_left hshort
        obtain ⟨n, tail, hruns, hle, htail⟩ := ih (Nat.add_pos_left hk length) hrest prev
        refine ⟨n, tail, ?_, by omega, htail⟩
        rw [smoothSegments, hwritten, ← hruns, List.replicate_add, List.append_assoc]
      · have hwritten : (if (length : ℤ) < minBars then (some prev).getD label else label) =
            label := if_neg fun h => hgrow (.inl h)
        obtain ⟨n, tail, hruns, hle, htail⟩ := ih hlength hrest label
        refine ⟨k, (label, n) :: tail, ?_, le_rfl, ?_⟩
        · rw [smoothSegments, hwritten, runs_replicate_append hk, hruns]
          exact push_cons_of_ne (fun h => hgrow (.inr h.symm)) tail
        · rw [List.forall_mem_cons]
          exact ⟨by dsimp only; omega, htail⟩

/-- The head pass on a list by its runs. -/
theorem smoothHead_expand (minBars : ℤ) (h : Maximal ((label, k) :: rs)) :
    smoothHead minBars (expand ((label, k) :: rs)) =
      match rs with
      | [] => List.replicate k label
      | (next, n) :: rest =>
          if (k : ℤ) < minBars then List.replicate (k + n) next ++ expand rest
          else expand ((label, k) :: rs) := by
  have hk : 0 < k := h.positive (label, k) List.mem_cons_self
  have hhead : (expand ((label, k) :: rs)).head? = some label := by
    obtain ⟨j, rfl⟩ := Nat.exists_eq_add_one_of_ne_zero hk.ne'
    rfl
  simp only [smoothHead, hhead, takeWhile_expand h, dropWhile_expand h, List.length_replicate]
  cases rs with
  | nil => simp
  | cons s rest =>
      obtain ⟨next, n⟩ := s
      obtain ⟨j, rfl⟩ := Nat.exists_eq_add_one_of_ne_zero (h.tail.positive (next, n) (by simp)).ne'
      have hnext : expand ((next, j + 1) :: rest) = next :: (List.replicate j next ++ expand rest) :=
        rfl
      rw [hnext]
      dsimp only
      split_ifs with hshort
      · rw [List.replicate_add, List.append_assoc]
        rfl
      · rfl

/-- What the whole pass does to the runs that the loop leaves. -/
theorem persistenceSmooth_runs (minBars : ℤ) (labels : List String) (h : labels ≠ []) :
    ∃ label n tail, smoothSegments minBars none (runs labels) = expand ((label, n) :: tail) ∧
      Maximal ((label, n) :: tail) ∧ ∀ r ∈ tail, minBars ≤ (r.2 : ℤ) := by
  have hmaximal := maximal_runs labels
  cases hruns : runs labels with
  | nil =>
      have hexpand := expand_runs labels
      rw [hruns] at hexpand
      exact (h hexpand.symm).elim
  | cons r rest =>
      obtain ⟨label, length⟩ := r
      rw [hruns] at hmaximal
      obtain ⟨hlength, hrest⟩ := List.forall_mem_cons.mp hmaximal.positive
      obtain ⟨n, tail, hwritten, -, htail⟩ :=
        runs_smoothSegments minBars hlength hrest label
      refine ⟨label, n, tail, ?_, ?_, htail⟩
      · rw [← hwritten, expand_runs, smoothSegments]
        simp
      · rw [← hwritten]
        exact maximal_runs _

/-! ### The letters -/

theorem length_smoothSegments (minBars : ℤ) (prev : Option String) (rs : List (String × ℕ)) :
    (smoothSegments minBars prev rs).length = (expand rs).length := by
  induction rs generalizing prev with
  | nil => rfl
  | cons r rest ih => simp [smoothSegments, ih]

theorem mem_smoothSegments {prev : Option String} {x : String}
    (h : x ∈ smoothSegments minBars prev rs) : prev = some x ∨ x ∈ rs.map Prod.fst := by
  induction rs generalizing prev with
  | nil => cases h
  | cons r rest ih =>
      obtain ⟨label, length⟩ := r
      rw [List.map_cons, List.mem_cons]
      have hwritten : ∀ y, y = (if (length : ℤ) < minBars then prev.getD label else label) →
          prev = some y ∨ y = label := by
        intro y hy
        split_ifs at hy
        · cases prev with
          | none => exact .inr hy
          | some p => exact .inl (congrArg some hy.symm)
        · exact .inr hy
      rw [smoothSegments, List.mem_append, List.mem_replicate] at h
      rcases h with ⟨-, hx⟩ | hrest
      · exact (hwritten x hx).imp_right .inl
      · rcases ih hrest with hx | hx
        · exact (hwritten x (Option.some.inj hx).symm).imp_right .inl
        · exact .inr (.inr hx)

/-- The head pass, where only the first run may be short: as long as before, of the same labels,
and with no short run left, unless one run is all of it. -/
theorem smoothHead_segments {n : ℕ} {tail : List (String × ℕ)} (h : Maximal ((label, n) :: tail))
    (htail : ∀ r ∈ tail, minBars ≤ (r.2 : ℤ)) :
    let smoothed := smoothHead minBars (expand ((label, n) :: tail))
    smoothed.length = (expand ((label, n) :: tail)).length ∧
      (∀ x ∈ smoothed, x ∈ expand ((label, n) :: tail)) ∧
      ((runs smoothed).length ≤ 1 ∨ ∀ r ∈ runs smoothed, minBars ≤ (r.2 : ℤ)) := by
  dsimp only
  rw [smoothHead_expand minBars h]
  cases tail with
  | nil =>
      have hone : List.replicate n label = expand [(label, n)] := by simp
      dsimp only
      rw [hone]
      refine ⟨rfl, fun x hx => hx, .inl ?_⟩
      rw [runs_expand h]
      exact le_rfl
  | cons s rest =>
      obtain ⟨next, k⟩ := s
      obtain ⟨hnext, hrest⟩ := List.forall_mem_cons.mp htail
      dsimp only at hnext ⊢
      split_ifs with hshort
      · -- the first run takes the label of the second, and they are one run
        have hgrown : Maximal ((next, n + k) :: rest) :=
          h.tail.resize (Nat.add_pos_left (h.positive (label, n) (by simp)) k)
        have hsame : List.replicate (n + k) next ++ expand rest = expand ((next, n + k) :: rest) :=
          rfl
        rw [hsame, runs_expand hgrown]
        refine ⟨by simp [add_assoc], ?_, .inr ?_⟩
        · intro x hx
          rw [mem_expand] at hx ⊢
          obtain ⟨j, hj, hmem⟩ := hx
          rcases List.mem_cons.mp hmem with hfirst | hmem
          · obtain ⟨rfl, -⟩ := Prod.mk.inj hfirst
            exact ⟨k, h.positive (x, k) (by simp), by simp⟩
          · exact ⟨j, hj, by simp [hmem]⟩
        · rw [List.forall_mem_cons]
          exact ⟨by dsimp only; omega, hrest⟩
      · refine ⟨rfl, fun x hx => hx, .inr ?_⟩
        rw [runs_expand h, List.forall_mem_cons]
        exact ⟨by dsimp only; omega, htail⟩

theorem length_persistenceSmooth (minBars : ℤ) (labels : List String) :
    (persistenceSmooth minBars labels).length = labels.length := by
  by_cases hempty : labels = []
  · subst hempty
    rfl
  · obtain ⟨label, n, tail, hloop, hmaximal, htail⟩ := persistenceSmooth_runs minBars labels hempty
    calc
      (persistenceSmooth minBars labels).length =
          (smoothHead minBars (expand ((label, n) :: tail))).length := by
        rw [persistenceSmooth, hloop]
      _ = (expand ((label, n) :: tail)).length := (smoothHead_segments hmaximal htail).1
      _ = labels.length := by rw [← hloop, length_smoothSegments, expand_runs]

/-- No run is short, unless one run is all of it. -/
theorem runs_persistenceSmooth (minBars : ℤ) (labels : List String) :
    (runs (persistenceSmooth minBars labels)).length ≤ 1 ∨
      ∀ r ∈ runs (persistenceSmooth minBars labels), minBars ≤ (r.2 : ℤ) := by
  by_cases hempty : labels = []
  · subst hempty
    exact .inl (Nat.zero_le 1)
  · obtain ⟨label, n, tail, hloop, hmaximal, htail⟩ := persistenceSmooth_runs minBars labels hempty
    rw [persistenceSmooth, hloop]
    exact (smoothHead_segments hmaximal htail).2.2

theorem mem_of_mem_persistenceSmooth {x : String} (h : x ∈ persistenceSmooth minBars labels) :
    x ∈ labels := by
  by_cases hempty : labels = []
  · subst hempty
    exact h
  · obtain ⟨label, n, tail, hloop, hmaximal, htail⟩ := persistenceSmooth_runs minBars labels hempty
    rw [persistenceSmooth, hloop] at h
    have hx := (smoothHead_segments hmaximal htail).2.1 x h
    rw [← hloop] at hx
    obtain ⟨⟨y, k⟩, hmem, rfl⟩ :=
      List.mem_map.mp ((mem_smoothSegments hx).resolve_left (by simp))
    rw [← expand_runs labels]
    exact mem_expand.mpr ⟨k, (maximal_runs labels).positive (y, k) hmem, hmem⟩

/-- A list of labels of the input, as long as it, and every run of full length unless one run
is all of it. -/
theorem persistenceSmooth_segments (minBars : ℤ) (labels : List String) :
    (persistenceSmooth minBars labels).length = labels.length ∧
    (∀ label ∈ persistenceSmooth minBars labels, label ∈ labels) ∧
    ((runs (persistenceSmooth minBars labels)).length ≤ 1 ∨
      ∀ r ∈ runs (persistenceSmooth minBars labels), minBars ≤ (r.2 : ℤ)) :=
  ⟨length_persistenceSmooth minBars labels, fun _ h => mem_of_mem_persistenceSmooth h,
    runs_persistenceSmooth minBars labels⟩

end System2
