import System2.ArtifactSync.LiveRegime
import System2.Foundation.Runs

/-!
# The window of the debouncer

The debouncer counts in a candidate and a number. After any updates the number is the
length of the run that the updates end with, for each label that is not published. So a
label is published exactly when it has filled the window or comes with the confidence.
-/

namespace System2
open Foundation Runs

namespace OnlineDebouncer

variable {window : ℤ} {highConf : Binary64} {labels : List String} {deb : OnlineDebouncer}

/-- What the debouncer knows of the labels that it has seen. -/
structure Tracks (labels : List String) (deb : OnlineDebouncer) : Prop where
  started : deb.published = none ↔ labels = []
  counts : ∀ label, deb.published ≠ some label →
    (trailing label labels : ℤ) = if deb.candidate = some label then deb.count else 0

theorem tracks_fresh : Tracks [] fresh where
  started := by simp [fresh]
  counts := by simp [fresh, trailing]

/-- A published label leaves no other label at the end. -/
theorem tracks_publish (labels : List String) (label : String) :
    Tracks (labels ++ [label]) ⟨some label, none, 0⟩ where
  started := by simp
  counts := by
    intro other hother
    have hne : label ≠ other := fun h => hother (congrArg some h)
    rw [trailing_append_of_ne hne]
    rfl

/-- The count of the label of an update, with the update. -/
theorem Tracks.count_next (h : Tracks labels deb) {label : String}
    (hlabel : deb.published ≠ some label) :
    (if deb.candidate = some label then deb.count + 1 else 1) =
      (trailing label (labels ++ [label]) : ℤ) := by
  rw [trailing_append_self, Nat.cast_add, h.counts label hlabel]
  split_ifs with hcandidate
  · rfl
  · rfl

/-- One update publishes its label on the run or on the confidence, and keeps track. -/
theorem update_spec (h : Tracks labels deb) {published : String}
    (hpublished : deb.published = some published) (label : String) (prob : Binary64) :
    (deb.update window highConf label prob).2.published =
      some (if window ≤ trailing label (labels ++ [label]) ∨ highConf.le prob = true then label
        else published) ∧
    Tracks (labels ++ [label]) (deb.update window highConf label prob).2 := by
  by_cases hsame : label = published
  · subst hsame
    have hupdate : deb.update window highConf label prob = (label, ⟨some label, none, 0⟩) := by
      simp [update, hpublished]
    rw [hupdate]
    constructor
    · simp
    · exact tracks_publish labels label
  · have hlabel : deb.published ≠ some label := by
      rw [hpublished]
      exact fun h => hsame (Option.some.inj h).symm
    have hcount := h.count_next hlabel
    by_cases hswitch : window ≤ trailing label (labels ++ [label]) ∨ highConf.le prob = true
    · have hupdate : deb.update window highConf label prob = (label, ⟨some label, none, 0⟩) := by
        simp only [update, hpublished, if_neg hsame, hcount, if_pos hswitch]
      rw [hupdate, if_pos hswitch]
      constructor
      · rfl
      · exact tracks_publish labels label
    · have hupdate : deb.update window highConf label prob = (published,
          ⟨some published, some label, (trailing label (labels ++ [label]) : ℤ)⟩) := by
        simp only [update, hpublished, if_neg hsame, hcount, if_neg hswitch]
      rw [hupdate, if_neg hswitch]
      constructor
      · rfl
      · constructor
        · simp
        · intro other hother
          by_cases hlast : label = other
          · simp [hlast]
          · rw [trailing_append_of_ne hlast]
            simp [hlast]

/-! ### Runs -/

/-- The debouncer after some updates, each a label with its probability. -/
def run (window : ℤ) (highConf : Binary64) (updates : List (String × Binary64)) :
    OnlineDebouncer :=
  updates.foldl (fun deb u => (deb.update window highConf u.1 u.2).2) fresh

theorem run_append (window : ℤ) (highConf : Binary64) (updates : List (String × Binary64))
    (u : String × Binary64) : run window highConf (updates ++ [u]) =
      ((run window highConf updates).update window highConf u.1 u.2).2 := by
  simp [run]

theorem update_of_none (hnone : deb.published = none) (label : String) (prob : Binary64) :
    deb.update window highConf label prob = (label, ⟨some label, none, 0⟩) := by
  simp [update, hnone]

theorem run_tracks (window : ℤ) (highConf : Binary64) (updates : List (String × Binary64)) :
    Tracks (updates.map Prod.fst) (run window highConf updates) := by
  induction updates using List.reverseRecOn with
  | nil => exact tracks_fresh
  | append_singleton updates u ih =>
      rw [run_append, List.map_append]
      cases hpublished : (run window highConf updates).published with
      | none =>
          rw [update_of_none hpublished]
          exact tracks_publish _ u.1
      | some published => exact (update_spec ih hpublished u.1 u.2).2

/-- The last updates that fill the window all carried a label. -/
def Held (window : ℤ) (label : String) (updates : List (String × Binary64)) : Prop :=
  List.replicate window.toNat label <:+ updates.map Prod.fst

theorem held_iff (hwindow : 1 ≤ window) {label : String} {updates : List (String × Binary64)} :
    Held window label updates ↔ window ≤ trailing label (updates.map Prod.fst) := by
  rw [Held, replicate_suffix_iff]
  omega

/-- The label that carries the last update, when the window is not empty. -/
theorem Held.last (hwindow : 1 ≤ window) {label : String} {updates : List (String × Binary64)}
    {u : String × Binary64} (h : Held window label (updates ++ [u])) : u.1 = label := by
  by_contra hne
  rw [held_iff hwindow, List.map_append] at h
  have hnone := trailing_append_of_ne hne (updates.map Prod.fst)
  rw [List.map_singleton] at h
  omega

/-- A label that has held for the window is published. -/
theorem published_of_held (hwindow : 1 ≤ window) (highConf : Binary64) {label : String}
    {updates : List (String × Binary64)} (h : Held window label updates) :
    (run window highConf updates).published = some label := by
  cases updates using List.reverseRecOn with
  | nil =>
      rw [held_iff hwindow] at h
      have hnone : trailing label ([] : List String) = 0 := rfl
      rw [List.map_nil, hnone] at h
      omega
  | append_singleton updates u =>
      have hlast := h.last hwindow
      rw [run_append]
      cases hpublished : (run window highConf updates).published with
      | none => rw [update_of_none hpublished, hlast]
      | some published =>
          have hfull : window ≤ trailing u.1 (updates.map Prod.fst ++ [u.1]) := by
            rw [held_iff hwindow, List.map_append, List.map_singleton, ← hlast] at h
            exact h
          rw [(update_spec (run_tracks window highConf updates) hpublished u.1 u.2).1,
            if_pos (.inl hfull), hlast]

/-- After the first update, the published label changes on a held window or on confidence only,
to the label of the update; and a label that has held for the window is published. -/
theorem published_characterised (hwindow : 1 ≤ window) (highConf : Binary64)
    (first : String × Binary64) (updates : List (String × Binary64)) (u : String × Binary64)
    (label : String) :
    ((run window highConf (first :: updates)).published ≠ some label →
      (run window highConf (first :: updates ++ [u])).published = some label →
      u.1 = label ∧ (highConf.le u.2 = true ∨ Held window label (first :: updates ++ [u]))) ∧
    ∀ history, Held window label history →
      (run window highConf history).published = some label := by
  constructor
  · intro hbefore hafter
    have htracks := run_tracks window highConf (first :: updates)
    obtain ⟨published, hpublished⟩ :
        ∃ published, (run window highConf (first :: updates)).published = some published := by
      rw [← Option.isSome_iff_exists, Option.isSome_iff_ne_none, Ne, htracks.started]
      simp
    rw [run_append, (update_spec htracks hpublished u.1 u.2).1] at hafter
    split_ifs at hafter with hswitch
    · obtain rfl : u.1 = label := Option.some.inj hafter
      constructor
      · rfl
      · rw [held_iff hwindow, List.map_append]
        exact hswitch.symm
    · exact (hbefore (hpublished.trans hafter)).elim
  · intro history hheld
    exact published_of_held hwindow highConf hheld

/-- The third equal update in a row publishes its label, without the confidence. -/
theorem published_characterised_window :
    let flips : List (String × Binary64) := [("High-Vol", .zero), ("High-Vol", .zero)]
    let before := run 3 (.ofRat 1) (("Ranging", .zero) :: flips)
    let after := run 3 (.ofRat 1) (("Ranging", .zero) :: flips ++ [("High-Vol", .zero)])
    before.published = some "Ranging" ∧ after.published = some "High-Vol" ∧
      ((Binary64.ofRat 1).le .zero = true ∨
        Held 3 "High-Vol" (("Ranging", .zero) :: flips ++ [("High-Vol", .zero)])) := by
  intro flips before after
  have hspec := published_characterised (by decide : (1 : ℤ) ≤ 3) (.ofRat 1) ("Ranging", .zero)
    flips ("High-Vol", .zero) "High-Vol"
  have hbefore : before.published = some "Ranging" := by decide +kernel
  have hafter : after.published = some "High-Vol" := hspec.2 _ ⟨["Ranging"], rfl⟩
  have hne : before.published ≠ some "High-Vol" := by
    rw [hbefore]
    decide
  exact ⟨hbefore, hafter, (hspec.1 hne hafter).2⟩

end OnlineDebouncer

end System2
