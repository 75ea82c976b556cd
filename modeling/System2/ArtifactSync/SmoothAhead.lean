import System2.ArtifactSync.PersistenceSmooth

/-!
# What the batch debounce sees ahead

The loop writes a segment once it knows its whole length, and the head pass rewrites the
first run once it knows its end. So a label may depend on bars that come after it. It does
not once the labels up to it settle both.
-/

namespace System2
open Foundation Runs

variable {minBars : ℤ} {rs ss : List (String × ℕ)} {label : String} {t : ℕ}

/-- The segments whose own label is written: the first one and those of full length. -/
def kept (minBars : ℤ) : List (String × ℕ) → List (String × ℕ)
  | [] => []
  | first :: rest => first :: rest.filter fun r => minBars ≤ (r.2 : ℤ)

/-- The output at a bar is the same for every list with the same labels up to it. -/
def CausalAt (minBars : ℤ) (labels : List String) (t : ℕ) : Prop :=
  ∀ labels', labels'.take (t + 1) = labels.take (t + 1) →
    (persistenceSmooth minBars labels')[t]? = (persistenceSmooth minBars labels)[t]?

/-- Labels that settle the last of them: their last segment has the full length already, or
would be written with its own label anyway; and they are long enough for the head pass, or
another label is written before. -/
def SettledLast (minBars : ℤ) (seen : List String) : Prop :=
  ∃ earlier last, runs seen = earlier ++ [last] ∧
    (minBars ≤ (last.2 : ℤ) ∨ (kept minBars earlier).getLast?.map Prod.fst = some last.1) ∧
    (minBars ≤ (seen.length : ℤ) ∨ ∃ r ∈ kept minBars earlier, r.1 ≠ last.1)

/-! ### The loop -/

/-- The label that stands before what comes after some segments. -/
def lastWritten (minBars : ℤ) (prev : Option String) (rs : List (String × ℕ)) : Option String :=
  rs.foldl (fun prev r => some (if (r.2 : ℤ) < minBars then prev.getD r.1 else r.1)) prev

theorem smoothSegments_append (prev : Option String) (rs ss : List (String × ℕ)) :
    smoothSegments minBars prev (rs ++ ss) = smoothSegments minBars prev rs ++
      smoothSegments minBars (lastWritten minBars prev rs) ss := by
  induction rs generalizing prev with
  | nil => rfl
  | cons r rest ih =>
      rw [List.cons_append, smoothSegments, ih, smoothSegments, List.append_assoc]
      rfl

theorem lastWritten_some (prev : String) (rs : List (String × ℕ)) :
    lastWritten minBars (some prev) rs =
      some (((rs.filter fun r => minBars ≤ (r.2 : ℤ)).getLast?.map Prod.fst).getD prev) := by
  induction rs using List.reverseRecOn with
  | nil => rfl
  | append_singleton rs r ih =>
      have hlast : lastWritten minBars (some prev) (rs ++ [r]) =
          some (if (r.2 : ℤ) < minBars then (lastWritten minBars (some prev) rs).getD r.1
            else r.1) := by
        simp [lastWritten]
      rw [hlast, ih, List.filter_append]
      by_cases hshort : (r.2 : ℤ) < minBars
      · simp [hshort, not_le.mpr hshort]
      · simp [hshort, not_lt.mp hshort]

/-- The last label that was written is that of the last segment that is kept. -/
theorem lastWritten_none (minBars : ℤ) (rs : List (String × ℕ)) :
    lastWritten minBars none rs = (kept minBars rs).getLast?.map Prod.fst := by
  cases rs with
  | nil => rfl
  | cons r rest =>
      have hfirst : lastWritten minBars none (r :: rest) = lastWritten minBars (some r.1) rest := by
        simp [lastWritten]
      rw [hfirst, lastWritten_some, kept, List.getLast?_cons]
      cases (rest.filter fun r => minBars ≤ (r.2 : ℤ)).getLast? with
      | none => rfl
      | some s => rfl

theorem mem_smoothSegments_some (minBars : ℤ) (hrs : ∀ r ∈ rs, 0 < r.2) (prev x : String) :
    x = prev ∨ x ∈ smoothSegments minBars (some prev) rs ↔
      x = prev ∨ ∃ r ∈ rs.filter fun r => minBars ≤ (r.2 : ℤ), r.1 = x := by
  induction rs generalizing prev with
  | nil => simp [smoothSegments]
  | cons r rest ih =>
      obtain ⟨label, length⟩ := r
      obtain ⟨hlength, hrest⟩ := List.forall_mem_cons.mp hrs
      have hne : length ≠ 0 := hlength.ne'
      rw [smoothSegments, List.mem_append, List.mem_replicate]
      by_cases hshort : (length : ℤ) < minBars
      · rw [if_pos hshort, Option.getD_some, List.filter_cons_of_neg (by simpa using hshort),
          ← ih hrest prev]
        tauto
      · rw [if_neg hshort, List.filter_cons_of_pos (by simpa using hshort), List.exists_mem_cons_iff,
          and_iff_right hne, ih hrest label]
        tauto

/-- The letters of the loop are the labels of the kept segments. -/
theorem mem_smoothSegments_none (hrs : ∀ r ∈ rs, 0 < r.2) (x : String) :
    x ∈ smoothSegments minBars none rs ↔ ∃ r ∈ kept minBars rs, r.1 = x := by
  cases rs with
  | nil => simp [smoothSegments, kept]
  | cons r rest =>
      obtain ⟨label, length⟩ := r
      obtain ⟨hlength, hrest⟩ := List.forall_mem_cons.mp hrs
      have hne : length ≠ 0 := hlength.ne'
      have hsome := mem_smoothSegments_some minBars hrest label x
      rw [smoothSegments, Option.getD_none, ite_self, List.mem_append, List.mem_replicate, kept,
        List.exists_mem_cons_iff, and_iff_right hne, hsome]
      exact or_congr_left eq_comm

/-! ### The head pass -/

/-- The head pass rewrites a place in a first run that is short and not the whole list. -/
theorem smoothHead_at (minBars : ℤ) (smoothed : List String) (t : ℕ) :
    (smoothHead minBars smoothed)[t]? = smoothed[t]? ∨
      ∃ first k, t < k ∧ (k : ℤ) < minBars ∧ k < smoothed.length ∧
        smoothed[k]? ≠ some first ∧ ∀ u < k, smoothed[u]? = some first := by
  have hmaximal := maximal_runs smoothed
  have hletters := expand_runs smoothed
  cases hruns : runs smoothed with
  | nil =>
      rw [hruns] at hletters
      exact .inl (hletters ▸ rfl)
  | cons r rest =>
      obtain ⟨first, k⟩ := r
      rw [hruns] at hmaximal hletters
      have hhead := smoothHead_expand minBars hmaximal
      rw [hletters] at hhead
      cases rest with
      | nil =>
          left
          rw [hhead, ← hletters]
          simp
      | cons s rest =>
          obtain ⟨next, n⟩ := s
          dsimp only at hhead
          by_cases hplace : t < k ∧ (k : ℤ) < minBars
          · right
            obtain ⟨j, rfl⟩ := Nat.exists_eq_add_one_of_ne_zero
              (hmaximal.tail.positive (next, n) (by simp)).ne'
            have hne : next ≠ first := ((List.isChain_cons_cons.mp hmaximal.apart).1).symm
            refine ⟨first, k, hplace.1, hplace.2, ?_, ?_, ?_⟩
            · rw [← hletters]
              simp
            · rw [← hletters, expand_cons, expand_cons]
              simpa [List.getElem?_append_right, List.replicate_succ] using hne
            · intro u hu
              rw [← hletters, expand_cons, List.getElem?_append_left (by simpa using hu)]
              simp [hu]
          · left
            by_cases hshort : (k : ℤ) < minBars
            · have hk : k ≤ t := by omega
              have hbehind : ∀ (x : String) (ys : List String),
                  (List.replicate k x ++ ys)[t]? = ys[t - k]? := by
                intro x ys
                rw [List.getElem?_append_right (by simpa using hk), List.length_replicate]
              rw [hhead, if_pos hshort, ← hletters, List.replicate_add, List.append_assoc,
                expand_cons, hbehind, hbehind]
              rfl
            · rw [hhead, if_neg hshort, ← hletters]

/-- A place far enough, or behind another letter, is out of the reach of the head pass. -/
theorem smoothHead_settled {smoothed : List String}
    (h : minBars ≤ (t + 1 : ℤ) ∨ ∃ u < t, smoothed[u]? ≠ smoothed[t]?) :
    (smoothHead minBars smoothed)[t]? = smoothed[t]? := by
  rcases smoothHead_at minBars smoothed t with hsame | ⟨first, k, ht, hshort, -, -, hfirst⟩
  · exact hsame
  · rcases h with hlong | ⟨u, hu, hne⟩
    · omega
    · exact (hne ((hfirst u (hu.trans ht)).trans (hfirst t ht).symm)).elim

/-- So is a place with nothing else behind it. -/
theorem smoothHead_constant {smoothed : List String}
    (h : ∀ u, t ≤ u → u < smoothed.length → smoothed[u]? = smoothed[t]?) :
    (smoothHead minBars smoothed)[t]? = smoothed[t]? := by
  rcases smoothHead_at minBars smoothed t with hsame | ⟨first, k, ht, -, hk, hne, hfirst⟩
  · exact hsame
  · exact (hne ((h k ht.le hk).trans (hfirst t ht))).elim

/-- A short head before another label takes that label. -/
theorem smoothHead_short {head : List String} {next : String} {later : List String}
    (hhead : ∀ x ∈ head, x = label) (hlength : head.length = t + 1) (hne : next ≠ label)
    (hshort : (t + 1 : ℤ) < minBars) :
    (smoothHead minBars (head ++ next :: later))[t]? = some next := by
  have hreplicate : head = List.replicate (t + 1) label :=
    List.eq_replicate_iff.mpr ⟨hlength, hhead⟩
  subst hreplicate
  have hfirst : (List.replicate (t + 1) label ++ next :: later).head? = some label := rfl
  have htake : (List.replicate (t + 1) label ++ next :: later).takeWhile (· == label) =
      List.replicate (t + 1) label := by
    rw [List.takeWhile_append_of_pos (by simp)]
    simp [hne]
  have hdrop : (List.replicate (t + 1) label ++ next :: later).dropWhile (· == label) =
      next :: later := by
    rw [List.dropWhile_append_of_pos (by simp)]
    simp [hne]
  simp only [smoothHead, hfirst, htake, hdrop, List.length_replicate]
  rw [if_pos (by push_cast; exact hshort), List.getElem?_append_left (by simp)]
  simp

/-! ### The labels up to a bar -/

/-- The label that the loop writes for a segment behind others. -/
def writtenAs (minBars : ℤ) (earlier : List (String × ℕ)) (label : String) (length : ℕ) : String :=
  if (length : ℤ) < minBars then ((kept minBars earlier).getLast?.map Prod.fst).getD label
  else label

theorem writtenAs_of_kept (h : ∀ r ∈ kept minBars rs, r.1 = label) (length : ℕ) :
    writtenAs minBars rs label length = label := by
  unfold writtenAs
  split_ifs
  · cases hlast : (kept minBars rs).getLast? with
    | none => rfl
    | some r => exact h r (List.mem_of_getLast? hlast)
  · rfl

/-- What the loop writes once more labels stand behind some. -/
theorem loop_append {seen : List String} {earlier later : List (String × ℕ)} {length m : ℕ}
    (h : runs seen = earlier ++ [(label, length)]) {more : List String}
    (hmore : push (label, length) (runs more) = (label, m) :: later) :
    smoothSegments minBars none (runs (seen ++ more)) =
      smoothSegments minBars none earlier ++
        (List.replicate m (writtenAs minBars earlier label m) ++
          smoothSegments minBars (some (writtenAs minBars earlier label m)) later) := by
  rw [runs_append h, hmore, smoothSegments_append, lastWritten_none, smoothSegments]
  rfl

theorem length_earlier (minBars : ℤ) {seen : List String} {earlier : List (String × ℕ)}
    {length : ℕ} (h : runs seen = earlier ++ [(label, length)]) :
    (smoothSegments minBars none earlier).length + length = seen.length := by
  rw [length_smoothSegments, ← expand_runs seen, h]
  simp

/-- The loop at the last of some labels, before others. -/
theorem loop_at (minBars : ℤ) {seen more : List String} {earlier later : List (String × ℕ)}
    {length m : ℕ} (h : runs seen = earlier ++ [(label, length)]) (hseen : seen.length = t + 1)
    (hmore : push (label, length) (runs more) = (label, m) :: later) (hm : length ≤ m) :
    (smoothSegments minBars none (runs (seen ++ more)))[t]? =
      some (writtenAs minBars earlier label m) := by
  have hlength := length_earlier minBars h
  have hpositive := length_pos_of_runs h
  rw [loop_append h hmore, List.getElem?_append_right (by omega),
    List.getElem?_append_left (by rw [List.length_replicate]; omega), List.getElem?_replicate,
    if_pos (by omega)]

/-- Nothing else behind the last label: the output is what the loop writes. -/
theorem smooth_grown (minBars : ℤ) {seen : List String} {earlier : List (String × ℕ)} {length : ℕ}
    (h : runs seen = earlier ++ [(label, length)]) (hseen : seen.length = t + 1) (k : ℕ) :
    (persistenceSmooth minBars (seen ++ List.replicate k label))[t]? =
      some (writtenAs minBars earlier label (length + k)) := by
  have hlength := length_earlier minBars h
  have hpositive := length_pos_of_runs h
  have hpush : push (label, length) (runs (List.replicate k label)) = [(label, length + k)] := by
    cases k with
    | zero => rfl
    | succ k =>
        rw [runs_replicate (Nat.succ_pos k)]
        exact push_cons_self label length (k + 1) []
  have hat := loop_at minBars h hseen hpush (Nat.le_add_right length k)
  rw [← hat]
  apply smoothHead_constant
  intro u hu hbound
  rw [hat]
  rw [loop_append h hpush] at hbound ⊢
  rw [List.length_append, List.length_append, List.length_replicate, smoothSegments,
    List.length_nil] at hbound
  rw [List.getElem?_append_right (by omega),
    List.getElem?_append_left (by rw [List.length_replicate]; omega), List.getElem?_replicate,
    if_pos (by omega)]

theorem exists_other (label : String) : ∃ other : String, other ≠ label := by
  by_cases h : label = ""
  · exact ⟨"a", by rw [h]; decide⟩
  · exact ⟨"", fun hother => h hother.symm⟩

/-- A head of one label that is short is rewritten once another label has the full length. -/
theorem smooth_other {seen : List String} {earlier : List (String × ℕ)} {length : ℕ}
    (h : runs seen = earlier ++ [(label, length)]) (hseen : seen.length = t + 1)
    (hshort : (t + 1 : ℤ) < minBars) (hkept : ∀ r ∈ kept minBars earlier, r.1 = label)
    {other : String} (hother : other ≠ label) :
    (persistenceSmooth minBars (seen ++ List.replicate minBars.toNat other))[t]? = some other := by
  have hlength := length_earlier minBars h
  have hpositive := length_pos_of_runs h
  obtain ⟨n, hn⟩ : ∃ n, minBars.toNat = n + 1 := ⟨minBars.toNat - 1, by omega⟩
  have hpush : push (label, length) (runs (List.replicate minBars.toNat other)) =
      [(label, length), (other, minBars.toNat)] := by
    rw [runs_replicate (by omega)]
    exact push_cons_of_ne (Ne.symm hother) []
  have hearlier : ∀ x ∈ smoothSegments minBars none earlier, x = label := by
    intro x hx
    have hmaximal := maximal_runs seen
    rw [h] at hmaximal
    obtain ⟨r, hr, rfl⟩ := (mem_smoothSegments_none
      (fun r hr => hmaximal.positive r (List.mem_append_left _ hr)) x).mp hx
    exact hkept r hr
  have hwritten := writtenAs_of_kept hkept length
  have hfull : ¬ (minBars.toNat : ℤ) < minBars := by omega
  rw [persistenceSmooth, loop_append h hpush, hwritten, ← List.append_assoc, smoothSegments,
    if_neg hfull, smoothSegments, List.append_nil, hn, List.replicate_succ]
  refine smoothHead_short ?_ ?_ hother hshort
  · intro x hx
    rcases List.mem_append.mp hx with hx | hx
    · exact hearlier x hx
    · exact List.eq_of_mem_replicate hx
  · rw [List.length_append, List.length_replicate, hlength, hseen]

/-- A label that the labels before it settle is the output, whatever comes after it. -/
theorem smooth_settled {seen : List String} {earlier : List (String × ℕ)} {length : ℕ}
    (h : runs seen = earlier ++ [(label, length)]) (hseen : seen.length = t + 1)
    (hloop : minBars ≤ (length : ℤ) ∨
      (kept minBars earlier).getLast?.map Prod.fst = some label)
    (hhead : minBars ≤ (seen.length : ℤ) ∨ ∃ r ∈ kept minBars earlier, r.1 ≠ label)
    (more : List String) : (persistenceSmooth minBars (seen ++ more))[t]? = some label := by
  obtain ⟨m, later, hpush, hm⟩ := push_eq label length (runs more)
  have hwritten : writtenAs minBars earlier label m = label := by
    unfold writtenAs
    split_ifs with hshort
    · rw [hloop.resolve_left (by omega), Option.getD_some]
    · rfl
  have hat := loop_at minBars h hseen hpush hm
  rw [hwritten] at hat
  rw [← hat]
  apply smoothHead_settled
  rcases hhead with hlong | ⟨r, hr, hne⟩
  · left
    omega
  · -- a kept segment before with another label is written before the bar
    right
    have hmaximal := maximal_runs seen
    rw [h] at hmaximal
    have hmem := (mem_smoothSegments_none
      (fun r hr => hmaximal.positive r (List.mem_append_left _ hr)) r.1).mpr ⟨r, hr, rfl⟩
    obtain ⟨u, hu, hletter⟩ := List.mem_iff_getElem.mp hmem
    have hlength := length_earlier minBars h
    have hpositive := length_pos_of_runs h
    refine ⟨u, by omega, ?_⟩
    rw [hat, loop_append h hpush, List.getElem?_append_left hu, List.getElem?_eq_getElem hu, hletter]
    exact fun heq => hne (Option.some.inj heq)

/-- The output at a bar depends on nothing after it exactly if the labels up to it settle it. -/
theorem causalAt_iff (minBars : ℤ) (labels : List String) (t : ℕ) (ht : t < labels.length) :
    CausalAt minBars labels t ↔ SettledLast minBars (labels.take (t + 1)) := by
  have hseen : (labels.take (t + 1)).length = t + 1 := by
    rw [List.length_take]
    omega
  constructor
  · intro hcausal
    obtain ⟨earlier, ⟨label, length⟩, hruns⟩ :
        ∃ earlier last, runs (labels.take (t + 1)) = earlier ++ [last] := by
      rcases List.eq_nil_or_concat (runs (labels.take (t + 1))) with hnone | ⟨earlier, last, hsome⟩
      · have hletters := expand_runs (labels.take (t + 1))
        rw [hnone] at hletters
        rw [← hletters] at hseen
        cases hseen
      · exact ⟨earlier, last, by rw [hsome, List.concat_eq_append]⟩
    have hsame : ∀ more more', (persistenceSmooth minBars (labels.take (t + 1) ++ more))[t]? =
        (persistenceSmooth minBars (labels.take (t + 1) ++ more'))[t]? := by
      intro more more'
      have htake : ∀ more, (labels.take (t + 1) ++ more).take (t + 1) = labels.take (t + 1) :=
        fun more => List.take_left' hseen
      rw [hcausal _ (htake more), hcausal _ (htake more')]
    have hgrown := smooth_grown minBars hruns hseen
    have hhead : minBars ≤ ((labels.take (t + 1)).length : ℤ) ∨
        ∃ r ∈ kept minBars earlier, r.1 ≠ label := by
      by_contra hnot
      push Not at hnot
      obtain ⟨other, hother⟩ := exists_other label
      have hrewritten := smooth_other hruns hseen (by omega) hnot.2 hother
      rw [hsame _ (List.replicate 0 label), hgrown 0, writtenAs_of_kept hnot.2] at hrewritten
      exact hother (Option.some.inj hrewritten).symm
    refine ⟨earlier, (label, length), hruns, ?_, hhead⟩
    by_contra hnot
    push Not at hnot
    obtain ⟨hshort, hlast⟩ := hnot
    dsimp only at hshort hlast
    have hlong := hgrown minBars.toNat
    rw [hsame _ (List.replicate 0 label), hgrown 0, Nat.add_zero, writtenAs, writtenAs,
      if_pos hshort, if_neg (by omega)] at hlong
    cases hkept : (kept minBars earlier).getLast? with
    | some r =>
        rw [hkept] at hlong hlast
        exact hlast hlong
    | none =>
        -- no segment before: the bar is in the first one, which the head pass rewrites
        have hnone := List.getLast?_eq_none_iff.mp hkept
        rw [hnone] at hhead
        have hlength := length_earlier minBars hruns
        cases earlier with
        | nil =>
            rcases hhead with hhead | ⟨r, hr, -⟩
            · rw [smoothSegments, List.length_nil] at hlength
              omega
            · cases hr
        | cons r rest => cases hnone
  · intro hsettled labels' hagree
    obtain ⟨earlier, ⟨label, length⟩, hruns, hloop, hhead⟩ := hsettled
    have hsmooth := smooth_settled hruns hseen hloop hhead
    calc
      (persistenceSmooth minBars labels')[t]? = some label := by
        rw [← List.take_append_drop (t + 1) labels', hagree]
        exact hsmooth _
      _ = (persistenceSmooth minBars labels)[t]? := by
        rw [← hsmooth (labels.drop (t + 1)), List.take_append_drop]

/-- Three trending bars and a ranging one: two more ranging bars change the label of the first. -/
theorem smooth_looks_ahead :
    ¬ ∀ (minBars : ℤ) (labels labels' : List String) (t : ℕ), t < labels.length →
      labels'.take (t + 1) = labels.take (t + 1) →
      (persistenceSmooth minBars labels')[t]? = (persistenceSmooth minBars labels)[t]? := by
  intro h
  have hsame := h 3 ["Trending-Up", "Trending-Up", "Trending-Up", "Ranging"]
    ["Trending-Up", "Trending-Up", "Trending-Up", "Ranging", "Ranging", "Ranging"] 3
    (by decide) (by decide)
  revert hsame
  decide

/-- A bar in a run of full length is settled. -/
theorem causalAt_iff_trending : CausalAt 2 ["Trending-Up", "Trending-Up", "Ranging"] 1 ↔
    SettledLast 2 ["Trending-Up", "Trending-Up"] :=
  causalAt_iff 2 ["Trending-Up", "Trending-Up", "Ranging"] 1 (by decide)

end System2
