import Mathlib.Data.List.Basic
import Mathlib.Data.List.Infix
import Mathlib.Data.List.TakeDrop

/-!
# Substitution in a text

A matcher looks at what is left of a text and says how many letters it takes and what
stands for them. A substitution walks a text from the left: what the matcher takes is
replaced, the walk goes on behind it, and every other letter stays.
-/

namespace Foundation
namespace Substitution

/-- The number of letters taken, at least one, and what replaces them. -/
abbrev Matcher (α : Type) := List α → Option (ℕ × List α)

variable {α σ : Type} {m : Matcher α} {x c : α} {xs ys w rep : List α} {n k : ℕ}

/-- The walk, with the number of letters of the last match that it still has to pass. -/
def subFrom (m : Matcher α) : ℕ → List α → List α
  | _, [] => []
  | k + 1, _ :: xs => subFrom m k xs
  | 0, x :: xs =>
      match m (x :: xs) with
      | none => x :: subFrom m 0 xs
      | some (n, rep) => rep ++ subFrom m (n - 1) xs

/-- `re.sub`: every match is replaced, from the left and without overlap. -/
def sub (m : Matcher α) (xs : List α) : List α := subFrom m 0 xs

/-- The matcher of one fixed word. -/
def word [DecidableEq α] (w rep : List α) : Matcher α := fun xs =>
  if w.isPrefixOf xs then some (w.length, rep) else none

@[simp] theorem sub_nil : sub m [] = [] := rfl

theorem subFrom_eq_drop (m : Matcher α) (k : ℕ) (xs : List α) :
    subFrom m k xs = sub m (xs.drop k) := by
  induction xs generalizing k with
  | nil => cases k <;> rfl
  | cons x rest ih =>
      cases k with
      | zero => rfl
      | succ k => exact ih k

/-- A letter at which nothing matches stays. -/
theorem sub_cons (h : m (x :: xs) = none) : sub m (x :: xs) = x :: sub m xs := by
  simp only [sub, subFrom, h]

/-- A match is replaced, and the walk goes on behind it. -/
theorem sub_match (h : m (w ++ ys) = some (w.length, rep)) (hw : w ≠ []) :
    sub m (w ++ ys) = rep ++ sub m ys := by
  cases w with
  | nil => exact absurd rfl hw
  | cons x rest =>
      rw [List.cons_append] at h ⊢
      have hwalk : sub m (x :: (rest ++ ys)) = rep ++ subFrom m rest.length (rest ++ ys) := by
        simp only [sub, subFrom, h, List.length_cons, Nat.add_sub_cancel]
      rw [hwalk, subFrom_eq_drop, List.drop_left]

/-- Letters at which nothing matches stay. -/
theorem sub_append_of_silent (h : ∀ s, s ≠ [] → s <:+ xs → m (s ++ ys) = none) :
    sub m (xs ++ ys) = xs ++ sub m ys := by
  induction xs with
  | nil => rfl
  | cons x rest ih =>
      have hhead : m (x :: (rest ++ ys)) = none := h (x :: rest) (by simp) List.suffix_rfl
      have htail := ih fun s hs hsuffix => h s hs (hsuffix.trans (List.suffix_cons x rest))
      rw [List.cons_append, sub_cons hhead, htail, List.cons_append]

/-- Every letter of the result is a letter of the text or of a replacement. -/
theorem mem_sub (h : c ∈ sub m xs) : c ∈ xs ∨ ∃ s n rep, m s = some (n, rep) ∧ c ∈ rep := by
  have hwalk : ∀ k, c ∈ subFrom m k xs →
      c ∈ xs ∨ ∃ s n rep, m s = some (n, rep) ∧ c ∈ rep := by
    clear h
    induction xs with
    | nil => intro k hc; cases k <;> exact absurd hc (by simp [subFrom])
    | cons x rest ih =>
        intro k hc
        cases k with
        | succ k => exact (ih k hc).imp_left (List.mem_cons_of_mem x)
        | zero =>
            cases hm : m (x :: rest) with
            | none =>
                simp only [subFrom, hm, List.mem_cons] at hc
                obtain hc | hc := hc
                · exact .inl (hc ▸ List.mem_cons_self)
                · exact (ih 0 hc).imp_left (List.mem_cons_of_mem x)
            | some found =>
                obtain ⟨n, rep⟩ := found
                simp only [subFrom, hm, List.mem_append] at hc
                obtain hc | hc := hc
                · exact .inr ⟨_, n, rep, hm, hc⟩
                · exact (ih (n - 1) hc).imp_left (List.mem_cons_of_mem x)
  exact hwalk 0 h

/-! ## Matchers of words over a part of the letters -/

/-- A matcher that reads no further than the first letter outside `p`. -/
structure Bounded (p : α → Bool) (m : Matcher α) : Prop where
  nil : m [] = none
  length : ∀ {s n rep}, m s = some (n, rep) → 0 < n ∧ n ≤ s.length
  stops : ∀ {c}, p c = false → ∀ s ys, m (s ++ c :: ys) = m s

variable {p : α → Bool}

/-- A match is a first part of the text, and it is not empty. -/
theorem Bounded.split (hm : Bounded p m) (h : m xs = some (n, rep)) :
    ∃ w ys, xs = w ++ ys ∧ w ≠ [] ∧ n = w.length := by
  obtain ⟨hpos, hle⟩ := hm.length h
  refine ⟨xs.take n, xs.drop n, (List.take_append_drop n xs).symm, ?_, ?_⟩
  · intro hnil
    rw [List.take_eq_nil_iff] at hnil
    obtain rfl | rfl := hnil
    · exact absurd hpos (lt_irrefl 0)
    · exact absurd hpos (Nat.not_lt.mpr hle)
  · rw [List.length_take, min_eq_left hle]

/-- What stands before a letter outside `p` and what follows it are walked apart. -/
theorem Bounded.sub_append_cons (hm : Bounded p m) (hc : p c = false) (xs ys : List α) :
    sub m (xs ++ c :: ys) = sub m xs ++ c :: sub m ys := by
  induction hlen : xs.length using Nat.strong_induction_on generalizing xs with
  | _ k ih =>
      subst hlen
      cases hfound : m xs with
      | some found =>
          obtain ⟨n, rep⟩ := found
          obtain ⟨w, zs, rfl, hw, rfl⟩ := hm.split hfound
          have hlong : m (w ++ (zs ++ c :: ys)) = some (w.length, rep) := by
            rw [← List.append_assoc, hm.stops hc, hfound]
          have hshort : zs.length < (w ++ zs).length := by
            have := List.length_pos_of_ne_nil hw
            rw [List.length_append]; omega
          rw [List.append_assoc, sub_match hlong hw, sub_match hfound hw, ih _ hshort zs rfl,
            List.append_assoc]
      | none =>
          cases xs with
          | nil => exact sub_cons ((hm.stops hc [] ys).trans hm.nil)
          | cons x rest =>
              have hlong : m (x :: (rest ++ c :: ys)) = none :=
                (hm.stops hc (x :: rest) ys).trans hfound
              rw [List.cons_append, sub_cons hlong, sub_cons hfound,
                ih rest.length (Nat.lt_succ_self _) rest rfl, List.cons_append]

/-- An automaton that reads every replacement as it reads the match reads the result as
it reads the text. -/
theorem Bounded.foldlM_sub (hm : Bounded p m) {step : σ → α → Option σ}
    (hrep : ∀ {w ys rep q q'}, m (w ++ ys) = some (w.length, rep) →
      w.foldlM step q = some q' → rep.foldlM step q = some q')
    {q q' : σ} (h : xs.foldlM step q = some q') : (sub m xs).foldlM step q = some q' := by
  induction hlen : xs.length using Nat.strong_induction_on generalizing xs q with
  | _ k ih =>
      subst hlen
      cases hfound : m xs with
      | some found =>
          obtain ⟨n, rep⟩ := found
          obtain ⟨w, zs, rfl, hw, rfl⟩ := hm.split hfound
          rw [List.foldlM_append] at h
          obtain ⟨q₁, hq₁, hrest⟩ := Option.bind_eq_some_iff.mp h
          have hshort : zs.length < (w ++ zs).length := by
            have := List.length_pos_of_ne_nil hw
            rw [List.length_append]; omega
          rw [sub_match hfound hw, List.foldlM_append, hrep hfound hq₁]
          exact ih _ hshort hrest rfl
      | none =>
          cases xs with
          | nil => exact h
          | cons x rest =>
              rw [List.foldlM_cons] at h
              obtain ⟨q₁, hq₁, hrest⟩ := Option.bind_eq_some_iff.mp h
              rw [sub_cons hfound, List.foldlM_cons, hq₁]
              exact ih rest.length (Nat.lt_succ_self _) hrest rfl

end Substitution
end Foundation
