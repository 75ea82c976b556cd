import Mathlib.Data.Set.Basic

/-!
# Guards that let a key fire once

A guard keeps a set of spent keys. An action carries a list of keys; it may
fire only while none of them is spent, and firing spends them all. The spent
set never shrinks. Then no key fires twice, in any run.
-/

namespace Foundation.OnceGuard

variable {κ : Type*}

/-- The actions of a run in order: `none` did not fire, `some ks` fired with `ks`. -/
inductive Run : Set κ → List (Option (List κ)) → Set κ → Prop
  | nil {s} : Run s [] s
  | quiet {s s' s'' h} (grow : s ⊆ s') (tail : Run s' h s'') : Run s (none :: h) s''
  | fire {s s' s'' h ks} (fresh : ∀ k ∈ ks, k ∉ s) (grow : s ⊆ s')
      (spent : ∀ k ∈ ks, k ∈ s') (tail : Run s' h s'') : Run s (some ks :: h) s''

/-- A spent key does not fire again. -/
theorem Run.not_mem_of_spent {s s' : Set κ} {h : List (Option (List κ))} (run : Run s h s')
    {k : κ} (hk : k ∈ s) : ∀ ks, some ks ∈ h → k ∉ ks := by
  induction run with
  | nil => simp
  | quiet grow _ ih => simpa using ih (grow hk)
  | fire fresh grow _ _ ih =>
      intro ks hks
      rcases List.mem_cons.mp hks with heq | htail
      · cases heq
        exact fun hmem => fresh k hmem hk
      · exact ih (grow hk) ks htail

variable [DecidableEq κ]

/-- Did this action fire with the key? -/
def firesWith (k : κ) (a : Option (List κ)) : Bool := a.any fun ks => ks.contains k

/-- In every run each key fires at most once. -/
theorem Run.fires_at_most_once {s s' : Set κ} {h : List (Option (List κ))} (run : Run s h s')
    (k : κ) : (h.filter (firesWith k)).length ≤ 1 := by
  induction run with
  | nil => simp
  | quiet _ _ ih => simpa [firesWith] using ih
  | @fire s s' s'' h ks fresh grow spent tail ih =>
      by_cases hk : k ∈ ks
      · have hnone : h.filter (firesWith k) = [] := by
          apply List.filter_eq_nil_iff.mpr
          intro a ha hfire
          cases a with
          | none => simp [firesWith] at hfire
          | some ks' =>
              have hmem : k ∈ ks' := by simpa [firesWith] using hfire
              exact tail.not_mem_of_spent (spent k hk) ks' ha hmem
        simp [firesWith, hk, hnone]
      · simpa [firesWith, hk] using ih

end Foundation.OnceGuard
