import Mathlib.Data.List.Basic
import Mathlib.Data.List.Infix

/-!
# The runs of a list

A list is its maximal runs of equal letters, each a letter with a length. Two runs that
stand beside each other have different letters, and the runs of a list with that
property are read off it.
-/

namespace Foundation
namespace Runs

variable {α : Type} {a b : α} {n : ℕ} {xs ys : List α} {r : α × ℕ} {rs : List (α × ℕ)}

/-- The letters of some runs. -/
def expand (rs : List (α × ℕ)) : List α := rs.flatMap fun r => List.replicate r.2 r.1

/-- Runs that are maximal: none is empty, and neighbours have different letters. -/
structure Maximal (rs : List (α × ℕ)) : Prop where
  positive : ∀ r ∈ rs, 0 < r.2
  apart : rs.IsChain fun r s => r.1 ≠ s.1

@[simp] theorem expand_nil : expand ([] : List (α × ℕ)) = [] := rfl

@[simp] theorem expand_cons (r : α × ℕ) (rs : List (α × ℕ)) :
    expand (r :: rs) = List.replicate r.2 r.1 ++ expand rs := rfl

@[simp] theorem expand_append (rs ss : List (α × ℕ)) : expand (rs ++ ss) = expand rs ++ expand ss :=
  List.flatMap_append

theorem Maximal.tail (h : Maximal (r :: rs)) : Maximal rs :=
  ⟨fun s hs => h.positive s (List.mem_cons_of_mem r hs), List.IsChain.of_cons h.apart⟩

/-- A first run of another length. -/
theorem Maximal.resize (h : Maximal ((a, n) :: rs)) {m : ℕ} (hm : 0 < m) :
    Maximal ((a, m) :: rs) := by
  constructor
  · exact List.forall_mem_cons.mpr ⟨hm, h.tail.positive⟩
  · cases rs with
    | nil => exact .singleton _
    | cons s rest =>
        have hpair := List.isChain_cons_cons.mp h.apart
        exact List.isChain_cons_cons.mpr ⟨hpair.1, hpair.2⟩

/-- The letters are those of the runs. -/
theorem mem_expand : a ∈ expand rs ↔ ∃ n, 0 < n ∧ (a, n) ∈ rs := by
  induction rs with
  | nil => simp
  | cons r rest ih =>
      obtain ⟨b, k⟩ := r
      rw [expand_cons, List.mem_append, ih, List.mem_replicate]
      constructor
      · rintro (⟨hk, rfl⟩ | ⟨n, hn, hmem⟩)
        · exact ⟨k, Nat.pos_of_ne_zero hk, List.mem_cons_self⟩
        · exact ⟨n, hn, List.mem_cons_of_mem _ hmem⟩
      · rintro ⟨n, hn, hmem⟩
        rcases List.mem_cons.mp hmem with h | hrest
        · obtain ⟨rfl, rfl⟩ := Prod.mk.inj h
          exact .inl ⟨hn.ne', rfl⟩
        · exact .inr ⟨n, hn, hrest⟩

section
variable [DecidableEq α]

/-- A run in front of others; beside its own letter it grows the first of them. -/
def push (r : α × ℕ) : List (α × ℕ) → List (α × ℕ)
  | [] => [r]
  | s :: rest => if r.1 = s.1 then (s.1, r.2 + s.2) :: rest else r :: s :: rest

@[simp] theorem push_nil (r : α × ℕ) : push r [] = [r] := rfl

theorem push_cons_self (a : α) (m n : ℕ) (rest : List (α × ℕ)) :
    push (a, m) ((a, n) :: rest) = (a, m + n) :: rest := if_pos rfl

theorem push_cons_of_ne {s : α × ℕ} (h : r.1 ≠ s.1) (rest : List (α × ℕ)) :
    push r (s :: rest) = r :: s :: rest := if_neg h

theorem push_push (a : α) (m n : ℕ) (rs : List (α × ℕ)) :
    push (a, m) (push (a, n) rs) = push (a, m + n) rs := by
  cases rs with
  | nil => exact push_cons_self a m n []
  | cons s rest =>
      by_cases hletter : a = s.1
      · obtain ⟨b, k⟩ := s
        obtain rfl : a = b := hletter
        rw [push_cons_self, push_cons_self, push_cons_self, Nat.add_assoc]
      · have hshort : push (a, n) (s :: rest) = (a, n) :: s :: rest := push_cons_of_ne hletter rest
        have hlong : push (a, m + n) (s :: rest) = (a, m + n) :: s :: rest :=
          push_cons_of_ne hletter rest
        rw [hshort, hlong, push_cons_self]

/-- The maximal runs of a list. -/
def runs (xs : List α) : List (α × ℕ) := xs.foldr (fun a => push (a, 1)) []

theorem expand_push (r : α × ℕ) (rs : List (α × ℕ)) : expand (push r rs) = expand (r :: rs) := by
  cases rs with
  | nil => rfl
  | cons s rest =>
      by_cases hletter : r.1 = s.1
      · obtain ⟨a, m⟩ := r
        obtain ⟨b, n⟩ := s
        obtain rfl : a = b := hletter
        rw [push_cons_self]
        rw [expand_cons, expand_cons, expand_cons, List.replicate_add, List.append_assoc]
      · rw [push_cons_of_ne hletter]

theorem expand_runs (xs : List α) : expand (runs xs) = xs := by
  induction xs with
  | nil => rfl
  | cons a xs ih =>
      calc
        expand (runs (a :: xs)) = expand ((a, 1) :: runs xs) := expand_push (a, 1) (runs xs)
        _ = a :: xs := by rw [expand_cons, ih]; rfl

theorem Maximal.push (hr : 0 < r.2) (h : Maximal rs) : Maximal (push r rs) := by
  cases rs with
  | nil => exact ⟨fun s hs => List.mem_singleton.mp hs ▸ hr, .singleton r⟩
  | cons s rest =>
      by_cases hletter : r.1 = s.1
      · obtain ⟨a, m⟩ := r
        obtain ⟨b, n⟩ := s
        obtain rfl : a = b := hletter
        rw [push_cons_self]
        exact h.resize (Nat.add_pos_left hr n)
      · rw [push_cons_of_ne hletter]
        constructor
        · exact List.forall_mem_cons.mpr ⟨hr, h.positive⟩
        · exact List.isChain_cons_cons.mpr ⟨hletter, h.apart⟩

/-- What `runs` finds are the maximal runs. -/
theorem maximal_runs (xs : List α) : Maximal (runs xs) := by
  induction xs with
  | nil => exact ⟨by simp [runs], .nil⟩
  | cons a xs ih => exact ih.push Nat.one_pos

/-- A run in front of the letters is pushed on the runs. -/
theorem runs_replicate_append (hn : 0 < n) (a : α) (xs : List α) :
    runs (List.replicate n a ++ xs) = push (a, n) (runs xs) := by
  induction n, hn using Nat.le_induction with
  | base => rfl
  | succ n hn ih =>
      calc
        runs (List.replicate (n + 1) a ++ xs) = push (a, 1) (push (a, n) (runs xs)) :=
          congrArg (push (a, 1)) ih
        _ = push (a, n + 1) (runs xs) := push_push a 1 n (runs xs) ▸ by rw [Nat.add_comm]

/-- Maximal runs are the runs of their letters. -/
theorem runs_expand (h : Maximal rs) : runs (expand rs) = rs := by
  induction rs with
  | nil => rfl
  | cons r rest ih =>
      rw [expand_cons, runs_replicate_append (h.positive r List.mem_cons_self), ih h.tail]
      cases rest with
      | nil => rfl
      | cons s rest => exact if_neg (List.isChain_cons_cons.mp h.apart).1

/-- A run that is pushed comes first, and may grow. -/
theorem push_eq (a : α) (n : ℕ) (rs : List (α × ℕ)) :
    ∃ m later, push (a, n) rs = (a, m) :: later ∧ n ≤ m := by
  cases rs with
  | nil => exact ⟨n, [], rfl, le_rfl⟩
  | cons s rest =>
      by_cases hletter : a = s.1
      · obtain ⟨b, k⟩ := s
        obtain rfl : a = b := hletter
        exact ⟨n + k, rest, push_cons_self a n k rest, Nat.le_add_right n k⟩
      · exact ⟨n, s :: rest, push_cons_of_ne hletter rest, le_rfl⟩

theorem length_pos_of_runs (h : runs xs = rs ++ [(a, n)]) : 0 < n := by
  have hmaximal := maximal_runs xs
  rw [h] at hmaximal
  exact hmaximal.positive (a, n) (by simp)

/-- More letters grow the last run or stand behind it. -/
theorem runs_append (h : runs xs = rs ++ [(a, n)]) (ys : List α) :
    runs (xs ++ ys) = rs ++ push (a, n) (runs ys) := by
  have hmaximal := maximal_runs xs
  have hletters := expand_runs xs
  rw [h] at hmaximal hletters
  subst hletters
  clear h
  induction rs with
  | nil =>
      rw [List.nil_append, List.nil_append, expand_cons, expand_nil, List.append_nil]
      exact runs_replicate_append (hmaximal.positive (a, n) (by simp)) a ys
  | cons r rs ih =>
      rw [List.cons_append, expand_cons, List.append_assoc,
        runs_replicate_append (hmaximal.positive r (by simp)), ih hmaximal.tail]
      cases rs with
      | nil =>
          obtain ⟨m, later, hpush, -⟩ := push_eq a n (runs ys)
          have hne : r.1 ≠ a := (List.isChain_cons_cons.mp hmaximal.apart).1
          rw [List.nil_append, hpush]
          exact push_cons_of_ne (s := (a, m)) hne later
      | cons s rs => exact push_cons_of_ne (List.isChain_cons_cons.mp hmaximal.apart).1 _

theorem runs_replicate (hn : 0 < n) (a : α) : runs (List.replicate n a) = [(a, n)] := by
  rw [← List.append_nil (List.replicate n a), runs_replicate_append hn]
  rfl

theorem takeWhile_expand (h : Maximal ((a, n) :: rs)) :
    (expand ((a, n) :: rs)).takeWhile (· == a) = List.replicate n a := by
  rw [expand_cons, List.takeWhile_append_of_pos (by simp)]
  cases rs with
  | nil => simp
  | cons s rest =>
      obtain ⟨b, k⟩ := s
      obtain ⟨j, rfl⟩ := Nat.exists_eq_add_one_of_ne_zero (h.tail.positive (b, k) (by simp)).ne'
      have hne : b ≠ a := ((List.isChain_cons_cons.mp h.apart).1).symm
      simp [List.replicate_succ, hne]

/-- The letters behind the first run. -/
theorem dropWhile_expand (h : Maximal ((a, n) :: rs)) :
    (expand ((a, n) :: rs)).dropWhile (· == a) = expand rs := by
  have hsplit := List.takeWhile_append_dropWhile (p := (· == a)) (l := expand ((a, n) :: rs))
  rw [takeWhile_expand h, expand_cons] at hsplit
  exact List.append_cancel_left hsplit

/-! ### The end of a list -/

/-- How many letters `a` a list ends with. -/
def trailing (a : α) (xs : List α) : ℕ := (xs.reverse.takeWhile (· == a)).length

theorem trailing_append_self (a : α) (xs : List α) :
    trailing a (xs ++ [a]) = trailing a xs + 1 := by
  simp [trailing]

theorem trailing_append_of_ne (h : b ≠ a) (xs : List α) : trailing a (xs ++ [b]) = 0 := by
  simp [trailing, h]

theorem replicate_prefix_iff {n : ℕ} {a : α} {xs : List α} :
    List.replicate n a <+: xs ↔ n ≤ (xs.takeWhile (· == a)).length := by
  induction xs generalizing n with
  | nil => simp
  | cons b xs ih =>
      cases n with
      | zero => simp
      | succ n =>
          rw [List.replicate_succ, List.cons_prefix_cons, ih]
          by_cases hletter : a = b
          · simp [hletter]
          · simp [hletter, Ne.symm hletter]

/-- A list ends with `n` letters `a` if it has so many at its end. -/
theorem replicate_suffix_iff {n : ℕ} {a : α} {xs : List α} :
    List.replicate n a <:+ xs ↔ n ≤ trailing a xs := by
  rw [trailing, ← replicate_prefix_iff, ← List.reverse_prefix, List.reverse_replicate]

/-! ### How often a list changes -/

variable {β : Type} [DecidableEq β]

/-- The places where a feature of the letter differs from that of the letter before. -/
def changes (f : α → β) : List α → ℕ
  | [] => 0
  | [_] => 0
  | a :: b :: xs => (if f b ≠ f a then 1 else 0) + changes f (b :: xs)

omit [DecidableEq α] in
/-- A letter less is no change more. -/
theorem changes_cons_le (f : α → β) (a b : α) (xs : List α) :
    changes f (a :: xs) ≤ changes f (a :: b :: xs) := by
  cases xs with
  | nil => exact Nat.zero_le _
  | cons c rest =>
      simp only [changes]
      by_cases hab : f b = f a
      · simp [hab]
      · split_ifs <;> omega

omit [DecidableEq α] in
theorem changes_replicate_append (f : α → β) (hn : 0 < n) (a : α) (xs : List α) :
    changes f (List.replicate n a ++ xs) = changes f (a :: xs) := by
  induction n, hn using Nat.le_induction with
  | base => rfl
  | succ n hn ih =>
      obtain ⟨k, rfl⟩ := Nat.exists_eq_add_one_of_ne_zero (Nat.pos_iff_ne_zero.mp hn)
      calc
        changes f (List.replicate (k + 1 + 1) a ++ xs) =
            0 + changes f (List.replicate (k + 1) a ++ xs) := by
          simp [List.replicate_succ, changes]
        _ = changes f (a :: xs) := by rw [Nat.zero_add, ih]

/-- A feature changes with the letters only. -/
theorem changes_le (f : α → β) : ∀ xs : List α, changes f xs ≤ changes id xs
  | [] => Nat.le_refl _
  | [_] => Nat.le_refl _
  | a :: b :: xs => by
      have hrest := changes_le f (b :: xs)
      simp only [changes, id_eq]
      by_cases hletter : b = a
      · simpa [hletter] using hrest
      · simp only [ne_eq, hletter, not_false_eq_true, if_true]
        split_ifs <;> omega

omit [DecidableEq α] in
/-- Runs of some length are as many as fit. -/
theorem length_mul_le {m : ℕ} (h : ∀ r ∈ rs, m ≤ r.2) : rs.length * m ≤ (expand rs).length := by
  induction rs with
  | nil => simp
  | cons r rest ih =>
      obtain ⟨hr, hrest⟩ := List.forall_mem_cons.mp h
      have hlater := ih hrest
      rw [expand_cons, List.length_append, List.length_replicate, List.length_cons, Nat.succ_mul]
      omega

/-- A list changes between its runs. -/
theorem changes_eq_runs (xs : List α) : changes id xs = (runs xs).length - 1 := by
  induction xs with
  | nil => rfl
  | cons a xs ih =>
      cases xs with
      | nil => rfl
      | cons b rest =>
          obtain ⟨m, later, hpush, -⟩ := push_eq b 1 (runs rest)
          have hruns : runs (b :: rest) = (b, m) :: later := hpush
          have hgrown : runs (a :: b :: rest) = push (a, 1) ((b, m) :: later) :=
            congrArg (push (a, 1)) hruns
          rw [hruns, List.length_cons] at ih
          rw [hgrown, changes, ih]
          by_cases hletter : a = b
          · rw [hletter, push_cons_self]
            simp
          · have hne : b ≠ a := fun h => hletter h.symm
            rw [push_cons_of_ne hletter]
            simp only [id_eq, ne_eq, hne, not_false_eq_true, if_true, List.length_cons]
            omega

end

end Runs
end Foundation
