import System2.Foundation.OrderedDict
import Mathlib.Data.Fin.Tuple.Basic
import Mathlib.Data.List.Forall2

/-!
# Frames of named columns

A frame has a fixed number of rows. Under each of its names it has a column with one
cell for each row, so no two columns differ in length. A computation that may fail is
run on each cell of a column, or on each element of a list, and fails with the first
failure.
-/

namespace Foundation

variable {n : ℕ} {ε α β : Type}

/-- One cell for each of `n` rows. -/
abbrev Column (n : ℕ) (α : Type) := Fin n → α

/-- Columns of `n` cells under their names, in order. -/
abbrev Frame (n : ℕ) (α : Type) := OrderedDict String (Column n α)

/-- Run a computation on each cell of a column, from the first row on. -/
def Column.traverse : {n : ℕ} → Column n (Except ε β) → Except ε (Column n β)
  | 0, _ => .ok Fin.elim0
  | _ + 1, col =>
      match col 0 with
      | .error e => .error e
      | .ok b =>
          match Column.traverse fun i => col i.succ with
          | .error e => .error e
          | .ok rest => .ok (Fin.cons b rest)

theorem Column.traverse_eq_ok_iff {col : Column n (Except ε β)} {out : Column n β} :
    Column.traverse col = .ok out ↔ ∀ i, col i = .ok (out i) := by
  induction n with
  | zero =>
      constructor
      · exact fun _ i => i.elim0
      · exact fun _ => congrArg Except.ok (funext fun i => i.elim0)
  | succ n ih =>
      rw [Fin.forall_fin_succ, Column.traverse]
      cases hfirst : col 0 with
      | error e => simp
      | ok b =>
          have hrest := @ih (fun i => col i.succ) (fun i => out i.succ)
          rw [← hrest, Except.ok.injEq]
          cases Column.traverse fun i => col i.succ with
          | error e => simp
          | ok rest =>
              simp only [Except.ok.injEq]
              constructor
              · rintro rfl
                exact ⟨rfl, rfl⟩
              · rintro ⟨rfl, rfl⟩
                exact Fin.cons_self_tail out

/-- A check in front of a computation. -/
theorem check_eq_ok_iff {c : Prop} [Decidable c] {e : ε} {r : Except ε α} {a : α} :
    (if c then .error e else r) = .ok a ↔ ¬ c ∧ r = .ok a := by
  split_ifs with h
  · simp [h]
  · simp [h]

/-- A fallible computation on the elements of a list. -/
theorem mapM_eq_ok_iff {f : α → Except ε β} {l : List α} {out : List β} :
    l.mapM f = .ok out ↔ List.Forall₂ (fun a b => f a = .ok b) l out := by
  induction l generalizing out with
  | nil =>
      rw [List.mapM_nil, List.forall₂_nil_left_iff]
      exact ⟨fun h => (Except.ok.inj h).symm, fun h => congrArg Except.ok h.symm⟩
  | cons a l ih =>
      rw [List.mapM_cons, List.forall₂_cons_left_iff]
      simp only [← ih]
      cases f a with
      | error e => simp [bind, Except.bind]
      | ok b =>
          cases l.mapM f with
          | error e => simp [bind, Except.bind]
          | ok rest =>
              simp only [bind, Except.bind, pure, Except.pure, Except.ok.injEq]
              constructor
              · rintro rfl
                exact ⟨b, rest, rfl, rfl, rfl⟩
              · rintro ⟨b', rest', rfl, rfl, rfl⟩
                rfl

/-- The list of what is computed on each element. -/
theorem mapM_eq_ok_map {f : α → Except ε β} {g : α → β} {l : List α}
    (h : ∀ a ∈ l, f a = .ok (g a)) : l.mapM f = .ok (l.map g) := by
  rw [mapM_eq_ok_iff, List.forall₂_map_right_iff, List.forall₂_same]
  exact h

/-- A list is related to some other one when each of its elements is related to something. -/
theorem exists_forall₂_iff {R : α → β → Prop} {l : List α} :
    (∃ out, List.Forall₂ R l out) ↔ ∀ a ∈ l, ∃ b, R a b := by
  induction l with
  | nil => exact iff_of_true ⟨[], .nil⟩ (by simp)
  | cons a l ih =>
      rw [List.forall_mem_cons, ← ih]
      constructor
      · rintro ⟨_, h⟩
        obtain ⟨b, rest, hhead, htail, -⟩ := List.forall₂_cons_left_iff.mp h
        exact ⟨⟨b, hhead⟩, rest, htail⟩
      · rintro ⟨⟨b, hhead⟩, rest, htail⟩
        exact ⟨b :: rest, .cons hhead htail⟩

/-- Two relations one after the other, along three lists. -/
theorem forall₂_comp_iff {γ : Type} {R : α → β → Prop} {S : β → γ → Prop} {l : List α}
    {out : List γ} : List.Forall₂ (fun a c => ∃ b, R a b ∧ S b c) l out ↔
      ∃ mid, List.Forall₂ R l mid ∧ List.Forall₂ S mid out := by
  constructor
  · intro h
    induction h with
    | nil => exact ⟨[], .nil, .nil⟩
    | cons hhead _ ih =>
        obtain ⟨b, hR, hS⟩ := hhead
        obtain ⟨mid, hmid, hmid'⟩ := ih
        exact ⟨b :: mid, .cons hR hmid, .cons hS hmid'⟩
  · rintro ⟨mid, hmid, hmid'⟩
    induction hmid generalizing out with
    | nil =>
        rw [List.forall₂_nil_left_iff.mp hmid']
        exact .nil
    | cons hR _ ih =>
        obtain ⟨c, rest, hS, hrest, rfl⟩ := List.forall₂_cons_left_iff.mp hmid'
        exact .cons ⟨_, hR, hS⟩ (ih hrest)

end Foundation
