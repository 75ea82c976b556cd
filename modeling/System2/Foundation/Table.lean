import Mathlib.Data.List.Basic
import Mathlib.Data.List.Pairwise
import Mathlib.Data.Finset.Card
import Mathlib.Data.Finset.Dedup

/-!
# A table with a primary key

Rows are kept in the order of an ascending key that is never reused. A statement
selects rows, changes the rows that meet a condition, or appends one; none of them
changes a key. What a statement does to one row is said by `get?`.
-/

namespace Foundation

/-- Rows of type `ρ` in ascending key order, and the next key to be given out. -/
structure Table (ρ : Type) where
  rows : List (ℕ × ρ)
  next : ℕ
  ascending : rows.Pairwise fun a b => a.1 < b.1
  bounded : ∀ e ∈ rows, e.1 < next

namespace Table

variable {ρ : Type} {t : Table ρ} {k : ℕ} {r : ρ}

def empty : Table ρ := ⟨[], 0, List.Pairwise.nil, fun e he => by cases he⟩

/-- The row of a key. -/
def get? (t : Table ρ) (k : ℕ) : Option ρ := (t.rows.find? fun e => e.1 = k).map Prod.snd

/-- The rows that meet a condition, in key order. -/
def select (t : Table ρ) (p : ρ → Bool) : List (ℕ × ρ) := t.rows.filter fun e => p e.2

/-- Change every row that meets a condition. -/
def update (t : Table ρ) (p : ℕ → ρ → Bool) (f : ρ → ρ) : Table ρ where
  rows := t.rows.map fun e => (e.1, if p e.1 e.2 then f e.2 else e.2)
  next := t.next
  ascending := List.pairwise_map.mpr t.ascending
  bounded := by
    intro e he
    obtain ⟨e', he', rfl⟩ := List.mem_map.mp he
    exact t.bounded e' he'

/-- Append a row under the next key. -/
def insert (t : Table ρ) (r : ρ) : Table ρ where
  rows := t.rows ++ [(t.next, r)]
  next := t.next + 1
  ascending := by
    refine List.pairwise_append.mpr ⟨t.ascending, List.pairwise_singleton _ _, ?_⟩
    intro e he e' he'
    rw [List.mem_singleton.mp he']
    exact t.bounded e he
  bounded := by
    intro e he
    rcases List.mem_append.mp he with hold | hnew
    · exact Nat.lt_succ_of_lt (t.bounded e hold)
    · rw [List.mem_singleton.mp hnew]
      exact Nat.lt_succ_self _

theorem get?_of_mem (h : (k, r) ∈ t.rows) : t.get? k = some r := by
  have huniq : ∀ rows : List (ℕ × ρ), rows.Pairwise (fun a b => a.1 < b.1) → (k, r) ∈ rows →
      rows.find? (fun e => e.1 = k) = some (k, r) := by
    intro rows hrows hmem
    induction rows with
    | nil => cases hmem
    | cons e rest ih =>
        obtain ⟨hhead, hrest⟩ := List.pairwise_cons.mp hrows
        rcases List.mem_cons.mp hmem with rfl | hmem
        · simp
        · have hne : e.1 ≠ k := Nat.ne_of_lt (hhead _ hmem)
          rw [List.find?_cons_of_neg (by simpa using hne)]
          exact ih hrest hmem
  rw [get?, huniq t.rows t.ascending h]
  rfl

theorem mem_of_get? (h : t.get? k = some r) : (k, r) ∈ t.rows := by
  obtain ⟨e, hfind, rfl⟩ := Option.map_eq_some_iff.mp h
  have hkey : e.1 = k := by simpa using List.find?_some hfind
  rw [← hkey]
  exact List.mem_of_find?_eq_some hfind

/-- The rows of a table are what its keys find. -/
theorem mem_rows_iff : (k, r) ∈ t.rows ↔ t.get? k = some r := ⟨get?_of_mem, mem_of_get?⟩

theorem mem_select_iff {p : ρ → Bool} :
    (k, r) ∈ t.select p ↔ t.get? k = some r ∧ p r = true := by
  simp [select, mem_rows_iff]

/-- An update acts on each row by itself. -/
theorem get?_update (p : ℕ → ρ → Bool) (f : ρ → ρ) :
    (t.update p f).get? k = (t.get? k).map fun r => if p k r then f r else r := by
  cases hk : t.get? k with
  | some r =>
      refine get?_of_mem (List.mem_map.mpr ⟨(k, r), mem_of_get? hk, rfl⟩)
  | none =>
      cases hnew : (t.update p f).get? k with
      | none => rfl
      | some r =>
          obtain ⟨e, he, heq⟩ := List.mem_map.mp (mem_of_get? hnew)
          obtain ⟨rfl, -⟩ := Prod.mk.inj heq
          rw [get?_of_mem (r := e.2) he] at hk
          cases hk

/-- An update changes nothing exactly when it changes no row that it selects. -/
theorem update_eq_self_iff {p : ℕ → ρ → Bool} {f : ρ → ρ} :
    t.update p f = t ↔ ∀ k r, t.get? k = some r → p k r = true → f r = r := by
  constructor
  · intro h k r hk hp
    have hrow := get?_update (t := t) (k := k) p f
    rw [h, hk, Option.map_some, if_pos hp] at hrow
    exact (Option.some.inj hrow).symm
  · intro h
    have hrows : (t.update p f).rows = t.rows := by
      refine (List.map_congr_left fun e he => ?_).trans (List.map_id _)
      by_cases hp : p e.1 e.2 = true
      · simp [hp, h e.1 e.2 (get?_of_mem he) hp]
      · simp [hp]
    cases t
    simp only [update, mk.injEq, and_true] at hrows ⊢
    exact hrows

theorem get?_insert_of_some {r' : ρ} (h : t.get? k = some r) : (t.insert r').get? k = some r :=
  get?_of_mem (List.mem_append_left _ (mem_of_get? h))

/-- What an insertion leaves: the old rows and the new one. -/
theorem get?_insert_cases {r' : ρ} (h : (t.insert r').get? k = some r) :
    t.get? k = some r ∨ (k = t.next ∧ r = r') := by
  rcases List.mem_append.mp (mem_of_get? h) with hold | hnew
  · exact Or.inl (get?_of_mem hold)
  · obtain ⟨rfl, rfl⟩ := Prod.mk.inj (List.mem_singleton.mp hnew)
    exact Or.inr ⟨rfl, rfl⟩

/-! ### Selections by their keys -/

/-- The keys of the rows that meet a condition. -/
def keys (t : Table ρ) (p : ρ → Bool) : Finset ℕ := ((t.select p).map Prod.fst).toFinset

theorem mem_keys {p : ρ → Bool} : k ∈ t.keys p ↔ ∃ r, t.get? k = some r ∧ p r = true := by
  simp [keys, mem_select_iff]

/-- The keys of a selection ascend. -/
theorem select_ascending (p : ρ → Bool) :
    ((t.select p).map Prod.fst).Pairwise (· < ·) :=
  List.pairwise_map.mpr (t.ascending.filter _)

theorem select_keys_nodup (p : ρ → Bool) : ((t.select p).map Prod.fst).Nodup :=
  (select_ascending p).imp Nat.ne_of_lt

/-- Ahead of a key that is not among the first `n` of some ascending keys there are `n` others. -/
theorem length_take_of_notMem {keys : List ℕ} {n : ℕ} (hkeys : keys.Pairwise (· < ·))
    (hk : k ∈ keys) (hnot : k ∉ keys.take n) :
    (keys.take n).length = n ∧ ∀ q ∈ keys.take n, q < k := by
  rw [← List.take_append_drop n keys] at hkeys hk
  have hdrop : k ∈ keys.drop n := (List.mem_append.mp hk).resolve_left hnot
  constructor
  · have hlength := List.length_pos_of_mem hdrop
    rw [List.length_drop] at hlength
    rw [List.length_take]
    omega
  · exact fun q hq => (List.pairwise_append.mp hkeys).2.2 q hq k hdrop

/-- Ahead of a key that is among the first `n` of some ascending keys there are fewer than `n`. -/
theorem card_lt_of_mem_take {keys : List ℕ} {n : ℕ} {ahead : Finset ℕ}
    (hkeys : keys.Pairwise (· < ·)) (hahead : ∀ q ∈ ahead, q ∈ keys ∧ q < k)
    (hk : k ∈ keys.take n) : ahead.card < n := by
  rw [← List.take_append_drop n keys] at hkeys hahead
  have hsubset : Insert.insert k ahead ⊆ (keys.take n).toFinset := by
    intro q hq
    rw [List.mem_toFinset]
    rcases Finset.mem_insert.mp hq with rfl | hmem
    · exact hk
    · rcases List.mem_append.mp (hahead q hmem).1 with htake | hdrop
      · exact htake
      · have hlt := (List.pairwise_append.mp hkeys).2.2 k hk q hdrop
        exact absurd (hahead q hmem).2 (Nat.lt_asymm hlt)
  have hnot : k ∉ ahead := fun hmem => Nat.lt_irrefl k (hahead k hmem).2
  have hcard := (Finset.card_le_card hsubset).trans (List.toFinset_card_le _)
  rw [Finset.card_insert_of_notMem hnot, List.length_take] at hcard
  omega

/-- What an update keeps of each row, it keeps of a selection. -/
theorem map_select_update {β : Type} {p : ρ → Bool} {g : ρ → β} (c : ℕ → ρ → Bool) {f : ρ → ρ}
    (hp : ∀ r, p (f r) = p r) (hg : ∀ r, g (f r) = g r) :
    ((t.update c f).select p).map (fun e => g e.2) = (t.select p).map fun e => g e.2 := by
  have hsame : ∀ e : ℕ × ρ, p (if c e.1 e.2 then f e.2 else e.2) = p e.2 ∧
      g (if c e.1 e.2 then f e.2 else e.2) = g e.2 := by
    intro e
    split_ifs
    · exact ⟨hp e.2, hg e.2⟩
    · exact ⟨rfl, rfl⟩
  simp only [select, update, List.filter_map, List.map_map]
  have hfilter := List.filter_congr (l := t.rows) fun e _ => (hsame e).1
  exact (congrArg _ hfilter).trans (List.map_congr_left fun e _ => (hsame e).2)

theorem select_insert (p : ρ → Bool) :
    (t.insert r).select p = t.select p ++ if p r then [(t.next, r)] else [] := by
  simp [select, insert, List.filter_append, List.filter_singleton]

/-- Two tables with the same rows under a condition give the same selection. -/
theorem select_eq_of_same {t' : Table ρ} {p : ρ → Bool}
    (h : ∀ k r, p r = true → (t'.get? k = some r ↔ t.get? k = some r)) :
    t'.select p = t.select p := by
  have hnodup : ∀ t : Table ρ, (t.select p).Nodup := fun t => (select_keys_nodup p).of_map _
  have hperm : (t'.select p).Perm (t.select p) := by
    refine (List.perm_ext_iff_of_nodup (hnodup t') (hnodup t)).mpr ?_
    rintro ⟨k, r⟩
    rw [mem_select_iff, mem_select_iff]
    constructor
    · exact fun ⟨hrow, hp⟩ => ⟨(h k r hp).mp hrow, hp⟩
    · exact fun ⟨hrow, hp⟩ => ⟨(h k r hp).mpr hrow, hp⟩
  refine hperm.eq_of_pairwise ?_ (t'.ascending.filter _) (t.ascending.filter _)
  intro a b _ _ hab hba
  exact absurd (Nat.lt_trans hab hba) (Nat.lt_irrefl _)

end Table

end Foundation
