import Mathlib.Data.List.Basic
import Mathlib.Tactic.Common

/-!
# The first best element of a list

A scan keeps the element that nothing seen so far beats, and replaces it only by one that
beats it. For a transitive and irreflexive `beats` nothing in the list beats the element
that is kept, and one that beats every other is the one that is kept, wherever it stands.
-/

namespace Foundation

variable {ι α : Type} {beats : α → α → Bool} {score : ι → α} {items : List ι} {best i k : ι}

/-- What a scan that starts with a best element keeps. -/
def pickFrom (beats : α → α → Bool) (score : ι → α) (best : ι) : List ι → ι
  | [] => best
  | i :: rest =>
      if beats (score i) (score best) then pickFrom beats score i rest
      else pickFrom beats score best rest

/-- The first best element. -/
def pick (beats : α → α → Bool) (score : ι → α) : List ι → Option ι
  | [] => none
  | i :: rest => some (pickFrom beats score i rest)

theorem isSome_pick (beats : α → α → Bool) (score : ι → α) :
    (pick beats score items).isSome = true ↔ items ≠ [] := by
  cases items with
  | nil => simp [pick]
  | cons i rest => simp [pick]

theorem pickFrom_mem (beats : α → α → Bool) (score : ι → α) : ∀ (items : List ι) (best : ι),
    pickFrom beats score best items = best ∨ pickFrom beats score best items ∈ items
  | [], _ => Or.inl rfl
  | i :: rest, best => by
      unfold pickFrom
      split_ifs
      · rcases pickFrom_mem beats score rest i with h | h
        · rw [h]
          exact Or.inr List.mem_cons_self
        · exact Or.inr (List.mem_cons_of_mem i h)
      · rcases pickFrom_mem beats score rest best with h | h
        · exact Or.inl h
        · exact Or.inr (List.mem_cons_of_mem i h)

theorem pick_mem (h : pick beats score items = some k) : k ∈ items := by
  cases items with
  | nil => cases h
  | cons i rest =>
      rw [← Option.some.inj h, List.mem_cons]
      exact pickFrom_mem beats score rest i

/-- The scan depends on the scores of the elements only. -/
theorem pick_map {κ : Type} (f : κ → ι) (keys : List κ) :
    pick beats score (keys.map f) = (pick beats (fun key => score (f key)) keys).map f := by
  have hfrom : ∀ (keys : List κ) (start : κ),
      pickFrom beats score (f start) (keys.map f) =
        f (pickFrom beats (fun key => score (f key)) start keys) := by
    intro keys
    induction keys with
    | nil => exact fun _ => rfl
    | cons key rest ih =>
        intro start
        rw [List.map_cons, pickFrom, pickFrom]
        split_ifs
        · exact ih key
        · exact ih start
  cases keys with
  | nil => rfl
  | cons key rest => exact congrArg some (hfrom rest key)

/-- A comparison by which something can be first. -/
structure StrictlyBeats (beats : α → α → Bool) : Prop where
  irrefl : ∀ a, beats a a = false
  trans : ∀ {a b c}, beats a b = true → beats b c = true → beats a c = true

namespace StrictlyBeats

theorem asymm {a b : α} (hstrict : StrictlyBeats beats) (h : beats a b = true) :
    beats b a = false := by
  by_contra hback
  have hself := hstrict.trans h (Bool.not_eq_false _ ▸ hback)
  rw [hstrict.irrefl] at hself
  cases hself

/-- The comparison the other way round. -/
theorem flip (hstrict : StrictlyBeats beats) : StrictlyBeats fun a b => beats b a where
  irrefl := hstrict.irrefl
  trans := fun hba hcb => hstrict.trans hcb hba

variable (hstrict : StrictlyBeats beats)
include hstrict

/-- The element that is kept is the first one, or beats the first one. -/
theorem pickFrom_beats (score : ι → α) : ∀ (items : List ι) (best : ι),
    pickFrom beats score best items = best ∨
      beats (score (pickFrom beats score best items)) (score best) = true
  | [], _ => Or.inl rfl
  | i :: rest, best => by
      unfold pickFrom
      split_ifs with hbeats
      · rcases pickFrom_beats score rest i with h | h
        · exact Or.inr (h.symm ▸ hbeats)
        · exact Or.inr (hstrict.trans h hbeats)
      · exact pickFrom_beats score rest best

/-- Nothing in the list beats what is kept. -/
theorem pickFrom_unbeaten : ∀ {items : List ι} {best : ι}, ∀ i ∈ items,
    beats (score i) (score (pickFrom beats score best items)) = false
  | j :: rest, best, i, hi => by
      unfold pickFrom
      split_ifs with hbeats
      · rcases List.mem_cons.mp hi with rfl | hi
        · rcases hstrict.pickFrom_beats score rest i with h | h
          · rw [h]
            exact hstrict.irrefl _
          · exact hstrict.asymm h
        · exact pickFrom_unbeaten i hi
      · rcases List.mem_cons.mp hi with rfl | hi
        · by_contra hkept
          rw [Bool.not_eq_false] at hkept
          rcases hstrict.pickFrom_beats score rest best with h | h
          · rw [h] at hkept
            exact hbeats hkept
          · exact hbeats (hstrict.trans hkept h)
        · exact pickFrom_unbeaten i hi

theorem pick_unbeaten (h : pick beats score items = some k) :
    ∀ i ∈ items, beats (score i) (score k) = false := by
  cases items with
  | nil => cases h
  | cons first rest =>
      rw [← Option.some.inj h, List.forall_mem_cons]
      refine ⟨?_, hstrict.pickFrom_unbeaten⟩
      rcases hstrict.pickFrom_beats score rest first with h | h
      · rw [h]
        exact hstrict.irrefl _
      · exact hstrict.asymm h

/-- What is kept does not beat the first element exactly if nothing does. -/
theorem pickFrom_beats_iff : beats (score (pickFrom beats score best items)) (score best) = false ↔
    ∀ i ∈ items, beats (score i) (score best) = false := by
  induction items with
  | nil => simpa [pickFrom] using hstrict.irrefl (score best)
  | cons i rest ih =>
      rw [List.forall_mem_cons, ← ih, pickFrom]
      split_ifs with hbeats
      · have hkept : beats (score (pickFrom beats score i rest)) (score best) = true := by
          rcases hstrict.pickFrom_beats score rest i with h | h
          · rw [h]
            exact hbeats
          · exact hstrict.trans h hbeats
        simp [hkept, hbeats]
      · simp [hbeats]

/-- The scan keeps the first element exactly if nothing beats it. -/
theorem pickFrom_eq_self_iff : pickFrom beats score best items = best ↔
    ∀ i ∈ items, beats (score i) (score best) = false := by
  rw [← hstrict.pickFrom_beats_iff]
  constructor
  · intro h
    rw [h]
    exact hstrict.irrefl _
  · intro h
    refine (hstrict.pickFrom_beats score items best).resolve_right fun hbeats => ?_
    rw [h] at hbeats
    cases hbeats

/-- An element that beats every other one is kept. -/
theorem pickFrom_eq_of_dominant : ∀ {items : List ι} {best : ι}, k = best ∨ k ∈ items →
    (k ≠ best → beats (score k) (score best) = true) →
    (∀ i ∈ items, i ≠ k → beats (score k) (score i) = true) →
    pickFrom beats score best items = k
  | [], best, hk, _, _ => by
      rw [List.mem_nil_iff, or_false] at hk
      exact hk.symm
  | i :: rest, best, hk, hbest, hitems => by
      obtain ⟨hi, hrest⟩ := List.forall_mem_cons.mp hitems
      unfold pickFrom
      split_ifs with hbeats
      · have hne : k ≠ best := by
          rintro rfl
          by_cases hik : i = k
          · rw [hik, hstrict.irrefl] at hbeats
            cases hbeats
          · rw [hstrict.asymm (hi hik)] at hbeats
            cases hbeats
        refine pickFrom_eq_of_dominant ?_ (fun h => hi (Ne.symm h)) hrest
        rcases hk with hk | hk
        · exact absurd hk hne
        · exact List.mem_cons.mp hk
      · refine pickFrom_eq_of_dominant ?_ hbest hrest
        rcases hk with hk | hk
        · exact Or.inl hk
        · rcases List.mem_cons.mp hk with rfl | hk
          · by_cases hkb : k = best
            · exact Or.inl hkb
            · exact absurd (hbest hkb) hbeats
          · exact Or.inr hk

theorem pick_eq_of_dominant (hk : k ∈ items)
    (h : ∀ i ∈ items, i ≠ k → beats (score k) (score i) = true) :
    pick beats score items = some k := by
  cases items with
  | nil => cases hk
  | cons i rest =>
      obtain ⟨hi, hrest⟩ := List.forall_mem_cons.mp h
      exact congrArg some (hstrict.pickFrom_eq_of_dominant (List.mem_cons.mp hk)
        (fun hne => hi (Ne.symm hne)) hrest)

/-- The scans for the best and for the worst keep one element exactly if no element differs
from the first. -/
theorem pickFrom_eq_flip_iff :
    pickFrom beats score best items = pickFrom (fun a b => beats b a) score best items ↔
      ∀ i ∈ items, beats (score i) (score best) = false ∧ beats (score best) (score i) = false := by
  have hself : pickFrom beats score best items =
      pickFrom (fun a b => beats b a) score best items ↔
        pickFrom beats score best items = best ∧
          pickFrom (fun a b => beats b a) score best items = best := by
    constructor
    · intro heq
      have hbest : pickFrom beats score best items = best := by
        refine (hstrict.pickFrom_beats score items best).resolve_right fun hbeats => ?_
        rcases hstrict.flip.pickFrom_beats score items best
          with h | h
        · rw [heq, h, hstrict.irrefl] at hbeats
          cases hbeats
        · rw [← heq, hstrict.asymm hbeats] at h
          cases h
      exact ⟨hbest, heq ▸ hbest⟩
    · exact fun h => h.1.trans h.2.symm
  rw [hself, hstrict.pickFrom_eq_self_iff, hstrict.flip.pickFrom_eq_self_iff]
  constructor
  · exact fun h i hi => ⟨h.1 i hi, h.2 i hi⟩
  · exact fun h => ⟨fun i hi => (h i hi).1, fun i hi => (h i hi).2⟩

end StrictlyBeats

end Foundation
