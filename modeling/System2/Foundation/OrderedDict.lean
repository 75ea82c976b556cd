import Mathlib.Data.List.Basic
import Mathlib.Data.List.Induction

/-!
# Dictionaries in insertion order

A list of entries. A key that is put again keeps its place and gets the new value, so
a dictionary that is built from pairs has the keys of the pairs, and under each key
the value of its last pair.
-/

namespace Foundation

abbrev OrderedDict (κ α : Type) := List (κ × α)

namespace OrderedDict

variable {κ α : Type} [BEq κ] [LawfulBEq κ] {d : OrderedDict κ α} {key other : κ} {v : α}

omit [LawfulBEq κ] in
/-- The value under a key. -/
def get? (d : OrderedDict κ α) (key : κ) : Option α := (d.find? fun e => e.1 == key).map Prod.snd

/-- Put a value under a key. -/
def put (d : OrderedDict κ α) (key : κ) (v : α) : OrderedDict κ α :=
  if d.any fun e => e.1 == key then d.map fun e => if e.1 == key then (e.1, v) else e
  else d ++ [(key, v)]

/-- The dictionary of some pairs. -/
def ofPairs (pairs : List (κ × α)) : OrderedDict κ α :=
  pairs.foldl (fun d e => d.put e.1 e.2) []

theorem get?_put_self (d : OrderedDict κ α) (key : κ) (v : α) : get? (put d key v) key = some v := by
  unfold put get?
  split_ifs with hany
  · induction d with
    | nil => simp at hany
    | cons e rest ih =>
        by_cases hkey : e.1 = key
        · simp [hkey]
        · have hrest : (rest.any fun e => e.1 == key) = true := by simpa [hkey] using hany
          simpa [hkey] using ih hrest
  · have hfind : d.find? (fun e => e.1 == key) = none :=
      List.find?_eq_none.mpr fun e he h => hany (List.any_eq_true.mpr ⟨e, he, h⟩)
    simp [List.find?_append, hfind]

theorem get?_put_of_ne (hne : other ≠ key) (d : OrderedDict κ α) (v : α) :
    get? (put d key v) other = get? d other := by
  unfold put get?
  split_ifs with hany
  · clear hany
    induction d with
    | nil => rfl
    | cons e rest ih =>
        by_cases hkey : e.1 = key
        · simpa [hkey, hne.symm] using ih
        · by_cases hother : e.1 = other
          · simp [hother, hne]
          · simpa [hkey, hother] using ih
  · simp [List.find?_append, hne.symm]

theorem isSome_get? : (get? d key).isSome = true ↔ key ∈ d.map Prod.fst := by
  unfold get?
  rw [Option.isSome_map, List.find?_isSome]
  simp only [beq_iff_eq, List.mem_map]

theorem mem_keys_put : other ∈ (put d key v).map Prod.fst ↔ other = key ∨ other ∈ d.map Prod.fst := by
  by_cases hother : other = key
  · subst hother
    rw [← isSome_get?, get?_put_self]
    simp
  · rw [← isSome_get?, get?_put_of_ne hother, isSome_get?]
    simp [hother]

/-- A key that is put is put once. -/
theorem nodup_keys_put (h : (d.map Prod.fst).Nodup) (key : κ) (v : α) :
    ((put d key v).map Prod.fst).Nodup := by
  unfold put
  split_ifs with hany
  · have hkeys : (d.map fun e => if e.1 == key then (e.1, v) else e).map Prod.fst =
        d.map Prod.fst := by
      rw [List.map_map]
      refine List.map_congr_left fun e _ => ?_
      dsimp only [Function.comp_apply]
      split_ifs
      · rfl
      · rfl
    rw [hkeys]
    exact h
  · rw [List.map_append, List.nodup_append]
    refine ⟨h, by simp, ?_⟩
    intro a ha b hb hab
    obtain rfl : b = key := List.mem_singleton.mp hb
    obtain ⟨e, he, rfl⟩ := List.mem_map.mp ha
    exact hany (List.any_eq_true.mpr ⟨e, he, beq_iff_eq.mpr hab⟩)

theorem nodup_keys_ofPairs (pairs : List (κ × α)) : ((ofPairs pairs).map Prod.fst).Nodup := by
  have hfold : ∀ d : OrderedDict κ α, (d.map Prod.fst).Nodup →
      ((pairs.foldl (fun d e => d.put e.1 e.2) d).map Prod.fst).Nodup := by
    induction pairs with
    | nil => exact fun d h => h
    | cons e rest ih => exact fun d h => ih _ (nodup_keys_put h e.1 e.2)
  exact hfold [] List.nodup_nil

/-- With each key once, an entry is what its key leads to. -/
theorem get?_eq_some_iff (h : (d.map Prod.fst).Nodup) : get? d key = some v ↔ (key, v) ∈ d := by
  unfold get?
  constructor
  · intro hget
    obtain ⟨e, he, rfl⟩ := Option.map_eq_some_iff.mp hget
    obtain rfl : e.1 = key := by simpa using List.find?_some he
    exact List.mem_of_find?_eq_some he
  · intro hmem
    induction d with
    | nil => cases hmem
    | cons e rest ih =>
        rw [List.map_cons, List.nodup_cons] at h
        rcases List.mem_cons.mp hmem with rfl | hrest
        · simp
        · have hne : e.1 ≠ key := fun heq =>
            h.1 (heq ▸ List.mem_map_of_mem (f := Prod.fst) hrest)
          rw [List.find?_cons_of_neg (by simpa using hne)]
          exact ih h.2 hrest

/-- A dictionary of pairs has the keys of the pairs. -/
theorem mem_keys_ofPairs {pairs : List (κ × α)} :
    key ∈ (ofPairs pairs).map Prod.fst ↔ key ∈ pairs.map Prod.fst := by
  have hfold : ∀ d : OrderedDict κ α, key ∈ (pairs.foldl (fun d e => d.put e.1 e.2) d).map Prod.fst ↔
      key ∈ d.map Prod.fst ∨ key ∈ pairs.map Prod.fst := by
    induction pairs with
    | nil => simp
    | cons e rest ih =>
        intro d
        rw [List.foldl_cons, ih, mem_keys_put, List.map_cons, List.mem_cons]
        tauto
  rw [ofPairs, hfold]
  simp

theorem get?_ofPairs_concat (pairs : List (κ × α)) (e : κ × α) :
    (ofPairs (pairs ++ [e])).get? key =
      if key == e.1 then some e.2 else (ofPairs pairs).get? key := by
  have hput : ofPairs (pairs ++ [e]) = (ofPairs pairs).put e.1 e.2 := by
    simp [ofPairs, List.foldl_append]
  rw [hput]
  split_ifs with hkey
  · rw [beq_iff_eq.mp hkey, get?_put_self]
  · exact get?_put_of_ne (by simpa using hkey) _ _

/-- A dictionary of pairs holds the value of the last pair of a key. -/
theorem get?_ofPairs_eq_some_iff {pairs : List (κ × α)} :
    (ofPairs pairs).get? key = some v ↔
      ∃ before after, pairs = before ++ (key, v) :: after ∧ key ∉ after.map Prod.fst := by
  induction pairs using List.reverseRecOn with
  | nil =>
      constructor
      · intro h
        cases h
      · rintro ⟨before, after, h, -⟩
        simp at h
  | append_singleton pairs e ih =>
      rw [get?_ofPairs_concat]
      constructor
      · split_ifs with hkey
        · intro h
          refine ⟨pairs, [], ?_, List.not_mem_nil⟩
          rw [beq_iff_eq.mp hkey, ← Option.some.inj h]
        · intro h
          obtain ⟨before, after, rfl, hlater⟩ := ih.mp h
          refine ⟨before, after ++ [e], by simp, ?_⟩
          rw [List.map_append, List.mem_append]
          rintro (hmem | hmem)
          · exact hlater hmem
          · exact hkey (beq_iff_eq.mpr (List.mem_singleton.mp hmem))
      · rintro ⟨before, after, h, hlater⟩
        rcases List.eq_nil_or_concat after with rfl | ⟨after, last, rfl⟩
        · obtain ⟨-, rfl⟩ := List.append_inj' h rfl |>.imp_right List.singleton_inj.mp
          exact if_pos (beq_self_eq_true key)
        · rw [List.concat_eq_append] at h hlater
          rw [← List.cons_append, ← List.append_assoc] at h
          obtain ⟨hpairs, hlast⟩ := List.append_inj' h rfl
          obtain rfl := List.singleton_inj.mp hlast
          rw [List.map_append, List.mem_append, not_or] at hlater
          have hne : ¬ (key == e.1) = true := fun hkey =>
            hlater.2 (List.mem_singleton.mpr (beq_iff_eq.mp hkey))
          rw [if_neg hne]
          exact ih.mpr ⟨before, after, hpairs, hlater.1⟩

theorem mem_of_get?_ofPairs {pairs : List (κ × α)} (h : (ofPairs pairs).get? key = some v) :
    (key, v) ∈ pairs := by
  obtain ⟨before, after, rfl, -⟩ := get?_ofPairs_eq_some_iff.mp h
  exact List.mem_append_right before List.mem_cons_self

end OrderedDict

end Foundation
