import Mathlib.Data.List.Forall2
import Mathlib.Data.List.Perm.Basic
import System2.Foundation.JsonText

/-!
# JSON values and the text `json.dumps` lays out

A JSON value is a tree over the strings in it: Python strings before it is written,
literals afterwards. The text of a value is a line of gaps between literals, and every
gap between two literals holds a space.
-/

namespace Foundation
namespace JsonText

/-- A JSON value. The members of an object keep their places, as those of a dict do. -/
inductive Json (σ : Type)
  | scalar (value : Scalar)
  | str (text : σ)
  | arr (items : List (Json σ))
  | obj (members : List (σ × Json σ))

namespace Json

variable {σ τ : Type}

mutual
/-- The strings of a value, keys among them, as they stand in its text. -/
def strings : Json σ → List σ
  | .scalar _ => []
  | .str s => [s]
  | .arr items => itemStrings items
  | .obj members => memberStrings members

def itemStrings : List (Json σ) → List σ
  | [] => []
  | d :: rest => d.strings ++ itemStrings rest

def memberStrings : List (σ × Json σ) → List σ
  | [] => []
  | (key, d) :: rest => key :: (d.strings ++ memberStrings rest)
end

mutual
/-- The value with another string for each string. -/
def map (f : σ → τ) : Json σ → Json τ
  | .scalar value => .scalar value
  | .str s => .str (f s)
  | .arr items => .arr (mapItems f items)
  | .obj members => .obj (mapMembers f members)

def mapItems (f : σ → τ) : List (Json σ) → List (Json τ)
  | [] => []
  | d :: rest => d.map f :: mapItems f rest

def mapMembers (f : σ → τ) : List (σ × Json σ) → List (τ × Json τ)
  | [] => []
  | (key, d) :: rest => (f key, d.map f) :: mapMembers f rest
end

mutual
theorem strings_map (f : σ → τ) : ∀ d : Json σ, (d.map f).strings = d.strings.map f
  | .scalar _ => rfl
  | .str _ => rfl
  | .arr items => itemStrings_map f items
  | .obj members => memberStrings_map f members

theorem itemStrings_map (f : σ → τ) :
    ∀ items : List (Json σ), itemStrings (mapItems f items) = (itemStrings items).map f
  | [] => rfl
  | d :: rest => by
      simp only [mapItems, itemStrings, List.map_append, strings_map f d,
        itemStrings_map f rest]

theorem memberStrings_map (f : σ → τ) :
    ∀ members : List (σ × Json σ),
      memberStrings (mapMembers f members) = (memberStrings members).map f
  | [] => rfl
  | (key, d) :: rest => by
      simp only [mapMembers, memberStrings, List.map_append, List.map_cons, strings_map f d,
        memberStrings_map f rest]
end

theorem mapMembers_eq_map (f : σ → τ) (members : List (σ × Json σ)) :
    mapMembers f members = members.map fun e => (f e.1, e.2.map f) := by
  induction members with
  | nil => rfl
  | cons e rest ih => rw [mapMembers, ih, List.map_cons]

/-! ## Sorted keys -/

/-- A member before the first one with a later key, where `sorted` puts it. -/
def insertMember (key : Text) (d : Json Text) :
    List (Text × Json Text) → List (Text × Json Text)
  | [] => [(key, d)]
  | e :: rest => if e.1 < key then e :: insertMember key d rest else (key, d) :: e :: rest

mutual
/-- `sort_keys`: the members of every object in the order of their keys. -/
def sortKeys : Json Text → Json Text
  | .scalar value => .scalar value
  | .str s => .str s
  | .arr items => .arr (sortItems items)
  | .obj members => .obj (sortMembers members)

def sortItems : List (Json Text) → List (Json Text)
  | [] => []
  | d :: rest => d.sortKeys :: sortItems rest

def sortMembers : List (Text × Json Text) → List (Text × Json Text)
  | [] => []
  | (key, d) :: rest => insertMember key d.sortKeys (sortMembers rest)
end

/-! ## A place for a string -/

/-- A value with a place for a string, as a function of the string. -/
inductive Place : (σ → Json σ) → Prop
  | here : Place .str
  | item {f : σ → Json σ} (before after : List (Json σ)) (inner : Place f) :
      Place fun s => .arr (before ++ f s :: after)
  | member {f : σ → Json σ} (before : List (σ × Json σ)) (key : σ) (after : List (σ × Json σ))
      (inner : Place f) : Place fun s => .obj (before ++ (key, f s) :: after)

theorem mapItems_eq_map (f : σ → τ) (items : List (Json σ)) :
    mapItems f items = items.map fun d => d.map f := by
  induction items with
  | nil => rfl
  | cons d rest ih => rw [mapItems, ih, List.map_cons]

/-- Other strings in a value leave the place where it is. -/
theorem Place.map {f : σ → Json σ} (hf : Place f) (e : σ → τ) :
    ∃ g : τ → Json τ, Place g ∧ ∀ s, (f s).map e = g (e s) := by
  induction hf with
  | here => exact ⟨.str, .here, fun s => rfl⟩
  | item before after _ ih =>
      obtain ⟨g, hg, heq⟩ := ih
      refine ⟨_, hg.item (mapItems e before) (mapItems e after), fun s => ?_⟩
      simp only [Json.map, mapItems_eq_map, List.map_append, List.map_cons, heq]
  | member before key after _ ih =>
      obtain ⟨g, hg, heq⟩ := ih
      refine ⟨_, hg.member (mapMembers e before) (e key) (mapMembers e after), fun s => ?_⟩
      simp only [Json.map, mapMembers_eq_map, List.map_append, List.map_cons, heq]

theorem sortItems_eq_map (items : List (Json Text)) : sortItems items = items.map sortKeys := by
  induction items with
  | nil => rfl
  | cons d rest ih => rw [sortItems, ih, List.map_cons]

/-- Where a member is put depends on its key alone. -/
theorem insertMember_new (key : Text) (members : List (Text × Json Text)) :
    ∃ before after, ∀ d, insertMember key d members = before ++ (key, d) :: after := by
  induction members with
  | nil => exact ⟨[], [], fun d => rfl⟩
  | cons e rest ih =>
      by_cases he : e.1 < key
      · obtain ⟨before, after, heq⟩ := ih
        refine ⟨e :: before, after, fun d => ?_⟩
        rw [insertMember, if_pos he, heq, List.cons_append]
      · refine ⟨[], e :: rest, fun d => ?_⟩
        rw [insertMember, if_neg he, List.nil_append]

/-- The value of a member does not matter to where another one is put. -/
theorem insertMember_beside (key : Text) (d : Json Text) (place : Text)
    (before after : List (Text × Json Text)) :
    ∃ before' after', ∀ c, insertMember key d (before ++ (place, c) :: after) =
      before' ++ (place, c) :: after' := by
  induction before with
  | nil =>
      by_cases hplace : place < key
      · refine ⟨[], insertMember key d after, fun c => ?_⟩
        rw [List.nil_append, insertMember, if_pos hplace, List.nil_append]
      · refine ⟨[(key, d)], after, fun c => ?_⟩
        rw [List.nil_append, insertMember, if_neg hplace, List.singleton_append]
  | cons e rest ih =>
      by_cases he : e.1 < key
      · obtain ⟨before', after', heq⟩ := ih
        refine ⟨e :: before', after', fun c => ?_⟩
        rw [List.cons_append, insertMember, if_pos he, heq, List.cons_append]
      · refine ⟨(key, d) :: e :: rest, after, fun c => ?_⟩
        rw [List.cons_append, insertMember, if_neg he]
        rfl

theorem sortMembers_place (key : Text) (before after : List (Text × Json Text)) :
    ∃ before' after', ∀ c, sortMembers (before ++ (key, c) :: after) =
      before' ++ (key, c.sortKeys) :: after' := by
  induction before with
  | nil =>
      obtain ⟨before', after', heq⟩ := insertMember_new key (sortMembers after)
      exact ⟨before', after', fun c => heq c.sortKeys⟩
  | cons e rest ih =>
      obtain ⟨middle, tail, hrest⟩ := ih
      obtain ⟨before', after', heq⟩ := insertMember_beside e.1 e.2.sortKeys key middle tail
      refine ⟨before', after', fun c => ?_⟩
      rw [List.cons_append, sortMembers, hrest, heq]

/-- Sorting keys leaves a place for the string. -/
theorem Place.sortKeys {f : Text → Json Text} (hf : Place f) :
    Place fun s => (f s).sortKeys := by
  induction hf with
  | here => exact .here
  | @item f before after _ ih =>
      have heq : ∀ s, (Json.arr (before ++ f s :: after)).sortKeys =
          .arr (before.map Json.sortKeys ++ (f s).sortKeys :: after.map Json.sortKeys) := by
        intro s
        simp only [Json.sortKeys, sortItems_eq_map, List.map_append, List.map_cons]
      simp only [heq]
      exact ih.item _ _
  | @member f before key after _ ih =>
      obtain ⟨before', after', heq⟩ := sortMembers_place key before after
      have hsort : ∀ s, (Json.obj (before ++ (key, f s) :: after)).sortKeys =
          .obj (before' ++ (key, (f s).sortKeys) :: after') := by
        intro s
        rw [Json.sortKeys, heq]
      simp only [hsort]
      exact ih.member before' key after'

/-! ## The layout -/

mutual
/-- The text of a value over literals, in front of what follows it. -/
def write : Json Text → Text → Text
  | .scalar value, rest => value.token ++ rest
  | .str r, rest => '"' :: (r ++ '"' :: rest)
  | .arr [], rest => '[' :: ']' :: rest
  | .arr (d :: items), rest => '[' :: d.write (writeItems items rest)
  | .obj [], rest => '{' :: '}' :: rest
  | .obj ((key, d) :: members), rest =>
      '{' :: '"' :: (key ++ '"' :: ':' :: ' ' :: d.write (writeMembers members rest))

/-- The items behind the first one. -/
def writeItems : List (Json Text) → Text → Text
  | [], rest => ']' :: rest
  | d :: items, rest => ',' :: ' ' :: d.write (writeItems items rest)

/-- The members behind the first one. -/
def writeMembers : List (Text × Json Text) → Text → Text
  | [], rest => '}' :: rest
  | (key, d) :: members, rest =>
      ',' :: ' ' :: '"' :: (key ++ '"' :: ':' :: ' ' :: d.write (writeMembers members rest))
end

/-- `json.dumps` of a value whose strings are escaped. -/
def dumps (d : Json Text) : Text := d.write []

mutual
theorem write_append : ∀ (d : Json Text) (xs ys : Text), d.write (xs ++ ys) = d.write xs ++ ys
  | .scalar value, xs, ys => by simp only [write, List.append_assoc]
  | .str r, xs, ys => by simp only [write, List.cons_append, List.append_assoc]
  | .arr [], xs, ys => rfl
  | .arr (d :: items), xs, ys => by
      simp only [write, List.cons_append, writeItems_append items xs ys, write_append d]
  | .obj [], xs, ys => rfl
  | .obj ((key, d) :: members), xs, ys => by
      simp only [write, List.cons_append, List.append_assoc, writeMembers_append members xs ys,
        write_append d]

theorem writeItems_append : ∀ (items : List (Json Text)) (xs ys : Text),
    writeItems items (xs ++ ys) = writeItems items xs ++ ys
  | [], xs, ys => rfl
  | d :: items, xs, ys => by
      simp only [writeItems, List.cons_append, writeItems_append items xs ys, write_append d]

theorem writeMembers_append : ∀ (members : List (Text × Json Text)) (xs ys : Text),
    writeMembers members (xs ++ ys) = writeMembers members xs ++ ys
  | [], xs, ys => rfl
  | (key, d) :: members, xs, ys => by
      simp only [writeMembers, List.cons_append, List.append_assoc,
        writeMembers_append members xs ys, write_append d]
end

/-- What follows a value is no longer than the text with the value. -/
theorem length_le_write (d : Json Text) (rest : Text) : rest.length ≤ (d.write rest).length := by
  have happend := d.write_append [] rest
  rw [List.nil_append] at happend
  rw [happend, List.length_append]
  exact Nat.le_add_left _ _

end Json
end JsonText
end Foundation
