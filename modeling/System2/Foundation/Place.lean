import Mathlib.Data.List.Infix

/-!
# Places on a disk

A place is the list of names that lead to it from the top. A path text is walked from
a directory part by part, and an absolute one from the top. Two dots lead up, and empty
parts and single dots lead nowhere.
-/

namespace Foundation

/-- The names that lead to a directory or a file from the top of the disk. -/
abbrev Place := List String

namespace Place

/-- One part of a path. -/
def enter (p : Place) (part : String) : Place :=
  if part = ".." then p.dropLast else p ++ [part]

/-- The parts of a path text. -/
def parts (path : String) : List String :=
  ((path.toList.splitOn '/').map String.ofList).filter fun part => part ≠ "" && part ≠ "."

def isAbsolute (path : String) : Bool := path.toList.head? = some '/'

/-- No disk has a name with a null character. -/
def hasNul (path : String) : Bool := path.toList.any fun c => c.toNat = 0

/-- The places that a walk passes before it arrives. -/
def passed : Place → List String → List Place
  | _, [] => []
  | p, part :: rest => p :: passed (p.enter part) rest

/-- Where a walk of a path text starts. -/
def start (p : Place) (path : String) : Place := if isAbsolute path then [] else p

/-- Where a path text leads from a directory. -/
def join (p : Place) (path : String) : Place := (parts path).foldl enter (p.start path)

/-- The places on the way there. -/
def way (p : Place) (path : String) : List Place := passed (p.start path) (parts path)

/-- The places on the way, and the one that the path leads to. -/
def trail (p : Place) (path : String) : List Place := p.way path ++ [p.join path]

/-- The path text is one part, however it is written. -/
structure IsPart (path part : String) : Prop where
  relative : isAbsolute path = false
  parts : parts path = [part]
  down : part ≠ ".."

variable {p q : Place} {path part : String}

theorem IsPart.join (h : IsPart path part) : p.join path = p ++ [part] := by
  simp only [Place.join, start, h.relative, h.parts, List.foldl_cons, List.foldl_nil, enter,
    if_neg h.down]
  rfl

theorem IsPart.way (h : IsPart path part) : p.way path = [p] := by
  simp only [Place.way, start, h.relative, h.parts, passed]
  rfl

theorem IsPart.trail (h : IsPart path part) : p.trail path = [p, p ++ [part]] := by
  simp only [Place.trail, h.way, h.join, List.singleton_append]

theorem way_subset_trail (h : q ∈ p.way path) : q ∈ p.trail path :=
  List.mem_append_left _ h

theorem join_mem_trail : p.join path ∈ p.trail path :=
  List.mem_append_right _ (List.mem_singleton_self _)

/-- A place on a walk is its start, or one part from a place before. -/
theorem passed_chain {p q : Place} {parts : List String} {before after : List Place}
    (h : passed p parts ++ [parts.foldl enter p] = before ++ q :: after) :
    q = p ∨ ∃ r ∈ before, ∃ part, q = r.enter part := by
  induction parts generalizing p before with
  | nil =>
      cases before with
      | nil => exact Or.inl (List.cons.inj h).1.symm
      | cons r rest => simp [passed] at h
  | cons part rest ih =>
      cases before with
      | nil => exact Or.inl (List.cons.inj h).1.symm
      | cons r before =>
          obtain ⟨rfl, htail⟩ := List.cons.inj h
          rcases ih htail with rfl | ⟨r, hr, hpart⟩
          · exact Or.inr ⟨p, List.mem_cons_self, part, rfl⟩
          · exact Or.inr ⟨r, List.mem_cons_of_mem _ hr, hpart⟩

theorem trail_chain {before after : List Place} (h : p.trail path = before ++ q :: after) :
    q = p ∨ q = [] ∨ ∃ r ∈ before, ∃ part, q = r.enter part := by
  rcases passed_chain h with rfl | hchain
  · unfold start
    split_ifs
    · exact Or.inr (Or.inl rfl)
    · exact Or.inl rfl
  · exact Or.inr (Or.inr hchain)

end Place

end Foundation
