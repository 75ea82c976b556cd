import System2.Foundation.Frame
import Mathlib.Data.Fin.Tuple.Take

/-!
# Causal operations on columns

The rows of a column are points in time. An operation is causal if a row of its result
depends on no later row of the column, which is to say that it commutes with dropping the
last rows. Every function of what a column shows up to a row is causal.
-/

namespace Foundation

variable {m n : ℕ} {ε α β : Type}

/-- The first rows of a column. -/
abbrev Column.upTo (h : m ≤ n) (col : Column n α) : Column m α := Fin.take m h col

/-- The first rows of a frame. -/
def Frame.upTo (h : m ≤ n) (frame : Frame n α) : Frame m α :=
  frame.map fun e => (e.1, e.2.upTo h)

/-- What a column shows up to a row, the row included. -/
def Column.seen (col : Column n α) (i : Fin n) : List α := (List.ofFn col).take (i.val + 1)

/-- The column of a function of what has been seen. -/
def ofSeen (f : List α → β) (col : Column n α) : Column n β := fun i => f (col.seen i)

theorem Column.seen_upTo (h : m ≤ n) (col : Column n α) (i : Fin m) :
    (col.upTo h).seen i = col.seen (i.castLE h) := by
  rw [Column.seen, Column.seen, Fin.ofFn_take_eq_take_ofFn, List.take_take, Fin.val_castLE,
    min_eq_left (by omega)]

theorem ofSeen_upTo (f : List α → β) (h : m ≤ n) (col : Column n α) :
    ofSeen f (col.upTo h) = (ofSeen f col).upTo h := by
  funext i
  exact congrArg f (col.seen_upTo h i)

theorem Frame.get?_upTo (h : m ≤ n) (frame : Frame n α) (name : String) :
    (frame.upTo h).get? name = (frame.get? name).map fun col => col.upTo h := by
  induction frame with
  | nil => rfl
  | cons e rest ih =>
      by_cases hname : e.1 = name
      · simp [Frame.upTo, OrderedDict.get?, hname]
      · simpa [Frame.upTo, OrderedDict.get?, hname] using ih

theorem Frame.put_upTo (h : m ≤ n) (frame : Frame n α) (name : String) (col : Column n α) :
    (frame.upTo h).put name (col.upTo h) = Frame.upTo h (frame.put name col) := by
  unfold OrderedDict.put Frame.upTo
  rw [List.any_map]
  by_cases hany : frame.any (fun e => e.1 == name) = true
  · have hany' : frame.any ((fun e => e.1 == name) ∘ fun e => (e.1, e.2.upTo h)) = true := hany
    rw [if_pos hany, if_pos hany', List.map_map, List.map_map]
    refine List.map_congr_left fun e _ => ?_
    dsimp only [Function.comp_apply]
    split_ifs
    · rfl
    · rfl
  · have hany' : ¬ frame.any ((fun e => e.1 == name) ∘ fun e => (e.1, e.2.upTo h)) = true := hany
    rw [if_neg hany, if_neg hany', List.map_append]
    rfl

/-- A computation that succeeds on all rows succeeds on the first ones. -/
theorem Column.traverse_upTo (h : m ≤ n) {col : Column n (Except ε β)} {out : Column n β}
    (htraverse : Column.traverse col = .ok out) :
    Column.traverse (col.upTo h) = .ok (out.upTo h) := by
  rw [Column.traverse_eq_ok_iff] at htraverse ⊢
  exact fun i => htraverse (i.castLE h)

end Foundation
