/-!
# Connections with a transaction

A connection reads and writes a copy of the committed store until it commits or rolls
back. A statement that fails aborts the transaction: every statement after it fails, too,
and none has an effect, until the transaction ends.
-/

namespace Foundation

structure Connection (W : Type) where
  committed : W
  pending : W
  aborted : Bool

namespace Connection

variable {W : Type} {s : Connection W}

/-- A connection that was just opened. -/
def fresh (w : W) : Connection W := ⟨w, w, false⟩

/-- One statement: whether it succeeds, and the connection after it. -/
def execute (accepted : Bool) (effect : W → W) (s : Connection W) : Bool × Connection W :=
  if s.aborted then (false, s)
  else if accepted then (true, { s with pending := effect s.pending })
  else (false, { s with aborted := true })

/-- The end of the transaction; an aborted one is undone. -/
def commit (s : Connection W) : Connection W :=
  if s.aborted then fresh s.committed else fresh s.pending

theorem execute_of_aborted (h : s.aborted = true) (accepted : Bool) (effect : W → W) :
    s.execute accepted effect = (false, s) := if_pos h

theorem execute_rejected (h : s.aborted = false) (effect : W → W) :
    s.execute false effect = (false, { s with aborted := true }) := by
  simp [execute, h]

theorem commit_execute (h : s.aborted = false) (effect : W → W) :
    (s.execute true effect).1 = true ∧ (s.execute true effect).2.commit = fresh (effect s.pending) := by
  simp [execute, commit, h]

end Connection

end Foundation
