import System2.Foundation.Calendar
import System2.Foundation.Procedure

/-!
# Runs against a clock that goes on

Every call takes some time, and a reading of the clock is the moment at which the call for it
returns. The record of a run keeps when each call began and how long it took, so the moment of
a call is the start of the run and the time that the calls before it took.
-/

namespace Foundation

/-- A call with the moment at which it began and the microseconds that it took. -/
structure TimedCall (I : Interface) (ε : Type) where
  began : Moment
  took : ℕ
  event : Event I ε

/-- The time, and the calls so far. -/
structure Timed (I : Interface) (ε : Type) where
  now : Moment
  log : List (TimedCall I ε)

variable {I : Interface} {ε α : Type}

/-- The time that some calls took together. -/
def waited (calls : List (TimedCall I ε)) : ℕ := (calls.map TimedCall.took).sum

@[simp] theorem waited_nil : waited ([] : List (TimedCall I ε)) = 0 := rfl

@[simp] theorem waited_cons (call : TimedCall I ε) (calls : List (TimedCall I ε)) :
    waited (call :: calls) = call.took + waited calls := by
  simp [waited]

@[simp] theorem waited_append (calls calls' : List (TimedCall I ε)) :
    waited (calls ++ calls') = waited calls + waited calls' := by
  simp [waited]

/-- The world that answers anything, in any time; `reading` says which answers are readings of
the clock. -/
def World.timed (reading : Event I ε → Option Moment) : World I ε (Timed I ε) :=
  fun w op r w' => (∀ t ∈ reading ⟨op, r⟩, t = w'.now) ∧
    ∃ took : ℕ, w'.now.micros = w.now.micros + took ∧
      w'.log = w.log ++ [⟨w.now, took, ⟨op, r⟩⟩]

/-- The record accounts for all the time since the start. -/
structure Timeline (start : Moment) (w : Timed I ε) : Prop where
  now : w.now.micros = start.micros + waited w.log
  began : ∀ before call after, w.log = before ++ call :: after →
    call.began.micros = start.micros + waited before

theorem timeline_start (start : Moment) : Timeline start (⟨start, []⟩ : Timed I ε) :=
  ⟨by simp, by simp⟩

section Executions

variable {reading : Event I ε → Option Moment} {p : Proc I ε α} {w w' : Timed I ε}
  {out : Option (Except ε α)} {start : Moment}

theorem Timeline.step {op : I.Op} {r : Except ε (I.Ans op)} (h : Timeline start w)
    (step : World.timed reading w op r w') : Timeline start w' := by
  obtain ⟨-, took, hnow, hlog⟩ := step
  constructor
  · rw [hnow, hlog, h.now]
    simp
    ring
  · intro before call after hsplit
    rw [hlog] at hsplit
    rcases List.eq_nil_or_concat after with rfl | ⟨rest, last, rfl⟩
    · obtain ⟨rfl, hlast⟩ := List.append_inj' hsplit rfl
      obtain rfl := List.singleton_inj.mp hlast
      exact h.now
    · rw [List.concat_eq_append, ← List.cons_append, ← List.append_assoc] at hsplit
      exact h.began before call rest (List.append_inj' hsplit rfl).1

/-- A run keeps the account. -/
theorem Timeline.exec (h : Timeline start w) (exec : Exec (World.timed reading) p w out w') :
    Timeline start w' :=
  (wpc_sound exec (wpc_of_only (P := fun _ => True)
    (fun _ _ _ _ _ hw step => Timeline.step hw step) p.only_true h)).1

/-- A run adds to the record calls of the kinds that the procedure makes. -/
theorem exec_timed_of_only {P : I.Op → Prop} (hp : p.Only P)
    (exec : Exec (World.timed reading) p w out w') :
    ∃ calls, w'.log = w.log ++ calls ∧ ∀ call ∈ calls, P call.event.1 := by
  refine (wpc_sound exec (wpc_of_only (P := P)
    (J := fun w' => ∃ calls, w'.log = w.log ++ calls ∧ ∀ call ∈ calls, P call.event.1) ?_ hp
      ⟨[], by simp⟩)).1
  rintro op w₁ r w₂ hop ⟨calls, hlog, hcalls⟩ ⟨-, took, -, hlog'⟩
  refine ⟨calls ++ [⟨w₁.now, took, ⟨op, r⟩⟩], by rw [hlog', hlog, List.append_assoc], ?_⟩
  intro call hcall
  rcases List.mem_append.mp hcall with hmem | hlast
  · exact hcalls call hmem
  · rw [List.mem_singleton.mp hlast]
    exact hop

theorem exec_timed_log (exec : Exec (World.timed reading) p w out w') :
    ∃ calls, w'.log = w.log ++ calls := by
  obtain ⟨calls, hlog, -⟩ := exec_timed_of_only p.only_true exec
  exact ⟨calls, hlog⟩

end Executions

/-- An environment whose calls take a time given by a rule. -/
def timedBy (answer : (op : I.Op) → Moment → Except ε (I.Ans op)) (later : I.Op → Moment → Moment)
    (op : I.Op) (w : Timed I ε) : Except ε (I.Ans op) × Timed I ε :=
  (answer op (later op w.now), ⟨later op w.now,
    w.log ++ [⟨w.now, ((later op w.now).micros - w.now.micros).toNat,
      ⟨op, answer op (later op w.now)⟩⟩]⟩)

theorem timedBy_step {reading : Event I ε → Option Moment}
    {answer : (op : I.Op) → Moment → Except ε (I.Ans op)} {later : I.Op → Moment → Moment}
    (hlater : ∀ op t, t ≤ later op t) (hreading : ∀ op t, ∀ u ∈ reading ⟨op, answer op t⟩, u = t)
    (op : I.Op) (w : Timed I ε) :
    World.timed reading w op (timedBy answer later op w).1 (timedBy answer later op w).2 := by
  refine ⟨hreading op _, _, ?_, rfl⟩
  have hle := Moment.le_iff.mp (hlater op w.now)
  rw [Int.toNat_of_nonneg (by omega)]
  show (later op w.now).micros = _
  omega

end Foundation
