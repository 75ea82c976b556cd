import Mathlib.Data.List.Induction
import System2.Foundation.Sharing

/-!
# Other calls beside those on a shared state

Processes that share a state also call other things, which answer anything and leave the
state alone. Their calls are those of two interfaces side by side. Without the other calls,
the log of such processes is a log of the state alone, and a procedure that follows a
protocol on the state follows it between any other calls.
-/

namespace Foundation

/-- Two interfaces side by side. -/
abbrev Interface.beside (I J : Interface) : Interface := ⟨I.Op ⊕ J.Op, Sum.elim I.Ans J.Ans⟩

section

variable {ι : Type} {I J : Interface} {ε S α : Type}

/-- The event of a call on the left. -/
def leftEvent? : Event (I.beside J) ε → Option (Event I ε)
  | ⟨.inl op, r⟩ => some ⟨op, r⟩
  | ⟨.inr _, _⟩ => none

/-- What was called on the left. -/
def leftEvents (t : List (Event (I.beside J) ε)) : List (Event I ε) := t.filterMap leftEvent?

def Happened.left? : Happened ι (I.beside J) ε S → Option (Happened ι I ε S)
  | ⟨i, .inl op, r, s, s'⟩ => some ⟨i, op, r, s, s'⟩
  | ⟨_, .inr _, _, _, _⟩ => none

def leftLog (log : List (Happened ι (I.beside J) ε S)) : List (Happened ι I ε S) :=
  log.filterMap Happened.left?

/-- The calls on the left act on the state; the others leave it alone. -/
def World.beside (world : World I ε S) : World (I.beside J) ε S := fun s op r s' =>
  match op, r with
  | .inl op, r => world s op r s'
  | .inr _, _ => s' = s

/-- Beside the protocol on the state, a call on the left may depend on all that the process has
called. -/
def Protocol.beside (P : Protocol ι I ε S) (Q : List (Event (I.beside J) ε) → I.Op → Prop) :
    Protocol ι (I.beside J) ε S := fun log t op =>
  match op with
  | .inl op => P (leftLog log) (leftEvents t) op ∧ Q t op
  | .inr _ => True

/-- A procedure with calls on the left only. -/
def Proc.onLeft (p : Proc I ε α) : Proc (I.beside J) ε α :=
  p.interp fun op => Proc.perform (I := I.beside J) (.inl op)

theorem Proc.onLeft_perform (op : I.Op) : (Proc.perform op : Proc I ε (I.Ans op)).onLeft =
    Proc.perform (I := I.beside J) (.inl op) :=
  Proc.interp_perform (fun op => Proc.perform (I := I.beside J) (.inl op)) op

@[simp] theorem leftEvents_append (t t' : List (Event (I.beside J) ε)) :
    leftEvents (t ++ t') = leftEvents t ++ leftEvents t' := List.filterMap_append

@[simp] theorem leftLog_append (log log' : List (Happened ι (I.beside J) ε S)) :
    leftLog (log ++ log') = leftLog log ++ leftLog log' := List.filterMap_append

theorem mem_leftEvents {t : List (Event (I.beside J) ε)} {op : I.Op} {r : Except ε (I.Ans op)} :
    ⟨op, r⟩ ∈ leftEvents t ↔ ⟨.inl op, r⟩ ∈ t := by
  unfold leftEvents
  rw [List.mem_filterMap]
  constructor
  · rintro ⟨⟨op', r'⟩, hmem, heq⟩
    cases op' with
    | inl op' =>
        obtain ⟨rfl, hr⟩ := Sigma.mk.inj (Option.some.inj heq)
        obtain rfl := eq_of_heq hr
        exact hmem
    | inr op' => cases heq
  · exact fun hmem => ⟨⟨.inl op, r⟩, hmem, rfl⟩

theorem events_leftLog (log : List (Happened ι (I.beside J) ε S)) :
    (leftLog log).map Happened.event = leftEvents (log.map Happened.event) := by
  unfold leftLog leftEvents
  rw [List.map_filterMap, List.filterMap_map]
  congr 1
  funext h
  obtain ⟨i, op, r, s, s'⟩ := h
  cases op with
  | inl op => rfl
  | inr op => rfl

theorem own_leftLog [DecidableEq ι] (i : ι) (log : List (Happened ι (I.beside J) ε S)) :
    own i (leftLog log) = leftEvents (own i log) := by
  induction log using List.reverseRecOn with
  | nil => rfl
  | append_singleton log h ih =>
      obtain ⟨j, op, r, s, s'⟩ := h
      by_cases hj : j = i
      · subst hj
        cases op with
        | inl op =>
            have hleft : leftLog (log ++ [⟨j, .inl op, r, s, s'⟩]) =
                leftLog log ++ [⟨j, op, r, s, s'⟩] := leftLog_append log _
            rw [hleft, own_concat_self (leftLog log) ⟨j, op, r, s, s'⟩, ih,
              own_concat_self log ⟨j, .inl op, r, s, s'⟩, leftEvents_append]
            rfl
        | inr op =>
            have hleft : leftLog (log ++ [⟨j, .inr op, r, s, s'⟩]) = leftLog log := by
              rw [leftLog_append]
              exact List.append_nil _
            rw [hleft, ih, own_concat_self log ⟨j, .inr op, r, s, s'⟩, leftEvents_append]
            exact (List.append_nil _).symm
      · cases op with
        | inl op =>
            have hleft : leftLog (log ++ [⟨j, .inl op, r, s, s'⟩]) =
                leftLog log ++ [⟨j, op, r, s, s'⟩] := leftLog_append log _
            rw [hleft, own_concat_other (leftLog log) (h := ⟨j, op, r, s, s'⟩) hj, ih,
              own_concat_other log (h := ⟨j, .inl op, r, s, s'⟩) hj]
        | inr op =>
            have hleft : leftLog (log ++ [⟨j, .inr op, r, s, s'⟩]) = leftLog log := by
              rw [leftLog_append]
              exact List.append_nil _
            rw [hleft, ih, own_concat_other log (h := ⟨j, .inr op, r, s, s'⟩) hj]

section Rules

variable {P : Protocol ι I ε S} {Q : List (Event (I.beside J) ε) → I.Op → Prop}

theorem Protocol.Monotone.beside (hP : P.Monotone) : (P.beside Q).Monotone := by
  intro log log' t op h
  cases op with
  | inl op =>
      refine ⟨?_, h.2⟩
      rw [leftLog_append]
      exact hP _ _ _ _ h.1
  | inr op => exact trivial

theorem Protocol.Kept.left {log : List (Happened ι (I.beside J) ε S)}
    {t : List (Event (I.beside J) ε)} (h : (P.beside Q).Kept log t) :
    P.Kept (leftLog log) (leftEvents t) := by
  induction t using List.reverseRecOn with
  | nil => exact Protocol.kept_nil
  | append_singleton t e ih =>
      obtain ⟨hbefore, hlast⟩ := Protocol.kept_concat_iff.mp h
      rw [leftEvents_append]
      obtain ⟨op, r⟩ := e
      cases op with
      | inl op => exact Protocol.kept_concat_iff.mpr ⟨ih hbefore, hlast.1⟩
      | inr op => exact (List.append_nil (leftEvents t)).symm ▸ ih hbefore

/-- Without the other calls a history is one of the state alone. -/
theorem History.left [DecidableEq ι] {world : World I ε S} {s₀ s : S}
    {log : List (Happened ι (I.beside J) ε S)}
    (history : History world.beside (P.beside Q) s₀ log s) :
    History world P s₀ (leftLog log) s := by
  induction history with
  | start => exact .start
  | @call log s i op r s' history hop step ih =>
      rw [leftLog_append]
      cases op with
      | inl op =>
          refine .call ih ?_ step
          rw [own_leftLog]
          exact hop.1
      | inr op =>
          obtain rfl : s' = s := step
          exact (List.append_nil _).symm ▸ ih

/-- A procedure on the state that follows the protocol follows it between other calls. -/
theorem wpc_onLeft {log : List (Happened ι (I.beside J) ε S)} {A : I.Op → Prop}
    {p : Proc I ε α} {R : Except ε α → List (Event I ε) → Prop}
    {t : List (Event (I.beside J) ε)} (hp : p.Only A) (hA : ∀ t op, A op → Q t op)
    (h : wpc World.free (P.Kept (leftLog log)) p R (leftEvents t))
    (hkept : (P.beside Q).Kept log t) :
    wpc World.free ((P.beside Q).Kept log) (p.onLeft : Proc (I.beside J) ε α)
      (fun r t' => R r (leftEvents t') ∧ ∃ u, t' = t ++ u) t := by
  have hrun : ∀ (p : Proc I ε α) (u : List (Event (I.beside J) ε)), p.Only A →
      wpc World.free (P.Kept (leftLog log)) p R (leftEvents (t ++ u)) →
      (P.beside Q).Kept log (t ++ u) →
      wpc World.free ((P.beside Q).Kept log) (p.onLeft : Proc (I.beside J) ε α)
        (fun r t' => R r (leftEvents t') ∧ ∃ u, t' = t ++ u) (t ++ u) := by
    intro p
    induction p with
    | ret a => exact fun u _ h hkept => ⟨hkept, h.2, u, rfl⟩
    | raise e => exact fun u _ h hkept => ⟨hkept, h.2, u, rfl⟩
    | call op next ih =>
        intro u hp h hkept
        have hcall : ∀ r, (P.beside Q).Kept log (t ++ (u ++ [⟨.inl op, r⟩])) ∧
            wpc World.free (P.Kept (leftLog log)) (next r) R
              (leftEvents (t ++ (u ++ [⟨.inl op, r⟩]))) := by
          intro r
          have hnext := h.2 r _ rfl
          have hallowed := (Protocol.kept_concat_iff.mp (wpc_crash hnext)).2
          rw [← List.append_assoc]
          refine ⟨Protocol.kept_concat_iff.mpr ⟨hkept, hallowed, hA _ op hp.1⟩, ?_⟩
          rw [leftEvents_append (t ++ u)]
          exact hnext
        have hperform : wpc World.free ((P.beside Q).Kept log)
            (Proc.perform (I := I.beside J) (ε := ε) (.inl op))
            (fun r t' => t' = t ++ (u ++ [⟨.inl op, r⟩])) (t ++ u) := by
          refine wpc_of_perform hkept ?_
          rintro r _ rfl
          rw [List.append_assoc]
          exact ⟨(hcall r).1, rfl⟩
        refine wpc_seq_attempt hperform ?_
        rintro r _ - rfl
        exact ih r _ (hp.2 r trivial) (hcall r).2 (hcall r).1
  have hstart := hrun p [] hp
  rw [List.append_nil] at hstart
  exact hstart h hkept

end Rules

end

end Foundation
