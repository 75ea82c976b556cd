import System2.Foundation.Procedure
import Mathlib.Logic.Function.Basic

/-!
# Processes that share a state

Any number of processes run procedures on one state. They take turns call by call, in
any order, and a process may stop at any call and be started again. Every call is kept
in a log.

What a process does next depends on nothing but its own calls and their answers. So a
procedure is looked at alone, against an environment that answers anything, and what it
keeps to there it keeps to among the others: a protocol. What the calls then do to the
state is a matter of the log, where no procedure is left.
-/

namespace Foundation

/-- A call that a process made, with its answer and the state before and after it. -/
structure Happened (ι : Type) (I : Interface) (ε S : Type) where
  who : ι
  op : I.Op
  answer : Except ε (I.Ans op)
  before : S
  after : S

/-- A shared state, the log of the calls on it, and the rest of what each process is doing. -/
structure Pool (ι : Type) (I : Interface) (ε S : Type) where
  shared : S
  log : List (Happened ι I ε S)
  running : ι → Option (Proc I ε Unit)

section

variable {ι : Type} {I : Interface} {ε S α : Type} [DecidableEq ι]

def Happened.event (h : Happened ι I ε S) : Event I ε := ⟨h.op, h.answer⟩

/-- What a process has called. -/
def own (i : ι) (log : List (Happened ι I ε S)) : List (Event I ε) :=
  (log.filter fun h => h.who = i).map Happened.event

theorem own_concat_self (log : List (Happened ι I ε S)) (h : Happened ι I ε S) :
    own h.who (log ++ [h]) = own h.who log ++ [h.event] := by
  simp [own]

theorem own_concat_other {i : ι} (log : List (Happened ι I ε S)) {h : Happened ι I ε S}
    (hi : h.who ≠ i) : own i (log ++ [h]) = own i log := by
  simp [own, hi]

theorem mem_own_iff {i : ι} {log : List (Happened ι I ε S)} {e : Event I ε} :
    e ∈ own i log ↔ ∃ h ∈ log, h.who = i ∧ h.event = e := by
  simp [own, and_assoc]

/-! ### Turns -/

namespace Pool

/-- A pool in which nobody does anything. -/
def idle (s : S) : Pool ι I ε S := ⟨s, [], fun _ => none⟩

/-- One turn: a process that does nothing starts a procedure, a process makes its next call, or
it stops, be it that it is done or that it dies. -/
inductive Step (world : World I ε S)
    (starts : ι → List (Happened ι I ε S) → Proc I ε Unit → Prop) :
    Pool ι I ε S → Pool ι I ε S → Prop
  | start {s log running i p} (idle : running i = none) (h : starts i log p) :
      Step world starts ⟨s, log, running⟩ ⟨s, log, Function.update running i (some p)⟩
  | call {s log running i op next r s'} (h : running i = some (.call op next))
      (step : world s op r s') :
      Step world starts ⟨s, log, running⟩
        ⟨s', log ++ [⟨i, op, r, s, s'⟩], Function.update running i (some (next r))⟩
  | stop {s log running i} :
      Step world starts ⟨s, log, running⟩ ⟨s, log, Function.update running i none⟩

/-- Any number of turns. -/
inductive Reaches (world : World I ε S)
    (starts : ι → List (Happened ι I ε S) → Proc I ε Unit → Prop) (a : Pool ι I ε S) :
    Pool ι I ε S → Prop
  | refl : Reaches world starts a a
  | step {b c} (h : Reaches world starts a b) (step : Step world starts b c) :
      Reaches world starts a c

/-- Some calls of one process against a deterministic environment. -/
def calls (env : (op : I.Op) → S → Except ε (I.Ans op) × S) (i : ι) :
    Nat → Pool ι I ε S → Pool ι I ε S
  | 0, pool => pool
  | n + 1, pool =>
      match pool.running i with
      | some (.call op next) =>
          calls env i n ⟨(env op pool.shared).2,
            pool.log ++ [⟨i, op, (env op pool.shared).1, pool.shared, (env op pool.shared).2⟩],
            Function.update pool.running i (some (next (env op pool.shared).1))⟩
      | _ => pool

/-- A process that does nothing starts a procedure. -/
def starting (i : ι) (p : Proc I ε Unit) (pool : Pool ι I ε S) : Pool ι I ε S :=
  ⟨pool.shared, pool.log, Function.update pool.running i (some p)⟩

variable {world : World I ε S} {starts : ι → List (Happened ι I ε S) → Proc I ε Unit → Prop}
  {a b : Pool ι I ε S}

theorem Reaches.starting {i : ι} {p : Proc I ε Unit} (h : Reaches world starts a b)
    (idle : b.running i = none) (hstarts : starts i b.log p) :
    Reaches world starts a (b.starting i p) :=
  .step h (.start idle hstarts)

theorem Reaches.calls {env : (op : I.Op) → S → Except ε (I.Ans op) × S} {i : ι}
    (henv : ∀ op s, world s op (env op s).1 (env op s).2) (n : Nat)
    (h : Reaches world starts a b) : Reaches world starts a (b.calls env i n) := by
  induction n generalizing b with
  | zero => exact h
  | succ n ih =>
      unfold Pool.calls
      split
      · rename_i op next hrunning
        exact ih (.step h (.call hrunning (henv op b.shared)))
      · exact h

end Pool

/-! ### Protocols -/

/-- Which call a process may make, given the log and the process's own calls. -/
abbrev Protocol (ι : Type) (I : Interface) (ε S : Type) :=
  List (Happened ι I ε S) → List (Event I ε) → I.Op → Prop

namespace Protocol

/-- What is allowed stays allowed while the log grows. -/
def Monotone (P : Protocol ι I ε S) : Prop :=
  ∀ log log' t op, P log t op → P (log ++ log') t op

/-- Calls that each followed the protocol. -/
def Kept (P : Protocol ι I ε S) (log : List (Happened ι I ε S)) (t : List (Event I ε)) : Prop :=
  ∀ t₁ e t₂, t = t₁ ++ e :: t₂ → P log t₁ e.1

/-- A procedure that follows the protocol, whatever it is answered. -/
def Follows (P : Protocol ι I ε S) (log : List (Happened ι I ε S)) (p : Proc I ε α)
    (t : List (Event I ε)) : Prop :=
  wpc World.free (P.Kept log) p (fun _ _ => True) t

variable {P : Protocol ι I ε S} {log log' : List (Happened ι I ε S)} {t : List (Event I ε)}

omit [DecidableEq ι] in
theorem kept_nil : P.Kept log [] := by
  intro t₁ e t₂ h
  simp at h

omit [DecidableEq ι] in
theorem kept_concat_iff {e : Event I ε} : P.Kept log (t ++ [e]) ↔ P.Kept log t ∧ P log t e.1 := by
  constructor
  · intro h
    refine ⟨fun t₁ e' t₂ heq => h t₁ e' (t₂ ++ [e]) ?_, h t e [] rfl⟩
    simp [heq]
  · rintro ⟨hkept, hlast⟩ t₁ e' t₂ heq
    rcases List.eq_nil_or_concat t₂ with rfl | ⟨t₃, e'', rfl⟩
    · obtain ⟨rfl, hsame⟩ := List.append_inj' heq rfl
      obtain rfl : e = e' := by simpa using hsame
      exact hlast
    · rw [List.concat_eq_append, ← List.cons_append, ← List.append_assoc] at heq
      exact hkept t₁ e' t₃ (List.append_inj' heq rfl).1

omit [DecidableEq ι] in
theorem Kept.mono (hP : P.Monotone) (h : P.Kept log t) : P.Kept (log ++ log') t :=
  fun t₁ e t₂ heq => hP log log' t₁ e.1 (h t₁ e t₂ heq)

omit [DecidableEq ι] in
/-- The rule for one call: it follows the protocol, and so does the rest. -/
theorem wpc_allowed {op : I.Op} {Q : Except ε (I.Ans op) → List (Event I ε) → Prop}
    (hkept : P.Kept log t) (hop : P log t op)
    (hQ : ∀ r, Q r (t ++ [⟨op, r⟩])) :
    wpc World.free (P.Kept log) (.perform op) Q t := by
  apply wpc_of_perform hkept
  rintro r t' rfl
  exact ⟨kept_concat_iff.mpr ⟨hkept, hop⟩, hQ r⟩

omit [DecidableEq ι] in
/-- The rule for a call and what comes after it. -/
theorem wpc_allowed_bind {β : Type} {op : I.Op} {f : I.Ans op → Proc I ε β}
    {Q : Except ε β → List (Event I ε) → Prop} (hkept : P.Kept log t) (hop : P log t op)
    (hok : ∀ a, P.Kept log (t ++ [⟨op, .ok a⟩]) →
      wpc World.free (P.Kept log) (f a) Q (t ++ [⟨op, .ok a⟩]))
    (herr : ∀ e, Q (.error e) (t ++ [⟨op, .error e⟩])) :
    wpc World.free (P.Kept log) ((Proc.perform op).bind f) Q t := by
  refine wpc_seq (wpc_allowed (Q := fun r t' => t' = t ++ [⟨op, r⟩]) hkept hop fun _ => rfl) ?_ ?_
  · rintro a t' hkept' rfl
    exact hok a hkept'
  · rintro e t' - rfl
    exact herr e

omit [DecidableEq ι] in
/-- Calls of a kind that the protocol always allows keep to it. -/
theorem wpc_kept_of_only {A : I.Op → Prop} {p : Proc I ε α} (hp : p.Only A)
    (hA : ∀ t op, A op → P log t op) (hkept : P.Kept log t) :
    wpc World.free (P.Kept log) p (fun _ _ => True) t := by
  refine wpc_mono (wpc_of_only (J := P.Kept log) ?_ hp hkept) (fun _ h => h) fun _ _ _ _ => trivial
  rintro op t r _ hop hkept rfl
  exact kept_concat_iff.mpr ⟨hkept, hA t op hop⟩

omit [DecidableEq ι] in
theorem Follows.mono (hP : P.Monotone) {p : Proc I ε α} (h : P.Follows log p t) :
    P.Follows (log ++ log') p t :=
  wpc_mono h (fun _ hkept => hkept.mono hP) fun _ _ _ _ => trivial

end Protocol

/-- The calls on a state, each of which followed a protocol. -/
inductive History (world : World I ε S) (P : Protocol ι I ε S) (s₀ : S) :
    List (Happened ι I ε S) → S → Prop
  | start : History world P s₀ [] s₀
  | call {log s i op r s'} (history : History world P s₀ log s) (h : P log (own i log) op)
      (step : world s op r s') : History world P s₀ (log ++ [⟨i, op, r, s, s'⟩]) s'

/-- Before every call of a history there is the history up to it. -/
theorem History.split {world : World I ε S} {P : Protocol ι I ε S} {s₀ s : S}
    {log : List (Happened ι I ε S)} (history : History world P s₀ log s) :
    ∀ pre h post, log = pre ++ h :: post → History world P s₀ pre h.before ∧
      P pre (own h.who pre) h.op ∧ world h.before h.op h.answer h.after := by
  induction history with
  | start => exact fun pre h post heq => by simp at heq
  | @call log s i op r s' history hop step ih =>
      intro pre h post heq
      rcases List.eq_nil_or_concat post with rfl | ⟨post', last, rfl⟩
      · obtain ⟨rfl, hsame⟩ := List.append_inj' heq rfl
        obtain rfl : _ = h := by simpa using hsame
        exact ⟨history, hop, step⟩
      · rw [List.concat_eq_append, ← List.cons_append, ← List.append_assoc] at heq
        exact ih pre h post' (List.append_inj' heq rfl).1

/-- Every process has kept the protocol and goes on to follow it. -/
structure Pool.Orderly (world : World I ε S) (P : Protocol ι I ε S) (s₀ : S)
    (pool : Pool ι I ε S) : Prop where
  history : History world P s₀ pool.log pool.shared
  kept : ∀ i, P.Kept pool.log (own i pool.log)
  follows : ∀ i p, pool.running i = some p → P.Follows pool.log p (own i pool.log)

variable {world : World I ε S} {P : Protocol ι I ε S} {s₀ : S}
  {starts : ι → List (Happened ι I ε S) → Proc I ε Unit → Prop} {pool pool' : Pool ι I ε S}

theorem Pool.Orderly.step (hP : P.Monotone)
    (hstarts : ∀ i log p t, starts i log p → P.Kept log t → P.Follows log p t)
    (h : pool.Orderly world P s₀) (step : Pool.Step world starts pool pool') :
    pool'.Orderly world P s₀ := by
  cases step with
  | @start s log running i p idle hp =>
      refine ⟨h.history, h.kept, fun j q hq => ?_⟩
      by_cases hj : j = i
      · subst hj
        obtain rfl : p = q := by simpa using hq
        exact hstarts j log p _ hp (h.kept j)
      · exact h.follows j q (by simpa [hj] using hq)
  | @call s log running i op next r s' hrunning step =>
      have hcall := h.follows i _ hrunning
      obtain ⟨hkept, hrest⟩ : P.Kept log (own i log ++ [⟨op, r⟩]) ∧
          P.Follows log (next r) (own i log ++ [⟨op, r⟩]) := by
        have hnext := hcall.2 r _ rfl
        exact ⟨wpc_crash hnext, hnext⟩
      have hown := own_concat_self log ⟨i, op, r, s, s'⟩
      have hother : ∀ j, i ≠ j → own j (log ++ [⟨i, op, r, s, s'⟩]) = own j log :=
        fun j hj => own_concat_other log hj
      refine ⟨.call h.history (Protocol.kept_concat_iff.mp hkept).2 step, fun j => ?_,
        fun j q hq => ?_⟩
      · by_cases hj : i = j
        · subst hj
          exact hown ▸ hkept.mono hP
        · exact hother j hj ▸ (h.kept j).mono hP
      · by_cases hj : i = j
        · subst hj
          obtain rfl : next r = q := by simpa using hq
          exact hown ▸ hrest.mono hP
        · have hq' : running j = some q := by simpa [Ne.symm hj] using hq
          exact hother j hj ▸ (h.follows j q hq').mono hP
  | @stop s log running i =>
      refine ⟨h.history, h.kept, fun j q hq => ?_⟩
      by_cases hj : j = i
      · subst hj
        simp at hq
      · exact h.follows j q (by simpa [hj] using hq)

/-- What every procedure keeps to alone, the processes keep to together. -/
theorem Pool.Reaches.history (hP : P.Monotone)
    (hstarts : ∀ i log p t, starts i log p → P.Kept log t → P.Follows log p t)
    (reaches : Pool.Reaches world starts (.idle s₀) pool) :
    History world P s₀ pool.log pool.shared := by
  have horderly : pool.Orderly world P s₀ := by
    induction reaches with
    | refl => exact ⟨.start, fun _ => Protocol.kept_nil, fun _ _ h => nomatch h⟩
    | step _ step ih => exact ih.step hP hstarts step
  exact horderly.history

end

end Foundation
