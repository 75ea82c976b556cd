import Mathlib.Logic.Basic

/-!
# Procedures that call an environment

A procedure is a tree of calls. Each call names an operation of an interface
and continues with whatever the environment answers: a value or an exception.
Nothing is assumed about the environment here; a world says which answers an
operation may get in which state.

## Implementation notes

An execution may also stop at any point without an outcome. That models the
death of the process between two calls, so a crash condition has to hold
before the first call, between any two calls and after the last one.
-/

namespace Foundation

/-- The operations a procedure may call, with the type of each one's answer. -/
structure Interface where
  Op : Type
  Ans : Op → Type

/-- A procedure returns a value, raises an exception or calls an operation. -/
inductive Proc (I : Interface) (ε α : Type) : Type
  | ret (a : α)
  | raise (e : ε)
  | call (op : I.Op) (next : Except ε (I.Ans op) → Proc I ε α)

namespace Proc

variable {I J : Interface} {ε α β : Type}

/-- Sequential composition; an exception skips the continuation. -/
def bind : Proc I ε α → (α → Proc I ε β) → Proc I ε β
  | .ret a, f => f a
  | .raise e, _ => .raise e
  | .call op next, f => .call op fun r => (next r).bind f

instance : Monad (Proc I ε) where
  pure := .ret
  bind := bind

/-- Run a procedure to its outcome and hand the outcome over as a value. -/
def attempt : Proc I ε α → Proc I ε (Except ε α)
  | .ret a => .ret (.ok a)
  | .raise e => .ret (.error e)
  | .call op next => .call op fun r => (next r).attempt

/-- A computation that calls nothing. -/
def ofExcept : Except ε α → Proc I ε α
  | .ok a => .ret a
  | .error e => .raise e

/-- Call one operation; its exception becomes the procedure's exception. -/
def perform (op : I.Op) : Proc I ε (I.Ans op) :=
  .call op ofExcept

/-- Run a procedure only when a flag is set. -/
def given (flag : Bool) (p : Proc I ε Unit) : Proc I ε Unit :=
  if flag then p else .ret ()

/-- Replace every operation by a procedure over another interface. -/
def interp (h : (op : I.Op) → Proc J ε (I.Ans op)) : Proc I ε α → Proc J ε α
  | .ret a => .ret a
  | .raise e => .raise e
  | .call op next => (h op).attempt.bind fun r => (next r).interp h

/-- Run a procedure against a deterministic environment with state `σ`. -/
def run {σ : Type} (env : (op : I.Op) → σ → Except ε (I.Ans op) × σ) :
    Proc I ε α → σ → Except ε α × σ
  | .ret a, s => (.ok a, s)
  | .raise e, s => (.error e, s)
  | .call op next, s => (next (env op s).1).run env (env op s).2

/-- The state after some calls against a deterministic environment, at most as many as given. -/
def runFor {σ : Type} (env : (op : I.Op) → σ → Except ε (I.Ans op) × σ) :
    Nat → Proc I ε α → σ → σ
  | n + 1, .call op next, s => (next (env op s).1).runFor env n (env op s).2
  | _, _, s => s

/-- Does every call of the run pass a check of the call and the state it meets? -/
def runChecks {σ : Type} (env : (op : I.Op) → σ → Except ε (I.Ans op) × σ)
    (check : I.Op → σ → Bool) : Proc I ε α → σ → Bool
  | .ret _, _ => true
  | .raise _, _ => true
  | .call op next, s => check op s && (next (env op s).1).runChecks env check (env op s).2

/-- As long as the answers are allowed ones, every call of the procedure is of a given kind. -/
def Along (allowed : (op : I.Op) → Except ε (I.Ans op) → Prop) (P : I.Op → Prop) :
    Proc I ε α → Prop
  | .ret _ => True
  | .raise _ => True
  | .call op next => P op ∧ ∀ r, allowed op r → (next r).Along allowed P

/-- As long as the answers are allowed ones, the value that is returned is of a given kind. -/
def Yields (allowed : (op : I.Op) → Except ε (I.Ans op) → Prop) (R : α → Prop) :
    Proc I ε α → Prop
  | .ret a => R a
  | .raise _ => True
  | .call _ next => ∀ r, allowed _ r → (next r).Yields allowed R

/-- Every call that the procedure may make is of a given kind. -/
abbrev Only (P : I.Op → Prop) (p : Proc I ε α) : Prop := p.Along (fun _ _ => True) P

@[simp] theorem pure_eq (a : α) : (pure a : Proc I ε α) = .ret a := rfl

@[simp] theorem bind_eq (p : Proc I ε α) (f : α → Proc I ε β) : p >>= f = p.bind f := rfl

@[simp] theorem ret_bind (a : α) (f : α → Proc I ε β) : (ret a).bind f = f a := rfl

@[simp] theorem raise_bind (e : ε) (f : α → Proc I ε β) : (raise e).bind f = raise e := rfl

theorem bind_assoc {γ : Type} (p : Proc I ε α) (f : α → Proc I ε β) (g : β → Proc I ε γ) :
    (p.bind f).bind g = p.bind fun a => (f a).bind g := by
  induction p with
  | ret a => rfl
  | raise e => rfl
  | call op next ih => exact congrArg (call op) (funext fun r => ih r)

@[simp] theorem bind_ret (p : Proc I ε α) : p.bind ret = p := by
  induction p with
  | ret a => rfl
  | raise e => rfl
  | call op next ih => exact congrArg (call op) (funext fun r => ih r)

/-- Interpretation commutes with composition. -/
theorem interp_bind (h : (op : I.Op) → Proc J ε (I.Ans op)) (p : Proc I ε α)
    (f : α → Proc I ε β) : (p.bind f).interp h = (p.interp h).bind fun a => (f a).interp h := by
  induction p with
  | ret a => rfl
  | raise e => rfl
  | call op next ih =>
      simp only [bind, interp, bind_assoc]
      exact congrArg _ (funext fun r => ih r)

/-- An interpreted call is its implementation. -/
theorem interp_perform_bind (h : (op : I.Op) → Proc J ε (I.Ans op)) (op : I.Op)
    (f : I.Ans op → Proc I ε β) :
    ((perform op).bind f).interp h = (h op).bind fun a => (f a).interp h := by
  have hattempt : ∀ q : Proc J ε (I.Ans op),
      (q.attempt.bind fun r => ((ofExcept r : Proc I ε (I.Ans op)).bind f).interp h) =
        q.bind fun a => (f a).interp h := by
    intro q
    induction q with
    | ret a => rfl
    | raise e => rfl
    | call op next ih => exact congrArg (call op) (funext fun r => ih r)
  exact hattempt (h op)

theorem interp_perform (h : (op : I.Op) → Proc J ε (I.Ans op)) (op : I.Op) :
    (perform op).interp h = h op := by
  have hbind := interp_perform_bind h op ret
  rw [bind_ret] at hbind
  exact hbind.trans (bind_ret (h op))

theorem interp_ofExcept (h : (op : I.Op) → Proc J ε (I.Ans op)) (r : Except ε α) :
    (ofExcept r : Proc I ε α).interp h = ofExcept r := by
  cases r with
  | ok a => rfl
  | error e => rfl

theorem interp_attempt (h : (op : I.Op) → Proc J ε (I.Ans op)) (p : Proc I ε α) :
    p.attempt.interp h = (p.interp h).attempt := by
  have hattempt : ∀ {γ : Type} (q : Proc J ε γ) (g : Except ε γ → Proc J ε α),
      (q.attempt.bind g).attempt = q.attempt.bind fun r => (g r).attempt := by
    intro γ q g
    induction q with
    | ret a => rfl
    | raise e => rfl
    | call op next ih => exact congrArg (call op) (funext fun r => ih r)
  induction p with
  | ret a => rfl
  | raise e => rfl
  | call op next ih =>
      simp only [attempt, interp, hattempt]
      exact congrArg _ (funext fun r => ih r)

/-- Two layers of implementations are one. -/
theorem interp_interp {K : Interface} (h : (op : I.Op) → Proc J ε (I.Ans op))
    (g : (op : J.Op) → Proc K ε (J.Ans op)) (p : Proc I ε α) :
    (p.interp h).interp g = p.interp fun op => (h op).interp g := by
  induction p with
  | ret a => rfl
  | raise e => rfl
  | call op next ih =>
      simp only [interp, interp_bind, interp_attempt]
      exact congrArg _ (funext fun r => ih r)

/-- Calls that implement themselves change nothing. -/
theorem interp_self (p : Proc I ε α) : p.interp (J := I) perform = p := by
  induction p with
  | ret a => rfl
  | raise e => rfl
  | call op next ih =>
      simp only [interp, perform, attempt, bind]
      refine congrArg (call op) (funext fun r => ?_)
      cases r with
      | ok a => exact ih _
      | error e => exact ih _

section Along

variable {allowed : (op : I.Op) → Except ε (I.Ans op) → Prop} {P P' : I.Op → Prop}

@[simp] theorem along_ofExcept (r : Except ε α) :
    (ofExcept r : Proc I ε α).Along allowed P := by
  cases r with
  | ok a => exact trivial
  | error e => exact trivial

theorem along_perform {op : I.Op} (h : P op) :
    (perform op : Proc I ε (I.Ans op)).Along allowed P :=
  ⟨h, fun r _ => along_ofExcept r⟩

theorem Along.mono {p : Proc I ε α} (hp : p.Along allowed P) (h : ∀ op, P op → P' op) :
    p.Along allowed P' := by
  induction p with
  | ret a => exact trivial
  | raise e => exact trivial
  | call op next ih => exact ⟨h op hp.1, fun r hr => ih r (hp.2 r hr)⟩

theorem Along.bind {p : Proc I ε α} {f : α → Proc I ε β} (hp : p.Along allowed P)
    (hf : ∀ a, (f a).Along allowed P) : (p.bind f).Along allowed P := by
  induction p with
  | ret a => exact hf a
  | raise e => exact trivial
  | call op next ih => exact ⟨hp.1, fun r hr => ih r (hp.2 r hr)⟩

/-- A continuation starts with a value that the first part yields. -/
theorem Along.bind_yields {R : α → Prop} {p : Proc I ε α} {f : α → Proc I ε β}
    (hp : p.Along allowed P) (hR : p.Yields allowed R) (hf : ∀ a, R a → (f a).Along allowed P) :
    (p.bind f).Along allowed P := by
  induction p with
  | ret a => exact hf a hR
  | raise e => exact trivial
  | call op next ih => exact ⟨hp.1, fun r hr => ih r (hp.2 r hr) (hR r hr)⟩

theorem yields_true (p : Proc I ε α) : p.Yields allowed fun _ => True := by
  induction p with
  | ret a => exact trivial
  | raise e => exact trivial
  | call op next ih => exact fun r _ => ih r

theorem Yields.mono {R S : α → Prop} {p : Proc I ε α} (hp : p.Yields allowed R)
    (h : ∀ a, R a → S a) : p.Yields allowed S := by
  induction p with
  | ret a => exact h a hp
  | raise e => exact trivial
  | call op next ih => exact fun r hr => ih r (hp r hr)

theorem Yields.bind {R : α → Prop} {S : β → Prop} {p : Proc I ε α} {f : α → Proc I ε β}
    (hp : p.Yields allowed R) (hf : ∀ a, R a → (f a).Yields allowed S) :
    (p.bind f).Yields allowed S := by
  induction p with
  | ret a => exact hf a hp
  | raise e => exact trivial
  | call op next ih => exact fun r hr => ih r (hp r hr)

/-- A procedure over operations that are replaced, when each replacement ends in an answer that
the operation allows. -/
theorem Yields.interp {R : α → Prop} {p : Proc I ε α} {h : (op : I.Op) → Proc J ε (I.Ans op)}
    {allowed' : (op : J.Op) → Except ε (J.Ans op) → Prop} (hp : p.Yields allowed R)
    (hh : ∀ op, (h op).attempt.Yields allowed' (allowed op)) :
    (p.interp h).Yields allowed' R := by
  induction p with
  | ret a => exact hp
  | raise e => exact trivial
  | call op next ih => exact (hh op).bind fun r hr => ih r (hp r hr)

@[simp] theorem yields_ofExcept {R : α → Prop} (r : Except ε α) :
    (ofExcept r : Proc I ε α).Yields allowed R ↔ ∀ a, r = .ok a → R a := by
  cases r with
  | ok a => simp [ofExcept, Yields]
  | error e => simp [ofExcept, Yields]

/-- One call yields its allowed answers. -/
theorem yields_perform {op : I.Op} {R : I.Ans op → Prop} (h : ∀ a, allowed op (.ok a) → R a) :
    (perform op : Proc I ε (I.Ans op)).Yields allowed R := by
  intro r hr
  rw [yields_ofExcept]
  rintro a rfl
  exact h a hr

/-- An attempt of one call yields what is allowed of it. -/
theorem yields_attempt_perform (op : I.Op) :
    (perform op : Proc I ε (I.Ans op)).attempt.Yields allowed (allowed op) := by
  intro r hr
  cases r with
  | ok a => exact hr
  | error e => exact hr

theorem Yields.attempt {R : α → Prop} {p : Proc I ε α} (hp : p.Yields allowed R) :
    p.attempt.Yields allowed fun r => ∀ a, r = .ok a → R a := by
  induction p with
  | ret a => exact fun a' ha => Except.ok.inj ha ▸ hp
  | raise e => exact fun a ha => nomatch ha
  | call op next ih => exact fun r hr => ih r (hp r hr)

/-- Behind one call only its allowed answers count. -/
theorem along_perform_bind {op : I.Op} {f : I.Ans op → Proc I ε β} (h : P op)
    (hf : ∀ a, allowed op (.ok a) → (f a).Along allowed P) :
    ((perform op : Proc I ε (I.Ans op)).bind f).Along allowed P := by
  refine ⟨h, fun r hr => ?_⟩
  cases r with
  | ok a => exact hf a hr
  | error e => exact trivial

theorem Along.attempt {p : Proc I ε α} (hp : p.Along allowed P) :
    p.attempt.Along allowed P := by
  induction p with
  | ret a => exact trivial
  | raise e => exact trivial
  | call op next ih => exact ⟨hp.1, fun r hr => ih r (hp.2 r hr)⟩

theorem along_given {flag : Bool} {p : Proc I ε Unit} (hp : p.Along allowed P) :
    (given flag p).Along allowed P := by
  cases flag with
  | false => exact trivial
  | true => exact hp

/-- Operations replaced by procedures whose calls are of a kind. -/
theorem Only.interp {p : Proc I ε α} {h : (op : I.Op) → Proc J ε (I.Ans op)}
    {allowed : (op : J.Op) → Except ε (J.Ans op) → Prop} {P' : J.Op → Prop} (hp : p.Only P)
    (hh : ∀ op, P op → (h op).Along allowed P') : (p.interp h).Along allowed P' := by
  induction p with
  | ret a => exact trivial
  | raise e => exact trivial
  | call op next ih =>
      exact Along.bind (hh op hp.1).attempt fun r => ih r (hp.2 r trivial)

theorem only_true (p : Proc I ε α) : p.Only fun _ => True := by
  induction p with
  | ret a => exact trivial
  | raise e => exact trivial
  | call op next ih => exact ⟨trivial, fun r _ => ih r⟩

/-- Fewer answers lead to no more calls. -/
theorem Along.restrict {allowed' : (op : I.Op) → Except ε (I.Ans op) → Prop} {p : Proc I ε α}
    (hp : p.Along allowed P) (h : ∀ op r, allowed' op r → allowed op r) :
    p.Along allowed' P := by
  induction p with
  | ret a => exact trivial
  | raise e => exact trivial
  | call op next ih => exact ⟨hp.1, fun r hr => ih r (hp.2 r (h op r hr))⟩

/-- What holds of every call holds of the calls along allowed answers. -/
theorem Only.along {p : Proc I ε α} (hp : p.Only P) : p.Along allowed P :=
  hp.restrict fun _ _ _ => trivial

end Along

end Proc

/-- A world says which answer an operation may get and which state it leaves. -/
abbrev World (I : Interface) (ε W : Type) :=
  W → (op : I.Op) → Except ε (I.Ans op) → W → Prop

/-- One call together with its answer. -/
abbrev Event (I : Interface) (ε : Type) := (op : I.Op) × Except ε (I.Ans op)

namespace World

variable {I J : Interface} {ε W : Type}

/-- The world that answers anything and records every call in order. -/
def free : World I ε (List (Event I ε)) :=
  fun t op r t' => t' = t ++ [⟨op, r⟩]

/-- The environment that answers by a fixed rule and records every call. -/
def record (answer : (op : I.Op) → Except ε (I.Ans op)) (op : I.Op) (t : List (Event I ε)) :
    Except ε (I.Ans op) × List (Event I ε) := (answer op, t ++ [⟨op, answer op⟩])

theorem record_step (answer : (op : I.Op) → Except ε (I.Ans op)) (op : I.Op)
    (t : List (Event I ε)) : free t op (record answer op t).1 (record answer op t).2 := rfl

/-- A world that also records every call in order. -/
def traced (world : World I ε W) : World I ε (W × List (Event I ε)) :=
  fun s op r s' => world s.1 op r s'.1 ∧ s'.2 = s.2 ++ [⟨op, r⟩]

/-- A deterministic environment that also records every call in order. -/
def recording (env : (op : I.Op) → W → Except ε (I.Ans op) × W) (op : I.Op)
    (w : W × List (Event I ε)) : Except ε (I.Ans op) × (W × List (Event I ε)) :=
  ((env op w.1).1, (env op w.1).2, w.2 ++ [⟨op, (env op w.1).1⟩])

theorem recording_step {world : World I ε W} {env : (op : I.Op) → W → Except ε (I.Ans op) × W}
    (henv : ∀ op w, world w op (env op w).1 (env op w).2) (op : I.Op)
    (w : W × List (Event I ε)) :
    world.traced w op (recording env op w).1 (recording env op w).2 := ⟨henv op w.1, rfl⟩

/-- A world in which only some calls with their answers occur. -/
def under (world : World I ε W) (F : Event I ε → Prop) : World I ε W :=
  fun w op r w' => world w op r w' ∧ F ⟨op, r⟩

/-- A world without the steps of a kind. -/
def avoiding (world : World I ε W) (odd : W → Event I ε → Prop) : World I ε W :=
  fun w op r w' => world w op r w' ∧ ¬ odd w ⟨op, r⟩

/-- A world that counts the steps of a kind. -/
def counting (world : World I ε W) (odd : W → Event I ε → Prop) : World I ε (W × Nat) :=
  fun s op r s' => world s.1 op r s'.1 ∧
    (odd s.1 ⟨op, r⟩ ∧ s'.2 = s.2 + 1 ∨ ¬ odd s.1 ⟨op, r⟩ ∧ s'.2 = s.2)

/-- The world of a deterministic environment. -/
def det (env : (op : I.Op) → W → Except ε (I.Ans op) × W) : World I ε W :=
  fun w op r w' => r = (env op w).1 ∧ w' = (env op w).2

end World

/-- An execution ends with an outcome, or with `none` when the process dies. -/
inductive Exec {I : Interface} {ε W α : Type} (world : World I ε W) :
    Proc I ε α → W → Option (Except ε α) → W → Prop
  | ret {a w} : Exec world (.ret a) w (some (.ok a)) w
  | raise {e w} : Exec world (.raise e) w (some (.error e)) w
  | call {op next w r w' out w''} (step : world w op r w')
      (tail : Exec world (next r) w' out w'') : Exec world (.call op next) w out w''
  | crash {p w} : Exec world p w none w

/-- The weakest precondition under which every complete execution meets `Q`
and the crash condition `C` holds wherever an execution can stop. -/
def wpc {I : Interface} {ε W α : Type} (world : World I ε W) (C : W → Prop) :
    Proc I ε α → (Except ε α → W → Prop) → W → Prop
  | .ret a, Q, w => C w ∧ Q (.ok a) w
  | .raise e, Q, w => C w ∧ Q (.error e) w
  | .call op next, Q, w => C w ∧ ∀ r w', world w op r w' → wpc world C (next r) Q w'

/-- The weakest precondition of complete executions alone. -/
abbrev wp {I : Interface} {ε W α : Type} (world : World I ε W)
    (p : Proc I ε α) (Q : Except ε α → W → Prop) (w : W) : Prop :=
  wpc world (fun _ => True) p Q w

section Rules

variable {I J : Interface} {ε W α β : Type} {world : World I ε W} {C C' : W → Prop}

/-- Every execution from a state that meets the weakest precondition behaves. -/
theorem wpc_sound {p : Proc I ε α} {w w' : W} {out : Option (Except ε α)}
    (run : Exec world p w out w') {Q : Except ε α → W → Prop} (h : wpc world C p Q w) :
    C w' ∧ ∀ r, out = some r → Q r w' := by
  induction run with
  | ret => exact ⟨h.1, fun r hr => Option.some.inj hr ▸ h.2⟩
  | raise => exact ⟨h.1, fun r hr => Option.some.inj hr ▸ h.2⟩
  | call step _ ih => exact ih (h.2 _ _ step)
  | @crash p w =>
      refine ⟨?_, fun r hr => by cases hr⟩
      cases p with
      | ret a => exact h.1
      | raise e => exact h.1
      | call op next => exact h.1

/-- The soundness rule for a complete execution. -/
theorem wp_sound {p : Proc I ε α} {w w' : W} {r : Except ε α}
    (run : Exec world p w (some r) w') {Q : Except ε α → W → Prop}
    (h : wpc world C p Q w) : Q r w' :=
  (wpc_sound run h).2 r rfl

theorem wpc_crash {p : Proc I ε α} {Q : Except ε α → W → Prop} {w : W}
    (h : wpc world C p Q w) : C w := by
  cases p with
  | ret a => exact h.1
  | raise e => exact h.1
  | call op next => exact h.1

theorem wpc_mono {p : Proc I ε α} {Q Q' : Except ε α → W → Prop} {w : W}
    (h : wpc world C p Q w) (hC : ∀ w, C w → C' w) (hQ : ∀ r w, C w → Q r w → Q' r w) :
    wpc world C' p Q' w := by
  induction p generalizing w with
  | ret a => exact ⟨hC w h.1, hQ _ w h.1 h.2⟩
  | raise e => exact ⟨hC w h.1, hQ _ w h.1 h.2⟩
  | call op next ih => exact ⟨hC w h.1, fun r w' step => ih r (h.2 r w' step)⟩

theorem wpc_post {p : Proc I ε α} {Q Q' : Except ε α → W → Prop} {w : W}
    (h : wpc world C p Q w) (hQ : ∀ r w, C w → Q r w → Q' r w) : wpc world C p Q' w :=
  wpc_mono h (fun _ hc => hc) hQ

@[simp] theorem wpc_ret (a : α) (Q : Except ε α → W → Prop) (w : W) :
    wpc world C (.ret a : Proc I ε α) Q w ↔ C w ∧ Q (.ok a) w := Iff.rfl

@[simp] theorem wpc_raise (e : ε) (Q : Except ε α → W → Prop) (w : W) :
    wpc world C (.raise e : Proc I ε α) Q w ↔ C w ∧ Q (.error e) w := Iff.rfl

@[simp] theorem wpc_ofExcept (r : Except ε α) (Q : Except ε α → W → Prop) (w : W) :
    wpc world C (.ofExcept r : Proc I ε α) Q w ↔ C w ∧ Q r w := by
  cases r with
  | ok a => exact Iff.rfl
  | error e => exact Iff.rfl

@[simp] theorem wpc_perform (op : I.Op) (Q : Except ε (I.Ans op) → W → Prop) (w : W) :
    wpc world C (.perform op) Q w ↔
      C w ∧ ∀ r w', world w op r w' → C w' ∧ Q r w' := by
  simp only [Proc.perform, wpc, wpc_ofExcept]

@[simp] theorem wpc_bind (p : Proc I ε α) (f : α → Proc I ε β)
    (Q : Except ε β → W → Prop) (w : W) :
    wpc world C (p.bind f) Q w ↔
      wpc world C p (fun r w =>
        match r with
        | .ok a => wpc world C (f a) Q w
        | .error e => Q (.error e) w) w := by
  induction p generalizing w with
  | ret a => exact ⟨fun h => ⟨wpc_crash h, h⟩, fun h => h.2⟩
  | raise e => exact Iff.rfl
  | call op next ih => simp only [Proc.bind, wpc, ih]

/-- What holds in a world holds in every world that allows less. -/
theorem wpc_of_world {world' : World I ε W} {p : Proc I ε α} {Q : Except ε α → W → Prop} {w : W}
    (hworld : ∀ w op r w', world' w op r w' → world w op r w') (h : wpc world C p Q w) :
    wpc world' C p Q w := by
  induction p generalizing w with
  | ret a => exact h
  | raise e => exact h
  | call op next ih => exact ⟨h.1, fun r w' step => ih r (h.2 r w' (hworld _ _ _ _ step))⟩

/-- The rule of composition: a condition between the two parts. -/
theorem wpc_seq {p : Proc I ε α} {f : α → Proc I ε β} {Q : Except ε β → W → Prop} {w : W}
    {R : Except ε α → W → Prop} (hp : wpc world C p R w)
    (hok : ∀ a w, C w → R (.ok a) w → wpc world C (f a) Q w)
    (herr : ∀ e w, C w → R (.error e) w → Q (.error e) w) : wpc world C (p.bind f) Q w := by
  rw [wpc_bind]
  apply wpc_post hp
  intro r w' hC hR
  cases r with
  | error e => exact herr e w' hC hR
  | ok a => exact hok a w' hC hR

@[simp] theorem wpc_attempt (p : Proc I ε α) (Q : Except ε (Except ε α) → W → Prop) (w : W) :
    wpc world C p.attempt Q w ↔ wpc world C p (fun r w => Q (.ok r) w) w := by
  induction p generalizing w with
  | ret a => exact Iff.rfl
  | raise e => exact Iff.rfl
  | call op next ih => simp only [Proc.attempt, wpc, ih]

/-- The rule of composition behind an outcome that is handed over as a value. -/
theorem wpc_seq_attempt {p : Proc I ε α} {f : Except ε α → Proc I ε β}
    {Q : Except ε β → W → Prop} {w : W} {R : Except ε α → W → Prop} (hp : wpc world C p R w)
    (hf : ∀ r w, C w → R r w → wpc world C (f r) Q w) : wpc world C (p.attempt.bind f) Q w := by
  rw [wpc_bind, wpc_attempt]
  exact wpc_post hp hf

/-- The rule for a procedure that is one call. -/
theorem wpc_of_perform {op : I.Op} {Q : Except ε (I.Ans op) → W → Prop} {w : W} (hc : C w)
    (h : ∀ r w', world w op r w' → C w' ∧ Q r w') : wpc world C (.perform op) Q w :=
  (wpc_perform op Q w).mpr ⟨hc, h⟩

/-- The rule for a call whose answer and effect are settled by the state before it. -/
theorem wpc_answered {op : I.Op} {a : I.Ans op} {f : I.Ans op → Proc I ε β}
    {Q : Except ε β → W → Prop} {w w₁ : W}
    (hworld : ∀ r w', world w op r w' → r = .ok a ∧ w' = w₁) (hc : C w)
    (hf : wpc world C (f a) Q w₁) : wpc world C ((Proc.perform op).bind f) Q w := by
  rw [wpc_bind]
  refine wpc_of_perform hc fun r w' step => ?_
  obtain ⟨rfl, rfl⟩ := hworld r w' step
  exact ⟨wpc_crash hf, hf⟩

/-- A conditional procedure may run or not. -/
theorem wpc_given {flag : Bool} {p : Proc I ε Unit} {Q : Except ε Unit → W → Prop} {w : W}
    (hp : flag = true → wpc world C p Q w) (hskip : flag = false → C w ∧ Q (.ok ()) w) :
    wpc world C (.given flag p) Q w := by
  cases flag with
  | false => exact hskip rfl
  | true => exact hp rfl

/-- Every complete execution returns a value, with `Q` of the value and the state. -/
abbrev Returns (world : World I ε W) (p : Proc I ε α) (Q : α → W → Prop) (w : W) : Prop :=
  wp world p (fun r w' => ∃ a, r = .ok a ∧ Q a w') w

theorem returns_ret {Q : α → W → Prop} {a : α} {w : W} (h : Q a w) : Returns world (.ret a) Q w :=
  ⟨trivial, a, rfl, h⟩

theorem Returns.mono {p : Proc I ε α} {Q Q' : α → W → Prop} {w : W} (h : Returns world p Q w)
    (hQ : ∀ a w', Q a w' → Q' a w') : Returns world p Q' w := by
  refine wpc_post h ?_
  rintro r w' - ⟨a, rfl, ha⟩
  exact ⟨a, rfl, hQ a w' ha⟩

theorem Returns.bind {p : Proc I ε α} {f : α → Proc I ε β} {R : α → W → Prop}
    {Q : Except ε β → W → Prop} {w : W} (hp : Returns world p R w)
    (hf : ∀ a w', R a w' → wp world (f a) Q w') : wp world (p.bind f) Q w := by
  refine wpc_seq hp ?_ ?_
  · rintro a w' - ⟨a', ha, hR⟩
    obtain rfl := Except.ok.inj ha
    exact hf a w' hR
  · rintro e w' - ⟨a, he, -⟩
    exact nomatch he

theorem Returns.attempt {p : Proc I ε α} {Q : α → W → Prop} {w : W} (h : Returns world p Q w) :
    Returns world p.attempt (fun r w' => ∃ a, r = .ok a ∧ Q a w') w := by
  rw [Returns, wp, wpc_attempt]
  exact wpc_post h fun r w' _ hr => ⟨r, rfl, hr⟩

/-- From a state of rest to a state of rest, whatever comes between: `C` holds throughout. -/
def Maintains (world : World I ε W) (C R : W → Prop) (p : Proc I ε α) : Prop :=
  ∀ w, R w → wpc world C p (fun _ w' => R w') w

section Maintains

variable {R : W → Prop}

theorem maintains_ret (hrest : ∀ w, R w → C w) (a : α) :
    Maintains world C R (.ret a : Proc I ε α) := fun w hw => ⟨hrest w hw, hw⟩

theorem maintains_ofExcept (hrest : ∀ w, R w → C w) (r : Except ε α) :
    Maintains world C R (.ofExcept r : Proc I ε α) :=
  fun w hw => (wpc_ofExcept r _ w).mpr ⟨hrest w hw, hw⟩

theorem Maintains.bind {p : Proc I ε α} {f : α → Proc I ε β} (hp : Maintains world C R p)
    (hf : ∀ a, Maintains world C R (f a)) : Maintains world C R (p.bind f) := fun w hw =>
  wpc_seq (hp w hw) (fun a w' _ hw' => hf a w' hw') fun _ _ _ hw' => hw'

theorem Maintains.attempt {p : Proc I ε α} (hp : Maintains world C R p) :
    Maintains world C R p.attempt := fun w hw => (wpc_attempt p _ w).mpr (hp w hw)

end Maintains

/-- The invariant rule: what every call of the kind preserves, while it is answered
as allowed, holds wherever an execution of a procedure with such calls may stop. -/
theorem wpc_of_along {allowed : (op : I.Op) → Except ε (I.Ans op) → Prop} {P : I.Op → Prop}
    {J : W → Prop}
    (step : ∀ op w r w', P op → J w → world w op r w' → allowed op r ∧ J w')
    {p : Proc I ε α} (hp : p.Along allowed P) {w : W} (hw : J w) :
    wpc world J p (fun _ w' => J w') w := by
  induction p generalizing w with
  | ret a => exact ⟨hw, hw⟩
  | raise e => exact ⟨hw, hw⟩
  | call op next ih =>
      refine ⟨hw, fun r w' h => ?_⟩
      obtain ⟨hallowed, hw'⟩ := step op w r w' hp.1 hw h
      exact ih r (hp.2 r hallowed) hw'

theorem wpc_of_only {P : I.Op → Prop} {J : W → Prop}
    (step : ∀ op w r w', P op → J w → world w op r w' → J w') {p : Proc I ε α}
    (hp : p.Only P) {w : W} (hw : J w) : wpc world J p (fun _ w' => J w') w :=
  wpc_of_along (fun op w r w' hop hJ h => ⟨trivial, step op w r w' hop hJ h⟩) hp hw

theorem maintains_of_only {R : W → Prop} (hrest : ∀ w, R w → C w) {P : I.Op → Prop}
    (step : ∀ op w r w', P op → R w → world w op r w' → R w') {p : Proc I ε α}
    (hp : p.Only P) : Maintains world C R p := fun _ hw =>
  wpc_mono (wpc_of_only step hp hw) hrest fun _ _ _ hw' => hw'

section Counting

variable {odd : W → Event I ε → Prop} {p : Proc I ε α} {Q : Except ε α → W → Prop} {w : W}

theorem wpc_of_avoiding (h : wpc world C p Q w) : wpc (world.avoiding odd) C p Q w :=
  wpc_of_world (fun _ _ _ _ step => step.1) h

/-- What holds in a world holds while some of its steps are counted. -/
theorem wpc_counting (h : wpc world C p Q w) (n : Nat) :
    wpc (world.counting odd) (fun s => C s.1) p (fun r s => Q r s.1) (w, n) := by
  induction p generalizing w n with
  | ret a => exact h
  | raise e => exact h
  | call op next ih => exact ⟨h.1, fun r s step => ih r (h.2 r s.1 step.1) s.2⟩

/-- What holds in a world without the steps that are counted holds while the count stays. -/
theorem wpc_counting_of_avoiding (h : wpc (world.avoiding odd) C p Q w) (n : Nat) :
    wpc (world.counting odd) (fun s => n ≤ s.2 ∧ (s.2 = n → C s.1)) p
      (fun r s => s.2 = n → Q r s.1) (w, n) := by
  induction p generalizing w with
  | ret a => exact ⟨⟨Nat.le_refl n, fun _ => h.1⟩, fun _ => h.2⟩
  | raise e => exact ⟨⟨Nat.le_refl n, fun _ => h.1⟩, fun _ => h.2⟩
  | call op next ih =>
      refine ⟨⟨Nat.le_refl n, fun _ => h.1⟩, ?_⟩
      rintro r ⟨w', n'⟩ ⟨step, ⟨hodd, hcount⟩ | ⟨hodd, hcount⟩⟩
      · -- the count is past `n` and never comes back
        obtain rfl : n' = n + 1 := hcount
        refine wpc_mono (wpc_of_only (J := fun s : W × Nat => n < s.2) ?_ (next r).only_true
          (Nat.lt_succ_self n)) (fun s hs => ⟨Nat.le_of_lt hs, fun heq => (Nat.ne_of_gt hs heq).elim⟩)
          fun _ s hs _ heq => (Nat.ne_of_gt hs heq).elim
        rintro op s r s' - hs ⟨-, ⟨-, hcount⟩ | ⟨-, hcount⟩⟩
        · exact hcount ▸ Nat.lt_succ_of_lt hs
        · exact hcount ▸ hs
      · obtain rfl : n' = n := hcount
        exact ih r (h.2 r w' ⟨step, hodd⟩)

end Counting

/-- What every implementation of an operation maintains, every procedure over them does. -/
theorem maintains_interp {R : W → Prop} {worldJ : World J ε W} (hrest : ∀ w, R w → C w)
    {h : (op : I.Op) → Proc J ε (I.Ans op)} (step : ∀ op, Maintains worldJ C R (h op))
    (p : Proc I ε α) : Maintains worldJ C R (p.interp h) := by
  induction p with
  | ret a => exact maintains_ret hrest a
  | raise e => exact maintains_ofExcept hrest (.error e)
  | call op next ih => exact (step op).attempt.bind ih

/-- What a procedure yields holds behind it in a world of allowed answers. -/
theorem wpc_of_yields {allowed : (op : I.Op) → Except ε (I.Ans op) → Prop} {R : α → Prop}
    {p : Proc I ε α} {Q : Except ε α → W → Prop} {w : W}
    (hworld : ∀ w op r w', world w op r w' → allowed op r) (hp : p.Yields allowed R)
    (h : wpc world C p Q w) :
    wpc world C p (fun r w' => Q r w' ∧ ∀ a, r = .ok a → R a) w := by
  induction p generalizing w with
  | ret a => exact ⟨h.1, h.2, fun a' ha => Except.ok.inj ha ▸ hp⟩
  | raise e => exact ⟨h.1, h.2, fun a ha => nomatch ha⟩
  | call op next ih =>
      exact ⟨h.1, fun r w' step => ih r (hp r (hworld _ _ _ _ step)) (h.2 r w' step)⟩

/-- Every execution of every procedure meets the trivial condition. -/
theorem wp_true (p : Proc I ε α) (w : W) : wp world p (fun _ _ => True) w :=
  wpc_of_only (fun _ _ _ _ _ _ _ => trivial) p.only_true trivial

/-- What a procedure yields is what its executions return in a world of allowed answers. -/
theorem exec_yields {allowed : (op : I.Op) → Except ε (I.Ans op) → Prop} {R : α → Prop}
    {p : Proc I ε α} {w w' : W} {a : α} (exec : Exec world p w (some (.ok a)) w')
    (hworld : ∀ w op r w', world w op r w' → allowed op r) (hp : p.Yields allowed R) : R a :=
  (wp_sound exec (wpc_of_yields hworld hp (wp_true p w))).2 a rfl

/-- The invariant rule for operations that are procedures of another interface. -/
theorem wpc_interp_of_along {worldJ : World J ε W} {h : (op : I.Op) → Proc J ε (I.Ans op)}
    {allowed : (op : I.Op) → Except ε (I.Ans op) → Prop} {P : I.Op → Prop} {D : W → Prop}
    (step : ∀ op w, P op → D w →
      wpc worldJ D (h op) (fun r w' => allowed op r ∧ D w') w)
    {p : Proc I ε α} (hp : p.Along allowed P) {w : W} (hw : D w) :
    wpc worldJ D (p.interp h) (fun _ w' => D w') w := by
  induction p generalizing w with
  | ret a => exact ⟨hw, hw⟩
  | raise e => exact ⟨hw, hw⟩
  | call op next ih =>
      simp only [Proc.interp, wpc_bind, wpc_attempt]
      apply wpc_post (step op w hp.1 hw)
      rintro r w' - ⟨hallowed, hw'⟩
      exact ih r (hp.2 r hallowed) hw'

/-- Two crash conditions and two postconditions at once. -/
theorem wpc_both {p : Proc I ε α} {Q Q' : Except ε α → W → Prop} {w : W}
    (h : wpc world C p Q w) (h' : wpc world C' p Q' w) :
    wpc world (fun w => C w ∧ C' w) p (fun r w => Q r w ∧ Q' r w) w := by
  induction p generalizing w with
  | ret a => exact ⟨⟨h.1, h'.1⟩, h.2, h'.2⟩
  | raise e => exact ⟨⟨h.1, h'.1⟩, h.2, h'.2⟩
  | call op next ih =>
      exact ⟨⟨h.1, h'.1⟩, fun r w' step => ih r (h.2 r w' step) (h'.2 r w' step)⟩

/-- Two postconditions at once. -/
theorem wpc_and {p : Proc I ε α} {Q Q' : Except ε α → W → Prop} {w : W}
    (h : wpc world C p Q w) (h' : wpc world C p Q' w) :
    wpc world C p (fun r w => Q r w ∧ Q' r w) w :=
  wpc_mono (wpc_both h h') (fun _ hc => hc.1) fun _ _ _ hq => hq

/-- What holds in a world and what holds of any record, at once. -/
theorem wpc_traced_and {D : List (Event I ε) → Prop} {p : Proc I ε α} {Q : Except ε α → W → Prop}
    {R : Except ε α → List (Event I ε) → Prop} {w : W} {t : List (Event I ε)}
    (h : wpc world C p Q w) (h' : wpc World.free D p R t) :
    wpc world.traced (fun s => C s.1 ∧ D s.2) p (fun r s => Q r s.1 ∧ R r s.2) (w, t) := by
  induction p generalizing w t with
  | ret a => exact ⟨⟨h.1, h'.1⟩, h.2, h'.2⟩
  | raise e => exact ⟨⟨h.1, h'.1⟩, h.2, h'.2⟩
  | call op next ih =>
      refine ⟨⟨h.1, h'.1⟩, ?_⟩
      rintro r ⟨w', t'⟩ ⟨step, hrecord⟩
      exact ih r (h.2 r w' step) (h'.2 r t' hrecord)

/-- Beside what holds in a world, the record of a run has calls of one kind only. -/
theorem wpc_traced {P : I.Op → Prop} {p : Proc I ε α} {Q : Except ε α → W → Prop} {w : W}
    {t : List (Event I ε)} (h : wpc world C p Q w) (hp : p.Only P) (ht : ∀ e ∈ t, P e.1) :
    wpc world.traced (fun s => C s.1 ∧ ∀ e ∈ s.2, P e.1) p
      (fun r s => Q r s.1 ∧ ∀ e ∈ s.2, P e.1) (w, t) := by
  refine wpc_traced_and h (wpc_of_only (J := fun t => ∀ e ∈ t, P e.1) ?_ hp ht)
  rintro op t r _ hop hall rfl e he
  rcases List.mem_append.mp he with hmem | hlast
  · exact hall e hmem
  · rw [List.mem_singleton.mp hlast]
    exact hop

/-- The record of a run grows by calls of the kinds that the procedure makes. -/
theorem wpc_free_of_only {P : I.Op → Prop} {p : Proc I ε α} (hp : p.Only P)
    (t : List (Event I ε)) :
    wpc World.free (fun t' => ∃ s, t' = t ++ s ∧ ∀ e ∈ s, P e.1) p
      (fun _ t' => ∃ s, t' = t ++ s ∧ ∀ e ∈ s, P e.1) t := by
  refine wpc_of_only (P := P) (J := fun t' => ∃ s, t' = t ++ s ∧ ∀ e ∈ s, P e.1) ?_ hp
    ⟨[], by simp⟩
  rintro op w r w' hop ⟨s, rfl, hs⟩ rfl
  refine ⟨s ++ [⟨op, r⟩], by simp, ?_⟩
  intro e he
  rcases List.mem_append.mp he with hmem | hlast
  · exact hs e hmem
  · rw [List.mem_singleton.mp hlast]
    exact hop

theorem wp_free_of_only {P : I.Op → Prop} {p : Proc I ε α} (hp : p.Only P)
    (t : List (Event I ε)) :
    wp World.free p (fun _ t' => ∃ s, t' = t ++ s ∧ ∀ e ∈ s, P e.1) t :=
  wpc_mono (wpc_free_of_only hp t) (fun _ _ => trivial) fun _ _ _ h => h

/-- In the record of a run, complete or not, there are only such calls. -/
theorem events_of_only {P : I.Op → Prop} {p : Proc I ε α} (hp : p.Only P)
    {out : Option (Except ε α)} {t : List (Event I ε)} (exec : Exec World.free p [] out t) :
    ∀ e ∈ t, P e.1 := by
  obtain ⟨⟨s, hs, hP⟩, -⟩ := wpc_sound exec (wpc_free_of_only hp [])
  rw [hs, List.nil_append]
  exact hP

/-- Simulation through a view: when every implementation of an operation does to the part of
the state that is viewed at most what a world allows, and keeps `F` of the rest, the weakest
precondition in that world carries over. -/
theorem wpc_interp_view {V : Type} {worldI : World I ε V} {worldJ : World J ε W}
    {h : (op : I.Op) → Proc J ε (I.Ans op)} {v : W → V} {D : V → Prop} {F : W → Prop}
    (sim : ∀ op w (Q : Except ε (I.Ans op) → W → Prop), D (v w) → F w →
      (∀ r w', worldI (v w) op r (v w') → F w' → D (v w') ∧ Q r w') →
        wpc worldJ (fun w => D (v w) ∧ F w) (h op) Q w)
    {p : Proc I ε α} {Q : Except ε α → V → Prop} {w : W} (hp : wpc worldI D p Q (v w))
    (hF : F w) :
    wpc worldJ (fun w => D (v w) ∧ F w) (p.interp h) (fun r w' => Q r (v w')) w := by
  induction p generalizing w with
  | ret a => exact ⟨⟨hp.1, hF⟩, hp.2⟩
  | raise e => exact ⟨⟨hp.1, hF⟩, hp.2⟩
  | call op next ih =>
      simp only [Proc.interp, wpc_bind, wpc_attempt]
      apply sim op w _ hp.1 hF
      intro r w' step hF'
      have hrest := hp.2 r (v w') step
      exact ⟨wpc_crash hrest, ih r hrest hF'⟩

/-- Simulation: when every implementation of an operation does at most what a
world allows, the weakest precondition in that world carries over. -/
theorem wpc_interp {worldJ : World J ε W} {h : (op : I.Op) → Proc J ε (I.Ans op)}
    (sim : ∀ op w (Q : Except ε (I.Ans op) → W → Prop), C w →
      (∀ r w', world w op r w' → C w' ∧ Q r w') → wpc worldJ C (h op) Q w)
    {p : Proc I ε α} {Q : Except ε α → W → Prop} {w : W} (hp : wpc world C p Q w) :
    wpc worldJ C (p.interp h) Q w := by
  have hview := wpc_interp_view (v := id) (D := C) (F := fun _ => True)
    (fun op w Q hc _ hQ => wpc_mono (sim op w Q hc fun r w' step => hQ r w' step trivial)
      (fun _ hc => ⟨hc, trivial⟩) (fun _ _ _ hq => hq)) hp trivial
  exact wpc_mono hview (fun _ hc => hc.1) (fun _ _ _ hq => hq)

theorem Exec.perform {op : I.Op} {r : Except ε (I.Ans op)} {w w' : W} (step : world w op r w') :
    Exec world (Proc.perform op) w (some r) w' := by
  refine .call step ?_
  cases r with
  | ok a => exact .ret
  | error e => exact .raise

theorem Exec.bind {p : Proc I ε α} {f : α → Proc I ε β} {a : α} {w w' w'' : W}
    {out : Option (Except ε β)} (exec : Exec world p w (some (.ok a)) w')
    (rest : Exec world (f a) w' out w'') : Exec world (p.bind f) w out w'' := by
  generalize hr : some (Except.ok a) = r at exec
  induction exec with
  | ret =>
      obtain rfl := Except.ok.inj (Option.some.inj hr)
      exact rest
  | raise => cases hr
  | crash => cases hr
  | call step tail ih => exact .call step (ih rest hr)

theorem Exec.bind_error {p : Proc I ε α} {f : α → Proc I ε β} {e : ε} {w w' : W}
    (exec : Exec world p w (some (.error e)) w') :
    Exec world (p.bind f) w (some (.error e)) w' := by
  generalize hr : some (Except.error e) = r at exec
  induction exec with
  | ret => cases hr
  | raise =>
      obtain rfl := Except.error.inj (Option.some.inj hr)
      exact .raise
  | crash => cases hr
  | call step tail ih => exact .call step (ih hr)

/-- The process may also die where an execution ends. -/
theorem Exec.cut {p : Proc I ε α} {w w' : W} {out : Option (Except ε α)}
    (exec : Exec world p w out w') : Exec world p w none w' := by
  induction exec with
  | ret => exact .crash
  | raise => exact .crash
  | crash => exact .crash
  | call step tail ih => exact .call step ih

theorem Exec.bind_cut {p : Proc I ε α} {f : α → Proc I ε β} {w w' : W}
    (exec : Exec world p w none w') : Exec world (p.bind f) w none w' := by
  generalize hr : (none : Option (Except ε α)) = r at exec
  induction exec with
  | ret => cases hr
  | raise => cases hr
  | crash => exact .crash
  | call step tail ih => exact .call step (ih hr)

theorem Exec.attempt {p : Proc I ε α} {r : Except ε α} {w w' : W}
    (exec : Exec world p w (some r) w') : Exec world p.attempt w (some (.ok r)) w' := by
  generalize hr : some r = out at exec
  induction exec with
  | ret =>
      obtain rfl := Option.some.inj hr
      exact .ret
  | raise =>
      obtain rfl := Option.some.inj hr
      exact .ret
  | crash => cases hr
  | call step tail ih => exact .call step (ih hr)

/-- An execution of a composition runs the second part after the first, or ends with it. -/
theorem exec_bind {p : Proc I ε α} {f : α → Proc I ε β} {w w'' : W} {out : Option (Except ε β)}
    (exec : Exec world (p.bind f) w out w'') :
    (∃ a w', Exec world p w (some (.ok a)) w' ∧ Exec world (f a) w' out w'') ∨
    (∃ e, Exec world p w (some (.error e)) w'' ∧ out = some (.error e)) ∨
    (Exec world p w none w'' ∧ out = none) := by
  induction p generalizing w with
  | ret a => exact Or.inl ⟨a, w, .ret, exec⟩
  | raise e =>
      cases exec with
      | raise => exact Or.inr (Or.inl ⟨e, .raise, rfl⟩)
      | crash => exact Or.inr (Or.inr ⟨.crash, rfl⟩)
  | call op next ih =>
      cases exec with
      | crash => exact Or.inr (Or.inr ⟨.crash, rfl⟩)
      | call step tail =>
          rcases ih _ tail with ⟨a, w', hp, hf⟩ | ⟨e, hp, hout⟩ | ⟨hp, hout⟩
          · exact Or.inl ⟨a, w', .call step hp, hf⟩
          · exact Or.inr (Or.inl ⟨e, .call step hp, hout⟩)
          · exact Or.inr (Or.inr ⟨.call step hp, hout⟩)

/-- An execution does not read its record: it goes on from any other in the same way. -/
theorem exec_retraced {p : Proc I ε α} {w w' : W × List (Event I ε)} {out : Option (Except ε α)}
    (exec : Exec world.traced p w out w') :
    ∃ t, w'.2 = w.2 ++ t ∧ ∀ u, Exec world.traced p (w.1, u) out (w'.1, u ++ t) := by
  induction exec with
  | ret => exact ⟨[], (List.append_nil _).symm, fun u => (List.append_nil u).symm ▸ .ret⟩
  | raise => exact ⟨[], (List.append_nil _).symm, fun u => (List.append_nil u).symm ▸ .raise⟩
  | crash => exact ⟨[], (List.append_nil _).symm, fun u => (List.append_nil u).symm ▸ .crash⟩
  | @call op next w r w₁ out w' step tail ih =>
      obtain ⟨t, ht, hagain⟩ := ih
      refine ⟨⟨op, r⟩ :: t, by rw [ht, step.2, List.append_assoc]; rfl, fun u => ?_⟩
      have htail := hagain (u ++ [⟨op, r⟩])
      rw [List.append_assoc] at htail
      have hfirst : world.traced (w.1, u) op r (w₁.1, u ++ [⟨op, r⟩]) := ⟨step.1, rfl⟩
      exact .call hfirst htail

/-- The record of an execution goes on from the record before it. -/
theorem exec_record {p : Proc I ε α} {w w' : W × List (Event I ε)} {out : Option (Except ε α)}
    (exec : Exec world.traced p w out w') : ∃ t, w'.2 = w.2 ++ t := by
  obtain ⟨t, ht, -⟩ := exec_retraced exec
  exact ⟨t, ht⟩

/-- An execution whose record is of a kind is one under that kind of events. -/
theorem exec_under {p : Proc I ε α} {w w' : W × List (Event I ε)} {out : Option (Except ε α)}
    {F : Event I ε → Prop} (exec : Exec world.traced p w out w') (hF : ∀ e ∈ w'.2, F e) :
    Exec (world.traced.under F) p w out w' := by
  induction exec with
  | ret => exact .ret
  | raise => exact .raise
  | crash => exact .crash
  | call step tail ih =>
      obtain ⟨t, ht⟩ := exec_record tail
      refine .call ⟨step, hF _ ?_⟩ (ih hF)
      rw [ht, step.2]
      simp

/-- An execution of a world is one of every world that allows as much. -/
theorem Exec.mono {world' : World I ε W} {p : Proc I ε α} {w w' : W} {out : Option (Except ε α)}
    (exec : Exec world p w out w') (h : ∀ w op r w', world w op r w' → world' w op r w') :
    Exec world' p w out w' := by
  induction exec with
  | ret => exact .ret
  | raise => exact .raise
  | crash => exact .crash
  | call step tail ih => exact .call (h _ _ _ _ step) ih

/-- A deterministic run is an execution of every world that allows its answers. -/
theorem exec_run {env : (op : I.Op) → W → Except ε (I.Ans op) × W}
    (henv : ∀ op w, world w op (env op w).1 (env op w).2) (p : Proc I ε α) (w : W) :
    Exec world p w (some (p.run env w).1) (p.run env w).2 := by
  induction p generalizing w with
  | ret a => exact Exec.ret
  | raise e => exact Exec.raise
  | call op next ih => exact Exec.call (henv op w) (ih _ _)

/-- A run by fixed answers that returns, as an execution of the world that answers anything. -/
theorem exec_record_isOk {answer : (op : I.Op) → Except ε (I.Ans op)} {p : Proc I ε α}
    (h : (p.run (World.record answer) []).1.isOk = true) :
    ∃ a, (p.run (World.record answer) []).1 = .ok a ∧
      Exec World.free p [] (some (.ok a)) (p.run (World.record answer) []).2 := by
  have exec := exec_run (World.record_step answer) p []
  cases hresult : (p.run (World.record answer) []).1 with
  | error e =>
      rw [hresult] at h
      cases h
  | ok a =>
      rw [hresult] at exec
      exact ⟨a, rfl, exec⟩

/-- A deterministic run whose calls pass a check is an execution of every world that allows its
answers to calls that pass it. -/
theorem exec_run_of_checks {env : (op : I.Op) → W → Except ε (I.Ans op) × W}
    {check : I.Op → W → Bool}
    (henv : ∀ op w, check op w = true → world w op (env op w).1 (env op w).2) {p : Proc I ε α}
    {w : W} (h : p.runChecks env check w = true) :
    Exec world p w (some (p.run env w).1) (p.run env w).2 := by
  induction p generalizing w with
  | ret a => exact Exec.ret
  | raise e => exact Exec.raise
  | call op next ih =>
      obtain ⟨hop, hrest⟩ := Bool.and_eq_true_iff.mp h
      exact Exec.call (henv op w hop) (ih _ hrest)

/-- After any number of calls of a deterministic run the process may die. -/
theorem exec_runFor {env : (op : I.Op) → W → Except ε (I.Ans op) × W}
    (henv : ∀ op w, world w op (env op w).1 (env op w).2) (n : Nat) (p : Proc I ε α) (w : W) :
    Exec world p w none (p.runFor env n w) := by
  induction n generalizing p w with
  | zero => exact .crash
  | succ n ih =>
      cases p with
      | ret a => exact .crash
      | raise e => exact .crash
      | call op next => exact .call (henv op w) (ih _ _)

/-- The run against a deterministic environment meets what is proved in its world. -/
theorem run_of_wp {env : (op : I.Op) → W → Except ε (I.Ans op) × W} {p : Proc I ε α}
    {Q : Except ε α → W → Prop} {w : W} (h : wp (World.det env) p Q w) :
    Q (p.run env w).1 (p.run env w).2 :=
  wp_sound (exec_run (fun _ _ => ⟨rfl, rfl⟩) p w) h

/-- In a deterministic world a call has the one answer of the environment. -/
theorem wp_det_perform {env : (op : I.Op) → W → Except ε (I.Ans op) × W} {op : I.Op}
    {Q : Except ε (I.Ans op) → W → Prop} {w : W} (h : Q (env op w).1 (env op w).2) :
    wp (World.det env) (.perform op) Q w := by
  apply wpc_of_perform trivial
  rintro r w' ⟨rfl, rfl⟩
  exact ⟨trivial, h⟩

end Rules

end Foundation
