import Mathlib.Data.List.Forall2
import System2.Foundation.Procedure

/-!
# Records of runs

The record of a run in a world that only writes the calls down: it may be moved behind any
record before it, and it splits where the procedure does. A procedure that catches nothing ends
with the first call that raises. Where every call has one fixed answer, the outcome and the
record are functions of the procedure.
-/

namespace Foundation

variable {I : Interface} {ε α β : Type}

namespace Proc

/-- Nothing is caught: a call that raises ends the procedure, and only a call makes it raise. -/
def Strict : Proc I ε α → Prop
  | .ret _ => True
  | .raise _ => False
  | .call _ next => (∀ e, next (.error e) = .raise e) ∧ ∀ a, (next (.ok a)).Strict

theorem strict_perform (op : I.Op) : (perform op : Proc I ε (I.Ans op)).Strict :=
  ⟨fun _ => rfl, fun _ => trivial⟩

theorem Strict.bind {p : Proc I ε α} {f : α → Proc I ε β} (hp : p.Strict)
    (hf : ∀ a, (f a).Strict) : (p.bind f).Strict := by
  induction p with
  | ret a => exact hf a
  | raise e => exact hp.elim
  | call op next ih =>
      refine ⟨fun e => ?_, fun a => ih _ (hp.2 a)⟩
      exact congrArg (fun q => q.bind f) (hp.1 e)

theorem strict_given {flag : Bool} {p : Proc I ε Unit} (hp : p.Strict) :
    (given flag p).Strict := by
  cases flag with
  | false => exact trivial
  | true => exact hp

/-- At most so many calls of a kind are made, whatever is answered. -/
def AtMost (P : I.Op → Bool) : Proc I ε α → ℕ → Prop
  | .ret _, _ => True
  | .raise _, _ => True
  | .call op next, n => ∃ m, m + (if P op then 1 else 0) ≤ n ∧ ∀ r, (next r).AtMost P m

section AtMost

variable {P : I.Op → Bool}

theorem AtMost.mono {p : Proc I ε α} {m n : ℕ} (hp : p.AtMost P m) (hle : m ≤ n) : p.AtMost P n := by
  cases p with
  | ret a => trivial
  | raise e => trivial
  | call op next =>
      obtain ⟨k, hk, hnext⟩ := hp
      exact ⟨k, Nat.le_trans hk hle, hnext⟩

theorem AtMost.bind {p : Proc I ε α} {f : α → Proc I ε β} {m n : ℕ} (hp : p.AtMost P m)
    (hf : ∀ a, (f a).AtMost P n) : (p.bind f).AtMost P (m + n) := by
  induction p generalizing m with
  | ret a => exact (hf a).mono (Nat.le_add_left n m)
  | raise e => trivial
  | call op next ih =>
      obtain ⟨k, hk, hnext⟩ := hp
      exact ⟨k + n, by omega, fun r => ih r (hnext r)⟩

theorem AtMost.attempt {p : Proc I ε α} {n : ℕ} (hp : p.AtMost P n) : p.attempt.AtMost P n := by
  induction p generalizing n with
  | ret a => trivial
  | raise e => trivial
  | call op next ih =>
      obtain ⟨m, hm, hnext⟩ := hp
      exact ⟨m, hm, fun r => ih r (hnext r)⟩

/-- None of the calls is of the kind. -/
theorem atMost_of_only {p : Proc I ε α} (hp : p.Only fun op => P op = false) : p.AtMost P 0 := by
  induction p with
  | ret a => trivial
  | raise e => trivial
  | call op next ih => exact ⟨0, by simp [hp.1], fun r => ih r (hp.2 r trivial)⟩

theorem atMost_perform (op : I.Op) : (perform op : Proc I ε (I.Ans op)).AtMost P 1 := by
  refine ⟨0, by split_ifs <;> simp, fun r => ?_⟩
  cases r with
  | ok a => trivial
  | error e => trivial

/-- Operations replaced by procedures that make a call of a kind only for a call of a kind. -/
theorem AtMost.interp {J : Interface} {P' : J.Op → Bool} {p : Proc I ε α} {n : ℕ}
    {h : (op : I.Op) → Proc J ε (I.Ans op)} (hp : p.AtMost P n)
    (hh : ∀ op, (h op).AtMost P' (if P op then 1 else 0)) : (p.interp h).AtMost P' n := by
  induction p generalizing n with
  | ret a => trivial
  | raise e => trivial
  | call op next ih =>
      obtain ⟨m, hm, hnext⟩ := hp
      exact ((hh op).attempt.bind fun r => ih r (hnext r)).mono (by omega)

end AtMost

end Proc

/-- A measure that only calls of a kind raise, by one each, grows by no more than the number of
such calls that a procedure makes. -/
theorem wpc_of_atMost {W : Type} {world : World I ε W} {P : I.Op → Bool} {μ : W → ℕ}
    (step : ∀ w op r w', world w op r w' → μ w' ≤ μ w + if P op then 1 else 0)
    {p : Proc I ε α} {n : ℕ} (hp : p.AtMost P n) {w : W} {bound : ℕ} (hw : μ w + n ≤ bound) :
    wpc world (fun w' => μ w' ≤ bound) p (fun _ w' => μ w' ≤ bound) w := by
  induction p generalizing n w with
  | ret a => exact ⟨by omega, by omega⟩
  | raise e => exact ⟨by omega, by omega⟩
  | call op next ih =>
      obtain ⟨m, hm, hnext⟩ := hp
      refine ⟨by omega, fun r w' hstep => ih r (hnext r) ?_⟩
      have hgrown := step w op r w' hstep
      omega

/-- A call that raised. -/
def Event.raised (e : Event I ε) : Bool := !e.2.isOk

section Records

variable {F : Event I ε → Prop} {p : Proc I ε α}

/-- A run only adds to the record, and adds the same behind any other record. -/
theorem exec_free_suffix {t t' : List (Event I ε)} {out : Option (Except ε α)}
    (exec : Exec (World.free.under F) p t out t') :
    ∃ s, t' = t ++ s ∧ ∀ t₀, Exec (World.free.under F) p t₀ out (t₀ ++ s) := by
  induction exec with
  | ret => exact ⟨[], by simp, fun t₀ => by simpa using Exec.ret⟩
  | raise => exact ⟨[], by simp, fun t₀ => by simpa using Exec.raise⟩
  | crash => exact ⟨[], by simp, fun t₀ => by simpa using Exec.crash⟩
  | @call op next t r t' out t'' step tail ih =>
      obtain ⟨s, hs, hexec⟩ := ih
      refine ⟨⟨op, r⟩ :: s, by rw [hs, step.1]; simp, fun t₀ => ?_⟩
      have htail := hexec (t₀ ++ [⟨op, r⟩])
      rw [List.append_assoc] at htail
      exact .call ⟨rfl, step.2⟩ htail

/-- A run whose record is of a kind is one under that kind of events. -/
theorem exec_free_under {t t' : List (Event I ε)} {out : Option (Except ε α)}
    (exec : Exec World.free p t out t') (hF : ∀ e ∈ t', F e) :
    Exec (World.free.under F) p t out t' := by
  induction exec with
  | ret => exact .ret
  | raise => exact .raise
  | crash => exact .crash
  | call step tail ih =>
      obtain ⟨s, hs, -⟩ := exec_free_suffix (F := fun _ => True)
        (tail.mono fun _ _ _ _ h => ⟨h, trivial⟩)
      refine .call ⟨step, hF _ ?_⟩ (ih hF)
      rw [hs, step]
      simp

/-- The record of a run of two procedures is the record of the first and that of the second. -/
theorem exec_free_bind {f : α → Proc I ε β} {r : Except ε β} {t : List (Event I ε)}
    (exec : Exec (World.free.under F) (p.bind f) [] (some r) t) :
    (∃ a s s', t = s ++ s' ∧ Exec (World.free.under F) p [] (some (.ok a)) s ∧
      Exec (World.free.under F) (f a) [] (some r) s') ∨
    ∃ e, r = .error e ∧ Exec (World.free.under F) p [] (some (.error e)) t := by
  rcases exec_bind exec with ⟨a, s, hp, hf⟩ | ⟨e, hp, hr⟩ | ⟨-, hr⟩
  · obtain ⟨s', rfl, hshift⟩ := exec_free_suffix hf
    exact Or.inl ⟨a, s, s', rfl, hp, by simpa using hshift []⟩
  · exact Or.inr ⟨e, Option.some.inj hr, hp⟩
  · cases hr

/-- The record of a run that begins with one call. -/
theorem exec_free_call {op : I.Op} {f : I.Ans op → Proc I ε β} {r : Except ε β}
    {t : List (Event I ε)} (exec : Exec (World.free.under F) ((Proc.perform op).bind f) [] (some r) t) :
    (∃ a s, t = ⟨op, .ok a⟩ :: s ∧ F ⟨op, .ok a⟩ ∧ Exec (World.free.under F) (f a) [] (some r) s) ∨
    ∃ e, r = .error e ∧ t = [⟨op, .error e⟩] := by
  cases exec with
  | @call _ _ _ answer _ _ _ step tail =>
      obtain ⟨s, rfl, hshift⟩ := exec_free_suffix tail
      obtain ⟨rfl, hF⟩ := step
      have hrest := hshift []
      rw [List.nil_append] at hrest
      cases answer with
      | ok a => exact Or.inl ⟨a, s, rfl, hF, hrest⟩
      | error e =>
          cases hrest
          exact Or.inr ⟨e, rfl, rfl⟩

/-- A run of a world with its record, as a run of the world that only writes the calls down. -/
theorem exec_free_of_traced {W : Type} {world : World I ε W} {w w' : W × List (Event I ε)}
    {out : Option (Except ε α)} (hF : ∀ w op r w', world w op r w' → F ⟨op, r⟩)
    (exec : Exec world.traced p w out w') : Exec (World.free.under F) p w.2 out w'.2 := by
  induction exec with
  | ret => exact .ret
  | raise => exact .raise
  | crash => exact .crash
  | call step tail ih => exact .call ⟨step.2, hF _ _ _ _ step.1⟩ ih

/-- A procedure that catches nothing returns when no call raises, and raises with the last call. -/
theorem exec_strict (hp : p.Strict) {r : Except ε α} {t : List (Event I ε)}
    (exec : Exec (World.free.under F) p [] (some r) t) :
    (r.isOk = true ∧ ∀ e ∈ t, e.raised = false) ∨
      (r.isOk = false ∧ ∃ e ∈ t, e.raised = true) := by
  induction p generalizing t with
  | ret a =>
      cases exec
      exact Or.inl ⟨rfl, by simp⟩
  | raise e => exact hp.elim
  | call op next ih =>
      cases exec with
      | @call _ _ _ a w' _ _ step tail =>
          obtain ⟨s, rfl, hshift⟩ := exec_free_suffix tail
          obtain ⟨rfl, -⟩ := step
          cases a with
          | error e =>
              rw [hp.1 e] at tail
              generalize hs : ([] ++ [⟨op, .error e⟩] ++ s : List (Event I ε)) = t at tail
              cases tail
              exact Or.inr ⟨rfl, ⟨op, .error e⟩, by simp, rfl⟩
          | ok a =>
              rcases ih _ (hp.2 a) (by simpa using hshift []) with ⟨hok, hall⟩ | ⟨herr, e, he, hraised⟩
              · refine Or.inl ⟨hok, ?_⟩
                intro e he
                rcases List.mem_append.mp he with hfirst | hrest
                · rw [List.nil_append, List.mem_singleton] at hfirst
                  rw [hfirst]
                  rfl
                · exact hall e hrest
              · exact Or.inr ⟨herr, e, List.mem_append_right _ he, hraised⟩

/-- A run with its record is a run. -/
theorem exec_of_traced {W : Type} {world : World I ε W} {w w' : W × List (Event I ε)}
    {out : Option (Except ε α)} (exec : Exec world.traced p w out w') :
    Exec world p w.1 out w'.1 := by
  induction exec with
  | ret => exact .ret
  | raise => exact .raise
  | crash => exact .crash
  | call step tail ih => exact .call step.1 ih

/-- The record of a run, complete or not, has at most so many calls of a kind. -/
theorem countP_free_of_atMost {P : I.Op → Bool} {n : ℕ} (hp : p.AtMost P n)
    {t t' : List (Event I ε)} {out : Option (Except ε α)} (exec : Exec World.free p t out t') :
    t'.countP (fun e => P e.1) ≤ t.countP (fun e => P e.1) + n := by
  induction exec generalizing n with
  | ret => exact Nat.le_add_right _ _
  | raise => exact Nat.le_add_right _ _
  | crash => exact Nat.le_add_right _ _
  | call step tail ih =>
      obtain ⟨m, hm, hnext⟩ := hp
      have hrest := ih (hnext _)
      rw [step, List.countP_append, List.countP_singleton] at hrest
      dsimp only at hrest
      omega

theorem countP_of_atMost {W : Type} {world : World I ε W} {P : I.Op → Bool} {n : ℕ}
    (hp : p.AtMost P n) {w w' : W × List (Event I ε)} {out : Option (Except ε α)}
    (exec : Exec world.traced p w out w') :
    w'.2.countP (fun e => P e.1) ≤ w.2.countP (fun e => P e.1) + n := by
  have hfree := exec_free_of_traced (F := fun _ => True) (fun _ _ _ _ _ => trivial) exec
  exact countP_free_of_atMost hp (hfree.mono fun _ _ _ _ h => h.1)

/-- In the record of a run under a kind of events there are only calls that the procedure
makes, with events of that kind. -/
theorem events_of_only_under {P : I.Op → Prop} (hp : p.Only P) {out : Option (Except ε α)}
    {t : List (Event I ε)} (exec : Exec (World.free.under F) p [] out t) :
    ∀ e ∈ t, P e.1 ∧ F e := by
  have hmono : ∀ w op r w', (World.free.under F) w op r w' → World.free w op r w' :=
    fun _ _ _ _ h => h.1
  have hF : ∀ {w : List (Event I ε)}, Exec (World.free.under F) p w out t → (∀ e ∈ w, F e) →
      ∀ e ∈ t, F e := by
    intro w hexec hw
    clear exec hp
    induction hexec with
    | ret => exact hw
    | raise => exact hw
    | crash => exact hw
    | call step tail ih =>
        refine ih ?_
        intro e he
        rw [step.1] at he
        rcases List.mem_append.mp he with hmem | hlast
        · exact hw e hmem
        · rw [List.mem_singleton.mp hlast]
          exact step.2
  exact fun e he => ⟨events_of_only hp (exec.mono hmono) e he, hF exec (by simp) e he⟩

/-- Two events with calls of a kind of which there is at most one are the same event. -/
theorem eq_of_countP_le_one {P : I.Op → Bool} {t : List (Event I ε)} {e e' : Event I ε}
    (hle : t.countP (fun e => P e.1) ≤ 1) (he : e ∈ t) (he' : e' ∈ t) (hP : P e.1 = true)
    (hP' : P e'.1 = true) : e = e' := by
  induction t with
  | nil => exact absurd he List.not_mem_nil
  | cons first rest ih =>
      rw [List.countP_cons] at hle
      have hrest : P first.1 = true → ∀ x ∈ rest, P x.1 = false := by
        intro hfirst x hx
        rw [if_pos hfirst] at hle
        have hzero : rest.countP (fun e => P e.1) = 0 := by omega
        simpa using List.countP_eq_zero.mp hzero x hx
      rcases List.mem_cons.mp he with rfl | hmem
      · rcases List.mem_cons.mp he' with rfl | hmem'
        · rfl
        · rw [hrest hP e' hmem'] at hP'
          cases hP'
      · rcases List.mem_cons.mp he' with rfl | hmem'
        · rw [hrest hP' e hmem] at hP
          cases hP
        · exact ih (by omega) hmem hmem'

end Records

/-! ### Grounds -/

/-- Every event of a record has its grounds in what came before it. -/
def Grounded (G : List (Event I ε) → Event I ε → Prop) (t : List (Event I ε)) : Prop :=
  ∀ before e after, t = before ++ e :: after → G before e

section Grounds

variable {G : List (Event I ε) → Event I ε → Prop} {t : List (Event I ε)}

theorem grounded_nil : Grounded G [] := by
  intro before e after h
  simp at h

theorem Grounded.concat {e : Event I ε} (h : Grounded G t) (he : G t e) :
    Grounded G (t ++ [e]) := by
  intro before e' after hsplit
  rcases List.eq_nil_or_concat after with rfl | ⟨rest, last, rfl⟩
  · obtain ⟨rfl, hlast⟩ := List.append_inj' hsplit rfl
    exact List.singleton_inj.mp hlast ▸ he
  · rw [List.concat_eq_append, ← List.cons_append, ← List.append_assoc] at hsplit
    exact h before e' rest (List.append_inj' hsplit rfl).1

/-- What is known stays known while a procedure makes calls that have their grounds in it. -/
theorem wpc_grounded {P : I.Op → Prop} {p : Proc I ε α} (h : Grounded G t)
    (hG : ∀ op, P op → ∀ t', t ⊆ t' → ∀ r, G t' ⟨op, r⟩) (hp : p.Only P) :
    wpc World.free (Grounded G) p (fun _ t' => Grounded G t' ∧ t ⊆ t') t := by
  have hrun : wpc World.free (fun t' => Grounded G t' ∧ t ⊆ t') p
      (fun _ t' => Grounded G t' ∧ t ⊆ t') t := by
    refine wpc_of_only (P := P) ?_ hp ⟨h, List.Subset.refl t⟩
    rintro op t₁ r t₂ hop ⟨hgrounded, hsub⟩ rfl
    exact ⟨hgrounded.concat (hG op hop t₁ hsub r), List.subset_append_of_subset_left _ hsub⟩
  exact wpc_mono hrun (fun _ hc => hc.1) fun _ _ _ hq => hq

/-- One call with its grounds, and what goes on from the record with its answer. -/
theorem wpc_grounded_call {op : I.Op} {f : I.Ans op → Proc I ε β}
    {Q : Except ε β → List (Event I ε) → Prop} (h : Grounded G t) (hG : ∀ r, G t ⟨op, r⟩)
    (hok : ∀ a, Grounded G (t ++ [⟨op, .ok a⟩]) →
      wpc World.free (Grounded G) (f a) Q (t ++ [⟨op, .ok a⟩]))
    (herr : ∀ e, Grounded G (t ++ [⟨op, .error e⟩]) → Q (.error e) (t ++ [⟨op, .error e⟩])) :
    wpc World.free (Grounded G) ((Proc.perform op).bind f) Q t := by
  refine wpc_seq (R := fun r t' => t' = t ++ [⟨op, r⟩]) ?_ ?_ ?_
  · refine wpc_of_perform h ?_
    rintro r t' rfl
    exact ⟨h.concat (hG r), rfl⟩
  · rintro a t' hgrounded rfl
    exact hok a hgrounded
  · rintro e t' hgrounded rfl
    exact herr e hgrounded

end Grounds

/-! ### Fixed answers -/

namespace Proc

variable {answer : (op : I.Op) → Except ε (I.Ans op)}

/-- How a procedure ends when every call has one fixed answer. -/
def outcome (answer : (op : I.Op) → Except ε (I.Ans op)) : Proc I ε α → Except ε α
  | .ret a => .ok a
  | .raise e => .error e
  | .call op next => (next (answer op)).outcome answer

/-- The calls it makes then, with their answers. -/
def trail (answer : (op : I.Op) → Except ε (I.Ans op)) : Proc I ε α → List (Event I ε)
  | .ret _ => []
  | .raise _ => []
  | .call op next => ⟨op, answer op⟩ :: (next (answer op)).trail answer

@[simp] theorem outcome_ofExcept (r : Except ε α) : (ofExcept r : Proc I ε α).outcome answer = r := by
  cases r with
  | ok a => rfl
  | error e => rfl

@[simp] theorem trail_ofExcept (r : Except ε α) : (ofExcept r : Proc I ε α).trail answer = [] := by
  cases r with
  | ok a => rfl
  | error e => rfl

@[simp] theorem outcome_perform (op : I.Op) :
    (perform op : Proc I ε (I.Ans op)).outcome answer = answer op := outcome_ofExcept _

@[simp] theorem trail_perform (op : I.Op) :
    (perform op : Proc I ε (I.Ans op)).trail answer = [⟨op, answer op⟩] := by
  rw [perform, trail, trail_ofExcept]

theorem outcome_bind (p : Proc I ε α) (f : α → Proc I ε β) :
    (p.bind f).outcome answer = (p.outcome answer).bind fun a => (f a).outcome answer := by
  induction p with
  | ret a => rfl
  | raise e => rfl
  | call op next ih => exact ih _

theorem outcome_bind_ok {p : Proc I ε α} {a : α} (f : α → Proc I ε β)
    (hp : p.outcome answer = .ok a) : (p.bind f).outcome answer = (f a).outcome answer := by
  rw [outcome_bind, hp]
  rfl

theorem trail_bind_ok {p : Proc I ε α} {a : α} (f : α → Proc I ε β)
    (hp : p.outcome answer = .ok a) :
    (p.bind f).trail answer = p.trail answer ++ (f a).trail answer := by
  induction p with
  | ret b =>
      obtain rfl := Except.ok.inj hp
      rfl
  | raise e => exact nomatch hp
  | call op next ih => exact congrArg (List.cons _) (ih _ hp)

theorem trail_bind_error {p : Proc I ε α} {e : ε} (f : α → Proc I ε β)
    (hp : p.outcome answer = .error e) : (p.bind f).trail answer = p.trail answer := by
  induction p with
  | ret b => exact nomatch hp
  | raise e' => rfl
  | call op next ih => exact congrArg (List.cons _) (ih _ hp)

@[simp] theorem outcome_attempt (p : Proc I ε α) :
    p.attempt.outcome answer = .ok (p.outcome answer) := by
  induction p with
  | ret a => rfl
  | raise e => rfl
  | call op next ih => exact ih _

@[simp] theorem trail_attempt (p : Proc I ε α) : p.attempt.trail answer = p.trail answer := by
  induction p with
  | ret a => rfl
  | raise e => rfl
  | call op next ih => exact congrArg (List.cons _) (ih _)

/-- Every call of the trail has its fixed answer. -/
theorem eq_of_mem_trail {p : Proc I ε α} {e : Event I ε} (he : e ∈ p.trail answer) :
    e.2 = answer e.1 := by
  induction p with
  | ret a => exact absurd he List.not_mem_nil
  | raise e => exact absurd he List.not_mem_nil
  | call op next ih =>
      rcases List.mem_cons.mp he with rfl | hrest
      · rfl
      · exact ih _ hrest

/-- The run against fixed answers, with its record. -/
theorem run_record (p : Proc I ε α) (t : List (Event I ε)) :
    p.run (World.record answer) t = (p.outcome answer, t ++ p.trail answer) := by
  induction p generalizing t with
  | ret a => simp [run, outcome, trail]
  | raise e => simp [run, outcome, trail]
  | call op next ih =>
      rw [run, ih]
      simp [outcome, trail, World.record]

/-- In a world that answers a kind of calls in one way, and changes nothing by them, a procedure
with such calls has the one outcome. -/
theorem wpc_outcome {W : Type} {world : World I ε W} {C : W → Prop} {P : I.Op → Prop}
    (hworld : ∀ w op r w', P op → world w op r w' → r = answer op ∧ w' = w) {p : Proc I ε α}
    (hp : p.Only P) {w : W} (hC : C w) :
    wpc world C p (fun r w' => r = p.outcome answer ∧ w' = w) w := by
  induction p with
  | ret a => exact ⟨hC, rfl, rfl⟩
  | raise e => exact ⟨hC, rfl, rfl⟩
  | call op next ih =>
      refine ⟨hC, fun r w' step => ?_⟩
      obtain ⟨rfl, rfl⟩ := hworld w op r w' hp.1 step
      exact ih _ (hp.2 _ trivial)

/-- The calls of a procedure are of the kind of all its calls. -/
theorem Along.trail {P : I.Op → Prop} {p : Proc I ε α} (hp : p.Only P) :
    ∀ e ∈ p.trail answer, P e.1 := by
  induction p with
  | ret a => exact fun e he => absurd he List.not_mem_nil
  | raise e => exact fun e he => absurd he List.not_mem_nil
  | call op next ih =>
      intro e he
      rcases List.mem_cons.mp he with rfl | hrest
      · exact hp.1
      · exact ih _ (hp.2 _ trivial) e hrest

end Proc

end Foundation
