import System2.Common.Secrets

/-!
# The posture of a start (`execution/pipeline.py`, `broker/oanda_adapter.py`)

Two settings decide what an approved order becomes: `EXEC_SHADOW` whether it is sent, and
`OANDA_ENV` with the live credentials where it is sent to. Neither may be guessed. The
start reads the first strictly, and the second is practice for every other word than live.

## Implementation notes

An env file that is copied from the template has a comment behind most values. The flag of
such a line is off, and off is the side on which orders are sent.
-/

namespace System2
open Foundation

def shadowDefault : Bool := true

/-- A text that is blank. -/
def isBlank (v : String) : Bool := (stripChars v.toList).isEmpty

/-- `resolve_shadow`. -/
def resolveShadow (s : Secrets) (requireExplicit : Bool) : Except Exc Bool :=
  if requireExplicit && isBlank ((s.get? "EXEC_SHADOW").getD "") then
    .error (Secrets.missingSecret [.lit "EXEC_SHADOW is not set. It decides whether approved ",
      .lit "orders are submitted to the broker (false) or only simulated (true); it is too ",
      .lit "consequential to default. Set it explicitly in .env.system2."])
  else .ok (s.getBool "EXEC_SHADOW" shadowDefault)

structure BrokerEnvironment where
  env : String
  token : String
  accountId : String
  url : String

/-- The environment that is asked for. An empty `OANDA_ENV` is practice too. -/
def askedEnvironment (s : Secrets) : String :=
  let named := (s.get? "OANDA_ENV").getD "practice"
  lower (if named = "" then "practice" else named)

/-- `resolve_environment`. -/
def resolveEnvironment (s : Secrets) : Except Exc BrokerEnvironment :=
  if askedEnvironment s = "live" then
    let token := (s.get? "OANDA_LIVE_API_KEY").getD ""
    let account := (s.get? "OANDA_LIVE_ACCOUNT_ID").getD ""
    if token = "" ∨ account = "" then
      .error ⟨.other "LiveConfigError", [.lit "OANDA_ENV=live but live credentials are missing ",
        .lit "(OANDA_LIVE_API_KEY / OANDA_LIVE_ACCOUNT_ID). Refusing to start live."]⟩
    else .ok ⟨"live", token, account,
      (s.get? "OANDA_LIVE_URL").getD "https://api-fxtrade.oanda.com"⟩
  else do
    let token ← s.require "OANDA_PRACTICE_API_KEY"
    let account ← s.require "OANDA_PRACTICE_ACCOUNT_ID"
    return ⟨"practice", token, account,
      (s.get? "OANDA_PRACTICE_URL").getD "https://api-fxpractice.oanda.com"⟩

variable {environ : OrderedDict String String} {file : Option (List Char)} {s : Secrets}

open Secrets

/-- The word of a flag that is on. -/
def IsOn (v : String) : Prop :=
  lower (String.ofList (stripChars v.toList)) ∈ ["1", "true", "yes", "on"]

theorem resolveShadow_false_iff : resolveShadow s true = .ok false ↔
    ∃ v, s.get? "EXEC_SHADOW" = some v ∧ isBlank v = false ∧ ¬ IsOn v := by
  unfold resolveShadow getBool IsOn
  cases hv : s.get? "EXEC_SHADOW" with
  | none =>
      have hblank : isBlank "" = true := by decide
      simp [hblank]
  | some v =>
      cases hblank : isBlank v with
      | true => simp [hblank]
      | false => simp [hblank]

theorem resolveEnvironment_live_iff : (∃ e, resolveEnvironment s = .ok e ∧ e.env = "live") ↔
    ∃ env token account, s.get? "OANDA_ENV" = some env ∧ lower env = "live" ∧
      s.get? "OANDA_LIVE_API_KEY" = some token ∧ token ≠ "" ∧
        s.get? "OANDA_LIVE_ACCOUNT_ID" = some account ∧ account ≠ "" := by
  have hgiven : ∀ o : Option String, o.getD "" ≠ "" ↔ ∃ v, o = some v ∧ v ≠ "" := by
    intro o
    cases o with
    | none => simp
    | some v => simp
  have hasked : askedEnvironment s = "live" ↔
      ∃ env, s.get? "OANDA_ENV" = some env ∧ lower env = "live" := by
    have hpractice : lower "practice" ≠ "live" := by decide
    have hempty : lower "" ≠ "live" := by decide
    unfold askedEnvironment
    cases s.get? "OANDA_ENV" with
    | none => simp [hpractice]
    | some env =>
        by_cases henv : env = ""
        · simp [henv, hpractice, hempty]
        · simp [henv]
  have hlive : (∃ e, resolveEnvironment s = .ok e ∧ e.env = "live") ↔
      askedEnvironment s = "live" ∧ (s.get? "OANDA_LIVE_API_KEY").getD "" ≠ "" ∧
        (s.get? "OANDA_LIVE_ACCOUNT_ID").getD "" ≠ "" := by
    unfold resolveEnvironment
    dsimp only
    split_ifs with hword hmissing
    · constructor
      · rintro ⟨e, he, -⟩
        cases he
      · rintro ⟨-, htoken, haccount⟩
        exact absurd hmissing (not_or.mpr ⟨htoken, haccount⟩)
    · exact iff_of_true ⟨_, rfl, rfl⟩ ⟨hword, not_or.mp hmissing⟩
    · constructor
      · rintro ⟨e, he, henv⟩
        obtain ⟨token, -, he⟩ := bind_eq_ok_iff.mp he
        obtain ⟨account, -, he⟩ := bind_eq_ok_iff.mp he
        have hpractice : "practice" = "live" := by
          rw [← Except.ok.inj he] at henv
          exact henv
        exact absurd hpractice (by decide)
      · exact fun h => absurd h.1 hword
  rw [hlive, hasked, hgiven, hgiven]
  constructor
  · rintro ⟨⟨env, henv, hword⟩, ⟨token, htoken, hne⟩, account, haccount, hne'⟩
    exact ⟨env, token, account, henv, hword, htoken, hne, haccount, hne'⟩
  · rintro ⟨env, token, account, henv, hword, htoken, hne, haccount, hne'⟩
    exact ⟨⟨env, henv, hword⟩, ⟨token, htoken, hne⟩, account, haccount, hne'⟩

/-- Orders reach a real account exactly if the shadow flag was written down and is not on, and
live was asked for with both credentials. -/
theorem sends_live_iff :
    (resolveShadow (load environ file) true = .ok false ∧
        ∃ e, resolveEnvironment (load environ file) = .ok e ∧ e.env = "live") ↔
      (∃ v, Assigned environ file "EXEC_SHADOW" v ∧ isBlank v = false ∧ ¬ IsOn v) ∧
        ∃ env token account, Assigned environ file "OANDA_ENV" env ∧ lower env = "live" ∧
          Assigned environ file "OANDA_LIVE_API_KEY" token ∧ token ≠ "" ∧
            Assigned environ file "OANDA_LIVE_ACCOUNT_ID" account ∧ account ≠ "" := by
  rw [resolveShadow_false_iff, resolveEnvironment_live_iff]
  simp only [get?_load_iff]

/-- A comment behind the value of a line turns a flag off, gives a number its default and
counts as a required value. For the shadow flag that means that orders are sent, whatever
word stands before the comment. -/
theorem commented_line_is_live {name v : String} {text before body : List Char}
    {earlier later : List (List Char)} (hsilent : environ.get? name = none)
    (hlines : splitLines text = earlier ++ (before ++ '=' :: body) :: later)
    (hline : assignment (before ++ '=' :: body) = some (name, v))
    (hfirst : '=' ∉ before) (hcomment : '#' ∈ body)
    (hlater : ∀ line ∈ later, ∀ e ∈ assignment line, e.1 ≠ name) :
    (load environ (some text)).ReadsComment name ∧
      (name = "EXEC_SHADOW" → resolveShadow (load environ (some text)) true = .ok false) := by
  have hhash := assignment_hash hfirst hcomment hline
  have hvalue : (load environ (some text)).get? name = some v :=
    get?_load_iff.mpr (Or.inr ⟨hsilent, text, rfl, earlier, _, later, hlines, hline, hlater⟩)
  refine ⟨readsComment_of_hash hvalue hhash, ?_⟩
  rintro rfl
  refine resolveShadow_false_iff.mpr ⟨v, hvalue, ?_, ?_⟩
  · rw [isBlank, List.isEmpty_eq_false_iff]
    exact List.ne_nil_of_mem (mem_trim hhash (by decide))
  · intro hon
    have hoff := lower_hash hhash
    rw [List.contains_eq_mem, decide_eq_false_iff_not] at hoff
    exact hoff hon

/-- The line of the template, and a line behind it. -/
def templateLines : List Char :=
  "EXEC_SHADOW=true                         # true = construct+validate but SUBMIT NOTHING\nMODE=x".toList

/-- The template asks for the simulation and gets the submission. -/
theorem commented_line_is_live_template :
    resolveShadow (load [] (some templateLines)) true = .ok false := by
  have hlines : splitLines templateLines = [] ++ ("EXEC_SHADOW".toList ++
      '=' :: "true                         # true = construct+validate but SUBMIT NOTHING".toList) ::
        ["MODE=x".toList] := rfl
  have hline : assignment ("EXEC_SHADOW".toList ++
      '=' :: "true                         # true = construct+validate but SUBMIT NOTHING".toList) =
        some ("EXEC_SHADOW", "true                         # true = construct+validate but SUBMIT NOTHING") := by
    decide +kernel
  exact (commented_line_is_live rfl hlines hline (by decide) (by decide) (by decide)).2 rfl

end System2
