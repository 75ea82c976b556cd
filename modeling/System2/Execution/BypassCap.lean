import System2.Execution.BookGuard

/-!
# The position cap of a BYPASS

The safety settings have a cap on the positions of a BYPASS, and nothing reads it: in a
BYPASS an order is admitted by the same checks as ever. So the cap holds as far as those
checks happen to refuse what it would refuse.
-/

namespace System2
open Foundation

namespace LiveRuntime

open ConsumerService (StillHost)

variable {rt : LiveRuntime} {w w' : LiveState} {es : List (Episode LiveState)}

/-- The calls of hooks that an episode put on record. -/
def Episode.added (e : Episode LiveState) : List Mark := e.after.marks.drop e.before.marks.length

/-- A message that meets a BYPASS with as many open trades as its cap or more fails one of the
consumer's own checks. -/
def WithinCap (rt : LiveRuntime) (e : Episode LiveState) : Prop :=
  ∀ msg now, e.activity = .handle msg now → e.before.monitor.state = .bypass →
    rt.bypassMaxPositions ≤ e.before.book.openCount →
      ∀ order o, ¬ rt.service.consumer.Clears msg now e.before e.added order o

/-- Where the backup guard's cap is no higher, every message is within the cap. -/
theorem withinCap_of_le
    (h : rt.service.consumer.pipeline.maxOpenPositions ≤ rt.bypassMaxPositions)
    (e : Episode LiveState) : rt.WithinCap e := by
  intro msg now _ _ hcap order o hclears
  have hbelow : (e.before.book.openCount : ℤ) < _ :=
    (TradeBook.backupGuard_passes hclears.backup).1
  omega

/-- The submits on record were not made in a BYPASS that had reached its cap. -/
def CapKept (rt : LiveRuntime) (marks : List Mark) : Prop :=
  ∀ m ∈ marks, Consumer.isSubmit m.call = true → m.state = .bypass →
    (m.openTrades : ℤ) < rt.bypassMaxPositions

/-- What one episode within the cap does. -/
structure Kept (rt : LiveRuntime) (w w' : LiveState) : Prop where
  marks : ∃ new, w'.marks = w.marks ++ new ∧ rt.CapKept new
  count : w.monitor.state = .bypass →
    (w'.book.openCount : ℤ) ≤ max rt.bypassMaxPositions w.book.openCount

theorem kept_of_handled {e : Episode LiveState} {msg : ReceivedMessage} {now : Moment}
    (h : rt.service.consumer.Handled msg now e.before e.after) (ha : e.activity = .handle msg now)
    (hcap : rt.WithinCap e) : rt.Kept e.before e.after := by
  rcases h with hasked | ⟨order, hplaced, hbook⟩
  · obtain ⟨new, hnew, hsubmit, -⟩ := hasked.marks
    refine ⟨⟨new, hnew, fun m hm hm' => ?_⟩, fun _ => ?_⟩
    · rw [hsubmit m hm] at hm'
      cases hm'
    · rw [hasked.book]
      exact le_max_right _ _
  · obtain ⟨new, o, hnew, hsubmits, hclears⟩ := hplaced.marks
    have hbelow : e.before.monitor.state = .bypass →
        (e.before.book.openCount : ℤ) < rt.bypassMaxPositions := by
      intro hstate
      by_contra hreached
      have hadded : e.added = new := by
        rw [Episode.added, hnew, List.drop_left]
      exact hcap msg now ha hstate (not_lt.mp hreached) order o (hadded ▸ hclears)
    refine ⟨⟨new, hnew, fun m hm hm' hstate => ?_⟩, fun hstate => ?_⟩
    · obtain ⟨hmstate, hmopen⟩ := hsubmits m hm hm'
      rw [hmopen]
      exact hbelow (hmstate.symm.trans hstate)
    · have hcount := hbelow hstate
      rcases hbook with hsame | ⟨t, -, hregistered⟩
      · rw [hsame]
        exact le_max_right _ _
      · have hgrown : (e.before.book.register t).openCount ≤ e.before.book.openCount + 1 :=
          TradeBook.openInstruments_register.length_le
        rw [hregistered]
        refine le_max_of_le_left ?_
        omega

/-- Every episode within the cap keeps it. -/
theorem episode_kept {e : Episode LiveState}
    (exec : Exec liveWorld (rt.act e.activity) e.before e.out e.after) (hcap : rt.WithinCap e) :
    rt.Kept e.before e.after := by
  cases ha : e.activity.isHandling with
  | false =>
      have hquiet := act_opensNone ha exec
      have hcount : e.after.book.openCount ≤ e.before.book.openCount :=
        hquiet.book.openInstruments.length_le
      refine ⟨⟨[], by rw [hquiet.marks, List.append_nil], by simp [CapKept]⟩, fun _ => ?_⟩
      exact le_max_of_le_right (by exact_mod_cast hcount)
  | true =>
      cases hact : e.activity with
      | handle msg now =>
          rw [hact] at exec
          obtain ⟨out, hexec⟩ := exec_done exec
          exact kept_of_handled (handle_handled hexec) hact hcap
      | _ =>
          rw [hact] at ha
          cases ha

/-- The executor's runtime with a BYPASS that can be asked for. -/
def bypassRuntime : LiveRuntime :=
  { executorRuntime with
    monitor := { executorRuntime.monitor with
      config := { executorRuntime.monitor.config with
        bypassEnable := true
        bypassConfirmToken := "go" } } }

/-- A buy in an instrument. -/
def buyOf (instrument : String) : ReceivedMessage :=
  ⟨"ack-1", "ams-outbound.executor",
    .dict (((orderMessage "BUY" (.int 1000) .null).set "instrument" (.str instrument)).set
      "idempotency_key" (.str ("key-" ++ instrument))), 1⟩

/-- The host on which an order fills as a trade. -/
def fillsAs (tradeId : String) : StillHost :=
  { tradingDay with fill := { ConsumerService.plainFill with brokerTradeId := some tradeId } }

def buy (instrument : String) (w : LiveState) : LiveState :=
  bypassRuntime.actOn (fillsAs instrument) (.handle (buyOf instrument) Moment.first) w

def grant (w : LiveState) : LiveState :=
  bypassRuntime.actOn tradingDay (.requestBypass "go" "operator" "outage") w

/-- A BYPASS that was granted with two trades open. -/
def grantedAtTwo : LiveState := grant (buy "GBP_USD" (buy "EUR_USD" freshRuntime))

/-- A BYPASS that was granted with three trades open. -/
def grantedAtThree : LiveState := grant (buy "AUD_USD" (buy "GBP_USD" (buy "EUR_USD" freshRuntime)))

end LiveRuntime

end System2
