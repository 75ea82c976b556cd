import System2.Common.QueueBackend

/-!
# Settling through a stale handle

A handle is stale when no row is in flight under its id. Acknowledged and
dead-lettered rows keep their id, so such a handle may still find a row: what
each way of settling then does to the table is said exactly.
-/

namespace System2
open Foundation

namespace LocalDurableBackend

/-- The three ways to settle a message. -/
inductive Settlement
  | ack
  | nack (backoffSec : Binary64)
  | toDlq (reason : FString)

def settleWith (b : LocalDurableBackend) (msg : ReceivedMessage) :
    Settlement → Proc QueueI Exc Unit
  | .ack => ack msg
  | .nack backoffSec => b.nack msg backoffSec
  | .toDlq reason => toDlq msg reason

/-- Some row is in flight under an id. -/
def InFlightUnder (t : QueueTable) (ackId : String) : Prop :=
  ∃ k row, t.get? k = some row ∧ row.ackId = some ackId ∧ row.state = .inflight

/-- When a way of settling finds nothing to change: an ack only rows that are done already, a
nack no row at all, and a dead-lettering never, because it files its copy first. -/
def Harmless (t : QueueTable) (ackId : String) : Settlement → Prop
  | .ack => ∀ k row, t.get? k = some row → row.ackId = some ackId → row.state = .done
  | .nack _ => ∀ k row, t.get? k = some row → row.ackId ≠ some ackId
  | .toDlq _ => False

variable {b : LocalDurableBackend} {msg : ReceivedMessage} {file file' : QueueFile}

@[simp] theorem hasAckId_iff {ackId : String} {row : QueueRow} :
    row.hasAckId ackId = true ↔ row.ackId = some ackId := by
  simp [QueueRow.hasAckId]

/-- One call: it works and acts on the table, or it fails and the table stays. -/
theorem wp_statement {op : QueueCall} {Q : Except Exc op.Ans → QueueFile → Prop}
    (hok : ∀ dbNow a, op.answers dbNow file a →
      Q (.ok a) ⟨op.after dbNow file.table, op.draws a ++ file.drawn⟩)
    (herr : ∀ e, Q (.error e) file) : wp queueWorld (perform op) Q file := by
  apply wpc_of_perform trivial
  rintro r file' (⟨dbNow, a, rfl, hanswers, rfl⟩ | ⟨⟨e, rfl⟩, rfl⟩)
  · exact ⟨trivial, hok dbNow a hanswers⟩
  · exact ⟨trivial, herr e⟩

theorem withState_eq_self_iff {state : RowState} {row : QueueRow} :
    row.withState state = row ↔ row.state = state := by
  cases row
  simp [QueueRow.withState, eq_comm]

theorem wp_ack : wp queueWorld (ack msg)
    (fun r file' => r = .ok () → (file'.table = file.table ↔ Harmless file.table msg.ackId .ack))
    file := by
  apply wp_statement
  · intro dbNow a _ _
    simp only [QueueCall.after]
    refine Table.update_eq_self_iff.trans ?_
    simp only [hasAckId_iff, withState_eq_self_iff]
    rfl
  · exact fun e h => by cases h

/-- The copy in the dead letters is a new row. -/
theorem wp_toDlq {reason : FString} : wp queueWorld (toDlq msg reason)
    (fun r file' => r = .ok () → file'.table ≠ file.table) file := by
  refine wpc_seq (wp_statement (Q := fun _ w => w.table = file.table) (fun _ _ _ => rfl)
    fun _ => rfl) ?_ fun e _ _ _ h => by cases h
  intro timestamp w₁ _ hw₁
  refine wpc_seq (wp_statement (Q := fun r w => (∃ a, r = .ok a) →
    w.table.next = file.table.next + 1) (fun _ _ _ _ => ?_) fun e h => ?_) ?_
    fun e _ _ _ h => by cases h
  · rw [← hw₁]
    rfl
  · obtain ⟨a, h⟩ := h
    cases h
  · intro a w₂ _ hw₂
    have hnext := hw₂ ⟨a, rfl⟩
    apply wp_statement
    · intro dbNow _ _ _ hsame
      simp only [QueueCall.after] at hsame
      have hkept := congrArg Table.next hsame
      simp only [Table.update] at hkept
      omega
    · exact fun e h => by cases h

theorem wp_nack {backoffSec : Binary64} : wp queueWorld (b.nack msg backoffSec)
    (fun r file' => r = .ok () →
      (file'.table = file.table ↔ Harmless file.table msg.ackId (.nack backoffSec))) file := by
  refine wpc_seq (wp_statement (Q := fun r w => w.table = file.table ∧ ∀ row, r = .ok row →
    row = ((file.table.select (QueueRow.hasAckId msg.ackId)).head?).map QueueRow.picked)
    (fun dbNow a ha => ⟨rfl, fun row h => Except.ok.inj h ▸ ha⟩)
    fun e => ⟨rfl, fun row h => by cases h⟩) ?_ fun e _ _ _ h => by cases h
  rintro picked w - ⟨hsame, hpicked⟩
  have hhead := hpicked picked rfl
  cases hselect : file.table.select (QueueRow.hasAckId msg.ackId) with
  | nil =>
      rw [hselect] at hhead
      subst hhead
      refine ⟨trivial, fun _ => ⟨fun _ k row hk hid => ?_, fun _ => hsame⟩⟩
      have hmem := Table.mem_select_iff.mpr ⟨hk, hasAckId_iff.mpr hid⟩
      rw [hselect] at hmem
      cases hmem
  | cons e rest =>
      rw [hselect] at hhead
      subst hhead
      have hmem : (e.1, e.2) ∈ file.table.select (QueueRow.hasAckId msg.ackId) := by
        rw [hselect]
        exact List.mem_cons_self
      obtain ⟨hget, hid⟩ := Table.mem_select_iff.mp hmem
      rw [hasAckId_iff] at hid
      have hfound : ¬ Harmless file.table msg.ackId (.nack backoffSec) :=
        fun h => h e.1 e.2 hget hid
      simp only [List.head?_cons, Option.map_some, QueueRow.picked]
      split_ifs
      · refine wpc_post wp_toDlq fun r w' _ hchanged hr => ?_
        rw [hsame] at hchanged
        exact iff_of_false (hchanged hr) hfound
      · refine wpc_seq (wp_statement (Q := fun _ w => w.table = file.table) (fun _ _ _ => hsame)
          fun _ => hsame) ?_ fun e _ _ _ h => by cases h
        intro now w₁ _ hw₁
        apply wp_statement
        · intro dbNow _ _ _
          refine iff_of_false (fun h => ?_) hfound
          rw [hw₁] at h
          simp only [QueueCall.after] at h
          have hrow := Table.update_eq_self_iff.mp h e.1 e.2 hget (decide_eq_true rfl)
          rw [← hrow] at hid
          cases hid
        · exact fun e h => by cases h

/-- Settling through any handle, stale or not, leaves the table as it is exactly when it finds
nothing to change. -/
theorem settle_unchanged_iff (b : LocalDurableBackend) (msg : ReceivedMessage) (how : Settlement)
    (file file' : QueueFile)
    (exec : Exec queueWorld (b.settleWith msg how) file (some (.ok ())) file') :
    file'.table = file.table ↔ Harmless file.table msg.ackId how := by
  cases how with
  | ack => exact wp_sound exec wp_ack rfl
  | nack backoffSec => exact wp_sound exec wp_nack rfl
  | toDlq reason => exact iff_of_false (wp_sound exec wp_toDlq rfl) id

/-- The files that the methods of any number of backends lead to. -/
inductive Reachable : QueueFile → Prop
  | empty : Reachable ⟨.empty, []⟩
  | publish {file file' topic body out} (h : Reachable file)
      (exec : Exec queueWorld (publish topic body) file out file') : Reachable file'
  | pull {file file' b subscription maxMessages out} (h : Reachable file)
      (exec : Exec queueWorld (pull b subscription maxMessages) file out file') : Reachable file'
  | settle {file file' b msg how out} (h : Reachable file)
      (exec : Exec queueWorld (settleWith b msg how) file out file') : Reachable file'

/-- A backend with the default limits. -/
def plainBackend : LocalDurableBackend := ⟨5, .ofRat 300, "system2:1"⟩

/-- One message published, pulled and acknowledged; its row is done. -/
def pulledFile : Except Exc (List ReceivedMessage) × QueueFile :=
  (plainBackend.pull "orders" 1).run (still .zero)
    ((publish "orders" .null).run (still .zero) ⟨.empty, []⟩).2

def pulledMessage : ReceivedMessage := ⟨"lease-0", "orders", .null, 1⟩

def ackedFile : QueueFile := ((ack pulledMessage).run (still .zero) pulledFile.2).2

theorem reachable_ackedFile : Reachable ackedFile := by
  have hpublished : Reachable ((publish "orders" .null).run (still .zero) ⟨.empty, []⟩).2 :=
    .publish .empty (exec_run (still_step .zero) _ _)
  have hpulled : Reachable pulledFile.2 := .pull hpublished (exec_run (still_step .zero) _ _)
  have hacked : Exec queueWorld (plainBackend.settleWith pulledMessage .ack) pulledFile.2 _
      ackedFile := exec_run (still_step .zero) _ _
  exact .settle hpulled hacked

/-- The state of a row. -/
def rowState (t : QueueTable) (seq : ℕ) : Option RowState := (t.get? seq).map QueueRow.state

/-- What a further settlement through the same handle leaves. -/
def resettled (how : Settlement) : Except Exc Unit × QueueFile :=
  (plainBackend.settleWith pulledMessage how).run (still .zero) ackedFile

theorem settle_unchanged_iff_nack :
    (resettled (.nack .zero)).2.table = ackedFile.table ↔
      Harmless ackedFile.table pulledMessage.ackId (.nack .zero) := by
  have hworks : (resettled (.nack .zero)).1.isOk = true := by decide +kernel
  obtain ⟨a, hok⟩ := exists_of_isOk hworks
  have exec := exec_run (still_step .zero) (plainBackend.settleWith pulledMessage (.nack .zero))
    ackedFile
  exact settle_unchanged_iff plainBackend pulledMessage (.nack .zero) ackedFile _ (hok ▸ exec)

/-- After an ack the same handle still puts the message back, and still files a dead letter. -/
theorem ackedHandle_acts :
    Reachable ackedFile ∧ ¬ InFlightUnder ackedFile.table pulledMessage.ackId ∧
    rowState ackedFile.table 0 = some .done ∧
    rowState (resettled (.nack .zero)).2.table 0 = some .ready ∧
    rowState (resettled (.toDlq [])).2.table 0 = some .dead ∧
    rowState (resettled (.toDlq [])).2.table 1 = some .ready := by
  refine ⟨reachable_ackedFile, ?_, by decide +kernel, by decide +kernel, by decide +kernel,
    by decide +kernel⟩
  have hrows : ackedFile.table.rows.all (fun e => e.2.state = .done) = true := by decide +kernel
  rintro ⟨k, row, hk, -, hstate⟩
  have hdone := List.all_eq_true.mp hrows (k, row) (Table.mem_of_get? hk)
  rw [decide_eq_true_iff] at hdone
  rw [hstate] at hdone
  cases hdone

end LocalDurableBackend

end System2
