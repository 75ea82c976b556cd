import System2.Execution.OutboxDrain
import System2.Execution.OutboxPool
import System2.Execution.StartupReconcile

/-!
# The outbox as a journal of fills

The rows of a topic are the bodies that were written to it, in the order of the writes,
whatever has become of the rows since. So a restart that scans the outbox for the fill of an
order finds the confirmation that was written last, delivered or not.
-/

namespace System2
open Foundation

/-! ### Rows and writes -/

/-- `SELECT body FROM queue WHERE topic=? ORDER BY seq DESC`. -/
def QueueTable.bodies (t : QueueTable) (topic : String) : List RowBody :=
  ((t.select fun row => row.topic = topic).map fun e => e.2.body).reverse

/-- The body that a statement has written to a topic. -/
def writtenBody? (topic : String) : QueueEvent → Option RowBody
  | ⟨.insert topic' body, .ok _⟩ => if topic' = topic then some body else none
  | _ => none

/-- The bodies that were written to a topic, in order. -/
def writtenTo (topic : String) (t : List QueueEvent) : List RowBody :=
  t.filterMap (writtenBody? topic)

/-- A statement adds to the bodies of a topic what it writes there. -/
theorem bodies_step {topic : String} {s s' : ClockedFile} {op : QueueCall}
    {r : Except Exc op.Ans} (step : clockedWorld s op r s') :
    s'.file.table.bodies topic =
      (writtenBody? topic ⟨op, r⟩).toList ++ s.file.table.bodies topic := by
  rcases step with ⟨dbNow, a, rfl, -, rfl⟩ | ⟨⟨e, rfl⟩, rfl⟩
  swap
  · cases op <;> rfl
  have hupdate : ∀ (p : ℕ → QueueRow → Bool) (g : QueueRow → QueueRow),
      (∀ row, (g row).topic = row.topic) → (∀ row, (g row).body = row.body) →
      QueueTable.bodies (s.file.table.update p g) topic = s.file.table.bodies topic := by
    intro p g htopic hbody
    have hofTopic : ∀ row, decide ((g row).topic = topic) = decide (row.topic = topic) :=
      fun row => by rw [htopic]
    exact congrArg List.reverse (Table.map_select_update p hofTopic hbody)
  cases op with
  | insert topic' body =>
      show QueueTable.bodies (s.file.table.insert (.inserted topic' body)) topic = _
      unfold QueueTable.bodies writtenBody?
      rw [Table.select_insert]
      by_cases htopic : topic' = topic
      · simp [QueueRow.inserted, htopic]
      · simp [QueueRow.inserted, htopic]
  | lease seq ackId owner leaseSec => exact hupdate _ _ (fun _ => rfl) fun _ => rfl
  | reclaim seq => exact hupdate _ _ (fun _ => rfl) fun _ => rfl
  | claimDead seq => exact hupdate _ _ (fun _ => rfl) fun _ => rfl
  | setDone ackId => exact hupdate _ _ (fun _ => rfl) fun _ => rfl
  | setDead ackId => exact hupdate _ _ (fun _ => rfl) fun _ => rfl
  | release seq availableAt => exact hupdate _ _ (fun _ => rfl) fun _ => rfl
  | _ => rfl

variable {ι : Type} [DecidableEq ι]

/-- The table holds the bodies of a topic as they were written, the last one first. -/
theorem bodies_eq_written {P : Protocol ι QueueI Exc ClockedFile} {log : QueueLog ι}
    {s : ClockedFile} (topic : String)
    (history : History clockedWorld P ⟨⟨.empty, []⟩, []⟩ log s) :
    s.file.table.bodies topic = (writtenTo topic (log.map Happened.event)).reverse := by
  induction history with
  | start => rfl
  | @call log s i op r s' _ _ step ih =>
      rw [bodies_step step, ih, writtenTo, writtenTo, List.map_append, List.filterMap_append,
        List.reverse_append]
      congr 1
      cases hwritten : writtenBody? topic ⟨op, r⟩ <;> simp [Happened.event, hwritten]

/-- What the producers have written are objects. -/
theorem written_objects {limit : ℤ} {log : QueueLog ι} {s₀ s : ClockedFile} (topic : String)
    (history : History clockedWorld (drainProtocol limit) s₀ log s) :
    ∀ body ∈ writtenTo topic (log.map Happened.event), ∃ d, body = .json (.dict d) := by
  intro body hbody
  obtain ⟨event, hevent, hwritten⟩ := List.mem_filterMap.mp hbody
  obtain ⟨h, hmem, rfl⟩ := List.mem_map.mp hevent
  obtain ⟨pre, post, heq⟩ := List.append_of_mem hmem
  obtain ⟨-, hop, -⟩ := history.split pre h post heq
  obtain ⟨i, op, r, before, after⟩ := h
  cases op with
  | insert topic' body' =>
      cases r with
      | error e => cases hwritten
      | ok _ =>
          have hsame : (if topic' = topic then some body' else none) = some body := hwritten
          split_ifs at hsame
          exact Option.some.inj hsame ▸ hop
  | _ => cases hwritten

/-! ### The scan of a restart -/

namespace StartupReconcile

/-- The rows that `iter_fill_envelopes` reads. -/
def storedRows (t : QueueTable) : List OutboxRow :=
  (t.bodies "fill_outbox").map fun body => body.loads.toOption

/-- A body that is a fill confirmation of the order with this key. -/
def confirmation? (key : String) : RowBody → Option Dict
  | .json (.dict envelope) => if confirms key envelope then some envelope else none
  | _ => none

/-- The fill confirmations of an order that were written to the outbox, in order. -/
def confirmations (key : String) (t : List OutboxEvent) : List Dict :=
  (writtenTo "fill_outbox" (leftEvents t)).filterMap (confirmation? key)

theorem findFillEnvelope_objects {key : String} {bodies : List RowBody}
    (h : ∀ body ∈ bodies, ∃ d, body = .json (.dict d)) :
    findFillEnvelope key (bodies.map fun body => body.loads.toOption) =
      .ok (bodies.findSome? (confirmation? key)) := by
  induction bodies with
  | nil => rfl
  | cons body rest ih =>
      obtain ⟨d, rfl⟩ := h body List.mem_cons_self
      have hrest := ih fun b hb => h b (List.mem_cons_of_mem _ hb)
      rw [List.map_cons, List.findSome?_cons]
      show (if confirms key d then _ else _) = _
      by_cases hconfirms : confirms key d = true
      · simp only [confirmation?, hconfirms, if_true]
      · simp only [confirmation?, hconfirms, if_false, hrest, Bool.false_eq_true]

/-- In every run of producers and emitters on an outbox that started empty, a restart finds for an
order the confirmation of it that was written last, and none if none was written. -/
theorem fill_found {producers : FillProducer → Prop} {limit : ℤ}
    (pool : Pool ι OutboxI Exc ClockedFile)
    (reaches : Pool.Reaches (World.beside clockedWorld) (OutboxUser producers limit)
      (.idle ⟨⟨.empty, []⟩, []⟩) pool) (key : String) :
    findFillEnvelope key (storedRows pool.shared.file.table) =
      .ok (confirmations key (pool.log.map Happened.event)).getLast? := by
  have history := (outboxHistory reaches).left
  have hrows := bodies_eq_written "fill_outbox" history
  have hobjects := written_objects "fill_outbox" history
  rw [events_leftLog] at hrows hobjects
  rw [storedRows, hrows, findFillEnvelope_objects fun body hbody =>
    hobjects body (List.mem_reverse.mp hbody), ← List.head?_filterMap, List.filterMap_reverse,
    List.head?_reverse]
  rfl

/-- The fill of the order is confirmed, with so many rounds of a flush behind it. -/
def confirming (rounds : ℕ) (fill : FillResult) : Proc OutboxI Exc Unit :=
  ((outboxProducer.publishFill rounds heldOrder fill).interp
    (wireProducer FillProducer.outboxBackend)).bind fun _ => .ret ()

/-- Two processes write a confirmation of the same order, and the first of them delivers both. -/
def confirmedTwice : Pool ℕ OutboxI Exc ClockedFile :=
  ((((Pool.idle ⟨⟨.empty, []⟩, []⟩).starting 0 (confirming 1 ConsumerService.plainFill)).calls
    standing 0 3).starting 1 (confirming 0 { ConsumerService.plainFill with
      realizedStatus := "PARTIAL" })).calls standing 1 3 |>.calls standing 0 12

theorem fill_found_confirmedTwice :
    (LocalDurableBackend.rowState confirmedTwice.shared.file.table 1 = some .done ∧
      (confirmations "k" (confirmedTwice.log.map Happened.event)).length = 2) ∧
    findFillEnvelope "k" (storedRows confirmedTwice.shared.file.table) =
      .ok (confirmations "k" (confirmedTwice.log.map Happened.event)).getLast? := by
  have reaches : Pool.Reaches (World.beside clockedWorld)
      (OutboxUser (fun p => p = outboxProducer) 1000000000) (.idle ⟨⟨.empty, []⟩, []⟩)
      confirmedTwice := by
    refine .calls standing_step 12 (.calls standing_step 3 (.starting ?_ rfl
      (.publishFill rfl le_rfl)))
    exact .calls standing_step 3 (.starting .refl rfl (.publishFill rfl le_rfl))
  exact ⟨by decide +kernel, fill_found confirmedTwice reaches "k"⟩

end StartupReconcile

end System2
