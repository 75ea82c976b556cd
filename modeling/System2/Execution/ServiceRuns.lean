import System2.Execution.ConsumerService
import System2.Execution.GatesPassed

/-!
# Runs of the consumer service

A run is a sequence of polls by one process after another, between the steps of
the other components. Each poll fetches a batch and handles its messages in
order, and stops early when a handling raises or the process dies.
-/

namespace System2
open Foundation

namespace ConsumerService

variable {W : Type}

/-- The handling of one message: the state before it, how it ended, none when the process died
in it, and the state after it. -/
structure Handling (W : Type) where
  before : W
  msg : ReceivedMessage
  out : Option (Except Exc Outcome)
  after : W

/-- How processes of a type fetch a batch and handle a message, complete or not. -/
structure PollSteps (P W : Type) where
  fetch : P → W → Option (Except Exc (Moment × Option (List ReceivedMessage))) → W → Prop
  handle : P → ReceivedMessage → Moment → W → Option (Except Exc Outcome) → W → Prop

/-- The executions of the service's own procedures. -/
def steps (world : World ServiceI Exc W) : PollSteps ConsumerService W where
  fetch := fun svc w out w' => Exec world svc.fetch w out w'
  handle := fun svc msg now w out w' => Exec world (svc.handle msg now) w out w'

/-- The messages of a batch, one after the other. The process may die between two of them. -/
inductive Handles {P : Type} (steps : PollSteps P W) (p : P) (now : Moment) :
    List ReceivedMessage → W → List (Handling W) → W → Prop
  | stop {batch w} : Handles steps p now batch w [] w
  | cut {msg batch w out w'} (exec : steps.handle p msg now w out w')
      (hout : ∀ o, out ≠ some (.ok o)) :
      Handles steps p now (msg :: batch) w [⟨w, msg, out, w'⟩] w'
  | next {msg batch w o w' hs w''} (exec : steps.handle p msg now w (some (.ok o)) w')
      (rest : Handles steps p now batch w' hs w'') :
      Handles steps p now (msg :: batch) w (⟨w, msg, some (.ok o), w'⟩ :: hs) w''

/-- A poll, complete or not. -/
inductive Polls {P : Type} (steps : PollSteps P W) (p : P) : W → List (Handling W) → W → Prop
  | fetched {w now batch w' hs w''} (exec : steps.fetch p w (some (.ok (now, some batch))) w')
      (handles : Handles steps p now batch w' hs w'') : Polls steps p w hs w''
  | unfetched {w out w'} (exec : steps.fetch p w out w') : Polls steps p w [] w'

/-- A run: polls of processes of a kind, and steps of the other components. -/
inductive Runs {P : Type} (steps : PollSteps P W) (kind : P → Prop) (others : W → W → Prop) :
    W → List (Handling W) → W → Prop
  | refl {w} : Runs steps kind others w [] w
  | poll {p w hs w' hs' w''} (run : Runs steps kind others w hs w') (hp : kind p)
      (poll : Polls steps p w' hs' w'') : Runs steps kind others w (hs ++ hs') w''
  | other {w hs w' w''} (run : Runs steps kind others w hs w') (step : others w' w'') :
      Runs steps kind others w hs w''

section Executions

variable {svc : ConsumerService} {now : Moment}

section Implemented

variable {I : Interface} {impl : (op : ServiceCall) → Proc I Exc op.Ans} {world : World I Exc W}
  {P : Type} {steps : PollSteps P W} {p : P}

theorem handles_of_exec {batch : List ReceivedMessage} {stats : Stats} {w w' : W}
    {out : Option (Except Exc Stats)}
    (hhandle : ∀ msg now w out w', Exec world ((svc.handle msg now).interp impl) w out w' →
      steps.handle p msg now w out w')
    (exec : Exec world (((svc.consumer.handleBatch now batch stats).interp svc.wire).interp impl)
      w out w') : ∃ hs, Handles steps p now batch w hs w' := by
  induction batch generalizing stats w with
  | nil =>
      cases exec with
      | ret => exact ⟨[], .stop⟩
      | crash => exact ⟨[], .stop⟩
  | cons msg batch ih =>
      simp only [Consumer.handleBatch, Proc.bind_eq, Proc.interp_bind] at exec
      rcases exec_bind exec with ⟨o, w₁, hfirst, htail⟩ | ⟨e, hfirst, -⟩ | ⟨hfirst, -⟩
      · obtain ⟨hs, rest⟩ := ih htail
        exact ⟨_, .next (hhandle msg now _ _ _ hfirst) rest⟩
      · exact ⟨_, .cut (hhandle msg now _ _ _ hfirst) fun o h => by cases h⟩
      · exact ⟨_, .cut (hhandle msg now _ _ _ hfirst) fun o h => by cases h⟩

/-- Every execution of `poll_once`, however the service's calls are implemented, is a poll. -/
theorem polls_of_exec_interp {w w' : W} {out : Option (Except Exc Stats)}
    (hfetch : ∀ w out w', Exec world (svc.fetch.interp impl) w out w' → steps.fetch p w out w')
    (hhandle : ∀ msg now w out w', Exec world ((svc.handle msg now).interp impl) w out w' →
      steps.handle p msg now w out w')
    (exec : Exec world (svc.pollOnce.interp impl) w out w') : ∃ hs, Polls steps p w hs w' := by
  rw [pollOnce_eq, Proc.interp_bind] at exec
  rcases exec_bind exec with ⟨⟨now, batch⟩, w₁, hfirst, htail⟩ | ⟨e, hfirst, -⟩ | ⟨hfirst, -⟩
  · cases batch with
    | none =>
        cases htail with
        | ret => exact ⟨[], .unfetched (hfetch _ _ _ hfirst)⟩
        | crash => exact ⟨[], .unfetched (hfetch _ _ _ hfirst)⟩
    | some batch =>
        obtain ⟨hs, handles⟩ := handles_of_exec hhandle htail
        exact ⟨hs, .fetched (hfetch _ _ _ hfirst) handles⟩
  · exact ⟨[], .unfetched (hfetch _ _ _ hfirst)⟩
  · exact ⟨[], .unfetched (hfetch _ _ _ hfirst)⟩

end Implemented

/-- Every execution of `poll_once` is a poll. -/
theorem polls_of_exec {world : World ServiceI Exc W} {w w' : W} {out : Option (Except Exc Stats)}
    (exec : Exec world svc.pollOnce w out w') : ∃ hs, Polls (steps world) svc w hs w' := by
  rw [← Proc.interp_self svc.pollOnce] at exec
  refine polls_of_exec_interp (fun _ _ _ h => ?_) (fun msg now _ _ _ h => ?_) exec
  · rw [Proc.interp_self] at h
    exact h
  · rw [Proc.interp_self] at h
    exact h

theorem exec_of_handles {world : World ServiceI Exc W} {batch : List ReceivedMessage} {w w' : W}
    {hs : List (Handling W)} (handles : Handles (steps world) svc now batch w hs w')
    (stats : Stats) :
    Exec world ((svc.consumer.handleBatch now batch stats).interp svc.wire) w none w' := by
  induction handles generalizing stats with
  | stop => exact .crash
  | cut exec hout =>
      simp only [Consumer.handleBatch, Proc.bind_eq, Proc.interp_bind]
      exact Exec.bind_cut (Exec.cut exec)
  | next exec rest ih =>
      simp only [Consumer.handleBatch, Proc.bind_eq, Proc.interp_bind]
      exact Exec.bind exec (ih _)

/-- Every poll is an execution of `poll_once`, cut short at its end. -/
theorem exec_of_polls {world : World ServiceI Exc W} {w w' : W} {hs : List (Handling W)}
    (polls : Polls (steps world) svc w hs w') : Exec world svc.pollOnce w none w' := by
  rw [pollOnce_eq]
  cases polls with
  | fetched exec handles => exact Exec.bind exec (exec_of_handles handles _)
  | unfetched exec => exact Exec.bind_cut (Exec.cut exec)

end Executions

section Preserved

variable {P : Type} {steps : PollSteps P W} {kind : P → Prop} {others : W → W → Prop}

/-- What every fetch and every handling of the run keeps, given the handlings so far, the run
keeps. The handlings of the run meet `A` after those before them. -/
theorem Runs.preserves {J : List (Handling W) → W → Prop}
    {A : List (Handling W) → Handling W → Prop}
    (hfetch : ∀ p hs w out w', kind p → J hs w → steps.fetch p w out w' → J hs w')
    (hhandle : ∀ p now msg hs w out w', kind p → J hs w → steps.handle p msg now w out w' →
      A hs ⟨w, msg, out, w'⟩ → J (hs ++ [⟨w, msg, out, w'⟩]) w')
    (hothers : ∀ hs w w', J hs w → others w w' → J hs w')
    {w w' : W} {hs : List (Handling W)} (run : Runs steps kind others w hs w')
    (hA : ∀ hs₁ h hs₂, hs = hs₁ ++ h :: hs₂ → A hs₁ h) (hw : J [] w) : J hs w' := by
  have hhandles : ∀ {p now batch w hs w'}, kind p → Handles steps p now batch w hs w' →
      ∀ done, (∀ hs₁ h hs₂, hs = hs₁ ++ h :: hs₂ → A (done ++ hs₁) h) → J done w →
        J (done ++ hs) w' := by
    intro p now batch w hs w' hp handles
    induction handles with
    | stop => exact fun done _ hw => (List.append_nil done).symm ▸ hw
    | cut exec hout =>
        intro done hA hw
        have hfirst := hA [] _ [] rfl
        rw [List.append_nil] at hfirst
        exact hhandle p now _ done _ _ _ hp hw exec hfirst
    | next exec rest ih =>
        intro done hA hw
        have hfirst := hA [] _ _ rfl
        rw [List.append_nil] at hfirst
        have hrest := ih (done ++ [_]) (fun hs₁ h hs₂ heq => by
          rw [List.append_assoc]
          exact hA (_ :: hs₁) h hs₂ (by rw [heq]; rfl)) (hhandle p now _ done _ _ _ hp hw exec hfirst)
        rwa [List.append_assoc] at hrest
  induction run with
  | refl => exact hw
  | @poll p w hs w₁ hs' w₂ run hp poll ih =>
      have hw₁ := ih (fun hs₁ h hs₂ heq => hA hs₁ h (hs₂ ++ hs') (by rw [heq]; simp)) hw
      cases poll with
      | fetched exec handles =>
          exact hhandles hp handles hs (fun hs₁ h hs₂ heq => hA (hs ++ hs₁) h hs₂ (by
            rw [heq, List.append_assoc])) (hfetch _ _ _ _ _ hp hw₁ exec)
      | unfetched exec => exact (List.append_nil hs).symm ▸ hfetch _ _ _ _ _ hp hw₁ exec
  | other run step ih => exact hothers _ _ _ (ih hA hw) step

/-- The rule for conditions on single handlings. -/
theorem Runs.keeps {J : W → Prop} {A : Handling W → Prop}
    (hfetch : ∀ p w out w', kind p → J w → steps.fetch p w out w' → J w')
    (hhandle : ∀ p now msg w out w', kind p → J w → steps.handle p msg now w out w' →
      A ⟨w, msg, out, w'⟩ → J w')
    (hothers : ∀ w w', J w → others w w' → J w')
    {w w' : W} {hs : List (Handling W)} (run : Runs steps kind others w hs w')
    (hA : ∀ h ∈ hs, A h) (hw : J w) : J w' :=
  run.preserves (J := fun _ => J) (A := fun _ => A) (fun p _ => hfetch p)
    (fun p now msg _ => hhandle p now msg) (fun _ => hothers)
    (fun _ h _ heq => hA h (heq ▸ List.mem_append_right _ List.mem_cons_self)) hw

end Preserved

/-! ### One poll against a deterministic environment -/

/-- The first message of what a fetch returned. -/
def firstMessage (r : Except Exc (Moment × Option (List ReceivedMessage))) : ReceivedMessage :=
  (r.toOption.bind fun x => x.2.bind List.head?).getD Consumer.plainBuy

/-- A fetch of one message at the first moment. -/
theorem fetched_one {r : Except Exc (Moment × Option (List ReceivedMessage))}
    (hone : (r.toOption.any fun x => x.1 = Moment.first ∧ (x.2.map List.length) = some 1) = true) :
    r = .ok (Moment.first, some [firstMessage r]) := by
  rcases r with e | ⟨now, batch⟩
  · cases hone
  · simp only [Except.toOption, Option.any_some, decide_eq_true_eq] at hone
    obtain ⟨rfl, hone⟩ := hone
    match batch, hone with
    | some [msg], _ => rfl

theorem eq_ok_of_toOption {α : Type} {r : Except Exc α} {a : α} (h : r.toOption = some a) :
    r = .ok a := by
  cases r with
  | error e => cases h
  | ok a' => exact congrArg Except.ok (Option.some.inj h)

section Against

variable (env : (op : ServiceCall) → W → Except Exc op.Ans × W) (svc : ConsumerService) (w : W)

def fetchedBy : Except Exc (Moment × Option (List ReceivedMessage)) × W := svc.fetch.run env w

def deliveredBy : ReceivedMessage := firstMessage (fetchedBy env svc w).1

def handledBy : Except Exc Outcome × W :=
  (svc.handle (deliveredBy env svc w) Moment.first).run env (fetchedBy env svc w).2

/-- A poll that fetches one message at the first moment and handles it. -/
theorem polls_by {world : World ServiceI Exc W} {o : Outcome}
    (henv : ∀ op w, world w op (env op w).1 (env op w).2)
    (hone : ((fetchedBy env svc w).1.toOption.any fun x =>
      x.1 = Moment.first ∧ (x.2.map List.length) = some 1) = true)
    (ho : (handledBy env svc w).1.toOption = some o) :
    Polls (steps world) svc w [⟨(fetchedBy env svc w).2, deliveredBy env svc w, some (.ok o),
      (handledBy env svc w).2⟩] (handledBy env svc w).2 := by
  have hfetch := exec_run henv svc.fetch w
  have hhandle := exec_run henv (svc.handle (deliveredBy env svc w) Moment.first)
    (fetchedBy env svc w).2
  exact .fetched (fetched_one hone ▸ hfetch) (.next (eq_ok_of_toOption ho ▸ hhandle) .stop)

end Against

/-- A host that stands still on a trading day at a quote of 1.1: the time of its queue, its
safety gate, the fill that its broker returns, and whether `persist_fn` works. -/
structure StillHost where
  now : Binary64
  gate : Bool
  fill : FillResult
  persists : Bool

/-- Its answers. An outbox write works, and nothing can be pulled from the outbox yet. -/
def StillHost.env (host : StillHost) (op : ServiceCall) (s : ServiceState) :
    Except Exc op.Ans × ServiceState :=
  match op with
  | .queue call =>
      ((still host.now call s.file).1, { s with file := (still host.now call s.file).2 })
  | .producer .uuid4 => (.ok "message-1", s)
  | .producer .utcNowIso => (.ok "1970-01-01T00:00:00Z", s)
  | .producer (.outboxPublish _ body) => (.ok (), { s with outbox := s.outbox ++ [body] })
  | .producer (.outboxPull _ _) => (.ok [], s)
  | .consumer .clock => (.ok Moment.first, s)
  | .consumer (.setLastPollAt _) => (.ok (), s)
  | .consumer (.setLastMessageAt _) => (.ok (), s)
  | .consumer (.setLastMessageCreatedAt _) => (.ok (), s)
  | .consumer .countMessage => (.ok (), s)
  | .consumer .submitGateFn => (.ok host.gate, s)
  | .consumer (.priceFn _) => (.ok (.float (.ofRat (11 / 10))), s)
  | .consumer .openInstrumentsFn => (.ok [], s)
  | .consumer (.pipeline (.seen key)) => (.ok (decide (key ∈ s.store)), s)
  | .consumer (.pipeline (.mark key)) => (.ok (), { s with store := key :: s.store })
  | .consumer (.pipeline .clock) => (.ok Moment.first, s)
  | .consumer (.pipeline (.validate _)) => (.ok (true, []), s)
  | .consumer (.pipeline (.submit _)) => (.ok host.fill, s)
  | .consumer (.pipeline (.persist _ _)) =>
      (if host.persists then .ok () else .error (.ofErr .valueError), s)
  | _ => (.error (.ofErr .valueError), s)

theorem StillHost.env_step (host : StillHost) (subscription : String) (op : ServiceCall)
    (s : ServiceState) : serviceWorld subscription s op (host.env op s).1 (host.env op s).2 := by
  have hrefl := Elsewhere.refl subscription s.file
  cases op with
  | queue call => exact ⟨⟨_, still_step host.now call s.file, .refl _ _⟩, rfl, rfl⟩
  | producer call =>
      cases call with
      | outboxPublish topic body => exact ⟨rfl, hrefl, rfl⟩
      | _ => exact ⟨hrefl, rfl, rfl⟩
  | consumer call =>
      cases call with
      | pipeline call =>
          cases call with
          | seen key => exact ⟨fun b hb => (Except.ok.inj hb).symm, hrefl, rfl, rfl⟩
          | mark key => exact ⟨Or.inr rfl, hrefl, rfl⟩
          | _ => exact ⟨hrefl, rfl, rfl⟩
      | _ => exact ⟨hrefl, rfl, rfl⟩

/-- The executor's service with a limit on the attempts and a hook at every place. -/
def executor (limit : ℤ) : ConsumerService where
  consumer := Consumer.openConsumer
  backend := ⟨limit, .ofRat 300, "executor-1"⟩
  producer := ⟨"executor-inbound", "fill-outbox"⟩
  rounds := 3

/-- Nothing on file. -/
def nothing : ServiceState := ⟨⟨Table.empty, []⟩, [], []⟩

/-- Then `plainBuy` arrives. -/
def buyArrived : ServiceState :=
  ⟨⟨Table.empty.insert (.inserted Consumer.plainBuy.topic (.json Consumer.plainBuy.body)), []⟩,
    [], []⟩

theorem buyArrived_elsewhere : Elsewhere Consumer.plainBuy.topic nothing.file buyArrived.file :=
  .arrival _ _ _

/-- One thousand units filled at 1.1. -/
def plainFill : FillResult where
  realizedStatus := "FILLED"
  filledUnits := .ofRat 1000
  brokerOrderId := some "order-1"
  brokerTradeId := some "trade-1"
  requestedPrice := some (.ofRat (11 / 10))
  fillPrice := some (.ofRat (11 / 10))
  fillTime := .null
  slippagePips := some .zero
  stopLossPrice := none
  takeProfitPrice := none
  rejectReason := .null
  modelSetId := none

end ConsumerService

end System2
