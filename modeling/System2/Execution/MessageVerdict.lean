import System2.Execution.PipelineGates
import System2.Execution.OutboundConsumer

/-!
# One message: finding, verdict, settlement

Handling a message falls into three parts. The first examines the message and asks
only its own reads; the second carries out an order that nothing stood against; the
third settles the message as the verdict of the first two says.
-/

namespace System2
open Foundation

/-- What the consumer makes of a message before it settles it. -/
inductive Verdict (F : Type)
  | heartbeat (credited : Bool)
  | malformed (res : ValidationResult)
  | expired
  | duplicate
  | parked
  | pausedPark
  | executed (r : Except Exc (ProcessResult F))

/-- What the examination of a message finds: a verdict already, or an order to carry out. -/
inductive Finding (F : Type)
  | verdict (v : Verdict F)
  | executable (order : ApprovedOrder)

namespace Consumer

variable {F : Type}

/-- The finding on an order within its TTL. -/
def examineOrder (c : Consumer) (now : Moment) (order : ApprovedOrder) :
    Proc (ConsumerI F) Exc (Finding F) := do
  let duplicate ← (Pipeline.anySeen (guardKeys order)).interp (route order)
  if duplicate then return .verdict .duplicate
  else if !isInSession now then return .verdict .parked
  else
    let submitting ← gateOpen c
    if !submitting then return .verdict .pausedPark else return .executable order

/-- The finding on a valid envelope. -/
def examineEnvelope (c : Consumer) (now : Moment) (raw : Dict) :
    Proc (ConsumerI F) Exc (Finding F) := do
  let _ ← perform .countMessage
  let expired ← convert (isExpired c.host raw now c.maxAgeSec)
  if expired then return .verdict .expired
  else
    let _ ← creditFreshness c raw now
    let order ← convert (ApprovedOrder.fromDict raw)
    examineOrder c now order

/-- The finding on a keepalive. -/
def examineHeartbeat (c : Consumer) (raw : Dict) : Proc (ConsumerI F) Exc (Finding F) := do
  let credited ←
    match ← convert (parseTs c.host raw ["created_at", "produced_at"]) with
    | none => do
        let _ ← convert (payloadSource raw)
        pure false
    | some sentAt => creditHeartbeat c raw sentAt
  return .verdict (.heartbeat credited)

def examine (c : Consumer) (msg : ReceivedMessage) (now : Moment) :
    Proc (ConsumerI F) Exc (Finding F) :=
  if isHeartbeat msg.body then examineHeartbeat c msg.body.entries
  else do
    let res ← convert (validateEnvelope msg.body)
    if !res.ok then return .verdict (.malformed res) else examineEnvelope c now msg.body.entries

/-- An order that nothing stands against is carried out; an exception is a verdict, too. -/
def carryOut (c : Consumer) : Finding F → Proc (ConsumerI F) Exc (Verdict F)
  | .verdict v => .ret v
  | .executable order => do
      let result ← (execute c order).attempt
      return .executed result

def assess (c : Consumer) (msg : ReceivedMessage) (now : Moment) :
    Proc (ConsumerI F) Exc (Verdict F) :=
  (examine c msg now).bind (carryOut c)

/-- The settlement that a verdict asks for. -/
def conclude (c : Consumer) (msg : ReceivedMessage) :
    Verdict F → Proc (ConsumerI F) Exc Outcome
  | .heartbeat credited => do
      let _ ← perform (.ack msg)
      return if credited then .heartbeat else .heartbeatStale
  | .malformed res => deadLetter c msg res
  | .expired => do
      let _ ← perform (.ack msg)
      return .expired
  | .duplicate => do
      let _ ← perform (.ack msg)
      return .duplicate
  | .parked => do
      let _ ← perform (.nack msg c.parkBackoffSec)
      return .parked
  | .pausedPark => do
      let _ ← perform (.nack msg c.parkBackoffSec)
      return .pausedPark
  | .executed r => settle c msg r

variable {c : Consumer} {msg : ReceivedMessage} {now : Moment}

/-- What follows the finding: the execution and the settlement. -/
def finish (c : Consumer) (msg : ReceivedMessage) (x : Finding F) :
    Proc (ConsumerI F) Exc Outcome :=
  (carryOut c x).bind (conclude c msg)

theorem handleOrder_eq (order : ApprovedOrder) :
    handleOrder (F := F) c msg now order = (examineOrder c now order).bind (finish c msg) := by
  simp only [handleOrder, examineOrder, Proc.bind_eq, Proc.bind_assoc]
  congr 1
  funext duplicate
  split_ifs
  · rfl
  · rfl
  · simp only [Proc.bind_assoc]
    congr 1
    funext submitting
    split_ifs
    · rfl
    · simp only [Proc.pure_eq, Proc.ret_bind, finish, carryOut, Proc.bind_eq, Proc.bind_assoc]
      rfl

theorem handleEnvelope_eq (raw : Dict) :
    handleEnvelope (F := F) c msg now raw = (examineEnvelope c now raw).bind (finish c msg) := by
  simp only [handleEnvelope, examineEnvelope, Proc.bind_eq, Proc.bind_assoc]
  congr 1
  funext _
  congr 1
  funext expired
  split_ifs
  · rfl
  · simp only [Proc.bind_assoc, handleOrder_eq]

theorem handleHeartbeat_eq (raw : Dict) :
    handleHeartbeat (F := F) c msg raw = (examineHeartbeat c raw).bind (finish c msg) := by
  simp only [handleHeartbeat, examineHeartbeat, Proc.bind_eq, Proc.bind_assoc]
  congr 1
  funext sentAt
  cases sentAt with
  | none => simp only [Proc.bind_assoc]; rfl
  | some sentAt => simp only [Proc.bind_assoc]; rfl

/-- A message is handled by settling it as the verdict says. -/
theorem handle_eq : handle (F := F) c msg now = (assess c msg now).bind (conclude c msg) := by
  change handle c msg now = ((examine c msg now).bind (carryOut c)).bind (conclude c msg)
  rw [Proc.bind_assoc]
  unfold handle examine
  split_ifs
  · exact handleHeartbeat_eq _
  · simp only [Proc.bind_eq, Proc.bind_assoc]
    congr 1
    funext res
    split_ifs
    · rfl
    · exact handleEnvelope_eq _

/-- The calls of an examination. -/
def asks : ConsumerCall F → Prop
  | .pipeline (.seen _) => True
  | .submitGateFn => True
  | .heartbeatFn _ => True
  | .countMessage => True
  | .setLastMessageAt _ => True
  | .setLastMessageCreatedAt _ => True
  | _ => False

theorem asks_submitless {op : ConsumerCall F} (hop : asks op) : op.isSubmit = false := by
  cases op with
  | pipeline call =>
      cases call with
      | submit c => exact hop.elim
      | _ => rfl
  | _ => rfl

theorem anySeen_only {P : ConsumerCall F → Prop} (order : ApprovedOrder) {keys : List String}
    (hseen : ∀ key ∈ keys, P (.pipeline (.seen key))) :
    ((Pipeline.anySeen (F := F) keys).interp (route order)).Only P := by
  have hscan : (Pipeline.anySeen (F := F) keys).Only fun op : PipelineCall F =>
      ∃ key ∈ keys, op = .seen key :=
    Pipeline.anySeen_only fun key hkey => ⟨key, hkey, rfl⟩
  refine hscan.interp ?_
  rintro _ ⟨key, hkey, rfl⟩
  exact Proc.along_perform (hseen key hkey)

theorem anySeen_asks (order : ApprovedOrder) (keys : List String) :
    ((Pipeline.anySeen (F := F) keys).interp (route order)).Only asks :=
  anySeen_only order fun _ _ => trivial

/-- Is this a look-up in the store of processed keys? -/
def looksUp : ConsumerCall F → Prop
  | .pipeline (.seen _) => True
  | _ => False

section Calls

variable {P : ConsumerCall F → Prop}

theorem creditFreshness_only (hasks : ∀ op, asks op → ¬looksUp op → P op) (raw : Dict) :
    (creditFreshness (F := F) c raw now).Only P := by
  refine (Proc.along_perform (hasks (.setLastMessageAt now) trivial id)).bind fun _ =>
    (Proc.along_ofExcept _).bind fun created => ?_
  cases created with
  | none => exact trivial
  | some created => exact Proc.along_perform (hasks _ trivial id)

theorem creditHeartbeat_only (hasks : ∀ op, asks op → ¬looksUp op → P op) (raw : Dict)
    (sentAt : Moment) : (creditHeartbeat (F := F) c raw sentAt).Only P := by
  unfold creditHeartbeat
  split_ifs
  · refine (Proc.along_perform (hasks (.heartbeatFn sentAt) trivial id)).attempt.bind fun r => ?_
    cases r with
    | ok credited => exact trivial
    | error e => exact (Proc.along_ofExcept _).bind fun _ => trivial
  · exact trivial

theorem yields_convert {α : Type} {allowed : (op : ConsumerCall F) → Except Exc op.Ans → Prop}
    (r : Except PyErr α) :
    Proc.Yields (I := ConsumerI F) allowed (fun a => r = .ok a) (convert r) := by
  cases r with
  | ok a => exact rfl
  | error e => exact trivial

/-- An examination looks up the keys of the message's order, and makes the other calls of an
examination. -/
theorem examine_only (hasks : ∀ op, asks op → ¬looksUp op → P op)
    (hseen : ∀ order, isHeartbeat msg.body = false →
      ApprovedOrder.fromDict msg.body.entries = .ok order →
      ∀ key ∈ guardKeys order, P (.pipeline (.seen key))) :
    (examine (F := F) c msg now).Only P := by
  have hgate : (gateOpen (F := F) c).Only P := by
    unfold gateOpen
    split_ifs
    · exact Proc.along_perform (hasks _ trivial id)
    · exact trivial
  unfold examine
  split_ifs with hheart
  · refine (Proc.along_ofExcept _).bind fun sentAt => ?_
    cases sentAt with
    | none => exact (Proc.along_ofExcept _).bind fun _ => trivial
    | some sentAt => exact (creditHeartbeat_only hasks _ sentAt).bind fun _ => trivial
  · refine (Proc.along_ofExcept _).bind fun res => ?_
    split_ifs
    · exact trivial
    refine (Proc.along_perform (hasks .countMessage trivial id)).bind fun _ =>
      (Proc.along_ofExcept _).bind fun expired => ?_
    split_ifs
    · exact trivial
    refine (creditFreshness_only hasks _).bind fun _ =>
      Proc.Along.bind_yields (Proc.along_ofExcept _) (yields_convert _) fun order horder => ?_
    refine (anySeen_only order (hseen order (by simpa using hheart) horder)).bind
      fun duplicate => ?_
    split_ifs
    · exact trivial
    · exact trivial
    refine hgate.bind fun submitting => ?_
    split_ifs
    · exact trivial
    · exact trivial

end Calls

theorem creditFreshness_asks (raw : Dict) : (creditFreshness (F := F) c raw now).Only asks :=
  creditFreshness_only (fun _ h _ => h) raw

theorem creditHeartbeat_asks (raw : Dict) (sentAt : Moment) :
    (creditHeartbeat (F := F) c raw sentAt).Only asks :=
  creditHeartbeat_only (fun _ h _ => h) raw sentAt

/-- An examination settles nothing, submits nothing and marks nothing. -/
theorem examine_asks : (examine (F := F) c msg now).Only asks :=
  examine_only (fun _ h _ => h) fun _ _ _ _ _ => trivial

/-- The calls that settle a message. -/
def settles : ConsumerCall F → Prop
  | .ack _ => True
  | .nack _ _ => True
  | .toDlq _ _ => True
  | _ => False

theorem settles_submitless {op : ConsumerCall F} (hop : settles op) : op.isSubmit = false := by
  cases op with
  | pipeline call => exact hop.elim
  | _ => rfl

theorem conclude_settles (v : Verdict F) : (conclude c msg v).Only settles := by
  have htell : ∀ {op : ConsumerCall F} (o : Outcome), settles op →
      ((perform op).bind fun _ => .ret o).Only settles :=
    fun _ hop => (Proc.along_perform hop).bind fun _ => trivial
  cases v with
  | malformed res =>
      refine (Proc.along_perform trivial).attempt.bind fun r => ?_
      cases r with
      | ok _ => exact trivial
      | error e => exact htell _ trivial
  | executed r =>
      cases r with
      | error e => exact htell _ trivial
      | ok result =>
          simp only [conclude, settle]
          split_ifs
          · exact htell _ trivial
          · exact htell _ trivial
  | _ => exact htell _ trivial

/-- A keepalive submits nothing. -/
theorem handleHeartbeat_notSubmit (raw : Dict) :
    (handleHeartbeat (F := F) c msg raw).Only notSubmit := by
  have hack : ∀ credited : Bool, ((perform (F := F) (.ack msg)).bind fun _ =>
      .ret (if credited then Outcome.heartbeat else .heartbeatStale)).Only notSubmit :=
    fun _ => (along_notSubmit rfl).bind fun _ => trivial
  refine (Proc.along_ofExcept _).bind fun sentAt => ?_
  cases sentAt with
  | none => exact (Proc.along_ofExcept _).bind fun _ => hack false
  | some sentAt =>
      exact ((creditHeartbeat_asks raw sentAt).mono fun _ => asks_submitless).bind hack

/-- What stands of a message when its examination finds an order to carry out: against a store
of processed keys and a gate that says `gate`. -/
structure Examined (c : Consumer) (msg : ReceivedMessage) (now : Moment) (store : List String)
    (gate : Bool) (order : ApprovedOrder) : Prop where
  noKeepalive : isHeartbeat msg.body = false
  envelope : ∃ res, validateEnvelope msg.body = .ok res ∧ res.ok = true
  unexpired : isExpired c.host msg.body.entries now c.maxAgeSec = .ok false
  decoded : ApprovedOrder.fromDict msg.body.entries = .ok order
  unseen : ∀ k ∈ guardKeys order, k ∉ store
  session : isInSession now = true
  gate : c.hasSubmitGate = true → gate = true

section Examination

variable {W : Type} {world : World (ConsumerI F) Exc W} {J : W → Prop} {store : List String}
  {gate : Bool} {w : W}

/-- The scan of the keys against a truthful store says no only when the store has none of
them. -/
theorem wpc_anySeen_unseen {order : ApprovedOrder} {keys : List String}
    (hasks : ∀ op w r w', asks op → J w → world w op r w' → J w')
    (hseen : ∀ key w b w', J w → world w (.pipeline (.seen key)) (.ok b) w' →
      b = decide (key ∈ store)) (hw : J w) :
    wpc world J ((Pipeline.anySeen keys).interp (route order))
      (fun r w => J w ∧ (r = .ok false → ∀ k ∈ keys, k ∉ store)) w := by
  induction keys generalizing w with
  | nil => exact ⟨hw, hw, by simp⟩
  | cons key rest ih =>
      simp only [Pipeline.anySeen, Proc.bind_eq]
      rw [Proc.interp_bind, Proc.interp_perform]
      refine (wpc_bind _ _ _ _).mpr (wpc_of_perform hw fun r w' step => ?_)
      have hw' := hasks _ w r w' trivial hw step
      refine ⟨hw', ?_⟩
      cases r with
      | error e => exact ⟨hw', by simp⟩
      | ok seen =>
          have hanswer := hseen key w seen w' hw step
          cases seen with
          | true => exact ⟨hw', hw', by simp⟩
          | false =>
              have hkey : key ∉ store := by simpa using hanswer.symm
              refine wpc_post (ih hw') ?_
              rintro r w'' - ⟨hw'', hrest⟩
              refine ⟨hw'', fun hr k hk => ?_⟩
              rcases List.mem_cons.mp hk with rfl | htail
              · exact hkey
              · exact hrest hr k htail

theorem wpc_gateAsked (hasks : ∀ op w r w', asks op → J w → world w op r w' → J w')
    (hgate : ∀ w b w', J w → world w .submitGateFn (.ok b) w' → b = gate) (hw : J w) :
    wpc world J (gateOpen c)
      (fun r w => J w ∧ (r = .ok true → c.hasSubmitGate = true → gate = true)) w := by
  unfold gateOpen
  split_ifs with hgiven
  · refine wpc_of_perform hw fun r w' step => ?_
    have hw' := hasks _ w r w' trivial hw step
    refine ⟨hw', hw', ?_⟩
    rintro rfl -
    exact (hgate w true w' hw step).symm
  · exact ⟨hw, hw, fun _ h => absurd h hgiven⟩

/-- An examination finds an order only where nothing stands against it. -/
theorem wpc_examine (hasks : ∀ op w r w', asks op → J w → world w op r w' → J w')
    (hseen : ∀ key w b w', J w → world w (.pipeline (.seen key)) (.ok b) w' →
      b = decide (key ∈ store))
    (hgate : ∀ w b w', J w → world w .submitGateFn (.ok b) w' → b = gate) (hw : J w) :
    wpc world J (examine c msg now) (fun r w => J w ∧
      ∀ order, r = .ok (.executable order) → Examined c msg now store gate order) w := by
  have hquiet : ∀ {α : Type} {p : Proc (ConsumerI F) Exc α} {w : W}, p.Only asks → J w →
      wpc world J p (fun _ w => J w) w := fun hp hw =>
    wpc_of_only (fun op w r w' hop hJ step => hasks op w r w' hop hJ step) hp hw
  unfold examine
  split_ifs with hheart
  · -- a keepalive never comes to an order
    simp only [examineHeartbeat, Proc.bind_eq]
    refine wpc_seq (hquiet (Proc.along_ofExcept _) hw) (fun sentAt w₁ hw₁ _ => ?_)
      fun e w hc _ => ⟨hc, by simp⟩
    cases sentAt with
    | none =>
        exact wpc_seq (hquiet (Proc.along_ofExcept _) hw₁)
          (fun _ w hc _ => ⟨hc, hc, by simp⟩) fun e w hc _ => ⟨hc, by simp⟩
    | some sentAt =>
        exact wpc_seq (hquiet (creditHeartbeat_asks _ sentAt) hw₁)
          (fun _ w hc _ => ⟨hc, hc, by simp⟩) fun e w hc _ => ⟨hc, by simp⟩
  · simp only [Proc.bind_eq]
    refine (wpc_bind _ _ _ _).mpr ((wpc_ofExcept _ _ _).mpr ?_)
    cases hval : validateEnvelope msg.body with
    | error e => exact ⟨hw, hw, by simp⟩
    | ok res =>
        refine ⟨hw, ?_⟩
        dsimp only [Exc.lift_ok]
        split_ifs with hbad
        · exact ⟨hw, hw, by simp⟩
        have hvalid : res.ok = true := by simpa using hbad
        simp only [examineEnvelope, Proc.bind_eq]
        refine wpc_seq (hquiet (Proc.along_perform trivial) hw) (fun _ w₁ hw₁ _ => ?_)
          fun e w hc _ => ⟨hc, by simp⟩
        refine (wpc_bind _ _ _ _).mpr ((wpc_ofExcept _ _ _).mpr ?_)
        cases hexp : isExpired c.host msg.body.entries now c.maxAgeSec with
        | error e => exact ⟨hw₁, hw₁, by simp⟩
        | ok expired =>
            refine ⟨hw₁, ?_⟩
            cases expired with
            | true => exact ⟨hw₁, hw₁, by simp⟩
            | false =>
                refine wpc_seq (hquiet (creditFreshness_asks _) hw₁) (fun _ w₂ hw₂ _ => ?_)
                  fun e w hc _ => ⟨hc, by simp⟩
                refine (wpc_bind _ _ _ _).mpr ((wpc_ofExcept _ _ _).mpr ?_)
                cases hdict : ApprovedOrder.fromDict msg.body.entries with
                | error e => exact ⟨hw₂, hw₂, by simp⟩
                | ok order =>
                    refine ⟨hw₂, ?_⟩
                    dsimp only [Exc.lift_ok]
                    simp only [examineOrder, Proc.bind_eq]
                    refine wpc_seq (wpc_anySeen_unseen hasks hseen hw₂) ?_
                      fun e w hc _ => ⟨hc, by simp⟩
                    rintro duplicate w₃ hw₃ ⟨-, hunseen⟩
                    split_ifs with hdup hsession
                    · exact ⟨hw₃, hw₃, by simp⟩
                    · exact ⟨hw₃, hw₃, by simp⟩
                    refine wpc_seq (wpc_gateAsked hasks hgate hw₃) ?_
                      fun e w hc _ => ⟨hc, by simp⟩
                    rintro submitting w₄ hw₄ ⟨-, hopen⟩
                    split_ifs with hclosed
                    · exact ⟨hw₄, hw₄, by simp⟩
                    refine ⟨hw₄, hw₄, ?_⟩
                    intro order' heq
                    obtain rfl : order = order' := by simpa using heq
                    exact ⟨by simpa using hheart, ⟨res, hval, hvalid⟩, hexp, hdict,
                      hunseen (by simpa using hdup), by simpa using hsession,
                      hopen (by simpa using hclosed)⟩

end Examination

end Consumer

end System2
