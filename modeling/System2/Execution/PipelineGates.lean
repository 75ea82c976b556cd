import System2.Execution.Pipeline

/-!
# The gates of the pipeline (`execution/pipeline.py`)

Before an order may leave, `process` asks the processed store, the clock and the validator.
Its gates are one procedure, which returns a refusal or the constructed order. Behind them the
order is returned in shadow mode, and submitted and recorded otherwise.
-/

namespace System2
open Foundation

namespace Pipeline

variable {F : Type} {p : Pipeline} {order : ApprovedOrder} {entryPrice : PyVal}
  {openInstruments : List String} {P : PipelineCall F → Prop}
  {allowed : (op : PipelineCall F) → Except Exc op.Ans → Prop} {hit : Prop}

/-! ### The store -/

theorem anySeen_only {keys : List String} (h : ∀ key ∈ keys, P (.seen key)) :
    (anySeen keys).Only P := by
  induction keys with
  | nil => exact trivial
  | cons key rest ih =>
      refine (Proc.along_perform (h key List.mem_cons_self)).bind fun seen => ?_
      split_ifs
      · exact trivial
      · exact ih fun k hk => h k (List.mem_cons_of_mem _ hk)

theorem markAll_only {keys : List String} (h : ∀ key ∈ keys, P (.mark key)) :
    (markAll keys).Only P := by
  induction keys with
  | nil => exact trivial
  | cons key rest ih =>
      exact (Proc.along_perform (h key List.mem_cons_self)).bind fun _ =>
        ih fun k hk => h k (List.mem_cons_of_mem _ hk)

/-- The scan says yes only where a look-up does. -/
theorem anySeen_yields {keys : List String}
    (hhit : ∀ key ∈ keys, allowed (.seen key) (.ok true) → hit) :
    (anySeen keys).Yields allowed fun b => b = true → hit := by
  induction keys with
  | nil =>
      intro h
      cases h
  | cons key rest ih =>
      refine (Proc.yields_perform (R := fun b => b = true → hit) ?_).bind fun seen hseen => ?_
      · rintro _ hb rfl
        exact hhit key List.mem_cons_self hb
      · cases seen with
        | true => exact hseen
        | false => exact ih fun k hk => hhit k (List.mem_cons_of_mem _ hk)

/-! ### The record of a fill -/

/-- Behind a submit: the marks at once, then the hooks. -/
def recorded (p : Pipeline) (order : ApprovedOrder) (constructed : ConstructedOrder) (fill : F) :
    Proc (PipelineI F) Exc (ProcessResult F) :=
  (markAll (guardKeys order)).bind fun _ =>
    (Proc.given p.hasPersist (Proc.perform (I := PipelineI F) (.persist constructed fill))).bind
      fun _ =>
        (Proc.given p.hasEmit (Proc.perform (I := PipelineI F) (.emit constructed fill))).bind
          fun _ => .ret ⟨.executed, some constructed, some fill, []⟩

theorem submitAndRecord_eq (p : Pipeline) (order : ApprovedOrder) (constructed : ConstructedOrder) :
    p.submitAndRecord (F := F) order constructed =
      if !p.hasSubmit then
        .raise ⟨.builtin .valueError,
          [.lit "submit_fn required in non-shadow execution_only mode (wired by EXEC-006)"]⟩
      else (Proc.perform (I := PipelineI F) (.submit constructed)).bind
        (p.recorded order constructed) := rfl

/-- The calls behind a submit: marks of the order's own keys and the two hooks. -/
def Records (order : ApprovedOrder) : PipelineCall F → Prop
  | .mark key => key ∈ guardKeys order
  | .persist _ _ => True
  | .emit _ _ => True
  | _ => False

theorem recorded_records {constructed : ConstructedOrder} {fill : F} :
    (p.recorded order constructed fill).Only (Records order) :=
  (markAll_only fun _ hkey => hkey).bind fun _ =>
    (Proc.along_given (Proc.along_perform trivial)).bind fun _ =>
      (Proc.along_given (Proc.along_perform trivial)).bind fun _ => trivial

/-- What is submitted is called executed. -/
theorem submitAndRecord_executed {constructed : ConstructedOrder} :
    (p.submitAndRecord (F := F) order constructed).Yields allowed
      fun result => result.decision = .executed := by
  rw [submitAndRecord_eq]
  split_ifs
  · exact trivial
  · exact (Proc.yields_true _).bind fun _ _ => (Proc.yields_true _).bind fun _ _ =>
      (Proc.yields_true _).bind fun _ _ => (Proc.yields_true _).bind fun _ _ => rfl

/-! ### The gates and the mode -/

/-- The gates on a constructed order, without the mode. -/
def lastGated (p : Pipeline) (order : ApprovedOrder) (constructed : ConstructedOrder)
    (openInstruments : List String) : Proc (PipelineI F) Exc (ProcessResult F ⊕ ConstructedOrder) :=
  (if p.hasValidate then Proc.perform (I := PipelineI F) (.validate constructed)
    else Proc.ret (true, [])).bind fun verdict =>
      if !verdict.1 then
        .ret (.inl ⟨.rejectedValidation, some constructed, none, verdict.2⟩)
      else
        let guard := backupGuard p.maxOpenPositions order openInstruments
        if !guard.1 then .ret (.inl ⟨.rejectedBackupGuard, some constructed, none, guard.2⟩)
        else .ret (.inr constructed)

/-- The gates of one approved order: a refusal, or what has passed them. -/
def gated (p : Pipeline) (order : ApprovedOrder) (entryPrice : PyVal)
    (openInstruments : List String) : Proc (PipelineI F) Exc (ProcessResult F ⊕ ConstructedOrder) :=
  if p.mode = .legacy then .ret (.inl (unbuilt .deferredLegacy []))
  else (anySeen (guardKeys order)).bind fun duplicate =>
    if duplicate then .ret (.inl (unbuilt .skippedDuplicate []))
    else (Proc.perform (I := PipelineI F) .clock).bind fun now =>
      if !isInSession now then .ret (.inl (unbuilt .rejectedOutOfSession []))
      else
        match buildOrder order entryPrice with
        | .error e =>
            if e.isa .invalidOrderError then .ret (.inl (unbuilt .rejectedInvalid e.msg))
            else .raise e
        | .ok constructed => p.lastGated order constructed openInstruments

/-- What a mode does behind the gates. -/
def settle (p : Pipeline) (order : ApprovedOrder) :
    ProcessResult F ⊕ ConstructedOrder → Proc (PipelineI F) Exc (ProcessResult F)
  | .inl refused => .ret refused
  | .inr constructed =>
      if p.shadow then .ret ⟨.shadow, some constructed, none, []⟩
      else p.submitAndRecord order constructed

theorem lastGates_eq (p : Pipeline) (order : ApprovedOrder) (constructed : ConstructedOrder)
    (openInstruments : List String) :
    p.lastGates order constructed openInstruments =
      (p.lastGated order constructed openInstruments).bind (p.settle (F := F) order) := by
  have hsettle : ∀ verdict : Bool × FString,
      (if !verdict.1 then
          Proc.ret (⟨.rejectedValidation, some constructed, none, verdict.2⟩ : ProcessResult F)
        else if !(backupGuard p.maxOpenPositions order openInstruments).1 then
          Proc.ret ⟨.rejectedBackupGuard, some constructed, none,
            (backupGuard p.maxOpenPositions order openInstruments).2⟩
        else if p.shadow then Proc.ret ⟨.shadow, some constructed, none, []⟩
        else p.submitAndRecord order constructed) =
      (if !verdict.1 then
          (Proc.ret (.inl ⟨.rejectedValidation, some constructed, none, verdict.2⟩) :
            Proc (PipelineI F) Exc (ProcessResult F ⊕ ConstructedOrder))
        else if !(backupGuard p.maxOpenPositions order openInstruments).1 then
          Proc.ret (.inl ⟨.rejectedBackupGuard, some constructed, none,
            (backupGuard p.maxOpenPositions order openInstruments).2⟩)
        else Proc.ret (.inr constructed)).bind (p.settle order) := by
    intro verdict
    split_ifs with hverdict hguard hshadow
    · rfl
    · rfl
    · rw [Proc.ret_bind, settle, if_pos hshadow]
    · rw [Proc.ret_bind, settle, if_neg hshadow]
  unfold lastGates lastGated
  cases p.hasValidate with
  | false => exact hsettle (true, [])
  | true =>
      rw [if_pos rfl, Proc.bind_assoc]
      exact congrArg (Proc.bind (Proc.perform (I := PipelineI F) (.validate constructed)))
        (funext hsettle)

/-- An order is processed by its gates and its mode. -/
theorem process_eq (p : Pipeline) (order : ApprovedOrder) (entryPrice : PyVal)
    (openInstruments : List String) :
    p.process order entryPrice openInstruments =
      (p.gated order entryPrice openInstruments).bind (p.settle (F := F) order) := by
  unfold process gated
  split_ifs with hlegacy
  · rfl
  · rw [Proc.bind_eq, Proc.bind_assoc]
    congr 1
    funext duplicate
    split_ifs with hduplicate
    · rfl
    · rw [Proc.bind_eq, Proc.bind_assoc]
      congr 1
      funext now
      split_ifs with hsession
      · rfl
      · cases buildOrder order entryPrice with
        | error e =>
            dsimp only
            split_ifs
            · rfl
            · rfl
        | ok constructed => exact lastGates_eq p order constructed openInstruments

/-- The calls of the gates. -/
def asks : PipelineCall F → Prop
  | .seen _ => True
  | .clock => True
  | .validate _ => True
  | _ => False

/-- The gates only ask, and the store for no keys but the order's. -/
theorem gated_only (hseen : ∀ key ∈ guardKeys order, P (.seen key)) (hclock : P .clock)
    (hvalidate : ∀ constructed, P (.validate constructed)) :
    (p.gated (F := F) order entryPrice openInstruments).Only P := by
  unfold gated
  split_ifs
  · exact trivial
  · refine (anySeen_only hseen).bind fun duplicate => ?_
    split_ifs
    · exact trivial
    · refine (Proc.along_perform hclock).bind fun now => ?_
      split_ifs
      · exact trivial
      · cases buildOrder order entryPrice with
        | error e =>
            dsimp only
            split_ifs
            · exact trivial
            · exact trivial
        | ok constructed =>
            refine Proc.Along.bind ?_ fun verdict => ?_
            · split_ifs
              · exact Proc.along_perform (hvalidate constructed)
              · exact trivial
            · dsimp only
              split_ifs
              · exact trivial
              · exact trivial
              · exact trivial

theorem gated_asks : (p.gated (F := F) order entryPrice openInstruments).Only asks :=
  gated_only (fun _ _ => trivial) trivial fun _ => trivial

/-- What the gates return where the store says yes only under a condition: a refusal is no
shadow order and no execution, and a duplicate under the condition alone; what has passed was
built from the order and its price. -/
def Passed (hit : Prop) (order : ApprovedOrder) (entryPrice : PyVal) :
    ProcessResult F ⊕ ConstructedOrder → Prop
  | .inl refused => refused.decision ≠ .shadow ∧ refused.decision ≠ .executed ∧
      (refused.decision = .skippedDuplicate → hit)
  | .inr constructed => buildOrder order entryPrice = .ok constructed

theorem gated_passed (hhit : ∀ key ∈ guardKeys order, allowed (.seen key) (.ok true) → hit) :
    (p.gated (F := F) order entryPrice openInstruments).Yields allowed
      (Passed hit order entryPrice) := by
  have hrefused : ∀ (decision : Decision) {constructed reason},
      decision ≠ .shadow ∧ decision ≠ .executed ∧ decision ≠ .skippedDuplicate →
      Passed (F := F) hit order entryPrice (.inl ⟨decision, constructed, none, reason⟩) :=
    fun _ _ _ h => ⟨h.1, h.2.1, fun hskipped => absurd hskipped h.2.2⟩
  unfold gated
  split_ifs
  · exact hrefused .deferredLegacy (by decide)
  · refine (anySeen_yields hhit).bind fun duplicate hduplicate => ?_
    split_ifs with hfound
    · exact ⟨Decision.noConfusion, Decision.noConfusion, fun _ => hduplicate hfound⟩
    · refine (Proc.yields_true _).bind fun now _ => ?_
      split_ifs
      · exact hrefused .rejectedOutOfSession (by decide)
      · cases hbuild : buildOrder order entryPrice with
        | error e =>
            dsimp only
            split_ifs
            · exact hrefused .rejectedInvalid (by decide)
            · exact trivial
        | ok constructed =>
            refine (Proc.yields_true _).bind fun verdict _ => ?_
            dsimp only
            split_ifs
            · exact hrefused .rejectedValidation (by decide)
            · exact hrefused .rejectedBackupGuard (by decide)
            · exact hbuild

/-- Whatever the store says, what has passed the gates was built from the order. -/
theorem gated_built : (p.gated (F := F) order entryPrice openInstruments).Yields allowed
    (Passed True order entryPrice) := gated_passed fun _ _ _ => trivial

end Pipeline

end System2
