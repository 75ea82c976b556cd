import System2.Common.Errors
import System2.Foundation.Sharing

/-!
# The columns of the queue table (`common/queue_backend.py`)

Three components share one queue file, and whichever opened it first made its table, be it
without the columns that came later. A backend that opens the file adds what it finds
missing, statement by statement, while the others do the same. A refused `ALTER` is passed
over: a peer was faster. It is passed over as well when the database was locked.

## Implementation notes

The state is the list of the columns, empty without a table. The peers run any statements on
the table but those that need a column, as no component drops one.
-/

namespace System2
open Foundation

inductive SchemaCall
  | journalMode
  | createTable (columns : List String)
  | tableInfo
  | addColumn (name decl : String)
  /-- A statement that names a column, as the `SELECT` of `reclaim` does. -/
  | uses (name : String)

abbrev SchemaCall.Ans : SchemaCall → Type
  | .tableInfo => List String
  | _ => Unit

abbrev SchemaI : Interface := ⟨SchemaCall, SchemaCall.Ans⟩

/-! ### The constructor -/

namespace LocalDurableBackend

abbrev statement (op : SchemaCall) : Proc SchemaI Exc op.Ans := Proc.perform (I := SchemaI) op

/-- The class of the errors that are passed over. -/
def operationalError : ExcClass := .other "OperationalError"

/-- The `ALTER` of a column that was not listed. -/
def addColumn (cols : List String) (name decl : String) : Proc SchemaI Exc Unit :=
  if cols.contains name then return ()
  else do
    match ← (statement (.addColumn name decl)).attempt with
    | .ok _ => return ()
    | .error e => if e.isa operationalError then return () else .raise e

/-- `_add_lease_columns`. -/
def addLeaseColumns : Proc SchemaI Exc Unit := do
  let cols ← statement .tableInfo
  addColumn cols "leased_until" "REAL NOT NULL DEFAULT 0"
  addColumn cols "lease_owner" "TEXT"

/-- `_add_done_at_column`. -/
def addDoneAtColumn : Proc SchemaI Exc Unit := do
  let cols ← statement .tableInfo
  addColumn cols "done_at" "REAL"

/-- The columns of a table that the backend makes. -/
def queueColumns : List String :=
  ["seq", "topic", "body", "state", "attempts", "available_at", "ack_id", "leased_until",
    "lease_owner", "done_at"]

/-- What the constructor does with its connection. -/
def openSchema : Proc SchemaI Exc Unit := do
  statement .journalMode
  statement (.createTable queueColumns)
  addLeaseColumns
  addDoneAtColumn

/-- The columns that came later. -/
def laterColumns : List String := ["leased_until", "lease_owner", "done_at"]

end LocalDurableBackend

/-! ### SQLite -/

namespace SchemaCall

def operational (msg : FString) : Exc := ⟨LocalDurableBackend.operationalError, msg⟩

def locked : Exc := operational [.lit "database is locked"]

/-- Why the database refuses a statement. -/
def refusal (cols : List String) : SchemaCall → Option Exc
  | .addColumn name _ =>
      if cols = [] then some (operational [.lit "no such table: queue"])
      else if cols.contains name then some (operational [.lit "duplicate column name: ", .lit name])
      else none
  | .uses name =>
      if cols.contains name then none else some (operational [.lit "no such column: ", .lit name])
  | _ => none

def answer (cols : List String) : (op : SchemaCall) → op.Ans
  | .tableInfo => cols
  | .journalMode | .createTable _ | .addColumn _ _ | .uses _ => ()

/-- The columns after a statement that was taken. -/
def after (cols : List String) : SchemaCall → List String
  | .createTable columns => if cols = [] then columns else cols
  | .addColumn name _ => cols ++ [name]
  | _ => cols

end SchemaCall

/-- Any statement may meet a lock. -/
def schemaWorld : World SchemaI Exc (List String) := fun cols op r cols' =>
  (r = .error SchemaCall.locked ∧ cols' = cols) ∨
    match op.refusal cols with
    | some e => r = .error e ∧ cols' = cols
    | none => r = .ok (op.answer cols) ∧ cols' = op.after cols

/-! ### The components -/

/-- What a component does on the file: a backend uses a column after its constructor, and a
peer does what needs none. -/
inductive SchemaUser {ι : Type} : ι → List (Happened ι SchemaI Exc (List String)) →
    Proc SchemaI Exc Unit → Prop
  | engine {i log c} (hc : c ∈ LocalDurableBackend.laterColumns) :
      SchemaUser i log (LocalDurableBackend.openSchema.bind fun _ =>
        LocalDurableBackend.statement (.uses c))
  | peer {i log p} (hp : p.Only fun op : SchemaCall => ∀ c, op ≠ .uses c) : SchemaUser i log p

/-- What a record says about a column: it was listed, or its `ALTER` was tried. -/
def Settled (t : List (Event SchemaI Exc)) (c : String) : Prop :=
  (∃ cols, ⟨.tableInfo, .ok cols⟩ ∈ t ∧ c ∈ (cols : List String)) ∨
    ∃ decl r, ⟨.addColumn c decl, r⟩ ∈ t

/-- A column is used when it was settled. -/
def schemaProtocol {ι : Type} : Protocol ι SchemaI Exc (List String) := fun _ t op =>
  match op with
  | .uses c => Settled t c
  | _ => True

variable {ι : Type} {log : List (Happened ι SchemaI Exc (List String))}
  {t : List (Event SchemaI Exc)} {c : String} {cols cols' : List String}

theorem Settled.append (h : Settled t c) (t' : List (Event SchemaI Exc)) : Settled (t ++ t') c := by
  rcases h with ⟨cols, hmem, hc⟩ | ⟨decl, r, hmem⟩
  · exact Or.inl ⟨cols, List.mem_append_left t' hmem, hc⟩
  · exact Or.inr ⟨decl, r, List.mem_append_left t' hmem⟩

theorem schemaProtocol_monotone : (schemaProtocol (ι := ι)).Monotone :=
  fun _ _ _ _ h => h

namespace LocalDurableBackend

/-- An `ALTER`, tried or not needed, settles its column. -/
theorem wpc_addColumn {name decl : String} (hkept : schemaProtocol.Kept log t)
    (hlisted : ⟨.tableInfo, .ok cols⟩ ∈ t) :
    wpc World.free (schemaProtocol.Kept log) (addColumn cols name decl)
      (fun _ t' => (∃ u, t' = t ++ u) ∧ Settled t' name) t := by
  unfold addColumn
  split_ifs with hthere
  · have hc : name ∈ cols := List.contains_iff_mem.mp hthere
    exact ⟨hkept, ⟨[], (List.append_nil t).symm⟩, Or.inl ⟨cols, hlisted, hc⟩⟩
  · simp only [Proc.bind_eq, Proc.pure_eq]
    have hcall : wpc World.free (schemaProtocol.Kept log) (statement (.addColumn name decl))
        (fun r t' => t' = t ++ [⟨.addColumn name decl, r⟩]) t :=
      Protocol.wpc_allowed hkept trivial fun _ => rfl
    refine wpc_seq_attempt hcall ?_
    rintro r _ hkept' rfl
    have htried : Settled (t ++ [⟨.addColumn name decl, r⟩]) name :=
      Or.inr ⟨decl, r, List.mem_append_right t (List.mem_singleton_self _)⟩
    cases r with
    | ok a => exact ⟨hkept', ⟨_, rfl⟩, htried⟩
    | error e =>
        dsimp only
        split_ifs
        · exact ⟨hkept', ⟨_, rfl⟩, htried⟩
        · exact ⟨hkept', ⟨_, rfl⟩, htried⟩

theorem wpc_addLeaseColumns (hkept : schemaProtocol.Kept log t) :
    wpc World.free (schemaProtocol.Kept log) addLeaseColumns
      (fun r t' => (∃ u, t' = t ++ u) ∧
        (r.isOk = true → Settled t' "leased_until" ∧ Settled t' "lease_owner")) t := by
  refine Protocol.wpc_allowed_bind hkept trivial ?_ fun e => ⟨⟨_, rfl⟩, fun h => by cases h⟩
  intro cols hkept₁
  have hlisted : ⟨.tableInfo, .ok cols⟩ ∈ t ++ [⟨.tableInfo, .ok cols⟩] :=
    List.mem_append_right t (List.mem_singleton_self _)
  refine wpc_seq (wpc_addColumn hkept₁ hlisted) ?_ ?_
  · rintro a _ hkept₂ ⟨⟨u, rfl⟩, huntil⟩
    refine wpc_mono (wpc_addColumn hkept₂ (List.mem_append_left u hlisted)) (fun _ h => h) ?_
    rintro r _ - ⟨⟨v, rfl⟩, howner⟩
    exact ⟨⟨_, by simp only [List.append_assoc]; rfl⟩, fun _ => ⟨huntil.append v, howner⟩⟩
  · rintro e _ - ⟨⟨u, rfl⟩, -⟩
    exact ⟨⟨_, List.append_assoc t _ u⟩, fun h => by cases h⟩

theorem wpc_addDoneAtColumn (hkept : schemaProtocol.Kept log t) :
    wpc World.free (schemaProtocol.Kept log) addDoneAtColumn
      (fun r t' => (∃ u, t' = t ++ u) ∧ (r.isOk = true → Settled t' "done_at")) t := by
  refine Protocol.wpc_allowed_bind hkept trivial ?_ fun e => ⟨⟨_, rfl⟩, fun h => by cases h⟩
  intro cols hkept₁
  refine wpc_mono (wpc_addColumn hkept₁ (List.mem_append_right t (List.mem_singleton_self _)))
    (fun _ h => h) ?_
  rintro r _ - ⟨⟨u, rfl⟩, hdone⟩
  exact ⟨⟨_, List.append_assoc t _ u⟩, fun _ => hdone⟩

/-- A constructor that gets through has settled every later column. -/
theorem wpc_openSchema (hkept : schemaProtocol.Kept log t) :
    wpc World.free (schemaProtocol.Kept log) openSchema
      (fun r t' => r.isOk = true → ∀ c ∈ laterColumns, Settled t' c) t := by
  refine Protocol.wpc_allowed_bind hkept trivial ?_ fun e h => by cases h
  intro _ hkept₁
  refine Protocol.wpc_allowed_bind hkept₁ trivial ?_ fun e h => by cases h
  intro _ hkept₂
  refine wpc_seq (wpc_addLeaseColumns hkept₂) ?_ fun e _ _ _ h => by cases h
  rintro a _ hkept₃ ⟨⟨u, rfl⟩, hlease⟩
  obtain ⟨huntil, howner⟩ := hlease rfl
  refine wpc_mono (wpc_addDoneAtColumn hkept₃) (fun _ h => h) ?_
  rintro r _ - ⟨⟨v, rfl⟩, hdone⟩ hok c hc
  simp only [laterColumns, List.mem_cons, List.not_mem_nil, or_false] at hc
  rcases hc with rfl | rfl | rfl
  · exact huntil.append v
  · exact howner.append v
  · exact hdone hok

end LocalDurableBackend

/-- What a component does follows the protocol. -/
theorem SchemaUser.follows {i : ι} {p : Proc SchemaI Exc Unit} (h : SchemaUser i log p)
    (hkept : schemaProtocol.Kept log t) : schemaProtocol.Follows log p t := by
  cases h with
  | @engine c hc =>
      refine wpc_seq (LocalDurableBackend.wpc_openSchema hkept) ?_ fun _ _ _ _ => trivial
      intro a t' hkept' hsettled
      exact Protocol.wpc_allowed hkept' (hsettled rfl c hc) fun _ => trivial
  | peer hp =>
      refine Protocol.wpc_kept_of_only hp (fun t op hop => ?_) hkept
      cases op with
      | uses c => exact absurd rfl (hop c)
      | _ => exact trivial

/-! ### Columns stay -/

theorem step_columns {op : SchemaCall} {r : Except Exc op.Ans} (h : schemaWorld cols op r cols')
    (hc : c ∈ cols) : c ∈ cols' := by
  rcases h with ⟨-, rfl⟩ | h
  · exact hc
  · split at h
    · obtain ⟨-, rfl⟩ := h
      exact hc
    · obtain ⟨-, rfl⟩ := h
      cases op with
      | createTable columns =>
          change c ∈ if cols = [] then columns else cols
          rwa [if_neg (List.ne_nil_of_mem hc)]
      | addColumn name decl => exact List.mem_append_left [name] hc
      | _ => exact hc

variable [DecidableEq ι]

/-- A column that is there after some statement of a history stays. -/
theorem columns_kept {P : Protocol ι SchemaI Exc (List String)} {s₀ : List String}
    (history : History schemaWorld P s₀ log cols) :
    ∀ g ∈ log, c ∈ g.after → c ∈ cols := by
  induction history with
  | start => exact fun g hg => absurd hg List.not_mem_nil
  | @call log s i op r s' history hop step ih =>
      intro g hg hc
      rcases List.mem_append.mp hg with hbefore | hlast
      · exact step_columns step (ih g hbefore hc)
      · obtain rfl := List.mem_singleton.mp hlast
        exact hc

/-- A column that was settled is there, or its `ALTER` was refused although it was not. -/
theorem columns_of_settled {i : ι} {s₀ : List String}
    (history : History schemaWorld schemaProtocol s₀ log cols) (h : Settled (own i log) c) :
    c ∈ cols ∨ ∃ g ∈ log, g.who = i ∧ (∃ decl, g.op = .addColumn c decl) ∧
      g.answer.isOk = false ∧ c ∉ g.before := by
  have hstep : ∀ g ∈ log, schemaWorld g.before g.op g.answer g.after := by
    intro g hg
    obtain ⟨pre, post, hlog⟩ := List.append_of_mem hg
    exact (history.split pre g post hlog).2.2
  rcases h with ⟨listed, hmem, hc⟩ | ⟨decl, r, hmem⟩
  · obtain ⟨g, hg, -, hevent⟩ := mem_own_iff.mp hmem
    refine Or.inl (columns_kept history g hg ?_)
    have step := hstep g hg
    obtain ⟨who, op, answer, before, after⟩ := g
    obtain ⟨rfl, hanswer⟩ := Sigma.mk.inj hevent
    obtain rfl := eq_of_heq hanswer
    rcases step with ⟨hlocked, -⟩ | ⟨hanswer, hafter⟩
    · cases hlocked
    · rw [Except.ok.inj hanswer] at hc
      exact hafter ▸ hc
  · obtain ⟨g, hg, hwho, hevent⟩ := mem_own_iff.mp hmem
    have step := hstep g hg
    obtain ⟨who, op, answer, before, after⟩ := g
    obtain ⟨rfl, -⟩ := Sigma.mk.inj hevent
    by_cases hthere : c ∈ after
    · exact Or.inl (columns_kept history _ hg hthere)
    · refine Or.inr ⟨_, hg, hwho, ⟨decl, rfl⟩, ?_, fun hc => hthere (step_columns step hc)⟩
      -- A statement that is taken adds the column, so this one was refused.
      rcases step with ⟨hlocked, -⟩ | step
      · rw [hlocked]
        rfl
      · split at step
        · rw [step.1]
          rfl
        · have hadded : after = before ++ [c] := step.2
          exact absurd (hadded ▸ List.mem_append_right before (List.mem_singleton_self c)) hthere

/-- However the components take turns on the file, and wherever they die: a backend that got
through its constructor finds each of the later columns, and a statement on it meets nothing
but a lock, unless the backend's own `ALTER` for the column was refused while the column was
not there. -/
theorem later_columns_there {s₀ : List String} {pool : Pool ι SchemaI Exc (List String)}
    (reaches : Pool.Reaches schemaWorld SchemaUser (.idle s₀) pool)
    (pre post : List (Happened ι SchemaI Exc (List String))) (i : ι) (r : Except Exc Unit)
    (hlog : pool.log = pre ++ ⟨i, .uses c, r, cols, cols'⟩ :: post) :
    (c ∈ cols ∧ (r = .ok () ∨ r = .error SchemaCall.locked)) ∨
      ∃ g ∈ pre, g.who = i ∧ (∃ decl, g.op = .addColumn c decl) ∧ g.answer.isOk = false ∧
        c ∉ g.before := by
  have history := reaches.history schemaProtocol_monotone fun i log p t h => h.follows
  obtain ⟨hbefore, hsettled, step⟩ := history.split pre _ post hlog
  refine (columns_of_settled hbefore hsettled).imp (fun hc => ⟨hc, ?_⟩) id
  rcases step with ⟨hlocked, -⟩ | step
  · exact Or.inr hlocked
  · have hgranted : SchemaCall.refusal cols (.uses c) = none :=
      if_pos (List.contains_iff_mem.mpr hc)
    dsimp only at step
    rw [hgranted] at step
    exact Or.inl step.1

/-! ### Two backends on an old file -/

/-- A database that is never locked. -/
def unlocked (op : SchemaCall) (cols : List String) : Except Exc op.Ans × List String :=
  match op.refusal cols with
  | some e => (.error e, cols)
  | none => (.ok (op.answer cols), op.after cols)

theorem unlocked_step (op : SchemaCall) (cols : List String) :
    schemaWorld cols op (unlocked op cols).1 (unlocked op cols).2 := by
  unfold unlocked
  refine Or.inr ?_
  cases h : op.refusal cols with
  | some e => exact ⟨rfl, rfl⟩
  | none => exact ⟨rfl, rfl⟩

/-- Two backends on an old table, each of which is to use a column. -/
def bothStarted : Pool ℕ SchemaI Exc (List String) :=
  let user := LocalDurableBackend.openSchema.bind fun _ =>
    LocalDurableBackend.statement (.uses "leased_until")
  ((Pool.idle ["seq", "topic"]).starting 1 user).starting 2 user

/-- Both list the columns, the second one is slower with its `ALTER`, and then it is about to
use the column. -/
def raced : Pool ℕ SchemaI Exc (List String) :=
  (((bothStarted.calls unlocked 1 3).calls unlocked 2 3).calls unlocked 1 1).calls unlocked 2 4

def nextUse (pool : Pool ℕ SchemaI Exc (List String)) : Option String :=
  match pool.running 2 with
  | some (.call (.uses c) _) => some c
  | _ => none

theorem later_columns_there_raced : nextUse raced = some "leased_until" ∧
    ("leased_until" ∈ raced.shared ∨ ∃ g ∈ raced.log, g.who = 2 ∧
      (∃ decl, g.op = .addColumn "leased_until" decl) ∧ g.answer.isOk = false ∧
        "leased_until" ∉ g.before) := by
  have huser : ∀ i log, SchemaUser (ι := ℕ) i log
      (LocalDurableBackend.openSchema.bind fun _ =>
        LocalDurableBackend.statement (.uses "leased_until")) :=
    fun _ _ => .engine (by decide)
  have hstarted : Pool.Reaches schemaWorld SchemaUser (.idle ["seq", "topic"]) bothStarted :=
    (Pool.Reaches.refl.starting rfl (huser 1 [])).starting rfl (huser 2 [])
  have hfirst : Pool.Reaches schemaWorld SchemaUser (.idle ["seq", "topic"])
      ((bothStarted.calls unlocked 1 3).calls unlocked 2 3) :=
    (hstarted.calls unlocked_step 3).calls unlocked_step 3
  have hreach : Pool.Reaches schemaWorld SchemaUser (.idle ["seq", "topic"]) raced :=
    (hfirst.calls unlocked_step 1).calls unlocked_step 4
  have hnext : nextUse raced = some "leased_until" := by decide +kernel
  refine ⟨hnext, ?_⟩
  generalize raced = pool at hreach hnext
  unfold nextUse at hnext
  split at hnext
  · rename_i c next hrunning
    obtain rfl : c = "leased_until" := Option.some.inj hnext
    have hend := later_columns_there (.step hreach (.call hrunning (Or.inl ⟨rfl, rfl⟩)))
      pool.log [] 2 _ rfl
    exact hend.imp And.left id
  · cases hnext

end System2
