import System2.Execution.TradeRecorder
import System2.Foundation.Transaction

/-!
# The recorder after a failed write

The recorder keeps one connection for the life of the process. A write that the database
rejects is logged, and its transaction stays aborted: the recorder never rolls back. So
the writes after it fail, too, whatever they are, and the recorder persists what it should
exactly if no acceptable write comes after a rejected one.

## Implementation notes

A commit on a connection whose statement was accepted succeeds. One that fails, as on a lost
connection, is left out.
-/

namespace System2
open Foundation

namespace TradeRecorder

/-- A PostgreSQL connection during one record, whose own write is accepted or not. -/
def pgWorld (accepted : Bool) : World RecorderI Exc (Connection KeyedTable) := fun s op =>
  match op with
  | .utcNowIso => fun r s' => r.isOk = true ∧ s' = s
  | .execute sql params => fun r s' =>
      (r.isOk, s') = s.execute accepted (sql.store params)
  | .commit => fun r s' => r.isOk = true ∧ s' = s.commit

/-- One call of `record` with its outcome: what it was given, whether the database accepts its
write, and the calls that it made. -/
structure Recorded where
  order : ConstructedOrder
  fill : FillResult
  accepted : Bool
  calls : List (Event RecorderI Exc)

/-- The records of a process on one connection. -/
inductive Session (r : TradeRecorder) :
    Connection KeyedTable → List Recorded → Connection KeyedTable → Prop
  | nil (s) : Session r s [] s
  | record {s s' s'' order fill accepted out calls rest}
      (exec : Exec (pgWorld accepted).traced (r.record order fill) (s, []) (some out) (s', calls))
      (tail : Session r s' rest s'') : Session r s (⟨order, fill, accepted, calls⟩ :: rest) s''

/-- The record gets as far as a write. -/
structure Writes (r : TradeRecorder) (order : ConstructedOrder) (fill : FillResult) : Prop where
  keyed : (r.columnOf "Order_ID").isSome = true
  units : order.units.toInt.isOk = true
  filled : fill.filledUnits.toInt.isOk = true

/-- A record with a write that is acceptable on its own. -/
def Acceptable (r : TradeRecorder) (a : Recorded) : Prop :=
  r.Writes a.order a.fill ∧ a.accepted = true

/-- A record whose write the database rejects. -/
def Rejected (r : TradeRecorder) (a : Recorded) : Prop :=
  r.Writes a.order a.fill ∧ a.accepted = false

/-- The row of an order has the values of a record, in the columns that exist. -/
def RowOf (r : TradeRecorder) (order : ConstructedOrder) (fill : FillResult) (t : KeyedTable) :
    Prop :=
  ∃ units filled now row, order.units.toInt = .ok units ∧ fill.filledUnits.toInt = .ok filled ∧
    t order.idempotencyKey = some row ∧
      ∀ name v, (name, v) ∈ candidate order fill units filled now → name ≠ "Order_ID" →
        ∀ col, r.columnOf name = some col → row.get col = v

/-- Every acceptable record is persisted, and the rows are those of the last ones. -/
structure Recovers (r : TradeRecorder) (records : List Recorded) (t : KeyedTable) : Prop where
  persisted : ∀ a ∈ records, r.Acceptable a → Written a.calls
  rows : ∀ before a after, records = before ++ a :: after → r.Acceptable a →
    (∀ later ∈ after, r.Acceptable later →
      later.order.idempotencyKey ≠ a.order.idempotencyKey) → r.RowOf a.order a.fill t

variable {r : TradeRecorder} {order : ConstructedOrder} {fill : FillResult} {accepted : Bool}
  {s s' : Connection KeyedTable} {calls : List (Event RecorderI Exc)}

/-! ### One record -/

/-- What a record does on a connection. -/
inductive Effect (r : TradeRecorder) (order : ConstructedOrder) (fill : FillResult)
    (accepted : Bool) (s : Connection KeyedTable) :
    Connection KeyedTable → List (Event RecorderI Exc) → Prop
  | nothing {made} (h : r.Writes order fill → s.aborted = true) (unwritten : ¬ Written made) :
      Effect r order fill accepted s s made
  | rejected {made} (writes : r.Writes order fill) (h : s.aborted = false)
      (haccepted : accepted = false) (unwritten : ¬ Written made) :
      Effect r order fill accepted s { s with aborted := true } made
  | stored {made t} (writes : r.Writes order fill) (h : s.aborted = false)
      (haccepted : accepted = true) (isWritten : Written made) (row : r.RowOf order fill t)
      (others : ∀ key, key ≠ order.idempotencyKey → t key = s.pending key) :
      Effect r order fill accepted s (.fresh t) made

theorem not_written_of_unwritten (h : Unwritten calls) : ¬ Written calls := by
  rintro ⟨⟨sql, params, hexecuted⟩, -⟩
  exact h sql params hexecuted

/-- The two calls of a write, on a row of the present columns. -/
theorem write_effect {units filled : ℤ} {now keyCol : String} {made : List (Event RecorderI Exc)}
    (hwrites : r.Writes order fill) (hunits : order.units.toInt = .ok units)
    (hfilled : fill.filledUnits.toInt = .ok filled) (hkey : r.columnOf "Order_ID" = some keyCol)
    (hmade : Unwritten made) :
    let row := r.present (candidate order fill units filled now)
    let sql := r.statement keyCol row
    wp (pgWorld accepted).traced
      ((perform (.execute sql (sql.params row))).bind fun _ => perform .commit)
      (fun _ w => Effect r order fill accepted s w.1 w.2) (s, made) := by
  intro row sql
  refine (wpc_bind _ _ _ _).mpr (wpc_of_perform trivial ?_)
  rintro result ⟨s₁, made₁⟩ ⟨hexecute, rfl⟩
  refine ⟨trivial, ?_⟩
  replace hexecute : (result.isOk, s₁) = s.execute accepted (sql.store (sql.params row)) := hexecute
  cases haborted : s.aborted with
  | true =>
      rw [Connection.execute_of_aborted haborted] at hexecute
      obtain ⟨hresult, rfl⟩ := Prod.mk.inj hexecute
      cases result with
      | ok _ => cases hresult
      | error e =>
          refine .nothing (fun _ => haborted) (not_written_of_unwritten ?_)
          exact hmade.call fun _ _ h => by cases h
  | false =>
      cases accepted with
      | false =>
          rw [Connection.execute_rejected haborted] at hexecute
          obtain ⟨hresult, rfl⟩ := Prod.mk.inj hexecute
          cases result with
          | ok _ => cases hresult
          | error e =>
              refine .rejected hwrites haborted rfl (not_written_of_unwritten ?_)
              exact hmade.call fun _ _ h => by cases h
      | true =>
          obtain ⟨hsucceeds, hcommit⟩ :=
            Connection.commit_execute haborted (sql.store (sql.params row))
          have hresult : result.isOk = true := (congrArg Prod.fst hexecute).trans hsucceeds
          have hcommitted : s₁.commit = .fresh (sql.store (sql.params row) s.pending) := by
            rw [← hcommit, ← hexecute]
          cases result with
          | error e => cases hresult
          | ok _ =>
              refine wpc_of_perform trivial ?_
              rintro committed ⟨s₂, made₂⟩ ⟨⟨hok, rfl⟩, rfl⟩
              refine ⟨trivial, ?_⟩
              obtain ⟨⟨stored, hstored, hsame⟩, hothers⟩ :=
                @store_present r order fill units filled now keyCol hkey s.pending
              dsimp only
              rw [hcommitted]
              refine .stored hwrites haborted rfl ?_
                ⟨units, filled, now, stored, hunits, hfilled, hstored, hsame⟩ hothers
              cases committed with
              | error e => cases hok
              | ok _ => exact ⟨⟨sql, sql.params row, by simp⟩, by simp⟩

/-- A record has one of these effects. -/
theorem record_effect {out : Except Exc Unit}
    (exec : Exec (pgWorld accepted).traced (r.record order fill) (s, []) (some out) (s', calls)) :
    Effect r order fill accepted s s' calls := by
  have hstart : Unwritten ([] : List (Event RecorderI Exc)) := fun _ _ h => nomatch h
  have hnothing : ∀ made, Unwritten made → ¬ r.Writes order fill →
      Effect r order fill accepted s s made :=
    fun made h hnot => .nothing (fun hwrites => (hnot hwrites).elim) (not_written_of_unwritten h)
  have hrecord : wp (pgWorld accepted).traced (r.record order fill)
      (fun _ w => Effect r order fill accepted s w.1 w.2) (s, []) := by
    simp only [record, Proc.bind_eq, wpc_bind, wpc_ofExcept]
    refine ⟨trivial, ?_⟩
    cases hunits : order.units.toInt with
    | error e =>
        refine hnothing [] hstart fun h => ?_
        have hread := h.units
        rw [hunits] at hread
        cases hread
    | ok units =>
        refine ⟨trivial, ?_⟩
        cases hfilled : fill.filledUnits.toInt with
        | error e =>
            refine hnothing [] hstart fun h => ?_
            have hread := h.filled
            rw [hfilled] at hread
            cases hread
        | ok filled =>
            refine wpc_of_perform trivial ?_
            rintro now ⟨s₁, made⟩ ⟨⟨hnow, hsame⟩, htrace⟩
            obtain rfl : s₁ = s := hsame
            obtain rfl : made = [⟨.utcNowIso, now⟩] := htrace
            have hmade : Unwritten [(⟨.utcNowIso, now⟩ : Event RecorderI Exc)] :=
              hstart.call fun _ _ h => by cases h
            refine ⟨trivial, ?_⟩
            cases now with
            | error e => cases hnow
            | ok now =>
                cases hkey : r.columnOf "Order_ID" with
                | none => exact ⟨trivial, hnothing _ hmade fun h => by simpa [hkey] using h.keyed⟩
                | some keyCol =>
                    have hrow : (r.present (candidate order fill units filled now)).isEmpty =
                        false := by
                      simp [present, candidate, hkey]
                    dsimp only
                    rw [hrow]
                    have hwrites : r.Writes order fill :=
                      ⟨by rw [hkey]; rfl, by rw [hunits]; rfl, by rw [hfilled]; rfl⟩
                    refine (wpc_bind _ _ _ _).mpr ((wpc_attempt _ _ _).mpr ?_)
                    exact wpc_post (write_effect hwrites hunits hfilled hkey hmade)
                      fun _ _ _ h => ⟨trivial, h⟩
  exact wp_sound exec hrecord

/-! ### The records of a process -/

/-- On an aborted connection nothing is written any more. -/
theorem session_aborted {records : List Recorded} (session : Session r s records s')
    (h : s.aborted = true) : ∀ a ∈ records, ¬ Written a.calls := by
  induction session with
  | nil => simp
  | record exec tail ih =>
      cases record_effect exec with
      | nothing _ hunwritten => exact List.forall_mem_cons.mpr ⟨hunwritten, ih h⟩
      | rejected _ hopen => cases h.symm.trans hopen
      | stored _ hopen => cases h.symm.trans hopen

/-- Between statements a connection holds what is committed, or is aborted. -/
def Settled (s : Connection KeyedTable) : Prop := s.aborted = true ∨ s.pending = s.committed

/-- A row stays as it is while no acceptable record has its key. -/
theorem session_keeps {records : List Recorded} (session : Session r s records s')
    (hs : Settled s) {key : String}
    (h : ∀ a ∈ records, r.Acceptable a → a.order.idempotencyKey ≠ key) :
    s'.committed key = s.committed key := by
  induction session with
  | nil => rfl
  | record exec tail ih =>
      obtain ⟨hfirst, hrest⟩ := List.forall_mem_cons.mp h
      cases record_effect exec with
      | nothing => exact ih hs hrest
      | rejected => exact ih (.inl rfl) hrest
      | stored hwrites hopen haccepted _ _ hothers =>
          have hpending := hs.resolve_left (by simp [hopen])
          have hkey := (hfirst ⟨hwrites, haccepted⟩).symm
          exact (ih (.inr rfl) hrest).trans ((hothers key hkey).trans (congrFun hpending key))

/-- Every acceptable record is written exactly if none comes after a rejected one. -/
theorem session_written_iff {records : List Recorded} (session : Session r s records s')
    (hs : s.aborted = false) : (∀ a ∈ records, r.Acceptable a → Written a.calls) ↔
      records.Pairwise fun a b => r.Rejected a → ¬ r.Acceptable b := by
  induction session with
  | nil => simp
  | @record s s₁ s'' order fill accepted out calls rest exec tail ih =>
      rw [List.forall_mem_cons, List.pairwise_cons]
      cases record_effect exec with
      | nothing hwrites _ =>
          have hnot : ¬ r.Writes order fill := fun h => by simp [hwrites h] at hs
          rw [ih hs]
          constructor
          · exact fun h => ⟨fun _ _ hrejected => (hnot hrejected.1).elim, h.2⟩
          · exact fun h => ⟨fun hacceptable => (hnot hacceptable.1).elim, h.2⟩
      | rejected hwrites _ haccepted _ =>
          have hnone := session_aborted tail rfl
          constructor
          · intro h
            have hrest : ∀ b ∈ rest, ¬ r.Acceptable b :=
              fun b hb hacceptable => hnone b hb (h.2 b hb hacceptable)
            refine ⟨fun b hb _ => hrest b hb, ?_⟩
            exact List.pairwise_of_forall_mem_list fun _ _ b hb _ => hrest b hb
          · intro h
            refine ⟨fun hacceptable => ?_, fun b hb hacceptable => ?_⟩
            · cases hacceptable.2.symm.trans haccepted
            · exact (h.1 b hb ⟨hwrites, haccepted⟩ hacceptable).elim
      | stored hwrites _ haccepted hwritten =>
          rw [ih rfl]
          constructor
          · intro h
            refine ⟨fun _ _ hrejected => ?_, h.2⟩
            cases haccepted.symm.trans hrejected.2
          · exact fun h => ⟨fun _ => hwritten, h.2⟩

/-- The row of the last acceptable record of an order, where every acceptable one was written. -/
theorem session_rows {records : List Recorded} (session : Session r s records s')
    (hs : Settled s) (hwritten : ∀ a ∈ records, r.Acceptable a → Written a.calls)
    {before after : List Recorded} {a : Recorded} (hsplit : records = before ++ a :: after)
    (hacceptable : r.Acceptable a)
    (hlast : ∀ later ∈ after, r.Acceptable later →
      later.order.idempotencyKey ≠ a.order.idempotencyKey) :
    r.RowOf a.order a.fill s'.committed := by
  induction session generalizing before with
  | nil => cases before <;> cases hsplit
  | @record s s₁ s'' order fill accepted out calls rest exec tail ih =>
      obtain ⟨hfirst, hrest⟩ := List.forall_mem_cons.mp hwritten
      have heffect := record_effect exec
      have hs₁ : Settled s₁ := by
        cases heffect with
        | nothing => exact hs
        | rejected => exact .inl rfl
        | stored => exact .inr rfl
      cases before with
      | cons first before =>
          obtain ⟨-, hsplit⟩ := List.cons.inj hsplit
          exact ih hs₁ hrest hsplit
      | nil =>
          obtain ⟨rfl, rfl⟩ := List.cons.inj hsplit
          cases heffect with
          | nothing _ hunwritten => exact (hunwritten (hfirst hacceptable)).elim
          | rejected _ _ _ hunwritten => exact (hunwritten (hfirst hacceptable)).elim
          | stored _ _ _ _ hrow =>
              obtain ⟨units, filled, now, row, hunits, hfilled, hstored, hsame⟩ := hrow
              refine ⟨units, filled, now, row, hunits, hfilled, ?_, hsame⟩
              exact (session_keeps tail hs₁ hlast).trans hstored

/-- The recorder recovers exactly if no acceptable record comes after a rejected one. -/
theorem recovers_iff {t : KeyedTable} {records : List Recorded}
    (session : Session r (.fresh t) records s') :
    r.Recovers records s'.committed ↔
      records.Pairwise fun a b => r.Rejected a → ¬ r.Acceptable b := by
  rw [← session_written_iff session rfl]
  constructor
  · exact fun h => h.persisted
  · intro hwritten
    constructor
    · exact hwritten
    · exact fun before a after hsplit hacceptable hlast =>
        session_rows session (.inr rfl) hwritten hsplit hacceptable hlast

/-! ### Runs -/

/-- The connection as an environment, with one error for every statement that fails. -/
def pgEnv (accepted : Bool) (now : String) (op : RecorderCall) (s : Connection KeyedTable) :
    Except Exc op.Ans × Connection KeyedTable :=
  match op with
  | .utcNowIso => (.ok now, s)
  | .execute sql params =>
      (if (s.execute accepted (sql.store params)).1 then .ok ()
        else .error ⟨.other "DatabaseError", []⟩, (s.execute accepted (sql.store params)).2)
  | .commit => (.ok (), s.commit)

theorem pgEnv_step (accepted : Bool) (now : String) (op : RecorderCall)
    (s : Connection KeyedTable) :
    pgWorld accepted s op (pgEnv accepted now op s).1 (pgEnv accepted now op s).2 := by
  cases op with
  | utcNowIso => exact ⟨rfl, rfl⟩
  | commit => exact ⟨rfl, rfl⟩
  | execute sql params =>
      simp only [pgWorld, pgEnv]
      cases hsucceeds : (s.execute accepted (sql.store params)).1 with
      | true => exact Prod.ext hsucceeds.symm rfl
      | false => exact Prod.ext hsucceeds.symm rfl

/-- Any records can be made, with any of their writes accepted. -/
theorem session_exists (r : TradeRecorder) (s : Connection KeyedTable)
    (inputs : List (ConstructedOrder × FillResult × Bool)) :
    ∃ records s', Session r s records s' ∧
      records.map (fun a => (a.order, a.fill, a.accepted)) = inputs := by
  induction inputs generalizing s with
  | nil => exact ⟨[], s, .nil s, rfl⟩
  | cons input rest ih =>
      obtain ⟨order, fill, accepted⟩ := input
      have exec := exec_run (World.recording_step (pgEnv_step accepted "now"))
        (r.record order fill) (s, [])
      obtain ⟨records, s', tail, hinputs⟩ :=
        ih ((r.record order fill).run (World.recording (pgEnv accepted "now")) (s, [])).2.1
      exact ⟨_, s', .record exec tail, by rw [List.map_cons, hinputs]⟩

theorem sample_writes {c : ConstructedOrder} (hc : c.units.toInt.isOk = true) :
    migrated.Writes c closedFill where
  keyed := by decide +kernel
  units := hc
  filled := by decide +kernel

/-- Two records of the sample order under two ids, the first rejected or not. -/
theorem sample_session (first second : Bool) :
    ∃ (a b : Recorded) (s' : Connection KeyedTable),
      Session migrated (.fresh fun _ => none) [a, b] s' ∧
        (migrated.Writes a.order a.fill ∧ a.accepted = first) ∧
        migrated.Writes b.order b.fill ∧ b.accepted = second := by
  obtain ⟨c, units, -, hunits⟩ := sample_built
  have hc : c.units.toInt.isOk = true := by
    rw [hunits]
    rfl
  obtain ⟨records, s', session, hinputs⟩ := session_exists migrated (.fresh fun _ => none)
    [(c, closedFill, first), ({ c with idempotencyKey := "b" }, closedFill, second)]
  obtain ⟨a, rest, rfl, ha, hrest⟩ := List.map_eq_cons_iff.mp hinputs
  obtain ⟨b, none', rfl, hb, hnone⟩ := List.map_eq_cons_iff.mp hrest
  obtain rfl := List.map_eq_nil_iff.mp hnone
  obtain ⟨horder, hfill, haccepted⟩ :
      a.order = c ∧ a.fill = closedFill ∧ a.accepted = first := by simpa using ha
  obtain ⟨horder', hfill', haccepted'⟩ :
      b.order = { c with idempotencyKey := "b" } ∧ b.fill = closedFill ∧ b.accepted = second := by
    simpa using hb
  refine ⟨a, b, s', session, ⟨?_, haccepted⟩, ?_, haccepted'⟩
  · rw [horder, hfill]
    exact sample_writes hc
  · rw [horder', hfill']
    exact sample_writes hc

/-- A rejected write, and an acceptable one of another order after it, which is lost. -/
theorem record_after_failure_lost :
    ¬ ∀ (r : TradeRecorder) (t : KeyedTable) (records : List Recorded)
      (s' : Connection KeyedTable), Session r (.fresh t) records s' →
        r.Recovers records s'.committed := by
  intro h
  obtain ⟨a, b, s', session, hrejected, hacceptable⟩ := sample_session false true
  have hpairwise : [a, b].Pairwise fun a b => migrated.Rejected a → ¬ migrated.Acceptable b := by
    rw [← session_written_iff session rfl]
    exact (h _ _ _ _ session).persisted
  exact (List.pairwise_cons.mp hpairwise).1 b (by simp) hrejected hacceptable

/-- A rejected write that is the last one does no harm. -/
theorem recovers_iff_last_rejected : ∃ (a b : Recorded) (s' : Connection KeyedTable),
    migrated.Acceptable a ∧ migrated.Rejected b ∧ migrated.Recovers [a, b] s'.committed := by
  obtain ⟨a, b, s', session, hacceptable, hrejected⟩ := sample_session true false
  refine ⟨a, b, s', hacceptable, hrejected, (recovers_iff session).mpr ?_⟩
  refine List.pairwise_cons.mpr ⟨fun later hlater hfailed => ?_, List.pairwise_singleton _ _⟩
  cases hacceptable.2.symm.trans hfailed.2

end TradeRecorder

end System2
