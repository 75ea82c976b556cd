import System2.Common.QueueBackend

/-!
# The ids of the leases

A lease gives its row a fresh id. While rows get ids only in this way, an id
names at most one row, whatever else happens to the rows.
-/

namespace System2
open Foundation

namespace QueueFile

variable {f f' : QueueFile} {id : String}

/-- Every id on a row was drawn, and no two rows have the same. -/
structure IdsOk (f : QueueFile) : Prop where
  drawn : ∀ k row id, f.table.get? k = some row → row.ackId = some id → id ∈ f.drawn
  unique : ∀ k row k' row' id, f.table.get? k = some row → f.table.get? k' = some row' →
    row.ackId = some id → row'.ackId = some id → k = k'

/-- An id that was drawn and is on no row yet. -/
structure Unused (f : QueueFile) (id : String) : Prop where
  drawn : id ∈ f.drawn
  absent : ∀ k row, f.table.get? k = some row → row.ackId ≠ some id

/-- No row of `f'` has an id that it did not have in `f`. -/
def NoNewIds (f f' : QueueFile) : Prop := ∀ k row id, f'.table.get? k = some row →
  row.ackId = some id → ∃ old, f.table.get? k = some old ∧ old.ackId = some id

theorem IdsOk.of_noNewIds (h : f.IdsOk) (hnew : NoNewIds f f') (hdrawn : ∀ id ∈ f.drawn, id ∈ f'.drawn) :
    f'.IdsOk where
  drawn := by
    intro k row id hk hid
    obtain ⟨old, hold, holdid⟩ := hnew k row id hk hid
    exact hdrawn id (h.drawn k old id hold holdid)
  unique := by
    intro k row k' row' id hk hk' hid hid'
    obtain ⟨old, hold, holdid⟩ := hnew k row id hk hid
    obtain ⟨old', hold', holdid'⟩ := hnew k' row' id hk' hid'
    exact h.unique k old k' old' id hold hold' holdid holdid'

/-- Is this call a lease? Only leases give a row an id. -/
def isLease : QueueCall → Bool
  | .lease _ _ _ _ => true
  | _ => false

/-- Every other statement gives out no ids. -/
theorem noNewIds_after {o : QueueCall} (hop : isLease o = false) (dbNow : Binary64)
    (drawn : List String) : NoNewIds f ⟨o.after dbNow f.table, drawn⟩ := by
  intro k row' id hk' hid
  rcases QueueCall.of_after hk' with ⟨row, hk, hleft⟩ | ⟨topic, body, rfl, -, rfl⟩
  swap
  · cases hid
  refine ⟨row, hk, ?_⟩
  cases hleft with
  | leased => cases hop
  | reclaimed => cases hid
  | released => cases hid
  | kept => exact hid
  | claimed => exact hid
  | done => exact hid
  | dead => exact hid

theorem noNewIds_insert {topic : String} {body : RowBody} {drawn : List String} :
    NoNewIds f ⟨f.table.insert (.inserted topic body), drawn⟩ :=
  noNewIds_after (o := .insert topic body) rfl .zero drawn

/-- A lease puts its id on the leased row alone. -/
theorem ackId_of_lease {seq : ℕ} {ackId owner : String} {leaseSec dbNow : Binary64}
    {k : ℕ} {row : QueueRow} {id : String}
    (hk : ((QueueCall.lease seq ackId owner leaseSec).after dbNow f.table).get? k = some row)
    (hid : row.ackId = some id) :
    (∃ old, f.table.get? k = some old ∧ old.ackId = some id) ∨ (k = seq ∧ id = ackId) := by
  rcases QueueCall.of_after hk with ⟨old, hold, hleft⟩ | ⟨topic, body, hinsert, -⟩
  · cases hleft with
    | kept => exact Or.inl ⟨row, hold, hid⟩
    | leased => exact Or.inr ⟨rfl, (Option.some.inj hid).symm⟩
  · cases hinsert

/-- A lease under an unused id keeps ids unique. -/
theorem IdsOk.lease {seq : ℕ} {ackId owner : String} {leaseSec dbNow : Binary64} (h : f.IdsOk)
    (hunused : f.Unused ackId) :
    IdsOk ⟨(QueueCall.lease seq ackId owner leaseSec).after dbNow f.table, f.drawn⟩ where
  drawn := by
    intro k row id hk hid
    rcases ackId_of_lease hk hid with ⟨old, hold, holdid⟩ | ⟨-, rfl⟩
    · exact h.drawn k old id hold holdid
    · exact hunused.drawn
  unique := by
    intro k row k' row' id hk hk' hid hid'
    rcases ackId_of_lease hk hid with ⟨old, hold, holdid⟩ | ⟨rfl, rfl⟩
    · rcases ackId_of_lease hk' hid' with ⟨old', hold', holdid'⟩ | ⟨-, rfl⟩
      · exact h.unique k old k' old' id hold hold' holdid holdid'
      · exact absurd holdid (hunused.absent k old hold)
    · rcases ackId_of_lease hk' hid' with ⟨old', hold', holdid'⟩ | ⟨rfl, -⟩
      · exact absurd holdid' (hunused.absent k' old' hold')
      · rfl

/-- A freshly drawn id is on no row. -/
theorem IdsOk.unused (h : f.IdsOk) (hid : id ∉ f.drawn) : Unused ⟨f.table, id :: f.drawn⟩ id where
  drawn := List.mem_cons_self
  absent := fun k row hk hrow => hid (h.drawn k row id hk hrow)

end QueueFile

end System2
