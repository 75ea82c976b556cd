import System2.Broker.FillReported
import Mathlib.Data.Multiset.Lattice

/-!
# The order of the verdicts on a prior submission

The scan of the transactions depends on their order in its state only. Each transaction
is evidence for one kind of verdict, the kinds are ordered by how much was seen, and the
verdict is the strongest evidence. So it is a function of the set of the transactions
that carry the id, and more transactions never weaken it.

## Implementation notes

A scan raises on the first transaction whose client extensions are no object. That too
does not depend on the order.
-/

namespace System2
open Foundation

/-- The verdicts without the transaction of a fill. -/
inductive VerdictKind
  | absent | pending | unfilled | filled
  deriving DecidableEq

namespace VerdictKind

/-- How much was seen of an order. -/
def rank : VerdictKind → ℕ
  | absent => 0
  | pending => 1
  | unfilled => 2
  | filled => 3

theorem rank_injective : Function.Injective rank := by
  intro a b h
  cases a <;> cases b <;> first | rfl | cases h

instance : LinearOrder VerdictKind := LinearOrder.lift' rank rank_injective

instance : OrderBot VerdictKind where
  bot := absent
  bot_le := fun a => Nat.zero_le a.rank

theorem le_filled (a : VerdictKind) : a ≤ filled := by
  cases a <;> decide

theorem le_absent_iff {a : VerdictKind} : a ≤ absent ↔ a = absent := le_bot_iff

end VerdictKind

def PriorVerdict.kind : PriorVerdict → VerdictKind
  | .filled _ => .filled
  | .unfilled => .unfilled
  | .pending => .pending
  | .absent => .absent

namespace OandaAdapter

/-- What one transaction is evidence of, for a client order id. -/
def evidence (cid : String) (txn : Dict) : VerdictKind :=
  if carries cid txn then
    if transactionType txn = "ORDER_FILL" then .filled
    else if transactionType txn = "ORDER_CANCEL" || (transactionType txn).endsWith "_REJECT" then
      .unfilled
    else .pending
  else .absent

theorem evidence_eq_filled_iff {cid : String} {txn : Dict} :
    evidence cid txn = .filled ↔ isFillOf cid txn = true := by
  unfold evidence isFillOf
  split_ifs <;> simp_all

theorem evidence_of_foreign {cid : String} {txn : Dict} {id : Option String}
    (h : transactionClientOrderId txn = .ok id) (hid : id ≠ some cid) :
    evidence cid txn = .absent := by
  rw [evidence, carries_of_id h, if_neg (by simpa using hid)]

/-! ### The scan -/

/-- The verdict on what was seen, by the three kinds of things. -/
theorem kind_verdict (s : Sightings) : s.verdict.kind =
    (if s.fill.isSome then VerdictKind.filled else ⊥) ⊔
      ((if s.sawTerminal then VerdictKind.unfilled else ⊥) ⊔
        (if s.sawOrder then VerdictKind.pending else ⊥)) := by
  obtain ⟨fill, sawOrder, sawTerminal⟩ := s
  cases fill <;> cases sawOrder <;> cases sawTerminal <;> rfl

/-- One transaction with the id adds its evidence to what was seen. -/
theorem kind_note {cid : String} {txn : Dict} (h : carries cid txn = true) (s : Sightings) :
    (s.note txn).verdict.kind = evidence cid txn ⊔ s.verdict.kind := by
  obtain ⟨fill, sawOrder, sawTerminal⟩ := s
  rw [evidence, if_pos h, Sightings.note]
  by_cases hfill : transactionType txn = "ORDER_FILL"
  · rw [if_pos hfill, if_pos hfill, kind_verdict, kind_verdict]
    cases fill <;> cases sawOrder <;> cases sawTerminal <;> rfl
  · rw [if_neg hfill, if_neg hfill]
    by_cases hterminal : (transactionType txn = "ORDER_CANCEL" ||
        (transactionType txn).endsWith "_REJECT") = true
    · rw [if_pos hterminal, if_pos hterminal, kind_verdict, kind_verdict]
      cases fill <;> cases sawOrder <;> cases sawTerminal <;> rfl
    · rw [if_neg hterminal, if_neg hterminal, kind_verdict, kind_verdict]
      cases fill <;> cases sawOrder <;> cases sawTerminal <;> rfl

theorem kind_scan {cid : String} {txns : List Dict} {s s' : Sightings}
    (h : scanTransactions cid txns s = .ok s') :
    s'.verdict.kind = (txns.map (evidence cid) : Multiset VerdictKind).sup ⊔ s.verdict.kind := by
  induction txns generalizing s with
  | nil =>
      cases h
      simp
  | cons txn rest ih =>
      rw [scanTransactions] at h
      cases hid : transactionClientOrderId txn with
      | error e =>
          rw [hid] at h
          cases h
      | ok id =>
          rw [hid] at h
          have hnoted : (if id = some cid then s.note txn else s).verdict.kind =
              evidence cid txn ⊔ s.verdict.kind := by
            split_ifs with hours
            · exact kind_note (by rw [carries_of_id hid, hours]; simp) s
            · rw [evidence_of_foreign hid hours]
              exact (bot_sup_eq _).symm
          calc
            s'.verdict.kind = (rest.map (evidence cid) : Multiset VerdictKind).sup ⊔
                (evidence cid txn ⊔ s.verdict.kind) := by rw [ih h, hnoted]
            _ = ((txn :: rest).map (evidence cid) : Multiset VerdictKind).sup ⊔ s.verdict.kind := by
              rw [List.map_cons, ← Multiset.cons_coe, Multiset.sup_cons, ← sup_assoc,
                sup_comm (Multiset.sup _)]

/-- An id that cannot be read is in client extensions that are no object. -/
theorem transactionClientOrderId_error {txn : Dict} {e : PyErr}
    (h : transactionClientOrderId txn = .error e) : e = .attributeError := by
  unfold transactionClientOrderId PyVal.orEmptyGet PyVal.getAttrGet at h
  dsimp only at h
  by_cases hraw : (txn.get "clientOrderID").truthy = true
  · rw [if_pos hraw] at h
    cases h
  · rw [if_neg hraw] at h
    by_cases hext : (txn.get "clientExtensions").truthy = true
    · rw [if_pos hext] at h
      cases hval : txn.get "clientExtensions" with
      | dict kvs =>
          rw [hval] at h
          cases h
      | _ =>
          rw [hval] at h
          cases h
          rfl
    · rw [if_neg hext] at h
      cases h

/-- A scan ends on transactions that can be read, and raises one error on others. -/
theorem scan_readable (cid : String) (txns : List Dict) (s : Sightings) :
    (∀ txn ∈ txns, Readable txn) ∧ (∃ s', scanTransactions cid txns s = .ok s') ∨
      (¬ ∀ txn ∈ txns, Readable txn) ∧ scanTransactions cid txns s = .error .attributeError := by
  induction txns generalizing s with
  | nil => exact .inl ⟨by simp, s, rfl⟩
  | cons txn rest ih =>
      rw [List.forall_mem_cons, scanTransactions, Readable]
      cases hid : transactionClientOrderId txn with
      | error e =>
          right
          constructor
          · intro h
            cases h.1
          · rw [transactionClientOrderId_error hid]
      | ok id =>
          rcases ih (if id = some cid then s.note txn else s) with ⟨hall, hscan⟩ | ⟨hnot, hscan⟩
          · exact .inl ⟨⟨rfl, hall⟩, hscan⟩
          · exact .inr ⟨fun h => hnot h.2, hscan⟩

/-- The kind of the verdict. -/
def verdictKind (txns : List Dict) (cid : String) : Except PyErr VerdictKind :=
  (priorSubmissionVerdict txns cid).map PriorVerdict.kind

/-- The verdict is the strongest evidence among transactions that can be read. -/
theorem verdictKind_eq (txns : List Dict) (cid : String) : verdictKind txns cid =
    if ∀ txn ∈ txns, Readable txn then
      .ok (txns.map (evidence cid) : Multiset VerdictKind).sup
    else .error .attributeError := by
  unfold verdictKind priorSubmissionVerdict
  rcases scan_readable cid txns ⟨none, false, false⟩ with ⟨hall, s, hs⟩ | ⟨hnot, hs⟩
  · rw [if_pos hall, hs]
    exact congrArg Except.ok ((kind_scan hs).trans (sup_bot_eq _))
  · rw [if_neg hnot, hs]
    rfl

/-- A verdict is the strongest evidence. -/
theorem kind_eq {txns : List Dict} {cid : String} {v : PriorVerdict}
    (h : priorSubmissionVerdict txns cid = .ok v) :
    v.kind = (txns.map (evidence cid) : Multiset VerdictKind).sup := by
  have hkind : verdictKind txns cid = .ok v.kind := by
    rw [verdictKind, h]
    rfl
  rw [verdictKind_eq] at hkind
  split_ifs at hkind
  exact (Except.ok.inj hkind).symm

theorem verdictKind_perm {txns txns' : List Dict} {cid : String} (h : txns'.Perm txns) :
    verdictKind txns' cid = verdictKind txns cid := by
  have hsup : (txns'.map (evidence cid) : Multiset VerdictKind) = txns.map (evidence cid) :=
    Multiset.coe_eq_coe.mpr (h.map _)
  rw [verdictKind_eq, verdictKind_eq, hsup]
  exact if_congr (forall_congr' fun txn => imp_congr_left h.mem_iff) rfl rfl

/-- Transactions of other orders say nothing. -/
theorem verdictKind_append {txns others : List Dict} {cid : String}
    (h : ∀ txn ∈ others, ∃ id, transactionClientOrderId txn = .ok id ∧ id ≠ some cid) :
    verdictKind (txns ++ others) cid = verdictKind txns cid := by
  have hreadable : ∀ txn ∈ others, Readable txn := by
    intro txn htxn
    obtain ⟨id, hid, -⟩ := h txn htxn
    rw [Readable, hid]
    rfl
  have hothers : (others.map (evidence cid) : Multiset VerdictKind).sup = ⊥ := by
    rw [eq_bot_iff, Multiset.sup_le]
    intro kind hkind
    obtain ⟨txn, htxn, rfl⟩ := List.mem_map.mp (Multiset.mem_coe.mp hkind)
    obtain ⟨id, hid, hne⟩ := h txn htxn
    exact (evidence_of_foreign hid hne).le
  rw [verdictKind_eq, verdictKind_eq, List.map_append, ← Multiset.coe_add, Multiset.sup_add,
    hothers, sup_bot_eq]
  refine if_congr ?_ rfl rfl
  rw [List.forall_mem_append]
  exact and_iff_left hreadable

/-- More transactions are more evidence. -/
theorem kind_mono {txns txns' more : List Dict} {cid : String} {v v' : PriorVerdict}
    (hperm : txns'.Perm (txns ++ more)) (h : priorSubmissionVerdict txns cid = .ok v)
    (h' : priorSubmissionVerdict txns' cid = .ok v') : v.kind ≤ v'.kind := by
  have hmore : (txns'.map (evidence cid) : Multiset VerdictKind) =
      txns.map (evidence cid) + more.map (evidence cid) := by
    rw [Multiset.coe_add, ← List.map_append]
    exact Multiset.coe_eq_coe.mpr (hperm.map _)
  rw [kind_eq h, kind_eq h', hmore, Multiset.sup_add]
  exact le_sup_left

theorem kind_filled_iff {txns : List Dict} {cid : String} {v : PriorVerdict}
    (h : priorSubmissionVerdict txns cid = .ok v) :
    v.kind = .filled ↔ ∃ txn ∈ txns, isFillOf cid txn = true := by
  constructor
  · intro hkind
    cases v with
    | filled txn =>
        have hlast := (priorSubmissionVerdict_filled_iff h txn).mp rfl
        exact ⟨txn, List.mem_filter.mp (List.mem_of_getLast? hlast)⟩
    | _ => cases hkind
  · intro hfill
    obtain ⟨txn, htxn, hours⟩ := hfill
    have hle : evidence cid txn ≤ (txns.map (evidence cid) : Multiset VerdictKind).sup :=
      Multiset.le_sup (List.mem_map_of_mem htxn)
    rw [evidence_eq_filled_iff.mpr hours, ← kind_eq h] at hle
    exact (VerdictKind.le_filled v.kind).antisymm hle

/-- The verdict is a monotone function of the transactions that carry the id: no order of
the window matters, nor a transaction of another order; it is a fill if there is one, and
more transactions neither undo a fill nor make an order absent. -/
theorem priorSubmissionVerdict_monotone (cid : String) (txns : List Dict) :
    (∀ txns', txns'.Perm txns → verdictKind txns' cid = verdictKind txns cid) ∧
    (∀ txns' others, txns'.Perm (txns ++ others) →
      (∀ txn ∈ others, ∃ id, transactionClientOrderId txn = .ok id ∧ id ≠ some cid) →
      verdictKind txns' cid = verdictKind txns cid) ∧
    (∀ v, priorSubmissionVerdict txns cid = .ok v →
      (v.kind = .filled ↔ ∃ txn ∈ txns, isFillOf cid txn = true) ∧
      ∀ txn, v = .filled txn → txn ∈ txns ∧ isFillOf cid txn = true) ∧
    ∀ txns' more v v', txns'.Perm (txns ++ more) →
      priorSubmissionVerdict txns cid = .ok v → priorSubmissionVerdict txns' cid = .ok v' →
      (v.kind = .filled → v'.kind = .filled) ∧ (v'.kind = .absent → v.kind = .absent) := by
  constructor
  · intro txns' hperm
    exact verdictKind_perm hperm
  constructor
  · intro txns' others hperm hforeign
    rw [verdictKind_perm hperm, verdictKind_append hforeign]
  constructor
  · intro v hv
    constructor
    · exact kind_filled_iff hv
    · intro txn htxn
      have hlast := (priorSubmissionVerdict_filled_iff hv txn).mp htxn
      exact List.mem_filter.mp (List.mem_of_getLast? hlast)
  · intro txns' more v v' hperm hv hv'
    have hle : v.kind ≤ v'.kind := kind_mono hperm hv hv'
    constructor
    · intro hfilled
      exact (VerdictKind.le_filled v'.kind).antisymm (hfilled ▸ hle)
    · intro habsent
      exact VerdictKind.le_absent_iff.mp (habsent ▸ hle)

/-- An order and its fill, in the two fields and in either order, about one more trade. -/
theorem priorSubmissionVerdict_monotone_both :
    let order : Dict := [("type", .str "MARKET_ORDER"),
      ("clientExtensions", .dict [("id", .str "S2-1")])]
    let fill : Dict := [("type", .str "ORDER_FILL"), ("clientOrderID", .str "S2-1")]
    let other : Dict := [("type", .str "ORDER_FILL"), ("clientOrderID", .str "S2-2")]
    verdictKind [fill, order] "S2-1" = verdictKind [order, fill] "S2-1" ∧
      verdictKind [other, order, fill] "S2-1" = verdictKind [order, fill] "S2-1" := by
  intro order fill other
  obtain ⟨hperm, hothers, -⟩ := priorSubmissionVerdict_monotone "S2-1" [order, fill]
  constructor
  · exact hperm [fill, order] (List.Perm.swap order fill [])
  · refine hothers [other, order, fill] [other] ?_ ?_
    · exact (List.perm_append_singleton other [order, fill]).symm
    · intro txn htxn
      rw [List.mem_singleton.mp htxn]
      exact ⟨some "S2-2", by decide +kernel, by decide⟩

end OandaAdapter

end System2
