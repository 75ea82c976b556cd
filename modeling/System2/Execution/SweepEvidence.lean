import System2.Execution.CloseTracker
import System2.Foundation.RunRecord

/-!
# The evidence of a sweep

A sweep emits and marks the close of a trade behind an answer of the broker that shows it. The
record of a sweep has every call with its answer, and the evidence is read from the record
before the emission.
-/

namespace System2
open Foundation

/-- A record of calls of the close tracker. -/
abbrev CloseRecord := List (Event CloseI Exc)

/-! ### What the answers show -/

/-- The items of a value that may be missing. -/
def itemsOf (v : PyVal) : List PyVal := if v.truthy then v.iter.toOption.getD [] else []

theorem itemsOf_eq {v : PyVal} {xs : List PyVal}
    (h : (if v.truthy then v.iter else .ok []) = .ok xs) : itemsOf v = xs := by
  unfold itemsOf
  split_ifs at h ⊢
  · rw [h]
    rfl
  · exact Except.ok.inj h

/-- An open trade of the book that was read. -/
def Candidate (t : CloseRecord) (u : ManagedTrade) : Prop :=
  ∃ book : TradeBook, ⟨.trades, .ok book⟩ ∈ t ∧ u ∈ book.trades ∧ u.closed = false

/-- The open list that was read does not have the trade. -/
def Unlisted (t : CloseRecord) (tradeId : String) : Prop :=
  ∃ listed ids, ⟨.getOpenTrades, .ok listed⟩ ∈ t ∧
    listed.iter.bind CloseSweeper.openIds = .ok ids ∧ tradeId ∉ ids

/-- The details are CLOSED, with a closing transaction. -/
def DetailsClosed (t : CloseRecord) (tradeId : String) : Prop :=
  ∃ details closingId, ⟨.getTrade tradeId, .ok details⟩ ∈ t ∧
    (details.entries.get "state").isStr "CLOSED" = true ∧
    (details.entries.get "closingTransactionIDs").last = .ok closingId

/-- A fill whose `tradesClosed` names the trade. -/
def ClosingFill (tradeId : String) (txn : PyVal) : Prop :=
  (txn.entries.get "type").isStr "ORDER_FILL" = true ∧
    ∃ closed ∈ itemsOf (txn.entries.get "tradesClosed"),
      (closed.entries.get "tradeID").toStr = tradeId

/-- A page of transactions has such a fill. -/
def FillScanned (t : CloseRecord) (tradeId : String) : Prop :=
  ∃ fromId toId page, ⟨.getTransactionsIdrange fromId toId, .ok page⟩ ∈ t ∧
    ∃ txn ∈ itemsOf page, ClosingFill tradeId txn

/-- Details that are there and not CLOSED. -/
def SaysOpen : Except Exc PyVal → Prop
  | .ok details =>
      details.truthy = true ∧ (details.entries.get "state").isStr "CLOSED" = false
  | .error _ => False

/-- The open list has the trade, or its details are not CLOSED. -/
def ReportedOpen (t : CloseRecord) (tradeId : String) : Prop :=
  (∃ listed ids, ⟨.getOpenTrades, .ok listed⟩ ∈ t ∧
      listed.iter.bind CloseSweeper.openIds = .ok ids ∧ tradeId ∈ ids) ∨
    ∃ r, ⟨.getTrade tradeId, r⟩ ∈ t ∧ SaysOpen r

/-- What the record shows of a trade before its close is emitted. -/
structure Evidence (t : CloseRecord) (tradeId : String) : Prop where
  unlisted : Unlisted t tradeId
  notOpen : ∃ r, ⟨.getTrade tradeId, r⟩ ∈ t ∧ ¬SaysOpen r
  source : DetailsClosed t tradeId ∨ FillScanned t tradeId

section Growth

variable {t t' : CloseRecord} {u : ManagedTrade} {tradeId : String}

theorem Candidate.mono (h : Candidate t u) (hsub : t ⊆ t') : Candidate t' u := by
  obtain ⟨book, hmem, hu⟩ := h
  exact ⟨book, hsub hmem, hu⟩

theorem Unlisted.mono (h : Unlisted t tradeId) (hsub : t ⊆ t') : Unlisted t' tradeId := by
  obtain ⟨listed, ids, hmem, hids⟩ := h
  exact ⟨listed, ids, hsub hmem, hids⟩

theorem DetailsClosed.mono (h : DetailsClosed t tradeId) (hsub : t ⊆ t') :
    DetailsClosed t' tradeId := by
  obtain ⟨details, closingId, hmem, hclosed⟩ := h
  exact ⟨details, closingId, hsub hmem, hclosed⟩

theorem FillScanned.mono (h : FillScanned t tradeId) (hsub : t ⊆ t') : FillScanned t' tradeId := by
  obtain ⟨fromId, toId, page, hmem, hfill⟩ := h
  exact ⟨fromId, toId, page, hsub hmem, hfill⟩

theorem Evidence.mono (h : Evidence t tradeId) (hsub : t ⊆ t') : Evidence t' tradeId where
  unlisted := h.unlisted.mono hsub
  notOpen := by
    obtain ⟨r, hmem, hr⟩ := h.notOpen
    exact ⟨r, hsub hmem, hr⟩
  source := h.source.imp (fun h => h.mono hsub) fun h => h.mono hsub

end Growth

/-! ### Emission and mark -/

/-- A call that tells of a close: the event, the entry of the ledger, the trade put back. -/
def CloseEmitter.Tells (em : CloseEmitter) : CloseCall → Prop
  | .putTrade _ => True
  | .ledgerMark _ => True
  | .publisher (.outboxPublish topic _) => topic = em.outboxTopic
  | _ => False

/-- The call tells of the close of this trade. -/
def CloseEmitter.TellsOf (em : CloseEmitter) (u : ManagedTrade) : CloseCall → Prop
  | .putTrade u' => u' = { u with closed := true }
  | .ledgerMark key => key = u.brokerTradeId
  | .publisher (.outboxPublish topic event) => topic = em.outboxTopic ∧
      ∃ facts exitReason eventTime, buildCloseEvent u facts exitReason eventTime = .ok event
  | _ => False

/-- The grounds of a call that tells of a close. -/
def CloseEmitter.Shown (em : CloseEmitter) (before : CloseRecord) (e : Event CloseI Exc) : Prop :=
  em.Tells e.1 → ∃ u, Candidate before u ∧ em.TellsOf u e.1 ∧ Evidence before u.brokerTradeId

/-- A call that tells of the close of no trade but this one. -/
def CloseEmitter.TellsOnlyOf (em : CloseEmitter) (u : ManagedTrade) (op : CloseCall) : Prop :=
  em.Tells op → em.TellsOf u op

section Calls

variable {em : CloseEmitter} {u : ManagedTrade} {op : CloseCall} {t t' : CloseRecord}

theorem CloseCall.Aside.not_tells (h : op.Aside) : ¬em.Tells op := by
  cases op with
  | putTrade t => exact h.elim
  | ledgerMark key => exact h.elim
  | publisher call =>
      cases call with
      | outboxPublish topic body => exact h.elim
      | _ => exact id
  | _ => exact id

theorem shown_of_not_tells (op : CloseCall) (h : ¬em.Tells op) (t : CloseRecord)
    (r : Except Exc op.Ans) : em.Shown t ⟨op, r⟩ := fun htells => absurd htells h

/-- A part that tells of no close. -/
theorem wpc_shown {α : Type} {P : CloseCall → Prop} {p : Proc CloseI Exc α}
    (h : Grounded em.Shown t) (hP : ∀ op, P op → ¬em.Tells op) (hp : p.Only P) :
    wpc World.free (Grounded em.Shown) p (fun _ t' => Grounded em.Shown t' ∧ t ⊆ t') t :=
  wpc_grounded h (fun op hop t' _ r => shown_of_not_tells op (hP op hop) t' r) hp

end Calls

/-! ### The scan -/

namespace CloseTracker

variable {tid : String} {scan scan' : TxnScan} {t : CloseRecord} {em : CloseEmitter}

/-- One entry that changes what was found names the trade. -/
theorem found_readClosed {txn : Dict} {closed : PyVal}
    (h : scan.readClosed tid txn closed = .ok scan') (hfound : scan'.found.isSome = true) :
    scan.found.isSome = true ∨ (closed.entries.get "tradeID").toStr = tid := by
  cases closed with
  | dict kvs =>
      have hscan := Except.ok.inj h
      by_cases hnamed : (Dict.get kvs "tradeID").toStr = tid
      · exact Or.inr hnamed
      · rw [if_neg hnamed] at hscan
        exact Or.inl (hscan ▸ hfound)
  | _ => exact nomatch h

/-- So does one of some entries. -/
theorem found_readClosed_all {txn : Dict} {entries : List PyVal}
    (h : entries.foldlM (fun scan closed => scan.readClosed tid txn closed) scan = .ok scan')
    (hfound : scan'.found.isSome = true) :
    scan.found.isSome = true ∨ ∃ closed ∈ entries, (closed.entries.get "tradeID").toStr = tid := by
  induction entries generalizing scan with
  | nil =>
      obtain rfl := Except.ok.inj h
      exact Or.inl hfound
  | cons closed rest ih =>
      rw [List.foldlM_cons] at h
      cases hread : scan.readClosed tid txn closed with
      | error e =>
          rw [hread] at h
          exact nomatch h
      | ok next =>
          rw [hread] at h
          rcases ih h with hnext | ⟨c, hc, hnamed⟩
          · refine (found_readClosed hread hnext).imp id ?_
            exact fun hnamed => ⟨closed, List.mem_cons_self, hnamed⟩
          · exact Or.inr ⟨c, List.mem_cons_of_mem _ hc, hnamed⟩

/-- A transaction that changes what was found is a closing fill of the trade. -/
theorem found_read {txn : PyVal} (h : scan.read tid txn = .ok scan')
    (hfound : scan'.found.isSome = true) :
    scan.found.isSome = true ∨ ClosingFill tid txn := by
  unfold TxnScan.read at h
  cases hid : txn.getAttrGet "id" with
  | error e =>
      rw [hid] at h
      exact nomatch h
  | ok id =>
      rw [hid] at h
      cases htype : (txn.entries.get "type").isStr "ORDER_FILL" with
      | false =>
          rw [htype] at h
          obtain rfl := Except.ok.inj h
          exact Or.inl hfound
      | true =>
          simp only [htype, Bool.not_true, Bool.false_eq_true, if_false] at h
          have hitems : ∃ entries, itemsOf (txn.entries.get "tradesClosed") = entries ∧
              entries.foldlM (fun scan closed => scan.readClosed tid txn.entries closed)
                { scan with txnById := scan.txnById.set id.toStr txn } = .ok scan' := by
            unfold itemsOf
            cases hlisted : (txn.entries.get "tradesClosed").truthy with
            | false =>
                rw [hlisted] at h
                exact ⟨[], rfl, h⟩
            | true =>
                rw [hlisted] at h
                cases hiter : (txn.entries.get "tradesClosed").iter with
                | error e =>
                    rw [hiter] at h
                    exact nomatch h
                | ok entries =>
                    rw [hiter] at h
                    exact ⟨entries, rfl, h⟩
          obtain ⟨entries, hentries, hfold⟩ := hitems
          refine (found_readClosed_all hfold hfound).imp (fun h => h) ?_
          rintro ⟨closed, hmem, hnamed⟩
          exact ⟨htype, closed, hentries ▸ hmem, hnamed⟩

theorem found_page {batch : List PyVal} (h : batch.foldlM (TxnScan.read tid) scan = .ok scan')
    (hfound : scan'.found.isSome = true) :
    scan.found.isSome = true ∨ ∃ txn ∈ batch, ClosingFill tid txn := by
  induction batch generalizing scan with
  | nil =>
      obtain rfl := Except.ok.inj h
      exact Or.inl hfound
  | cons txn rest ih =>
      rw [List.foldlM_cons] at h
      cases hread : scan.read tid txn with
      | error e =>
          rw [hread] at h
          exact nomatch h
      | ok next =>
          rw [hread] at h
          rcases ih h with hnext | ⟨x, hx, hfill⟩
          · refine (found_read hread hnext).imp id ?_
            exact fun hfill => ⟨txn, List.mem_cons_self, hfill⟩
          · exact Or.inr ⟨x, List.mem_cons_of_mem _ hx, hfill⟩

/-- The scan finds something only on a page that has a closing fill of the trade. -/
theorem wpc_scanPages (toId : ℤ) (pages : ℕ) {lo : ℤ} {scanned : ℕ} (h : Grounded em.Shown t)
    (hscan : scan.found.isSome = true → FillScanned t tid) :
    wpc World.free (Grounded em.Shown) (scanPages tid toId pages lo scanned scan)
      (fun r t' => Grounded em.Shown t' ∧ t ⊆ t' ∧
        ∀ scan', r = .ok scan' → scan'.found.isSome = true → FillScanned t' tid) t := by
  induction pages generalizing lo scanned scan t with
  | zero =>
      refine ⟨h, h, List.Subset.refl t, ?_⟩
      intro scan' hr hfound
      exact hscan (Except.ok.inj hr ▸ hfound)
  | succ pages ih =>
      have hend : ∀ scan', Except.ok scan = (Except.ok scan' : Except Exc TxnScan) →
          scan'.found.isSome = true → FillScanned t tid := by
        intro scan' hr hfound
        exact hscan (Except.ok.inj hr ▸ hfound)
      unfold scanPages
      split_ifs
      · exact ⟨h, h, List.Subset.refl t, hend⟩
      · rw [Proc.bind_eq, fetchTransactionRange, Proc.bind_eq, Proc.bind_assoc]
        refine wpc_grounded_call h (shown_of_not_tells (.getTransactionsIdrange _ _) id t) ?_ ?_
        · intro page hnow
          have hsub := List.subset_append_left t [⟨.getTransactionsIdrange lo (min (lo + txnPageSize - 1)
            toId), .ok page⟩]
          cases hbatch : (if page.truthy then page.iter else .ok [] : Except PyErr (List PyVal)) with
          | error e => exact ⟨hnow, hnow, hsub, fun _ hr => by cases hr⟩
          | ok batch =>
              have hitems := itemsOf_eq hbatch
              change wpc _ _ (if batch.isEmpty then .ret scan else _) _ _
              split_ifs
              · exact ⟨hnow, hnow, hsub, fun scan' hr hfound => (hend scan' hr hfound).mono hsub⟩
              · cases hread : batch.foldlM (TxnScan.read tid) scan with
                | error e => exact ⟨hnow, hnow, hsub, fun _ hr => by cases hr⟩
                | ok next =>
                    cases hhighest : highestId (min (lo + txnPageSize - 1) toId) batch with
                    | error e => exact ⟨hnow, hnow, hsub, fun _ hr => by cases hr⟩
                    | ok highest =>
                        refine wpc_post (ih hnow ?_) ?_
                        · intro hfound
                          rcases found_page hread hfound with hbefore | ⟨txn, hmem, hfill⟩
                          · exact (hscan hbefore).mono hsub
                          · exact ⟨_, _, page, List.mem_append_right _ (List.mem_singleton_self _), txn,
                              hitems ▸ hmem, hfill⟩
                        · rintro r t' - ⟨hgrounded, hsub', hfound⟩
                          exact ⟨hgrounded, List.Subset.trans hsub hsub', hfound⟩
        · intro e hnow
          exact ⟨hnow, List.subset_append_left _ _, fun _ hr => by cases hr⟩

theorem wpc_findCloseTransaction (tid : String) (h : Grounded em.Shown t) :
    wpc World.free (Grounded em.Shown) (findCloseTransaction tid none)
      (fun r t' => Grounded em.Shown t' ∧ t ⊆ t' ∧
        ∀ located, r = .ok (some located) → FillScanned t' tid) t := by
  have hnone : ∀ {t' : CloseRecord} {located : CloseTransaction},
      (Except.ok none : Except Exc (Option CloseTransaction)) = .ok (some located) →
        FillScanned t' tid := fun hr => nomatch hr
  unfold findCloseTransaction
  cases (PyVal.str tid).toInt with
  | error e => exact ⟨h, h, List.Subset.refl t, fun _ hr => hnone hr⟩
  | ok fromId =>
      refine wpc_seq (wpc_shown h (fun _ hop => hop.aside.not_tells) lastTransactionId_reads) ?_ ?_
      · rintro lastId t₁ - ⟨h₁, hsub₁⟩
        cases lastId with
        | none => exact ⟨h₁, h₁, hsub₁, fun _ hr => hnone hr⟩
        | some lastId =>
            dsimp only
            split_ifs
            · exact ⟨h₁, h₁, hsub₁, fun _ hr => hnone hr⟩
            · refine wpc_seq (wpc_scanPages lastId txnMaxScan h₁ fun hr => nomatch hr) ?_ ?_
              · rintro scan t₂ - ⟨h₂, hsub₂, hfound⟩
                refine ⟨h₂, h₂, List.Subset.trans hsub₁ hsub₂, ?_⟩
                intro located hr
                refine hfound scan rfl ?_
                rw [Option.isSome_iff_exists]
                obtain ⟨found, hmem, -⟩ := Option.map_eq_some_iff.mp (Except.ok.inj hr)
                exact ⟨found, hmem⟩
              · rintro e t₂ - ⟨h₂, hsub₂, -⟩
                exact ⟨h₂, List.Subset.trans hsub₁ hsub₂, fun _ hr => nomatch hr⟩
      · rintro e t₁ - ⟨h₁, hsub₁⟩
        exact ⟨h₁, hsub₁, fun _ hr => nomatch hr⟩

theorem wpc_resolveCloseFromTransactions (tid instrument : String) (h : Grounded em.Shown t) :
    wpc World.free (Grounded em.Shown) (resolveCloseFromTransactions tid instrument)
      (fun r t' => Grounded em.Shown t' ∧ t ⊆ t' ∧
        ∀ resolved, r = .ok (some resolved) → FillScanned t' tid) t := by
  simp only [resolveCloseFromTransactions, Proc.bind_eq]
  refine wpc_seq_attempt (wpc_findCloseTransaction tid h) ?_
  rintro r t₁ - ⟨h₁, hsub₁, hscanned⟩
  cases r with
  | error e => exact ⟨h₁, h₁, hsub₁, fun _ hr => by cases hr⟩
  | ok fill =>
      cases fill with
      | none => exact ⟨h₁, h₁, hsub₁, fun _ hr => by cases hr⟩
      | some located =>
          dsimp only
          cases factsFromTransaction located.txn located.closed instrument located.txnById with
          | error e => exact ⟨h₁, h₁, hsub₁, fun _ hr => by cases hr⟩
          | ok facts => exact ⟨h₁, h₁, hsub₁, fun _ _ => hscanned located rfl⟩

end CloseTracker

/-! ### The sweep -/

theorem CloseCall.Emits.tellsOnlyOf {em : CloseEmitter} {u : ManagedTrade} {op : CloseCall}
    (h : op.Emits em u) : em.TellsOnlyOf u op := by
  intro htells
  cases op with
  | ledgerMark key => exact h
  | publisher call =>
      cases call with
      | outboxPublish topic event => exact h
      | _ => exact htells.elim
  | putTrade u' => exact h.elim
  | _ => exact htells.elim

namespace CloseSweeper

open CloseTracker

variable {s : CloseSweeper} {u : ManagedTrade} {t : CloseRecord} {now : Moment}

/-- What is known and what has been shown so far. -/
abbrev Goes {α : Type} (s : CloseSweeper) (t : CloseRecord) (p : Proc CloseI Exc α) : Prop :=
  wpc World.free (Grounded s.emitter.Shown) p
    (fun _ t' => Grounded s.emitter.Shown t' ∧ t ⊆ t') t

theorem Goes.trans {α : Type} {t₀ : CloseRecord} {p : Proc CloseI Exc α} (h : s.Goes t p)
    (hsub : t₀ ⊆ t) : wpc World.free (Grounded s.emitter.Shown) p
      (fun _ t' => Grounded s.emitter.Shown t' ∧ t₀ ⊆ t') t :=
  wpc_post h fun _ _ _ hq => ⟨hq.1, List.Subset.trans hsub hq.2⟩

theorem goes_conclude (h : Grounded s.emitter.Shown t) (hu : Candidate t u)
    (hevidence : Evidence t u.brokerTradeId) (facts : CloseFacts) (exitReason : String)
    (viaTransactions : Bool) : s.Goes t (s.conclude u facts exitReason viaTransactions) := by
  have hcalls : (s.conclude u facts exitReason viaTransactions).Only (s.emitter.TellsOnlyOf u) := by
    refine ((s.emitter.emit_emits u facts exitReason).mono fun _ h => h.tellsOnlyOf).bind
      fun recorded => ?_
    cases recorded with
    | false => exact trivial
    | true => exact Proc.Along.bind (Proc.along_perform fun _ => rfl) fun _ => trivial
  refine wpc_grounded h ?_ hcalls
  intro op hop t' hsub r htells
  exact ⟨u, hu.mono hsub, hop htells, hevidence.mono hsub⟩

theorem goes_fallback (h : Grounded s.emitter.Shown t) (hu : Candidate t u)
    (hunlisted : Unlisted t u.brokerTradeId)
    (hnotOpen : ∃ r, ⟨.getTrade u.brokerTradeId, r⟩ ∈ t ∧ ¬SaysOpen r) :
    s.Goes t (s.fallback now u) := by
  simp only [fallback, Proc.bind_eq]
  refine wpc_seq (wpc_shown h (fun _ hop => hop.aside.not_tells) (s.fallbackDue_paces _ now)) ?_ ?_
  · rintro due t₁ - ⟨h₁, hsub₁⟩
    cases due with
    | false => exact ⟨h₁, h₁, hsub₁⟩
    | true =>
        rw [Bool.not_true, if_neg Bool.false_ne_true]
        refine wpc_seq (wpc_resolveCloseFromTransactions _ _ h₁) ?_ ?_
        · rintro resolved t₂ - ⟨h₂, hsub₂, hscanned⟩
          have hsub := List.Subset.trans hsub₁ hsub₂
          cases resolved with
          | none => exact ⟨h₂, h₂, hsub⟩
          | some resolved =>
              refine (goes_conclude h₂ (hu.mono hsub) ⟨hunlisted.mono hsub, ?_, ?_⟩ _ _ _).trans hsub
              · obtain ⟨r, hmem, hr⟩ := hnotOpen
                exact ⟨r, hsub hmem, hr⟩
              · exact Or.inr (hscanned resolved rfl)
        · rintro e t₂ - ⟨h₂, hsub₂, -⟩
          exact ⟨h₂, List.Subset.trans hsub₁ hsub₂⟩
  · rintro e t₁ - hq
    exact hq

/-- Details that are there have their state read from their entries. -/
theorem readDetails_of_truthy {details : PyVal} (htruthy : details.truthy = true) :
    (∃ e, readDetails details = .error e) ∨
      readDetails details =
        if (details.entries.get "state").isStr "CLOSED" then do
          match ← factsFromTradeDetails details.entries with
          | none => return .unusable
          | some facts => do
              let exitReason ← exitReasonFromTradeDetails details.entries
              return .resolved facts exitReason
        else .ok .stillOpen := by
  unfold readDetails
  rw [htruthy]
  cases hget : details.getAttrGet "state" with
  | error e => exact Or.inl ⟨e, rfl⟩
  | ok state =>
      refine Or.inr ?_
      obtain rfl : state = details.entries.get "state" := by
        cases details with
        | dict kvs => exact (Except.ok.inj hget).symm
        | _ => exact nomatch hget
      simp only [bind, Except.bind, Bool.not_true, Bool.false_eq_true, if_false]
      cases (details.entries.get "state").isStr "CLOSED" with
      | true => rfl
      | false => rfl

theorem factsFromTradeDetails_some {trade : Dict} {facts : CloseFacts}
    (h : factsFromTradeDetails trade = .ok (some facts)) :
    ∃ closingId, (trade.get "closingTransactionIDs").last = .ok closingId := by
  unfold factsFromTradeDetails at h
  split_ifs at h
  · exact nomatch h
  · cases hprice : (trade.get "averageClosePrice").floatIf with
    | error e =>
        rw [hprice] at h
        exact nomatch h
    | ok closePrice =>
        rw [hprice] at h
        cases hlast : (trade.get "closingTransactionIDs").last with
        | error e =>
            rw [hlast] at h
            exact nomatch h
        | ok closingId => exact ⟨closingId, rfl⟩

/-- Details that are read as no more than unusable are not those of an open trade. -/
theorem readDetails_not_open {details : PyVal} {lookup : Lookup}
    (h : readDetails details = .ok lookup) (hlookup : lookup ≠ .stillOpen) :
    ¬SaysOpen (.ok details) := by
  rintro ⟨htruthy, hstate⟩
  rcases readDetails_of_truthy htruthy with ⟨e, herror⟩ | heq
  · exact nomatch herror.symm.trans h
  · rw [hstate, if_neg Bool.false_ne_true] at heq
    exact hlookup (Except.ok.inj (h.symm.trans heq))

/-- Details that resolve a close are CLOSED, with a closing transaction. -/
theorem readDetails_resolved {details : PyVal} {facts : CloseFacts} {exitReason : String}
    (h : readDetails details = .ok (.resolved facts exitReason)) :
    (details.entries.get "state").isStr "CLOSED" = true ∧
      ∃ closingId, (details.entries.get "closingTransactionIDs").last = .ok closingId := by
  have htruthy : details.truthy = true := by
    cases htruthy : details.truthy with
    | true => rfl
    | false =>
        unfold readDetails at h
        rw [htruthy] at h
        exact nomatch h
  rcases readDetails_of_truthy htruthy with ⟨e, herror⟩ | heq
  · exact nomatch herror.symm.trans h
  · rw [h] at heq
    split_ifs at heq with hstate
    · refine ⟨hstate, ?_⟩
      cases hfacts : factsFromTradeDetails details.entries with
      | error e =>
          rw [hfacts] at heq
          exact nomatch heq
      | ok found =>
          cases found with
          | none =>
              rw [hfacts] at heq
              exact nomatch heq
          | some found => exact factsFromTradeDetails_some hfacts
    · exact nomatch heq

theorem goes_sweepVanished (h : Grounded s.emitter.Shown t) (hu : Candidate t u)
    (hunlisted : Unlisted t u.brokerTradeId) : s.Goes t (s.sweepVanished now u) := by
  simp only [sweepVanished, Proc.bind_eq]
  refine wpc_seq_attempt (R := fun r t' => t' = t ++ [⟨.getTrade u.brokerTradeId, r⟩]) ?_ ?_
  · refine wpc_of_perform h ?_
    rintro r t' rfl
    exact ⟨h.concat (shown_of_not_tells (.getTrade _) id t r), rfl⟩
  · rintro r t₁ h₁ rfl
    have hsub := List.subset_append_left t [⟨.getTrade u.brokerTradeId, r⟩]
    have hasked : (⟨.getTrade u.brokerTradeId, r⟩ : Event CloseI Exc) ∈
        t ++ [⟨.getTrade u.brokerTradeId, r⟩] := List.mem_append_right _ (List.mem_singleton_self _)
    cases hread : readDetails (r.toOption.getD .null) with
    | error e => exact ⟨h₁, h₁, hsub⟩
    | ok lookup =>
        have hnotOpen : lookup ≠ .stillOpen → ¬SaysOpen r := by
          intro hlookup
          cases r with
          | error e => exact id
          | ok details => exact readDetails_not_open hread hlookup
        cases lookup with
        | stillOpen => exact ⟨h₁, h₁, hsub⟩
        | unusable =>
            exact (goes_fallback h₁ (hu.mono hsub) (hunlisted.mono hsub)
              ⟨r, hasked, hnotOpen (fun hl => nomatch hl)⟩).trans hsub
        | resolved facts exitReason =>
            refine (goes_conclude h₁ (hu.mono hsub) ⟨hunlisted.mono hsub,
              ⟨r, hasked, hnotOpen (fun hl => nomatch hl)⟩, Or.inl ?_⟩ _ _ _).trans hsub
            cases r with
            | error e => exact nomatch hread
            | ok details =>
                obtain ⟨hstate, closingId, hlast⟩ := readDetails_resolved hread
                exact ⟨details, closingId, hasked, hstate, hlast⟩

theorem goes_sweepAll {ids : List String} {candidates : List ManagedTrade}
    (h : Grounded s.emitter.Shown t) (hcandidates : ∀ u ∈ candidates, Candidate t u)
    (hlisted : ∀ tradeId, tradeId ∉ ids → Unlisted t tradeId) :
    s.Goes t (s.sweepAll now ids candidates) := by
  induction candidates generalizing t with
  | nil => exact ⟨h, h, List.Subset.refl t⟩
  | cons u rest ih =>
      have hrest := fun v hv => hcandidates v (List.mem_cons_of_mem _ hv)
      unfold sweepAll
      split_ifs with hin
      · exact ih h hrest hlisted
      · have hout : u.brokerTradeId ∉ ids := by simpa using hin
        refine wpc_seq (goes_sweepVanished h (hcandidates u List.mem_cons_self) (hlisted _ hout)) ?_ ?_
        · rintro swept t₁ - ⟨h₁, hsub₁⟩
          refine wpc_seq (ih h₁ (fun v hv => (hrest v hv).mono hsub₁)
            fun tradeId htrade => (hlisted tradeId htrade).mono hsub₁) ?_ ?_
          · rintro others t₂ - ⟨h₂, hsub₂⟩
            exact ⟨h₂, h₂, List.Subset.trans hsub₁ hsub₂⟩
          · rintro e t₂ - ⟨h₂, hsub₂⟩
            exact ⟨h₂, List.Subset.trans hsub₁ hsub₂⟩
        · rintro e t₁ - hq
          exact hq

theorem goes_sweepCandidates {candidates : List ManagedTrade} (h : Grounded s.emitter.Shown t)
    (hcandidates : ∀ u ∈ candidates, Candidate t u) :
    s.Goes t (s.sweepCandidates now candidates) := by
  simp only [sweepCandidates, Proc.bind_eq]
  refine wpc_seq_attempt (R := fun r t₁ => t ⊆ t₁ ∧
    ∀ ids, r = .ok ids → ∀ tradeId, tradeId ∉ ids → Unlisted t₁ tradeId) ?_ ?_
  · refine wpc_grounded_call h (shown_of_not_tells .getOpenTrades id t) ?_ ?_
    · intro listed h₁
      have hsub := List.subset_append_left t [⟨.getOpenTrades, .ok listed⟩]
      cases hread : listed.iter.bind openIds with
      | error e => exact ⟨h₁, hsub, fun _ hr => nomatch hr⟩
      | ok ids =>
          refine ⟨h₁, hsub, ?_⟩
          rintro ids' hr tradeId hout
          obtain rfl := Except.ok.inj hr
          exact ⟨listed, ids, List.mem_append_right _ (List.mem_singleton_self _), hread, hout⟩
    · intro e h₁
      exact ⟨List.subset_append_left _ _, fun _ hr => nomatch hr⟩
  · rintro r t₁ h₁ ⟨hsub₁, hlisted⟩
    cases r with
    | error e => exact ⟨h₁, h₁, hsub₁⟩
    | ok ids =>
        refine wpc_seq (goes_sweepAll h₁ (fun u hu => (hcandidates u hu).mono hsub₁)
          (hlisted ids rfl)) ?_ ?_
        · rintro swept t₂ - ⟨h₂, hsub₂⟩
          exact ⟨h₂, h₂, List.Subset.trans hsub₁ hsub₂⟩
        · rintro e t₂ - ⟨h₂, hsub₂⟩
          exact ⟨h₂, List.Subset.trans hsub₁ hsub₂⟩

/-- A sweep tells of a close only behind the evidence. -/
theorem wpc_sweep (s : CloseSweeper) :
    wpc World.free (Grounded s.emitter.Shown) s.sweep (fun _ t => Grounded s.emitter.Shown t) [] := by
  refine wpc_grounded_call grounded_nil (shown_of_not_tells .clock id []) ?_ fun _ h => h
  intro now h₁
  refine wpc_grounded_call h₁ (shown_of_not_tells .getLastSweepAt id _) ?_ fun _ h => h
  intro last h₂
  cases within now s.intervalSec last with
  | true => exact ⟨h₂, h₂⟩
  | false =>
      refine wpc_grounded_call h₂ (shown_of_not_tells (.putLastSweepAt now) id _) ?_ fun _ h => h
      intro _ h₃
      refine wpc_seq (wpc_shown h₃ (fun _ hop => hop.aside.not_tells) s.emitter.flush_delivers) ?_
        fun _ _ h _ => h
      rintro delivered t₄ h₄ -
      refine wpc_grounded_call h₄ (shown_of_not_tells .trades id _) ?_ fun _ h => h
      intro book h₅
      dsimp only
      split_ifs
      · exact ⟨h₅, h₅⟩
      · refine wpc_post (goes_sweepCandidates h₅ ?_) fun _ _ h _ => h
        intro u hu
        obtain ⟨hmem, hopen⟩ := List.mem_filter.mp hu
        exact ⟨book, List.mem_append_right _ (List.mem_singleton_self _), hmem, by simpa using hopen⟩

end CloseSweeper

/-! ### Each trade is asked for once -/

/-- A call that is neither for the open list nor for the details of a trade. -/
def CloseCall.LooksAway : CloseCall → Prop
  | .getOpenTrades => False
  | .getTrade _ => False
  | _ => True

section Calls

variable {op : CloseCall}

theorem CloseCall.Aside.looksAway (h : op.Aside) : op.LooksAway := by
  cases op with
  | getOpenTrades => exact h.elim
  | getTrade tradeId => exact h.elim
  | _ => exact trivial

theorem CloseCall.Emits.looksAway {em : CloseEmitter} {u : ManagedTrade} (h : op.Emits em u) :
    op.LooksAway := by
  cases op with
  | getOpenTrades => exact h.elim
  | getTrade tradeId => exact h.elim
  | _ => trivial

end Calls

namespace CloseSweeper

open CloseTracker CloseCall

section AtMost

variable {s : CloseSweeper} {P : CloseCall → Bool} {now : Moment}

theorem conclude_looksAway (s : CloseSweeper) (u : ManagedTrade) (facts : CloseFacts)
    (exitReason : String) (viaTransactions : Bool) :
    (s.conclude u facts exitReason viaTransactions).Only LooksAway := by
  refine ((s.emitter.emit_emits u facts exitReason).mono fun _ h => h.looksAway).bind
    fun recorded => ?_
  cases recorded with
  | false => exact trivial
  | true => exact Proc.Along.bind (Proc.along_perform trivial) fun _ => trivial

theorem fallback_looksAway (s : CloseSweeper) (now : Moment) (u : ManagedTrade) :
    (s.fallback now u).Only LooksAway := by
  simp only [fallback, Proc.bind_eq]
  refine ((s.fallbackDue_paces _ now).mono fun _ h => h.aside.looksAway).bind fun due => ?_
  cases due with
  | false => exact trivial
  | true =>
      refine Proc.Along.bind ((resolveCloseFromTransactions_reads _ _).mono
        fun _ h => h.aside.looksAway) fun resolved => ?_
      cases resolved with
      | none => exact trivial
      | some resolved => exact s.conclude_looksAway u _ _ _

/-- Behind the request for the details of a trade. -/
theorem settle_looksAway (s : CloseSweeper) (now : Moment) (u : ManagedTrade)
    (r : Except PyErr Lookup) : ((convert r).bind fun lookup =>
      match lookup with
      | .stillOpen => (.ret .none : Proc CloseI Exc Swept)
      | .unusable => s.fallback now u
      | .resolved facts exitReason => s.conclude u facts exitReason false).Only LooksAway := by
  refine (along_convert _).bind fun lookup => ?_
  cases lookup with
  | stillOpen => exact trivial
  | unusable => exact s.fallback_looksAway now u
  | resolved facts exitReason => exact s.conclude_looksAway u _ _ _

theorem sweepVanished_atMost (hP : ∀ op, op.LooksAway → P op = false) (u : ManagedTrade) :
    (s.sweepVanished now u).AtMost P (if P (.getTrade u.brokerTradeId) then 1 else 0) := by
  refine ⟨0, by rw [Nat.zero_add], fun r => ?_⟩
  have hrest := Proc.atMost_of_only ((s.settle_looksAway now u
    (readDetails (r.toOption.getD .null))).mono hP)
  cases r with
  | ok details => exact hrest
  | error e => exact hrest

theorem sweepAll_atMost (hP : ∀ op, op.LooksAway → P op = false) (ids : List String)
    (candidates : List ManagedTrade) :
    (s.sweepAll now ids candidates).AtMost P
      (candidates.countP fun u => P (.getTrade u.brokerTradeId)) := by
  induction candidates with
  | nil => trivial
  | cons u rest ih =>
      rw [List.countP_cons, Nat.add_comm]
      by_cases hin : ids.contains u.brokerTradeId = true
      · rw [sweepAll, if_pos hin]
        exact ih.mono (Nat.le_add_left _ _)
      · rw [sweepAll, if_neg hin]
        refine (sweepVanished_atMost hP u).bind fun swept => ?_
        exact Proc.AtMost.bind (n := 0) ih fun others => trivial

/-- A sweep asks for the open list once, and once for each open trade of the book. -/
theorem sweep_atMost (s : CloseSweeper) (hP : ∀ op, op.LooksAway → P op = false) {n : ℕ}
    (hn : ∀ book : TradeBook, (book.trades.filter fun u => !u.closed).countP
      (fun u => P (.getTrade u.brokerTradeId)) ≤ n) :
    s.sweep.AtMost P ((if P .getOpenTrades then 1 else 0) + n) := by
  have hcall (op : CloseCall) (hop : op.LooksAway) : (perform op).AtMost P 0 :=
    Proc.atMost_of_only ((Proc.along_perform hop).mono hP)
  have hflush : s.emitter.flush.AtMost P 0 :=
    Proc.atMost_of_only (s.emitter.flush_delivers.mono fun _ h => hP _ h.aside.looksAway)
  rw [← Nat.zero_add ((if P .getOpenTrades then 1 else 0) + n)]
  refine (hcall .clock trivial).bind fun now => ?_
  rw [← Nat.zero_add ((if P .getOpenTrades then 1 else 0) + n)]
  refine (hcall .getLastSweepAt trivial).bind fun last => ?_
  cases within now s.intervalSec last with
  | true => trivial
  | false =>
      rw [← Nat.zero_add ((if P .getOpenTrades then 1 else 0) + n)]
      refine (hcall (.putLastSweepAt now) trivial).bind fun _ => ?_
      rw [← Nat.zero_add ((if P .getOpenTrades then 1 else 0) + n)]
      refine hflush.bind fun _ => ?_
      rw [← Nat.zero_add ((if P .getOpenTrades then 1 else 0) + n)]
      refine (hcall .trades trivial).bind fun book => ?_
      dsimp only
      by_cases hempty : (book.trades.filter fun u => !u.closed).isEmpty = true
      · rw [if_pos hempty]
        trivial
      · rw [if_neg hempty]
        refine Proc.AtMost.bind (Proc.AtMost.attempt ?_) fun r => ?_
        · refine ⟨0, by rw [Nat.zero_add], fun r => ?_⟩
          cases r with
          | error e => trivial
          | ok listed => exact Proc.atMost_of_only (along_convert _)
        · cases r with
          | error e => trivial
          | ok ids =>
              have hall : (s.sweepAll now ids (book.trades.filter fun u => !u.closed)).AtMost P n :=
                (sweepAll_atMost hP ids _).mono (hn book)
              exact Proc.AtMost.bind (n := 0) hall fun swept => trivial

end AtMost

variable {s : CloseSweeper} {out : Option (Except Exc Stats)} {t : CloseRecord}

/-- Two calls of a kind that a sweep makes once. -/
theorem eq_of_looks_once (exec : Exec World.free s.sweep [] out t) {P : CloseCall → Bool}
    (hP : ∀ op, op.LooksAway → P op = false)
    (hn : ∀ book : TradeBook, (if P .getOpenTrades then 1 else 0) +
      (book.trades.filter fun u => !u.closed).countP (fun u => P (.getTrade u.brokerTradeId)) ≤ 1)
    {e e' : Event CloseI Exc} (he : e ∈ t) (he' : e' ∈ t) (hPe : P e.1 = true)
    (hPe' : P e'.1 = true) : e = e' := by
  have hatMost : s.sweep.AtMost P ((if P .getOpenTrades then 1 else 0) +
      (1 - if P .getOpenTrades then 1 else 0)) := sweep_atMost s hP fun book => by
    have := hn book
    omega
  have hle := countP_free_of_atMost hatMost exec
  refine eq_of_countP_le_one (hle.trans ?_) he he' hPe hPe'
  rw [List.countP_nil]
  split_ifs <;> simp

/-- The open list is read once. -/
theorem openList_once (exec : Exec World.free s.sweep [] out t) {r r' : Except Exc PyVal}
    (h : (⟨.getOpenTrades, r⟩ : Event CloseI Exc) ∈ t)
    (h' : (⟨.getOpenTrades, r'⟩ : Event CloseI Exc) ∈ t) : r = r' := by
  let P : CloseCall → Bool := fun op =>
    match op with
    | .getOpenTrades => true
    | _ => false
  have heq := eq_of_looks_once (P := P) exec (fun op hop => by cases op <;> first | rfl | exact hop.elim)
    (fun book => by simp [P]) h h' rfl rfl
  exact eq_of_heq (Sigma.mk.inj heq).2

/-- The details of a trade are read once. -/
theorem getTrade_once (exec : Exec World.free s.sweep [] out t) {tradeId : String}
    {r r' : Except Exc PyVal} (h : (⟨.getTrade tradeId, r⟩ : Event CloseI Exc) ∈ t)
    (h' : (⟨.getTrade tradeId, r'⟩ : Event CloseI Exc) ∈ t) : r = r' := by
  let P : CloseCall → Bool := fun op =>
    match op with
    | .getTrade key => key == tradeId
    | _ => false
  have hcount (book : TradeBook) : (book.trades.filter fun u => !u.closed).countP
      (fun u => u.brokerTradeId == tradeId) ≤ 1 := by
    have hnodup : ((book.trades.filter fun u => !u.closed).map (·.brokerTradeId)).Nodup :=
      List.Nodup.sublist (List.filter_sublist.map _) book.distinct
    have hone := List.nodup_iff_count_le_one.mp hnodup tradeId
    rwa [List.count, List.countP_map] at hone
  have heq := eq_of_looks_once (P := P) exec (fun op hop => by cases op <;> first | rfl | exact hop.elim)
    (fun book => by simpa [P] using hcount book) h h' (beq_self_eq_true _) (beq_self_eq_true _)
  exact eq_of_heq (Sigma.mk.inj heq).2

/-- A sweep emits the close of a trade, enters it in the ledger and marks the trade only when the
open list that it read does not have the trade, and the trade's details are CLOSED with a closing
transaction or the scanned transactions have a fill that closed it. Never is it a trade that is
reported as open. -/
theorem tells_of_closed (exec : Exec World.free s.sweep [] out t) :
    ∀ before e after, t = before ++ e :: after → s.emitter.Tells e.1 →
      ∃ u, Candidate before u ∧ s.emitter.TellsOf u e.1 ∧ Unlisted before u.brokerTradeId ∧
        (DetailsClosed before u.brokerTradeId ∨ FillScanned before u.brokerTradeId) ∧
        ¬ReportedOpen t u.brokerTradeId := by
  intro before e after hsplit htells
  obtain ⟨u, hu, htellsOf, hevidence⟩ :=
    (wpc_sound exec s.wpc_sweep).1 before e after hsplit htells
  refine ⟨u, hu, htellsOf, hevidence.unlisted, hevidence.source, ?_⟩
  have hmem : ∀ e ∈ before, e ∈ t := fun e he => hsplit ▸ List.mem_append_left _ he
  rintro (⟨listed, ids, hlisted, hids, hin⟩ | ⟨r, hasked, hopen⟩)
  · obtain ⟨listed', ids', hlisted', hids', hout⟩ := hevidence.unlisted
    obtain rfl := Except.ok.inj (openList_once exec hlisted (hmem _ hlisted'))
    obtain rfl := Except.ok.inj (hids.symm.trans hids')
    exact hout hin
  · obtain ⟨r', hasked', hnotOpen⟩ := hevidence.notOpen
    obtain rfl := getTrade_once exec hasked (hmem _ hasked')
    exact hnotOpen hopen

end CloseSweeper

/-! ### A stop that was hit -/

/-- The trade that the manager watches. -/
def watchedTrade : ManagedTrade :=
  buildManagedTrade "10" "EUR_USD" "BUY" (.ofRat (11 / 10)) none none Moment.first (some "H1")
    (some "sig-1") (some "key-1")

def watchedBook : TradeBook := ⟨[watchedTrade], List.nodup_singleton _⟩

/-- The broker lists no open trade and has the details of the closed one. -/
def watchedBroker : (op : CloseCall) → Except Exc op.Ans
  | .clock => .ok Moment.first
  | .getLastSweepAt => .ok none
  | .putLastSweepAt _ => .ok ()
  | .trades => .ok watchedBook
  | .getOpenTrades => .ok (.list [])
  | .getTrade _ => .ok (.dict [("state", .str "CLOSED"),
      ("closingTransactionIDs", .list [.str "12"]), ("realizedPL", .str "-5.0")])
  | .ledgerSeen _ => .ok false
  | .ledgerMark _ => .ok ()
  | .putTrade _ => .ok ()
  | .publisher .utcNowIso => .ok "2026-07-21T11:00:00Z"
  | .publisher (.outboxPublish _ _) => .ok ()
  | .publisher (.outboxPull _ _) => .ok []
  | _ => .error (.ofErr .attributeError)

def watchingSweeper : CloseSweeper :=
  ⟨⟨"ams-inbound.ams", "close_outbox", 3⟩, .ofRat 30, .ofRat 300⟩

/-- The sweep reads the open list and the details, and marks the trade. -/
theorem tells_of_closed_watched :
    let t := (watchingSweeper.sweep.run (World.record watchedBroker) []).2
    (t.map fun e => match e.1 with
      | .putTrade u => u.closed
      | _ => false).contains true = true ∧
      ∀ before e after, t = before ++ e :: after → watchingSweeper.emitter.Tells e.1 →
        ∃ u, Candidate before u ∧ watchingSweeper.emitter.TellsOf u e.1 ∧
          Unlisted before u.brokerTradeId ∧
          (DetailsClosed before u.brokerTradeId ∨ FillScanned before u.brokerTradeId) ∧
          ¬ReportedOpen t u.brokerTradeId :=
  ⟨by decide +kernel, CloseSweeper.tells_of_closed
    (exec_run (World.record_step watchedBroker) watchingSweeper.sweep [])⟩

end System2
