import Mathlib.Data.List.Induction
import System2.Execution.CloseTracker
import System2.Foundation.RunRecord

/-!
# What a scan of the transactions finds

The scan reads the account's transactions page by page from the trade's own id on. It keeps the
last fill that names the trade among those it closed.

## Implementation notes

A history is the list of the account's transactions in the order of their ids. The transport is
an answer to every call; on the id ranges it answers with the transactions of the history.
-/

namespace System2
open Foundation

/-- A transaction of the account: its fields, with an id that can be read. The entries of
`tradesClosed` matter for a fill alone. -/
structure Transaction where
  fields : Dict
  id : ℤ
  closes : List Dict
  idRead : (fields.get "id").toInt = .ok id
  closesRead : (fields.get "type").isStr "ORDER_FILL" = true →
    (if (fields.get "tradesClosed").truthy then (fields.get "tradesClosed").iter else .ok []) =
      .ok (closes.map PyVal.dict)

namespace Transaction

/-- Does an entry of `tradesClosed` name the trade? -/
def entryNames (tid : String) (closed : Dict) : Bool := (closed.get "tradeID").toStr = tid

/-- A fill that names the trade among those it closed. -/
def names (tid : String) (x : Transaction) : Bool :=
  (x.fields.get "type").isStr "ORDER_FILL" && x.closes.any (entryNames tid)

/-- What a transaction says of the trade: itself with each entry that names it. -/
def closings (tid : String) (x : Transaction) : List (Dict × Dict) :=
  if (x.fields.get "type").isStr "ORDER_FILL" then
    (x.closes.filter (entryNames tid)).map fun closed => (x.fields, closed)
  else []

variable {tid : String} {x : Transaction} {txn closed : Dict}

theorem mem_closings : (txn, closed) ∈ x.closings tid ↔
    txn = x.fields ∧ x.names tid = true ∧ closed ∈ x.closes ∧ entryNames tid closed = true := by
  unfold closings names
  cases (x.fields.get "type").isStr "ORDER_FILL" with
  | false => simp
  | true =>
      rw [if_pos rfl, List.mem_map]
      constructor
      · rintro ⟨c, hc, heq⟩
        obtain ⟨rfl, rfl⟩ := Prod.mk.inj heq
        obtain ⟨hmem, hnamed⟩ := List.mem_filter.mp hc
        exact ⟨rfl, by simpa using ⟨c, hmem, hnamed⟩, hmem, hnamed⟩
      · rintro ⟨rfl, -, hmem, hnamed⟩
        exact ⟨closed, List.mem_filter.mpr ⟨hmem, hnamed⟩, rfl⟩

theorem closings_eq_nil : x.closings tid = [] ↔ x.names tid = false := by
  unfold closings names
  cases (x.fields.get "type").isStr "ORDER_FILL" with
  | false => simp
  | true => simp

end Transaction

/-- The account's transactions in the order of their ids. -/
structure TxnHistory where
  txns : List Transaction
  ascending : txns.Pairwise fun x y => x.id < y.id

namespace TxnHistory

/-- The transactions of an inclusive id range. -/
def page (h : TxnHistory) (fromId toId : ℤ) : List Transaction :=
  h.txns.filter fun x => fromId ≤ x.id ∧ x.id ≤ toId

/-- A page as the transport hands it over. -/
def reply (h : TxnHistory) (fromId toId : ℤ) : PyVal :=
  .list ((h.page fromId toId).map fun x => .dict x.fields)

variable {h : TxnHistory} {first lo hi last : ℤ} {x : Transaction} {tid : String}

theorem mem_page : x ∈ h.page lo hi ↔ x ∈ h.txns ∧ lo ≤ x.id ∧ x.id ≤ hi := by
  simp [page, List.mem_filter]

theorem page_ascending (h : TxnHistory) (lo hi : ℤ) : (h.page lo hi).Pairwise fun x y => x.id < y.id :=
  h.ascending.sublist List.filter_sublist

/-- Neighbouring pages leave nothing out and share nothing. -/
theorem page_append (hlo : first ≤ lo) (hhi : lo ≤ hi + 1) :
    h.page first (lo - 1) ++ h.page lo hi = h.page first hi := by
  obtain ⟨txns, ascending⟩ := h
  unfold page
  dsimp only
  induction txns with
  | nil => rfl
  | cons x rest ih =>
      obtain ⟨hfirst, hrest⟩ := List.pairwise_cons.mp ascending
      have htail := ih hrest
      by_cases hbelow : x.id ≤ lo - 1
      · -- the first page goes on
        have hnot : ¬lo ≤ x.id := by omega
        have hle : x.id ≤ hi := by omega
        simp only [List.filter_cons, hbelow, hnot, hle, and_true, decide_false,
          Bool.false_eq_true, if_false]
        split_ifs
        · rw [List.cons_append, htail]
        · exact htail
      · -- nothing from here on is in the first page
        have hnone : ∀ y ∈ x :: rest, ¬(first ≤ y.id ∧ y.id ≤ lo - 1) := by
          intro y hy
          rcases List.mem_cons.mp hy with rfl | hy
          · omega
          · have := hfirst y hy
            omega
        have hempty : (x :: rest).filter (fun y => decide (first ≤ y.id ∧ y.id ≤ lo - 1)) = [] :=
          List.filter_eq_nil_iff.mpr fun y hy => by simpa using hnone y hy
        rw [hempty, List.nil_append]
        refine List.filter_congr fun y hy => ?_
        have := hnone y hy
        rw [decide_eq_decide]
        omega

theorem length_page_append (hlo : first ≤ lo) (hhi : lo ≤ hi + 1) :
    (h.page first hi).length = (h.page first (lo - 1)).length + (h.page lo hi).length := by
  rw [← page_append hlo hhi, List.length_append]

/-- What the transactions of an id range say of a trade, in order. -/
def closings (h : TxnHistory) (tid : String) (fromId toId : ℤ) : List (Dict × Dict) :=
  (h.page fromId toId).flatMap (Transaction.closings tid)

theorem closings_append (hlo : first ≤ lo) (hhi : lo ≤ hi + 1) :
    h.closings tid first (lo - 1) ++ h.closings tid lo hi = h.closings tid first hi := by
  rw [closings, closings, closings, ← page_append hlo hhi, List.flatMap_append]

end TxnHistory

/-- The fill with the largest id among those that name the trade, with an entry that names it;
nothing if none does. -/
def LastClosing (tid : String) (l : List Transaction) : Option (Dict × Dict) → Prop
  | none => ∀ x ∈ l, x.names tid = false
  | some (txn, closed) => ∃ x ∈ l, txn = x.fields ∧ x.names tid = true ∧ closed ∈ x.closes ∧
      Transaction.entryNames tid closed = true ∧ ∀ y ∈ l, y.names tid = true → y.id ≤ x.id

/-- The last closing that ascending transactions tell of. -/
theorem last_closing (tid : String) {l : List Transaction}
    (ascending : l.Pairwise fun x y => x.id < y.id) :
    LastClosing tid l (l.flatMap (Transaction.closings tid)).getLast? := by
  induction l using List.reverseRecOn with
  | nil => exact fun x hx => absurd hx List.not_mem_nil
  | append_singleton l x ih =>
      obtain ⟨hl, -, hbefore⟩ := List.pairwise_append.mp ascending
      have hlt : ∀ y ∈ l, y.id < x.id := fun y hy => hbefore y hy x (List.mem_singleton_self x)
      rw [List.flatMap_append, List.flatMap_singleton, List.getLast?_append]
      cases hlast : (x.closings tid).getLast? with
      | none =>
          -- the last transaction says nothing, and the closing is an earlier one
          have hnot : x.names tid = false :=
            Transaction.closings_eq_nil.mp (List.getLast?_eq_none_iff.mp hlast)
          have hearlier := ih hl
          rw [Option.none_or]
          generalize (l.flatMap (Transaction.closings tid)).getLast? = found at hearlier ⊢
          match found, hearlier with
          | none, hearlier =>
              intro y hy
              rcases List.mem_append.mp hy with hy | hy
              · exact hearlier y hy
              · exact List.mem_singleton.mp hy ▸ hnot
          | some (txn, closed), ⟨z, hz, htxn, hnames, hmem, hentry, hmax⟩ =>
              refine ⟨z, List.mem_append_left _ hz, htxn, hnames, hmem, hentry, ?_⟩
              intro y hy hyn
              rcases List.mem_append.mp hy with hy | hy
              · exact hmax y hy hyn
              · rw [List.mem_singleton.mp hy, hnot] at hyn
                cases hyn
      | some found =>
          obtain ⟨txn, closed⟩ := found
          obtain ⟨htxn, hnames, hmem, hentry⟩ :=
            Transaction.mem_closings.mp (List.mem_of_getLast? hlast)
          refine ⟨x, by simp, htxn, hnames, hmem, hentry, ?_⟩
          intro y hy _
          rcases List.mem_append.mp hy with hy | hy
          · exact (hlt y hy).le
          · rw [List.mem_singleton.mp hy]

namespace CloseTracker

variable {h : TxnHistory} {answer : (op : CloseCall) → Except Exc op.Ans} {tid : String}
  {first last lo hi : ℤ} {scan : TxnScan} {pages scanned : ℕ} {l : List Transaction}

/-- The transport answers with exactly the transactions of the range that it is asked for. -/
def Exact (h : TxnHistory) (answer : (op : CloseCall) → Except Exc op.Ans) : Prop :=
  ∀ fromId toId, answer (.getTransactionsIdrange fromId toId) = .ok (h.reply fromId toId)

/-- What a scan has found when it has read what some transactions say of the trade. -/
def Found (scan : TxnScan) (said : List (Dict × Dict)) : Prop := scan.found = said.getLast?

/-- The entries of one fill. -/
theorem readClosed_all (tid : String) (txn : Dict) (closes : List Dict) {said : List (Dict × Dict)}
    (hscan : Found scan said) :
    ∃ scan', (closes.map PyVal.dict).foldlM (fun s closed => s.readClosed tid txn closed) scan =
        .ok scan' ∧
      Found scan' (said ++
        (closes.filter (Transaction.entryNames tid)).map fun closed => (txn, closed)) := by
  induction closes generalizing scan said with
  | nil => exact ⟨scan, rfl, by simpa using hscan⟩
  | cons closed rest ih =>
      by_cases hnamed : Transaction.entryNames tid closed = true
      · have hread : scan.readClosed tid txn (.dict closed) =
            .ok { scan with found := some (txn, closed) } :=
          congrArg Except.ok (if_pos (of_decide_eq_true hnamed))
        obtain ⟨scan', hfold, hfound⟩ := ih (show Found { scan with found := some (txn, closed) }
          (said ++ [(txn, closed)]) by simp [Found])
        refine ⟨scan', ?_, by simpa [hnamed] using hfound⟩
        rw [List.map_cons, List.foldlM_cons, hread]
        exact hfold
      · have hread : scan.readClosed tid txn (.dict closed) = .ok scan :=
          congrArg Except.ok (if_neg (of_decide_eq_false (Bool.eq_false_iff.mpr hnamed)))
        obtain ⟨scan', hfold, hfound⟩ := ih hscan
        refine ⟨scan', ?_, by simpa [hnamed] using hfound⟩
        rw [List.map_cons, List.foldlM_cons, hread]
        exact hfold

/-- One transaction. -/
theorem read_transaction (tid : String) (x : Transaction) {said : List (Dict × Dict)}
    (hscan : Found scan said) :
    ∃ scan', scan.read tid (.dict x.fields) = .ok scan' ∧ Found scan' (said ++ x.closings tid) := by
  unfold Transaction.closings
  cases hfill : (x.fields.get "type").isStr "ORDER_FILL" with
  | false =>
      refine ⟨{ scan with txnById := scan.txnById.set (x.fields.get "id").toStr (.dict x.fields) },
        ?_, by simpa [Found] using hscan⟩
      simp [TxnScan.read, PyVal.getAttrGet, hfill]
  | true =>
      obtain ⟨scan', hfold, hfound⟩ := readClosed_all tid x.fields x.closes
        (show Found { scan with
          txnById := scan.txnById.set (x.fields.get "id").toStr (.dict x.fields) } said from hscan)
      refine ⟨scan', ?_, hfound⟩
      have hread := x.closesRead hfill
      simp only [TxnScan.read, PyVal.getAttrGet, PyVal.entries_dict, hfill, Bool.not_true,
        Bool.false_eq_true, if_false]
      by_cases hlisted : (x.fields.get "tradesClosed").truthy = true
      · rw [if_pos hlisted] at hread
        simp only [if_pos hlisted, hread]
        exact hfold
      · rw [if_neg hlisted] at hread
        simp only [if_neg hlisted, hread]
        exact hfold

/-- The transactions of a page. -/
theorem read_all (tid : String) (l : List Transaction) {said : List (Dict × Dict)}
    (hscan : Found scan said) :
    ∃ scan', (l.map fun x => PyVal.dict x.fields).foldlM (TxnScan.read tid) scan = .ok scan' ∧
      Found scan' (said ++ l.flatMap (Transaction.closings tid)) := by
  induction l generalizing scan said with
  | nil => exact ⟨scan, rfl, by simpa using hscan⟩
  | cons x rest ih =>
      obtain ⟨scan₁, hread, hfound⟩ := read_transaction tid x hscan
      obtain ⟨scan', hfold, hfound'⟩ := ih hfound
      refine ⟨scan', ?_, by simpa using hfound'⟩
      rw [List.map_cons, List.foldlM_cons, hread]
      exact hfold

/-- No id of a page is beyond its end. -/
theorem highestId_eq (hl : ∀ x ∈ l, x.id ≤ hi) :
    highestId hi (l.map fun x => .dict x.fields) = .ok hi := by
  induction l with
  | nil => rfl
  | cons x rest ih =>
      have hx : max hi x.id = hi := max_eq_left (hl x List.mem_cons_self)
      have hread : (PyVal.getAttrGet (.dict x.fields) "id").bind PyVal.toInt = .ok x.id := x.idRead
      rw [List.map_cons, highestId, hread]
      dsimp only
      rw [hx]
      exact ih fun y hy => hl y (List.mem_cons_of_mem _ hy)

theorem outcome_fetch (hexact : Exact h answer) (lo hi : ℤ) :
    (fetchTransactionRange lo hi).outcome answer =
      .ok ((h.page lo hi).map fun x => .dict x.fields) := by
  unfold fetchTransactionRange
  rw [Proc.bind_eq, Proc.outcome_bind, Proc.outcome_perform, hexact lo hi]
  change Proc.outcome answer (convert _) = _
  rw [convert, Proc.outcome_ofExcept]
  cases hpage : h.page lo hi with
  | nil => simp [TxnHistory.reply, hpage, PyVal.truthy]
  | cons x rest => simp [TxnHistory.reply, hpage, PyVal.truthy, PyVal.iter]

theorem mem_trail_fetch (hexact : Exact h answer) :
    ⟨.getTransactionsIdrange lo hi, .ok (h.reply lo hi)⟩ ∈
      (fetchTransactionRange lo hi).trail answer := by
  have hanswer : (perform (.getTransactionsIdrange lo hi)).outcome answer =
      .ok (h.reply lo hi) := by rw [Proc.outcome_perform, hexact lo hi]
  unfold fetchTransactionRange
  rw [Proc.bind_eq, Proc.trail_bind_ok _ hanswer, Proc.trail_perform, hexact lo hi]
  exact List.mem_append_left _ (List.mem_singleton_self _)

/-- Behind its last page a scan has read everything that is said of the trade. -/
theorem found_all (hlo : first ≤ lo) (hle : lo ≤ last + 1) (hrest : h.page lo last = [])
    (hfound : Found scan (h.closings tid first (lo - 1))) :
    Found scan (h.closings tid first last) := by
  have hnothing : h.closings tid lo last = [] := by rw [TxnHistory.closings, hrest]; rfl
  rw [← TxnHistory.closings_append hlo hle, hnothing, List.append_nil]
  exact hfound

/-- The pages that a scan requests have transactions. -/
def PagesFull (h : TxnHistory) (t : List (Event CloseI Exc)) : Prop :=
  ∀ e ∈ t, ∀ fromId toId, e.1 = .getTransactionsIdrange fromId toId → h.page fromId toId ≠ []

/-- The loop over the pages. Everything below `lo` is read, and what is read is counted; as every
page has a transaction, the pages last until the count ends the loop. -/
theorem outcome_scanPages (hexact : Exact h answer)
    (few : (h.page first last).length ≤ txnMaxScan) (hlo : first ≤ lo) (hle : lo ≤ last + 1)
    (hscanned : scanned = (h.page first (lo - 1)).length) (hpages : txnMaxScan ≤ scanned + pages)
    (hfound : Found scan (h.closings tid first (lo - 1)))
    (full : PagesFull h ((scanPages tid last pages lo scanned scan).trail answer)) :
    ∃ scan', (scanPages tid last pages lo scanned scan).outcome answer = .ok scan' ∧
      Found scan' (h.closings tid first last) := by
  have hcount := h.length_page_append hlo hle
  induction pages generalizing lo scanned scan with
  | zero =>
      refine ⟨scan, rfl, found_all hlo hle (List.length_eq_zero_iff.mp ?_) hfound⟩
      omega
  | succ pages ih =>
      unfold scanPages at full ⊢
      by_cases hend : (decide (last < lo) || decide (txnMaxScan ≤ scanned)) = true
      · rw [if_pos hend]
        refine ⟨scan, rfl, found_all hlo hle ?_ hfound⟩
        rcases Bool.or_eq_true_iff.mp hend with hover | hmany
        · have hlast := of_decide_eq_true hover
          rw [List.eq_nil_iff_forall_not_mem]
          intro x hx
          obtain ⟨-, hge, hle'⟩ := TxnHistory.mem_page.mp hx
          omega
        · have hmax := of_decide_eq_true hmany
          exact List.length_eq_zero_iff.mp (by omega)
      · rw [if_neg hend] at full ⊢
        have hin : lo ≤ last := by simp at hend; omega
        dsimp only [Proc.bind_eq] at full ⊢
        generalize hhi : min (lo + txnPageSize - 1) last = hi at full ⊢
        have hlohi : lo ≤ hi := by rw [← hhi, txnPageSize]; omega
        have hhilast : hi ≤ last := by omega
        have hbatch := outcome_fetch hexact lo hi
        rw [Proc.outcome_bind_ok _ hbatch]
        rw [Proc.trail_bind_ok _ hbatch] at full
        have hpage : h.page lo hi ≠ [] :=
          full _ (List.mem_append_left _ (mem_trail_fetch hexact)) lo hi rfl
        have hnonempty : ((h.page lo hi).map fun x => PyVal.dict x.fields).isEmpty ≠ true := by
          simpa using hpage
        have hlength : 0 < (h.page lo hi).length := List.length_pos_iff.mpr hpage
        rw [if_neg hnonempty] at full ⊢
        obtain ⟨scan₁, hread, hfound₁⟩ := read_all tid (h.page lo hi) hfound
        have hhighest : highestId hi ((h.page lo hi).map fun x => .dict x.fields) = .ok hi :=
          highestId_eq fun x hx => (TxnHistory.mem_page.mp hx).2.2
        simp only [convert, hread, hhighest, Exc.lift_ok, Proc.ofExcept, Proc.ret_bind,
          List.length_map] at full ⊢
        have hfold : h.closings tid first (lo - 1) ++ h.closings tid lo hi =
            h.closings tid first (hi + 1 - 1) := by
          rw [TxnHistory.closings_append hlo (by omega), add_sub_cancel_right]
        have hpart : (h.page first hi).length =
            (h.page first (lo - 1)).length + (h.page lo hi).length :=
          h.length_page_append hlo (by omega)
        refine ih (by omega) (by omega) ?_ (by omega) (hfold ▸ hfound₁) ?_ ?_
        · rw [add_sub_cancel_right]
          omega
        · exact fun e he => full e (List.mem_append_right _ he)
        · exact h.length_page_append (by omega) (by omega)

/-- The count ends a scan, not the bound on the pages: with more pages it is the same scan. -/
theorem scanPages_add (more : ℕ) (hpages : txnMaxScan ≤ scanned + pages) :
    scanPages tid last (pages + more) lo scanned scan =
      scanPages tid last pages lo scanned scan := by
  induction pages generalizing lo scanned scan with
  | zero =>
      cases more with
      | zero => rfl
      | succ more =>
          have hend : (decide (last < lo) || decide (txnMaxScan ≤ scanned)) = true :=
            Bool.or_eq_true_iff.mpr (Or.inr (decide_eq_true hpages))
          rw [Nat.zero_add]
          exact if_pos hend
  | succ pages ih =>
      rw [Nat.add_right_comm pages 1 more, scanPages, scanPages]
      split_ifs
      · rfl
      · refine congrArg (Proc.bind (fetchTransactionRange lo (min (lo + txnPageSize - 1) last)))
          (funext fun batch => ?_)
        cases batch with
        | nil => rfl
        | cons txn rest =>
            have hnext (scan' : TxnScan) (highest : ℤ) :
                scanPages tid last (pages + more) (highest + 1)
                    (scanned + (txn :: rest).length) scan' =
                  scanPages tid last pages (highest + 1) (scanned + (txn :: rest).length) scan' := by
              refine ih ?_
              rw [List.length_cons]
              omega
            simp only [hnext]

/-- A scan whose pages all have transactions, and not too many, finds the last fill that names the
trade, and no other bound than the count ends it. -/
theorem findCloseTransaction_finds {tradeId : String} {toId : Option ℤ}
    (numeric : (PyVal.str tradeId).toInt = .ok first)
    (ends : (scanEnd toId).outcome answer = .ok (some last)) (hexact : Exact h answer)
    (few : (h.page first last).length ≤ txnMaxScan)
    (full : PagesFull h ((findCloseTransaction tradeId toId).trail answer)) :
    ∃ found, (findCloseTransaction tradeId toId).outcome answer = .ok found ∧
      LastClosing tradeId (h.page first last) (found.map fun c => (c.txn, c.closed)) ∧
      ∀ more, scanPages tradeId last (txnMaxScan + more) first 0 ⟨[], none⟩ =
        scanPages tradeId last txnMaxScan first 0 ⟨[], none⟩ := by
  have hmore (more : ℕ) : scanPages tradeId last (txnMaxScan + more) first 0 ⟨[], none⟩ =
      scanPages tradeId last txnMaxScan first 0 ⟨[], none⟩ :=
    scanPages_add more (Nat.zero_add txnMaxScan).ge
  unfold findCloseTransaction at full ⊢
  rw [numeric] at full ⊢
  dsimp only [Proc.bind_eq] at full ⊢
  rw [Proc.outcome_bind_ok _ ends]
  rw [Proc.trail_bind_ok _ ends] at full
  dsimp only at full ⊢
  have hbelow : h.page first (first - 1) = [] := by
    rw [List.eq_nil_iff_forall_not_mem]
    intro x hx
    obtain ⟨-, hge, hle⟩ := TxnHistory.mem_page.mp hx
    omega
  by_cases hempty : last < first
  · rw [if_pos hempty]
    refine ⟨none, rfl, fun x hx => ?_, hmore⟩
    obtain ⟨-, hge, hle⟩ := TxnHistory.mem_page.mp hx
    omega
  · rw [if_neg hempty] at full ⊢
    have hstart : Found ⟨[], none⟩ (h.closings tradeId first (first - 1)) := by
      rw [Found, TxnHistory.closings, hbelow]
      rfl
    have hpages : PagesFull h
        ((scanPages tradeId last txnMaxScan first 0 ⟨[], none⟩).trail answer) := by
      intro e he
      refine full e (List.mem_append_right _ ?_)
      cases hscan : (scanPages tradeId last txnMaxScan first 0 ⟨[], none⟩).outcome answer with
      | ok scan => exact Proc.trail_bind_ok _ hscan ▸ List.mem_append_left _ he
      | error e' => exact Proc.trail_bind_error _ hscan ▸ he
    obtain ⟨scan, hscan, hfound⟩ := outcome_scanPages hexact few (le_refl first) (by omega)
      (by rw [hbelow]; rfl) (Nat.zero_add txnMaxScan).ge hstart hpages
    refine ⟨_, Proc.outcome_bind_ok _ hscan, ?_, hmore⟩
    have hlast := last_closing tradeId (h.page_ascending first last)
    rw [TxnHistory.closings.eq_1, Found] at hfound
    rw [← hfound] at hlast
    simpa [Option.map_map, Function.comp_def] using hlast

/-- A trade that is closed in two parts, at the end of a page and at the start of the next. -/
def closedInParts : TxnHistory where
  txns :=
    [⟨[("id", .str "10"), ("type", .str "ORDER_FILL")], 10, [], by decide, fun _ => rfl⟩,
      ⟨[("id", .str "11"), ("type", .str "STOP_LOSS_ORDER")], 11, [], by decide,
        fun _ => rfl⟩,
      ⟨[("id", .str "509"), ("type", .str "ORDER_FILL"),
          ("tradesClosed", .list [.dict [("tradeID", .str "10"), ("units", .str "-400")]])],
        509, [[("tradeID", .str "10"), ("units", .str "-400")]], by decide, fun _ => rfl⟩,
      ⟨[("id", .str "510"), ("type", .str "ORDER_FILL"),
          ("tradesClosed", .list [.dict [("tradeID", .str "10"), ("units", .str "-600")]])],
        510, [[("tradeID", .str "10"), ("units", .str "-600")]], by decide, fun _ => rfl⟩,
      ⟨[("id", .str "600"), ("type", .str "ORDER_FILL"),
          ("tradesClosed", .list [.dict [("tradeID", .str "12")]])],
        600, [[("tradeID", .str "12")]], by decide, fun _ => rfl⟩]
  ascending := by decide

/-- A broker with that history. -/
def brokerInParts : (op : CloseCall) → Except Exc op.Ans
  | .getAccountSummary => .ok (.dict [("lastTransactionID", .str "600")])
  | .getTransactionsIdrange fromId toId => .ok (closedInParts.reply fromId toId)
  | _ => .error (.ofErr .attributeError)

/-- The page of a call has transactions. -/
def pageFull (h : TxnHistory) : CloseCall → Bool
  | .getTransactionsIdrange fromId toId => !(h.page fromId toId).isEmpty
  | _ => true

theorem pagesFull_of_all {t : List (Event CloseI Exc)} (hall : t.all fun e => pageFull h e.1) :
    PagesFull h t := by
  intro e he fromId toId hcall
  have hfull := List.all_eq_true.mp hall e he
  rw [hcall] at hfull
  simpa [pageFull] using hfull

theorem findCloseTransaction_finds_inParts :
    ∃ found, (findCloseTransaction "10" none).outcome brokerInParts = .ok found ∧
      LastClosing "10" (closedInParts.page 10 600) (found.map fun c => (c.txn, c.closed)) ∧
      ∀ more, scanPages "10" 600 (txnMaxScan + more) 10 0 ⟨[], none⟩ =
        scanPages "10" 600 txnMaxScan 10 0 ⟨[], none⟩ :=
  findCloseTransaction_finds (by decide) (by rfl) (fun _ _ => rfl) (by decide)
    (pagesFull_of_all (by decide +kernel))

end CloseTracker

end System2
