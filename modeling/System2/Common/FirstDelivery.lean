import System2.Common.DeadLetters
import System2.Common.SoleConsumer

/-!
# First deliveries in order

A pull selects the ready rows of its topic in the order of their keys and leases them one
by one. Other instances lease, settle and reclaim rows between any two of its statements,
and a row that was given back may well be delivered after a younger one. But the first
lease of a row comes after the first leases of all older rows of its topic: a row that was
never leased is ready and available at once, so every selection that reaches a younger row
has it too, and the pull tries it first.
-/

namespace System2
open Foundation

/-! ### What a record says of leases and selections -/

/-- Row `seq` was leased at some time. -/
def WasLeased (t : List QueueEvent) (seq : ℕ) : Prop := ∃ ackId, LeasedIn t seq ackId

/-- The lease of row `seq` was tried, with or without success. -/
def Tried (t : List QueueEvent) (seq : ℕ) : Prop :=
  ∃ ackId owner leaseSec claimed, ⟨.lease seq ackId owner leaseSec, .ok claimed⟩ ∈ t

/-- The row `seq` was found by its handle. -/
def FoundIn (t : List QueueEvent) (seq : ℕ) : Prop :=
  ∃ ackId body attempts, ⟨.selectAckId ackId, .ok (some ⟨seq, body, attempts⟩)⟩ ∈ t

/-- A row of a topic was selected for delivery, behind others. -/
def SelectedIn (t : List QueueEvent) (topic : String) (before : List Picked) (pick : Picked) :
    Prop :=
  ∃ now limit rest, ⟨.selectAvailable topic now limit, .ok (before ++ pick :: rest)⟩ ∈ t

/-- A row is leased when those before it in the selection were tried, and released when it was
found by its handle. -/
def InTurn (t : List QueueEvent) : QueueCall → Prop
  | .lease seq _ _ _ => ∃ topic before pick, SelectedIn t topic before pick ∧ pick.seq = seq ∧
      ∀ earlier ∈ before, Tried t earlier.seq
  | .release seq _ => FoundIn t seq
  | _ => True

section Records

variable {t t' : List QueueEvent} {e : QueueEvent} {q : ℕ} {op : QueueCall}

theorem WasLeased.mono (h : WasLeased t q) (hsub : t ⊆ t') : WasLeased t' q := by
  obtain ⟨ackId, owner, leaseSec, hmem⟩ := h
  exact ⟨ackId, owner, leaseSec, hsub hmem⟩

theorem Tried.mono (h : Tried t q) (hsub : t ⊆ t') : Tried t' q := by
  obtain ⟨ackId, owner, leaseSec, claimed, hmem⟩ := h
  exact ⟨ackId, owner, leaseSec, claimed, hsub hmem⟩

theorem InTurn.mono (h : InTurn t op) (hsub : t ⊆ t') : InTurn t' op := by
  cases op with
  | lease seq ackId owner leaseSec =>
      obtain ⟨topic, before, pick, ⟨now, limit, rest, hmem⟩, hseq, hbefore⟩ := h
      exact ⟨topic, before, pick, ⟨now, limit, rest, hsub hmem⟩, hseq, fun earlier hearlier =>
        (hbefore earlier hearlier).mono hsub⟩
  | release seq availableAt =>
      obtain ⟨ackId, body, attempts, hmem⟩ := h
      exact ⟨ackId, body, attempts, hsub hmem⟩
  | _ => exact trivial

theorem wasLeased_concat_iff : WasLeased (t ++ [e]) q ↔ WasLeased t q ∨
    ∃ ackId owner leaseSec, e = ⟨.lease q ackId owner leaseSec, .ok true⟩ := by
  simp only [WasLeased, leasedIn_concat_iff, exists_or]

theorem SelectedIn.offered {topic : String} {before : List Picked} {pick : Picked}
    (h : SelectedIn t topic before pick) : OfferedIn t topic pick.seq pick.body := by
  obtain ⟨now, limit, rest, hmem⟩ := h
  exact ⟨now, limit, _, pick.attempts, hmem, List.mem_append_right _ List.mem_cons_self⟩

end Records

/-! ### The procedures keep to it -/

variable {ι : Type}

def turnProtocol : Protocol ι QueueI Exc ClockedFile := fun _ t op => InTurn t op

theorem turnProtocol_monotone : (turnProtocol (ι := ι)).Monotone := fun _ _ _ _ h => h

namespace LocalDurableBackend

variable {log : QueueLog ι} {t : List QueueEvent} {b : LocalDurableBackend}
  {subscription : String} {msg : ReceivedMessage}

/-- Calls that neither lease nor release a row. -/
def LeavesRows : QueueCall → Prop
  | .lease _ _ _ _ => False
  | .release _ _ => False
  | _ => True

theorem LeavesRows.inTurn {op : QueueCall} (h : LeavesRows op) (t : List QueueEvent) :
    InTurn t op := by
  cases op with
  | lease seq ackId owner leaseSec => exact h.elim
  | release seq availableAt => exact h.elim
  | _ => exact trivial

theorem reclaim_leavesRows : (b.reclaim subscription).Only LeavesRows := by
  refine only_reclaim.mono fun op hop => ?_
  cases op with
  | lease seq ackId owner leaseSec => exact hop.elim
  | release seq availableAt => exact hop.elim
  | _ => exact trivial

theorem wpc_leaves {α : Type} {p : Proc QueueI Exc α} (hp : p.Only LeavesRows)
    (hkept : turnProtocol.Kept log t) :
    wpc World.free (turnProtocol.Kept log) p (fun _ _ => True) t :=
  Protocol.wpc_kept_of_only hp (fun t _ hop => hop.inTurn t) hkept

/-- The selected rows are leased in turn. -/
theorem wpc_leaseRows_inTurn (before : List Picked) {rows : List Picked} {now : Binary64}
    {limit : ℤ} (hkept : turnProtocol.Kept log t)
    (hselected : ⟨.selectAvailable subscription now limit, .ok (before ++ rows)⟩ ∈ t)
    (hbefore : ∀ earlier ∈ before, Tried t earlier.seq) :
    wpc World.free (turnProtocol.Kept log) (b.leaseRows subscription rows) (fun _ _ => True) t := by
  induction rows generalizing before t with
  | nil => exact ⟨hkept, trivial⟩
  | cons row rest ih =>
      refine Protocol.wpc_allowed_bind hkept trivial ?_ fun _ => trivial
      intro ackId hkept₁
      have hselected₁ := List.mem_append_left [⟨.uuid4, .ok ackId⟩] hselected
      have hturn : InTurn (t ++ [⟨.uuid4, .ok ackId⟩])
          (.lease row.seq ackId b.owner b.leaseSec) := by
        refine ⟨subscription, before, row, ⟨now, limit, rest, hselected₁⟩, rfl, ?_⟩
        exact fun earlier hearlier =>
          (hbefore earlier hearlier).mono (List.subset_append_left t _)
      refine Protocol.wpc_allowed_bind hkept₁ hturn ?_ fun _ => trivial
      intro claimed hkept₂
      have hrest : wpc World.free (turnProtocol.Kept log) (b.leaseRows subscription rest)
          (fun _ _ => True) ((t ++ [⟨.uuid4, .ok ackId⟩]) ++
            [⟨.lease row.seq ackId b.owner b.leaseSec, .ok claimed⟩]) := by
        apply ih (before ++ [row]) hkept₂
        · rw [List.append_assoc before]
          exact List.mem_append_left _ hselected₁
        · intro earlier hearlier
          rcases List.mem_append.mp hearlier with hold | hnow
          · apply (hbefore earlier hold).mono
            rw [List.append_assoc]
            exact List.subset_append_left t _
          · rw [List.mem_singleton.mp hnow]
            exact ⟨ackId, b.owner, b.leaseSec, claimed,
              List.mem_append_right _ (List.mem_singleton_self _)⟩
      split_ifs
      · cases row.body.loads with
        | error e => exact ⟨hkept₂, trivial⟩
        | ok body =>
            refine wpc_seq (p := b.leaseRows subscription rest) hrest ?_ fun _ _ _ _ => trivial
            exact fun _ _ hkept₃ _ => ⟨hkept₃, trivial⟩
      · exact hrest

theorem wpc_pull_inTurn {maxMessages : ℤ} (hkept : turnProtocol.Kept log t) :
    wpc World.free (turnProtocol.Kept log) (b.pull subscription maxMessages)
      (fun _ _ => True) t := by
  refine wpc_seq (wpc_leaves reclaim_leavesRows hkept) ?_ fun _ _ _ _ => trivial
  intro _ t₁ hkept₁ _
  refine Protocol.wpc_allowed_bind hkept₁ trivial ?_ fun _ => trivial
  intro now hkept₂
  refine Protocol.wpc_allowed_bind hkept₂ trivial ?_ fun _ => trivial
  intro rows hkept₃
  apply wpc_leaseRows_inTurn [] hkept₃
  · exact List.mem_append_right _ (List.mem_singleton_self _)
  · intro earlier hearlier
    cases hearlier

theorem toDlq_leavesRows {reason : FString} : (toDlq msg reason).Only LeavesRows :=
  (Proc.along_perform trivial).bind fun _ => (Proc.along_perform trivial).bind fun _ =>
    Proc.along_perform trivial

theorem wpc_nack_inTurn {backoffSec : Binary64} (hkept : turnProtocol.Kept log t) :
    wpc World.free (turnProtocol.Kept log) (b.nack msg backoffSec) (fun _ _ => True) t := by
  refine Protocol.wpc_allowed_bind hkept trivial ?_ fun _ => trivial
  intro picked hkept₁
  cases picked with
  | none => exact ⟨hkept₁, trivial⟩
  | some pick =>
      simp only
      split_ifs
      · exact wpc_leaves toDlq_leavesRows hkept₁
      · refine Protocol.wpc_allowed_bind hkept₁ trivial ?_ fun _ => trivial
        intro now hkept₂
        refine Protocol.wpc_allowed hkept₂ ⟨msg.ackId, pick.body, pick.attempts, ?_⟩ fun _ => trivial
        exact List.mem_append_left _ (List.mem_append_right _ (List.mem_singleton_self _))

end LocalDurableBackend

theorem Caller.inTurn {i : ι} {log : QueueLog ι} {p : Proc QueueI Exc Unit}
    {t : List QueueEvent} (h : Caller i log p) (hkept : turnProtocol.Kept log t) :
    turnProtocol.Follows log p t := by
  cases h with
  | publish => exact Protocol.wpc_allowed hkept trivial fun _ => trivial
  | pull =>
      refine wpc_seq (LocalDurableBackend.wpc_pull_inTurn hkept) ?_ fun _ _ _ _ => trivial
      exact fun _ t' hkept' _ => ⟨hkept', trivial⟩
  | @settle b msg how hmsg =>
      cases how with
      | ack => exact Protocol.wpc_allowed hkept trivial fun _ => trivial
      | nack backoffSec => exact LocalDurableBackend.wpc_nack_inTurn hkept
      | toDlq reason =>
          exact LocalDurableBackend.wpc_leaves LocalDurableBackend.toDlq_leavesRows hkept

/-! ### What is so of the rows -/

/-- A row that nobody has touched. -/
def QueueRow.Fresh (row : QueueRow) : Prop :=
  row.state = .ready ∧ row.ackId = none ∧ row.availableAt = .zero

section Rows

variable {s s' : ClockedFile} {op : QueueCall} {r : Except Exc op.Ans} {q : ℕ}
  {row row' : QueueRow}

/-- A row was there before, with its topic, or it has just been inserted. -/
theorem row_before (step : clockedWorld s op r s') (hrow' : s'.file.table.get? q = some row') :
    (∃ row, s.file.table.get? q = some row ∧ row'.topic = row.topic) ∨
      q = s.file.table.next ∧ row'.Fresh := by
  rcases step with ⟨dbNow, a, -, -, rfl⟩ | ⟨-, rfl⟩
  · rcases QueueCall.of_after hrow' with ⟨row, hrow, hleft⟩ | ⟨topic, body, rfl, hnext, rfl⟩
    · exact Or.inl ⟨row, hrow, hleft.same.1⟩
    · exact Or.inr ⟨hnext, rfl, rfl, rfl⟩
  · exact Or.inl ⟨row', hrow', rfl⟩

/-- Only a lease or a release of its own touches a fresh row. -/
theorem Fresh.step (step : clockedWorld s op r s') (hrow : s.file.table.get? q = some row)
    (hfresh : row.Fresh)
    (hlease : ∀ ackId owner leaseSec,
      (⟨op, r⟩ : QueueEvent) ≠ ⟨.lease q ackId owner leaseSec, .ok true⟩)
    (hrelease : ∀ availableAt, op ≠ .release q availableAt) :
    s'.file.table.get? q = some row := by
  obtain ⟨hready, hid, -⟩ := hfresh
  rcases step with ⟨dbNow, a, rfl, hanswers, rfl⟩ | ⟨-, rfl⟩
  swap
  · exact hrow
  obtain ⟨row', hrow', hleft⟩ := op.exists_after hrow
  cases hleft with
  | kept => exact hrow'
  | @leased ackId owner leaseSec =>
      have hclaimed : a = true := by
        rw [show a = QueueTable.isIn s.file.table q .ready from hanswers]
        simp [QueueTable.isIn, hrow, hready]
      subst hclaimed
      exact absurd rfl (hlease ackId owner leaseSec)
  | released => exact absurd rfl (hrelease _)
  | reclaimed hinflight => cases hready.symm.trans hinflight
  | claimed hinflight => cases hready.symm.trans hinflight
  | done held => cases hid.symm.trans held
  | dead held => cases hid.symm.trans held

end Rows

/-! ### The order of first leases -/

/-- Of keys that ascend, those below one of them stand before it. -/
theorem mem_front_of_lt {front rest keys : List ℕ} {q k : ℕ} (hkeys : keys.Pairwise (· < ·))
    (hfront : front ++ k :: rest <+: keys) (hq : q ∈ keys) (hlt : q < k) : q ∈ front := by
  obtain ⟨behind, rfl⟩ := hfront
  rw [List.append_assoc, List.cons_append] at hkeys hq
  rcases List.mem_append.mp hq with hmem | hmem
  · exact hmem
  · have hle : k ≤ q := by
      rcases List.mem_cons.mp hmem with rfl | hmem
      · exact le_rfl
      · have hcons := (List.pairwise_append.mp hkeys).2.1
        exact Nat.le_of_lt ((List.pairwise_cons.mp hcons).1 q hmem)
    omega

theorem limited_leads {α : Type} (n : ℤ) (rows : List α) : limited n rows <+: rows := by
  unfold limited
  split_ifs
  · exact List.prefix_rfl
  · exact List.take_prefix _ rows

/-- What the record of a file says of the leases: what was never leased is fresh, what was tried
or found was leased, and ahead of a selected row that was never leased there is nothing but what
was leased or selected too. -/
structure TurnRecord (t : List QueueEvent) (s : ClockedFile) : Prop where
  there : ∀ q, WasLeased t q → ∃ row, s.file.table.get? q = some row
  fresh : ∀ q row, s.file.table.get? q = some row → ¬ WasLeased t q → row.Fresh
  tried : ∀ q, Tried t q → WasLeased t q
  found : ∀ q, FoundIn t q → WasLeased t q
  selected : ∀ topic before pick, SelectedIn t topic before pick → ¬ WasLeased t pick.seq →
    ∀ q row, s.file.table.get? q = some row → row.topic = topic → q < pick.seq →
      WasLeased t q ∨ q ∈ before.map Picked.seq
  ordered : ∀ q q' row row', s.file.table.get? q = some row → s.file.table.get? q' = some row' →
    row.topic = row'.topic → q < q' → WasLeased t q' → WasLeased t q

namespace TurnRecord

variable {t : List QueueEvent} {s s' : ClockedFile} {op : QueueCall} {r : Except Exc op.Ans}
  {q q' : ℕ} {row row' : QueueRow}

theorem empty : TurnRecord [] ⟨⟨.empty, []⟩, []⟩ where
  there := by
    rintro q ⟨ackId, owner, leaseSec, hmem⟩
    cases hmem
  fresh := by
    intro q row hrow
    cases hrow
  tried := by
    rintro q ⟨ackId, owner, leaseSec, claimed, hmem⟩
    cases hmem
  found := by
    rintro q ⟨ackId, body, attempts, hmem⟩
    cases hmem
  selected := by
    intro topic before pick _ _ q row hrow
    cases hrow
  ordered := by
    intro q q' row row' hrow
    cases hrow

/-- A row whose turn has come is leased behind all older rows of its topic. -/
theorem older_leased (h : TurnRecord t s) (hrows : RowRecord t s) {ackId owner : String}
    {leaseSec : Binary64} (hturn : InTurn t (.lease q' ackId owner leaseSec))
    (hrow : s.file.table.get? q = some row) (hrow' : s.file.table.get? q' = some row')
    (htopic : row.topic = row'.topic) (hlt : q < q') : WasLeased t q := by
  obtain ⟨topic, before, pick, hselected, rfl, hbefore⟩ := hturn
  by_cases hleased : WasLeased t pick.seq
  · exact h.ordered q pick.seq row row' hrow hrow' htopic hlt hleased
  · obtain ⟨offered, hoffered, htopic', -⟩ := hrows.offered topic pick.seq pick.body
      hselected.offered
    obtain rfl := Option.some.inj (hrow'.symm.trans hoffered)
    rcases h.selected topic before pick hselected hleased q row hrow (htopic.trans htopic') hlt with
      hmem | hmem
    · exact hmem
    · obtain ⟨earlier, hearlier, rfl⟩ := List.mem_map.mp hmem
      exact h.tried earlier.seq (hbefore earlier hearlier)

/-- A row that is not fresh was leased. -/
theorem leased_of_not_fresh (h : TurnRecord t s) (hrow : s.file.table.get? q = some row)
    (hfresh : ¬ row.Fresh) : WasLeased t q := by
  by_contra hleased
  exact hfresh (h.fresh q row hrow hleased)

/-- Of the rows older than a fresh row, a selection that has it has the fresh ones too. -/
theorem selected_front (h : TurnRecord t s) {topic : String} {now : Binary64} {limit : ℤ}
    {before rest : List Picked} {pick : Picked}
    (hpicks : before ++ pick :: rest = (limited limit (s.file.table.select
      (QueueRow.isAvailable topic now))).map QueueRow.picked)
    (hpick : ¬ WasLeased t pick.seq) (hrow : s.file.table.get? q = some row)
    (htopic : row.topic = topic) (hlt : q < pick.seq) :
    WasLeased t q ∨ q ∈ before.map Picked.seq := by
  by_cases hleased : WasLeased t q
  · exact Or.inl hleased
  · right
    have hkeys : ∀ rows : List (ℕ × QueueRow),
        (rows.map QueueRow.picked).map Picked.seq = rows.map Prod.fst := by
      intro rows
      rw [List.map_map]
      rfl
    have hprefix : before.map Picked.seq ++ pick.seq :: rest.map Picked.seq <+:
        (s.file.table.select (QueueRow.isAvailable topic now)).map Prod.fst := by
      rw [← List.map_cons, ← List.map_append, hpicks, hkeys]
      exact (limited_leads limit _).map Prod.fst
    have hnow : Binary64.zero.le now = true := by
      have hmem : pick.seq ∈ (s.file.table.select (QueueRow.isAvailable topic now)).map Prod.fst :=
        hprefix.subset (List.mem_append_right _ List.mem_cons_self)
      obtain ⟨⟨k, found⟩, hselect, hk⟩ := List.mem_map.mp hmem
      obtain rfl : k = pick.seq := hk
      obtain ⟨hfound, havailable⟩ := Table.mem_select_iff.mp hselect
      rw [← (h.fresh _ found hfound hpick).2.2]
      exact (QueueRow.isAvailable_iff.mp havailable).2.2
    obtain ⟨hready, -, hzero⟩ := h.fresh q row hrow hleased
    have hmem : q ∈ (s.file.table.select (QueueRow.isAvailable topic now)).map Prod.fst := by
      refine List.mem_map.mpr ⟨(q, row), Table.mem_select_iff.mpr ⟨hrow, ?_⟩, rfl⟩
      exact QueueRow.isAvailable_iff.mpr ⟨htopic, hready, hzero ▸ hnow⟩
    exact mem_front_of_lt (Table.select_ascending _) hprefix hmem hlt

/-- One statement in turn, by whomever. -/
theorem step (h : TurnRecord t s) (hrows : RowRecord t s) (hturn : InTurn t op)
    (step : clockedWorld s op r s') : TurnRecord (t ++ [⟨op, r⟩]) s' := by
  have hgrow : t ⊆ t ++ [⟨op, r⟩] := List.subset_append_left t _
  -- a row that a lease of this statement took was there
  have hnow : ∀ q ackId owner leaseSec claimed,
      (⟨op, r⟩ : QueueEvent) = ⟨.lease q ackId owner leaseSec, .ok claimed⟩ →
        (∃ row, s.file.table.get? q = some row) ∧
          (claimed = true ∨ WasLeased t q) := by
    intro q ackId owner leaseSec claimed heq
    obtain ⟨rfl, hr⟩ := Sigma.mk.inj heq
    obtain rfl := eq_of_heq hr
    obtain ⟨topic, before, pick, hselected, rfl, -⟩ := hturn
    obtain ⟨row, hrow, -⟩ := hrows.offered topic pick.seq pick.body hselected.offered
    refine ⟨⟨row, hrow⟩, ?_⟩
    rcases step with ⟨dbNow, a, ha, hanswers, -⟩ | ⟨⟨e, he⟩, -⟩
    · obtain rfl := Except.ok.inj ha
      by_cases hready : row.state = .ready
      · left
        rw [show claimed = QueueTable.isIn s.file.table pick.seq .ready from hanswers]
        simp [QueueTable.isIn, hrow, hready]
      · exact Or.inr (h.leased_of_not_fresh hrow fun hfresh => hready hfresh.1)
    · cases he
  -- keys of rows that were there are below the next one
  have hbelow : ∀ q row, s.file.table.get? q = some row → q < s.file.table.next := fun q row hrow =>
    s.file.table.bounded (q, row) (Table.mem_of_get? hrow)
  refine ⟨?_, ?_, ?_, ?_, ?_, ?_⟩
  · intro q hleased
    have hthere : ∃ row, s.file.table.get? q = some row := by
      rcases wasLeased_concat_iff.mp hleased with hold | ⟨ackId, owner, leaseSec, heq⟩
      · exact h.there q hold
      · exact (hnow q ackId owner leaseSec true heq).1
    obtain ⟨row, hrow⟩ := hthere
    obtain ⟨row', hrow', -⟩ := rowsKept_step step q row hrow
    exact ⟨row', hrow'⟩
  · intro q row' hrow' hleased
    rcases row_before step hrow' with ⟨row, hrow, -⟩ | ⟨-, hfresh⟩
    · have hunleased : ¬ WasLeased t q := fun hold => hleased (hold.mono hgrow)
      have hfresh := h.fresh q row hrow hunleased
      have hsame : s'.file.table.get? q = some row := by
        apply Fresh.step step hrow hfresh
        · intro ackId owner leaseSec heq
          exact hleased (wasLeased_concat_iff.mpr (Or.inr ⟨ackId, owner, leaseSec, heq⟩))
        · rintro availableAt rfl
          exact hunleased (h.found q hturn)
      exact Option.some.inj (hsame.symm.trans hrow') ▸ hfresh
    · exact hfresh
  · rintro q ⟨ackId, owner, leaseSec, claimed, hmem⟩
    rcases List.mem_append.mp hmem with hold | hnew
    · exact (h.tried q ⟨ackId, owner, leaseSec, claimed, hold⟩).mono hgrow
    · have heq := (List.mem_singleton.mp hnew).symm
      rcases (hnow q ackId owner leaseSec claimed heq).2 with rfl | hold
      · exact wasLeased_concat_iff.mpr (Or.inr ⟨ackId, owner, leaseSec, heq⟩)
      · exact hold.mono hgrow
  · rintro q ⟨ackId, body, attempts, hmem⟩
    rcases List.mem_append.mp hmem with hold | hnew
    · exact (h.found q ⟨ackId, body, attempts, hold⟩).mono hgrow
    · obtain ⟨rfl, hr⟩ := Sigma.mk.inj (List.mem_singleton.mp hnew)
      obtain rfl := eq_of_heq hr
      rcases step with ⟨dbNow, a, ha, hanswers, -⟩ | ⟨⟨e, he⟩, -⟩
      · obtain rfl := Except.ok.inj ha
        obtain ⟨⟨k, row⟩, hhead, hpicked⟩ := Option.map_eq_some_iff.mp
          (show Option.map QueueRow.picked _ = _ from hanswers.symm)
        obtain ⟨rfl, -, -⟩ := Picked.mk.inj hpicked
        obtain ⟨hrow, hid⟩ := Table.mem_select_iff.mp (List.mem_of_mem_head? hhead)
        refine (h.leased_of_not_fresh hrow fun hfresh => ?_).mono hgrow
        rw [LocalDurableBackend.hasAckId_iff, hfresh.2.1] at hid
        cases hid
      · cases he
  · rintro topic before pick ⟨now, limit, rest, hmem⟩ hleased q row' hrow' htopic hlt
    have hunleased : ¬ WasLeased t pick.seq := fun hold => hleased (hold.mono hgrow)
    have hcase : WasLeased t q ∨ q ∈ before.map Picked.seq := by
      rcases List.mem_append.mp hmem with hold | hnew
      · have hselected : SelectedIn t topic before pick := ⟨now, limit, rest, hold⟩
        obtain ⟨offered, hoffered, -⟩ := hrows.offered topic pick.seq pick.body hselected.offered
        rcases row_before step hrow' with ⟨row, hrow, hsame⟩ | ⟨rfl, -⟩
        · exact h.selected topic before pick hselected hunleased q row hrow
            (hsame.symm.trans htopic) hlt
        · have hpick := hbelow pick.seq offered hoffered
          omega
      · obtain ⟨rfl, hr⟩ := Sigma.mk.inj (List.mem_singleton.mp hnew)
        obtain rfl := eq_of_heq hr
        rcases step with ⟨dbNow, a, ha, hanswers, rfl⟩ | ⟨⟨e, he⟩, -⟩
        · obtain rfl := Except.ok.inj ha
          exact h.selected_front hanswers hunleased hrow' htopic hlt
        · cases he
    exact hcase.imp_left fun hold => hold.mono hgrow
  · intro q q' row₁ row₁' hrow₁ hrow₁' htopic hlt hleased
    have hthere : ∃ row', s.file.table.get? q' = some row' := by
      rcases wasLeased_concat_iff.mp hleased with hold | ⟨ackId, owner, leaseSec, heq⟩
      · exact h.there q' hold
      · exact (hnow q' ackId owner leaseSec true heq).1
    obtain ⟨row', hrow'⟩ := hthere
    have hq' := hbelow q' row' hrow'
    rcases row_before step hrow₁ with ⟨row, hrow, hsame⟩ | ⟨rfl, -⟩
    · obtain ⟨kept, hkept, hsame', -⟩ := rowsKept_step step q' row' hrow'
      obtain rfl := Option.some.inj (hrow₁'.symm.trans hkept)
      have htopics : row.topic = row'.topic := by rw [← hsame, htopic, hsame']
      rcases wasLeased_concat_iff.mp hleased with hold | ⟨ackId, owner, leaseSec, heq⟩
      · exact (h.ordered q q' row row' hrow hrow' htopics hlt hold).mono hgrow
      · obtain ⟨rfl, -⟩ := Sigma.mk.inj heq
        exact (h.older_leased hrows hturn hrow hrow' htopics hlt).mono hgrow
    · omega

end TurnRecord

section Runs

variable [DecidableEq ι] {s : ClockedFile} {log : QueueLog ι}

theorem turnRecord (history : History clockedWorld turnProtocol ⟨⟨.empty, []⟩, []⟩ log s) :
    TurnRecord (log.map Happened.event) s := by
  induction history with
  | start => exact .empty
  | call history hop step ih =>
      rw [List.map_append]
      exact ih.step (rowRecord history) (hop.mono fun _ he => mem_events_of_own he) step

/-- However many instances share the file, and wherever they die: when a row is leased, every
older row of its topic was leased before. -/
theorem first_leases_in_order (pool : Pool ι QueueI Exc ClockedFile)
    (reaches : Pool.Reaches clockedWorld Caller (.idle ⟨⟨.empty, []⟩, []⟩) pool)
    (pre post : QueueLog ι) (h : Happened ι QueueI Exc ClockedFile)
    (hlog : pool.log = pre ++ h :: post) (q q' : ℕ) (ackId owner : String) (leaseSec : Binary64)
    (hlease : h.event = ⟨.lease q' ackId owner leaseSec, .ok true⟩) (row row' : QueueRow)
    (hrow : h.before.file.table.get? q = some row)
    (hrow' : h.before.file.table.get? q' = some row') (htopic : row.topic = row'.topic)
    (hlt : q < q') : ∃ earlier, LeasedIn (pre.map Happened.event) q earlier := by
  have history := reaches.history turnProtocol_monotone fun _ _ _ _ => Caller.inTurn
  obtain ⟨hpre, hop, -⟩ := history.split pre h post hlog
  obtain ⟨hsame, -⟩ := Sigma.mk.inj hlease
  rw [show h.op = _ from hsame] at hop
  exact (turnRecord hpre).older_leased (rowRecord hpre)
    (InTurn.mono hop fun _ he => mem_events_of_own he) hrow hrow' htopic hlt

end Runs

namespace LocalDurableBackend

/-- A second message is published while instance 1 holds the first, and instance 2 has
selected it. -/
def selectedByTwo : Pool ℕ QueueI Exc ClockedFile :=
  (((leasedByOne 5).starting 3 (publish "orders" .null)).calls (clocked false .zero) 3 1
    |>.starting 2 (pulling 5 "two")).calls (clocked false .zero) 2 5

/-- The row that instance 2 is about to lease. -/
def nextLease (pool : Pool ℕ QueueI Exc ClockedFile) : Option ℕ :=
  match pool.running 2 with
  | some (.call (.lease seq _ _ _) _) => some seq
  | _ => none

theorem first_leases_in_order_two : nextLease selectedByTwo = some 1 ∧
    ∃ earlier, LeasedIn (selectedByTwo.log.map Happened.event) 0 earlier := by
  have hnext : nextLease selectedByTwo = some 1 := by decide +kernel
  refine ⟨hnext, ?_⟩
  have hreach : Pool.Reaches clockedWorld Caller (.idle ⟨⟨.empty, []⟩, []⟩) selectedByTwo :=
    ((reaches_leasedByOne 5).starting (by decide +kernel) .publish |>.calls (clocked_step false .zero) 1
      |>.starting (by decide +kernel) .pull).calls (clocked_step false .zero) 5
  have hthere : ∀ q ∈ [0, 1], (selectedByTwo.shared.file.table.get? q).any
      (fun row => row.topic = "orders") = true := by decide +kernel
  obtain ⟨row, hrow, htopic⟩ := (Option.any_eq_true _ _).mp (hthere 0 (by simp))
  obtain ⟨row', hrow', htopic'⟩ := (Option.any_eq_true _ _).mp (hthere 1 (by simp))
  have hready : true = QueueTable.isIn selectedByTwo.shared.file.table 1 .ready := by decide +kernel
  unfold nextLease at hnext
  split at hnext
  · rename_i seq ackId owner leaseSec next hrunning
    obtain rfl : seq = 1 := Option.some.inj hnext
    exact first_leases_in_order _
      (.step hreach (.call hrunning (Or.inl ⟨.zero, true, rfl, hready, rfl⟩))) selectedByTwo.log []
      _ rfl 0 1 ackId owner leaseSec rfl row row' hrow hrow'
      ((of_decide_eq_true htopic).trans (of_decide_eq_true htopic').symm) Nat.zero_lt_one
  · cases hnext

end LocalDurableBackend

end System2
