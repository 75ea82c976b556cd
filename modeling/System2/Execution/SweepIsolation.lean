import System2.Execution.BackfillAgrees
import System2.Execution.SweepEvidence

/-!
# What one trade of a sweep does to the others

A sweep takes the trades that vanished from the broker's open list in the order of the book. The
requests for a trade are guarded, but the reading of the answers is not: the first trade whose
answers cannot be read ends the sweep, and no trade behind it is looked at.
-/

namespace System2
open Foundation

/-- The members up to the first one that fails, of a list without repetitions. -/
theorem mem_takeWhile_iff {α : Type} {p : α → Bool} {pre post : List α} {x : α}
    (hnodup : (pre ++ x :: post).Nodup) :
    x ∈ (pre ++ x :: post).takeWhile p ↔ p x = true ∧ ∀ y ∈ pre, p y = true := by
  induction pre with
  | nil =>
      by_cases hx : p x = true
      · simp [hx]
      · simp [hx]
  | cons y pre ih =>
      obtain ⟨hy, hnodup⟩ := List.nodup_cons.mp hnodup
      have hne : x ≠ y := by
        rintro rfl
        exact hy (List.mem_append_right _ List.mem_cons_self)
      rw [List.cons_append, List.takeWhile_cons]
      by_cases hp : p y = true
      · simp [hp, hne, ih hnodup]
      · simp [hp]

namespace CloseSweeper

open CloseTracker

attribute [local irreducible] resolveCloseFromTransactions

/-- What a sweep leaves behind, as far as the other trades can tell: the marks of the last looks at
the stream, and the trades that an emission asked the ledger for. -/
structure SweepState where
  marks : String → Option Moment
  asked : List String

/-- The calls of a sweep, while the broker has one answer to each request. The ledger and the
outbox answer as they like. -/
def sweepWorld (answer : (op : CloseCall) → Except Exc op.Ans) : World CloseI Exc SweepState :=
  fun s op r s' =>
    match op with
    | .getFallbackAt tradeId => r = .ok (s.marks tradeId) ∧ s' = s
    | .putFallbackAt tradeId t =>
        r = .ok () ∧ s' = { s with marks := Function.update s.marks tradeId (some t) }
    | .putLastSweepAt _ => r = .ok () ∧ s' = s
    | .putTrade _ => r = .ok () ∧ s' = s
    | .ledgerSeen key => s' = { s with asked := s.asked ++ [key] }
    | .ledgerMark _ => s' = s
    | .publisher _ => s' = s
    | op => r = answer op ∧ s' = s

/-- What a sweep finds out of a trade that vanished. -/
def verdict (s : CloseSweeper) (answer : (op : CloseCall) → Except Exc op.Ans) (now : Moment)
    (marks : String → Option Moment) (t : ManagedTrade) : Except Exc (Option (CloseFacts × String)) :=
  match readDetails (detailsOf answer t) with
  | .ok .unusable =>
      if within now s.txnFallbackIntervalSec (marks t.brokerTradeId) then .ok none
      else toldClose answer t
  | _ => toldClose answer t

/-- The answers for the trade can be read. -/
def readable (s : CloseSweeper) (answer : (op : CloseCall) → Except Exc op.Ans) (now : Moment)
    (marks : String → Option Moment) (t : ManagedTrade) : Bool :=
  (verdict s answer now marks t).isOk

/-- The answers for the trade show its close. -/
def resolvable (s : CloseSweeper) (answer : (op : CloseCall) → Except Exc op.Ans) (now : Moment)
    (marks : String → Option Moment) (t : ManagedTrade) : Bool :=
  (verdict s answer now marks t).toOption.join.isSome

variable {s : CloseSweeper} {answer : (op : CloseCall) → Except Exc op.Ans} {now : Moment}
  {t : ManagedTrade} {w : SweepState}

theorem readable_of_resolvable {marks : String → Option Moment}
    (h : resolvable s answer now marks t = true) : readable s answer now marks t = true := by
  unfold resolvable at h
  unfold readable
  cases hverdict : verdict s answer now marks t with
  | ok found => rfl
  | error e =>
      rw [hverdict] at h
      cases h

/-! ### One trade -/

/-- A call of the outbox, or one that marks a trade in the ledger. -/
def Aside : CloseCall → Prop
  | .ledgerMark _ => True
  | .publisher _ => True
  | _ => False

theorem wp_aside {α : Type} {p : Proc CloseI Exc α} (hp : p.Only Aside) :
    wp (sweepWorld answer) p (fun _ w' => w' = w) w := by
  refine wpc_mono (wpc_of_only (J := fun w' => w' = w) ?_ hp rfl) (fun _ _ => trivial)
    fun _ _ _ h => h
  rintro op w₁ r w' hop rfl step
  cases op with
  | ledgerMark key => exact step
  | publisher call => exact step
  | _ => exact hop.elim

theorem returns_flush (em : CloseEmitter) :
    Returns (sweepWorld answer) em.flush (fun _ w' => w' = w) w := by
  have hrun : ((em.publisher.flush em.rounds).interp fun call =>
      perform (.publisher call)).Only Aside :=
    Proc.Only.interp (Proc.only_true _) fun _ _ => Proc.along_perform trivial
  refine wpc_seq_attempt (wp_aside hrun) ?_
  rintro r w₁ - rfl
  cases r with
  | ok delivered => exact returns_ret rfl
  | error e => exact returns_ret rfl

/-- An emission asks for its trade once and returns. -/
theorem returns_emit (em : CloseEmitter) (facts : CloseFacts) (exitReason : String) :
    Returns (sweepWorld answer) (em.emit t facts exitReason)
      (fun _ w' => w' = { w with asked := w.asked ++ [t.brokerTradeId] }) w := by
  have hrecord : wp (sweepWorld answer) (em.record t facts exitReason)
      (fun _ w' => w' = { w with asked := w.asked ++ [t.brokerTradeId] }) w := by
    refine wpc_seq (R := fun _ w' => w' = { w with asked := w.asked ++ [t.brokerTradeId] })
      (wpc_of_perform trivial fun _ _ step => ⟨trivial, step⟩) ?_ fun _ _ _ h => h
    rintro seen w₁ - rfl
    refine wp_aside ?_
    split_ifs
    · trivial
    · refine (Proc.along_perform trivial).bind fun eventTime => (along_convert _).bind fun event => ?_
      exact (Proc.along_perform trivial).bind fun _ => (Proc.along_perform trivial).bind fun _ => trivial
  refine wpc_seq_attempt hrecord ?_
  rintro r w₁ - rfl
  cases r with
  | error e => exact returns_ret rfl
  | ok written =>
      cases written with
      | false => exact returns_ret rfl
      | true =>
          refine Returns.bind (returns_flush em) ?_
          rintro delivered w₂ rfl
          exact returns_ret rfl

theorem returns_conclude (facts : CloseFacts) (exitReason : String) (viaTransactions : Bool) :
    Returns (sweepWorld answer) (s.conclude t facts exitReason viaTransactions)
      (fun _ w' => w' = { w with asked := w.asked ++ [t.brokerTradeId] }) w := by
  refine Returns.bind (returns_emit s.emitter facts exitReason) ?_
  rintro recorded w₁ rfl
  split_ifs
  · refine Returns.bind (R := fun _ w' => w' = { w with asked := w.asked ++ [t.brokerTradeId] })
      (wpc_of_perform trivial ?_) ?_
    · rintro r w' ⟨rfl, rfl⟩
      exact ⟨trivial, (), rfl, rfl⟩
    · rintro _ w' rfl
      exact returns_ret rfl
  · exact returns_ret rfl

/-- What a trade leaves behind: it is asked for when its close is found, and no mark but its own
is set. -/
structure After (s : CloseSweeper) (answer : (op : CloseCall) → Except Exc op.Ans) (now : Moment)
    (t : ManagedTrade) (w w' : SweepState) : Prop where
  asked : w'.asked = w.asked ++
    if resolvable s answer now w.marks t then [t.brokerTradeId] else []
  marks : ∀ id, id ≠ t.brokerTradeId → w'.marks id = w.marks id

theorem wp_fallbackDue : wp (sweepWorld answer) (s.fallbackDue t.brokerTradeId now)
    (fun r w' => r = .ok (!within now s.txnFallbackIntervalSec (w.marks t.brokerTradeId)) ∧
      w'.asked = w.asked ∧ ∀ id, id ≠ t.brokerTradeId → w'.marks id = w.marks id) w := by
  refine wpc_seq (R := fun r w' => r = .ok (w.marks t.brokerTradeId) ∧ w' = w)
    (wpc_of_perform trivial fun _ _ step => ⟨trivial, step⟩) ?_ ?_
  · rintro last w₁ - ⟨hlast, rfl⟩
    obtain rfl := Except.ok.inj hlast
    cases hwithin : within now s.txnFallbackIntervalSec (w₁.marks t.brokerTradeId) with
    | true => exact ⟨trivial, by rw [Bool.not_true], rfl, fun _ _ => rfl⟩
    | false =>
        rw [if_neg Bool.false_ne_true, Proc.bind_eq]
        refine wpc_seq (R := fun r w' => r = .ok () ∧
          w' = { w₁ with marks := Function.update w₁.marks t.brokerTradeId (some now) })
          (wpc_of_perform trivial fun _ _ step => ⟨trivial, step⟩) ?_ ?_
        · rintro _ w₂ - ⟨-, rfl⟩
          exact ⟨trivial, by rw [Bool.not_false], rfl, fun id hid => Function.update_of_ne hid _ _⟩
        · rintro e w₂ - ⟨he, -⟩
          cases he
  · rintro e w₁ - ⟨he, -⟩
    cases he

theorem resolve_reads (tradeId instrument : String) (w : SweepState) :
    wp (sweepWorld answer) (resolveCloseFromTransactions tradeId instrument) (fun r w' =>
      r = (resolveCloseFromTransactions tradeId instrument).outcome answer ∧ w' = w) w := by
  refine Proc.wpc_outcome ?_ (resolveCloseFromTransactions_reads tradeId instrument) trivial
  intro w op r w' hop step
  cases op with
  | getAccountSummary => exact step
  | getTransactionsIdrange fromId toId => exact step
  | _ => exact hop.elim

theorem verdict_of_read {lookup : Except PyErr Lookup} {marks : String → Option Moment}
    (hread : readDetails (detailsOf answer t) = lookup) (h : lookup ≠ .ok .unusable) :
    verdict s answer now marks t = toldClose answer t := by
  unfold verdict
  rw [hread]
  cases lookup with
  | error e => rfl
  | ok found =>
      cases found with
      | unusable => exact absurd rfl h
      | stillOpen => rfl
      | resolved facts exitReason => rfl

theorem wp_sweepVanished : wp (sweepWorld answer) (s.sweepVanished now t)
    (fun r w' => r.isOk = readable s answer now w.marks t ∧ After s answer now t w w') w := by
  unfold sweepVanished readable
  refine wpc_seq_attempt (R := fun r w' => r = answer (.getTrade t.brokerTradeId) ∧ w' = w)
    (wpc_of_perform trivial fun _ _ step => ⟨trivial, step⟩) ?_
  rintro details w₁ - ⟨rfl, rfl⟩
  refine wpc_seq (R := fun r w' => r = Exc.lift (readDetails (detailsOf answer t)) ∧ w' = w₁)
    ((wpc_ofExcept _ _ _).mpr ⟨trivial, rfl, rfl⟩) ?_ ?_
  · rintro lookup w₂ - ⟨hlift, rfl⟩
    obtain hread : readDetails (detailsOf answer t) = .ok lookup := by
      cases hcase : readDetails (detailsOf answer t) with
      | ok found =>
          rw [hcase] at hlift
          exact congrArg Except.ok (Except.ok.inj hlift).symm
      | error e =>
          rw [hcase] at hlift
          cases hlift
    cases lookup with
    | stillOpen =>
        have hverdict : verdict s answer now w₂.marks t = .ok none := by
          rw [verdict_of_read hread (by simp), toldClose, hread]
        refine ⟨trivial, by rw [hverdict]; rfl, ?_, fun _ _ => rfl⟩
        simp [resolvable, hverdict, Except.toOption]
    | resolved facts exitReason =>
        have hverdict : verdict s answer now w₂.marks t = .ok (some (facts, exitReason)) := by
          rw [verdict_of_read hread (by simp), toldClose, hread]
        refine wpc_post (returns_conclude facts exitReason false) ?_
        rintro r w₃ - ⟨swept, rfl, rfl⟩
        refine ⟨by rw [hverdict]; rfl, ?_, fun _ _ => rfl⟩
        simp [resolvable, hverdict, Except.toOption]
    | unusable =>
        unfold fallback
        refine wpc_seq wp_fallbackDue ?_ ?_
        · rintro due w₃ - ⟨hdue, hasked, hmarks⟩
          obtain rfl := Except.ok.inj hdue
          cases hwithin : within now s.txnFallbackIntervalSec (w₂.marks t.brokerTradeId) with
          | true =>
              have hverdict : verdict s answer now w₂.marks t = .ok none := by
                unfold verdict
                rw [hread, hwithin]
                rfl
              refine ⟨trivial, by rw [hverdict]; rfl, ?_, hmarks⟩
              simp [resolvable, hverdict, Except.toOption, hasked]
          | false =>
              have hverdict : verdict s answer now w₂.marks t =
                  (resolveCloseFromTransactions t.brokerTradeId t.instrument).outcome answer := by
                unfold verdict toldClose
                rw [hread, hwithin]
                rfl
              rw [Bool.not_false, Bool.not_true, if_neg Bool.false_ne_true, Proc.bind_eq]
              refine wpc_seq (resolve_reads _ _ w₃) ?_ ?_
              · rintro found w₄ - ⟨hfound, rfl⟩
                rw [← hverdict] at hfound
                cases found with
                | none =>
                    refine ⟨trivial, by rw [← hfound]; rfl, ?_, hmarks⟩
                    simp [resolvable, ← hfound, Except.toOption, hasked]
                | some close =>
                    obtain ⟨facts, exitReason⟩ := close
                    refine wpc_post (returns_conclude facts exitReason true) ?_
                    rintro r w₅ - ⟨swept, rfl, rfl⟩
                    refine ⟨by rw [← hfound]; rfl, ?_, hmarks⟩
                    simp [resolvable, ← hfound, Except.toOption, hasked]
              · rintro e w₄ - ⟨hfound, rfl⟩
                rw [← hverdict] at hfound
                refine ⟨by rw [← hfound]; rfl, ?_, hmarks⟩
                simp [resolvable, ← hfound, Except.toOption, hasked]
        · rintro e w₃ - ⟨hdue, -⟩
          cases hdue
  · rintro e w₂ - ⟨hlift, rfl⟩
    obtain ⟨e', hread⟩ : ∃ e', readDetails (detailsOf answer t) = .error e' := by
      cases hcase : readDetails (detailsOf answer t) with
      | ok found =>
          rw [hcase] at hlift
          cases hlift
      | error e' => exact ⟨e', rfl⟩
    have hverdict : verdict s answer now w₂.marks t = .error (.ofErr e') := by
      rw [verdict_of_read hread (by simp), toldClose, hread]
    refine ⟨by rw [hverdict]; rfl, ?_, fun _ _ => rfl⟩
    simp [resolvable, hverdict, Except.toOption]

/-! ### All of them -/

/-- The candidates that are not in the open list. -/
def vanished (openIds : List String) (candidates : List ManagedTrade) : List ManagedTrade :=
  candidates.filter fun t => !openIds.contains t.brokerTradeId

/-- The trades that a sweep asks the ledger for: those with a close to tell, up to the first one
whose answers cannot be read. -/
def told (s : CloseSweeper) (answer : (op : CloseCall) → Except Exc op.Ans) (now : Moment)
    (marks : String → Option Moment) (gone : List ManagedTrade) : List ManagedTrade :=
  (gone.takeWhile (readable s answer now marks)).filter (resolvable s answer now marks)

theorem verdict_congr {marks marks' : String → Option Moment}
    (h : marks' t.brokerTradeId = marks t.brokerTradeId) :
    verdict s answer now marks' t = verdict s answer now marks t := by
  unfold verdict
  rw [h]

theorem told_congr (s : CloseSweeper) (answer : (op : CloseCall) → Except Exc op.Ans)
    (now : Moment) {marks marks' : String → Option Moment} {gone : List ManagedTrade}
    (h : ∀ t ∈ gone, marks' t.brokerTradeId = marks t.brokerTradeId) :
    told s answer now marks' gone = told s answer now marks gone ∧
      gone.all (readable s answer now marks') = gone.all (readable s answer now marks) := by
  have hreadable : ∀ t ∈ gone, readable s answer now marks' t = readable s answer now marks t := by
    intro t ht
    rw [readable, readable, verdict_congr (h t ht)]
  have hresolvable : ∀ t ∈ gone,
      resolvable s answer now marks' t = resolvable s answer now marks t := by
    intro t ht
    rw [resolvable, resolvable, verdict_congr (h t ht)]
  have hpassed : gone.takeWhile (readable s answer now marks') =
      gone.takeWhile (readable s answer now marks) := by
    clear h hresolvable
    induction gone with
    | nil => rfl
    | cons t rest ih =>
        rw [List.takeWhile_cons, List.takeWhile_cons, hreadable t List.mem_cons_self,
          ih fun u hu => hreadable u (List.mem_cons_of_mem _ hu)]
  refine ⟨?_, ?_⟩
  · rw [told, told, hpassed]
    exact List.filter_congr fun t ht => hresolvable t (List.takeWhile_subset _ ht)
  · rw [Bool.eq_iff_iff, List.all_eq_true, List.all_eq_true]
    exact forall₂_congr fun t ht => by rw [hreadable t ht]

theorem wp_sweepAll {openIds : List String} {candidates : List ManagedTrade}
    (hdistinct : (candidates.map (·.brokerTradeId)).Nodup) :
    wp (sweepWorld answer) (s.sweepAll now openIds candidates) (fun r w' =>
      r.isOk = (vanished openIds candidates).all (readable s answer now w.marks) ∧
      w'.asked = w.asked ++
        (told s answer now w.marks (vanished openIds candidates)).map (·.brokerTradeId)) w := by
  induction candidates generalizing w with
  | nil => exact ⟨trivial, rfl, (List.append_nil _).symm⟩
  | cons t rest ih =>
      obtain ⟨hfresh, hrest⟩ := List.nodup_cons.mp hdistinct
      unfold sweepAll
      by_cases hlisted : openIds.contains t.brokerTradeId = true
      · have hskip : vanished openIds (t :: rest) = vanished openIds rest := by
          simp [vanished, show t.brokerTradeId ∈ openIds by simpa using hlisted]
        rw [if_pos hlisted, hskip]
        exact ih hrest
      · have hgone : vanished openIds (t :: rest) = t :: vanished openIds rest := by
          simp [vanished, show t.brokerTradeId ∉ openIds by simpa using hlisted]
        rw [if_neg hlisted, hgone]
        refine wpc_seq wp_sweepVanished ?_ ?_
        · rintro swept w₁ - ⟨hread, hafter⟩
          -- the marks of the trades behind are as they were
          have hmarks : ∀ u ∈ vanished openIds rest, w₁.marks u.brokerTradeId =
              w.marks u.brokerTradeId := by
            intro u hu
            exact hafter.marks _ fun heq =>
              hfresh (List.mem_map.mpr ⟨u, List.mem_of_mem_filter hu, heq⟩)
          obtain ⟨htold, hall⟩ := told_congr s answer now hmarks
          have hhead : readable s answer now w.marks t = true := hread.symm
          have hasked : ∀ w' : SweepState, w'.asked = w₁.asked ++
              (told s answer now w₁.marks (vanished openIds rest)).map (·.brokerTradeId) →
              w'.asked = w.asked ++
                (told s answer now w.marks (t :: vanished openIds rest)).map (·.brokerTradeId) := by
            intro w' hw'
            rw [hw', hafter.asked, htold, told, told, List.takeWhile_cons, hhead, if_pos rfl,
              List.filter_cons, List.append_assoc]
            split_ifs <;> rfl
          refine wpc_seq (ih hrest) ?_ ?_
          · rintro others w₂ - ⟨hok, hlist⟩
            refine ⟨trivial, ?_, hasked w₂ hlist⟩
            rw [List.all_cons, hhead, Bool.true_and, ← hall, ← hok]
            rfl
          · rintro e w₂ - ⟨hok, hlist⟩
            refine ⟨?_, hasked w₂ hlist⟩
            rw [List.all_cons, hhead, Bool.true_and, ← hall, ← hok]
        · rintro e w₁ - ⟨hread, hafter⟩
          have hhead : readable s answer now w.marks t = false := hread.symm
          have hnone : resolvable s answer now w.marks t = false := by
            rw [Bool.eq_false_iff]
            intro h
            rw [readable_of_resolvable h] at hhead
            cases hhead
          refine ⟨?_, ?_⟩
          · rw [List.all_cons, hhead, Bool.false_and]
            rfl
          · rw [hafter.asked, hnone, told, List.takeWhile_cons, hhead]
            rfl

/-- The sweep passes its throttle and reads the open list, and these open trades of the book are not
in it. -/
structure Look (s : CloseSweeper) (answer : (op : CloseCall) → Except Exc op.Ans) (now : Moment)
    (gone : List ManagedTrade) : Prop where
  clock : answer .clock = .ok now
  due : ∃ last, answer .getLastSweepAt = .ok last ∧ within now s.intervalSec last = false
  listed : ∃ (book : TradeBook) (reply : PyVal) (ids : List String), answer .trades = .ok book ∧
    answer .getOpenTrades = .ok reply ∧ reply.iter.bind openIds = .ok ids ∧
    gone = vanished ids (book.trades.filter fun t => !t.closed)

theorem distinct_filter (book : TradeBook) (p : ManagedTrade → Bool) :
    ((book.trades.filter p).map (·.brokerTradeId)).Nodup :=
  (List.filter_sublist.map _).nodup book.distinct

theorem Look.nodup {gone : List ManagedTrade} (look : Look s answer now gone) : gone.Nodup := by
  obtain ⟨book, -, ids, -, -, -, rfl⟩ := look.listed
  exact ((distinct_filter book _).of_map _).filter _

theorem wp_sweep {gone : List ManagedTrade} (look : Look s answer now gone) :
    wp (sweepWorld answer) s.sweep (fun r w' =>
      r.isOk = gone.all (readable s answer now w.marks) ∧
      w'.asked = w.asked ++ (told s answer now w.marks gone).map (·.brokerTradeId)) w := by
  obtain ⟨last, hlast, hwithin⟩ := look.due
  obtain ⟨book, reply, ids, hbook, hreply, hids, rfl⟩ := look.listed
  -- a call with its one answer
  have hread : ∀ {β : Type} (op : CloseCall) {a : op.Ans} {f : op.Ans → Proc CloseI Exc β}
      {Q : Except Exc β → SweepState → Prop} {w : SweepState}, answer op = .ok a →
      (∀ w op' r w', op' = op → sweepWorld answer w op' r w' → r = answer op' ∧ w' = w) →
      wp (sweepWorld answer) (f a) Q w →
      wp (sweepWorld answer) ((perform op).bind f) Q w := by
    intro β op a f Q w ha hworld hf
    refine wpc_seq (R := fun r w' => r = answer op ∧ w' = w)
      (wpc_of_perform trivial fun r w' step => ⟨trivial, hworld w op r w' rfl step⟩) ?_ ?_
    · rintro a' w' - ⟨hr, rfl⟩
      rw [ha] at hr
      exact Except.ok.inj hr ▸ hf
    · rintro e w' - ⟨hr, -⟩
      rw [ha] at hr
      cases hr
  refine hread .clock look.clock (fun _ _ _ _ h step => by subst h; exact step) ?_
  refine hread .getLastSweepAt hlast (fun _ _ _ _ h step => by subst h; exact step) ?_
  rw [hwithin, if_neg Bool.false_ne_true]
  refine wpc_seq (R := fun r w' => r = .ok () ∧ w' = w)
    (wpc_of_perform trivial fun _ _ step => ⟨trivial, step⟩) ?_ ?_
  swap
  · rintro e w' - ⟨hr, -⟩
    cases hr
  rintro _ w₁ - ⟨-, rfl⟩
  refine Returns.bind (returns_flush s.emitter) ?_
  rintro - w₂ rfl
  refine hread .trades hbook (fun _ _ _ _ h step => by subst h; exact step) ?_
  dsimp only
  split_ifs with hempty
  · rw [List.isEmpty_iff] at hempty
    rw [hempty]
    exact ⟨trivial, rfl, (List.append_nil _).symm⟩
  · have hlisting : Returns (sweepWorld answer) (do
        let listed ← perform .getOpenTrades
        convert (listed.iter.bind openIds)) (fun found w' => found = ids ∧ w' = w₂) w₂ := by
      refine hread .getOpenTrades hreply (fun _ _ _ _ h step => by subst h; exact step) ?_
      rw [hids]
      exact returns_ret ⟨rfl, rfl⟩
    refine Returns.bind hlisting.attempt ?_
    rintro - w₃ ⟨found, rfl, rfl, rfl⟩
    refine wpc_seq (wp_sweepAll (distinct_filter book _)) ?_ ?_
    · exact fun swept w₄ _ h => ⟨trivial, h⟩
    · exact fun e w₄ _ h => h

/-- In a sweep that passes its throttle and reads the open list, whatever the ledger and the outbox
do: the emission asks for exactly the trades with a close to tell, in the order of the book, up to
the first one whose answers cannot be read. The sweep returns just when all can be read, and it
leaves out no trade with a close to tell just when there is no unreadable one ahead of it. -/
theorem sweep_isolated {gone : List ManagedTrade} {r : Except Exc Stats} {w' : SweepState}
    (look : Look s answer now gone)
    (exec : Exec (sweepWorld answer) s.sweep w (some r) w') :
    w'.asked = w.asked ++ (told s answer now w.marks gone).map (·.brokerTradeId) ∧
    (r.isOk = true ↔ ∀ t ∈ gone, readable s answer now w.marks t = true) ∧
    ((∀ t ∈ gone, resolvable s answer now w.marks t = true → t ∈ told s answer now w.marks gone) ↔
      ∀ pre t post, gone = pre ++ t :: post → resolvable s answer now w.marks t = true →
        ∀ u ∈ pre, readable s answer now w.marks u = true) := by
  obtain ⟨hok, hasked⟩ := wp_sound exec (wp_sweep look)
  refine ⟨hasked, by rw [hok, List.all_eq_true], ?_, ?_⟩
  · rintro h pre t post rfl hfound
    have htold := h t (List.mem_append_right _ List.mem_cons_self) hfound
    exact ((mem_takeWhile_iff look.nodup).mp (List.mem_of_mem_filter htold)).2
  · intro h t ht hfound
    obtain ⟨pre, post, rfl⟩ := List.append_of_mem ht
    refine List.mem_filter.mpr ⟨(mem_takeWhile_iff look.nodup).mpr ⟨?_, ?_⟩, hfound⟩
    · exact readable_of_resolvable hfound
    · exact h pre t post rfl hfound

/-! ### A trade that stands in the way -/

/-- Three trades that the broker has closed. -/
def closedBook : TradeBook where
  trades := [{ watchedTrade with brokerTradeId := "9" }, watchedTrade,
    { watchedTrade with brokerTradeId := "11" }]
  distinct := by decide

/-- The profit of the second one is no number. -/
def garblingBroker : (op : CloseCall) → Except Exc op.Ans
  | .clock => .ok Moment.first
  | .getLastSweepAt => .ok none
  | .trades => .ok closedBook
  | .getOpenTrades => .ok (.list [])
  | .getTrade tradeId => .ok (.dict [("state", .str "CLOSED"),
      ("closingTransactionIDs", .list [.str "12"]),
      ("realizedPL", .str (if tradeId = "10" then "n/a" else "-5.0"))])
  | .publisher .utcNowIso => .ok "2026-07-21T11:00:00Z"
  | .publisher (.outboxPublish _ _) => .ok ()
  | .publisher (.outboxPull _ _) => .ok []
  | _ => .error (.ofErr .attributeError)

/-- The broker's answers, with a ledger that has no trade. -/
def sweepHost (answer : (op : CloseCall) → Except Exc op.Ans) (op : CloseCall) (w : SweepState) :
    Except Exc op.Ans × SweepState :=
  match op with
  | .getFallbackAt tradeId => (.ok (w.marks tradeId), w)
  | .putFallbackAt tradeId t =>
      (.ok (), { w with marks := Function.update w.marks tradeId (some t) })
  | .putLastSweepAt _ => (.ok (), w)
  | .putTrade _ => (.ok (), w)
  | .ledgerSeen key => (.ok false, { w with asked := w.asked ++ [key] })
  | .ledgerMark _ => (.ok (), w)
  | op => (answer op, w)

theorem sweepHost_step (answer : (op : CloseCall) → Except Exc op.Ans) (op : CloseCall)
    (w : SweepState) :
    sweepWorld answer w op (sweepHost answer op w).1 (sweepHost answer op w).2 := by
  cases op with
  | ledgerSeen key => rfl
  | ledgerMark key => rfl
  | publisher call => rfl
  | _ => exact ⟨rfl, rfl⟩

theorem sweep_isolated_garbled :
    let w : SweepState := ⟨fun _ => none, []⟩
    let w' := (watchingSweeper.sweep.run (sweepHost garblingBroker) w).2
    let r := (watchingSweeper.sweep.run (sweepHost garblingBroker) w).1
    let gone := closedBook.trades
    (w'.asked = ["9"] ∧ r.isOk = false) ∧
      w'.asked = w.asked ++
        (told watchingSweeper garblingBroker Moment.first w.marks gone).map (·.brokerTradeId) ∧
      (r.isOk = true ↔
        ∀ t ∈ gone, readable watchingSweeper garblingBroker Moment.first w.marks t = true) ∧
      ((∀ t ∈ gone, resolvable watchingSweeper garblingBroker Moment.first w.marks t = true →
          t ∈ told watchingSweeper garblingBroker Moment.first w.marks gone) ↔
        ∀ pre t post, gone = pre ++ t :: post →
          resolvable watchingSweeper garblingBroker Moment.first w.marks t = true →
          ∀ u ∈ pre, readable watchingSweeper garblingBroker Moment.first w.marks u = true) :=
  ⟨by decide +kernel, sweep_isolated ⟨rfl, ⟨none, rfl, rfl⟩, closedBook, _, [], rfl, rfl, rfl, rfl⟩
    (exec_run (sweepHost_step garblingBroker) watchingSweeper.sweep _)⟩

end CloseSweeper

end System2
