import System2.Execution.LiveWorld

/-!
# What the other components do to the book

The sweep, the position manager and the flatten on a stop change trades of the book, and
close some. They open none.
-/

namespace System2
open Foundation

namespace TradeBook

/-- A trade of the book, as it is or changed, and closed if it was. -/
def Continues (book : TradeBook) (u : ManagedTrade) : Prop :=
  ∃ t ∈ book.trades, u.brokerTradeId = t.brokerTradeId ∧ u.instrument = t.instrument ∧
    (t.closed = true → u.closed = true)

/-- The same trades later: what was closed still is. -/
def Later (book book' : TradeBook) : Prop :=
  ∃ f : ManagedTrade → ManagedTrade, book'.trades = book.trades.map f ∧
    ∀ t ∈ book.trades, (f t).brokerTradeId = t.brokerTradeId ∧ (f t).instrument = t.instrument ∧
      (t.closed = true → (f t).closed = true)

variable {book book' : TradeBook} {t u : ManagedTrade}

theorem Later.refl (book : TradeBook) : Later book book :=
  ⟨id, (List.map_id _).symm, fun _ _ => ⟨rfl, rfl, id⟩⟩

theorem continues_of_mem (h : t ∈ book.trades) : book.Continues t := ⟨t, h, rfl, rfl, id⟩

theorem Continues.change (h : book.Continues t) (hid : u.brokerTradeId = t.brokerTradeId)
    (hinstrument : u.instrument = t.instrument) (hclosed : t.closed = true → u.closed = true) :
    book.Continues u := by
  obtain ⟨s, hs, hsid, hsinstrument, hsclosed⟩ := h
  exact ⟨s, hs, hid.trans hsid, hinstrument.trans hsinstrument, fun h => hclosed (hsclosed h)⟩

/-- The trades of a later book continue those of the earlier one. -/
theorem Later.continues (h : book.Later book') (ht : t ∈ book'.trades) : book.Continues t := by
  obtain ⟨f, hf, hsame⟩ := h
  rw [hf] at ht
  obtain ⟨s, hs, rfl⟩ := List.mem_map.mp ht
  exact ⟨s, hs, hsame s hs⟩

/-- Two trades of a book with one id are the same. -/
theorem eq_of_brokerTradeId (ht : t ∈ book.trades) (hu : u ∈ book.trades)
    (h : t.brokerTradeId = u.brokerTradeId) : t = u :=
  List.inj_on_of_nodup_map book.distinct ht hu h

theorem Later.put (h : book.Later book') (hu : book.Continues u) : book.Later (book'.put u) := by
  obtain ⟨f, hf, hsame⟩ := h
  obtain ⟨t, ht, hid, hinstrument, hclosed⟩ := hu
  refine ⟨fun s => if (f s).brokerTradeId = u.brokerTradeId then u else f s, ?_, ?_⟩
  · change book'.trades.map _ = _
    rw [hf, List.map_map]
    rfl
  · intro s hs
    dsimp only
    split_ifs with hs'
    · have hst : s = t := eq_of_brokerTradeId hs ht (by rw [← (hsame s hs).1, hs', hid])
      rw [hst]
      exact ⟨hid, hinstrument, hclosed⟩
    · exact hsame s hs

/-- No instrument is open later that was not. -/
theorem Later.openInstruments (h : book.Later book') :
    book'.openInstruments.Sublist book.openInstruments := by
  obtain ⟨f, hf, hsame⟩ := h
  rw [TradeBook.openInstruments, TradeBook.openInstruments, hf]
  generalize book.trades = trades at hsame
  induction trades with
  | nil => exact List.Sublist.refl _
  | cons t rest ih =>
      have hrest := ih fun s hs => hsame s (List.mem_cons_of_mem _ hs)
      obtain ⟨-, hinstrument, hclosed⟩ := hsame t List.mem_cons_self
      rw [List.map_cons, List.filter_cons, List.filter_cons]
      cases ht : t.closed with
      | true => simpa [ht, hclosed ht] using hrest
      | false =>
          cases hft : (f t).closed with
          | true => simpa [ht, hft] using hrest.cons t.instrument
          | false => simpa [ht, hft, hinstrument] using hrest.cons_cons t.instrument

end TradeBook

/-! ### The sweep -/

/-- A call of the tracker that puts back no trade. -/
def CloseCall.keepsBook : CloseCall → Prop
  | .putTrade _ => False
  | _ => True

/-- The trades that are put back continue those of a book. -/
def CloseCall.closes (book : TradeBook) : CloseCall → Prop
  | .putTrade u => book.Continues u
  | _ => True

/-- Only later books are read. -/
def CloseCall.readsLater (book : TradeBook) : (op : CloseCall) → Except Exc op.Ans → Prop
  | .trades, r => ∀ b, r = .ok b → book.Later b
  | _, _ => True

open CloseCall (keepsBook closes readsLater)

attribute [local irreducible] readInt ManagedTrade.isTighter

theorem CloseCall.keepsBook.closes {book : TradeBook} {op : CloseCall} (h : op.keepsBook) :
    op.closes book := by
  cases op with
  | putTrade t => exact absurd h id
  | _ => exact trivial

theorem CloseCall.Aside.keepsBook {op : CloseCall} (h : op.Aside) : op.keepsBook := by
  cases op with
  | putTrade t => exact h.elim
  | _ => exact trivial

theorem CloseCall.Emits.keepsBook {em : CloseEmitter} {t : ManagedTrade} {op : CloseCall}
    (h : op.Emits em t) : op.keepsBook := by
  cases op with
  | putTrade t => exact h.elim
  | _ => exact trivial

namespace CloseEmitter

open CloseTracker

theorem emit_keepsBook (em : CloseEmitter) (t : ManagedTrade) (facts : CloseFacts)
    (exitReason : String) : (em.emit t facts exitReason).Only keepsBook :=
  (em.emit_emits t facts exitReason).mono fun _ h => h.keepsBook

theorem emitBrokerClose_keepsBook (em : CloseEmitter) (t : ManagedTrade) (resp : PyVal)
    (exitReason : String) : (em.emitBrokerClose t resp exitReason).Only keepsBook := by
  unfold emitBrokerClose
  split
  · exact trivial
  · exact trivial
  · exact emit_keepsBook _ _ _ _

end CloseEmitter

namespace CloseSweeper

open CloseTracker

variable {s : CloseSweeper} {book : TradeBook} {t : ManagedTrade}

theorem closes_of_keepsBook {α : Type} {p : Proc CloseI Exc α} (hp : p.Only keepsBook) :
    p.Along (readsLater book) (closes book) :=
  Proc.Only.along (hp.mono fun _ h => h.closes)

theorem conclude_closes {facts : CloseFacts} {exitReason : String} {viaTransactions : Bool}
    (ht : book.Continues t) :
    (s.conclude t facts exitReason viaTransactions).Along (readsLater book) (closes book) := by
  refine (closes_of_keepsBook (s.emitter.emit_keepsBook t facts exitReason)).bind fun recorded => ?_
  split_ifs
  · have hclosed : book.Continues { t with closed := true } := ht.change rfl rfl fun _ => rfl
    exact (Proc.along_perform hclosed).bind fun _ => trivial
  · exact trivial

theorem fallback_closes {now : Moment} (ht : book.Continues t) :
    (s.fallback now t).Along (readsLater book) (closes book) := by
  simp only [fallback, Proc.bind_eq]
  apply Proc.Along.bind (closes_of_keepsBook ((fallbackDue_paces _ _ _).mono
    fun _ h => h.aside.keepsBook))
  intro due
  cases due with
  | false => exact trivial
  | true =>
      rw [Bool.not_true, if_neg Bool.false_ne_true]
      apply Proc.Along.bind (closes_of_keepsBook
        ((resolveCloseFromTransactions_reads _ _).mono fun _ h => h.aside.keepsBook))
      intro r
      cases r with
      | none => exact trivial
      | some found => exact conclude_closes ht

theorem sweepVanished_closes {now : Moment} (ht : book.Continues t) :
    (s.sweepVanished now t).Along (readsLater book) (closes book) := by
  simp only [sweepVanished, Proc.bind_eq]
  refine (Proc.along_perform trivial).attempt.bind fun details =>
    (along_convert _).bind fun lookup => ?_
  cases lookup with
  | stillOpen => exact trivial
  | unusable => exact fallback_closes ht
  | resolved facts exitReason => exact conclude_closes ht

theorem sweepAll_closes {now : Moment} {openIds : List String} {candidates : List ManagedTrade}
    (h : ∀ t ∈ candidates, book.Continues t) :
    (s.sweepAll now openIds candidates).Along (readsLater book) (closes book) := by
  induction candidates with
  | nil => exact trivial
  | cons t rest ih =>
      have hrest := ih fun u hu => h u (List.mem_cons_of_mem _ hu)
      unfold sweepAll
      split_ifs
      · exact hrest
      · exact (sweepVanished_closes (h t List.mem_cons_self)).bind fun _ => hrest.bind fun _ => trivial

/-- A sweep puts back trades of the book it read, and closed ones alone. -/
theorem sweep_closes : s.sweep.Along (readsLater book) (closes book) := by
  refine (Proc.along_perform trivial).bind fun now => (Proc.along_perform trivial).bind fun last => ?_
  split_ifs
  · exact trivial
  refine (Proc.along_perform trivial).bind fun _ =>
    (closes_of_keepsBook (s.emitter.flush_delivers.mono fun _ h => h.aside.keepsBook)).bind fun _ => ?_
  refine Proc.along_perform_bind trivial fun b hb => ?_
  dsimp only
  split_ifs
  · exact trivial
  refine Proc.Along.bind (Proc.Along.attempt ((Proc.along_perform trivial).bind fun _ =>
    along_convert _)) fun r => ?_
  cases r with
  | error e => exact trivial
  | ok ids =>
      refine Proc.Along.bind (sweepAll_closes fun t ht => ?_) fun _ => trivial
      exact (hb b rfl).continues (List.mem_filter.mp ht).1

end CloseSweeper

/-! ### The position manager -/

/-- The manager's calls on a book: it is read and written exactly, the rest answers anything. -/
def bookWorld : World ManagerI Exc TradeBook := fun b op r b' =>
  match op with
  | .trades => r = .ok b ∧ b' = b
  | .putTrade t => b' = b.put t
  | _ => b' = b

namespace PositionManager

variable {m : PositionManager} {book b : TradeBook} {t : ManagedTrade} {α : Type}

/-- A call that leaves the book alone. -/
def isBroker : ManagerCall → Prop
  | .trades => False
  | .putTrade _ => False
  | _ => True

theorem wpc_broker {op : ManagerCall} (hop : isBroker op) (hb : book.Later b) :
    wpc bookWorld book.Later (perform op) (fun _ b' => book.Later b') b := by
  refine wpc_of_perform hb fun r b' step => ?_
  have hsame : b' = b := by
    cases op with
    | trades => exact absurd hop id
    | putTrade t => exact absurd hop id
    | _ => exact step
  exact ⟨hsame ▸ hb, hsame ▸ hb⟩

theorem wpc_putTrade (ht : book.Continues t) (hb : book.Later b) :
    wpc bookWorld book.Later (perform (.putTrade t)) (fun _ b' => book.Later b') b := by
  refine wpc_of_perform hb ?_
  rintro r b' rfl
  exact ⟨hb.put ht, hb.put ht⟩

/-- The trade that a step of the rules hands on continues one of the book. -/
abbrev HandsOn (book : TradeBook) (trade : α → ManagedTrade) (r : Except Exc α) (b : TradeBook) :
    Prop := book.Later b ∧ ∀ a, r = .ok a → book.Continues (trade a)

theorem handsOn_error {trade : α → ManagedTrade} {e : Exc} (hb : book.Later b) :
    HandsOn book trade (.error e) b := ⟨hb, fun _ h => by cases h⟩

theorem wpc_handOn {trade : α → ManagedTrade} {a : α} (ht : book.Continues (trade a))
    (hb : book.Later b) : wpc bookWorld book.Later (.ret a) (HandsOn book trade) b :=
  ⟨hb, hb, fun _ h => Except.ok.inj h ▸ ht⟩

theorem wpc_setStop {newStop : Binary64} (ht : book.Continues t) (hb : book.Later b) :
    wpc bookWorld book.Later (setStop t newStop) (HandsOn book id) b := by
  have hchanged : book.Continues { t with currentStop := newStop } := ht.change rfl rfl id
  simp only [setStop, Proc.bind_eq]
  refine wpc_seq (wpc_broker trivial hb) (fun _ b₁ hb₁ _ => ?_) fun e b₁ hb₁ _ => handsOn_error hb₁
  exact wpc_seq (wpc_putTrade hchanged hb₁) (fun _ b₂ hb₂ _ => wpc_handOn hchanged hb₂)
    fun e b₂ hb₂ _ => handsOn_error hb₂

theorem wpc_tighten {newStop : Binary64} {name : String} (ht : book.Continues t)
    (hb : book.Later b) :
    wpc bookWorld book.Later (tighten t newStop name) (HandsOn book Prod.fst) b := by
  unfold tighten
  cases t.isTighter newStop t.currentStop with
  | true =>
      exact wpc_seq (wpc_setStop ht hb) (fun t' b₁ hb₁ h => wpc_handOn (h.2 t' rfl) hb₁)
        fun e b₁ hb₁ _ => handsOn_error hb₁
  | false => exact wpc_handOn ht hb

theorem wpc_timeActions {frac : Binary64} (ht : book.Continues t) (hb : book.Later b) :
    wpc bookWorld book.Later (m.timeActions t frac) (HandsOn book Prod.fst) b := by
  unfold timeActions
  cases m.timeAction? t frac with
  | none => exact wpc_handOn ht hb
  | some found =>
      have hchanged : book.Continues
          { t with timeActionsDone := t.timeActionsDone ++ [found.1] } := ht.change rfl rfl id
      exact wpc_seq (wpc_putTrade hchanged hb) (fun _ b₁ hb₁ _ => wpc_handOn hchanged hb₁)
        fun e b₁ hb₁ _ => handsOn_error hb₁

theorem wpc_breakeven {price : Binary64} (ht : book.Continues t) (hb : book.Later b) :
    wpc bookWorld book.Later (m.breakeven t price) (HandsOn book Prod.fst) b := by
  unfold breakeven
  cases !t.atBreakeven && (m.breakevenR.sub rEps).le (t.rMultiple price) with
  | false => exact wpc_handOn ht hb
  | true =>
      rw [if_pos rfl, Proc.bind_eq]
      refine wpc_seq (wpc_tighten ht hb) ?_ fun e b₁ hb₁ _ => handsOn_error hb₁
      rintro ⟨t', actions⟩ b₁ hb₁ h
      have hchanged : book.Continues { t' with atBreakeven := true } :=
        (h.2 _ rfl).change rfl rfl id
      exact wpc_seq (wpc_putTrade hchanged hb₁) (fun _ b₂ hb₂ _ => wpc_handOn hchanged hb₂)
        fun e b₂ hb₂ _ => handsOn_error hb₂

theorem wpc_trail {price : Binary64} (ht : book.Continues t) (hb : book.Later b) :
    wpc bookWorld book.Later (m.trail t price) (HandsOn book Prod.fst) b := by
  unfold trail
  cases t.atBreakeven && Binary64.zero.lt m.trailDistance && !t.closed with
  | true =>
      rw [if_pos rfl]
      exact wpc_tighten ht hb
  | false => exact wpc_handOn ht hb

theorem wpc_manageStop {frac price : Binary64} (ht : book.Continues t) (hb : book.Later b) :
    wpc bookWorld book.Later (m.manageStop t frac price) (fun _ b' => book.Later b') b := by
  simp only [manageStop, Proc.bind_eq]
  refine wpc_seq (wpc_timeActions ht hb) ?_ fun _ _ hb _ => hb
  rintro ⟨t₁, timed⟩ b₁ hb₁ h₁
  refine wpc_seq (wpc_breakeven (h₁.2 _ rfl) hb₁) ?_ fun _ _ hb _ => hb
  rintro ⟨t₂, moved⟩ b₂ hb₂ h₂
  exact wpc_seq (wpc_trail (h₂.2 _ rfl) hb₂) (fun _ _ hb _ => ⟨hb, hb⟩) fun _ _ hb _ => hb

theorem wpc_close {exitReason : String} (ht : book.Continues t) (hb : book.Later b) :
    wpc bookWorld book.Later (m.close t exitReason) (HandsOn book id) b := by
  have hchanged : book.Continues { t with closed := true } := ht.change rfl rfl fun _ => rfl
  simp only [close, Proc.bind_eq]
  refine wpc_seq (wpc_broker trivial hb) (fun resp b₁ hb₁ _ => ?_)
    fun e b₁ hb₁ _ => handsOn_error hb₁
  refine wpc_seq (wpc_putTrade hchanged hb₁) (fun _ b₂ hb₂ _ => ?_)
    fun e b₂ hb₂ _ => handsOn_error hb₂
  refine wpc_seq (R := fun _ b' => book.Later b') ?_ (fun _ b₃ hb₃ _ => wpc_handOn hchanged hb₃)
    fun e b₃ hb₃ _ => handsOn_error hb₃
  exact wpc_given (fun _ => wpc_broker trivial hb₂) fun _ => ⟨hb₂, hb₂⟩

theorem wpc_timeExit (ht : book.Continues t) (hb : book.Later b) :
    wpc bookWorld book.Later (m.timeExit t) (fun _ b' => book.Later b') b := by
  simp only [timeExit, Proc.bind_eq]
  refine wpc_seq (wpc_close ht hb) (fun t' b₁ hb₁ h => ?_) fun _ _ hb _ => hb
  have hchanged : book.Continues { t' with timeActionsDone := t'.timeActionsDone ++ ["t100"] } :=
    (h.2 t' rfl).change rfl rfl id
  exact wpc_seq (wpc_putTrade hchanged hb₁) (fun _ _ hb _ => ⟨hb, hb⟩) fun _ _ hb _ => hb

theorem wpc_onTick {price : Binary64} (ht : book.Continues t) (hb : book.Later b) :
    wpc bookWorld book.Later (m.onTick t price) (fun _ b' => book.Later b') b := by
  unfold onTick
  split_ifs
  · exact ⟨hb, hb⟩
  simp only [Proc.bind_eq]
  refine wpc_seq (wpc_broker trivial hb) (fun now b₁ hb₁ _ => ?_) fun _ _ hb _ => hb
  split_ifs
  · exact wpc_timeExit ht hb₁
  · exact wpc_manageStop ht hb₁

theorem wpc_tickAll {prices : List (String × Binary64)} {trades : List ManagedTrade}
    (h : ∀ t ∈ trades, book.Continues t) (hb : book.Later b) :
    wpc bookWorld book.Later (m.tickAll prices trades) (fun _ b' => book.Later b') b := by
  induction trades generalizing b with
  | nil => exact ⟨hb, hb⟩
  | cons t rest ih =>
      have hrest := fun b (hb : book.Later b) => ih (fun u hu => h u (List.mem_cons_of_mem _ hu)) hb
      unfold tickAll
      split_ifs
      · exact hrest b hb
      · split
        · exact hrest b hb
        · refine wpc_seq (wpc_onTick (h t List.mem_cons_self) hb) (fun _ b₁ hb₁ _ => ?_)
            fun _ _ hb _ => hb
          exact wpc_seq (hrest b₁ hb₁) (fun _ _ hb _ => ⟨hb, hb⟩) fun _ _ hb _ => hb

/-- A pass of the manager opens no trade. -/
theorem wpc_evaluateAll {prices : List (String × Binary64)} :
    wpc bookWorld book.Later (m.evaluateAll prices) (fun _ b' => book.Later b') book := by
  simp only [evaluateAll, Proc.bind_eq]
  exact wpc_answered (fun _ _ h => h) (.refl book)
    (wpc_tickAll (fun t ht => TradeBook.continues_of_mem ht) (.refl book))

end PositionManager

/-! ### The activities -/

/-- No trade was opened and no hook of the consumer was called. -/
structure LiveState.OpensNone (w₀ w : LiveState) : Prop where
  book : w₀.book.Later w.book
  marks : w.marks = w₀.marks

theorem LiveState.OpensNone.refl (w : LiveState) : w.OpensNone w := ⟨.refl _, rfl⟩

namespace LiveRuntime

open LiveState (OpensNone)

variable {rt : LiveRuntime} {w₀ w : LiveState} {α : Type}

theorem wpc_onTracker {p : Proc CloseI Exc α}
    (hp : p.Along (CloseCall.readsLater w₀.book) (CloseCall.closes w₀.book))
    (hw : w₀.OpensNone w) :
    wpc liveWorld w₀.OpensNone (onTracker p) (fun _ w' => w₀.OpensNone w') w := by
  refine wpc_interp_of_along (D := w₀.OpensNone) (fun op u hop hu => ?_) hp hw
  refine wpc_of_perform hu fun r u' step => ?_
  cases op with
  | trades =>
      obtain ⟨hr, rfl⟩ := step
      exact ⟨hu, fun b hb => Except.ok.inj (hr.symm.trans hb) ▸ hu.book, hu⟩
  | putTrade t =>
      obtain rfl : u' = { u with book := u.book.put t } := step
      have hput : w₀.OpensNone { u with book := u.book.put t } := ⟨hu.book.put hop, hu.marks⟩
      exact ⟨hput, trivial, hput⟩
  | _ =>
      obtain rfl : u' = u := step
      exact ⟨hu, trivial, hu⟩

/-- A procedure of the tracker that puts back nothing leaves the memory alone. -/
theorem wpc_onTracker_same {p : Proc CloseI Exc α} (hp : p.Only CloseCall.keepsBook) :
    wpc liveWorld (· = w) (onTracker p) (fun _ w' => w' = w) w := by
  refine wpc_interp_of_along (D := (· = w)) ?_ hp rfl
  rintro op u hop rfl
  refine wpc_of_perform rfl fun r u' step => ?_
  have hsame : u' = u := by
    cases op with
    | trades => exact step.2
    | putTrade t => exact absurd hop id
    | _ => exact step
  exact ⟨hsame, trivial, hsame⟩

theorem wpc_manage {prices : List (String × Binary64)} :
    wpc liveWorld w.OpensNone (rt.manage prices) (fun _ w' => w.OpensNone w') w := by
  suffices hview : wpc liveWorld (fun w' => w.book.Later w'.book ∧ w'.marks = w.marks)
      (rt.manage prices) (fun _ w' => w.book.Later w'.book) w from
    wpc_mono hview (fun _ h => ⟨h.1, h.2⟩) fun _ _ h _ => ⟨h.1, h.2⟩
  refine wpc_interp_view (v := fun w' : LiveState => w'.book)
    (F := fun w' : LiveState => w'.marks = w.marks) ?_ rt.manager.wpc_evaluateAll rfl
  intro op u Q hD hF hstep
  have hcall : rt.wireManager op = perform (.manager op) →
      wpc liveWorld (fun w' => w.book.Later w'.book ∧ w'.marks = w.marks) (rt.wireManager op) Q u := by
    intro heq
    rw [heq]
    refine wpc_of_perform ⟨hD, hF⟩ fun r u' step => ?_
    have hpair : bookWorld u.book op r u'.book ∧ u'.marks = u.marks := by
      cases op with
      | trades => exact ⟨⟨step.1, step.2 ▸ rfl⟩, step.2 ▸ rfl⟩
      | putTrade t =>
          obtain rfl : u' = { u with book := u.book.put t } := step
          exact ⟨rfl, rfl⟩
      | _ =>
          obtain rfl : u' = u := step
          exact ⟨rfl, rfl⟩
    obtain ⟨hD', hQ⟩ := hstep r u' hpair.1 (hpair.2.trans hF)
    exact ⟨⟨hD', hpair.2.trans hF⟩, hQ⟩
  cases op with
  | emitCloseFn t resp exitReason =>
      refine wpc_seq (wpc_mono (wpc_onTracker_same (w := u)
        (CloseEmitter.emitBrokerClose_keepsBook _ t resp exitReason)) ?_ fun _ _ _ h => h) ?_ ?_
      · rintro _ rfl
        exact ⟨hD, hF⟩
      · rintro _ u' hC rfl
        exact ⟨hC, (hstep _ u' rfl hF).2⟩
      · rintro e u' - rfl
        exact (hstep _ u' rfl hF).2
  | _ => exact hcall rfl

theorem wpc_sweep : wpc liveWorld w.OpensNone rt.sweep (fun _ w' => w.OpensNone w') w :=
  wpc_onTracker CloseSweeper.sweep_closes (.refl w)

theorem wpc_flattenTrade {t : ManagedTrade} (ht : w₀.book.Continues t) (hw : w₀.OpensNone w) :
    wpc liveWorld w₀.OpensNone (rt.flattenTrade t) (fun _ w' => w₀.OpensNone w') w := by
  have hclosed : w₀.book.Continues { t with closed := true } := ht.change rfl rfl fun _ => rfl
  simp only [flattenTrade, Proc.bind_eq]
  refine wpc_seq (R := fun _ w' => w₀.OpensNone w') ?_ (fun r w₁ hw₁ _ => ?_) fun _ _ hw _ => hw
  · rw [wpc_attempt]
    refine wpc_seq (R := fun _ w' => w₀.OpensNone w') (wpc_of_perform hw ?_)
      (fun resp w₁ hw₁ _ => ?_) fun _ _ hw _ => hw
    · rintro r u rfl
      exact ⟨hw, hw⟩
    · refine wpc_seq (R := fun _ w' => w₀.OpensNone w') (wpc_of_perform hw₁ ?_)
        (fun _ _ hw _ => ⟨hw, hw⟩) fun _ _ hw _ => hw
      rintro r u rfl
      have hput : w₀.OpensNone { w₁ with
          book := w₁.book.put { t with closed := true } } := ⟨hw₁.book.put hclosed, hw₁.marks⟩
      exact ⟨hput, hput⟩
  · cases r with
    | error e => exact ⟨hw₁, hw₁⟩
    | ok resp =>
        refine wpc_seq (R := fun _ w' => w₀.OpensNone w') ?_ (fun _ _ hw _ => ⟨hw, hw⟩)
          fun _ _ hw _ => hw
        rw [wpc_attempt]
        exact wpc_onTracker (CloseSweeper.closes_of_keepsBook
          (CloseEmitter.emitBrokerClose_keepsBook _ _ _ _)) hw₁

theorem wpc_flattenAll {trades : List ManagedTrade} (h : ∀ t ∈ trades, w₀.book.Continues t)
    (hw : w₀.OpensNone w) :
    wpc liveWorld w₀.OpensNone (rt.flattenAll trades) (fun _ w' => w₀.OpensNone w') w := by
  induction trades generalizing w with
  | nil => exact ⟨hw, hw⟩
  | cons t rest ih =>
      have hrest := fun w (hw : w₀.OpensNone w) =>
        ih (fun u hu => h u (List.mem_cons_of_mem _ hu)) hw
      unfold flattenAll
      split_ifs
      · exact hrest w hw
      · refine wpc_seq (wpc_flattenTrade (h t List.mem_cons_self) hw) (fun _ w₁ hw₁ _ => ?_)
          fun _ _ hw _ => hw
        exact wpc_seq (hrest w₁ hw₁) (fun _ _ hw _ => ⟨hw, hw⟩) fun _ _ hw _ => hw

/-- The fill producer's flushes and control events touch none of the memory. -/
theorem wpc_onProducer {p : Proc ProducerI Exc α} (hp : p.Only unregistering)
    (hw : w₀.OpensNone w) :
    wpc liveWorld w₀.OpensNone (rt.onProducer p) (fun _ w' => w₀.OpensNone w') w := by
  unfold onProducer
  rw [Proc.interp_interp]
  exact wpc_asideOnly (Proc.Only.interp hp fun op hop => wireProducer_aside hop) hw fun _ => hw

theorem wpc_shutdown {reason : String} :
    wpc liveWorld w.OpensNone (rt.shutdown reason) (fun _ w' => w.OpensNone w') w := by
  simp only [shutdown, Proc.bind_eq]
  refine wpc_seq (R := fun _ w' => w.OpensNone w') ?_ (fun _ w₁ hw₁ _ => ?_) fun _ _ hw _ => hw
  · rw [wpc_attempt]
    exact wpc_onProducer (flush_unregistering _ _) (.refl w)
  refine wpc_seq (R := fun _ w' => w.OpensNone w') ?_ (fun flattened w₂ hw₂ _ => ?_)
    fun _ _ hw _ => hw
  · unfold flatten
    split_ifs
    · exact wpc_answered (fun _ _ h => h) hw₁
        (wpc_flattenAll (fun t ht => hw₁.book.continues ht) hw₁)
    · exact ⟨hw₁, hw₁⟩
  · refine wpc_seq (R := fun _ w' => w.OpensNone w') ?_ (fun _ _ hw _ => ⟨hw, hw⟩)
      fun _ _ hw _ => hw
    rw [wpc_attempt]
    refine wpc_onProducer ((Proc.along_perform trivial).bind fun _ =>
      (Proc.along_perform trivial).bind fun _ => (Proc.along_perform trivial).bind fun _ =>
        (flush_unregistering _ _).bind fun _ => trivial) hw₂

theorem wpc_askMonitor_opensNone {p : Proc MonitorI Exc α} :
    wpc liveWorld w.OpensNone (askMonitor p) (fun _ w' => w.OpensNone w') w := by
  refine wpc_interp_of_along (D := w.OpensNone) ?_ (Proc.only_true p) (OpensNone.refl w)
  rintro op u - hu
  refine wpc_of_perform hu ?_
  rintro r u' ⟨s, -, rfl⟩
  exact ⟨⟨hu.book, hu.marks⟩, trivial, hu.book, hu.marks⟩

/-- Is this the handling of a message? -/
def Activity.isHandling : Activity → Bool
  | .handle _ _ => true
  | _ => false

/-- Every activity but a handling opens no trade. -/
theorem act_opensNone {a : Activity} {out : Option (Except Exc Unit)} {w' : LiveState}
    (ha : a.isHandling = false) (exec : Exec liveWorld (rt.act a) w out w') : w.OpensNone w' := by
  have hdone : ∀ {β : Type} {p : Proc LiveI Exc β},
      wpc liveWorld w.OpensNone p (fun _ w' => w.OpensNone w') w →
        wpc liveWorld w.OpensNone (done p) (fun _ _ => True) w := fun h =>
    wpc_seq h (fun _ _ hw _ => ⟨hw, trivial⟩) fun _ _ _ _ => trivial
  refine (wpc_sound (C := w.OpensNone) (Q := fun _ _ => True) exec ?_).1
  cases a with
  | handle msg now => cases ha
  | manage prices => exact hdone wpc_manage
  | sweep => exact hdone wpc_sweep
  | evaluate lastMessageAt clock => exact hdone wpc_askMonitor_opensNone
  | requestBypass token operator reason => exact hdone wpc_askMonitor_opensNone
  | exitBypass reason => exact wpc_post wpc_askMonitor_opensNone fun _ _ _ _ => trivial
  | shutdown reason => exact hdone wpc_shutdown

end LiveRuntime

end System2
