import System2.Execution.ServiceRuns
import System2.Execution.SubmitOnce
import System2.Foundation.Upsert

/-!
# The local trade row and the message (`execution/trade_recorder.py`)

`record` writes one row for each order, into the columns that the table has. It runs before
the fill confirmation is published, so that the row and the message agree; the two are
rendered separately, and `row_agrees_iff` says when they do.

## Implementation notes

Reading the columns of the table is part of the set-up and not modelled. A row has the values
that were bound to its columns. What the types of the columns make of them is left to the
database: PostgreSQL rounds prices to the six decimals of `NUMERIC(18,6)`, pips to the two of
`NUMERIC(9,2)`, and keeps a moment for the text of a `TIMESTAMPTZ`.
-/

namespace System2
open Foundation

/-! ### The recorder -/

inductive RecorderCall
  | utcNowIso
  | execute (sql : Upsert) (params : List PyVal)
  | commit

abbrev RecorderCall.Ans : RecorderCall → Type
  | .utcNowIso => String
  | _ => Unit

abbrev RecorderI : Interface := ⟨RecorderCall, RecorderCall.Ans⟩

/-- A recorder with the columns of its table, as the database names them. -/
structure TradeRecorder where
  provider : String
  table : String
  existing : List String

namespace TradeRecorder

abbrev perform (op : RecorderCall) : Proc RecorderI Exc op.Ans := Proc.perform (I := RecorderI) op

def placeholder (r : TradeRecorder) : String := if r.provider = "sqlite" then "?" else "%s"

/-- The stored name of a column; of two that differ in case only, the later. -/
def columnOf (r : TradeRecorder) (name : String) : Option String :=
  r.existing.reverse.find? fun c => lower c == lower name

/-- What a row would hold, given the two numbers of units as integers and the time. -/
def candidate (c : ConstructedOrder) (fill : FillResult) (units filled : ℤ) (now : String) : Dict :=
  [("Order_ID", .str c.idempotencyKey), ("Correlation_ID", .str c.correlationId),
    ("Instrument", .str c.instrument), ("Side", .str c.side), ("Units", .int units),
    ("Requested_Price", .float c.entryPrice), ("Broker_Order_ID", optionalText fill.brokerOrderId),
    ("Broker_Trade_ID", optionalText fill.brokerTradeId), ("Fill_Price", floatField fill.fillPrice),
    ("Fill_Time", fill.fillTime), ("Slippage_Pips", floatField fill.slippagePips),
    ("Realized_Status", .str fill.realizedStatus), ("Filled_Units", .int filled),
    ("Stop_Loss_Price", .float (fill.stopLossPrice.getD c.stopLoss)),
    ("Take_Profit_Price", .float (fill.takeProfitPrice.getD c.takeProfit)),
    ("Model_Set_ID", optionalText fill.modelSetId), ("Reject_Reason", fill.rejectReason),
    ("Updated_At", .str now)]

/-- The columns that exist, under their stored names. -/
def present (r : TradeRecorder) (row : Dict) : Dict :=
  row.filterMap fun kv => (r.columnOf kv.1).map fun col => (col, kv.2)

/-- The statement of `record` for a row of the present columns. -/
def statement (r : TradeRecorder) (keyCol : String) (row : Dict) : Upsert :=
  ⟨r.table, keyCol, row.map Prod.fst, r.placeholder⟩

/-- `record`: a failed write is logged and swallowed. -/
def record (r : TradeRecorder) (c : ConstructedOrder) (fill : FillResult) :
    Proc RecorderI Exc Unit := do
  let units ← Proc.ofExcept (Exc.lift c.units.toInt)
  let filled ← Proc.ofExcept (Exc.lift fill.filledUnits.toInt)
  let now ← perform .utcNowIso
  let row := r.present (candidate c fill units filled now)
  match r.columnOf "Order_ID" with
  | none => return ()
  | some keyCol =>
      if row.isEmpty then return ()
      else
        let sql := r.statement keyCol row
        let write := do
          let _ ← perform (.execute sql (sql.params row))
          perform .commit
        let _ ← write.attempt
        return ()

/-- A table of bound values takes those of a statement that succeeds; the clock tells any time. -/
def boundTable : World RecorderI Exc KeyedTable := fun t op =>
  match op with
  | .execute sql params => fun r t' => t' = match r with
      | .ok _ => sql.store params t
      | .error _ => t
  | _ => fun _ t' => t' = t

/-- The statement and its commit both succeeded. -/
def Written (calls : List (Event RecorderI Exc)) : Prop :=
  (∃ sql params, ⟨.execute sql params, .ok ()⟩ ∈ calls) ∧ ⟨.commit, .ok ()⟩ ∈ calls

/-- Every column that `record` writes. -/
def written : List String :=
  ["Order_ID", "Correlation_ID", "Instrument", "Side", "Units", "Requested_Price",
    "Broker_Order_ID", "Broker_Trade_ID", "Fill_Price", "Fill_Time", "Slippage_Pips",
    "Realized_Status", "Filled_Units", "Stop_Loss_Price", "Take_Profit_Price", "Model_Set_ID",
    "Reject_Reason", "Updated_At"]

/-- All of them are in the table. -/
def Complete (r : TradeRecorder) : Prop := ∀ name ∈ written, (r.columnOf name).isSome = true

variable {r : TradeRecorder} {c : ConstructedOrder} {fill : FillResult} {units filled : ℤ}
  {now : String}

theorem candidate_written : (candidate c fill units filled now).map Prod.fst = written := rfl

theorem written_distinct : (written.map lower).Nodup := by decide +kernel

theorem lower_columnOf {name col : String} (h : r.columnOf name = some col) :
    lower col = lower name := by
  simpa using List.find?_some h

/-- A column of the row has the value that was meant for it. -/
theorem get?_present {row : Dict} {name col : String} {v : PyVal}
    (hdistinct : ((row.map Prod.fst).map lower).Nodup) (hmem : (name, v) ∈ row)
    (hcol : r.columnOf name = some col) : (r.present row).get? col = some v := by
  induction row with
  | nil => cases hmem
  | cons kv rest ih =>
      obtain ⟨hfirst, hrest⟩ := List.nodup_cons.mp hdistinct
      rcases List.mem_cons.mp hmem with rfl | htail
      · simp [present, hcol, Dict.get?]
      · have hother : r.columnOf kv.1 ≠ some col := by
          intro hsame
          have hlower : lower kv.1 = lower name :=
            (lower_columnOf hsame).symm.trans (lower_columnOf hcol)
          refine hfirst (hlower ▸ ?_)
          exact List.mem_map_of_mem (List.mem_map_of_mem (f := Prod.fst) htail)
        have hskip := ih hrest htail
        cases hkv : r.columnOf kv.1 with
        | none => simpa [present, hkv] using hskip
        | some first =>
            have hne : first ≠ col := fun h => hother (h ▸ hkv)
            simpa [present, hkv, Dict.get?, hne] using hskip

/-- The row of the order holds the values that `record` meant to bind. -/
def Holds (r : TradeRecorder) (c : ConstructedOrder) (fill : FillResult) (t : KeyedTable) : Prop :=
  ∃ units filled now row, c.units.toInt = .ok units ∧ fill.filledUnits.toInt = .ok filled ∧
    t c.idempotencyKey = some row ∧
      ∀ name v, (name, v) ∈ candidate c fill units filled now → name ≠ "Order_ID" →
        ∃ col, r.columnOf name = some col ∧ row.get col = v

/-- The upsert of a row leaves the values of the present columns under the id of the order. -/
theorem store_present {keyCol : String} (hkey : r.columnOf "Order_ID" = some keyCol)
    (t : KeyedTable) :
    let row := r.present (candidate c fill units filled now)
    (∃ stored, (r.statement keyCol row).store ((r.statement keyCol row).params row) t
        c.idempotencyKey = some stored ∧
      ∀ name v, (name, v) ∈ candidate c fill units filled now → name ≠ "Order_ID" →
        ∀ col, r.columnOf name = some col → stored.get col = v) ∧
    ∀ key, key ≠ c.idempotencyKey →
      (r.statement keyCol row).store ((r.statement keyCol row).params row) t key = t key := by
  intro row
  have hget : ∀ name v col, (name, v) ∈ candidate c fill units filled now →
      r.columnOf name = some col → row.get? col = some v :=
    fun name v col hmem hcol => get?_present (candidate_written ▸ written_distinct) hmem hcol
  have hid : (row.get (r.statement keyCol row).keyCol).toStr = c.idempotencyKey := by
    rw [show (r.statement keyCol row).keyCol = keyCol from rfl, Dict.get,
      hget "Order_ID" _ keyCol List.mem_cons_self hkey]
    rfl
  constructor
  · obtain ⟨stored, hstored, hsame⟩ :=
      Upsert.store_get (t := t) (rfl : (r.statement keyCol row).cols = row.map Prod.fst)
    refine ⟨stored, hid ▸ hstored, fun name v hmem hname col hcol => ?_⟩
    have hwritten : name ∈ written := candidate_written ▸ List.mem_map_of_mem (f := Prod.fst) hmem
    have hrow := hget name v col hmem hcol
    have hne : col ≠ keyCol := by
      rintro rfl
      have hlower := (lower_columnOf hcol).symm.trans (lower_columnOf hkey)
      exact hname (List.inj_on_of_nodup_map written_distinct hwritten (by decide) hlower)
    have hcols : col ∈ (r.statement keyCol row).updated := by
      refine List.mem_filter.mpr ⟨?_, bne_iff_ne.mpr hne⟩
      exact List.mem_map.mpr
        ⟨(col, v), List.mem_filterMap.mpr ⟨(name, v), hmem, by simp [hcol]⟩, rfl⟩
    rw [hsame col hcols, Dict.get, hrow]
    rfl
  · intro key hother
    exact Upsert.store_of_ne rfl (hid.symm ▸ hother)

/-- The upsert of a complete row. -/
theorem holds_store (hcomplete : r.Complete) {keyCol : String} {t : KeyedTable}
    (hkey : r.columnOf "Order_ID" = some keyCol) (hunits : c.units.toInt = .ok units)
    (hfilled : fill.filledUnits.toInt = .ok filled) :
    let row := r.present (candidate c fill units filled now)
    let sql := r.statement keyCol row
    r.Holds c fill (sql.store (sql.params row) t) := by
  obtain ⟨⟨stored, hstored, hsame⟩, -⟩ := @store_present r c fill units filled now keyCol hkey t
  refine ⟨units, filled, now, stored, hunits, hfilled, hstored, fun name v hmem hname => ?_⟩
  have hwritten : name ∈ written := candidate_written ▸ List.mem_map_of_mem (f := Prod.fst) hmem
  obtain ⟨col, hcol⟩ := Option.isSome_iff_exists.mp (hcomplete name hwritten)
  exact ⟨col, hcol, hsame name v hmem hname col hcol⟩

/-- No statement has succeeded yet. -/
def Unwritten (calls : List (Event RecorderI Exc)) : Prop :=
  ∀ sql params, ⟨.execute sql params, .ok ()⟩ ∉ calls

theorem Unwritten.call {calls : List (Event RecorderI Exc)} (h : Unwritten calls)
    {e : Event RecorderI Exc} (he : ∀ sql params, e ≠ ⟨.execute sql params, .ok ()⟩) :
    Unwritten (calls ++ [e]) := by
  intro sql params hmem
  rcases List.mem_append.mp hmem with hold | hnew
  · exact h sql params hold
  · exact he sql params (List.mem_singleton.mp hnew).symm

/-- A record whose two writes succeed leaves its row in the table. -/
theorem record_holds (hcomplete : r.Complete) {t t' : KeyedTable}
    {out : Option (Except Exc Unit)} {calls : List (Event RecorderI Exc)}
    (exec : Exec boundTable.traced (r.record c fill) (t, []) out (t', calls))
    (hwritten : Written calls) : r.Holds c fill t' := by
  have hnot : ∀ w : KeyedTable × List (Event RecorderI Exc), Unwritten w.2 →
      Written w.2 → r.Holds c fill w.1 := by
    rintro w hnone ⟨⟨sql, params, hexecuted⟩, -⟩
    exact absurd hexecuted (hnone sql params)
  have hunwritten : Unwritten ([] : List (Event RecorderI Exc)) := fun _ _ h => nomatch h
  have hstart : Written ([] : List (Event RecorderI Exc)) → r.Holds c fill t :=
    hnot (t, []) hunwritten
  have hrecord : wpc boundTable.traced (fun w => Written w.2 → r.Holds c fill w.1)
      (r.record c fill) (fun _ _ => True) (t, []) := by
    simp only [record, Proc.bind_eq, wpc_bind, wpc_ofExcept]
    refine ⟨hstart, ?_⟩
    cases hunits : c.units.toInt with
    | error e => exact trivial
    | ok units =>
        refine ⟨hstart, ?_⟩
        cases hfilled : fill.filledUnits.toInt with
        | error e => exact trivial
        | ok filled =>
            refine wpc_of_perform hstart ?_
            rintro now w₁ ⟨-, htrace₁⟩
            have h₁ : Unwritten w₁.2 := htrace₁ ▸ hunwritten.call fun _ _ h => by cases h
            refine ⟨hnot _ h₁, ?_⟩
            cases now with
            | error e => exact trivial
            | ok now =>
                cases hkey : r.columnOf "Order_ID" with
                | none => exact ⟨hnot _ h₁, trivial⟩
                | some keyCol =>
                    dsimp only
                    split_ifs
                    · exact ⟨hnot _ h₁, trivial⟩
                    simp only [wpc_bind, wpc_attempt]
                    refine wpc_of_perform (hnot _ h₁) ?_
                    rintro stored w₂ ⟨htable, htrace₂⟩
                    cases stored with
                    | error e =>
                        have h₂ : Unwritten w₂.2 := htrace₂ ▸ h₁.call fun _ _ h => by cases h
                        exact ⟨hnot _ h₂, hnot _ h₂, trivial⟩
                    | ok _ =>
                        have h₂ : r.Holds c fill w₂.1 :=
                          htable ▸ holds_store hcomplete hkey hunits hfilled
                        refine ⟨fun _ => h₂, wpc_of_perform (fun _ => h₂) ?_⟩
                        rintro committed w₃ ⟨hsame, -⟩
                        have h₃ : r.Holds c fill w₃.1 := hsame ▸ h₂
                        exact ⟨fun _ => h₃, fun _ => h₃, trivial⟩
  exact (wpc_sound exec hrecord).1 hwritten

/-! ### The row and the message -/

/-- One value, where a whole number may be an integer or a float. -/
def SameValue : PyVal → PyVal → Prop
  | .int n, .float (.fin q _) => (n : ℚ) = q
  | v, w => v = w

/-- A float that is an integer. -/
def IsWhole (x : Binary64) : Prop := ∃ (n : ℤ) (valid : _), x = .fin n valid

/-- The columns of the row that the message carries, too, with its names for them. -/
def sharedFields : List (String × String) :=
  [("Units", "requested_units"), ("Filled_Units", "filled_units"),
    ("Realized_Status", "realized_status"), ("Broker_Order_ID", "broker_order_id"),
    ("Broker_Trade_ID", "broker_trade_id"), ("Requested_Price", "requested_price"),
    ("Fill_Price", "fill_price"), ("Fill_Time", "fill_time"), ("Slippage_Pips", "slippage_pips"),
    ("Stop_Loss_Price", "stop_loss_price"), ("Take_Profit_Price", "take_profit_price"),
    ("Reject_Reason", "reject_reason")]

/-- The payload of a message. -/
def payloadOf (message : PyVal) : Dict := (message.entries.get "payload").entries

/-- The row and the message carry the same values. -/
def Agrees (r : TradeRecorder) (row : Dict) (message : PyVal) : Prop :=
  ∀ f ∈ sharedFields, ∃ col, r.columnOf f.1 = some col ∧
    SameValue (row.get col) ((payloadOf message).get f.2)

/-- An outcome that both encoders render alike: whole units, the order's entry price as the
requested one, and a stop and a target. -/
structure Alike (order : ApprovedOrder) (c : ConstructedOrder) (fill : FillResult) : Prop where
  units : IsWhole order.units
  filled : IsWhole fill.filledUnits
  requested : fill.requestedPrice = some c.entryPrice
  stop : fill.stopLossPrice.isSome = true
  target : fill.takeProfitPrice.isSome = true

theorem sameValue_int {x : Binary64} {n : ℤ} (h : x.toInt = .ok n) :
    SameValue (.int n) (.float x) ↔ IsWhole x := by
  cases x with
  | fin q valid =>
      have hcut : q.num.tdiv q.den = n := Except.ok.inj h
      constructor
      · intro hsame
        obtain rfl : (n : ℚ) = q := hsame
        exact ⟨n, valid, rfl⟩
      · rintro ⟨m, hm, heq⟩
        obtain rfl : q = m := by simpa using heq
        change (n : ℚ) = m
        rw [← hcut]
        simp
  | nan => cases h
  | inf negative => cases h

theorem sameValue_price {x : Binary64} {o : Option Binary64} :
    SameValue (.float x) (floatField o) ↔ o = some x := by
  cases o with
  | none => simp [SameValue, floatField]
  | some y => simp [SameValue, floatField, eq_comm]

theorem sameValue_refl (v : PyVal) : SameValue v v := by
  cases v with
  | _ => exact rfl

/-- A default hides that the message has no price. -/
theorem sameValue_default {x : Binary64} {o : Option Binary64} :
    SameValue (.float (o.getD x)) (floatField o) ↔ o.isSome = true := by
  rw [sameValue_price]
  cases o with
  | none => simp
  | some y => simp

/-- The payload of a built message. -/
theorem payloadOf_built {order : ApprovedOrder} {message : PyVal}
    {t t' : List (Event ProducerI Exc)}
    (exec : Exec World.free (FillProducer.buildMessage order fill) t (some (.ok message)) t') :
    payloadOf message = (FillProducer.fillPayload order fill).entries := by
  have hbuilt : (FillProducer.buildMessage order fill).Yields (fun _ _ => True) fun m =>
      payloadOf m = (FillProducer.fillPayload order fill).entries := by
    unfold FillProducer.buildMessage
    split_ifs
    · exact trivial
    · exact (Proc.yields_true _).bind fun id _ => (Proc.yields_true _).bind fun time _ => rfl
  have hmessage := exec_yields exec (fun _ _ _ _ _ => trivial) hbuilt
  exact hmessage

theorem sharedFields_written : ∀ f ∈ sharedFields, f.1 ∈ written ∧ f.1 ≠ "Order_ID" := by
  decide

theorem agrees_iff {row : Dict} {message : PyVal}
    (hrow : ∀ name v, (name, v) ∈ candidate c fill units filled now → name ≠ "Order_ID" →
      ∃ col, r.columnOf name = some col ∧ row.get col = v) :
    r.Agrees row message ↔ ∀ f ∈ sharedFields, ∀ v, (f.1, v) ∈ candidate c fill units filled now →
      SameValue v ((payloadOf message).get f.2) := by
  refine forall₂_congr fun f hf => ?_
  obtain ⟨hwritten, hname⟩ := sharedFields_written f hf
  constructor
  · rintro ⟨col, hcol, hsame⟩ v hv
    obtain ⟨col', hcol', hvalue⟩ := hrow f.1 v hv hname
    obtain rfl := Option.some.inj (hcol.symm.trans hcol')
    exact hvalue ▸ hsame
  · intro hsame
    have hcandidate : f.1 ∈ (candidate c fill units filled now).map Prod.fst := hwritten
    obtain ⟨⟨name, v⟩, hv, hkey⟩ := List.mem_map.mp hcandidate
    obtain rfl : name = f.1 := hkey
    obtain ⟨col, hcol, hvalue⟩ := hrow f.1 v hv hname
    exact ⟨col, hcol, hvalue.symm ▸ hsame v hv⟩

/-- A row that was written agrees with the message of the same outcome exactly where both encoders
render the outcome alike. -/
theorem Holds.agrees_iff {order : ApprovedOrder} {message : PyVal} {t : KeyedTable}
    (hholds : r.Holds c fill t) (hkey : c.idempotencyKey = order.idempotencyKey)
    (hunits : c.units = order.units)
    (hpayload : payloadOf message = (FillProducer.fillPayload order fill).entries) :
    (∃ row, t order.idempotencyKey = some row ∧ r.Agrees row message) ↔ Alike order c fill := by
  obtain ⟨units, filled, now, row, hcut, hfilled, hstored, hrow⟩ := hholds
  rw [hkey] at hstored
  rw [hunits] at hcut
  simp only [hstored, Option.some.injEq, exists_eq_left', TradeRecorder.agrees_iff hrow, hpayload]
  have hfields : (∀ f ∈ sharedFields, ∀ v, (f.1, v) ∈ candidate c fill units filled now →
      SameValue v ((FillProducer.fillPayload order fill).entries.get f.2)) ↔
      SameValue (.int units) (.float order.units) ∧
      SameValue (.int filled) (.float fill.filledUnits) ∧
      SameValue (.float c.entryPrice) (floatField fill.requestedPrice) ∧
      SameValue (.float (fill.stopLossPrice.getD c.stopLoss)) (floatField fill.stopLossPrice) ∧
      SameValue (.float (fill.takeProfitPrice.getD c.takeProfit))
        (floatField fill.takeProfitPrice) := by
    simp [sharedFields, candidate, FillProducer.fillPayload, PyVal.entries, Dict.get, Dict.get?,
      sameValue_refl]
  rw [hfields, sameValue_int hcut, sameValue_int hfilled, sameValue_default, sameValue_default,
    sameValue_price]
  constructor
  · rintro ⟨hu, hf, hr, hs, ht⟩
    exact ⟨hu, hf, hr, hs, ht⟩
  · intro h
    exact ⟨h.units, h.filled, h.requested, h.stop, h.target⟩

/-- A database that takes every statement. -/
def workingDb (now : String) (op : RecorderCall) (t : KeyedTable) : Except Exc op.Ans × KeyedTable :=
  match op with
  | .utcNowIso => (.ok now, t)
  | .execute sql params => (.ok (), sql.store params t)
  | .commit => (.ok (), t)

theorem workingDb_step (now : String) (op : RecorderCall) (t : KeyedTable) :
    boundTable t op (workingDb now op t).1 (workingDb now op t).2 := by
  cases op with
  | _ => exact rfl

/-- The run of `record` against it. -/
def recorded (r : TradeRecorder) (c : ConstructedOrder) (fill : FillResult) (now : String) :
    Except Exc Unit × KeyedTable × List (Event RecorderI Exc) :=
  (r.record c fill).run (World.recording (workingDb now)) (fun _ => none, [])

/-- There both writes succeed, whatever the outcome, if its units are finite. -/
theorem recorded_written (hcomplete : r.Complete) (hunits : c.units.toInt = .ok units)
    (hfilled : fill.filledUnits.toInt = .ok filled) : Written (r.recorded c fill now).2.2 := by
  obtain ⟨keyCol, hkey⟩ := Option.isSome_iff_exists.mp (hcomplete "Order_ID" (by decide))
  have hrow : r.present (candidate c fill units filled now) ≠ [] := by
    simp [present, candidate, hkey]
  simp [recorded, record, hunits, hfilled, hkey, hrow, Written, World.recording, workingDb,
    Proc.run, Proc.perform, Proc.ofExcept, Proc.bind, Proc.attempt]

/-- The table as its migrations leave it. -/
def migrated : TradeRecorder := ⟨"sqlite", "Fact_Live_Trades", written⟩

theorem migrated_complete : migrated.Complete := by
  unfold Complete
  decide +kernel

/-- One id and one time for every message. -/
def producerAnswer : (op : ProducerCall) → Except Exc op.Ans
  | .uuid4 => .ok "message-1"
  | .utcNowIso => .ok "1970-01-01T00:00:00Z"
  | _ => .error (.ofErr .valueError)

/-- The message that is built of an outcome. -/
def built (order : ApprovedOrder) (fill : FillResult) :
    Except Exc PyVal × List (Event ProducerI Exc) :=
  (FillProducer.buildMessage order fill).run (World.record producerAnswer) []

/-- A quote at which the sample order is built. -/
def sampleQuote : PyVal := .float (.ofRat (11 / 10))

/-- What the broker says of the sample order: all of it filled at the quote. -/
def sampleFill (stop target : Option Binary64) : FillResult :=
  { ConsumerService.plainFill with stopLossPrice := stop, takeProfitPrice := target }

/-- A fill with its stop and its target known, and one whose trade is no longer open. -/
def protectedFill : FillResult := sampleFill (some (.ofRat (109 / 100))) (some (.ofRat (113 / 100)))

def closedFill : FillResult := sampleFill none none

theorem whole_thousand : IsWhole (.ofRat 1000) :=
  ⟨1000, by decide +kernel, Binary64.ofRat_fin _⟩

theorem sample_built : ∃ c units, buildOrder (Pipeline.sampleOrder "a") sampleQuote = .ok c ∧
    c.units.toInt = .ok units := by
  obtain ⟨c, hbuilt⟩ := exists_of_isOk
    (show (buildOrder (Pipeline.sampleOrder "a") sampleQuote).isOk = true by decide +kernel)
  obtain ⟨units, hunits⟩ := exists_of_isOk
    (show (Pipeline.sampleOrder "a").units.toInt.isOk = true by decide +kernel)
  exact ⟨c, units, hbuilt, (buildOrder_ok hbuilt).units ▸ hunits⟩

theorem sampleFill_filled (stop target : Option Binary64) :
    ∃ filled, (sampleFill stop target).filledUnits.toInt = .ok filled :=
  exists_of_isOk (show (Binary64.ofRat 1000).toInt.isOk = true by decide +kernel)

theorem recorded_exec (r : TradeRecorder) (c : ConstructedOrder) (fill : FillResult) (now : String) :
    Exec boundTable.traced (r.record c fill) (fun _ => none, [])
      (some (r.recorded c fill now).1) (r.recorded c fill now).2 :=
  exec_run (World.recording_step (workingDb_step now)) _ _

/-- The values that are bound to the row of an execution agree with its message exactly where the
outcome has whole units, the order's entry price as the requested one, and a stop and a target. -/
theorem row_agrees_iff {order : ApprovedOrder} {price message : PyVal} {t t' : KeyedTable}
    {out : Option (Except Exc Unit)} {calls : List (Event RecorderI Exc)}
    {made made' : List (Event ProducerI Exc)} (hcomplete : r.Complete)
    (hbuilt : buildOrder order price = .ok c)
    (hrecord : Exec boundTable.traced (r.record c fill) (t, []) out (t', calls))
    (hwritten : Written calls)
    (hmessage : Exec World.free (FillProducer.buildMessage order fill) made (some (.ok message))
      made') :
    (∃ row, t' order.idempotencyKey = some row ∧ r.Agrees row message) ↔ Alike order c fill :=
  have hc := buildOrder_ok hbuilt
  (record_holds hcomplete hrecord hwritten).agrees_iff hc.key hc.units (payloadOf_built hmessage)

/-- A fill with its stop and its target known. -/
theorem row_agrees_iff_protected :
    ∃ c message, buildOrder (Pipeline.sampleOrder "a") sampleQuote = .ok c ∧
      ∃ row, (migrated.recorded c protectedFill "now").2.1 "a" = some row ∧
        migrated.Agrees row message := by
  obtain ⟨c, units, hbuilt, hunits⟩ := sample_built
  obtain ⟨filled, hfilled⟩ := sampleFill_filled (some (.ofRat (109 / 100))) (some (.ofRat (113 / 100)))
  obtain ⟨message, -, hmessage⟩ := exec_record_isOk
    (show (built (Pipeline.sampleOrder "a") protectedFill).1.isOk = true by decide +kernel)
  have hentry : (PyVal.float (.ofRat (11 / 10))).toFloat = .ok c.entryPrice :=
    (buildOrder_ok hbuilt).entryRead
  refine ⟨c, message, hbuilt, (row_agrees_iff migrated_complete hbuilt
    (recorded_exec migrated c protectedFill "now")
    (recorded_written migrated_complete hunits hfilled) hmessage).mpr ⟨whole_thousand,
      whole_thousand, congrArg some (Except.ok.inj hentry), rfl, rfl⟩⟩

/-- A fill whose trade has closed meanwhile has no stop and no target: the message says so, the row
has those of the order. -/
theorem closed_fill_recorded_protected :
    ∃ c message, migrated.Complete ∧ buildOrder (Pipeline.sampleOrder "a") sampleQuote = .ok c ∧
      Written (migrated.recorded c closedFill "now").2.2 ∧
      (built (Pipeline.sampleOrder "a") closedFill).1 = .ok message ∧
      ¬∃ row, (migrated.recorded c closedFill "now").2.1 "a" = some row ∧
        migrated.Agrees row message := by
  obtain ⟨c, units, hbuilt, hunits⟩ := sample_built
  obtain ⟨filled, hfilled⟩ := sampleFill_filled none none
  obtain ⟨message, hmade, hmessage⟩ := exec_record_isOk
    (show (built (Pipeline.sampleOrder "a") closedFill).1.isOk = true by decide +kernel)
  have hwritten : Written (migrated.recorded c closedFill "now").2.2 :=
    recorded_written migrated_complete hunits hfilled
  have hc := buildOrder_ok hbuilt
  refine ⟨c, message, migrated_complete, hbuilt, hwritten, hmade, fun hagrees => ?_⟩
  have halike := ((record_holds migrated_complete (recorded_exec migrated c closedFill "now")
    hwritten).agrees_iff hc.key hc.units (payloadOf_built hmessage)).mp hagrees
  exact nomatch halike.stop

end TradeRecorder

end System2
