import System2.Broker.OandaTransport
import System2.Broker.SubmitCalls
import System2.Broker.WirePrices

/-!
# One price grid for every stop

The order path renders its stop at the precision of the broker's specification and
falls back to the instrument's name; a stop-move is rendered in the transport,
which looks at the name alone. Every stop is on the broker's grid when the default
of the name is no finer than the grid.
-/

namespace System2
open Foundation

/-! ### The broker's specifications -/

/-- The display precisions of a broker, by upper-case name; no instrument is without a name. -/
structure BrokerGrid where
  precision : String → Option ℤ
  named : precision "" = none

/-- The adapter's memory of specifications. -/
abbrev SpecCache := String → Option InstrumentSpec

/-- Nothing is remembered yet. -/
def noSpecs : SpecCache := fun _ => none

namespace BrokerGrid
variable (g : BrokerGrid)

/-- A specification under a key is the broker's. -/
def Has (key : String) (spec : InstrumentSpec) : Prop := g.precision key = some spec.displayPrecision

/-- Every specification that is remembered is the broker's. -/
def Knows (cache : SpecCache) : Prop := ∀ key spec, cache key = some spec → g.Has key spec

/-- The rows of a reply are the broker's specifications, where they can be read. -/
def RowsTrue (rows : List Dict) : Prop :=
  ∀ row ∈ rows, ∀ spec, InstrumentSpec.fromBrokerRow row = .ok spec → g.Has (upper spec.name) spec

/-- Requests are answered in any way or fail, the lookup of specifications truthfully.
The memory of specifications keeps what is put there. -/
def restWorld (cache : SpecCache) : (op : RestCall) → Except Exc op.Ans → SpecCache → Prop
  | .plain (.cachedSpec key), r, cache' => r = .ok (cache key) ∧ cache' = cache
  | .plain (.cacheSpec key spec), r, cache' =>
      r = .ok () ∧ cache' = Function.update cache key (some spec)
  | .plain (.getAccountInstruments _), r, cache' =>
      (∀ rows, r = .ok rows → g.RowsTrue rows) ∧ cache' = cache
  | _, _, cache' => cache' = cache

end BrokerGrid

/-! ### The paths of a stop price -/

/-- What sends the price of a stop: a submit with its payload and its repair, a stop-move. -/
inductive StopPath
  | submit (order : ConstructedOrder) (expectedPrice : Option Binary64)
      (modelSetId : Option String)
  | modifyStop (tradeId : String) (newStopPrice : Binary64) (instrument : String)

namespace StopPath

def instrument : StopPath → String
  | .submit order _ _ => order.instrument
  | .modifyStop _ _ instrument => instrument

/-- The path in the adapter. -/
def calls (a : OandaAdapter) : StopPath → Proc BrokerI Exc Unit
  | .submit order expectedPrice modelSetId => do
      let _ ← OandaAdapter.submit a order expectedPrice modelSetId
  | .modifyStop tradeId newStopPrice instrument => do
      let _ ← OandaAdapter.modifyStop tradeId newStopPrice instrument

/-- The path over the REST transport. -/
def run (a : OandaAdapter) (path : StopPath) : Proc RestI Exc Unit :=
  (path.calls a).interp OandaRestTransport.call

end StopPath

/-- The price of the stop in a request. -/
def sentStop : RestCall → PyVal
  | .orderCreate data => onFillPrice data "stopLossOnFill"
  | .tradeCRCDO _ data =>
      let stopLoss := Dict.get data.entries "stopLoss"
      Dict.get stopLoss.entries "price"
  | .plain _ => .null

/-- The memories of specifications that a process can come to, path after path. -/
inductive SpecsReached (g : BrokerGrid) (a : OandaAdapter) : SpecCache → Prop
  | start : SpecsReached g a noSpecs
  | next {path : StopPath} {cache cache' : SpecCache} {out : Option (Except Exc Unit)}
      (reached : SpecsReached g a cache) (exec : Exec g.restWorld (path.run a) cache out cache') :
      SpecsReached g a cache'

/-- Every stop price that is sent for an instrument has at most `d` decimals. -/
def StopsWithin (g : BrokerGrid) (a : OandaAdapter) (instrument : String) (d : ℤ) : Prop :=
  ∀ (path : StopPath) (cache cache' : SpecCache) (out : Option (Except Exc Unit))
    (sent : List (Event RestI Exc)), path.instrument = instrument → SpecsReached g a cache →
    Exec (World.traced g.restWorld) (path.run a) (cache, []) out (cache', sent) →
    ∀ e ∈ sent, ∀ text, sentStop e.1 = .str text → (fractionDigits text : ℤ) ≤ d

/-! ### What the paths call -/

namespace BrokerGrid
variable {g : BrokerGrid}

/-- What the memory and the lookup may answer. -/
def Allowed (g : BrokerGrid) : (op : BrokerCall) → Except Exc op.Ans → Prop
  | .cachedSpec key, r => ∀ spec, r = .ok (some spec) → g.Has key spec
  | .getAccountInstruments _, r => ∀ rows, r = .ok rows → g.RowsTrue rows
  | _, _ => True

/-- The calls of a path for an instrument: its stops have rendered texts of a kind, and only
true specifications are remembered. -/
def GridCall (g : BrokerGrid) (instrument : String) (T : String → Prop) : BrokerCall → Prop
  | .createOrder payload => ∀ text, onFillPrice payload "stopLossOnFill" = .str text → T text
  | .modifyTradeStop _ _ name => name = instrument
  | .cacheSpec key spec => g.Has key spec
  | _ => True

/-- A precision that the order path may find. -/
def Precision (g : BrokerGrid) (instrument : String) (d : ℤ) : Prop :=
  g.precision (upper instrument) = some d ∨ d = defaultDisplayPrecision instrument

theorem along_cacheRows {instrument : String} {T : String → Prop} {rows : List Dict}
    (h : g.RowsTrue rows) :
    (OandaAdapter.cacheRows rows).Along g.Allowed (g.GridCall instrument T) := by
  induction rows with
  | nil => exact trivial
  | cons row rest ih =>
      have hrest := ih fun row hrow => h row (List.mem_cons_of_mem _ hrow)
      simp only [OandaAdapter.cacheRows, Proc.bind_eq]
      cases hspec : InstrumentSpec.fromBrokerRow row with
      | ok spec =>
          exact Proc.along_perform_bind (h row List.mem_cons_self spec hspec) fun _ _ => hrest
      | error e =>
          dsimp only
          split_ifs
          · exact hrest
          · exact trivial

theorem along_instrumentSpec (a : OandaAdapter) {instrument name : String} {T : String → Prop} :
    (OandaAdapter.instrumentSpec a name).Along g.Allowed (g.GridCall instrument T) := by
  simp only [OandaAdapter.instrumentSpec, Proc.bind_eq]
  refine Proc.along_perform_bind trivial fun cached _ => ?_
  cases cached with
  | some spec => exact trivial
  | none =>
      dsimp only
      split_ifs
      · exact trivial
      · refine ⟨trivial, fun r hr => ?_⟩
        cases r with
        | error e => exact trivial
        | ok rows => exact (along_cacheRows (hr rows rfl)).bind fun _ => Proc.along_perform trivial

theorem yields_cachedSpec (key : String) :
    (OandaAdapter.perform (.cachedSpec key)).Yields g.Allowed
      fun found => ∀ spec, found = some spec → g.Has key spec :=
  Proc.yields_perform fun _ hfound spec hspec => hfound spec (by rw [hspec])

/-- A specification that is found is the broker's. -/
theorem yields_instrumentSpec (a : OandaAdapter) (name : String) :
    (OandaAdapter.instrumentSpec a name).Yields g.Allowed
      fun found => ∀ spec, found = some spec → g.Has (upper name) spec := by
  simp only [OandaAdapter.instrumentSpec, Proc.bind_eq]
  refine (yields_cachedSpec (upper name)).bind fun cached hcached => ?_
  cases cached with
  | some spec => exact hcached
  | none =>
      dsimp only
      split_ifs
      · exact hcached
      · refine (Proc.yields_true _).bind fun rows _ => ?_
        cases rows with
        | error e => exact hcached
        | ok rows => exact (Proc.yields_true _).bind fun _ _ => yields_cachedSpec (upper name)

theorem along_displayPrecision (a : OandaAdapter) {instrument name : String}
    {T : String → Prop} :
    (OandaAdapter.displayPrecision a name).Along g.Allowed (g.GridCall instrument T) := by
  simp only [OandaAdapter.displayPrecision, Proc.bind_eq]
  refine (along_instrumentSpec a).bind fun found => ?_
  cases found with
  | some spec => exact trivial
  | none => exact trivial

theorem yields_displayPrecision (a : OandaAdapter) (name : String) :
    (OandaAdapter.displayPrecision a name).Yields g.Allowed (g.Precision name) := by
  simp only [OandaAdapter.displayPrecision, Proc.bind_eq]
  refine (yields_instrumentSpec a name).bind fun found hfound => ?_
  cases found with
  | some spec => exact Or.inl (hfound spec rfl)
  | none => exact Or.inr rfl

theorem gridCall_submits (order : ConstructedOrder) {T : String → Prop} :
    OandaAdapter.Submits (g.GridCall order.instrument T) order where
  reads := fun _ => trivial
  repairs := fun _ => rfl
  transactions := fun _ => trivial
  openTrades := trivial
  sleeps := fun _ => trivial

/-- The stop of a payload is rendered at the precision of the payload. -/
theorem onFillPrice_payloadAt {order : ConstructedOrder} {decimals : ℤ} {payload : PyVal}
    (h : OandaAdapter.payloadAt order decimals = .ok payload) :
    ∃ p : GridPrice, (p.places : ℤ) = decimals ∧
      onFillPrice payload "stopLossOnFill" = .str p.text := by
  obtain ⟨d, sl, tp, rfl, hpriced⟩ := OandaAdapter.payloadAt_prices h
  obtain ⟨v, r, -, -, hround⟩ := hpriced.stop
  obtain ⟨units, rfl⟩ := hpriced.wire
  exact ⟨sl, by rw [hround.places], rfl⟩

end BrokerGrid

/-- The calls of a path, when every text at a precision it may find is of a kind. -/
theorem StopPath.along_calls {g : BrokerGrid} (a : OandaAdapter) (path : StopPath)
    {T : String → Prop} (hT : ∀ p : GridPrice, g.Precision path.instrument p.places → T p.text) :
    (path.calls a).Along g.Allowed (g.GridCall path.instrument T) := by
  cases path with
  | submit order expectedPrice modelSetId =>
      refine Proc.Along.bind (OandaAdapter.along_submit (BrokerGrid.gridCall_submits order)
        (BrokerGrid.along_displayPrecision a)
        (BrokerGrid.yields_displayPrecision a order.instrument) ?_ _ _) fun _ => trivial
      intro decimals payload hdecimals hpayload text htext
      obtain ⟨p, hplaces, hprice⟩ := BrokerGrid.onFillPrice_payloadAt hpayload
      rw [hprice] at htext
      cases htext
      exact hT p (by rwa [hplaces])
  | modifyStop tradeId newStopPrice instrument =>
      refine Proc.Along.bind ?_ fun _ => trivial
      unfold OandaAdapter.modifyStop
      split_ifs
      · exact Proc.along_perform rfl
      · exact trivial

/-! ### The transport -/

/-- The texts of the stops in a request are of a kind. -/
def SendsStop (T : String → Prop) (op : RestCall) : Prop :=
  ∀ text, sentStop op = .str text → T text

theorem sendsStop_plain {T : String → Prop} (call : BrokerCall) : SendsStop T (.plain call) :=
  fun _ h => by cases h

/-- For a name, a stop-move is one request with a price at the name's default precision. -/
theorem OandaRestTransport.modifyTradeStop_eq {tradeId instrument : String}
    {stopPrice : Binary64} (hname : instrument ≠ "") :
    modifyTradeStop tradeId stopPrice instrument =
      (Proc.ofExcept (formatPrice stopPrice instrument none none)).bind fun price =>
        perform (.tradeCRCDO tradeId
          (.dict [("stopLoss", .dict [("price", .str price), ("timeInForce", .str "GTC")])])) := by
  simp only [modifyTradeStop, instrumentName, if_pos hname, Proc.bind_eq, Proc.pure_eq,
    Proc.ret_bind]

theorem formatPrice_ok {price : Binary64} {instrument text : String}
    (h : formatPrice price instrument none none = .ok text) :
    ∃ p : GridPrice, (p.places : ℤ) = defaultDisplayPrecision instrument ∧ text = p.text := by
  unfold formatPrice at h
  cases hq : quantizePrice price instrument (defaultDisplayPrecision instrument) none with
  | error e =>
      rw [Option.getD_none, hq] at h
      cases h
  | ok p =>
      rw [Option.getD_none, hq] at h
      cases h
      obtain ⟨d, v, r, hd, -, -, hround⟩ := quantizePrice_ok hq
      exact ⟨p, by rw [hround.places, hd], rfl⟩

namespace BrokerGrid
variable {g : BrokerGrid}

/-- The requests behind a call have stops of a kind, when its own texts and those at the
default precision are. -/
theorem only_call {instrument : String} (hname : instrument ≠ "") {T : String → Prop}
    (hT : ∀ p : GridPrice, (p.places : ℤ) = defaultDisplayPrecision instrument → T p.text)
    {op : BrokerCall} (hop : g.GridCall instrument T op) :
    (OandaRestTransport.call op).Only (SendsStop T) := by
  cases op with
  | createOrder payload =>
      refine Proc.Along.bind (Proc.along_perform hop) fun resp => ?_
      refine Proc.Along.bind (Proc.along_ofExcept _) fun reason => ?_
      dsimp only
      split_ifs
      · exact trivial
      · exact trivial
  | modifyTradeStop tradeId stopPrice name =>
      obtain rfl : name = instrument := hop
      rw [OandaRestTransport.call, OandaRestTransport.modifyTradeStop_eq hname]
      cases htext : formatPrice stopPrice name none none with
      | error e => exact trivial
      | ok price =>
          obtain ⟨p, hplaces, rfl⟩ := formatPrice_ok htext
          refine Proc.along_perform fun text h => ?_
          obtain rfl : p.text = text := PyVal.str.inj h
          exact hT p hplaces
  | _ => exact Proc.along_perform (sendsStop_plain _)

/-- The requests that put nothing false into the memory. -/
def Remembers (g : BrokerGrid) : RestCall → Prop
  | .plain (.cacheSpec key spec) => g.Has key spec
  | _ => True

theorem restWorld_knows {op : RestCall} {cache cache' : SpecCache} {r : Except Exc op.Ans}
    (hop : g.Remembers op) (h : g.Knows cache) (step : g.restWorld cache op r cache') :
    g.Knows cache' := by
  cases op with
  | plain call =>
      cases call with
      | cacheSpec key spec =>
          obtain ⟨-, rfl⟩ := step
          intro key' spec' hspec
          by_cases hkey : key' = key
          · subst hkey
            rw [Function.update_self] at hspec
            cases hspec
            exact hop
          · rw [Function.update_of_ne hkey] at hspec
            exact h key' spec' hspec
      | cachedSpec key =>
          obtain ⟨-, rfl⟩ := step
          exact h
      | getAccountInstruments names =>
          obtain ⟨-, rfl⟩ := step
          exact h
      | _ =>
          obtain rfl : cache' = cache := step
          exact h
  | _ =>
      obtain rfl : cache' = cache := step
      exact h

theorem only_instrumentName (tradeId instrument : String) :
    (OandaRestTransport.instrumentName tradeId instrument).Only g.Remembers := by
  simp only [OandaRestTransport.instrumentName, OandaRestTransport.instrumentOf, Proc.bind_eq]
  split_ifs
  · exact trivial
  · refine Proc.Along.bind ?_ fun _ => trivial
    refine (Proc.along_perform trivial).attempt.bind fun r => ?_
    cases r with
    | error e => exact trivial
    | ok trade => exact trivial

theorem only_call_remembers {instrument : String} {T : String → Prop} {op : BrokerCall}
    (hop : g.GridCall instrument T op) : (OandaRestTransport.call op).Only g.Remembers := by
  cases op with
  | createOrder payload =>
      refine Proc.Along.bind (Proc.along_perform trivial) fun resp => ?_
      refine Proc.Along.bind (Proc.along_ofExcept _) fun reason => ?_
      dsimp only
      split_ifs
      · exact trivial
      · exact trivial
  | modifyTradeStop tradeId stopPrice name =>
      simp only [OandaRestTransport.call, OandaRestTransport.modifyTradeStop, Proc.bind_eq]
      refine (only_instrumentName tradeId name).bind fun found => ?_
      split
      · exact (Proc.along_ofExcept _).bind fun _ => Proc.along_perform trivial
      · exact trivial
  | cacheSpec key spec => exact Proc.along_perform hop
  | _ => exact Proc.along_perform trivial

/-- Behind a call the memory of specifications stays true, and the answer is an allowed one. -/
theorem wpc_call {instrument : String} {T : String → Prop} {op : BrokerCall}
    (hop : g.GridCall instrument T op) {cache : SpecCache} (h : g.Knows cache) :
    wpc g.restWorld g.Knows (OandaRestTransport.call op)
      (fun r cache' => g.Allowed op r ∧ g.Knows cache') cache := by
  have hknows : wpc g.restWorld g.Knows (OandaRestTransport.call op)
      (fun _ cache' => g.Knows cache') cache :=
    wpc_of_only (fun _ _ _ _ hop h step => restWorld_knows hop h step)
      (only_call_remembers hop) h
  cases op with
  | cachedSpec key =>
      refine wpc_of_perform h ?_
      rintro r cache' ⟨rfl, rfl⟩
      exact ⟨h, fun spec hspec => h key spec (Except.ok.inj hspec), h⟩
  | getAccountInstruments names =>
      refine wpc_of_perform h ?_
      rintro r cache' ⟨htrue, rfl⟩
      exact ⟨h, htrue, h⟩
  | _ => exact wpc_post hknows fun _ _ _ hknows => ⟨trivial, hknows⟩

/-- A process knows true specifications only. -/
theorem knows_of_reached {a : OandaAdapter} {cache : SpecCache} (h : SpecsReached g a cache) :
    g.Knows cache := by
  induction h with
  | start =>
      intro key spec hspec
      cases hspec
  | @next path cache cache' out reached exec ih =>
      have hcalls := path.along_calls (g := g) a (T := fun _ => True) fun _ _ => trivial
      have hrun : wpc g.restWorld g.Knows (path.run a) (fun _ cache' => g.Knows cache') cache :=
        wpc_interp_of_along (fun _ _ hop hw => wpc_call hop hw) hcalls ih
      exact (wpc_sound exec hrun).1

/-- A path for a name sends stops of a kind, when every text at a precision that it may find
is of the kind. -/
theorem sendsStop_of_run {a : OandaAdapter} {path : StopPath} {T : String → Prop}
    (hname : path.instrument ≠ "")
    (hT : ∀ p : GridPrice, g.Precision path.instrument p.places → T p.text)
    {cache cache' : SpecCache} {out : Option (Except Exc Unit)} {sent : List (Event RestI Exc)}
    (h : g.Knows cache)
    (exec : Exec (World.traced g.restWorld) (path.run a) (cache, []) out (cache', sent)) :
    ∀ e ∈ sent, SendsStop T e.1 := by
  have step : ∀ (op : BrokerCall) (w : SpecCache × List (Event RestI Exc)),
      g.GridCall path.instrument T op → (g.Knows w.1 ∧ ∀ e ∈ w.2, SendsStop T e.1) →
      wpc (World.traced g.restWorld) (fun w => g.Knows w.1 ∧ ∀ e ∈ w.2, SendsStop T e.1)
        (OandaRestTransport.call op)
        (fun r w' => g.Allowed op r ∧ g.Knows w'.1 ∧ ∀ e ∈ w'.2, SendsStop T e.1) w := by
    rintro op ⟨cache, t⟩ hop ⟨hknows, hsent⟩
    have hboth := wpc_traced (wpc_call hop hknows)
      (only_call hname (fun p hp => hT p (Or.inr hp)) hop) hsent
    exact wpc_post hboth fun r w _ hr => ⟨hr.1.1, hr.1.2, hr.2⟩
  have hrun : wpc (World.traced g.restWorld) (fun w => g.Knows w.1 ∧ ∀ e ∈ w.2, SendsStop T e.1)
      (path.run a) (fun _ w => g.Knows w.1 ∧ ∀ e ∈ w.2, SendsStop T e.1) (cache, []) :=
    wpc_interp_of_along step (path.along_calls a hT) ⟨h, fun e he => by cases he⟩
  exact (wpc_sound exec hrun).1.2

end BrokerGrid

/-! ### The grid is kept -/

theorem stopsWithin_of_le {g : BrokerGrid} {a : OandaAdapter} {instrument : String} {d : ℤ}
    (hspec : g.precision (upper instrument) = some d) (hname : instrument ≠ "")
    (hle : defaultDisplayPrecision instrument ≤ d) : StopsWithin g a instrument d := by
  rintro path cache cache' out sent rfl reached exec e he text htext
  refine BrokerGrid.sendsStop_of_run (T := fun text => (fractionDigits text : ℤ) ≤ d) hname ?_
    (BrokerGrid.knows_of_reached reached) exec e he text htext
  intro p hp
  rw [p.fractionDigits_text]
  rcases hp with hp | hp
  · rw [hspec] at hp
    exact (Option.some.inj hp).ge
  · rw [hp]
    exact hle

/-- A price of one has a text at the default precision. -/
theorem exists_formatPrice (instrument : String) :
    ∃ text, formatPrice (.ofRat 1) instrument none none = .ok text ∧
      (fractionDigits text : ℤ) = defaultDisplayPrecision instrument := by
  have hone : (Binary64.ofRat 1).reprValue? = some 1 := by decide +kernel
  have hquantize : ∀ n : ℤ, ¬ n < 0 →
      ¬ 28 < numDigits (Rounding.halfUp.apply (1 * 10 ^ n.toNat)).natAbs →
      ∃ p, quantizePrice (.ofRat 1) instrument n none = .ok p := by
    intro n hn hsize
    refine ⟨⟨Rounding.halfUp.apply (1 * 10 ^ n.toNat), n.toNat⟩, ?_⟩
    rw [quantizePrice, if_neg hn, hone]
    exact if_neg hsize
  have hdefault : ∃ p, quantizePrice (.ofRat 1) instrument
      (defaultDisplayPrecision instrument) none = .ok p := by
    unfold defaultDisplayPrecision
    split_ifs
    · exact hquantize _ (by decide) (by decide +kernel)
    · exact hquantize _ (by decide) (by decide +kernel)
  obtain ⟨p, hp⟩ := hdefault
  have htext : formatPrice (.ofRat 1) instrument none none = .ok p.text := by
    rw [formatPrice, Option.getD_none, hp]
    rfl
  obtain ⟨p', hplaces, hp'⟩ := formatPrice_ok htext
  exact ⟨p.text, htext, by rw [hp', p'.fractionDigits_text, hplaces]⟩

/-- A stop-move sends a price of one at the default precision. -/
theorem not_stopsWithin_of_lt {g : BrokerGrid} {a : OandaAdapter} {instrument : String} {d : ℤ}
    (hname : instrument ≠ "") (hlt : d < defaultDisplayPrecision instrument) :
    ¬ StopsWithin g a instrument d := by
  intro h
  obtain ⟨text, htext, hdigits⟩ := exists_formatPrice instrument
  let data : PyVal := .dict [("stopLoss", .dict [("price", .str text), ("timeInForce", .str "GTC")])]
  let path : StopPath := .modifyStop "1" (.ofRat 1) instrument
  have hpositive : Binary64.zero.lt (.ofRat 1) = true := by decide +kernel
  have hrun : path.run a =
      (OandaRestTransport.perform (.tradeCRCDO "1" data)).bind fun _ => .ret () := by
    simp only [path, StopPath.run, StopPath.calls, OandaAdapter.modifyStop, if_pos hpositive,
      Proc.bind_eq, Proc.pure_eq]
    rw [Proc.interp_perform_bind, OandaRestTransport.call,
      OandaRestTransport.modifyTradeStop_eq hname, htext]
    rfl
  let sent : List (Event RestI Exc) := [⟨RestCall.tradeCRCDO "1" data, .ok []⟩]
  have exec : Exec (World.traced g.restWorld) (path.run a) (noSpecs, []) (some (.ok ()))
      (noSpecs, sent) := by
    have step : World.traced (I := RestI) g.restWorld (noSpecs, [])
        (RestCall.tradeCRCDO "1" data) (.ok []) (noSpecs, sent) := ⟨rfl, rfl⟩
    rw [hrun]
    exact Exec.bind (Exec.perform step) .ret
  have hwithin := h path _ _ _ _ rfl .start exec _ (List.mem_singleton.mpr rfl) text rfl
  omega

/-- For every instrument with a specification at the broker: the stop prices of all paths
have at most its decimals exactly when the default of the name is no finer. -/
theorem stopsWithin_iff {g : BrokerGrid} {instrument : String} {d : ℤ}
    (hspec : g.precision (upper instrument) = some d) (a : OandaAdapter) :
    StopsWithin g a instrument d ↔ defaultDisplayPrecision instrument ≤ d := by
  have hname : instrument ≠ "" := by
    rintro rfl
    have hnone : g.precision (upper "") = none := g.named
    rw [hspec] at hnone
    cases hnone
  constructor
  · intro h
    by_contra hlt
    exact not_stopsWithin_of_lt hname (not_le.mp hlt) h
  · exact stopsWithin_of_le hspec hname

/-- A broker that quotes gold to three decimals. -/
def goldGrid : BrokerGrid where
  precision := fun key =>
    if key = "EUR_USD" then some 5 else if key = "XAU_USD" then some 3 else none
  named := by decide

theorem stopsWithin_iff_eurUsd : StopsWithin goldGrid OandaAdapter.patientAdapter "EUR_USD" 5 :=
  (stopsWithin_iff (g := goldGrid) (by decide +kernel) OandaAdapter.patientAdapter).mpr
    (by decide +kernel)

/-- The stop of a gold position is moved with five decimals. -/
theorem goldStops_not_within :
    goldGrid.precision (upper "XAU_USD") = some 3 ∧
      ¬ StopsWithin goldGrid OandaAdapter.patientAdapter "XAU_USD" 3 :=
  ⟨by decide +kernel, not_stopsWithin_of_lt (by decide) (by decide +kernel)⟩

end System2
