import System2.Execution.Pipeline
import System2.Foundation.Calendar

/-!
# The reference price of a market order (`broker/oanda_adapter.py`)

The price that an order is built on is read from the broker's quotes: the first row that
quotes the instrument decides. A row with a time is checked for its age, a row without one
is taken as it is, so a price is known to be fresh exactly when the deciding row has a time.

## Implementation notes

The answer of the transport and the reading of the clock are given. Between `A` and `Z` and
their small letters lies all that the comparison with `tradeable` looks at.
-/

namespace System2
open Foundation

/-- A two-sided quote. -/
structure ReferencePrice where
  instrument : String
  bid : Binary64
  ask : Binary64
  time : Option DateTime

namespace ReferencePrice

/-- `for_side`: BUY pays the ask. -/
def forSide (quote : ReferencePrice) (side : String) : Binary64 :=
  if upper side = "BUY" then quote.ask else quote.bid

/-- `age_sec`; a quote whose time was read has an offset. -/
def ageSec (quote : ReferencePrice) (now : Moment) : Except PyErr (Option Binary64) :=
  match quote.time with
  | none => .ok none
  | some time => (time.toUtc .ok).map fun t => some (now.secondsSince t)

/-- Does the quote name no other instrument? -/
def isFor (quote : ReferencePrice) (instrument : String) : Bool :=
  upper quote.instrument = "" || upper quote.instrument = upper instrument

end ReferencePrice

/-- `_parse_broker_time`: the fraction is cut to six digits, and a time without an offset is
taken for UTC. -/
def parseBrokerTime (raw : PyVal) : Option DateTime :=
  if !raw.truthy then none
  else
    let text := (stripChars raw.toStr.toList).flatMap fun c =>
      if c = 'Z' then ['+', '0', '0', ':', '0', '0'] else [c]
    let text :=
      if text.contains '.' then
        let tail := (text.dropWhile (· ≠ '.')).drop 1
        let fraction := tail.takeWhile fun c => c ≠ '+' ∧ c ≠ '-'
        let digits := if fraction.isEmpty then ['0'] else fraction.take 6
        text.takeWhile (· ≠ '.') ++ ['.'] ++ digits ++ tail.drop fraction.length
      else text
    (fromisoformat (String.ofList text)).map fun parsed =>
      { parsed with utcoffset := some (parsed.utcoffset.getD 0) }

/-- `float((row.get(side) or [{}])[0]["price"])`. -/
def bookPrice (row : Dict) (side : String) : Except PyErr Binary64 := do
  let levels := row.get side
  let best ← (if levels.truthy then levels else .list [.dict []]).first
  let price ← best.item "price"
  price.toFloat

/-- The status and the flag of a row that can be traded. -/
def isTradeable (row : Dict) : Bool :=
  String.ofList ((row.getOr "status" (.str "tradeable")).toStr.toList.map Char.toLower) =
      "tradeable" &&
    match row.get "tradeable" with
    | .bool false => false
    | _ => true

/-- The errors that an unreadable side of the book may raise. -/
def isBookError (e : PyErr) : Bool :=
  e = .keyError ∨ e = .indexError ∨ e = .typeError ∨ e = .valueError

/-- Both sides of the book, none when one of them cannot be read. -/
def bookSides (row : Dict) : Except PyErr (Option (Binary64 × Binary64)) :=
  match (do return (← bookPrice row "bids", ← bookPrice row "asks")) with
  | .ok sides => .ok (some sides)
  | .error e => if isBookError e then .ok none else .error e

/-- `reference_price_from_broker_row`: a row that is empty says nothing, and one that is no
object cannot be asked. -/
def referencePriceFromBrokerRow (row : PyVal) : Except PyErr (Option ReferencePrice) :=
  if !row.truthy then .ok none
  else
    match row with
    | .dict row =>
        if !isTradeable row then .ok none
        else do
          match ← bookSides row with
          | none => return none
          | some (bid, ask) =>
              if !(Binary64.zero.lt bid && Binary64.zero.lt ask) then return none
              else return some ⟨(Dict.getOr row "instrument" (.str "")).toStr, bid, ask,
                parseBrokerTime (Dict.get row "time")⟩
    | _ => .error .attributeError

/-- What the adapter needs for a reference price: whether its transport has quotes at all, and
how old one may be. -/
structure PriceSource where
  hasPricing : Bool
  priceMaxAgeSec : Binary64

namespace PriceSource

/-- The loop over the rows of an answer. -/
def scanQuotes (a : PriceSource) (now : Moment) (instrument side : String) :
    List PyVal → Except PyErr (Option Binary64)
  | [] => .ok none
  | row :: rest => do
      match ← referencePriceFromBrokerRow row with
      | none => scanQuotes a now instrument side rest
      | some quote =>
          if !quote.isFor instrument then scanQuotes a now instrument side rest
          else
            let age ← quote.ageSec now
            if age.any a.priceMaxAgeSec.lt then return none
            else return some (quote.forSide side)

/-- The rows of an answer: `fetch(...) or []`. -/
def rowsOf (answer : PyVal) : Except PyErr (List PyVal) :=
  if answer.truthy then answer.iter else .ok []

/-- `reference_price`; whatever the transport raises, there is no price. -/
def referencePrice (a : PriceSource) (answer : Except Exc PyVal) (now : Moment)
    (instrument side : String) : Except PyErr (Option Binary64) :=
  if !a.hasPricing then .ok none
  else
    match answer with
    | .error _ => .ok none
    | .ok answer => do
        let rows ← rowsOf answer
        a.scanQuotes now instrument side rows

/-- `price_fn`. -/
def priceFn (a : PriceSource) (answer : Except Exc PyVal) (now : Moment) (order : ApprovedOrder) :
    Except PyErr (Option Binary64) := a.referencePrice answer now order.instrument order.side

/-! ### Fresh quotes -/

/-- The row can be traded, names no other instrument, has both sides of its book above zero, and
has a time that is read and is not older than allowed. -/
structure FreshRow (a : PriceSource) (now : Moment) (instrument : String) (row : Dict)
    (bid ask : Binary64) : Prop where
  tradeable : isTradeable row = true
  names : upper (Dict.getOr row "instrument" (.str "")).toStr = "" ∨
    upper (Dict.getOr row "instrument" (.str "")).toStr = upper instrument
  bids : bookPrice row "bids" = .ok bid
  asks : bookPrice row "asks" = .ok ask
  positive : Binary64.zero.lt bid = true ∧ Binary64.zero.lt ask = true
  young : ∃ time t, parseBrokerTime (Dict.get row "time") = some time ∧ time.toUtc .ok = .ok t ∧
    a.priceMaxAgeSec.lt (now.secondsSince t) = false

/-- The price is the ask of a fresh row for a BUY and its bid for a SELL. -/
def FreshQuote (a : PriceSource) (now : Moment) (instrument side : String) (price : Binary64)
    (row : PyVal) : Prop :=
  ∃ d bid ask, row = .dict d ∧ a.FreshRow now instrument d bid ask ∧
    price = if upper side = "BUY" then ask else bid

/-- The loop goes on after this row. -/
def Skipped (instrument : String) (row : PyVal) : Prop :=
  referencePriceFromBrokerRow row = .ok none ∨
    ∃ quote, referencePriceFromBrokerRow row = .ok (some quote) ∧ quote.isFor instrument = false

/-- The first row that quotes the instrument, with its quote. -/
structure Decides (instrument : String) (rows : List PyVal) (row : PyVal)
    (quote : ReferencePrice) : Prop where
  first : ∃ before after, rows = before ++ row :: after ∧ ∀ r ∈ before, Skipped instrument r
  quotes : referencePriceFromBrokerRow row = .ok (some quote)
  isFor : quote.isFor instrument = true

variable {a : PriceSource} {now : Moment} {instrument side : String} {rows : List PyVal}
  {row : PyVal} {quote : ReferencePrice} {price : Binary64}

theorem bookSides_some {d : Dict} {bid ask : Binary64} (h : bookSides d = .ok (some (bid, ask))) :
    bookPrice d "bids" = .ok bid ∧ bookPrice d "asks" = .ok ask := by
  have hcaught : ∀ e : PyErr, (if isBookError e then .ok none else .error e :
      Except PyErr (Option (Binary64 × Binary64))) ≠ .ok (some (bid, ask)) := by
    intro e he
    split_ifs at he
    cases he
  unfold bookSides at h
  cases hbid : bookPrice d "bids" with
  | error e =>
      rw [hbid] at h
      exact absurd h (hcaught e)
  | ok b =>
      cases hask : bookPrice d "asks" with
      | error e =>
          rw [hbid, hask] at h
          exact absurd h (hcaught e)
      | ok a =>
          rw [hbid, hask] at h
          cases h
          exact ⟨rfl, rfl⟩

/-- What a row that makes a quote says. -/
theorem exists_of_quote (h : referencePriceFromBrokerRow row = .ok (some quote)) :
    ∃ d : Dict, row = .dict d ∧ isTradeable d = true ∧ bookPrice d "bids" = .ok quote.bid ∧
      bookPrice d "asks" = .ok quote.ask ∧
      (Binary64.zero.lt quote.bid = true ∧ Binary64.zero.lt quote.ask = true) ∧
      quote.instrument = (Dict.getOr d "instrument" (.str "")).toStr ∧
      quote.time = parseBrokerTime (Dict.get d "time") := by
  unfold referencePriceFromBrokerRow at h
  split at h
  · cases h
  cases row with
  | dict d =>
      change (if !isTradeable d then .ok none else bookSides d >>= _) = _ at h
      split at h
      · cases h
      next htradeable =>
      obtain ⟨sides, hsides, h⟩ := exists_of_bind h
      match sides, hsides with
      | none, _ => cases h
      | some (bid, ask), hsides =>
          change (if !(Binary64.zero.lt bid && Binary64.zero.lt ask) then Except.ok none
            else _) = _ at h
          split at h
          · cases h
          next hpositive =>
          cases h
          obtain ⟨hbid, hask⟩ := bookSides_some hsides
          refine ⟨d, rfl, by simpa using htradeable, hbid, hask, ?_, rfl, rfl⟩
          simpa using hpositive
  | _ => cases h

/-- The rows before the deciding one do not matter. -/
theorem scanQuotes_of_decides (h : Decides instrument rows row quote) :
    a.scanQuotes now instrument side rows = (quote.ageSec now).map fun age =>
      if age.any a.priceMaxAgeSec.lt then none else some (quote.forSide side) := by
  obtain ⟨⟨before, after, rfl, hbefore⟩, hquotes, hfor⟩ := h
  induction before with
  | nil =>
      rw [List.nil_append, scanQuotes, hquotes]
      change (if !quote.isFor instrument then _ else _) = _
      rw [hfor]
      change (quote.ageSec now >>= _) = _
      cases quote.ageSec now with
      | error e => rfl
      | ok age =>
          change (if age.any a.priceMaxAgeSec.lt then .ok none
            else .ok (some (quote.forSide side))) =
              Except.ok (if age.any a.priceMaxAgeSec.lt then none else some (quote.forSide side))
          split_ifs
          · rfl
          · rfl
  | cons r before ih =>
      have hrest := ih fun r' hr' => hbefore r' (List.mem_cons_of_mem _ hr')
      rw [List.cons_append, scanQuotes]
      rcases hbefore r List.mem_cons_self with hnone | ⟨other, hother, hforeign⟩
      · rw [hnone]
        exact hrest
      · rw [hother]
        change (if !other.isFor instrument then _ else _) = _
        rw [hforeign]
        exact hrest

/-- A price comes from a deciding row. -/
theorem exists_decides (h : a.scanQuotes now instrument side rows = .ok (some price)) :
    ∃ row quote, Decides instrument rows row quote := by
  induction rows with
  | nil => cases h
  | cons row rest ih =>
      have hcons : ∀ {r q}, Skipped instrument row → Decides instrument rest r q →
          Decides instrument (row :: rest) r q := by
        rintro r q hskipped ⟨⟨before, after, rfl, hbefore⟩, hquotes, hfor⟩
        refine ⟨⟨row :: before, after, rfl, fun r' hr' => ?_⟩, hquotes, hfor⟩
        rcases List.mem_cons.mp hr' with rfl | hr'
        · exact hskipped
        · exact hbefore r' hr'
      rw [scanQuotes] at h
      obtain ⟨found, hfound, h⟩ := exists_of_bind h
      cases found with
      | none =>
          obtain ⟨r, q, hdecides⟩ := ih h
          exact ⟨r, q, hcons (Or.inl hfound) hdecides⟩
      | some quote =>
          simp only at h
          cases hfor : quote.isFor instrument with
          | true => exact ⟨row, quote, ⟨[], rest, rfl, fun r hr => by cases hr⟩, hfound, hfor⟩
          | false =>
              rw [hfor] at h
              obtain ⟨r, q, hdecides⟩ := ih h
              exact ⟨r, q, hcons (Or.inr ⟨quote, hfound, hfor⟩) hdecides⟩

/-- The price is that of the deciding row. -/
theorem price_of_decides (h : Decides instrument rows row quote)
    (hprice : a.scanQuotes now instrument side rows = .ok (some price)) :
    price = quote.forSide side ∧
      ∃ age, quote.ageSec now = .ok age ∧ age.any a.priceMaxAgeSec.lt = false := by
  rw [scanQuotes_of_decides h] at hprice
  cases hage : quote.ageSec now with
  | error e =>
      rw [hage] at hprice
      cases hprice
  | ok age =>
      rw [hage] at hprice
      have hprice : (if age.any a.priceMaxAgeSec.lt then none
        else some (quote.forSide side)) = some price := Except.ok.inj hprice
      split_ifs at hprice with hold
      exact ⟨(Option.some.inj hprice).symm, age, rfl, by simpa using hold⟩

/-- A deciding row with a time that can be read is fresh. -/
theorem freshQuote_of_decides {time : DateTime} (h : Decides instrument rows row quote)
    (htime : quote.time = some time)
    (hprice : a.scanQuotes now instrument side rows = .ok (some price)) :
    a.FreshQuote now instrument side price row := by
  obtain ⟨hside, age, hage, hyoung⟩ := price_of_decides h hprice
  obtain ⟨d, rfl, htradeable, hbid, hask, hpositive, hname, hread⟩ := exists_of_quote h.quotes
  refine ⟨d, quote.bid, quote.ask, rfl, ⟨htradeable, ?_, hbid, hask, hpositive, ?_⟩, hside⟩
  · have hfor := h.isFor
    rw [ReferencePrice.isFor, hname] at hfor
    simpa using hfor
  · rw [ReferencePrice.ageSec, htime] at hage
    change (time.toUtc .ok).map (fun t => some (now.secondsSince t)) = .ok age at hage
    obtain ⟨t, hutc, hage⟩ : ∃ t, time.toUtc .ok = .ok t ∧ some (now.secondsSince t) = age := by
      cases hutc : time.toUtc .ok with
      | error e =>
          rw [hutc] at hage
          cases hage
      | ok t =>
          rw [hutc] at hage
          exact ⟨t, rfl, Except.ok.inj hage⟩
    subst hage
    exact ⟨time, t, hread ▸ htime, hutc, by simpa using hyoung⟩

/-- With quotes and rows to read, the price is what the loop finds. -/
theorem referencePrice_eq {v : PyVal} (hpricing : a.hasPricing = true)
    (hrows : rowsOf v = .ok rows) :
    a.referencePrice (.ok v) now instrument side = a.scanQuotes now instrument side rows := by
  rw [referencePrice, hpricing]
  change (rowsOf v >>= _) = _
  rw [hrows]
  rfl

/-- Behind a price are quotes, an answer and its rows. -/
theorem exists_rows {answer : Except Exc PyVal}
    (h : a.referencePrice answer now instrument side = .ok (some price)) :
    ∃ v rows, a.hasPricing = true ∧ answer = .ok v ∧ rowsOf v = .ok rows := by
  unfold referencePrice at h
  cases hpricing : a.hasPricing with
  | false =>
      rw [hpricing] at h
      cases h
  | true =>
      rw [hpricing] at h
      cases answer with
      | error e => cases h
      | ok v =>
          obtain ⟨rows, hrows, -⟩ := exists_of_bind h
          exact ⟨v, rows, rfl, rfl, hrows⟩

/-- The price of an order is the deciding row's, on the side that the order pays. -/
theorem priceFn_decides {answer : Except Exc PyVal} {order : ApprovedOrder}
    (h : a.priceFn answer now order = .ok (some price)) :
    ∃ v rows row quote, answer = .ok v ∧ rowsOf v = .ok rows ∧
      Decides order.instrument rows row quote ∧ price = quote.forSide order.side := by
  obtain ⟨v, rows, hpricing, rfl, hrows⟩ := exists_rows h
  have hscan : a.scanQuotes now order.instrument order.side rows = .ok (some price) :=
    (referencePrice_eq hpricing hrows).symm.trans h
  obtain ⟨row, quote, hdecides⟩ := exists_decides hscan
  exact ⟨v, rows, row, quote, rfl, hrows, hdecides, (price_of_decides hdecides hscan).1⟩

/-- A price that is returned is that of a fresh row, in every case, exactly when the row that
decides has a time that can be read, or some fresh row has the same price. -/
theorem reference_price_fresh_iff (a : PriceSource) (answer : Except Exc PyVal) (now : Moment)
    (instrument side : String) :
    (∀ price, a.referencePrice answer now instrument side = .ok (some price) →
      ∃ v rows row, answer = .ok v ∧ rowsOf v = .ok rows ∧ row ∈ rows ∧
        a.FreshQuote now instrument side price row) ↔
    ∀ v rows row quote, a.hasPricing = true → answer = .ok v → rowsOf v = .ok rows →
      Decides instrument rows row quote →
      quote.time.isSome = true ∨
        ∃ row' ∈ rows, a.FreshQuote now instrument side (quote.forSide side) row' := by
  constructor
  · rintro hfresh v rows row quote hpricing rfl hrows hdecides
    cases htime : quote.time with
    | some time => exact Or.inl rfl
    | none =>
        refine Or.inr ?_
        have hprice : a.referencePrice (.ok v) now instrument side =
            .ok (some (quote.forSide side)) := by
          rw [referencePrice_eq hpricing hrows, scanQuotes_of_decides hdecides,
            ReferencePrice.ageSec, htime]
          rfl
        obtain ⟨v', rows', row', hv, hrows', hmem, hquote⟩ := hfresh _ hprice
        cases hv
        cases hrows.symm.trans hrows'
        exact ⟨row', hmem, hquote⟩
  · intro htimed price hprice
    obtain ⟨v, rows, hpricing, rfl, hrows⟩ := exists_rows hprice
    rw [referencePrice_eq hpricing hrows] at hprice
    obtain ⟨row, quote, hdecides⟩ := exists_decides hprice
    rcases htimed v rows row quote hpricing rfl hrows hdecides with htime | ⟨row', hmem, h⟩
    · obtain ⟨time, htime⟩ := Option.isSome_iff_exists.mp htime
      have hfresh := freshQuote_of_decides hdecides htime hprice
      obtain ⟨before, after, rfl, -⟩ := hdecides.first
      exact ⟨v, _, row, rfl, hrows, by simp, hfresh⟩
    · exact ⟨v, rows, row', rfl, hrows, hmem, (price_of_decides hdecides hprice).1 ▸ h⟩

/-! ### A row without a time -/

/-- A quote that can be traded, of which it is not said when it was made. -/
def undatedRow : Dict :=
  [("instrument", .str "EUR_USD"), ("status", .str "tradeable"), ("tradeable", .bool true),
    ("bids", .list [.dict [("price", .str "1.09990")]]),
    ("asks", .list [.dict [("price", .str "1.10010")]])]

/-- The quote prices an order, however old it may be. -/
theorem undated_quote_priced :
    ¬ ∀ (a : PriceSource) (answer : Except Exc PyVal) (now : Moment) (instrument side : String)
      (price : Binary64), a.referencePrice answer now instrument side = .ok (some price) →
        ∃ v rows row, answer = .ok v ∧ rowsOf v = .ok rows ∧ row ∈ rows ∧
          a.FreshQuote now instrument side price row := by
  intro hall
  have hpriced : ((PriceSource.mk true (.ofRat 60)).referencePrice (.ok (.list [.dict undatedRow]))
      .first "EUR_USD" "BUY").toOption.join.isSome = true := by decide +kernel
  cases hprice : (PriceSource.mk true (.ofRat 60)).referencePrice
      (.ok (.list [.dict undatedRow])) .first "EUR_USD" "BUY" with
  | error e =>
      rw [hprice] at hpriced
      cases hpriced
  | ok found =>
      cases found with
      | none =>
          rw [hprice] at hpriced
          cases hpriced
      | some price =>
          obtain ⟨v, rows, row, hv, hrows, hmem, d, bid, ask, rfl, hfresh, -⟩ :=
            hall _ _ _ _ _ price hprice
          cases hv
          cases hrows
          cases List.mem_singleton.mp hmem
          obtain ⟨time, t, hread, -⟩ := hfresh.young
          cases hread

end PriceSource

end System2
