import System2.ArtifactSync.LiveRegime
import System2.Foundation.Frame

/-!
# The features of the regime model (`artifact_sync/features.py`, `candles.py`)

The columns that an inference reads are computed from the close, the high and the low
of a frame of candles. A column that is missing is a `KeyError`, and a cell that is neither
a number nor null fails the conversion of its column. The broker's source returns a frame without
columns when no candle is complete.

## Implementation notes

The cells of a frame are Python values. The functions of numpy and pandas that round,
or that work on a window of rows, are given from outside. Names of columns are unique.
-/

namespace System2
open Foundation

/-- What is taken from numpy and pandas: the logarithm, the division with its infinities,
the moving means and deviations, the sum of an array, dates in nanoseconds and as texts. -/
structure Numerics where
  log : Binary64 → Binary64
  div : Binary64 → Binary64 → Binary64
  ewmMean : {n : ℕ} → (span : ℕ) → Column n Binary64 → Column n Binary64
  rollingStd : {n : ℕ} → (window : ℕ) → Column n Binary64 → Column n Binary64
  rollingMean : {n : ℕ} → (window : ℤ) → Column n Binary64 → Except Exc (Column n Binary64)
  sum : List Binary64 → Binary64
  timestamp : PyVal → Except Exc ℤ
  datetimeText : PyVal → Except Exc String

/-- The frame that a candle source returns. -/
structure CandleFrame where
  rows : ℕ
  frame : Frame rows PyVal

/-! ### The candles of OANDA (`artifact_sync/candles.py`) -/

/-- One completed candle of a reply. -/
structure CandleRow where
  time : PyVal
  opened : Binary64
  high : Binary64
  low : Binary64
  close : Binary64
  volume : Binary64

/-- The row of a candle. -/
def candleRow (c : Dict) : Except PyErr CandleRow := do
  let mid ← c.index "mid"
  let time ← c.index "time"
  let opened ← (← mid.item "o").toFloat
  let high ← (← mid.item "h").toFloat
  let low ← (← mid.item "l").toFloat
  let close ← (← mid.item "c").toFloat
  let volume ← (c.getOr "volume" (.int 0)).toFloat
  return { time, opened, high, low, close, volume }

/-- The frame of some rows; without a row it has no columns either. -/
def frameOfRows (rows : List (ℤ × CandleRow)) : CandleFrame where
  rows := rows.length
  frame :=
    if rows.isEmpty then []
    else [("bar_time_utc", fun i => .int (rows.get i).1),
      ("open", fun i => .float (rows.get i).2.opened),
      ("high", fun i => .float (rows.get i).2.high),
      ("low", fun i => .float (rows.get i).2.low),
      ("close", fun i => .float (rows.get i).2.close),
      ("volume", fun i => .float (rows.get i).2.volume)]

/-- What `fetch_candles` makes of the candles of a reply: the completed ones, by time. -/
def fetchCandles (np : Numerics) (candles : List Dict) : Except Exc CandleFrame := do
  let completed := candles.filter fun c => (c.getOr "complete" (.bool false)).truthy
  let rows ← Exc.lift (completed.mapM candleRow)
  let stamped ← rows.mapM fun row => (np.timestamp row.time).map fun t => (t, row)
  return frameOfRows (stamped.mergeSort fun a b => a.1 ≤ b.1)

/-- A reply without a completed candle is a frame without columns. -/
theorem fetchCandles_incomplete (np : Numerics) {candles : List Dict}
    (h : ∀ c ∈ candles, (c.getOr "complete" (.bool false)).truthy = false) :
    fetchCandles np candles = .ok (frameOfRows []) := by
  have hnone : candles.filter (fun c => (c.getOr "complete" (.bool false)).truthy) = [] := by
    simpa using h
  simp only [fetchCandles, hnone, List.mapM_nil, pure, Except.pure, Exc.lift_ok, bind, Except.bind,
    List.mergeSort_nil]

/-! ### The columns of a frame -/

def atrPeriod : ℕ := 14
def adxPeriod : ℕ := 14
def volatilityWindow : ℕ := 20

section Series
variable {n : ℕ}

/-- `df[name]`. -/
def columnAt (frame : Frame n PyVal) (name : String) : Except PyErr (Column n PyVal) :=
  orErr .keyError (frame.get? name)

/-- A value that numpy converts to `float64`: null is a NaN. -/
def asFloat64 : PyVal → Except PyErr Binary64
  | .null => .ok .nan
  | v => v.toFloat

/-- `df[name].astype("float64")`. -/
def floatColumn (frame : Frame n PyVal) (name : String) : Except PyErr (Column n Binary64) :=
  match columnAt frame name with
  | .error e => .error e
  | .ok col => Column.traverse fun i => asFloat64 (col i)

/-- `df[name] = series`. -/
def setColumn (frame : Frame n PyVal) (name : String) (col : Column n Binary64) : Frame n PyVal :=
  frame.put name fun i => .float (col i)

/-- `s.shift(1)`. -/
def shift (s : Column n Binary64) : Column n Binary64 := fun i =>
  if h : i.val = 0 then .nan else s ⟨i.val - 1, by omega⟩

/-- `s.iloc[:k] = nan`. -/
def blankFirst (k : ℕ) (s : Column n Binary64) : Column n Binary64 := fun i =>
  if i.val < k then .nan else s i

/-- The largest of the values that are no NaN. -/
def maxSkipNan (xs : List Binary64) : Binary64 :=
  xs.foldl (fun m x => if m = .nan || m.lt x then x else m) .nan

/-- The true range of each bar. -/
def trueRange (high low close : Column n Binary64) : Column n Binary64 := fun i =>
  maxSkipNan [(high i).sub (low i), ((high i).sub (shift close i)).abs,
    ((low i).sub (shift close i)).abs]

/-- `s.diff()`. -/
def diff (s : Column n Binary64) : Column n Binary64 := fun i => (s i).sub (shift s i)

/-- `atr`. -/
def atr (np : Numerics) (high low close : Column n Binary64) (period : ℕ) : Column n Binary64 :=
  np.ewmMean period (trueRange high low close)

/-- `s[condition] = 0`. -/
def zeroWhere (condition : Fin n → Bool) (s : Column n Binary64) : Column n Binary64 := fun i =>
  if condition i then .zero else s i

/-- `adx`. The second comparison of the movements sees what the first one zeroed. -/
def adx (np : Numerics) (high low close : Column n Binary64) (period : ℕ) : Column n Binary64 :=
  let plusDm := zeroWhere (fun i => (diff high i).lt .zero) (diff high)
  let minusMove : Column n Binary64 := fun i => (diff low i).neg
  let minusDm := zeroWhere (fun i => (minusMove i).lt .zero) minusMove
  let plusDm := zeroWhere (fun i => (plusDm i).le (minusDm i)) plusDm
  let minusDm := zeroWhere (fun i => (minusDm i).le (plusDm i)) minusDm
  let hundred : Binary64 := .ofRat 100
  let atrVal := np.ewmMean period (trueRange high low close)
  let plusDi : Column n Binary64 := fun i =>
    np.div (hundred.mul (np.ewmMean period plusDm i)) (atrVal i)
  let minusDi : Column n Binary64 := fun i =>
    np.div (hundred.mul (np.ewmMean period minusDm i)) (atrVal i)
  np.ewmMean period fun i =>
    np.div (hundred.mul ((plusDi i).sub (minusDi i)).abs) ((plusDi i).add (minusDi i))

/-- `returns_1`. -/
def returnsOf (np : Numerics) (close : Column n Binary64) : Column n Binary64 := fun i =>
  np.log (np.div (close i) (shift close i))

/-- The frame with the columns of the features; the trend comes last, under its own name. -/
def withFeatures (np : Numerics) (frame : Frame n PyVal) (directionFeature : String)
    (close high low trend : Column n Binary64) : Frame n PyVal :=
  let a := blankFirst (atrPeriod - 1) (atr np high low close atrPeriod)
  let dx := blankFirst (2 * adxPeriod - 1) (adx np high low close adxPeriod)
  let frame := setColumn frame "returns_1" (returnsOf np close)
  let frame := setColumn frame "atr_14" a
  let frame := setColumn frame "atr_pct_14" fun i => np.div (a i) (close i)
  let frame := setColumn frame "adx_14" dx
  let frame := setColumn frame "volatility_20" (np.rollingStd volatilityWindow (returnsOf np close))
  setColumn frame directionFeature trend

/-- `compute_regime_features`. -/
def computeRegimeFeatures (np : Numerics) (frame : Frame n PyVal) (directionFeature : String)
    (trendWindow : ℤ) : Except Exc (Frame n PyVal) := do
  let close ← Exc.lift (floatColumn frame "close")
  let high ← Exc.lift (floatColumn frame "high")
  let low ← Exc.lift (floatColumn frame "low")
  let trend ← np.rollingMean trendWindow (returnsOf np close)
  return withFeatures np frame directionFeature close high low trend

end Series

end System2
