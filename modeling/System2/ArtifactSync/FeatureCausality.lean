import System2.ArtifactSync.RegimeFeatures
import System2.Foundation.Causality

/-!
# No feature sees the future

The features are made of shifts, of blanked warm-up rows, of moving means and deviations,
and of what is done in each row on its own. All of these are causal, and so is the
frame with the features.

## Implementation notes

The moving means follow the recurrences of the pandas documentation. Their elementary
functions are arbitrary.
-/

namespace System2
open Foundation

/-! ### The moving means and deviations -/

/-- The functions on numbers, and the conversions that the features do not use. -/
structure Elementary where
  log : Binary64 → Binary64
  sqrt : Binary64 → Binary64
  div : Binary64 → Binary64 → Binary64
  sum : List Binary64 → Binary64
  timestamp : PyVal → Except Exc ℤ
  datetimeText : PyVal → Except Exc String

namespace Elementary

/-- A weighted mean with the weight of what it has seen. -/
structure Ewm where
  mean : Binary64
  weight : Binary64

/-- One value of `ewm(adjust=False, ignore_na=False)`: a missing one ages the mean. -/
def observe (e : Elementary) (alpha : Binary64) (s : Ewm) (x : Binary64) : Ewm :=
  if s.mean = .nan then ⟨x, .ofRat 1⟩
  else
    let old := s.weight.mul ((Binary64.ofRat 1).sub alpha)
    if x = .nan then ⟨s.mean, old⟩
    else ⟨e.div ((old.mul s.mean).add (alpha.mul x)) (old.add alpha), .ofRat 1⟩

/-- `ewm(span=span, adjust=False).mean()` of what has been seen. -/
def ewmOf (e : Elementary) (span : ℕ) (seen : List Binary64) : Binary64 :=
  let alpha := e.div (.ofRat 2) (.ofRat (span + 1))
  (seen.foldl (e.observe alpha) ⟨.nan, .ofRat 1⟩).mean

/-- The last values that fill a window, none of them missing. -/
def windowOf (w : ℕ) (seen : List Binary64) : Option (List Binary64) :=
  let last := seen.drop (seen.length - w)
  if last.length < w ∨ last.contains .nan then none else some last

/-- The mean of a window. -/
def meanOf (e : Elementary) (xs : List Binary64) : Binary64 :=
  e.div (e.sum xs) (.ofRat xs.length)

/-- The sample deviation of a window. -/
def stdOf (e : Elementary) (xs : List Binary64) : Binary64 :=
  let squares := xs.map fun x => (x.sub (e.meanOf xs)).mul (x.sub (e.meanOf xs))
  e.sqrt (e.div (e.sum squares) (.ofRat (xs.length - 1)))

/-- The functions of pandas by their documented recurrences, with `min_periods` the window. -/
def numerics (e : Elementary) : Numerics where
  log := e.log
  div := e.div
  ewmMean := fun span => ofSeen (e.ewmOf span)
  rollingStd := fun window => ofSeen fun seen => ((windowOf window seen).map e.stdOf).getD .nan
  rollingMean := fun window col =>
    if window < 0 then
      .error ⟨.builtin .valueError, [.lit "window must be an integer 0 or greater"]⟩
    else .ok (ofSeen (fun seen => ((windowOf window.toNat seen).map e.meanOf).getD .nan) col)
  sum := e.sum
  timestamp := e.timestamp
  datetimeText := e.datetimeText

end Elementary

/-! ### The parts of a feature -/

/-- Moving means and deviations that are causal. -/
structure Numerics.IsCausal (np : Numerics) : Prop where
  ewmMean : ∀ {m n : ℕ} (h : m ≤ n) (span : ℕ) (col : Column n Binary64),
    np.ewmMean span (col.upTo h) = (np.ewmMean span col).upTo h
  rollingStd : ∀ {m n : ℕ} (h : m ≤ n) (window : ℕ) (col : Column n Binary64),
    np.rollingStd window (col.upTo h) = (np.rollingStd window col).upTo h
  rollingMean : ∀ {m n : ℕ} (h : m ≤ n) (window : ℤ) (col out : Column n Binary64),
    np.rollingMean window col = .ok out → np.rollingMean window (col.upTo h) = .ok (out.upTo h)

theorem Elementary.numerics_isCausal (e : Elementary) : e.numerics.IsCausal where
  ewmMean := fun h span col => ofSeen_upTo (e.ewmOf span) h col
  rollingStd := fun h window col => ofSeen_upTo
    (fun seen => ((windowOf window seen).map e.stdOf).getD .nan) h col
  rollingMean := by
    intro m n h window col out hout
    dsimp only [numerics] at hout ⊢
    split_ifs at hout ⊢ with hnegative
    rw [← Except.ok.inj hout]
    exact congrArg Except.ok (ofSeen_upTo _ h col)

section
variable {n : ℕ}

/-- The movements upwards that `adx` takes into account. -/
def plusMovement (high low : Column n Binary64) : Column n Binary64 :=
  let plusDm := zeroWhere (fun i => (diff high i).lt .zero) (diff high)
  let minusMove : Column n Binary64 := fun i => (diff low i).neg
  let minusDm := zeroWhere (fun i => (minusMove i).lt .zero) minusMove
  zeroWhere (fun i => (plusDm i).le (minusDm i)) plusDm

/-- The movements downwards, compared with what is left upwards. -/
def minusMovement (high low : Column n Binary64) : Column n Binary64 :=
  let minusMove : Column n Binary64 := fun i => (diff low i).neg
  let minusDm := zeroWhere (fun i => (minusMove i).lt .zero) minusMove
  zeroWhere (fun i => (minusDm i).le (plusMovement high low i)) minusDm

/-- The index of each bar by the means of its movements and its range. -/
def directionalIndex (np : Numerics) (plus minus range : Column n Binary64) :
    Column n Binary64 := fun i =>
  let hundred : Binary64 := .ofRat 100
  let plusDi := np.div (hundred.mul (plus i)) (range i)
  let minusDi := np.div (hundred.mul (minus i)) (range i)
  np.div (hundred.mul (plusDi.sub minusDi).abs) (plusDi.add minusDi)

theorem adx_eq (np : Numerics) (high low close : Column n Binary64) (period : ℕ) :
    adx np high low close period = np.ewmMean period (directionalIndex np
      (np.ewmMean period (plusMovement high low)) (np.ewmMean period (minusMovement high low))
      (np.ewmMean period (trueRange high low close))) := rfl

end

section
variable {m n : ℕ} {np : Numerics} (h : m ≤ n) (frame : Frame n PyVal)
  (close high low trend : Column n Binary64)

theorem trueRange_upTo : trueRange (high.upTo h) (low.upTo h) (close.upTo h) =
    (trueRange high low close).upTo h := rfl

theorem plusMovement_upTo : plusMovement (high.upTo h) (low.upTo h) =
    (plusMovement high low).upTo h := rfl

theorem minusMovement_upTo : minusMovement (high.upTo h) (low.upTo h) =
    (minusMovement high low).upTo h := rfl

theorem directionalIndex_upTo : directionalIndex np (high.upTo h) (low.upTo h) (close.upTo h) =
    (directionalIndex np high low close).upTo h := rfl

theorem returnsOf_upTo : returnsOf np (close.upTo h) = (returnsOf np close).upTo h := rfl

theorem atr_upTo (hnp : np.IsCausal) (period : ℕ) :
    atr np (high.upTo h) (low.upTo h) (close.upTo h) period =
      (atr np high low close period).upTo h := by
  unfold atr
  rw [trueRange_upTo, hnp.ewmMean h]

theorem adx_upTo (hnp : np.IsCausal) (period : ℕ) :
    adx np (high.upTo h) (low.upTo h) (close.upTo h) period =
      (adx np high low close period).upTo h := by
  rw [adx_eq, adx_eq, trueRange_upTo, plusMovement_upTo, minusMovement_upTo, hnp.ewmMean h,
    hnp.ewmMean h, hnp.ewmMean h, directionalIndex_upTo, hnp.ewmMean h]

/-- The conversion of a column reads its own rows only. -/
theorem floatColumn_upTo {name : String} {col : Column n Binary64}
    (hcol : floatColumn frame name = .ok col) :
    floatColumn (frame.upTo h) name = .ok (col.upTo h) := by
  unfold floatColumn columnAt at hcol ⊢
  rw [frame.get?_upTo h]
  cases hget : frame.get? name with
  | none =>
      rw [hget] at hcol
      cases hcol
  | some cells =>
      rw [hget] at hcol
      exact Column.traverse_upTo h hcol

theorem setColumn_upTo (name : String) :
    setColumn (frame.upTo h) name (close.upTo h) = (setColumn frame name close).upTo h :=
  frame.put_upTo h name fun i => .float (close i)

theorem withFeatures_upTo (hnp : np.IsCausal) (directionFeature : String) :
    withFeatures np (frame.upTo h) directionFeature (close.upTo h) (high.upTo h) (low.upTo h)
        (trend.upTo h) =
      (withFeatures np frame directionFeature close high low trend).upTo h := by
  unfold withFeatures
  dsimp only
  rw [atr_upTo h close high low hnp, adx_upTo h close high low hnp, returnsOf_upTo,
    hnp.rollingStd h, ← setColumn_upTo, ← setColumn_upTo, ← setColumn_upTo, ← setColumn_upTo,
    ← setColumn_upTo, ← setColumn_upTo]
  rfl

/-- The features of the first rows are the first rows of the features. -/
theorem computeRegimeFeatures_upTo (hnp : np.IsCausal) {directionFeature : String}
    {trendWindow : ℤ} {feats : Frame n PyVal}
    (hfeats : computeRegimeFeatures np frame directionFeature trendWindow = .ok feats) :
    computeRegimeFeatures np (frame.upTo h) directionFeature trendWindow =
      .ok (feats.upTo h) := by
  simp only [computeRegimeFeatures, bind_eq_ok_iff, Exc.lift_eq_ok_iff] at hfeats ⊢
  obtain ⟨close, hclose, high, hhigh, low, hlow, trend, htrend, hframe⟩ := hfeats
  refine ⟨close.upTo h, floatColumn_upTo h frame hclose, high.upTo h,
    floatColumn_upTo h frame hhigh, low.upTo h, floatColumn_upTo h frame hlow, trend.upTo h,
    hnp.rollingMean h trendWindow (returnsOf np close) trend htrend, ?_⟩
  rw [← Except.ok.inj hframe]
  exact congrArg Except.ok (withFeatures_upTo h frame close high low trend hnp directionFeature)

end

/-- With the functions of pandas by their recurrences, the feature columns of the first rows of
a frame are the first rows of its feature columns. -/
theorem computeRegimeFeatures_causal (e : Elementary) {m n : ℕ} (h : m ≤ n)
    (frame feats : Frame n PyVal) (directionFeature : String) (trendWindow : ℤ)
    (hfeats : computeRegimeFeatures e.numerics frame directionFeature trendWindow = .ok feats) :
    computeRegimeFeatures e.numerics (frame.upTo h) directionFeature trendWindow =
      .ok (feats.upTo h) :=
  computeRegimeFeatures_upTo h frame e.numerics_isCausal hfeats

/-- The functions of numpy where the closes double and halve. -/
def zigzagFloats : Elementary where
  log := fun x =>
    let log2 : ℚ := 6243314768165359 / 2 ^ 53
    if x = .ofRat 2 then .ofRat log2
    else if x = .ofRat (1 / 2) then .ofRat (-log2)
    else .nan
  sqrt := fun x =>
    if x.lt .zero then .nan
    else .ofRat (Nat.sqrt (x.value * 2 ^ 400).floor.toNat / 2 ^ 200)
  div := fun x y => (x.div? y).getD .nan
  sum := fun xs => xs.foldl Binary64.add .zero
  timestamp := fun _ => .error ⟨.builtin .valueError, []⟩
  datetimeText := fun _ => .ok ""

/-- The number in a row of a column. -/
def floatAt {n : ℕ} (frame : Frame n PyVal) (name : String) (i : Fin n) : Option Binary64 :=
  (frame.get? name).bind fun col =>
    match col i with
    | .float x => some x
    | _ => none

/-- Candles that double twice and halve once. -/
def zigzagCandles : Frame 45 PyVal :=
  let level : Fin 45 → ℚ := fun i => 2 ^ (i.val / 3 + i.val % 3)
  [("high", fun i => .float (.ofRat (5 / 4 * level i))),
    ("low", fun i => .float (.ofRat (3 / 4 * level i))),
    ("close", fun i => .float (.ofRat (level i)))]

/-- The first forty candles of forty-five, with the trend and the volatility of the fortieth. -/
theorem computeRegimeFeatures_causal_zigzag :
    ∃ feats, computeRegimeFeatures zigzagFloats.numerics zigzagCandles "trend_20" 20 = .ok feats ∧
      computeRegimeFeatures zigzagFloats.numerics
          (zigzagCandles.upTo (by decide : 40 ≤ 45)) "trend_20" 20 =
        .ok (feats.upTo (by decide : 40 ≤ 45)) ∧
      floatAt feats "trend_20" 39 = some (.ofRat (3745988860899215 / 2 ^ 54)) ∧
      floatAt feats "volatility_20" 39 = some (.ofRat (3055231542517489 / 2 ^ 52)) := by
  have hwhole : computeRegimeFeatures zigzagFloats.numerics zigzagCandles "trend_20" 20 =
      .ok (withFeatures zigzagFloats.numerics zigzagCandles "trend_20" _ _ _ _) := rfl
  refine ⟨_, hwhole,
    computeRegimeFeatures_causal zigzagFloats (by decide) zigzagCandles _ "trend_20" 20 hwhole, ?_⟩
  decide +kernel

end System2
