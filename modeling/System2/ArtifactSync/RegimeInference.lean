import System2.ArtifactSync.RegimeFeatures
import System2.ArtifactSync.RegimeGrid

/-!
# The inference of the live regime (`artifact_sync/live_regime.py`, `regime_mapping.py`)

What a detection does between the candles and the observation: the matrix of the
features, the weights, the scores of the last bar and their labels. None of it is
guarded, so each look-up and each conversion here ends a detection that it fails in.

## Implementation notes

A scaler and a model are functions of an array, which may raise. The positional weights
of a model are a flat list. A bundle that was accepted comes with its acceptance.
-/

namespace System2
open Foundation

/-- An array of rows of one length. -/
structure Array2 where
  cols : ℕ
  rows : List (Column cols Binary64)

/-- A model with posteriors, or clusters with the number of them where it says that. -/
inductive RegimeModel
  | posterior (predictProba : Array2 → Except Exc Array2)
  | clusters (predict : Array2 → Except Exc (List ℤ)) (nClusters : Option ℤ)

/-- `bundle["models"][granularity]`; an entry that is absent is none. -/
structure ModelEntry where
  scaler : Option (Array2 → Except Exc Array2)
  weights : Option (List PyVal)
  model : Option RegimeModel
  mapping : Option (List (PyVal × String))

/-- An unpickled bundle. Weights under names that are no dictionary count as absent. -/
structure RegimeBundle where
  models : Option (OrderedDict String ModelEntry)
  featureNames : Option (List String)
  directionFeature : String
  trendWindow : PyVal
  featureWeights : Option Dict

/-- What a load looks at. -/
def RegimeBundle.contract (b : RegimeBundle) : Bundle where
  models := b.models.map fun models => models.map Prod.fst
  featureNames := b.featureNames
  directionFeature := b.directionFeature

/-! ### The arrays -/

/-- `x * w` with the broadcasting of numpy. -/
def scaleColumns (x : Array2) (w : List Binary64) : Except PyErr Array2 :=
  if h : x.cols = w.length then
    .ok ⟨x.cols, x.rows.map fun row j => (row j).mul (w.get (j.cast h))⟩
  else if h : w.length = 1 then
    .ok ⟨x.cols, x.rows.map fun row j => (row j).mul (w.get ⟨0, by omega⟩)⟩
  else if h : x.cols = 1 then
    .ok ⟨w.length, x.rows.map fun row j => (row ⟨0, by omega⟩).mul (w.get j)⟩
  else .error .valueError

/-- The place of the largest of some values and of one before them; a NaN counts as the
largest, and the first one wins. -/
def argmaxFrom (best : ℕ) (top : Binary64) : ℕ → List Binary64 → ℕ
  | _, [] => best
  | i, x :: rest =>
      if top = .nan then best
      else if x = .nan ∨ top.lt x then argmaxFrom i x (i + 1) rest
      else argmaxFrom best top (i + 1) rest

/-- `np.argmax`. -/
def argmax : List Binary64 → Except PyErr ℕ
  | [] => .error .valueError
  | x :: rest => .ok (argmaxFrom 0 x 1 rest)

/-- Zeros with a one at an index, which may count from the end. -/
def oneHot (n state : ℤ) : Except PyErr (List Binary64) :=
  if n < 0 then .error .valueError
  else if state < -n ∨ n ≤ state then .error .indexError
  else .ok ((List.range n.toNat).map fun i : ℕ =>
    if (i : ℤ) = (if state < 0 then state + n else state) then .ofRat 1 else .zero)

/-! ### The steps of an inference -/

/-- `pd.isna`. -/
def isMissing : PyVal → Bool
  | .null => true
  | .float x => x = .nan
  | _ => false

/-- The rows without a missing cell in the wanted columns, in order. -/
def completeRows {n : ℕ} (wanted : List (Column n PyVal)) : List (Fin n) :=
  (List.finRange n).filter fun i => wanted.all fun col => !isMissing (col i)

/-- `_feature_matrix`: the complete rows of the features, and the time of the last one. -/
def featureMatrix (np : Numerics) (b : RegimeBundle) (candles : CandleFrame) :
    Except Exc (Option (Array2 × String)) := do
  let names ← Exc.lift (orErr .keyError b.featureNames)
  let trendWindow ← Exc.lift b.trendWindow.toInt
  let feats ← computeRegimeFeatures np candles.frame b.directionFeature trendWindow
  let wanted ← Exc.lift (names.mapM (columnAt feats))
  match (completeRows wanted).getLast? with
  | none => return none
  | some last => do
      let asOf ← (feats.get? "bar_time_utc").elim (.ok "") fun col => np.datetimeText (col last)
      let rows ← Exc.lift ((completeRows wanted).mapM fun i =>
        Column.traverse fun j : Fin wanted.length => asFloat64 (wanted.get j i))
      return some (⟨wanted.length, rows⟩, asOf)

/-- `_weights_for`. -/
def weightsFor (b : RegimeBundle) (entry : ModelEntry) : Except Exc (List Binary64) := do
  let names ← Exc.lift (orErr .keyError b.featureNames)
  match b.featureWeights with
  | some named => do
      let missing := names.filter fun name => (named.get? name).isNone
      if !missing.isEmpty then
        .error ⟨.builtin .valueError, [.lit "feature_weights has no entry for ",
          .val (.list (missing.map .str))]⟩
      else do
        let w ← Exc.lift (names.mapM fun name => (named.get name).toFloat)
        match entry.weights with
        | none => return w
        | some positional => do
            let pos ← Exc.lift (positional.mapM asFloat64)
            if pos.length ≠ w.length ∨ !(pos.zip w).all fun p => p.1.eq p.2 then
              .error ⟨.builtin .valueError,
                [.lit "bundle weights disagree: feature_weights (by name) gives ",
                  .val (.list (w.map .float)), .lit " for ", .val (.list (names.map .str)),
                  .lit ", positional 'weights' gives ", .val (.list (pos.map .float))]⟩
            else return w
  | none =>
      match entry.weights with
      | none => .error ⟨.builtin .valueError,
          [.lit "bundle has neither 'feature_weights' nor per-model 'weights'"]⟩
      | some positional => do
          let pos ← Exc.lift (positional.mapM asFloat64)
          if pos.length ≠ names.length then
            .error ⟨.builtin .valueError, [.lit "positional weights length ",
              .val (.int pos.length), .lit " != ", .val (.int names.length),
              .lit " feature_names"]⟩
          else return pos

/-- The scores of the states on the last bar. Without posteriors only that bar is classified. -/
def scoresOf (entry : ModelEntry) (x : Array2) : RegimeModel → Except Exc (List Binary64)
  | .posterior predictProba => do
      let probs ← predictProba x
      let last ← Exc.lift (orErr .indexError probs.rows.getLast?)
      return List.ofFn last
  | .clusters predict nClusters => do
      let states ← predict ⟨x.cols, x.rows.getLast?.toList⟩
      let state ← Exc.lift (orErr .indexError states.head?)
      let mapping ← Exc.lift (orErr .keyError entry.mapping)
      Exc.lift (oneHot (nClusters.getD mapping.length) state)

/-- `_predict_probs`. -/
def predictProbs (b : RegimeBundle) (entry : ModelEntry) (mat : Array2) :
    Except Exc (List Binary64) := do
  let scaler ← Exc.lift (orErr .keyError entry.scaler)
  let weights ← weightsFor b entry
  let scaled ← scaler mat
  let x ← Exc.lift (scaleColumns scaled weights)
  let model ← Exc.lift (orErr .keyError entry.model)
  scoresOf entry x model

/-- `order_probabilities`, of one bar: the sum over the states of each label. -/
def orderProbabilities (np : Numerics) (probs : List Binary64) (mapping : OrderedDict ℤ String) :
    Except Exc (List Binary64) :=
  let unknown := (mapping.map Prod.fst).filter fun s => s < 0 ∨ (probs.length : ℤ) ≤ s
  if !unknown.isEmpty then
    .error ⟨.builtin .valueError, [.lit "mapping references states ",
      .val (.list ((unknown.mergeSort (· ≤ ·)).map .int)), .lit " outside the model's ",
      .val (.int probs.length), .lit " states"]⟩
  else
    .ok (semanticOrder.map fun label =>
      let states := (mapping.filter fun e => e.2 == label).map Prod.fst
      if states.isEmpty then .zero else np.sum (states.map fun s => (probs[s.toNat]?).getD .nan))

/-- `{int(k): v for k, v in mapping.items()}`. -/
def stateLabels (mapping : List (PyVal × String)) : Except PyErr (OrderedDict ℤ String) :=
  (mapping.mapM fun e : PyVal × String => e.1.toInt.map fun state => (state, e.2)).map
    OrderedDict.ofPairs

/-- What `detect` makes of the scores of the last bar. -/
def readScores (np : Numerics) (entry : ModelEntry) (probs : List Binary64) (asOf : String) :
    Except Exc Inference := do
  let entries ← Exc.lift (orErr .keyError entry.mapping)
  let mapping ← Exc.lift (stateLabels entries)
  let rawState ← Exc.lift (argmax probs)
  let rawLabel ← Exc.lift (orErr .keyError (mapping.get? rawState))
  let ordered ← orderProbabilities np probs mapping
  return ⟨asOf, rawState, rawLabel, (probs[rawState]?).getD .nan, ordered⟩

/-- What `detect` does between the candles and the observation. -/
def infer (np : Numerics) (b : RegimeBundle) (entry : ModelEntry) (candles : CandleFrame) :
    Except Exc (Option Inference) := do
  match ← featureMatrix np b candles with
  | none => return none
  | some (mat, asOf) => do
      let probs ← predictProbs b entry mat
      let inf ← readScores np entry probs asOf
      return some inf

/-! ### The detector with its bundle -/

/-- The settings of a detector whose files unpickle to whole bundles. -/
structure InferenceSettings where
  window : ℤ
  highConf : Binary64
  unpickle : List UInt8 → Except Exc RegimeBundle
  np : Numerics

/-- The settings that a load looks at. -/
def InferenceSettings.regime (s : InferenceSettings) : RegimeSettings where
  window := s.window
  highConf := s.highConf
  unpickle := fun bytes => (s.unpickle bytes).map RegimeBundle.contract

/-- A detector with the bundle in its memory, which a load accepted. -/
structure ServingDetector where
  detector : LiveRegimeDetector
  held : Option RegimeBundle
  same : detector.bundle = held.map RegimeBundle.contract
  accepted : ∀ b ∈ held, b.contract.usable = true

namespace ServingDetector
open LiveRegimeDetector

/-- A detector that was just built. -/
def fresh : ServingDetector := ⟨.fresh, none, rfl, by simp⟩

/-- One link of the walk, with the whole bundle. -/
def readWhole (s : InferenceSettings) (root : ArtifactRoot) (l : RootLink) :
    Option RegimeBundle := do
  let bytes ← findArtifact root l
  let b ← (s.unpickle bytes).toOption
  if b.contract.usable then some b else none

/-- The bundle that a walk finds. -/
def walkWhole (s : InferenceSettings) (root : ArtifactRoot) : Option RegimeBundle :=
  (readWhole s root .active).or (readWhole s root .lastGood)

theorem readBundle_regime (s : InferenceSettings) (root : ArtifactRoot) (l : RootLink) :
    readBundle s.regime root l = (readWhole s root l).map RegimeBundle.contract := by
  unfold readBundle readWhole
  cases findArtifact root l with
  | none => rfl
  | some bytes =>
      simp only [InferenceSettings.regime, Option.bind_eq_bind, Option.bind_some]
      cases s.unpickle bytes with
      | error e => rfl
      | ok b =>
          simp only [Except.map, Except.toOption, Option.bind_some]
          split_ifs
          · rfl
          · rfl

theorem walk_regime (s : InferenceSettings) (root : ArtifactRoot) :
    (walk s.regime root).map Prod.snd = (walkWhole s root).map RegimeBundle.contract := by
  unfold walk walkWhole
  rw [readBundle_regime, readBundle_regime]
  cases readWhole s root .active with
  | some b => rfl
  | none =>
      cases readWhole s root .lastGood with
      | some b => rfl
      | none => rfl

theorem usable_of_readWhole {s : InferenceSettings} {root : ArtifactRoot} {l : RootLink}
    {b : RegimeBundle} (h : readWhole s root l = some b) : b.contract.usable = true := by
  unfold readWhole at h
  obtain ⟨bytes, -, h⟩ := Option.bind_eq_some_iff.mp h
  obtain ⟨b', -, h⟩ := Option.bind_eq_some_iff.mp h
  split_ifs at h with husable
  exact Option.some.inj h ▸ husable

theorem usable_of_walkWhole {s : InferenceSettings} {root : ArtifactRoot} {b : RegimeBundle}
    (h : walkWhole s root = some b) : b.contract.usable = true := by
  rcases Option.or_eq_some_iff.mp h with hactive | ⟨-, hlastGood⟩
  · exact usable_of_readWhole hactive
  · exact usable_of_readWhole hlastGood

/-- The bundle in memory once a load is over. -/
def heldAfter (s : InferenceSettings) (readable : Bool) (root : ArtifactRoot)
    (d : ServingDetector) : Option RegimeBundle :=
  if d.detector.keepsCached root false then d.held
  else
    match withdrawal readable root with
    | .error _ => d.held
    | .ok (some _) => none
    | .ok none => (walkWhole s root).or d.held

theorem usable_of_heldAfter {s : InferenceSettings} {readable : Bool} {root : ArtifactRoot}
    {d : ServingDetector} {b : RegimeBundle} (h : b ∈ heldAfter s readable root d) :
    b.contract.usable = true := by
  unfold heldAfter at h
  split_ifs at h
  · exact d.accepted b h
  · split at h
    · exact d.accepted b h
    · cases h
    · rcases Option.or_eq_some_iff.mp h with hfound | ⟨-, hheld⟩
      · exact usable_of_walkWhole hfound
      · exact d.accepted b hheld

/-- A load leaves the bundle of the detector in memory. -/
theorem loadBundle_heldAfter (s : InferenceSettings) (readable : Bool) (root : ArtifactRoot)
    (d : ServingDetector) :
    (loadBundle s.regime readable root d.detector false).2.bundle =
      (heldAfter s readable root d).map RegimeBundle.contract := by
  have hends := loadBundle_ends s.regime readable root d.detector false
  generalize loadBundle s.regime readable root d.detector false = r at hends ⊢
  have hwalked := walk_regime s root
  unfold heldAfter
  cases hends with
  | kept hcached => rw [if_pos hcached, d.same]
  | raised hlook hstate => simp only [hlook, hstate, Bool.false_eq_true, if_false, d.same]
  | refused hlook hstate =>
      simp only [hlook, hstate, Bool.false_eq_true, if_false, Option.map_none]
  | missing hlook hstate hwalk =>
      rw [hwalk] at hwalked
      simp only [hlook, hstate, Bool.false_eq_true, if_false, d.same,
        Option.map_eq_none_iff.mp hwalked.symm, Option.none_or]
  | found hlook hstate hwalk =>
      rw [hwalk] at hwalked
      obtain ⟨b, hb, hcontract⟩ := Option.map_eq_some_iff.mp hwalked.symm
      simp only [hlook, hstate, Bool.false_eq_true, if_false, hb, Option.some_or, Option.map_some,
        hcontract]

/-- Behind its load, a detection leaves the bundle as it is. -/
theorem detect_bundle (c : RegimeSettings) (readable : Bool) (root : ArtifactRoot)
    (market : RegimeMarket) (det : LiveRegimeDetector) (instrument granularity : String) :
    (det.detect c readable root market instrument granularity).2.bundle =
      (loadBundle c readable root det false).2.bundle := by
  rw [detect_eq_carry]
  exact (Outcome.carry_loaded _ _).1

/-- The bundle that a detection works with. -/
def wholeInUse (s : InferenceSettings) (readable : Bool) (root : ArtifactRoot)
    (d : ServingDetector) : Except Exc (Option RegimeBundle) :=
  if d.detector.keepsCached root false then .ok d.held
  else (withdrawal readable root).map fun withdrawn =>
    if withdrawn.isSome then none else walkWhole s root

/-- What a detection meets: the candles, and the inference on them with its bundle. -/
def market (s : InferenceSettings) (readable : Bool) (root : ArtifactRoot)
    (candles : Except Exc CandleFrame) (granularity : String) (d : ServingDetector) :
    RegimeMarket where
  candles := candles.map fun _ => ()
  inference := do
    match ← wholeInUse s readable root d, candles with
    | some b, .ok frame => do
        let models ← Exc.lift (orErr .keyError b.models)
        let entry ← Exc.lift (orErr .keyError (models.get? granularity))
        infer s.np b entry frame
    | _, _ => return none

/-- `detect`, with the candles that the source returns. -/
def detect (s : InferenceSettings) (readable : Bool) (root : ArtifactRoot)
    (candles : Except Exc CandleFrame) (d : ServingDetector) (instrument granularity : String) :
    Except Exc RegimeObservation × ServingDetector :=
  let r := d.detector.detect s.regime readable root
    (d.market s readable root candles granularity) instrument granularity
  (r.1, {
    detector := r.2
    held := heldAfter s readable root d
    same := (detect_bundle _ _ _ _ _ _ _).trans (loadBundle_heldAfter s readable root d)
    accepted := fun _ h => usable_of_heldAfter h })

end ServingDetector

end System2
