import System2.ArtifactSync.Downloader

/-!
# The live regime detector (`artifact_sync/live_regime.py`)

The detector reads its bundle from the active set, or from `last_good` when that one
is unusable, and keeps it while the set on disk stays the same. A withdrawal on record
makes it refuse.

## Implementation notes

A load reads a root that nobody changes meanwhile. Unpickling a file and the numeric
part of an inference are given from outside.
-/

namespace System2
open Foundation

/-- What the detector looks at in an unpickled bundle: the granularities that it has a model
for, and its feature contract. -/
structure Bundle where
  models : Option (List String)
  featureNames : Option (List String)
  directionFeature : String

/-- `produced_feature_names`. -/
def producedFeatureNames (directionFeature : String) : List String :=
  ["returns_1", "atr_14", "atr_pct_14", "adx_14", "volatility_20", directionFeature]

/-- The checks on a bundle before it is used. -/
def Bundle.usable (b : Bundle) : Bool :=
  b.models.isSome && b.featureNames.any fun wanted =>
    wanted.all (producedFeatureNames b.directionFeature).contains

structure RegimeObservation where
  granularity : String
  asOf : Option String
  rawState : Option ℤ
  rawProbs : List Binary64
  smoothedLabel : Option String
  smoothedConfidence : Binary64
  persistenceWindow : ℤ
  modelSetId : Option String
  stale : Bool
  note : Option String

structure OnlineDebouncer where
  published : Option String
  candidate : Option String
  count : ℤ

namespace OnlineDebouncer

def fresh : OnlineDebouncer := ⟨none, none, 0⟩

/-- `OnlineDebouncer.update`: the label to publish from now on. -/
def update (window : ℤ) (highConf : Binary64) (deb : OnlineDebouncer) (rawLabel : String)
    (rawProb : Binary64) : String × OnlineDebouncer :=
  match deb.published with
  | none => (rawLabel, ⟨some rawLabel, none, 0⟩)
  | some published =>
      if rawLabel = published then (published, ⟨some published, none, 0⟩)
      else
        let count := if deb.candidate = some rawLabel then deb.count + 1 else 1
        if window ≤ count ∨ highConf.le rawProb then (rawLabel, ⟨some rawLabel, none, 0⟩)
        else (published, ⟨some published, some rawLabel, count⟩)

end OnlineDebouncer

/-- The settings of a detector, and what `joblib.load` makes of a file. -/
structure RegimeSettings where
  window : ℤ
  highConf : Binary64
  unpickle : List UInt8 → Except Exc Bundle

/-- What a `LiveRegimeDetector` remembers. -/
structure LiveRegimeDetector where
  bundle : Option Bundle
  bundleSource : Option RootLink
  bundleSetId : Option String
  seenSetId : Option String
  debouncers : List ((String × String) × OnlineDebouncer)
  lastObs : List ((String × String) × RegimeObservation)

/-- The numeric part of an inference on the last bar. -/
structure Inference where
  asOf : String
  rawState : ℤ
  rawLabel : String
  rawProb : Binary64
  ordered : List Binary64

/-- What one detection meets after the bundle: the fetched candles, and the inference on them,
none when the history is too short. -/
structure RegimeMarket where
  candles : Except Exc Unit
  inference : Except Exc (Option Inference)

/-- `SEMANTIC_ORDER`. -/
def semanticOrder : List String := ["Trending-Up", "Trending-Down", "Ranging", "High-Vol"]

/-- `round(x, 6)`. -/
def round6 : Binary64 → Binary64
  | .fin q _ => .ofRat ((roundHalfEven (q * 10 ^ 6) : ℤ) / 10 ^ 6)
  | x => x

namespace LiveRegimeDetector

/-- A detector that was just built. -/
def fresh : LiveRegimeDetector := ⟨none, none, none, none, [], []⟩

/-- The names under which a set may hold its bundle. -/
def artifactCandidates : List String := ["regime_hmm.pkl", "hmm_model.joblib"]

/-- `_find_artifact`: the first candidate that the link's set holds. -/
def findArtifact (root : ArtifactRoot) (l : RootLink) : Option (List UInt8) :=
  (root.link l).bind fun set => (root.sets set).bind fun dir => artifactCandidates.firstM dir

/-- `_withdrawal`: the recorded state when it says so; a state that cannot be read says nothing.
One that is no UTF-8 raises, and a decoded one that is no object has no `get`. -/
def withdrawal (readable : Bool) (root : ArtifactRoot) : Except Exc (Option PyVal) :=
  match readable, root.state with
  | true, some .garbled => .error unicodeDecodeError
  | true, some (.text (some state)) => do
      let flag ← Exc.lift (state.getAttrGet "withdrawn")
      return match flag with
        | .bool true => some state
        | _ => none
  | _, _ => return none

/-- `_on_disk_set_id`: the name that the first link with a target leads to. -/
def onDiskSetId (root : ArtifactRoot) : Option String :=
  if root.linkExists .active then root.link .active
  else if root.linkExists .lastGood then root.link .lastGood
  else none

/-- One link of the walk: the bundle behind it, when there is a usable one. -/
def readBundle (c : RegimeSettings) (root : ArtifactRoot) (l : RootLink) : Option Bundle := do
  let bytes ← findArtifact root l
  let bundle ← (c.unpickle bytes).toOption
  if bundle.usable then some bundle else none

/-- The walk over `active` and `last_good`: the first link with a usable bundle. -/
def walk (c : RegimeSettings) (root : ArtifactRoot) : Option (RootLink × Bundle) :=
  match readBundle c root .active with
  | some bundle => some (.active, bundle)
  | none => (readBundle c root .lastGood).map fun bundle => (.lastGood, bundle)

/-- Is the bundle in memory kept without looking any further? -/
def keepsCached (det : LiveRegimeDetector) (root : ArtifactRoot) (force : Bool) : Bool :=
  det.bundle.isSome && !force &&
    ((onDiskSetId root).isNone || onDiskSetId root == det.seenSetId)

/-- `load_bundle`, with the detector after it. -/
def loadBundle (c : RegimeSettings) (readable : Bool) (root : ArtifactRoot)
    (det : LiveRegimeDetector) (force : Bool) : Except Exc Bool × LiveRegimeDetector :=
  if det.keepsCached root force then (.ok true, det)
  else
    let det := { det with seenSetId := onDiskSetId root }
    match withdrawal readable root with
    | .error e => (.error e, det)
    | .ok (some _) => (.ok false, { det with bundle := none, bundleSource := none })
    | .ok none =>
        match walk c root with
        | some (l, bundle) =>
            (.ok true, { det with bundle := some bundle, bundleSource := some l,
                                  bundleSetId := root.link l })
        | none => (.ok false, det)

/-- `d.get(key)` on the detector's own records. -/
def recorded {α : Type} (key : String × String) (records : List ((String × String) × α)) :
    Option α := (records.find? fun e => e.1 == key).map Prod.snd

/-- `d[key] = v` on the detector's own records. -/
def record {α : Type} (key : String × String) (v : α) (records : List ((String × String) × α)) :
    List ((String × String) × α) := (key, v) :: records.filter fun e => e.1 != key

/-- `_stale`: the last observation marked as stale, or an empty one. -/
def stale (c : RegimeSettings) (det : LiveRegimeDetector) (key : String × String)
    (note : String) : RegimeObservation :=
  match recorded key det.lastObs with
  | some prev => { prev with stale := true, note := some note }
  | none => ⟨key.2, none, none, [], none, .zero, c.window, det.bundleSetId, true, some note⟩

/-- The observation that an inference leads to. -/
def observe (c : RegimeSettings) (det : LiveRegimeDetector) (key : String × String)
    (inf : Inference) : RegimeObservation × LiveRegimeDetector :=
  let deb := (recorded key det.debouncers).getD .fresh
  let smoothed := deb.update c.window c.highConf inf.rawLabel inf.rawProb
  let confidence :=
    ((semanticOrder.idxOf? smoothed.1).bind fun i => inf.ordered[i]?).getD inf.rawProb
  let obs : RegimeObservation :=
    ⟨key.2, if inf.asOf = "" then none else some inf.asOf, some inf.rawState, inf.ordered,
      some smoothed.1, round6 confidence, c.window, det.bundleSetId, false, none⟩
  (obs, { det with
    debouncers := record key smoothed.2 det.debouncers, lastObs := record key obs det.lastObs })

/-- `detect`, with the detector after it. -/
def detect (c : RegimeSettings) (readable : Bool) (root : ArtifactRoot) (market : RegimeMarket)
    (det : LiveRegimeDetector) (instrument granularity : String) :
    Except Exc RegimeObservation × LiveRegimeDetector :=
  let key := (instrument, granularity)
  match loadBundle c readable root det false with
  | (.error e, det) => (.error e, det)
  | (.ok false, det) => (.ok (stale c det key "no model bundle"), det)
  | (.ok true, det) =>
      if !(det.bundle.bind Bundle.models).any fun models => models.contains granularity then
        (.ok (stale c det key ("no model for granularity " ++ granularity)), det)
      else
        match market.candles, market.inference with
        | .error e, _ => (.ok (stale c det key ("candle fetch error: " ++ e.cls.name)), det)
        | .ok _, .error e => (.error e, det)
        | .ok _, .ok none => (.ok (stale c det key "insufficient history"), det)
        | .ok _, .ok (some inf) =>
            let r := observe c det key inf
            (.ok r.1, r.2)

/-! ### What a load and a detection come to -/

variable {c : RegimeSettings} {readable : Bool} {root : ArtifactRoot} {det : LiveRegimeDetector}
  {force : Bool} {r : Except Exc Bool × LiveRegimeDetector}

/-- How a load ends: what is in memory is kept, or the look at the disk raises, meets a
withdrawal, finds no usable bundle, or finds one. -/
inductive LoadEnds (c : RegimeSettings) (readable : Bool) (root : ArtifactRoot)
    (det : LiveRegimeDetector) (force : Bool) : Except Exc Bool × LiveRegimeDetector → Prop
  | kept (hcached : det.keepsCached root force = true) :
      LoadEnds c readable root det force (.ok true, det)
  | raised {e} (hlook : det.keepsCached root force = false)
      (hstate : withdrawal readable root = .error e) :
      LoadEnds c readable root det force (.error e, { det with seenSetId := onDiskSetId root })
  | refused {state} (hlook : det.keepsCached root force = false)
      (hstate : withdrawal readable root = .ok (some state)) :
      LoadEnds c readable root det force (.ok false,
        { det with seenSetId := onDiskSetId root, bundle := none, bundleSource := none })
  | missing (hlook : det.keepsCached root force = false)
      (hstate : withdrawal readable root = .ok none) (hwalk : walk c root = none) :
      LoadEnds c readable root det force (.ok false, { det with seenSetId := onDiskSetId root })
  | found {l bundle} (hlook : det.keepsCached root force = false)
      (hstate : withdrawal readable root = .ok none) (hwalk : walk c root = some (l, bundle)) :
      LoadEnds c readable root det force (.ok true,
        { det with seenSetId := onDiskSetId root, bundle := some bundle, bundleSource := some l,
                   bundleSetId := root.link l })

theorem loadBundle_ends (c : RegimeSettings) (readable : Bool) (root : ArtifactRoot)
    (det : LiveRegimeDetector) (force : Bool) :
    LoadEnds c readable root det force (loadBundle c readable root det force) := by
  unfold loadBundle
  split_ifs with hcached
  · exact .kept hcached
  · have hlook : det.keepsCached root force = false := by simpa using hcached
    cases hstate : withdrawal readable root with
    | error e => exact .raised hlook hstate
    | ok withdrawn =>
        cases withdrawn with
        | some _ => exact .refused hlook hstate
        | none =>
            cases hwalk : walk c root with
            | none => exact .missing hlook hstate hwalk
            | some _ => exact .found hlook hstate hwalk

theorem LoadEnds.eq (h : LoadEnds c readable root det force r) :
    loadBundle c readable root det force = r := by
  cases h with
  | kept hcached => exact if_pos hcached
  | raised hlook hstate => simp [loadBundle, hlook, hstate]
  | refused hlook hstate => simp [loadBundle, hlook, hstate]
  | missing hlook hstate hwalk => simp [loadBundle, hlook, hstate, hwalk]
  | found hlook hstate hwalk => simp [loadBundle, hlook, hstate, hwalk]

/-- A load leaves the records of the pairs as they are. -/
theorem loadBundle_records (c : RegimeSettings) (readable : Bool) (root : ArtifactRoot)
    (det : LiveRegimeDetector) :
    (loadBundle c readable root det false).2.debouncers = det.debouncers ∧
      (loadBundle c readable root det false).2.lastObs = det.lastObs := by
  have hends := loadBundle_ends c readable root det false
  generalize loadBundle c readable root det false = r at hends ⊢
  cases hends with
  | kept hcached => exact ⟨rfl, rfl⟩
  | raised hlook hstate => exact ⟨rfl, rfl⟩
  | refused hlook hstate => exact ⟨rfl, rfl⟩
  | missing hlook hstate hwalk => exact ⟨rfl, rfl⟩
  | found hlook hstate hwalk => exact ⟨rfl, rfl⟩

/-- What a detection comes to behind its load: it raises, or it holds the last observation with
a note, or it has an inference. -/
inductive Outcome
  | raises (e : Exc)
  | holds (note : String)
  | infers (inf : Inference)

/-- The outcome of a detection, by its load, the bundle in memory and what it meets. -/
def outcome (loaded : Except Exc Bool) (bundle : Option Bundle) (market : RegimeMarket)
    (granularity : String) : Outcome :=
  match loaded with
  | .error e => .raises e
  | .ok false => .holds "no model bundle"
  | .ok true =>
      if !(bundle.bind Bundle.models).any fun models => models.contains granularity then
        .holds ("no model for granularity " ++ granularity)
      else
        match market.candles, market.inference with
        | .error e, _ => .holds ("candle fetch error: " ++ e.cls.name)
        | .ok _, .error e => .raises e
        | .ok _, .ok none => .holds "insufficient history"
        | .ok _, .ok (some inf) => .infers inf

/-- What an outcome makes of the detector that has loaded. -/
def Outcome.carry (c : RegimeSettings) (det : LiveRegimeDetector) (key : String × String) :
    Outcome → Except Exc RegimeObservation × LiveRegimeDetector
  | .raises e => (.error e, det)
  | .holds note => (.ok (stale c det key note), det)
  | .infers inf => (.ok (observe c det key inf).1, (observe c det key inf).2)

/-- A detection is a load, and the outcome carried out on the detector after it. -/
theorem detect_eq_carry (c : RegimeSettings) (readable : Bool) (root : ArtifactRoot)
    (market : RegimeMarket) (det : LiveRegimeDetector) (instrument granularity : String) :
    det.detect c readable root market instrument granularity =
      (outcome (loadBundle c readable root det false).1
        (loadBundle c readable root det false).2.bundle market granularity).carry c
          (loadBundle c readable root det false).2 (instrument, granularity) := by
  unfold detect outcome
  obtain ⟨out, after⟩ := loadBundle c readable root det false
  cases out with
  | error e => rfl
  | ok loaded =>
      cases loaded with
      | false => rfl
      | true =>
          dsimp only
          split_ifs
          · rfl
          · split
            · rfl
            · rfl
            · rfl
            · rfl

/-- Only the records of a pair are written behind a load. -/
theorem Outcome.carry_loaded (o : Outcome) (key : String × String) :
    (o.carry c det key).2.bundle = det.bundle ∧
      (o.carry c det key).2.seenSetId = det.seenSetId := by
  cases o with
  | raises e => exact ⟨rfl, rfl⟩
  | holds note => exact ⟨rfl, rfl⟩
  | infers inf => exact ⟨rfl, rfl⟩

end LiveRegimeDetector

end System2
