import System2.ArtifactSync.LiveRegime
import Mathlib.Data.List.MinMax

/-!
# The published grid and the observations returned (`snapshot_grid`, `telemetry/health.py`)

The grid is made of the observations that the detector stored, and a degraded detection
stores nothing. After any run of detections the grid shows the flag of the latest
observation of a pair exactly when the detection that returned it had computed a regime.

## Implementation notes

What a detection reaches is a value of its inputs and of the detector before it. A
detection that raises returns no observation and stores none.
-/

namespace System2
open Foundation

/-- One call of `detect`, with what it meets on the disk and at the broker. -/
structure Detection where
  readable : Bool
  root : ArtifactRoot
  market : RegimeMarket
  instrument : String
  granularity : String

/-- A row of the grid: an observation under its instrument. -/
structure GridRow where
  instrument : String
  obs : RegimeObservation

def GridRow.key (row : GridRow) : String × String := (row.instrument, row.obs.granularity)

/-- The label that the roll-up counts for a row. -/
def GridRow.liveLabel (row : GridRow) : Option String :=
  if row.obs.stale then none else row.obs.smoothedLabel.filter (· ≠ "")

structure RegimeSummary where
  cells : ℕ
  dominant : Option String
  byLabel : List (String × ℕ)

/-- `counts[label] = counts.get(label, 0) + 1`. -/
def countLabel (counts : List (String × ℕ)) (label : String) : List (String × ℕ) :=
  if counts.any fun e => e.1 = label then
    counts.map fun e => if e.1 = label then (e.1, e.2 + 1) else e
  else counts ++ [(label, 1)]

/-- `_regime_summary`. -/
def regimeSummary (grid : List GridRow) : RegimeSummary :=
  let counts := (grid.filterMap GridRow.liveLabel).foldl countLabel []
  ⟨grid.length, (counts.argmax Prod.snd).map Prod.fst, counts⟩

namespace LiveRegimeDetector

/-- The order of the rows: `(r["instrument"], r["granularity"])`. -/
def rowLe (a b : GridRow) : Bool :=
  a.instrument < b.instrument ||
    (a.instrument == b.instrument && a.obs.granularity ≤ b.obs.granularity)

/-- `snapshot_grid`. -/
def snapshotGrid (det : LiveRegimeDetector) : List GridRow :=
  (det.lastObs.map fun e => ⟨e.1.1, e.2⟩).mergeSort rowLe

/-- The rows of the grid are the stored observations. -/
theorem mem_snapshotGrid {det : LiveRegimeDetector} {row : GridRow} :
    row ∈ det.snapshotGrid ↔ ∃ e ∈ det.lastObs, ⟨e.1.1, e.2⟩ = row := by
  unfold snapshotGrid
  rw [List.mem_mergeSort, List.mem_map]

/-- The bundle that a detection works with, when it finds one. -/
def bundleInUse (c : RegimeSettings) (readable : Bool) (root : ArtifactRoot)
    (det : LiveRegimeDetector) : Except Exc (Option Bundle) :=
  if det.keepsCached root false then .ok det.bundle
  else (withdrawal readable root).map fun withdrawn =>
    if withdrawn.isSome then none else (walk c root).map Prod.snd

/-- A load says whether there is a bundle to work with, and leaves that one in memory. -/
theorem loadBundle_bundleInUse (c : RegimeSettings) (readable : Bool) (root : ArtifactRoot)
    (det : LiveRegimeDetector) :
    let r := loadBundle c readable root det false
    match bundleInUse c readable root det with
    | .error e => r.1 = .error e
    | .ok none => r.1 = .ok false
    | .ok (some bundle) => r.1 = .ok true ∧ r.2.bundle = some bundle := by
  have hends := loadBundle_ends c readable root det false
  generalize loadBundle c readable root det false = r at hends ⊢
  unfold bundleInUse
  cases hends with
  | kept hcached =>
      rw [if_pos hcached]
      unfold keepsCached at hcached
      cases hbundle : det.bundle with
      | none => simp [hbundle] at hcached
      | some bundle => exact ⟨rfl, hbundle⟩
  | raised hlook hstate => simp [hlook, hstate, Except.map]
  | refused hlook hstate => simp [hlook, hstate, Except.map]
  | missing hlook hstate hwalk => simp [hlook, hstate, hwalk, Except.map]
  | found hlook hstate hwalk => simp [hlook, hstate, hwalk, Except.map]

/-- The inference of an outcome, if it has one. -/
def Outcome.reached : Outcome → Except Exc (Option Inference)
  | .raises e => .error e
  | .holds _ => .ok none
  | .infers inf => .ok (some inf)

end LiveRegimeDetector

namespace Detection
open LiveRegimeDetector

/-- The pair that is detected. -/
def key (d : Detection) : String × String := (d.instrument, d.granularity)

/-- The call on a detector. -/
def run (c : RegimeSettings) (d : Detection) (det : LiveRegimeDetector) :
    Except Exc RegimeObservation × LiveRegimeDetector :=
  det.detect c d.readable d.root d.market d.instrument d.granularity

/-- The inference that a detection gets to: none without a bundle, without a model of the
granularity, without candles or with too short a history. -/
def reaches (c : RegimeSettings) (d : Detection) (det : LiveRegimeDetector) :
    Except Exc (Option Inference) :=
  match bundleInUse c d.readable d.root det with
  | .error e => .error e
  | .ok none => .ok none
  | .ok (some bundle) =>
      if !bundle.models.any fun models => models.contains d.granularity then .ok none
      else
        match d.market.candles with
        | .error _ => .ok none
        | .ok _ => d.market.inference

/-- The outcome of a detection on a detector. -/
def outcomeOn (c : RegimeSettings) (d : Detection) (det : LiveRegimeDetector) : Outcome :=
  outcome (loadBundle c d.readable d.root det false).1
    (loadBundle c d.readable d.root det false).2.bundle d.market d.granularity

theorem run_eq_carry (c : RegimeSettings) (d : Detection) (det : LiveRegimeDetector) :
    d.run c det =
      (d.outcomeOn c det).carry c (loadBundle c d.readable d.root det false).2 d.key :=
  detect_eq_carry c d.readable d.root d.market det d.instrument d.granularity

theorem reaches_eq_reached (c : RegimeSettings) (d : Detection) (det : LiveRegimeDetector) :
    d.reaches c det = (d.outcomeOn c det).reached := by
  have hload := loadBundle_bundleInUse c d.readable d.root det
  unfold reaches outcomeOn outcome
  cases huse : bundleInUse c d.readable d.root det with
  | error e =>
      rw [huse] at hload
      simp only [show _ = Except.error e from hload, Outcome.reached]
  | ok found =>
      rw [huse] at hload
      cases found with
      | none => simp only [show _ = Except.ok false from hload, Outcome.reached]
      | some bundle =>
          obtain ⟨hloaded, hbundle⟩ := hload
          simp only [hloaded, hbundle, Option.bind_some]
          split_ifs
          · rfl
          · cases d.market.candles with
            | error e => rfl
            | ok _ =>
                cases d.market.inference with
                | error e => rfl
                | ok inf =>
                    cases inf with
                    | none => rfl
                    | some inf => rfl

/-- A detection raises and stores nothing, or returns a stale observation and stores nothing,
or stores the observation that it returns. -/
theorem run_cases (c : RegimeSettings) (d : Detection) (det : LiveRegimeDetector) :
    (∃ e, d.reaches c det = .error e ∧ (d.run c det).1 = .error e ∧
      (d.run c det).2.lastObs = det.lastObs) ∨
    (∃ obs, d.reaches c det = .ok none ∧ (d.run c det).1 = .ok obs ∧ obs.stale = true ∧
      (d.run c det).2.lastObs = det.lastObs) ∨
    (∃ inf obs, d.reaches c det = .ok (some inf) ∧ (d.run c det).1 = .ok obs ∧
      obs.stale = false ∧ obs.granularity = d.granularity ∧
      (d.run c det).2.lastObs = record d.key obs det.lastObs) := by
  have hobs := (loadBundle_records c d.readable d.root det).2
  have hstale : ∀ (det : LiveRegimeDetector) (note : String),
      (det.stale c d.key note).stale = true := by
    intro det note
    unfold LiveRegimeDetector.stale
    split <;> rfl
  rw [run_eq_carry, reaches_eq_reached]
  cases d.outcomeOn c det with
  | raises e => exact Or.inl ⟨e, rfl, rfl, hobs⟩
  | holds note => exact Or.inr (Or.inl ⟨_, rfl, rfl, hstale _ _, hobs⟩)
  | infers inf =>
      refine Or.inr (Or.inr ⟨inf, _, rfl, rfl, rfl, rfl, ?_⟩)
      rw [← hobs]
      rfl

end Detection

namespace LiveRegimeDetector

/-- A detection that has returned or raised, with the detector before it. -/
structure Detected where
  call : Detection
  before : LiveRegimeDetector
  out : Except Exc RegimeObservation

/-- Did it return an observation? -/
def Detected.returned (d : Detected) : Bool := d.out.toOption.isSome

/-- Did its inputs let it come to an end? -/
def Detected.ends (c : RegimeSettings) (d : Detected) : Bool :=
  (d.call.reaches c d.before).toOption.isSome

/-- A new detector and the detections that it was asked for, in order. -/
inductive Detections (c : RegimeSettings) : List Detected → LiveRegimeDetector → Prop
  | fresh : Detections c [] .fresh
  | detect {ds det} (run : Detections c ds det) (call : Detection) :
      Detections c (ds ++ [⟨call, det, (call.run c det).1⟩]) (call.run c det).2

/-- The last detection of a pair among those that a test picks. -/
def lastOf (picks : Detected → Bool) (ds : List Detected) (key : String × String) :
    Option Detected := (ds.filter fun d => d.call.key = key && picks d).getLast?

@[simp] theorem lastOf_nil (picks : Detected → Bool) (key : String × String) :
    lastOf picks [] key = none := rfl

@[simp] theorem lastOf_concat (picks : Detected → Bool) (ds : List Detected) (d : Detected)
    (key : String × String) :
    lastOf picks (ds ++ [d]) key =
      if d.call.key = key && picks d then some d else lastOf picks ds key := by
  unfold lastOf
  rw [List.filter_append, List.filter_cons]
  split <;> simp

/-- The grid shows for a pair the flag of the latest observation returned for it, and the
roll-up counts no row of a pair whose latest observation is stale. -/
def ShowsStaleness (ds : List Detected) (det : LiveRegimeDetector) (key : String × String) :
    Prop :=
  ∀ last obs, lastOf Detected.returned ds key = some last → last.out = .ok obs →
    (∃ row ∈ det.snapshotGrid, row.key = key ∧ row.obs.stale = obs.stale) ∧
    (obs.stale = true →
      (regimeSummary (det.snapshotGrid.filter fun row => row.key ≠ key)).byLabel =
        (regimeSummary det.snapshotGrid).byLabel)

/-- What is stored after a run: fresh observations only, and for each pair the one of the last
detection that computed a regime. -/
structure StoredFresh (c : RegimeSettings) (ds : List Detected) (det : LiveRegimeDetector) :
    Prop where
  returned : ∀ d ∈ ds, d.out = (d.call.run c d.before).1
  fresh : ∀ e ∈ det.lastObs, e.2.stale = false
  latest : ∀ key last inf, lastOf (Detected.ends c) ds key = some last →
    last.call.reaches c last.before = .ok (some inf) →
    ∃ obs, (key, obs) ∈ det.lastObs ∧ obs.granularity = key.2

/-- A store that replaces the observation of a pair. -/
theorem mem_record {α : Type} {key : String × String} {v : α}
    {records : List ((String × String) × α)} {e : (String × String) × α} :
    e ∈ record key v records ↔ e = (key, v) ∨ e ∈ records ∧ e.1 ≠ key := by
  unfold record
  rw [List.mem_cons, List.mem_filter]
  simp

theorem Detections.storedFresh {c : RegimeSettings} {ds : List Detected}
    {det : LiveRegimeDetector} (run : Detections c ds det) : StoredFresh c ds det := by
  induction run with
  | fresh =>
      refine ⟨fun d hd => ?_, fun e he => ?_, fun key last inf hlast => ?_⟩
      · cases hd
      · cases he
      · cases hlast
  | @detect ds det run call ih =>
      constructor
      · intro d hd
        rw [List.mem_append, List.mem_singleton] at hd
        rcases hd with hd | rfl
        · exact ih.returned d hd
        · rfl
      · -- an observation is stored only when it is fresh
        intro e he
        rcases call.run_cases c det with ⟨_, _, _, hkept⟩ | ⟨_, _, _, _, hkept⟩ |
          ⟨inf, obs, _, _, hfresh, _, hstored⟩
        · exact ih.fresh e (hkept ▸ he)
        · exact ih.fresh e (hkept ▸ he)
        · rw [hstored, mem_record] at he
          rcases he with rfl | ⟨he, -⟩
          · exact hfresh
          · exact ih.fresh e he
      · intro key last inf hlast hreaches
        rw [lastOf_concat] at hlast
        rcases call.run_cases c det with ⟨e, hr, _, hkept⟩ | ⟨_, hr, _, _, hkept⟩ |
          ⟨_, obs, hr, _, _, hgran, hstored⟩
        · rw [if_neg (by simp [Detected.ends, hr, Except.toOption])] at hlast
          rw [hkept]
          exact ih.latest key last inf hlast hreaches
        · by_cases hkey : call.key = key
          · rw [if_pos (by simp [Detected.ends, hr, hkey, Except.toOption])] at hlast
            cases hlast
            rw [hr] at hreaches
            cases hreaches
          · rw [if_neg (by simp [hkey])] at hlast
            rw [hkept]
            exact ih.latest key last inf hlast hreaches
        · rw [hstored]
          by_cases hkey : call.key = key
          · subst hkey
            exact ⟨obs, mem_record.mpr (.inl rfl), hgran⟩
          · rw [if_neg (by simp [hkey])] at hlast
            obtain ⟨obs', hmem, hobs'⟩ := ih.latest key last inf hlast hreaches
            exact ⟨obs', mem_record.mpr (.inr ⟨hmem, fun h => hkey h.symm⟩), hobs'⟩

/-- A detection returns an observation exactly when its inputs let it come to an end. -/
theorem StoredFresh.lastOf_eq {c : RegimeSettings} {ds : List Detected}
    {det : LiveRegimeDetector} (hstored : StoredFresh c ds det) (key : String × String) :
    lastOf Detected.returned ds key = lastOf (Detected.ends c) ds key := by
  unfold lastOf
  congr 1
  apply List.filter_congr
  intro d hd
  have hends : d.returned = d.ends c := by
    unfold Detected.returned Detected.ends
    rw [hstored.returned d hd]
    rcases d.call.run_cases c d.before with ⟨_, hr, hout, _⟩ | ⟨_, hr, hout, _⟩ |
      ⟨_, _, hr, hout, _⟩
    · rw [hr, hout]; rfl
    · rw [hr, hout]; rfl
    · rw [hr, hout]; rfl
  rw [hends]

theorem mem_of_lastOf {picks : Detected → Bool} {ds : List Detected} {key : String × String}
    {d : Detected} (hlast : lastOf picks ds key = some d) :
    d ∈ ds ∧ d.call.key = key ∧ picks d = true := by
  have hmem := List.mem_filter.mp (List.mem_of_getLast? hlast)
  simpa using hmem

/-- After any run of detections the grid shows the staleness of a pair exactly when the last of
its detections that came to an end had computed a regime. -/
theorem shows_staleness_iff {c : RegimeSettings} {ds : List Detected} {det : LiveRegimeDetector}
    (run : Detections c ds det) (key : String × String) :
    ShowsStaleness ds det key ↔
      ∀ last, lastOf (Detected.ends c) ds key = some last →
        ∃ inf, last.call.reaches c last.before = .ok (some inf) := by
  have hstored := run.storedFresh
  constructor
  · intro hshows last hlast
    have hlast' := (hstored.lastOf_eq key).trans hlast
    have hout := hstored.returned last (mem_of_lastOf hlast).1
    rcases last.call.run_cases c last.before with ⟨_, _, hraised, _⟩ |
      ⟨obs, _, hobs, hstale, _⟩ | ⟨inf, _, hr, _⟩
    · have hreturned := (mem_of_lastOf hlast').2.2
      rw [Detected.returned, hout, hraised] at hreturned
      cases hreturned
    · -- every row of the grid is fresh, so none has the flag of this observation
      obtain ⟨⟨row, hrow, -, hflag⟩, -⟩ := hshows last obs hlast' (hout.trans hobs)
      obtain ⟨e, he, rfl⟩ := mem_snapshotGrid.mp hrow
      rw [hstored.fresh e he, hstale] at hflag
      cases hflag
    · exact ⟨inf, hr⟩
  · intro hcomputed last obs hlast hout
    rw [hstored.lastOf_eq key] at hlast
    obtain ⟨inf, hr⟩ := hcomputed last hlast
    have hfresh : obs.stale = false := by
      have hran := hstored.returned last (mem_of_lastOf hlast).1
      rcases last.call.run_cases c last.before with ⟨_, hr', _⟩ | ⟨_, hr', _⟩ |
        ⟨_, obs', _, hobs', hfresh, _⟩
      · rw [hr] at hr'; cases hr'
      · rw [hr] at hr'; cases hr'
      · rw [hran, hobs'] at hout
        cases hout
        exact hfresh
    obtain ⟨stored, hmem, hgran⟩ := hstored.latest key last inf hlast hr
    constructor
    · refine ⟨⟨key.1, stored⟩, mem_snapshotGrid.mpr ⟨_, hmem, rfl⟩, Prod.ext rfl hgran, ?_⟩
      rw [hfresh]
      exact hstored.fresh _ hmem
    · intro hstale
      rw [hfresh] at hstale
      cases hstale

/-! ### A detection that loses the broker -/

/-- A detector whose every bundle has a model of the hourly bars. -/
def hourlyRegime : RegimeSettings :=
  ⟨3, .ofRat (9 / 10), fun _ => .ok ⟨some ["H1"], some ["returns_1"], "trend_20"⟩⟩

/-- A detection of the hourly bars, on a root whose active set has a bundle. -/
def hourlyDetection (market : RegimeMarket) : Detection where
  readable := true
  root := { ArtifactRoot.empty with
    sets := fun set => if set = "good" then
      some fun name => if name = "regime_hmm.pkl" then some [1] else none else none
    link := fun l => if l = .active then some "good" else none }
  market := market
  instrument := "EUR_USD"
  granularity := "H1"

/-- First the candles are there and the last bar is read as ranging. -/
def rangingBar : Detection :=
  hourlyDetection ⟨.ok (), .ok (some ⟨"2026-01-05T10:00:00Z", 2, "Ranging", .zero, []⟩)⟩

/-- Then the candles cannot be fetched. -/
def lostBroker : Detection := hourlyDetection ⟨.error (osError "ConnectionError"), .ok none⟩

def rangingDetected : Detected :=
  ⟨rangingBar, .fresh, (rangingBar.run hourlyRegime .fresh).1⟩

def lostDetected : Detected :=
  ⟨lostBroker, (rangingBar.run hourlyRegime .fresh).2,
    (lostBroker.run hourlyRegime (rangingBar.run hourlyRegime .fresh).2).1⟩

theorem ranging_run : Detections hourlyRegime [rangingDetected]
    (rangingBar.run hourlyRegime .fresh).2 := Detections.fresh.detect rangingBar

/-- While the candles are there, the grid shows the pair as it was returned. -/
theorem shows_staleness_ranging :
    ShowsStaleness [rangingDetected] (rangingBar.run hourlyRegime .fresh).2 ("EUR_USD", "H1") := by
  refine (shows_staleness_iff ranging_run ("EUR_USD", "H1")).mpr fun last hlast => ?_
  have hlast' : last = rangingDetected := by
    obtain ⟨hmem, -⟩ := mem_of_lastOf hlast
    exact List.mem_singleton.mp hmem
  subst hlast'
  exact ⟨_, rfl⟩

/-- After the candles are lost the detection returns a stale observation, and the grid still
has the row from before, which is not stale. -/
theorem lost_broker_shown_live :
    ¬ ∀ (c : RegimeSettings) (ds : List Detected) (det : LiveRegimeDetector),
      Detections c ds det → ∀ key, ShowsStaleness ds det key := by
  intro hall
  have run := ranging_run.detect lostBroker
  have hlast : lastOf Detected.returned [rangingDetected, lostDetected] ("EUR_USD", "H1") =
      some lostDetected := rfl
  obtain ⟨obs, hout, hstale⟩ : ∃ obs, lostDetected.out = .ok obs ∧ obs.stale = true :=
    ⟨_, rfl, rfl⟩
  obtain ⟨⟨row, hrow, -, hflag⟩, -⟩ := hall _ _ _ run ("EUR_USD", "H1") lostDetected obs hlast hout
  obtain ⟨e, he, rfl⟩ := mem_snapshotGrid.mp hrow
  rw [run.storedFresh.fresh e he, hstale] at hflag
  cases hflag

end LiveRegimeDetector

end System2
