import System2.ArtifactSync.DebouncerWindow
import System2.ArtifactSync.DetectAnswers
import System2.ArtifactSync.RegimeScheduler

/-!
# The window counts detections

A detector keeps one debouncer for each pair, and every detection that computes a regime
feeds it. Over a run of visits to any pairs, what is stored for a pair is what its debouncer
makes of the readings of that pair alone. A reading is not tied to a bar: a scheduler that
comes back while the bar is the same feeds the same reading again, so one bar can fill the
window by itself.
-/

namespace System2
open Foundation Runs

namespace LiveRegimeDetector

variable {c : RegimeSettings} {readable : Bool} {root : ArtifactRoot} {det : LiveRegimeDetector}

/-- Behind its load, a detection leaves the set that it has seen. -/
theorem detect_seenSetId (market : RegimeMarket) (instrument granularity : String) :
    (det.detect c readable root market instrument granularity).2.seenSetId =
      (loadBundle c readable root det false).2.seenSetId := by
  rw [detect_eq_carry]
  exact (Outcome.carry_loaded _ _).2

/-- After a load that has found a bundle the next one on the same disk keeps it. -/
theorem keepsCached_loadBundle (h : (loadBundle c readable root det false).1 = .ok true) :
    (loadBundle c readable root det false).2.keepsCached root false = true := by
  have hends := loadBundle_ends c readable root det false
  generalize loadBundle c readable root det false = r at h hends ⊢
  cases hends with
  | kept hcached => exact hcached
  | raised hlook hstate => cases h
  | refused hlook hstate => cases h
  | missing hlook hstate hwalk => cases h
  | found hlook hstate hwalk => simp [keepsCached]

theorem recorded_record_self {α : Type} (pair : String × String) (v : α)
    (records : List ((String × String) × α)) : recorded pair (record pair v records) = some v := by
  unfold recorded record
  rw [List.find?_cons_of_pos (by simp)]
  rfl

end LiveRegimeDetector

namespace Detection
open LiveRegimeDetector

/-- A detection that gets to an inference observes it, and no other one touches the records. -/
theorem run_records (c : RegimeSettings) (d : Detection) (det : LiveRegimeDetector) :
    (∀ inf, d.reaches c det = .ok (some inf) → (d.run c det).2 =
      (observe c (loadBundle c d.readable d.root det false).2 d.key inf).2) ∧
    ((∀ inf, d.reaches c det ≠ .ok (some inf)) →
      (d.run c det).2.debouncers = det.debouncers ∧ (d.run c det).2.lastObs = det.lastObs) := by
  have hrecords := loadBundle_records c d.readable d.root det
  rw [run_eq_carry, reaches_eq_reached]
  cases d.outcomeOn c det with
  | raises e => exact ⟨fun inf h => (by cases h), fun _ => hrecords⟩
  | holds note => exact ⟨fun inf h => (by cases h), fun _ => hrecords⟩
  | infers inf =>
      constructor
      · rintro inf' ⟨⟩
        rfl
      · exact fun h => absurd rfl (h inf)

end Detection

namespace OnlineDebouncer

variable {window : ℤ} {highConf : Binary64} {deb : OnlineDebouncer}

/-- The label that an update returns is the published one. -/
theorem update_published (label : String) (prob : Binary64) :
    (deb.update window highConf label prob).2.published =
      some (deb.update window highConf label prob).1 := by
  unfold update
  cases deb.published with
  | none => rfl
  | some published =>
      dsimp only
      by_cases hsame : label = published
      · rw [if_pos hsame]
      · rw [if_neg hsame]
        by_cases hswitch : window ≤ (if deb.candidate = some label then deb.count + 1 else 1) ∨
            highConf.le prob = true
        · rw [if_pos hswitch]
        · rw [if_neg hswitch]

/-- A label that fills the window is published, from whatever there was before. -/
theorem published_of_replicate (window : ℤ) (highConf : Binary64)
    (updates : List (String × Binary64)) (u : String × Binary64) {n : ℕ} (hn : 0 < n)
    (hlong : window ≤ n) :
    (run window highConf (updates ++ List.replicate n u)).published = some u.1 := by
  obtain ⟨m, rfl⟩ := Nat.exists_eq_add_one_of_ne_zero hn.ne'
  rw [List.replicate_succ', ← List.append_assoc, run_append]
  cases hpublished : (run window highConf (updates ++ List.replicate m u)).published with
  | none => rw [update_of_none hpublished]
  | some published =>
      have hfull : m + 1 ≤ trailing u.1
          ((updates ++ List.replicate m u).map Prod.fst ++ [u.1]) := by
        rw [← replicate_suffix_iff]
        refine ⟨updates.map Prod.fst, ?_⟩
        simp [List.replicate_succ']
      have htracks := run_tracks window highConf (updates ++ List.replicate m u)
      rw [(update_spec htracks hpublished u.1 u.2).1, if_pos (Or.inl (by omega))]

end OnlineDebouncer

namespace ServingDetector
open LiveRegimeDetector

variable {s : InferenceSettings} {readable : Bool} {root : ArtifactRoot} {pair : String × String}
  {v : Visit} {d : ServingDetector}

/-- The inference that a visit reaches. -/
def reached (s : InferenceSettings) (v : Visit) (d : ServingDetector) :
    Except Exc (Option Inference) :=
  (call s v.readable v.root v.candles d v.pair.1 v.pair.2).reaches s.regime d.detector

/-- What a visit reads: the label of the last bar with its probability. -/
def read (s : InferenceSettings) (v : Visit) (d : ServingDetector) : Option (String × Binary64) :=
  match d.reached s v with
  | .ok (some inf) => some (inf.rawLabel, inf.rawProb)
  | _ => none

/-- The readings of one pair over a run of visits. -/
def reads (s : InferenceSettings) (pair : String × String) :
    List Visit → ServingDetector → List (String × Binary64)
  | [], _ => []
  | v :: rest, d =>
      (if v.pair = pair then (d.read s v).toList else []) ++ reads s pair rest (d.answer s v).2

/-- The debouncer of a pair. -/
def debouncer (pair : String × String) (d : ServingDetector) : OnlineDebouncer :=
  (recorded pair d.detector.debouncers).getD .fresh

/-- The stored observation of a pair. -/
def shown (pair : String × String) (d : ServingDetector) : Option RegimeObservation :=
  recorded pair d.detector.lastObs

/-- A visit that reads something feeds the debouncer and shows its label. -/
theorem answer_of_reached {inf : Inference} (h : d.reached s v = .ok (some inf)) :
    (d.answer s v).2.debouncer v.pair =
      ((d.debouncer v.pair).update s.window s.highConf inf.rawLabel inf.rawProb).2 ∧
    ∃ obs, (d.answer s v).2.shown v.pair = some obs ∧ obs.stale = false ∧
      obs.smoothedLabel = ((d.answer s v).2.debouncer v.pair).published := by
  set loaded := (loadBundle s.regime v.readable v.root d.detector false).2 with hloaded
  have hdetector : (d.answer s v).2.detector = (observe s.regime loaded v.pair inf).2 :=
    ((call s v.readable v.root v.candles d v.pair.1 v.pair.2).run_records s.regime d.detector).1 inf h
  have hrecords : loaded.debouncers = d.detector.debouncers := (loadBundle_records _ _ _ _).1
  have hdebouncer : (d.answer s v).2.debouncer v.pair =
      ((d.debouncer v.pair).update s.window s.highConf inf.rawLabel inf.rawProb).2 := by
    unfold debouncer
    rw [hdetector, ← hrecords]
    exact congrArg (Option.getD · .fresh) (recorded_record_self v.pair _ loaded.debouncers)
  refine ⟨hdebouncer, (observe s.regime loaded v.pair inf).1, ?_, rfl, ?_⟩
  · unfold shown
    rw [hdetector]
    exact recorded_record_self v.pair _ loaded.lastObs
  · rw [hdebouncer, OnlineDebouncer.update_published]
    unfold debouncer
    rw [← hrecords]
    rfl

theorem answer_of_not_reached (pair : String × String)
    (h : ∀ inf, d.reached s v ≠ .ok (some inf)) :
    (d.answer s v).2.debouncer pair = d.debouncer pair ∧
      (d.answer s v).2.shown pair = d.shown pair := by
  have hrecords : (d.answer s v).2.detector.debouncers = d.detector.debouncers ∧
      (d.answer s v).2.detector.lastObs = d.detector.lastObs :=
    ((call s v.readable v.root v.candles d v.pair.1 v.pair.2).run_records s.regime d.detector).2 h
  unfold debouncer shown
  rw [hrecords.1, hrecords.2]
  exact ⟨rfl, rfl⟩

theorem answer_of_ne (hpair : v.pair ≠ pair) :
    (d.answer s v).2.debouncer pair = d.debouncer pair ∧
      (d.answer s v).2.shown pair = d.shown pair := by
  have honly : (d.answer s v).2.detector.only pair =
      (loadBundle s.regime v.readable v.root d.detector false).2.only pair :=
    congrArg ServingDetector.detector (answer_only_of_ne hpair)
  have hrecords := loadBundle_records s.regime v.readable v.root d.detector
  have hdebouncers := congrArg LiveRegimeDetector.debouncers honly
  have hlastObs := congrArg LiveRegimeDetector.lastObs honly
  simp only [LiveRegimeDetector.only, hrecords.1, hrecords.2] at hdebouncers hlastObs
  have hdebouncer : recorded pair (d.answer s v).2.detector.debouncers =
      recorded pair d.detector.debouncers := by
    rw [← recorded_recordsOf, hdebouncers, recorded_recordsOf]
  have hshown : recorded pair (d.answer s v).2.detector.lastObs =
      recorded pair d.detector.lastObs := by
    rw [← recorded_recordsOf, hlastObs, recorded_recordsOf]
  unfold debouncer
  rw [hdebouncer]
  exact ⟨rfl, hshown⟩

/-- The stored observation of a pair shows what its debouncer publishes. -/
def Shows (pair : String × String) (d : ServingDetector) : Prop :=
  (d.debouncer pair).published ≠ none →
    ∃ obs, d.shown pair = some obs ∧ obs.stale = false ∧
      obs.smoothedLabel = (d.debouncer pair).published

theorem shows_fresh (pair : String × String) : Shows pair .fresh := by
  intro h
  exact absurd rfl h

/-- One visit feeds the debouncer of its pair what it reads, and shows what that publishes. -/
theorem answer_reads (hshows : d.Shows pair) :
    (d.answer s v).2.debouncer pair = (if v.pair = pair then (d.read s v).toList else []).foldl
      (fun deb u => (deb.update s.window s.highConf u.1 u.2).2) (d.debouncer pair) ∧
    (d.answer s v).2.Shows pair := by
  have hsame : (d.answer s v).2.debouncer pair = d.debouncer pair ∧
      (d.answer s v).2.shown pair = d.shown pair → (d.answer s v).2.Shows pair := by
    rintro ⟨hdebouncer, hshown⟩
    unfold Shows
    rw [hdebouncer, hshown]
    exact hshows
  by_cases hpair : v.pair = pair
  · subst hpair
    rw [if_pos rfl]
    by_cases hreached : ∃ inf, d.reached s v = .ok (some inf)
    · obtain ⟨inf, hinf⟩ := hreached
      obtain ⟨hdebouncer, hshown⟩ := answer_of_reached hinf
      have hread : d.read s v = some (inf.rawLabel, inf.rawProb) := by
        unfold read
        rw [hinf]
      rw [hread]
      exact ⟨hdebouncer, fun _ => hshown⟩
    · have hkept := answer_of_not_reached v.pair fun inf hinf => hreached ⟨inf, hinf⟩
      have hread : d.read s v = none := by
        unfold read
        split
        · next inf hinf => exact absurd ⟨inf, hinf⟩ hreached
        · rfl
      rw [hread]
      exact ⟨hkept.1, hsame hkept⟩
  · have hkept := answer_of_ne (s := s) (d := d) hpair
    rw [if_neg hpair]
    exact ⟨hkept.1, hsame hkept⟩

/-- A run of visits feeds the debouncer of a pair the readings of that pair. -/
theorem serve_reads (visits : List Visit) (hshows : d.Shows pair) :
    (serve s visits d).2.debouncer pair = (reads s pair visits d).foldl
      (fun deb u => (deb.update s.window s.highConf u.1 u.2).2) (d.debouncer pair) ∧
    (serve s visits d).2.Shows pair := by
  induction visits generalizing d with
  | nil => exact ⟨rfl, hshows⟩
  | cons v rest ih =>
      obtain ⟨hanswer, hnext⟩ := answer_reads (s := s) (v := v) hshows
      obtain ⟨hrest, hend⟩ := ih hnext
      rw [serve, reads, List.foldl_append, ← hanswer]
      exact ⟨hrest, hend⟩

/-! ### One bar -/

theorem heldAfter_of_wholeInUse {b : RegimeBundle}
    (huse : wholeInUse s readable root d = .ok (some b)) : heldAfter s readable root d = some b := by
  unfold wholeInUse at huse
  unfold heldAfter
  split_ifs at huse ⊢ with hcached
  · exact Except.ok.inj huse
  · cases hstate : withdrawal readable root with
    | error e =>
        rw [hstate] at huse
        cases huse
    | ok withdrawn =>
        rw [hstate] at huse
        cases withdrawn with
        | some _ => cases huse
        | none =>
            have hwalk : walkWhole s root = some b := Except.ok.inj huse
            simp [hwalk]

/-- While the disk stays as it is, the bundle in use stays. -/
theorem wholeInUse_answer {b : RegimeBundle} (hreadable : v.readable = readable)
    (hroot : v.root = root) (huse : wholeInUse s readable root d = .ok (some b)) :
    wholeInUse s readable root (d.answer s v).2 = .ok (some b) := by
  subst hreadable hroot
  have hloaded : (loadBundle s.regime v.readable v.root d.detector false).1 = .ok true := by
    have hload := loadBundle_bundleInUse s.regime v.readable v.root d.detector
    rw [bundleInUse_regime, huse] at hload
    exact hload.1
  have hcached : (d.answer s v).2.detector.keepsCached v.root false = true := by
    have hbundle : (d.answer s v).2.detector.bundle = _ :=
      detect_bundle s.regime v.readable v.root _ d.detector v.pair.1 v.pair.2
    have hseen : (d.answer s v).2.detector.seenSetId = _ := detect_seenSetId _ v.pair.1 v.pair.2
    rw [← keepsCached_loadBundle hloaded, keepsCached, hbundle, hseen]
    rfl
  rw [wholeInUse, if_pos hcached]
  exact congrArg Except.ok (heldAfter_of_wholeInUse huse)

/-- The inference on a bar, with the bundle in use. -/
theorem reached_of_bar {b : RegimeBundle} {entry : ModelEntry} {frame : CandleFrame}
    {inf : Inference} (huse : wholeInUse s v.readable v.root d = .ok (some b))
    (hentry : entryOf b v.pair.2 = some entry) (hbar : v.candles = .ok frame)
    (hinf : infer s.np b entry frame = .ok (some inf)) : d.reached s v = .ok (some inf) := by
  unfold reached
  rw [reaches_call, huse]
  simp only [hentry, hbar]
  exact hinf

/-- Over one bar a pair reads the same thing again and again. -/
theorem reads_bar {visits : List Visit} {b : RegimeBundle} {entry : ModelEntry}
    {frame : CandleFrame} {inf : Inference}
    (hdisk : ∀ v ∈ visits, v.readable = readable ∧ v.root = root)
    (hbar : ∀ v ∈ visits, v.pair = pair → v.candles = .ok frame)
    (huse : wholeInUse s readable root d = .ok (some b)) (hentry : entryOf b pair.2 = some entry)
    (hinf : infer s.np b entry frame = .ok (some inf)) :
    reads s pair visits d = List.replicate (visits.countP fun v => v.pair = pair)
      (inf.rawLabel, inf.rawProb) := by
  induction visits generalizing d with
  | nil => rfl
  | cons v rest ih =>
      obtain ⟨hreadable, hroot⟩ := hdisk v List.mem_cons_self
      have hrest := ih (fun v hv => hdisk v (List.mem_cons_of_mem _ hv))
        (fun v hv => hbar v (List.mem_cons_of_mem _ hv)) (wholeInUse_answer hreadable hroot huse)
      rw [reads, hrest]
      by_cases hpair : v.pair = pair
      · subst hpair
        have hreached := reached_of_bar (hreadable ▸ hroot ▸ huse) hentry
          (hbar v List.mem_cons_self rfl) hinf
        have hread : d.read s v = some (inf.rawLabel, inf.rawProb) := by
          unfold read
          rw [hreached]
        rw [if_pos rfl, hread, List.countP_cons_of_pos (by simp), List.replicate_succ]
        rfl
      · rw [if_neg hpair, List.countP_cons_of_neg (by simpa using hpair)]
        rfl

/-- The scheduler comes back as often as the window is long while the bar, the disk and so the
inference stay: then the label of this one bar is shown, whatever was shown before. -/
theorem bar_fills_window (s : InferenceSettings) (earlier later : List Visit)
    (pair : String × String) (readable : Bool) (root : ArtifactRoot) (frame : CandleFrame)
    (hdisk : ∀ v ∈ later, v.readable = readable ∧ v.root = root)
    (hbar : ∀ v ∈ later, v.pair = pair → v.candles = .ok frame) (b : RegimeBundle)
    (entry : ModelEntry) (inf : Inference)
    (huse : wholeInUse s readable root (serve s earlier .fresh).2 = .ok (some b))
    (hentry : entryOf b pair.2 = some entry) (hinf : infer s.np b entry frame = .ok (some inf))
    (hlong : max 1 s.window ≤ later.countP fun v => v.pair = pair) :
    ∃ obs, (serve s (earlier ++ later) .fresh).2.shown pair = some obs ∧ obs.stale = false ∧
      obs.smoothedLabel = some inf.rawLabel := by
  obtain ⟨hbefore, hshows⟩ := serve_reads (s := s) earlier (shows_fresh pair)
  obtain ⟨hdebouncer, hafter⟩ := serve_reads (s := s) later hshows
  have hpublished : ((serve s later (serve s earlier .fresh).2).2.debouncer pair).published =
      some inf.rawLabel := by
    rw [hdebouncer, hbefore, reads_bar hdisk hbar huse hentry hinf, ← List.foldl_append]
    exact OnlineDebouncer.published_of_replicate s.window s.highConf _ (inf.rawLabel, inf.rawProb)
      (by omega) (by omega)
  rw [serve_append]
  obtain ⟨obs, hobs, hfresh, hlabel⟩ := hafter (by rw [hpublished]; simp)
  exact ⟨obs, hobs, hfresh, hlabel.trans hpublished⟩

/-! ### Three looks at one bar -/

/-- A model of two states: the feature is the posterior of the first. -/
def twoStates (x : Array2) : Array2 where
  cols := 2
  rows := x.rows.map fun row (j : Fin 2) =>
    if h : 0 < x.cols then
      if j = 0 then row ⟨0, h⟩ else (Binary64.ofRat 1).sub (row ⟨0, h⟩)
    else .zero

def twoStateEntry : ModelEntry where
  scaler := some .ok
  weights := none
  model := some (.posterior fun x => .ok (twoStates x))
  mapping := some [(.int 0, "Trending-Up"), (.int 1, "Ranging")]

def twoStateBundle : RegimeBundle := { hourlyBundle with models := some [("H1", twoStateEntry)] }

def twoStateInference : InferenceSettings :=
  ⟨3, .ofRat (9 / 10), fun _ => .ok twoStateBundle, plainNumerics⟩

/-- Two bars, the second with the given close. -/
def barsTo (close : ℤ) : CandleFrame :=
  frameOfRows ([(0, (4 : ℤ)), (1, close)].map fun e => (e.1,
    ⟨.int e.1, .ofRat e.2, .ofRat e.2, .ofRat e.2, .ofRat e.2, .zero⟩))

/-- A look at the hourly bars of an instrument, on a disk that stays. -/
def hourlyVisit (instrument : String) (candles : Except Exc CandleFrame) : Visit :=
  ⟨(instrument, "H1"), true, hourlyRoot, candles⟩

/-- Three looks at the last bar, with another pair in between that cannot be fetched. -/
def threeLooks : List Visit :=
  [hourlyVisit "EUR_USD" (.ok (barsTo 1)), hourlyVisit "GBP_USD" (.error (osError "ConnectionError")),
    hourlyVisit "EUR_USD" (.ok (barsTo 1)), hourlyVisit "EUR_USD" (.ok (barsTo 1))]

/-- The bar before was read as trending, and one bar of the H1 series later the label is turned
over within three sweeps. -/
theorem bar_fills_window_three : ∃ obs, (serve twoStateInference
    ([hourlyVisit "EUR_USD" (.ok (barsTo 3))] ++ threeLooks) .fresh).2.shown ("EUR_USD", "H1") =
      some obs ∧ obs.stale = false ∧ obs.smoothedLabel = some "Ranging" := by
  have hlabel : ((infer plainNumerics twoStateBundle twoStateEntry (barsTo 1)).toOption.join.map
      Inference.rawLabel) = some "Ranging" := by decide +kernel
  obtain ⟨inf, hjoin, hranging⟩ := Option.map_eq_some_iff.mp hlabel
  have hinf : infer plainNumerics twoStateBundle twoStateEntry (barsTo 1) = .ok (some inf) := by
    cases hr : infer plainNumerics twoStateBundle twoStateEntry (barsTo 1) with
    | error e =>
        rw [hr] at hjoin
        cases hjoin
    | ok found =>
        rw [hr] at hjoin
        exact congrArg Except.ok hjoin
  rw [← hranging]
  exact bar_fills_window twoStateInference [hourlyVisit "EUR_USD" (.ok (barsTo 3))] threeLooks
    ("EUR_USD", "H1") true hourlyRoot (barsTo 1) (by simp [threeLooks, hourlyVisit])
    (by simp [threeLooks, hourlyVisit]) twoStateBundle twoStateEntry inf
    (wholeInUse_answer rfl rfl rfl) rfl hinf (by decide)

end ServingDetector

end System2
