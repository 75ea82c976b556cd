import System2.ArtifactSync.RegimeInference

/-!
# Detections that return an observation (`artifact_sync/live_regime.py`)

Between the candles and the observation nothing is guarded, and neither is the look at
the recorded state. A detection returns an observation exactly when none of its own
look-ups and conversions fails: the columns of the frame, the weights of the bundle,
the scaler and the model, the labels of the states.

## Implementation notes

The condition is about what a detection meets: the frame, the bundle and the two
functions in it. The acceptance of a bundle at its load says that its features are
among the computed columns, so no look-up of a feature is part of the condition.
-/

namespace System2
open Foundation

/-! ### The features -/

section Series
variable {n : ℕ} {np : Numerics} {frame : Frame n PyVal}

/-- A frame has a column of numbers under a name, with NaN in the place of null. -/
def ReadsColumn (frame : Frame n PyVal) (name : String) (col : Column n Binary64) : Prop :=
  ∃ cells, frame.get? name = some cells ∧ ∀ i, asFloat64 (cells i) = .ok (col i)

theorem floatColumn_eq_ok_iff {name : String} {col : Column n Binary64} :
    floatColumn frame name = .ok col ↔ ReadsColumn frame name col := by
  unfold floatColumn columnAt ReadsColumn
  cases frame.get? name with
  | none => simp [orErr]
  | some cells => simp [orErr, Column.traverse_eq_ok_iff]

/-- The cells under a name are floats. -/
def HasFloats (frame : Frame n PyVal) (name : String) : Prop :=
  ∃ floats : Column n Binary64, frame.get? name = some fun i => .float (floats i)

theorem hasFloats_setColumn {name other : String} {col : Column n Binary64} :
    HasFloats (setColumn frame name col) other ↔ other = name ∨ HasFloats frame other := by
  unfold HasFloats setColumn
  by_cases hother : other = name
  · subst hother
    rw [OrderedDict.get?_put_self]
    exact iff_of_true ⟨col, rfl⟩ (.inl rfl)
  · rw [OrderedDict.get?_put_of_ne hother]
    simp [hother]

/-- Every feature that a bundle may want is a column of floats. -/
theorem hasFloats_withFeatures {directionFeature name : String}
    (close high low trend : Column n Binary64)
    (hname : name ∈ producedFeatureNames directionFeature) :
    HasFloats (withFeatures np frame directionFeature close high low trend) name := by
  simp only [producedFeatureNames, List.mem_cons, List.not_mem_nil, or_false] at hname
  simp only [withFeatures, hasFloats_setColumn]
  tauto

end Series

theorem exists_names_of_usable {b : RegimeBundle} (h : b.contract.usable = true) :
    ∃ names, b.featureNames = some names := by
  cases hnames : b.featureNames with
  | none => simp [Bundle.usable, RegimeBundle.contract, hnames] at h
  | some names => exact ⟨names, rfl⟩

/-- The candles and the settings of a bundle that its features are computed from. -/
structure Features (np : Numerics) (b : RegimeBundle) (candles : CandleFrame) where
  close : Column candles.rows Binary64
  high : Column candles.rows Binary64
  low : Column candles.rows Binary64
  trendWindow : ℤ
  trend : Column candles.rows Binary64
  readsClose : ReadsColumn candles.frame "close" close
  readsHigh : ReadsColumn candles.frame "high" high
  readsLow : ReadsColumn candles.frame "low" low
  readsWindow : b.trendWindow.toInt = .ok trendWindow
  moves : np.rollingMean trendWindow (returnsOf np close) = .ok trend

namespace Features
variable {np : Numerics} {b : RegimeBundle} {candles : CandleFrame}

/-- The frame with the features. -/
def frame (f : Features np b candles) : Frame candles.rows PyVal :=
  withFeatures np candles.frame b.directionFeature f.close f.high f.low f.trend

/-- The columns that a bundle wants, in its order. -/
def wanted (f : Features np b candles) : List (Column candles.rows PyVal) :=
  (b.featureNames.getD []).filterMap f.frame.get?

/-- The rows on which every wanted feature has a value. -/
def complete (f : Features np b candles) : List (Fin candles.rows) := completeRows f.wanted

/-- The value of a cell of floats. -/
def cellValue : PyVal → Binary64
  | .float x => x
  | _ => .nan

/-- The wanted features of the complete rows. -/
def matrix (f : Features np b candles) : Array2 where
  cols := f.wanted.length
  rows := f.complete.map fun i j => cellValue (f.wanted.get j i)

/-- The time of a row, for the observation. -/
def timeOf (f : Features np b candles) (i : Fin candles.rows) : Except Exc String :=
  (f.frame.get? "bar_time_utc").elim (.ok "") fun col => np.datetimeText (col i)

theorem computeRegimeFeatures_eq (f : Features np b candles) :
    computeRegimeFeatures np candles.frame b.directionFeature f.trendWindow = .ok f.frame := by
  simp only [computeRegimeFeatures, bind_eq_ok_iff, Exc.lift_eq_ok_iff, floatColumn_eq_ok_iff]
  exact ⟨f.close, f.readsClose, f.high, f.readsHigh, f.low, f.readsLow, f.trend, f.moves, rfl⟩

/-- Features that were computed are computed from what the frame and the bundle say. -/
theorem of_computeRegimeFeatures {window : ℤ} {feats : Frame candles.rows PyVal}
    (hwindow : b.trendWindow.toInt = .ok window)
    (h : computeRegimeFeatures np candles.frame b.directionFeature window = .ok feats) :
    ∃ f : Features np b candles, f.frame = feats := by
  simp only [computeRegimeFeatures, bind_eq_ok_iff, Exc.lift_eq_ok_iff,
    floatColumn_eq_ok_iff] at h
  obtain ⟨close, hclose, high, hhigh, low, hlow, trend, htrend, h⟩ := h
  exact ⟨⟨close, high, low, window, trend, hclose, hhigh, hlow, hwindow, htrend⟩, Except.ok.inj h⟩

/-- The features that an accepted bundle wants are columns of floats. -/
theorem hasFloats_of_usable (f : Features np b candles) {names : List String}
    (hnames : b.featureNames = some names) (husable : b.contract.usable = true) :
    ∀ name ∈ names, HasFloats f.frame name := by
  intro name hname
  have hall : names.all (producedFeatureNames b.directionFeature).contains = true := by
    simp only [Bundle.usable, RegimeBundle.contract, hnames, Bool.and_eq_true, Option.any_some]
      at husable
    exact husable.2
  exact hasFloats_withFeatures _ _ _ _ (by simpa using List.all_eq_true.mp hall name hname)

theorem wanted_eq_map (f : Features np b candles) {names : List String}
    (hnames : b.featureNames = some names) (hfloats : ∀ name ∈ names, HasFloats f.frame name) :
    names.mapM (columnAt f.frame) = .ok f.wanted ∧
      ∀ col ∈ f.wanted, ∃ floats : Column candles.rows Binary64,
        col = fun i => .float (floats i) := by
  have hwanted : f.wanted = names.map fun name => (f.frame.get? name).getD fun _ => .null := by
    rw [wanted, hnames, Option.getD_some]
    clear hnames
    induction names with
    | nil => rfl
    | cons name rest ih =>
        obtain ⟨floats, hname⟩ := hfloats name (by simp)
        rw [List.filterMap_cons_some hname, List.map_cons, hname, Option.getD_some,
          ih fun other hother => hfloats other (by simp [hother])]
  constructor
  · rw [hwanted]
    refine mapM_eq_ok_map fun name hname => ?_
    obtain ⟨floats, hget⟩ := hfloats name hname
    rw [columnAt, hget]
    rfl
  · intro col hcol
    rw [hwanted] at hcol
    obtain ⟨name, hname, rfl⟩ := List.mem_map.mp hcol
    obtain ⟨floats, hget⟩ := hfloats name hname
    exact ⟨floats, by rw [hget, Option.getD_some]⟩

/-- What the features come to, in a bundle that was accepted. -/
theorem featureMatrix_eq (f : Features np b candles) (husable : b.contract.usable = true) :
    featureMatrix np b candles = match f.complete.getLast? with
      | none => .ok none
      | some last => (f.timeOf last).map fun asOf => some (f.matrix, asOf) := by
  obtain ⟨names, hnames⟩ := exists_names_of_usable husable
  obtain ⟨hwanted, hcells⟩ := f.wanted_eq_map hnames (f.hasFloats_of_usable hnames husable)
  have hrows : (completeRows f.wanted).mapM (fun i =>
      Column.traverse fun j : Fin f.wanted.length => asFloat64 (f.wanted.get j i)) =
        .ok f.matrix.rows := by
    refine mapM_eq_ok_map fun i _ => Column.traverse_eq_ok_iff.mpr fun j => ?_
    obtain ⟨floats, hcol⟩ := hcells _ (f.wanted.get_mem j)
    rw [hcol]
    rfl
  simp only [featureMatrix, hnames, orErr, Exc.lift_ok, f.readsWindow, f.computeRegimeFeatures_eq,
    hwanted, hrows, bind, Except.bind, complete]
  cases (completeRows f.wanted).getLast? with
  | none => rfl
  | some last =>
      dsimp only
      rw [← timeOf]
      cases f.timeOf last with
      | error e => rfl
      | ok text => rfl

/-- A bundle that was accepted comes to features exactly where a matrix is built. -/
theorem nonempty_of_featureMatrix {r : Option (Array2 × String)}
    (h : featureMatrix np b candles = .ok r) : Nonempty (Features np b candles) := by
  simp only [featureMatrix, bind_eq_ok_iff, Exc.lift_eq_ok_iff] at h
  obtain ⟨_, -, window, hwindow, feats, hfeats, -⟩ := h
  obtain ⟨f, -⟩ := of_computeRegimeFeatures hwindow hfeats
  exact ⟨f⟩

end Features

/-! ### The weights, the scores and the labels -/

/-- The weights of a bundle. Named weights have a number for each feature, and positional ones
beside them agree; positional weights alone are as many as there are features, with NaN in the
place of null. -/
def ReadsWeights (b : RegimeBundle) (entry : ModelEntry) (names : List String)
    (w : List Binary64) : Prop :=
  match b.featureWeights with
  | some named =>
      List.Forall₂ (fun name x => ∃ v, named.get? name = some v ∧ v.toFloat = .ok x) names w ∧
        ∀ positional ∈ entry.weights,
          List.Forall₂ (fun v x => ∃ y, asFloat64 v = .ok y ∧ y.eq x = true) positional w
  | none => ∃ positional ∈ entry.weights, positional.length = names.length ∧
      List.Forall₂ (fun v x => asFloat64 v = .ok x) positional w

/-- Positional weights that pass the comparison with the named ones. -/
theorem positional_agrees_iff {positional : List PyVal} {w : List Binary64} :
    (∃ pos, positional.mapM asFloat64 = .ok pos ∧
      ¬ (pos.length ≠ w.length ∨ (!(pos.zip w).all fun p => p.1.eq p.2) = true)) ↔
      List.Forall₂ (fun v x => ∃ y, asFloat64 v = .ok y ∧ y.eq x = true) positional w := by
  rw [forall₂_comp_iff]
  refine exists_congr fun pos => and_congr mapM_eq_ok_iff ?_
  rw [List.forall₂_iff_zip]
  simp only [ne_eq, not_or, not_not, Bool.not_eq_true', Bool.not_eq_false, List.all_eq_true,
    Prod.forall]

/-- Named weights: every feature has an entry, and the entries are numbers. -/
theorem named_reads_iff {named : Dict} {names : List String} {w : List Binary64} :
    (names.filter fun name => (named.get? name).isNone).isEmpty = true ∧
      names.mapM (fun name => (named.get name).toFloat) = .ok w ↔
      List.Forall₂ (fun name x => ∃ v, named.get? name = some v ∧ v.toFloat = .ok x) names w := by
  rw [mapM_eq_ok_iff, List.isEmpty_iff, List.filter_eq_nil_iff]
  rw [← List.forall₂_and_left]
  refine ⟨fun h => h.imp ?_, fun h => h.imp ?_⟩
  · rintro name x ⟨hpresent, hx⟩
    obtain ⟨v, hv⟩ := Option.ne_none_iff_exists'.mp (by simpa using hpresent)
    rw [Dict.get, hv, Option.getD_some] at hx
    exact ⟨v, hv, hx⟩
  · rintro name x ⟨v, hv, hx⟩
    rw [Dict.get, hv, Option.getD_some]
    exact ⟨by simp, hx⟩

theorem weightsFor_eq_ok_iff {b : RegimeBundle} {entry : ModelEntry} {names : List String}
    {w : List Binary64} (hnames : b.featureNames = some names) :
    weightsFor b entry = .ok w ↔ ReadsWeights b entry names w := by
  unfold weightsFor ReadsWeights
  simp only [hnames, orErr, Exc.lift_ok]
  cases b.featureWeights with
  | some named =>
      rw [bind_eq_ok_iff]
      simp only [Except.ok.injEq, exists_eq_left', check_eq_ok_iff, bind_eq_ok_iff,
        Exc.lift_eq_ok_iff, Bool.not_eq_true', Bool.not_eq_false]
      rw [← named_reads_iff, and_assoc]
      refine and_congr_right fun _ => ?_
      cases entry.weights with
      | none => simp [pure, Except.pure]
      | some positional =>
          simp only [Option.mem_some_iff, forall_eq', ← positional_agrees_iff]
          constructor
          · rintro ⟨_, hnamed, h⟩
            simp only [bind_eq_ok_iff, Exc.lift_eq_ok_iff, check_eq_ok_iff] at h
            obtain ⟨pos, hpos, hagrees, hw⟩ := h
            obtain rfl := Except.ok.inj hw
            exact ⟨hnamed, pos, hpos, by simpa using hagrees⟩
          · rintro ⟨hnamed, pos, hpos, hagrees⟩
            refine ⟨w, hnamed, ?_⟩
            simp only [bind_eq_ok_iff, Exc.lift_eq_ok_iff, check_eq_ok_iff]
            exact ⟨pos, hpos, by simpa using hagrees, rfl⟩
  | none =>
      rw [bind_eq_ok_iff]
      simp only [Except.ok.injEq, exists_eq_left']
      cases entry.weights with
      | none => simp
      | some positional =>
          simp only [bind_eq_ok_iff, check_eq_ok_iff, Exc.lift_eq_ok_iff, Option.mem_some_iff,
            exists_eq_left', ← mapM_eq_ok_iff, not_not]
          constructor
          · rintro ⟨_, hpos, hlength, hw⟩
            obtain rfl := Except.ok.inj hw
            exact ⟨(mapM_eq_ok_iff.mp hpos).length_eq.trans hlength, hpos⟩
          · rintro ⟨hlength, hpos⟩
            exact ⟨w, hpos, (mapM_eq_ok_iff.mp hpos).length_eq.symm.trans hlength, rfl⟩

/-- The scores that a model gives for the last bar of an array. -/
def Scores (entry : ModelEntry) (x : Array2) (probs : List Binary64) : RegimeModel → Prop
  | .posterior predictProba =>
      ∃ m last, predictProba x = .ok m ∧ m.rows.getLast? = some last ∧ probs = List.ofFn last
  | .clusters predict nClusters => ∃ states state mapping,
      predict ⟨x.cols, x.rows.getLast?.toList⟩ = .ok states ∧ states.head? = some state ∧
        entry.mapping = some mapping ∧ oneHot (nClusters.getD mapping.length) state = .ok probs

theorem scoresOf_eq_ok_iff {entry : ModelEntry} {x : Array2} {probs : List Binary64}
    {model : RegimeModel} : scoresOf entry x model = .ok probs ↔ Scores entry x probs model := by
  cases model with
  | posterior predictProba =>
      simp only [scoresOf, Scores, bind_eq_ok_iff, Exc.lift_eq_ok_iff, orErr_eq_ok_iff, pure,
        Except.pure, Except.ok.injEq, eq_comm (a := List.ofFn _), exists_and_left]
  | clusters predict nClusters =>
      simp only [scoresOf, Scores, bind_eq_ok_iff, Exc.lift_eq_ok_iff, orErr_eq_ok_iff,
        exists_and_left]

/-- A scaler and a model take a matrix to scores of its last bar: both are there and accept what
they are given, and the weights fit the scaled matrix. -/
def Predicts (b : RegimeBundle) (entry : ModelEntry) (names : List String) (mat : Array2)
    (probs : List Binary64) : Prop :=
  ∃ scaler w scaled x model, entry.scaler = some scaler ∧ ReadsWeights b entry names w ∧
    scaler mat = .ok scaled ∧ scaleColumns scaled w = .ok x ∧ entry.model = some model ∧
      Scores entry x probs model

theorem predictProbs_eq_ok_iff {b : RegimeBundle} {entry : ModelEntry} {names : List String}
    {mat : Array2} {probs : List Binary64} (hnames : b.featureNames = some names) :
    predictProbs b entry mat = .ok probs ↔ Predicts b entry names mat probs := by
  simp only [predictProbs, Predicts, bind_eq_ok_iff, Exc.lift_eq_ok_iff, orErr_eq_ok_iff,
    weightsFor_eq_ok_iff hnames, scoresOf_eq_ok_iff, exists_and_left]

/-- Every state of a mapping is an index of the scores, and the likeliest state is one of them. -/
def ReadsLabels (entry : ModelEntry) (probs : List Binary64) : Prop :=
  ∃ mapping, entry.mapping = some mapping ∧
    (∀ e ∈ mapping, ∃ state : ℕ, e.1.toInt = .ok (state : ℤ) ∧ state < probs.length) ∧
    ∃ rawState, argmax probs = .ok rawState ∧ ∃ e ∈ mapping, e.1.toInt = .ok (rawState : ℤ)

/-- The dictionary of the states has the states of the mapping. -/
theorem stateLabels_eq_ok_iff {mapping : List (PyVal × String)} {d : OrderedDict ℤ String} :
    stateLabels mapping = .ok d ↔ ∃ pairs : List (ℤ × String),
      List.Forall₂ (fun e p => e.1.toInt = .ok p.1 ∧ e.2 = p.2) mapping pairs ∧
        OrderedDict.ofPairs pairs = d := by
  have hentry : ∀ (e : PyVal × String) (p : ℤ × String),
      (e.1.toInt.map fun state => (state, e.2)) = .ok p ↔ e.1.toInt = .ok p.1 ∧ e.2 = p.2 := by
    intro e p
    cases e.1.toInt with
    | error err => simp [Except.map]
    | ok state => simp [Except.map, Prod.ext_iff]
  have hmap : ∀ r : Except PyErr (List (ℤ × String)), r.map OrderedDict.ofPairs = .ok d ↔
      ∃ pairs, r = .ok pairs ∧ OrderedDict.ofPairs pairs = d := by
    intro r
    cases r with
    | error e => simp [Except.map]
    | ok pairs => simp [Except.map]
  rw [stateLabels, hmap]
  simp only [mapM_eq_ok_iff, hentry]

theorem mem_keys_stateLabels {mapping : List (PyVal × String)} {pairs : List (ℤ × String)}
    (h : List.Forall₂ (fun e p => e.1.toInt = .ok p.1 ∧ e.2 = p.2) mapping pairs) {state : ℤ} :
    state ∈ (OrderedDict.ofPairs pairs).map Prod.fst ↔ ∃ e ∈ mapping, e.1.toInt = .ok state := by
  rw [OrderedDict.mem_keys_ofPairs]
  induction h with
  | nil => simp
  | cons hhead _ ih =>
      rw [List.map_cons, List.mem_cons, ih, List.exists_mem_cons_iff, hhead.1, Except.ok.injEq,
        eq_comm]

theorem orderProbabilities_isOk_iff {np : Numerics} {probs : List Binary64}
    {mapping : OrderedDict ℤ String} :
    (∃ ordered, orderProbabilities np probs mapping = .ok ordered) ↔
      ∀ state ∈ mapping.map Prod.fst, 0 ≤ state ∧ state < probs.length := by
  unfold orderProbabilities
  simp only [check_eq_ok_iff, exists_and_left, Except.ok.injEq, exists_eq', and_true,
    Bool.not_eq_true', Bool.not_eq_false, List.isEmpty_iff, List.filter_eq_nil_iff,
    decide_eq_true_eq, not_or, not_lt, not_le]

theorem readScores_isOk_iff {np : Numerics} {entry : ModelEntry} {probs : List Binary64}
    {asOf : String} :
    (∃ inf, readScores np entry probs asOf = .ok inf) ↔ ReadsLabels entry probs := by
  simp only [readScores, bind_eq_ok_iff, Exc.lift_eq_ok_iff, orErr_eq_ok_iff,
    stateLabels_eq_ok_iff]
  constructor
  · rintro ⟨_, mapping, hmapping, d, ⟨pairs, hpairs, rfl⟩, rawState, hraw, label, hlabel, ordered,
      hordered, -⟩
    have hkeys := orderProbabilities_isOk_iff.mp ⟨ordered, hordered⟩
    refine ⟨mapping, hmapping, fun e he => ?_, rawState, hraw, ?_⟩
    · obtain ⟨p, hread, -⟩ := exists_forall₂_iff.mp ⟨pairs, hpairs⟩ e he
      have hmem := (mem_keys_stateLabels hpairs).mpr ⟨e, he, hread⟩
      obtain ⟨hnonneg, hlt⟩ := hkeys p.1 hmem
      obtain ⟨state, hstate⟩ := Int.eq_ofNat_of_zero_le hnonneg
      rw [hstate] at hread hlt
      exact ⟨state, hread, Int.ofNat_lt.mp hlt⟩
    · exact (mem_keys_stateLabels hpairs).mp
        (OrderedDict.isSome_get?.mp (by rw [hlabel]; rfl))
  · rintro ⟨mapping, hmapping, hstates, rawState, hraw, hlabelled⟩
    obtain ⟨pairs, hpairs⟩ : ∃ pairs : List (ℤ × String),
        List.Forall₂ (fun e p => e.1.toInt = .ok p.1 ∧ e.2 = p.2) mapping pairs := by
      refine exists_forall₂_iff.mpr fun e he => ?_
      obtain ⟨state, hread, -⟩ := hstates e he
      exact ⟨(state, e.2), hread, rfl⟩
    have hmem := (mem_keys_stateLabels hpairs).mpr hlabelled
    obtain ⟨label, hlabel⟩ := Option.isSome_iff_exists.mp (OrderedDict.isSome_get?.mpr hmem)
    obtain ⟨ordered, hordered⟩ : ∃ ordered,
        orderProbabilities np probs (OrderedDict.ofPairs pairs) = .ok ordered := by
      refine orderProbabilities_isOk_iff.mpr fun state hstate => ?_
      obtain ⟨e, he, hread⟩ := (mem_keys_stateLabels hpairs).mp hstate
      obtain ⟨k, hk, hlt⟩ := hstates e he
      obtain rfl := Except.ok.inj (hk.symm.trans hread)
      exact ⟨by omega, by omega⟩
    exact ⟨_, mapping, hmapping, _, ⟨pairs, hpairs, rfl⟩, rawState, hraw, label, hlabel, ordered,
      hordered, rfl⟩

/-! ### What a detection meets -/

/-- An inference comes to an end on what it meets. The frame has its columns of numbers and the
trend has its window. Where a row is complete, its time and the weights, the scores and the
labels of the last one can be read. -/
def Infers (np : Numerics) (b : RegimeBundle) (entry : ModelEntry) (candles : CandleFrame) : Prop :=
  ∃ f : Features np b candles, ∀ last, f.complete.getLast? = some last →
    (∃ time, f.timeOf last = .ok time) ∧
      ∃ probs, Predicts b entry (b.featureNames.getD []) f.matrix probs ∧ ReadsLabels entry probs

/-- The history suffices for a regime. -/
def HasHistory (np : Numerics) (b : RegimeBundle) (candles : CandleFrame) : Prop :=
  ∃ f : Features np b candles, f.complete ≠ []

/-- An inference on features of an accepted bundle. -/
theorem infer_of_features {np : Numerics} {b : RegimeBundle} {candles : CandleFrame}
    (f : Features np b candles) (husable : b.contract.usable = true) (entry : ModelEntry) :
    infer np b entry candles = match f.complete.getLast? with
      | none => .ok none
      | some last => do
          let asOf ← f.timeOf last
          let probs ← predictProbs b entry f.matrix
          let inf ← readScores np entry probs asOf
          return some inf := by
  rw [infer, f.featureMatrix_eq husable]
  cases f.complete.getLast? with
  | none => rfl
  | some last =>
      dsimp only
      cases f.timeOf last with
      | error e => rfl
      | ok time => rfl

/-- An inference of an accepted bundle comes to an end exactly so. -/
theorem infer_isOk_iff {np : Numerics} {b : RegimeBundle} {entry : ModelEntry}
    {candles : CandleFrame} (husable : b.contract.usable = true) :
    (∃ r, infer np b entry candles = .ok r) ↔ Infers np b entry candles := by
  obtain ⟨names, hnames⟩ := exists_names_of_usable husable
  have hlast : ∀ f : Features np b candles, (∃ r, infer np b entry candles = .ok r) ↔
      ∀ last, f.complete.getLast? = some last → (∃ time, f.timeOf last = .ok time) ∧
        ∃ probs, Predicts b entry names f.matrix probs ∧ ReadsLabels entry probs := by
    intro f
    rw [infer_of_features f husable]
    cases f.complete.getLast? with
    | none => simp
    | some last =>
        simp only [Option.some.injEq, forall_eq', bind_eq_ok_iff, predictProbs_eq_ok_iff hnames,
          pure, Except.pure]
        constructor
        · rintro ⟨_, time, htime, probs, hprobs, inf, hinf, -⟩
          exact ⟨⟨time, htime⟩, probs, hprobs, readScores_isOk_iff.mp ⟨inf, hinf⟩⟩
        · rintro ⟨⟨time, htime⟩, probs, hprobs, hlabels⟩
          obtain ⟨inf, hinf⟩ := readScores_isOk_iff.mpr hlabels
          exact ⟨_, time, htime, probs, hprobs, inf, hinf, rfl⟩
  unfold Infers
  rw [hnames, Option.getD_some]
  constructor
  · rintro ⟨r, hr⟩
    obtain ⟨matrix, hmatrix, -⟩ := bind_eq_ok_iff.mp hr
    obtain ⟨f⟩ := Features.nonempty_of_featureMatrix hmatrix
    exact ⟨f, (hlast f).mp ⟨r, hr⟩⟩
  · rintro ⟨f, h⟩
    exact (hlast f).mpr h

/-- An inference that comes to an end has a regime exactly when the history suffices. -/
theorem isSome_of_infer {np : Numerics} {b : RegimeBundle} {entry : ModelEntry}
    {candles : CandleFrame} (husable : b.contract.usable = true) {r : Option Inference}
    (h : infer np b entry candles = .ok r) : r.isSome = true ↔ HasHistory np b candles := by
  have hcomplete : ∀ f : Features np b candles, r.isSome = true ↔ f.complete ≠ [] := by
    intro f
    rw [infer_of_features f husable] at h
    rw [Ne, ← List.getLast?_eq_none_iff]
    cases hlast : f.complete.getLast? with
    | none =>
        rw [hlast] at h
        obtain rfl := Except.ok.inj h
        simp
    | some last =>
        rw [hlast] at h
        simp only [bind_eq_ok_iff, pure, Except.pure] at h
        obtain ⟨_, -, _, -, inf, -, h⟩ := h
        obtain rfl := Except.ok.inj h
        simp
  constructor
  · intro hsome
    obtain ⟨matrix, hmatrix, -⟩ := bind_eq_ok_iff.mp h
    obtain ⟨f⟩ := Features.nonempty_of_featureMatrix hmatrix
    exact ⟨f, (hcomplete f).mp hsome⟩
  · rintro ⟨f, hf⟩
    exact (hcomplete f).mpr hf

namespace ServingDetector
open LiveRegimeDetector

variable {s : InferenceSettings} {readable : Bool} {root : ArtifactRoot}
  {candles : Except Exc CandleFrame} {d : ServingDetector} {instrument granularity : String}

/-- The entry of a granularity in a bundle. -/
def entryOf (b : RegimeBundle) (granularity : String) : Option ModelEntry :=
  b.models.bind fun models => models.get? granularity

theorem usable_of_wholeInUse {b : RegimeBundle} (h : wholeInUse s readable root d = .ok (some b)) :
    b.contract.usable = true := by
  unfold wholeInUse at h
  split_ifs at h
  · exact d.accepted b (Except.ok.inj h)
  · cases hstate : withdrawal readable root with
    | error e => rw [hstate] at h; cases h
    | ok withdrawn =>
        rw [hstate] at h
        cases withdrawn with
        | some _ => cases h
        | none => exact usable_of_walkWhole (Except.ok.inj h)

/-- The bundle of a load is the contract of the whole one. -/
theorem bundleInUse_regime (s : InferenceSettings) (readable : Bool) (root : ArtifactRoot)
    (d : ServingDetector) : bundleInUse s.regime readable root d.detector =
      (wholeInUse s readable root d).map (Option.map RegimeBundle.contract) := by
  unfold bundleInUse wholeInUse
  split_ifs
  · rw [d.same]
    rfl
  · cases withdrawal readable root with
    | error e => rfl
    | ok withdrawn =>
        cases withdrawn with
        | some _ => rfl
        | none => exact congrArg Except.ok (walk_regime s root)

/-- The recorded state, where it can be read, is UTF-8, and if it decodes it is an object. -/
def SoundState (readable : Bool) (root : ArtifactRoot) : Prop :=
  readable = true → root.state ≠ some .garbled ∧
    ∀ state, root.state = some (.text (some state)) → ∃ entries, state = .dict entries

/-- The look at the recorded state fails on bytes that are no UTF-8, and on what is no object. -/
theorem withdrawal_isOk_iff :
    (∃ w, withdrawal readable root = .ok w) ↔ SoundState readable root := by
  unfold withdrawal SoundState
  split
  · next hstate => simp [hstate]
  · next state hstate =>
      rw [hstate]
      simp only [forall_const, ne_eq, Option.some.injEq, reduceCtorEq, not_false_eq_true, true_and,
        StateText.text.injEq, forall_eq']
      cases state with
      | dict entries => exact iff_of_true ⟨_, rfl⟩ ⟨entries, rfl⟩
      | _ => exact iff_of_false (by rintro ⟨_, h⟩; cases h) (by rintro ⟨_, h⟩; cases h)
  · next hgarbled hnot =>
      refine iff_of_true ⟨none, rfl⟩ fun hreadable => ?_
      exact ⟨fun h => hgarbled hreadable h, fun state h => (hnot state hreadable h).elim⟩

/-- The call of a detection, with what it meets. -/
def call (s : InferenceSettings) (readable : Bool) (root : ArtifactRoot)
    (candles : Except Exc CandleFrame) (d : ServingDetector) (instrument granularity : String) :
    Detection :=
  ⟨readable, root, d.market s readable root candles granularity, instrument, granularity⟩

/-- What a detection reaches: the inference, with a bundle, with an entry and with candles. -/
theorem reaches_call : (call s readable root candles d instrument granularity).reaches s.regime
    d.detector = match wholeInUse s readable root d with
      | .error e => .error e
      | .ok none => .ok none
      | .ok (some b) =>
          match entryOf b granularity, candles with
          | some entry, .ok frame => infer s.np b entry frame
          | _, _ => .ok none := by
  unfold Detection.reaches call
  rw [bundleInUse_regime]
  cases huse : wholeInUse s readable root d with
  | error e => rfl
  | ok found =>
      cases found with
      | none => rfl
      | some b =>
          have hmarket : (d.market s readable root candles granularity).inference =
              (match candles with
              | .error _ => .ok none
              | .ok frame => do
                  let models ← Exc.lift (orErr .keyError b.models)
                  let entry ← Exc.lift (orErr .keyError (models.get? granularity))
                  infer s.np b entry frame) := by
            rw [market, huse]
            cases candles with
            | error e => rfl
            | ok frame => rfl
          simp only [Except.map, Option.map_some, hmarket]
          unfold entryOf RegimeBundle.contract
          cases b.models with
          | none => rfl
          | some models =>
              have hentry : (models.map Prod.fst).contains granularity =
                  (models.get? granularity).isSome := by
                rw [Bool.eq_iff_iff, List.contains_iff_mem, OrderedDict.isSome_get?]
              simp only [Option.map_some, Option.any_some, hentry, Option.bind_some, orErr,
                Exc.lift_ok, bind, Except.bind]
              cases models.get? granularity with
              | none => rfl
              | some entry =>
                  cases candles with
                  | error e => rfl
                  | ok frame => rfl

/-- The regime of a pair can be computed: there is a bundle with an entry for the granularity,
candles, and history enough. -/
def Computes (s : InferenceSettings) (readable : Bool) (root : ArtifactRoot)
    (candles : Except Exc CandleFrame) (d : ServingDetector) (granularity : String) : Prop :=
  ∃ b entry frame, wholeInUse s readable root d = .ok (some b) ∧
    entryOf b granularity = some entry ∧ candles = .ok frame ∧ HasHistory s.np b frame

/-- A detection answers: it returns an observation, stale unless the regime can be computed. -/
def Answers (s : InferenceSettings) (readable : Bool) (root : ArtifactRoot)
    (candles : Except Exc CandleFrame) (d : ServingDetector) (instrument granularity : String) :
    Prop :=
  ∃ obs, (d.detect s readable root candles instrument granularity).1 = .ok obs ∧
    (obs.stale = true ↔ ¬ Computes s readable root candles d granularity)

/-- What a detection needs of what it meets, where nothing is guarded. -/
structure Meets (s : InferenceSettings) (readable : Bool) (root : ArtifactRoot)
    (candles : Except Exc CandleFrame) (d : ServingDetector) (granularity : String) : Prop where
  state : d.detector.keepsCached root false = true ∨ SoundState readable root
  inference : ∀ b entry frame, wholeInUse s readable root d = .ok (some b) →
    entryOf b granularity = some entry → candles = .ok frame → Infers s.np b entry frame

/-- A load has a bundle, or finds out that there is none, unless the look at the state fails. -/
theorem wholeInUse_isOk_iff : (∃ found, wholeInUse s readable root d = .ok found) ↔
    d.detector.keepsCached root false = true ∨ SoundState readable root := by
  rw [← withdrawal_isOk_iff]
  unfold wholeInUse
  split_ifs with hcached
  · simp [hcached]
  · cases withdrawal readable root with
    | error e => simp [hcached, Except.map]
    | ok withdrawn => simp [hcached, Except.map]

theorem reaches_isOk_iff (s : InferenceSettings) (readable : Bool) (root : ArtifactRoot)
    (candles : Except Exc CandleFrame) (d : ServingDetector) (instrument granularity : String) :
    (∃ r, (call s readable root candles d instrument granularity).reaches s.regime d.detector =
      .ok r) ↔ Meets s readable root candles d granularity := by
  have hmeets : Meets s readable root candles d granularity ↔
      (∃ found, wholeInUse s readable root d = .ok found) ∧
        ∀ b entry frame, wholeInUse s readable root d = .ok (some b) →
          entryOf b granularity = some entry → candles = .ok frame → Infers s.np b entry frame :=
    ⟨fun h => ⟨wholeInUse_isOk_iff.mpr h.state, h.inference⟩,
      fun h => ⟨wholeInUse_isOk_iff.mp h.1, h.2⟩⟩
  rw [hmeets, reaches_call]
  cases huse : wholeInUse s readable root d with
  | error e => simp
  | ok found =>
      cases found with
      | none => simp
      | some b =>
          have hinfers : (∀ b' entry frame, (.ok (some b) : Except Exc _) = .ok (some b') →
              entryOf b' granularity = some entry → candles = .ok frame →
                Infers s.np b' entry frame) ↔
              ∀ entry frame, entryOf b granularity = some entry → candles = .ok frame →
                Infers s.np b entry frame := by
            simp only [Except.ok.injEq, Option.some.injEq]
            exact ⟨fun h entry frame => h b entry frame rfl,
              fun h b' entry frame hb => hb ▸ h entry frame⟩
          rw [hinfers]
          dsimp only
          cases entryOf b granularity with
          | none => simp
          | some entry =>
              cases candles with
              | error e => simp
              | ok frame => simp [infer_isOk_iff (usable_of_wholeInUse huse)]

theorem isSome_of_reaches {r : Option Inference}
    (h : (call s readable root candles d instrument granularity).reaches s.regime d.detector =
      .ok r) : r.isSome = true ↔ Computes s readable root candles d granularity := by
  rw [reaches_call] at h
  unfold Computes
  cases huse : wholeInUse s readable root d with
  | error e =>
      rw [huse] at h
      cases h
  | ok found =>
      rw [huse] at h
      cases found with
      | none =>
          obtain rfl := Except.ok.inj h
          simp
      | some b =>
          dsimp only at h
          cases hentry : entryOf b granularity with
          | none =>
              rw [hentry] at h
              obtain rfl := Except.ok.inj h
              simp [hentry]
          | some entry =>
              rw [hentry] at h
              cases candles with
              | error e =>
                  obtain rfl := Except.ok.inj h
                  simp
              | ok frame =>
                  simp [hentry, isSome_of_infer (usable_of_wholeInUse huse) h]

/-- Functions on the series of a frame; one without rows has only empty series. -/
def plainNumerics : Numerics where
  log := id
  div := fun x y => (x.div? y).getD .nan
  ewmMean := fun _ s => s
  rollingStd := fun _ s => s
  rollingMean := fun window s => if window < 0 then .error (.ofErr .valueError) else .ok s
  sum := fun xs => xs.foldl Binary64.add .zero
  timestamp := fun _ => .ok 0
  datetimeText := fun v => .ok v.toStr

/-- A bundle that wants the return of the hourly bar. -/
def hourlyBundle : RegimeBundle where
  models := some [("H1", {
    scaler := some .ok
    weights := none
    model := some (.posterior .ok)
    mapping := some [(.int 0, "Ranging")] })]
  featureNames := some ["returns_1"]
  directionFeature := "trend_20"
  trendWindow := .int 20
  featureWeights := some [("returns_1", .int 1)]

def hourlyInference : InferenceSettings := ⟨3, .ofRat (9 / 10), fun _ => .ok hourlyBundle, plainNumerics⟩

/-- The root of an active set with a bundle. -/
def hourlyRoot : ArtifactRoot := (hourlyDetection ⟨.ok (), .ok none⟩).root

end ServingDetector

end System2
