import System2.ArtifactSync.RegimeInference
import System2.Common.Secrets

/-!
# The regime scheduler (`artifact_sync/regime_scheduler.py`)

A thread sweeps over the pairs of a watch list and lets one detector detect each of them.
All pairs share the bundle in memory, and every detection may reload it. Beyond that no pair
hears of another: what is returned and stored for a pair is what a detector would return and
store that detects this pair only, and loads its bundle whenever the others are detected.

## Implementation notes

A look at a pair meets the stop flag, the disk and the candle source as they are then. The
waiting between two sweeps is no part of the model, and a detection that raises is logged.
-/

namespace System2
open Foundation

/-- `_parse_list`. -/
def parseList (raw : Option String) (default : String) : List String :=
  let text := if raw.getD "" = "" then default else raw.getD ""
  ((text.toList.splitOn ',').map fun item => String.ofList (stripChars item)).filter (· ≠ "")

/-- A watch list, and how long to wait between two sweeps. -/
structure RegimeScheduler where
  instruments : List String
  granularities : List String
  refreshSec : ℤ
  refresh_ge : 5 ≤ refreshSec

/-- A detection that is asked for, with what it meets. -/
structure Visit where
  pair : String × String
  readable : Bool
  root : ArtifactRoot
  candles : Except Exc CandleFrame

/-- What the scheduler meets when it comes to a pair. -/
structure Look where
  stopped : Bool
  readable : Bool
  root : ArtifactRoot
  candles : Except Exc CandleFrame

def Look.visit (look : Look) (pair : String × String) : Visit :=
  ⟨pair, look.readable, look.root, look.candles⟩

/-- The answer to a visit. -/
abbrev Answer := Visit × Except Exc RegimeObservation

namespace ServingDetector
open LiveRegimeDetector

/-- The detection of a visit. -/
def answer (s : InferenceSettings) (v : Visit) (d : ServingDetector) :
    Except Exc RegimeObservation × ServingDetector :=
  d.detect s v.readable v.root v.candles v.pair.1 v.pair.2

/-- Visits one after another. -/
def serve (s : InferenceSettings) : List Visit → ServingDetector → List Answer × ServingDetector
  | [], d => ([], d)
  | v :: rest, d =>
      let r := d.answer s v
      let out := serve s rest r.2
      ((v, r.1) :: out.1, out.2)

/-- `load_bundle` on the detector with its bundle. -/
def load (s : InferenceSettings) (readable : Bool) (root : ArtifactRoot) (d : ServingDetector) :
    ServingDetector where
  detector := (loadBundle s.regime readable root d.detector false).2
  held := heldAfter s readable root d
  same := loadBundle_heldAfter s readable root d
  accepted := fun _ h => usable_of_heldAfter h

/-- One pair alone is detected, and the bundle is loaded at the visits of the others. -/
def alone (s : InferenceSettings) (pair : String × String) :
    List Visit → ServingDetector → List Answer × ServingDetector
  | [], d => ([], d)
  | v :: rest, d =>
      if v.pair = pair then
        let r := d.answer s v
        let out := alone s pair rest r.2
        ((v, r.1) :: out.1, out.2)
      else alone s pair rest (d.load s v.readable v.root)

theorem serve_append (s : InferenceSettings) (visits later : List Visit) (d : ServingDetector) :
    serve s (visits ++ later) d =
      ((serve s visits d).1 ++ (serve s later (serve s visits d).2).1,
        (serve s later (serve s visits d).2).2) := by
  induction visits generalizing d with
  | nil => rfl
  | cons v rest ih =>
      simp only [List.cons_append, serve, ih]

end ServingDetector

namespace RegimeScheduler
open ServingDetector

/-- `RegimeScheduler.__init__`. -/
def build (instruments granularities : List String) (refreshSec : ℤ) : RegimeScheduler :=
  ⟨instruments, granularities, max 5 refreshSec, le_max_left 5 refreshSec⟩

def defaultInstruments : String :=
  "EUR_USD,GBP_USD,USD_JPY,USD_CHF,AUD_USD,USD_CAD,NZD_USD,EUR_GBP"

def defaultGranularities : String := "H1,H4"

/-- `RegimeScheduler.from_secrets`. -/
def fromSecrets (secrets : Secrets) : RegimeScheduler :=
  build (parseList (secrets.get? "REGIME_INSTRUMENTS") defaultInstruments)
    (parseList (secrets.get? "REGIME_GRANULARITIES") defaultGranularities)
    (secrets.getInt "REGIME_REFRESH_SEC" 60)

/-- The pairs of the watch list, in the order of a sweep. -/
def pairs (sched : RegimeScheduler) : List (String × String) :=
  sched.instruments.flatMap fun instrument =>
    sched.granularities.map fun granularity => (instrument, granularity)

/-- The rest of a sweep, with the number of detections that have returned. -/
def sweepFrom (s : InferenceSettings) (look : ℕ → Look) (i n : ℕ) :
    List (String × String) → ServingDetector → ℕ × ServingDetector
  | [], d => (n, d)
  | pair :: rest, d =>
      if (look i).stopped then (n, d)
      else
        let r := d.answer s ((look i).visit pair)
        if r.1.isOk then sweepFrom s look (i + 1) (n + 1) rest r.2
        else sweepFrom s look (i + 1) n rest r.2

/-- `sweep_once`. -/
def sweepOnce (s : InferenceSettings) (sched : RegimeScheduler) (look : ℕ → Look)
    (d : ServingDetector) : ℕ × ServingDetector := sweepFrom s look 0 0 sched.pairs d

/-- `_loop`, for as many turns as are looked at: each asks the stop flag and sweeps. -/
def loop (s : InferenceSettings) (sched : RegimeScheduler) :
    List (Bool × (ℕ → Look)) → ServingDetector → ServingDetector
  | [], d => d
  | turn :: rest, d => if turn.1 then d else loop s sched rest (sched.sweepOnce s turn.2 d).2

/-! ### The visits of the scheduler -/

/-- The visits of a sweep: the pairs in order, until the flag is set. -/
def visitsFrom (look : ℕ → Look) (i : ℕ) : List (String × String) → List Visit
  | [] => []
  | pair :: rest =>
      if (look i).stopped then [] else (look i).visit pair :: visitsFrom look (i + 1) rest

/-- The visits of all turns. -/
def visits (sched : RegimeScheduler) : List (Bool × (ℕ → Look)) → List Visit
  | [] => []
  | turn :: rest =>
      if turn.1 then [] else visitsFrom turn.2 0 sched.pairs ++ visits sched rest

variable {s : InferenceSettings} {sched : RegimeScheduler} {look : ℕ → Look} {d : ServingDetector}

/-- A sweep serves its visits, whatever raises, and counts those that returned. -/
theorem sweepFrom_eq_serve (i n : ℕ) (rest : List (String × String)) :
    sweepFrom s look i n rest d =
      (n + (serve s (visitsFrom look i rest) d).1.countP fun a => a.2.isOk,
        (serve s (visitsFrom look i rest) d).2) := by
  induction rest generalizing i n d with
  | nil => rfl
  | cons pair rest ih =>
      rw [sweepFrom, visitsFrom]
      by_cases hstopped : (look i).stopped = true
      · rw [if_pos hstopped, if_pos hstopped]
        rfl
      · rw [if_neg hstopped, if_neg hstopped, serve]
        by_cases hok : (d.answer s ((look i).visit pair)).1.isOk = true
        · simp only [hok, if_true, ih, List.countP_cons_of_pos]
          rw [Nat.add_assoc, Nat.add_comm 1]
        · simp only [hok, if_false, ih, List.countP_cons_of_neg, Bool.false_eq_true, not_false_eq_true]

theorem loop_eq_serve (turns : List (Bool × (ℕ → Look))) :
    sched.loop s turns d = (serve s (sched.visits turns) d).2 := by
  induction turns generalizing d with
  | nil => rfl
  | cons turn rest ih =>
      rw [loop, visits]
      split_ifs
      · rfl
      · rw [ih, serve_append, sweepOnce, sweepFrom_eq_serve]

end RegimeScheduler

/-! ### What a detector knows of one pair -/

namespace LiveRegimeDetector

/-- The records of one pair. -/
def recordsOf {α : Type} (pair : String × String) (records : List ((String × String) × α)) :
    List ((String × String) × α) := records.filter fun e => e.1 == pair

/-- A detector that remembers nothing of the other pairs. -/
def only (pair : String × String) (det : LiveRegimeDetector) : LiveRegimeDetector :=
  { det with
    debouncers := recordsOf pair det.debouncers, lastObs := recordsOf pair det.lastObs }

section

variable {α : Type} {pair key : String × String} {records : List ((String × String) × α)} {v : α}

@[simp] theorem recorded_recordsOf : recorded pair (recordsOf pair records) = recorded pair records := by
  unfold recorded recordsOf
  rw [List.find?_filter]
  congr 2
  ext e
  rw [Bool.eq_iff_iff]
  simp

theorem recordsOf_record : recordsOf pair (record pair v records) =
    record pair v (recordsOf pair records) := by
  unfold record recordsOf
  rw [List.filter_cons_of_pos (by simp), List.filter_comm]

theorem recordsOf_record_of_ne (hkey : key ≠ pair) :
    recordsOf pair (record key v records) = recordsOf pair records := by
  unfold record recordsOf
  rw [List.filter_cons_of_neg (by simpa using hkey), List.filter_filter]
  congr 1
  ext e
  by_cases he : e.1 = pair
  · simp [he, hkey.symm]
  · simp [he]

end

variable {c : RegimeSettings} {readable : Bool} {root : ArtifactRoot} {market : RegimeMarket}
  {pair : String × String} {note : String} {force : Bool} {inf : Inference}
  {det : LiveRegimeDetector}

theorem loadBundle_only : loadBundle c readable root (det.only pair) force =
    ((loadBundle c readable root det force).1,
      (loadBundle c readable root det force).2.only pair) := by
  have hends := loadBundle_ends c readable root det force
  generalize loadBundle c readable root det force = r at hends ⊢
  apply LoadEnds.eq
  cases hends with
  | kept hcached => exact .kept hcached
  | raised hlook hstate => exact .raised hlook hstate
  | refused hlook hstate => exact .refused hlook hstate
  | missing hlook hstate hwalk => exact .missing hlook hstate hwalk
  | found hlook hstate hwalk => exact .found hlook hstate hwalk

theorem stale_only : stale c (det.only pair) pair note = stale c det pair note := by
  unfold stale
  rw [show (det.only pair).lastObs = recordsOf pair det.lastObs from rfl, recorded_recordsOf]
  rfl

theorem observe_only : observe c (det.only pair) pair inf =
    ((observe c det pair inf).1, (observe c det pair inf).2.only pair) := by
  unfold observe only
  simp only [recorded_recordsOf, recordsOf_record]

theorem carry_only (o : Outcome) : o.carry c (det.only pair) pair =
    ((o.carry c det pair).1, (o.carry c det pair).2.only pair) := by
  cases o with
  | raises e => rfl
  | holds note => simp only [Outcome.carry, stale_only]
  | infers inf => simp only [Outcome.carry, observe_only]

/-- The detection of a pair knows nothing of the others. -/
theorem detect_only (det : LiveRegimeDetector) (market : RegimeMarket)
    (instrument granularity : String) :
    (det.only (instrument, granularity)).detect c readable root market instrument granularity =
      ((det.detect c readable root market instrument granularity).1,
        (det.detect c readable root market instrument granularity).2.only
          (instrument, granularity)) := by
  rw [detect_eq_carry, detect_eq_carry, loadBundle_only]
  exact carry_only _

/-- For another pair a detection is a load of the bundle. -/
theorem detect_only_of_ne {instrument granularity : String} (hpair : (instrument, granularity) ≠ pair) :
    (det.detect c readable root market instrument granularity).2.only pair =
      (loadBundle c readable root det false).2.only pair := by
  rw [detect_eq_carry]
  cases outcome _ _ market granularity with
  | raises e => rfl
  | holds note => rfl
  | infers inf => simp only [Outcome.carry, observe, only, recordsOf_record_of_ne hpair]

end LiveRegimeDetector

namespace ServingDetector
open LiveRegimeDetector

variable {s : InferenceSettings} {readable : Bool} {root : ArtifactRoot} {pair : String × String}
  {v : Visit} {d d' : ServingDetector}

/-- A detector is what it remembers and the bundle that it holds. -/
theorem ext (hdetector : d.detector = d'.detector) (hheld : d.held = d'.held) : d = d' := by
  cases d
  cases d'
  obtain rfl : _ = _ := hdetector
  obtain rfl : _ = _ := hheld
  rfl

/-- A serving detector that remembers nothing of the other pairs. -/
def only (pair : String × String) (d : ServingDetector) : ServingDetector :=
  ⟨d.detector.only pair, d.held, d.same, d.accepted⟩

theorem load_only : (d.only pair).load s readable root = (d.load s readable root).only pair := by
  apply ext
  · exact congrArg Prod.snd loadBundle_only
  · rfl

theorem answer_only : (d.only v.pair).answer s v = ((d.answer s v).1, (d.answer s v).2.only v.pair) := by
  have hdetect : (d.detector.only v.pair).detect s.regime v.readable v.root
      (d.market s v.readable v.root v.candles v.pair.2) v.pair.1 v.pair.2 = _ :=
    detect_only d.detector _ v.pair.1 v.pair.2
  have hanswer := congrArg Prod.fst hdetect
  have hafter := congrArg Prod.snd hdetect
  apply Prod.ext
  · exact hanswer
  · apply ext
    · exact hafter
    · rfl

theorem answer_only_of_ne (hpair : v.pair ≠ pair) :
    (d.answer s v).2.only pair = (d.load s v.readable v.root).only pair := by
  apply ext
  · exact detect_only_of_ne hpair
  · rfl

/-- A run of visits, seen from one pair. -/
theorem alone_eq_serve (s : InferenceSettings) (pair : String × String) (visits : List Visit)
    (d : ServingDetector) : alone s pair visits (d.only pair) =
      ((serve s visits d).1.filter fun a => a.1.pair = pair, (serve s visits d).2.only pair) := by
  induction visits generalizing d with
  | nil => rfl
  | cons v rest ih =>
      rw [alone, serve]
      by_cases hpair : v.pair = pair
      · subst hpair
        rw [if_pos rfl, answer_only]
        simp only [ih, List.filter_cons_of_pos, decide_true]
      · rw [if_neg hpair, load_only, ← answer_only_of_ne hpair, ih]
        simp only [List.filter_cons_of_neg, hpair, decide_false, Bool.false_eq_true,
          not_false_eq_true]

end ServingDetector

namespace RegimeScheduler
open ServingDetector

/-- However the scheduler sweeps, a pair is served as if it were the only one: by a detector that
loads its bundle at the visits of the others, and never meets their candles. -/
theorem loop_serves_alone (s : InferenceSettings) (sched : RegimeScheduler)
    (turns : List (Bool × (ℕ → Look))) (pair : String × String) :
    alone s pair (sched.visits turns) .fresh =
      ((serve s (sched.visits turns) .fresh).1.filter fun a => a.1.pair = pair,
        (sched.loop s turns .fresh).only pair) := by
  rw [loop_eq_serve]
  exact alone_eq_serve s pair (sched.visits turns) .fresh

end RegimeScheduler

end System2
