import System2.ArtifactSync.LiveRegime

/-!
# Runs of the artifact host

The downloader and the detector share one root. A run is a sequence of their calls,
with the steps that others take on the root in between. Every call is kept in the
run's history together with the host before and after it.
-/

namespace System2
open Foundation

/-- The artifact root and the detector that reads it. -/
structure ArtifactHost where
  root : ArtifactRoot
  detector : LiveRegimeDetector

/-- A host on which nothing has happened yet. -/
def ArtifactHost.start : ArtifactHost := ⟨.empty, .fresh⟩

/-- A call on the host, with what it meets outside: the polled pointer, whether `state.json`
can be read, the market. -/
inductive HostCall
  | poll (pointer : Except Exc JsonText)
  | rollback
  | load (readable force : Bool)
  | detect (readable : Bool) (market : RegimeMarket) (instrument granularity : String)

abbrev HostCall.Ans : HostCall → Type
  | .detect _ _ _ _ => RegimeObservation
  | _ => Bool

/-- A call that has returned or raised. -/
structure Called where
  before : ArtifactHost
  call : HostCall
  out : Except Exc call.Ans
  after : ArtifactHost

/-- The components of a host: the downloader, the detector's settings, the file digest. -/
structure ArtifactService where
  downloader : ModelDownloader
  regime : RegimeSettings
  sha256 : List UInt8 → String

namespace ArtifactService

/-- How disks answer while the polled pointer is the given one. -/
abbrev Disk := Except Exc JsonText → World ArtifactI Exc ArtifactRoot

variable (svc : ArtifactService) (disk : Disk)

/-- One call as the code carries it out. -/
inductive Carries : Called → Prop
  | poll {host pointer r root'}
      (exec : Exec (disk pointer) svc.downloader.pollOnce host.root (some r) root') :
      Carries ⟨host, .poll pointer, r, { host with root := root' }⟩
  | rollback {host pointer r root'}
      (exec : Exec (disk pointer) svc.downloader.rollbackToLastGood host.root (some r) root') :
      Carries ⟨host, .rollback, r, { host with root := root' }⟩
  | load {host readable force r detector'}
      (h : host.detector.loadBundle svc.regime readable host.root force = (r, detector')) :
      Carries ⟨host, .load readable force, r, { host with detector := detector' }⟩
  | detect {host readable market instrument granularity r detector'}
      (h : host.detector.detect svc.regime readable host.root market instrument granularity =
        (r, detector')) :
      Carries ⟨host, .detect readable market instrument granularity, r,
        { host with detector := detector' }⟩

/-- A run with its history. -/
inductive Runs (others : ArtifactRoot → ArtifactRoot → Prop) :
    ArtifactHost → List Called → ArtifactHost → Prop
  | refl {host} : Runs others host [] host
  | call {host cs c} (run : Runs others host cs c.before) (carries : svc.Carries disk c) :
      Runs others host (cs ++ [c]) c.after
  | other {host cs host' root''} (run : Runs others host cs host')
      (step : others host'.root root'') : Runs others host cs { host' with root := root'' }

variable {svc disk} {others : ArtifactRoot → ArtifactRoot → Prop}

theorem Runs.carries {host host' : ArtifactHost} {cs : List Called}
    (run : svc.Runs disk others host cs host') : ∀ c ∈ cs, svc.Carries disk c := by
  induction run with
  | refl => exact fun c hc => by cases hc
  | call run carries ih =>
      intro c hc
      rcases List.mem_append.mp hc with hmem | hmem
      · exact ih c hmem
      · rw [List.mem_singleton.mp hmem]
        exact carries
  | other run step ih => exact ih

/-! ### A host on which everything works -/

/-- Storage of two files, one of which is broken. -/
def sampleStorage (pointer : Except Exc JsonText) : Storage where
  pointer := pointer
  object := fun path => .ok (if path.isStr "models/broken.pkl" then [2] else [1])
  now := "2026-01-01T00:00:00Z"
  sha256 := fun bytes => if bytes = [1] then "one" else "other"

/-- A service for which only the whole file unpickles. -/
def sampleService : ArtifactService where
  downloader := ⟨"latest.json", false⟩
  regime := ⟨3, .ofRat (9 / 10), fun bytes =>
    if bytes = [1] then .ok ⟨some ["H1"], some ["returns_1"], "trend_20"⟩
    else .error (osError "UnpicklingError")⟩
  sha256 := (sampleStorage (.ok none)).sha256

/-- A published set of one regime bundle. -/
def publishedBundle (set path sha256 : String) : Except Exc JsonText :=
  .ok (some (.dict [("schema_version", .int 1), ("model_set_id", .str set),
    ("artifacts", .list [.dict [("name", .str "regime_hmm.pkl"), ("path", .str path),
      ("sha256", .str sha256)]])]))

def publishedPointer (set : String) : Except Exc JsonText :=
  publishedBundle set "models/hmm.pkl" "one"

def withdrawnPointer : Except Exc JsonText :=
  .ok (some (.dict [("status", .str "withdrawn"), ("reason", .str "look-ahead")]))

/-- A poll of this service. -/
def polled (pointer : Except Exc JsonText) (host : ArtifactHost) : Called :=
  let r := sampleService.downloader.pollOnce.run (sampleStorage pointer).serve host.root
  ⟨host, .poll pointer, r.1, { host with root := r.2 }⟩

/-- A load of this service with everything readable. -/
def loaded (svc : ArtifactService) (force : Bool) (host : ArtifactHost) : Called :=
  let r := host.detector.loadBundle svc.regime true host.root force
  ⟨host, .load true force, r.1, { host with detector := r.2 }⟩

theorem carries_polled (pointer : Except Exc JsonText) (host : ArtifactHost) :
    sampleService.Carries (artifactWorld sampleService.sha256) (polled pointer host) :=
  .poll (exec_run (Storage.serve_step (sampleStorage pointer)) _ _)

theorem carries_loaded (force : Bool) (host : ArtifactHost) :
    svc.Carries disk (loaded svc force host) := .load rfl

theorem Carries.faulty {c : Called} (h : svc.Carries (artifactWorld svc.sha256) c) :
    svc.Carries (faultyWorld svc.sha256) c := by
  cases h with
  | poll exec => exact .poll (exec.mono fun _ _ _ _ step => Or.inl step)
  | rollback exec => exact .rollback (exec.mono fun _ _ _ _ step => Or.inl step)
  | load h => exact .load h
  | detect h => exact .detect h

end ArtifactService

end System2
