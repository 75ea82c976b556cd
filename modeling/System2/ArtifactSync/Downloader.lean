import System2.ArtifactSync.ArtifactRoot

/-!
# The model downloader (`artifact_sync/downloader.py`)

One poll reads the published pointer, downloads a new set next to the old ones,
verifies every file and flips the links. A withdrawal is written down in
`state.json`, the links stay.

## Implementation notes

Nothing stays in memory between two polls, so a restarted downloader is a new one.
Logging and correlation ids have no effect on the outcome.
-/

namespace System2
open Foundation

/-- `str.strip().lower()`, compared with ASCII words only. -/
def stripLower (s : String) : String :=
  String.ofList ((stripChars s.toList).map Char.toLower)

/-- `type(exc).__name__`. -/
def ExcClass.name : ExcClass → String
  | .builtin .typeError => "TypeError"
  | .builtin .valueError => "ValueError"
  | .builtin .overflowError => "OverflowError"
  | .builtin .attributeError => "AttributeError"
  | .builtin .keyError => "KeyError"
  | .builtin .indexError => "IndexError"
  | .builtin .assertionError => "AssertionError"
  | .builtin .zeroDivisionError => "ZeroDivisionError"
  | .builtin .invalidOperation => "InvalidOperation"
  | .invalidOrderError => "InvalidOrderError"
  | .noMarketPriceError => "NoMarketPriceError"
  | .brokerError => "BrokerError"
  | .transientBrokerError => "TransientBrokerError"
  | .reconcileUnavailableError => "ReconcileUnavailableError"
  | .marketClosedError => "MarketClosedError"
  | .v20Error => "V20Error"
  | .other name => name

structure Artifact where
  name : PyVal
  path : PyVal
  sha256 : PyVal
  bytes : ℤ

/-- `Artifact.from_dict`. -/
def Artifact.fromDict (d : PyVal) : Except PyErr Artifact := do
  let name ← d.item "name"
  let path ← d.item "path"
  let sha256 ← d.item "sha256"
  let bytes ← (d.entries.getOr "bytes" (.int 0)).toInt
  return { name, path, sha256, bytes }

structure Manifest where
  schemaVersion : ℤ
  modelSetId : String
  publishedAt : String
  artifacts : List Artifact

/-- `Manifest.parse` of a decoded text. -/
def Manifest.ofValue (d : PyVal) : Except Exc Manifest := do
  let listed ← Exc.lift (d.item "artifacts")
  let items ← Exc.lift listed.iter
  let artifacts ← Exc.lift (items.mapM Artifact.fromDict)
  if artifacts.isEmpty then .error ⟨.builtin .valueError, [.lit "manifest has no artifacts"]⟩
  else do
    let version ← Exc.lift (d.item "schema_version")
    let schemaVersion ← Exc.lift version.toInt
    let setId ← Exc.lift (d.item "model_set_id")
    return { schemaVersion, modelSetId := setId.toStr,
             publishedAt := (d.entries.getOr "published_at" (.str "")).toStr, artifacts }

/-- `Manifest.parse`. -/
def Manifest.parse (text : JsonText) : Except Exc Manifest := do
  let d ← text.loads
  Manifest.ofValue d

/-- `Withdrawn`: the publisher says that the set must not be served. -/
structure Withdrawn where
  reason : String
  withdrawnAt : String

/-- What the pointer says. -/
inductive Fetched
  | withdrawn (w : Withdrawn)
  | published (manifest : Manifest)

/-- A path component: only a text can be joined to a path. -/
def pathPart : PyVal → Except PyErr String
  | .str s => .ok s
  | _ => .error .typeError

/-- `v[:12]`. -/
def slice12 : PyVal → Except PyErr PyVal
  | .str s => .ok (.str (String.ofList (s.toList.take 12)))
  | .list xs => .ok (.list (xs.take 12))
  | _ => .error .typeError

/-- What is raised when a file has another digest than the manifest says. -/
def checksumMismatch (art : Artifact) (actual : String) : Exc :=
  match slice12 art.sha256 with
  | .ok expected => ⟨.other "ChecksumMismatch",
      [.val art.name, .lit ": expected ", .val expected, .lit "…, got ",
        .lit (String.ofList (actual.toList.take 12)), .lit "…"]⟩
  | .error e => .ofErr e

/-! ### What the state file says -/

/-- The entries set one after the other. -/
def setItems (state : PyVal) : List (String × PyVal) → Except PyErr PyVal
  | [] => .ok state
  | (key, v) :: rest => do
      let state ← state.setItem key v
      setItems state rest

def withdrawnState (w : Withdrawn) (state : PyVal) (now : String) : Except PyErr PyVal := do
  let marked ← setItems state [("last_poll_at", .str now), ("last_poll_error", .null),
    ("withdrawn", .bool true), ("withdrawn_at", .str w.withdrawnAt),
    ("withdrawn_reason", .str w.reason)]
  let active ← marked.getAttrGet "active_model_set_id"
  marked.setItem "withdrawn_model_set_id" active

def failedState (e : Exc) (state : PyVal) (now : String) : Except PyErr PyVal :=
  setItems state [("last_poll_at", .str now), ("last_poll_error", .str e.cls.name)]

def polledState (state : PyVal) (now : String) : Except PyErr PyVal :=
  setItems state [("last_poll_at", .str now)]

def rolledBackState (target : String) (state : PyVal) (now : String) : Except PyErr PyVal :=
  setItems state [("active_model_set_id", .str target), ("last_rolled_back_at", .str now)]

/-- The state after an activation, written anew. -/
def activatedState (manifest : Manifest) (prevActive : PyVal) (polledAt swappedAt : String) :
    PyVal :=
  .dict [("active_model_set_id", .str manifest.modelSetId), ("previous_model_set_id", prevActive),
    ("published_at", .str manifest.publishedAt), ("last_poll_at", .str polledAt),
    ("last_swapped_at", .str swappedAt), ("withdrawn", .bool false)]

/-- The settings of a `ModelDownloader`, and whether its host runs Windows. -/
structure ModelDownloader where
  manifestKey : String
  isNt : Bool

namespace ModelDownloader

abbrev perform (op : ArtifactCall) : Proc ArtifactI Exc op.Ans :=
  Proc.perform (I := ArtifactI) op

/-- A built-in conversion inside a procedure. -/
abbrev convert {α : Type} (r : Except PyErr α) : Proc ArtifactI Exc α := .ofExcept (Exc.lift r)

/-- The status of a pointer, null and empty ones alike. -/
def statusOf (d : Dict) : String :=
  let status := d.getOr "status" (.str "")
  stripLower (if status.truthy then status.toStr else "")

/-- `str(v or _utc_now())`. -/
def orNow (v : PyVal) : Proc ArtifactI Exc String :=
  if v.truthy then .ret v.toStr else perform .utcNow

/-- The given reason of a withdrawal, or one made of its status. -/
def reasonOf (d : Dict) (status : String) : String :=
  let reason := d.getOr "reason" (.str "")
  if reason.truthy then reason.toStr else "model set " ++ status ++ " by the publisher"

/-- `parse_withdrawal`. -/
def parseWithdrawal (text : JsonText) : Proc ArtifactI Exc (Option Withdrawn) :=
  match text with
  | some (.dict d) =>
      let status := statusOf d
      if status = "" ∨ status = "published" ∨ status = "active" then .ret none
      else do
        let withdrawnAt ← orNow (Dict.getOr d "withdrawn_at" (.str ""))
        return some ⟨reasonOf d status, withdrawnAt⟩
  | _ => .ret none

/-- `fetch_manifest`: a withdrawal is looked for first. -/
def fetchManifest (d : ModelDownloader) : Proc ArtifactI Exc Fetched := do
  let text ← perform (.getText d.manifestKey)
  match ← parseWithdrawal text with
  | some w => return .withdrawn w
  | none => do
      let manifest ← Proc.ofExcept (Manifest.parse text)
      return .published manifest

/-- `_read_state`: an empty object when there is none, or none that can be read and decodes. A
state that is no UTF-8 raises. -/
def readState : Proc ArtifactI Exc PyVal := do
  let isThere ← perform .stateExists
  if !isThere then return .dict []
  else
    match ← (perform .readState).attempt with
    | .ok (.text (some v)) => return v
    | .ok .garbled => .raise unicodeDecodeError
    | _ => return .dict []

/-- `_write_state`. -/
def writeState (state : PyVal) : Proc ArtifactI Exc Unit := do
  let _ ← perform (.writeStateTmp state)
  perform .replaceState

/-- `active_model_set_id`. -/
def activeModelSetId : Proc ArtifactI Exc PyVal := do
  let state ← readState
  convert (state.getAttrGet "active_model_set_id")

/-- The state is read, brought up to date and written back. -/
def updateState (f : PyVal → String → Except PyErr PyVal) : Proc ArtifactI Exc Unit := do
  let state ← readState
  let now ← perform .utcNow
  let state ← convert (f state now)
  writeState state

/-- Every artifact downloaded into the staged directory and checked. -/
def verifyArtifacts (set : String) : List Artifact → Proc ArtifactI Exc Unit
  | [] => .ret ()
  | art :: rest => do
      let name ← convert (pathPart art.name)
      let _ ← perform (.download art.path set name)
      let actual ← perform (.sha256File set name)
      if !art.sha256.isStr actual then .raise (checksumMismatch art actual)
      else verifyArtifacts set rest

/-- `_download_and_verify`. -/
def downloadAndVerify (manifest : Manifest) : Proc ArtifactI Exc Unit := do
  let staged ← perform (.stageExists manifest.modelSetId)
  let _ ← Proc.given staged (perform (.removeStage manifest.modelSetId))
  let _ ← perform (.makeStage manifest.modelSetId)
  verifyArtifacts manifest.modelSetId manifest.artifacts

/-- `_atomic_symlink`. -/
def atomicSymlink (d : ModelDownloader) (l : RootLink) (set : String) :
    Proc ArtifactI Exc Unit := do
  let leftOver ← perform (.tmpLinkExists l)
  let _ ← Proc.given leftOver (perform (.unlinkTmp l))
  let _ ← perform (.symlinkTmp l set)
  let _ ← Proc.given d.isNt do
    let isLink ← perform (.isSymlink l)
    Proc.given isLink (perform (.unlink l))
  perform (.replaceLink l)

/-- The verified directory takes its place under `sets/`. -/
def placeSet (set : String) : Proc ArtifactI Exc Unit := do
  let final ← perform (.setExists set)
  let _ ← Proc.given final (perform (.removeSet set))
  let _ ← perform (.moveStage set)
  let _ ← (perform (.fsyncSet set)).attempt
  return ()

/-- The previous set becomes `last_good`, when there is one and it is another one. -/
def keepLastGood (d : ModelDownloader) (set : String) (prevActive : PyVal) :
    Proc ArtifactI Exc Unit :=
  if prevActive.truthy && !prevActive.isStr set then do
    let prev ← convert (pathPart prevActive)
    d.atomicSymlink .lastGood prev
  else .ret ()

/-- `_promote`. -/
def promote (d : ModelDownloader) (manifest : Manifest) : Proc ArtifactI Exc Unit := do
  let _ ← placeSet manifest.modelSetId
  let prevActive ← activeModelSetId
  let _ ← d.keepLastGood manifest.modelSetId prevActive
  let _ ← d.atomicSymlink .active manifest.modelSetId
  let polledAt ← perform .utcNow
  let swappedAt ← perform .utcNow
  writeState (activatedState manifest prevActive polledAt swappedAt)

/-- The poll's answer to a withdrawal: it is written down, and the links stay. -/
def recordWithdrawal (w : Withdrawn) : Proc ArtifactI Exc Bool := do
  let _ ← updateState (withdrawnState w)
  return false

/-- The poll's answer to a pointer that it cannot read. -/
def recordFailure (e : Exc) : Proc ArtifactI Exc Bool := do
  let _ ← updateState (failedState e)
  return false

/-- The poll's answer to the set that is active already. -/
def recordNoChange : Proc ArtifactI Exc Bool := do
  let _ ← updateState polledState
  return false

/-- The poll's answer to another set: it is activated when every file is as published. -/
def activate (d : ModelDownloader) (manifest : Manifest) : Proc ArtifactI Exc Bool := do
  match ← (downloadAndVerify manifest).attempt with
  | .error _ => do
      let _ ← (perform (.clearStage manifest.modelSetId)).attempt
      return false
  | .ok _ => do
      let _ ← d.promote manifest
      return true

/-- `poll_once`. -/
def pollOnce (d : ModelDownloader) : Proc ArtifactI Exc Bool := do
  match ← d.fetchManifest.attempt with
  | .ok (.withdrawn w) => recordWithdrawal w
  | .error e => recordFailure e
  | .ok (.published manifest) => do
      let active ← activeModelSetId
      if active.isStr manifest.modelSetId then recordNoChange
      else d.activate manifest

/-- `rollback_to_last_good`. -/
def rollbackToLastGood (d : ModelDownloader) : Proc ArtifactI Exc Bool := do
  let isThere ← perform (.linkExists .lastGood)
  if !isThere then return false
  else do
    let target ← perform (.resolveName .lastGood)
    let _ ← d.atomicSymlink .active target
    let _ ← updateState (rolledBackState target)
    return true

end ModelDownloader

end System2
