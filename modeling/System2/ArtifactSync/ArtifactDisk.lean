import System2.ArtifactSync.RootSteps
import System2.Foundation.Place

/-!
# The disk under the artifact root

The calls of the downloader as what they do to a whole disk, whatever texts the set id
and the artifact names are. A text is joined to a directory as `pathlib` joins it on
POSIX: an absolute one replaces the directory, and two dots lead up.

## Implementation notes

What a call does once its path goes through a link is left open. A call that fails may
have done a part of what it does.
-/

namespace System2
open Foundation

/-- What stands at a place. A state file is kept apart from the files that are downloaded. -/
inductive DiskNode
  | dir
  | file (bytes : List UInt8)
  | link (target : Place)
  | json (text : JsonText)

abbrev DiskTree := Place → Option DiskNode

section Layout

variable (root : Place)

def stagingDir : Place := root ++ ["staging"]

def setsDir : Place := root ++ ["sets"]

def linkPlace : RootLink → Place
  | .active => root ++ ["active"]
  | .lastGood => root ++ ["last_good"]

def tmpLinkPlace : RootLink → Place
  | .active => root ++ ["active.tmp"]
  | .lastGood => root ++ ["last_good.tmp"]

def statePlace : Place := root ++ ["state.json"]

def stateTmpPlace : Place := root ++ ["state.json.tmp"]

/-- `staging_dir / model_set_id`. -/
def stagePlace (set : String) : Place := (stagingDir root).join set

/-- `sets_dir / model_set_id`. -/
def setPlace (set : String) : Place := (setsDir root).join set

/-- The directories that the downloader makes when it is built, and those above. -/
def Standing (p : Place) : Prop := p <+: stagingDir root ∨ p <+: setsDir root

end Layout

namespace DiskTree

variable (disk disk' : DiskTree)

/-- A walk gets past a directory, and past a place where it makes one. -/
def Opens (p : Place) : Prop := disk p = none ∨ disk p = some .dir

/-- A walk comes to a place when it gets past all before. -/
def Comes (trail : List Place) (p : Place) : Prop :=
  ∃ before after, trail = before ++ p :: after ∧ ∀ q ∈ before, disk.Opens q

/-- A walk comes to a link. -/
def Follows (trail : List Place) : Prop := ∃ p t, disk.Comes trail p ∧ disk p = some (.link t)

/-- The directories that a path passes are there. -/
def Passes (way : List Place) : Prop := ∀ q ∈ way, disk q = some .dir

/-- `mkdir(parents=True)`: directories where there is nothing. -/
def Makes (base : Place) (path : String) : Prop :=
  ∀ p, disk' p ≠ disk p →
    disk.Comes (base.trail path) p ∧ disk p = none ∧ disk' p = some .dir

/-- `shutil.rmtree`: what a path leads to, with all inside. -/
def Erases (base : Place) (path : String) : Prop :=
  ∀ p, disk' p ≠ disk p →
    disk.Passes (base.way path) ∧ base.join path <+: p ∧ disk' p = none

/-- `download`: the directories on the way, and the file in the place of a file or of nothing. -/
def Fetches (base : Place) (path : String) : Prop :=
  ∀ p, disk' p ≠ disk p → disk.Comes (base.trail path) p ∧
    (disk p = none ∨ (p = base.join path ∧ disk p ≠ some .dir))

/-- `os.replace`. -/
def rename (p q : Place) : DiskTree := Function.update (Function.update disk q (disk p)) p none

/-- What `_read_state` makes of the state file. -/
def stateValue (root : Place) : PyVal :=
  match disk (statePlace root) with
  | some (.json (some v)) => v
  | _ => .dict []

/-- `self.active_model_set_id` of a set id. -/
def namesActive (root : Place) (set : String) : Bool :=
  match (disk.stateValue root).getAttrGet "active_model_set_id" with
  | .ok v => v.isStr set
  | .error _ => false

end DiskTree

/-- A call that names no file does not get anywhere. -/
def ArtifactCall.fails : (op : ArtifactCall) → Except Exc op.Ans → Prop
  | .stageExists _, r => r ≠ .ok true
  | .setExists _, r => r ≠ .ok true
  | .clearStage _, _ => True
  | .fsyncSet _, _ => True
  | _, r => r.isOk = false

/-- A call on the disk. -/
def ArtifactCall.does (root : Place) (sha256 : List UInt8 → String)
    (pointer : Except Exc JsonText) (disk : DiskTree) :
    (op : ArtifactCall) → Except Exc op.Ans → DiskTree → Prop
  | .getText _, r, disk' => r = pointer ∧ disk' = disk
  | .utcNow, r, disk' => (∃ now, r = .ok now) ∧ disk' = disk
  | .download path set name, r, disk' =>
      disk.Follows ((stagePlace root set).trail name) ∨
        (disk.Fetches disk' (stagePlace root set) name ∧ (r.isOk = true →
          (∃ key, path = .str key) ∧
          (∀ q ∈ (stagePlace root set).way name, disk.Opens q ∧ disk' q = some .dir) ∧
          disk ((stagePlace root set).join name) ≠ some .dir ∧
          ∃ bytes, disk' ((stagePlace root set).join name) = some (.file bytes)))
  | .sha256File set name, r, disk' => disk' = disk ∧
      (disk.Follows ((stagePlace root set).trail name) ∨ ∀ digest, r = .ok digest →
        ∃ bytes, disk ((stagePlace root set).join name) = some (.file bytes) ∧
          digest = sha256 bytes)
  | .stateExists, r, disk' => disk' = disk ∧ r = .ok (disk (statePlace root)).isSome
  | .readState, r, disk' => disk' = disk ∧
      ∀ text, disk (statePlace root) = some (.json text) → r = .ok (.text text)
  | .writeStateTmp state, r, disk' =>
      (∀ p, disk' p ≠ disk p → p = stateTmpPlace root ∧ ∃ text, disk' p = some (.json text)) ∧
        (r.isOk = true → disk' (stateTmpPlace root) = some (.json (some state)))
  | .replaceState, r, disk' =>
      (r.isOk = true ∧ disk' = disk.rename (stateTmpPlace root) (statePlace root)) ∨
        (r.isOk = false ∧ disk' = disk)
  | .stageExists set, r, disk' => disk' = disk ∧
      (r = .ok true → disk.Passes ((stagingDir root).way set) ∧
        (disk (stagePlace root set)).isSome = true) ∧
      (r = .ok false → ¬ (disk.Passes ((stagingDir root).way set) ∧
        disk (stagePlace root set) = some .dir))
  | .removeStage set, r, disk' =>
      disk.Follows ((stagingDir root).way set) ∨
        (disk.Erases disk' (stagingDir root) set ∧
          (r.isOk = true → ∀ p, stagePlace root set <+: p → disk' p = none))
  | .clearStage set, _, disk' =>
      disk.Follows ((stagingDir root).way set) ∨ disk.Erases disk' (stagingDir root) set
  | .makeStage set, r, disk' =>
      disk.Follows ((stagingDir root).way set) ∨
        (disk.Makes disk' (stagingDir root) set ∧ (r.isOk = true →
          (∀ p, stagePlace root set <+: p → disk p = none) ∧
          disk' (stagePlace root set) = some .dir))
  | .setExists set, r, disk' => disk' = disk ∧
      (r = .ok true → disk.Passes ((setsDir root).way set) ∧
        (disk (setPlace root set)).isSome = true) ∧
      (r = .ok false → ¬ (disk.Passes ((setsDir root).way set) ∧
        disk (setPlace root set) = some .dir))
  | .removeSet set, r, disk' =>
      disk.Follows ((setsDir root).way set) ∨
        (disk.Erases disk' (setsDir root) set ∧
          (r.isOk = true → ∀ p, setPlace root set <+: p → disk' p = none))
  | .moveStage set, r, disk' =>
      disk.Follows ((stagingDir root).way set) ∨ disk.Follows ((setsDir root).way set) ∨
        ((∀ p, disk' p ≠ disk p → stagePlace root set <+: p ∨ setPlace root set <+: p ∨
          (disk.Comes ((setsDir root).trail set) p ∧ disk p = none)) ∧
        (r.isOk = true → disk (setPlace root set) = none → ∀ rest,
          disk' (setPlace root set ++ rest) = disk (stagePlace root set ++ rest)))
  | .fsyncSet _, _, disk' => disk' = disk
  | .tmpLinkExists l, r, disk' => disk' = disk ∧ r = .ok (disk (tmpLinkPlace root l)).isSome
  | .unlinkTmp l, r, disk' =>
      (r.isOk = true ∧ disk' = Function.update disk (tmpLinkPlace root l) none) ∨
        (r.isOk = false ∧ disk' = disk)
  | .symlinkTmp l set, r, disk' =>
      (r.isOk = true ∧ disk (tmpLinkPlace root l) = none ∧
        disk' = Function.update disk (tmpLinkPlace root l) (some (.link (setPlace root set)))) ∨
        (r.isOk = false ∧ disk' = disk)
  | .isSymlink _, _, disk' => disk' = disk
  | .unlink l, r, disk' =>
      (r.isOk = true ∧ disk' = Function.update disk (linkPlace root l) none) ∨
        (r.isOk = false ∧ disk' = disk)
  | .replaceLink l, r, disk' =>
      (r.isOk = true ∧ disk' = disk.rename (tmpLinkPlace root l) (linkPlace root l)) ∨
        (r.isOk = false ∧ disk' = disk)
  | .linkExists _, _, disk' => disk' = disk
  | .resolveName _, _, disk' => disk' = disk

/-- A disk with any stored objects, while the polled pointer is this one. -/
def diskWorld (root : Place) (sha256 : List UInt8 → String) (pointer : Except Exc JsonText) :
    World ArtifactI Exc DiskTree := fun disk op r disk' =>
  if op.names.any Place.hasNul = true then disk' = disk ∧ op.fails r
  else op.does root sha256 pointer disk r disk'

/-- A disk that a downloader was built on. Its state file is one it wrote, and its active link,
when there is one, leads to the set of the name. -/
structure StandsAt (root : Place) (served : Option String) (disk : DiskTree) : Prop where
  dirs : ∀ p, Standing root p → disk p = some .dir
  active : ∀ node, disk (linkPlace root .active) = some node →
    ∃ set, served = some set ∧ node = .link (setsDir root ++ [set])
  state : ∀ p, p = statePlace root ∨ p = stateTmpPlace root →
    ∀ node, disk p = some node → ∃ text, node = .json text

end System2
