import System2.Common.Errors
import System2.Foundation.Procedure
import Mathlib.Logic.Function.Basic

/-!
# The artifact root

The downloaded model sets, the links into them and `state.json`, with one call for
each step that the downloader takes on the disk or asks of the object storage.

## Implementation notes

A set id or an artifact name is one part of a path. What a call does with a name
that leads elsewhere is left open.
-/

namespace System2
open Foundation

/-- The text of a JSON file: what it decodes to, none when it does not decode. -/
abbrev JsonText := Option PyVal

/-- `json.loads`. -/
def JsonText.loads : JsonText → Except Exc PyVal
  | some v => .ok v
  | none => .error ⟨.other "JSONDecodeError", []⟩

/-- What the state file holds: a text, or bytes that are no UTF-8. -/
inductive StateText
  | text (text : JsonText)
  | garbled

/-- The files of a directory by name. -/
abbrev SetDir := String → Option (List UInt8)

inductive RootLink
  | active | lastGood
  deriving DecidableEq, Repr

/-- The directory of the downloader. A link leads to the set of a name, and a temporary link
or state file is what replaces the real one. -/
structure ArtifactRoot where
  sets : String → Option SetDir
  staging : String → Option SetDir
  link : RootLink → Option String
  tmpLink : RootLink → Option String
  state : Option StateText
  stateTmp : Option StateText

namespace ArtifactRoot

/-- A root in which nothing was downloaded yet. -/
def empty : ArtifactRoot where
  sets := fun _ => none
  staging := fun _ => none
  link := fun _ => none
  tmpLink := fun _ => none
  state := none
  stateTmp := none

/-- What `_read_state` makes of the state file. It raises on one that is no UTF-8, and null stands
for that. -/
def stateValue (root : ArtifactRoot) : PyVal :=
  match root.state with
  | some (.text (some v)) => v
  | some .garbled => .null
  | _ => .dict []

/-- Does the target of a link exist? -/
def linkExists (root : ArtifactRoot) (l : RootLink) : Bool :=
  (root.link l).any fun set => (root.sets set).isSome

def setSet (root : ArtifactRoot) (set : String) (dir : Option SetDir) : ArtifactRoot :=
  { root with sets := Function.update root.sets set dir }

def setStage (root : ArtifactRoot) (set : String) (dir : Option SetDir) : ArtifactRoot :=
  { root with staging := Function.update root.staging set dir }

def setLink (root : ArtifactRoot) (l : RootLink) (target : Option String) : ArtifactRoot :=
  { root with link := Function.update root.link l target }

def setTmpLink (root : ArtifactRoot) (l : RootLink) (target : Option String) : ArtifactRoot :=
  { root with tmpLink := Function.update root.tmpLink l target }

/-- A staged directory with a file written or removed. -/
def setStagedFile (root : ArtifactRoot) (set name : String) (bytes : Option (List UInt8)) :
    ArtifactRoot :=
  root.setStage set (some (Function.update ((root.staging set).getD fun _ => none) name bytes))

end ArtifactRoot

/-- One part of a path: no separator, and no special name. -/
def isPlain (name : String) : Bool :=
  name ≠ "" && name ≠ "." && name ≠ ".." && name.toList.all fun c => c ≠ '/' && c.toNat ≠ 0

/-- The calls of the downloader: the object storage, the clock, and every step on its root. -/
inductive ArtifactCall
  | getText (key : String)
  | download (path : PyVal) (set name : String)
  | utcNow
  | sha256File (set name : String)
  | stateExists
  | readState
  | writeStateTmp (state : PyVal)
  | replaceState
  | stageExists (set : String)
  | removeStage (set : String)
  | clearStage (set : String)
  | makeStage (set : String)
  | setExists (set : String)
  | removeSet (set : String)
  | moveStage (set : String)
  | fsyncSet (set : String)
  | tmpLinkExists (l : RootLink)
  | unlinkTmp (l : RootLink)
  | symlinkTmp (l : RootLink) (set : String)
  | isSymlink (l : RootLink)
  | unlink (l : RootLink)
  | replaceLink (l : RootLink)
  | linkExists (l : RootLink)
  | resolveName (l : RootLink)

abbrev ArtifactCall.Ans : ArtifactCall → Type
  | .getText _ => JsonText
  | .utcNow => String
  | .sha256File _ _ => String
  | .stateExists => Bool
  | .readState => StateText
  | .stageExists _ => Bool
  | .setExists _ => Bool
  | .tmpLinkExists _ => Bool
  | .isSymlink _ => Bool
  | .linkExists _ => Bool
  | .resolveName _ => String
  | _ => Unit

abbrev ArtifactI : Interface := ⟨ArtifactCall, ArtifactCall.Ans⟩

/-- What lies outside the root at one moment: the polled pointer, the stored objects, each with
what a failed transfer leaves behind, the clock, and the digest of a file. -/
structure Storage where
  pointer : Except Exc JsonText
  object : PyVal → Except (Exc × Option (List UInt8)) (List UInt8)
  now : String
  sha256 : List UInt8 → String

/-- An operating-system error of a class. -/
def osError (name : String) : Exc := ⟨.other name, []⟩

/-- What `read_text` raises on bytes that are no UTF-8. It is no error of the operating system. -/
def unicodeDecodeError : Exc := ⟨.other "UnicodeDecodeError", []⟩

/-- A call answered and carried out. -/
def ArtifactCall.run (s : Storage) (root : ArtifactRoot) :
    (op : ArtifactCall) → Except Exc op.Ans × ArtifactRoot
  | .getText _ => (s.pointer, root)
  | .download path set name =>
      match s.object path with
      | .ok bytes => (.ok (), root.setStagedFile set name (some bytes))
      | .error (e, rest) => (.error e, root.setStagedFile set name rest)
  | .utcNow => (.ok s.now, root)
  | .sha256File set name =>
      match (root.staging set).bind fun dir => dir name with
      | some bytes => (.ok (s.sha256 bytes), root)
      | none => (.error (osError "FileNotFoundError"), root)
  | .stateExists => (.ok root.state.isSome, root)
  | .readState =>
      match root.state with
      | some text => (.ok text, root)
      | none => (.error (osError "FileNotFoundError"), root)
  | .writeStateTmp state => (.ok (), { root with stateTmp := some (.text (some state)) })
  | .replaceState =>
      match root.stateTmp with
      | some text => (.ok (), { root with state := some text, stateTmp := none })
      | none => (.error (osError "FileNotFoundError"), root)
  | .stageExists set => (.ok (root.staging set).isSome, root)
  | .removeStage set => (.ok (), root.setStage set none)
  | .clearStage set => (.ok (), root.setStage set none)
  | .makeStage set =>
      if (root.staging set).isSome then (.error (osError "FileExistsError"), root)
      else (.ok (), root.setStage set (some fun _ => none))
  | .setExists set => (.ok (root.sets set).isSome, root)
  | .removeSet set => (.ok (), root.setSet set none)
  | .moveStage set =>
      if (root.staging set).isSome then
        (.ok (), (root.setSet set (root.staging set)).setStage set none)
      else (.error (osError "FileNotFoundError"), root)
  | .fsyncSet _ => (.ok (), root)
  | .tmpLinkExists l => (.ok (root.tmpLink l).isSome, root)
  | .unlinkTmp l => (.ok (), root.setTmpLink l none)
  | .symlinkTmp l set =>
      if (root.tmpLink l).isSome then (.error (osError "FileExistsError"), root)
      else (.ok (), root.setTmpLink l (some set))
  | .isSymlink l => (.ok (root.link l).isSome, root)
  | .unlink l => (.ok (), root.setLink l none)
  | .replaceLink l =>
      match root.tmpLink l with
      | some set => (.ok (), (root.setLink l (some set)).setTmpLink l none)
      | none => (.error (osError "FileNotFoundError"), root)
  | .linkExists l => (.ok (root.linkExists l), root)
  | .resolveName l =>
      match root.link l with
      | some set => (.ok set, root)
      | none => (.error (osError "FileNotFoundError"), root)

/-- The names that a call puts into a path. -/
def ArtifactCall.names : ArtifactCall → List String
  | .download _ set name => [set, name]
  | .sha256File set name => [set, name]
  | .stageExists set => [set]
  | .removeStage set => [set]
  | .clearStage set => [set]
  | .makeStage set => [set]
  | .setExists set => [set]
  | .removeSet set => [set]
  | .moveStage set => [set]
  | .fsyncSet set => [set]
  | .symlinkTmp _ set => [set]
  | _ => []

/-- Is it said what the call does? A move onto a set that exists ends up inside of it. -/
def ArtifactCall.specified (root : ArtifactRoot) (op : ArtifactCall) : Prop :=
  (∀ name ∈ op.names, isPlain name = true) ∧ ∀ set, op = .moveStage set → root.sets set = none

/-- What a call that fails on the disk may leave changed. The pointer and the clock are no matter
of the disk, and a state file that is there can be read. A move that fails leaves the root as it
was: the staging area is on the same file system, where the move is one rename. The copy that
`shutil.move` falls back on when the rename is refused may leave a partial directory; it is left
out. -/
def ArtifactCall.damages (root root' : ArtifactRoot) : ArtifactCall → Prop
  | .getText _ => False
  | .utcNow => False
  | .readState => False
  | .removeSet set => ∃ dir, root' = root.setSet set dir
  | .removeStage set => ∃ dir, root' = root.setStage set dir
  | .clearStage set => ∃ dir, root' = root.setStage set dir
  | .makeStage set => ∃ dir, root' = root.setStage set dir
  | .writeStateTmp _ => ∃ text, root' = { root with stateTmp := text }
  | _ => root' = root

variable (sha256 : List UInt8 → String) (pointer : Except Exc JsonText)

/-- A disk that works, and any stored objects, while the polled pointer is this one. -/
def artifactWorld : World ArtifactI Exc ArtifactRoot := fun root op r root' =>
  op.specified root → ∃ s : Storage, s.pointer = pointer ∧ s.sha256 = sha256 ∧
    (r, root') = op.run s root

/-- A disk on which every call may fail, but for the reading of the state file. -/
def faultyWorld : World ArtifactI Exc ArtifactRoot := fun root op r root' =>
  artifactWorld sha256 pointer root op r root' ∨
    (op.specified root ∧ (∃ e, r = .error e) ∧ op.damages root root')

/-- A storage whose answers stay the same, with the root it serves. -/
def Storage.serve (s : Storage) (op : ArtifactCall) (root : ArtifactRoot) :
    Except Exc op.Ans × ArtifactRoot := op.run s root

theorem Storage.serve_step (s : Storage) (op : ArtifactCall) (root : ArtifactRoot) :
    artifactWorld s.sha256 s.pointer root op (s.serve op root).1 (s.serve op root).2 :=
  fun _ => ⟨s, rfl, rfl, rfl⟩

end System2
