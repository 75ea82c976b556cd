import System2.Common.QueueBackend
import System2.Common.Secrets
import System2.Foundation.FileTree

/-!
# The shared queue file (`common/queue_backend.py`)

A database is created at any path that it is opened with. So a start that may not create the
queue first asserts that its path leads to the file that the other components have open. The
assertion reads the path with the home directory put in for a tilde. The file is opened at
the path as it is written.

## Implementation notes

The number of a file stands for its device and inode. What a `SELECT` over a URI finds is a
parameter; for a path with a `?`, `#` or `%` the URI names another file, and that the
assertion may create it is left out. Permissions and read errors are left out.
-/

namespace System2
open Foundation

/-! ### Paths -/

/-- A `PosixPath`: an empty part and a single dot are dropped. -/
structure PosixPath where
  absolute : Bool
  parts : List String

namespace PosixPath

def ofText (text : String) : PosixPath := ⟨Place.isAbsolute text, Place.parts text⟩

variable (path : PosixPath)

/-- `str(path)`. -/
def text : String :=
  let joined := String.intercalate "/" path.parts
  if path.absolute then "/" ++ joined else if path.parts.isEmpty then "." else joined

/-- `path.parent`. -/
def parent : PosixPath := { path with parts := path.parts.dropLast }

end PosixPath

/-- The text of a resolved path. -/
def placeText (p : Place) : String := (PosixPath.mk true p).text

/-- What the process finds around it. -/
structure Host where
  tree : FileTree
  cwd : Place
  cwdDir : tree.node cwd = some .dir
  /-- The home directory that a first part with a tilde names. -/
  home : String → Option String
  /-- The links that the system goes through, and those that `realpath` does. -/
  openLinks : ℕ
  realLinks : ℕ
  /-- The bytes of a file. -/
  size : ℕ → ℕ
  /-- Is there a table `queue`, by a `SELECT` over a URI? `none` is a `DatabaseError`. -/
  hasQueue : String → Option Bool

namespace Host

variable (host : Host) (path : PosixPath)

/-- `path.expanduser()`. -/
def expanduser : Except Exc PosixPath :=
  match path.absolute, path.parts with
  | false, first :: rest =>
      if first.toList.head? = some '~' then
        match host.home first with
        | none => .error ⟨.other "RuntimeError", [.lit "Could not determine home directory."]⟩
        | some dir => .ok ⟨Place.isAbsolute dir, Place.parts dir ++ rest⟩
      else .ok path
  | _, _ => .ok path

/-- Where a path starts. -/
def start : Place := if path.absolute then [] else host.cwd

/-- `path.resolve()`. -/
def resolve : Except Exc Place :=
  match host.tree.realpath host.realLinks (host.start path) path.parts with
  | some p => .ok p
  | none => .error ⟨.other "RuntimeError", [.lit "Symlink loop from ", .repr (.str path.text)]⟩

/-- The file that a path leads to, with the home directory put in. -/
def fileAt : Option ℕ :=
  match host.expanduser path >>= host.resolve with
  | .ok p =>
      match host.tree.node p with
      | some (.file i) => some i
      | _ => none
  | .error _ => none

end Host

/-! ### The assertion -/

def sharedQueueMissing (msg : FString) : Exc := ⟨.other "SharedQueueMissing", msg⟩

/-- `hint`: the resolved path, and the given one if it is another. -/
def queueHint (path : PosixPath) (resolved : Place) : FString :=
  [.lit "resolved QUEUE_LOCAL_PATH -> ", .lit (placeText resolved)] ++
    if placeText resolved = path.text then []
    else [.lit " (from PosixPath(", .repr (.str path.text), .lit "))"]

/-- The identity of a file in a refusal. -/
def nodeNumber : FileNode → PyVal
  | .file i => .int i
  | _ => .null

/-- The class of the error for a place where nothing stands. -/
def statError (host : Host) (p : Place) : String :=
  match host.tree.walk host.openLinks [] p with
  | .error .notDir => "NotADirectoryError"
  | _ => "FileNotFoundError"

/-- The last check: the same file as the one expected. -/
def assertExpected (host : Host) (path : PosixPath) (resolved : Place) (inode : ℕ)
    (expected : PosixPath) : Except Exc Unit := do
  let exp ← host.expanduser expected
  let place ← host.resolve exp
  match host.tree.node place with
  | none => .error (sharedQueueMissing [.lit "QUEUE_LOCAL_EXPECTED_PATH cannot be read: ",
      .lit exp.text, .lit " (", .lit (statError host place),
      .lit "). Point it at the shared queue.db, or unset it."])
  | some node =>
      if node = .file inode then .ok ()
      else .error (sharedQueueMissing ([.lit "queue is not the expected file. "] ++
        queueHint path resolved ++ [.lit "; expected ", .lit (placeText place),
          .lit " (dev/inode ", .val (nodeNumber node), .lit ", got ", .val (.int inode),
          .lit "). Same name is not same file — this is the check that catches a private ",
          .lit "queue that merely looks correct."]))

/-- `_assert_shared_queue`. -/
def assertSharedQueue (host : Host) (path : PosixPath) (expected : Option PosixPath) :
    Except Exc Unit := do
  let expanded ← host.expanduser path
  if expanded.absolute = false then
    .error (sharedQueueMissing [.lit "QUEUE_LOCAL_PATH is not absolute: ", .repr (.str path.text),
      .lit ". It would resolve against the working directory (", .lit (placeText host.cwd),
      .lit ") and create a private queue there. A Windows path on a POSIX host looks exactly ",
      .lit "like this — it is one relative filename, not a path."])
  else if path.text.toList.contains '\\' then
    .error (sharedQueueMissing [.lit "QUEUE_LOCAL_PATH contains backslashes on a POSIX host: ",
      .repr (.str path.text),
      .lit ". That is a Windows path, and here it is just an oddly-named file."])
  else do
    let resolved ← host.resolve expanded
    match host.tree.node resolved with
    | none => .error (sharedQueueMissing ([.lit "shared queue.db does not exist: "] ++
        queueHint path resolved ++ [.lit ". System 2 does not create the shared queue — point ",
          .lit "QUEUE_LOCAL_PATH at the file System 3 and the bridge use, or set ",
          .lit "QUEUE_LOCAL_ALLOW_CREATE=true if this really is a new deployment."]))
    | some (.file inode) =>
        if host.size inode = 0 then
          .error (sharedQueueMissing ([.lit "shared queue.db is 0 bytes: "] ++
            queueHint path resolved ++ [.lit ". That is an empty database created by a wrong ",
              .lit "QUEUE_LOCAL_PATH, not the shared queue."]))
        else
          match host.hasQueue ("file:" ++ placeText resolved ++ "?mode=ro") with
          | none => .error (sharedQueueMissing
              ([.lit "shared queue.db is not a readable SQLite database: "] ++
                queueHint path resolved))
          | some false => .error (sharedQueueMissing
              ([.lit "file has no 'queue' table, so it is not the shared queue.db: "] ++
                queueHint path resolved))
          | some true =>
              match expected with
              | none => .ok ()
              | some exp => assertExpected host path resolved inode exp
    | some _ => .error (sharedQueueMissing ([.lit "shared queue path is not a file: "] ++
        queueHint path resolved))

/-! ### The file of a backend -/

/-- What a failed `mkdir` raises. -/
def mkdirError (path : PosixPath) : WalkError → Exc
  | .missing => ⟨.other "FileNotFoundError",
      [.lit "[Errno 2] No such file or directory: ", .repr (.str path.text)]⟩
  | .notDir => ⟨.other "NotADirectoryError",
      [.lit "[Errno 20] Not a directory: ", .repr (.str path.text)]⟩
  | .exists => ⟨.other "FileExistsError",
      [.lit "[Errno 17] File exists: ", .repr (.str path.text)]⟩
  | .tooManyLinks => ⟨.other "OSError",
      [.lit "[Errno 40] Too many levels of symbolic links: ", .repr (.str path.text)]⟩

/-- `self.path.parent.mkdir(parents=True, exist_ok=True)`. -/
def makeParent (host : Host) (path : PosixPath) : Except Exc FileTree :=
  (host.tree.makeDirs host.openLinks (host.start path) path.parent.parts.reverse).mapError
    (mkdirError path.parent)

/-- `sqlite3.connect(str(self.path))`. -/
def connectAt (host : Host) (path : PosixPath) (tree : FileTree) :
    Except Exc (FileTree × ℕ) :=
  match tree.openOrCreate host.openLinks (host.start path) path.parts with
  | some opened => .ok opened
  | none => .error ⟨.other "OperationalError", [.lit "unable to open database file"]⟩

/-- `LocalDurableBackend(...)` up to its connection: the settings, and the file that it has
open. -/
def LocalDurableBackend.init (host : Host) (path : PosixPath) (maxAttempts leaseSec : ℤ)
    (owner : String) (requireExisting : Bool) (expected : Option PosixPath) :
    Except Exc (LocalDurableBackend × FileTree × ℕ) := do
  let _ ← if requireExisting then assertSharedQueue host path expected else .ok ()
  let tree ← makeParent host path
  let leaseSec ← Exc.lift (PyVal.int leaseSec).toFloat
  let opened ← connectAt host path tree
  return (⟨maxAttempts, leaseSec, owner⟩, opened)

/-! ### The factory -/

/-- The queue that a process gets: a backend with the file that it has open in a tree, or the
topics of a project. -/
inductive BuiltQueue
  | fileBacked (backend : LocalDurableBackend) (tree : FileTree) (inode : ℕ)
  | pubSub (projectId : String) (dlqTopic : Option String)

/-- `QUEUE_LOCAL_PATH`. -/
def queuePath (s : Secrets) : PosixPath :=
  .ofText ((s.get? "QUEUE_LOCAL_PATH").getD "state/queue/queue.db")

/-- `QUEUE_LOCAL_EXPECTED_PATH`, empty as unset. -/
def expectedPath (s : Secrets) : Option PosixPath :=
  ((s.get? "QUEUE_LOCAL_EXPECTED_PATH").filter (· ≠ "")).map .ofText

/-- `QUEUE_PROVIDER`, empty as unset. -/
def queueProvider (s : Secrets) : String :=
  let named := (s.get? "QUEUE_PROVIDER").getD "pubsub"
  lower (if named = "" then "pubsub" else named)

/-- `build_queue`, in a process whose backends have an owner name. -/
def buildQueue (s : Secrets) (host : Host) (owner : String) : Except Exc BuiltQueue :=
  if queueProvider s = "local" then do
    let (backend, tree, inode) ← LocalDurableBackend.init host (queuePath s)
      (s.getInt "QUEUE_MAX_DELIVERY_ATTEMPTS" 5) (s.getInt "QUEUE_LEASE_SEC" 300) owner
      (!s.getBool "QUEUE_LOCAL_ALLOW_CREATE" false) (expectedPath s)
    return .fileBacked backend tree inode
  else if queueProvider s = "pubsub" then do
    let projectId ← s.require "PUBSUB_PROJECT_ID"
    return .pubSub projectId (s.get? "QUEUE_DLQ_TOPIC")
  else .error ⟨.builtin .valueError, [.lit "Unknown QUEUE_PROVIDER '", .lit (queueProvider s),
    .lit "' (expected pubsub|local)"]⟩

/-! ### What the assertion is about -/

section

variable {host : Host} {path exp : PosixPath} {resolved : Place} {inode : ℕ}
  {expected : Option PosixPath}

theorem expanduser_absolute (h : path.absolute = true) : host.expanduser path = .ok path := by
  unfold Host.expanduser
  rw [h]

/-- A relative path that becomes an absolute one has a tilde in front. -/
theorem expanduser_relative {expanded : PosixPath} (h : host.expanduser path = .ok expanded)
    (hpath : path.absolute = false) (hexpanded : expanded.absolute = true) :
    ∃ first rest, path.parts = first :: rest ∧ first.toList.head? = some '~' := by
  unfold Host.expanduser at h
  cases hparts : path.parts with
  | nil =>
      rw [hpath, hparts] at h
      rw [← Except.ok.inj h, hpath] at hexpanded
      cases hexpanded
  | cons first rest =>
      rw [hpath, hparts] at h
      dsimp only at h
      by_cases htilde : first.toList.head? = some '~'
      · exact ⟨first, rest, rfl, htilde⟩
      · rw [if_neg htilde] at h
        rw [← Except.ok.inj h, hpath] at hexpanded
        cases hexpanded

theorem fileAt_eq {expanded : PosixPath} (hexpanded : host.expanduser path = .ok expanded)
    (hresolved : host.resolve expanded = .ok resolved)
    (hfile : host.tree.node resolved = some (.file inode)) : host.fileAt path = some inode := by
  have hplace : host.expanduser path >>= host.resolve = .ok resolved :=
    bind_eq_ok_iff.mpr ⟨expanded, hexpanded, hresolved⟩
  unfold Host.fileAt
  rw [hplace]
  dsimp only
  rw [hfile]

theorem resolve_ok (h : host.resolve path = .ok resolved) :
    host.tree.realpath host.realLinks (host.start path) path.parts = some resolved := by
  unfold Host.resolve at h
  split at h
  · rename_i place hplace
    rw [hplace, Except.ok.inj h]
  · cases h

theorem assertExpected_ok (h : assertExpected host path resolved inode exp = .ok ()) :
    host.fileAt exp = some inode := by
  obtain ⟨expanded, hexpanded, h⟩ := bind_eq_ok_iff.mp h
  obtain ⟨place, hplace, h⟩ := bind_eq_ok_iff.mp h
  apply fileAt_eq hexpanded hplace
  cases hnode : host.tree.node place with
  | none =>
      rw [hnode] at h
      cases h
  | some node =>
      rw [hnode] at h
      dsimp only at h
      split_ifs at h with hsame
      rw [hsame]

/-- A path that is let through leads to a file, which is the one expected. -/
theorem assertSharedQueue_ok (h : assertSharedQueue host path expected = .ok ()) :
    ∃ expanded resolved inode, host.expanduser path = .ok expanded ∧ expanded.absolute = true ∧
      host.resolve expanded = .ok resolved ∧ host.tree.node resolved = some (.file inode) ∧
        ∀ e ∈ expected, host.fileAt e = some inode := by
  obtain ⟨expanded, hexpanded, h⟩ := bind_eq_ok_iff.mp h
  by_cases habsolute : expanded.absolute = false
  · rw [if_pos habsolute] at h
    cases h
  · rw [if_neg habsolute] at h
    split_ifs at h
    obtain ⟨resolved, hresolved, h⟩ := bind_eq_ok_iff.mp h
    cases hnode : host.tree.node resolved with
    | none =>
        rw [hnode] at h
        cases h
    | some node =>
        rw [hnode] at h
        cases node with
        | dir => cases h
        | link target => cases h
        | file inode =>
            refine ⟨expanded, resolved, inode, hexpanded, Bool.eq_true_of_not_eq_false habsolute,
              hresolved, hnode, ?_⟩
            dsimp only at h
            split_ifs at h
            cases hqueue : host.hasQueue ("file:" ++ placeText resolved ++ "?mode=ro") with
            | none =>
                rw [hqueue] at h
                cases h
            | some found =>
                rw [hqueue] at h
                cases found with
                | false => cases h
                | true =>
                    intro e he
                    obtain rfl := Option.mem_def.mp he
                    exact assertExpected_ok h

end

/-! ### What is opened -/

section

variable {host : Host} {s : Secrets} {owner : String} {b : LocalDurableBackend} {tree : FileTree}
  {i : ℕ}

theorem makeParent_ok {path : PosixPath} (h : makeParent host path = .ok tree) :
    host.tree.makeDirs host.openLinks (host.start path) path.parts.dropLast.reverse = .ok tree := by
  unfold makeParent PosixPath.parent at h
  cases hmade : host.tree.makeDirs host.openLinks (host.start path) path.parts.dropLast.reverse with
  | ok made =>
      rw [hmade] at h
      exact congrArg _ (Except.ok.inj h)
  | error e =>
      rw [hmade] at h
      cases h

theorem connectAt_ok {path : PosixPath} {made : FileTree} {opened : FileTree × ℕ}
    (h : connectAt host path made = .ok opened) :
    made.openOrCreate host.openLinks (host.start path) path.parts = some opened := by
  unfold connectAt at h
  split at h
  · rename_i found hfound
    rw [hfound, Except.ok.inj h]
  · cases h

/-- A backend that is built has asserted its path, made the directories above and opened it. -/
theorem buildQueue_fileBacked (hcreate : s.getBool "QUEUE_LOCAL_ALLOW_CREATE" false = false)
    (h : buildQueue s host owner = .ok (.fileBacked b tree i)) :
    assertSharedQueue host (queuePath s) (expectedPath s) = .ok () ∧ ∃ made,
      makeParent host (queuePath s) = .ok made ∧
        made.openOrCreate host.openLinks (host.start (queuePath s)) (queuePath s).parts =
          some (tree, i) := by
  unfold buildQueue at h
  rw [hcreate] at h
  split_ifs at h with hlocal hpubsub
  · obtain ⟨built, hbuilt, h⟩ := bind_eq_ok_iff.mp h
    obtain ⟨-, rfl, rfl⟩ := BuiltQueue.fileBacked.inj (Except.ok.inj h)
    obtain ⟨⟨⟩, hassert, hbuilt⟩ := bind_eq_ok_iff.mp hbuilt
    obtain ⟨made, hmade, hbuilt⟩ := bind_eq_ok_iff.mp hbuilt
    obtain ⟨leaseSec, -, hbuilt⟩ := bind_eq_ok_iff.mp hbuilt
    obtain ⟨opened, hopened, hbuilt⟩ := bind_eq_ok_iff.mp hbuilt
    rw [← Except.ok.inj hbuilt]
    exact ⟨hassert, made, hmade, connectAt_ok hopened⟩
  · obtain ⟨projectId, -, h⟩ := bind_eq_ok_iff.mp h
    cases Except.ok.inj h

/-- A home directory with the shared queue, and the directory of the engine. -/
def homeTree : FileTree :=
  let home := FileTree.bare.put [] "home" .dir (by decide +kernel) fun _ => FileNode.noConfusion
  let queue := home.put ["home"] "queue.db" (.file 1) (by decide +kernel)
    fun _ heq => (FileNode.file.inj heq).symm
  queue.put [] "engine" .dir (by decide +kernel) fun _ => FileNode.noConfusion

def homeHost : Host where
  tree := homeTree
  cwd := ["engine"]
  cwdDir := by decide +kernel
  home first := if first = "~" then some "/home" else none
  openLinks := 40
  realLinks := 40
  size _ := 4096
  hasQueue text := some (text = "file:/home/queue.db?mode=ro")

def tildeSettings : Secrets where
  environ := [("QUEUE_PROVIDER", "local"), ("QUEUE_LOCAL_PATH", "~/queue.db"),
    ("QUEUE_LOCAL_EXPECTED_PATH", "/home/queue.db")]
  fileValues := []

end

end System2
