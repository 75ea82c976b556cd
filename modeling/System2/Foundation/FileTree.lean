import System2.Foundation.Place
import Mathlib.Logic.Function.Basic

/-!
# File trees with links

A tree says what stands at each place: a directory, a file with the number of its contents,
or a link with the text that it leads to. A walk goes part by part and through links, and
needs a directory under every part. A reading of a path goes through links too, but takes a
part that is not there as it is written. Where both arrive, they arrive at the same place.

## Implementation notes

Either goes through a bounded number of links, with a bound of its own. Permissions are left
out.
-/

namespace Foundation

inductive FileNode
  | dir
  | file (inode : ℕ)
  | link (target : String)
  deriving DecidableEq

/-- What stands at each place, below directories only, and the number of the next new file. -/
structure FileTree where
  node : Place → Option FileNode
  next : ℕ
  top : node [] = some .dir
  parents : ∀ p name, node (p ++ [name]) ≠ none → node p = some .dir
  below : ∀ p i, node p = some (.file i) → i < next

/-- Why a path leads nowhere. -/
inductive WalkError
  | missing | notDir | exists | tooManyLinks
  deriving DecidableEq

/-- Where a walk ends: at a place, or where a directory has no such name. -/
inductive WalkEnd
  | there (p : Place)
  | absent (dir : Place) (name : String)
  deriving DecidableEq

def WalkEnd.place : WalkEnd → Place
  | .there p => p
  | .absent dir name => dir ++ [name]

namespace FileTree

variable (tree : FileTree)

/-! ### Walks -/

/-- A walk, given how one goes on behind a link. -/
def walkVia (follow : Place → List String → Except WalkError WalkEnd) :
    Place → List String → Except WalkError WalkEnd
  | p, [] => .ok (.there p)
  | p, part :: rest =>
      if tree.node p ≠ some .dir then .error .notDir
      else if part = ".." then walkVia follow p.dropLast rest
      else
        match tree.node (p ++ [part]) with
        | some (.link target) => follow (p.start target) (Place.parts target ++ rest)
        | some _ => walkVia follow (p ++ [part]) rest
        | none => if rest = [] then .ok (.absent p part) else .error .missing

/-- A walk through at most so many links. -/
def walk : ℕ → Place → List String → Except WalkError WalkEnd
  | 0 => tree.walkVia fun _ _ => .error .tooManyLinks
  | links + 1 => tree.walkVia (walk links)

/-- A reading of a path, given how one goes on behind a link. -/
def readVia (follow : Place → List String → Option Place) : Place → List String → Option Place
  | p, [] => some p
  | p, part :: rest =>
      if part = ".." then readVia follow p.dropLast rest
      else
        match tree.node (p ++ [part]) with
        | some (.link target) => follow (p.start target) (Place.parts target ++ rest)
        | _ => readVia follow (p ++ [part]) rest

/-- The place that a path is read as, through at most so many links: `realpath` without
`strict`. -/
def realpath : ℕ → Place → List String → Option Place
  | 0 => tree.readVia fun _ _ => none
  | links + 1 => tree.readVia (realpath links)

/-- Is there a directory where a path leads? -/
def isDir (links : ℕ) (p : Place) (parts : List String) : Bool :=
  match tree.walk links p parts with
  | .ok (.there q) => tree.node q = some .dir
  | _ => false

/-! ### New directories and files -/

/-- A place below a directory where nothing stands. -/
abbrev Free (dir : Place) (name : String) : Prop :=
  tree.node dir = some .dir ∧ tree.node (dir ++ [name]) = none

/-- Put a directory or a new file where nothing stands. -/
def put (dir : Place) (name : String) (new : FileNode) (h : tree.Free dir name)
    (hnew : ∀ i, new = .file i → i = tree.next) : FileTree where
  node := Function.update tree.node (dir ++ [name]) (some new)
  next := tree.next + 1
  top := by
    rw [Function.update_of_ne (by simp)]
    exact tree.top
  parents p part hp := by
    have hdir : Function.update tree.node (dir ++ [name]) (some new) dir = some .dir := by
      rw [Function.update_of_ne (by simp)]
      exact h.1
    by_cases hsame : p ++ [part] = dir ++ [name]
    · obtain ⟨rfl, -⟩ := List.append_inj' hsame rfl
      exact hdir
    · rw [Function.update_of_ne hsame] at hp
      have hparent := tree.parents p part hp
      rw [Function.update_of_ne, hparent]
      rintro rfl
      rw [h.2] at hparent
      cases hparent
  below p i hp := by
    by_cases hsame : p = dir ++ [name]
    · subst hsame
      rw [Function.update_self] at hp
      have hi := hnew i (Option.some.inj hp)
      omega
    · rw [Function.update_of_ne hsame] at hp
      exact Nat.lt_succ_of_lt (tree.below p i hp)

/-- A tree with nothing below its top. -/
def bare : FileTree where
  node p := if p = [] then some .dir else none
  next := 0
  top := if_pos rfl
  parents p name h := absurd (if_neg (by simp)) h
  below p i h := by
    split_ifs at h
    cases h

/-- `os.mkdir` of a name under a path. -/
def mkdir (links : ℕ) (p : Place) (parents : List String) (name : String) :
    Except WalkError FileTree :=
  match tree.walk links p parents with
  | .error e => .error e
  | .ok (.absent _ _) => .error .missing
  | .ok (.there q) =>
      if tree.node q ≠ some .dir then .error .notDir
      else if name = ".." then .error .exists
      else if h : tree.Free q name then .ok (tree.put q name .dir h fun _ => FileNode.noConfusion)
      else .error .exists

/-- `Path.mkdir` with `exist_ok`, given what is done where the parent is missing. -/
def mkdirOr (links : ℕ) (p : Place) (parents : List String) (name : String)
    (missing : Except WalkError FileTree) : Except WalkError FileTree :=
  match tree.mkdir links p parents name with
  | .ok tree' => .ok tree'
  | .error .missing => missing
  | .error e => if tree.isDir links p (parents ++ [name]) then .ok tree else .error e

/-- `Path.mkdir` with `parents` and `exist_ok`, of the parts from the last one on. -/
def makeDirs (links : ℕ) (p : Place) : List String → Except WalkError FileTree
  | [] => .ok tree
  | name :: above => tree.mkdirOr links p above.reverse name
      ((makeDirs links p above).bind fun tree' =>
        tree'.mkdirOr links p above.reverse name (.error .missing))

/-- `open` for reading and writing: the file that a path leads to, a new one where nothing
stands. -/
def openOrCreate (links : ℕ) (p : Place) (parts : List String) : Option (FileTree × ℕ) :=
  match tree.walk links p parts with
  | .ok (.there q) =>
      match tree.node q with
      | some (.file i) => some (tree, i)
      | _ => none
  | .ok (.absent dir name) =>
      if h : tree.Free dir name then
        some (tree.put dir name (.file tree.next) h fun _ heq => (FileNode.file.inj heq).symm,
          tree.next)
      else none
  | .error _ => none

/-! ### A walk and a reading -/

variable {tree} {tree' tree'' : FileTree} {links links' : ℕ} {p q r : Place}
  {parts : List String} {spot : WalkEnd}

theorem walkVia_readVia {follow : Place → List String → Except WalkError WalkEnd}
    {follow' : Place → List String → Option Place}
    (hfollow : ∀ p parts spot r, follow p parts = .ok spot → follow' p parts = some r →
      spot.place = r)
    (hwalk : tree.walkVia follow p parts = .ok spot)
    (hread : tree.readVia follow' p parts = some r) : spot.place = r := by
  induction parts generalizing p with
  | nil =>
      obtain rfl : WalkEnd.there p = spot := Except.ok.inj hwalk
      exact Option.some.inj hread
  | cons part rest ih =>
      rw [walkVia] at hwalk
      rw [readVia] at hread
      by_cases hdir : tree.node p = some .dir
      · rw [if_neg (not_not_intro hdir)] at hwalk
        by_cases hup : part = ".."
        · rw [if_pos hup] at hwalk hread
          exact ih hwalk hread
        · rw [if_neg hup] at hwalk hread
          cases hnode : tree.node (p ++ [part]) with
          | none =>
              rw [hnode] at hwalk hread
              by_cases hlast : rest = []
              · subst hlast
                obtain rfl : WalkEnd.absent p part = spot := Except.ok.inj hwalk
                exact Option.some.inj hread
              · exact absurd hwalk (by simp [hlast])
          | some node =>
              rw [hnode] at hwalk hread
              cases node with
              | dir => exact ih hwalk hread
              | file i => exact ih hwalk hread
              | link target => exact hfollow _ _ _ _ hwalk hread
      · rw [if_pos hdir] at hwalk
        cases hwalk

/-- A walk that arrives does so where the path is read to lead. -/
theorem walk_realpath (hwalk : tree.walk links p parts = .ok spot)
    (hread : tree.realpath links' p parts = some r) : spot.place = r := by
  induction links generalizing links' p parts spot r with
  | zero =>
      unfold walk at hwalk
      cases links' with
      | zero => exact walkVia_readVia (fun _ _ _ _ h _ => by cases h) hwalk hread
      | succ links' => exact walkVia_readVia (fun _ _ _ _ h _ => by cases h) hwalk hread
  | succ links ih =>
      unfold walk at hwalk
      cases links' with
      | zero => exact walkVia_readVia (fun _ _ _ _ _ h => by cases h) hwalk hread
      | succ links' => exact walkVia_readVia (fun _ _ _ _ h h' => ih h h') hwalk hread

/-! ### Trees with more directories -/

/-- The same tree, but for directories where nothing stood. -/
structure DirsAdded (tree tree' : FileTree) : Prop where
  node : ∀ p, tree'.node p = tree.node p ∨ tree.node p = none ∧ tree'.node p = some .dir
  next : tree.next ≤ tree'.next

theorem DirsAdded.refl : DirsAdded tree tree := ⟨fun _ => Or.inl rfl, Nat.le_refl _⟩

theorem DirsAdded.trans (h : DirsAdded tree tree') (h' : DirsAdded tree' tree'') :
    DirsAdded tree tree'' := by
  refine ⟨fun p => ?_, Nat.le_trans h.next h'.next⟩
  rcases h'.node p with hsame | ⟨hnone, hdir⟩
  · rw [hsame]
    exact h.node p
  · rcases h.node p with hsame | ⟨-, hmade⟩
    · exact Or.inr ⟨hsame ▸ hnone, hdir⟩
    · rw [hmade] at hnone
      cases hnone

theorem DirsAdded.file_iff (h : DirsAdded tree tree') {i : ℕ} :
    tree'.node p = some (.file i) ↔ tree.node p = some (.file i) := by
  rcases h.node p with hsame | ⟨hnone, hdir⟩
  · rw [hsame]
  · simp [hnone, hdir]

theorem dirsAdded_put {name : String} (h : tree.Free p name)
    (hnew : ∀ i, FileNode.dir = .file i → i = tree.next) :
    DirsAdded tree (tree.put p name .dir h hnew) := by
  refine ⟨fun q => ?_, Nat.le_succ _⟩
  by_cases hsame : q = p ++ [name]
  · subst hsame
    exact Or.inr ⟨h.2, Function.update_self ..⟩
  · exact Or.inl (Function.update_of_ne hsame ..)

theorem dirsAdded_mkdir {name : String} (h : tree.mkdir links p parts name = .ok tree') :
    DirsAdded tree tree' := by
  unfold mkdir at h
  split at h
  · cases h
  · cases h
  · split_ifs at h with hdir hup hfree
    obtain rfl := Except.ok.inj h
    exact dirsAdded_put hfree _

theorem dirsAdded_mkdirOr {name : String} {missing : Except WalkError FileTree}
    (h : tree.mkdirOr links p parts name missing = .ok tree') :
    DirsAdded tree tree' ∨ missing = .ok tree' := by
  unfold mkdirOr at h
  split at h
  · rename_i made hmade
    obtain rfl := Except.ok.inj h
    exact Or.inl (dirsAdded_mkdir hmade)
  · exact Or.inr h
  · split_ifs at h
    obtain rfl := Except.ok.inj h
    exact Or.inl .refl

/-- `mkdir` adds directories and nothing else. -/
theorem dirsAdded_makeDirs (h : tree.makeDirs links p parts = .ok tree') :
    DirsAdded tree tree' := by
  induction parts generalizing tree' with
  | nil =>
      obtain rfl := Except.ok.inj h
      exact .refl
  | cons name above ih =>
      rcases dirsAdded_mkdirOr h with hadded | hmissing
      · exact hadded
      · cases habove : tree.makeDirs links p above with
        | error e =>
            rw [habove] at hmissing
            cases hmissing
        | ok between =>
            rw [habove] at hmissing
            refine (ih habove).trans ((dirsAdded_mkdirOr hmissing).resolve_right ?_)
            exact fun hnone => by cases hnone

theorem readVia_congr (h : DirsAdded tree tree') {follow : Place → List String → Option Place} :
    tree'.readVia follow p parts = tree.readVia follow p parts := by
  induction parts generalizing p with
  | nil => rfl
  | cons part rest ih =>
      rw [readVia, readVia]
      by_cases hup : part = ".."
      · rw [if_pos hup, if_pos hup, ih]
      · rw [if_neg hup, if_neg hup, ih]
        rcases h.node (p ++ [part]) with hsame | ⟨hnone, hdir⟩
        · rw [hsame]
        · rw [hnone, hdir]

/-- A path is read alike with more directories. -/
theorem DirsAdded.realpath_eq (h : DirsAdded tree tree') :
    tree'.realpath links p parts = tree.realpath links p parts := by
  induction links generalizing p parts with
  | zero => exact readVia_congr h
  | succ links ih =>
      have hfollow : tree'.realpath links = tree.realpath links := by
        funext p parts
        exact ih
      unfold realpath
      rw [hfollow]
      exact readVia_congr h

/-- What is opened after directories were made, where a path is read to lead to a file: this
file. -/
theorem DirsAdded.opens_file {i j : ℕ} (h : DirsAdded tree tree')
    (hread : tree.realpath links' p parts = some r) (hfile : tree.node r = some (.file j))
    (hopen : tree'.openOrCreate links p parts = some (tree'', i)) : i = j ∧ tree'' = tree' := by
  have hfile' := h.file_iff.mpr hfile
  rw [← h.realpath_eq] at hread
  unfold openOrCreate at hopen
  split at hopen
  · rename_i q hwalk
    obtain rfl : q = r := walk_realpath hwalk hread
    rw [hfile'] at hopen
    obtain ⟨rfl, rfl⟩ := Prod.mk.inj (Option.some.inj hopen)
    exact ⟨rfl, rfl⟩
  · rename_i dir name hwalk
    obtain rfl : dir ++ [name] = r := walk_realpath hwalk hread
    split_ifs at hopen with hfree
    rw [hfree.2] at hfile'
    cases hfile'
  · cases hopen

/-! ### A path where nothing stands -/

theorem node_above (h : tree.node (p ++ q) ≠ none) (hq : q ≠ []) : tree.node p = some .dir := by
  induction q using List.reverseRecOn with
  | nil => exact absurd rfl hq
  | append_singleton q name ih =>
      rw [← List.append_assoc] at h
      have hdir := tree.parents _ _ h
      by_cases hempty : q = []
      · subst hempty
        rwa [List.append_nil] at hdir
      · exact ih (by simp [hdir]) hempty

/-- Where nothing stands, nothing stands below. -/
theorem node_below (h : tree.node p = none) (q : Place) : tree.node (p ++ q) = none := by
  by_contra hnode
  by_cases hq : q = []
  · subst hq
    rw [List.append_nil] at hnode
    exact hnode h
  · rw [node_above hnode hq] at h
    cases h

theorem walkVia_down {follow : Place → List String → Except WalkError WalkEnd}
    {more : List String} (hdir : tree.node (p ++ parts) = some .dir) (hplain : ".." ∉ parts) :
    tree.walkVia follow p (parts ++ more) = tree.walkVia follow (p ++ parts) more := by
  induction parts generalizing p with
  | nil => rw [List.append_nil, List.nil_append]
  | cons part rest ih =>
      have hassoc : p ++ part :: rest = p ++ [part] ++ rest := by simp
      have hp : tree.node p = some .dir := node_above (by simp [hdir]) (List.cons_ne_nil part rest)
      have hpart : tree.node (p ++ [part]) = some .dir := by
        by_cases hrest : rest = []
        · subst hrest
          exact hdir
        · refine node_above (q := rest) ?_ hrest
          rw [← hassoc, hdir]
          exact Option.some_ne_none _
      have hup : part ≠ ".." := fun heq => hplain (heq ▸ List.mem_cons_self)
      rw [List.cons_append, walkVia, if_neg (not_not_intro hp), if_neg hup, hpart, hassoc]
      exact ih (hassoc ▸ hdir) fun hmem => hplain (List.mem_cons_of_mem part hmem)

/-- A walk down directories arrives. -/
theorem walk_down (links : ℕ) (more : List String) (hdir : tree.node (p ++ parts) = some .dir)
    (hplain : ".." ∉ parts) :
    tree.walk links p (parts ++ more) = tree.walk links (p ++ parts) more := by
  cases links with
  | zero => exact walkVia_down hdir hplain
  | succ links => exact walkVia_down hdir hplain

theorem walk_nil : tree.walk links p [] = .ok (.there p) := by
  cases links with
  | zero => rfl
  | succ links => rfl

/-- A name that is not there ends a walk. -/
theorem walk_absent {name : String} {rest : List String} (hfree : tree.Free p name)
    (hup : name ≠ "..") :
    tree.walk links p (name :: rest) =
      if rest = [] then .ok (.absent p name) else .error .missing := by
  have hvia : ∀ follow, tree.walkVia follow p (name :: rest) =
      if rest = [] then .ok (.absent p name) else .error .missing := by
    intro follow
    rw [walkVia, if_neg (not_not_intro hfree.1), if_neg hup, hfree.2]
  cases links with
  | zero => exact hvia _
  | succ links => exact hvia _

theorem mkdir_down (links : ℕ) (parts : List String) {name : String}
    (hdir : tree.node (p ++ parts) = some .dir)
    (hnew : tree.node (p ++ parts ++ [name]) = none) (hplain : ".." ∉ parts) (hup : name ≠ "..") :
    ∃ tree', tree.mkdir links p parts name = .ok tree' ∧
      tree'.node = Function.update tree.node (p ++ parts ++ [name]) (some .dir) := by
  have hfree : tree.Free (p ++ parts) name := ⟨hdir, hnew⟩
  have hwalk : tree.walk links p parts = .ok (.there (p ++ parts)) := by
    have hdown := walk_down links [] hdir hplain
    rwa [List.append_nil, walk_nil] at hdown
  refine ⟨tree.put (p ++ parts) name .dir hfree fun _ => FileNode.noConfusion, ?_, rfl⟩
  unfold mkdir
  rw [hwalk]
  dsimp only
  rw [if_neg (not_not_intro hdir), if_neg hup, dif_pos hfree]

/-- Directories are made down a path whose first part is not there, and nothing stands below
them. -/
theorem makeDirs_new (links : ℕ) {first : String} {rest : List String}
    (hfree : tree.Free p first)
    (hplain : ".." ∉ first :: rest) :
    ∃ tree', tree.makeDirs links p (first :: rest).reverse = .ok tree' ∧
      tree'.node (p ++ first :: rest) = some .dir ∧
        ∀ q, q ≠ [] → tree'.node (p ++ first :: rest ++ q) = none := by
  have hfirst : first ≠ ".." := fun heq => hplain (heq ▸ List.mem_cons_self)
  induction rest using List.reverseRecOn with
  | nil =>
      obtain ⟨tree', hmade, hnode⟩ := mkdir_down links []
        (by rw [List.append_nil]; exact hfree.1) (by rw [List.append_nil]; exact hfree.2)
        List.not_mem_nil hfirst
      rw [List.append_nil] at hnode
      refine ⟨tree', ?_, ?_, fun q hq => ?_⟩
      · change tree.makeDirs links p [first] = _
        rw [makeDirs, mkdirOr, List.reverse_nil, hmade]
      · rw [hnode, Function.update_self]
      · rw [hnode, Function.update_of_ne (by simp [hq])]
        exact node_below hfree.2 q
  | append_singleton rest name ih =>
      have hrest : ".." ∉ first :: rest := fun hmem => hplain (by
        rw [← List.cons_append]
        exact List.mem_append_left [name] hmem)
      have hname : name ≠ ".." := fun heq => hplain (by simp [heq])
      obtain ⟨between, hbetween, hdir, hempty⟩ := ih hrest
      obtain ⟨tree', hmade, hnode⟩ := mkdir_down links _ hdir
        (hempty [name] (List.cons_ne_nil name [])) hrest hname
      have hplace : p ++ first :: (rest ++ [name]) = p ++ first :: rest ++ [name] := by simp
      have hmissing : tree.mkdir links p (first :: rest) name = .error .missing := by
        unfold mkdir
        rw [walk_absent hfree hfirst]
        by_cases hlast : rest = []
        · rw [if_pos hlast]
        · rw [if_neg hlast]
      refine ⟨tree', ?_, ?_, fun q hq => ?_⟩
      · rw [← List.cons_append, List.reverse_append]
        change tree.mkdirOr links p (first :: rest).reverse.reverse name
          ((tree.makeDirs links p (first :: rest).reverse).bind fun tree' =>
            tree'.mkdirOr links p (first :: rest).reverse.reverse name (.error .missing)) = _
        rw [hbetween, List.reverse_reverse, mkdirOr, hmissing]
        change between.mkdirOr links p (first :: rest) name (.error .missing) = _
        rw [mkdirOr, hmade]
      · rw [hplace, hnode, Function.update_self]
      · rw [hplace, hnode, Function.update_of_ne (by simp [hq]), List.append_assoc]
        exact hempty _ (by simp)

/-- Where the first part of a path is not there, a new file is opened at its end. -/
theorem opens_new (links : ℕ) {first : String} {rest : List String} (hfree : tree.Free p first)
    (hplain : ".." ∉ first :: rest) :
    ∃ tree' tree'' i, tree.makeDirs links p (first :: rest).dropLast.reverse = .ok tree' ∧
      tree'.openOrCreate links p (first :: rest) = some (tree'', i) ∧
        (∀ q, tree.node q ≠ some (.file i)) ∧
          tree''.node (p ++ first :: rest) = some (.file i) := by
  have hopen : ∀ {t : FileTree} {dirs : List String} {name : String}, DirsAdded tree t →
      t.Free (p ++ dirs) name → ".." ∉ dirs ++ [name] →
      ∃ t' i, t.openOrCreate links p (dirs ++ [name]) = some (t', i) ∧
        (∀ q, tree.node q ≠ some (.file i)) ∧ t'.node (p ++ (dirs ++ [name])) = some (.file i) := by
    intro t dirs name hadded hnew hplain
    have hdirs : ".." ∉ dirs := fun hmem => hplain (List.mem_append_left [name] hmem)
    have hname : name ≠ ".." := fun heq => hplain (by simp [heq])
    refine ⟨t.put (p ++ dirs) name (.file t.next) hnew fun _ heq => (FileNode.file.inj heq).symm,
      t.next, ?_, fun q hq => ?_, ?_⟩
    · unfold openOrCreate
      rw [walk_down links [name] hnew.1 hdirs, walk_absent hnew hname, if_pos rfl]
      dsimp only
      rw [dif_pos hnew]
    · have hbelow := tree.below q _ hq
      have hnext := hadded.next
      omega
    · rw [← List.append_assoc]
      exact Function.update_self ..
  rcases List.eq_nil_or_concat rest with rfl | ⟨dirs, name, rfl⟩
  · have hhere : tree.Free (p ++ []) first := by rwa [List.append_nil]
    obtain ⟨tree'', i, hopened, hnew, hfile⟩ := hopen .refl hhere hplain
    exact ⟨tree, tree'', i, rfl, hopened, hnew, hfile⟩
  · rw [List.concat_eq_append, ← List.cons_append] at hplain ⊢
    have hdirs : ".." ∉ first :: dirs := fun hmem => hplain (List.mem_append_left [name] hmem)
    obtain ⟨tree', hmade, hdir, hempty⟩ := makeDirs_new links hfree hdirs
    obtain ⟨tree'', i, hopened⟩ := hopen (dirsAdded_makeDirs hmade)
      ⟨hdir, hempty [name] (List.cons_ne_nil name [])⟩ hplain
    rw [List.dropLast_concat]
    exact ⟨tree', tree'', i, hmade, hopened⟩

end FileTree

end Foundation
