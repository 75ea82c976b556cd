import System2.ArtifactSync.PlacesKept

/-!
# Which manifests a poll keeps inside of its directories

Every call of a poll changes what its own places hold, the directories of the set that
it names, or the places that an artifact name leads to. So a poll stays inside exactly
when the set id is one part of a path, no artifact name leads out of the staged
directory, and the set that is replaced is not the one that the active link leads to.
-/

namespace System2
open Foundation

/-- The directories of a set: direct children of `staging` and `sets`, and none when the id
is not one part of a path. -/
def SetZone (root : Place) (manifest : Option Manifest) (zone : Place) : Prop :=
  ∃ m part, manifest = some m ∧ Place.IsPart m.modelSetId part ∧
    (zone = stagingDir root ++ [part] ∨ zone = setsDir root ++ [part])

/-- A poll of the pointer changed nothing but the directories of its set, the links and the state
file, and nothing that the active link led to. -/
structure ConfinedTo (root : Place) (manifest : Option Manifest) (disk disk' : DiskTree) :
    Prop where
  inside : ∀ p, disk' p ≠ disk p →
    (∃ zone, SetZone root manifest zone ∧ zone <+: p) ∨ OwnFile root p (disk' p)
  target : ∀ target p, disk (linkPlace root .active) = some (.link target) → target <+: p →
    disk' p = disk p

/-- Every poll of the pointer is confined: on every disk whose active link, if there is one,
leads to the set of the name, and whose state file names the published set as active or not, and
whatever is stored. The poll may also die between two calls. -/
def ModelDownloader.PollsConfined (d : ModelDownloader) (root : Place)
    (sha256 : List UInt8 → String) (pointer : Except Exc JsonText) (served : Option String)
    (current : Bool) : Prop :=
  ∀ disk disk' out, StandsAt root served disk →
    (∀ m, publishedManifest pointer = some m → disk.namesActive root m.modelSetId = current) →
    Exec (diskWorld root sha256 pointer) d.pollOnce disk out disk' →
    ConfinedTo root (publishedManifest pointer) disk disk'

section Staged

variable (root : Place) (sha256 : List UInt8 → String) (stage : Place)

/-- A place in the staged directory, or a directory that is there anyway. -/
def AtHome (p : Place) : Prop := stage <+: p ∨ Standing root p

/-- An artifact that some storage lets through: it is fetched to a file inside of the staged
directory, and some content has its digest. -/
structure Artifact.Fetchable (art : Artifact) (name : String) : Prop where
  text : art.name = .str name
  path : ∃ key, art.path = .str key
  nul : Place.hasNul name = false
  home : ∀ p ∈ stage.trail name, AtHome root stage p
  file : ¬ Standing root (stage.join name) ∧ stage.join name ≠ stage
  digest : ∃ bytes, art.sha256.isStr (sha256 bytes) = true
  clear : stage.join name ∉ stage.way name

/-- A file in the place of neither's directories. -/
def Fits (earlier later : String) : Prop :=
  stage.join earlier ∉ stage.way later ∧ stage.join later ∉ stage.way earlier

/-- Artifacts that some storage lets through together, with their names. -/
structure StagedAs (arts : List Artifact) (names : List String) : Prop where
  fetchable : List.Forall₂ (fun art name => art.Fetchable root sha256 stage name) arts names
  fits : names.Pairwise (Fits stage)

/-- The walk of a name leads nowhere else, until it comes to a file of the names before. -/
def StaysHome (names : List String) (name : String) : Prop :=
  ∀ before p after, stage.trail name = before ++ p :: after →
    (∀ q ∈ before, AtHome root stage q ∧ ∀ n ∈ names, q ≠ stage.join n) → AtHome root stage p

end Staged

/-- The set id names no file or is one part of a path, no artifact name that can be come to leads
out, and the active link leads to another set when all artifacts can be fetched. -/
def Manifest.Confinable (root : Place) (sha256 : List UInt8 → String) (served : Option String)
    (m : Manifest) : Prop :=
  Place.hasNul m.modelSetId = true ∨ ∃ part, Place.IsPart m.modelSetId part ∧
    (∀ before art after names name, m.artifacts = before ++ art :: after →
      StagedAs root sha256 (stagingDir root ++ [part]) before names → art.name = .str name →
      Place.hasNul name = false → StaysHome root (stagingDir root ++ [part]) names name) ∧
    ∀ names, StagedAs root sha256 (stagingDir root ++ [part]) m.artifacts names →
      served ≠ some part

variable {root : Place} {sha256 : List UInt8 → String} {pointer : Except Exc JsonText}
  {served : Option String}

/-- What is kept inside of the directories of the set is confined, when they do not hold what the
active link leads to. -/
theorem KeptOutside.confined {manifest : Option Manifest} {zones : List Place} {disk disk₁ : DiskTree}
    (h : KeptOutside root zones disk disk₁) (hstands : StandsAt root served disk)
    (hzones : ∀ zone ∈ zones, SetZone root manifest zone)
    (hserved : ∀ set, served = some set → setsDir root ++ [set] ∉ zones) :
    ConfinedTo root manifest disk disk₁ where
  inside := by
    intro p hp
    rcases h p hp with ⟨zone, hzone, hprefix⟩ | hown
    · exact Or.inl ⟨zone, hzones zone hzone, hprefix⟩
    · exact Or.inr hown
  target := by
    intro target p hlink hprefix
    obtain ⟨set, hset, htarget⟩ := hstands.active _ hlink
    obtain rfl := DiskNode.link.inj htarget
    by_contra hne
    rcases h p hne with ⟨zone, hzone, hinside⟩ | hown
    · have hdeep : Deep root zone := by
        obtain ⟨m, part, -, -, rfl | rfl⟩ := hzones zone hzone
        · exact deep_staging root part
        · exact deep_sets root part
      obtain rfl := (deep_sets root set).eq_of_common hdeep hprefix hinside
      exact hserved set hset hzone
    · exact (deep_sets root set).not_own hprefix hown

/-! ### Downloading inside -/

section Downloading

variable {stage : Place} {disk₀ disk disk' : DiskTree} {names : List String} {name : String}

/-- Every place that the walk comes to is at home. -/
theorem StaysHome.comes {before after : List Place} {p : Place}
    (h : StaysHome root stage names name) (htrail : stage.trail name = before ++ p :: after)
    (hclear : ∀ q ∈ before, ∀ n ∈ names, q ≠ stage.join n) : AtHome root stage p := by
  induction hn : before.length using Nat.strong_induction_on generalizing before p after with
  | _ n ih =>
      refine h before p after htrail fun q hq => ⟨?_, hclear q hq⟩
      obtain ⟨before', after', rfl⟩ := List.append_of_mem hq
      have hsplit : stage.trail name = before' ++ q :: (after' ++ p :: after) := by
        rw [htrail, List.append_assoc, List.cons_append]
      refine ih before'.length ?_ hsplit (fun q' hq' => hclear q' (List.mem_append_left _ hq')) rfl
      rw [← hn, List.length_append, List.length_cons]
      omega

/-- The disk while the artifacts of the names are in the staged directory. -/
structure StagedFiles (root stage : Place) (disk₀ : DiskTree) (names : List String)
    (disk : DiskTree) : Prop where
  kept : KeptOutside root [stage] disk₀ disk
  standing : ∀ p, Standing root p → disk p = some .dir
  dir : disk stage = some .dir
  unlinked : ∀ p, stage <+: p → ∀ target, disk p ≠ some (.link target)
  file : ∀ n ∈ names, ∃ bytes, disk (stage.join n) = some (.file bytes)
  dirs : ∀ n ∈ names, ∀ q ∈ stage.way n, disk q = some .dir

theorem not_opens_file {p : Place} {bytes : List UInt8} (h : disk p = some (.file bytes)) :
    ¬ disk.Opens p := by
  rintro (hnone | hdir)
  · rw [h] at hnone
    cases hnone
  · rw [h] at hdir
    cases hdir

theorem StagedFiles.comes_home {p : Place} (h : StagedFiles root stage disk₀ names disk)
    (hstays : StaysHome root stage names name) (hp : disk.Comes (stage.trail name) p) :
    AtHome root stage p := by
  obtain ⟨before, after, htrail, hopens⟩ := hp
  refine hstays.comes htrail ?_
  rintro q hq n hn rfl
  obtain ⟨bytes, hfile⟩ := h.file n hn
  exact not_opens_file hfile (hopens _ hq)

theorem StagedFiles.not_link {p target : Place} (h : StagedFiles root stage disk₀ names disk)
    (hp : AtHome root stage p) : disk p ≠ some (.link target) := by
  rcases hp with hinside | hstanding
  · exact h.unlinked p hinside target
  · rw [h.standing p hstanding]
    simp

theorem StagedFiles.not_follows (h : StagedFiles root stage disk₀ names disk)
    (hstays : StaysHome root stage names name) : ¬ disk.Follows (stage.trail name) := by
  rintro ⟨p, target, hcomes, hlink⟩
  exact h.not_link (h.comes_home hstays hcomes) hlink

/-- What a download changes is inside of the staged directory, and was no directory. -/
theorem StagedFiles.fetches (h : StagedFiles root stage disk₀ names disk)
    (hstays : StaysHome root stage names name) (hfetch : disk.Fetches disk' stage name) {p : Place}
    (hp : disk' p ≠ disk p) : stage <+: p ∧ disk p ≠ some .dir := by
  obtain ⟨hcomes, hnode⟩ := hfetch p hp
  have hdir : disk p ≠ some .dir := by
    rcases hnode with hnone | ⟨-, hdir⟩
    · rw [hnone]
      simp
    · exact hdir
  rcases h.comes_home hstays hcomes with hinside | hstanding
  · exact ⟨hinside, hdir⟩
  · exact absurd (h.standing p hstanding) hdir

theorem StagedFiles.fetches_dir (h : StagedFiles root stage disk₀ names disk)
    (hstays : StaysHome root stage names name) (hfetch : disk.Fetches disk' stage name) {p : Place}
    (hp : disk p = some .dir) : disk' p = some .dir := by
  by_contra hne
  exact (h.fetches hstays hfetch fun heq => hne (heq.trans hp)).2 hp

/-- A download that succeeds adds its file. -/
theorem StagedFiles.fetched {bytes : List UInt8} (h : StagedFiles root stage disk₀ names disk)
    (hstays : StaysHome root stage names name) (hfetch : disk.Fetches disk' stage name)
    (hway : ∀ q ∈ stage.way name, disk' q = some .dir)
    (hfile : disk' (stage.join name) = some (.file bytes)) :
    StagedFiles root stage disk₀ (names ++ [name]) disk' where
  kept := h.kept.step fun p hp =>
    Or.inl ⟨stage, List.mem_singleton_self _, (h.fetches hstays hfetch hp).1⟩
  standing p hp := h.fetches_dir hstays hfetch (h.standing p hp)
  dir := h.fetches_dir hstays hfetch h.dir
  unlinked := by
    intro p hp target hlink
    by_cases hsame : disk' p = disk p
    · exact h.unlinked p hp target (hsame ▸ hlink)
    · obtain ⟨⟨before, after, htrail, -⟩, -⟩ := hfetch p hsame
      have hmem : p ∈ stage.trail name := by simp [htrail]
      rcases List.mem_append.mp hmem with hmem | hmem
      · rw [hway p hmem] at hlink
        cases hlink
      · rw [List.mem_singleton.mp hmem, hfile] at hlink
        cases hlink
  file := by
    intro n hn
    rcases List.mem_append.mp hn with hn | hn
    · obtain ⟨bytes', hold⟩ := h.file n hn
      by_cases hsame : disk' (stage.join n) = disk (stage.join n)
      · exact ⟨bytes', hsame.trans hold⟩
      · obtain ⟨-, hnone | ⟨heq, -⟩⟩ := hfetch _ hsame
        · rw [hold] at hnone
          cases hnone
        · exact ⟨bytes, heq ▸ hfile⟩
    · rw [List.mem_singleton.mp hn]
      exact ⟨bytes, hfile⟩
  dirs := by
    intro n hn q hq
    rcases List.mem_append.mp hn with hn | hn
    · exact h.fetches_dir hstays hfetch (h.dirs n hn q hq)
    · rw [List.mem_singleton.mp hn] at hq
      exact hway q hq

/-- What a download that succeeds says of the name. -/
theorem StagedFiles.fetchable {art : Artifact} {bytes : List UInt8}
    (h : StagedFiles root stage disk₀ names disk) (hstays : StaysHome root stage names name)
    (htext : art.name = .str name) (hnul : Place.hasNul name = false)
    (hpath : ∃ key, art.path = .str key)
    (hway : ∀ q ∈ stage.way name, disk.Opens q ∧ disk' q = some .dir)
    (hplace : disk (stage.join name) ≠ some .dir)
    (hfile : disk' (stage.join name) = some (.file bytes))
    (hdigest : ∃ bytes, art.sha256.isStr (sha256 bytes) = true) :
    art.Fetchable root sha256 stage name where
  text := htext
  path := hpath
  nul := hnul
  home := by
    intro p hp
    refine h.comes_home hstays ?_
    rcases List.mem_append.mp hp with hmem | hmem
    · obtain ⟨before, after, hsplit⟩ := List.append_of_mem hmem
      refine ⟨before, after ++ [stage.join name], ?_, fun q hq => (hway q ?_).1⟩
      · rw [Place.trail, hsplit, List.append_assoc, List.cons_append]
      · rw [hsplit]
        exact List.mem_append_left _ hq
    · exact ⟨_, [], by rw [List.mem_singleton.mp hmem]; rfl, fun q hq => (hway q hq).1⟩
  file := ⟨fun hstanding => hplace (h.standing _ hstanding), fun heq => hplace (by rw [heq]; exact h.dir)⟩
  digest := hdigest
  clear := by
    intro hmem
    have hdir := (hway _ hmem).2
    rw [hfile] at hdir
    cases hdir

/-- Nothing on the way to a file that was downloaded is a link. -/
theorem StagedFiles.not_follows_file {n : String} (h : StagedFiles root stage disk₀ names disk)
    (hn : n ∈ names) : ¬ disk.Follows (stage.trail n) := by
  rintro ⟨p, target, ⟨before, after, htrail, -⟩, hlink⟩
  have hmem : p ∈ stage.trail n := by simp [htrail]
  rcases List.mem_append.mp hmem with hmem | hmem
  · rw [h.dirs n hn p hmem] at hlink
    cases hlink
  · obtain ⟨bytes, hfile⟩ := h.file n hn
    rw [List.mem_singleton.mp hmem, hfile] at hlink
    cases hlink

theorem StagedFiles.fits {n : String} (h : StagedFiles root stage disk₀ names disk) (hn : n ∈ names)
    (hway : ∀ q ∈ stage.way name, disk.Opens q) (hplace : disk (stage.join name) ≠ some .dir) :
    Fits stage n name := by
  obtain ⟨bytes, hfile⟩ := h.file n hn
  exact ⟨fun hmem => not_opens_file hfile (hway _ hmem), fun hmem => hplace (h.dirs n hn _ hmem)⟩

theorem StagedAs.snoc {arts : List Artifact} {art : Artifact}
    (h : StagedAs root sha256 stage arts names) (hart : art.Fetchable root sha256 stage name)
    (hfits : ∀ n ∈ names, Fits stage n name) :
    StagedAs root sha256 stage (arts ++ [art]) (names ++ [name]) where
  fetchable := List.rel_append h.fetchable (.cons hart .nil)
  fits := List.pairwise_append.mpr ⟨h.fits, List.pairwise_singleton _ _, fun n hn later hlater => by
    rw [List.mem_singleton.mp hlater]
    exact hfits n hn⟩

end Downloading

namespace ModelDownloader

section Polling

variable {d : ModelDownloader} {disk₀ disk : DiskTree} {m : Manifest} {part : String}

/-- A download of an artifact stays in the staged directory. -/
theorem wpc_download_kept {stage : Place} {art : Artifact} {names : List String} {name : String}
    (hplace : stagePlace root m.modelSetId = stage) (htext : art.name = .str name)
    (hstays : Place.hasNul name = false → StaysHome root stage names name)
    (h : StagedFiles root stage disk₀ names disk) :
    wpc (diskWorld root sha256 pointer) (KeptOutside root [stage] disk₀)
      (perform (.download art.path m.modelSetId name))
      (fun r disk' => KeptOutside root [stage] disk₀ disk' ∧ (r.isOk = true →
        StagedFiles root stage disk₀ (names ++ [name]) disk' ∧
        (∀ n ∈ names, Fits stage n name) ∧ ((∃ bytes, art.sha256.isStr (sha256 bytes) = true) →
          art.Fetchable root sha256 stage name))) disk := by
  apply wpc_of_perform h.kept
  intro r disk' step
  unfold diskWorld at step
  split_ifs at step with hnul
  · obtain ⟨rfl, hfails⟩ := step
    refine ⟨h.kept, h.kept, fun hok => ?_⟩
    have hno : r.isOk = false := hfails
    rw [hno] at hok
    cases hok
  · have hname : Place.hasNul name = false := by
      simp only [ArtifactCall.names, List.any_cons, List.any_nil, Bool.or_false,
        Bool.or_eq_true, not_or, Bool.not_eq_true] at hnul
      exact hnul.2
    have hstays := hstays hname
    simp only [ArtifactCall.does, hplace] at step
    rcases step with hfollows | ⟨hfetch, hok⟩
    · exact absurd hfollows (h.not_follows hstays)
    · have hkept : KeptOutside root [stage] disk₀ disk' := h.kept.step fun p hp =>
        Or.inl ⟨stage, List.mem_singleton_self _, (h.fetches hstays hfetch hp).1⟩
      refine ⟨hkept, hkept, fun hr => ?_⟩
      obtain ⟨hpath, hway, hnotDir, bytes, hfile⟩ := hok hr
      exact ⟨h.fetched hstays hfetch (fun q hq => (hway q hq).2) hfile,
        fun n hn => h.fits hn (fun q hq => (hway q hq).1) hnotDir,
        h.fetchable hstays htext hname hpath hway hnotDir hfile⟩

/-- The digest of a file that was downloaded is the digest of some content. -/
theorem wpc_sha256File_kept {stage : Place} {names : List String} {name : String}
    (hplace : stagePlace root m.modelSetId = stage) (hname : name ∈ names)
    (h : StagedFiles root stage disk₀ names disk) :
    wpc (diskWorld root sha256 pointer) (KeptOutside root [stage] disk₀)
      (perform (.sha256File m.modelSetId name))
      (fun r disk' => disk' = disk ∧ ∀ digest, r = .ok digest → ∃ bytes, digest = sha256 bytes)
      disk := by
  apply wpc_of_perform h.kept
  intro r disk' step
  rcases diskWorld_cases step with ⟨-, rfl, hfails⟩ | ⟨rfl, hread⟩
  · refine ⟨h.kept, rfl, ?_⟩
    rintro digest rfl
    cases hfails
  · rw [hplace] at hread
    refine ⟨h.kept, rfl, fun digest hr => ?_⟩
    rcases hread with hfollows | hread
    · exact absurd hfollows (h.not_follows_file hname)
    · obtain ⟨bytes, -, hdigest⟩ := hread digest hr
      exact ⟨bytes, hdigest⟩

/-- The downloads stay in the staged directory, and when all succeed some storage lets the
artifacts through together. -/
theorem wpc_verifyArtifacts_kept {stage : Place} {done rest : List Artifact}
    {names : List String} (hplace : stagePlace root m.modelSetId = stage)
    (hnames : ∀ before art after names name, m.artifacts = before ++ art :: after →
      StagedAs root sha256 stage before names → art.name = .str name →
      Place.hasNul name = false → StaysHome root stage names name)
    (harts : m.artifacts = done ++ rest) (hstaged : StagedAs root sha256 stage done names)
    (h : StagedFiles root stage disk₀ names disk) :
    wpc (diskWorld root sha256 pointer) (KeptOutside root [stage] disk₀)
      (verifyArtifacts m.modelSetId rest)
      (fun r disk' => KeptOutside root [stage] disk₀ disk' ∧
        (r.isOk = true → ∃ names, StagedAs root sha256 stage m.artifacts names)) disk := by
  induction rest generalizing done names disk with
  | nil =>
      rw [List.append_nil] at harts
      exact ⟨h.kept, h.kept, fun _ => ⟨names, harts ▸ hstaged⟩⟩
  | cons art rest ih =>
      have herror : ∀ {disk' : DiskTree} {e : Exc}, KeptOutside root [stage] disk₀ disk' →
          KeptOutside root [stage] disk₀ disk' ∧ ((Except.error e : Except Exc Unit).isOk = true →
            ∃ names, StagedAs root sha256 stage m.artifacts names) := fun hkept =>
        ⟨hkept, fun hok => by cases hok⟩
      unfold verifyArtifacts
      cases htext : art.name with
      | str name =>
          refine wpc_seq (R := fun r disk' => r = .ok name ∧ disk' = disk) ⟨h.kept, rfl, rfl⟩ ?_
            fun e _ _ h' => by cases h'.1
          rintro _ disk - ⟨⟨⟩, rfl⟩
          refine wpc_seq (wpc_download_kept hplace htext
            (hnames done art rest names name harts hstaged htext) h) ?_ fun e _ _ h' => herror h'.1
          rintro _ disk₁ - ⟨-, hok⟩
          obtain ⟨h₁, hfits, hfetchable⟩ := hok rfl
          refine wpc_seq (wpc_sha256File_kept hplace (List.mem_append_right _
            (List.mem_singleton_self name)) h₁) ?_ fun e _ _ h' => herror (h'.1 ▸ h₁.kept)
          rintro actual disk₁ - ⟨rfl, hdigest⟩
          obtain ⟨bytes, rfl⟩ := hdigest actual rfl
          split_ifs with hsha
          · exact ⟨h₁.kept, herror h₁.kept⟩
          · refine ih ?_ (hstaged.snoc (hfetchable ⟨bytes, by simpa using hsha⟩) hfits) h₁
            rw [harts, List.append_assoc, List.singleton_append]
      | _ => exact ⟨h.kept, herror h.kept⟩

theorem not_follows_standing {dir : Place} (hdir : disk dir = some .dir) :
    ¬ disk.Follows [dir] := by
  rintro ⟨p, target, ⟨before, after, htrail, -⟩, hlink⟩
  have hmem : p ∈ [dir] := by simp [htrail]
  rw [List.mem_singleton.mp hmem, hdir] at hlink
  cases hlink

theorem standing_staging (root : Place) : Standing root (stagingDir root) :=
  Or.inl (List.prefix_refl _)

theorem standing_sets (root : Place) : Standing root (setsDir root) :=
  Or.inr (List.prefix_refl _)

/-- What is removed is inside of the directory that the set id names. -/
theorem kept_erases {base : Place} {zones : List Place} {disk' : DiskTree}
    (hpart : Place.IsPart m.modelSetId part) (hzone : base ++ [part] ∈ zones)
    (h : disk.Erases disk' base m.modelSetId) : KeptOutside root zones disk disk' := by
  intro p hp
  obtain ⟨-, hprefix, -⟩ := h p hp
  rw [hpart.join] at hprefix
  exact Or.inl ⟨_, hzone, hprefix⟩

/-- A fresh staged directory has no links. -/
theorem wpc_makeStage_kept (hpart : Place.IsPart m.modelSetId part)
    (hstands : ∀ p, Standing root p → disk₀ p = some .dir)
    (h : KeptOutside root [stagingDir root ++ [part]] disk₀ disk) :
    wpc (diskWorld root sha256 pointer) (KeptOutside root [stagingDir root ++ [part]] disk₀)
      (perform (.makeStage m.modelSetId))
      (fun r disk' => KeptOutside root [stagingDir root ++ [part]] disk₀ disk' ∧ (r.isOk = true →
        StagedFiles root (stagingDir root ++ [part]) disk₀ [] disk')) disk := by
  have hdeep : ∀ zone ∈ [stagingDir root ++ [part]], Deep root zone := fun zone hzone =>
    List.mem_singleton.mp hzone ▸ deep_staging root part
  have hstanding : ∀ {disk' : DiskTree}, KeptOutside root [stagingDir root ++ [part]] disk₀ disk' →
      ∀ p, Standing root p → disk' p = some .dir := fun hkept p hp =>
    (hkept.standing hdeep hp).trans (hstands p hp)
  apply wpc_of_perform h
  intro r disk' step
  rcases diskWorld_cases step with ⟨-, rfl, hfails⟩ | hdoes
  · refine ⟨h, h, fun hok => ?_⟩
    have hno : r.isOk = false := hfails
    rw [hno] at hok
    cases hok
  · simp only [ArtifactCall.does, stagePlace, hpart.way, hpart.join] at hdoes
    rcases hdoes with hfollows | ⟨hmakes, hok⟩
    · exact absurd hfollows
        (not_follows_standing (hstanding h _ (standing_staging root)))
    · have hinside : ∀ p, disk' p ≠ disk p → p = stagingDir root ++ [part] := by
        intro p hp
        obtain ⟨⟨before, after, htrail, -⟩, hnone, -⟩ := hmakes p hp
        have hmem : p ∈ [stagingDir root, stagingDir root ++ [part]] := by
          rw [← hpart.trail, htrail]
          simp
        rcases List.mem_pair.mp hmem with rfl | rfl
        · rw [hstanding h _ (standing_staging root)] at hnone
          cases hnone
        · rfl
      have hkept : KeptOutside root [stagingDir root ++ [part]] disk₀ disk' := h.step fun p hp =>
        Or.inl ⟨_, List.mem_singleton_self _, hinside p hp ▸ List.prefix_refl _⟩
      refine ⟨hkept, hkept, fun hr => ?_⟩
      obtain ⟨hempty, hdir⟩ := hok hr
      refine ⟨hkept, hstanding hkept, hdir, ?_, fun n hn => (by cases hn), fun n hn => (by cases hn)⟩
      intro p hp target hlink
      by_cases hsame : disk' p = disk p
      · rw [hsame, hempty p hp] at hlink
        cases hlink
      · rw [hinside p hsame, hdir] at hlink
        cases hlink

/-- The staged directory is made anew and filled, and nothing else changes. -/
theorem wpc_downloadAndVerify_kept (hpart : Place.IsPart m.modelSetId part)
    (hstands : ∀ p, Standing root p → disk₀ p = some .dir)
    (hnames : ∀ before art after names name, m.artifacts = before ++ art :: after →
      StagedAs root sha256 (stagingDir root ++ [part]) before names → art.name = .str name →
      Place.hasNul name = false → StaysHome root (stagingDir root ++ [part]) names name) :
    wpc (diskWorld root sha256 pointer) (KeptOutside root [stagingDir root ++ [part]] disk₀)
      (downloadAndVerify m)
      (fun r disk' => KeptOutside root [stagingDir root ++ [part]] disk₀ disk' ∧ (r.isOk = true →
        ∃ names, StagedAs root sha256 (stagingDir root ++ [part]) m.artifacts names)) disk₀ := by
  have hrefl := KeptOutside.refl root [stagingDir root ++ [part]] disk₀
  have herror : ∀ {disk' : DiskTree} {e : Exc}, KeptOutside root [stagingDir root ++ [part]] disk₀ disk' →
      KeptOutside root [stagingDir root ++ [part]] disk₀ disk' ∧
        ((Except.error e : Except Exc Unit).isOk = true →
          ∃ names, StagedAs root sha256 (stagingDir root ++ [part]) m.artifacts names) :=
    fun hkept => ⟨hkept, fun hok => by cases hok⟩
  refine wpc_seq (wpc_asks (Proc.along_perform trivial) hrefl) ?_ fun e _ _ h => herror (h ▸ hrefl)
  rintro staged disk₀ - rfl
  refine wpc_seq (R := fun _ disk' => KeptOutside root [stagingDir root ++ [part]] disk₀ disk') ?_ ?_
    fun e _ _ h => herror h
  · refine wpc_given (fun _ => wpc_of_perform hrefl fun r disk' step => ?_) fun _ => ⟨hrefl, hrefl⟩
    rcases diskWorld_cases step with ⟨-, rfl, -⟩ | hfollows | ⟨herases, -⟩
    · exact ⟨hrefl, hrefl⟩
    · rw [hpart.way] at hfollows
      exact absurd hfollows (not_follows_standing (hstands _ (standing_staging root)))
    · have hkept : KeptOutside root [stagingDir root ++ [part]] disk₀ disk' :=
        kept_erases hpart (List.mem_singleton_self _) herases
      exact ⟨hkept, hkept⟩
  rintro _ disk₁ - h₁
  refine wpc_seq (wpc_makeStage_kept hpart hstands h₁) ?_ fun e _ _ h => herror h.1
  rintro _ disk₂ - ⟨-, hok⟩
  have h₂ := hok rfl
  refine wpc_verifyArtifacts_kept hpart.join hnames rfl ⟨.nil, .nil⟩ h₂

/-- The directories of a set that a poll may work in. -/
def setZones (root : Place) (part : String) : List Place :=
  [stagingDir root ++ [part], setsDir root ++ [part]]

theorem deep_setZones {part : String} : ∀ zone ∈ setZones root part, Deep root zone := by
  intro zone hzone
  rcases List.mem_pair.mp hzone with rfl | rfl
  · exact deep_staging root part
  · exact deep_sets root part

/-- The staged directory takes the place of the set. -/
theorem wpc_placeSet_zones (hpart : Place.IsPart m.modelSetId part)
    (hstands : ∀ p, Standing root p → disk₀ p = some .dir)
    (h : KeptOutside root (setZones root part) disk₀ disk) :
    wpc (diskWorld root sha256 pointer) (KeptOutside root (setZones root part) disk₀)
      (placeSet m.modelSetId) (fun _ disk' => KeptOutside root (setZones root part) disk₀ disk') disk := by
  have hstanding : ∀ {disk' : DiskTree}, KeptOutside root (setZones root part) disk₀ disk' →
      ∀ p, Standing root p → disk' p = some .dir := fun hkept p hp =>
    (hkept.standing deep_setZones hp).trans (hstands p hp)
  refine wpc_seq (wpc_asks (Proc.along_perform trivial) h) ?_ fun e _ _ h' => h' ▸ h
  rintro final disk - rfl
  refine wpc_seq (R := fun _ disk' => KeptOutside root (setZones root part) disk₀ disk') ?_ ?_
    fun e _ _ h' => h'
  · refine wpc_given (fun _ => wpc_of_perform h fun r disk' step => ?_) fun _ => ⟨h, h⟩
    rcases diskWorld_cases step with ⟨-, rfl, -⟩ | hfollows | ⟨herases, -⟩
    · exact ⟨h, h⟩
    · rw [hpart.way] at hfollows
      exact absurd hfollows (not_follows_standing (hstanding h _ (standing_sets root)))
    · have hkept : KeptOutside root (setZones root part) disk₀ disk' :=
        h.step (kept_erases hpart (by simp [setZones]) herases)
      exact ⟨hkept, hkept⟩
  rintro _ disk₁ - h₁
  refine wpc_seq (R := fun _ disk' => KeptOutside root (setZones root part) disk₀ disk') ?_ ?_
    fun e _ _ h' => h'
  · apply wpc_of_perform h₁
    intro r disk' step
    rcases diskWorld_cases step with ⟨-, rfl, -⟩ | hfollows | hfollows | ⟨hmoves, -⟩
    · exact ⟨h₁, h₁⟩
    · rw [hpart.way] at hfollows
      exact absurd hfollows (not_follows_standing (hstanding h₁ _ (standing_staging root)))
    · rw [hpart.way] at hfollows
      exact absurd hfollows (not_follows_standing (hstanding h₁ _ (standing_sets root)))
    · have hkept : KeptOutside root (setZones root part) disk₀ disk' := by
        refine h₁.step fun p hp => Or.inl ?_
        rcases hmoves p hp with hprefix | hprefix | ⟨⟨before, after, htrail, -⟩, hnone⟩
        · rw [stagePlace, hpart.join] at hprefix
          exact ⟨_, by simp [setZones], hprefix⟩
        · rw [setPlace, hpart.join] at hprefix
          exact ⟨_, by simp [setZones], hprefix⟩
        · have hmem : p ∈ [setsDir root, setsDir root ++ [part]] := by
            rw [← hpart.trail, htrail]
            simp
          rcases List.mem_pair.mp hmem with rfl | rfl
          · rw [hstanding h₁ _ (standing_sets root)] at hnone
            cases hnone
          · exact ⟨_, by simp [setZones], List.prefix_refl _⟩
      exact ⟨hkept, hkept⟩
  rintro _ disk₂ - h₂
  refine wpc_seq (wpc_asks (Proc.Along.attempt (Proc.along_perform trivial)) h₂) ?_
    fun e _ _ h' => h' ▸ h₂
  rintro _ disk₂ - rfl
  exact ⟨h₂, h₂⟩

/-- The links and the state file follow. -/
theorem wpc_promote_zones (hpart : Place.IsPart m.modelSetId part)
    (hstands : ∀ p, Standing root p → disk₀ p = some .dir)
    (h : KeptOutside root (setZones root part) disk₀ disk) :
    wpc (diskWorld root sha256 pointer) (KeptOutside root (setZones root part) disk₀) (d.promote m)
      (fun _ _ => True) disk := by
  refine wpc_seq (wpc_placeSet_zones hpart hstands h) ?_ fun _ _ _ _ => trivial
  rintro _ disk₁ - h₁
  refine wpc_seq (wpc_asks (only_activeModelSetId trivial trivial) h₁) ?_ fun _ _ _ _ => trivial
  rintro prevActive disk₁ - rfl
  refine wpc_seq (R := fun _ disk' => KeptOutside root (setZones root part) disk₀ disk') ?_ ?_
    fun _ _ _ _ => trivial
  · unfold keepLastGood
    split_ifs
    · refine wpc_seq (R := fun _ disk' => disk' = disk₁) ((wpc_ofExcept _ _ _).mpr ⟨h₁, rfl⟩) ?_
        fun e _ _ h' => h' ▸ h₁
      rintro prev disk₁ - rfl
      exact wpc_atomicSymlink_keeps h₁
    · exact ⟨h₁, h₁⟩
  rintro _ disk₂ - h₂
  refine wpc_seq (wpc_atomicSymlink_keeps h₂) ?_ fun _ _ _ _ => trivial
  rintro _ disk₃ - h₃
  refine wpc_seq (wpc_asks (Proc.along_perform trivial) h₃) ?_ fun _ _ _ _ => trivial
  rintro polledAt disk₃ - rfl
  refine wpc_seq (wpc_asks (Proc.along_perform trivial) h₃) ?_ fun _ _ _ _ => trivial
  rintro swappedAt disk₃ - rfl
  exact wpc_post (wpc_writeState_keeps h₃) fun _ _ _ _ => trivial

/-- On the name of no file nothing is staged. -/
theorem wpc_downloadAndVerify_nul (hnul : Place.hasNul m.modelSetId = true) {C : DiskTree → Prop}
    (hC : C disk) :
    wpc (diskWorld root sha256 pointer) C (downloadAndVerify m)
      (fun r disk' => disk' = disk ∧ r.isOk = false) disk := by
  have hany : ∀ {op : ArtifactCall}, op.names = [m.modelSetId] →
      op.names.any Place.hasNul = true := fun hop => by simp [hop, hnul]
  refine wpc_seq (R := fun r disk' => disk' = disk ∧ r ≠ .ok true) ?_ ?_ fun e _ _ h => ⟨h.1, rfl⟩
  · apply wpc_of_perform hC
    intro r disk' step
    rw [diskWorld, if_pos (hany rfl)] at step
    exact ⟨step.1 ▸ hC, step⟩
  rintro staged disk - ⟨rfl, hstaged⟩
  refine wpc_seq (R := fun _ disk' => disk' = disk) ?_ ?_ fun e _ _ h => ⟨h, rfl⟩
  · exact wpc_given (fun h => absurd (congrArg Except.ok h) hstaged) fun _ => ⟨hC, rfl⟩
  rintro _ disk - rfl
  refine wpc_seq (R := fun r disk' => disk' = disk ∧ r.isOk = false) ?_ ?_ fun e _ _ h => ⟨h.1, rfl⟩
  · apply wpc_of_perform hC
    intro r disk' step
    rw [diskWorld, if_pos (hany rfl)] at step
    exact ⟨step.1 ▸ hC, step⟩
  · rintro _ _ - ⟨-, hok⟩
    cases hok

/-- An activation of a manifest that is confinable is confined. -/
theorem wpc_activate_confined (hpublished : publishedManifest pointer = some m)
    (hstands : StandsAt root served disk₀) (hm : m.Confinable root sha256 served) :
    wpc (diskWorld root sha256 pointer) (ConfinedTo root (publishedManifest pointer) disk₀)
      (d.activate m) (fun _ _ => True) disk₀ := by
  rcases hm with hnul | ⟨part, hpart, hnames, hserved⟩
  · have hrefl : ConfinedTo root (publishedManifest pointer) disk₀ disk₀ :=
      ⟨fun p hp => absurd rfl hp, fun _ _ _ _ => rfl⟩
    refine wpc_seq_attempt (wpc_downloadAndVerify_nul hnul hrefl) ?_
    rintro r disk - ⟨rfl, hr⟩
    cases r with
    | ok _ => cases hr
    | error e =>
        refine wpc_seq (R := fun _ _ => True) ?_ ?_ fun _ _ _ _ => trivial
        · rw [wpc_attempt]
          apply wpc_of_perform hrefl
          intro r disk' step
          rw [diskWorld, if_pos (by simp [ArtifactCall.names, hnul])] at step
          exact ⟨step.1 ▸ hrefl, trivial⟩
        · exact fun _ _ hC _ => ⟨hC, trivial⟩
  · have hzone : ∀ zone ∈ setZones root part, SetZone root (publishedManifest pointer) zone := by
      intro zone hzone
      exact ⟨m, part, hpublished, hpart, List.mem_pair.mp hzone⟩
    have hstaging : ∀ {disk}, KeptOutside root [stagingDir root ++ [part]] disk₀ disk →
        ConfinedTo root (publishedManifest pointer) disk₀ disk := fun hkept =>
      hkept.confined hstands (fun zone h => hzone zone (List.mem_cons.mpr
        (Or.inl (List.mem_singleton.mp h)))) fun set _ h =>
          staging_ne_sets part set (List.mem_singleton.mp h).symm
    refine wpc_seq_attempt (wpc_mono (wpc_downloadAndVerify_kept hpart hstands.dirs hnames)
      (fun _ => hstaging) fun _ _ _ h => h) ?_
    rintro r disk - ⟨hkept, hok⟩
    cases r with
    | error e =>
        refine wpc_seq (R := fun _ _ => True) ?_ ?_ fun _ _ _ _ => trivial
        · rw [wpc_attempt]
          apply wpc_of_perform (hstaging hkept)
          intro r disk' step
          refine ⟨?_, trivial⟩
          rcases diskWorld_cases step with ⟨-, rfl, -⟩ | hfollows | herases
          · exact hstaging hkept
          · rw [hpart.way] at hfollows
            refine absurd hfollows (not_follows_standing ?_)
            rw [hkept.standing (fun zone h => List.mem_singleton.mp h ▸ deep_staging root part)
              (standing_staging root)]
            exact hstands.dirs _ (standing_staging root)
          · exact hstaging (hkept.step (kept_erases hpart (List.mem_singleton_self _) herases))
        · exact fun _ _ hC _ => ⟨hC, trivial⟩
    | ok _ =>
        obtain ⟨names, hall⟩ := hok rfl
        have hother := hserved names hall
        have hconfined : ∀ {disk}, KeptOutside root (setZones root part) disk₀ disk →
            ConfinedTo root (publishedManifest pointer) disk₀ disk := fun hkept =>
          hkept.confined hstands hzone fun set hset h => by
            rcases List.mem_pair.mp h with heq | heq
            · exact staging_ne_sets part set heq.symm
            · obtain rfl : set = part := by simpa using heq
              exact hother hset
        refine wpc_seq (R := fun _ _ => True) (wpc_mono (wpc_promote_zones hpart hstands.dirs
          (hkept.mono fun zone h => List.mem_cons.mpr (Or.inl (List.mem_singleton.mp h))))
          (fun _ => hconfined) fun _ _ _ h => h) ?_ fun _ _ _ _ => trivial
        exact fun _ _ hC _ => ⟨hC, trivial⟩

/-- Polls of confinable manifests are confined. -/
theorem pollsConfined_of_confinable {current : Bool}
    (h : ∀ m, publishedManifest pointer = some m → current = false →
      m.Confinable root sha256 served) :
    d.PollsConfined root sha256 pointer served current := by
  intro disk₀ disk' out hstands hcurrent exec
  have hkept : ∀ disk, KeptOutside root [] disk₀ disk →
      ConfinedTo root (publishedManifest pointer) disk₀ disk := fun disk hkept =>
    hkept.confined hstands (fun zone h => by cases h) fun set _ h => by cases h
  have hrefl := hkept _ (KeptOutside.refl root [] disk₀)
  have hupdate : ∀ {f : PyVal → String → Except PyErr PyVal}, wpc (diskWorld root sha256 pointer)
      (ConfinedTo root (publishedManifest pointer) disk₀)
      ((updateState f).bind fun _ => (.ret false : Proc ArtifactI Exc Bool)) (fun _ _ => True)
      disk₀ := by
    intro f
    refine wpc_seq (wpc_mono (wpc_updateState_keeps (KeptOutside.refl root [] disk₀)) hkept
      fun _ _ _ h => h) ?_ fun _ _ _ _ => trivial
    exact fun _ _ hC _ => ⟨hC, trivial⟩
  refine (wpc_sound exec (Q := fun _ _ => True) ?_).1
  refine wpc_seq_attempt (wpc_fetchManifest_ends hrefl) ?_
  rintro r disk₀ - ⟨rfl, hends⟩
  match r with
  | .ok (.withdrawn w) => exact hupdate
  | .error e => exact hupdate
  | .ok (.published m) =>
      have hpublished := hends.published m rfl
      refine wpc_seq (wpc_activeModelSetId_value hrefl (hstands.state _ (Or.inl rfl))) ?_
        fun _ _ _ _ => trivial
      rintro active disk₀ - ⟨rfl, hactive⟩
      have hnames : active.isStr m.modelSetId = current := by
        rw [← hcurrent m hpublished, DiskTree.namesActive, hactive active rfl]
      split_ifs with hsame
      · exact hupdate
      · refine wpc_activate_confined hpublished hstands (h m hpublished ?_)
        rw [← hnames]
        simpa using hsame

end Polling

end ModelDownloader

end System2
