import System2.ArtifactSync.ArtifactHost
import System2.ArtifactSync.PathConfinement

/-!
# How a manifest leads a poll out of its directories

A set id of several parts stages elsewhere, an artifact name with one part too many
leads a download out, and a set that is replaced takes along what the active link led
to. Each of them has a run, so the condition for a poll to be confined is exact.
-/

namespace System2
open Foundation

/-- A disk of the standing directories, and of what else is given. -/
def bareDisk (root : Place) (extra : DiskTree) : DiskTree := fun p =>
  if p <+: stagingDir root ∨ p <+: setsDir root then some .dir else extra p

section Disk

variable {root p : Place} {extra : DiskTree} {served : Option String}

theorem bareDisk_standing (h : Standing root p) : bareDisk root extra p = some .dir := if_pos h

theorem bareDisk_extra (h : ¬ Standing root p) : bareDisk root extra p = extra p := if_neg h

theorem bareDisk_opens (h : extra p = none) : (bareDisk root extra).Opens p := by
  by_cases hstanding : Standing root p
  · exact Or.inr (bareDisk_standing hstanding)
  · exact Or.inl ((bareDisk_extra hstanding).trans h)

theorem not_standing_linkPlace (l : RootLink) : ¬ Standing root (linkPlace root l) := fun h =>
  h.not_own (ownFile_link_none root l)

theorem not_standing_statePlace (h : p = statePlace root ∨ p = stateTmpPlace root) :
    ¬ Standing root p := fun hstanding =>
  have hown : OwnFile root p none := Or.inr ⟨h, fun n hn => by cases hn⟩
  hstanding.not_own hown

theorem standsAt_bareDisk
    (hactive : ∀ node, extra (linkPlace root .active) = some node →
      ∃ set, served = some set ∧ node = .link (setsDir root ++ [set]))
    (hstate : ∀ p, p = statePlace root ∨ p = stateTmpPlace root → extra p = none) :
    StandsAt root served (bareDisk root extra) where
  dirs := fun _ h => bareDisk_standing h
  active := by
    rw [bareDisk_extra (not_standing_linkPlace .active)]
    exact hactive
  state := by
    intro p hp node hnode
    rw [bareDisk_extra (not_standing_statePlace hp), hstate p hp] at hnode
    cases hnode

end Disk

/-! ### Runs -/

namespace ModelDownloader

variable {root : Place} {sha256 : List UInt8 → String} {pointer : Except Exc JsonText}
  {served : Option String} {d : ModelDownloader} {m : Manifest} {disk disk' : DiskTree}
  {out : Option (Except Exc Bool)}

theorem diskWorld_of_does {op : ArtifactCall} {r : Except Exc op.Ans}
    (hnul : op.names.any Place.hasNul = false)
    (h : op.does root sha256 pointer disk r disk') : diskWorld root sha256 pointer disk op r disk' := by
  unfold diskWorld
  rwa [if_neg (by simp [hnul])]

theorem parseWithdrawal_of_not {text : JsonText} (h : isWithdrawal text = false) :
    parseWithdrawal text = .ret none := by
  cases text with
  | none => rfl
  | some v =>
      cases v with
      | dict d =>
          unfold isWithdrawal at h
          unfold parseWithdrawal
          dsimp only at h ⊢
          generalize statusOf d = status at h ⊢
          rw [if_pos (by simpa only [Bool.not_eq_false', decide_eq_true_eq] using h)]
      | _ => rfl

/-- A pointer that publishes a manifest is fetched as such. -/
theorem exec_fetchManifest (hpublished : publishedManifest pointer = some m) :
    Exec (diskWorld root sha256 pointer) d.fetchManifest disk (some (.ok (.published m))) disk := by
  match pointer with
  | .error e => cases hpublished
  | .ok text =>
      have hwithdrawal := not_withdrawal_of_published hpublished
      have hparse : Manifest.parse text = .ok m := by
        simp only [publishedManifest, hwithdrawal] at hpublished
        cases hm : Manifest.parse text with
        | error e =>
            rw [hm] at hpublished
            cases hpublished
        | ok m' =>
            rw [hm] at hpublished
            exact congrArg _ (Option.some.inj hpublished)
      refine Exec.bind (Exec.perform (diskWorld_of_does rfl ⟨rfl, rfl⟩)) ?_
      rw [parseWithdrawal_of_not hwithdrawal]
      refine Exec.bind .ret ?_
      rw [hparse]
      exact .ret

/-- Without a state file every published manifest is activated. -/
theorem exec_pollOnce (hpublished : publishedManifest pointer = some m)
    (hstate : disk (statePlace root) = none)
    (exec : Exec (diskWorld root sha256 pointer) (d.activate m) disk out disk') :
    Exec (diskWorld root sha256 pointer) d.pollOnce disk out disk' := by
  have hread : Exec (diskWorld root sha256 pointer) readState disk (some (.ok (.dict []))) disk := by
    refine Exec.bind (Exec.perform (diskWorld_of_does rfl ⟨rfl, rfl⟩)) ?_
    rw [hstate]
    exact .ret
  have hactive : Exec (diskWorld root sha256 pointer) activeModelSetId disk (some (.ok .null))
      disk := Exec.bind hread .ret
  exact Exec.bind (Exec.attempt (exec_fetchManifest hpublished)) (Exec.bind hactive exec)

/-- When the downloads fail the poll cleans up, and is over. -/
theorem exec_activate_fails {e : Exc}
    (exec : Exec (diskWorld root sha256 pointer) (downloadAndVerify m) disk (some (.error e)) disk') :
    Exec (diskWorld root sha256 pointer) (d.activate m) disk (some (.ok false)) disk' := by
  refine Exec.bind (Exec.attempt exec) ?_
  have hclear : diskWorld root sha256 pointer disk' (.clearStage m.modelSetId) (.ok ()) disk' := by
    unfold diskWorld
    split_ifs
    · exact ⟨rfl, trivial⟩
    · exact Or.inr fun p hp => absurd rfl hp
  exact Exec.bind (Exec.attempt (Exec.perform hclear)) .ret

theorem not_namesActive (hstate : disk (statePlace root) = none) (set : String) :
    disk.namesActive root set = false := by
  rw [DiskTree.namesActive, DiskTree.stateValue, hstate]
  rfl

/-- A set id that is not one part of a path leads out. -/
theorem not_confined_of_set (hpublished : publishedManifest pointer = some m)
    (hnul : Place.hasNul m.modelSetId = false)
    (hpart : ¬ ∃ part, Place.IsPart m.modelSetId part) :
    ¬ d.PollsConfined root sha256 pointer served false := by
  intro h
  have hstate : bareDisk root (fun _ => none) (statePlace root) = none :=
    bareDisk_extra (not_standing_statePlace (Or.inl rfl))
  have hconfined : ∀ disk', Exec (diskWorld root sha256 pointer) (downloadAndVerify m)
      (bareDisk root fun _ => none) (some (.error (osError "OSError"))) disk' →
        ∀ p, disk' p ≠ bareDisk root (fun _ => none) p → OwnFile root p (disk' p) := by
    intro disk' exec p hp
    have hstands : StandsAt root served (bareDisk root fun _ => none) :=
      standsAt_bareDisk (fun node hnode => by cases hnode) fun _ _ => rfl
    rcases (h _ _ _ hstands (fun m' _ => not_namesActive hstate _)
      (exec_pollOnce hpublished hstate (exec_activate_fails exec))).inside p hp with
      ⟨zone, ⟨m', part, hm, hone, -⟩, -⟩ | hown
    · obtain rfl := Option.some.inj (hpublished.symm.trans hm)
      exact absurd ⟨part, hone⟩ hpart
    · exact hown
  by_cases hall : ∀ p ∈ (stagingDir root).trail m.modelSetId, Standing root p
  · -- the id leads to `staging`, to `sets` or above, and the directory is removed
    have hplace := hall _ Place.join_mem_trail
    obtain ⟨q, hstanding, hprefix⟩ : ∃ q, Standing root q ∧ stagePlace root m.modelSetId <+: q := by
      rcases hplace with hprefix | hprefix
      · exact ⟨_, standing_staging root, hprefix⟩
      · exact ⟨_, standing_sets root, hprefix⟩
    refine absurd (hconfined (Function.update (bareDisk root fun _ => none) q none) ?_ q ?_)
      hstanding.not_own
    · refine Exec.bind (a := true) (Exec.perform (diskWorld_of_does (by simp [ArtifactCall.names, hnul])
        ⟨rfl, fun _ => ⟨fun p hp => ?_, ?_⟩, fun h => by cases h⟩)) ?_
      · exact bareDisk_standing (hall p (Place.way_subset_trail hp))
      · rw [stagePlace, bareDisk_standing hplace]
        rfl
      refine Exec.bind_error (Exec.perform (diskWorld_of_does (by simp [ArtifactCall.names, hnul])
        (Or.inr ⟨fun p hp => ?_, fun h => by cases h⟩)))
      have hpq : p = q := by
        by_contra hne
        exact hp (Function.update_of_ne hne _ _)
      subst hpq
      refine ⟨fun q' hq' => bareDisk_standing (hall q' (Place.way_subset_trail hq')), hprefix, ?_⟩
      exact Function.update_self ..
    · rw [Function.update_self, bareDisk_standing hstanding]
      simp
  · -- a directory is made where there was nothing
    push Not at hall
    obtain ⟨p, hp, hnot⟩ := hall
    have hnone : bareDisk root (fun _ => none) p = none := bareDisk_extra hnot
    have hown := hconfined (Function.update (bareDisk root fun _ => none) p (some .dir)) ?_ p ?_
    · rw [Function.update_self] at hown
      rcases hown with ⟨l, -, hlink⟩ | ⟨-, hjson⟩
      · obtain ⟨target, htarget⟩ := hlink _ rfl
        cases htarget
      · obtain ⟨text, htext⟩ := hjson _ rfl
        cases htext
    · refine Exec.bind (a := false) (Exec.perform (diskWorld_of_does
        (by simp [ArtifactCall.names, hnul]) ⟨rfl, (fun h => by cases h), fun _ hthere => ?_⟩)) ?_
      · rcases List.mem_append.mp hp with hmem | hmem
        · rw [hthere.1 p hmem] at hnone
          cases hnone
        · obtain rfl := List.mem_singleton.mp hmem
          exact absurd (hnone.symm.trans hthere.2) (by simp)
      refine Exec.bind .ret (Exec.bind_error (Exec.perform (diskWorld_of_does
        (by simp [ArtifactCall.names, hnul]) (Or.inr ⟨fun q hq => ?_, fun h => by cases h⟩))))
      have hqp : q = p := by
        by_contra hne
        exact hq (Function.update_of_ne hne _ _)
      subst hqp
      obtain ⟨before, after, htrail⟩ := List.append_of_mem hp
      exact ⟨⟨before, after, htrail, fun q' _ => bareDisk_opens rfl⟩, hnone,
        Function.update_self ..⟩
    · rw [Function.update_self, hnone]
      simp

/-! ### Filling the staged directory -/

section Filling

variable {stage : Place} {disk₀ : DiskTree} {names : List String} {name part : String}
  {art : Artifact}

/-- The disk once the artifacts of the names are in the staged directory, and nothing else
happened. -/
structure Filled (root stage : Place) (disk₀ : DiskTree) (names : List String)
    (disk : DiskTree) : Prop where
  nodes : ∀ p, AtHome root stage p → disk.Opens p ∨ ∃ n ∈ names, p = stage.join n
  dirs : ∀ p, AtHome root stage p → disk p = some .dir →
    Standing root p ∨ p = stage ∨ ∃ n ∈ names, p ∈ stage.way n
  away : ∀ p, ¬ AtHome root stage p → disk p = disk₀ p
  standing : ∀ p, Standing root p → disk p = some .dir

/-- The walk of a fitting name meets no file. -/
theorem Filled.opens {p : Place} (h : Filled root stage disk₀ names disk)
    (hp : AtHome root stage p) (hclear : ∀ n ∈ names, p ≠ stage.join n) : disk.Opens p := by
  rcases h.nodes p hp with hopens | ⟨n, hn, heq⟩
  · exact hopens
  · exact absurd heq (hclear n hn)

/-- A file in its place, and directories on the way. -/
def filledWith (stage : Place) (name : String) (bytes : List UInt8) (disk : DiskTree) : DiskTree :=
  fun p => if p = stage.join name then some (.file bytes)
    else if p ∈ stage.way name then some .dir else disk p

theorem filledWith_join (bytes : List UInt8) :
    filledWith stage name bytes disk (stage.join name) = some (.file bytes) := if_pos rfl

theorem filledWith_way {p : Place} (bytes : List UInt8)
    (hclear : stage.join name ∉ stage.way name) (hp : p ∈ stage.way name) :
    filledWith stage name bytes disk p = some .dir := by
  have hne : p ≠ stage.join name := fun heq => hclear (heq ▸ hp)
  rw [filledWith, if_neg hne, if_pos hp]

theorem filledWith_of_not_mem {p : Place} (bytes : List UInt8) (hp : p ∉ stage.trail name) :
    filledWith stage name bytes disk p = disk p := by
  have hne : p ≠ stage.join name := fun heq => hp (heq ▸ Place.join_mem_trail)
  have hway : p ∉ stage.way name := fun hmem => hp (Place.way_subset_trail hmem)
  rw [filledWith, if_neg hne, if_neg hway]

theorem Filled.fill (h : Filled root stage disk₀ names disk) (bytes : List UInt8)
    (hart : art.Fetchable root sha256 stage name) :
    Filled root stage disk₀ (names ++ [name]) (filledWith stage name bytes disk) where
  nodes := by
    intro p hp
    by_cases hjoin : p = stage.join name
    · exact Or.inr ⟨name, List.mem_append_right _ (List.mem_singleton_self _), hjoin⟩
    by_cases hway : p ∈ stage.way name
    · exact Or.inl (Or.inr (filledWith_way bytes hart.clear hway))
    rcases h.nodes p hp with hopens | ⟨n, hn, heq⟩
    · left
      rwa [DiskTree.Opens, filledWith, if_neg hjoin, if_neg hway]
    · exact Or.inr ⟨n, List.mem_append_left _ hn, heq⟩
  dirs := by
    intro p hp hdir
    by_cases hjoin : p = stage.join name
    · rw [hjoin, filledWith_join] at hdir
      cases hdir
    by_cases hway : p ∈ stage.way name
    · exact Or.inr (Or.inr ⟨name, List.mem_append_right _ (List.mem_singleton_self _), hway⟩)
    rw [filledWith, if_neg hjoin, if_neg hway] at hdir
    rcases h.dirs p hp hdir with hstanding | hstage | ⟨n, hn, hmem⟩
    · exact Or.inl hstanding
    · exact Or.inr (Or.inl hstage)
    · exact Or.inr (Or.inr ⟨n, List.mem_append_left _ hn, hmem⟩)
  away := by
    intro p hp
    rw [filledWith_of_not_mem bytes fun hmem => hp (hart.home p hmem), h.away p hp]
  standing := by
    intro p hp
    by_cases hway : p ∈ stage.way name
    · exact filledWith_way bytes hart.clear hway
    have hjoin : p ≠ stage.join name := fun heq => hart.file.1 (heq ▸ hp)
    rw [filledWith, if_neg hjoin, if_neg hway, h.standing p hp]

/-- A fetchable artifact that fits the ones before is downloaded. -/
theorem Filled.download {bytes : List UInt8} (h : Filled root stage disk₀ names disk)
    (hplace : stagePlace root m.modelSetId = stage) (hnul : Place.hasNul m.modelSetId = false)
    (hart : art.Fetchable root sha256 stage name) (hfits : ∀ n ∈ names, Fits stage n name) :
    diskWorld root sha256 pointer disk (.download art.path m.modelSetId name) (.ok ())
      (filledWith stage name bytes disk) := by
  have hopens : ∀ q ∈ stage.way name, disk.Opens q := fun q hq =>
    h.opens (hart.home q (Place.way_subset_trail hq)) fun n hn heq => (hfits n hn).1 (heq ▸ hq)
  have hnotDir : disk (stage.join name) ≠ some .dir := by
    intro hdir
    rcases h.dirs _ (hart.home _ Place.join_mem_trail) hdir with hstanding | hstage | ⟨n, hn, hmem⟩
    · exact hart.file.1 hstanding
    · exact hart.file.2 hstage
    · exact (hfits n hn).2 hmem
  refine diskWorld_of_does (by simp [ArtifactCall.names, hnul, hart.nul]) (Or.inr ?_)
  rw [hplace]
  refine ⟨?_, fun _ => ⟨hart.path, fun q hq => ⟨hopens q hq, filledWith_way bytes hart.clear hq⟩,
    hnotDir, bytes, filledWith_join bytes⟩⟩
  intro p hp
  by_cases hway : p ∈ stage.way name
  · obtain ⟨before, after, hsplit⟩ := List.append_of_mem hway
    refine ⟨⟨before, after ++ [stage.join name], ?_, fun q hq => hopens q ?_⟩, Or.inl ?_⟩
    · rw [Place.trail, hsplit, List.append_assoc, List.cons_append]
    · rw [hsplit]
      exact List.mem_append_left _ hq
    · rcases hopens p hway with hnone | hdir
      · exact hnone
      · exact absurd ((filledWith_way bytes hart.clear hway).trans hdir.symm) hp
  · have hjoin : p = stage.join name := by
      by_contra hne
      refine hp (filledWith_of_not_mem bytes fun hmem => ?_)
      rcases List.mem_append.mp hmem with hmem | hmem
      · exact hway hmem
      · exact hne (List.mem_singleton.mp hmem)
    subst hjoin
    exact ⟨⟨_, [], rfl, hopens⟩, Or.inr ⟨rfl, hnotDir⟩⟩

/-- Artifacts that some storage lets through are downloaded one after the other. -/
theorem exec_verifyArtifacts (pointer : Except Exc JsonText) {arts : List Artifact}
    {names' : List String} (h : Filled root stage disk₀ names disk)
    (hplace : stagePlace root m.modelSetId = stage) (hnul : Place.hasNul m.modelSetId = false)
    (harts : List.Forall₂ (fun art name => art.Fetchable root sha256 stage name) arts names')
    (hfits : (names ++ names').Pairwise (Fits stage)) :
    ∃ disk₁, Filled root stage disk₀ (names ++ names') disk₁ ∧
      ∀ rest out disk', Exec (diskWorld root sha256 pointer)
        (verifyArtifacts m.modelSetId rest) disk₁ out disk' →
        Exec (diskWorld root sha256 pointer) (verifyArtifacts m.modelSetId (arts ++ rest)) disk out
          disk' := by
  induction harts generalizing names disk with
  | nil => exact ⟨disk, by simpa using h, fun _ _ _ exec => exec⟩
  | @cons art name arts names' hart harts ih =>
      obtain ⟨bytes, hdigest⟩ := hart.digest
      have hcons : names ++ name :: names' = names ++ [name] ++ names' := by simp
      rw [hcons] at hfits ⊢
      have hlast : ∀ n ∈ names, Fits stage n name := fun n hn =>
        (List.pairwise_append.mp (List.pairwise_append.mp hfits).1).2.2 n hn name
          (List.mem_singleton_self _)
      obtain ⟨disk₁, hfilled, hrest⟩ := ih (h.fill bytes hart) hfits
      refine ⟨disk₁, hfilled, fun rest out disk' exec => ?_⟩
      have hread : diskWorld root sha256 pointer (filledWith stage name bytes disk)
          (.sha256File m.modelSetId name) (.ok (sha256 bytes))
          (filledWith stage name bytes disk) := by
        refine diskWorld_of_does (by simp [ArtifactCall.names, hnul, hart.nul]) ⟨rfl, Or.inr ?_⟩
        rintro digest hr
        rw [hplace]
        exact ⟨bytes, filledWith_join bytes, (Except.ok.inj hr).symm⟩
      have hbody := hrest rest out disk' exec
      rw [List.cons_append, verifyArtifacts, hart.text]
      refine Exec.bind .ret (Exec.bind (Exec.perform (h.download hplace hnul hart hlast))
        (Exec.bind (Exec.perform hread) ?_))
      rw [if_neg (by simp [hdigest])]
      exact hbody

/-- The staged directory is made where there was nothing. -/
theorem filled_staged {extra : DiskTree}
    (hextra : ∀ p, stagingDir root ++ [part] <+: p → extra p = none) :
    Filled root (stagingDir root ++ [part]) (bareDisk root extra) []
      (Function.update (bareDisk root extra) (stagingDir root ++ [part]) (some .dir)) where
  nodes := by
    intro p hp
    left
    by_cases hstage : p = stagingDir root ++ [part]
    · exact Or.inr (by rw [hstage, Function.update_self])
    rw [DiskTree.Opens, Function.update_of_ne hstage]
    rcases hp with hinside | hstanding
    · exact bareDisk_opens (hextra p hinside)
    · exact Or.inr (bareDisk_standing hstanding)
  dirs := by
    intro p hp hdir
    by_cases hstage : p = stagingDir root ++ [part]
    · exact Or.inr (Or.inl hstage)
    rcases hp with hinside | hstanding
    · rw [Function.update_of_ne hstage,
        bareDisk_extra ((deep_staging root part).not_standing hinside), hextra p hinside] at hdir
      cases hdir
    · exact Or.inl hstanding
  away := by
    intro p hp
    refine Function.update_of_ne (fun heq => hp (Or.inl ?_)) _ _
    rw [heq]
  standing := by
    intro p hp
    have hne : p ≠ stagingDir root ++ [part] := fun heq =>
      (deep_staging root part).not_standing (List.prefix_refl _) (heq ▸ hp)
    rw [Function.update_of_ne hne, bareDisk_standing hp]

theorem exec_downloadAndVerify (pointer : Except Exc JsonText) (extra : DiskTree)
    {arts : List Artifact}
    (hpart : Place.IsPart m.modelSetId part) (hnul : Place.hasNul m.modelSetId = false)
    (hextra : ∀ p, stagingDir root ++ [part] <+: p → extra p = none)
    (hstaged : StagedAs root sha256 (stagingDir root ++ [part]) arts names) :
    ∃ disk₁, Filled root (stagingDir root ++ [part]) (bareDisk root extra) names disk₁ ∧
      ∀ rest out disk', m.artifacts = arts ++ rest → Exec (diskWorld root sha256 pointer)
        (verifyArtifacts m.modelSetId rest) disk₁ out disk' →
        Exec (diskWorld root sha256 pointer) (downloadAndVerify m) (bareDisk root extra) out
          disk' := by
  have hnames : ([m.modelSetId].any Place.hasNul) = false := by simp [hnul]
  have hnone : ∀ p, stagingDir root ++ [part] <+: p → bareDisk root extra p = none := fun p hp => by
    rw [bareDisk_extra ((deep_staging root part).not_standing hp), hextra p hp]
  obtain ⟨disk₁, hfilled, hrest⟩ := exec_verifyArtifacts pointer (filled_staged hextra)
    hpart.join hnul hstaged.fetchable hstaged.fits
  refine ⟨disk₁, hfilled, fun rest out disk' harts exec => ?_⟩
  have hstage : stagePlace root m.modelSetId = stagingDir root ++ [part] := hpart.join
  have hthere : diskWorld root sha256 pointer (bareDisk root extra) (.stageExists m.modelSetId)
      (.ok false) (bareDisk root extra) := by
    refine diskWorld_of_does hnames ⟨rfl, (fun h => by cases h), fun _ hdir => ?_⟩
    rw [hstage, hnone _ (List.prefix_refl _)] at hdir
    cases hdir.2
  have hmake : diskWorld root sha256 pointer (bareDisk root extra) (.makeStage m.modelSetId)
      (.ok ()) (Function.update (bareDisk root extra) (stagingDir root ++ [part]) (some .dir)) := by
    refine diskWorld_of_does hnames (Or.inr ⟨fun p hp => ?_, fun _ => ⟨?_, ?_⟩⟩)
    · have heq : p = stagingDir root ++ [part] := by
        by_contra hne
        exact hp (Function.update_of_ne hne _ _)
      subst heq
      refine ⟨⟨[stagingDir root], [], hpart.trail, fun q hq => Or.inr ?_⟩,
        hnone _ (List.prefix_refl _), Function.update_self ..⟩
      rw [List.mem_singleton.mp hq]
      exact bareDisk_standing (standing_staging root)
    · rw [hstage]
      exact hnone
    · rw [hstage, Function.update_self]
  refine Exec.bind (Exec.perform hthere) (Exec.bind .ret (Exec.bind (Exec.perform hmake) ?_))
  rw [harts]
  exact hrest rest out disk' exec

end Filling

/-! ### The ways out -/

section Escapes

variable {part : String}

theorem not_atHome_set (root : Place) (part part' : String) :
    ¬ AtHome root (stagingDir root ++ [part]) (setsDir root ++ [part']) := by
  rintro (hinside | hstanding)
  · exact staging_ne_sets part part' ((deep_staging root part).eq_of_common (deep_sets root part')
      hinside (List.prefix_refl _))
  · exact (deep_sets root part').not_standing (List.prefix_refl _) hstanding

/-- The first place of a walk that is not at home is a child of a directory that stands. -/
theorem eq_set_of_first {p : Place} {name : String} {before after : List Place}
    (htrail : (stagingDir root ++ [part]).trail name = before ++ p :: after)
    (hhome : ∀ q ∈ before, AtHome root (stagingDir root ++ [part]) q)
    (hp : ¬ AtHome root (stagingDir root ++ [part]) p) (hset : setsDir root ++ [part] <+: p) :
    p = setsDir root ++ [part] := by
  rcases Place.trail_chain htrail with rfl | rfl | ⟨q, hq, step, rfl⟩
  · exact absurd (Or.inl (List.prefix_refl _)) hp
  · exact absurd (Or.inr (Or.inl List.nil_prefix)) hp
  unfold Place.enter at hp hset ⊢
  split_ifs at hp hset ⊢ with hup
  · refine absurd ?_ hp
    have hdrop : q.dropLast <+: q := List.dropLast_prefix q
    rcases hhome q hq with hinside | hstanding
    · rcases List.prefix_or_prefix_of_prefix hinside hdrop with hprefix | hprefix
      · exact Or.inl hprefix
      · rcases eq_or_ne q.dropLast (stagingDir root ++ [part]) with heq | hne
        · exact Or.inl (heq ▸ List.prefix_refl _)
        · have hshort := (List.prefix_concat_iff.mp hprefix).resolve_left hne
          exact Or.inr (Or.inl hshort)
    · exact Or.inr (hstanding.imp hdrop.trans hdrop.trans)
  · rcases hhome q hq with hinside | hstanding
    · exact absurd (Or.inl (hinside.trans (List.prefix_append _ _))) hp
    · have hlength := hstanding.length_le
      refine (hset.eq_of_length_le ?_).symm
      simp only [List.length_append, List.length_singleton, setsDir]
      omega

/-- An artifact name that leads out leads a download out. -/
theorem not_confined_of_name {arts after : List Artifact} {art : Artifact} {names : List String}
    {name : String} (hpublished : publishedManifest pointer = some m)
    (hnul : Place.hasNul m.modelSetId = false) (hpart : Place.IsPart m.modelSetId part)
    (harts : m.artifacts = arts ++ art :: after)
    (hstaged : StagedAs root sha256 (stagingDir root ++ [part]) arts names)
    (htext : art.name = .str name) (hname : Place.hasNul name = false)
    (hout : ¬ StaysHome root (stagingDir root ++ [part]) names name) :
    ¬ d.PollsConfined root sha256 pointer served false := by
  intro h
  unfold StaysHome at hout
  push Not at hout
  obtain ⟨before, p, after', htrail, hhome, hp⟩ := hout
  let extra : DiskTree := Function.update (fun _ => none) (setsDir root ++ [part]) (some (.link []))
  have hextra : ∀ q, q ≠ setsDir root ++ [part] → extra q = none := fun q hq =>
    Function.update_of_ne hq _ _
  have hshort : ∀ name, root ++ [name] ≠ setsDir root ++ [part] := fun name heq => by
    simpa [setsDir] using congrArg List.length heq
  have hlink : extra (linkPlace root .active) = none := hextra _ (hshort "active")
  have hstate : ∀ p, p = statePlace root ∨ p = stateTmpPlace root → extra p = none := by
    rintro p (rfl | rfl)
    · exact hextra _ (hshort "state.json")
    · exact hextra _ (hshort "state.json.tmp")
  obtain ⟨disk₁, hfilled, hrest⟩ := exec_downloadAndVerify pointer extra hpart hnul
    (fun q hq => hextra q fun heq =>
      not_atHome_set root part part (Or.inl (heq ▸ hq))) hstaged
  have hcomes : disk₁.Comes ((stagingDir root ++ [part]).trail name) p :=
    ⟨before, after', htrail, fun q hq => hfilled.opens (hhome q hq).1 (hhome q hq).2⟩
  have hfetch : ∀ disk₂, disk₁.Follows ((stagingDir root ++ [part]).trail name) ∨
      disk₁.Fetches disk₂ (stagingDir root ++ [part]) name →
      ConfinedTo root (publishedManifest pointer) (bareDisk root extra) disk₂ := by
    intro disk₂ hstep
    have hnone : bareDisk root extra (statePlace root) = none :=
      (bareDisk_extra (not_standing_statePlace (Or.inl rfl))).trans (hstate _ (Or.inl rfl))
    refine h _ _ _ (standsAt_bareDisk (fun node hnode => ?_) hstate)
      (fun m' _ => not_namesActive hnone _) (exec_pollOnce hpublished hnone
        (exec_activate_fails (e := osError "OSError") (hrest _ _ _ harts ?_)))
    · rw [hlink] at hnode
      cases hnode
    · rw [verifyArtifacts, htext]
      refine Exec.bind .ret (Exec.bind_error (Exec.perform (diskWorld_of_does
        (by simp [ArtifactCall.names, hnul, hname]) ?_)))
      have hstage : stagePlace root m.modelSetId = stagingDir root ++ [part] := hpart.join
      rw [ArtifactCall.does, hstage]
      exact hstep.imp id fun hfetches => ⟨hfetches, fun hok => by cases hok⟩
  have hzone : ∀ q zone, SetZone root (publishedManifest pointer) zone → zone <+: q →
      stagingDir root ++ [part] <+: q ∨ setsDir root ++ [part] <+: q := by
    rintro q zone ⟨m', part', hm, hone, hdir⟩ hprefix
    obtain rfl := Option.some.inj (hpublished.symm.trans hm)
    obtain rfl : part = part' := by simpa [hpart.parts] using hone.parts
    rcases hdir with rfl | rfl
    · exact Or.inl hprefix
    · exact Or.inr hprefix
  by_cases hset : p = setsDir root ++ [part]
  · -- the set of that name may be a link to anywhere
    have hnode : disk₁ p = some (.link []) := by
      rw [hfilled.away p hp, hset,
        bareDisk_extra ((deep_sets root part).not_standing (List.prefix_refl _))]
      exact Function.update_self ..
    have hconfined := hfetch (Function.update disk₁ (setsDir root) none)
      (Or.inl ⟨p, [], hcomes, hnode⟩)
    have hdir : bareDisk root extra (setsDir root) = some .dir :=
      bareDisk_standing (standing_sets root)
    rcases hconfined.inside (setsDir root) (by rw [Function.update_self, hdir]; simp) with
      ⟨zone, hz, hprefix⟩ | hown
    · rcases hzone _ zone hz hprefix with hstaging | hsets
      · exact (deep_staging root part).not_standing hstaging (standing_sets root)
      · exact (deep_sets root part).not_standing hsets (standing_sets root)
    · exact (standing_sets root).not_own hown
  · have hnone : bareDisk root extra p = none := by
      rw [bareDisk_extra fun hstanding => hp (Or.inr hstanding), hextra p hset]
    have hconfined := hfetch (Function.update disk₁ p (some .dir)) (Or.inr fun q hq => by
      have hqp : q = p := by
        by_contra hne
        exact hq (Function.update_of_ne hne _ _)
      subst hqp
      exact ⟨hcomes, Or.inl ((hfilled.away q hp).trans hnone)⟩)
    rcases hconfined.inside p (by rw [Function.update_self, hnone]; simp) with
      ⟨zone, hz, hprefix⟩ | ⟨l, -, hown⟩ | ⟨-, hown⟩
    · rcases hzone p zone hz hprefix with hstaging | hsets
      · exact hp (Or.inl hstaging)
      · exact hset (eq_set_of_first htrail (fun q hq => (hhome q hq).1) hp hsets)
    · obtain ⟨target, htarget⟩ := hown _ (Function.update_self ..)
      cases htarget
    · obtain ⟨text, hjson⟩ := hown _ (Function.update_self ..)
      cases hjson

/-- A set that is replaced while the active link leads to it takes the target along. -/
theorem not_confined_of_served {names : List String}
    (hpublished : publishedManifest pointer = some m)
    (hnul : Place.hasNul m.modelSetId = false) (hpart : Place.IsPart m.modelSetId part)
    (hstaged : StagedAs root sha256 (stagingDir root ++ [part]) m.artifacts names)
    (hserved : served = some part) : ¬ d.PollsConfined root sha256 pointer served false := by
  intro h
  let extra : DiskTree := Function.update (Function.update (fun _ => none)
    (setsDir root ++ [part]) (some .dir)) (linkPlace root .active)
      (some (.link (setsDir root ++ [part])))
  have hshort : ∀ name, setsDir root ++ [part] ≠ root ++ [name] := fun name heq => by
    simpa [setsDir] using congrArg List.length heq
  have hset : extra (setsDir root ++ [part]) = some .dir := by
    have hne : setsDir root ++ [part] ≠ linkPlace root .active := hshort "active"
    exact (Function.update_of_ne hne _ _).trans (Function.update_self ..)
  have hlink : extra (linkPlace root .active) = some (.link (setsDir root ++ [part])) :=
    Function.update_self ..
  have hextra : ∀ q, q ≠ setsDir root ++ [part] → q ≠ linkPlace root .active → extra q = none :=
    fun q hq hactive => (Function.update_of_ne hactive _ _).trans (Function.update_of_ne hq _ _)
  have hstate : ∀ p, p = statePlace root ∨ p = stateTmpPlace root → extra p = none := by
    rintro p (rfl | rfl)
    · exact hextra _ (hshort "state.json").symm (by simp [statePlace, linkPlace])
    · exact hextra _ (hshort "state.json.tmp").symm (by simp [stateTmpPlace, linkPlace])
  obtain ⟨disk₁, hfilled, hrest⟩ := exec_downloadAndVerify pointer extra hpart hnul
    (fun q hq => hextra q
      (fun heq => not_atHome_set root part part (Or.inl (heq ▸ hq)))
      fun heq => (deep_staging root part).not_own hq (heq ▸ ownFile_link_none root .active)) hstaged
  have hnone : bareDisk root extra (statePlace root) = none :=
    (bareDisk_extra (not_standing_statePlace (Or.inl rfl))).trans (hstate _ (Or.inl rfl))
  have hbare : bareDisk root extra (setsDir root ++ [part]) = some .dir :=
    (bareDisk_extra ((deep_sets root part).not_standing (List.prefix_refl _))).trans hset
  have hsets := hfilled.standing _ (standing_sets root)
  have hconfined : ConfinedTo root (publishedManifest pointer) (bareDisk root extra)
      (Function.update disk₁ (setsDir root ++ [part]) none) := by
    refine h _ _ (some (.error (osError "OSError"))) (standsAt_bareDisk (fun node hnode => ?_) hstate)
      (fun m' _ => not_namesActive hnone _) (exec_pollOnce hpublished hnone ?_)
    · rw [hlink] at hnode
      exact ⟨part, hserved, (Option.some.inj hnode).symm⟩
    have hverified : Exec (diskWorld root sha256 pointer) (downloadAndVerify m)
        (bareDisk root extra) (some (.ok ())) disk₁ := hrest [] _ _ (List.append_nil _).symm .ret
    have hnames : ([m.modelSetId].any Place.hasNul) = false := by simp [hnul]
    have hplace : setPlace root m.modelSetId = setsDir root ++ [part] := hpart.join
    have hdir : disk₁ (setsDir root ++ [part]) = some .dir :=
      (hfilled.away _ (not_atHome_set root part part)).trans hbare
    have hpasses : disk₁.Passes ((setsDir root).way m.modelSetId) := fun q hq => by
      rw [hpart.way, List.mem_singleton] at hq
      rw [hq, hsets]
    have hthere : diskWorld root sha256 pointer disk₁ (.setExists m.modelSetId) (.ok true) disk₁ :=
      diskWorld_of_does hnames ⟨rfl, fun _ => ⟨hpasses, by rw [hplace, hdir]; rfl⟩,
        fun h => by cases h⟩
    have hremove : diskWorld root sha256 pointer disk₁ (.removeSet m.modelSetId)
        (.error (osError "OSError")) (Function.update disk₁ (setsDir root ++ [part]) none) := by
      refine diskWorld_of_does hnames (Or.inr ⟨fun p hp => ?_, fun h => by cases h⟩)
      have heq : p = setsDir root ++ [part] := by
        by_contra hne
        exact hp (Function.update_of_ne hne _ _)
      subst heq
      exact ⟨hpasses, by rw [hpart.join], Function.update_self ..⟩
    refine Exec.bind (Exec.attempt hverified) (Exec.bind_error (Exec.bind_error ?_))
    exact Exec.bind (Exec.perform hthere) (Exec.bind_error (Exec.perform hremove))
  have htarget := hconfined.target (setsDir root ++ [part]) (setsDir root ++ [part])
    ((bareDisk_extra (not_standing_linkPlace .active)).trans hlink) (List.prefix_refl _)
  rw [Function.update_self, hbare] at htarget
  cases htarget

end Escapes

/-- A poll is confined exactly when the set that it activates, if it activates one, is named by
one part of a path, when no artifact name that the downloads can come to leads out of the staged
directory, and when the active link leads to another set. -/
theorem polls_confined_iff (d : ModelDownloader) (root : Place) (sha256 : List UInt8 → String)
    (pointer : Except Exc JsonText) (served : Option String) (current : Bool) :
    d.PollsConfined root sha256 pointer served current ↔
      ∀ m, publishedManifest pointer = some m → current = false →
        m.Confinable root sha256 served := by
  refine ⟨?_, pollsConfined_of_confinable⟩
  rintro h m hpublished rfl
  by_contra hnot
  unfold Manifest.Confinable at hnot
  push Not at hnot
  obtain ⟨hnul, hpart⟩ := hnot
  replace hnul : Place.hasNul m.modelSetId = false := by simpa using hnul
  by_cases hone : ∃ part, Place.IsPart m.modelSetId part
  · obtain ⟨part, hone⟩ := hone
    by_cases hnames : ∀ before art after names name, m.artifacts = before ++ art :: after →
        StagedAs root sha256 (stagingDir root ++ [part]) before names → art.name = .str name →
        Place.hasNul name = false → StaysHome root (stagingDir root ++ [part]) names name
    · obtain ⟨names, hstaged, hserved⟩ := hpart part hone hnames
      exact not_confined_of_served hpublished hnul hone hstaged hserved h
    · push Not at hnames
      obtain ⟨before, art, after, names, name, harts, hstaged, htext, hname, hout⟩ := hnames
      exact not_confined_of_name hpublished hnul hone harts hstaged htext hname hout h
  · exact not_confined_of_set hpublished hnul hone h

/-! ### A set that is named by two dots -/

open ArtifactService

/-- A published set of two dots, with one artifact. -/
def dottedManifest : Manifest where
  schemaVersion := 1
  modelSetId := ".."
  publishedAt := ""
  artifacts := [⟨.str "regime_hmm.pkl", .str "models/hmm.pkl", .str "one", 0⟩]

theorem published_dotted :
    publishedManifest (publishedPointer "..") = some dottedManifest := rfl

/-- A root in which one set is active. -/
def servingDisk : DiskTree := bareDisk ["srv"] fun p =>
  if p = ["srv", "sets", "old"] then some .dir
  else if p = ["srv", "active"] then some (.link ["srv", "sets", "old"])
  else none

/-- The same disk with nothing left in the root. -/
def emptiedDisk : DiskTree := fun p => if ["srv"] <+: p ∧ p ≠ ["srv"] then none else servingDisk p

/-- A set of two dots makes the poll clear the whole root before it downloads anything: the set
that the active link leads to is gone, and so is the link. -/
theorem dotted_set_clears_root : ∃ disk disk', StandsAt ["srv"] (some "old") disk ∧
    Exec (diskWorld ["srv"] sampleService.sha256
        (publishedPointer ".."))
      sampleService.downloader.pollOnce disk (some (.ok false)) disk' ∧
    disk (setsDir ["srv"] ++ ["old"]) = some .dir ∧ disk' (setsDir ["srv"] ++ ["old"]) = none ∧
    disk (linkPlace ["srv"] .active) = some (.link (setsDir ["srv"] ++ ["old"])) ∧
    disk' (linkPlace ["srv"] .active) = none ∧
    ¬ ConfinedTo ["srv"] (publishedManifest (publishedPointer "..")) disk disk' := by
  have hstate : servingDisk (statePlace ["srv"]) = none := rfl
  have hset : servingDisk (setsDir ["srv"] ++ ["old"]) = some .dir := rfl
  have hgone : emptiedDisk (setsDir ["srv"] ++ ["old"]) = none := rfl
  have hlink : servingDisk (linkPlace ["srv"] .active) =
      some (.link (setsDir ["srv"] ++ ["old"])) := rfl
  refine ⟨servingDisk, emptiedDisk, standsAt_bareDisk (fun node hnode => ?_) ?_,
    exec_pollOnce published_dotted hstate (exec_activate_fails (e := osError "FileNotFoundError") ?_),
    hset, hgone, hlink, rfl, fun hconfined => ?_⟩
  · exact ⟨"old", rfl, (Option.some.inj hnode).symm⟩
  · rintro p (rfl | rfl)
    · rfl
    · rfl
  · -- `staging/..` is there, and what is in it can be removed, but not the path itself
    have hpasses : servingDisk.Passes ((stagingDir ["srv"]).way dottedManifest.modelSetId) := by
      intro q hq
      obtain rfl : q = stagingDir ["srv"] := List.mem_singleton.mp hq
      exact bareDisk_standing (standing_staging ["srv"])
    refine Exec.bind (a := true) (Exec.perform (diskWorld_of_does (by decide)
      ⟨rfl, fun _ => ⟨hpasses, rfl⟩, fun h => by cases h⟩)) ?_
    refine Exec.bind_error (Exec.perform (diskWorld_of_does (by decide)
      (Or.inr ⟨fun p hp => ?_, fun h => by cases h⟩)))
    by_cases hp' : ["srv"] <+: p ∧ p ≠ ["srv"]
    · exact ⟨hpasses, hp'.1, if_pos hp'⟩
    · exact absurd (if_neg hp') hp
  · have hkept := hconfined.target (setsDir ["srv"] ++ ["old"]) _ hlink (List.prefix_refl _)
    rw [hgone, hset] at hkept
    cases hkept

end ModelDownloader

end System2
