import System2.ArtifactSync.ArtifactHost
import System2.ArtifactSync.RootSteps

/-!
# Links lead to complete, verified sets

The links, the set directories and the state file are three records of one fact, and
the process may die between any two steps that change them. The links stay good
through all of it, but for one step: a directory under `sets/` is removed to make
room for a set of the same name, whether a link leads to it or not.
-/

namespace System2
open Foundation ArtifactRoot

/-! ### Complete sets -/

/-- The directory holds exactly the artifacts of the manifest, each with its declared digest. -/
structure Manifest.Holds (sha256 : List UInt8 → String) (manifest : Manifest) (dir : SetDir) :
    Prop where
  verified : ∀ art ∈ manifest.artifacts, ∃ name bytes, art.name = .str name ∧
    dir name = some bytes ∧ art.sha256 = .str (sha256 bytes)
  exact : ∀ name, (dir name).isSome = true → ∃ art ∈ manifest.artifacts, art.name = .str name

/-- Two entries of one name declare one digest. -/
def Manifest.consistent (manifest : Manifest) : Prop :=
  ∀ art ∈ manifest.artifacts, ∀ art' ∈ manifest.artifacts, ∀ name sum, art.name = .str name →
    art'.name = .str name → art.sha256 = .str sum → art'.sha256 = .str sum

/-- The directory of a set is there, and holds the artifacts of a manifest of that set which one
of the polled pointers published. -/
def Complete (sha256 : List UInt8 → String) (pointers : List (Except Exc JsonText))
    (root : ArtifactRoot) (set : String) : Prop :=
  ∃ pointer ∈ pointers, ∃ manifest dir, publishedManifest pointer = some manifest ∧
    manifest.modelSetId = set ∧ root.sets set = some dir ∧ manifest.Holds sha256 dir

/-- Both links lead to complete sets. -/
def LinksComplete (sha256 : List UInt8 → String) (pointers : List (Except Exc JsonText))
    (root : ArtifactRoot) : Prop :=
  ∀ l set, root.link l = some set → Complete sha256 pointers root set

/-- The published manifests name parts of paths, and no artifact twice with two digests. -/
def WellPublished (pointer : Except Exc JsonText) : Prop :=
  ∀ manifest, publishedManifest pointer = some manifest → manifest.plain ∧ manifest.consistent

/-- The invariant: the links lead to complete sets, those that led somewhere before still do, and
the recorded active set is complete. -/
structure SetsKept (sha256 : List UInt8 → String) (pointers : List (Except Exc JsonText))
    (was : RootLink → Prop) (root : ArtifactRoot) : Prop where
  links : LinksComplete sha256 pointers root
  kept : ∀ l, was l → (root.link l).isSome = true
  recorded : Records (Complete sha256 pointers root) root.stateValue

section SetsKept

variable {sha256 : List UInt8 → String} {pointers : List (Except Exc JsonText)}
  {was : RootLink → Prop} {root root' : ArtifactRoot} {set : String}

theorem Complete.mono {pointers' : List (Except Exc JsonText)}
    (h : Complete sha256 pointers root set) (hsub : ∀ p ∈ pointers, p ∈ pointers') :
    Complete sha256 pointers' root set := by
  obtain ⟨pointer, hpointer, rest⟩ := h
  exact ⟨pointer, hsub pointer hpointer, rest⟩

theorem Complete.of_sets (h : Complete sha256 pointers root set)
    (hsets : root'.sets set = root.sets set) : Complete sha256 pointers root' set := by
  obtain ⟨pointer, hpointer, manifest, dir, hpublished, hset, hdir, hholds⟩ := h
  exact ⟨pointer, hpointer, manifest, dir, hpublished, hset, hsets.trans hdir, hholds⟩

theorem Complete.isSome (h : Complete sha256 pointers root set) :
    (root.sets set).isSome = true := by
  obtain ⟨_, _, _, dir, _, _, hdir, _⟩ := h
  rw [hdir]
  rfl

theorem Complete.plain (h : Complete sha256 pointers root set)
    (hpointers : ∀ p ∈ pointers, WellPublished p) : isPlain set = true := by
  obtain ⟨pointer, hpointer, manifest, dir, hpublished, rfl, -⟩ := h
  exact (hpointers pointer hpointer manifest hpublished).1.1

theorem SetsKept.mono {pointers' : List (Except Exc JsonText)}
    (h : SetsKept sha256 pointers was root) (hsub : ∀ p ∈ pointers, p ∈ pointers') :
    SetsKept sha256 pointers' was root :=
  ⟨fun l set hl => (h.links l set hl).mono hsub, h.kept, h.recorded.mono fun _ h => h.mono hsub⟩

theorem SetsKept.same (h : SetsKept sha256 pointers was root) (hsame : Same root root') :
    SetsKept sha256 pointers was root' := by
  have hcomplete : ∀ {set}, Complete sha256 pointers root set → Complete sha256 pointers root' set :=
    fun h => h.of_sets (by rw [hsame.sets])
  have hvalue : root'.stateValue = root.stateValue := by rw [stateValue, hsame.state, stateValue]
  exact ⟨fun l set hl => hcomplete (h.links l set (hsame.link ▸ hl)),
    fun l hl => hsame.link ▸ h.kept l hl, hvalue ▸ h.recorded.mono fun _ h => hcomplete h⟩

/-- A link may be turned to a complete set. -/
theorem SetsKept.relinked {l : RootLink} (h : SetsKept sha256 pointers was root)
    (hset : Complete sha256 pointers root set) (hlink : Relinked root l (some set) root') :
    SetsKept sha256 pointers was root' := by
  have hcomplete : ∀ {set}, Complete sha256 pointers root set → Complete sha256 pointers root' set :=
    fun h => h.of_sets (by rw [hlink.sets])
  have hvalue : root'.stateValue = root.stateValue := by rw [stateValue, hlink.state, stateValue]
  refine ⟨fun l' set' hl => hcomplete ?_, fun l' hl' => ?_,
    hvalue ▸ h.recorded.mono fun _ h => hcomplete h⟩
  · rcases hlink.target_of hl with htarget | hold
    · exact Option.some.inj htarget ▸ hset
    · exact h.links l' set' hold
  · rw [hlink.link]
    by_cases heq : l' = l
    · rw [heq, Function.update_self]
      rfl
    · rw [Function.update_of_ne heq]
      exact h.kept l' hl'

/-- The state file may name a complete set. -/
theorem SetsKept.restated {state : PyVal} (h : SetsKept sha256 pointers was root)
    (hrec : Records (Complete sha256 pointers root) state) (hstate : Restated root state root') :
    SetsKept sha256 pointers was root' := by
  have hcomplete : ∀ {set}, Complete sha256 pointers root set → Complete sha256 pointers root' set :=
    fun h => h.of_sets (by rw [hstate.sets])
  have hvalue : root'.stateValue = state := by rw [stateValue, hstate.state]
  exact ⟨fun l set hl => hcomplete (h.links l set (hstate.link ▸ hl)),
    fun l hl => hstate.link ▸ h.kept l hl, hvalue ▸ hrec.mono fun _ h => hcomplete h⟩

/-- The directory of a set that neither a link nor the state names may change. -/
theorem SetsKept.sameBut (h : SetsKept sha256 pointers was root)
    (hfree : ∀ l, root.link l ≠ some set) (hrec : Records (· ≠ set) root.stateValue)
    (hbut : SameBut root set root') : SetsKept sha256 pointers was root' := by
  have hvalue : root'.stateValue = root.stateValue := by rw [stateValue, hbut.state, stateValue]
  refine ⟨fun l set' hl => ?_, fun l hl => hbut.link ▸ h.kept l hl, hvalue ▸ ?_⟩
  · rw [hbut.link] at hl
    exact (h.links l set' hl).of_sets (hbut.sets set' fun heq => hfree l (heq ▸ hl))
  · obtain ⟨d, hd, hcomplete⟩ := h.recorded
    obtain ⟨d', hd', hne⟩ := hrec
    obtain rfl : d = d' := PyVal.dict.inj (hd.symm.trans hd')
    exact ⟨d, hd, fun set' hset' =>
      (hcomplete set' hset').of_sets (hbut.sets set' (hne set' hset'))⟩

/-- No link leads to a set without a directory. -/
theorem SetsKept.not_linked (h : SetsKept sha256 pointers was root) (hnone : root.sets set = none)
    (l : RootLink) : root.link l ≠ some set := by
  intro hl
  have hsome := (h.links l set hl).isSome
  rw [hnone] at hsome
  cases hsome

end SetsKept

/-! ### Downloading -/

namespace ModelDownloader

variable {sha256 : List UInt8 → String} {pointer : Except Exc JsonText} {root : ArtifactRoot}
  {d : ModelDownloader} {manifest : Manifest}

/-- The staged directory holds some artifacts, each with its declared digest, and no other file. -/
structure Staged (sha256 : List UInt8 → String) (set : String) (done : List Artifact)
    (root : ArtifactRoot) : Prop where
  verified : ∀ art ∈ done, ∃ name bytes, art.name = .str name ∧
    ((root.staging set).bind fun dir => dir name) = some bytes ∧
      art.sha256 = .str (sha256 bytes)
  exact : ∀ name, ((root.staging set).bind fun dir => dir name).isSome = true →
    ∃ art ∈ done, art.name = .str name
  made : (root.staging set).isSome = true

theorem Staged.holds {set : String} {dir : SetDir} (h : Staged sha256 set manifest.artifacts root)
    (hdir : root.staging set = some dir) : manifest.Holds sha256 dir := by
  refine ⟨fun art hart => ?_, fun name hname => h.exact name ?_⟩
  · obtain ⟨name, bytes, hname, hbytes, hsum⟩ := h.verified art hart
    rw [hdir] at hbytes
    exact ⟨name, bytes, hname, hbytes, hsum⟩
  · rw [hdir]
    exact hname

/-- A verified file is added. A file of the same name that was verified before had the same
digest. -/
theorem Staged.download {set name : String} {done : List Artifact} {art : Artifact}
    {bytes : List UInt8} (h : Staged sha256 set done root) (hname : art.name = .str name)
    (hsum : art.sha256 = .str (sha256 bytes))
    (hconsistent : ∀ art' ∈ done, art'.name = .str name → art'.sha256 = .str (sha256 bytes)) :
    Staged sha256 set (done ++ [art]) (root.setStagedFile set name (some bytes)) := by
  obtain ⟨dir, hdir⟩ := Option.isSome_iff_exists.mp h.made
  have hstaged : (root.setStagedFile set name (some bytes)).staging set =
      some (Function.update dir name (some bytes)) := by
    simp [setStagedFile, setStage, hdir]
  refine ⟨fun art' hart' => ?_, fun name' hname' => ?_, by rw [hstaged]; rfl⟩
  · rw [hstaged]
    rcases List.mem_append.mp hart' with hdone | hlast
    · obtain ⟨name', bytes', hname', hbytes', hsum'⟩ := h.verified art' hdone
      by_cases heq : name' = name
      · subst heq
        exact ⟨name', bytes, hname', by simp, hconsistent art' hdone hname'⟩
      · rw [hdir] at hbytes'
        exact ⟨name', bytes', hname', by simpa [heq] using hbytes', hsum'⟩
    · obtain rfl := List.mem_singleton.mp hlast
      exact ⟨name, bytes, hname, by simp, hsum⟩
  · by_cases heq : name' = name
    · subst heq
      exact ⟨art, by simp, hname⟩
    · rw [hstaged] at hname'
      obtain ⟨art', hart', hname''⟩ := h.exact name' (by rw [hdir]; simpa [heq] using hname')
      exact ⟨art', List.mem_append_left _ hart', hname''⟩

/-- Every remaining artifact is downloaded and verified. -/
theorem wp_verifyArtifacts {set : String} {done rest : List Artifact}
    (hplain : isPlain set = true)
    (hnames : ∀ art ∈ rest, ∀ name, art.name = .str name → isPlain name = true)
    (hconsistent : ∀ art ∈ done ++ rest, ∀ art' ∈ done ++ rest, ∀ name sum, art.name = .str name →
      art'.name = .str name → art.sha256 = .str sum → art'.sha256 = .str sum)
    (h : Staged sha256 set done root) :
    wp (faultyWorld sha256 pointer) (verifyArtifacts set rest)
      (fun r root' => r.isOk = true → Staged sha256 set (done ++ rest) root') root := by
  induction rest generalizing done root with
  | nil => exact ⟨trivial, fun _ => (List.append_nil done).symm ▸ h⟩
  | cons art rest ih =>
      unfold verifyArtifacts
      cases hpart : pathPart art.name with
      | error e => exact ⟨trivial, fun hok => by cases hok⟩
      | ok name =>
          have hname : art.name = .str name := by
            cases hart : art.name with
            | str s =>
                rw [hart] at hpart
                cases hpart
                rfl
            | _ =>
                rw [hart] at hpart
                cases hpart
          have hpaths : ∀ part ∈ [set, name], isPlain part = true := by
            intro part hmem
            rcases List.mem_pair.mp hmem with rfl | rfl
            · exact hplain
            · exact hnames art List.mem_cons_self part hname
          change wp _ ((perform (.download art.path set name)).bind _) _ _
          refine wpc_seq (R := fun r root₁ => r.isOk = true →
            ∃ bytes, root₁ = root.setStagedFile set name (some bytes)) ?_ ?_
            fun e root₁ _ _ hok => by cases hok
          · apply wpc_of_perform trivial
            intro r root₁ step
            refine ⟨trivial, fun hok => ?_⟩
            rcases faultyWorld_step step hpaths (fun set h => by cases h) with
              ⟨s, -, -, hrun⟩ | ⟨⟨e, rfl⟩, -⟩
            · simp only [ArtifactCall.run] at hrun
              split at hrun
              · rename_i bytes hobject
                exact ⟨bytes, (Prod.mk.inj hrun).2⟩
              · obtain ⟨rfl, -⟩ := Prod.mk.inj hrun
                cases hok
            · cases hok
          · rintro _ root₁ - hdownloaded
            obtain ⟨bytes, rfl⟩ := hdownloaded rfl
            refine wpc_seq (R := fun r root₂ => ∀ actual, r = .ok actual → actual = sha256 bytes ∧
              root₂ = root.setStagedFile set name (some bytes)) ?_ ?_
              fun e root₂ _ _ hok => by cases hok
            · apply wpc_of_perform trivial
              intro r root₂ step
              refine ⟨trivial, fun actual hr => ?_⟩
              rcases faultyWorld_step step hpaths (fun set h => by cases h) with
                ⟨s, -, hsum, hrun⟩ | ⟨⟨e, rfl⟩, -⟩
              · simp only [ArtifactCall.run, setStagedFile, setStage, Function.update_self,
                  Option.bind_some] at hrun
                obtain ⟨rfl, rfl⟩ := Prod.mk.inj hrun
                exact ⟨(Except.ok.inj hr).symm.trans (by rw [hsum]), rfl⟩
              · cases hr
            · rintro actual root₂ - hactual
              obtain ⟨rfl, rfl⟩ := hactual actual rfl
              split_ifs with hmismatch
              · exact ⟨trivial, fun hok => by cases hok⟩
              · have hsum : art.sha256 = .str (sha256 bytes) :=
                  PyVal.eq_of_isStr (by simpa using hmismatch)
                have happend : done ++ art :: rest = (done ++ [art]) ++ rest := by simp
                rw [happend] at hconsistent ⊢
                refine ih (fun art' hart' => hnames art' (List.mem_cons_of_mem _ hart')) hconsistent
                  (h.download hname hsum fun art' hart' hname' => ?_)
                exact hconsistent art (by simp) art' (by simp [hart']) name _ hname hname' hsum

/-- The staged directory of a set whose download returns. -/
theorem wp_downloadAndVerify (hpublished : manifest.plain ∧ manifest.consistent) :
    wp (faultyWorld sha256 pointer) (downloadAndVerify manifest)
      (fun r root' => r.isOk = true → ∃ dir, root'.staging manifest.modelSetId = some dir ∧
        manifest.Holds sha256 dir) root := by
  have hset : ∀ name ∈ [manifest.modelSetId], isPlain name = true := fun name h =>
    (List.mem_singleton.mp h).symm ▸ hpublished.1.1
  unfold downloadAndVerify
  refine wpc_seq (wp_true _ root) ?_ fun e root' _ _ hok => by cases hok
  intro staged root₁ _ _
  refine wpc_seq (wp_true _ root₁) ?_ fun e root' _ _ hok => by cases hok
  intro _ root₂ _ _
  refine wpc_seq (R := fun r root₃ => r.isOk = true →
    Staged sha256 manifest.modelSetId [] root₃) ?_ ?_ fun e root' _ _ hok => by cases hok
  · apply wpc_of_perform trivial
    intro r root₃ step
    refine ⟨trivial, fun hok => ?_⟩
    rcases faultyWorld_step step hset (fun set h => by cases h) with
      ⟨s, -, -, hrun⟩ | ⟨⟨e, rfl⟩, -⟩
    · simp only [ArtifactCall.run] at hrun
      split_ifs at hrun
      · obtain ⟨rfl, -⟩ := Prod.mk.inj hrun
        cases hok
      · obtain ⟨-, rfl⟩ := Prod.mk.inj hrun
        exact ⟨fun art h => (by cases h), fun name h => by simp [setStage] at h, by simp [setStage]⟩
    · cases hok
  · rintro _ root₃ - hmade
    refine wpc_post (wp_verifyArtifacts hpublished.1.1 hpublished.1.2 ?_ (hmade rfl)) ?_
    · exact fun art h art' h' => hpublished.2 art h art' h'
    · intro r root' _ h hok
      have hstaged := h hok
      obtain ⟨dir, hdir⟩ := Option.isSome_iff_exists.mp hstaged.made
      exact ⟨dir, hdir, hstaged.holds hdir⟩

/-! ### Activating

`SetsKept` holds wherever the process may die, as long as no linked set is removed. -/

/-- A disk on which no set is removed while a link leads to it. -/
def carefulWorld (sha256 : List UInt8 → String) (pointer : Except Exc JsonText) :
    World ArtifactI Exc ArtifactRoot := fun root op r root' =>
  faultyWorld sha256 pointer root op r root' ∧
    ∀ set, op = .removeSet set → ∀ l, root.link l ≠ some set

section Careful

variable {pointers : List (Except Exc JsonText)} {was : RootLink → Prop} {prevActive : PyVal}
  {set : String}

theorem carefulWorld_faulty {root root' : ArtifactRoot} {op : ArtifactCall} {r : Except Exc op.Ans}
    (step : carefulWorld sha256 pointer root op r root') :
    faultyWorld sha256 pointer root op r root' := step.1

/-- Bringing the state up to date keeps the sets. -/
theorem wpc_updateState_kept {f : PyVal → String → Except PyErr PyVal}
    (hf : ∀ now state, f root.stateValue now = .ok state →
      Records (Complete sha256 pointers root) state)
    (h : SetsKept sha256 pointers was root) :
    wpc (carefulWorld sha256 pointer) (SetsKept sha256 pointers was) (updateState f)
      (fun _ _ => True) root :=
  wpc_post (wpc_updateState (fun _ _ _ _ => carefulWorld_faulty) (fun _ => h.same)
    fun now state hnew _ => h.restated (hf now state hnew)) fun _ _ _ _ => trivial

/-- A poll that only brings the state up to date. -/
theorem wpc_keepsState_kept {f : PyVal → String → Except PyErr PyVal}
    (hf : ∀ now state, f root.stateValue now = .ok state →
      Records (Complete sha256 pointers root) state)
    (h : SetsKept sha256 pointers was root) :
    wpc (carefulWorld sha256 pointer) (SetsKept sha256 pointers was)
      ((updateState f).bind fun _ => (.ret false : Proc ArtifactI Exc Bool)) (fun _ _ => True) root :=
  wpc_seq (wpc_updateState_kept hf h) (fun _ _ hC _ => ⟨hC, trivial⟩) fun _ _ _ _ => trivial

/-- A link is turned to a complete set. -/
theorem wpc_atomicSymlink_kept {l : RootLink} (hnt : d.isNt = false)
    (hpointers : ∀ p ∈ pointers, WellPublished p) (h : SetsKept sha256 pointers was root)
    (hset : Complete sha256 pointers root set) :
    wpc (carefulWorld sha256 pointer) (SetsKept sha256 pointers was) (d.atomicSymlink l set)
      (fun r root' => r = .ok () → root'.sets = root.sets) root := by
  refine wpc_post (wpc_atomicSymlink (fun _ _ _ _ => carefulWorld_faulty) (hset.plain hpointers)
    (fun _ => h.same) (fun hisNt => ?_) fun _ => h.relinked hset) ?_
  · rw [hnt] at hisNt
    cases hisNt
  · rintro r root' - (⟨hlink, -⟩ | ⟨-, e, rfl⟩) hr
    · exact hlink.sets
    · cases hr

/-- The set that was active becomes `last_good`. -/
theorem wpc_keepLastGood_kept (hnt : d.isNt = false)
    (hpointers : ∀ p ∈ pointers, WellPublished p) (h : SetsKept sha256 pointers was root)
    (hprev : ∀ prev, prevActive = .str prev → Complete sha256 pointers root prev) :
    wpc (carefulWorld sha256 pointer) (SetsKept sha256 pointers was)
      (d.keepLastGood set prevActive) (fun r root' => r = .ok () → root'.sets = root.sets) root := by
  unfold keepLastGood
  split_ifs
  · cases prevActive with
    | str prev => exact wpc_atomicSymlink_kept hnt hpointers h (hprev prev rfl)
    | _ => exact ⟨h, fun hr => by cases hr⟩
  · exact ⟨h, fun _ => rfl⟩

/-- The end of an activation: the state names the set that the active link leads to. -/
theorem wpc_activated_kept (h : SetsKept sha256 pointers was root)
    (hset : Complete sha256 pointers root manifest.modelSetId) :
    wpc (carefulWorld sha256 pointer) (SetsKept sha256 pointers was) (do
        let polledAt ← perform .utcNow
        let swappedAt ← perform .utcNow
        let _ ← writeState (activatedState manifest prevActive polledAt swappedAt)
        return true)
      (fun _ _ => True) root := by
  have hnow : ∀ {root₁ : ArtifactRoot}, Same root root₁ →
      wpc (carefulWorld sha256 pointer) (SetsKept sha256 pointers was) (perform .utcNow)
        (fun _ root' => Same root root') root₁ := fun h₁ =>
    wpc_post (wpc_quiet (fun _ _ _ _ => carefulWorld_faulty)
      (Proc.along_perform (isQuiet trivial rfl)) fun _ h' => h.same (h₁.trans h'))
      fun _ _ _ h' => h₁.trans h'
  refine wpc_seq (hnow (.refl root)) ?_ fun _ _ _ _ => trivial
  intro polledAt root₁ _ h₁
  refine wpc_seq (hnow h₁) ?_ fun _ _ _ _ => trivial
  intro swappedAt root₂ _ h₂
  have hset₂ : Complete sha256 pointers root₂ manifest.modelSetId :=
    hset.of_sets (by rw [h₂.sets])
  exact wpc_seq (wpc_writeState (fun _ _ _ _ => carefulWorld_faulty)
      (fun _ h' => h.same (h₂.trans h'))
      fun _ h' => (h.same h₂).restated (records_activated hset₂) h')
    (fun _ _ hC _ => ⟨hC, trivial⟩) fun _ _ _ _ => trivial

/-- A verified directory takes its place, where no link leads. -/
theorem wpc_placeSet_kept (hpointer : pointer ∈ pointers)
    (hpublished : publishedManifest pointer = some manifest) (hplain : manifest.plain)
    (h : SetsKept sha256 pointers was root)
    (hrec : Records (· ≠ manifest.modelSetId) root.stateValue)
    (hstaged : ∃ dir, root.staging manifest.modelSetId = some dir ∧ manifest.Holds sha256 dir) :
    wpc (carefulWorld sha256 pointer) (SetsKept sha256 pointers was) (placeSet manifest.modelSetId)
      (fun r root' => r.isOk = true → Complete sha256 pointers root' manifest.modelSetId) root := by
  refine wpc_post (wpc_placeSet (fun _ _ _ _ => carefulWorld_faulty) hplain.1 h
    (fun hnone _ hbut => h.sameBut (h.not_linked hnone) hrec hbut)
    fun _ _ step _ hbut => h.sameBut (step.2 _ rfl) hrec hbut) ?_
  rintro r root' - ⟨-, hplaced⟩ hok
  obtain ⟨dir, hdir, hholds⟩ := hstaged
  exact ⟨pointer, hpointer, manifest, dir, hpublished, rfl, (hplaced hok).1.trans hdir, hholds⟩

/-- Another set than the recorded one is activated, or nothing is. -/
theorem wpc_activate_kept (hnt : d.isNt = false) (hpointers : ∀ p ∈ pointers, WellPublished p)
    (hpointer : pointer ∈ pointers) (hpublished : publishedManifest pointer = some manifest)
    (h : SetsKept sha256 pointers was root)
    (hrec : Records (· ≠ manifest.modelSetId) root.stateValue) :
    wpc (carefulWorld sha256 pointer) (SetsKept sha256 pointers was) (d.activate manifest)
      (fun _ _ => True) root := by
  have hgood := hpointers pointer hpointer manifest hpublished
  have hworld : ∀ (w : ArtifactRoot) (op : ArtifactCall) (r : Except Exc op.Ans) w',
      carefulWorld sha256 pointer w op r w' → faultyWorld sha256 pointer w op r w' :=
    fun _ _ _ _ => carefulWorld_faulty
  refine wpc_activate_parts hworld hgood.1 (fun _ hsame => h.same hsame)
    (wp_downloadAndVerify hgood) (fun _ _ _ _ => trivial) ?_
  intro root₁ hsame h₁ hstaged
  have hrec₁ : Records (· ≠ manifest.modelSetId) root₁.stateValue := by
    rwa [stateValue, hsame.state]
  simp only [promote, Proc.bind_eq, Proc.bind_assoc]
  refine wpc_seq (wpc_placeSet_kept hpointer hpublished hgood.1 h₁ hrec₁ hstaged) ?_
    fun _ _ _ _ => trivial
  intro _ root₂ h₂ hcomplete
  refine wpc_seq (wpc_activeModelSetId hworld fun _ hsame' => h₂.same hsame') ?_
    fun _ _ _ _ => trivial
  rintro prevActive root₃ h₃ ⟨hsame₃, hread⟩
  have hprev : ∀ prev, prevActive = .str prev → Complete sha256 pointers root₃ prev :=
    fun prev hprev => (h₂.recorded.read (hread _ rfl) prev hprev).of_sets (by rw [hsame₃.sets])
  refine wpc_seq (wpc_keepLastGood_kept hnt hpointers h₃ hprev) ?_ fun _ _ _ _ => trivial
  intro _ root₄ h₄ hsets₄
  have hcomplete₄ := (hcomplete rfl).of_sets (by rw [hsets₄ rfl, hsame₃.sets])
  refine wpc_seq (wpc_atomicSymlink_kept hnt hpointers h₄ hcomplete₄) ?_ fun _ _ _ _ => trivial
  intro _ root₅ h₅ hsets₅
  exact wpc_activated_kept h₅ (hcomplete₄.of_sets (by rw [hsets₅ rfl]))

/-- Wherever a poll may stop, the links lead to complete sets. -/
theorem wpc_pollOnce_kept (hnt : d.isNt = false) (hpointers : ∀ p ∈ pointers, WellPublished p)
    (hpointer : pointer ∈ pointers) (h : SetsKept sha256 pointers was root) :
    wpc (carefulWorld sha256 pointer) (SetsKept sha256 pointers was) d.pollOnce
      (fun _ _ => True) root := by
  have hworld : ∀ (w : ArtifactRoot) (op : ArtifactCall) (r : Except Exc op.Ans) w',
      carefulWorld sha256 pointer w op r w' → faultyWorld sha256 pointer w op r w' :=
    fun _ _ _ _ => carefulWorld_faulty
  refine wpc_pollOnce_parts hworld (fun _ hsame => h.same hsame) (fun _ _ _ => trivial) ?_ ?_ ?_ ?_
  · exact fun e root₁ _ h₁ _ _ => wpc_keepsState_kept (fun _ _ hnew => h₁.recorded.failed hnew) h₁
  · exact fun w text root₁ _ h₁ _ _ =>
      wpc_keepsState_kept (fun _ _ hnew => h₁.recorded.withdrawn hnew) h₁
  · exact fun manifest active root₁ _ h₁ _ _ _ =>
      wpc_keepsState_kept (fun _ _ hnew => h₁.recorded.polled hnew) h₁
  · intro manifest active root₁ _ h₁ hpublished hread hactive
    refine wpc_activate_kept hnt hpointers hpointer hpublished h₁ (h₁.recorded.ne_of_read hread ?_)
    rintro rfl
    exact hactive (by simp [PyVal.isStr])

/-- Wherever a rollback may stop, the links lead to complete sets. -/
theorem wpc_rollbackToLastGood_kept (hnt : d.isNt = false)
    (hpointers : ∀ p ∈ pointers, WellPublished p) (h : SetsKept sha256 pointers was root) :
    wpc (carefulWorld sha256 pointer) (SetsKept sha256 pointers was) d.rollbackToLastGood
      (fun _ _ => True) root := by
  have hworld : ∀ (w : ArtifactRoot) (op : ArtifactCall) (r : Except Exc op.Ans) w',
      carefulWorld sha256 pointer w op r w' → faultyWorld sha256 pointer w op r w' :=
    fun _ _ _ _ => carefulWorld_faulty
  refine wpc_rollback_parts hworld (fun _ hsame => h.same hsame) (fun _ _ _ _ => trivial) ?_
  intro target root₂ hsame h₂ htarget
  have hcomplete : Complete sha256 pointers root₂ target :=
    (h.links _ target htarget).of_sets (by rw [hsame.sets])
  refine wpc_seq (wpc_atomicSymlink_kept hnt hpointers h₂ hcomplete) ?_ fun _ _ _ _ => trivial
  intro _ root₃ h₃ hsets
  have hcomplete₃ := hcomplete.of_sets (by rw [hsets rfl])
  exact wpc_seq (wpc_updateState_kept (fun _ _ hnew => h₃.recorded.rolledBack hcomplete₃ hnew) h₃)
    (fun _ _ hC _ => ⟨hC, trivial⟩) fun _ _ _ _ => trivial

end Careful

/-! ### Runs -/

/-- Polls and rollbacks one after the other, each of which may die at any step, with the pointers
that were polled. -/
inductive DiskRuns (d : ModelDownloader)
    (disk : Except Exc JsonText → World ArtifactI Exc ArtifactRoot) :
    ArtifactRoot → List (Except Exc JsonText) → ArtifactRoot → Prop
  | refl {a} : DiskRuns d disk a [] a
  | poll {a b c ps p out} (run : DiskRuns d disk a ps b)
      (exec : Exec (disk p) d.pollOnce b out c) : DiskRuns d disk a (ps ++ [p]) c
  | rollback {a b c ps p out} (run : DiskRuns d disk a ps b)
      (exec : Exec (disk p) d.rollbackToLastGood b out c) : DiskRuns d disk a ps c

variable {pointers pointers' : List (Except Exc JsonText)} {was : RootLink → Prop}
  {root' : ArtifactRoot}

/-- The links of a run lead to complete sets, wherever it stops. -/
theorem DiskRuns.kept (run : DiskRuns d (carefulWorld sha256) root pointers' root')
    (hnt : d.isNt = false) (hpointers : ∀ p ∈ pointers ++ pointers', WellPublished p)
    (h : SetsKept sha256 pointers was root) :
    SetsKept sha256 (pointers ++ pointers') was root' := by
  induction run with
  | refl => exact h.mono fun p hp => List.mem_append_left _ hp
  | @poll _ _ ps p out run exec ih =>
      have h' := ih (fun p hp => hpointers p (by
        rcases List.mem_append.mp hp with hp | hp
        · exact List.mem_append_left _ hp
        · exact List.mem_append_right _ (List.mem_append_left _ hp)))
      rw [← List.append_assoc] at hpointers ⊢
      have h' := h'.mono fun _ hp => List.mem_append_left [p] hp
      exact (wpc_sound exec (wpc_pollOnce_kept hnt hpointers (by simp) h')).1
  | rollback run exec ih =>
      exact (wpc_sound exec (wpc_rollbackToLastGood_kept hnt hpointers (ih hpointers))).1

theorem setsKept_empty : SetsKept sha256 [] (fun _ => False) .empty where
  links := fun l set h => by cases h
  kept := fun l h => h.elim
  recorded := ⟨[], rfl, fun set h => by cases h⟩

open ArtifactService

/-- The root after a poll of the sample service. -/
def polledRoot (pointer : Except Exc JsonText) (root : ArtifactRoot) : ArtifactRoot :=
  (sampleService.downloader.pollOnce.run (sampleStorage pointer).serve root).2

/-- Does the call leave the linked sets where they are? -/
def sparesLinked (op : ArtifactCall) (root : ArtifactRoot) : Bool :=
  match op with
  | .removeSet set => root.link .active != some set && root.link .lastGood != some set
  | _ => true

theorem carefulWorld_serve (s : Storage) {op : ArtifactCall} {root : ArtifactRoot}
    (h : sparesLinked op root = true) :
    carefulWorld s.sha256 s.pointer root op (s.serve op root).1 (s.serve op root).2 := by
  refine ⟨Or.inl (s.serve_step op root), ?_⟩
  rintro set rfl l
  obtain ⟨hactive, hlastGood⟩ := Bool.and_eq_true_iff.mp h
  cases l with
  | active => simpa using hactive
  | lastGood => simpa using hlastGood

/-- Whole polls of the sample service, where they spare the linked sets. -/
theorem DiskRuns.polled {pointer : Except Exc JsonText}
    (run : DiskRuns sampleService.downloader (carefulWorld sampleService.sha256) root pointers root')
    (h : sampleService.downloader.pollOnce.runChecks (sampleStorage pointer).serve
      (fun op => sparesLinked op) root' = true) :
    DiskRuns sampleService.downloader (carefulWorld sampleService.sha256) root
      (pointers ++ [pointer]) (polledRoot pointer root') :=
  .poll run (exec_run_of_checks (fun _ _ => carefulWorld_serve (sampleStorage pointer)) h)

theorem wellPublished_samples :
    ∀ p ∈ [publishedPointer "a", publishedPointer "b", publishedPointer "a"], WellPublished p := by
  have hplain : ∀ p ∈ [publishedPointer "a", publishedPointer "b", publishedPointer "a"],
      ∀ manifest ∈ publishedManifest p, manifest.plain ∧ manifest.artifacts.length = 1 := by
    decide +kernel
  intro p hp manifest hpublished
  obtain ⟨hmanifest, hone⟩ := hplain p hp manifest hpublished
  obtain ⟨art, hart⟩ := List.length_eq_one_iff.mp hone
  refine ⟨hmanifest, ?_⟩
  rw [Manifest.consistent, hart]
  rintro _ h _ h' _ _ - - hsum
  rw [List.mem_singleton.mp h, ← List.mem_singleton.mp h'] at hsum
  exact hsum

/-- A second set was activated after the first. -/
def replacedRoot : ArtifactRoot :=
  polledRoot (publishedPointer "b") (polledRoot (publishedPointer "a") .empty)

end ModelDownloader

end System2
