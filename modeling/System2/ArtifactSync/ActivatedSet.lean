import System2.ArtifactSync.CompleteSets
import System2.ArtifactSync.WithdrawnServed

/-!
# What a poll of a published set leaves behind

Wherever a poll or a rollback may stop, links and state keep their shape. From such a root,
a poll of a published set ends with the set active and every file as it was verified, or
with nothing changed, or with a new time in the state alone.

## Implementation notes

Every file is verified when it is downloaded, so what an activated set holds is decided by
the entries that are downloaded last under each name.
-/

namespace System2
open Foundation ArtifactRoot

/-- The published manifest, if there is one, names parts of paths. -/
def PlainNames (pointer : Except Exc JsonText) : Prop :=
  ∀ manifest, publishedManifest pointer = some manifest → manifest.plain

/-- The recorded active set is this one. -/
def ArtifactRoot.RecordsActive (root : ArtifactRoot) (set : String) : Prop :=
  root.stateValue.getAttrGet "active_model_set_id" = .ok (.str set)

section Shape

variable {root root' : ArtifactRoot} {set : String}

theorem ArtifactRoot.Shape.relinked {l : RootLink} {target : Option String} (h : root.Shape)
    (hlink : Relinked root l target root') (htarget : ∀ set, target = some set → isPlain set) :
    root'.Shape := by
  have hvalue : root'.stateValue = root.stateValue := by rw [stateValue, hlink.state, stateValue]
  exact ⟨hlink.plain h.targets htarget, hvalue ▸ h.state⟩

theorem ArtifactRoot.Shape.restated {state : PyVal} (h : root.Shape) (hkept : WellKept state)
    (hstate : Restated root state root') : root'.Shape := by
  have hvalue : root'.stateValue = state := by rw [stateValue, hstate.state]
  exact ⟨fun l set hl => h.targets l set (hstate.link ▸ hl), hvalue ▸ hkept⟩

theorem ArtifactRoot.Shape.sameBut (h : root.Shape) (hbut : SameBut root set root') :
    root'.Shape := by
  have hvalue : root'.stateValue = root.stateValue := by rw [stateValue, hbut.state, stateValue]
  exact ⟨fun l set hl => h.targets l set (hbut.link ▸ hl), hvalue ▸ h.state⟩

end Shape

/-- The set of a manifest has been activated, with this directory. -/
structure Activated (manifest : Manifest) (dir : SetDir) (root : ArtifactRoot) : Prop where
  active : root.link .active = some manifest.modelSetId
  placed : root.sets manifest.modelSetId = some dir
  recorded : ∃ prevActive polledAt swappedAt,
    root.state = some (.text (some (activatedState manifest prevActive polledAt swappedAt)))

/-- How a poll of a published set may end. -/
inductive PublishedPoll (sha256 : List UInt8 → String) (manifest : Manifest)
    (root : ArtifactRoot) : Except Exc Bool → ArtifactRoot → Prop
  | unchanged {now state root'} (hactive : root.RecordsActive manifest.modelSetId)
      (hstate : polledState root.stateValue now = .ok state) (h : Restated root state root') :
      PublishedPoll sha256 manifest root (.ok false) root'
  | discarded {root'} (hactive : ¬ root.RecordsActive manifest.modelSetId)
      (h : Same root root') : PublishedPoll sha256 manifest root (.ok false) root'
  | activated {dir root'} (hactive : ¬ root.RecordsActive manifest.modelSetId)
      (hverified : manifest.consistent → manifest.Holds sha256 dir)
      (h : Activated manifest dir root') : PublishedPoll sha256 manifest root (.ok true) root'
  | raised {e root'} : PublishedPoll sha256 manifest root (.error e) root'

namespace ModelDownloader

variable {sha256 : List UInt8 → String} {pointer : Except Exc JsonText} {root root' : ArtifactRoot}
  {d : ModelDownloader} {manifest : Manifest} {prevActive : PyVal} {set : String}

/-- Bringing the state up to date keeps the shape. -/
theorem wpc_updateState_shape {f : PyVal → String → Except PyErr PyVal}
    (hf : ∀ now state, f root.stateValue now = .ok state → WellKept state) (h : root.Shape) :
    wpc (faultyWorld sha256 pointer) Shape (updateState f) (fun r root' =>
      (∃ now state, f root.stateValue now = .ok state ∧ Restated root state root' ∧ r = .ok ()) ∨
        (Same root root' ∧ ∃ e, r = .error e)) root :=
  wpc_updateState (fun _ _ _ _ step => step) (fun _ hsame => (h.same hsame).1)
    fun now state hnew _ => h.restated (hf now state hnew)

/-- A poll that only brings the state up to date. -/
theorem wpc_keepsState_shape {f : PyVal → String → Except PyErr PyVal}
    (hf : ∀ now state, f root.stateValue now = .ok state → WellKept state) (h : root.Shape) :
    wpc (faultyWorld sha256 pointer) Shape
      ((updateState f).bind fun _ => (.ret false : Proc ArtifactI Exc Bool)) (fun r root' =>
        (∃ now state, f root.stateValue now = .ok state ∧ Restated root state root' ∧
          r = .ok false) ∨ ∃ e, r = .error e) root := by
  refine wpc_seq (wpc_updateState_shape hf h) ?_ fun e _ _ _ => Or.inr ⟨e, rfl⟩
  rintro _ root₁ hC (⟨now, state, hnew, h₁, -⟩ | ⟨-, e, he⟩)
  · exact ⟨hC, Or.inl ⟨now, state, hnew, h₁, rfl⟩⟩
  · cases he

/-- A link is turned to a plain name, and nothing else looks different. -/
theorem wpc_atomicSymlink_shape {l : RootLink} (hplain : isPlain set = true) (h : root.Shape) :
    wpc (faultyWorld sha256 pointer) Shape (d.atomicSymlink l set)
      (fun r root' => r = .ok () → Relinked root l (some set) root') root := by
  refine wpc_post (wpc_atomicSymlink (fun _ _ _ _ step => step) hplain
    (fun _ hsame => (h.same hsame).1)
    (fun _ _ hlink => h.relinked hlink fun _ hset => by cases hset)
    fun _ hlink => h.relinked hlink fun _ hset => Option.some.inj hset ▸ hplain) ?_
  rintro r root' - (⟨hlink, -⟩ | ⟨-, e, rfl⟩) hr
  · exact hlink
  · cases hr

/-- The set that was active becomes `last_good`, and the sets stay. -/
theorem wpc_keepLastGood_shape (hprev : ∀ prev, prevActive = .str prev → isPlain prev = true)
    (h : root.Shape) :
    wpc (faultyWorld sha256 pointer) Shape (d.keepLastGood set prevActive)
      (fun r root' => r = .ok () → root'.sets = root.sets) root := by
  unfold keepLastGood
  split_ifs
  · cases prevActive with
    | str prev =>
        exact wpc_post (wpc_atomicSymlink_shape (hprev prev rfl) h) fun _ _ _ hlink hr =>
          (hlink hr).sets
    | _ => exact ⟨h, fun hr => by cases hr⟩
  · exact ⟨h, fun _ => rfl⟩

/-- The end of an activation: the state names the set. -/
theorem wpc_activated_shape (hplain : isPlain manifest.modelSetId = true) (h : root.Shape) :
    wpc (faultyWorld sha256 pointer) Shape (do
        let polledAt ← perform .utcNow
        let swappedAt ← perform .utcNow
        writeState (activatedState manifest prevActive polledAt swappedAt))
      (fun r root' => r = .ok () → ∃ polledAt swappedAt,
        Restated root (activatedState manifest prevActive polledAt swappedAt) root') root := by
  have hnow : ∀ {root₁ : ArtifactRoot}, Same root root₁ →
      wpc (faultyWorld sha256 pointer) Shape (perform .utcNow)
        (fun _ root' => Same root root') root₁ := fun h₁ =>
    wpc_post (wpc_quiet (fun _ _ _ _ step => step) (Proc.along_perform (isQuiet trivial rfl))
      fun _ h' => (h.same (h₁.trans h')).1) fun _ _ _ h' => h₁.trans h'
  refine wpc_seq (hnow (.refl root)) ?_ fun _ _ _ _ hr => by cases hr
  intro polledAt root₁ _ h₁
  refine wpc_seq (hnow h₁) ?_ fun _ _ _ _ hr => by cases hr
  intro swappedAt root₂ _ h₂
  have hshape₂ := (h.same h₂).1
  refine wpc_post (wpc_writeState (fun _ _ _ _ step => step)
    (fun _ h' => (hshape₂.same h').1)
    fun _ h' => hshape₂.restated (records_activated hplain) h') ?_
  rintro r root' - (⟨hstate, -⟩ | ⟨-, e, rfl⟩) hr
  · exact ⟨polledAt, swappedAt, hstate.sets.trans h₂.sets, hstate.link.trans h₂.link, hstate.state⟩
  · cases hr

/-- A verified directory is moved to its place, and the links and the state follow. -/
theorem wpc_promote_shape (hplain : isPlain manifest.modelSetId = true) (h : root.Shape) :
    wpc (faultyWorld sha256 pointer) Shape (d.promote manifest)
      (fun r root' => r = .ok () → ∃ dir, root.staging manifest.modelSetId = some dir ∧
        Activated manifest dir root') root := by
  have hworld : ∀ (w : ArtifactRoot) (op : ArtifactCall) (r : Except Exc op.Ans) w',
      faultyWorld sha256 pointer w op r w' → faultyWorld sha256 pointer w op r w' :=
    fun _ _ _ _ step => step
  refine wpc_seq (wpc_placeSet hworld hplain h (fun _ _ hbut => h.sameBut hbut)
    fun _ _ _ _ hbut => h.sameBut hbut) ?_ fun _ _ _ _ hr => by cases hr
  rintro _ root₁ hshape₁ ⟨-, hplaced⟩
  obtain ⟨hsets₁, hstaged⟩ := hplaced rfl
  obtain ⟨dir, hdir⟩ := Option.isSome_iff_exists.mp hstaged
  refine wpc_seq (wpc_activeModelSetId hworld fun _ hsame => (hshape₁.same hsame).1) ?_
    fun _ _ _ _ hr => by cases hr
  rintro prevActive root₂ hshape₂ ⟨h₂, hread⟩
  have hprev : ∀ prev, prevActive = .str prev → isPlain prev = true :=
    fun prev hprev => hshape₁.state.read (hread _ rfl) prev hprev
  refine wpc_seq (wpc_keepLastGood_shape hprev hshape₂) ?_ fun _ _ _ _ hr => by cases hr
  intro _ root₃ hshape₃ hsets₃
  refine wpc_seq (wpc_atomicSymlink_shape hplain hshape₃) ?_ fun _ _ _ _ hr => by cases hr
  intro _ root₄ hshape₄ hlink
  have h₄ := hlink rfl
  refine wpc_post (wpc_activated_shape hplain hshape₄) fun r root' _ hdone hr => ?_
  obtain ⟨polledAt, swappedAt, h₅⟩ := hdone hr
  refine ⟨dir, hdir, ?_, ?_, prevActive, polledAt, swappedAt, h₅.state⟩
  · rw [h₅.link, h₄.link, Function.update_self]
  · rw [h₅.sets, h₄.sets, hsets₃ rfl, h₂.sets, hsets₁, hdir]

/-- Another set than the recorded one is activated as it was verified, or nothing is. -/
theorem wpc_activate_shape (hplain : manifest.plain) (h : root.Shape)
    (hactive : ¬ root.RecordsActive manifest.modelSetId) :
    wpc (faultyWorld sha256 pointer) Shape (d.activate manifest)
      (PublishedPoll sha256 manifest root) root := by
  have hworld : ∀ (w : ArtifactRoot) (op : ArtifactCall) (r : Except Exc op.Ans) w',
      faultyWorld sha256 pointer w op r w' → faultyWorld sha256 pointer w op r w' :=
    fun _ _ _ _ step => step
  have hverified : wp (faultyWorld sha256 pointer) (downloadAndVerify manifest)
      (fun r root' => r.isOk = true → manifest.consistent →
        ∃ dir, root'.staging manifest.modelSetId = some dir ∧ manifest.Holds sha256 dir) root := by
    by_cases hconsistent : manifest.consistent
    · exact wpc_post (wp_downloadAndVerify ⟨hplain, hconsistent⟩) fun _ _ _ h hok _ => h hok
    · exact wpc_post (wp_true _ root) fun _ _ _ _ _ hcon => absurd hcon hconsistent
  refine wpc_activate_parts hworld hplain (fun _ hsame => (h.same hsame).1) hverified ?_ ?_
  · intro r root₁ hsame hr
    cases r with
    | error e => exact .raised
    | ok activated =>
        cases activated with
        | true => exact absurd rfl hr
        | false => exact .discarded hactive hsame
  · intro root₁ hsame h₁ hstaged
    refine wpc_seq (wpc_promote_shape hplain.1 h₁) ?_ fun _ _ _ _ => .raised
    intro _ root₂ hC hdone
    obtain ⟨dir, hdir, hactivated⟩ := hdone rfl
    refine ⟨hC, .activated hactive (fun hconsistent => ?_) hactivated⟩
    obtain ⟨dir', hdir', hholds⟩ := hstaged hconsistent
    obtain rfl : dir = dir' := Option.some.inj (hdir.symm.trans hdir')
    exact hholds

theorem recordsActive_of_same (h : Same root root') :
    root'.RecordsActive set ↔ root.RecordsActive set := by
  rw [RecordsActive, stateValue, h.state, RecordsActive, stateValue]

/-- What a poll sees of the root does not change while it reads the pointer. -/
theorem publishedPoll_of_same {root₁ : ArtifactRoot} {r : Except Exc Bool} (h : Same root root₁)
    (ends : PublishedPoll sha256 manifest root₁ r root') :
    PublishedPoll sha256 manifest root r root' := by
  have hvalue : root₁.stateValue = root.stateValue := by rw [stateValue, h.state, stateValue]
  cases ends with
  | unchanged hactive hstate hrestated =>
      refine .unchanged ((recordsActive_of_same h).mp hactive) (hvalue ▸ hstate)
        ⟨hrestated.sets.trans h.sets, hrestated.link.trans h.link, hrestated.state⟩
  | discarded hactive hsame =>
      exact .discarded (fun h' => hactive ((recordsActive_of_same h).mpr h')) (h.trans hsame)
  | activated hactive hverified hactivated =>
      exact .activated (fun h' => hactive ((recordsActive_of_same h).mpr h')) hverified hactivated
  | raised => exact .raised

/-- Wherever a poll may stop, links and state keep their shape; a poll of a published set ends
in one of the known ways. -/
theorem wpc_pollOnce_shape (hplain : PlainNames pointer) (h : root.Shape) :
    wpc (faultyWorld sha256 pointer) Shape d.pollOnce
      (fun r root' => ∀ manifest, publishedManifest pointer = some manifest →
        PublishedPoll sha256 manifest root r root') root := by
  have hworld : ∀ (w : ArtifactRoot) (op : ArtifactCall) (r : Except Exc op.Ans) w',
      faultyWorld sha256 pointer w op r w' → faultyWorld sha256 pointer w op r w' :=
    fun _ _ _ _ step => step
  refine wpc_pollOnce_parts hworld (fun _ hsame => (h.same hsame).1)
    (fun _ _ _ _ _ => .raised) ?_ ?_ ?_ ?_
  · intro e root₁ _ h₁ _ hnone
    refine wpc_post (wpc_keepsState_shape (fun _ _ hnew => h₁.state.failed hnew) h₁) ?_
    intro r root' _ _ manifest hpublished
    rw [hnone] at hpublished
    cases hpublished
  · rintro w text root₁ - h₁ rfl hwithdrawal
    refine wpc_post (wpc_keepsState_shape (fun _ _ hnew => h₁.state.withdrawn hnew) h₁) ?_
    intro r root' _ _ manifest hpublished
    rw [not_withdrawal_of_published hpublished] at hwithdrawal
    cases hwithdrawal
  · intro manifest active root₁ hsame h₁ hpublished hread hactive
    refine wpc_post (wpc_keepsState_shape (fun _ _ hnew => h₁.state.polled hnew) h₁) ?_
    intro r root' _ hends manifest' hpublished'
    obtain rfl := Option.some.inj (hpublished.symm.trans hpublished')
    obtain ⟨now, state, hnew, hrestated, rfl⟩ | ⟨e, rfl⟩ := hends
    · refine publishedPoll_of_same hsame (.unchanged ?_ hnew hrestated)
      rw [RecordsActive, hread, PyVal.eq_of_isStr hactive]
    · exact .raised
  · intro manifest active root₁ hsame h₁ hpublished hread hactive
    refine wpc_post (wpc_activate_shape (hplain manifest hpublished) h₁ fun hrecorded => ?_) ?_
    · rw [RecordsActive, hread] at hrecorded
      rw [Except.ok.inj hrecorded] at hactive
      exact hactive (by simp [PyVal.isStr])
    · intro r root' _ hends manifest' hpublished'
      obtain rfl := Option.some.inj (hpublished.symm.trans hpublished')
      exact publishedPoll_of_same hsame hends

/-- Wherever a rollback may stop, links and state keep their shape. -/
theorem wpc_rollbackToLastGood_shape (h : root.Shape) :
    wpc (faultyWorld sha256 pointer) Shape d.rollbackToLastGood (fun _ _ => True) root := by
  have hworld : ∀ (w : ArtifactRoot) (op : ArtifactCall) (r : Except Exc op.Ans) w',
      faultyWorld sha256 pointer w op r w' → faultyWorld sha256 pointer w op r w' :=
    fun _ _ _ _ step => step
  refine wpc_rollback_parts hworld (fun _ hsame => (h.same hsame).1) (fun _ _ _ _ => trivial) ?_
  intro target root₂ _ h₂ htarget
  have hplain := h.targets _ _ htarget
  refine wpc_seq (wpc_atomicSymlink_shape hplain h₂) ?_ fun _ _ _ _ => trivial
  intro _ root₃ h₃ _
  refine wpc_seq (wpc_updateState_shape (fun _ _ hnew => h₃.state.rolledBack hplain hnew) h₃)
    (fun _ _ hC _ => ⟨hC, trivial⟩) fun _ _ _ _ => trivial

/-! ### Runs -/

variable {pointers : List (Except Exc JsonText)}

theorem shape_empty : ArtifactRoot.empty.Shape where
  targets := fun l set h => by cases h
  state := ⟨[], rfl, fun set h => by cases h⟩

/-- The roots of a run keep their shape, wherever its polls and rollbacks stop. -/
theorem DiskRuns.shape (run : DiskRuns d (faultyWorld sha256) root pointers root')
    (hplain : ∀ p ∈ pointers, PlainNames p) (h : root.Shape) : root'.Shape := by
  induction run with
  | refl => exact h
  | poll run exec ih =>
      have h' := ih fun p hp => hplain p (List.mem_append_left _ hp)
      exact (wpc_sound exec (wpc_pollOnce_shape (hplain _ (by simp)) h')).1
  | rollback run exec ih =>
      exact (wpc_sound exec (wpc_rollbackToLastGood_shape (ih hplain))).1

/-! ### The files of the active set -/

/-- The file of a name behind the active link. -/
def activeFile (root : ArtifactRoot) (name : String) : Option (List UInt8) := do
  let set ← root.link .active
  let dir ← root.sets set
  dir name

/-- Every entry of the manifest has its file behind the active link, with the declared digest. -/
def ActiveVerified (sha256 : List UInt8 → String) (manifest : Manifest) (root : ArtifactRoot) :
    Prop :=
  ∀ art ∈ manifest.artifacts, ∃ name bytes, art.name = .str name ∧
    activeFile root name = some bytes ∧ art.sha256 = .str (sha256 bytes)

theorem activeFile_activated {dir : SetDir} (h : Activated manifest dir root) (name : String) :
    activeFile root name = dir name := by
  simp [activeFile, h.active, h.placed]

/-- Two entries of one name cannot both be verified with different digests. -/
theorem ActiveVerified.consistent (h : ActiveVerified sha256 manifest root) :
    manifest.consistent := by
  intro art hart art' hart' name sum hname hname' hsum
  obtain ⟨name₁, bytes₁, hname₁, hfile₁, hsum₁⟩ := h art hart
  obtain ⟨name₂, bytes₂, hname₂, hfile₂, hsum₂⟩ := h art' hart'
  obtain rfl : name = name₁ := PyVal.str.inj (hname.symm.trans hname₁)
  obtain rfl : name = name₂ := PyVal.str.inj (hname'.symm.trans hname₂)
  obtain rfl : bytes₁ = bytes₂ := Option.some.inj (hfile₁.symm.trans hfile₂)
  rw [hsum₂, ← hsum₁, hsum]

/-- After a poll that activated a set, every entry of the manifest has its verified file behind
the active link exactly when entries of one name declare one digest. -/
theorem active_verified_iff (run : DiskRuns d (faultyWorld sha256) .empty pointers root)
    (hplain : ∀ p ∈ pointers ++ [pointer], PlainNames p)
    (hpublished : publishedManifest pointer = some manifest)
    (exec : Exec (faultyWorld sha256 pointer) d.pollOnce root (some (.ok true)) root') :
    ActiveVerified sha256 manifest root' ↔ manifest.consistent := by
  have hshape := run.shape (fun p hp => hplain p (List.mem_append_left _ hp)) shape_empty
  refine ⟨ActiveVerified.consistent, fun hconsistent => ?_⟩
  have hends := wp_sound exec (wpc_pollOnce_shape (hplain pointer (by simp)) hshape)
  cases hends manifest hpublished with
  | activated _ hverified hactivated =>
      intro art hart
      obtain ⟨name, bytes, hname, hbytes, hsum⟩ := (hverified hconsistent).verified art hart
      exact ⟨name, bytes, hname, (activeFile_activated hactivated name).trans hbytes, hsum⟩

open ArtifactService

/-- The manifest of a pointer that publishes a set. -/
def manifestOf (pointer : Except Exc JsonText) : Manifest :=
  (publishedManifest pointer).getD ⟨0, "", "", []⟩

theorem sample_exec (pointer : Except Exc JsonText) (root : ArtifactRoot) :
    Exec (faultyWorld sampleService.sha256 pointer) sampleService.downloader.pollOnce root
      (some (sampleService.downloader.pollOnce.run (sampleStorage pointer).serve root).1)
      (polledRoot pointer root) :=
  (exec_run (Storage.serve_step (sampleStorage pointer)) _ _).mono fun _ _ _ _ step => Or.inl step

theorem sample_run (pointers : List (Except Exc JsonText)) :
    DiskRuns sampleService.downloader (faultyWorld sampleService.sha256) .empty pointers
      (pointers.foldl (fun root pointer => polledRoot pointer root) .empty) := by
  induction pointers using List.reverseRecOn with
  | nil => exact .refl
  | append_singleton pointers pointer ih =>
      rw [List.foldl_append]
      exact .poll ih (sample_exec pointer _)

theorem active_verified_iff_one :
    ActiveVerified sampleService.sha256 (manifestOf (publishedPointer "a"))
      (polledRoot (publishedPointer "a") .empty) := by
  have hplain : ∀ p ∈ [] ++ [publishedPointer "a"], PlainNames p := by
    have h : ∀ p ∈ [publishedPointer "a"], ∀ manifest ∈ publishedManifest p, manifest.plain := by
      decide +kernel
    exact h
  have exec : Exec (faultyWorld sampleService.sha256 (publishedPointer "a"))
      sampleService.downloader.pollOnce .empty (some (.ok true))
      (polledRoot (publishedPointer "a") .empty) := sample_exec (publishedPointer "a") .empty
  refine (active_verified_iff (sample_run []) hplain rfl exec).mpr ?_
  exact (wellPublished_samples (publishedPointer "a") (by simp) _ rfl).2

/-- A set with two entries of one name, the whole file first and the broken one after it. -/
def doubledPointer : Except Exc JsonText :=
  .ok (some (.dict [("schema_version", .int 1), ("model_set_id", .str "a"),
    ("artifacts", .list [
      .dict [("name", .str "regime_hmm.pkl"), ("path", .str "models/hmm.pkl"),
        ("sha256", .str "one")],
      .dict [("name", .str "regime_hmm.pkl"), ("path", .str "models/broken.pkl"),
        ("sha256", .str "other")]])]))

/-- Both downloads are verified, the second over the first, and the poll returns True. -/
theorem doubled_entry_overwritten :
    ¬ ∀ (sha256 : List UInt8 → String) (d : ModelDownloader)
      (pointers : List (Except Exc JsonText)) (pointer : Except Exc JsonText) (manifest : Manifest)
      (root root' : ArtifactRoot), DiskRuns d (faultyWorld sha256) .empty pointers root →
        (∀ p ∈ pointers ++ [pointer], PlainNames p) → publishedManifest pointer = some manifest →
        Exec (faultyWorld sha256 pointer) d.pollOnce root (some (.ok true)) root' →
        ActiveVerified sha256 manifest root' := by
  intro hall
  have hplain : ∀ manifest ∈ publishedManifest doubledPointer, manifest.plain := by decide +kernel
  have h := hall _ _ [] doubledPointer (manifestOf doubledPointer) .empty _ (sample_run [])
    (fun p hp => (List.mem_singleton.mp hp) ▸ hplain) rfl (sample_exec doubledPointer .empty)
  have hmanifest : manifestOf doubledPointer = ⟨1, "a", "", [
      ⟨.str "regime_hmm.pkl", .str "models/hmm.pkl", .str "one", 0⟩,
      ⟨.str "regime_hmm.pkl", .str "models/broken.pkl", .str "other", 0⟩]⟩ := rfl
  have hsum := h.consistent _ (by rw [hmanifest]; exact List.mem_cons_self) _
    (by rw [hmanifest]; exact List.mem_cons_of_mem _ List.mem_cons_self) _ _ rfl rfl rfl
  exact absurd (PyVal.str.inj hsum) (by decide)

/-! ### A withdrawal superseded -/

/-- The set is in force: the active link leads to it, it is there, and the state names it and
says that it is not withdrawn. -/
structure InForce (set : String) (root : ArtifactRoot) : Prop where
  active : root.link .active = some set
  placed : (root.sets set).isSome = true
  recorded : ∃ state : Dict, root.state = some (.text (some (.dict state))) ∧
    Dict.get state "active_model_set_id" = .str set ∧ Dict.get state "withdrawn" = .bool false

/-- An activation names the set and clears the flag. -/
theorem inForce_of_activated {dir : SetDir} (h : Activated manifest dir root) :
    InForce manifest.modelSetId root := by
  obtain ⟨prevActive, polledAt, swappedAt, hstate⟩ := h.recorded
  exact ⟨h.active, by rw [h.placed]; rfl, _, hstate, rfl, rfl⟩

/-- A new time in the state changes neither the set that is named nor the flag. -/
theorem inForce_polled_iff {now : String} {state : PyVal}
    (hactive : root.RecordsActive set) (hstate : polledState root.stateValue now = .ok state)
    (h : Restated root state root') : InForce set root' ↔ InForce set root := by
  -- a root that records an active set has a state file with an object in it
  obtain ⟨d, hd⟩ : ∃ d : Dict, root.state = some (.text (some (.dict d))) := by
    unfold RecordsActive stateValue at hactive
    split at hactive
    · next v hv =>
        cases v with
        | dict d => exact ⟨d, hv⟩
        | _ => cases hactive
    · cases hactive
    · cases hactive
  have hnew : root'.state = some (.text (some (.dict (Dict.set d "last_poll_at" (.str now))))) := by
    rw [stateValue, hd] at hstate
    cases hstate
    exact h.state
  have hget : ∀ key, key ≠ "last_poll_at" →
      Dict.get (Dict.set d "last_poll_at" (.str now)) key = Dict.get d key :=
    fun key hkey => Dict.get_set_of_ne hkey
  constructor
  · rintro ⟨hlink, hplaced, state', hstate', hset, hflag⟩
    obtain rfl : Dict.set d "last_poll_at" (.str now) = state' := by
      simpa [hnew] using hstate'
    rw [hget _ (by decide)] at hset hflag
    exact ⟨h.link ▸ hlink, h.sets ▸ hplaced, d, hd, hset, hflag⟩
  · rintro ⟨hlink, hplaced, state', hstate', hset, hflag⟩
    obtain rfl : d = state' := by simpa [hd] using hstate'
    refine ⟨h.link ▸ hlink, h.sets ▸ hplaced, _, hnew, ?_, ?_⟩
    · rw [hget _ (by decide), hset]
    · rw [hget _ (by decide), hflag]

/-- After a poll of a published set that was active already or has been activated, the set is in
force exactly when the state did not name it before the poll, or when it was in force then. -/
theorem published_supersedes_iff {b : Bool}
    (run : DiskRuns d (faultyWorld sha256) .empty pointers root)
    (hplain : ∀ p ∈ pointers ++ [pointer], PlainNames p)
    (hpublished : publishedManifest pointer = some manifest)
    (exec : Exec (faultyWorld sha256 pointer) d.pollOnce root (some (.ok b)) root')
    (hsucceeds : b = true ∨ root.RecordsActive manifest.modelSetId) :
    InForce manifest.modelSetId root' ↔
      (root.RecordsActive manifest.modelSetId → InForce manifest.modelSetId root) := by
  have hshape := run.shape (fun p hp => hplain p (List.mem_append_left _ hp)) shape_empty
  have hends := wp_sound exec (wpc_pollOnce_shape (hplain pointer (by simp)) hshape)
  cases hends manifest hpublished with
  | unchanged hactive hstate hrestated =>
      rw [inForce_polled_iff hactive hstate hrestated]
      exact ⟨fun h _ => h, fun h => h hactive⟩
  | discarded hactive _ =>
      rcases hsucceeds with hb | hrecorded
      · cases hb
      · exact absurd hrecorded hactive
  | activated hactive _ hactivated =>
      exact ⟨fun _ h => absurd h hactive, fun _ => inForce_of_activated hactivated⟩

/-- The set `b` is published after the set `a` was withdrawn. -/
theorem published_supersedes_iff_other : InForce "b" (polledRoot (publishedPointer "b")
    (polledRoot withdrawnPointer (polledRoot (publishedPointer "a") .empty))) := by
  have hplain : ∀ p ∈ [publishedPointer "a", withdrawnPointer] ++ [publishedPointer "b"],
      PlainNames p := by
    have h : ∀ p ∈ [publishedPointer "a", withdrawnPointer] ++ [publishedPointer "b"],
        ∀ manifest ∈ publishedManifest p, manifest.plain := by decide +kernel
    exact h
  have exec : Exec (faultyWorld sampleService.sha256 (publishedPointer "b"))
      sampleService.downloader.pollOnce
      (polledRoot withdrawnPointer (polledRoot (publishedPointer "a") .empty)) (some (.ok true))
      _ := sample_exec (publishedPointer "b") _
  refine (published_supersedes_iff (sample_run [publishedPointer "a", withdrawnPointer]) hplain
    (show _ = some (manifestOf (publishedPointer "b")) from rfl) exec (Or.inl rfl)).mpr ?_
  intro hactive
  have hother : (polledRoot withdrawnPointer
      (polledRoot (publishedPointer "a") .empty)).stateValue.getAttrGet "active_model_set_id" =
        .ok (.str "a") := rfl
  rw [RecordsActive] at hactive
  exact absurd (PyVal.str.inj (Except.ok.inj (hother.symm.trans hactive))) (by decide)

/-- The set `a` is withdrawn and then published again: the poll finds it active already, and the
state goes on to say that it is withdrawn. -/
theorem republished_stays_withdrawn :
    ¬ ∀ (sha256 : List UInt8 → String) (d : ModelDownloader)
      (pointers : List (Except Exc JsonText)) (pointer : Except Exc JsonText) (manifest : Manifest)
      (root root' : ArtifactRoot) (b : Bool), DiskRuns d (faultyWorld sha256) .empty pointers root →
        (∀ p ∈ pointers ++ [pointer], PlainNames p) → publishedManifest pointer = some manifest →
        Exec (faultyWorld sha256 pointer) d.pollOnce root (some (.ok b)) root' →
        (b = true ∨ root.RecordsActive manifest.modelSetId) →
        InForce manifest.modelSetId root' := by
  intro hall
  have hplain : ∀ p ∈ [publishedPointer "a", withdrawnPointer] ++ [publishedPointer "a"],
      ∀ manifest ∈ publishedManifest p, manifest.plain := by decide +kernel
  have exec : Exec (faultyWorld sampleService.sha256 (publishedPointer "a"))
      sampleService.downloader.pollOnce
      (polledRoot withdrawnPointer (polledRoot (publishedPointer "a") .empty)) (some (.ok false))
      _ := sample_exec (publishedPointer "a") _
  obtain ⟨-, -, state, hstate, -, hflag⟩ := hall _ _ [publishedPointer "a", withdrawnPointer]
    (publishedPointer "a") (manifestOf (publishedPointer "a")) _ _ false (sample_run _) hplain rfl
    exec (Or.inr rfl)
  have hsays : (polledRoot (publishedPointer "a") (polledRoot withdrawnPointer
      (polledRoot (publishedPointer "a") .empty))).recordsWithdrawn = true := by decide +kernel
  rw [recordsWithdrawn, stateValue] at hsays
  have hstate' : (polledRoot (publishedPointer "a") (polledRoot withdrawnPointer
      (polledRoot (publishedPointer "a") .empty))).state = some (.text (some (.dict state))) := hstate
  rw [hstate'] at hsays
  simp only [saysWithdrawn, hflag] at hsays
  cases hsays

end ModelDownloader

end System2
