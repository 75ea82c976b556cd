import System2.ArtifactSync.RootSteps
import System2.ArtifactSync.WithdrawalHonoured

/-!
# Whether a withdrawn set is served again

The record of a withdrawal is one flag, and the next activation clears it while
`last_good` may still lead to the withdrawn set. The active set is safe as long as
nobody rolls back to such a set, and the detector is as long as it does not fall
back to one.
-/

namespace System2
open Foundation ArtifactRoot

/-- A state as the downloader writes it: its active set is a plain name, if it is a text. -/
abbrev WellKept (state : PyVal) : Prop := Records (fun set => isPlain set = true) state

/-- The root as the downloader leaves it behind. -/
structure ArtifactRoot.Shape (root : ArtifactRoot) : Prop where
  targets : ∀ l set, root.link l = some set → isPlain set = true
  state : WellKept root.stateValue

/-- The state is brought up to date: its active set stays, and so does the flag. -/
def KeepsFlag (f : PyVal → String → Except PyErr PyVal) : Prop :=
  ∀ state now state', WellKept state → f state now = .ok state' →
    WellKept state' ∧ saysWithdrawn state' = saysWithdrawn state

theorem keepsFlag_polled : KeepsFlag polledState := by
  intro state now state' hkept h
  refine ⟨hkept.polled h, ?_⟩
  obtain ⟨d, rfl, -⟩ := hkept
  cases h
  simp only [saysWithdrawn]
  rw [Dict.get_set_of_ne (by decide)]

theorem keepsFlag_failed (e : Exc) : KeepsFlag (failedState e) := by
  intro state now state' hkept h
  refine ⟨hkept.failed h, ?_⟩
  obtain ⟨d, rfl, -⟩ := hkept
  cases h
  simp only [saysWithdrawn]
  rw [Dict.get_set_of_ne (by decide), Dict.get_set_of_ne (by decide)]

theorem keepsFlag_rolledBack {target : String} (htarget : isPlain target = true) :
    KeepsFlag (rolledBackState target) := by
  intro state now state' hkept h
  refine ⟨hkept.rolledBack htarget h, ?_⟩
  obtain ⟨d, rfl, -⟩ := hkept
  cases h
  simp only [saysWithdrawn]
  rw [Dict.get_set_of_ne (by decide), Dict.get_set_of_ne (by decide)]

theorem saysWithdrawn_withdrawnState {w : Withdrawn} {state state' : PyVal} {now : String}
    (hkept : WellKept state) (h : withdrawnState w state now = .ok state') :
    saysWithdrawn state' = true := by
  obtain ⟨d, rfl, -⟩ := hkept
  cases h
  simp only [saysWithdrawn]
  rw [Dict.get_set_of_ne (by decide), Dict.get_set_of_ne (by decide),
    Dict.get_set_of_ne (by decide), Dict.get_set_self]

/-! ### One poll -/

/-- How a poll may end, and what it leaves of the root. -/
inductive PollEnds (pointer : Except Exc JsonText) (root : ArtifactRoot) :
    Except Exc Bool → ArtifactRoot → Prop
  | withdrawn {text b root'} (hpointer : pointer = .ok text) (h : isWithdrawal text = true)
      (hlink : root'.link = root.link) (hflag : root'.recordsWithdrawn = true) :
      PollEnds pointer root (.ok b) root'
  | kept {r root'} (hr : r ≠ .ok true)
      (hpointer : ∀ b text, r = .ok b → pointer = .ok text → isWithdrawal text = false)
      (hlink : root'.link .active = root.link .active ∨ root'.link .active = none)
      (hflag : root'.recordsWithdrawn = root.recordsWithdrawn) : PollEnds pointer root r root'
  | activated {manifest r root'} (hpublished : publishedManifest pointer = some manifest)
      (hlink : root'.link .active = some manifest.modelSetId)
      (hr : r = .ok true ∨ ∃ e, r = .error e ∧
        root'.recordsWithdrawn = root.recordsWithdrawn) : PollEnds pointer root r root'

theorem ArtifactRoot.Shape.same {root root' : ArtifactRoot} (h : root.Shape)
    (hsame : Same root root') :
    root'.Shape ∧ root'.recordsWithdrawn = root.recordsWithdrawn := by
  have hvalue : root'.stateValue = root.stateValue := by rw [stateValue, hsame.state, stateValue]
  exact ⟨⟨fun l set hl => h.targets l set (by rwa [← hsame.link]), hvalue ▸ h.state⟩,
    by rw [recordsWithdrawn, hvalue, recordsWithdrawn]⟩

/-- Plain targets stay plain. -/
theorem ArtifactRoot.Relinked.plain {root root' : ArtifactRoot} {l : RootLink}
    {target : Option String} (h : Relinked root l target root')
    (hroot : ∀ l set, root.link l = some set → isPlain set = true)
    (htarget : ∀ set, target = some set → isPlain set = true) :
    ∀ l set, root'.link l = some set → isPlain set = true := fun l set hl =>
  (h.target_of hl).elim (htarget set) (hroot l set)

namespace ModelDownloader

variable {sha256 : List UInt8 → String} {pointer : Except Exc JsonText} {root : ArtifactRoot}
  {d : ModelDownloader} {manifest : Manifest} {prevActive : PyVal}

/-- The flag and the links stay when the state is only brought up to date. -/
theorem wp_updateState_keeps {f : PyVal → String → Except PyErr PyVal} (hf : KeepsFlag f)
    (hshape : root.Shape) :
    wp (faultyWorld sha256 pointer) (updateState f) (fun _ root' => root'.Shape ∧
      root'.link = root.link ∧ root'.recordsWithdrawn = root.recordsWithdrawn) root := by
  refine wpc_post (wpc_updateState (fun _ _ _ _ step => step) (fun _ _ => trivial)
    fun _ _ _ _ _ => trivial) ?_
  rintro r root' - (⟨now, state, hnew, h, -⟩ | ⟨hsame, -⟩)
  · obtain ⟨hkept, hflag⟩ := hf _ now state hshape.state hnew
    have hvalue : root'.stateValue = state := by rw [stateValue, h.state]
    refine ⟨⟨fun l set hl => hshape.targets l set (h.link ▸ hl), hvalue ▸ hkept⟩, h.link, ?_⟩
    rw [recordsWithdrawn, hvalue, hflag, recordsWithdrawn]
  · exact ⟨(hshape.same hsame).1, hsame.link, (hshape.same hsame).2⟩

/-- A poll that only brings the state up to date. -/
theorem wp_keepsState {f : PyVal → String → Except PyErr PyVal} (hf : KeepsFlag f)
    (hshape : root.Shape)
    (hpointer : ∀ text, pointer = .ok text → isWithdrawal text = false) :
    wp (faultyWorld sha256 pointer) ((updateState f).bind fun _ => .ret false)
      (fun r root' => root'.Shape ∧ PollEnds pointer root r root') root := by
  refine wpc_seq (wp_updateState_keeps hf hshape) ?_ ?_
  · rintro _ root' - ⟨hshape', hlink, hflag⟩
    exact ⟨trivial, hshape', .kept (fun h => by cases h) (fun _ text _ h => hpointer text h)
      (Or.inl (by rw [hlink])) hflag⟩
  · rintro e root' - ⟨hshape', hlink, hflag⟩
    exact ⟨hshape', .kept (fun h => by cases h) (fun _ _ h => by cases h)
      (Or.inl (by rw [hlink])) hflag⟩

theorem wp_recordWithdrawal {w : Withdrawn} {text : JsonText} (hshape : root.Shape)
    (hpointer : pointer = .ok text) (hwithdrawal : isWithdrawal text = true) :
    wp (faultyWorld sha256 pointer) (recordWithdrawal w)
      (fun r root' => root'.Shape ∧ PollEnds pointer root r root') root := by
  refine wpc_seq (wpc_updateState (fun _ _ _ _ step => step) (fun _ _ => trivial)
    fun _ _ _ _ _ => trivial) ?_ ?_
  · rintro _ root' - (⟨now, state, hnew, h, -⟩ | ⟨-, e, he⟩)
    · have hkept := hshape.state.withdrawn hnew
      have hflag := saysWithdrawn_withdrawnState hshape.state hnew
      have hvalue : root'.stateValue = state := by rw [stateValue, h.state]
      refine ⟨trivial, ⟨fun l set hl => hshape.targets l set (h.link ▸ hl), hvalue ▸ hkept⟩,
        .withdrawn hpointer hwithdrawal h.link ?_⟩
      rw [recordsWithdrawn, hvalue, hflag]
    · cases he
  · rintro e root' - (⟨now, state, hnew, h, hr⟩ | ⟨hsame, -⟩)
    · cases hr
    · exact ⟨(hshape.same hsame).1, .kept (fun h => by cases h) (fun _ _ h => by cases h)
        (Or.inl (by rw [hsame.link])) (hshape.same hsame).2⟩

/-- Neither the active link nor the state file has changed. -/
structure ActiveKept (root root' : ArtifactRoot) : Prop where
  targets : ∀ l set, root'.link l = some set → isPlain set = true
  active : root'.link .active = root.link .active
  state : root'.state = root.state

theorem ActiveKept.shape {root' : ArtifactRoot} (h : ActiveKept root root') (hshape : root.Shape) :
    root'.Shape ∧ root'.recordsWithdrawn = root.recordsWithdrawn := by
  have hvalue : root'.stateValue = root.stateValue := by rw [stateValue, h.state, stateValue]
  exact ⟨⟨h.targets, hvalue ▸ hshape.state⟩, by rw [recordsWithdrawn, hvalue, recordsWithdrawn]⟩

theorem ActiveKept.kept {root' : ArtifactRoot} {r : Except Exc Bool} (h : ActiveKept root root')
    (hshape : root.Shape) (hr : r ≠ .ok true)
    (hpointer : ∀ b text, r = .ok b → pointer = .ok text → isWithdrawal text = false) :
    root'.Shape ∧ PollEnds pointer root r root' :=
  ⟨(h.shape hshape).1, .kept hr hpointer (Or.inl h.active) (h.shape hshape).2⟩

/-- `keep_last_good` leaves the active link and the state alone. -/
theorem wp_keepLastGood {set : String} {root₁ : ArtifactRoot}
    (h₁ : ActiveKept root root₁) (hprev : ∀ set, prevActive = .str set → isPlain set = true) :
    wp (faultyWorld sha256 pointer) (d.keepLastGood set prevActive)
      (fun _ root' => ActiveKept root root') root₁ := by
  have hrelinked : ∀ {target : Option String} {root'}, (∀ set, target = some set → isPlain set = true) →
      Relinked root₁ .lastGood target root' → ActiveKept root root' := by
    intro target root' htarget h
    refine ⟨h.plain h₁.targets htarget, ?_, h.state.trans h₁.state⟩
    rw [h.link, Function.update_of_ne (by decide)]
    exact h₁.active
  unfold keepLastGood
  split_ifs
  · cases hpart : pathPart prevActive with
    | error e => exact ⟨trivial, h₁⟩
    | ok prev =>
        have hplain : isPlain prev = true := by
          cases prevActive with
          | str s =>
              cases hpart
              exact hprev _ rfl
          | _ => cases hpart
        refine wpc_post (wpc_atomicSymlink (fun _ _ _ _ step => step) hplain (fun _ _ => trivial)
          (fun _ _ _ => trivial) fun _ _ => trivial) ?_
        rintro r root' - (⟨h, -⟩ | ⟨h | h, -⟩)
        · exact hrelinked (fun set hset => Option.some.inj hset ▸ hplain) h
        · exact ⟨fun l set hl => h₁.targets l set (h.link ▸ hl), by rw [h.link, h₁.active],
            h.state.trans h₁.state⟩
        · exact hrelinked (fun set hset => by cases hset) h
  · exact ⟨trivial, h₁⟩

theorem ActiveKept.trans_same {root₁ root₂ : ArtifactRoot} (h₁ : ActiveKept root root₁)
    (h : Same root₁ root₂) : ActiveKept root root₂ :=
  ⟨fun l set hl => h₁.targets l set (h.link ▸ hl), by rw [h.link, h₁.active],
    h.state.trans h₁.state⟩

theorem ActiveKept.trans_sameBut {root₁ root₂ : ArtifactRoot} {set : String}
    (h₁ : ActiveKept root root₁) (h : SameBut root₁ set root₂) : ActiveKept root root₂ :=
  ⟨fun l set' hl => h₁.targets l set' (h.link ▸ hl), by rw [h.link, h₁.active],
    h.state.trans h₁.state⟩

theorem ActiveKept.of_sameBut {root₁ : ArtifactRoot} {set : String} (hshape : root.Shape)
    (h : SameBut root set root₁) : ActiveKept root root₁ :=
  ⟨fun l set' hl => hshape.targets l set' (h.link ▸ hl), by rw [h.link], h.state⟩

/-- The recorded active set, as far as it can be read. -/
theorem wp_activeModelSetId (hkept : WellKept root.stateValue) :
    wp (faultyWorld sha256 pointer) activeModelSetId (fun r root' => Same root root' ∧
      ∀ set, r = .ok (.str set) → isPlain set = true) root :=
  wpc_post (wpc_activeModelSetId (fun _ _ _ _ step => step) fun _ _ => trivial)
    fun _ _ _ h => ⟨h.1, fun set hr => hkept.read (h.2 _ hr) set rfl⟩

/-- The end of an activation: the active link leads to the new set. -/
theorem wp_activated {root₁ : ArtifactRoot} (hshape : root.Shape) (hplain : manifest.plain)
    (hpublished : publishedManifest pointer = some manifest)
    (htargets : ∀ l set, root₁.link l = some set → isPlain set = true)
    (hactive : root₁.link .active = some manifest.modelSetId) (hstate : root₁.state = root.state) :
    wp (faultyWorld sha256 pointer) (do
        let polledAt ← perform .utcNow
        let swappedAt ← perform .utcNow
        let _ ← writeState (activatedState manifest prevActive polledAt swappedAt)
        return true)
      (fun r root' => root'.Shape ∧ PollEnds pointer root r root') root₁ := by
  have hfailed : ∀ {root₂ : ArtifactRoot} (e : Exc), Same root₁ root₂ →
      root₂.Shape ∧ PollEnds pointer root (.error e) root₂ := by
    intro root₂ e h
    have hvalue : root₂.stateValue = root.stateValue := by
      rw [stateValue, h.state, hstate, stateValue]
    refine ⟨⟨fun l set hl => htargets l set (h.link ▸ hl), hvalue ▸ hshape.state⟩,
      .activated hpublished (h.link ▸ hactive) (Or.inr ⟨e, rfl, ?_⟩)⟩
    rw [recordsWithdrawn, hvalue, recordsWithdrawn]
  have hnow : ∀ {root₂ : ArtifactRoot}, Same root₁ root₂ →
      wp (faultyWorld sha256 pointer) (perform .utcNow) (fun _ root' => Same root₁ root') root₂ := by
    intro root₂ h
    refine wpc_post (wpc_quiet (fun _ _ _ _ step => step)
      (Proc.along_perform (isQuiet trivial rfl)) fun _ _ => trivial) fun _ _ _ h' => h.trans h'
  refine wpc_seq (hnow (.refl root₁)) ?_ fun e root₂ _ h => hfailed e h
  intro polledAt root₂ _ h₂
  refine wpc_seq (hnow h₂) ?_ fun e root₃ _ h => hfailed e h
  intro swappedAt root₃ _ h₃
  refine wpc_seq (wpc_writeState (fun _ _ _ _ step => step) (fun _ _ => trivial)
    fun _ _ => trivial) ?_ ?_
  · rintro _ root' - (⟨h, -⟩ | ⟨-, e, he⟩)
    · have hvalue : root'.stateValue = activatedState manifest prevActive polledAt swappedAt := by
        rw [stateValue, h.state]
      refine ⟨trivial, ⟨fun l set hl => htargets l set (h₃.link ▸ h.link ▸ hl), ?_⟩,
        .activated hpublished ?_ (Or.inl rfl)⟩
      · rw [hvalue]
        exact records_activated hplain.1
      · rw [h.link, h₃.link, hactive]
    · cases he
  · rintro e root' - (⟨-, he⟩ | ⟨h, -⟩)
    · cases he
    · exact hfailed e (h₃.trans h)

theorem wp_activate (hshape : root.Shape) (hplain : manifest.plain)
    (hpublished : publishedManifest pointer = some manifest)
    (hpointer : ∀ text, pointer = .ok text → isWithdrawal text = false) :
    wp (faultyWorld sha256 pointer) (d.activate manifest)
      (fun r root' => root'.Shape ∧ PollEnds pointer root r root') root := by
  have hkept : ∀ {root' : ArtifactRoot} {r : Except Exc Bool}, r ≠ .ok true →
      ActiveKept root root' → root'.Shape ∧ PollEnds pointer root r root' :=
    fun hr h => h.kept hshape hr fun _ text _ ht => hpointer text ht
  have hworld : ∀ (w : ArtifactRoot) (op : ArtifactCall) (r : Except Exc op.Ans) w',
      faultyWorld sha256 pointer w op r w' → faultyWorld sha256 pointer w op r w' :=
    fun _ _ _ _ step => step
  have herror : ∀ {root' : ArtifactRoot} (e : Exc), ActiveKept root root' →
      root'.Shape ∧ PollEnds pointer root (.error e) root' :=
    fun e h => hkept (fun h => by cases h) h
  refine wpc_activate_parts (S := fun _ => True) hworld hplain (fun _ _ => trivial)
    (wpc_post (wp_true _ root) fun _ _ _ _ _ => trivial)
    (fun r root' h hr => hkept hr (.of_sameBut hshape (h.sameBut ""))) ?_
  intro root₁ h₁ _ _
  have h₁ : ActiveKept root root₁ := .of_sameBut hshape (h₁.sameBut "")
  simp only [promote, Proc.bind_eq, Proc.bind_assoc]
  refine wpc_seq (wpc_placeSet hworld hplain.1 trivial (fun _ _ _ => trivial)
    fun _ _ _ _ _ => trivial) ?_ fun e root₂ _ h => herror e (h₁.trans_sameBut h.1)
  rintro _ root₂ - ⟨h₂, -⟩
  have h₂ := h₁.trans_sameBut h₂
  refine wpc_seq (wp_activeModelSetId (h₂.shape hshape).1.state) ?_
    fun e root₃ _ h => herror e (h₂.trans_same h.1)
  rintro prevActive root₃ - ⟨h₃, hprev⟩
  have h₃ := h₂.trans_same h₃
  refine wpc_seq (wp_keepLastGood h₃ fun set h => hprev set (h ▸ rfl)) ?_
    fun e root₄ _ h => herror e h
  intro _ root₄ _ h₄
  refine wpc_seq (wpc_atomicSymlink hworld hplain.1 (fun _ _ => trivial) (fun _ _ _ => trivial)
    fun _ _ => trivial) ?_ ?_
  · rintro _ root₅ - (⟨h, -⟩ | ⟨-, e, he⟩)
    · refine wp_activated hshape hplain hpublished (h.plain h₄.targets ?_) ?_
        (h.state.trans h₄.state)
      · exact fun set hset => Option.some.inj hset ▸ hplain.1
      · rw [h.link, Function.update_self]
    · cases he
  · rintro e root₅ - (⟨-, he⟩ | ⟨h | h, -⟩)
    · cases he
    · exact herror e (h₄.trans_same h)
    · have hvalue : root₅.stateValue = root.stateValue := by
        rw [stateValue, h.state, h₄.state, stateValue]
      refine ⟨⟨h.plain h₄.targets fun set hset => (by cases hset), hvalue ▸ hshape.state⟩,
        .kept (fun h => by cases h) (fun _ _ h => by cases h) (Or.inr ?_) ?_⟩
      · rw [h.link, Function.update_self]
      · rw [recordsWithdrawn, hvalue, recordsWithdrawn]

theorem pollEnds_of_same {root₁ root' : ArtifactRoot} {r : Except Exc Bool} (hshape : root.Shape)
    (h : Same root root₁) (ends : PollEnds pointer root₁ r root') :
    PollEnds pointer root r root' := by
  have hflag := (hshape.same h).2
  cases ends with
  | withdrawn hpointer hwithdrawal hlink hflag' =>
      exact .withdrawn hpointer hwithdrawal (hlink.trans h.link) hflag'
  | kept hr hpointer hlink hflag' =>
      exact .kept hr hpointer (by rwa [← h.link]) (hflag'.trans hflag)
  | activated hpublished hlink hr =>
      refine .activated hpublished hlink (hr.imp_right ?_)
      rintro ⟨e, he, hflag'⟩
      exact ⟨e, he, hflag'.trans hflag⟩

/-- What a complete poll does to the active link and to the flag. -/
theorem wp_pollOnce (hshape : root.Shape)
    (hplain : ∀ manifest, publishedManifest pointer = some manifest → manifest.plain) :
    wp (faultyWorld sha256 pointer) d.pollOnce
      (fun r root' => root'.Shape ∧ PollEnds pointer root r root') root := by
  have hback : ∀ {root₁ : ArtifactRoot} {p : Proc ArtifactI Exc Bool}, Same root root₁ →
      wp (faultyWorld sha256 pointer) p
        (fun r root' => root'.Shape ∧ PollEnds pointer root₁ r root') root₁ →
      wp (faultyWorld sha256 pointer) p
        (fun r root' => root'.Shape ∧ PollEnds pointer root r root') root₁ := fun hsame h =>
    wpc_post h fun _ _ _ h => ⟨h.1, pollEnds_of_same hshape hsame h.2⟩
  have hpointer : ∀ {manifest : Manifest}, publishedManifest pointer = some manifest →
      ∀ text, pointer = .ok text → isWithdrawal text = false := by
    rintro manifest hpublished text rfl
    exact not_withdrawal_of_published hpublished
  refine wpc_pollOnce_parts (fun _ _ _ _ step => step) (fun _ _ => trivial) ?_ ?_ ?_ ?_ ?_
  · intro e root₁ h
    exact ⟨(hshape.same h).1, .kept (fun h => by cases h) (fun _ _ h => by cases h)
      (Or.inl (by rw [h.link])) (hshape.same h).2⟩
  · intro e root₁ h _ hnone _
    exact hback h (wp_keepsState (keepsFlag_failed e) (hshape.same h).1 hnone)
  · intro w text root₁ h _ htext hwithdrawal
    exact hback h (wp_recordWithdrawal (hshape.same h).1 htext hwithdrawal)
  · intro manifest active root₁ h _ hpublished _ _
    exact hback h (wp_keepsState keepsFlag_polled (hshape.same h).1 (hpointer hpublished))
  · intro manifest active root₁ h _ hpublished _ _
    exact hback h (wp_activate (hshape.same h).1 (hplain manifest hpublished) hpublished
      (hpointer hpublished))

/-- What a complete rollback does to the active link and to the flag. -/
theorem wp_rollbackToLastGood (hshape : root.Shape) :
    wp (faultyWorld sha256 pointer) d.rollbackToLastGood (fun _ root' => root'.Shape ∧
      root'.recordsWithdrawn = root.recordsWithdrawn ∧
      (root'.link .active = root.link .active ∨ root'.link .active = none ∨
        root'.link .active = root.link .lastGood)) root := by
  have hkept : ∀ {root' : ArtifactRoot}, Same root root' → root'.Shape ∧
      root'.recordsWithdrawn = root.recordsWithdrawn ∧
      (root'.link .active = root.link .active ∨ root'.link .active = none ∨
        root'.link .active = root.link .lastGood) := fun h =>
    ⟨(hshape.same h).1, (hshape.same h).2, Or.inl (by rw [h.link])⟩
  have hworld : ∀ (w : ArtifactRoot) (op : ArtifactCall) (r : Except Exc op.Ans) w',
      faultyWorld sha256 pointer w op r w' → faultyWorld sha256 pointer w op r w' :=
    fun _ _ _ _ step => step
  refine wpc_rollback_parts hworld (fun _ _ => trivial) (fun _ _ h _ => hkept h) ?_
  intro target root₂ h₂ _ htarget
  have hplain := hshape.targets _ _ htarget
  have hlinked : ∀ {target' : Option String} {root₃ : ArtifactRoot}, (∀ set, target' = some set →
      isPlain set = true) → Relinked root₂ .active target' root₃ →
      root₃.Shape ∧ root₃.recordsWithdrawn = root.recordsWithdrawn ∧
        root₃.link .active = target' := by
    intro target' root₃ htarget' h
    have hvalue : root₃.stateValue = root.stateValue := by
      rw [stateValue, h.state, h₂.state, stateValue]
    refine ⟨⟨h.plain (hshape.same h₂).1.targets htarget', hvalue ▸ hshape.state⟩, ?_, ?_⟩
    · rw [recordsWithdrawn, hvalue, recordsWithdrawn]
    · rw [h.link, Function.update_self]
  refine wpc_seq (wpc_atomicSymlink hworld hplain (fun _ _ => trivial) (fun _ _ _ => trivial)
    fun _ _ => trivial) ?_ ?_
  · rintro _ root₃ - (⟨h, -⟩ | ⟨-, e, he⟩)
    · obtain ⟨hshape₃, hflag₃, hactive₃⟩ :=
        hlinked (fun set hset => Option.some.inj hset ▸ hplain) h
      have hdone : ∀ {root' : ArtifactRoot}, root'.Shape ∧ root'.link = root₃.link ∧
          root'.recordsWithdrawn = root₃.recordsWithdrawn →
          root'.Shape ∧ root'.recordsWithdrawn = root.recordsWithdrawn ∧
          (root'.link .active = root.link .active ∨ root'.link .active = none ∨
            root'.link .active = root.link .lastGood) := by
        rintro root' ⟨hshape', hlink', hflag'⟩
        exact ⟨hshape', hflag'.trans hflag₃,
          Or.inr (Or.inr (by rw [hlink', hactive₃, htarget]))⟩
      exact wpc_seq (wp_updateState_keeps (keepsFlag_rolledBack hplain) hshape₃)
        (fun _ root' _ h => ⟨trivial, hdone h⟩) fun e root' _ h => hdone h
    · cases he
  · rintro e root₃ - (⟨-, he⟩ | ⟨h | h, -⟩)
    · cases he
    · exact hkept (h₂.trans h)
    · obtain ⟨hshape₃, hflag₃, hactive₃⟩ := hlinked (fun set hset => by cases hset) h
      exact ⟨hshape₃, hflag₃, Or.inr (Or.inl hactive₃)⟩

end ModelDownloader

/-! ### Runs -/

/-- The call is a poll that wrote down a withdrawal while this set was the active one. -/
def Called.withdraws (set : String) : Called → Bool
  | ⟨before, .poll (.ok text), .ok _, _⟩ =>
      isWithdrawal text && before.root.link .active == some set
  | _ => false

/-- The call is a poll whose manifest names this set, and the poll moved the active link to it
or says that it activated it. -/
def Called.activates (set : String) : Called → Bool
  | ⟨before, .poll pointer, out, after⟩ =>
      ((publishedManifest pointer).any fun manifest => manifest.modelSetId == set) &&
        after.root.link .active == some set &&
        (before.root.link .active != some set || out.toOption == some true)
  | _ => false

/-- The sets that were the active one when a withdrawal was recorded, and were not activated
since. -/
def withdrawnBy (cs : List Called) (set : String) : Bool :=
  cs.foldl (fun withdrawn c => (withdrawn || c.withdraws set) && !c.activates set) false

/-- The set that a load reads its bundle from, if it reads one. -/
def LiveRegimeDetector.readsFrom (c : RegimeSettings) (readable : Bool) (root : ArtifactRoot)
    (det : LiveRegimeDetector) (force : Bool) : Option String :=
  if det.keepsCached root force then none
  else
    match withdrawal readable root with
    | .ok none => (walk c root).bind fun found => root.link found.1
    | _ => none

/-- The set that the call reads a bundle from, its load being its own or a detection's. -/
def Called.readsFrom (regime : RegimeSettings) (c : Called) : Option String :=
  c.call.loads.bind fun load =>
    c.before.detector.readsFrom regime load.1 c.before.root load.2

/-- A load that looks at the disk can read the state file, and does not have to make do with a
`last_good` that leads to a withdrawn set. -/
def CarefulLoad (regime : RegimeSettings) (withdrawn : String → Bool) (host : ArtifactHost)
    (readable force : Bool) : Prop :=
  host.detector.keepsCached host.root force = false → readable = true ∧
    (host.root.recordsWithdrawn = false →
      LiveRegimeDetector.readBundle regime host.root .active = none →
        ∀ set, host.root.link .lastGood = some set → withdrawn set = false)

/-- Nothing brings a withdrawn set back: no rollback to one unless a withdrawal is on record, and
no load that makes do with one. Published names are parts of paths. -/
def Called.Careful (regime : RegimeSettings) (withdrawn : String → Bool) (c : Called) : Prop :=
  match c.call with
  | .poll pointer => ∀ manifest, publishedManifest pointer = some manifest → manifest.plain
  | .rollback => c.before.root.recordsWithdrawn = false →
      ∀ set, c.before.root.link .lastGood = some set → withdrawn set = false
  | .load readable force => CarefulLoad regime withdrawn c.before readable force
  | .detect readable _ _ _ => CarefulLoad regime withdrawn c.before readable false

/-- A withdrawal is on record, or the active set is not withdrawn. -/
structure ActiveServable (withdrawn : String → Bool) (root : ArtifactRoot) : Prop where
  shape : root.Shape
  servable : root.recordsWithdrawn = false →
    ∀ set, root.link .active = some set → withdrawn set = false

/-- The withdrawn sets after one more call. -/
def withdrawnAfter (withdrawn : String → Bool) (c : Called) (set : String) : Bool :=
  (withdrawn set || c.withdraws set) && !c.activates set

theorem withdrawnBy_snoc (cs : List Called) (c : Called) :
    withdrawnBy (cs ++ [c]) = withdrawnAfter (withdrawnBy cs) c := by
  funext set
  simp only [withdrawnBy, withdrawnAfter, List.foldl_append, List.foldl_cons, List.foldl_nil]

variable {svc : ArtifactService} {withdrawn : String → Bool} {c : Called}

/-- One complete poll. -/
theorem ActiveServable.polled {pointer : Except Exc JsonText} {host : ArtifactHost}
    {r : Except Exc Bool} {root' : ArtifactRoot} (h : ActiveServable withdrawn host.root)
    (hshape : root'.Shape) (ends : PollEnds pointer host.root r root') :
    ActiveServable (withdrawnAfter withdrawn ⟨host, .poll pointer, r, ⟨root', host.detector⟩⟩)
      root' := by
  refine ⟨hshape, fun hflag set hactive => ?_⟩
  cases ends with
  | withdrawn hpointer hwithdrawal hlink hflag' =>
      rw [hflag] at hflag'
      cases hflag'
  | kept hr hpointer hlink hflag' =>
      have hsame : host.root.link .active = some set := by
        rcases hlink with hlink | hlink
        · rwa [← hlink]
        · rw [hlink] at hactive
          cases hactive
      have hnot : Called.withdraws set ⟨host, .poll pointer, r, ⟨root', host.detector⟩⟩ = false := by
        match pointer, r, hpointer with
        | .ok text, .ok b, hpointer => simp [Called.withdraws, hpointer b text rfl rfl]
        | .ok text, .error e, _ => rfl
        | .error e, r, _ => rfl
      simp [withdrawnAfter, hnot, h.servable (hflag' ▸ hflag) set hsame]
  | @activated manifest _ _ hpublished hlink hr =>
      obtain rfl : manifest.modelSetId = set := Option.some.inj (hlink.symm.trans hactive)
      rcases hr with rfl | ⟨e, rfl, hflag'⟩
      · simp [withdrawnAfter, Called.activates, hpublished, hlink, Except.toOption]
      · by_cases hbefore : host.root.link .active = some manifest.modelSetId
        · have hservable := h.servable (hflag' ▸ hflag) _ hbefore
          simp [withdrawnAfter, Called.withdraws, hservable]
        · simp [withdrawnAfter, Called.activates, hpublished, hlink, hbefore]

/-- One careful call. -/
theorem ActiveServable.carried (carries : svc.Carries (faultyWorld svc.sha256) c)
    (careful : c.Careful svc.regime withdrawn) (h : ActiveServable withdrawn c.before.root) :
    ActiveServable (withdrawnAfter withdrawn c) c.after.root := by
  have hfew : ∀ {set : String}, c.withdraws set = false → withdrawn set = false →
      withdrawnAfter withdrawn c set = false := by
    intro set hnot hset
    simp [withdrawnAfter, hnot, hset]
  cases carries with
  | poll exec =>
      have hends := wp_sound exec (ModelDownloader.wp_pollOnce h.shape careful)
      exact h.polled hends.1 hends.2
  | rollback exec =>
      obtain ⟨hshape, hflag, hlink⟩ := wp_sound exec (ModelDownloader.wp_rollbackToLastGood h.shape)
      refine ⟨hshape, fun hflag' set hactive => hfew rfl ?_⟩
      have hflag := hflag ▸ hflag'
      rcases hlink with hlink | hlink | hlink
      · exact h.servable hflag set (hlink ▸ hactive)
      · rw [hlink] at hactive
        cases hactive
      · exact careful hflag set (hlink ▸ hactive)
  | load _ => exact ⟨h.shape, fun hflag set hactive => hfew rfl (h.servable hflag set hactive)⟩
  | detect _ => exact ⟨h.shape, fun hflag set hactive => hfew rfl (h.servable hflag set hactive)⟩

/-- A careful load of a servable host reads no withdrawn set. -/
theorem ActiveServable.readsFrom {host : ArtifactHost} {readable force : Bool} {set : String}
    (h : ActiveServable withdrawn host.root)
    (careful : CarefulLoad svc.regime withdrawn host readable force)
    (hreads : host.detector.readsFrom svc.regime readable host.root force = some set) :
    withdrawn set = false := by
  unfold LiveRegimeDetector.readsFrom at hreads
  split_ifs at hreads with hcache
  obtain ⟨rfl, hfallback⟩ := careful (by simpa using hcache)
  split at hreads
  · rename_i hwithdrawal
    have hflag : host.root.recordsWithdrawn = false := by
      by_contra hset
      obtain ⟨state, hstate⟩ := LiveRegimeDetector.withdrawal_of_records (by simpa using hset)
      rw [hwithdrawal] at hstate
      cases hstate
    unfold LiveRegimeDetector.walk at hreads
    cases hactive : LiveRegimeDetector.readBundle svc.regime host.root .active with
    | some bundle =>
        rw [hactive] at hreads
        exact h.servable hflag set hreads
    | none =>
        rw [hactive] at hreads
        obtain ⟨found, hfound, hlink⟩ := Option.bind_eq_some_iff.mp hreads
        obtain ⟨bundle, -, rfl⟩ := Option.map_eq_some_iff.mp hfound
        exact hfallback hflag hactive set hlink
  · cases hreads

/-- A split of a longer history is one at its end or one of the history before. -/
theorem split_of_snoc {α : Type} {cs before after : List α} {c c' : α}
    (h : cs ++ [c] = before ++ c' :: after) :
    (before = cs ∧ c' = c) ∨ ∃ rest, cs = before ++ c' :: rest := by
  rcases List.eq_nil_or_concat after with rfl | ⟨rest, last, rfl⟩
  · obtain ⟨hcs, hc⟩ := List.append_inj' h rfl
    exact Or.inl ⟨hcs.symm, (List.cons.inj hc).1.symm⟩
  · have hcs : cs ++ [c] = (before ++ c' :: rest) ++ [last] := by simpa using h
    exact Or.inr ⟨rest, (List.append_inj' hcs rfl).1⟩

/-- Every call of a history is careful. -/
def CarefulRun (regime : RegimeSettings) (cs : List Called) : Prop :=
  ∀ before c after, cs = before ++ c :: after → c.Careful regime (withdrawnBy before)

theorem carefulRun_nil (regime : RegimeSettings) : CarefulRun regime [] :=
  fun before c after h => by simp at h

theorem carefulRun_snoc {regime : RegimeSettings} {cs : List Called} :
    CarefulRun regime (cs ++ [c]) ↔ CarefulRun regime cs ∧ c.Careful regime (withdrawnBy cs) := by
  constructor
  · intro h
    exact ⟨fun before c' after hsplit => h before c' (after ++ [c]) (by simp [hsplit]),
      h cs c [] rfl⟩
  · rintro ⟨hcs, hc⟩ before c' after hsplit
    rcases split_of_snoc hsplit with ⟨rfl, rfl⟩ | ⟨rest, hrest⟩
    · exact hc
    · exact hcs before c' rest hrest

namespace ArtifactService

/-- Every state of a careful run is servable. -/
theorem Runs.servable {host₀ host : ArtifactHost} {cs : List Called}
    (run : svc.Runs (faultyWorld svc.sha256) (fun _ _ => False) host₀ cs host)
    (hstart : ActiveServable (fun _ => false) host₀.root)
    (careful : CarefulRun svc.regime cs) :
    ActiveServable (withdrawnBy cs) host.root ∧
      ∀ before c after, cs = before ++ c :: after →
        ActiveServable (withdrawnBy before) c.before.root := by
  induction run with
  | refl => exact ⟨hstart, fun before c after h => by simp at h⟩
  | @call cs c run carries ih =>
      obtain ⟨hcs, hc⟩ := carefulRun_snoc.mp careful
      obtain ⟨hlast, hall⟩ := ih hcs
      refine ⟨?_, fun before c' after h => ?_⟩
      · rw [withdrawnBy_snoc]
        exact hlast.carried carries hc
      · rcases split_of_snoc h with ⟨rfl, rfl⟩ | ⟨rest, hrest⟩
        · exact hlast
        · exact hall before c' rest hrest
  | other run step ih => exact step.elim

theorem servable_start : ActiveServable (fun _ => false) ArtifactHost.start.root where
  shape := ⟨fun l set h => (by cases h), ⟨[], rfl, fun set h => (by cases h)⟩⟩
  servable := fun _ _ _ => rfl

/-- In every run of complete calls from the start in which every call is careful, no load reads
its bundle from a set that was active when a withdrawal was recorded and was not activated
since. -/
theorem withdrawn_never_read {cs : List Called} {host : ArtifactHost}
    (run : svc.Runs (faultyWorld svc.sha256) (fun _ _ => False) .start cs host)
    (careful : CarefulRun svc.regime cs) :
    ∀ before c after, cs = before ++ c :: after → ∀ set, c.readsFrom svc.regime = some set →
      withdrawnBy before set = false := by
  intro before c after hsplit set hreads
  have hservable := (run.servable servable_start careful).2 before c after hsplit
  have hcareful := careful before c after hsplit
  obtain ⟨⟨readable, force⟩, hload, hreads⟩ := Option.bind_eq_some_iff.mp hreads
  match hcall : c.call with
  | .poll pointer =>
      rw [hcall] at hload
      cases hload
  | .rollback =>
      rw [hcall] at hload
      cases hload
  | .load readable' force' =>
      rw [hcall] at hload
      cases hload
      rw [Called.Careful, hcall] at hcareful
      exact hservable.readsFrom hcareful hreads
  | .detect readable' market instrument granularity =>
      rw [hcall] at hload
      cases hload
      rw [Called.Careful, hcall] at hcareful
      exact hservable.readsFrom hcareful hreads

/-- A set is activated, withdrawn and replaced by another one. -/
def replacedHost (pointer : Except Exc JsonText) : ArtifactHost :=
  (polled pointer (polled withdrawnPointer (polled (publishedPointer "a") .start).after).after).after

theorem withdrawn_never_read_replaced : ∃ cs, withdrawnBy cs "a" = true ∧
    (loaded sampleService false (replacedHost (publishedPointer "b"))).readsFrom
      sampleService.regime = some "b" ∧ withdrawnBy cs "b" = false := by
  have run : sampleService.Runs (faultyWorld sampleService.sha256) (fun _ _ => False) .start _ _ :=
    .call (.call (.call (.call .refl (carries_polled (publishedPointer "a") .start).faulty)
      (carries_polled withdrawnPointer _).faulty) (carries_polled (publishedPointer "b") _).faulty)
      (carries_loaded false (replacedHost (publishedPointer "b")))
  have hread : (loaded sampleService false (replacedHost (publishedPointer "b"))).readsFrom
      sampleService.regime = some "b" := by decide +kernel
  have hplain : ∀ pointer ∈ [publishedPointer "a", withdrawnPointer, publishedPointer "b"],
      ∀ manifest ∈ publishedManifest pointer, manifest.plain := by decide +kernel
  have hpolled : ∀ pointer ∈ [publishedPointer "a", withdrawnPointer, publishedPointer "b"],
      ∀ host withdrawn, (polled pointer host).Careful sampleService.regime withdrawn :=
    fun pointer hpointer _ _ => hplain pointer hpointer
  have hbundle : (LiveRegimeDetector.readBundle sampleService.regime
      (replacedHost (publishedPointer "b")).root .active).isSome = true := by decide +kernel
  have hload : ∀ withdrawn, (loaded sampleService false (replacedHost (publishedPointer "b"))).Careful
      sampleService.regime withdrawn := fun withdrawn _ => ⟨rfl, fun _ hnone => by
    change LiveRegimeDetector.readBundle _ (replacedHost (publishedPointer "b")).root _ = _ at hnone
    rw [hnone] at hbundle
    cases hbundle⟩
  refine ⟨_, ?_, hread, withdrawn_never_read run ?_ _ _ [] rfl "b" hread⟩
  swap
  · exact carefulRun_snoc.mpr ⟨carefulRun_snoc.mpr ⟨carefulRun_snoc.mpr ⟨carefulRun_snoc.mpr
      ⟨carefulRun_nil _, hpolled (publishedPointer "a") (by simp) .start _⟩,
      hpolled withdrawnPointer (by simp) _ _⟩, hpolled (publishedPointer "b") (by simp) _ _⟩,
      hload _⟩
  decide +kernel

/-- The set that replaced the withdrawn one is broken, and the detector falls back. -/
theorem withdrawn_read_again : ∃ cs host before c after set,
    sampleService.Runs (faultyWorld sampleService.sha256) (fun _ _ => False) .start cs host ∧
      cs = before ++ c :: after ∧ c.readsFrom sampleService.regime = some set ∧
      withdrawnBy before set = true :=
  ⟨_, _, _, _, [], "a", .call (.call (.call (.call .refl
    (carries_polled (publishedPointer "a") .start).faulty)
    (carries_polled withdrawnPointer _).faulty)
    (carries_polled (publishedBundle "b" "models/broken.pkl" "other") _).faulty)
    (carries_loaded false (replacedHost (publishedBundle "b" "models/broken.pkl" "other"))), rfl,
    by decide +kernel, by decide +kernel⟩

end ArtifactService

end System2
