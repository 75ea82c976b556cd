import System2.ArtifactSync.ArtifactDisk

/-!
# What the calls of a poll leave in place

A call of a poll changes what its own places hold or what a path leads to. The steps
on the links and on the state file keep everything outside of some zones, and so do
whole updates of the state.
-/

namespace System2
open Foundation

/-- The temporary names are those under which a link or the state file is written. A directory
or a downloaded file has no business there. -/
def OwnFile (root p : Place) (node : Option DiskNode) : Prop :=
  (∃ l, (p = linkPlace root l ∨ p = tmpLinkPlace root l) ∧
    ∀ n, node = some n → ∃ target, n = .link target) ∨
  ((p = statePlace root ∨ p = stateTmpPlace root) ∧ ∀ n, node = some n → ∃ text, n = .json text)

/-- All that changed is inside of the zones, or a file of the downloader's own. -/
def KeptOutside (root : Place) (zones : List Place) (disk disk' : DiskTree) : Prop :=
  ∀ p, disk' p ≠ disk p → (∃ zone ∈ zones, zone <+: p) ∨ OwnFile root p (disk' p)

/-! ### Places -/

section Places

variable {root p zone : Place} {node : Option DiskNode}

/-- Own files stand directly in the root, and are no directories of sets. -/
theorem OwnFile.place (h : OwnFile root p node) :
    ∃ name, p = root ++ [name] ∧ name ≠ "staging" ∧ name ≠ "sets" := by
  rcases h with ⟨l, rfl | rfl, -⟩ | ⟨rfl | rfl, -⟩
  · cases l with
    | active => exact ⟨_, rfl, by decide, by decide⟩
    | lastGood => exact ⟨_, rfl, by decide, by decide⟩
  · cases l with
    | active => exact ⟨_, rfl, by decide, by decide⟩
    | lastGood => exact ⟨_, rfl, by decide, by decide⟩
  · exact ⟨_, rfl, by decide, by decide⟩
  · exact ⟨_, rfl, by decide, by decide⟩

theorem Standing.length_le (h : Standing root p) : p.length ≤ root.length + 1 := by
  rcases h with h | h
  · simpa [stagingDir] using h.length_le
  · simpa [setsDir] using h.length_le

theorem Standing.not_own (h : Standing root p) : ¬ OwnFile root p node := by
  intro hown
  obtain ⟨name, rfl, hstaging, hsets⟩ := hown.place
  rcases h with h | h
  · have heq := h.eq_of_length (by simp [stagingDir])
    exact hstaging (by simpa [stagingDir] using heq)
  · have heq := h.eq_of_length (by simp [setsDir])
    exact hsets (by simpa [setsDir] using heq)

/-- A directory inside of one that stands is deeper than all that stand. -/
def Deep (root zone : Place) : Prop := ∃ dir part, zone = root ++ [dir, part]

theorem Deep.not_own (hzone : Deep root zone) (h : zone <+: p) : ¬ OwnFile root p node := by
  intro hown
  obtain ⟨dir, part, rfl⟩ := hzone
  obtain ⟨name, rfl, -, -⟩ := hown.place
  have hlength := h.length_le
  simp at hlength

theorem Deep.not_standing (hzone : Deep root zone) (h : zone <+: p) : ¬ Standing root p := by
  intro hstanding
  obtain ⟨dir, part, rfl⟩ := hzone
  have hlength := h.length_le.trans hstanding.length_le
  simp at hlength

theorem deep_staging (root : Place) (part : String) : Deep root (stagingDir root ++ [part]) :=
  ⟨"staging", part, by simp [stagingDir]⟩

theorem deep_sets (root : Place) (part : String) : Deep root (setsDir root ++ [part]) :=
  ⟨"sets", part, by simp [setsDir]⟩

/-- Two of these directories with a common place are one. -/
theorem Deep.eq_of_common {zone' : Place} (hzone : Deep root zone) (hzone' : Deep root zone')
    (h : zone <+: p) (h' : zone' <+: p) : zone = zone' := by
  obtain ⟨dir, part, rfl⟩ := hzone
  obtain ⟨dir', part', rfl⟩ := hzone'
  exact (List.prefix_of_prefix_length_le h h' (by simp)).eq_of_length (by simp)

theorem staging_ne_sets (part part' : String) :
    stagingDir root ++ [part] ≠ setsDir root ++ [part'] := by
  simp [stagingDir, setsDir]

end Places

/-! ### What is kept -/

section KeptOutside

variable {root : Place} {zones : List Place} {disk disk₁ disk₂ : DiskTree}

theorem KeptOutside.refl (root : Place) (zones : List Place) (disk : DiskTree) :
    KeptOutside root zones disk disk := fun _ h => absurd rfl h

theorem KeptOutside.step (h : KeptOutside root zones disk disk₁) (hstep : KeptOutside root zones disk₁ disk₂) :
    KeptOutside root zones disk disk₂ := by
  intro p hp
  by_cases hlast : disk₂ p = disk₁ p
  · rw [hlast] at hp ⊢
    exact h p hp
  · exact hstep p hlast

theorem KeptOutside.mono {zones' : List Place} (h : KeptOutside root zones disk disk₁)
    (hzones : ∀ zone ∈ zones, zone ∈ zones') : KeptOutside root zones' disk disk₁ := by
  intro p hp
  rcases h p hp with ⟨zone, hzone, hprefix⟩ | hown
  · exact Or.inl ⟨zone, hzones zone hzone, hprefix⟩
  · exact Or.inr hown

/-- What stands is kept. -/
theorem KeptOutside.standing {p : Place} (h : KeptOutside root zones disk disk₁)
    (hzones : ∀ zone ∈ zones, Deep root zone) (hp : Standing root p) : disk₁ p = disk p := by
  by_contra hne
  rcases h p hne with ⟨zone, hzone, hprefix⟩ | hown
  · exact (hzones zone hzone).not_standing hprefix hp
  · exact hp.not_own hown

end KeptOutside

/-! ### Calls -/

/-- Calls that leave the disk as it is. -/
def ArtifactCall.asks : ArtifactCall → Prop
  | .download _ _ _ => False
  | .writeStateTmp _ => False
  | .replaceState => False
  | .removeStage _ => False
  | .clearStage _ => False
  | .makeStage _ => False
  | .removeSet _ => False
  | .moveStage _ => False
  | .unlinkTmp _ => False
  | .symlinkTmp _ _ => False
  | .unlink _ => False
  | .replaceLink _ => False
  | _ => True

section Calls

variable {root : Place} {sha256 : List UInt8 → String} {pointer : Except Exc JsonText}
  {disk disk' : DiskTree} {zones : List Place}

theorem ArtifactCall.does_asks {op : ArtifactCall} {r : Except Exc op.Ans} (hop : op.asks)
    (h : op.does root sha256 pointer disk r disk') : disk' = disk := by
  cases op with
  | getText key => exact h.2
  | utcNow => exact h.2
  | sha256File set name => exact h.1
  | stateExists => exact h.1
  | readState => exact h.1
  | stageExists set => exact h.1
  | setExists set => exact h.1
  | fsyncSet set => exact h
  | tmpLinkExists l => exact h.1
  | isSymlink l => exact h
  | linkExists l => exact h
  | resolveName l => exact h
  | _ => exact hop.elim

/-- A call fails on the name of no file, or it does what it does. -/
theorem diskWorld_cases {op : ArtifactCall} {r : Except Exc op.Ans}
    (step : diskWorld root sha256 pointer disk op r disk') :
    (op.names.any Place.hasNul = true ∧ disk' = disk ∧ op.fails r) ∨
      op.does root sha256 pointer disk r disk' := by
  unfold diskWorld at step
  split_ifs at step with hnul
  · exact Or.inl ⟨hnul, step⟩
  · exact Or.inr step

theorem diskWorld_asks {op : ArtifactCall} {r : Except Exc op.Ans} (hop : op.asks)
    (step : diskWorld root sha256 pointer disk op r disk') : disk' = disk := by
  rcases diskWorld_cases step with ⟨-, h, -⟩ | h
  · exact h
  · exact ArtifactCall.does_asks hop h

/-- A call without a name does what it does. -/
theorem diskWorld_does {op : ArtifactCall} {r : Except Exc op.Ans} (hop : op.names = [])
    (step : diskWorld root sha256 pointer disk op r disk') :
    op.does root sha256 pointer disk r disk' := by
  rcases diskWorld_cases step with ⟨hnul, -⟩ | h
  · rw [hop] at hnul
    cases hnul
  · exact h

/-- One place that becomes one of the downloader's own files. -/
theorem kept_update {p : Place} {node : Option DiskNode} (h : OwnFile root p node) :
    KeptOutside root zones disk (Function.update disk p node) := by
  intro q hq
  by_cases hp : q = p
  · subst hp
    exact Or.inr (by rwa [Function.update_self])
  · exact absurd (Function.update_of_ne hp _ _) hq

theorem ownFile_link {l : RootLink} {node : Option DiskNode}
    (h : ∀ n, node = some n → ∃ target, n = .link target) : OwnFile root (linkPlace root l) node :=
  Or.inl ⟨l, Or.inl rfl, h⟩

theorem ownFile_tmpLink {l : RootLink} {node : Option DiskNode}
    (h : ∀ n, node = some n → ∃ target, n = .link target) :
    OwnFile root (tmpLinkPlace root l) node := Or.inl ⟨l, Or.inr rfl, h⟩

theorem ownFile_link_none (root : Place) (l : RootLink) : OwnFile root (linkPlace root l) none :=
  ownFile_link fun n hn => by cases hn

theorem linkPlace_ne_tmpLinkPlace (l : RootLink) : linkPlace root l ≠ tmpLinkPlace root l := by
  cases l with
  | active => simp [linkPlace, tmpLinkPlace]
  | lastGood => simp [linkPlace, tmpLinkPlace]

end Calls

namespace ModelDownloader

variable {root : Place} {sha256 : List UInt8 → String} {pointer : Except Exc JsonText}
  {disk₀ disk : DiskTree} {zones : List Place} {d : ModelDownloader} {C : DiskTree → Prop}

/-- Procedures of such calls leave the disk as it is. -/
theorem wpc_asks {α : Type} {p : Proc ArtifactI Exc α}
    (hp : p.Only fun op : ArtifactCall => op.asks) (hC : C disk) :
    wpc (diskWorld root sha256 pointer) C p (fun _ disk' => disk' = disk) disk := by
  have hstep : ∀ (op : ArtifactCall) w (r : Except Exc op.Ans) w', op.asks → w = disk →
      diskWorld root sha256 pointer w op r w' → w' = disk := fun op w r w' hop hw step =>
    (diskWorld_asks hop step).trans hw
  exact wpc_mono (wpc_of_only (J := fun w => w = disk) hstep hp rfl) (fun _ h => h ▸ hC)
    fun _ _ _ h => h

/-- The state file is looked for and read. -/
theorem only_readState {P : ArtifactCall → Prop} (hexists : P .stateExists) (hread : P .readState) :
    readState.Only P := by
  refine Proc.Along.bind (Proc.along_perform hexists) fun isThere => ?_
  cases isThere with
  | false => exact trivial
  | true =>
      refine Proc.Along.bind (Proc.Along.attempt (Proc.along_perform hread)) fun r => ?_
      match r with
      | .ok (.text (some v)) => exact trivial
      | .ok (.text none) => exact trivial
      | .ok .garbled => exact trivial
      | .error e => exact trivial

theorem only_activeModelSetId {P : ArtifactCall → Prop} (hexists : P .stateExists)
    (hread : P .readState) : activeModelSetId.Only P :=
  (only_readState hexists hread).bind fun _ => Proc.along_ofExcept _

/-- The state file is written under its temporary name and takes its place. -/
theorem wpc_writeState_keeps {state : PyVal} (h : KeptOutside root zones disk₀ disk) :
    wpc (diskWorld root sha256 pointer) (KeptOutside root zones disk₀) (writeState state)
      (fun _ disk' => KeptOutside root zones disk₀ disk') disk := by
  refine wpc_seq (R := fun r disk' => KeptOutside root zones disk₀ disk' ∧
    (r.isOk = true → disk' (stateTmpPlace root) = some (.json (some state)))) ?_ ?_
    fun e disk' _ h => h.1
  · apply wpc_of_perform h
    intro r disk' step
    obtain ⟨hframe, hok⟩ := diskWorld_does rfl step
    have hkept : KeptOutside root zones disk₀ disk' := h.step fun p hp => by
      obtain ⟨rfl, text, htext⟩ := hframe p hp
      refine Or.inr (Or.inr ⟨Or.inr rfl, fun n hn => ⟨text, ?_⟩⟩)
      exact Option.some.inj (hn.symm.trans htext)
    exact ⟨hkept, hkept, hok⟩
  · rintro _ disk₁ hkept ⟨-, htmp⟩
    apply wpc_of_perform hkept
    intro r disk' step
    rcases diskWorld_does rfl step with ⟨-, rfl⟩ | ⟨-, rfl⟩
    · have hrenamed : KeptOutside root zones disk₀
          (disk₁.rename (stateTmpPlace root) (statePlace root)) := by
        refine (hkept.step (kept_update (Or.inr ⟨Or.inl rfl, ?_⟩))).step
          (kept_update (Or.inr ⟨Or.inr rfl, fun n hn => by cases hn⟩))
        intro n hn
        exact ⟨_, Option.some.inj (hn.symm.trans (htmp rfl))⟩
      exact ⟨hrenamed, hrenamed⟩
    · exact ⟨hkept, hkept⟩

/-- The temporary link is put up, whatever was left there. -/
theorem wpc_symlinkTmp_keeps {l : RootLink} {set : String} (h : KeptOutside root zones disk₀ disk) :
    wpc (diskWorld root sha256 pointer) (KeptOutside root zones disk₀) (perform (.symlinkTmp l set))
      (fun r disk' => KeptOutside root zones disk₀ disk' ∧ (r.isOk = true →
        ∃ target, disk' (tmpLinkPlace root l) = some (.link target))) disk := by
  apply wpc_of_perform h
  intro r disk' step
  have hfail : r.isOk = false → disk' = disk → KeptOutside root zones disk₀ disk' ∧ (r.isOk = true →
      ∃ target, disk' (tmpLinkPlace root l) = some (.link target)) := fun hr hd =>
    ⟨hd ▸ h, fun hok => by rw [hr] at hok; cases hok⟩
  rcases diskWorld_cases step with ⟨-, hd, hr⟩ | ⟨-, -, rfl⟩ | ⟨hr, hd⟩
  · exact ⟨hd ▸ h, hfail hr hd⟩
  · have hkept : KeptOutside root zones disk₀ (Function.update disk (tmpLinkPlace root l)
        (some (.link (setPlace root set)))) :=
      h.step (kept_update (ownFile_tmpLink fun n hn => ⟨_, (Option.some.inj hn).symm⟩))
    exact ⟨hkept, hkept, fun _ => ⟨_, Function.update_self ..⟩⟩
  · exact ⟨hd ▸ h, hfail hr hd⟩

/-- A link is replaced through its temporary name. -/
theorem wpc_atomicSymlink_keeps {l : RootLink} {set : String} (h : KeptOutside root zones disk₀ disk) :
    wpc (diskWorld root sha256 pointer) (KeptOutside root zones disk₀) (d.atomicSymlink l set)
      (fun _ disk' => KeptOutside root zones disk₀ disk') disk := by
  refine wpc_seq (wpc_asks (Proc.along_perform trivial) h) ?_ fun e disk' _ h' => h' ▸ h
  rintro leftOver disk - rfl
  refine wpc_seq (R := fun _ disk' => KeptOutside root zones disk₀ disk') ?_ ?_ fun e disk' _ h' => h'
  · refine wpc_given (fun _ => wpc_of_perform h fun r disk' step => ?_) fun _ => ⟨h, h⟩
    rcases diskWorld_does rfl step with ⟨-, rfl⟩ | ⟨-, rfl⟩
    · have hkept : KeptOutside root zones disk₀ (Function.update disk (tmpLinkPlace root l) none) :=
        h.step (kept_update (ownFile_tmpLink fun n hn => by cases hn))
      exact ⟨hkept, hkept⟩
    · exact ⟨h, h⟩
  intro _ disk₁ _ h₁
  refine wpc_seq (wpc_symlinkTmp_keeps h₁) ?_ fun e disk' _ h' => h'.1
  rintro _ disk₂ h₂ ⟨-, htmp⟩
  obtain ⟨target, htmp⟩ := htmp rfl
  refine wpc_seq (R := fun _ disk' => KeptOutside root zones disk₀ disk' ∧
    disk' (tmpLinkPlace root l) = some (.link target)) ?_ ?_ fun e disk' _ h' => h'.1
  · refine wpc_given (fun _ => ?_) fun _ => ⟨h₂, h₂, htmp⟩
    refine wpc_seq (wpc_asks (Proc.along_perform trivial) h₂) ?_ fun e disk' _ h' => h' ▸ ⟨h₂, htmp⟩
    rintro isLink disk₂ - rfl
    refine wpc_given (fun _ => wpc_of_perform h₂ fun r disk' step => ?_) fun _ => ⟨h₂, h₂, htmp⟩
    rcases diskWorld_does rfl step with ⟨-, rfl⟩ | ⟨-, rfl⟩
    · have hkept : KeptOutside root zones disk₀ (Function.update disk₂ (linkPlace root l) none) :=
        h₂.step (kept_update (ownFile_link_none root l))
      refine ⟨hkept, hkept, ?_⟩
      rwa [Function.update_of_ne (linkPlace_ne_tmpLinkPlace l).symm]
    · exact ⟨h₂, h₂, htmp⟩
  · rintro _ disk₃ h₃ ⟨-, htmp₃⟩
    apply wpc_of_perform h₃
    intro r disk' step
    rcases diskWorld_does rfl step with ⟨-, rfl⟩ | ⟨-, rfl⟩
    · have hkept : KeptOutside root zones disk₀ (disk₃.rename (tmpLinkPlace root l) (linkPlace root l)) := by
        refine (h₃.step (kept_update (ownFile_link fun n hn => ?_))).step
          (kept_update (ownFile_tmpLink fun n hn => by cases hn))
        exact ⟨target, Option.some.inj (hn.symm.trans htmp₃)⟩
      exact ⟨hkept, hkept⟩
    · exact ⟨h₃, h₃⟩

/-- The state is brought up to date. -/
theorem wpc_updateState_keeps {f : PyVal → String → Except PyErr PyVal}
    (h : KeptOutside root zones disk₀ disk) :
    wpc (diskWorld root sha256 pointer) (KeptOutside root zones disk₀) (updateState f)
      (fun _ disk' => KeptOutside root zones disk₀ disk') disk := by
  refine wpc_seq (wpc_asks (only_readState trivial trivial) h) ?_ fun e disk' _ h' => h' ▸ h
  rintro state disk - rfl
  refine wpc_seq (wpc_asks (Proc.along_perform trivial) h) ?_ fun e disk' _ h' => h' ▸ h
  rintro now disk - rfl
  refine wpc_seq (R := fun _ disk' => disk' = disk) ((wpc_ofExcept _ _ _).mpr ⟨h, rfl⟩) ?_
    fun e disk' _ h' => h' ▸ h
  rintro state' disk - rfl
  exact wpc_writeState_keeps h

/-- Calls that ask what lies outside of the disk. -/
def outward : ArtifactCall → Prop
  | .getText _ => True
  | .utcNow => True
  | _ => False

/-- A procedure of outward calls ends on the disk as it does with plain names. -/
theorem wpc_outward {α : Type} {p : Proc ArtifactI Exc α} {Q : Except Exc α → Prop}
    {r₀ : ArtifactRoot} (hp : p.Only outward)
    (h : wp (faultyWorld sha256 pointer) p (fun r _ => Q r) r₀) (hC : C disk) :
    wpc (diskWorld root sha256 pointer) C p (fun r disk' => disk' = disk ∧ Q r) disk := by
  induction p with
  | ret a => exact ⟨hC, rfl, h.2⟩
  | raise e => exact ⟨hC, rfl, h.2⟩
  | call op next ih =>
      refine ⟨hC, fun r disk' step => ?_⟩
      cases op with
      | getText key =>
          obtain ⟨rfl, rfl⟩ := diskWorld_does rfl step
          refine ih r (hp.2 r trivial) (h.2 r r₀ (Or.inl fun _ => ?_))
          exact ⟨⟨r, fun _ => .ok [], "", sha256⟩, rfl, rfl, rfl⟩
      | utcNow =>
          obtain ⟨⟨now, rfl⟩, rfl⟩ := diskWorld_does rfl step
          refine ih _ (hp.2 _ trivial) (h.2 _ r₀ (Or.inl fun _ => ?_))
          exact ⟨⟨pointer, fun _ => .ok [], now, sha256⟩, rfl, rfl, rfl⟩
      | _ => exact hp.1.elim

theorem only_fetchManifest_outward : d.fetchManifest.Only outward := by
  refine Proc.Along.bind (Proc.along_perform trivial) fun text => Proc.Along.bind ?_ fun found => ?_
  · match text with
    | none => exact trivial
    | some .null => exact trivial
    | some (.bool _) => exact trivial
    | some (.int _) => exact trivial
    | some (.float _) => exact trivial
    | some (.str _) => exact trivial
    | some (.list _) => exact trivial
    | some (.dict d) =>
        unfold parseWithdrawal
        dsimp only
        generalize statusOf d = status
        split_ifs
        · exact trivial
        · refine Proc.Along.bind ?_ fun _ => trivial
          unfold orNow
          split_ifs
          · exact trivial
          · exact Proc.along_perform trivial
  · cases found with
    | some w => exact trivial
    | none => exact (Proc.along_ofExcept _).bind fun _ => trivial

theorem wpc_fetchManifest_ends (hC : C disk) :
    wpc (diskWorld root sha256 pointer) C d.fetchManifest
      (fun r disk' => disk' = disk ∧ FetchEnds pointer r) disk :=
  have hends : wp (faultyWorld sha256 pointer) d.fetchManifest (fun r _ => FetchEnds pointer r)
      ArtifactRoot.empty := wpc_post wp_fetchManifest fun _ _ _ h => h.2
  wpc_outward only_fetchManifest_outward hends hC

/-- The recorded active set of a state file that the downloader wrote. -/
theorem wpc_activeModelSetId_value (hC : C disk)
    (hstate : ∀ node, disk (statePlace root) = some node → ∃ text, node = .json text) :
    wpc (diskWorld root sha256 pointer) C activeModelSetId (fun r disk' => disk' = disk ∧
      ∀ v, r = .ok v → (disk.stateValue root).getAttrGet "active_model_set_id" = .ok v) disk := by
  refine wpc_seq (R := fun r disk' => disk' = disk ∧ ∀ v, r = .ok v → v = disk.stateValue root)
    ?_ ?_ fun e disk' _ h => ⟨h.1, fun v hv => by cases hv⟩
  · refine wpc_seq (R := fun r disk' => disk' = disk ∧
      r = .ok (disk (statePlace root)).isSome) ?_ ?_ ?_
    · apply wpc_of_perform hC
      intro r disk' step
      obtain ⟨rfl, rfl⟩ := diskWorld_does rfl step
      exact ⟨hC, rfl, rfl⟩
    · rintro isThere disk₁ - ⟨rfl, hthere⟩
      obtain rfl := Except.ok.inj hthere
      cases hnode : disk₁ (statePlace root) with
      | none => exact ⟨hC, rfl, fun v hv => by rw [← Except.ok.inj hv, DiskTree.stateValue, hnode]⟩
      | some node =>
          obtain ⟨text, rfl⟩ := hstate node hnode
          refine wpc_seq (R := fun r disk' => disk' = disk₁ ∧ r = .ok (.ok (.text text))) ?_ ?_ ?_
          · rw [wpc_attempt]
            apply wpc_of_perform hC
            intro r disk' step
            obtain ⟨rfl, hread⟩ := diskWorld_does rfl step
            exact ⟨hC, rfl, congrArg _ (hread text hnode)⟩
          · rintro _ disk₂ - ⟨rfl, ⟨⟩⟩
            cases text with
            | none =>
                exact ⟨hC, rfl, fun v hv => by
                  rw [← Except.ok.inj hv, DiskTree.stateValue, hnode]⟩
            | some state =>
                exact ⟨hC, rfl, fun v hv => by
                  rw [← Except.ok.inj hv, DiskTree.stateValue, hnode]⟩
          · rintro e disk' - ⟨-, he⟩
            cases he
    · rintro e disk' - ⟨-, he⟩
      cases he
  · rintro state disk₁ - ⟨rfl, hvalue⟩
    obtain rfl := hvalue state rfl
    refine (wpc_ofExcept _ _ _).mpr ⟨hC, rfl, fun v hv => ?_⟩
    cases hget : (disk₁.stateValue root).getAttrGet "active_model_set_id" with
    | ok v' =>
        rw [hget] at hv
        exact congrArg Except.ok (Except.ok.inj hv)
    | error e =>
        rw [hget] at hv
        cases hv

end ModelDownloader

end System2
