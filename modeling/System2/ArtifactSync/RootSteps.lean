import System2.ArtifactSync.Downloader

/-!
# What the downloader's steps do to the root

The sets, the links and the state file are what others see of the root. Most calls
touch neither; the rest of the downloader is put together from three steps that do:
a link is replaced, the state file is replaced, a verified set takes its place.
-/

namespace System2
open Foundation

namespace ArtifactRoot

/-- The two roots look the same to others. -/
structure Same (root root' : ArtifactRoot) : Prop where
  sets : root'.sets = root.sets
  link : root'.link = root.link
  state : root'.state = root.state

theorem Same.refl (root : ArtifactRoot) : Same root root := ⟨rfl, rfl, rfl⟩

theorem Same.trans {a b c : ArtifactRoot} (hab : Same a b) (hbc : Same b c) : Same a c :=
  ⟨hbc.sets.trans hab.sets, hbc.link.trans hab.link, hbc.state.trans hab.state⟩

/-- One link leads elsewhere, and nothing else looks different. -/
structure Relinked (root : ArtifactRoot) (l : RootLink) (target : Option String)
    (root' : ArtifactRoot) : Prop where
  sets : root'.sets = root.sets
  link : root'.link = Function.update root.link l target
  state : root'.state = root.state

theorem Same.relinked {a b c : ArtifactRoot} {l : RootLink} {target : Option String}
    (hab : Same a b) (hbc : Relinked b l target c) : Relinked a l target c :=
  ⟨hbc.sets.trans hab.sets, by rw [hbc.link, hab.link], hbc.state.trans hab.state⟩

theorem Relinked.same {a b c : ArtifactRoot} {l : RootLink} {target : Option String}
    (hab : Relinked a l target b) (hbc : Same b c) : Relinked a l target c :=
  ⟨hbc.sets.trans hab.sets, hbc.link.trans hab.link, hbc.state.trans hab.state⟩

theorem Relinked.relinked {a b c : ArtifactRoot} {l : RootLink} {target target' : Option String}
    (hab : Relinked a l target b) (hbc : Relinked b l target' c) : Relinked a l target' c :=
  ⟨hbc.sets.trans hab.sets, by rw [hbc.link, hab.link, Function.update_idem],
    hbc.state.trans hab.state⟩

/-- A link that leads elsewhere leads to what the others lead to, or to its new target. -/
theorem Relinked.target_of {a b : ArtifactRoot} {l l' : RootLink} {target : Option String}
    {set : String} (h : Relinked a l target b) (hset : b.link l' = some set) :
    target = some set ∨ a.link l' = some set := by
  rw [h.link] at hset
  by_cases hlink : l' = l
  · rw [hlink, Function.update_self] at hset
    exact Or.inl hset
  · rw [Function.update_of_ne hlink] at hset
    exact Or.inr hset

/-- The state file says something else, and nothing else looks different. -/
structure Restated (root : ArtifactRoot) (state : PyVal) (root' : ArtifactRoot) : Prop where
  sets : root'.sets = root.sets
  link : root'.link = root.link
  state : root'.state = some (.text (some state))

/-- Only the directory of one set may look different. -/
structure SameBut (root : ArtifactRoot) (set : String) (root' : ArtifactRoot) : Prop where
  sets : ∀ set', set' ≠ set → root'.sets set' = root.sets set'
  link : root'.link = root.link
  state : root'.state = root.state

theorem SameBut.refl (root : ArtifactRoot) (set : String) : SameBut root set root :=
  ⟨fun _ _ => rfl, rfl, rfl⟩

theorem SameBut.trans {a b c : ArtifactRoot} {set : String} (hab : SameBut a set b)
    (hbc : SameBut b set c) : SameBut a set c :=
  ⟨fun set' hne => (hbc.sets set' hne).trans (hab.sets set' hne), hbc.link.trans hab.link,
    hbc.state.trans hab.state⟩

theorem sameBut_setSet (root : ArtifactRoot) (set : String) (dir : Option SetDir) :
    SameBut root set (root.setSet set dir) :=
  ⟨fun _ hne => Function.update_of_ne hne _ _, rfl, rfl⟩

theorem Same.sameBut {root root' : ArtifactRoot} (h : Same root root') (set : String) :
    SameBut root set root' := ⟨fun _ _ => by rw [h.sets], h.link, h.state⟩

end ArtifactRoot

open ArtifactRoot

/-! ### What the state file keeps -/

/-- The state is an object whose active set, if it is a text, has a property. -/
def Records (P : String → Prop) (state : PyVal) : Prop :=
  ∃ d : Dict, state = .dict d ∧ ∀ set, Dict.get d "active_model_set_id" = .str set → P set

section Records

variable {P : String → Prop} {state state' : PyVal} {now : String}

theorem Records.mono {P' : String → Prop} (h : Records P state) (hP : ∀ set, P set → P' set) :
    Records P' state := by
  obtain ⟨d, hd, hset⟩ := h
  exact ⟨d, hd, fun set h => hP set (hset set h)⟩

theorem Records.read {v : PyVal} (h : Records P state)
    (hv : state.getAttrGet "active_model_set_id" = .ok v) : ∀ set, v = .str set → P set := by
  obtain ⟨d, rfl, hset⟩ := h
  rintro set rfl
  exact hset set (Except.ok.inj hv)

theorem Records.ne_of_read {v : PyVal} {set : String} (h : Records P state)
    (hv : state.getAttrGet "active_model_set_id" = .ok v) (hne : v ≠ .str set) :
    Records (· ≠ set) state := by
  obtain ⟨d, rfl, -⟩ := h
  refine ⟨d, rfl, ?_⟩
  rintro _ hset rfl
  exact hne ((Except.ok.inj hv).symm.trans hset)

theorem Records.polled (hrec : Records P state) (h : polledState state now = .ok state') :
    Records P state' := by
  obtain ⟨d, rfl, hset⟩ := hrec
  cases h
  refine ⟨_, rfl, fun set h => hset set ?_⟩
  rwa [Dict.get_set_of_ne (by decide)] at h

theorem Records.failed {e : Exc} (hrec : Records P state)
    (h : failedState e state now = .ok state') : Records P state' := by
  obtain ⟨d, rfl, hset⟩ := hrec
  cases h
  refine ⟨_, rfl, fun set h => hset set ?_⟩
  rwa [Dict.get_set_of_ne (by decide), Dict.get_set_of_ne (by decide)] at h

theorem Records.withdrawn {w : Withdrawn} (hrec : Records P state)
    (h : withdrawnState w state now = .ok state') : Records P state' := by
  obtain ⟨d, rfl, hset⟩ := hrec
  cases h
  refine ⟨_, rfl, fun set h => hset set ?_⟩
  rwa [Dict.get_set_of_ne (by decide), Dict.get_set_of_ne (by decide),
    Dict.get_set_of_ne (by decide), Dict.get_set_of_ne (by decide),
    Dict.get_set_of_ne (by decide), Dict.get_set_of_ne (by decide)] at h

theorem Records.rolledBack {target : String} (hrec : Records P state) (htarget : P target)
    (h : rolledBackState target state now = .ok state') : Records P state' := by
  obtain ⟨d, rfl, -⟩ := hrec
  cases h
  refine ⟨_, rfl, fun set h => ?_⟩
  rw [Dict.get_set_of_ne (by decide), Dict.get_set_self] at h
  exact PyVal.str.inj h ▸ htarget

theorem records_activated {manifest : Manifest} {prevActive : PyVal} {polledAt swappedAt : String}
    (h : P manifest.modelSetId) :
    Records P (activatedState manifest prevActive polledAt swappedAt) := by
  refine ⟨_, rfl, fun set hset => ?_⟩
  have hset : PyVal.str manifest.modelSetId = .str set := hset
  exact PyVal.str.inj hset ▸ h

end Records

/-! ### Calls -/

/-- Calls that leave the sets, the links and the state file alone. -/
def ArtifactCall.quiet : ArtifactCall → Prop
  | .removeSet _ => False
  | .moveStage _ => False
  | .unlink _ => False
  | .replaceLink _ => False
  | .replaceState => False
  | _ => True

/-- Every name in the call is one part of a path. -/
def ArtifactCall.plain (op : ArtifactCall) : Prop := ∀ name ∈ op.names, isPlain name = true

/-- Does the pointer say that the set is withdrawn? -/
def isWithdrawal : JsonText → Bool
  | some (.dict d) =>
      !(ModelDownloader.statusOf d = "" ∨ ModelDownloader.statusOf d = "published" ∨
        ModelDownloader.statusOf d = "active")
  | _ => false

/-- The manifest that a pointer publishes. -/
def publishedManifest : Except Exc JsonText → Option Manifest
  | .ok text => if isWithdrawal text then none else (Manifest.parse text).toOption
  | .error _ => none

theorem not_withdrawal_of_published {text : JsonText} {manifest : Manifest}
    (h : publishedManifest (.ok text) = some manifest) : isWithdrawal text = false := by
  simp only [publishedManifest] at h
  split_ifs at h with hwithdrawal
  simpa using hwithdrawal

/-- The set id and the artifact names are parts of paths. -/
def Manifest.plain (manifest : Manifest) : Prop :=
  isPlain manifest.modelSetId = true ∧
    ∀ art ∈ manifest.artifacts, ∀ name, art.name = .str name → isPlain name = true

instance (manifest : Manifest) : Decidable manifest.plain :=
  decidable_of_iff (isPlain manifest.modelSetId = true ∧ ∀ art ∈ manifest.artifacts,
      (match art.name with | .str name => isPlain name | _ => true) = true) <| by
    refine and_congr_right fun _ => forall₂_congr fun art _ => ?_
    cases art.name with
    | str name => simp
    | _ => simp

variable {sha256 : List UInt8 → String} {pointer : Except Exc JsonText}

theorem ArtifactCall.run_quiet {op : ArtifactCall} (hop : op.quiet) (s : Storage)
    (root : ArtifactRoot) : Same root (op.run s root).2 := by
  cases op with
  | removeSet set => exact absurd hop id
  | moveStage set => exact absurd hop id
  | unlink l => exact absurd hop id
  | replaceLink l => exact absurd hop id
  | replaceState => exact absurd hop id
  | download path set name =>
      dsimp only [run]
      split
      · exact ⟨rfl, rfl, rfl⟩
      · exact ⟨rfl, rfl, rfl⟩
  | sha256File set name =>
      dsimp only [run]
      split
      · exact ⟨rfl, rfl, rfl⟩
      · exact ⟨rfl, rfl, rfl⟩
  | makeStage set =>
      dsimp only [run]
      split_ifs
      · exact ⟨rfl, rfl, rfl⟩
      · exact ⟨rfl, rfl, rfl⟩
  | symlinkTmp l set =>
      dsimp only [run]
      split_ifs
      · exact ⟨rfl, rfl, rfl⟩
      · exact ⟨rfl, rfl, rfl⟩
  | resolveName l =>
      dsimp only [run]
      split
      · exact ⟨rfl, rfl, rfl⟩
      · exact ⟨rfl, rfl, rfl⟩
  | readState =>
      dsimp only [run]
      split
      · exact ⟨rfl, rfl, rfl⟩
      · exact ⟨rfl, rfl, rfl⟩
  | _ => exact ⟨rfl, rfl, rfl⟩

theorem ArtifactCall.damages_quiet {op : ArtifactCall} {root root' : ArtifactRoot} (hop : op.quiet)
    (h : op.damages root root') : Same root root' := by
  cases op with
  | removeSet set => exact absurd hop id
  | removeStage set => exact h.elim fun _ h => h ▸ ⟨rfl, rfl, rfl⟩
  | clearStage set => exact h.elim fun _ h => h ▸ ⟨rfl, rfl, rfl⟩
  | makeStage set => exact h.elim fun _ h => h ▸ ⟨rfl, rfl, rfl⟩
  | writeStateTmp state => exact h.elim fun _ h => h ▸ ⟨rfl, rfl, rfl⟩
  | getText key => exact h.elim
  | utcNow => exact h.elim
  | readState => exact h.elim
  | _ => exact h ▸ .refl root

/-- A call with plain names that is no move does what it is said to do, or it fails. -/
theorem faultyWorld_step {root root' : ArtifactRoot} {op : ArtifactCall} {r : Except Exc op.Ans}
    (step : faultyWorld sha256 pointer root op r root') (hop : op.plain)
    (hmove : ∀ set, op = .moveStage set → root.sets set = none) :
    (∃ s : Storage, s.pointer = pointer ∧ s.sha256 = sha256 ∧ (r, root') = op.run s root) ∨
      ((∃ e, r = .error e) ∧ op.damages root root') := by
  rcases step with hrun | ⟨-, herr, hdamage⟩
  · exact Or.inl (hrun ⟨hop, hmove⟩)
  · exact Or.inr ⟨herr, hdamage⟩

theorem faultyWorld_quiet {root root' : ArtifactRoot} {op : ArtifactCall} {r : Except Exc op.Ans}
    (step : faultyWorld sha256 pointer root op r root') (hop : op.quiet) (hplain : op.plain) :
    Same root root' := by
  have hmove : ∀ set, op = .moveStage set → root.sets set = none := by
    rintro set rfl
    exact absurd hop id
  rcases faultyWorld_step step hplain hmove with ⟨s, -, -, hrun⟩ | ⟨-, hdamage⟩
  · have hafter : root' = (op.run s root).2 := congrArg Prod.snd hrun
    exact hafter ▸ op.run_quiet hop s root
  · exact op.damages_quiet hop hdamage

theorem faultyWorld_isSymlink {root root' : ArtifactRoot} {l : RootLink} {r : Except Exc Bool}
    (step : faultyWorld sha256 pointer root (.isSymlink l) r root') : root' = root := by
  rcases faultyWorld_step step (fun name h => by cases h) (fun set h => by cases h) with
    ⟨s, -, -, hrun⟩ | ⟨-, hdamage⟩
  · exact (Prod.mk.inj hrun).2
  · exact hdamage

namespace ModelDownloader

theorem isQuiet {op : ArtifactCall} (hop : op.quiet) (hnames : op.names = []) :
    op.quiet ∧ op.plain := ⟨hop, fun name h => by rw [hnames] at h; cases h⟩

theorem only_orNow (v : PyVal) :
    (orNow v).Only fun op : ArtifactCall => op.quiet ∧ op.plain := by
  unfold orNow
  split_ifs
  · exact trivial
  · exact Proc.along_perform (isQuiet trivial rfl)

/-- Reading the pointer is quiet. -/
theorem only_fetchManifest {d : ModelDownloader} :
    d.fetchManifest.Only fun op : ArtifactCall => op.quiet ∧ op.plain := by
  have hget : (perform (.getText d.manifestKey)).Only fun op : ArtifactCall => op.quiet ∧ op.plain :=
    Proc.along_perform (isQuiet trivial rfl)
  have hparse : ∀ text, (parseWithdrawal text).Only fun op : ArtifactCall => op.quiet ∧ op.plain := by
    intro text
    match text with
    | none => exact trivial
    | some .null => exact trivial
    | some (.bool _) => exact trivial
    | some (.int _) => exact trivial
    | some (.float _) => exact trivial
    | some (.str _) => exact trivial
    | some (.list _) => exact trivial
    | some (.dict d) =>
        unfold parseWithdrawal
        dsimp only
        generalize statusOf d = status
        split_ifs
        · exact trivial
        · exact (only_orNow _).bind fun _ => trivial
  refine hget.bind fun text => (hparse text).bind fun found => ?_
  cases found with
  | some w => exact trivial
  | none => exact (Proc.along_ofExcept _).bind fun _ => trivial

/-- Downloading and verifying is quiet. -/
theorem only_downloadAndVerify {manifest : Manifest} (hplain : manifest.plain) :
    (downloadAndVerify manifest).Only fun op : ArtifactCall => op.quiet ∧ op.plain := by
  have hset : ∀ name ∈ [manifest.modelSetId], isPlain name = true := fun name h =>
    (List.mem_singleton.mp h).symm ▸ hplain.1
  have hverify : ∀ arts : List Artifact, (∀ art ∈ arts, ∀ name, art.name = .str name →
      isPlain name = true) → (verifyArtifacts manifest.modelSetId arts).Only
        fun op : ArtifactCall => op.quiet ∧ op.plain := by
    intro arts hnames
    induction arts with
    | nil => exact trivial
    | cons art rest ih =>
        have hrest := ih fun art' h => hnames art' (List.mem_cons_of_mem _ h)
        unfold verifyArtifacts
        cases hname : pathPart art.name with
        | error e => exact trivial
        | ok name =>
            have hplainName : ∀ part ∈ [manifest.modelSetId, name], isPlain part = true := by
              intro part hpart
              rcases List.mem_pair.mp hpart with rfl | rfl
              · exact hplain.1
              · refine hnames art List.mem_cons_self part ?_
                cases hart : art.name with
                | str s =>
                    rw [hart] at hname
                    cases hname
                    rfl
                | _ =>
                    rw [hart] at hname
                    cases hname
            refine (Proc.along_perform ⟨trivial, hplainName⟩).bind fun _ =>
              (Proc.along_perform ⟨trivial, hplainName⟩).bind fun actual => ?_
            split_ifs
            · exact trivial
            · exact hrest
  exact (Proc.along_perform ⟨trivial, hset⟩).bind fun staged =>
    (Proc.along_given (Proc.along_perform ⟨trivial, hset⟩)).bind fun _ =>
      (Proc.along_perform ⟨trivial, hset⟩).bind fun _ => hverify _ hplain.2

/-! ### The steps in a world of failing disks

`C` is what has to hold wherever the process may die. -/

section Steps

variable {world : World ArtifactI Exc ArtifactRoot} {C : ArtifactRoot → Prop}
  {root : ArtifactRoot} {d : ModelDownloader}

/-- A procedure of quiet calls changes nothing that others see. -/
theorem wpc_quiet {α : Type} {p : Proc ArtifactI Exc α}
    (hworld : ∀ w op r w', world w op r w' → faultyWorld sha256 pointer w op r w')
    (hp : p.Only fun op : ArtifactCall => op.quiet ∧ op.plain)
    (hC : ∀ root', Same root root' → C root') :
    wpc world C p (fun _ root' => Same root root') root := by
  have hstep : ∀ (op : ArtifactCall) w (r : Except Exc op.Ans) w', op.quiet ∧ op.plain →
      Same root w → world w op r w' → Same root w' := fun op w r w' hop hw step =>
    hw.trans (faultyWorld_quiet (hworld w op r w' step) hop.1 hop.2)
  exact wpc_mono (wpc_of_only hstep hp (.refl root)) hC fun _ _ _ h => h

/-- A call that replaces a link, or fails. -/
theorem wpc_replaceLink {l : RootLink} {set : String}
    (hworld : ∀ w op r w', world w op r w' → faultyWorld sha256 pointer w op r w')
    (htmp : root.tmpLink l = some set) (hC : C root)
    (hdone : ∀ root', Relinked root l (some set) root' → C root') :
    wpc world C (perform (.replaceLink l))
      (fun r root' => (Relinked root l (some set) root' ∧ r = .ok ()) ∨
        (Same root root' ∧ ∃ e, r = .error e)) root := by
  apply wpc_of_perform hC
  intro r root' step
  rcases faultyWorld_step (hworld _ _ _ _ step) (fun name h => by cases h)
    (fun set h => by cases h) with ⟨s, -, -, hrun⟩ | ⟨herr, hdamage⟩
  · simp only [ArtifactCall.run, htmp] at hrun
    obtain ⟨hr, rfl⟩ := Prod.mk.inj hrun
    have hlinked : Relinked root l (some set) ((root.setLink l (some set)).setTmpLink l none) :=
      ⟨rfl, rfl, rfl⟩
    exact ⟨hdone _ hlinked, Or.inl ⟨hlinked, hr⟩⟩
  · obtain rfl : root' = root := hdamage
    exact ⟨hC, Or.inr ⟨.refl _, herr⟩⟩

/-- The state file is replaced, or the write fails and it is not. -/
theorem wpc_writeState {state : PyVal}
    (hworld : ∀ w op r w', world w op r w' → faultyWorld sha256 pointer w op r w')
    (hC : ∀ root', Same root root' → C root') (hdone : ∀ root', Restated root state root' → C root') :
    wpc world C (writeState state)
      (fun r root' => (Restated root state root' ∧ r = .ok ()) ∨
        (Same root root' ∧ ∃ e, r = .error e)) root := by
  refine wpc_seq (R := fun r root' => Same root root' ∧
    (r.isOk = true → root'.stateTmp = some (.text (some state)))) ?_ ?_ ?_
  · apply wpc_of_perform (hC _ (.refl root))
    intro r root' step
    have hsame := faultyWorld_quiet (hworld _ _ _ _ step) trivial fun name h => by cases h
    refine ⟨hC _ hsame, hsame, fun hok => ?_⟩
    rcases faultyWorld_step (hworld _ _ _ _ step) (fun name h => by cases h)
      (fun set h => by cases h) with ⟨s, -, -, hrun⟩ | ⟨⟨e, rfl⟩, -⟩
    · obtain ⟨-, rfl⟩ := Prod.mk.inj hrun
      rfl
    · cases hok
  · rintro _ root₁ - ⟨hsame, htmp⟩
    apply wpc_of_perform (hC _ hsame)
    intro r root' step
    rcases faultyWorld_step (hworld _ _ _ _ step) (fun name h => by cases h)
      (fun set h => by cases h) with ⟨s, -, -, hrun⟩ | ⟨herr, hdamage⟩
    · simp only [ArtifactCall.run, htmp rfl] at hrun
      obtain ⟨hr, rfl⟩ := Prod.mk.inj hrun
      have hrestated : Restated root state
          { root₁ with state := some (.text (some state)), stateTmp := none } :=
        ⟨hsame.sets, hsame.link, rfl⟩
      exact ⟨hdone _ hrestated, Or.inl ⟨hrestated, hr⟩⟩
    · obtain rfl : root' = root₁ := hdamage
      exact ⟨hC _ hsame, Or.inr ⟨hsame, herr⟩⟩
  · exact fun e root' _ h => Or.inr ⟨h.1, e, rfl⟩

/-- The temporary link is put up, whatever was left there. -/
theorem wpc_symlinkTmp {l : RootLink} {set : String}
    (hworld : ∀ w op r w', world w op r w' → faultyWorld sha256 pointer w op r w')
    (hplain : isPlain set = true) (hC : C root) (hC' : ∀ root', Same root root' → C root') :
    wpc world C (perform (.symlinkTmp l set))
      (fun r root' => Same root root' ∧ (r.isOk = true → root'.tmpLink l = some set)) root := by
  have hname : (ArtifactCall.symlinkTmp l set).plain := fun name h =>
    (List.mem_singleton.mp h).symm ▸ hplain
  apply wpc_of_perform hC
  intro r root' step
  have hsame := faultyWorld_quiet (hworld _ _ _ _ step) trivial hname
  refine ⟨hC' _ hsame, hsame, fun hok => ?_⟩
  rcases faultyWorld_step (hworld _ _ _ _ step) hname (fun set h => by cases h) with
    ⟨s, -, -, hrun⟩ | ⟨⟨e, rfl⟩, -⟩
  · simp only [ArtifactCall.run] at hrun
    split_ifs at hrun
    · obtain ⟨rfl, -⟩ := Prod.mk.inj hrun
      cases hok
    · obtain ⟨-, rfl⟩ := Prod.mk.inj hrun
      exact Function.update_self l (some set) root.tmpLink
  · cases hok

/-- On Windows the link itself is taken down first. -/
theorem wpc_unlinkFirst {l : RootLink} {set : String}
    (hworld : ∀ w op r w', world w op r w' → faultyWorld sha256 pointer w op r w')
    (htmp : root.tmpLink l = some set) (hC : C root)
    (hnt : d.isNt = true → ∀ root', Relinked root l none root' → C root') :
    wpc world C (Proc.given d.isNt ((perform (.isSymlink l)).bind fun isLink =>
        Proc.given isLink (perform (.unlink l))))
      (fun _ root' => root'.tmpLink l = some set ∧ (root' = root ∨ Relinked root l none root'))
      root := by
  refine wpc_given (fun hisNt => ?_) fun _ => ⟨hC, htmp, Or.inl rfl⟩
  refine wpc_seq (R := fun _ root' => root' = root) ?_ ?_ fun e root' _ h =>
    ⟨h.symm ▸ htmp, Or.inl h⟩
  · apply wpc_of_perform hC
    intro r root' step
    obtain rfl : root' = root := faultyWorld_isSymlink (hworld _ _ _ _ step)
    exact ⟨hC, rfl⟩
  · rintro isLink root₁ - rfl
    refine wpc_given (fun _ => ?_) fun _ => ⟨hC, htmp, Or.inl rfl⟩
    apply wpc_of_perform hC
    intro r root' step
    rcases faultyWorld_step (hworld _ _ _ _ step) (fun name h => by cases h)
      (fun set h => by cases h) with ⟨s, -, -, hrun⟩ | ⟨-, hdamage⟩
    · obtain ⟨-, rfl⟩ := Prod.mk.inj hrun
      have hunlinked : Relinked root₁ l none (root₁.setLink l none) := ⟨rfl, rfl, rfl⟩
      exact ⟨hnt hisNt _ hunlinked, htmp, Or.inr hunlinked⟩
    · obtain rfl : root' = root₁ := hdamage
      exact ⟨hC, htmp, Or.inl rfl⟩

/-- The state is read, and an empty one in the place of none. -/
theorem wpc_readState
    (hworld : ∀ w op r w', world w op r w' → faultyWorld sha256 pointer w op r w')
    (hC : ∀ root', Same root root' → C root') :
    wpc world C readState
      (fun r root' => Same root root' ∧ ∀ v, r = .ok v → v = root.stateValue) root := by
  refine wpc_seq (R := fun r root' => root' = root ∧ ∀ b, r = .ok b → b = root.state.isSome)
    ?_ ?_ fun e root' _ h => ⟨h.1 ▸ .refl root, fun v hv => by cases hv⟩
  · apply wpc_of_perform (hC _ (.refl root))
    intro r root' step
    rcases faultyWorld_step (hworld _ _ _ _ step) (fun name h => by cases h)
      (fun set h => by cases h) with ⟨s, -, -, hrun⟩ | ⟨⟨e, rfl⟩, hdamage⟩
    · obtain ⟨rfl, rfl⟩ := Prod.mk.inj hrun
      exact ⟨hC _ (.refl _), rfl, fun b h => (Except.ok.inj h).symm⟩
    · obtain rfl : root' = root := hdamage
      exact ⟨hC _ (.refl _), rfl, fun b h => by cases h⟩
  · rintro isThere root hC₁ ⟨rfl, hthere⟩
    have hthere := hthere isThere rfl
    cases hstate : root.state with
    | none =>
        obtain rfl : isThere = false := by rw [hthere, hstate]; rfl
        exact ⟨hC₁, .refl root, fun v hv => by rw [← Except.ok.inj hv, stateValue, hstate]⟩
    | some text =>
        obtain rfl : isThere = true := by rw [hthere, hstate]; rfl
        refine wpc_seq (R := fun r root' => root' = root ∧ r = .ok (.ok text)) ?_ ?_ ?_
        · rw [wpc_attempt]
          apply wpc_of_perform hC₁
          intro r root' step
          rcases faultyWorld_step (hworld _ _ _ _ step) (fun name h => by cases h)
            (fun set h => by cases h) with ⟨s, -, -, hrun⟩ | ⟨-, hdamage⟩
          · simp only [ArtifactCall.run, hstate] at hrun
            obtain ⟨rfl, rfl⟩ := Prod.mk.inj hrun
            exact ⟨hC₁, rfl, rfl⟩
          · exact hdamage.elim
        · rintro _ root - ⟨rfl, ⟨⟩⟩
          cases text with
          | garbled => exact ⟨hC₁, .refl _, fun v hv => by cases hv⟩
          | text decoded =>
              cases decoded with
              | none =>
                  exact ⟨hC₁, .refl _, fun v hv => by rw [← Except.ok.inj hv, stateValue, hstate]⟩
              | some state =>
                  exact ⟨hC₁, .refl _, fun v hv => by rw [← Except.ok.inj hv, stateValue, hstate]⟩
        · rintro e root' - ⟨-, he⟩
          cases he

/-- The recorded active set. -/
theorem wpc_activeModelSetId
    (hworld : ∀ w op r w', world w op r w' → faultyWorld sha256 pointer w op r w')
    (hC : ∀ root', Same root root' → C root') :
    wpc world C activeModelSetId (fun r root' => Same root root' ∧
      ∀ v, r = .ok v → root.stateValue.getAttrGet "active_model_set_id" = .ok v) root := by
  refine wpc_seq (wpc_readState hworld hC) ?_ fun e root₁ _ h => ⟨h.1, fun v hv => by cases hv⟩
  rintro state root₁ hC₁ ⟨h, hstate⟩
  obtain rfl := hstate state rfl
  refine (wpc_ofExcept _ _ _).mpr ⟨hC₁, h, fun v hv => ?_⟩
  cases hget : root.stateValue.getAttrGet "active_model_set_id" with
  | ok v' =>
      rw [hget] at hv
      exact congrArg Except.ok (Except.ok.inj hv)
  | error e =>
      rw [hget] at hv
      cases hv

/-- A link is replaced, or it stays, or on Windows a failure may leave none. -/
theorem wpc_atomicSymlink {l : RootLink} {set : String}
    (hworld : ∀ w op r w', world w op r w' → faultyWorld sha256 pointer w op r w')
    (hplain : isPlain set = true) (hC : ∀ root', Same root root' → C root')
    (hnt : d.isNt = true → ∀ root', Relinked root l none root' → C root')
    (hdone : ∀ root', Relinked root l (some set) root' → C root') :
    wpc world C (d.atomicSymlink l set)
      (fun r root' => (Relinked root l (some set) root' ∧ r = .ok ()) ∨
        ((Same root root' ∨ Relinked root l none root') ∧ ∃ e, r = .error e)) root := by
  have hquiet : ∀ {op : ArtifactCall} {root₁ : ArtifactRoot}, op.quiet → op.names = [] →
      Same root root₁ → wpc world C (perform op) (fun _ root' => Same root root') root₁ := by
    intro op root₁ hop hnames h
    refine wpc_post (wpc_quiet hworld (Proc.along_perform ⟨hop, fun name hname => ?_⟩)
      fun root' h' => hC _ (h.trans h')) fun _ _ _ h' => h.trans h'
    rw [hnames] at hname
    cases hname
  refine wpc_seq (hquiet trivial rfl (.refl root)) ?_ fun e root' _ h => Or.inr ⟨Or.inl h, e, rfl⟩
  intro leftOver root₁ _ h₁
  refine wpc_seq (R := fun _ root' => Same root root') ?_ ?_ fun e root' _ h =>
    Or.inr ⟨Or.inl h, e, rfl⟩
  · exact wpc_given (fun _ => hquiet trivial rfl h₁) fun _ => ⟨hC _ h₁, h₁⟩
  intro _ root₂ _ h₂
  refine wpc_seq (wpc_symlinkTmp hworld hplain (hC _ h₂) fun root' h => hC _ (h₂.trans h)) ?_
    fun e root' _ h => Or.inr ⟨Or.inl (h₂.trans h.1), e, rfl⟩
  rintro _ root₃ - ⟨h₃, htmp⟩
  have h₃ := h₂.trans h₃
  have hlinked : ∀ {root₄ : ArtifactRoot}, (root₄ = root₃ ∨ Relinked root₃ l none root₄) →
      Same root root₄ ∨ Relinked root l none root₄ := by
    rintro root₄ (rfl | h)
    · exact Or.inl h₃
    · exact Or.inr (h₃.relinked h)
  refine wpc_seq (wpc_unlinkFirst hworld (htmp rfl) (hC _ h₃) fun hisNt root' h =>
    hnt hisNt _ (h₃.relinked h)) ?_ fun e root' _ h => Or.inr ⟨hlinked h.2, e, rfl⟩
  rintro _ root₄ hC₄ ⟨htmp₄, h₄⟩
  refine wpc_post (wpc_replaceLink hworld htmp₄ hC₄ fun root' h => hdone _ ?_) ?_
  · rcases hlinked h₄ with h₄ | h₄
    · exact h₄.relinked h
    · exact h₄.relinked h
  · rintro r root' - (⟨h, hr⟩ | ⟨h, herr⟩)
    · rcases hlinked h₄ with h₄ | h₄
      · exact Or.inl ⟨h₄.relinked h, hr⟩
      · exact Or.inl ⟨h₄.relinked h, hr⟩
    · rcases hlinked h₄ with h₄ | h₄
      · exact Or.inr ⟨Or.inl (h₄.trans h), herr⟩
      · exact Or.inr ⟨Or.inr (h₄.same h), herr⟩

/-- The name that a link leads to. -/
theorem wpc_resolveName {l : RootLink}
    (hworld : ∀ w op r w', world w op r w' → faultyWorld sha256 pointer w op r w')
    (hC : ∀ root', Same root root' → C root') :
    wpc world C (perform (.resolveName l))
      (fun r root' => Same root root' ∧ ∀ set, r = .ok set → root.link l = some set) root := by
  apply wpc_of_perform (hC _ (.refl root))
  intro r root' step
  have hsame := faultyWorld_quiet (hworld _ _ _ _ step) trivial fun name h => by cases h
  refine ⟨hC _ hsame, hsame, ?_⟩
  rintro set rfl
  rcases faultyWorld_step (hworld _ _ _ _ step) (fun name h => by cases h)
    (fun set h => by cases h) with ⟨s, -, -, hrun⟩ | ⟨⟨e, herr⟩, -⟩
  · simp only [ArtifactCall.run] at hrun
    split at hrun
    · rename_i set' hset
      obtain ⟨hname, -⟩ := Prod.mk.inj hrun
      exact hset.trans (congrArg some (Except.ok.inj hname).symm)
    · obtain ⟨hname, -⟩ := Prod.mk.inj hrun
      cases hname
  · cases herr

/-- The state is brought up to date, or that fails and it stays. -/
theorem wpc_updateState {f : PyVal → String → Except PyErr PyVal}
    (hworld : ∀ w op r w', world w op r w' → faultyWorld sha256 pointer w op r w')
    (hC : ∀ root', Same root root' → C root')
    (hdone : ∀ now state, f root.stateValue now = .ok state →
      ∀ root', Restated root state root' → C root') :
    wpc world C (updateState f) (fun r root' =>
      (∃ now state, f root.stateValue now = .ok state ∧ Restated root state root' ∧ r = .ok ()) ∨
        (Same root root' ∧ ∃ e, r = .error e)) root := by
  refine wpc_seq (wpc_readState hworld hC) ?_ fun e root' _ h => Or.inr ⟨h.1, e, rfl⟩
  rintro state root₁ - ⟨h₁, hstate⟩
  obtain rfl := hstate state rfl
  refine wpc_seq (wpc_quiet hworld (Proc.along_perform ⟨trivial, fun name h => by cases h⟩)
    fun root' h => hC _ (h₁.trans h)) ?_ fun e root' _ h => Or.inr ⟨h₁.trans h, e, rfl⟩
  intro now root₂ hC₂ h₂
  have h₂ := h₁.trans h₂
  cases hnew : f root.stateValue now with
  | error e => exact ⟨hC₂, Or.inr ⟨h₂, _, rfl⟩⟩
  | ok state =>
      have hrestated : ∀ {root'}, Restated root₂ state root' → Restated root state root' :=
        fun h => ⟨h.sets.trans h₂.sets, h.link.trans h₂.link, h.state⟩
      refine wpc_post (wpc_writeState hworld (fun root' h => hC _ (h₂.trans h))
        fun root' h => hdone now state hnew _ (hrestated h)) ?_
      rintro r root' - (⟨h, hr⟩ | ⟨h, herr⟩)
      · exact Or.inl ⟨now, state, hnew, hrestated h, hr⟩
      · exact Or.inr ⟨h₂.trans h, herr⟩

/-- The verified directory is moved to its place. Its place was free, or is emptied first. -/
theorem wpc_placeSet {set : String}
    (hworld : ∀ w op r w', world w op r w' → faultyWorld sha256 pointer w op r w')
    (hplain : isPlain set = true) (hC : C root)
    (hfree : root.sets set = none → ∀ root', SameBut root set root' → C root')
    (hremove : ∀ r root₁, world root (.removeSet set) r root₁ →
      ∀ root', SameBut root set root' → C root') :
    wpc world C (placeSet set) (fun r root' => SameBut root set root' ∧
      (r.isOk = true → root'.sets set = root.staging set ∧ (root.staging set).isSome = true))
      root := by
  have hnames : ∀ name ∈ [set], isPlain name = true := fun name h =>
    (List.mem_singleton.mp h).symm ▸ hplain
  refine wpc_seq (R := fun r root' => root' = root ∧
    ∀ final, r = .ok final → final = (root.sets set).isSome) ?_ ?_ ?_
  · apply wpc_of_perform hC
    intro r root' step
    rcases faultyWorld_step (hworld _ _ _ _ step) hnames (fun set h => by cases h) with
      ⟨s, -, -, hrun⟩ | ⟨⟨e, rfl⟩, hdamage⟩
    · obtain ⟨rfl, rfl⟩ := Prod.mk.inj hrun
      exact ⟨hC, rfl, fun final h => (Except.ok.inj h).symm⟩
    · obtain rfl : root' = root := hdamage
      exact ⟨hC, rfl, fun final h => by cases h⟩
  · rintro final root - ⟨rfl, hfinal⟩
    have hfinal := hfinal final rfl
    refine wpc_seq (R := fun r root₁ => SameBut root set root₁ ∧ root₁.staging = root.staging ∧
      (r.isOk = true → root₁.sets set = none ∧ ∀ root', SameBut root set root' → C root')) ?_ ?_ ?_
    · refine wpc_given (fun _ => ?_) fun hnone => ?_
      · apply wpc_of_perform hC
        intro r root₁ step
        have hall := hremove r root₁ step
        rcases faultyWorld_step (hworld _ _ _ _ step) hnames (fun set h => by cases h) with
          ⟨s, -, -, hrun⟩ | ⟨⟨e, rfl⟩, dir, rfl⟩
        · obtain ⟨-, rfl⟩ := Prod.mk.inj hrun
          have hbut := sameBut_setSet root set none
          exact ⟨hall _ hbut, hbut, rfl, fun _ => ⟨by simp [setSet], hall⟩⟩
        · have hbut := sameBut_setSet root set dir
          exact ⟨hall _ hbut, hbut, rfl, fun hok => by cases hok⟩
      · have hfree' : root.sets set = none := by simpa [hnone] using hfinal.symm
        exact ⟨hC, .refl _ _, rfl, fun _ => ⟨hfree', hfree hfree'⟩⟩
    · rintro _ root₁ hC₁ ⟨h₁, hstaging, hok⟩
      obtain ⟨hnone, hall⟩ := hok rfl
      refine wpc_seq (R := fun r root' => SameBut root set root' ∧
        (r.isOk = true → root'.sets set = root.staging set ∧ (root.staging set).isSome = true))
        ?_ ?_ fun e root' _ h => ⟨h.1, fun hok => by cases hok⟩
      · apply wpc_of_perform hC₁
        intro r root' step
        rcases faultyWorld_step (hworld _ _ _ _ step) hnames
          (fun set' h => ArtifactCall.moveStage.inj h ▸ hnone) with
          ⟨s, -, -, hrun⟩ | ⟨⟨e, rfl⟩, hdamage⟩
        · simp only [ArtifactCall.run] at hrun
          split_ifs at hrun with hstaged
          · obtain ⟨-, rfl⟩ := Prod.mk.inj hrun
            have hbut : SameBut root set ((root₁.setSet set (root₁.staging set)).setStage set none) :=
              h₁.trans ((sameBut_setSet root₁ set (root₁.staging set)).trans
                ⟨fun _ _ => rfl, rfl, rfl⟩)
            refine ⟨hall _ hbut, hbut, fun _ => ⟨?_, hstaging ▸ hstaged⟩⟩
            rw [← hstaging]
            exact Function.update_self set (root₁.staging set) root₁.sets
          · obtain ⟨rfl, rfl⟩ := Prod.mk.inj hrun
            exact ⟨hC₁, h₁, fun hok => by cases hok⟩
        · obtain rfl : root' = root₁ := hdamage
          exact ⟨hC₁, h₁, fun hok => by cases hok⟩
      · rintro _ root₂ hC₂ ⟨h₂, hplaced⟩
        have hsync : wpc world C ((perform (.fsyncSet set)).attempt)
            (fun _ root' => Same root₂ root') root₂ :=
          wpc_quiet hworld (Proc.along_perform ⟨trivial, hnames⟩).attempt
            fun root' h => hall _ (h₂.trans (h.sameBut set))
        refine wpc_seq hsync (fun _ root' hC' h => ⟨hC', h₂.trans (h.sameBut set), fun _ => ?_⟩)
          fun e root' _ h => ⟨h₂.trans (h.sameBut set), fun hok => by cases hok⟩
        rw [h.sets]
        exact hplaced rfl
    · exact fun e root' _ h => ⟨h.1, fun hok => by cases hok⟩
  · exact fun e root' _ h => ⟨h.1 ▸ .refl _ _, fun hok => by cases hok⟩

end Steps

section Fetch

variable {root : ArtifactRoot} {d : ModelDownloader}

theorem wp_orNow (v : PyVal) : wp (faultyWorld sha256 pointer) (orNow v)
    (fun r root' => Same root root' ∧ r.isOk = true) root := by
  unfold orNow
  split_ifs
  · exact ⟨trivial, .refl root, rfl⟩
  · apply wpc_of_perform trivial
    intro r root' step
    refine ⟨trivial, ?_⟩
    rcases faultyWorld_step step (fun name h => by cases h) (fun set h => by cases h) with
      ⟨s, -, -, hrun⟩ | ⟨-, hdamage⟩
    · obtain ⟨rfl, rfl⟩ := Prod.mk.inj hrun
      exact ⟨.refl _, rfl⟩
    · exact hdamage.elim

/-- A withdrawal is recognised, and nothing else is taken for one. -/
theorem wp_parseWithdrawal (text : JsonText) :
    wp (faultyWorld sha256 pointer) (parseWithdrawal text)
      (fun r root' => Same root root' ∧ ∃ x, r = .ok x ∧ x.isSome = isWithdrawal text) root := by
  match text with
  | none => exact ⟨trivial, .refl root, none, rfl, rfl⟩
  | some .null => exact ⟨trivial, .refl root, none, rfl, rfl⟩
  | some (.bool _) => exact ⟨trivial, .refl root, none, rfl, rfl⟩
  | some (.int _) => exact ⟨trivial, .refl root, none, rfl, rfl⟩
  | some (.float _) => exact ⟨trivial, .refl root, none, rfl, rfl⟩
  | some (.str _) => exact ⟨trivial, .refl root, none, rfl, rfl⟩
  | some (.list _) => exact ⟨trivial, .refl root, none, rfl, rfl⟩
  | some (.dict d) =>
      unfold parseWithdrawal isWithdrawal
      dsimp only
      generalize statusOf d = status
      by_cases hstatus : status = "" ∨ status = "published" ∨ status = "active"
      · rw [if_pos hstatus]
        exact ⟨trivial, .refl root, none, rfl, by simp [hstatus]⟩
      · rw [if_neg hstatus]
        refine wpc_seq (wp_orNow _) ?_ ?_
        · rintro withdrawnAt root' - ⟨h, -⟩
          exact ⟨trivial, h, _, rfl, by simp [hstatus]⟩
        · rintro e root' - ⟨-, hok⟩
          cases hok

/-- What the pointer was taken for. -/
structure FetchEnds (pointer : Except Exc JsonText) (r : Except Exc Fetched) : Prop where
  withdrawn : ∀ w, r = .ok (.withdrawn w) → ∃ text, pointer = .ok text ∧ isWithdrawal text = true
  published : ∀ manifest, r = .ok (.published manifest) → publishedManifest pointer = some manifest
  failed : ∀ e, r = .error e → ∀ text, pointer = .ok text → isWithdrawal text = false
  unpublished : ∀ e, r = .error e → publishedManifest pointer = none

theorem wp_fetchManifest :
    wp (faultyWorld sha256 pointer) d.fetchManifest
      (fun r root' => Same root root' ∧ FetchEnds pointer r) root := by
  refine wpc_seq (R := fun r root' => root' = root ∧ r = pointer) ?_ ?_ ?_
  · apply wpc_of_perform trivial
    intro r root' step
    rcases faultyWorld_step step (fun name h => by cases h) (fun set h => by cases h) with
      ⟨s, hpointer, -, hrun⟩ | ⟨-, hdamage⟩
    · obtain ⟨rfl, rfl⟩ := Prod.mk.inj hrun
      exact ⟨trivial, rfl, hpointer⟩
    · exact hdamage.elim
  · rintro text root - ⟨rfl, hpointer⟩
    refine wpc_seq (wp_parseWithdrawal text) ?_ ?_
    · rintro x root' - ⟨hsame, x', hx, hsome⟩
      cases hx
      cases x with
      | some w =>
          refine ⟨trivial, hsame, ⟨fun _ _ => ⟨text, hpointer.symm, hsome.symm⟩, ?_, ?_, ?_⟩⟩
          · intro manifest h
            cases h
          · intro e h
            cases h
          · intro e h
            cases h
      | none =>
          refine wpc_seq (R := fun r root'' => root'' = root' ∧ r = Manifest.parse text) ?_ ?_ ?_
          · exact (wpc_ofExcept _ _ _).mpr ⟨trivial, rfl, rfl⟩
          · rintro manifest root'' - ⟨rfl, hparse⟩
            refine ⟨trivial, hsame, ⟨fun w h => (by cases h), ?_, fun e h => (by cases h),
              fun e h => (by cases h)⟩⟩
            rintro _ ⟨⟩
            rw [← hpointer, publishedManifest, ← hsome, ← hparse]
            rfl
          · rintro e root'' - ⟨rfl, hparse⟩
            refine ⟨hsame, ⟨fun w h => (by cases h), fun m h => (by cases h), ?_, fun _ _ => ?_⟩⟩
            · rintro _ _ text' rfl
              cases hpointer
              exact hsome.symm
            · rw [← hpointer, publishedManifest, ← hsome, ← hparse]
              rfl
    · rintro e root' - ⟨-, x, hx, -⟩
      cases hx
  · rintro e root' - ⟨rfl, hpointer⟩
    refine ⟨.refl _, ⟨fun w h => (by cases h), fun m h => (by cases h), ?_, fun _ _ => ?_⟩⟩
    · rintro _ _ text rfl
      cases hpointer
    · rw [← hpointer]
      rfl

end Fetch

/-! ### The parts of a poll, an activation and a rollback -/

section Parts

variable {world : World ArtifactI Exc ArtifactRoot} {C : ArtifactRoot → Prop}
  {Q : Except Exc Bool → ArtifactRoot → Prop} {root : ArtifactRoot} {d : ModelDownloader}
  {manifest : Manifest}

/-- The rule of a poll: the pointer was unreadable or a withdrawal, or it published the set that
the state records as the active one, or another set. -/
theorem wpc_pollOnce_parts
    (hworld : ∀ w op r w', world w op r w' → faultyWorld sha256 pointer w op r w')
    (hC : ∀ root', Same root root' → C root')
    (hraised : ∀ e root', Same root root' → Q (.error e) root')
    (hfailed : ∀ e root₁, Same root root₁ → C root₁ →
      (∀ text, pointer = .ok text → isWithdrawal text = false) →
      publishedManifest pointer = none → wpc world C (recordFailure e) Q root₁)
    (hwithdrawn : ∀ w text root₁, Same root root₁ → C root₁ → pointer = .ok text →
      isWithdrawal text = true → wpc world C (recordWithdrawal w) Q root₁)
    (hcurrent : ∀ manifest active root₁, Same root root₁ → C root₁ →
      publishedManifest pointer = some manifest →
      root₁.stateValue.getAttrGet "active_model_set_id" = .ok active →
      active.isStr manifest.modelSetId = true → wpc world C recordNoChange Q root₁)
    (hother : ∀ manifest active root₁, Same root root₁ → C root₁ →
      publishedManifest pointer = some manifest →
      root₁.stateValue.getAttrGet "active_model_set_id" = .ok active →
      ¬ active.isStr manifest.modelSetId = true → wpc world C (d.activate manifest) Q root₁) :
    wpc world C d.pollOnce Q root := by
  have hfetch := wpc_both (wpc_quiet hworld (only_fetchManifest (d := d)) hC)
    (wpc_of_world hworld (wp_fetchManifest (d := d)))
  refine wpc_seq_attempt (wpc_mono hfetch (fun _ h => h.1) fun _ _ _ h => h.2) ?_
  rintro fetched root₁ hC₁ ⟨hsame, hfetched⟩
  cases fetched with
  | error e => exact hfailed e root₁ hsame hC₁ (hfetched.failed e rfl) (hfetched.unpublished e rfl)
  | ok found =>
      cases found with
      | withdrawn w =>
          obtain ⟨text, hpointer, hwithdrawal⟩ := hfetched.withdrawn w rfl
          exact hwithdrawn w text root₁ hsame hC₁ hpointer hwithdrawal
      | published manifest =>
          have hpublished := hfetched.published manifest rfl
          refine wpc_seq (wpc_activeModelSetId hworld fun _ h => hC _ (hsame.trans h)) ?_ ?_
          · rintro active root₂ hC₂ ⟨hsame₂, hread⟩
            have hread₂ : root₂.stateValue.getAttrGet "active_model_set_id" = .ok active := by
              rw [stateValue, hsame₂.state]
              exact hread _ rfl
            split_ifs with hactive
            · exact hcurrent manifest active root₂ (hsame.trans hsame₂) hC₂ hpublished hread₂ hactive
            · exact hother manifest active root₂ (hsame.trans hsame₂) hC₂ hpublished hread₂ hactive
          · rintro e root₂ - ⟨hsame₂, -⟩
            exact hraised e root₂ (hsame.trans hsame₂)

/-- The rule of an activation: the download failed and was discarded, or it left behind what a
download leaves when it returns, and the set is promoted. -/
theorem wpc_activate_parts {S : ArtifactRoot → Prop}
    (hworld : ∀ w op r w', world w op r w' → faultyWorld sha256 pointer w op r w')
    (hplain : manifest.plain) (hC : ∀ root', Same root root' → C root')
    (hstaged : wp (faultyWorld sha256 pointer) (downloadAndVerify manifest)
      (fun r root' => r.isOk = true → S root') root)
    (hkept : ∀ r root', Same root root' → r ≠ .ok true → Q r root')
    (hpromote : ∀ root₁, Same root root₁ → C root₁ → S root₁ →
      wpc world C ((d.promote manifest).bind fun _ => .ret true) Q root₁) :
    wpc world C (d.activate manifest) Q root := by
  have hset : ∀ name ∈ [manifest.modelSetId], isPlain name = true := fun name h =>
    (List.mem_singleton.mp h).symm ▸ hplain.1
  have hdownload := wpc_both (wpc_quiet hworld (only_downloadAndVerify hplain) hC)
    (wpc_of_world hworld hstaged)
  refine wpc_seq_attempt (wpc_mono hdownload (fun _ h => h.1) fun _ _ _ h => h) ?_
  rintro result root₁ hC₁ ⟨hsame, hready⟩
  cases result with
  | error e =>
      refine wpc_seq (wpc_quiet hworld (Proc.along_perform ⟨trivial, hset⟩).attempt
        fun _ h => hC _ (hsame.trans h)) ?_ fun e root₂ _ h => hkept _ _ (hsame.trans h) ?_
      · exact fun _ root₂ hC₂ h => ⟨hC₂, hkept _ _ (hsame.trans h) (by simp)⟩
      · simp
  | ok _ => exact hpromote root₁ hsame hC₁ (hready rfl)

/-- The rule of a rollback: nothing was touched, or the active link is replaced by where
`last_good` leads, and the state follows. -/
theorem wpc_rollback_parts
    (hworld : ∀ w op r w', world w op r w' → faultyWorld sha256 pointer w op r w')
    (hC : ∀ root', Same root root' → C root')
    (hkept : ∀ r root', Same root root' → r ≠ .ok true → Q r root')
    (hswitch : ∀ target root₁, Same root root₁ → C root₁ → root.link .lastGood = some target →
      wpc world C ((d.atomicSymlink .active target).bind fun _ =>
        (updateState (rolledBackState target)).bind fun _ => .ret true) Q root₁) :
    wpc world C d.rollbackToLastGood Q root := by
  refine wpc_seq (wpc_quiet hworld (Proc.along_perform (isQuiet trivial rfl)) hC) ?_
    fun e root₁ _ h => hkept _ _ h (by simp)
  intro isThere root₁ hC₁ h₁
  split_ifs
  · exact ⟨hC₁, hkept _ _ h₁ (by simp)⟩
  refine wpc_seq (wpc_resolveName hworld fun _ h => hC _ (h₁.trans h)) ?_
    fun e root₂ _ h => hkept _ _ (h₁.trans h.1) (by simp)
  rintro target root₂ hC₂ ⟨h₂, htarget⟩
  exact hswitch target root₂ (h₁.trans h₂) hC₂ (h₁.link ▸ htarget target rfl)

end Parts

end ModelDownloader

end System2
