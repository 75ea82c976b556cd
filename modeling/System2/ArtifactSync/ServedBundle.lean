import System2.ArtifactSync.ArtifactHost

/-!
# The bundle in memory and the bundle on disk

While the links are swapped and the detector loads, a load that reads the links ends with
the bundle that they lead to. A load that keeps what is in memory does so because the set id
on disk is none, or has not changed since the last look. When the set of that id has a usable
bundle, the last look has read it, and it is the one on disk. Otherwise the bundle in memory is
that of another set, and the links lead to it only if `last_good` does.

## Implementation notes

The sets do not change here; a swap changes where links lead. Which set the bundle in memory
was read from is in `bundleSetId`.
-/

namespace System2
open Foundation

namespace LiveRegimeDetector

/-- A load that has returned or raised: the root it met, and the detector around it. -/
structure Load where
  root : ArtifactRoot
  force : Bool
  before : LiveRegimeDetector
  out : Except Exc Bool
  after : LiveRegimeDetector

/-- Swaps of links and loads, without a withdrawal on record. -/
inductive Swaps (c : RegimeSettings) (root : ArtifactRoot) :
    List Load → ArtifactRoot → LiveRegimeDetector → Prop
  | fresh : Swaps c root [] root .fresh
  | swap {ls root' det} (run : Swaps c root ls root' det) (link : RootLink → Option String) :
      Swaps c root ls { root' with link := link } det
  | load {ls root' det readable force} (run : Swaps c root ls root' det)
      (hstate : withdrawal readable root' = .ok none) :
      Swaps c root (ls ++ [⟨root', force, det, (loadBundle c readable root' det force).1,
        (loadBundle c readable root' det force).2⟩]) root' (loadBundle c readable root' det force).2

/-- The set of a name, when it has a usable bundle. -/
def bundleIn (c : RegimeSettings) (root : ArtifactRoot) (set : String) : Option Bundle := do
  let bytes ← (root.sets set).bind fun dir => artifactCandidates.firstM dir
  let bundle ← (c.unpickle bytes).toOption
  if bundle.usable then some bundle else none

/-- The set that the links lead to: that of `active`, or of `last_good` when the bundle of
`active` cannot be loaded. -/
def servedSet (c : RegimeSettings) (root : ArtifactRoot) : Option String :=
  (walk c root).bind fun x => root.link x.1

/-- Where the last load that read a bundle found it. -/
def lastRead (c : RegimeSettings) (ls : List Load) : Option String :=
  ls.foldl (fun last l =>
    if l.before.keepsCached l.root l.force then last else servedSet c l.root <|> last) none

@[simp] theorem lastRead_concat (c : RegimeSettings) (ls : List Load) (l : Load) :
    lastRead c (ls ++ [l]) =
      if l.before.keepsCached l.root l.force then lastRead c ls
      else servedSet c l.root <|> lastRead c ls := by
  simp [lastRead]

/-- The bundle in memory is the one that the links lead to, and was read from its set. -/
def Serves (c : RegimeSettings) (l : Load) : Prop :=
  ∃ source bundle, walk c l.root = some (source, bundle) ∧ l.after.bundle = some bundle ∧
    l.after.bundleSetId = l.root.link source

variable {c : RegimeSettings} {root root' : ArtifactRoot} {det : LiveRegimeDetector}
  {ls : List Load}

/-- A link is read through the set that it leads to. -/
theorem readBundle_eq (l : RootLink) :
    readBundle c root l = (root.link l).bind (bundleIn c root) := by
  unfold readBundle findArtifact bundleIn
  cases root.link l with
  | none => rfl
  | some set => rfl

/-- What the walk finds is the bundle of the set behind one of the links. -/
theorem walk_some {source : RootLink} {bundle : Bundle} (h : walk c root = some (source, bundle)) :
    ∃ set, root.link source = some set ∧ bundleIn c root set = some bundle := by
  have hread : readBundle c root source = some bundle := by
    unfold walk at h
    cases hactive : readBundle c root .active with
    | some b =>
        rw [hactive] at h
        cases h
        exact hactive
    | none =>
        simp only [hactive, Option.map_eq_some_iff, Prod.mk.injEq] at h
        obtain ⟨b, hb, rfl, rfl⟩ := h
        exact hb
  rw [readBundle_eq] at hread
  exact Option.bind_eq_some_iff.mp hread

/-- Does a set have a usable bundle? -/
def Usable (c : RegimeSettings) (root : ArtifactRoot) (set : String) : Prop :=
  (bundleIn c root set).isSome = true

/-- A set with a usable bundle is there. -/
theorem Usable.linkExists {l : RootLink} {set : String} (h : Usable c root set)
    (hlink : root.link l = some set) : root.linkExists l = true := by
  rw [ArtifactRoot.linkExists, hlink, Option.any_some]
  unfold Usable bundleIn at h
  cases hdir : root.sets set with
  | none => simp [hdir] at h
  | some dir => rfl

/-- A usable bundle of `active` is served, and its set is the id on disk. -/
theorem Usable.active {set : String} (h : Usable c root set) (hlink : root.link .active = some set) :
    servedSet c root = some set ∧ onDiskSetId root = some set := by
  obtain ⟨bundle, hin⟩ := Option.isSome_iff_exists.mp h
  have hread : readBundle c root .active = some bundle := by
    rw [readBundle_eq, hlink]
    exact hin
  constructor
  · rw [servedSet, walk, hread]
    exact hlink
  · rw [onDiskSetId, h.linkExists hlink, if_pos rfl, hlink]

/-- Without one, a usable bundle of `last_good` is served. -/
theorem Usable.lastGood {set : String} (h : Usable c root set)
    (hlink : root.link .lastGood = some set)
    (hactive : ∀ other, root.link .active = some other → ¬ Usable c root other) :
    servedSet c root = some set := by
  obtain ⟨bundle, hin⟩ := Option.isSome_iff_exists.mp h
  have hread : readBundle c root .lastGood = some bundle := by
    rw [readBundle_eq, hlink]
    exact hin
  have hnone : readBundle c root .active = none := by
    rw [readBundle_eq]
    cases hother : root.link .active with
    | none => rfl
    | some other => simpa [Usable] using hactive other hother
  rw [servedSet, walk, hnone, hread]
  exact hlink

/-- A usable bundle of the id on disk is served. -/
theorem Usable.onDisk {set : String} (h : Usable c root set)
    (hdisk : onDiskSetId root = some set) : servedSet c root = some set := by
  unfold onDiskSetId at hdisk
  split_ifs at hdisk with hactive hgood
  · exact (h.active hdisk).1
  · refine h.lastGood hdisk fun other hlink hother => ?_
    exact hactive (hother.linkExists hlink)

/-- What is served is a usable bundle of one of the links. -/
theorem usable_of_servedSet {set : String} (h : servedSet c root = some set) :
    Usable c root set ∧ (onDiskSetId root = some set ∨ root.link .lastGood = some set) := by
  obtain ⟨⟨source, bundle⟩, hwalk, hlink⟩ := Option.bind_eq_some_iff.mp h
  obtain ⟨set', hset', hin⟩ := walk_some hwalk
  obtain rfl := Option.some.inj (hlink.symm.trans hset')
  have husable : Usable c root set := by
    rw [Usable, hin]
    rfl
  cases source with
  | active => exact ⟨husable, Or.inl (husable.active hlink).2⟩
  | lastGood => exact ⟨husable, Or.inr hlink⟩

/-- The detector remembers where its bundle is from, the bundle is what is there, and the id that
it has seen is that of the same set, unless that set has no usable bundle. -/
structure Remembers (c : RegimeSettings) (root : ArtifactRoot) (last : Option String)
    (det : LiveRegimeDetector) : Prop where
  from_set : det.bundleSetId = last
  bundle : det.bundle = last.bind (bundleIn c root)
  kept : last.isSome = true → det.bundle.isSome = true
  seen : ∀ set, det.seenSetId = some set → Usable c root set → last = some set

theorem Remembers.load {last : Option String} (h : Remembers c root last det)
    {readable force : Bool} (hstate : withdrawal readable root = .ok none) :
    Remembers c root
      (if det.keepsCached root force then last else servedSet c root <|> last)
      (loadBundle c readable root det force).2 := by
  have hends := loadBundle_ends c readable root det force
  have hsees : ∀ set, onDiskSetId root = some set → Usable c root set →
      (servedSet c root <|> last) = some set := by
    intro set hdisk husable
    rw [husable.onDisk hdisk]
    rfl
  generalize loadBundle c readable root det force = r at hends ⊢
  cases hends with
  | kept hcached =>
      rw [if_pos hcached]
      exact h
  | raised hlook hraised => cases hstate.symm.trans hraised
  | refused hlook hrefused => cases hstate.symm.trans hrefused
  | missing hlook _ hwalk =>
      have hnone : (servedSet c root <|> last) = last := by
        rw [servedSet, hwalk]
        rfl
      rw [if_neg (by simp [hlook])]
      rw [hnone] at hsees ⊢
      exact ⟨h.from_set, h.bundle, h.kept, hsees⟩
  | @found source bundle hlook _ hwalk =>
      obtain ⟨set, hlink, hin⟩ := walk_some hwalk
      have hserved : servedSet c root = some set := by
        rw [servedSet, hwalk]
        exact hlink
      rw [if_neg (by simp [hlook])]
      refine ⟨?_, ?_, fun _ => rfl, hsees⟩
      · rw [hserved]
        exact hlink
      · rw [hserved]
        exact hin.symm

/-- Throughout a run the detector remembers its last successful look, and so it did before each
of the loads. -/
theorem Swaps.remembers (run : Swaps c root ls root' det) :
    Remembers c root' (lastRead c ls) det ∧
      ∀ ls₁ l ls₂, ls = ls₁ ++ l :: ls₂ → Remembers c l.root (lastRead c ls₁) l.before ∧
        ∃ readable, withdrawal readable l.root = .ok none ∧
          (l.out, l.after) = loadBundle c readable l.root l.before l.force := by
  induction run with
  | fresh =>
      exact ⟨⟨rfl, rfl, fun h => (by cases h), fun set h => (by cases h)⟩,
        fun ls₁ l ls₂ heq => by simp at heq⟩
  | swap run link ih => exact ⟨⟨ih.1.from_set, ih.1.bundle, ih.1.kept, ih.1.seen⟩, ih.2⟩
  | @load ls root' det readable force run hstate ih =>
      refine ⟨?_, fun ls₁ l ls₂ heq => ?_⟩
      · rw [lastRead_concat]
        exact ih.1.load hstate
      · rcases List.eq_nil_or_concat ls₂ with rfl | ⟨ls₃, last, rfl⟩
        · obtain ⟨rfl, rfl⟩ : ls = ls₁ ∧ _ = l := by simpa using List.append_inj' heq rfl
          exact ⟨ih.1, readable, hstate, rfl⟩
        · rw [List.concat_eq_append, ← List.cons_append, ← List.append_assoc] at heq
          exact ih.2 ls₁ l ls₃ (List.append_inj' heq rfl).1

/-- A detector serves what the links lead to exactly when that is where its bundle is from. -/
theorem Remembers.serves_iff {last : Option String} (h : Remembers c root last det)
    (hbundle : det.bundle.isSome = true) :
    (∃ source bundle, walk c root = some (source, bundle) ∧ det.bundle = some bundle ∧
      det.bundleSetId = root.link source) ↔ servedSet c root = last := by
  rw [h.from_set]
  constructor
  · rintro ⟨source, bundle, hwalk, -, hset⟩
    rw [servedSet, hwalk]
    exact hset.symm
  · rintro rfl
    cases hwalk : walk c root with
    | none =>
        rw [h.bundle, servedSet, hwalk] at hbundle
        cases hbundle
    | some x =>
        obtain ⟨set, hlink, hin⟩ := walk_some (show walk c root = some (x.1, x.2) from hwalk)
        have hserved : servedSet c root = some set := by
          rw [servedSet, hwalk]
          exact hlink
        refine ⟨x.1, x.2, rfl, ?_, by rw [hserved, hlink]⟩
        rw [h.bundle, hserved]
        exact hin

/-- While the id on disk is none or the one that was seen, the links lead where the last successful
look found its bundle exactly when the set of the id has a usable bundle, or `last_good` leads
there. -/
theorem Remembers.served_iff {last : Option String} (h : Remembers c root last det)
    (hlast : last.isSome = true)
    (hkey : onDiskSetId root = none ∨ onDiskSetId root = det.seenSetId) :
    servedSet c root = last ↔ (∃ set, onDiskSetId root = some set ∧ Usable c root set) ∨
      root.link .lastGood = last := by
  have hsame : ∀ set, onDiskSetId root = some set → Usable c root set → last = some set := by
    intro set hdisk husable
    rcases hkey with hnone | hseen
    · cases hnone.symm.trans hdisk
    · exact h.seen set (hseen.symm.trans hdisk) husable
  constructor
  · intro hserved
    obtain ⟨set, rfl⟩ := Option.isSome_iff_exists.mp hlast
    obtain ⟨husable, hdisk | hgood⟩ := usable_of_servedSet hserved
    · exact Or.inl ⟨set, hdisk, husable⟩
    · exact Or.inr hgood
  · rintro (⟨set, hdisk, husable⟩ | hgood)
    · rw [husable.onDisk hdisk, hsame set hdisk husable]
    · obtain ⟨set, rfl⟩ := Option.isSome_iff_exists.mp hlast
      have husable : Usable c root set := by
        have hbundle := h.kept rfl
        rwa [h.bundle, Option.bind_some] at hbundle
      by_cases hactive : ∃ other, root.link .active = some other ∧ Usable c root other
      · obtain ⟨other, hlink, hother⟩ := hactive
        obtain ⟨hserved, hdisk⟩ := hother.active hlink
        rw [hserved, hsame other hdisk hother]
      · exact husable.lastGood hgood fun other hlink hother => hactive ⟨other, hlink, hother⟩

/-- In every run a load that returns True has the bundle on disk in memory exactly when, in
case it kept what was there, the first link with a target leads to a set with a usable bundle, or
`last_good` leads where the last successful look found one. -/
theorem served_bundle_iff (run : Swaps c root ls root' det) (ls₁ ls₂ : List Load) (l : Load)
    (hls : ls = ls₁ ++ l :: ls₂) (hout : l.out = .ok true) :
    Serves c l ↔ (l.before.keepsCached l.root l.force = true →
      (∃ set, onDiskSetId l.root = some set ∧ Usable c l.root set) ∨
        l.root.link .lastGood = lastRead c ls₁) := by
  obtain ⟨hremembers, readable, hstate, hload⟩ := run.remembers.2 ls₁ l ls₂ hls
  have hends := loadBundle_ends c readable l.root l.before l.force
  rw [← hload, hout] at hends
  unfold Serves
  generalize l.after = after at hends ⊢
  cases hends with
  | found hlook _ hwalk =>
      refine iff_of_true ⟨_, _, hwalk, rfl, rfl⟩ fun hcached => ?_
      rw [hlook] at hcached
      cases hcached
  | kept hcached =>
      have hcache := hcached
      unfold keepsCached at hcache
      simp only [Bool.and_eq_true, Bool.or_eq_true, Option.isNone_iff_eq_none, beq_iff_eq] at hcache
      obtain ⟨⟨hbundle, -⟩, hkey⟩ := hcache
      have hlast : (lastRead c ls₁).isSome = true := by
        cases hread : lastRead c ls₁ with
        | none => rw [hremembers.bundle, hread] at hbundle; cases hbundle
        | some set => rfl
      rw [hremembers.serves_iff hbundle, hremembers.served_iff hlast hkey]
      simp only [hcached, forall_const]

/-! ### A swap to a set that cannot be loaded -/

/-- The set `good` has a bundle that unpickles, the set `broken` has not; `active` leads to one
of them, and there is no `last_good`. -/
def twoSets (active : String) : ArtifactRoot where
  sets := fun set =>
    if set = "good" then some fun name => if name = "regime_hmm.pkl" then some [1] else none
    else if set = "broken" then some fun name => if name = "regime_hmm.pkl" then some [2] else none
    else none
  staging := fun _ => none
  link := fun l => if l = .active then some active else none
  tmpLink := fun _ => none
  state := none
  stateTmp := none

/-- A load that is not forced, as an event. -/
def loadAt (root : ArtifactRoot) (det : LiveRegimeDetector) : Load where
  root := root
  force := false
  before := det
  out := (loadBundle ArtifactService.sampleService.regime true root det false).1
  after := (loadBundle ArtifactService.sampleService.regime true root det false).2

/-- The first load, the load after the swap to the broken set, and the one after that. -/
def firstLoad : Load := loadAt (twoSets "good") .fresh

def failedLoad : Load := loadAt (twoSets "broken") firstLoad.after

def keptLoad : Load := loadAt (twoSets "broken") failedLoad.after

theorem sound_state (active : String) : withdrawal true (twoSets active) = .ok none := rfl

theorem swapped_run : Swaps ArtifactService.sampleService.regime (twoSets "good")
    [firstLoad, failedLoad, keptLoad] (twoSets "broken") keptLoad.after := by
  have hload : Swaps ArtifactService.sampleService.regime (twoSets "good") [firstLoad]
      (twoSets "good") firstLoad.after := Swaps.load .fresh (sound_state _)
  have hswap := hload.swap (twoSets "broken").link
  exact .load (.load hswap (sound_state _)) (sound_state _)

/-- The first load serves what is on disk. -/
theorem served_bundle_iff_first : Serves ArtifactService.sampleService.regime firstLoad := by
  refine (served_bundle_iff swapped_run [] [failedLoad, keptLoad] firstLoad rfl ?_).mpr ?_
  · rfl
  · intro hcached
    cases hcached

/-- After the failed load the next one returns True with the bundle of the set that is gone
from the links. -/
theorem failed_load_keeps_bundle :
    ¬ ∀ (c : RegimeSettings) (root root' : ArtifactRoot) (det : LiveRegimeDetector)
      (ls : List Load), Swaps c root ls root' det → ∀ l ∈ ls, l.out = .ok true → Serves c l := by
  intro hall
  obtain ⟨source, bundle, hwalk, -⟩ := hall _ _ _ _ _ swapped_run keptLoad (by simp) rfl
  have hnone : (walk ArtifactService.sampleService.regime keptLoad.root).isNone = true := by
    decide +kernel
  rw [hwalk] at hnone
  cases hnone

end LiveRegimeDetector

end System2
