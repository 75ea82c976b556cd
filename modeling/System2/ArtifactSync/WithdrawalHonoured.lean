import System2.ArtifactSync.ArtifactHost

/-!
# When a load honours a withdrawal

A load that gets past the cache refuses whenever a withdrawal is on record. A load
that is served from the cache does not look at the record at all, so exactly the
loads that the cache lets through are refused.
-/

namespace System2
open Foundation

/-- The state says that the model set is withdrawn. -/
def saysWithdrawn : PyVal → Bool
  | .dict state =>
      match Dict.get state "withdrawn" with
      | .bool b => b
      | _ => false
  | _ => false

/-- The state file is there, decodes, and says that the model set is withdrawn. -/
def ArtifactRoot.recordsWithdrawn (root : ArtifactRoot) : Bool := saysWithdrawn root.stateValue

namespace LiveRegimeDetector

variable {c : RegimeSettings} {root : ArtifactRoot} {det : LiveRegimeDetector} {force : Bool}

theorem withdrawal_of_records (h : root.recordsWithdrawn = true) :
    ∃ state, withdrawal true root = .ok (some state) := by
  unfold ArtifactRoot.recordsWithdrawn ArtifactRoot.stateValue at h
  split at h
  · rename_i v hstate
    unfold saysWithdrawn at h
    split at h
    · rename_i state
      split at h
      · rename_i b hflag
        refine ⟨.dict state, ?_⟩
        simp only [withdrawal, hstate, PyVal.getAttrGet, hflag, h]
        rfl
      · cases h
    · cases h
  · cases h
  · cases h

/-- A load that the cache does not serve refuses a withdrawn set, and drops the bundle. -/
theorem loadBundle_refuses (h : root.recordsWithdrawn = true)
    (hcache : det.keepsCached root force = false) :
    (det.loadBundle c true root force).1 = .ok false ∧
      (det.loadBundle c true root force).2.bundle = none := by
  obtain ⟨state, hstate⟩ := withdrawal_of_records h
  simp only [loadBundle, hcache, hstate]
  exact ⟨rfl, rfl⟩

/-- A load that the cache serves keeps its bundle. -/
theorem loadBundle_cached (readable : Bool) (hcache : det.keepsCached root force = true) :
    det.loadBundle c readable root force = (.ok true, det) := by
  simp only [loadBundle, hcache]
  rfl

/-- A detector without a bundle observes nothing new while the set is withdrawn. -/
theorem detect_stale_of_no_bundle (market : RegimeMarket) (instrument granularity : String)
    (h : root.recordsWithdrawn = true) (hnone : det.bundle = none) :
    ∃ obs, (det.detect c true root market instrument granularity).1 = .ok obs ∧
      obs.stale = true := by
  have hcache : det.keepsCached root false = false := by simp [keepsCached, hnone]
  obtain ⟨hresult, -⟩ := loadBundle_refuses (c := c) h hcache
  cases hload : det.loadBundle c true root false with
  | mk r det' =>
      rw [hload] at hresult
      cases hresult
      refine ⟨stale c det' (instrument, granularity) "no model bundle", ?_, ?_⟩
      · simp only [detect, hload]
      · unfold stale
        split
        · rfl
        · rfl

end LiveRegimeDetector

/-- The load of a call, if the call makes one: can it read the state file, and is it forced? -/
def HostCall.loads : HostCall → Option (Bool × Bool)
  | .load readable force => some (readable, force)
  | .detect readable _ _ _ => some (readable, false)
  | _ => none

/-- A load that reads a state file on which the set is withdrawn. -/
def Called.underWithdrawal (c : Called) (force : Bool) : Prop :=
  c.call.loads = some (true, force) ∧ c.before.root.recordsWithdrawn = true

/-- The load of the call returned `False` and left no bundle. -/
def Called.refused (regime : RegimeSettings) (c : Called) (force : Bool) : Prop :=
  (c.before.detector.loadBundle regime true c.before.root force).1 = .ok false ∧
    (c.before.detector.loadBundle regime true c.before.root force).2.bundle = none

/-- The load gets past the cache: it is forced, or no bundle is in memory, or a link has a
target and leads to another set than the last one observed. -/
def Called.looks (c : Called) (force : Bool) : Prop :=
  force = true ∨ c.before.detector.bundle = none ∨
    ∃ set, LiveRegimeDetector.onDiskSetId c.before.root = some set ∧
      c.before.detector.seenSetId ≠ some set

/-- Others may put the links elsewhere. -/
def linksSwapped (root root' : ArtifactRoot) : Prop :=
  ∃ link tmpLink, root' = { root with link := link, tmpLink := tmpLink }

namespace ArtifactService

open LiveRegimeDetector

variable {svc : ArtifactService} {disk : Disk} {host : ArtifactHost} {cs : List Called}

theorem keepsCached_iff_not_looks {c : Called} {force : Bool} :
    c.before.detector.keepsCached c.before.root force = false ↔ c.looks force := by
  unfold Called.looks keepsCached
  cases force with
  | true => simp
  | false =>
      cases c.before.detector.bundle with
      | none => simp
      | some bundle =>
          cases onDiskSetId c.before.root with
          | none => simp
          | some set =>
              by_cases hseen : c.before.detector.seenSetId = some set
              · simp [hseen]
              · simp [hseen, Ne.symm hseen]

theorem loadBundle_of_carries {c : Called} {force : Bool} (carries : svc.Carries disk c)
    (hload : c.call.loads = some (true, force)) (hrefused : c.refused svc.regime force) :
    c.after.detector.bundle = none := by
  cases carries with
  | poll exec => cases hload
  | rollback exec => cases hload
  | load h =>
      cases hload
      obtain ⟨-, hbundle⟩ := hrefused
      rw [h] at hbundle
      exact hbundle
  | @detect host _ market instrument granularity r detector' h =>
      cases hload
      obtain ⟨hresult, hbundle⟩ := hrefused
      cases hfirst : host.detector.loadBundle svc.regime true host.root false with
      | mk r' det' =>
          rw [hfirst] at hresult hbundle
          cases hresult
          simp only [detect, hfirst] at h
          cases h
          exact hbundle

/-- In every run, a load under a withdrawal on record, its own or a detection's, is refused
exactly when it gets past the cache; after a refusal no bundle is in memory, and a detection
that finds the withdrawal still on record is stale. -/
theorem withdrawal_honoured_iff
    (run : svc.Runs (faultyWorld svc.sha256) linksSwapped .start cs host) :
    ∀ c ∈ cs, ∀ force, c.underWithdrawal force →
      (c.refused svc.regime force ↔ c.looks force) ∧
      (c.refused svc.regime force → c.after.detector.bundle = none ∧
        ∀ root market instrument granularity, root.recordsWithdrawn = true →
          ∃ obs, (c.after.detector.detect svc.regime true root market instrument granularity).1 =
            .ok obs ∧ obs.stale = true) := by
  rintro c hc force ⟨hload, hrecorded⟩
  have carries := run.carries c hc
  refine ⟨⟨fun hrefused => ?_, fun hlooks => ?_⟩, fun hrefused => ?_⟩
  · by_contra hnot
    have hcache : c.before.detector.keepsCached c.before.root force = true := by
      simpa using mt keepsCached_iff_not_looks.mp hnot
    have hcached := loadBundle_cached (c := svc.regime) true hcache
    obtain ⟨hresult, -⟩ := hrefused
    rw [hcached] at hresult
    cases hresult
  · exact loadBundle_refuses hrecorded (keepsCached_iff_not_looks.mpr hlooks)
  · have hnone := loadBundle_of_carries carries hload hrefused
    refine ⟨hnone, fun root market instrument granularity hroot => ?_⟩
    exact detect_stale_of_no_bundle market instrument granularity hroot hnone

/-- A set was published and activated, and then it was withdrawn. -/
def withdrawnHost : ArtifactHost :=
  (polled withdrawnPointer (polled (publishedPointer "a") .start).after).after

theorem withdrawal_honoured_iff_firstLoad :
    (loaded sampleService false withdrawnHost).refused sampleService.regime false := by
  have run : sampleService.Runs (faultyWorld sampleService.sha256) linksSwapped .start _ _ :=
    .call (.call (.call .refl (carries_polled (publishedPointer "a") .start).faulty)
      (carries_polled withdrawnPointer _).faulty) (carries_loaded false withdrawnHost)
  have hlooks : (loaded sampleService false withdrawnHost).looks false := Or.inr (Or.inl rfl)
  refine ((withdrawal_honoured_iff run _ (by simp) false ⟨rfl, ?_⟩).1).mpr hlooks
  decide +kernel

/-- The bundle was loaded before the withdrawal, and is loaded again after it. -/
def cachedHost : ArtifactHost :=
  (polled withdrawnPointer
    (loaded sampleService false (polled (publishedPointer "a") .start).after).after).after

/-- The cached bundle outlives the withdrawal. -/
theorem cached_bundle_not_refused : ∃ cs host c,
    sampleService.Runs (faultyWorld sampleService.sha256) linksSwapped .start cs host ∧ c ∈ cs ∧
      c.underWithdrawal false ∧ ¬ c.refused sampleService.regime false ∧
      c.after.detector.bundle.isSome = true := by
  refine ⟨_, _, loaded sampleService false cachedHost,
    .call (.call (.call (.call .refl (carries_polled (publishedPointer "a") .start).faulty)
      (carries_loaded false _)) (carries_polled withdrawnPointer _).faulty)
      (carries_loaded false cachedHost), by simp, ⟨rfl, by decide +kernel⟩, ?_, by decide +kernel⟩
  rintro ⟨hresult, -⟩
  have hcache : cachedHost.detector.keepsCached cachedHost.root false = true := by decide +kernel
  have hload := loadBundle_cached (c := sampleService.regime) true hcache
  change (cachedHost.detector.loadBundle sampleService.regime true cachedHost.root false).1 =
    .ok false at hresult
  rw [hload] at hresult
  cases hresult

end ArtifactService

end System2
