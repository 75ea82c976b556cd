import System2.ArtifactSync.ActivatedSet
import System2.ArtifactSync.PlacesKept

/-!
# A failing poll changes nothing that is served

A poll that fails before it moves anything returns False: it has touched its staged directory
and the time and the error of the last poll in `state.json`. Where a poll fails is read from
the pointer and from the record of its calls.

## Implementation notes

The disk works here, while the object storage may give any answers. The digest of the `k`-th
downloaded file belongs to the `k`-th entry of the manifest.
-/

namespace System2
open Foundation ArtifactRoot

/-- What `state.json` says under a key, as `_read_state` reads it. -/
def ArtifactRoot.stateField (root : ArtifactRoot) (key : String) : Option PyVal :=
  match root.stateValue with
  | .dict d => Dict.get? d key
  | _ => none

/-- The links, the sets, and what the state says of the served set are as they were. -/
structure ServedKept (root root' : ArtifactRoot) : Prop where
  link : root'.link = root.link
  sets : root'.sets = root.sets
  fields : ∀ key ∈ ["active_model_set_id", "previous_model_set_id", "withdrawn"],
    root'.stateField key = root.stateField key

/-- A call that transfers an artifact: its download, or the digest of what was downloaded. -/
def ArtifactCall.isTransfer : ArtifactCall → Bool
  | .download _ _ _ => true
  | .sha256File _ _ => true
  | _ => false

/-- The digest that a call has computed. -/
def digestOf : Event ArtifactI Exc → Option String
  | ⟨.sha256File _ _, .ok actual⟩ => some actual
  | _ => none

/-- Where a poll may fail before it changes what is served: the pointer cannot be fetched, it is
no withdrawal and does not parse, a download fails, or a file has another digest than its entry
declares. -/
inductive FailsAt (pointer : Except Exc JsonText) (t : List (Event ArtifactI Exc)) : Prop
  | fetch {e} (h : pointer = .error e)
  | parse {text e} (hpointer : pointer = .ok text) (hlive : isWithdrawal text = false)
      (h : Manifest.parse text = .error e)
  | download {path set name e} (h : (⟨.download path set name, .error e⟩ : Event ArtifactI Exc) ∈ t)
  | mismatch {manifest : Manifest} {k : ℕ} {art : Artifact} {actual : String}
      (hpublished : publishedManifest pointer = some manifest)
      (hart : manifest.artifacts[k]? = some art)
      (hdigest : (t.filterMap digestOf)[k]? = some actual) (h : art.sha256.isStr actual = false)

theorem servedKept_of_same {root root' : ArtifactRoot} (h : Same root root') :
    ServedKept root root' where
  link := h.link
  sets := h.sets
  fields := fun key _ => by rw [stateField, stateValue, h.state, stateField, stateValue]

/-! ### What the record of a download says -/

/-- Every artifact was downloaded and has its declared digest. -/
structure Transferred (arts : List Artifact) (t : List (Event ArtifactI Exc)) : Prop where
  downloads : ∀ path set name e, (⟨.download path set name, .error e⟩ : Event ArtifactI Exc) ∉ t
  digests : List.Forall₂ (fun art actual => art.sha256.isStr actual = true) arts
    (t.filterMap digestOf)

theorem digestOf_eq_none {e : Event ArtifactI Exc} (h : e.1.isTransfer = false) :
    digestOf e = none := by
  obtain ⟨op, r⟩ := e
  cases op with
  | sha256File set name => cases h
  | _ => rfl

theorem filterMap_digestOf {t : List (Event ArtifactI Exc)} (h : ∀ e ∈ t, e.1.isTransfer = false) :
    t.filterMap digestOf = [] := by
  rw [List.filterMap_eq_nil_iff]
  exact fun e he => digestOf_eq_none (h e he)

/-- Calls that transfer nothing add nothing to a transfer. -/
theorem Transferred.around {arts : List Artifact} {s t t' : List (Event ArtifactI Exc)}
    (h : Transferred arts s) (ht : ∀ e ∈ t, e.1.isTransfer = false)
    (ht' : ∀ e ∈ t', e.1.isTransfer = false) : Transferred arts (t ++ s ++ t') where
  downloads := by
    intro path set name e he
    rw [List.append_assoc, List.mem_append, List.mem_append] at he
    rcases he with he | he | he
    · cases ht _ he
    · exact h.downloads path set name e he
    · cases ht' _ he
  digests := by
    rw [List.filterMap_append, List.filterMap_append, filterMap_digestOf ht,
      filterMap_digestOf ht', List.nil_append, List.append_nil]
    exact h.digests

/-- A published set whose artifacts were all transferred is no failure. -/
theorem Transferred.not_failsAt {pointer : Except Exc JsonText} {manifest : Manifest}
    {t : List (Event ArtifactI Exc)} (h : Transferred manifest.artifacts t)
    (hpublished : publishedManifest pointer = some manifest) : ¬ FailsAt pointer t := by
  intro hfails
  cases hfails with
  | fetch hpointer =>
      rw [hpointer] at hpublished
      cases hpublished
  | parse hpointer hlive hparse =>
      rw [hpointer, publishedManifest, hlive, hparse] at hpublished
      cases hpublished
  | download hmem => exact h.downloads _ _ _ _ hmem
  | mismatch hpublished' hart hdigest hno =>
      obtain rfl := Option.some.inj (hpublished.symm.trans hpublished')
      obtain ⟨hk, hget⟩ := List.getElem?_eq_some_iff.mp hart
      obtain ⟨hk', hget'⟩ := List.getElem?_eq_some_iff.mp hdigest
      have hmatch := (List.forall₂_iff_get.mp h.digests).2 _ hk hk'
      rw [List.get_eq_getElem, List.get_eq_getElem, hget, hget', hno] at hmatch
      cases hmatch

/-- Without a transfer a live pointer that parses is no failure. -/
theorem not_failsAt_of_untouched {pointer : Except Exc JsonText} {t : List (Event ArtifactI Exc)}
    (ht : ∀ e ∈ t, e.1.isTransfer = false)
    (hpointer : (∃ manifest, publishedManifest pointer = some manifest) ∨
      ∃ text, pointer = .ok text ∧ isWithdrawal text = true) : ¬ FailsAt pointer t := by
  intro hfails
  cases hfails with
  | fetch h =>
      rcases hpointer with ⟨manifest, hpublished⟩ | ⟨text, htext, -⟩
      · rw [h] at hpublished
        cases hpublished
      · cases h.symm.trans htext
  | parse htext hlive h =>
      rcases hpointer with ⟨manifest, hpublished⟩ | ⟨text, htext', hwithdrawal⟩
      · rw [htext, publishedManifest, hlive, h] at hpublished
        cases hpublished
      · obtain rfl := Except.ok.inj (htext.symm.trans htext')
        rw [hlive] at hwithdrawal
        cases hwithdrawal
  | download hmem => cases ht _ hmem
  | mismatch _ _ hdigest _ =>
      rw [filterMap_digestOf ht] at hdigest
      cases hdigest

namespace ModelDownloader

variable {sha256 : List UInt8 → String} {pointer : Except Exc JsonText} {root root' : ArtifactRoot}
  {d : ModelDownloader} {manifest : Manifest} {set : String}

/-- Artifacts that are verified were all transferred. -/
theorem wp_verifyArtifacts_record (set : String) (arts : List Artifact)
    (t : List (Event ArtifactI Exc)) :
    wp World.free (verifyArtifacts set arts)
      (fun r t' => r.isOk = true → ∃ s, t' = t ++ s ∧ Transferred arts s) t := by
  induction arts generalizing t with
  | nil =>
      refine ⟨trivial, fun _ => ⟨[], (List.append_nil t).symm, ?_, .nil⟩⟩
      intro path set name e he
      cases he
  | cons art rest ih =>
      unfold verifyArtifacts
      cases pathPart art.name with
      | error e => exact ⟨trivial, fun hok => by cases hok⟩
      | ok name =>
          refine ⟨trivial, ?_⟩
          rintro downloaded t₁ rfl
          cases downloaded with
          | error e => exact ⟨trivial, fun hok => by cases hok⟩
          | ok _ =>
              refine ⟨trivial, ?_⟩
              rintro digest t₂ rfl
              cases digest with
              | error e => exact ⟨trivial, fun hok => by cases hok⟩
              | ok actual =>
                  change wp World.free (if !art.sha256.isStr actual then _ else _) _ _
                  split_ifs with hmismatch
                  · exact ⟨trivial, fun hok => by cases hok⟩
                  refine wpc_post (ih _) fun r t' _ h hok => ?_
                  obtain ⟨s, rfl, hs⟩ := h hok
                  refine ⟨_, by rw [List.append_assoc, List.append_assoc], ?_, ?_⟩
                  · intro path set' name' e he
                    simp only [List.singleton_append, List.mem_cons] at he
                    rcases he with he | he | he
                    · cases he
                    · cases he
                    · exact hs.downloads _ _ _ _ he
                  · exact .cons (by simpa using hmismatch) hs.digests

/-- So were those of a manifest that is downloaded and verified. -/
theorem wp_downloadAndVerify_record (manifest : Manifest) (t : List (Event ArtifactI Exc)) :
    wp World.free (downloadAndVerify manifest) (fun r t' => r.isOk = true → ∃ before s,
      t' = t ++ before ++ s ∧ (∀ e ∈ before, e.1.isTransfer = false) ∧
        Transferred manifest.artifacts s) t := by
  have hquiet : ∀ {α : Type} {p : Proc ArtifactI Exc α} {t₀ : List (Event ArtifactI Exc)},
      (∃ before, t₀ = t ++ before ∧ ∀ e ∈ before, e.1.isTransfer = false) →
      (p.Only fun op : ArtifactCall => op.isTransfer = false) →
      wp World.free p (fun _ t' => ∃ before, t' = t ++ before ∧
        ∀ e ∈ before, e.1.isTransfer = false) t₀ := by
    rintro α p _ ⟨before, rfl, hbefore⟩ hp
    refine wpc_post (wp_free_of_only hp _) ?_
    rintro r _ - ⟨s, rfl, hs⟩
    refine ⟨before ++ s, by simp, fun e he => ?_⟩
    exact (List.mem_append.mp he).elim (hbefore e) (hs e)
  unfold downloadAndVerify
  refine wpc_seq (hquiet ⟨[], by simp, by simp⟩ (Proc.along_perform rfl)) ?_
    fun _ _ _ _ hok => by cases hok
  rintro staged t₁ - h₁
  refine wpc_seq (hquiet h₁ (Proc.along_given (Proc.along_perform rfl))) ?_
    fun _ _ _ _ hok => by cases hok
  rintro _ t₂ - h₂
  refine wpc_seq (hquiet h₂ (Proc.along_perform rfl)) ?_ fun _ _ _ _ hok => by cases hok
  rintro _ _ - ⟨before, rfl, hbefore⟩
  refine wpc_post (wp_verifyArtifacts_record _ _ _) fun r t' _ h hok => ?_
  obtain ⟨s, rfl, hs⟩ := h hok
  exact ⟨before, s, rfl, hbefore, hs⟩

/-- After the verification nothing is transferred. -/
theorem only_promote :
    (d.promote manifest).Only fun op : ArtifactCall => op.isTransfer = false := by
  have hop : ∀ {op : ArtifactCall}, op.isTransfer = false →
      (perform op).Only fun op : ArtifactCall => op.isTransfer = false :=
    fun h => Proc.along_perform h
  have hlink : ∀ l set, (d.atomicSymlink l set).Only fun op : ArtifactCall =>
      op.isTransfer = false := fun l set =>
    (hop rfl).bind fun _ => (Proc.along_given (hop rfl)).bind fun _ => (hop rfl).bind fun _ =>
      (Proc.along_given ((hop rfl).bind fun _ => Proc.along_given (hop rfl))).bind fun _ => hop rfl
  have hplace : (placeSet manifest.modelSetId).Only fun op : ArtifactCall =>
      op.isTransfer = false :=
    (hop rfl).bind fun _ => (Proc.along_given (hop rfl)).bind fun _ =>
      (hop rfl).bind fun _ => (hop rfl).attempt.bind fun _ => trivial
  have hactive : activeModelSetId.Only fun op : ArtifactCall => op.isTransfer = false :=
    only_activeModelSetId rfl rfl
  refine hplace.bind fun _ => hactive.bind fun prevActive => Proc.Along.bind ?_ fun _ =>
    (hlink _ _).bind fun _ => (hop rfl).bind fun _ => (hop rfl).bind fun _ =>
      (hop rfl).bind fun _ => hop rfl
  unfold keepLastGood
  split_ifs
  · exact (Proc.along_ofExcept _).bind fun _ => hlink _ _
  · exact trivial

/-! ### A disk that works -/

/-- A call without a move does what it is said to do. -/
theorem artifactWorld_step {op : ArtifactCall} {r : Except Exc op.Ans}
    (step : artifactWorld sha256 pointer root op r root') (hop : op.plain)
    (hmove : ∀ set, op ≠ .moveStage set) :
    ∃ s : Storage, s.pointer = pointer ∧ s.sha256 = sha256 ∧ (r, root') = op.run s root :=
  step ⟨hop, fun set h => absurd h (hmove set)⟩

/-- The state is read, unless it is no UTF-8. -/
theorem returns_readState (htext : root.state ≠ some .garbled) :
    wp (artifactWorld sha256 pointer) readState
    (fun r root' => root' = root ∧ r = .ok root.stateValue) root := by
  refine ⟨trivial, fun r root₁ step => ?_⟩
  obtain ⟨s, -, -, hrun⟩ := artifactWorld_step step (fun _ h => by cases h) (fun _ h => by cases h)
  obtain ⟨rfl, rfl⟩ := Prod.mk.inj hrun
  cases hstate : root₁.state with
  | none => exact ⟨trivial, rfl, by rw [stateValue, hstate]⟩
  | some text =>
      refine ⟨trivial, fun r root₂ step => ?_⟩
      obtain ⟨s, -, -, hrun⟩ := artifactWorld_step step (fun _ h => by cases h) (fun _ h => by cases h)
      simp only [ArtifactCall.run, hstate] at hrun
      obtain ⟨rfl, rfl⟩ := Prod.mk.inj hrun
      cases text with
      | garbled => exact absurd hstate htext
      | text decoded =>
          cases decoded with
          | none => exact ⟨trivial, rfl, by rw [stateValue, hstate]⟩
          | some v => exact ⟨trivial, rfl, by rw [stateValue, hstate]⟩

theorem not_garbled_of_dict {d : Dict} (h : root.stateValue = .dict d) :
    root.state ≠ some .garbled := by
  intro hstate
  rw [stateValue, hstate] at h
  cases h

/-- The state is brought up to date. -/
theorem returns_updateState {f : PyVal → String → Except PyErr PyVal}
    (htext : root.state ≠ some .garbled) (hf : ∀ now, ∃ state, f root.stateValue now = .ok state) :
    wp (artifactWorld sha256 pointer) (updateState f) (fun r root' => r = .ok () ∧
      ∃ now state, f root.stateValue now = .ok state ∧ Restated root state root') root := by
  refine wpc_seq (returns_readState htext) ?_ fun e _ _ h => by cases h.2
  rintro _ _ - ⟨rfl, ⟨⟩⟩
  refine ⟨trivial, fun r root₁ step => ?_⟩
  obtain ⟨s, -, -, hrun⟩ := artifactWorld_step step (fun _ h => by cases h) nofun
  obtain ⟨rfl, rfl⟩ := Prod.mk.inj hrun
  obtain ⟨state, hstate⟩ := hf s.now
  change wp _ ((convert (f root₁.stateValue s.now)).bind _) _ _
  rw [hstate]
  refine ⟨trivial, fun r root₂ step => ?_⟩
  obtain ⟨s', -, -, hrun⟩ := artifactWorld_step step (fun _ h => by cases h) nofun
  obtain ⟨rfl, rfl⟩ := Prod.mk.inj hrun
  refine ⟨trivial, fun r root₃ step => ?_⟩
  obtain ⟨s'', -, -, hrun⟩ := artifactWorld_step step (fun _ h => by cases h) nofun
  obtain ⟨rfl, rfl⟩ := Prod.mk.inj hrun
  exact ⟨trivial, rfl, s.now, state, hstate, rfl, rfl, rfl⟩

/-- A failed poll writes down when it was and what went wrong, and nothing else. -/
theorem servedKept_failed {e : Exc} {now : String} {state : PyVal} (h : root.Shape)
    (hstate : failedState e root.stateValue now = .ok state)
    (hrestated : Restated root state root') : ServedKept root root' where
  link := hrestated.link
  sets := hrestated.sets
  fields := by
    intro key hkey
    obtain ⟨d, hd, -⟩ := h.state
    rw [hd] at hstate
    cases hstate
    have hpoll : key ≠ "last_poll_at" ∧ key ≠ "last_poll_error" := by
      constructor
      · rintro rfl
        exact absurd hkey (by decide)
      · rintro rfl
        exact absurd hkey (by decide)
    rw [stateField, stateValue, hrestated.state, stateField, hd]
    change Dict.get? (Dict.set (Dict.set d _ _) _ _) key = Dict.get? d key
    rw [Dict.get?_set_of_ne hpoll.2, Dict.get?_set_of_ne hpoll.1]

/-! ### Where a poll fails -/

/-- The record of a part that transfers nothing. -/
theorem wp_untouched {α : Type} {p : Proc ArtifactI Exc α} {Q : Except Exc α → ArtifactRoot → Prop}
    {t : List (Event ArtifactI Exc)} (h : wp (artifactWorld sha256 pointer) p Q root)
    (hp : p.Only fun op : ArtifactCall => op.isTransfer = false)
    (ht : ∀ e ∈ t, e.1.isTransfer = false) :
    wp (artifactWorld sha256 pointer).traced p
      (fun r s => Q r s.1 ∧ ∀ e ∈ s.2, e.1.isTransfer = false) (root, t) :=
  wpc_mono (wpc_traced h hp ht) (fun _ _ => trivial) fun _ _ _ hQ => hQ

theorem only_updateState (f : PyVal → String → Except PyErr PyVal) :
    (updateState f).Only fun op : ArtifactCall => op.isTransfer = false := by
  have hop : ∀ {op : ArtifactCall}, op.isTransfer = false →
      (perform op).Only fun op : ArtifactCall => op.isTransfer = false :=
    fun h => Proc.along_perform h
  have hread : readState.Only fun op : ArtifactCall => op.isTransfer = false :=
    only_readState rfl rfl
  exact hread.bind fun _ => (hop rfl).bind fun _ =>
    (Proc.along_ofExcept _).bind fun _ => (hop rfl).bind fun _ => hop rfl

/-- An activation that fails before it moves anything. -/
theorem wp_activate_failing (hpublished : publishedManifest pointer = some manifest)
    (hplain : manifest.plain) {t : List (Event ArtifactI Exc)}
    (ht : ∀ e ∈ t, e.1.isTransfer = false) :
    wp (artifactWorld sha256 pointer).traced (d.activate manifest)
      (fun r s => FailsAt pointer s.2 → r = .ok false ∧ Same root s.1) (root, t) := by
  have hset : ∀ name ∈ [manifest.modelSetId], isPlain name = true := fun name h =>
    (List.mem_singleton.mp h).symm ▸ hplain.1
  have hworld : ∀ (w : ArtifactRoot) (op : ArtifactCall) (r : Except Exc op.Ans) w',
      artifactWorld sha256 pointer w op r w' → faultyWorld sha256 pointer w op r w' :=
    fun _ _ _ _ step => Or.inl step
  have hquiet : wp (artifactWorld sha256 pointer) (downloadAndVerify manifest)
      (fun _ root' => Same root root') root :=
    wpc_quiet hworld (only_downloadAndVerify hplain) fun _ _ => trivial
  refine wpc_seq (R := fun r s => ∃ r', r = .ok r' ∧ Same root s.1 ∧ (r'.isOk = true →
    ∃ before s', s.2 = t ++ before ++ s' ∧ (∀ e ∈ before, e.1.isTransfer = false) ∧
      Transferred manifest.artifacts s')) ?_ ?_ ?_
  · rw [wpc_attempt]
    refine wpc_mono (wpc_traced_and hquiet (wp_downloadAndVerify_record manifest t))
      (fun _ _ => trivial) ?_
    rintro r s - ⟨hsame, hrecord⟩
    exact ⟨r, rfl, hsame, hrecord⟩
  · rintro result ⟨root₁, t₁⟩ - ⟨_, ⟨⟩, hsame, hrecord⟩
    cases result with
    | error e =>
        have hclear : wp (artifactWorld sha256 pointer)
            (perform (.clearStage manifest.modelSetId)).attempt
            (fun r root' => Same root₁ root' ∧ r.isOk = true) root₁ := by
          refine (wpc_attempt _ _ _).mpr ?_
          exact wpc_post (wpc_quiet hworld (Proc.along_perform ⟨trivial, hset⟩) fun _ _ => trivial)
            fun _ _ _ h => ⟨h, rfl⟩
        refine wpc_seq (wpc_mono (wpc_traced_and hclear (wp_true _ t₁)) (fun _ _ => trivial)
          fun _ _ _ h => h.1) ?_ ?_
        · rintro _ s - ⟨hsame', -⟩
          exact ⟨trivial, fun _ => ⟨rfl, hsame.trans hsame'⟩⟩
        · rintro e s - ⟨-, hok⟩
          cases hok
    | ok _ =>
        obtain ⟨before, s', rfl, hbefore, htransferred⟩ := hrecord rfl
        -- from here on nothing is transferred, so the poll does not fail where it is meant
        have hdone : wp (artifactWorld sha256 pointer).traced ((d.promote manifest).bind
            fun _ => (.ret true : Proc ArtifactI Exc Bool))
            (fun _ s => ¬ FailsAt pointer s.2) (root₁, t ++ before ++ s') := by
          have honly : ((d.promote manifest).bind
              fun _ => (.ret true : Proc ArtifactI Exc Bool)).Only
                fun op : ArtifactCall => op.isTransfer = false := only_promote.bind fun _ => trivial
          refine wpc_mono (wpc_traced_and (wp_true _ root₁) (wp_free_of_only honly _))
            (fun _ _ => trivial) ?_
          rintro r ⟨root₂, t₂⟩ - ⟨-, after, rfl, hafter⟩
          have hbefore' : ∀ e ∈ t ++ before, e.1.isTransfer = false := fun e he =>
            (List.mem_append.mp he).elim (ht e) (hbefore e)
          exact (htransferred.around hbefore' hafter).not_failsAt hpublished
        exact wpc_post hdone fun _ _ _ hno hfails => absurd hfails hno
  · rintro e s - ⟨r', hr, -⟩
    cases hr

/-- A poll that fails at the pointer or at a transfer returns False and keeps what is served. -/
theorem wp_pollOnce_failing (hplain : PlainNames pointer) (h : root.Shape) :
    wp (artifactWorld sha256 pointer).traced d.pollOnce
      (fun r s => FailsAt pointer s.2 → r = .ok false ∧ ServedKept root s.1) (root, []) := by
  have hworld : ∀ (w : ArtifactRoot) (op : ArtifactCall) (r : Except Exc op.Ans) w',
      artifactWorld sha256 pointer w op r w' → faultyWorld sha256 pointer w op r w' :=
    fun _ _ _ _ step => Or.inl step
  have hfetch : wp (artifactWorld sha256 pointer).traced d.fetchManifest
      (fun r s => (Same root s.1 ∧ FetchEnds pointer r) ∧ ∀ e ∈ s.2, e.1.isTransfer = false)
      (root, []) := by
    refine wp_untouched (wpc_of_world hworld wp_fetchManifest)
      (only_fetchManifest_outward.mono fun op hop => ?_) fun e he => by cases he
    cases op with
    | getText _ => rfl
    | utcNow => rfl
    | _ => exact hop.elim
  refine wpc_seq (R := fun r s => ∃ r', r = .ok r' ∧ (Same root s.1 ∧ FetchEnds pointer r') ∧
    ∀ e ∈ s.2, e.1.isTransfer = false) ?_ ?_ ?_
  · rw [wpc_attempt]
    exact wpc_post hfetch fun r s _ hQ => ⟨r, rfl, hQ⟩
  · rintro fetched ⟨root₁, t₁⟩ - ⟨_, ⟨⟩, ⟨hsame, hfetched⟩, ht₁⟩
    have h₁ := (h.same hsame).1
    have hkept : ∀ {root'}, ServedKept root₁ root' → ServedKept root root' := fun hkept =>
      ⟨hkept.link.trans hsame.link, hkept.sets.trans hsame.sets, fun key hkey =>
        (hkept.fields key hkey).trans ((servedKept_of_same hsame).fields key hkey)⟩
    match fetched, hfetched with
    | .error e, _ =>
        obtain ⟨d, hd, -⟩ := h₁.state
        have hwrites : ∀ now, ∃ state, failedState e root₁.stateValue now = .ok state := by
          rw [hd]
          exact fun now => ⟨_, rfl⟩
        refine wpc_seq (wp_untouched (returns_updateState (not_garbled_of_dict hd) hwrites)
          (only_updateState _) ht₁) ?_ ?_
        · rintro _ ⟨root₂, t₂⟩ - ⟨⟨-, now, state, hstate, hrestated⟩, -⟩
          exact ⟨trivial, fun _ => ⟨rfl, hkept (servedKept_failed h₁ hstate hrestated)⟩⟩
        · rintro e' s - ⟨⟨he, -⟩, -⟩
          cases he
    | .ok (.withdrawn w), hfetched =>
        have honly : (recordWithdrawal w).Only fun op : ArtifactCall => op.isTransfer = false :=
          (only_updateState _).bind fun _ => trivial
        refine wpc_post (wp_untouched (wp_true _ root₁) honly ht₁) ?_
        rintro r s - ⟨-, hs⟩ hfails
        exact absurd hfails (not_failsAt_of_untouched hs (Or.inr (hfetched.withdrawn w rfl)))
    | .ok (.published manifest), hfetched =>
        have hpublished := hfetched.published manifest rfl
        refine wpc_seq (wp_untouched (wpc_quiet hworld
          (only_activeModelSetId (isQuiet trivial rfl) (isQuiet trivial rfl)) fun _ _ => trivial)
          (only_activeModelSetId rfl rfl) ht₁) ?_ ?_
        · rintro active ⟨root₂, t₂⟩ - ⟨hsame₂, ht₂⟩
          split_ifs
          · have honly : recordNoChange.Only fun op : ArtifactCall => op.isTransfer = false :=
              (only_updateState _).bind fun _ => trivial
            refine wpc_post (wp_untouched (wp_true _ root₂) honly ht₂) ?_
            rintro r s - ⟨-, hs⟩ hfails
            exact absurd hfails (not_failsAt_of_untouched hs (Or.inl ⟨manifest, hpublished⟩))
          · refine wpc_post (wp_activate_failing hpublished (hplain manifest hpublished) ht₂) ?_
            rintro r s - hfailing hfails
            obtain ⟨rfl, hsame₃⟩ := hfailing hfails
            exact ⟨rfl, servedKept_of_same ((hsame.trans hsame₂).trans hsame₃)⟩
        · rintro e ⟨root₂, t₂⟩ - ⟨-, ht₂⟩ hfails
          exact absurd hfails (not_failsAt_of_untouched ht₂ (Or.inl ⟨manifest, hpublished⟩))
  · rintro e s - ⟨r', hr, -⟩
    cases hr

variable {pointers : List (Except Exc JsonText)}

/-- From every root that polls and rollbacks lead to, a poll that fails at the pointer or at a
transfer returns False and leaves the links, the sets and the served fields of the state as they
were. -/
theorem failing_poll_keeps (run : DiskRuns d (faultyWorld sha256) .empty pointers root)
    (hplain : ∀ p ∈ pointers ++ [pointer], PlainNames p) {r : Except Exc Bool}
    {t : List (Event ArtifactI Exc)}
    (exec : Exec (artifactWorld sha256 pointer).traced d.pollOnce (root, []) (some r) (root', t))
    (hfails : FailsAt pointer t) : r = .ok false ∧ ServedKept root root' := by
  have hshape := run.shape (fun p hp => hplain p (List.mem_append_left _ hp)) shape_empty
  exact wp_sound exec (wp_pollOnce_failing (hplain pointer (by simp)) hshape) hfails

open ArtifactService

/-- A set whose one file has another digest than the manifest declares. -/
def mismatchedPointer : Except Exc JsonText := publishedBundle "b" "models/hmm.pkl" "two"

/-- The poll of that set, while another one is active, with the record of its calls. -/
def mismatchedPoll : Except Exc Bool × ArtifactRoot × List (Event ArtifactI Exc) :=
  sampleService.downloader.pollOnce.run (World.recording (sampleStorage mismatchedPointer).serve)
    (polledRoot (publishedPointer "a") .empty, [])

theorem failing_poll_keeps_mismatched : mismatchedPoll.1 = .ok false ∧
    ServedKept (polledRoot (publishedPointer "a") .empty) mismatchedPoll.2.1 := by
  have hplain : ∀ p ∈ [publishedPointer "a"] ++ [mismatchedPointer], PlainNames p := by
    have h : ∀ p ∈ [publishedPointer "a"] ++ [mismatchedPointer],
        ∀ manifest ∈ publishedManifest p, manifest.plain := by decide +kernel
    exact h
  have exec := exec_run
    (World.recording_step (Storage.serve_step (sampleStorage mismatchedPointer)))
    sampleService.downloader.pollOnce (polledRoot (publishedPointer "a") .empty, [])
  refine failing_poll_keeps (sample_run [publishedPointer "a"]) hplain exec ?_
  have hmanifest : publishedManifest mismatchedPointer = some (manifestOf mismatchedPointer) := rfl
  exact .mismatch (k := 0) hmanifest rfl rfl rfl

end ModelDownloader

end System2
