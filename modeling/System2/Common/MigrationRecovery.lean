import System2.Common.Migrations

/-!
# Interrupted migrations

A statement and the entry of its file in the ledger are separate commits. A run that stops
between them leaves a file that the ledger does not list with statements that have had
their effect, and the next run executes these again. The migrations complete exactly if
the database accepts the statements in their order, and no interrupted run stops where it
does not ignore what is executed again.
-/

namespace System2
open Foundation Migrations

variable {σ : Type} {react : List σ → σ → Reaction} {dir : MigrationDir σ}
  {db db' : MigrationDb σ} {done rest : List (MigrationFile σ)} {f : MigrationFile σ}
  {good part steps tail : List (MigrationStep σ)} {step : MigrationStep σ} {calm : Bool}

/-- Every statement has had its effect once, and every file is in the ledger. -/
def MigrationDir.Complete [DecidableEq σ] (dir : MigrationDir σ) (db : MigrationDb σ) : Prop :=
  ∀ f ∈ dir.files, f.name ∈ db.ledger ∧ ∀ step ∈ f.steps, db.history.count step = 1

/-- Does the database take some statements, one after the other? -/
def accepts (react : List σ → σ → Reaction) (executed : List σ) : List σ → Bool
  | [] => true
  | statement :: rest =>
      react executed statement != .refused && accepts react (executed ++ [statement]) rest

/-- Does the database take all statements of the directory in their order? -/
def MigrationDir.accepted (dir : MigrationDir σ) (react : List σ → σ → Reaction) : Bool :=
  accepts react [] (dir.steps.map MigrationStep.statement)

/-- What has been executed of the files that the ledger does not list is ignored when it is
executed again. -/
def MigrationDb.Clean (react : List σ → σ → Reaction) (db : MigrationDb σ) : Prop :=
  ∀ step ∈ db.history, step.file ∉ db.ledger → db.reaction react step = .ignored

/-- How far the runs got: the first files, and a part of the script of the next. -/
structure MigrationDir.Progress (dir : MigrationDir σ) (react : List σ → σ → Reaction)
    (done rest : List (MigrationFile σ)) (part : List (MigrationStep σ)) (db : MigrationDb σ) :
    Prop where
  files : dir.files = done ++ rest
  script : part <+: (rest.take 1).flatMap MigrationFile.steps
  history : db.history = done.flatMap MigrationFile.steps ++ part
  ledger : db.ledger = done.map MigrationFile.name
  accepted : accepts react [] (db.history.map MigrationStep.statement) = true

def MigrationDir.Sound (dir : MigrationDir σ) (react : List σ → σ → Reaction)
    (db : MigrationDb σ) : Prop := ∃ done rest part, dir.Progress react done rest part db

/-- Where a run comes to a statement that it executes again and that is not ignored. -/
structure MigrationDir.Obstructed (dir : MigrationDir σ) (react : List σ → σ → Reaction)
    (step : MigrationStep σ) (done rest : List (MigrationFile σ)) (f : MigrationFile σ)
    (good tail : List (MigrationStep σ)) (db : MigrationDb σ) : Prop where
  files : dir.files = done ++ f :: rest
  ledger : db.ledger = done.map MigrationFile.name
  pending : db.pending = []
  script : f.steps = good ++ step :: tail
  ignored : ∀ other ∈ good, other ∈ db.history ∧ db.reaction react other = .ignored
  again : step ∈ db.history
  fragile : db.reaction react step ≠ .ignored

/-! ### Files and their statements -/

theorem accepts_append (executed front back : List σ) :
    accepts react executed (front ++ back) =
      (accepts react executed front && accepts react (executed ++ front) back) := by
  induction front generalizing executed with
  | nil => simp [accepts]
  | cons statement rest ih => simp [accepts, ih, Bool.and_assoc]

theorem MigrationFile.index_steps (f : MigrationFile σ) :
    f.steps.map MigrationStep.index = List.range f.statements.length :=
  List.ext_getElem (by simp [steps]) fun i _ _ => by simp [steps]

theorem MigrationFile.file_of_mem_steps (h : step ∈ f.steps) : step.file = f.name := by
  obtain ⟨i, hi, rfl⟩ := List.mem_mapIdx.mp h
  rfl

theorem MigrationFile.steps_nodup (f : MigrationFile σ) : f.steps.Nodup :=
  List.Nodup.of_map MigrationStep.index (f.index_steps ▸ List.nodup_range)

/-- No statement of the directory stands at two places. -/
theorem MigrationDir.steps_nodup (dir : MigrationDir σ) : dir.steps.Nodup := by
  refine List.nodup_flatMap.mpr ⟨fun f _ => f.steps_nodup, ?_⟩
  refine (List.pairwise_map.mp dir.names).imp fun {f g} hne => ?_
  intro step hf hg
  exact hne ((MigrationFile.file_of_mem_steps hf).symm.trans (MigrationFile.file_of_mem_steps hg))

/-- The name of a later file is not that of an earlier one. -/
theorem MigrationDir.name_notMem (hfiles : dir.files = done ++ rest) (hf : f ∈ rest) :
    f.name ∉ done.map MigrationFile.name := by
  have hnames := dir.names
  rw [hfiles, List.map_append] at hnames
  exact fun hname => List.disjoint_of_nodup_append hnames hname (List.mem_map_of_mem hf)

theorem MigrationDir.steps_split (hfiles : dir.files = done ++ f :: rest) :
    dir.steps = done.flatMap MigrationFile.steps ++ f.steps ++
      rest.flatMap MigrationFile.steps := by
  simp [MigrationDir.steps, hfiles]

/-! ### How far the runs got -/

theorem MigrationDir.Progress.sound (h : dir.Progress react done rest part db) :
    dir.Sound react db := ⟨done, rest, part, h⟩

/-- The open transaction does not count. -/
theorem MigrationDir.Progress.of_eq (h : dir.Progress react done rest part db)
    (hhistory : db'.history = db.history) (hledger : db'.ledger = db.ledger) :
    dir.Progress react done rest part db' :=
  ⟨h.files, h.script, hhistory.trans h.history, hledger.trans h.ledger, hhistory ▸ h.accepted⟩

theorem sound_reopen (h : dir.Sound react db) : dir.Sound react db.reopen := by
  obtain ⟨done, rest, part, h⟩ := h
  exact ⟨done, rest, part, h.of_eq rfl rfl⟩

theorem sound_empty (dir : MigrationDir σ) : dir.Sound react .empty :=
  ⟨[], dir.files, [], rfl, List.nil_prefix, rfl, rfl, rfl⟩

theorem clean_empty : (MigrationDb.empty : MigrationDb σ).Clean react := by
  simp [MigrationDb.Clean, MigrationDb.empty]

/-- A statement of the part that was executed belongs to the next file. -/
theorem MigrationDir.Progress.next (h : dir.Progress react done rest part db)
    (hstep : step ∈ part) : ∃ f more, rest = f :: more ∧ step ∈ f.steps := by
  have hmem := h.script.subset hstep
  cases rest with
  | nil => simp at hmem
  | cons f more => exact ⟨f, more, rfl, by simpa using hmem⟩

theorem MigrationDir.Progress.file_notMem (h : dir.Progress react done rest part db)
    (hstep : step ∈ part) : step.file ∉ db.ledger := by
  obtain ⟨f, more, rfl, hf⟩ := h.next hstep
  rw [h.ledger, MigrationFile.file_of_mem_steps hf]
  exact MigrationDir.name_notMem h.files List.mem_cons_self

/-- On a clean database the part that was executed is ignored. -/
theorem MigrationDir.Progress.ignored (h : dir.Progress react done rest part db)
    (hclean : db.Clean react) :
    ∀ step ∈ part, step ∈ db.history ∧ db.reaction react step = .ignored := by
  intro step hstep
  have hmem : step ∈ db.history := h.history ▸ List.mem_append_right _ hstep
  exact ⟨hmem, hclean step hmem (h.file_notMem hstep)⟩

section
variable {run : List (MigrationStep σ)} (h : dir.Progress react done (f :: rest) run db)
  (hscript : f.steps = run ++ step :: steps)
include h hscript

theorem MigrationDir.Progress.notMem : step ∉ db.history := by
  have hnodup := dir.steps_nodup
  rw [dir.steps_split h.files, hscript, ← List.append_assoc, ← h.history] at hnodup
  exact fun hmem => List.disjoint_of_nodup_append (List.nodup_append.mp hnodup).1 hmem
    List.mem_cons_self

/-- A statement that comes next is refused only if the directory is. -/
theorem MigrationDir.Progress.ne_refused (hall : dir.accepted react = true) :
    db.reaction react step ≠ .refused := by
  rw [MigrationDir.accepted, dir.steps_split h.files, hscript, ← List.append_assoc,
    ← h.history] at hall
  simp only [List.map_append, List.map_cons, accepts_append, accepts, List.append_assoc,
    List.cons_append, List.nil_append, Bool.and_eq_true] at hall
  exact bne_iff_ne.mp hall.2.1

end

/-- Behind a database that is not clean the next run is obstructed. -/
theorem MigrationDir.Progress.obstructed (h : dir.Progress react done rest part db)
    (hpending : db.pending = []) (hclean : ¬ db.Clean react) :
    ∃ step more f good tail, dir.Obstructed react step done more f good tail db := by
  have hbad : ∃ step ∈ part, db.reaction react step ≠ .ignored := by
    by_contra hall
    refine hclean fun step hstep hfile => ?_
    rw [h.history, List.mem_append] at hstep
    rcases hstep with hdone | hpart
    · obtain ⟨f, hf, hstep⟩ := List.mem_flatMap.mp hdone
      rw [h.ledger, MigrationFile.file_of_mem_steps hstep] at hfile
      exact (hfile (List.mem_map_of_mem hf)).elim
    · by_contra hne
      exact hall ⟨step, hpart, hne⟩
  -- the first of them, in the order of the script
  have hfirst : (part.find? fun step => db.reaction react step != .ignored).isSome = true := by
    simpa using hbad
  obtain ⟨step, hfind⟩ := Option.isSome_iff_exists.mp hfirst
  obtain ⟨hfragile, good, more, rfl, hgood⟩ := List.find?_eq_some_iff_append.mp hfind
  obtain ⟨f, later, rfl, -⟩ := h.next (List.mem_append_right _ (List.mem_cons_self (a := step)))
  obtain ⟨back, hscript⟩ : good ++ step :: more <+: f.steps := by simpa using h.script
  have hmem : ∀ other ∈ good ++ step :: more, other ∈ db.history := fun other hother =>
    h.history ▸ List.mem_append_right _ hother
  exact ⟨step, later, f, good, more ++ back, h.files, h.ledger, hpending, by simp [← hscript],
    fun other hother => ⟨hmem other (by simp [hother]), by simpa using hgood other hother⟩,
    hmem step (by simp), by simpa using hfragile⟩

/-- The files that the ledger lists are passed over. -/
theorem applyFiles_append {applied : List String} (hdone : ∀ f ∈ done, f.name ∈ applied) :
    applyFiles applied (done ++ rest) = applyFiles applied rest := by
  induction done with
  | nil => rfl
  | cons f done ih =>
      obtain ⟨hname, hdone⟩ := List.forall_mem_cons.mp hdone
      rw [List.cons_append, applyFiles, if_pos (List.contains_iff_mem.mpr hname), ih hdone]

section
variable [DecidableEq σ]

/-! ### One call -/

/-- The rule for a call: it fails and leaves the database, or the database takes it. -/
theorem wpc_sqlite {C : MigrationDb σ → Prop} {op : MigrationCall σ}
    {Q : Except Exc op.Ans → MigrationDb σ → Prop} (hC : C db)
    (hfail : (calm = true → db.allows react op = false) → ∀ e, Q (.error e) db)
    (hok : db.allows react op = true →
      C (db.after react op) ∧ Q (.ok (db.answer op)) (db.after react op)) :
    wpc (MigrationDb.sqlite react calm) C (perform op) Q db := by
  refine wpc_of_perform hC ?_
  rintro r db' (⟨hallows, rfl, rfl⟩ | ⟨hcalm, hr, rfl⟩)
  · exact hok hallows
  · cases r with
    | ok _ => cases hr
    | error e => exact ⟨hC, hfail hcalm e⟩

theorem after_commit (h : db.pending = []) : db.after react .commit = db := by
  obtain ⟨history, ledger, pending⟩ := db
  obtain rfl : pending = [] := h
  simp [MigrationDb.after, MigrationDb.names]

/-- A commit without an open transaction changes nothing, and fails only if interfered with. -/
theorem wpc_commit {C : MigrationDb σ → Prop} {α : Type} {next : Unit → Proc (MigrationI σ) Exc α}
    {Q : Except Exc α → MigrationDb σ → Prop} (hC : C db) (hpending : db.pending = [])
    (hfail : calm = false → ∀ e, Q (.error e) db)
    (hnext : wpc (MigrationDb.sqlite react calm) C (next ()) Q db) :
    wpc (MigrationDb.sqlite react calm) C ((perform .commit).bind next) Q db := by
  refine (wpc_bind _ _ _ _).mpr (wpc_sqlite hC (fun hcalm => ?_) fun _ => ?_)
  · refine hfail (Bool.eq_false_iff.mpr fun htrue => ?_)
    cases hcalm htrue
  · rw [after_commit hpending]
    exact ⟨hC, hnext⟩

/-- The start of a run. -/
theorem wpc_applyMigrations {C : MigrationDb σ → Prop}
    {Q : Except Exc (List String) → MigrationDb σ → Prop} (hC : C db) (hpending : db.pending = [])
    (hfail : calm = false → ∀ e, Q (.error e) db)
    (hfiles : wpc (MigrationDb.sqlite react calm) C (applyFiles db.ledger dir.files) Q db) :
    wpc (MigrationDb.sqlite react calm) C (applyMigrations dir) Q db := by
  have hstop : (calm = true → true = false) → ∀ e, Q (.error e) db := by
    refine fun hcalm => hfail (Bool.eq_false_iff.mpr fun htrue => ?_)
    cases hcalm htrue
  have hnames : db.names = db.ledger := by simp [MigrationDb.names, hpending]
  refine wpc_commit hC hpending hfail ?_
  refine (wpc_bind _ _ _ _).mpr (wpc_sqlite hC hstop fun _ => ⟨hC, ?_⟩)
  refine wpc_commit hC hpending hfail ?_
  refine (wpc_bind _ _ _ _).mpr (wpc_sqlite hC hstop fun _ => ⟨hC, ?_⟩)
  rw [← hnames] at hfiles
  exact hfiles

/-- Statements that are ignored leave the database. -/
theorem wpc_executeAll_ignored {C : MigrationDb σ → Prop}
    {Q : Except Exc Unit → MigrationDb σ → Prop} (hC : C db)
    (hignored : ∀ step ∈ good, step ∈ db.history ∧ db.reaction react step = .ignored)
    (hfail : calm = false → ∀ e, Q (.error e) db)
    (htail : wpc (MigrationDb.sqlite react calm) C (executeAll tail) Q db) :
    wpc (MigrationDb.sqlite react calm) C (executeAll (good ++ tail)) Q db := by
  induction good with
  | nil => exact htail
  | cons step good ih =>
      obtain ⟨⟨hmem, hstep⟩, hignored⟩ := List.forall_mem_cons.mp hignored
      refine (wpc_bind _ _ _ _).mpr (wpc_sqlite hC (fun hcalm => ?_) fun _ => ?_)
      · refine hfail (Bool.eq_false_iff.mpr fun htrue => ?_)
        simpa [MigrationDb.allows, hstep] using hcalm htrue
      · have hafter : db.after react (.execute step) = db := if_pos ⟨hstep, hmem⟩
        rw [hafter]
        exact ⟨hC, ih hignored⟩

/-! ### From a clean database -/

/-- A statement that comes next and is not refused. -/
theorem MigrationDir.Progress.execute {run : List (MigrationStep σ)}
    (h : dir.Progress react done (f :: rest) run db) (hscript : f.steps = run ++ step :: steps)
    (hno : db.reaction react step ≠ .refused) :
    dir.Progress react done (f :: rest) (run ++ [step]) (db.after react (.execute step)) := by
  have hafter : db.after react (.execute step) = { db with history := db.history ++ [step] } :=
    if_neg fun hmem => h.notMem hscript hmem.2
  rw [hafter]
  refine ⟨h.files, by simp [hscript], by simp [h.history], h.ledger, ?_⟩
  rw [List.map_append, accepts_append, h.accepted]
  simp only [List.nil_append, List.map_cons, List.map_nil, accepts, Bool.and_true, Bool.true_and]
  exact bne_iff_ne.mpr hno

/-- The statements that are left of a file. -/
theorem wpc_executeAll {run : List (MigrationStep σ)} (hscript : f.steps = run ++ steps)
    (h : dir.Progress react done (f :: rest) run db) (hpending : db.pending = []) :
    wpc (MigrationDb.sqlite react calm) (dir.Sound react) (executeAll steps)
      (fun r db' => (calm = true → dir.accepted react = true → r.isOk = true) ∧
        (r.isOk = true → dir.Progress react done (f :: rest) f.steps db' ∧ db'.pending = [])) db := by
  induction steps generalizing db run with
  | nil =>
      have hrun : f.steps = run := by simpa using hscript
      exact ⟨h.sound, fun _ _ => rfl, fun _ => ⟨hrun ▸ h, hpending⟩⟩
  | cons step steps ih =>
      refine (wpc_bind _ _ _ _).mpr (wpc_sqlite h.sound (fun hcalm e => ?_) fun hallows => ?_)
      · refine ⟨fun htrue hall => ?_, fun hok => by cases hok⟩
        have hrefused : db.reaction react step = .refused := by
          simpa [MigrationDb.allows] using hcalm htrue
        exact (h.ne_refused hscript hall hrefused).elim
      · have hno : db.reaction react step ≠ .refused := by
          simpa [MigrationDb.allows] using hallows
        have hnext := h.execute hscript hno
        refine ⟨hnext.sound, ih (by simp [hscript]) hnext ?_⟩
        simp only [MigrationDb.after]
        split_ifs
        · exact hpending
        · exact hpending

/-- The script and the entry of the next file, when what was executed of it is ignored. -/
theorem wpc_applyFile (h : dir.Progress react done (f :: rest) part db)
    (hpending : db.pending = [])
    (hignored : ∀ step ∈ part, step ∈ db.history ∧ db.reaction react step = .ignored) :
    wpc (MigrationDb.sqlite react calm) (dir.Sound react) (applyFile f)
      (fun r db' => (calm = true → dir.accepted react = true → r.isOk = true) ∧ (r.isOk = true →
        dir.Progress react (done ++ [f]) rest [] db' ∧ db'.pending = [])) db := by
  have hstop : ∀ {P : Prop}, (calm = true → true = false) → ∀ e : Exc,
      (calm = true → dir.accepted react = true → (Except.error e : Except Exc Unit).isOk = true) ∧
        ((Except.error e : Except Exc Unit).isOk = true → P) := by
    refine fun hcalm e => ⟨fun htrue _ => ?_, fun hok => by cases hok⟩
    cases hcalm htrue
  obtain ⟨left, hscript⟩ : part <+: f.steps := by simpa using h.script
  refine wpc_seq (R := fun r db' => (calm = true → dir.accepted react = true → r.isOk = true) ∧
    (r.isOk = true → dir.Progress react done (f :: rest) f.steps db' ∧ db'.pending = [])) ?_ ?_ ?_
  · refine wpc_commit h.sound hpending (fun hcalm e => ?_) ?_
    · exact hstop (fun htrue => by simp [hcalm] at htrue) e
    · rw [← hscript]
      refine wpc_executeAll_ignored h.sound hignored (fun hcalm e => ?_) ?_
      · exact hstop (fun htrue => by simp [hcalm] at htrue) e
      · rw [hscript]
        exact wpc_executeAll hscript.symm h hpending
  · rintro _ db₁ - ⟨-, hdone⟩
    obtain ⟨h₁, hpending₁⟩ := hdone rfl
    have hname : f.name ∉ db₁.names := by
      rw [MigrationDb.names, hpending₁, List.append_nil, h₁.ledger]
      exact MigrationDir.name_notMem h.files List.mem_cons_self
    refine (wpc_bind _ _ _ _).mpr (wpc_sqlite h₁.sound (fun hcalm => hstop fun htrue => ?_) fun _ => ?_)
    · simpa [MigrationDb.allows, hname] using hcalm htrue
    have hinserted : dir.Progress react done (f :: rest) f.steps
        (db₁.after react (.insertName f.name)) := h₁.of_eq rfl rfl
    refine ⟨hinserted.sound, wpc_sqlite hinserted.sound hstop fun _ => ?_⟩
    have hrecorded : dir.Progress react (done ++ [f]) rest []
        ((db₁.after react (.insertName f.name)).after react .commit) :=
      ⟨by simp [h.files], List.nil_prefix, by simp [h₁.history, MigrationDb.after],
        by simp [h₁.ledger, hpending₁, MigrationDb.after, MigrationDb.names], h₁.accepted⟩
    exact ⟨hrecorded.sound, fun _ _ => rfl, fun _ => ⟨hrecorded, rfl⟩⟩
  · exact fun e db₁ _ herror => ⟨herror.1, fun hok => by cases hok⟩

/-- The loop over the files that the ledger does not list. -/
theorem wpc_applyFiles {applied : List String} (h : dir.Progress react done rest part db)
    (hpending : db.pending = []) (hnew : ∀ f ∈ rest, f.name ∉ applied)
    (hignored : ∀ step ∈ part, step ∈ db.history ∧ db.reaction react step = .ignored) :
    wpc (MigrationDb.sqlite react calm) (dir.Sound react) (applyFiles applied rest)
      (fun r db' => calm = true → dir.accepted react = true → r.isOk = true ∧
        dir.Progress react dir.files [] [] db') db := by
  induction rest generalizing done part db with
  | nil =>
      obtain rfl : part = [] := by simpa using h.script
      have hall : dir.files = done := by simpa using h.files
      exact ⟨h.sound, fun _ _ => ⟨rfl, hall ▸ h⟩⟩
  | cons f rest ih =>
      obtain ⟨hname, hnew⟩ := List.forall_mem_cons.mp hnew
      rw [applyFiles, if_neg (mt List.contains_iff_mem.mp hname)]
      refine wpc_seq (wpc_applyFile h hpending hignored) ?_ ?_
      · rintro _ db₁ - ⟨-, hdone⟩
        obtain ⟨h₁, hpending₁⟩ := hdone rfl
        refine wpc_seq (ih h₁ hpending₁ hnew (by simp)) ?_ ?_
        · intro newly db₂ hsound hall
          exact ⟨hsound, fun hcalm haccepted => ⟨rfl, (hall hcalm haccepted).2⟩⟩
        · intro e db₂ _ herror hcalm haccepted
          cases (herror hcalm haccepted).1
      · intro e db₁ _ herror hcalm haccepted
        cases herror.1 hcalm haccepted

/-- Complete is what has got to the end of the files. -/
theorem MigrationDir.Progress.complete (h : dir.Progress react dir.files [] [] db) :
    dir.Complete db := by
  have hhistory : db.history = dir.steps := h.history.trans (List.append_nil _)
  intro f hf
  refine ⟨h.ledger ▸ List.mem_map_of_mem hf, fun step hstep => ?_⟩
  rw [hhistory]
  exact List.count_eq_one_of_mem dir.steps_nodup (List.mem_flatMap.mpr ⟨f, hf, hstep⟩)

theorem MigrationDir.Complete.accepted (hcomplete : dir.Complete db) (hsound : dir.Sound react db) :
    dir.accepted react = true := by
  obtain ⟨done, rest, part, h⟩ := hsound
  -- no file is left, since the ledger has the first ones only
  cases rest with
  | cons f rest =>
      have hname := (hcomplete f (by simp [h.files])).1
      rw [h.ledger] at hname
      exact (MigrationDir.name_notMem h.files List.mem_cons_self hname).elim
  | nil =>
      obtain rfl : part = [] := by simpa using h.script
      have hhistory : db.history = dir.steps := by
        simpa [MigrationDir.steps, h.files] using h.history
      rw [MigrationDir.accepted, ← hhistory]
      exact h.accepted

/-- A run on a clean database keeps it sound, and completes unless it is interrupted or a
statement is refused. -/
theorem wpc_applyMigrations_clean (hsound : dir.Sound react db) (hpending : db.pending = [])
    (hclean : db.Clean react) :
    wpc (MigrationDb.sqlite react calm) (dir.Sound react) (applyMigrations dir)
      (fun _ db' => calm = true → dir.accepted react = true → dir.Complete db') db := by
  obtain ⟨done, rest, part, h⟩ := hsound
  refine wpc_applyMigrations h.sound hpending (fun hcalm _ htrue => by simp [hcalm] at htrue) ?_
  rw [h.files, applyFiles_append fun f hf => h.ledger ▸ List.mem_map_of_mem hf]
  refine wpc_post (wpc_applyFiles h hpending (fun f hf => ?_) (h.ignored hclean)) ?_
  · exact h.ledger ▸ MigrationDir.name_notMem h.files hf
  · exact fun r db' _ hall hcalm haccepted => (hall hcalm haccepted).2.complete

/-! ### From a database that is not clean -/

/-- A statement that has had its effect twice has had it twice ever after. -/
theorem wpc_twice {α : Type} (p : Proc (MigrationI σ) Exc α) (h : 2 ≤ db.history.count step) :
    wpc (MigrationDb.sqlite react calm) (fun db => 2 ≤ db.history.count step) p
      (fun _ db => 2 ≤ db.history.count step) db := by
  refine wpc_of_only (fun op db r db' _ htwice hstep => ?_) p.only_true h
  rcases hstep with ⟨-, -, rfl⟩ | ⟨-, -, rfl⟩
  · cases op with
    | execute other =>
        simp only [MigrationDb.after]
        split_ifs
        · exact htwice
        · exact htwice.trans ((List.prefix_append _ _).sublist.count_le _)
    | _ => exact htwice
  · exact htwice

/-- From a database only itself is reached, or one where the statement has had its effect twice. -/
def MigrationDb.Spoils (start : MigrationDb σ) (step : MigrationStep σ) (db : MigrationDb σ) :
    Prop :=
  db = start ∨ 2 ≤ db.history.count step

theorem wpc_spoiled_of_twice {α : Type} {start : MigrationDb σ} (p : Proc (MigrationI σ) Exc α)
    (h : 2 ≤ db.history.count step) :
    wpc (MigrationDb.sqlite react calm) (start.Spoils step) p
      (fun _ db => 2 ≤ db.history.count step) db :=
  wpc_mono (wpc_twice p h) (fun _ => Or.inr) fun _ _ _ htwice => htwice

/-- The script that a run executes again stops at the statement, or has it counted again. -/
theorem wpc_applyFile_obstructed (h : dir.Obstructed react step done rest f good tail db) :
    wpc (MigrationDb.sqlite react calm) (db.Spoils step) (applyFile f)
      (fun r db' => r.isOk = true → 2 ≤ db'.history.count step) db := by
  have hstart : db.Spoils step db := .inl rfl
  refine wpc_seq (R := fun r db' => r.isOk = true → 2 ≤ db'.history.count step) ?_ ?_ ?_
  · refine wpc_commit hstart h.pending (fun _ e hok => by cases hok) ?_
    rw [h.script]
    refine wpc_executeAll_ignored hstart h.ignored (fun _ e hok => by cases hok) ?_
    refine (wpc_bind _ _ _ _).mpr (wpc_sqlite hstart (fun _ e hok => by cases hok) fun _ => ?_)
    have hafter : db.after react (.execute step) = { db with history := db.history ++ [step] } :=
      if_neg fun hmem => h.fragile hmem.1
    have htwice : 2 ≤ (db.after react (.execute step)).history.count step := by
      rw [hafter, List.count_append, List.count_singleton_self]
      exact Nat.succ_le_succ (List.count_pos_iff.mpr h.again)
    exact ⟨.inr htwice, wpc_post (wpc_spoiled_of_twice _ htwice) fun _ _ _ htwice _ => htwice⟩
  · intro _ db₁ _ htwice
    exact wpc_post (wpc_spoiled_of_twice _ (htwice rfl)) fun _ _ _ htwice _ => htwice
  · exact fun e db₁ _ _ hok => by cases hok

/-- No run mends an obstructed database. -/
theorem wpc_applyMigrations_obstructed {start : MigrationDb σ}
    (h : dir.Obstructed react step done rest f good tail start) (hspoiled : start.Spoils step db) :
    wpc (MigrationDb.sqlite react calm) (start.Spoils step) (applyMigrations dir)
      (fun _ _ => True) db := by
  rcases hspoiled with rfl | htwice
  · refine wpc_applyMigrations (.inl rfl) h.pending (fun _ _ => trivial) ?_
    rw [h.files, applyFiles_append fun f hf => h.ledger ▸ List.mem_map_of_mem hf, applyFiles,
      if_neg (mt List.contains_iff_mem.mp
        (h.ledger ▸ MigrationDir.name_notMem h.files List.mem_cons_self))]
    refine wpc_seq (wpc_applyFile_obstructed h) (fun _ db₁ _ htwice => ?_) fun _ _ _ _ => trivial
    exact wpc_post (wpc_spoiled_of_twice _ (htwice rfl)) fun _ _ _ _ => trivial
  · exact wpc_post (wpc_spoiled_of_twice _ htwice) fun _ _ _ _ => trivial

/-! ### Runs -/

/-- Runs one after the other, each of them possibly interrupted, with the database that each
of them leaves. -/
inductive Interrupted (react : List σ → σ → Reaction) (dir : MigrationDir σ) :
    MigrationDb σ → List (MigrationDb σ) → MigrationDb σ → Prop
  | nil (start) : Interrupted react dir start [] start
  | run {start left last out stops}
      (exec : Exec (MigrationDb.sqlite react false) (applyMigrations dir) start out left)
      (tail : Interrupted react dir left.reopen stops last) :
      Interrupted react dir start (left.reopen :: stops) last

/-- A database that no run completes any more. -/
def MigrationDir.Stuck (dir : MigrationDir σ) (react : List σ → σ → Reaction)
    (db : MigrationDb σ) : Prop :=
  ∃ start step done rest f good tail,
    dir.Obstructed react step done rest f good tail start ∧ start.Spoils step db

theorem MigrationDir.Stuck.exec {out : Option (Except Exc (List String))}
    (h : dir.Stuck react db)
    (exec : Exec (MigrationDb.sqlite react calm) (applyMigrations dir) db out db') :
    dir.Stuck react db' := by
  obtain ⟨start, step, done, rest, f, good, tail, hobstructed, hspoiled⟩ := h
  exact ⟨start, step, done, rest, f, good, tail, hobstructed,
    (wpc_sound exec (wpc_applyMigrations_obstructed hobstructed hspoiled)).1⟩

theorem MigrationDir.Stuck.reopen (h : dir.Stuck react db) : dir.Stuck react db.reopen := by
  obtain ⟨start, step, done, rest, f, good, tail, hobstructed, rfl | htwice⟩ := h
  · refine ⟨_, step, done, rest, f, good, tail, hobstructed, .inl ?_⟩
    rw [MigrationDb.reopen, ← hobstructed.pending]
  · exact ⟨start, step, done, rest, f, good, tail, hobstructed, .inr htwice⟩

theorem MigrationDir.Stuck.not_complete (h : dir.Stuck react db) : ¬ dir.Complete db := by
  obtain ⟨start, step, done, rest, f, good, tail, hobstructed, hspoiled⟩ := h
  have hf : f ∈ dir.files := by simp [hobstructed.files]
  intro hcomplete
  obtain ⟨hname, hone⟩ := hcomplete f hf
  rcases hspoiled with rfl | htwice
  · rw [hobstructed.ledger] at hname
    exact MigrationDir.name_notMem hobstructed.files List.mem_cons_self hname
  · rw [hone step (by simp [hobstructed.script])] at htwice
    omega

theorem interrupted_stuck {stops : List (MigrationDb σ)}
    (runs : Interrupted react dir db stops db') (h : dir.Stuck react db) : dir.Stuck react db' := by
  induction runs with
  | nil => exact h
  | run exec tail ih => exact ih (h.exec exec).reopen

/-- After clean stops the database is sound and clean; a stop that is not clean leaves it stuck. -/
theorem interrupted_cases {stops : List (MigrationDb σ)}
    (runs : Interrupted react dir db stops db') (hsound : dir.Sound react db)
    (hpending : db.pending = []) (hclean : db.Clean react) :
    ((∀ stop ∈ stops, stop.Clean react) ∧ dir.Sound react db' ∧ db'.pending = [] ∧
      db'.Clean react) ∨ (¬ ∀ stop ∈ stops, stop.Clean react) ∧ dir.Stuck react db' := by
  induction runs with
  | nil => exact .inl ⟨by simp, hsound, hpending, hclean⟩
  | @run start left last out stops exec tail ih =>
      have hleft : dir.Sound react left.reopen :=
        sound_reopen (wpc_sound exec (wpc_applyMigrations_clean hsound hpending hclean)).1
      by_cases hstop : left.reopen.Clean react
      · simpa [hstop] using ih hleft rfl hstop
      · right
        obtain ⟨done, rest, part, h⟩ := hleft
        obtain ⟨step, more, f, good, tail', hobstructed⟩ := h.obstructed rfl hstop
        refine ⟨fun hall => hstop (hall _ List.mem_cons_self), interrupted_stuck tail ?_⟩
        exact ⟨_, step, done, more, f, good, tail', hobstructed, .inl rfl⟩

/-- After interrupted runs, a run that is not interrupted completes the migrations exactly if the
database takes the statements in their order, and every interrupted run stopped clean. -/
theorem complete_iff {stops : List (MigrationDb σ)} {out : Except Exc (List String)}
    (runs : Interrupted react dir .empty stops db)
    (exec : Exec (MigrationDb.sqlite react true) (applyMigrations dir) db (some out) db') :
    dir.Complete db' ↔
      dir.accepted react = true ∧ ∀ stop ∈ stops, stop.Clean react := by
  rcases interrupted_cases runs (sound_empty dir) rfl clean_empty with
    ⟨hstops, hsound, hpending, hclean⟩ | ⟨hstops, hstuck⟩
  · have hrun : wpc (MigrationDb.sqlite react true) (dir.Sound react) (applyMigrations dir)
        (fun _ db' => true = true → dir.accepted react = true → dir.Complete db') db :=
      wpc_applyMigrations_clean hsound hpending hclean
    have hsound' := (wpc_sound exec hrun).1
    exact ⟨fun hcomplete => ⟨hcomplete.accepted hsound', hstops⟩,
      fun h => wp_sound exec hrun rfl h.1⟩
  · exact ⟨fun hcomplete => ((hstuck.exec exec).not_complete hcomplete).elim,
      fun h => (hstops h.2).elim⟩

/-- A database that takes what it can, as an environment. -/
def sqliteEnv (react : List σ → σ → Reaction) (op : MigrationCall σ) (db : MigrationDb σ) :
    Except Exc op.Ans × MigrationDb σ :=
  if db.allows react op then (.ok (db.answer op), db.after react op)
  else (.error ⟨.other "OperationalError", []⟩, db)

theorem sqliteEnv_step (calm : Bool) (op : MigrationCall σ) (db : MigrationDb σ) :
    MigrationDb.sqlite react calm db op (sqliteEnv react op db).1 (sqliteEnv react op db).2 := by
  unfold sqliteEnv
  split_ifs with hallows
  · exact .inl ⟨hallows, rfl, rfl⟩
  · exact .inr ⟨fun _ => Bool.not_eq_true _ ▸ hallows, rfl, rfl⟩

end

/-- What a run leaves that dies after some calls on an empty database. -/
def diesAfter (calls : ℕ) : MigrationDb Ddl :=
  (applyMigrations sqliteMigrations).runFor (sqliteEnv Ddl.reaction) calls .empty

theorem diesAfter_interrupted (calls : ℕ) : Interrupted Ddl.reaction sqliteMigrations .empty
    [(diesAfter calls).reopen] (diesAfter calls).reopen :=
  .run (exec_runFor (sqliteEnv_step false) calls (applyMigrations sqliteMigrations) .empty)
    (.nil _)

/-- A run that dies after the script of the file and before its entry: the next one executes
the script again, and a column that is there is refused. -/
theorem migration_dies_before_entry :
    ¬ ∀ (dir : MigrationDir Ddl) (stops : List (MigrationDb Ddl)) (db db' : MigrationDb Ddl)
      (out : Except Exc (List String)), dir.accepted Ddl.reaction = true →
      Interrupted Ddl.reaction dir .empty stops db →
      Exec (MigrationDb.sqlite Ddl.reaction true) (applyMigrations dir) db (some out) db' →
      dir.Complete db' := by
  intro h
  have runs := diesAfter_interrupted 23
  have exec : Exec (MigrationDb.sqlite Ddl.reaction true) (applyMigrations sqliteMigrations)
      (diesAfter 23).reopen (some _) _ := exec_run (sqliteEnv_step true) _ _
  have hcomplete := h _ _ _ _ _ (by decide +kernel) runs exec
  have hname := (hcomplete _ List.mem_cons_self).1
  revert hname
  decide +kernel

/-- A run that dies behind `IF NOT EXISTS` is completed. -/
theorem complete_iff_after_create :
    sqliteMigrations.Complete ((applyMigrations sqliteMigrations).run (sqliteEnv Ddl.reaction)
      (diesAfter 6).reopen).2 := by
  refine (complete_iff (diesAfter_interrupted 6) (exec_run (sqliteEnv_step true)
    (applyMigrations sqliteMigrations) (diesAfter 6).reopen)).mpr ⟨by decide +kernel, ?_⟩
  intro stop hstop
  rw [List.mem_singleton.mp hstop]
  unfold MigrationDb.Clean
  decide +kernel

end System2
