import Proxyma.Storage.BlobSafety

/-!
# Staged outputs of another task

A pipeline step stages its output and then records it in a checkpoint.  Between
the two, only the `stage/` entry in the index refers to the blob, and two tasks
with equal outputs share blob and entry.  A prune of the other task removes the
entry and queues the blob; if its sweep reads the references before the
checkpoint has been written, the blob is gone.

A blob that StageLocalFile has returned is present (`stage_staged`).  It stays
as long as no sweep finds it pending and unreferenced, which is the contract
`survival`; once a task's record protects it, no sweep does.
-/

namespace Proxyma.Storage

open Keyed Atomic Atomic.Prog

variable {baseDir : CleanPath}
variable {s s' : State} {hash : String} {record : TaskJournalRecord} {m m' : Machine Action State}

/-! ## Sweeps that spare a blob -/

/-- Only the pending list changes, and the blob stays. -/
structure Spares (baseDir : CleanPath) (hash : Digest) (s s' : State) : Prop where
  db : s'.db = { s.db with pendingBlobGC := s'.db.pendingBlobGC }
  hashes : HashInv s.db → HashInv s'.db
  disk : baseDir.join hash.text ∈ s.disk.files → baseDir.join hash.text ∈ s'.disk.files

theorem Spares.refl (hash : Digest) (s : State) : Spares baseDir hash s s := ⟨rfl, id, id⟩

theorem spares_deleteBlob {hash : Digest} (caller : Deleter) {other : String}
    (hother : HashOk other) (hne : other ≠ hash.text) (s : State) :
    Spares baseDir hash s ((engine baseDir).exec (.deleteBlob caller other) s).2 := by
  rcases exec_deleteBlob_snd baseDir caller other s with hexec | hexec <;> rw [hexec]
  · exact .refl hash s
  · refine ⟨rfl, id, fun hfile => Disk.mem_files_deleteBlob hfile fun heq => ?_⟩
    rcases hother with rfl | hdigest
    · exact join_ne_self hash.isDigest.plain heq
    · exact hne (CleanPath.join_injective hash.isDigest.plain hdigest.plain heq).symm

/-- A sweep spares a blob that its scan does not find unreferenced. -/
theorem sweep_spares {c : Contract Action State} {inv : State → Prop} (hc : c.Regular inv)
    (hash : Digest) (hhashes : ∀ {s}, inv s → HashInv s.db)
    (hscan : ∀ {s}, inv s → c.assume (.view fun db => .ok (scanPendingBlobGC db)) s →
      s.db.pendingBlobGC.has hash.text = true → sweepReferences s.db hash.text = true)
    (hkeeps : ∀ {s s'}, inv s → Spares baseDir hash s s' → c.guarantee s s' ∧ inv s') :
    Keeps (engine baseDir) c inv (fun _ => True) sweepPendingBlobGCLocked := by
  refine sweep_keeps hc (fun _ other => IsDigest other ∧ other ≠ hash.text)
    (fun hs => (hkeeps hs (.refl hash _)).1) ?_ (fun _ _ hmark => hmark) ?_ ?_
  · refine fun hs hassume other hpending href => ⟨(hhashes hs).pending other hpending, ?_⟩
    rintro rfl
    exact Bool.false_ne_true (href.symm.trans (hscan hs hassume hpending))
  · intro s other hs hmark _
    obtain ⟨hguar, hinv⟩ := hkeeps hs (spares_deleteBlob .sweep (.inr hmark.1) hmark.2 s)
    exact ⟨hguar, hinv, fun _ => id⟩
  · rintro s _ completed hs ⟨⟩
    exact hkeeps hs ⟨rfl, fun h => h.clear completed, id⟩

/-! ## Staging -/

/-- What an operation can count on while others work beside it. -/
structure Beside (s s' : State) : Prop where
  hashes : HashInv s.db → HashInv s'.db
  index : s'.db.index = s.db.index
  files : s.disk.files ⊆ s'.disk.files

theorem Beside.refl (s : State) : Beside s s := ⟨id, rfl, Finset.Subset.refl _⟩

theorem Beside.trans {a b d : State} (hab : Beside a b) (hbd : Beside b d) : Beside a d :=
  ⟨hbd.hashes ∘ hab.hashes, hbd.index.trans hab.index, hab.files.trans hbd.files⟩

theorem Unlocked.beside (h : Unlocked baseDir s s') : Beside s s' :=
  ⟨fun hs => hs.unlocked h, h.vfs.1, h.disk.1⟩

/-- Staging by itself: nothing is promised, any checkpoint may interfere. -/
def staging : Contract Action State where
  assume := fun _ _ => True
  rely := Beside
  guarantee := fun _ _ => True

/-- The blob is there, and a live entry refers to it. -/
structure Staged (baseDir : CleanPath) (hash : Digest) (s : State) : Prop where
  hashes : HashInv s.db
  file : baseDir.join hash.text ∈ s.disk.files
  entry : ∃ name entry, s.db.index.get name = some entry ∧ entry.deleted = false ∧
    entry.hash = hash.text

theorem regular_staging (hash : Digest) : staging.Regular (Staged baseDir hash) where
  refl := Beside.refl
  trans := Beside.trans
  inv := fun hrely hs => ⟨hrely.hashes hs.hashes, hrely.files hs.file, hrely.index ▸ hs.entry⟩

theorem sweep_staged (hash : Digest) : Keeps (engine baseDir) staging (Staged baseDir hash)
    (fun _ => True) sweepPendingBlobGCLocked := by
  refine sweep_spares (regular_staging hash) hash (fun hs => hs.hashes) ?_ ?_
  · intro s hs _ _
    obtain ⟨name, entry, hget, hlive, hhash⟩ := hs.entry
    by_contra href
    exact (sweepReferences_eq_false.1 (Bool.eq_false_iff.2 href)).1 name entry hget hlive hhash
  · intro s s' hs hspares
    refine ⟨trivial, hspares.hashes hs.hashes, hspares.disk hs.file, ?_⟩
    rw [hspares.db]
    exact hs.entry

theorem commitSubscribed_staged (hs : HashInv s.db) (pathStr : String) (content : Blob)
    (hfile : baseDir.join content.hash.text ∈ s.disk.files) :
    Safe (engine baseDir) staging
      (fun out s' => out.2 = none → Staged baseDir content.hash s')
      (commitSubscribed (stagedEntry pathStr content)) s := by
  refine safe_perform_bind fun s' hrely _ => ⟨trivial, ?_⟩
  rcases exec_update_cases baseDir (upsertAndSubscribeTx (stagedEntry pathStr content)) s' with
    ⟨err, hexec⟩ | ⟨result, db, -, hok, hexec⟩ <;> rw [hexec]
  · exact fun _ _ hnone => by cases hnone
  -- An entry without a version is always written.
  rcases upsert_cases (stagedEntry pathStr content) s'.db with ⟨current, -, heff, -, -⟩ |
    ⟨written, heff, ⟨-, -, htx⟩ | ⟨-, -, err, htx⟩⟩
  · simp [effectiveEntry, stagedEntry, savedEntry] at heff
  · have hwritten := effectiveEntry_eq heff
    have hcommits := Commits.upsertAndSubscribe (.inr content.hash.isDigest) hok
    have hstaged : Staged baseDir content.hash { s' with db := db } := by
      refine ⟨(hrely.hashes hs).commits hcommits, hrely.files hfile,
        (stagedEntry pathStr content).name, written, ?_,
        congrArg IndexEntry.deleted hwritten, congrArg IndexEntry.hash hwritten⟩
      cases htx.symm.trans hok
      simp [Database.write]
    cases htx.symm.trans hok
    refine (sweep_staged content.hash _ hstaged).bind Beside.refl fun r t ht => ?_
    cases r with
    | some err => exact fun _ _ hnone => by cases hnone
    | none => exact fun t' hrely' _ => (regular_staging content.hash).inv hrely' ht.2
  · cases htx.symm.trans hok

/-- A staging that returns has left the blob in place, whatever else went on. -/
theorem stage_staged (hs : HashInv s.db) (pathStr : String) (content : Blob) :
    Safe (engine baseDir) staging
      (fun r s' => r = .ok content → Staged baseDir content.hash s')
      (stageLocalFileLocked pathStr content) s := by
  have hfailed : ∀ (t : State) (err : GoError), Safe (engine baseDir) staging
      (fun r s' => r = Except.ok content → Staged baseDir content.hash s')
      (.ret (.error err)) t := fun _ _ _ _ hok => by cases hok
  refine safe_perform_bind fun s' hrely _ => ⟨trivial, ?_⟩
  rcases exec_commit_cases baseDir content.hash s' with ⟨err, hexec⟩ | hexec <;> rw [hexec]
  · exact hfailed s' err
  have hcommit := commitSubscribed_staged
    (s := { s' with disk := (s'.disk.commit baseDir content.hash).2 })
    (hrely.hashes hs) pathStr content (Disk.mem_files_commit _ _ _)
  refine hcommit.bind Beside.refl fun out t ht => ?_
  obtain ⟨result, _ | err⟩ := out
  · exact fun t' hrely' _ => (regular_staging content.hash).inv hrely' (ht rfl)
  dsimp only
  split_ifs
  · exact hfailed t err
  unfold compensatePhysicalBlob
  split_ifs
  · exact hfailed t err
  · refine fun t' _ _ => ⟨trivial, ?_⟩
    cases ((engine baseDir).exec (.deleteBlob .compensate content.hash.text) t').1 <;>
      exact hfailed _ _

/-! ## Survival -/

/-- The read transaction of the sweep. -/
inductive Scans : {β : Type} → Action β → Prop
  | intro : Scans (.view fun db => .ok (scanPendingBlobGC db))

/-- No orphan deletion takes the blob. -/
def SparesOrphan (hash : Digest) : {β : Type} → Action β → State → Prop
  | _, .deleteBlob .orphan other, _ => other ≠ hash.text
  | _, _, _ => True

/-- Moreover, no sweep reads that the blob is pending and nothing refers to it. -/
def Unswept (hash : Digest) {β : Type} (e : Action β) (s : State) : Prop :=
  SparesOrphan hash e s ∧ (Scans e → s.db.pendingBlobGC.has hash.text = true →
    sweepReferences s.db hash.text = true)

/-- The blob is there. -/
def Present (baseDir : CleanPath) (hash : Digest) (s : State) : Prop :=
  baseDir.join hash.text ∈ s.disk.files

instance (baseDir : CleanPath) (hash : Digest) (s : State) : Decidable (Present baseDir hash s) :=
  inferInstanceAs (Decidable (_ ∈ _))

/-- The contract under which a blob survives.  No operation changes the records
of tasks. -/
def survival (baseDir : CleanPath) (hash : Digest) : Contract Action State where
  assume := Unswept hash
  rely := Beside
  guarantee := fun s s' =>
    (Present baseDir hash s → Present baseDir hash s') ∧
      s'.db.tasksActive = s.db.tasksActive ∧ s'.db.tasksHistory = s.db.tasksHistory

theorem regular_survival (hash : Digest) :
    (survival baseDir hash).Regular fun s => HashInv s.db ∧ Present baseDir hash s where
  refl := Beside.refl
  trans := Beside.trans
  inv := fun hrely hs => ⟨hrely.hashes hs.1, hrely.files hs.2⟩

theorem Spares.survival {hash : Digest} (h : Spares baseDir hash s s')
    (hs : HashInv s.db ∧ Present baseDir hash s) :
    (survival baseDir hash).guarantee s s' ∧ HashInv s'.db ∧ Present baseDir hash s' :=
  ⟨⟨h.disk, by rw [h.db], by rw [h.db]⟩, h.hashes hs.1, h.disk hs.2⟩

theorem Commits.tasks {db db' : Database} (h : Commits db db') :
    db'.tasksActive = db.tasksActive ∧ db'.tasksHistory = db.tasksHistory := by
  rcases h.cases with ⟨name, written, -, rfl | rfl⟩ | ⟨_, _, rfl⟩ | ⟨_, _, -, rfl⟩ <;>
    exact ⟨rfl, rfl⟩

theorem primitives_survival (hash : Digest) :
    Primitives baseDir (survival baseDir hash) (fun s => HashInv s.db ∧ Present baseDir hash s)
      fun other => other.text ≠ hash.text where
  regular := regular_survival hash
  hashes := fun hs => hs.1
  commits := fun hs hcommits => ⟨⟨id, hcommits.tasks⟩, hs.1.commits hcommits, hs.2⟩
  frame := fun hs hdb hdisk =>
    ⟨⟨fun h => by rwa [Present, hdisk], by rw [hdb], by rw [hdb]⟩, hdb ▸ hs.1,
      by rw [Present, hdisk]; exact hs.2⟩
  commit := fun other => by
    refine (regular_survival hash).perform fun s hs _ => ?_
    rcases exec_commit_cases baseDir other s with ⟨err, hexec⟩ | hexec <;> rw [hexec]
    · exact ⟨⟨id, rfl, rfl⟩, hs, fun h => by cases h⟩
    have hgrows := Disk.files_subset_commit s.disk baseDir other
    refine ⟨⟨fun h => hgrows h, rfl, rfl⟩, ⟨hs.1, hgrows hs.2⟩, fun hcreated heq => ?_⟩
    -- A blob that is there is not created.
    have hnew : baseDir.join other.text ∉ s.disk.files := by simpa using hcreated
    exact hnew (heq ▸ hs.2)
  compensate := fun other hne => by
    refine (regular_survival hash).perform fun s hs _ => ?_
    obtain ⟨hguar, hinv⟩ :=
      (spares_deleteBlob .compensate (.inr other.isDigest) hne s).survival hs
    exact ⟨hguar, hinv, trivial⟩
  sweep := sweep_spares (regular_survival hash) hash (fun hs => hs.1)
    (fun _ hassume => hassume.2 .intro) fun hs hspares => hspares.survival hs
  orphan := fun other subscribedOnly hother => by
    refine orphan_keeps (regular_survival hash) subscribedOnly (fun _ => ⟨id, rfl, rfl⟩) ?_
    refine (regular_survival hash).perform fun s hs hassume => ?_
    obtain ⟨hguar, hinv⟩ := (spares_deleteBlob .orphan hother hassume.1 s).survival hs
    exact ⟨hguar, hinv, trivial⟩

/-! ## Checkpoints -/

/-- A task's record protects a blob from the sweep. -/
def Protects (taskID hash : String) (db : Database) : Prop :=
  (∃ task, db.tasksActive.get taskID = some task ∧ hash ∈ task.blobHashes) ∨
    ∃ task, db.tasksHistory.get taskID = some task ∧ hash ∈ task.finalBlobHashes

/-- A checkpoint's outputs name a blob: those of a step while the task runs, or
the final ones, outside `$pipeline_outputs`, when it ends. -/
def NamesOutput (record : TaskJournalRecord) (hash : String) : Prop :=
  if isTerminalTaskStatus record.status then hash ∈ extractNonIntermediateBlobHashes record.outputs
  else record.stepID ≠ "" ∧ hash ∈ extractBlobHashes record.outputs

instance (record : TaskJournalRecord) (hash : String) : Decidable (NamesOutput record hash) :=
  inferInstanceAs (Decidable (if isTerminalTaskStatus record.status then
    hash ∈ extractNonIntermediateBlobHashes record.outputs
    else record.stepID ≠ "" ∧ hash ∈ extractBlobHashes record.outputs))

theorem Protects.sweepReferences {taskID : String} {db : Database} (h : Protects taskID hash db) :
    sweepReferences db hash = true := by
  by_contra hfree
  obtain ⟨-, hactive, hhistory⟩ := sweepReferences_eq_false.1 (Bool.eq_false_iff.2 hfree)
  rcases h with ⟨task, hget, hmem⟩ | ⟨task, hget, hmem⟩
  · exact hactive taskID task hget hmem
  · exact hhistory taskID task hget hmem

theorem isSome_of_mem_extract {outputs : Option JsonMap} {skip : Bool}
    (h : hash ∈ extractBlobHashesInternal outputs skip) : ∃ fields, outputs = some fields := by
  cases outputs with
  | none => simp [extractBlobHashesInternal] at h
  | some fields => exact ⟨fields, rfl⟩

/-- The aggregate of a running task takes up the outputs of a step. -/
theorem mem_blobHashes_applyJournalRecord (task : TaskRecord) (hstep : record.stepID ≠ "")
    (hmem : hash ∈ extractBlobHashes record.outputs) :
    hash ∈ (task.applyJournalRecord record).blobHashes := by
  obtain ⟨fields, hfields⟩ := isSome_of_mem_extract hmem
  rw [hfields] at hmem
  simp only [TaskRecord.blobHashes, List.mem_append]
  refine .inl (.inl (mem_extractStepBlobHashes.2 ⟨(record.stepID, fields), ?_, hmem⟩))
  simp only [TaskRecord.applyJournalRecord, hfields, if_pos hstep, Option.getD_some]
  exact mem_assignKey _ _ _

/-- The aggregate of a finished task takes up its final outputs. -/
theorem mem_finalBlobHashes_applyJournalRecord (task : TaskRecord)
    (hterminal : isTerminalTaskStatus record.status = true)
    (hmem : hash ∈ extractNonIntermediateBlobHashes record.outputs) :
    hash ∈ (task.applyJournalRecord record).finalBlobHashes := by
  obtain ⟨fields, hfields⟩ := isSome_of_mem_extract hmem
  simp only [TaskRecord.finalBlobHashes, List.mem_append]
  refine .inl ?_
  simpa [TaskRecord.applyJournalRecord, hfields, hterminal] using hmem

/-- After a checkpoint that names a blob, the task's record protects it. -/
theorem protects_checkpoint (db : Database) (record : TaskJournalRecord)
    (h : NamesOutput record hash) : Protects record.taskID hash (db.checkpoint record) := by
  unfold NamesOutput at h
  simp only [Database.checkpoint, checkpointed]
  cases hterminal : isTerminalTaskStatus record.status with
  | true =>
    rw [if_pos hterminal] at h
    refine .inr ⟨_, by simp only [if_true, Bucket.get_put]; rfl, ?_⟩
    rw [TaskRecord.finalBlobHashes_stored]
    exact mem_finalBlobHashes_applyJournalRecord _ hterminal h
  | false =>
    rw [if_neg (by simp [hterminal])] at h
    refine .inl ⟨_, by simp only [Bool.false_eq_true, if_false, Bucket.get_put]; rfl, ?_⟩
    rw [TaskRecord.blobHashes_stored]
    exact mem_blobHashes_applyJournalRecord _ h.1 h.2

theorem protects_of_run {now : ℤ} (h : NamesOutput record hash)
    (hrun : (appendTaskCheckpoint record now).run (engine baseDir) s = (none, s')) :
    Protects record.taskID hash s'.db := by
  rcases run_appendTaskCheckpoint baseDir record now s with ⟨err, hrun'⟩ | hrun'
  · cases hrun.symm.trans hrun'
  · obtain ⟨seq, hseq⟩ := sequenced_eq (completeCheckpoint record now) s.db
    rw [hseq] at hrun'
    cases hrun.symm.trans hrun'
    exact protects_checkpoint s.db { completeCheckpoint record now with sequence := seq } h

/-! ## Runs -/

/-- What happens beside operations once a task has recorded its output: no
checkpoint drops the blob from the task's record. -/
def KeepsOutput (baseDir : CleanPath) (taskID : String) (hash : Digest) (_ : Bool) (s s' : State) :
    Prop :=
  Unlocked baseDir s s' ∧ (Protects taskID hash.text s.db → Protects taskID hash.text s'.db)

/-- The blob is there and whoever holds the lock keeps it. -/
def Surviving (baseDir : CleanPath) (hash : Digest) (m : Machine Action State) : Prop :=
  (m.Sound (engine baseDir) (survival baseDir hash) fun s =>
    HashInv s.db ∧ Present baseDir hash s) ∧ Present baseDir hash m.state

/-- One step: the blob stays, and unless something happens beside the operations
so do the records of tasks. -/
theorem Surviving.step {hash : Digest} {env : Bool → State → State → Prop}
    (henv : ∀ held s s', env held s s' → Unlocked baseDir s s') (hm : Surviving baseDir hash m)
    (hstep : EngineStep baseDir (Unswept hash) env m m') :
    Surviving baseDir hash m' ∧
      ((m'.state.db.tasksActive = m.state.db.tasksActive ∧
          m'.state.db.tasksHistory = m.state.db.tasksHistory) ∨
        env m.holder.isSome m.state m'.state) := by
  have prims : Primitives baseDir _ _ _ := primitives_survival hash
  obtain ⟨hsound, hcases⟩ := hm.1.step prims.regular (IsOperation.keeps prims)
    (fun _ _ h => (henv _ _ _ h).beside)
    (fun _ _ h hs => ⟨hs.1.unlocked (henv _ _ _ h), (henv _ _ _ h).disk.1 hs.2⟩) hstep
  rcases hcases with hsame | hguar | hother
  · exact ⟨⟨hsound, hsame ▸ hm.2⟩, .inl (by rw [hsame]; exact ⟨rfl, rfl⟩)⟩
  · exact ⟨⟨hsound, hguar.1 hm.2⟩, .inl hguar.2⟩
  · exact ⟨⟨hsound, (henv _ _ _ hother).disk.1 hm.2⟩, .inr hother⟩

/-- Before the checkpoint: a run in which no sweep finds the blob unreferenced. -/
theorem Surviving.run {hash : Digest} (hm : Surviving baseDir hash m)
    (hrun : Relation.ReflTransGen
      (EngineStep baseDir (Unswept hash) fun _ => Unlocked baseDir) m m') :
    Surviving baseDir hash m' := by
  induction hrun with
  | refl => exact hm
  | tail _ hstep ih => exact (ih.step (fun _ _ _ => id) hstep).1

/-- After the checkpoint: the record of the task answers every sweep. -/
theorem Surviving.protected {taskID : String} {hash : Digest} (hm : Surviving baseDir hash m)
    (hprotects : Protects taskID hash.text m.state.db)
    (hrun : Relation.ReflTransGen
      (EngineStep baseDir (SparesOrphan hash) (KeepsOutput baseDir taskID hash)) m m') :
    Surviving baseDir hash m' ∧ Protects taskID hash.text m'.state.db := by
  induction hrun with
  | refl => exact ⟨hm, hprotects⟩
  | tail _ hstep ih =>
    obtain ⟨hsurviving, hprotects⟩ := ih
    have hstep' : EngineStep baseDir (Unswept hash) (KeepsOutput baseDir taskID hash) _ _ :=
      hstep.mono (fun e he => ⟨he, fun _ _ => hprotects.sweepReferences⟩) fun _ _ _ => id
    obtain ⟨hsurviving', ⟨hactive, hhistory⟩ | hbeside⟩ :=
      hsurviving.step (fun _ _ _ h => h.1) hstep'
    · exact ⟨hsurviving', by rwa [Protects, hactive, hhistory]⟩
    · exact ⟨hsurviving', hbeside.2 hprotects⟩

/-- Stage, checkpoint and whatever goes on between and after them: the blob is
there when the checkpoint has committed, and stays. -/
theorem staged_output_survives {s s₁ s₂ : State} (hs : HashInv s.db) {pathStr : String}
    {content : Blob}
    (hstage : Executes (engine baseDir) (Unlocked baseDir) (stageLocalFileLocked pathStr content)
      s (.ok content) s₁) {m m' : Machine Action State}
    (hbetween : Relation.ReflTransGen
      (EngineStep baseDir (Unswept content.hash) fun _ => Unlocked baseDir) s₁.idle m)
    {record : TaskJournalRecord} {now : ℤ} (hnames : NamesOutput record content.hash.text)
    (hblobs : ∀ h ∈ record.intermediateBlobs, IsDigest h)
    (hcheckpoint : (appendTaskCheckpoint record now).run (engine baseDir) m.state = (none, s₂))
    (hafter : Relation.ReflTransGen
      (EngineStep baseDir (SparesOrphan content.hash)
        (KeepsOutput baseDir record.taskID content.hash)) ⟨s₂, m.holder⟩ m') :
    Present baseDir content.hash m'.state := by
  have hstaged : Staged baseDir content.hash s₁ :=
    (stage_staged hs pathStr content).executes Beside.refl Beside.trans (fun _ _ => trivial)
      (fun _ _ h => h.beside) hstage rfl
  have hidle : Surviving baseDir content.hash s₁.idle := ⟨⟨hstaged.hashes, hstaged.file⟩, hstaged.file⟩
  have hm := hidle.run hbetween
  -- The checkpoint happens beside whoever holds the lock.
  have hcommit : EngineStep baseDir (Unswept content.hash) (fun _ => Unlocked baseDir) m
      ⟨s₂, m.holder⟩ := by
    have hunlocked : Unlocked baseDir m.state _ := .appendTaskCheckpoint _ record now hblobs
    rw [hcheckpoint] at hunlocked
    exact .interfere hunlocked
  have hprotects := protects_of_run hnames hcheckpoint
  exact ((hm.step (fun _ _ _ => id) hcommit).1.protected hprotects hafter).1.2

/-- The checkpoint of a pipeline step whose output is the blob `aa…a`. -/
def stepCheckpoint (taskID : String) : TaskJournalRecord :=
  { taskID := taskID, status := "running", stepID := "step", intermediate := true
    outputs := some [("out", .string digestA.text)] }

/-- A task `T1` that has staged the blob, recorded it and finished. -/
def State.finished : State :=
  ((do
    let _ ← stageLocalFileLocked "out" ⟨digestA, 3⟩
    let _ ← appendTaskCheckpoint (stepCheckpoint "T1") 1
    appendTaskCheckpoint { taskID := "T1", status := "completed" } 2 :
      Prog Action (Option GoError)).run (engine dataDir) State.opened).2

theorem exists_recorded : ∃ s₁ s₂,
    Executes (engine dataDir) (Unlocked dataDir) (stageLocalFileLocked "out" ⟨digestA, 3⟩)
      State.finished (.ok ⟨digestA, 3⟩) s₁ ∧
    (appendTaskCheckpoint (stepCheckpoint "T2") 3).run (engine dataDir) s₁ = (none, s₂) := by
  have hstage : ((stageLocalFileLocked "out" ⟨digestA, 3⟩).run (engine dataDir)
      State.finished).1 = .ok ⟨digestA, 3⟩ := by decide +kernel
  refine ⟨_, _, hstage ▸ executes_run _ _, Prod.ext ?_ rfl⟩
  decide +kernel

/-- Then the transaction that prunes `T1` leaves the blob alone. -/
theorem staged_output_survives_prune :
    ∃ s : State, Protects "T2" digestA.text s.db ∧
      Present dataDir digestA ((engine dataDir).exec (.update (pruneTx "T1")) s).2 := by
  have hs : HashInv State.finished.db := by decide +kernel
  have hnames : NamesOutput (stepCheckpoint "T2") digestA.text := by decide +kernel
  have hblobs : ∀ h ∈ (stepCheckpoint "T2").intermediateBlobs, IsDigest h := by decide
  obtain ⟨s₁, s₂, hstage, hcheckpoint⟩ := exists_recorded
  refine ⟨s₂, ?_, staged_output_survives hs hstage (m := s₁.idle) .refl hnames hblobs hcheckpoint
    (.tail (.single (.acquire ⟨.pruneIntermediateTaskData "T1", trivial, rfl⟩)) (.advance trivial))⟩
  exact protects_of_run hnames hcheckpoint

/-- `T2` stages equal content, `T1` is pruned, and when the checkpoint of `T2`
commits the blob it names is gone. -/
theorem prune_removes_staged_output :
    let stage := (stageLocalFileLocked "out" ⟨digestA, 3⟩).run (engine dataDir) State.finished
    let prune := (pruneIntermediateTaskData "T1").run (engine dataDir) stage.2
    let checkpoint := (appendTaskCheckpoint (stepCheckpoint "T2") 3).run (engine dataDir) prune.2
    stage.1 = .ok ⟨digestA, 3⟩ ∧ prune.1 = none ∧ checkpoint.1 = none ∧
      ¬ Present dataDir digestA checkpoint.2 := by
  decide +kernel

end Proxyma.Storage
