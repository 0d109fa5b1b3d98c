import Proxyma.Storage.IndexEffects
import Proxyma.Storage.Journal

/-!
# Interleaved operations

One engine serves many goroutines.  At most one of them holds `mutationMu` and
works through the locked part of an operation; between any two of its actions
others append checkpoints, settle downloads or add blob files, none of which
takes the lock (`Unlocked`).

The locked parts are all made of the same few primitives.  An invariant under
interference that the primitives keep is kept by every operation
(`Operation.keeps`).  `HashInv` is the part of the
invariant that the results on deletions share.  Entries, the pending list and
the journal name blobs by digests, as long as peers and checkpoints do.
-/

namespace Proxyma.Storage

open Keyed Atomic Atomic.Prog GoError

/-! ## Operations -/

/-- What a goroutine does while it holds `mutationMu`. -/
inductive Operation
  | setSubscription (fileName : String) (isSubscribed : Bool)
  | upsertIndex (entry : IndexEntry)
  | processRemoteDeletion (fileInfo : IndexEntry)
  | deleteLocalFile (fileName : String)
  | deleteLocalCache (fileName : String)
  | upsertAndSubscribe (entry : IndexEntry) (notify : Bool)
  | saveLocalFile (fileName : String) (content : Blob)
  | stageLocalFile (pathStr : String) (content : Blob)
  | storeRemoteBlob (fileInfo : IndexEntry) (content : Blob)
  | requestRemoteDownload (file : IndexEntry) (source : String)
  | sweepPendingBlobGC
  | pruneIntermediateTaskData (taskID : String)

/-- The locked part of an operation, without its result. -/
def Operation.locked : Operation → Prog Action Unit
  | setSubscription fileName isSubscribed => do
      let _ ← setSubscriptionLocked fileName isSubscribed
  | upsertIndex entry => do let _ ← upsertIndexLocked entry
  | processRemoteDeletion fileInfo => do let _ ← processRemoteDeletionLocked fileInfo
  | deleteLocalFile fileName => do let _ ← deleteLocalFileLocked fileName
  | deleteLocalCache fileName => do let _ ← deleteLocalCacheLocked fileName
  | upsertAndSubscribe entry notify => do let _ ← upsertAndSubscribeLocked entry notify
  | saveLocalFile fileName content => do let _ ← saveLocalFileLocked fileName content
  | stageLocalFile pathStr content => do let _ ← stageLocalFileLocked pathStr content
  | storeRemoteBlob fileInfo content => do let _ ← storeRemoteBlobLocked fileInfo content
  | requestRemoteDownload file source => do let _ ← persistDownloadIntentLocked file source
  | sweepPendingBlobGC => do let _ ← sweepPendingBlobGCLocked
  | pruneIntermediateTaskData taskID => do let _ ← pruneLocked taskID

/-- A hash an entry may carry: none, or a digest. -/
def HashOk (hash : String) : Prop := hash = "" ∨ IsDigest hash

/-- The entries an operation is given carry digests, and a blob is stored only
under the hash it has. -/
def Operation.Admissible : Operation → Prop
  | upsertIndex entry => HashOk entry.hash
  | processRemoteDeletion fileInfo => HashOk fileInfo.hash
  | upsertAndSubscribe entry _ => HashOk entry.hash
  | storeRemoteBlob fileInfo content => content.hash.text = fileInfo.hash
  | _ => True

/-- What happens without the lock: checkpoints, journal deletion, settling of
downloads, blobs stored for a known hash, and calls starting or ceasing to fail. -/
inductive Unlocked (baseDir : CleanPath) : State → State → Prop
  | appendTaskCheckpoint (s : State) (record : TaskJournalRecord) (now : ℤ)
      (hblobs : ∀ h ∈ record.intermediateBlobs, IsDigest h) :
      Unlocked baseDir s ((appendTaskCheckpoint record now).run (engine baseDir) s).2
  | deleteTaskJournal (s : State) (taskID : String) :
      Unlocked baseDir s ((engine baseDir).exec (.update (deleteTaskJournalTx taskID)) s).2
  | completeDownloadIntent (s : State) (file : IndexEntry) :
      Unlocked baseDir s ((engine baseDir).exec (.update (completeDownloadIntentTx file)) s).2
  | downloads (s : State) (downloads : Downloads) :
      Unlocked baseDir s { s with downloads := downloads }
  | saveVerifiedPhysicalBlob (s : State) (hash : Digest) :
      Unlocked baseDir s ((engine baseDir).exec (.commit hash) s).2
  | faults (s : State) (faults : Faults) : Unlocked baseDir s { s with faults := faults }

/-! ## Blobs are named by digests -/

/-- Entries carry digests, digests are pending, and checkpoints list digests. -/
structure HashInv (db : Database) : Prop where
  index : ∀ name entry, db.index.get name = some entry → HashOk entry.hash
  pending : ∀ hash, db.pendingBlobGC.has hash = true → IsDigest hash
  journal : ∀ key record, db.tasksJournal.get key = some record →
    ∀ hash ∈ record.intermediateBlobs, IsDigest hash

variable {db db' : Database} {α : Type}

theorem hashInv_iff :
    HashInv db ↔ (∀ e ∈ db.index.entries, HashOk e.2.hash) ∧
      (∀ e ∈ db.pendingBlobGC.entries, IsDigest e.1) ∧
      ∀ e ∈ db.tasksJournal.entries, ∀ hash ∈ e.2.intermediateBlobs, IsDigest hash := by
  simp only [Prod.forall, Bucket.mem_entries]
  constructor
  · exact fun h => ⟨h.index, fun hash _ hget => h.pending hash (Bucket.has_eq_true.2 ⟨_, hget⟩),
      h.journal⟩
  · rintro ⟨hindex, hpending, hjournal⟩
    refine ⟨hindex, fun hash hhas => ?_, hjournal⟩
    obtain ⟨v, hget⟩ := Bucket.has_eq_true.1 hhas
    exact hpending hash v hget

instance (hash : String) : Decidable (HashOk hash) := inferInstanceAs (Decidable (_ ∨ _))

instance (db : Database) : Decidable (HashInv db) := decidable_of_iff _ hashInv_iff.symm

/-- What a locked transaction other than the sweep's can do to the database. -/
inductive Commits (db db' : Database) : Prop
  | upsert {entry : IndexEntry} {r : Bool} (hentry : HashOk entry.hash)
      (h : upsertTx entry db = .ok (r, db'))
  | upsertAndSubscribe {entry : IndexEntry} {r : VFSWrite} (hentry : HashOk entry.hash)
      (h : upsertAndSubscribeTx entry db = .ok (r, db'))
  | setSubscription {fileName : String} {isSubscribed : Bool}
      (h : setSubscriptionTx fileName isSubscribed db = .ok ((), db'))
  | persistDownloadIntent {file : IndexEntry} {source : String}
      (h : persistDownloadIntentTx file source db = .ok ((), db'))
  | completeDownloadIntent {file : IndexEntry}
      (h : completeDownloadIntentTx file db = .ok ((), db'))
  | prune {taskID : String} {blobs : List String} (h : pruneTx taskID db = .ok (blobs, db'))

/-- The same, in terms of the buckets: an entry is written, perhaps with a
subscription; subscriptions or intents change; or a task is pruned. -/
theorem Commits.cases (h : Commits db db') :
    (∃ name written, HashOk written.hash ∧ (db' = db.write name written ∨
      db' = { db.write name written with subscriptions := db.subscriptions.put name () })) ∨
    (∃ subscriptions intents,
      db' = { db with subscriptions := subscriptions, downloadIntents := intents }) ∨
    ∃ taskID records, checkPrunable taskID db = .ok records ∧ db' = { db with
      tasksJournal := db.tasksJournal.eraseAll
        ((records.filter fun e => isPrunable e.2).map Prod.fst)
      index := deleteStagedVFSIndexEntries (intermediateBlobs taskID records db) db.index
      pendingBlobGC := db.pendingBlobGC.putAll (intermediateBlobs taskID records db) () } := by
  cases h with
  | @upsert entry r hentry h =>
    rcases upsert_cases entry db with ⟨_, -, -, htx, -⟩ |
      ⟨written, heff, ⟨-, htx, -⟩ | ⟨-, ⟨err, htx⟩, -⟩⟩ <;> rw [htx] at h <;> cases h
    · exact .inr (.inl ⟨_, _, rfl⟩)
    · exact .inl ⟨_, written, effectiveEntry_hash heff ▸ hentry, .inl rfl⟩
  | @upsertAndSubscribe entry r hentry h =>
    rcases upsert_cases entry db with ⟨_, -, -, -, htx⟩ |
      ⟨written, heff, ⟨-, -, htx⟩ | ⟨-, -, err, htx⟩⟩ <;> rw [htx] at h <;> cases h
    · exact .inr (.inl ⟨_, _, rfl⟩)
    · exact .inl ⟨_, written, effectiveEntry_hash heff ▸ hentry, .inr rfl⟩
  | @setSubscription fileName isSubscribed h =>
    rcases setSubscriptionTx_cases fileName isSubscribed db with ⟨err, htx⟩ | ⟨_, htx⟩ <;>
      rw [htx] at h <;> cases h
    exact .inr (.inl ⟨_, _, rfl⟩)
  | @persistDownloadIntent file source h =>
    rcases persistDownloadIntentTx_cases file source db with ⟨err, htx⟩ | ⟨-, -, -, -, htx⟩ <;>
      rw [htx] at h <;> cases h
    exact .inr (.inl ⟨_, _, rfl⟩)
  | @completeDownloadIntent file h =>
    obtain ⟨intents, htx⟩ := completeDownloadIntentTx_eq file db
    cases htx.symm.trans h
    exact .inr (.inl ⟨_, _, rfl⟩)
  | @prune taskID blobs h =>
    rcases pruneTx_cases taskID db with ⟨err, htx⟩ | ⟨records, _, hcheck, rfl, htx⟩ <;>
      rw [htx] at h <;> cases h
    exact .inr (.inr ⟨taskID, records, hcheck, rfl⟩)

theorem isDigest_of_mem_intermediateBlobs (hdb : HashInv db) {taskID : String}
    {records : List (String × TaskJournalRecord)} (hcheck : checkPrunable taskID db = .ok records)
    {hash : String} (hmem : hash ∈ intermediateBlobs taskID records db) : IsDigest hash := by
  obtain ⟨rfl, -⟩ := checkPrunable_ok hcheck
  simp only [intermediateBlobs, List.mem_filter, List.mem_flatMap] at hmem
  obtain ⟨⟨⟨key, record⟩, ⟨hrecord, -⟩, hhash⟩, -⟩ := hmem
  rw [scanTaskJournalPrefix_eq, List.mem_filter, Bucket.mem_entries] at hrecord
  rcases List.mem_append.1 hhash with hlisted | houtput
  · exact hdb.journal key record hrecord.1 hash hlisted
  · exact isDigest_of_mem_extract houtput

theorem HashInv.write (hdb : HashInv db) (name : String) {written : IndexEntry}
    (hwritten : HashOk written.hash) : HashInv (db.write name written) where
  index := by
    intro name' entry hget
    simp only [Database.write, Bucket.get_put] at hget
    split_ifs at hget
    · exact Option.some.inj hget ▸ hwritten
    · exact hdb.index name' entry hget
  pending := by
    intro hash hpending
    simp only [Database.write] at hpending
    split at hpending
    · exact hdb.pending hash hpending
    rename_i superseded hsup
    simp only [Bucket.has_eq_true, Bucket.get_put] at hpending
    split_ifs at hpending with heq
    · -- The superseded hash was that of an entry.
      obtain ⟨previous, hprevious, hne, rfl⟩ := supersededHash_eq_some hsup
      exact heq ▸ (hdb.index name previous hprevious).resolve_left hne
    · exact hdb.pending hash (Bucket.has_eq_true.2 hpending)
  journal := hdb.journal

theorem HashInv.commits (h : Commits db db') (hdb : HashInv db) : HashInv db' := by
  rcases h.cases with ⟨name, written, hwritten, rfl | rfl⟩ | ⟨_, _, rfl⟩ |
    ⟨taskID, records, hcheck, rfl⟩
  · exact hdb.write name hwritten
  · have hwrite := hdb.write name hwritten
    exact ⟨hwrite.index, hwrite.pending, hwrite.journal⟩
  · exact ⟨hdb.index, hdb.pending, hdb.journal⟩
  refine ⟨fun name entry hget => ?_, fun hash hpending => ?_, fun key record hget => ?_⟩
  · rw [deleteStagedVFSIndexEntries, Bucket.get_keep, Option.filter_eq_some_iff] at hget
    exact hdb.index name entry hget.1
  · rw [Bucket.has_eq_true, Bucket.get_putAll] at hpending
    split_ifs at hpending with hmem
    · exact isDigest_of_mem_intermediateBlobs hdb hcheck hmem
    · exact hdb.pending hash (Bucket.has_eq_true.2 hpending)
  · rw [Bucket.get_eraseAll] at hget
    split_ifs at hget
    exact hdb.journal key record hget

theorem HashInv.clear (hdb : HashInv db) (completed : List String) :
    HashInv { db with pendingBlobGC := db.pendingBlobGC.eraseAll completed } := by
  refine ⟨hdb.index, fun hash hpending => ?_, hdb.journal⟩
  rw [Bucket.has_eq_true, Bucket.get_eraseAll] at hpending
  split_ifs at hpending
  · simp at hpending
  · exact hdb.pending hash (Bucket.has_eq_true.2 hpending)

/-! ## What needs no lock -/

section Unlocked

variable {baseDir : CleanPath} {s s' : State}

theorem run_appendTaskCheckpoint (baseDir : CleanPath) (record : TaskJournalRecord) (now : ℤ)
    (s : State) :
    (∃ err, (appendTaskCheckpoint record now).run (engine baseDir) s = (some err, s)) ∨
      (appendTaskCheckpoint record now).run (engine baseDir) s =
        (none, { s with db := s.db.checkpoint (sequenced (completeCheckpoint record now) s.db) }) := by
  unfold appendTaskCheckpoint
  cases validateTaskID record.taskID with
  | some err => exact .inl ⟨err, rfl⟩
  | none =>
    simp only [run_bind, run_perform]
    rcases exec_update_cases baseDir (appendTaskCheckpointTx (completeCheckpoint record now)) s
      with ⟨err, hexec⟩ | ⟨result, db, -, hok, hexec⟩ <;> rw [hexec]
    · exact .inl ⟨err, rfl⟩
    · rw [appendTaskCheckpointTx_eq] at hok
      split_ifs at hok
      cases hok
      exact .inr rfl

/-- Checkpoints name blobs in their outputs if not in their list. -/
theorem isDigest_completeCheckpoint {record : TaskJournalRecord}
    (hblobs : ∀ h ∈ record.intermediateBlobs, IsDigest h) (now : ℤ) :
    ∀ h ∈ (completeCheckpoint record now).intermediateBlobs, IsDigest h := by
  intro h hmem
  simp only [completeCheckpoint] at hmem
  split_ifs at hmem
  · exact isDigest_of_mem_extract hmem
  · exact hblobs h hmem

theorem checkpoint_vfs (db : Database) (record : TaskJournalRecord) :
    (db.checkpoint record).index = db.index ∧
      (db.checkpoint record).subscriptions = db.subscriptions ∧
      (db.checkpoint record).pendingBlobGC = db.pendingBlobGC := by
  simp only [Database.checkpoint]
  split_ifs <;> exact ⟨rfl, rfl, rfl⟩

theorem checkpoint_tasksJournal (db : Database) (record : TaskJournalRecord) :
    (db.checkpoint record).tasksJournal =
      db.tasksJournal.put (taskJournalKey record.taskID record.sequence) record.stored := by
  simp only [Database.checkpoint]
  split_ifs <;> rfl

/-- What happens without the lock: a checkpoint, a new blob, or something about
journal keys, intents, downloads and failing calls. -/
theorem Unlocked.cases (h : Unlocked baseDir s s') :
    (∃ record : TaskJournalRecord, (∀ h ∈ record.intermediateBlobs, IsDigest h) ∧
      s' = { s with db := s.db.checkpoint record }) ∨
    (∃ hash, s' = { s with disk := (s.disk.commit baseDir hash).2 }) ∨
    ∃ journal intents downloads faults,
      (∀ key r, journal.get key = some r → s.db.tasksJournal.get key = some r) ∧
      s' = { s with
        db := { s.db with tasksJournal := journal, downloadIntents := intents }
        downloads := downloads
        faults := faults } := by
  have hstays : ∀ key r, s.db.tasksJournal.get key = some r → s.db.tasksJournal.get key = some r :=
    fun _ _ => id
  cases h with
  | appendTaskCheckpoint record now hblobs =>
    rcases run_appendTaskCheckpoint baseDir record now s with ⟨err, hrun⟩ | hrun <;> rw [hrun]
    · exact .inr (.inr ⟨_, _, _, _, hstays, rfl⟩)
    · refine .inl ⟨sequenced (completeCheckpoint record now) s.db, ?_, rfl⟩
      obtain ⟨seq, hseq⟩ := sequenced_eq (completeCheckpoint record now) s.db
      rw [hseq]
      exact isDigest_completeCheckpoint hblobs now
  | deleteTaskJournal taskID =>
    rcases exec_update_cases baseDir (deleteTaskJournalTx taskID) s with
      ⟨err, hexec⟩ | ⟨result, db, -, hok, hexec⟩ <;> rw [hexec]
    · exact .inr (.inr ⟨_, _, _, _, hstays, rfl⟩)
    cases hok
    refine .inr (.inr ⟨_, _, _, _, fun key r hget => ?_, rfl⟩)
    rw [Bucket.get_eraseAll] at hget
    split_ifs at hget
    exact hget
  | completeDownloadIntent file =>
    obtain ⟨intents, htx⟩ := completeDownloadIntentTx_eq file s.db
    rcases exec_update_cases baseDir (completeDownloadIntentTx file) s with
      ⟨err, hexec⟩ | ⟨result, db, -, hok, hexec⟩ <;> rw [hexec]
    · exact .inr (.inr ⟨_, _, _, _, hstays, rfl⟩)
    · cases htx.symm.trans hok
      exact .inr (.inr ⟨_, _, _, _, hstays, rfl⟩)
  | downloads d => exact .inr (.inr ⟨_, _, _, _, hstays, rfl⟩)
  | saveVerifiedPhysicalBlob hash =>
    simp only [engine, exec, orFault]
    cases s.faults.commit with
    | some err => exact .inr (.inr ⟨_, _, _, _, hstays, rfl⟩)
    | none => exact .inr (.inl ⟨hash, rfl⟩)
  | faults f => exact .inr (.inr ⟨_, _, _, _, hstays, rfl⟩)

/-- Without the lock, entries, subscriptions and the pending list stay. -/
theorem Unlocked.vfs (h : Unlocked baseDir s s') :
    s'.db.index = s.db.index ∧ s'.db.subscriptions = s.db.subscriptions ∧
      s'.db.pendingBlobGC = s.db.pendingBlobGC := by
  rcases h.cases with ⟨record, -, rfl⟩ | ⟨hash, rfl⟩ | ⟨_, _, _, _, -, rfl⟩
  · exact checkpoint_vfs _ _
  · exact ⟨rfl, rfl, rfl⟩
  · exact ⟨rfl, rfl, rfl⟩

theorem Unlocked.disk (h : Unlocked baseDir s s') :
    s.disk.files ⊆ s'.disk.files ∧ s'.disk.dirs = s.disk.dirs := by
  rcases h.cases with ⟨record, -, rfl⟩ | ⟨hash, rfl⟩ | ⟨_, _, _, _, -, rfl⟩
  · exact ⟨Finset.Subset.refl _, rfl⟩
  · exact ⟨Disk.files_subset_commit _ _ _, rfl⟩
  · exact ⟨Finset.Subset.refl _, rfl⟩

theorem HashInv.unlocked (h : Unlocked baseDir s s') (hdb : HashInv s.db) : HashInv s'.db := by
  obtain ⟨hindex, -, hpending⟩ := h.vfs
  refine ⟨hindex ▸ hdb.index, hpending ▸ hdb.pending, ?_⟩
  rcases h.cases with ⟨record, hblobs, rfl⟩ | ⟨hash, rfl⟩ | ⟨_, _, _, _, hsub, rfl⟩
  · intro key r hget
    rw [checkpoint_tasksJournal, Bucket.get_put] at hget
    split_ifs at hget
    · cases hget
      exact hblobs
    · exact hdb.journal key r hget
  · exact hdb.journal
  · exact fun key r hget => hdb.journal key r (hsub key r hget)

end Unlocked

/-! ## One pass through the operations -/

section Primitives

variable {baseDir : CleanPath} {c : Contract Action State} {inv : State → Prop}
  {undo : Digest → Prop}

/-- What operations are made of keeps an invariant under interference.  A blob
is deleted again only if it was created and meets `undo`. -/
structure Primitives (baseDir : CleanPath) (c : Contract Action State) (inv : State → Prop)
    (undo : Digest → Prop) : Prop where
  regular : c.Regular inv
  hashes : ∀ {s}, inv s → HashInv s.db
  commits : ∀ {s db}, inv s → Commits s.db db →
    c.guarantee s { s with db := db } ∧ inv { s with db := db }
  frame : ∀ {s s'}, inv s → s'.db = s.db → s'.disk = s.disk → c.guarantee s s' ∧ inv s'
  commit : ∀ hash, Keeps (engine baseDir) c inv (fun r => r = .ok true → undo hash)
    (perform (.commit hash))
  compensate : ∀ hash, undo hash → Keeps (engine baseDir) c inv (fun _ => True)
    (perform (.deleteBlob .compensate hash.text))
  sweep : Keeps (engine baseDir) c inv (fun _ => True) sweepPendingBlobGCLocked
  orphan : ∀ hash subscribedOnly, HashOk hash →
    Keeps (engine baseDir) c inv (fun _ => True) (deleteBlobIfOrphan hash subscribedOnly)

/-- The rule for the sweep.  The scan marks the hashes it found pending and
unreferenced; a mark outlives interference and other deletions, and allows the
deletion of its hash. -/
theorem sweep_keeps (hc : c.Regular inv) (mark : State → String → Prop)
    (hsame : ∀ {s}, inv s → c.guarantee s s)
    (hscan : ∀ {s}, inv s → c.assume (.view fun db => .ok (scanPendingBlobGC db)) s →
      ∀ hash, s.db.pendingBlobGC.has hash = true → sweepReferences s.db hash = false → mark s hash)
    (hrely : ∀ {s s' hash}, c.rely s s' → inv s → mark s hash → mark s' hash)
    (hdelete : ∀ {s hash}, inv s → mark s hash → c.assume (.deleteBlob .sweep hash) s →
      c.guarantee s ((engine baseDir).exec (.deleteBlob .sweep hash) s).2 ∧
      inv ((engine baseDir).exec (.deleteBlob .sweep hash) s).2 ∧
      ∀ other, mark s other → mark ((engine baseDir).exec (.deleteBlob .sweep hash) s).2 other)
    (hclear : ∀ {s db} completed, inv s → clearPendingBlobGCTx completed s.db = .ok ((), db) →
      c.guarantee s { s with db := db } ∧ inv { s with db := db }) :
    Keeps (engine baseDir) c inv (fun _ => True) sweepPendingBlobGCLocked := by
  -- The loop, by induction on what is left of the scan.
  have hloop : ∀ pending completed sweepErr s, inv s →
      (∀ hash, (hash, false) ∈ pending → mark s hash) →
      Safe (engine baseDir) c (fun _ s' => inv s') (sweepDeletes pending completed sweepErr) s := by
    intro pending
    induction pending with
    | nil => exact fun _ _ s hs _ s' hrely' => hc.inv hrely' hs
    | cons head rest ih =>
      intro completed sweepErr s hs hmarks
      obtain ⟨hash, referenced⟩ := head
      have hrest : ∀ hash, (hash, false) ∈ rest → mark s hash :=
        fun hash hmem => hmarks hash (List.mem_cons_of_mem _ hmem)
      cases referenced with
      | true => exact ih _ _ s hs hrest
      | false =>
        intro s' hrely' hassume
        have hmark := hrely hrely' hs (hmarks hash List.mem_cons_self)
        obtain ⟨hguar, hinv, hmark'⟩ := hdelete (hc.inv hrely' hs) hmark hassume
        refine ⟨hguar, ?_⟩
        have hnext := fun completed sweepErr => ih completed sweepErr _ hinv
          fun other hmem => hmark' other (hrely hrely' hs (hrest other hmem))
        cases ((engine baseDir).exec (.deleteBlob .sweep hash) s').1 <;> exact hnext _ _
  have hcleared : ∀ completed, Keeps (engine baseDir) c inv (fun _ => True)
      (perform (.update (clearPendingBlobGCTx completed))) := by
    refine fun completed => hc.perform fun s hs _ => ?_
    rcases exec_update_cases baseDir (clearPendingBlobGCTx completed) s with
      ⟨err, hexec⟩ | ⟨result, db, -, hok, hexec⟩ <;> rw [hexec]
    · exact ⟨hsame hs, hs, trivial⟩
    · obtain ⟨hguar, hinv⟩ := hclear completed hs hok
      exact ⟨hguar, hinv, trivial⟩
  refine fun s hs => safe_perform_bind fun s' hrely' hassume => ?_
  have hs' := hc.inv hrely' hs
  have hguar := hsame hs'
  have hmarks := hscan hs' hassume
  have hdone : ∀ {t : State} (err : Option GoError), inv t →
      Safe (engine baseDir) c (fun _ s => True ∧ inv s) (.ret err) t :=
    fun err ht t' hrely' => ⟨trivial, hc.inv hrely' ht⟩
  rcases exec_view_cases baseDir (fun db => .ok (scanPendingBlobGC db)) s' with
    ⟨err, hexec⟩ | hexec <;> rw [hexec] <;> refine ⟨hguar, ?_⟩
  · exact hdone _ hs'
  dsimp only
  split_ifs
  · exact hdone _ hs'
  refine (hloop _ [] none s' hs' fun hash hmem => ?_).bind hc.refl fun out t ht => ?_
  · obtain ⟨key, hkey, heq⟩ := List.mem_map.1 hmem
    obtain ⟨rfl, href⟩ := Prod.mk.inj heq
    exact hmarks key (Bucket.has_eq_true.2 (Bucket.mem_keys.1 hkey)) href
  · obtain ⟨completed, sweepErr⟩ := out
    dsimp only
    split_ifs
    · exact hdone _ ht
    · refine (hcleared completed t ht).bind hc.refl fun r t' ht' => ?_
      cases r <;> exact hdone _ ht'.2

/-- The rule for the orphan check where its count does not matter. -/
theorem orphan_keeps (hc : c.Regular inv) {hash : String} (subscribedOnly : Bool)
    (hcount : ∀ {s}, inv s → c.guarantee s s)
    (hdelete : Keeps (engine baseDir) c inv (fun _ => True)
      (perform (.deleteBlob .orphan hash))) :
    Keeps (engine baseDir) c inv (fun _ => True) (deleteBlobIfOrphan hash subscribedOnly) := by
  refine fun s hs => safe_perform_bind fun s' hrely _ => ?_
  have hs' := hc.inv hrely hs
  rcases exec_view_cases baseDir (fun db => .ok (countHashRefs hash subscribedOnly db)) s' with
    ⟨err, hexec⟩ | hexec <;> rw [hexec] <;> refine ⟨hcount hs', ?_⟩
  · exact fun t hrely' => ⟨trivial, hc.inv hrely' hs'⟩
  · dsimp only
    split_ifs
    · exact fun t hrely' => ⟨trivial, hc.inv hrely' hs'⟩
    · exact hdelete s' hs'

namespace Primitives

variable (prims : Primitives baseDir c inv undo)
include prims

theorem done (a : α) : Keeps (engine baseDir) c inv (fun _ => True) (pure a) :=
  prims.regular.ret trivial

theorem aside {e : Action α} (hdb : ∀ s, ((engine baseDir).exec e s).2.db = s.db)
    (hdisk : ∀ s, ((engine baseDir).exec e s).2.disk = s.disk) :
    Keeps (engine baseDir) c inv (fun _ => True) (perform e) := by
  refine prims.regular.perform fun s hs _ => ?_
  obtain ⟨hguar, hinv⟩ := prims.frame hs (hdb s) (hdisk s)
  exact ⟨hguar, hinv, trivial⟩

theorem update {write : Database → Except GoError (α × Database)}
    (hwrite : ∀ {db result db'}, write db = .ok (result, db') → Commits db db') :
    Keeps (engine baseDir) c inv (fun _ => True) (perform (.update write)) := by
  refine prims.regular.perform fun s hs _ => ?_
  rcases exec_update_cases baseDir write s with ⟨err, hexec⟩ | ⟨result, db, -, hok, hexec⟩ <;>
    rw [hexec]
  · obtain ⟨hguar, hinv⟩ := prims.frame hs rfl rfl
    exact ⟨hguar, hinv, trivial⟩
  · obtain ⟨hguar, hinv⟩ := prims.commits hs (hwrite hok)
    exact ⟨hguar, hinv, trivial⟩

theorem get (name : String) :
    Keeps (engine baseDir) c inv (fun r => ∀ e, r = .ok (some e) → HashOk e.hash)
      (Storage.get name) := by
  refine prims.regular.perform fun s hs _ => ?_
  have hframe : c.guarantee s s ∧ inv s := prims.frame hs rfl rfl
  rw [exec_view_snd]
  refine ⟨hframe.1, hframe.2, fun entry hentry => ?_⟩
  simp only [engine, exec, orFault] at hentry
  cases hview : s.faults.view with
  | some err => simp [hview] at hentry
  | none => exact (prims.hashes hs).index name entry (by simpa [hview] using hentry)

/-- To keep an invariant under interference is a judgement the operations allow. -/
theorem operative :
    Operative (fun _ _ p => Keeps (engine baseDir) c inv (fun _ => True) p) HashOk
      fun hash => ∃ digest : Digest, digest.text = hash ∧ undo digest where
  ret := prims.done
  bind := fun hp hg => prims.regular.bind hp fun a _ => hg a
  after := fun hp hg => prims.regular.bind hp fun a _ => hg a
  digest := fun hash => .inr hash.isDigest
  get := fun hg => prims.regular.bind (prims.get _) hg
  prepareNotification := fun _ => prims.aside (fun _ => rfl) fun _ => rfl
  finishNotification := fun _ committed => by
    cases committed <;> exact prims.aside (fun _ => rfl) fun _ => rfl
  downloads := fun _ => prims.aside (fun _ => rfl) fun _ => rfl
  commit := fun hg => prims.regular.bind (prims.commit _) fun r hr => hg r fun h => ⟨_, rfl, hr h⟩
  compensate := by
    rintro _ ⟨digest, rfl, hundo⟩
    exact prims.compensate digest hundo
  orphan := prims.orphan

theorem leads {p : Prog Action α} (hp : Keeps (engine baseDir) c inv (fun _ => True) p) :
    Leads (fun _ _ q => Keeps (engine baseDir) c inv (fun _ => True) q) p :=
  fun _ _ hg => prims.regular.bind hp fun a _ => hg a

theorem pruneLocked_keeps (taskID : String) :
    Keeps (engine baseDir) c inv (fun _ => True) (pruneLocked taskID) := by
  refine prims.regular.bind (prims.update .prune) fun r _ => ?_
  rcases r with err | blobs
  · exact prims.done _
  dsimp only
  split_ifs
  · exact prims.done _
  · exact prims.sweep

end Primitives

/-- What the primitives keep, every admissible operation keeps. -/
theorem Operation.keeps (prims : Primitives baseDir c inv undo) {op : Operation}
    (hop : op.Admissible) : Keeps (engine baseDir) c inv (fun _ => True) op.locked := by
  have hdone : ∀ {α : Type} {p : Prog Action α}, Keeps (engine baseDir) c inv (fun _ => True) p →
      Keeps (engine baseDir) c inv (fun _ => True) (p >>= fun _ => pure ()) :=
    fun hp => prims.regular.bind hp fun _ _ => prims.done _
  have ops := prims.operative
  have hupsert := fun (entry : IndexEntry) (hentry : HashOk entry.hash) =>
    prims.leads (p := upsert entry) (prims.update (.upsert hentry))
  have hsubscribe := fun (entry : IndexEntry) (hentry : HashOk entry.hash) =>
    prims.leads (prims.update (.upsertAndSubscribe hentry))
  cases op with
  | setSubscription fileName isSubscribed =>
    exact hdone (ops.setSubscriptionLocked (prims.update .setSubscription))
  | upsertIndex entry => exact hdone (ops.upsertIndexLocked prims.sweep (hupsert entry hop))
  | processRemoteDeletion fileInfo =>
    exact hdone (ops.processRemoteDeletionLocked prims.sweep (hupsert fileInfo hop)
      (prims.update .completeDownloadIntent))
  | deleteLocalFile fileName => exact hdone (ops.deleteLocalFileLocked prims.sweep hupsert)
  | deleteLocalCache fileName =>
    exact hdone (ops.deleteLocalCacheLocked (prims.update .setSubscription))
  | upsertAndSubscribe entry notify =>
    exact hdone (ops.upsertAndSubscribeLocked prims.sweep hsubscribe hop notify)
  | saveLocalFile fileName content =>
    exact hdone (ops.saveLocalFileLocked prims.sweep hsubscribe fileName content)
  | stageLocalFile pathStr content =>
    exact hdone (ops.stageLocalFileLocked prims.sweep hsubscribe pathStr content)
  | storeRemoteBlob fileInfo content =>
    have hhash : content.hash.text = fileInfo.hash := hop
    exact hdone (ops.storeRemoteBlobLocked (prims.update .completeDownloadIntent)
      (hhash ▸ ops.digest content.hash) (hhash ▸ id))
  | requestRemoteDownload file source =>
    exact hdone (ops.persistDownloadIntentLocked (prims.update .persistDownloadIntent))
  | sweepPendingBlobGC => exact hdone prims.sweep
  | pruneIntermediateTaskData taskID => exact hdone (prims.pruneLocked_keeps taskID)

end Primitives

/-! ## The engine at work -/

/-- The locked part of some admissible operation. -/
def IsOperation (p : Prog Action Unit) : Prop := ∃ op : Operation, op.Admissible ∧ p = op.locked

/-- The steps of an engine: admissible operations take turns with the lock, and
`env` happens beside them. -/
def EngineStep (baseDir : CleanPath) (assume : {β : Type} → Action β → State → Prop)
    (env : Bool → State → State → Prop) : Machine Action State → Machine Action State → Prop :=
  Machine.Step (engine baseDir) assume IsOperation env

/-- The engine with a free lock. -/
def State.idle (s : State) : Machine Action State := ⟨s, none⟩

section Runs

variable {baseDir : CleanPath} {c : Contract Action State} {inv : State → Prop}
  {undo : Digest → Prop} {env : Bool → State → State → Prop}

theorem IsOperation.keeps (prims : Primitives baseDir c inv undo) (p : Prog Action Unit)
    (hp : IsOperation p) : Keeps (engine baseDir) c inv (fun _ => True) p := by
  obtain ⟨op, hop, rfl⟩ := hp
  exact Operation.keeps prims hop

/-- In a run from an idle engine, each step leaves the state alone, is a
guaranteed transition or is interference. -/
theorem engineStep_guarantee (prims : Primitives baseDir c inv undo)
    (hheld : ∀ s s', env true s s' → c.rely s s')
    (hfree : ∀ s s', env false s s' → inv s → inv s') {s : State} {m m' : Machine Action State}
    (hs : inv s) (hrun : Relation.ReflTransGen (EngineStep baseDir c.assume env) s.idle m)
    (hstep : EngineStep baseDir c.assume env m m') :
    m'.state = m.state ∨ c.guarantee m.state m'.state ∨
      env m.holder.isSome m.state m'.state := by
  have hidle : s.idle.Sound (engine baseDir) c inv := hs
  have hsound := hidle.run prims.regular (IsOperation.keeps prims) hheld hfree hrun
  exact (hsound.step prims.regular (IsOperation.keeps prims) hheld hfree hstep).2

end Runs

end Proxyma.Storage
