import Proxyma.Storage.Engine

/-!
# The task journal

All checkpoints share one bucket.  The key of a checkpoint is its task's
identifier, a slash and the sequence number in twenty decimal places, and the
records of a task are found by scanning the keys that begin with its identifier
and a slash (`scanTaskJournalPrefix`).

`AppendTaskCheckpoint` is one transaction and takes no lock.
`PruneIntermediateTaskData` looks at the task first, takes the lock, removes
checkpoints and staged index entries in one transaction and then sweeps.
-/

namespace Proxyma.Storage

open Keyed Atomic Atomic.Prog GoError

/-! ## Keys -/

def taskJournalKey (taskID : String) (seq : UInt64) : String :=
  taskID ++ "/" ++ Text.decimal20 seq.toNat

def parseTaskJournalSeq (key taskID : String) : Option UInt64 :=
  if !Text.hasPrefix key (taskID ++ "/") then none
  else (Text.parseUint (Text.trimPrefix key (taskID ++ "/"))).map UInt64.ofNat

/-- `scanTaskJournalPrefix`, and `scanTaskJournalRecords` on decoded records. -/
def scanTaskJournalPrefix (journal : Bucket String TaskJournalRecord) (taskID : String) :
    List (String × TaskJournalRecord) :=
  journal.scan (taskID ++ "/") fun key => Text.hasPrefix key (taskID ++ "/")

/-- The sequence number of a task's next checkpoint, one more than the largest
of its journal. -/
def nextSequence (journal : Bucket String TaskJournalRecord) (taskID : String) : UInt64 :=
  (scanTaskJournalPrefix journal taskID).foldl (fun maxSeq e =>
    match parseTaskJournalSeq e.1 taskID with
    | some seq => if seq > maxSeq then seq else maxSeq
    | none => maxSeq) 0 + 1

theorem scanTaskJournalPrefix_eq (journal : Bucket String TaskJournalRecord) (taskID : String) :
    scanTaskJournalPrefix journal taskID =
      journal.entries.filter fun e => Text.hasPrefix e.1 (taskID ++ "/") :=
  Bucket.scan_eq_filter journal (fun _ => Text.le_of_hasPrefix)
    fun _ _ => Text.hasPrefix_of_between

/-! ## Checkpoints -/

def errTaskActive : GoError := .new "cannot prune intermediate data for active task"

def errTaskTerminal : GoError := .new "task is in terminal state"

def errTaskNotFound : GoError := .new "task not found"

/-- The record `AppendTaskCheckpoint` hands to its transaction. -/
def completeCheckpoint (record : TaskJournalRecord) (now : ℤ) : TaskJournalRecord :=
  { record with
    timestamp := if record.timestamp = 0 then now else record.timestamp
    intermediateBlobs :=
      if record.intermediate ∧ record.intermediateBlobs = [] ∧ record.outputs.getD [] ≠ []
      then extractBlobHashes record.outputs else record.intermediateBlobs }

/-- The history record a terminal checkpoint is applied to. -/
def historyBase (record : TaskJournalRecord) : Option TaskRecord → Option TaskRecord → TaskRecord
  | some hist, some active => hist.mergeFromActive active
  | some hist, none => hist
  | none, some active => active
  | none, none => newTaskRecord record.taskID record.timestamp

/-- The checkpoint with its sequence number. -/
def sequenced (record : TaskJournalRecord) (db : Database) : TaskJournalRecord :=
  if record.sequence = 0 then { record with sequence := nextSequence db.tasksJournal record.taskID }
  else record

/-- Whether a task's history refuses a checkpoint: terminal tasks do not regress. -/
def refusedByHistory (record : TaskJournalRecord) (db : Database) : Bool :=
  (db.tasksHistory.get record.taskID).any fun hist =>
    isTerminalTaskStatus hist.status ∧ record.status ≠ hist.status

/-- The transaction of `AppendTaskCheckpoint`. -/
def appendTaskCheckpointTx (record : TaskJournalRecord) (db : Database) :
    Except GoError (Unit × Database) :=
  if refusedByHistory record db then .error errTaskTerminal
  else do
    let record := sequenced record db
    let journal ← (boltPut db.tasksJournal (taskJournalKey record.taskID record.sequence)
      record.stored).mapError (.wrapf "persist task journal checkpoint: %w" [])
    let active := db.tasksActive.get record.taskID
    if isTerminalTaskStatus record.status then
      let history := historyBase record (db.tasksHistory.get record.taskID) active
      let tasksHistory ← boltPut db.tasksHistory record.taskID
        (history.applyJournalRecord record).stored
      return ((), { db with
        tasksJournal := journal
        tasksActive := db.tasksActive.erase record.taskID
        tasksHistory := tasksHistory })
    else
      let active := active.getD (newTaskRecord record.taskID record.timestamp)
      let tasksActive ← boltPut db.tasksActive record.taskID
        (active.applyJournalRecord record).stored
      return ((), { db with tasksJournal := journal, tasksActive := tasksActive })

/-- The aggregate a checkpoint leaves behind. -/
def checkpointed (record : TaskJournalRecord) (db : Database) : TaskRecord :=
  let active := db.tasksActive.get record.taskID
  if isTerminalTaskStatus record.status then
    ((historyBase record (db.tasksHistory.get record.taskID) active).applyJournalRecord
      record).stored
  else
    ((active.getD (newTaskRecord record.taskID record.timestamp)).applyJournalRecord
      record).stored

/-- The database after a checkpoint with its sequence number. -/
def Database.checkpoint (db : Database) (record : TaskJournalRecord) : Database :=
  let journal := db.tasksJournal.put (taskJournalKey record.taskID record.sequence) record.stored
  if isTerminalTaskStatus record.status then
    { db with
      tasksJournal := journal
      tasksActive := db.tasksActive.erase record.taskID
      tasksHistory := db.tasksHistory.put record.taskID (checkpointed record db) }
  else
    { db with
      tasksJournal := journal
      tasksActive := db.tasksActive.put record.taskID (checkpointed record db) }

theorem sequenced_eq (record : TaskJournalRecord) (db : Database) :
    ∃ seq, sequenced record db = { record with sequence := seq } := by
  unfold sequenced
  split_ifs
  · exact ⟨_, rfl⟩
  · exact ⟨record.sequence, rfl⟩

theorem sequenced_taskID (record : TaskJournalRecord) (db : Database) :
    (sequenced record db).taskID = record.taskID := by
  obtain ⟨seq, hseq⟩ := sequenced_eq record db
  rw [hseq]

/-- What a checkpoint does: it is refused by the task's history or by a key that
does not fit, or the journal and the aggregate are written together. -/
theorem appendTaskCheckpointTx_eq (record : TaskJournalRecord) (db : Database) :
    appendTaskCheckpointTx record db =
      if refusedByHistory record db then .error errTaskTerminal
      else if ¬ FitsKey (taskJournalKey record.taskID (sequenced record db).sequence).utf8ByteSize
        then .error (.wrapf "persist task journal checkpoint: %w" []
          (keyError (taskJournalKey record.taskID (sequenced record db).sequence).utf8ByteSize))
      else if ¬ FitsKey record.taskID.utf8ByteSize then
        .error (keyError record.taskID.utf8ByteSize)
      else .ok ((), db.checkpoint (sequenced record db)) := by
  simp only [appendTaskCheckpointTx, boltPut, putSized, Database.checkpoint, checkpointed,
    sequenced_taskID]
  by_cases hrefused : refusedByHistory record db = true
  · rw [if_pos hrefused, if_pos hrefused]
  by_cases hkey :
      FitsKey (taskJournalKey record.taskID (sequenced record db).sequence).utf8ByteSize
  · by_cases hid : FitsKey record.taskID.utf8ByteSize
    · cases isTerminalTaskStatus (sequenced record db).status <;>
        simp [hkey, hid, Except.mapError, Bind.bind, Except.bind, Pure.pure, Except.pure]
    · cases isTerminalTaskStatus (sequenced record db).status <;>
        simp [hkey, hid, Except.mapError, Bind.bind, Except.bind]
  · simp [hkey, Except.mapError, Bind.bind, Except.bind]

/-- `AppendTaskCheckpoint` at time `now`. -/
def appendTaskCheckpoint (record : TaskJournalRecord) (now : ℤ) : Prog Action (Option GoError) := do
  match validateTaskID record.taskID with
  | some err => return some err
  | none =>
    match ← perform (.update (appendTaskCheckpointTx (completeCheckpoint record now))) with
    | .error err => return some err
    | .ok () => return none

def getTaskJournal (taskID : String) (db : Database) : Except GoError (List TaskJournalRecord) :=
  match validateTaskID taskID with
  | some err => .error err
  | none =>
    .ok (((scanTaskJournalPrefix db.tasksJournal taskID).map Prod.snd).insertionSort
      fun a b => a.sequence ≤ b.sequence)

/-- The transaction of `DeleteTaskJournal`. -/
def deleteTaskJournalTx (taskID : String) (db : Database) : Except GoError (Unit × Database) :=
  .ok ((), { db with
    tasksJournal := db.tasksJournal.eraseAll
      ((scanTaskJournalPrefix db.tasksJournal taskID).map Prod.fst) })

/-! ## Pruning -/

/-- Whether pruning removes a checkpoint. -/
def isPrunable (rec : TaskJournalRecord) : Bool :=
  (rec.intermediate || !isTerminalTaskStatus rec.status) && rec.status ≠ taskEventSchemaMigrated

/-- The checks that pre-flight and transaction of a prune share. -/
def checkPrunable (taskID : String) (db : Database) :
    Except GoError (List (String × TaskJournalRecord)) :=
  let records := scanTaskJournalPrefix db.tasksJournal taskID
  if db.tasksActive.has taskID then .error errTaskActive
  else if !db.tasksHistory.has taskID ∧ !records.any fun e => isTerminalTaskStatus e.2.status then
    .error errTaskNotFound
  else .ok records

/-- The read-only inspection before a prune: whether there is something to
remove. -/
def prunePreflight (taskID : String) (db : Database) : Except GoError Bool := do
  let records ← checkPrunable taskID db
  return records.any fun e => isPrunable e.2

/-- The hashes a prune must not collect: those the task itself keeps, those of
active tasks, and those that other tasks' histories protect. -/
def finalBlobs (taskID : String) (records : List (String × TaskJournalRecord)) (db : Database) :
    List String :=
  ((db.tasksHistory.get taskID).elim [] TaskRecord.finalBlobHashes) ++
    (records.flatMap fun e =>
      if !e.2.intermediate ∧ isTerminalTaskStatus e.2.status then
        extractNonIntermediateBlobHashes e.2.outputs ++ extractBlobHashes e.2.payload
      else []) ++
    (db.tasksActive.entries.flatMap fun e => e.2.blobHashes) ++
    db.tasksHistory.entries.flatMap fun e => if e.1 = taskID then [] else e.2.finalBlobHashes

/-- `deleteStagedVFSIndexEntriesLocked`. -/
def deleteStagedVFSIndexEntries (hashes : List String) (index : Bucket String IndexEntry) :
    Bucket String IndexEntry :=
  index.keep fun _ entry => !(entry.hash ∈ hashes ∧ Text.hasPrefix entry.name "stage/")

@[simp] theorem deleteStagedVFSIndexEntries_nil (index : Bucket String IndexEntry) :
    deleteStagedVFSIndexEntries [] index = index :=
  Bucket.ext_get fun k => by
    rw [deleteStagedVFSIndexEntries, Bucket.get_keep]
    cases index.get k <;> simp

/-- Queue hashes for collection. -/
def queueAll (pending : Bucket String Unit) (hashes : List String) :
    Except GoError (Bucket String Unit) :=
  hashes.foldlM (fun pending hash => boltPut pending hash ()) pending

/-- The hashes a prune collects. -/
def intermediateBlobs (taskID : String) (records : List (String × TaskJournalRecord))
    (db : Database) : List String :=
  ((records.filter fun e => isPrunable e.2).flatMap fun e => e.2.blobHashes).filter fun h =>
    h ∉ finalBlobs taskID records db

/-- The writes of a prune of a task with these records. -/
def pruneWrites (taskID : String) (records : List (String × TaskJournalRecord)) (db : Database) :
    Except GoError (List String × Database) :=
  let blobs := intermediateBlobs taskID records db
  let journal := db.tasksJournal.eraseAll ((records.filter fun e => isPrunable e.2).map Prod.fst)
  if blobs.isEmpty then .ok (blobs, { db with tasksJournal := journal })
  else (queueAll db.pendingBlobGC blobs).map fun pending =>
    (blobs, { db with
      tasksJournal := journal
      index := deleteStagedVFSIndexEntries blobs db.index
      pendingBlobGC := pending })

/-- The transaction of `PruneIntermediateTaskData`: the intermediate blobs that
are now queued. -/
def pruneTx (taskID : String) (db : Database) : Except GoError (List String × Database) :=
  match checkPrunable taskID db with
  | .error err => .error err
  | .ok records => pruneWrites taskID records db

theorem checkPrunable_ok {taskID : String} {db : Database}
    {records : List (String × TaskJournalRecord)} (h : checkPrunable taskID db = .ok records) :
    records = scanTaskJournalPrefix db.tasksJournal taskID ∧ db.tasksActive.has taskID = false := by
  simp only [checkPrunable] at h
  split_ifs at h with hactive
  exact ⟨(Except.ok.inj h).symm, Bool.eq_false_iff.2 hactive⟩

theorem queueAll_ok {pending pending' : Bucket String Unit} {hashes : List String}
    (h : queueAll pending hashes = .ok pending') : pending' = pending.putAll hashes () := by
  induction hashes generalizing pending with
  | nil => exact (Except.ok.inj h).symm
  | cons hash rest ih =>
    rw [queueAll, List.foldlM_cons] at h
    rcases putSized_eq pending hash.utf8ByteSize hash () with ⟨-, hput⟩ | ⟨-, err, hput⟩
    · rw [boltPut, hput] at h
      exact ih h
    · rw [boltPut, hput] at h
      cases h

/-- What a prune does: it fails, or it removes the prunable checkpoints and the
staged entries of the collected hashes, and queues these. -/
theorem pruneTx_cases (taskID : String) (db : Database) :
    (∃ err, pruneTx taskID db = .error err) ∨
      ∃ records blobs, checkPrunable taskID db = .ok records ∧
        blobs = intermediateBlobs taskID records db ∧
        pruneTx taskID db = .ok (blobs, { db with
          tasksJournal := db.tasksJournal.eraseAll
            ((records.filter fun e => isPrunable e.2).map Prod.fst)
          index := deleteStagedVFSIndexEntries blobs db.index
          pendingBlobGC := db.pendingBlobGC.putAll blobs () }) := by
  simp only [pruneTx]
  rcases hcheck : checkPrunable taskID db with err | records
  · exact .inl ⟨err, rfl⟩
  simp only [pruneWrites]
  cases hblobs : intermediateBlobs taskID records db with
  | nil =>
    refine .inr ⟨records, [], rfl, hblobs.symm, ?_⟩
    rw [deleteStagedVFSIndexEntries_nil]
    rfl
  | cons hash rest =>
    rcases hqueue : queueAll db.pendingBlobGC (hash :: rest) with err | pending
    · exact .inl ⟨err, rfl⟩
    refine .inr ⟨records, hash :: rest, rfl, hblobs.symm, ?_⟩
    rw [← queueAll_ok hqueue]
    rfl

/-- The part of `PruneIntermediateTaskData` under the lock. -/
def pruneLocked (taskID : String) : Prog Action (Option GoError) := do
  match ← perform (.update (pruneTx taskID)) with
  | .error err => return some err
  | .ok blobs => if blobs.isEmpty then return none else sweepPendingBlobGCLocked

def pruneIntermediateTaskData (taskID : String) : Prog Action (Option GoError) := do
  match validateTaskID taskID with
  | some err => return some err
  | none =>
    match ← perform (.view (prunePreflight taskID)) with
    | .error err => return some err
    | .ok false => return none
    | .ok true => pruneLocked taskID

end Proxyma.Storage
