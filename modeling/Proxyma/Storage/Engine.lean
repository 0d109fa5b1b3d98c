import Proxyma.Lib.Program
import Proxyma.Storage.Database

/-!
# The storage engine

The operations of `StorageEngine` as programs over atomic actions: one `bbolt`
transaction, one operation on a blob file, one call of a hook, or one critical
section of `downloadMu`.  What happens between two of them is visible to other
goroutines and survives a crash.

An operation that takes `mutationMu` is split at the lock: the part under the
lock is a program of its own, named after the operation with the suffix
`Locked`.

Every call into the database, the file system or a hook can fail.  Which of
them currently do is part of the state (`Faults`), so that the environment may
change it between any two actions.
-/

namespace Proxyma.Storage

open Keyed Atomic Atomic.Prog GoError

/-! ## State and actions -/

/-- The error each kind of call currently returns, if any. -/
structure Faults where
  view : Option GoError := none
  update : Option GoError := none
  stageBlob : Option GoError := none
  prepareBlob : Option GoError := none
  commit : Option GoError := none
  remove : Option GoError := none
  blobExists : Option GoError := none
  prepareNotification : Option GoError := none
  finishNotification : Option GoError := none
  onDownloadNeeded : Option GoError := none

/-- A download a worker of this process is busy with. -/
structure ActiveDownload where
  intent : DownloadIntent
  token : UInt64

/-- The memory guarded by `downloadMu`. -/
structure Downloads where
  activeDownloads : Bucket String ActiveDownload
  nextDownloadID : UInt64

/-- The engine: database, blob directory, download table, the entries announced
to peers so far, and the calls that fail. -/
@[ext] structure State where
  db : Database
  disk : Disk
  downloads : Downloads
  announced : List IndexEntry
  faults : Faults

/-- An engine over an empty database and an empty disk. -/
def State.fresh : State := ⟨.empty, ⟨∅, ∅⟩, ⟨.empty, 0⟩, [], {}⟩

/-- Which of the callers of `DeleteBlob` is deleting. -/
inductive Deleter
  | sweep
  | orphan
  | compensate
  deriving DecidableEq, Repr

/-- The atomic actions. -/
inductive Action : Type → Type 1
  | view {α : Type} (read : Database → Except GoError α) : Action (Except GoError α)
  | update {α : Type} (write : Database → Except GoError (α × Database)) : Action (Except GoError α)
  | stageBlob : Action (Option GoError)
  | prepareBlob : Action (Option GoError)
  | commit (hash : Digest) : Action (Except GoError Bool)
  | deleteBlob (caller : Deleter) (hash : String) : Action (Option GoError)
  | blobExists (hash : String) : Action (Except GoError Bool)
  | prepareNotification (entry : IndexEntry) : Action (Option GoError)
  | finishNotification (entry : IndexEntry) (committed : Bool) : Action (Option GoError)
  | downloads {α : Type} (critical : Downloads → α × Downloads) : Action α
  | onDownloadNeeded (file : IndexEntry) (source : String) : Action (Option GoError)

/-- A failing call returns its error and does nothing. -/
def orFault {α : Type} (fault : Option GoError) (s : State) (otherwise : Except GoError α × State) :
    Except GoError α × State :=
  fault.elim otherwise fun err => (.error err, s)

/-- What the actions do in an engine whose blobs are in `baseDir`. -/
def exec (baseDir : CleanPath) : {α : Type} → Action α → State → α × State
  | _, .view read, s => orFault s.faults.view s (read s.db, s)
  | _, .update write, s =>
    orFault s.faults.update s <|
      match write s.db with
      | .error err => (.error err, s)
      | .ok (result, db) => (.ok result, { s with db := db })
  | _, .stageBlob, s => (s.faults.stageBlob, s)
  | _, .prepareBlob, s => (s.faults.prepareBlob, s)
  | _, .commit hash, s =>
    orFault s.faults.commit s <|
      let (created, disk) := s.disk.commit baseDir hash
      (.ok created, { s with disk := disk })
  | _, .deleteBlob _ hash, s =>
    s.faults.remove.elim
      (let (err, disk) := s.disk.deleteBlob baseDir hash
      (err, { s with disk := disk }))
      fun err => (some err, s)
  | _, .blobExists hash, s =>
    orFault (if isValidCASHash hash then s.faults.blobExists else none) s
      (.ok (s.disk.blobExists baseDir hash), s)
  | _, .prepareNotification _, s => (s.faults.prepareNotification, s)
  | _, .finishNotification entry committed, s =>
    (s.faults.finishNotification,
      if committed then { s with announced := s.announced ++ [entry] } else s)
  | _, .downloads critical, s =>
    let (result, downloads) := critical s.downloads
    (result, { s with downloads := downloads })
  | _, .onDownloadNeeded _ _, s => (s.faults.onDownloadNeeded, s)

/-- The engine as a handler of its actions. -/
def engine (baseDir : CleanPath) : Handler Action State := ⟨exec baseDir⟩

/-! ## Transactions -/

/-- `VFS.Get`. -/
def get (name : String) : Prog Action (Except GoError (Option IndexEntry)) :=
  perform (.view fun db => .ok (db.index.get name))

/-- `VFS.Upsert`. -/
def upsert (entry : IndexEntry) : Prog Action (Except GoError Bool) :=
  perform (.update (upsertTx entry))

/-- `IsSubscribedE`. -/
def isSubscribed (fileName : String) : Prog Action (Except GoError Bool) :=
  perform (.view fun db => .ok (db.subscriptions.has fileName))

def setSubscriptionLocked (fileName : String) (isSubscribed : Bool) :
    Prog Action (Option GoError) := do
  match ← perform (.update (setSubscriptionTx fileName isSubscribed)) with
  | .error err => return some err
  | .ok () => return none

/-! ## Collecting blobs -/

/-- The deletion loop of `sweepPendingBlobGCLocked`, in key order: the hashes
that are done with, and the errors of the others. -/
def sweepDeletes : List (String × Bool) → List String → Option GoError →
    Prog Action (List String × Option GoError)
  | [], completed, sweepErr => return (completed, sweepErr)
  | (hash, referenced) :: rest, completed, sweepErr => do
      if referenced then sweepDeletes rest (completed ++ [hash]) sweepErr
      else
        match ← perform (.deleteBlob .sweep hash) with
        | some err =>
          sweepDeletes rest completed
            (joinErrors sweepErr (some (.wrapf "delete pending blob %s: %w" [hash] err)))
        | none => sweepDeletes rest (completed ++ [hash]) sweepErr

def sweepPendingBlobGCLocked : Prog Action (Option GoError) := do
  match ← perform (.view fun db => .ok (scanPendingBlobGC db)) with
  | .error err => return some err
  | .ok pending =>
    if pending.isEmpty then return none
    let (completed, sweepErr) ← sweepDeletes pending [] none
    if completed.isEmpty then return sweepErr
    match ← perform (.update (clearPendingBlobGCTx completed)) with
    | .error err => return joinErrors sweepErr (some err)
    | .ok () => return sweepErr

def deleteBlobIfOrphan (hash : String) (subscribedOnly : Bool) : Prog Action (Option GoError) := do
  match ← perform (.view fun db => .ok (countHashRefs hash subscribedOnly db)) with
  | .error err => return some (.wrapf "orphan check aborted: %w" [] err)
  | .ok refs => if refs > 0 then return none else perform (.deleteBlob .orphan hash)

def compensatePhysicalBlob (hash : String) (created : Bool) : Prog Action (Option GoError) :=
  if !created then return none else perform (.deleteBlob .compensate hash)

/-! ## Metadata mutations -/

/-- `upsertIndexLocked`: whether the entry was stored, and the error. -/
def upsertIndexLocked (entry : IndexEntry) : Prog Action (Bool × Option GoError) := do
  match ← get entry.name with
  | .error err => return (false, some err)
  | .ok _ =>
    match ← upsert entry with
    | .error err => return (false, some err)
    | .ok false => return (false, none)
    | .ok true =>
      match ← sweepPendingBlobGCLocked with
      | some err =>
        return (true, some (.wrapf
          "VFS metadata for %s committed but pending blob GC failed: %w" [entry.name] err))
      | none => return (true, none)

/-- The tombstone transaction of `DeleteLocalFile` and the sweep after it:
whether the tombstone was committed, and the error. -/
def persistTombstone (fileName : String) (fileMeta : IndexEntry) :
    Prog Action (Bool × Option GoError) := do
  match ← upsert fileMeta with
  | .error err => return (false, some err)
  | .ok false =>
    return (false, some (.errorf "failed to persist deletion tombstone for %s" [fileName]))
  | .ok true =>
    match ← sweepPendingBlobGCLocked with
    | some err =>
      return (true, some (.wrapf "file %s tombstoned but blob GC failed: %w" [fileMeta.name] err))
    | none => return (true, none)

/-- The tombstone `DeleteLocalFile` writes over an entry. -/
def tombstone (entry : IndexEntry) : IndexEntry :=
  { entry with version := wrap64 (entry.version + 1), deleted := true }

/-- `DeleteLocalFile`. -/
def deleteLocalFileLocked (fileName : String) : Prog Action (Option GoError) := do
  match ← get fileName with
  | .error err => return some err
  | .ok none => return some (.vfsFileNotFound fileName)
  | .ok (some entry) =>
    match ← perform (.prepareNotification (tombstone entry)) with
    | some err => return some err
    | none =>
      let (committed, err) ← persistTombstone fileName (tombstone entry)
      let finishErr ← perform (.finishNotification (tombstone entry) committed)
      return joinErrors err finishErr

/-- `DeleteLocalCache`. -/
def deleteLocalCacheLocked (fileName : String) : Prog Action (Option GoError) := do
  match ← get fileName with
  | .error err => return some err
  | .ok none => return some (.vfsFileNotFound fileName)
  | .ok (some entry) =>
    match ← setSubscriptionLocked fileName false with
    | some err => return some err
    | none => deleteBlobIfOrphan entry.hash true

/-- The transaction of `upsertAndSubscribeLocked` and the sweep after it. -/
def commitSubscribed (entry : IndexEntry) : Prog Action (VFSWrite × Option GoError) := do
  match ← perform (.update (upsertAndSubscribeTx entry)) with
  | .error err => return (⟨entry, none, false⟩, some err)
  | .ok result =>
    if !result.applied then return (result, none)
    match ← sweepPendingBlobGCLocked with
    | some err =>
      return (result, some (.wrapf
        "VFS metadata for %s committed but pending blob GC failed: %w"
        [result.written.name] err))
    | none => return (result, none)

def upsertAndSubscribeLocked (entry : IndexEntry) (shouldNotify : Bool) :
    Prog Action (VFSWrite × Option GoError) := do
  if !shouldNotify then commitSubscribed entry
  else
    match ← get entry.name with
    | .error err => return (⟨default, none, false⟩, some err)
    | .ok current =>
      match effectiveEntry current entry with
      | none => return (⟨current.getD default, current, false⟩, none)
      | some entry =>
        match ← perform (.prepareNotification entry) with
        | some err => return (⟨default, none, false⟩, some err)
        | none =>
          let (result, err) ← commitSubscribed entry
          let finishErr ← perform (.finishNotification entry result.applied)
          return (result, joinErrors err finishErr)

/-- The entry `SaveLocalFile` asks for; its version is chosen by the index. -/
def savedEntry (fileName : String) (content : Blob) : IndexEntry :=
  { name := fileName, size := content.size, hash := content.hash.text, version := 0,
    deleted := false }

/-- The entry `StageLocalFile` asks for. -/
def stagedEntry (pathStr : String) (content : Blob) : IndexEntry :=
  savedEntry ("stage/" ++ content.hash.text ++ "/" ++ CleanPath.base pathStr) content

/-- The part of `SaveLocalFile` under the lock. -/
def saveLocalFileLocked (fileName : String) (content : Blob) : Prog Action (Option GoError) := do
  match ← perform (.commit content.hash) with
  | .error err => return some (.wrapf "error committing the blob %s: %w" [fileName] err)
  | .ok created =>
    let (result, err) ← upsertAndSubscribeLocked (savedEntry fileName content) true
    match err, result.applied with
    | some err, false =>
      match ← compensatePhysicalBlob content.hash.text created with
      | some cleanupErr =>
        return some (.join err (.wrapf "compensate blob %s: %w" [content.hash.text] cleanupErr))
      | none => return some err
    | err, _ => return err

def saveLocalFile (fileName : String) (content : Blob) : Prog Action (Option GoError) := do
  match ← perform .stageBlob with
  | some err => return some (.wrapf "error staging the blob %s: %w" [fileName] err)
  | none =>
    match ← perform .prepareBlob with
    | some err => return some (.wrapf "error preparing the blob %s: %w" [fileName] err)
    | none => saveLocalFileLocked fileName content

/-- The part of `StageLocalFile` under the lock. -/
def stageLocalFileLocked (pathStr : String) (content : Blob) :
    Prog Action (Except GoError Blob) := do
  match ← perform (.commit content.hash) with
  | .error err => return .error err
  | .ok created =>
    let (result, err) ← upsertAndSubscribeLocked (stagedEntry pathStr content) false
    match err with
    | none => return .ok content
    | some err =>
      if result.applied then return .error err
      match ← compensatePhysicalBlob content.hash.text created with
      | some cleanupErr =>
        return .error (.join err (.wrapf "compensate staged blob: %w" [] cleanupErr))
      | none => return .error err

end Proxyma.Storage
