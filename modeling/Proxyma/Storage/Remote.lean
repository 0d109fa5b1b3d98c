import Proxyma.Storage.Engine

/-!
# What peers send

The operations a peer can cause: processing a manifest or a notification, and
storing a blob fetched from it.  Admission does not look at the version or the
hash of an entry; both go to `upsertIndexLocked` as they are.

A manifest is a bucket, since `ProcessRemoteManifestE` visits its keys in order.
-/

namespace Proxyma.Storage

open Keyed Atomic Atomic.Prog GoError

/-! ## Download table -/

/-- `reserveDownload`: the token, and whether a new download has to start. -/
def reserveDownload (intent : DownloadIntent) (d : Downloads) : (UInt64 × Bool) × Downloads :=
  let key := intent.file.name
  match d.activeDownloads.get key with
  | some active =>
    if active.intent.file = intent.file then ((active.token, false), d)
    else start d key
  | none => start d key
where
  start (d : Downloads) (key : String) : (UInt64 × Bool) × Downloads :=
    -- Zero is skipped when the counter wraps around.
    let token := if d.nextDownloadID + 1 = 0 then 1 else d.nextDownloadID + 1
    ((token, true), ⟨d.activeDownloads.put key ⟨intent, token⟩, token⟩)

def rollbackDownloadReservation (key : String) (token : UInt64) (d : Downloads) :
    Unit × Downloads :=
  match d.activeDownloads.get key with
  | some active =>
    if active.token = token then
      ((), { d with activeDownloads := d.activeDownloads.erase key })
    else ((), d)
  | none => ((), d)

def releaseDownloadIntent (file : IndexEntry) (d : Downloads) : Unit × Downloads :=
  match d.activeDownloads.get file.name with
  | some active =>
    if active.intent.file = file then
      ((), { d with activeDownloads := d.activeDownloads.erase file.name })
    else ((), d)
  | none => ((), d)

def completeDownloadIntent (file : IndexEntry) : Prog Action (Option GoError) := do
  match ← perform (.update (completeDownloadIntentTx file)) with
  | .error err => return some err
  | .ok () =>
    perform (.downloads (releaseDownloadIntent file))
    return none

/-- The locked transaction of `requestRemoteDownload`. -/
def persistDownloadIntentLocked (file : IndexEntry) (source : String) :
    Prog Action (Option GoError) := do
  match ← perform (.update (persistDownloadIntentTx file source)) with
  | .error err =>
    if err.is errBlobDiscarded then return some err
    else return some (.wrapf "persist download intent: %w" [] err)
  | .ok () => return none

def requestRemoteDownload (file : IndexEntry) (source : String) : Prog Action (Option GoError) := do
  match ← persistDownloadIntentLocked file source with
  | some err => return some err
  | none =>
    let (token, startCallback) ← perform (.downloads (reserveDownload ⟨file, source⟩))
    if !startCallback then return none
    match ← perform (.onDownloadNeeded file source) with
    | some err =>
      perform (.downloads (rollbackDownloadReservation file.name token))
      return some err
    | none => return none

/-! ## Entries -/

/-- `ProcessRemoteDeletion`. -/
def processRemoteDeletionLocked (fileInfo : IndexEntry) : Prog Action (Option GoError) := do
  match ← upsertIndexLocked fileInfo with
  | (_, some err) => return some err
  | (_, none) =>
    match ← get fileInfo.name with
    | .error err => return some err
    | .ok current =>
      if current = some fileInfo ∧ fileInfo.deleted then completeDownloadIntent fileInfo
      else return none

/-- One live entry of `ProcessRemoteManifestE`: the entry if its blob is
missing, and the error. -/
def processManifestEntry (remoteFileInfo : IndexEntry) :
    Prog Action (Option IndexEntry × Option GoError) := do
  match ← upsertIndexLocked remoteFileInfo with
  | (_, some err) =>
    return (none, some (.wrapf "persist manifest entry %q: %w" [remoteFileInfo.name] err))
  | (updated, none) =>
    match ← get remoteFileInfo.name with
    | .error err =>
      return (none, some (.wrapf "read manifest entry %q: %w" [remoteFileInfo.name] err))
    | .ok current =>
      if current ≠ some remoteFileInfo then return (none, none)
      match ← isSubscribed remoteFileInfo.name with
      | .error err =>
        return (none, some (.wrapf "read manifest subscription %q: %w"
          [remoteFileInfo.name] err))
      | .ok false => return (none, none)
      | .ok true =>
        match ← perform (.blobExists remoteFileInfo.hash) with
        | .error err =>
          return (none, some (.wrapf "verify manifest blob %q: %w"
            [remoteFileInfo.name] err))
        | .ok hasBlob =>
          if updated ∨ !hasBlob then return (some remoteFileInfo, none)
          else return (none, none)

/-- The loop of `ProcessRemoteManifestE`. -/
def processManifestEntries : List IndexEntry → List IndexEntry → Option GoError →
    Prog Action (List IndexEntry × Option GoError)
  | [], missingFiles, manifestErr => return (missingFiles, manifestErr)
  | remoteFileInfo :: rest, missingFiles, manifestErr => do
      if remoteFileInfo.deleted then
        match ← processRemoteDeletionLocked remoteFileInfo with
        | some err =>
          processManifestEntries rest missingFiles (joinErrors manifestErr
            (some (.wrapf "process manifest tombstone %q: %w" [remoteFileInfo.name] err)))
        | none => processManifestEntries rest missingFiles manifestErr
      else
        let (missing, err) ← processManifestEntry remoteFileInfo
        processManifestEntries rest (missingFiles ++ missing.toList) (joinErrors manifestErr err)

def processRemoteManifestE (manifest : Bucket String IndexEntry) :
    Prog Action (List IndexEntry × Option GoError) :=
  processManifestEntries (manifest.entries.map Prod.snd) [] none

/-- The download loop of `ProcessRemoteManifestFromSource`. -/
def requestMissing (source : String) : List IndexEntry → Option GoError →
    Prog Action (Option GoError)
  | [], manifestErr => return manifestErr
  | file :: rest, manifestErr => do
      match ← requestRemoteDownload file source with
      | some err =>
        requestMissing source rest (joinErrors manifestErr
          (some (.wrapf "stage manifest download %q: %w" [file.name] err)))
      | none => requestMissing source rest manifestErr

def processRemoteManifestFromSource (manifest : Bucket String IndexEntry) (source : String) :
    Prog Action (List IndexEntry × Option GoError) := do
  let (missing, manifestErr) ← processRemoteManifestE manifest
  let manifestErr ← requestMissing source missing manifestErr
  return (missing, manifestErr)

/-! ## Notifications -/

/-- An HTTP answer. -/
structure Response where
  status : ℕ
  message : String
  deriving DecidableEq, Repr

def errDownloadQueueFull : GoError := .new "download queue full"

/-- `HandleNotification`, once the body has been decoded. -/
def handleNotification (file : IndexEntry) (source : String) : Prog Action Response := do
  if file.deleted then
    match ← processRemoteDeletionLocked file with
    | some _ => return ⟨500, "Failed to persist deletion metadata"⟩
    | none => return ⟨200, "Metadata updated"⟩
  else
    match ← upsertIndexLocked file with
    | (_, some _) => return ⟨500, "Failed to update metadata"⟩
    | (_, none) =>
      match ← get file.name with
      | .error _ => return ⟨500, "Failed to read current metadata"⟩
      | .ok current =>
        if current ≠ some file then return ⟨200, "Metadata updated"⟩
        match ← isSubscribed file.name with
        | .error _ => return ⟨500, "Failed to read subscription"⟩
        | .ok false => return ⟨200, "Metadata updated"⟩
        | .ok true =>
          match ← perform (.blobExists file.hash) with
          | .error _ => return ⟨500, "Failed to check local blob"⟩
          | .ok true => return ⟨200, "Metadata updated"⟩
          | .ok false =>
            match ← requestRemoteDownload file source with
            | some err =>
              if err.is errBlobDiscarded then return ⟨200, "Notification superseded"⟩
              else if err.is errDownloadQueueFull then return ⟨503, "Download queue full"⟩
              else return ⟨502, "Could not enqueue download from source"⟩
            | none => return ⟨202, "Downloading file"⟩

/-! ## Blobs -/

def errBlobIntegrity : GoError := .new "blob failed permanent integrity verification"

/-- The part of `StoreRemoteBlob` under the lock. -/
def storeRemoteBlobLocked (fileInfo : IndexEntry) (content : Blob) :
    Prog Action (Option GoError) := do
  match ← perform (.commit content.hash) with
  | .error err =>
    perform (.downloads (releaseDownloadIntent fileInfo))
    return some (.wrapf "failed to commit blob physically: %w" [] err)
  | .ok created =>
    match ← get fileInfo.name with
    | .error err =>
      match ← compensatePhysicalBlob fileInfo.hash created with
      | some cleanupErr =>
        return some (.join err (.wrapf "compensate remote blob: %w" [] cleanupErr))
      | none => return some err
    | .ok entry =>
      let current := entry.any fun entry =>
        entry.name = fileInfo.name ∧ entry.version = fileInfo.version ∧
          entry.hash = fileInfo.hash ∧ entry.deleted = fileInfo.deleted ∧ !entry.deleted
      if current then completeDownloadIntent fileInfo
      else
        let gcErr ← deleteBlobIfOrphan fileInfo.hash false
        let completeErr ← completeDownloadIntent fileInfo
        return joinErrors (some errBlobDiscarded) (joinErrors gcErr completeErr)

def storeRemoteBlob (fileInfo : IndexEntry) (content : Blob) : Prog Action (Option GoError) := do
  match ← perform .stageBlob with
  | some err =>
    perform (.downloads (releaseDownloadIntent fileInfo))
    return some (.wrapf "failed to stage blob physically: %w" [] err)
  | none =>
    if content.hash.text ≠ fileInfo.hash then
      perform (.downloads (releaseDownloadIntent fileInfo))
      return some (.join errBlobIntegrity (.errorf "hash mismatch" []))
    else
      match ← perform .prepareBlob with
      | some err =>
        perform (.downloads (releaseDownloadIntent fileInfo))
        return some (.wrapf "failed to prepare blob physically: %w" [] err)
      | none => storeRemoteBlobLocked fileInfo content

end Proxyma.Storage
