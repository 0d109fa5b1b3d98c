import Proxyma.Lib.FileTree
import Proxyma.Lib.Program
import Proxyma.Protocol

/-!
# Installing a joined identity

A node that joins a cluster replaces its certificates and its configuration.
`stageJoinInstallation` writes the new ones to a transaction directory, `install`
moves the old ones to a backup and the new ones in, `commit` makes that final and
`rollback` undoes it.  A journal records how far the transaction got, and
`recoverJoinInstallation` reads it when the node starts again.

Paths are relative to the storage directory.  Every call to the file system is
one atomic action that succeeds or fails without an effect; `Disk.faults` says
which of the calls to come fail for reasons outside the model.
-/

namespace Proxyma.Join

open FileTree Atomic Atomic.Prog

/-! ## The journal -/

/-- The phases a journal records. -/
inductive Phase
  | staged
  | installing
  | installed
  | committed
  deriving DecidableEq, Repr

/-- `joinJournal`. -/
structure JoinJournal where
  phase : Phase
  root : Path
  stagedCerts : Path
  stagedConfig : Path
  finalCerts : Path
  finalConfig : Path
  backupCerts : Path
  backupConfig : Path
  certsBackedUp : Bool
  configBackedUp : Bool
  certsInstalled : Bool
  configInstalled : Bool
  hadCerts : Bool
  hadConfig : Bool
  deriving DecidableEq, Repr

/-- `joinInstallation`: what the journal records, in memory. -/
structure JoinInstallation extends JoinJournal where
  finished : Bool
  journalPath : Path
  deriving DecidableEq, Repr

/-- The content of a file. -/
inductive Document
  | bytes (content : String)
  | journal (record : JoinJournal)
  deriving DecidableEq, Repr

/-! ## The file system -/

/-- The storage directory, and which calls to come fail. -/
structure Disk where
  tree : Node Document
  faults : List Bool

/-- The error of a failed operation. -/
def osError : Errno → GoError
  | .exist => .new "file already exists"
  | .notExist => errNotExist
  | .notDir => .new "not a directory"
  | .notEmpty => errNotEmpty
  | .invalid => .new "invalid argument"

/-- The error of a call that fails for a reason outside the model. -/
def ioError : GoError := .new "input/output error"

/-- The calls to the file system. -/
inductive Action : Type → Type 1
  | stat (path : Path) : Action (Except GoError Bool)
  | mkdirAll (path : Path) : Action (Option GoError)
  | mkdirTemp (name : String) : Action (Option GoError)
  | write (path : Path) (content : Document) : Action (Option GoError)
  | rename (old new : Path) : Action (Option GoError)
  | removeAll (path : Path) : Action (Option GoError)
  | remove (path : Path) : Action (Option GoError)
  | sync (path : Path) : Action (Option GoError)
  | readJSONFile (path : Path) : Action (Except GoError JoinJournal)

/-- Replace the tree by the result of an operation, unless it fails. -/
def Disk.update (disk : Disk) (result : Except Errno (Node Document)) : Option GoError × Disk :=
  match result with
  | .ok tree => (none, { disk with tree })
  | .error errno => (some (osError errno), disk)

/-- What a call does that is not cut off by a fault. -/
def attempt {β : Type} : Action β → Disk → β × Disk
  | .stat path, disk => (.ok (disk.tree.get path).isSome, disk)
  | .mkdirAll path, disk =>
    disk.update (((disk.tree.mkdirAll path).map Except.ok).getD (.error .notDir))
  | .mkdirTemp name, disk => disk.update (disk.tree.mkdir [name])
  | .write path content, disk => disk.update (disk.tree.write path content)
  | .rename old new, disk => disk.update (disk.tree.rename old new)
  | .removeAll path, disk => (none, { disk with tree := disk.tree.removeAll path })
  | .remove path, disk => disk.update (disk.tree.remove path)
  | .sync path, disk => (if (disk.tree.get path).isSome then none else some errNotExist, disk)
  | .readJSONFile path, disk =>
    match disk.tree.get path with
    | none => (.error errNotExist, disk)
    | some (.file (.journal record)) => (.ok record, disk)
    | some _ => (.error (.new "invalid JSON"), disk)

/-- What a call that is cut off by a fault returns. -/
def failure {β : Type} : Action β → β
  | .stat _ => .error ioError
  | .mkdirAll _ => some ioError
  | .mkdirTemp _ => some ioError
  | .write _ _ => some ioError
  | .rename _ _ => some ioError
  | .removeAll _ => some ioError
  | .remove _ => some ioError
  | .sync _ => some ioError
  | .readJSONFile _ => .error ioError

/-- The calls to the file system, in order. -/
def files : Handler Action Disk where
  exec := fun action disk =>
    match disk.faults with
    | [] => attempt action disk
    | true :: rest => (failure action, { disk with faults := rest })
    | false :: rest => attempt action { disk with faults := rest }

/-! ## Helpers -/

/-- A path as it stands in a message. -/
def pathText (path : Path) : String := "/".intercalate path

/-- `filepath.Dir`. -/
def parent (path : Path) : Path := path.dropLast

def pathExists (path : Path) : Prog Action (Except GoError Bool) := do
  match ← perform (.stat path) with
  | .ok found => return .ok found
  | .error err => return .error (.wrapf "inspect %s: %w" [pathText path] err)

def syncFile (path : Path) : Prog Action (Option GoError) := perform (.sync path)

def syncDir (path : Path) : Prog Action (Option GoError) := do
  match ← perform (.sync path) with
  | none => return none
  | some err =>
    let format :=
      if err = errNotExist then "open directory for sync %s: %w" else "sync directory %s: %w"
    return some (.wrapf format [pathText path] err)

/-- The first directories of `persistJournal`: those that exist are synced. -/
def syncExisting : List Path → Prog Action (Option GoError)
  | [] => return none
  | dir :: rest => do
      match ← pathExists dir with
      | .ok true =>
        match ← syncDir dir with
        | some err => return some err
        | none => syncExisting rest
      | _ => syncExisting rest

def persistJournal (j : JoinInstallation) : Prog Action (Option GoError) := do
  match ← syncExisting [parent j.stagedCerts, parent j.backupCerts, parent j.finalCerts] with
  | some err => return some err
  | none => perform (.write j.journalPath (.journal j.toJoinJournal))

/-! ## Staging -/

def joinJournalFileName : String := ".join-transaction.json"

/-- The name `os.MkdirTemp` makes of the pattern `.join-txn-*`. -/
def transactionName (suffix : String) : String := ".join-txn-" ++ suffix

/-- `p2p.CACertPaths`, the certificate. -/
def caCertPath (dir : Path) : Path := dir ++ ["ca.crt"]

/-- `p2p.NodeCertPaths`, the certificate. -/
def nodeCertPath (dir : Path) (nodeID : String) : Path := dir ++ [nodeID ++ ".crt"]

/-- `p2p.NodeCertPaths`, the key. -/
def nodeKeyPath (dir : Path) (nodeID : String) : Path := dir ++ [nodeID ++ ".key"]

/-- What a join received: the arguments of `stageJoinInstallation`. -/
structure Identity where
  nodeID : String
  cfg : String
  caPEM : String
  certPEM : String
  keyPEM : String
  deriving DecidableEq, Repr

def writeNodePEMs (caPath certPath keyPath : Path) (caPEM certPEM keyPEM : String) :
    Prog Action (Option GoError) := do
  match ← perform (.write caPath (.bytes caPEM)) with
  | some err => return some err
  | none =>
  match ← perform (.write certPath (.bytes certPEM)) with
  | some err => return some err
  | none =>
  if keyPEM ≠ "" then perform (.write keyPath (.bytes keyPEM)) else return none

/-- The loop of `stageJoinInstallation` that syncs the staged files. -/
def syncStaged : List Path → Prog Action (Option GoError)
  | [] => return none
  | path :: rest => do
      match ← syncFile path with
      | some err => return some (.wrapf "sync staged join state: %w" [] err)
      | none => syncStaged rest

/-- The installation as it is created. -/
def newInstallation (root : Path) : JoinInstallation where
  phase := .staged
  root := root
  stagedCerts := root ++ ["state", "certs"]
  stagedConfig := root ++ ["state", "config.json"]
  finalCerts := ["certs"]
  finalConfig := ["config.json"]
  backupCerts := root ++ ["backup", "certs"]
  backupConfig := root ++ ["backup", "config.json"]
  certsBackedUp := false
  configBackedUp := false
  certsInstalled := false
  configInstalled := false
  hadCerts := false
  hadConfig := false
  finished := false
  journalPath := [joinJournalFileName]

/-- Write the new certificates and the new configuration. -/
def stageFiles (j : JoinInstallation) (identity : Identity) : Prog Action (Option GoError) := do
  match ← perform (.mkdirAll j.stagedCerts) with
  | some err => return some (.wrapf "failed to create staged certs directory: %w" [] err)
  | none =>
  let caPath := caCertPath j.stagedCerts
  let certPath := nodeCertPath j.stagedCerts identity.nodeID
  let keyPath := nodeKeyPath j.stagedCerts identity.nodeID
  match ← writeNodePEMs caPath certPath keyPath identity.caPEM identity.certPEM
      identity.keyPEM with
  | some err => return some (.wrapf "failed to stage joined node PEMs: %w" [] err)
  | none =>
  match ← perform (.write j.stagedConfig (.bytes identity.cfg)) with
  | some err => return some (.wrapf "failed to stage joined node config: %w" [] err)
  | none =>
  match ← syncStaged [caPath, certPath, keyPath, j.stagedConfig] with
  | some err => return some err
  | none => syncDir j.stagedCerts

/-- The part of `stageJoinInstallation` on whose failure the transaction
directory is removed. -/
def stageTransaction (root : Path) (identity : Identity) :
    Prog Action (Except GoError JoinInstallation) := do
  let j := newInstallation root
  match ← pathExists j.finalCerts with
  | .error err => return .error err
  | .ok hadCerts =>
  match ← pathExists j.finalConfig with
  | .error err => return .error err
  | .ok hadConfig =>
  let j := { j with hadCerts, hadConfig }
  match ← stageFiles j identity with
  | some err => return .error err
  | none =>
  match ← persistJournal j with
  | some err => return .error (.wrapf "persist staged join journal: %w" [] err)
  | none => return .ok j

def stageJoinInstallation (suffix : String) (identity : Identity) :
    Prog Action (Except GoError JoinInstallation) := do
  match ← perform (.mkdirAll []) with
  | some err => return .error (.wrapf "failed to create join storage directory: %w" [] err)
  | none =>
  match ← perform (.mkdirTemp (transactionName suffix)) with
  | some err => return .error (.wrapf "failed to create join transaction: %w" [] err)
  | none =>
  match ← stageTransaction [transactionName suffix] identity with
  | .ok j => return .ok j
  | .error err => do
      let _ ← perform (.removeAll [transactionName suffix])
      return .error err

/-! ## Installing -/

/-- Move what a join replaces to the backup, and record that. -/
def backUp (final backup : Path) (message : String) (record : JoinInstallation → JoinInstallation)
    (j : JoinInstallation) : Prog Action (JoinInstallation × Option GoError) := do
  match ← pathExists final with
  | .error err => return (j, some err)
  | .ok false => return (j, none)
  | .ok true =>
  match ← perform (.rename final backup) with
  | some err => return (j, some (.wrapf message [] err))
  | none => return (record j, ← persistJournal (record j))

/-- Move what a join brings to its place, and record that. -/
def moveIn (staged final : Path) (message : String) (record : JoinInstallation → JoinInstallation)
    (j : JoinInstallation) : Prog Action (JoinInstallation × Option GoError) := do
  match ← perform (.rename staged final) with
  | some err => return (j, some (.wrapf message [] err))
  | none => return (record j, ← persistJournal (record j))

/-- The moves of `install`. -/
def moveItems (j : JoinInstallation) : Prog Action (JoinInstallation × Option GoError) := do
  match ← backUp j.finalCerts j.backupCerts "backup existing certificates: %w"
      (fun j => { j with certsBackedUp := true }) j with
  | (j, some err) => return (j, some err)
  | (j, none) =>
  match ← backUp j.finalConfig j.backupConfig "backup existing config: %w"
      (fun j => { j with configBackedUp := true }) j with
  | (j, some err) => return (j, some err)
  | (j, none) =>
  match ← moveIn j.stagedCerts j.finalCerts "install joined certificates: %w"
      (fun j => { j with certsInstalled := true }) j with
  | (j, some err) => return (j, some err)
  | (j, none) =>
  moveIn j.stagedConfig j.finalConfig "install joined config: %w"
    (fun j => { j with configInstalled := true, phase := .installed }) j

def install (j : JoinInstallation) : Prog Action (JoinInstallation × Option GoError) := do
  let j := { j with phase := .installing }
  match ← persistJournal j with
  | some err => return (j, some (.wrapf "persist join install phase: %w" [] err))
  | none =>
  match ← perform (.mkdirAll (parent j.backupCerts)) with
  | some err => return (j, some (.wrapf "create join backup directory: %w" [] err))
  | none => moveItems j

def commit (j : JoinInstallation) : Prog Action (JoinInstallation × Option GoError) := do
  let j := { j with phase := .committed }
  match ← persistJournal j with
  | some err => return (j, some (.wrapf "persist committed join phase: %w" [] err))
  | none => return ({ j with finished := true }, none)

/-! ## Undoing -/

/-- Remove what a join brought, if it is in place. -/
def removeInstalled (installed : Bool) (final : Path) (message : String)
    (rollbackErr : Option GoError) : Prog Action (Option GoError) := do
  if installed then
    match ← perform (.removeAll final) with
    | some err => return GoError.joinErrors rollbackErr (some (.wrapf message [] err))
    | none => return rollbackErr
  else return rollbackErr

/-- Move what a join replaced back, if it is in the backup; the flag says whether
it still is. -/
def restoreBackup (backedUp : Bool) (backup final : Path) (message : String)
    (rollbackErr : Option GoError) : Prog Action (Option GoError × Bool) := do
  if backedUp then
    match ← perform (.rename backup final) with
    | some err => return (GoError.joinErrors rollbackErr (some (.wrapf message [] err)), true)
    | none => return (rollbackErr, false)
  else return (rollbackErr, false)

/-- Remove the transaction directory and the journal; the errors of the three
calls. -/
def removeTransaction (j : JoinInstallation) :
    Prog Action (Option GoError × Option GoError × Option GoError) := do
  let rootErr ← perform (.removeAll j.root)
  let journalErr ← perform (.remove j.journalPath)
  let syncErr ← syncDir (parent j.journalPath)
  return (rootErr, journalErr, syncErr)

/-- The end of `rollback`.  The error of removing a journal that does not exist
is not dropped: `os.IsNotExist` does not look into a joined error. -/
def finishRollback (j : JoinInstallation) : Prog Action (Option GoError) := do
  let (rootErr, journalErr, syncErr) ← removeTransaction j
  return GoError.joinErrors (GoError.joinErrors rootErr journalErr) syncErr

def rollback (j : JoinInstallation) : Prog Action (JoinInstallation × Option GoError) := do
  let err ← removeInstalled j.configInstalled j.finalConfig "remove joined config: %w" none
  let err ← removeInstalled j.certsInstalled j.finalCerts "remove joined certificates: %w" err
  let (err, configBackedUp) ← restoreBackup j.configBackedUp j.backupConfig j.finalConfig
    "restore previous config: %w" err
  let (err, certsBackedUp) ← restoreBackup j.certsBackedUp j.backupCerts j.finalCerts
    "restore previous certificates: %w" err
  let j := { j with configInstalled := false, certsInstalled := false, configBackedUp,
                    certsBackedUp }
  match err with
  | some err => return (j, some err)
  | none =>
    let err ← finishRollback j
    return ({ j with finished := true }, err)

def cleanupCommitted (j : JoinInstallation) : Prog Action (Option GoError) := do
  let (rootErr, journalErr, syncErr) ← removeTransaction j
  let journalErr := if journalErr = some errNotExist then none else journalErr
  return GoError.joinErrors (GoError.joinErrors rootErr journalErr) syncErr

/-! ## Recovering -/

/-- The check of `recoverJoinInstallation` on the paths of a journal. -/
def belongsToStorage (journal : JoinJournal) : Bool :=
  journal.finalCerts = ["certs"] ∧ journal.finalConfig = ["config.json"] ∧
    parent journal.root = [] ∧
    Text.hasPrefix (journal.root.getLast?.getD ".") ".join-txn-" ∧
    journal.stagedCerts = journal.root ++ ["state", "certs"] ∧
    journal.stagedConfig = journal.root ++ ["state", "config.json"] ∧
    journal.backupCerts = journal.root ++ ["backup", "certs"] ∧
    journal.backupConfig = journal.root ++ ["backup", "config.json"]

/-- What recovery makes of a journal's flags when it has looked at the disk. -/
def inferFlags (j : JoinInstallation) (backupCertsExist backupConfigExists stagedCertsExist
    stagedConfigExists finalCertsExist finalConfigExists : Bool) : JoinInstallation :=
  { j with
    certsBackedUp := j.certsBackedUp || backupCertsExist
    configBackedUp := j.configBackedUp || backupConfigExists
    certsInstalled := j.certsInstalled ||
      (!stagedCertsExist && finalCertsExist && (!j.hadCerts || backupCertsExist))
    configInstalled := j.configInstalled ||
      (!stagedConfigExists && finalConfigExists && (!j.hadConfig || backupConfigExists)) }

/-- The part of `recoverJoinInstallation` for an installation that was under way. -/
def recoverInstalling (j : JoinInstallation) : Prog Action (Option GoError) := do
  match ← pathExists j.backupCerts with
  | .error err => return some err
  | .ok backupCertsExist =>
  match ← pathExists j.backupConfig with
  | .error err => return some err
  | .ok backupConfigExists =>
  match ← pathExists j.stagedCerts with
  | .error err => return some err
  | .ok stagedCertsExist =>
  match ← pathExists j.stagedConfig with
  | .error err => return some err
  | .ok stagedConfigExists =>
  match ← pathExists j.finalCerts with
  | .error err => return some err
  | .ok finalCertsExist =>
  match ← pathExists j.finalConfig with
  | .error err => return some err
  | .ok finalConfigExists =>
  let (_, err) ← rollback (inferFlags j backupCertsExist backupConfigExists stagedCertsExist
    stagedConfigExists finalCertsExist finalConfigExists)
  return err

def recoverJoinInstallation : Prog Action (Option GoError) := do
  match ← perform (.readJSONFile [joinJournalFileName]) with
  | .error err =>
    if err = errNotExist then return none
    else return some (.wrapf "read join journal: %w" [] err)
  | .ok journal =>
  if !belongsToStorage journal then
    return some (.errorf "join journal paths do not belong to storage %q" [pathText []])
  else
    let j : JoinInstallation :=
      { journal with finished := false, journalPath := [joinJournalFileName] }
    if journal.phase = .committed then cleanupCommitted { j with finished := true }
    else if journal.phase = .staged then cleanupCommitted { j with finished := true }
    else recoverInstalling j

end Proxyma.Join
