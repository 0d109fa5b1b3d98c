import Proxyma.Lib.Bucket
import Proxyma.Storage.Entry
import Proxyma.Storage.Task

/-!
# The metadata database

The buckets of `metadata.db` that hold VFS metadata, download intents and task
records, and the bodies of the transactions on them.  A read transaction is a
function of the database; a write transaction may fail, and then leaves the
database as it was.  Values are kept decoded, so no read meets corrupt JSON.

`resolveVFSWrite` is the write core of every VFS mutation;
`resolveVFSWrite_cases` lists what it can do.
-/

namespace Proxyma.Storage

open Keyed

variable {existing : Option IndexEntry} {written : IndexEntry} {hash : String}

/-- A remote blob this node has decided to fetch. -/
structure DownloadIntent where
  file : IndexEntry
  source : String
  deriving DecidableEq, Repr

/-- The buckets.  A flag bucket maps its keys to `()`.  Download intents are
kept under the name of their file, of which the real key is the base64 form. -/
@[ext] structure Database where
  index : Bucket String IndexEntry
  subscriptions : Bucket String Unit
  pendingBlobGC : Bucket String Unit
  downloadIntents : Bucket String DownloadIntent
  tasksJournal : Bucket String TaskJournalRecord
  tasksActive : Bucket String TaskRecord
  tasksHistory : Bucket String TaskRecord

/-- A freshly initialised database. -/
def Database.empty : Database :=
  ⟨.empty, .empty, .empty, .empty, .empty, .empty, .empty⟩

/-- The largest key `bbolt` takes, in bytes. -/
def maxKeySize : ℕ := 32768

/-- Whether `bbolt` takes a key of this many bytes. -/
def FitsKey (size : ℕ) : Prop := 0 < size ∧ size ≤ maxKeySize

instance (size : ℕ) : Decidable (FitsKey size) := inferInstanceAs (Decidable (_ ∧ _))

/-- The error of a put under a key of another size. -/
def keyError (size : ℕ) : GoError := .new (if size = 0 then "key required" else "key too large")

/-- `Bucket.Put` under a key that occupies `size` bytes. -/
def putSized {V : Type} (b : Bucket String V) (size : ℕ) (key : String) (value : V) :
    Except GoError (Bucket String V) :=
  if FitsKey size then .ok (b.put key value) else .error (keyError size)

/-- `Bucket.Put`. -/
def boltPut {V : Type} (b : Bucket String V) (key : String) (value : V) :
    Except GoError (Bucket String V) :=
  putSized b key.utf8ByteSize key value

theorem putSized_eq {V : Type} (b : Bucket String V) (size : ℕ) (key : String) (value : V) :
    (FitsKey size ∧ putSized b size key value = .ok (b.put key value)) ∨
      (¬ FitsKey size ∧ ∃ err, putSized b size key value = .error err) := by
  by_cases hfits : FitsKey size
  · exact .inl ⟨hfits, if_pos hfits⟩
  · exact .inr ⟨hfits, _, if_neg hfits⟩

theorem boltPut_of_fits {V : Type} (b : Bucket String V) {key : String} (value : V)
    (h : FitsKey key.utf8ByteSize) : boltPut b key value = .ok (b.put key value) :=
  if_pos h

/-! ## VFS writes -/

/-- The entry that a write puts in place of the existing one, or `none` if it
carries an explicit version that does not win. -/
def effectiveEntry (existing : Option IndexEntry) (entry : IndexEntry) : Option IndexEntry :=
  match existing with
  | none => some (if entry.version > 0 then entry else { entry with version := 1 })
  | some current =>
    if entry.version > 0 then
      if compareIndexEntries entry current ≤ 0 then none else some entry
    else some { entry with version := wrap64 (current.version + 1) }

/-- A write chooses the version and leaves the rest of the entry alone. -/
theorem effectiveEntry_eq {entry : IndexEntry} (h : effectiveEntry existing entry = some written) :
    written = { entry with version := written.version } := by
  unfold effectiveEntry at h
  split at h
  · cases h
    split_ifs <;> rfl
  · split_ifs at h <;> obtain rfl := Option.some.inj h <;> rfl

theorem effectiveEntry_hash {entry : IndexEntry}
    (h : effectiveEntry existing entry = some written) : written.hash = entry.hash := by
  rw [effectiveEntry_eq h]

/-- `queueSupersededBlobGCTx`. -/
def queueSupersededBlobGC (pending : Bucket String Unit) (previous next : IndexEntry) :
    Except GoError (Bucket String Unit) :=
  if previous.hash = "" ∨ (!next.deleted ∧ previous.hash = next.hash) then .ok pending
  else boltPut pending previous.hash ()

/-- What `resolveVFSWrite` reports: the effective entry, the previous one and
whether anything was written. -/
structure VFSWrite where
  written : IndexEntry
  existing : Option IndexEntry
  applied : Bool
  deriving DecidableEq, Repr

def resolveVFSWrite (entry : IndexEntry) (db : Database) : Except GoError (VFSWrite × Database) :=
  let existing := db.index.get entry.name
  match effectiveEntry existing entry with
  | none => .ok (⟨existing.getD default, existing, false⟩, db)
  | some written => do
      let index ← boltPut db.index entry.name written
      let pending ← existing.elim (.ok db.pendingBlobGC) fun previous =>
        queueSupersededBlobGC db.pendingBlobGC previous written
      return (⟨written, existing, true⟩, { db with index := index, pendingBlobGC := pending })

/-- The body of `VFS.Upsert`. -/
def upsertTx (entry : IndexEntry) (db : Database) : Except GoError (Bool × Database) := do
  let (write, db) ← resolveVFSWrite entry db
  return (write.applied, db)

/-- The body of `VFS.upsertAndSubscribe`. -/
def upsertAndSubscribeTx (entry : IndexEntry) (db : Database) :
    Except GoError (VFSWrite × Database) := do
  let (write, db) ← resolveVFSWrite entry db
  if !write.applied then return (write, db)
  let subscriptions ← boltPut db.subscriptions entry.name ()
  return (write, { db with subscriptions := subscriptions })

/-- The hash a write puts on the pending list: that of the entry it replaces,
unless there is none or the write keeps it in use. -/
def supersededHash (existing : Option IndexEntry) (written : IndexEntry) : Option String :=
  existing.bind fun previous =>
    if previous.hash = "" ∨ (!written.deleted ∧ previous.hash = written.hash) then none
    else some previous.hash

theorem supersededHash_eq_some (h : supersededHash existing written = some hash) :
    ∃ previous, existing = some previous ∧ previous.hash ≠ "" ∧ previous.hash = hash := by
  rcases existing with _ | previous
  · cases h
  simp only [supersededHash, Option.bind_some] at h
  split_ifs at h with hcond
  exact ⟨previous, rfl, fun hempty => hcond (.inl hempty), Option.some.inj h⟩

/-- `bbolt` takes the keys a write needs. -/
def WriteFits (existing : Option IndexEntry) (written : IndexEntry) (name : String) : Prop :=
  FitsKey name.utf8ByteSize ∧ ∀ hash ∈ supersededHash existing written, FitsKey hash.utf8ByteSize

/-- The database after a write. -/
def Database.write (db : Database) (name : String) (written : IndexEntry) : Database :=
  { db with
    index := db.index.put name written
    pendingBlobGC :=
      match supersededHash (db.index.get name) written with
      | none => db.pendingBlobGC
      | some hash => db.pendingBlobGC.put hash () }

private theorem queueSuperseded_eq (pending : Bucket String Unit) (existing : Option IndexEntry)
    (written : IndexEntry) :
    (existing.elim (.ok pending) fun previous => queueSupersededBlobGC pending previous written) =
      match supersededHash existing written with
      | none => .ok pending
      | some hash => boltPut pending hash () := by
  rcases existing with _ | previous
  · rfl
  simp only [Option.elim, queueSupersededBlobGC, supersededHash, Option.bind_some]
  split_ifs <;> rfl

/-- Everything a VFS write can do: find itself superseded already, store the
effective entry and queue the hash it supersedes, or fail on a key. -/
theorem resolveVFSWrite_cases (entry : IndexEntry) (db : Database) :
    (∃ current, db.index.get entry.name = some current ∧
      effectiveEntry (some current) entry = none ∧
      resolveVFSWrite entry db = .ok (⟨current, some current, false⟩, db)) ∨
    ∃ written, effectiveEntry (db.index.get entry.name) entry = some written ∧
      ((WriteFits (db.index.get entry.name) written entry.name ∧
          resolveVFSWrite entry db =
            .ok (⟨written, db.index.get entry.name, true⟩, db.write entry.name written)) ∨
        (¬ WriteFits (db.index.get entry.name) written entry.name ∧
          ∃ err, resolveVFSWrite entry db = .error err)) := by
  simp only [resolveVFSWrite, queueSuperseded_eq]
  cases heff : effectiveEntry (db.index.get entry.name) entry with
  | none =>
    rcases hget : db.index.get entry.name with _ | current
    · simp [hget, effectiveEntry] at heff
    rw [hget] at heff
    exact .inl ⟨current, rfl, heff, rfl⟩
  | some written =>
    refine .inr ⟨written, rfl, ?_⟩
    simp only [WriteFits, Database.write]
    rcases putSized_eq db.index entry.name.utf8ByteSize entry.name written with
      ⟨hfits, hput⟩ | ⟨hfits, err, hput⟩
    · rcases hsup : supersededHash (db.index.get entry.name) written with _ | hash
      · exact .inl ⟨⟨hfits, by simp⟩, by simp only [boltPut, hput]; rfl⟩
      rcases putSized_eq db.pendingBlobGC hash.utf8ByteSize hash () with
        ⟨hfits', hqueue⟩ | ⟨hfits', err, hqueue⟩
      · exact .inl ⟨⟨hfits, by simpa using hfits'⟩, by simp only [boltPut, hput, hqueue]; rfl⟩
      · exact .inr ⟨by simp [hfits'], err, by simp only [boltPut, hput, hqueue]; rfl⟩
    · exact .inr ⟨fun h => hfits h.1, err, by simp only [boltPut, hput]; rfl⟩

/-- What the two upsert transactions do, read off `resolveVFSWrite_cases`. -/
theorem upsert_cases (entry : IndexEntry) (db : Database) :
    (∃ current, db.index.get entry.name = some current ∧
      effectiveEntry (some current) entry = none ∧ upsertTx entry db = .ok (false, db) ∧
      upsertAndSubscribeTx entry db = .ok (⟨current, some current, false⟩, db)) ∨
    ∃ written, effectiveEntry (db.index.get entry.name) entry = some written ∧
      ((WriteFits (db.index.get entry.name) written entry.name ∧
          upsertTx entry db = .ok (true, db.write entry.name written) ∧
          upsertAndSubscribeTx entry db = .ok (⟨written, db.index.get entry.name, true⟩,
            { db.write entry.name written with
              subscriptions := db.subscriptions.put entry.name () })) ∨
        (¬ WriteFits (db.index.get entry.name) written entry.name ∧
          (∃ err, upsertTx entry db = .error err) ∧
          ∃ err, upsertAndSubscribeTx entry db = .error err)) := by
  rcases resolveVFSWrite_cases entry db with ⟨current, hget, heff, hres⟩ |
    ⟨written, heff, ⟨hfits, hres⟩ | ⟨hfits, err, hres⟩⟩
  · exact .inl ⟨current, hget, heff, by simp only [upsertTx, hres]; rfl,
      by simp only [upsertAndSubscribeTx, hres]; rfl⟩
  · refine .inr ⟨written, heff, .inl ⟨hfits, by simp only [upsertTx, hres]; rfl, ?_⟩⟩
    have hsub := boltPut_of_fits (db.write entry.name written).subscriptions () hfits.1
    simp only [upsertAndSubscribeTx, hres, bind, Except.bind, hsub]
    rfl
  · exact .inr ⟨written, heff, .inr ⟨hfits, ⟨err, by simp only [upsertTx, hres]; rfl⟩,
      ⟨err, by simp only [upsertAndSubscribeTx, hres]; rfl⟩⟩⟩

/-! ## Subscriptions and reference counts -/

/-- The body of `setSubscriptionLocked`. -/
def setSubscriptionTx (fileName : String) (isSubscribed : Bool) (db : Database) :
    Except GoError (Unit × Database) := do
  if isSubscribed then
    let subscriptions ← boltPut db.subscriptions fileName ()
    return ((), { db with subscriptions := subscriptions })
  return ((), { db with subscriptions := db.subscriptions.erase fileName })

theorem setSubscriptionTx_cases (fileName : String) (isSubscribed : Bool) (db : Database) :
    (∃ err, setSubscriptionTx fileName isSubscribed db = .error err) ∨
      ∃ subscriptions, setSubscriptionTx fileName isSubscribed db =
        .ok ((), { db with subscriptions := subscriptions }) := by
  rcases isSubscribed with _ | _
  · exact .inr ⟨_, rfl⟩
  rcases putSized_eq db.subscriptions fileName.utf8ByteSize fileName () with
    ⟨-, hput⟩ | ⟨-, err, hput⟩
  · exact .inr ⟨_, by simp only [setSubscriptionTx, boltPut, hput]; rfl⟩
  · exact .inl ⟨err, by simp only [setSubscriptionTx, boltPut, hput]; rfl⟩

/-- Whether the live entry under a key refers to a hash, counting subscribed
names only if asked to. -/
def countsAsRef (db : Database) (hash : String) (subscribedOnly : Bool) (key : String)
    (entry : IndexEntry) : Bool :=
  !entry.deleted && entry.hash = hash && (!subscribedOnly || db.subscriptions.has key)

def countHashRefs (hash : String) (subscribedOnly : Bool) (db : Database) : ℕ :=
  (db.index.entries.filter fun e => countsAsRef db hash subscribedOnly e.1 e.2).length

theorem countHashRefs_eq_zero {subscribedOnly : Bool} {db : Database} :
    countHashRefs hash subscribedOnly db = 0 ↔
      ∀ key entry, db.index.get key = some entry →
        countsAsRef db hash subscribedOnly key entry = false := by
  simp [countHashRefs, Prod.forall, Bucket.mem_entries]

/-! ## Pending blob collection -/

/-- The references `sweepPendingBlobGCLocked` respects: live entries, active
tasks, and what history records protect. -/
def sweepReferences (db : Database) (hash : String) : Bool :=
  (db.index.entries.any fun e => !e.2.deleted && e.2.hash = hash) ||
    (db.tasksActive.entries.any fun e => hash ∈ e.2.blobHashes) ||
    (db.tasksHistory.entries.any fun e => hash ∈ e.2.finalBlobHashes)

theorem sweepReferences_eq_false {db : Database} :
    sweepReferences db hash = false ↔
      (∀ key entry, db.index.get key = some entry → entry.deleted = false → entry.hash ≠ hash) ∧
      (∀ key task, db.tasksActive.get key = some task → hash ∉ task.blobHashes) ∧
      ∀ key task, db.tasksHistory.get key = some task → hash ∉ task.finalBlobHashes := by
  simp only [sweepReferences, Bool.or_eq_false_iff, List.any_eq_false, Prod.forall,
    Bucket.mem_entries, Bool.and_eq_true, Bool.not_eq_true', decide_eq_true_eq, not_and, and_assoc]

/-- The read transaction of `sweepPendingBlobGCLocked`: the pending hashes, each
with whether something refers to it. -/
def scanPendingBlobGC (db : Database) : List (String × Bool) :=
  db.pendingBlobGC.keys.map fun hash => (hash, sweepReferences db hash)

/-- The write transaction of `sweepPendingBlobGCLocked`. -/
def clearPendingBlobGCTx (completed : List String) (db : Database) :
    Except GoError (Unit × Database) :=
  .ok ((), { db with pendingBlobGC := db.pendingBlobGC.eraseAll completed })

/-! ## Download intents -/

def errBlobDiscarded : GoError := .new "blob discarded due to obsolescence or deletion"

/-- The bytes of `downloadIntentStorageKey`, unpadded base64. -/
def downloadIntentKeySize (name : String) : ℕ := (8 * name.utf8ByteSize + 5) / 6

/-- The write transaction of `requestRemoteDownload`. -/
def persistDownloadIntentTx (file : IndexEntry) (source : String) (db : Database) :
    Except GoError (Unit × Database) := do
  if db.index.get file.name ≠ some file ∨ file.deleted then throw errBlobDiscarded
  if !db.subscriptions.has file.name then throw errBlobDiscarded
  let intents ← putSized db.downloadIntents (downloadIntentKeySize file.name) file.name
    ⟨file, source⟩
  return ((), { db with downloadIntents := intents })

/-- An intent is persisted for a live subscribed entry that is still current. -/
theorem persistDownloadIntentTx_cases (file : IndexEntry) (source : String) (db : Database) :
    (∃ err, persistDownloadIntentTx file source db = .error err) ∨
      (db.index.get file.name = some file ∧ file.deleted = false ∧
        db.subscriptions.has file.name = true ∧ FitsKey (downloadIntentKeySize file.name) ∧
        persistDownloadIntentTx file source db =
          .ok ((), { db with downloadIntents := db.downloadIntents.put file.name ⟨file, source⟩ })) := by
  by_cases hcurrent : db.index.get file.name ≠ some file ∨ file.deleted
  · exact .inl ⟨errBlobDiscarded, by simp only [persistDownloadIntentTx, if_pos hcurrent]; rfl⟩
  cases hsub : db.subscriptions.has file.name with
  | false =>
    refine .inl ⟨errBlobDiscarded, ?_⟩
    simp only [persistDownloadIntentTx, if_neg hcurrent, hsub]
    rfl
  | true =>
    simp only [persistDownloadIntentTx, if_neg hcurrent, hsub]
    rcases putSized_eq db.downloadIntents (downloadIntentKeySize file.name) file.name
      ⟨file, source⟩ with ⟨hfits, hput⟩ | ⟨-, err, hput⟩
    · refine .inr ⟨by simpa using (not_or.1 hcurrent).1, by simpa using (not_or.1 hcurrent).2,
        trivial, hfits, ?_⟩
      simp only [hput]
      rfl
    · exact .inl ⟨err, by simp only [hput]; rfl⟩

/-- The write transaction of `completeDownloadIntent`. -/
def completeDownloadIntentTx (file : IndexEntry) (db : Database) :
    Except GoError (Unit × Database) :=
  match db.downloadIntents.get file.name with
  | none => .ok ((), db)
  | some intent =>
    if intent.file ≠ file then .ok ((), db)
    else .ok ((), { db with downloadIntents := db.downloadIntents.erase file.name })

theorem completeDownloadIntentTx_eq (file : IndexEntry) (db : Database) :
    ∃ intents, completeDownloadIntentTx file db = .ok ((), { db with downloadIntents := intents }) := by
  unfold completeDownloadIntentTx
  split
  · exact ⟨_, rfl⟩
  · split_ifs <;> exact ⟨_, rfl⟩

end Proxyma.Storage
