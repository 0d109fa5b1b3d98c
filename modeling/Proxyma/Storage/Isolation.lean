import Proxyma.Storage.Journal

/-!
# Isolation of task journals

A transaction ignores a journal record if putting the record first and running
the transaction is running the transaction and putting the record afterwards:
it neither reads the record nor changes it.  `Isolated t t'` says that the
journal operations on task `t` ignore every record of task `t'`.

Selecting records by a prefix of the key makes this a question about texts.
The key of `t'` begins with `t` and a slash exactly when `t'` does
(`hasPrefix_taskJournalKey`), and then reading, pruning and deleting the journal
of `t` reach into that of `t'`.  The sequence number is safe in any case: what
follows the prefix is then not a number.
-/

namespace Proxyma.Storage

open Keyed

/-! ## Keys -/

/-- The key of a record of another task has the prefix exactly when its
identifier has. -/
theorem hasPrefix_taskJournalKey {t t' : String} (hne : t ≠ t') (seq : UInt64) :
    Text.hasPrefix (taskJournalKey t' seq) (t ++ "/") = Text.hasPrefix t' (t ++ "/") := by
  have hiff := Text.hasPrefix_append_slash (a := t) (b := t')
    (Text.slash_notMem_decimal20 seq.toNat)
  rw [Bool.eq_iff_iff]
  exact hiff.trans (or_iff_right hne)

theorem taskJournalKey_ne {t t' : String} (hne : t ≠ t') (seq seq' : UInt64) :
    taskJournalKey t' seq' ≠ taskJournalKey t seq := fun h =>
  hne (Text.append_slash_inj (Text.slash_notMem_decimal20 _) (Text.slash_notMem_decimal20 _) h).symm

/-- No record of another task counts towards the sequence number. -/
theorem parseTaskJournalSeq_ne {t t' : String} (hne : t ≠ t') (seq : UInt64) :
    parseTaskJournalSeq (taskJournalKey t' seq) t = none := by
  unfold parseTaskJournalSeq
  rcases hstart : Text.hasPrefix (taskJournalKey t' seq) (t ++ "/") with _ | _
  · rfl
  obtain ⟨rest, hrest⟩ := Text.hasPrefix_iff.1 hstart
  have hkey : taskJournalKey t' seq = t ++ "/" ++ String.ofList rest := by
    rw [← String.toList_inj]
    simpa using hrest.symm
  rw [hkey, Text.trimPrefix_append]
  rcases hparse : Text.parseUint (String.ofList rest) with _ | n
  · rfl
  exact absurd (Text.append_slash_inj (Text.slash_notMem_of_parseUint hparse)
    (Text.slash_notMem_decimal20 seq.toNat) hkey.symm) hne

theorem nextSequence_put {t t' : String} (hne : t ≠ t') (seq : UInt64)
    (journal : Bucket String TaskJournalRecord) (r : TaskJournalRecord) :
    nextSequence (journal.put (taskJournalKey t' seq) r) t = nextSequence journal t := by
  -- Only keys that parse contribute to the maximum.
  have hparsed : ∀ j : Bucket String TaskJournalRecord, nextSequence j t =
      ((j.entries.filter fun e => (parseTaskJournalSeq e.1 t).isSome).foldl (fun maxSeq e =>
        (parseTaskJournalSeq e.1 t).elim maxSeq fun seq =>
          if seq > maxSeq then seq else maxSeq) 0) + 1 := by
    intro j
    rw [nextSequence, scanTaskJournalPrefix_eq, List.foldl_filter, List.foldl_filter]
    congr 1
    refine congrArg (fun f => List.foldl f 0 j.entries) (funext fun maxSeq => funext fun e => ?_)
    rcases hparse : parseTaskJournalSeq e.1 t with _ | seq
    · simp
    have hstart : Text.hasPrefix e.1 (t ++ "/") = true := by
      unfold parseTaskJournalSeq at hparse
      by_contra hnot
      simp [hnot] at hparse
    simp [hstart]
  rw [hparsed, hparsed,
    Bucket.filter_entries_put journal (p := fun key => (parseTaskJournalSeq key t).isSome)
      (by rw [parseTaskJournalSeq_ne hne]; rfl) r]

theorem scan_put {t t' : String} (hne : t ≠ t') (hfree : Text.hasPrefix t' (t ++ "/") = false)
    (seq : UInt64) (journal : Bucket String TaskJournalRecord) (r : TaskJournalRecord) :
    scanTaskJournalPrefix (journal.put (taskJournalKey t' seq) r) t =
      scanTaskJournalPrefix journal t := by
  rw [scanTaskJournalPrefix_eq, scanTaskJournalPrefix_eq]
  exact Bucket.filter_entries_put journal (p := fun key => Text.hasPrefix key (t ++ "/"))
    (by rw [hasPrefix_taskJournalKey hne, hfree]) r

/-! ## Operations -/

/-- The database with a journal record in place. -/
def Database.putRecord (db : Database) (key : String) (r : TaskJournalRecord) : Database :=
  { db with tasksJournal := db.tasksJournal.put key r }

/-- A transaction that neither reads nor changes the journal record under a key. -/
def Ignores {α : Type} (key : String) (tx : Database → Except GoError (α × Database)) : Prop :=
  ∀ db r, tx (db.putRecord key r) = (tx db).map fun out => (out.1, out.2.putRecord key r)

/-- A read that does not depend on the journal record under a key. -/
def ReadIgnores {α : Type} (key : String) (read : Database → Except GoError α) : Prop :=
  ∀ db r, read (db.putRecord key r) = read db

/-- The journal operations on `t` leave the records of `t'` alone. -/
structure Isolated (t t' : String) : Prop where
  append : ∀ record now seq, record.taskID = t →
    Ignores (taskJournalKey t' seq) (appendTaskCheckpointTx (completeCheckpoint record now))
  sequence : ∀ journal seq r,
    nextSequence (journal.put (taskJournalKey t' seq) r) t = nextSequence journal t
  read : ∀ seq, ReadIgnores (taskJournalKey t' seq) (getTaskJournal t)
  preflight : ∀ seq, ReadIgnores (taskJournalKey t' seq) (prunePreflight t)
  prune : ∀ seq, Ignores (taskJournalKey t' seq) (pruneTx t)
  delete : ∀ seq, Ignores (taskJournalKey t' seq) (deleteTaskJournalTx t)

/-- Appending a checkpoint never meets the records of another task. -/
theorem ignores_append {record : TaskJournalRecord} {t' : String} (hne : record.taskID ≠ t')
    (seq : UInt64) : Ignores (taskJournalKey t' seq) (appendTaskCheckpointTx record) := by
  intro db r
  have hsequenced : sequenced record (db.putRecord (taskJournalKey t' seq) r) =
      sequenced record db := by
    simp only [sequenced, Database.putRecord, nextSequence_put hne]
  have hcomm : ((db.putRecord (taskJournalKey t' seq) r).checkpoint (sequenced record db)) =
      (db.checkpoint (sequenced record db)).putRecord (taskJournalKey t' seq) r := by
    have hput := Bucket.put_put_comm db.tasksJournal
      (taskJournalKey_ne hne (sequenced record db).sequence seq) r (sequenced record db).stored
    rw [← sequenced_taskID record db] at hput
    unfold Database.checkpoint
    split_ifs <;> simp only [Database.putRecord, checkpointed, hput]
  rw [appendTaskCheckpointTx_eq, appendTaskCheckpointTx_eq, hsequenced, hcomm]
  change (if refusedByHistory record db then _ else _) = _
  split_ifs <;> rfl

section Free

variable {t t' : String}

theorem readIgnores_getTaskJournal (hne : t ≠ t') (hfree : Text.hasPrefix t' (t ++ "/") = false)
    (seq : UInt64) : ReadIgnores (taskJournalKey t' seq) (getTaskJournal t) := fun db r => by
  simp only [getTaskJournal, Database.putRecord, scan_put hne hfree]

theorem readIgnores_checkPrunable (hne : t ≠ t') (hfree : Text.hasPrefix t' (t ++ "/") = false)
    (seq : UInt64) : ReadIgnores (taskJournalKey t' seq) (checkPrunable t) := fun db r => by
  simp only [checkPrunable, Database.putRecord, scan_put hne hfree]

/-- Neither deleting nor pruning erases a key without the prefix. -/
theorem eraseAll_put (hne : t ≠ t') (hfree : Text.hasPrefix t' (t ++ "/") = false) (seq : UInt64)
    (journal : Bucket String TaskJournalRecord) (r : TaskJournalRecord)
    {records : List (String × TaskJournalRecord)}
    (hrecords : ∀ e ∈ records, Text.hasPrefix e.1 (t ++ "/") = true) :
    (journal.put (taskJournalKey t' seq) r).eraseAll (records.map Prod.fst) =
      (journal.eraseAll (records.map Prod.fst)).put (taskJournalKey t' seq) r := by
  refine Bucket.eraseAll_put_comm journal (fun hmem => ?_) r
  obtain ⟨e, he, hkey⟩ := List.mem_map.1 hmem
  have hstart := hrecords e he
  rw [hkey, hasPrefix_taskJournalKey hne, hfree] at hstart
  exact Bool.false_ne_true hstart

theorem hasPrefix_of_mem_scan {journal : Bucket String TaskJournalRecord}
    {e : String × TaskJournalRecord} (he : e ∈ scanTaskJournalPrefix journal t) :
    Text.hasPrefix e.1 (t ++ "/") = true := by
  rw [scanTaskJournalPrefix_eq] at he
  exact (List.mem_filter.1 he).2

theorem ignores_delete (hne : t ≠ t') (hfree : Text.hasPrefix t' (t ++ "/") = false)
    (seq : UInt64) : Ignores (taskJournalKey t' seq) (deleteTaskJournalTx t) := fun db r => by
  simp only [deleteTaskJournalTx, Database.putRecord, scan_put hne hfree,
    eraseAll_put hne hfree seq _ r fun e => hasPrefix_of_mem_scan]
  rfl

theorem ignores_prune (hne : t ≠ t') (hfree : Text.hasPrefix t' (t ++ "/") = false)
    (seq : UInt64) : Ignores (taskJournalKey t' seq) (pruneTx t) := by
  intro db r
  simp only [pruneTx, readIgnores_checkPrunable hne hfree seq db r]
  rcases hcheck : checkPrunable t db with err | records
  · rfl
  have hrecords := (checkPrunable_ok hcheck).1
  have hprunable : ∀ e ∈ records.filter fun e => isPrunable e.2,
      Text.hasPrefix e.1 (t ++ "/") = true := fun e he =>
    hasPrefix_of_mem_scan (hrecords ▸ (List.mem_filter.1 he).1)
  have herase := eraseAll_put hne hfree seq db.tasksJournal r hprunable
  have hblobs : intermediateBlobs t records (db.putRecord (taskJournalKey t' seq) r) =
      intermediateBlobs t records db := rfl
  simp only [pruneWrites, hblobs]
  cases (intermediateBlobs t records db).isEmpty with
  | true => simp only [if_true, Database.putRecord, herase, Except.map]
  | false =>
    simp only [Database.putRecord, herase, Bool.false_eq_true, if_false]
    cases queueAll db.pendingBlobGC (intermediateBlobs t records db) <;> rfl

theorem isolated_of_free (hne : t ≠ t') (hfree : Text.hasPrefix t' (t ++ "/") = false) :
    Isolated t t' where
  append := fun record now seq hid => ignores_append (hid ▸ hne) seq
  sequence := fun journal seq r => nextSequence_put hne seq journal r
  read := readIgnores_getTaskJournal hne hfree
  preflight := fun seq db r => by
    unfold prunePreflight
    rw [readIgnores_checkPrunable hne hfree seq db r]
  prune := ignores_prune hne hfree
  delete := ignores_delete hne hfree

end Free

/-- For distinct identifiers, of which the first is not blank, the journals are
isolated exactly when the second does not begin with the first and a slash. -/
theorem journals_isolated_iff {t t' : String} (hid : validateTaskID t = none) (hne : t ≠ t') :
    Isolated t t' ↔ Text.hasPrefix t' (t ++ "/") = false := by
  refine ⟨fun hisolated => ?_, isolated_of_free hne⟩
  by_contra hstart
  -- An empty journal with one record of `t'` is not read as empty.
  have hread := hisolated.read 1 .empty default
  have hmatch : Text.hasPrefix (taskJournalKey t' 1) (t ++ "/") = true := by
    rw [hasPrefix_taskJournalKey hne]
    simpa using hstart
  have hmem : (taskJournalKey t' 1, (default : TaskJournalRecord)) ∈
      scanTaskJournalPrefix (Bucket.empty.put (taskJournalKey t' 1) default) t := by
    rw [scanTaskJournalPrefix_eq]
    exact List.mem_filter.2 ⟨Bucket.mem_entries.2 (by simp), hmatch⟩
  have hempty : scanTaskJournalPrefix (Bucket.empty : Bucket String TaskJournalRecord) t = [] := rfl
  simp only [getTaskJournal, hid, Database.putRecord, Database.empty, hempty] at hread
  have hsorted := (List.perm_insertionSort (fun a b : TaskJournalRecord => a.sequence ≤ b.sequence)
    _).mem_iff.2 (List.mem_map_of_mem (f := Prod.snd) hmem)
  rw [Except.ok.inj hread] at hsorted
  exact absurd hsorted List.not_mem_nil

/-- Journals of identifiers without slashes are isolated. -/
theorem journals_isolated_iff_plain : Isolated "a" "b" :=
  (journals_isolated_iff (by decide) (by decide)).2 (by decide)

/-- Reading and deleting the journal of task `a` reach the record of task `a/b`. -/
theorem journal_of_slash_task_not_isolated :
    let key := taskJournalKey "a/b" 1
    let record : TaskJournalRecord := { taskID := "a/b", status := "running", sequence := 1 }
    let db := Database.empty.putRecord key record
    (getTaskJournal "a" db).toOption.map List.length = some 1 ∧
      ((deleteTaskJournalTx "a" db).toOption.map fun out => out.2.tasksJournal.has key) =
        some false ∧
      ¬ Isolated "a" "a/b" := by
  refine ⟨by decide, by decide, fun hisolated => ?_⟩
  have hread := hisolated.read 1 .empty { taskID := "a/b", status := "running", sequence := 1 }
  exact absurd (congrArg (fun r => r.toOption.map List.length) hread) (by decide)

end Proxyma.Storage
