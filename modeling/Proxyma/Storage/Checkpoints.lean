import Proxyma.Storage.Isolation

/-!
# Task records as folds of their checkpoints

A call of `AppendTaskCheckpoint` writes up to three buckets: the journal, and
the record of the task among the active or the finished ones.  For calls that
leave the numbering to the store, from an empty store on, the record of a task
is the fold of `applyJournalRecord` over the checkpoints accepted so far, from
a fresh record.

Two things have to be seen.  A record is read back from its bucket before the
next checkpoint is applied to it, and an empty map comes back as an absent one;
applying a checkpoint does not see the difference (`stored_applyJournalRecord`).
And the branches that merge an active with a finished record are never taken: a
task is in one bucket only, decided by whether a terminal checkpoint was among
its checkpoints (`Tracks`).

The numbers are the positions of the checkpoints as long as these fit into 64
bits (`Numbered`).  An overlay replaces an error text only by another one, so the
record of a completed task keeps the last error reported on the way.
-/

namespace Proxyma.Storage

open Keyed Atomic Atomic.Prog

variable {r : TaskJournalRecord} {t : String} {accepted : List TaskJournalRecord}
  {journal : Bucket String TaskJournalRecord} {db : Database} {s : State}

/-! ## Calls -/

/-- A call of `AppendTaskCheckpoint` that leaves the number to the store, the
time it is made at, and the error of its transaction, if that fails. -/
structure AppendCall where
  record : TaskJournalRecord
  now : ℤ
  fault : Option GoError
  unnumbered : record.sequence = 0

/-- The checkpoint a call hands to its transaction. -/
def AppendCall.checkpoint (call : AppendCall) : TaskJournalRecord :=
  completeCheckpoint call.record call.now

/-- The error and the engine after a call. -/
def AppendCall.run (baseDir : CleanPath) (call : AppendCall) (s : State) :
    Option GoError × State :=
  (appendTaskCheckpoint call.record call.now).run (engine baseDir)
    { s with faults := { s.faults with update := call.fault } }

/-- The engine and the checkpoints accepted so far, in the order of acceptance,
after one more call. -/
def AppendCall.next (baseDir : CleanPath) (r : State × List TaskJournalRecord)
    (call : AppendCall) : State × List TaskJournalRecord :=
  let out := call.run baseDir r.1
  (out.2, if out.1.isNone then r.2 ++ [call.checkpoint] else r.2)

/-- The engine and the accepted checkpoints after a sequence of calls on an
empty store. -/
def appendAll (baseDir : CleanPath) (s : State) (calls : List AppendCall) :
    State × List TaskJournalRecord :=
  calls.foldl (AppendCall.next baseDir) ({ s with db := .empty }, [])

/-- The checkpoints of one task. -/
def checkpointsOf (t : String) (accepted : List TaskJournalRecord) : List TaskJournalRecord :=
  accepted.filter fun r => r.taskID = t

/-- A task's record as the fold of its checkpoints. -/
def aggregate (t : String) : List TaskJournalRecord → Option TaskRecord
  | [] => none
  | r :: rest =>
    some ((r :: rest).foldl TaskRecord.applyJournalRecord (newTaskRecord t r.timestamp))

/-- The buckets hold a task as its checkpoints say. -/
structure FoldsCheckpoints (db : Database) (t : String) (accepted : List TaskJournalRecord) :
    Prop where
  exclusive : ¬ (db.tasksActive.has t = true ∧ db.tasksHistory.has t = true)
  inHistory : db.tasksHistory.has t = true ↔ ∃ r ∈ accepted, isTerminalTaskStatus r.status
  folds : (db.tasksActive.get t).or (db.tasksHistory.get t) =
    (aggregate t accepted).map TaskRecord.stored
  settled : accepted.Pairwise fun r r' => isTerminalTaskStatus r.status → r'.status = r.status

/-- The journal holds a task's checkpoints under the numbers 1, 2, 3, ..., and
nothing else of the task. -/
structure Numbered (journal : Bucket String TaskJournalRecord) (t : String)
    (accepted : List TaskJournalRecord) : Prop where
  kept : ∀ (i : ℕ) (r : TaskJournalRecord), accepted[i]? = some r →
    ∃ seq : UInt64, seq.toNat = i + 1 ∧
      journal.get (taskJournalKey t seq) = some { r with sequence := seq }.stored
  only : ∀ (key : String) (r : TaskJournalRecord), journal.get key = some r → r.taskID = t →
    ∃ seq : UInt64, key = taskJournalKey t seq ∧ 0 < seq.toNat ∧ seq.toNat ≤ accepted.length

/-! ## Applying a checkpoint to a stored record -/

theorem omitEmpty_omitEmpty {α : Type} (m : Option (List α)) :
    omitEmpty (omitEmpty m) = omitEmpty m := by
  rcases m with _ | _ | ⟨e, rest⟩ <;> rfl

@[simp] theorem getD_omitEmpty {α : Type} (m : Option (List α)) :
    (omitEmpty m).getD [] = m.getD [] := by
  rcases m with _ | _ | ⟨e, rest⟩ <;> rfl

/-- What JSON drops from a context, an update of it does not see. -/
theorem TaskContext.stored_overlay (c update : TaskContext) :
    (c.stored.overlay update).stored = (c.overlay update).stored := by
  have hpayload : omitEmpty (c.stored.overlay update).payload =
      omitEmpty (c.overlay update).payload := by
    cases hupdate : update.payload <;>
      simp [TaskContext.stored, overlay, merge, hupdate, omitEmpty_omitEmpty]
  have hmetadata : omitEmpty (c.stored.overlay update).metadata =
      omitEmpty (c.overlay update).metadata := by
    rcases hupdate : update.metadata with _ | _ | ⟨e, rest⟩ <;>
      simp [TaskContext.stored, overlay, merge, hupdate, omitEmpty_omitEmpty]
  have hstate : (c.stored.overlay update).stored.pipelineState =
      (c.overlay update).stored.pipelineState := by
    cases hupdate : update.pipelineState <;> cases hstate : c.pipelineState <;>
      simp [TaskContext.stored, overlay, merge, hupdate, hstate, omitEmpty_omitEmpty]
  calc (c.stored.overlay update).stored
      = { c.overlay update with
          payload := omitEmpty (c.stored.overlay update).payload
          metadata := omitEmpty (c.stored.overlay update).metadata
          pipelineState := (c.stored.overlay update).stored.pipelineState } := rfl
    _ = (c.overlay update).stored := by rw [hpayload, hmetadata, hstate]; rfl

/-- Nor does a checkpoint. -/
theorem TaskRecord.stored_applyJournalRecord (t : TaskRecord) (r : TaskJournalRecord) :
    (t.stored.applyJournalRecord r).stored = (t.applyJournalRecord r).stored := by
  have hoverlay := TaskContext.stored_overlay t.toTaskContext r.toTaskContext
  have houtputs : omitEmpty (t.stored.applyJournalRecord r).outputs =
      omitEmpty (t.applyJournalRecord r).outputs := by
    simp only [applyJournalRecord, TaskRecord.stored]
    cases hstate : r.pipelineState.bind PipelineExecutionState.outputs <;>
      cases hstep : r.outputs <;> simp [omitEmpty_omitEmpty]
    split_ifs
    · exact omitEmpty_omitEmpty _
    · rfl
  have hfinal : omitEmpty (t.stored.applyJournalRecord r).finalOutputs =
      omitEmpty (t.applyJournalRecord r).finalOutputs := by
    simp only [applyJournalRecord, TaskRecord.stored]
    split_ifs
    · rfl
    · exact omitEmpty_omitEmpty _
  have hcontext : (t.stored.applyJournalRecord r).toTaskContext.stored =
      (t.applyJournalRecord r).toTaskContext.stored :=
    congrArg (fun c => { c with status := (t.applyJournalRecord r).status }) hoverlay
  calc (t.stored.applyJournalRecord r).stored
      = { t.applyJournalRecord r with
          toTaskContext := (t.stored.applyJournalRecord r).toTaskContext.stored
          outputs := omitEmpty (t.stored.applyJournalRecord r).outputs
          finalOutputs := omitEmpty (t.stored.applyJournalRecord r).finalOutputs } := rfl
    _ = (t.applyJournalRecord r).stored := by rw [hcontext, houtputs, hfinal]; rfl

theorem stored_getD_applyJournalRecord (o : Option TaskRecord) (fresh : TaskRecord)
    (r : TaskJournalRecord) :
    (((o.map TaskRecord.stored).getD fresh).applyJournalRecord r).stored =
      ((o.getD fresh).applyJournalRecord r).stored := by
  cases o with
  | none => rfl
  | some t => exact t.stored_applyJournalRecord r

theorem TaskRecord.status_applyJournalRecord (t : TaskRecord)
    (hterminal : isTerminalTaskStatus r.status = true) :
    (t.applyJournalRecord r).status = r.status := by
  have hstatus : r.status ≠ taskEventSchemaMigrated ∧ r.status ≠ "" := by
    simp only [isTerminalTaskStatus, decide_eq_true_eq] at hterminal
    rcases hterminal with h | h <;> rw [h] <;> decide
  simp [applyJournalRecord, TaskContext.overlay, TaskContext.merge, hstatus]

theorem aggregate_append (t : String) (accepted : List TaskJournalRecord) (r : TaskJournalRecord) :
    aggregate t (accepted ++ [r]) = some
      (((aggregate t accepted).getD (newTaskRecord t r.timestamp)).applyJournalRecord r) := by
  cases accepted with
  | nil => rfl
  | cons first rest => simp [aggregate, List.foldl_append]

/-! ## The record of a task -/

/-- What the two buckets hold of a task: as long as no checkpoint is terminal
only the active record, and from then on only the finished one. -/
structure Tracks (db : Database) (t : String) (accepted : List TaskJournalRecord) : Prop where
  settled : accepted.Pairwise fun r r' => isTerminalTaskStatus r.status → r'.status = r.status
  active : (∀ r ∈ accepted, isTerminalTaskStatus r.status = false) →
    db.tasksHistory.get t = none ∧
      db.tasksActive.get t = (aggregate t accepted).map TaskRecord.stored
  history : ∀ r ∈ accepted, isTerminalTaskStatus r.status = true →
    db.tasksActive.get t = none ∧
      ∃ agg, aggregate t accepted = some agg ∧ agg.status = r.status ∧
        db.tasksHistory.get t = some agg.stored

theorem tracks_empty (t : String) : Tracks .empty t [] where
  settled := List.Pairwise.nil
  active := fun _ => ⟨rfl, rfl⟩
  history := fun _ hr => absurd hr List.not_mem_nil

theorem Tracks.congr {db' : Database} (h : Tracks db t accepted)
    (hactive : db'.tasksActive.get t = db.tasksActive.get t)
    (hhistory : db'.tasksHistory.get t = db.tasksHistory.get t) : Tracks db' t accepted where
  settled := h.settled
  active := fun hopen => by
    rw [hactive, hhistory]
    exact h.active hopen
  history := fun r hr hterminal => by
    rw [hactive, hhistory]
    exact h.history r hr hterminal

theorem open_or_done (accepted : List TaskJournalRecord) :
    (∀ r ∈ accepted, isTerminalTaskStatus r.status = false) ∨
      ∃ r ∈ accepted, isTerminalTaskStatus r.status = true := by
  by_cases hopen : ∀ r ∈ accepted, isTerminalTaskStatus r.status = false
  · exact .inl hopen
  · refine .inr ?_
    simpa using hopen

theorem Tracks.foldsCheckpoints (h : Tracks db t accepted) : FoldsCheckpoints db t accepted := by
  rcases open_or_done accepted with hopen | ⟨r, hr, hterminal⟩
  · obtain ⟨hhistory, hactive⟩ := h.active hopen
    refine ⟨?_, ?_, ?_, h.settled⟩
    · simp [Bucket.has, hhistory]
    · constructor
      · intro hhas
        simp [Bucket.has, hhistory] at hhas
      · rintro ⟨r, hr, hterminal⟩
        simp [hopen r hr] at hterminal
    · rw [hhistory, hactive, Option.or_none]
  · obtain ⟨hactive, agg, hagg, -, hhistory⟩ := h.history r hr hterminal
    refine ⟨?_, ?_, ?_, h.settled⟩
    · simp [Bucket.has, hactive]
    · exact ⟨fun _ => ⟨r, hr, hterminal⟩, fun _ => by simp [Bucket.has, hhistory]⟩
    · rw [hactive, hhistory, hagg]
      rfl

theorem Tracks.status_of_not_refused {last : TaskJournalRecord} (h : Tracks db r.taskID accepted)
    (hrefused : refusedByHistory r db = false) (hlast : last ∈ accepted)
    (hterminal : isTerminalTaskStatus last.status = true) : r.status = last.status := by
  obtain ⟨-, agg, -, hstatus, hhistory⟩ := h.history last hlast hterminal
  have hstored : agg.stored.status = last.status := hstatus
  by_contra hne
  rw [refusedByHistory, hhistory, Option.any_some, hstored] at hrefused
  simp [hterminal, hne] at hrefused

/-- The aggregate a checkpoint leaves behind is the fold with the checkpoint. -/
theorem Tracks.checkpointed_eq (h : Tracks db r.taskID accepted)
    (hrefused : refusedByHistory r db = false) :
    some (checkpointed r db) = (aggregate r.taskID (accepted ++ [r])).map TaskRecord.stored := by
  rw [aggregate_append, Option.map_some, ← stored_getD_applyJournalRecord]
  rcases open_or_done accepted with hopen | ⟨last, hlast, hterminal⟩
  · obtain ⟨hhistory, hactive⟩ := h.active hopen
    simp only [checkpointed, hhistory, hactive]
    split_ifs
    · cases aggregate r.taskID accepted <;> rfl
    · rfl
  · obtain ⟨hactive, agg, hagg, -, hhistory⟩ := h.history last hlast hterminal
    have hsame := h.status_of_not_refused hrefused hlast hterminal
    simp only [checkpointed, hhistory, hactive, hsame, hterminal, if_true, hagg]
    rfl

/-- An accepted checkpoint of the task itself, under any number. -/
theorem Tracks.checkpoint (h : Tracks db r.taskID accepted)
    (hrefused : refusedByHistory r db = false) (seq : UInt64) :
    Tracks (db.checkpoint { r with sequence := seq }) r.taskID (accepted ++ [r]) := by
  have hrecord : some (checkpointed { r with sequence := seq } db) =
      (aggregate r.taskID (accepted ++ [r])).map TaskRecord.stored := h.checkpointed_eq hrefused
  refine ⟨?_, ?_, ?_⟩
  · rw [List.pairwise_append]
    refine ⟨h.settled, List.pairwise_singleton _ _, ?_⟩
    intro last hlast r' hr' hterminal
    obtain rfl := List.mem_singleton.1 hr'
    exact h.status_of_not_refused hrefused hlast hterminal
  · intro hopen
    have hr := hopen r (by simp)
    obtain ⟨hhistory, -⟩ := h.active fun r' hr' => hopen r' (by simp [hr'])
    simp only [Database.checkpoint, hr, Bool.false_eq_true, if_false]
    exact ⟨hhistory, by rw [Bucket.get_put, if_pos rfl, hrecord]⟩
  · intro last hlast hterminal
    have hsame : r.status = last.status := by
      rcases List.mem_append.1 hlast with hold | hnew
      · exact h.status_of_not_refused hrefused hold hterminal
      · rw [List.mem_singleton.1 hnew]
    have hr : isTerminalTaskStatus r.status = true := by rw [hsame, hterminal]
    rw [aggregate_append] at hrecord ⊢
    simp only [Database.checkpoint, hr, if_true]
    refine ⟨by simp, _, rfl, ?_, ?_⟩
    · rw [TaskRecord.status_applyJournalRecord _ hr, hsame]
    · rw [Bucket.get_put, if_pos rfl, hrecord]
      rfl

theorem Tracks.checkpoint_ne (h : Tracks db t accepted) (hne : t ≠ r.taskID) :
    Tracks (db.checkpoint r) t accepted := by
  apply h.congr
  · unfold Database.checkpoint
    split_ifs <;> simp [hne]
  · unfold Database.checkpoint
    split_ifs <;> simp [hne]

/-! ## Numbers -/

theorem parseTaskJournalSeq_self (t : String) (seq : UInt64) :
    parseTaskJournalSeq (taskJournalKey t seq) t = some seq := by
  simp only [parseTaskJournalSeq, taskJournalKey, Text.hasPrefix_append, Text.trimPrefix_append,
    Text.parseUint_decimal20 seq.toNat_lt]
  simp

theorem taskJournalKey_inj {seq seq' : UInt64} (h : taskJournalKey t seq = taskJournalKey t seq') :
    seq = seq' := by
  have hparse := parseTaskJournalSeq_self t seq
  rw [h, parseTaskJournalSeq_self] at hparse
  exact (Option.some.inj hparse).symm

theorem taskJournalKey_lt {a b : UInt64} (h : a < b) (t : String) :
    taskJournalKey t a < taskJournalKey t b := by
  have hdigits := Text.map_decimal20_lt (f := id) (fun _ _ _ hlt => hlt) h b.toNat_lt
  rw [List.map_id, List.map_id] at hdigits
  have hkey : ∀ seq, (taskJournalKey t seq).toList =
      (t ++ "/").toList ++ (Text.decimal20 seq.toNat).toList := fun _ => String.toList_append
  rw [String.lt_iff_toList_lt, hkey, hkey]
  exact List.append_left_lt hdigits

theorem bytes_taskJournalKey_lt {a b : UInt64} (h : a < b) (t : String) :
    Text.bytes (taskJournalKey t a) < Text.bytes (taskJournalKey t b) := by
  have hkey : ∀ seq : UInt64, Text.bytes (taskJournalKey t seq) = Text.bytes (t ++ "/") ++
      (Text.decimal20 seq.toNat).toList.map fun c => c.val.toUInt8 := by
    intro seq
    rw [← Text.bytes_ofList fun c hc => Text.ascii_of_isDigit (Text.isDigit_of_mem_decimal20 hc),
      String.ofList_toList, ← Text.bytes_append]
    rfl
  rw [hkey, hkey]
  refine List.append_left_lt (Text.map_decimal20_lt ?_ h b.toNat_lt)
  intro c c' hc' hlt
  have hnat : c.val.toNat < c'.val.toNat := hlt
  have hle : c'.val.toNat ≤ 57 := (Text.toNat_of_isDigit hc').2
  rw [UInt8.lt_iff_toNat_lt, UInt32.toNat_toUInt8, UInt32.toNat_toUInt8]
  omega

/-- The bytes of a task's keys are ordered as their numbers, which can be read back from
them; so a scan meets the task's own records in the order of their numbers. -/
theorem journal_keys_sorted (t : String) (a b : UInt64)
    (journal : Bucket String TaskJournalRecord) :
    (Text.bytes (taskJournalKey t a) < Text.bytes (taskJournalKey t b) ↔ a < b) ∧
      parseTaskJournalSeq (taskJournalKey t a) t = some a ∧
      (scanTaskJournalPrefix journal t).Pairwise fun e e' => ∀ seq seq',
        e.1 = taskJournalKey t seq → e'.1 = taskJournalKey t seq' → seq < seq' := by
  have hcompare : ∀ {a b : UInt64}, ¬ a < b → a = b ∨ b < a := by
    intro a b hab
    grind
  refine ⟨⟨fun h => ?_, fun h => bytes_taskJournalKey_lt h t⟩, parseTaskJournalSeq_self t a, ?_⟩
  · by_contra hab
    rcases hcompare hab with rfl | hba
    · exact List.lt_irrefl _ h
    · exact List.lt_asymm h (bytes_taskJournalKey_lt hba t)
  · rw [scanTaskJournalPrefix_eq]
    refine (journal.sorted.filter _).imp ?_
    rintro ⟨_, _⟩ ⟨_, _⟩ h seq seq' rfl rfl
    by_contra hab
    rcases hcompare hab with rfl | hba
    · exact lt_irrefl _ h
    · exact lt_asymm h (taskJournalKey_lt hba t)

/-- The number a key contributes to the search for the largest one. -/
def sequenceAt (t key : String) : ℕ := (parseTaskJournalSeq key t).elim 0 UInt64.toNat

/-- The next number is one more than the largest of the task. -/
theorem nextSequence_eq_max (journal : Bucket String TaskJournalRecord) (t : String) :
    ∃ m : UInt64, nextSequence journal t = m + 1 ∧
      m.toNat = ((scanTaskJournalPrefix journal t).map fun e => sequenceAt t e.1).foldr max ⊥ := by
  refine ⟨_, rfl, ?_⟩
  rw [← List.foldl_eq_foldr, List.foldl_map]
  refine (List.foldl_hom UInt64.toNat ?_).symm
  intro m e
  rcases hparse : parseTaskJournalSeq e.1 t with _ | seq
  · simp [sequenceAt, hparse]
  simp only [sequenceAt, hparse, Option.elim_some, gt_iff_lt, UInt64.lt_iff_toNat_lt]
  split_ifs with hlt
  · exact max_eq_right hlt.le
  · exact max_eq_left (not_lt.1 hlt)

/-- The task's numbers reach exactly as far as its checkpoints. -/
theorem Numbered.nextSequence_eq (h : Numbered journal t accepted)
    (hkeys : ∀ key r, journal.get key = some r → ∃ seq, key = taskJournalKey r.taskID seq) :
    ∃ m : UInt64, nextSequence journal t = m + 1 ∧ m.toNat = accepted.length := by
  obtain ⟨m, hnext, hm⟩ := nextSequence_eq_max journal t
  refine ⟨m, hnext, hm.trans (le_antisymm ?_ ?_)⟩
  · refine List.max_le_of_forall_le _ _ ?_
    intro n hn
    obtain ⟨⟨key, r⟩, he, rfl⟩ := List.mem_map.1 hn
    rw [scanTaskJournalPrefix_eq] at he
    have hget := Bucket.mem_entries.1 (List.mem_filter.1 he).1
    by_cases hr : r.taskID = t
    · obtain ⟨seq, rfl, -, hle⟩ := h.only key r hget hr
      simpa [sequenceAt, parseTaskJournalSeq_self] using hle
    · -- A key of another task contributes nothing.
      obtain ⟨seq, rfl⟩ := hkeys key r hget
      simp [sequenceAt, parseTaskJournalSeq_ne (Ne.symm hr)]
  · rcases Nat.eq_zero_or_pos accepted.length with hzero | hpos
    · rw [hzero]
      exact Nat.zero_le _
    have hlast := List.getElem?_eq_getElem (Nat.sub_lt hpos one_pos)
    obtain ⟨seq, hseq, hget⟩ := h.kept _ _ hlast
    have hscanned : (taskJournalKey t seq, { accepted[accepted.length - 1] with
        sequence := seq }.stored) ∈ scanTaskJournalPrefix journal t := by
      rw [scanTaskJournalPrefix_eq]
      exact List.mem_filter.2 ⟨Bucket.mem_entries.2 hget, Text.hasPrefix_append _ _⟩
    have hmem := List.mem_map_of_mem (f := fun e => sequenceAt t e.1) hscanned
    refine List.le_max_of_le hmem ?_
    simp only [sequenceAt, parseTaskJournalSeq_self, Option.elim_some]
    omega

theorem Numbered.length_lt (h : Numbered journal t accepted) : accepted.length < 2 ^ 64 := by
  by_contra hlength
  have hlast : 2 ^ 64 - 1 < accepted.length := by omega
  obtain ⟨seq, hseq, -⟩ := h.kept _ _ (List.getElem?_eq_getElem hlast)
  have hbound := seq.toNat_lt
  omega

theorem Numbered.put_ne (h : Numbered journal t accepted) (hne : t ≠ r.taskID) :
    Numbered (journal.put (taskJournalKey r.taskID r.sequence) r.stored) t accepted where
  kept := fun i r' hr' => by
    obtain ⟨seq, hseq, hget⟩ := h.kept i r' hr'
    refine ⟨seq, hseq, ?_⟩
    rw [Bucket.get_put, if_neg (taskJournalKey_ne hne.symm _ _), hget]
  only := fun key r' hget hid => by
    rw [Bucket.get_put] at hget
    split_ifs at hget with hkey
    · cases hget
      exact absurd hid.symm hne
    · exact h.only key r' hget hid

theorem Numbered.put (h : Numbered journal r.taskID accepted) {seq : UInt64}
    (hseq : seq.toNat = accepted.length + 1) :
    Numbered (journal.put (taskJournalKey r.taskID seq) { r with sequence := seq }.stored)
      r.taskID (accepted ++ [r]) where
  kept := fun i r' hr' => by
    rcases lt_or_ge i accepted.length with hi | hi
    · rw [List.getElem?_append_left hi] at hr'
      obtain ⟨seq', hseq', hget⟩ := h.kept i r' hr'
      refine ⟨seq', hseq', ?_⟩
      rw [Bucket.get_put, if_neg, hget]
      intro hkey
      rw [taskJournalKey_inj hkey] at hseq'
      omega
    · rw [List.getElem?_append_right hi, List.getElem?_singleton] at hr'
      split_ifs at hr' with hlast
      cases hr'
      exact ⟨seq, by omega, by rw [Bucket.get_put, if_pos rfl]⟩
  only := fun key r' hget hid => by
    rw [Bucket.get_put] at hget
    rw [List.length_append, List.length_singleton]
    split_ifs at hget with hkey
    · exact ⟨seq, hkey, by omega, by omega⟩
    · obtain ⟨seq', hkey', hpos, hle⟩ := h.only key r' hget hid
      exact ⟨seq', hkey', hpos, by omega⟩

/-! ## Runs of calls -/

/-- What a sequence of calls keeps for all tasks at once. -/
structure Journaled (db : Database) (accepted : List TaskJournalRecord) : Prop where
  keys : ∀ key r, db.tasksJournal.get key = some r → ∃ seq, key = taskJournalKey r.taskID seq
  tracks : ∀ t, Tracks db t (checkpointsOf t accepted)
  numbered : ∀ t, (checkpointsOf t accepted).length < 2 ^ 64 →
    Numbered db.tasksJournal t (checkpointsOf t accepted)

theorem journaled_empty : Journaled .empty [] where
  keys := fun key r h => by cases h
  tracks := tracks_empty
  numbered := fun t _ =>
    { kept := fun i r h => by cases h
      only := fun key r h => by cases h }

theorem checkpointsOf_append_self (r : TaskJournalRecord) (accepted : List TaskJournalRecord) :
    checkpointsOf r.taskID (accepted ++ [r]) = checkpointsOf r.taskID accepted ++ [r] := by
  simp [checkpointsOf]

theorem checkpointsOf_append_ne (hne : t ≠ r.taskID) (accepted : List TaskJournalRecord) :
    checkpointsOf t (accepted ++ [r]) = checkpointsOf t accepted := by
  simp [checkpointsOf, hne.symm]

theorem Database.tasksJournal_checkpoint (db : Database) (r : TaskJournalRecord) :
    (db.checkpoint r).tasksJournal =
      db.tasksJournal.put (taskJournalKey r.taskID r.sequence) r.stored := by
  unfold Database.checkpoint
  split_ifs <;> rfl

theorem Journaled.checkpoint (h : Journaled db accepted) (hunnumbered : r.sequence = 0)
    (hrefused : refusedByHistory r db = false) :
    Journaled (db.checkpoint (sequenced r db)) (accepted ++ [r]) := by
  have hsequenced : sequenced r db =
      { r with sequence := nextSequence db.tasksJournal r.taskID } := by
    rw [sequenced, if_pos hunnumbered]
  rw [hsequenced]
  refine ⟨?_, ?_, ?_⟩
  · intro key r' hget
    rw [Database.tasksJournal_checkpoint, Bucket.get_put] at hget
    split_ifs at hget with hkey
    · cases hget
      exact ⟨_, hkey⟩
    · exact h.keys key r' hget
  · intro t
    by_cases ht : t = r.taskID
    · subst ht
      rw [checkpointsOf_append_self]
      exact (h.tracks r.taskID).checkpoint hrefused _
    · rw [checkpointsOf_append_ne ht]
      exact (h.tracks t).checkpoint_ne ht
  · intro t hlength
    rw [Database.tasksJournal_checkpoint]
    by_cases ht : t = r.taskID
    · subst ht
      rw [checkpointsOf_append_self] at hlength ⊢
      rw [List.length_append, List.length_singleton] at hlength
      have hnumbered := h.numbered r.taskID (by omega)
      obtain ⟨m, hnext, hm⟩ := hnumbered.nextSequence_eq h.keys
      refine hnumbered.put ?_
      rw [hnext, UInt64.toNat_add, hm]
      exact Nat.mod_eq_of_lt hlength
    · rw [checkpointsOf_append_ne ht] at hlength ⊢
      exact (h.numbered t hlength).put_ne ht

theorem appendTaskCheckpointTx_cases (r : TaskJournalRecord) (db : Database) :
    (∃ err, appendTaskCheckpointTx r db = .error err) ∨
      (refusedByHistory r db = false ∧
        appendTaskCheckpointTx r db = .ok ((), db.checkpoint (sequenced r db))) := by
  rw [appendTaskCheckpointTx_eq]
  split_ifs with hrefused
  · exact .inl ⟨_, rfl⟩
  · exact .inr ⟨Bool.eq_false_iff.2 hrefused, rfl⟩
  · exact .inl ⟨_, rfl⟩
  · exact .inl ⟨_, rfl⟩

theorem AppendCall.run_of_ok (baseDir : CleanPath) {call : AppendCall}
    (hid : validateTaskID call.record.taskID = none) (hfault : call.fault = none)
    (htx : appendTaskCheckpointTx call.checkpoint s.db = .ok ((), db)) :
    (call.run baseDir s).1 = none ∧ (call.run baseDir s).2.db = db := by
  simp only [run, appendTaskCheckpoint, hid, run_bind, run_perform, engine, exec, orFault, hfault,
    Option.elim_none]
  change appendTaskCheckpointTx (completeCheckpoint call.record call.now) s.db = _ at htx
  rw [htx]
  exact ⟨rfl, rfl⟩

/-- What a call does: it fails and changes nothing of the database, or the
history lets it pass and its checkpoint is written. -/
theorem AppendCall.run_cases (baseDir : CleanPath) (call : AppendCall) (s : State) :
    ((call.run baseDir s).1.isNone = false ∧ (call.run baseDir s).2.db = s.db) ∨
      ((call.run baseDir s).1.isNone = true ∧ refusedByHistory call.checkpoint s.db = false ∧
        (call.run baseDir s).2.db = s.db.checkpoint (sequenced call.checkpoint s.db)) := by
  cases hid : validateTaskID call.record.taskID with
  | some err =>
    refine .inl ?_
    simp only [run, appendTaskCheckpoint, hid]
    exact ⟨rfl, rfl⟩
  | none =>
    cases hfault : call.fault with
    | some err =>
      refine .inl ?_
      simp only [run, appendTaskCheckpoint, hid, run_bind, run_perform, engine, exec, orFault,
        hfault, Option.elim_some]
      exact ⟨rfl, rfl⟩
    | none =>
      rcases appendTaskCheckpointTx_cases call.checkpoint s.db with ⟨err, htx⟩ | ⟨hpass, htx⟩
      · refine .inl ?_
        change appendTaskCheckpointTx (completeCheckpoint call.record call.now) s.db = _ at htx
        simp only [run, appendTaskCheckpoint, hid, run_bind, run_perform, engine, exec, orFault,
          hfault, Option.elim_none, htx]
        exact ⟨rfl, rfl⟩
      · obtain ⟨herr, hdb⟩ := run_of_ok baseDir hid hfault htx
        exact .inr ⟨by rw [herr]; rfl, hpass, hdb⟩

theorem Journaled.next {baseDir : CleanPath} (h : Journaled s.db accepted) (call : AppendCall) :
    Journaled (AppendCall.next baseDir (s, accepted) call).1.db
      (AppendCall.next baseDir (s, accepted) call).2 := by
  unfold AppendCall.next
  dsimp only
  rcases call.run_cases baseDir s with ⟨hout, hdb⟩ | ⟨hout, hrefused, hdb⟩
  · rwa [hout, hdb]
  · rw [hout, hdb]
    exact h.checkpoint call.unnumbered hrefused

theorem journaled_appendAll (baseDir : CleanPath) (s : State) (calls : List AppendCall) :
    Journaled (appendAll baseDir s calls).1.db (appendAll baseDir s calls).2 := by
  induction calls using List.reverseRecOn with
  | nil => exact journaled_empty
  | append_singleton calls call ih =>
    rw [appendAll, List.foldl_append]
    exact ih.next call

/-- After any calls on an empty store, a task is in one bucket, decided by its
terminal checkpoints, with the fold of its checkpoints as its record; and its
checkpoints are numbered from 1 on exactly as long as 64 bits are enough. -/
theorem records_fold_checkpoints (baseDir : CleanPath) (s : State) (calls : List AppendCall)
    (t : String) :
    let out := appendAll baseDir s calls
    FoldsCheckpoints out.1.db t (checkpointsOf t out.2) ∧
      (Numbered out.1.db.tasksJournal t (checkpointsOf t out.2) ↔
        (checkpointsOf t out.2).length < 2 ^ 64) := by
  intro out
  have h := journaled_appendAll baseDir s calls
  exact ⟨(h.tracks t).foldsCheckpoints, Numbered.length_lt, h.numbered t⟩

/-! ## More checkpoints than numbers -/

/-- A call that reports a task as running. -/
def reportRunning : AppendCall where
  record := { taskID := "t", status := "running" }
  now := 1
  fault := none
  unnumbered := rfl

/-- As long as the task is not finished its reports are accepted. -/
theorem reportRunning_accepted (baseDir : CleanPath) (s : State)
    (hopen : s.db.tasksHistory.get "t" = none) :
    (reportRunning.run baseDir s).1.isNone = true := by
  have hpass : refusedByHistory reportRunning.checkpoint s.db = false := by
    rw [refusedByHistory, show reportRunning.checkpoint.taskID = "t" from rfl, hopen]
    rfl
  have hsize : ∀ seq : UInt64, FitsKey (taskJournalKey "t" seq).utf8ByteSize := by
    intro seq
    have hkey : (taskJournalKey "t" seq).utf8ByteSize = 22 := by
      rw [taskJournalKey, String.utf8ByteSize_append, Text.utf8ByteSize_decimal20 seq.toNat_lt]
      rfl
    rw [hkey]
    decide
  have htx : appendTaskCheckpointTx reportRunning.checkpoint s.db =
      .ok ((), s.db.checkpoint (sequenced reportRunning.checkpoint s.db)) := by
    have hid : reportRunning.checkpoint.taskID = "t" := rfl
    rw [appendTaskCheckpointTx_eq, hpass, hid, if_neg Bool.false_ne_true,
      if_neg (not_not.2 (hsize _)), if_neg]
    decide
  rw [(AppendCall.run_of_ok baseDir (by decide) rfl htx).1]
  rfl

theorem appendAll_reportRunning (baseDir : CleanPath) (n : ℕ) :
    (appendAll baseDir .fresh (List.replicate n reportRunning)).2 =
      List.replicate n reportRunning.checkpoint := by
  induction n with
  | zero => rfl
  | succ n ih =>
    have h := (journaled_appendAll baseDir .fresh (List.replicate n reportRunning)).tracks "t"
    have hopen : (appendAll baseDir .fresh (List.replicate n reportRunning)).1.db.tasksHistory.get
        "t" = none := by
      refine (h.active ?_).1
      intro r hr
      rw [ih, checkpointsOf, List.mem_filter] at hr
      rw [List.eq_of_mem_replicate hr.1]
      decide
    rw [List.replicate_succ', appendAll, List.foldl_append, List.replicate_succ']
    change (if (reportRunning.run baseDir (appendAll baseDir .fresh
      (List.replicate n reportRunning)).1).1.isNone then _ else _) = _
    rw [reportRunning_accepted baseDir _ hopen, if_pos rfl]
    change (appendAll baseDir .fresh (List.replicate n reportRunning)).2 ++ _ = _
    rw [ih]

theorem not_numbered_reportRunning (baseDir : CleanPath) {n : ℕ} (hn : 2 ^ 64 ≤ n) :
    ¬ Numbered (appendAll baseDir .fresh (List.replicate n reportRunning)).1.db.tasksJournal "t"
      (checkpointsOf "t" (appendAll baseDir .fresh (List.replicate n reportRunning)).2) := by
  intro hnumbered
  have hlength := hnumbered.length_lt
  have hid : reportRunning.checkpoint.taskID = "t" := rfl
  rw [appendAll_reportRunning, checkpointsOf, List.filter_replicate_of_pos (by simp [hid]),
    List.length_replicate] at hlength
  omega

/-- All of `2 ^ 64` reports are accepted, and they are not numbered 1, 2, 3, .... -/
theorem checkpoints_run_out_of_numbers :
    (appendAll dataDir .fresh (List.replicate (2 ^ 64) reportRunning)).2 =
        List.replicate (2 ^ 64) reportRunning.checkpoint ∧
      ¬ Numbered
        (appendAll dataDir .fresh (List.replicate (2 ^ 64) reportRunning)).1.db.tasksJournal "t"
        (checkpointsOf "t"
          (appendAll dataDir .fresh (List.replicate (2 ^ 64) reportRunning)).2) :=
  ⟨appendAll_reportRunning dataDir (2 ^ 64), not_numbered_reportRunning dataDir le_rfl⟩

/-! ## The error of a finished task -/

/-- A store after exactly these accepted checkpoints of a task, under any
numbers and among those of other tasks. -/
inductive Accepts (t : String) : List TaskJournalRecord → Database → Prop
  | start {db : Database} (hactive : db.tasksActive.get t = none)
      (hhistory : db.tasksHistory.get t = none) : Accepts t [] db
  | append {accepted : List TaskJournalRecord} {db db' : Database} {r : TaskJournalRecord}
      (h : Accepts t accepted db) (htx : appendTaskCheckpointTx r db = .ok ((), db')) :
      Accepts t (accepted ++ checkpointsOf t [r]) db'

theorem Accepts.tracks (h : Accepts t accepted db) : Tracks db t accepted := by
  induction h with
  | start hactive hhistory =>
    exact (tracks_empty t).congr hactive hhistory
  | @append accepted db db' r _ htx ih =>
    rcases appendTaskCheckpointTx_cases r db with ⟨err, herr⟩ | ⟨hpass, hok⟩
    · simp [herr] at htx
    cases hok.symm.trans htx
    have hseq : ∃ seq, sequenced r db = { r with sequence := seq } := by
      unfold sequenced
      split_ifs
      · exact ⟨_, rfl⟩
      · exact ⟨r.sequence, rfl⟩
    obtain ⟨seq, hseq⟩ := hseq
    rw [hseq]
    by_cases ht : t = r.taskID
    · subst ht
      simpa [checkpointsOf] using ih.checkpoint hpass seq
    · simpa [checkpointsOf, Ne.symm ht] using
        ih.checkpoint_ne (r := { r with sequence := seq }) ht

theorem TaskRecord.error_foldl (records : List TaskJournalRecord) (t : TaskRecord) :
    (records.foldl applyJournalRecord t).error = "" ↔
      t.error = "" ∧ ∀ r ∈ records, r.error = "" := by
  induction records generalizing t with
  | nil => simp
  | cons r rest ih =>
    have hstep : (t.applyJournalRecord r).error = if r.error = "" then t.error else r.error := rfl
    rw [List.foldl_cons, ih, hstep, List.forall_mem_cons]
    split_ifs with herror <;> simp [herror]

theorem aggregate_error {agg : TaskRecord} (h : aggregate t accepted = some agg) :
    agg.error = "" ↔ ∀ r ∈ accepted, r.error = "" := by
  rcases accepted with _ | ⟨r, rest⟩
  · cases h
  cases h
  rw [TaskRecord.error_foldl]
  exact and_iff_right rfl

/-- A task that ends completed and without an error is so recorded exactly when
none of its earlier checkpoints reported an error. -/
theorem completed_without_error_iff {t : String} {accepted : List TaskJournalRecord}
    {last : TaskJournalRecord} {db : Database} (h : Accepts t (accepted ++ [last]) db)
    (hstatus : last.status = "completed") (herror : last.error = "") :
    (∃ record, db.tasksHistory.get t = some record ∧ record.status = "completed" ∧
      record.error = "") ↔ ∀ r ∈ accepted, r.error = "" := by
  have hterminal : isTerminalTaskStatus last.status = true := by rw [hstatus]; decide
  obtain ⟨-, agg, hagg, hsame, hhistory⟩ := h.tracks.history last (by simp) hterminal
  have hclean : agg.error = "" ↔ ∀ r ∈ accepted, r.error = "" := by
    rw [aggregate_error hagg]
    simp [or_imp, forall_and, herror]
  rw [← hclean]
  constructor
  · rintro ⟨record, hrecord, -, hempty⟩
    cases hhistory.symm.trans hrecord
    exact hempty
  · intro hempty
    exact ⟨agg.stored, hhistory, hsame.trans hstatus, hempty⟩

theorem completed_without_error_first :
    ∃ db, Accepts "t" ([] ++ [{ taskID := "t", status := "completed" }]) db ∧
      ∃ record, db.tasksHistory.get "t" = some record ∧ record.status = "completed" ∧
        record.error = "" := by
  have h : Accepts "t" ([] ++ [{ taskID := "t", status := "completed" }]) _ :=
    .append (r := { taskID := "t", status := "completed" })
      (.start (rfl : Database.empty.tasksActive.get "t" = none) rfl) rfl
  exact ⟨_, h, (completed_without_error_iff h rfl rfl).2 (fun r hr => by cases hr)⟩

/-- An escrowed task reports why it was escrowed, and so does its finished
record after it was resumed and completed. -/
theorem completed_with_stale_error :
    ∃ escrowed last db, Accepts "t" ([escrowed] ++ [last]) db ∧ last.status = "completed" ∧
      last.error = "" ∧
      ∃ record, db.tasksHistory.get "t" = some record ∧ record.error = "timeout" := by
  have h : Accepts "t" ([{ taskID := "t", status := "escrow", error := "timeout" }] ++
      [{ taskID := "t", status := "completed" }]) _ :=
    .append (r := { taskID := "t", status := "completed" })
      (.append (r := { taskID := "t", status := "escrow", error := "timeout" })
        (.start (rfl : Database.empty.tasksActive.get "t" = none) rfl) rfl) rfl
  exact ⟨_, _, _, h, rfl, rfl, _, rfl, rfl⟩

end Proxyma.Storage
