import Proxyma.Storage.StagedOutputs

/-!
# Entries that come back

Pruning a task deletes the keys of its staged entries and leaves no tombstone,
and it keeps the subscription.  To the merge, a pruned name is a name never
heard of: the first entry a peer sends for it is stored, its blob is missing, so
an intent is persisted and the blob is fetched again.

A session is what a peer makes the node do afterwards: manifests, notifications,
and fetches of what was asked for.  The index is decided by the entries alone
(`session_index`).  Intents and fetches follow it, since none is accepted for a
name that is not in the index; `Absence` is the relation that carries this back
through a run.

Staged entries are known by their names and their hashes only.  The last part asks
whose entries a prune removes (`run_prune_index`, `History.Staged`).
-/

namespace Proxyma.Storage

open Keyed Atomic Atomic.Prog

variable {baseDir : CleanPath} {index : Bucket String IndexEntry}
variable {s s' : State} {name : String}

/-! ## Sessions -/

/-- What a peer causes: it sends a manifest or a notification, or the node has
fetched a blob it had an intent for. -/
inductive Event
  | manifest (manifest : Bucket String IndexEntry) (source : String)
  | notification (file : IndexEntry) (source : String)
  | fetch (intent : DownloadIntent) (content : Blob)

/-- The entries an event carries. -/
def Event.entries : Event → List IndexEntry
  | manifest m _ => m.entries.map Prod.snd
  | notification file _ => [file]
  | fetch _ _ => []

/-- What the node does about an event. -/
def Event.process : Event → Prog Action Unit
  | manifest m source => do let _ ← processRemoteManifestFromSource m source
  | notification file source => do let _ ← handleNotification file source
  | fetch intent content => do let _ ← storeRemoteBlob intent.file content

/-- Only what there is an intent for is fetched. -/
def Event.Enabled (s : State) : Event → Prop
  | fetch intent _ => s.db.downloadIntents.get intent.file.name = some intent
  | _ => True

/-- Events one after the other. -/
inductive Session (baseDir : CleanPath) : List Event → State → State → Prop
  | nil (s : State) : Session baseDir [] s s
  | cons {event : Event} {events : List Event} {s s' : State} (henabled : event.Enabled s)
      (hrest : Session baseDir events (event.process.run (engine baseDir) s).2 s') :
      Session baseDir (event :: events) s s'

/-! ## The index -/

theorem Bookkeeping.storeRemoteBlob {keeps : State → State → Prop}
    (book : Bookkeeping baseDir keeps) (fileInfo : IndexEntry) (content : Blob) :
    Only (engine baseDir) keeps (storeRemoteBlob fileInfo content) := by
  have hrelease : ∀ err : Option GoError, Only (engine baseDir) keeps
      (perform (.downloads (releaseDownloadIntent fileInfo)) >>= fun _ => pure err) :=
    fun err => (book.downloads _).bind fun _ => trivial
  have haside : ∀ {e : Action (Option GoError)}, (∀ s, ((engine baseDir).exec e s).2 = s) →
      Only (engine baseDir) keeps (perform e) :=
    fun he => book.aside.action fun s => by rw [he]; exact ⟨rfl, rfl⟩
  refine (haside fun _ => rfl).bind fun err => ?_
  rcases err with _ | err
  swap
  · exact hrelease _
  split_ifs
  · exact hrelease _
  refine (haside fun _ => rfl).bind fun err => ?_
  cases err with
  | some err => exact hrelease _
  | none =>
    exact (operative_only book.aside).storeRemoteBlobLocked
      (only_perform (book.complete fileInfo)) trivial fun _ => trivial

/-- An event stores its entries in order; a database that is down stores none. -/
theorem run_event (baseDir : CleanPath) (event : Event) (s : State) :
    let s' := (event.process.run (engine baseDir) s).2
    s'.faults = s.faults ∧
      s'.db.index = if s.Up then storeAll event.entries s.db.index else s.db.index := by
  cases event with
  | manifest m source =>
    simp only [Event.process, run_bind, pure_eq, run_ret]
    exact run_processRemoteManifestFromSource baseDir m source s
  | notification file source =>
    simp only [Event.process, run_bind, pure_eq, run_ret]
    have hreceive := (storesFirst_handleNotification baseDir file source).receives baseDir s
    refine ⟨hreceive.faults, ?_⟩
    split_ifs with hup
    · exact (hreceive.up hup).2
    · exact (hreceive.down hup).index
  | fetch intent content =>
    simp only [Event.process, run_bind, pure_eq, run_ret]
    have hsame := ((bookkeeping_sameIndex baseDir).storeRemoteBlob intent.file content).run
      SameIndex.refl SameIndex.trans s
    refine ⟨hsame.faults, hsame.index.trans ?_⟩
    split_ifs <;> rfl

theorem storeAll_cons (entry : IndexEntry) (rest : List IndexEntry)
    (index : Bucket String IndexEntry) :
    storeAll (entry :: rest) index = storeAll rest ((storeIndex entry index).getD index) := rfl

theorem storeAll_append (entries more : List IndexEntry) (index : Bucket String IndexEntry) :
    storeAll (entries ++ more) index = storeAll more (storeAll entries index) :=
  List.foldl_append

variable {events : List Event}

theorem session_index (h : Session baseDir events s s') :
    s'.db.index =
      if s.Up then storeAll (events.flatMap Event.entries) s.db.index else s.db.index := by
  induction h with
  | nil s => split_ifs <;> rfl
  | @cons event events s s' _ _ ih =>
    obtain ⟨hfaults, hindex⟩ := run_event baseDir event s
    have hup : (event.process.run (engine baseDir) s).2.Up ↔ s.Up := by rw [State.Up, hfaults]; rfl
    rw [ih, hindex, List.flatMap_cons, storeAll_append]
    simp only [hup]
    split_ifs <;> rfl

theorem storeAll_ne_none (entries : List IndexEntry) (h : index.get name ≠ none) :
    (storeAll entries index).get name ≠ none := by
  induction entries generalizing index with
  | nil => exact h
  | cons entry rest ih =>
    rw [storeAll_cons]
    refine ih ?_
    rcases hstore : storeIndex entry index with _ | index'
    · exact h
    obtain ⟨written, -, -, hput⟩ := storeIndex_eq_some hstore
    rw [Option.getD_some, hput, Bucket.get_put]
    split_ifs
    · simp
    · exact h

/-- A name that is not in the index stays out of it until an entry for it comes
whose key fits. -/
theorem storeAll_eq_none_iff (entries : List IndexEntry) (hnone : index.get name = none) :
    (storeAll entries index).get name = none ↔
      ¬ (FitsKey name.utf8ByteSize ∧ ∃ e ∈ entries, e.name = name) := by
  induction entries generalizing index with
  | nil => simpa [storeAll] using hnone
  | cons entry rest ih =>
    by_cases hfirst : entry.name = name ∧ FitsKey name.utf8ByteSize
    · -- This entry is stored.
      obtain ⟨rfl, hfits⟩ := hfirst
      have hstored : ((storeIndex entry index).getD index).get entry.name ≠ none := by
        have heff : effectiveEntry none entry =
            some (if entry.version > 0 then entry else { entry with version := 1 }) := rfl
        have hwrite : ∀ written, WriteFits none written entry.name :=
          fun written => ⟨hfits, by simp [supersededHash]⟩
        simp [storeIndex, hnone, heff, hwrite]
      have hkept := storeAll_ne_none rest hstored
      constructor
      · exact fun h => absurd h hkept
      · exact fun h => absurd ⟨hfits, entry, List.mem_cons_self, rfl⟩ h
    · -- This entry is another's, or does not fit.
      have hstep : ((storeIndex entry index).getD index).get name = none := by
        rcases hstore : storeIndex entry index with _ | index'
        · exact hnone
        obtain ⟨written, -, hfits, hput⟩ := storeIndex_eq_some hstore
        rw [Option.getD_some, hput, Bucket.get_put, if_neg, hnone]
        rintro rfl
        exact hfirst ⟨rfl, hfits⟩
      rw [storeAll_cons, ih hstep]
      simp only [List.mem_cons, exists_eq_or_imp, not_and, not_or] at hfirst ⊢
      tauto

/-! ## Intents -/

/-- If a name is not in the index afterwards, it was not before, and no intent
for it is new. -/
def Absence (name : String) (s s' : State) : Prop :=
  s'.db.index.get name = none → s.db.index.get name = none ∧
    ∀ intent, s'.db.downloadIntents.get name = some intent →
      s.db.downloadIntents.get name = some intent

theorem Absence.refl (name : String) (s : State) : Absence name s s :=
  fun h => ⟨h, fun _ => id⟩

theorem Absence.trans {a b d : State} (hab : Absence name a b) (hbd : Absence name b d) :
    Absence name a d := by
  intro hnone
  obtain ⟨hnone', hintents'⟩ := hbd hnone
  obtain ⟨hnone'', hintents''⟩ := hab hnone'
  exact ⟨hnone'', fun intent h => hintents'' intent (hintents' intent h)⟩

theorem absence_update {α : Type} {write : Database → Except GoError (α × Database)}
    (hwrite : ∀ db result db', write db = .ok (result, db') → db'.index.get name = none →
      db.index.get name = none ∧ ∀ intent, db'.downloadIntents.get name = some intent →
        db.downloadIntents.get name = some intent) (s : State) :
    Absence name s ((engine baseDir).exec (.update write) s).2 :=
  exec_update_keeps baseDir (Absence.refl name s) (hwrite _ _ _)

theorem bookkeeping_absence (name : String) : Bookkeeping baseDir (Absence name) where
  aside := fun _ _ hdb _ => by
    unfold Absence
    rw [hdb]
    exact fun h => ⟨h, fun _ => id⟩
  persist := fun file source => absence_update fun db result db' hok hnone => by
    rcases persistDownloadIntentTx_cases file source db with ⟨err, htx⟩ | ⟨hget, -, -, -, htx⟩ <;>
      rw [htx] at hok <;> cases hok
    refine ⟨hnone, fun intent hintent => ?_⟩
    -- An intent is accepted for a name in the index only.
    have hne : name ≠ file.name := by
      rintro rfl
      cases hget.symm.trans hnone
    simpa [hne] using hintent
  complete := fun file => absence_update fun db result db' hok hnone => by
    unfold completeDownloadIntentTx at hok
    split at hok
    · cases hok
      exact ⟨hnone, fun _ => id⟩
    split_ifs at hok <;> cases hok
    · exact ⟨hnone, fun _ => id⟩
    · refine ⟨hnone, fun intent hintent => ?_⟩
      rw [Bucket.get_erase] at hintent
      split_ifs at hintent
      exact hintent

theorem absence_upsertIndexLocked (name : String) (entry : IndexEntry) :
    Only (engine baseDir) (Absence name) (upsertIndexLocked entry) := by
  have book : Bookkeeping baseDir (Absence name) := bookkeeping_absence name
  have hupsert : Only (engine baseDir) (Absence name) (upsert entry) := by
    refine only_perform (absence_update fun db result db' hok hnone => ?_)
    rcases upsert_cases entry db with ⟨_, -, -, htx, -⟩ |
      ⟨written, -, ⟨-, htx, -⟩ | ⟨-, ⟨err, htx⟩, -⟩⟩ <;> rw [htx] at hok <;> cases hok
    · exact ⟨hnone, fun _ => id⟩
    · rw [Database.write, Bucket.get_put] at hnone
      split_ifs at hnone
      exact ⟨hnone, fun _ => id⟩
  have hsweep : Only (engine baseDir) (Absence name) sweepPendingBlobGCLocked := by
    refine only_sweepPendingBlobGCLocked baseDir (Absence.refl name)
      (fun hash s => (book.aside.deleteBlob .sweep hash).1 s) fun completed => ?_
    refine absence_update fun db result db' hok hnone => ?_
    cases hok
    exact ⟨hnone, fun _ => id⟩
  exact (operative_only book.aside).upsertIndexLocked hsweep (leads_only hupsert)

theorem StoresFirst.absence {entry : IndexEntry} {α : Type} {p : Prog Action α}
    (h : StoresFirst baseDir entry p) : Only (engine baseDir) (Absence name) p := by
  obtain ⟨g, rfl, hg⟩ := h
  exact (absence_upsertIndexLocked name entry).bind (hg (bookkeeping_absence name))

theorem absence_processManifestEntries (name : String) (entries missing : List IndexEntry)
    (err : Option GoError) :
    Only (engine baseDir) (Absence name) (processManifestEntries entries missing err) := by
  induction entries generalizing missing err with
  | nil => trivial
  | cons entry rest ih =>
    rw [processManifestEntries]
    split_ifs
    · refine (storesFirst_processRemoteDeletion baseDir entry).absence.bind fun err => ?_
      cases err <;> exact ih _ _
    · exact (storesFirst_processManifestEntry baseDir entry).absence.bind fun _ => ih _ _

theorem absence_event (name : String) (event : Event) (s : State) :
    Absence name s (event.process.run (engine baseDir) s).2 := by
  have book : Bookkeeping baseDir (Absence name) := bookkeeping_absence name
  have honly : Only (engine baseDir) (Absence name) event.process := by
    cases event with
    | manifest m source =>
      refine Only.bind ?_ fun _ => trivial
      refine (absence_processManifestEntries name _ _ _).bind fun out => ?_
      exact (book.requestMissing source _ _).bind fun _ => trivial
    | notification file source =>
      exact (storesFirst_handleNotification baseDir file source).absence.bind fun _ => trivial
    | fetch intent content =>
      exact (book.storeRemoteBlob intent.file content).bind fun _ => trivial
  exact honly.run (Absence.refl name) Absence.trans s

theorem absence_session (h : Session baseDir events s s') : Absence name s s' := by
  induction h with
  | nil s => exact Absence.refl name s
  | cons _ _ ih => exact (absence_event name _ _).trans ih

/-! ## Pruned names -/

/-- A prune removed an entry from the index. -/
structure Pruned (baseDir : CleanPath) (taskID name : String) (s s' : State) : Prop where
  prune : s' = ((pruneIntermediateTaskData taskID).run (engine baseDir) s).2
  before : ∃ entry, s.db.index.get name = some entry
  after : s'.db.index.get name = none

/-- In a session, a name does not come back: not into the index, not as a new
intent, and nothing new is fetched for it. -/
structure StaysPruned (name : String) (events : List Event) (s s' : State) : Prop where
  index : s'.db.index.get name = none
  intents : ∀ intent, s'.db.downloadIntents.get name = some intent →
    s.db.downloadIntents.get name = some intent
  fetches : ∀ intent content, .fetch intent content ∈ events → intent.file.name = name →
    s.db.downloadIntents.get name = some intent

/-- What is fetched for an absent name was asked for before the session. -/
theorem fetched_of_absent (h : Session baseDir events s s') (hnone : s'.db.index.get name = none) :
    ∀ intent content, .fetch intent content ∈ events → intent.file.name = name →
      s.db.downloadIntents.get name = some intent := by
  induction h with
  | nil s => simp
  | @cons event events s s' henabled hrest ih =>
    intro intent content hmem hname
    rcases List.mem_cons.1 hmem with rfl | hmem
    · exact hname ▸ henabled
    · have hlater := ih hnone intent content hmem hname
      have habsent := (absence_session hrest hnone).1
      exact (absence_event name event s habsent).2 intent hlater

/-- A pruned name stays away exactly as long as no message carries an entry for
it, unless the database refuses the entry. -/
theorem stays_pruned_iff {taskID name : String} {s₀ s s' : State}
    (hpruned : Pruned baseDir taskID name s₀ s) {events : List Event}
    (hsession : Session baseDir events s s') :
    StaysPruned name events s s' ↔
      ¬ (s.Up ∧ FitsKey name.utf8ByteSize ∧
        ∃ event ∈ events, ∃ entry ∈ event.entries, entry.name = name) := by
  have hindex : s'.db.index.get name = none ↔ ¬ (s.Up ∧ FitsKey name.utf8ByteSize ∧
      ∃ event ∈ events, ∃ entry ∈ event.entries, entry.name = name) := by
    rw [session_index hsession]
    by_cases hup : s.Up
    · have hnamed : (∃ e ∈ events.flatMap Event.entries, e.name = name) ↔
          ∃ event ∈ events, ∃ entry ∈ event.entries, entry.name = name := by
        simp only [List.mem_flatMap]
        exact ⟨fun ⟨e, ⟨event, hevent, he⟩, hname⟩ => ⟨event, hevent, e, he, hname⟩,
          fun ⟨event, hevent, e, he, hname⟩ => ⟨e, ⟨event, hevent, he⟩, hname⟩⟩
      rw [if_pos hup, storeAll_eq_none_iff _ hpruned.after, hnamed]
      simp [hup]
    · simp [hup, hpruned.after]
  refine ⟨fun h => hindex.1 h.index, fun h => ?_⟩
  have hnone := hindex.2 h
  exact ⟨hnone, (absence_session hsession hnone).2, fetched_of_absent hsession hnone⟩

/-- What `T1` staged, as its peers have seen it. -/
def seenEntry : IndexEntry := { stagedEntry "out" ⟨digestA, 3⟩ with version := 1 }

theorem pruned_finished : ∃ s, Pruned dataDir "T1" seenEntry.name State.finished s :=
  ⟨_, rfl, ⟨seenEntry, by decide +kernel⟩, by decide +kernel⟩

/-- A notification of another file does not bring it back. -/
theorem stays_pruned_iff_other : ∃ s s',
    StaysPruned seenEntry.name [.notification ⟨"f", 0, "", 1, false⟩ "peer"] s s' := by
  obtain ⟨s, hpruned⟩ := pruned_finished
  have hsession : Session dataDir [.notification ⟨"f", 0, "", 1, false⟩ "peer"] s _ :=
    .cons trivial (.nil _)
  refine ⟨s, _, (stays_pruned_iff hpruned hsession).2 ?_⟩
  rintro ⟨-, -, event, hevent, entry, hentry, hname⟩
  obtain rfl := List.mem_singleton.1 hevent
  obtain rfl := List.mem_singleton.1 hentry
  exact absurd hname (by decide)

/-- After the prune, a manifest of the peer brings the entry back, has an intent
persisted for it, and the blob is stored again. -/
theorem manifest_recreates_pruned :
    let pruned := (pruneIntermediateTaskData "T1").run (engine dataDir) State.finished
    let synced := (processRemoteManifestFromSource (Bucket.empty.put seenEntry.name seenEntry)
      "peer").run (engine dataDir) pruned.2
    let stored := (storeRemoteBlob seenEntry ⟨digestA, 3⟩).run (engine dataDir) synced.2
    pruned.1 = none ∧ pruned.2.db.index.get seenEntry.name = none ∧
      ¬ Present dataDir digestA pruned.2 ∧
      synced.2.db.index.get seenEntry.name = some seenEntry ∧
      synced.2.db.downloadIntents.get seenEntry.name = some ⟨seenEntry, "peer"⟩ ∧
      stored.1 = none ∧ Present dataDir digestA stored.2 := by
  decide +kernel

/-! ## Whose entries a prune removes -/

/-- How an engine came to a state: one operation after the other on an index that
was empty at first, and what goes on without the lock. -/
inductive History (baseDir : CleanPath) : State → Type
  | opened (s : State) (hempty : s.db.index = Bucket.empty) : History baseDir s
  | operate {s s' : State} (earlier : History baseDir s) (op : Operation)
      (hop : Executes (engine baseDir) (Unlocked baseDir) op.locked s () s') : History baseDir s'
  | beside {s s' : State} (earlier : History baseDir s) (hbeside : Unlocked baseDir s s') :
      History baseDir s'

/-- The entry of a name is as a `StageLocalFile` wrote it. -/
def History.Staged : {s : State} → History baseDir s → String → Prop
  | _, .opened _ _, _ => False
  | s', .operate (s := s) earlier op _, name =>
    if s'.db.index.get name = s.db.index.get name then earlier.Staged name
    else ∃ pathStr content, op = .stageLocalFile pathStr content
  | _, .beside earlier _, name => earlier.Staged name

/-- The hashes that a prune of a task collects. -/
def collected (taskID : String) (s : State) : List String :=
  if validateTaskID taskID = none ∧ s.Up then
    (pruneTx taskID s.db).toOption.elim [] Prod.fst
  else []

theorem run_pruneLocked_index (taskID : String) (s : State) :
    ((pruneLocked taskID).run (engine baseDir) s).2.db.index = deleteStagedVFSIndexEntries
      (if s.faults.update = none then (pruneTx taskID s.db).toOption.elim [] Prod.fst else [])
      s.db.index := by
  simp only [pruneLocked, run_bind, run_perform, engine, exec]
  cases s.faults.update with
  | some err => simp [orFault]
  | none =>
    rcases pruneTx_cases taskID s.db with ⟨err, htx⟩ | ⟨records, blobs, -, -, htx⟩
    · simp [htx, orFault, Except.toOption]
    simp only [htx, orFault, Option.elim_none]
    split_ifs with hempty
    · rfl
    · exact ((sameIndex_sweep baseDir).run SameIndex.refl SameIndex.trans _).index

/-- A prune removes the entries under `stage/` with the hashes it collects. -/
theorem run_prune_index (taskID : String) (s : State) :
    ((pruneIntermediateTaskData taskID).run (engine baseDir) s).2.db.index =
      deleteStagedVFSIndexEntries (collected taskID s) s.db.index := by
  unfold pruneIntermediateTaskData collected
  rcases hvalid : validateTaskID taskID with _ | err
  swap
  · simp
  simp only [run_bind, run_perform, engine, exec, true_and, State.Up]
  rcases hview : s.faults.view with _ | err
  swap
  · simp [orFault]
  have hlocked : ((pruneLocked taskID).run (engine baseDir) s).2.db.index = _ :=
    run_pruneLocked_index taskID s
  simp only [orFault, prunePreflight, pruneTx, engine] at hlocked ⊢
  rcases hcheck : checkPrunable taskID s.db with err | records
  · simp [Bind.bind, Except.bind, Except.toOption]
  rw [hcheck] at hlocked
  cases hfound : records.any fun e => isPrunable e.2 with
  | true => simpa [Bind.bind, Except.bind, Pure.pure, Except.pure, hfound] using hlocked
  | false =>
    -- without prunable checkpoints there is nothing to collect
    have hnone : records.filter (fun e => isPrunable e.2) = [] := by
      simpa [List.filter_eq_nil_iff] using hfound
    simp [Bind.bind, Except.bind, Pure.pure, Except.pure, hfound, pruneWrites,
      intermediateBlobs, hnone, Except.toOption]

end Proxyma.Storage
