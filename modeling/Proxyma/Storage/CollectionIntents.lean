import Proxyma.Storage.Confinement

/-!
# Superseded blobs are not forgotten

A write that replaces an entry queues its hash in the same transaction.  The
mark is taken away by the sweep only, which scans the marks and the references,
deletes the blobs and clears the marks in three separate steps, and may die
between any two of them.

What a program under the lock will still do is described by `Collects`: none of
its actions takes the mark of a hash away until one of them has seen a live
entry with the hash or has deleted its blob; from then on the program writes no
more entries (`LeavesEntries`).  Every operation is such a program, so after a write
that replaces an entry the mark stays, in every run, until the hash is accounted
for.  A crash forgets the program and what it has found out, never a mark.

An entry may carry no hash at all.  Such an entry is replaced without a mark.
-/

namespace Proxyma.Storage

open Keyed Atomic Atomic.Prog

/-! ## Runs with crashes -/

/-- What can happen next: an operation takes the lock, the one that holds it
performs its next action or lets go, the process dies and is started again, or
calls start or cease to fail. -/
inductive EngineMove
  | acquire (op : Operation) (htasks : ∀ taskID, op ≠ .pruneIntermediateTaskData taskID)
  | advance
  | crash
  | faults (failing : Faults)

/-- One move.  A crash loses the memory guarded by `downloadMu`. -/
def EngineMove.apply (baseDir : CleanPath) : EngineMove → Machine Action State →
    Machine Action State
  | acquire op _, ⟨s, none⟩ => ⟨s, some op.locked⟩
  | acquire _ _, ⟨s, some p⟩ => ⟨s, some p⟩
  | advance, ⟨s, none⟩ => ⟨s, none⟩
  | advance, ⟨s, some (.ret ())⟩ => ⟨s, none⟩
  | advance, ⟨s, some (.act e next)⟩ =>
    ⟨((engine baseDir).exec e s).2, some (next ((engine baseDir).exec e s).1)⟩
  | crash, ⟨s, _⟩ => ⟨{ s with downloads := ⟨.empty, 0⟩ }, none⟩
  | faults failing, ⟨s, p⟩ => ⟨{ s with faults := failing }, p⟩

/-- The machine after some moves of an engine that starts in `s`. -/
def engineRun (baseDir : CleanPath) (s : State) (moves : List EngineMove) :
    Machine Action State :=
  moves.foldl (fun m move => move.apply baseDir m) s.idle

/-! ## What has to be accounted for -/

/-- No task record refers to a blob. -/
structure State.Untasked (s : State) : Prop where
  active : ∀ id, s.db.tasksActive.get id = none
  history : ∀ id, s.db.tasksHistory.get id = none

/-- A live entry refers to the hash. -/
def State.Live (s : State) (hash : String) : Prop :=
  ∃ name entry, s.db.index.get name = some entry ∧ entry.deleted = false ∧ entry.hash = hash

/-- The hash is in `pending_blob_gc`. -/
def State.Marked (s : State) (hash : String) : Prop := s.db.pendingBlobGC.has hash = true

instance (s : State) (hash : String) : Decidable (s.Marked hash) :=
  inferInstanceAs (Decidable (_ = _))

/-- An entry with the hash is replaced. -/
def Replaces (s s' : State) (hash : String) : Prop :=
  ∃ name previous, s.db.index.get name = some previous ∧ previous.hash = hash ∧
    s'.db.index.get name ≠ some previous

/-- The hash whose blob an action deletes, if it succeeds. -/
def removes (baseDir : CleanPath) : {β : Type} → Action β → State → Option String
  | _, .deleteBlob caller hash, s =>
    if ((engine baseDir).exec (.deleteBlob caller hash) s).1 = none then some hash else none
  | _, _, _ => none

/-- The hash whose blob the next action of a machine deletes. -/
def nextRemoval (baseDir : CleanPath) : Machine Action State → Option String
  | ⟨s, some (.act e _)⟩ => removes baseDir e s
  | _ => none

/-- Since the move after `earlier`, the hash is marked, was referred to by a live
entry or was deleted. -/
def AccountedFor (baseDir : CleanPath) (s : State) (earlier : List EngineMove) (move : EngineMove)
    (later : List EngineMove) (hash : String) : Prop :=
  (engineRun baseDir s (earlier ++ move :: later)).state.Marked hash ∨
    (∃ since, since <+: later ∧
      (engineRun baseDir s (earlier ++ move :: since)).state.Live hash) ∨
    ∃ since rest, later = since ++ .advance :: rest ∧
      nextRemoval baseDir (engineRun baseDir s (earlier ++ move :: since)) = some hash

/-! ## Programs that keep marks -/

section Collects

variable {baseDir : CleanPath} {hash : String} {α β : Type}
variable {s s' : State} {g : α → Prog Action β} {p : Prog Action α}
  {write : Database → Except GoError (α × Database)}

/-- The index and the tasks are as before. -/
structure SameEntries (s s' : State) : Prop where
  index : s'.db.index = s.db.index
  active : s'.db.tasksActive = s.db.tasksActive
  history : s'.db.tasksHistory = s.db.tasksHistory

/-- So are the marks. -/
structure SameMarks (s s' : State) : Prop extends SameEntries s s' where
  pending : s'.db.pendingBlobGC = s.db.pendingBlobGC

theorem SameMarks.of_db (h : s'.db = s.db) : SameMarks s s' := by
  constructor
  · constructor <;> rw [h]
  · rw [h]

/-- What every action of a program does as long as the hash is not accounted
for. -/
structure Upkeep (hash : String) (s s' : State) : Prop where
  untasked : s'.Untasked
  marked : s.Marked hash → s'.Marked hash
  replaced : Replaces s s' hash → s'.Marked hash ∨ s'.Live hash

theorem SameEntries.untasked (h : SameEntries s s') (hs : s.Untasked) : s'.Untasked :=
  ⟨h.active ▸ hs.active, h.history ▸ hs.history⟩

theorem SameEntries.not_replaces (h : SameEntries s s') : ¬ Replaces s s' hash := by
  rintro ⟨name, previous, hprevious, -, hreplaced⟩
  rw [h.index] at hreplaced
  exact hreplaced hprevious

theorem SameMarks.upkeep (h : SameMarks s s') (hs : s.Untasked) : Upkeep hash s s' where
  untasked := h.untasked hs
  marked := fun hmarked => by
    rwa [State.Marked, h.pending]
  replaced := fun hreplaced => absurd hreplaced h.not_replaces

/-- A program that writes no entry. -/
def LeavesEntries (baseDir : CleanPath) (p : Prog Action α) : Prop :=
  Only (engine baseDir) SameEntries p

/-- The actions of a program look after a hash until it is accounted for; then
the program writes no entry any more. -/
def Collects (baseDir : CleanPath) (hash : String) (post : α → Prop) : Prog Action α → Prop
  | .ret a => post a
  | .act e next => ∀ s : State, s.Untasked →
      Upkeep hash s ((engine baseDir).exec e s).2 ∧
        (Collects baseDir hash post (next ((engine baseDir).exec e s).1) ∨
          (s.Live hash ∨ removes baseDir e s = some hash) ∧ LeavesEntries baseDir (.act e next))

variable {post : α → Prop} {post' : β → Prop}

theorem Collects.bind (hp : Collects baseDir hash post p)
    (hg : ∀ a, post a → Collects baseDir hash post' (g a))
    (hleaves : ∀ a, LeavesEntries baseDir (g a)) : Collects baseDir hash post' (p >>= g) := by
  induction p with
  | ret a => exact hg a hp
  | act e next ih =>
    intro s hs
    obtain ⟨hupkeep, hnext | ⟨hsettled, hrest⟩⟩ := hp s hs
    · exact ⟨hupkeep, .inl (ih _ hnext)⟩
    · exact ⟨hupkeep, .inr ⟨hsettled, Only.bind hrest hleaves⟩⟩

/-- Actions that leave entries and marks alone may come before anything. -/
theorem Collects.after (hp : Only (engine baseDir) SameMarks p)
    (hg : ∀ a, Collects baseDir hash post' (g a)) : Collects baseDir hash post' (p >>= g) := by
  induction p with
  | ret a => exact hg a
  | act e next ih =>
    intro s hs
    exact ⟨(hp.1 s).upkeep hs, .inl (ih _ (hp.2 _))⟩

theorem Collects.of_only (hp : Only (engine baseDir) SameMarks p) :
    Collects baseDir hash (fun _ => True) p := by
  induction p with
  | ret a => trivial
  | act e next ih =>
    intro s hs
    exact ⟨(hp.1 s).upkeep hs, .inl (ih _ (hp.2 _))⟩

theorem leavesEntries_of_only (hp : Only (engine baseDir) SameMarks p) : LeavesEntries baseDir p :=
  hp.mono fun _ _ h => h.toSameEntries

theorem Collects.then (hp : Collects baseDir hash post p)
    (hg : ∀ a, Only (engine baseDir) SameMarks (g a)) :
    Collects baseDir hash (fun _ => True) (p >>= g) :=
  hp.bind (fun a _ => .of_only (hg a)) fun a => leavesEntries_of_only (hg a)

/-! ## The transactions -/

theorem sameMarks_update
    (hwrite : ∀ db result db', write db = .ok (result, db') →
      db'.index = db.index ∧ db'.tasksActive = db.tasksActive ∧
        db'.tasksHistory = db.tasksHistory ∧ db'.pendingBlobGC = db.pendingBlobGC) (s : State) :
    SameMarks s ((engine baseDir).exec (.update write) s).2 := by
  refine exec_update_keeps baseDir (.of_db rfl) fun hok => ?_
  obtain ⟨hindex, hactive, hhistory, hpending⟩ := hwrite _ _ _ hok
  exact ⟨⟨hindex, hactive, hhistory⟩, hpending⟩

theorem aside_sameMarks : Aside SameMarks := fun _ _ hdb _ => .of_db hdb

theorem sameMarks_deleteBlob (caller : Deleter) (hash : String) (s : State) :
    SameMarks s ((engine baseDir).exec (.deleteBlob caller hash) s).2 :=
  (aside_sameMarks.deleteBlob caller hash).1 s

theorem marked_write (db : Database) (name : String) (written : IndexEntry)
    (h : db.pendingBlobGC.has hash = true) :
    (db.write name written).pendingBlobGC.has hash = true := by
  obtain ⟨mark, hget⟩ := Bucket.has_eq_true.1 h
  rw [Bucket.has_eq_true]
  unfold Database.write
  rcases supersededHash (db.index.get name) written with _ | superseded
  · exact ⟨mark, hget⟩
  simp only [Bucket.get_put]
  split_ifs
  · exact ⟨(), rfl⟩
  · exact ⟨mark, hget⟩

/-- The hash of a replaced entry is marked, unless the new entry needs it. -/
theorem replaced_write {db : Database} {name name' : String} {written previous : IndexEntry}
    (hprevious : db.index.get name' = some previous)
    (hreplaced : (db.write name written).index.get name' ≠ some previous)
    (hhash : previous.hash ≠ "") :
    (db.write name written).pendingBlobGC.has previous.hash = true ∨
      (written.deleted = false ∧ written.hash = previous.hash) := by
  have hname : name' = name := by
    by_contra hne
    simp only [Database.write, Bucket.get_put, if_neg hne] at hreplaced
    exact hreplaced hprevious
  subst hname
  by_cases hkept : written.deleted = false ∧ written.hash = previous.hash
  · exact .inr hkept
  left
  have hsuperseded : supersededHash (db.index.get name') written = some previous.hash := by
    rw [hprevious, supersededHash, Option.bind_some, if_neg]
    rintro (hempty | ⟨hlive, hsame⟩)
    · exact hhash hempty
    · exact hkept ⟨by simpa using hlive, hsame.symm⟩
  simp only [Database.write, hsuperseded, Bucket.has_eq_true, Bucket.get_put, if_pos]
  exact ⟨(), trivial⟩

/-- What a transaction that writes an entry does to the database. -/
def Writes (write : Database → Except GoError (α × Database)) : Prop :=
  ∀ db result db', write db = .ok (result, db') → db' = db ∨
    ∃ name written subscriptions,
      db' = { db.write name written with subscriptions := subscriptions }

theorem writes_upsertTx (entry : IndexEntry) : Writes (upsertTx entry) := by
  intro db result db' hok
  rcases upsert_cases entry db with ⟨_, -, -, htx, -⟩ |
    ⟨written, -, ⟨-, htx, -⟩ | ⟨-, ⟨err, htx⟩, -⟩⟩ <;> rw [htx] at hok <;> cases hok
  · exact .inl rfl
  · exact .inr ⟨entry.name, written, db.subscriptions, rfl⟩

theorem writes_upsertAndSubscribeTx (entry : IndexEntry) : Writes (upsertAndSubscribeTx entry) := by
  intro db result db' hok
  rcases upsert_cases entry db with ⟨_, -, -, -, htx⟩ |
    ⟨written, -, ⟨-, -, htx⟩ | ⟨-, -, err, htx⟩⟩ <;> rw [htx] at hok <;> cases hok
  · exact .inl rfl
  · exact .inr ⟨entry.name, written, _, rfl⟩

theorem Writes.upkeep (h : Writes write) (hhash : hash ≠ "") (hs : s.Untasked) :
    Upkeep hash s ((engine baseDir).exec (.update write) s).2 := by
  have hsame : Upkeep hash s s := (SameMarks.of_db rfl).upkeep hs
  refine exec_update_keeps baseDir hsame fun hok => ?_
  obtain rfl | ⟨name, written, subscriptions, rfl⟩ := h _ _ _ hok
  · exact hsame
  · refine ⟨⟨hs.active, hs.history⟩, marked_write s.db name written, ?_⟩
    rintro ⟨name', previous, hprevious, rfl, hreplaced⟩
    refine (replaced_write hprevious hreplaced hhash).imp id fun hkept => ?_
    exact ⟨name, written, by simp [Database.write], hkept⟩

/-- Write an entry and go on with a program that looks after the hash. -/
theorem Writes.collects (h : Writes write) (hhash : hash ≠ "")
    {g : Except GoError α → Prog Action β} (hg : ∀ r, Collects baseDir hash post' (g r)) :
    Collects baseDir hash post' (perform (.update write) >>= g) :=
  fun _ hs => ⟨h.upkeep hhash hs, .inl (hg _)⟩

/-! ## The sweep -/

theorem sameEntries_clear (completed : List String) (s : State) :
    SameEntries s ((engine baseDir).exec (.update (clearPendingBlobGCTx completed)) s).2 := by
  refine exec_update_keeps baseDir ⟨rfl, rfl, rfl⟩ fun hok => ?_
  cases hok
  exact ⟨rfl, rfl, rfl⟩

theorem upkeep_clear {completed : List String} (hcompleted : hash ∉ completed) (hs : s.Untasked) :
    Upkeep hash s ((engine baseDir).exec (.update (clearPendingBlobGCTx completed)) s).2 := by
  have hentries : SameEntries s
      ((engine baseDir).exec (.update (clearPendingBlobGCTx completed)) s).2 :=
    sameEntries_clear completed s
  refine ⟨hentries.untasked hs, fun hmarked => ?_, fun hreplaced =>
    absurd hreplaced hentries.not_replaces⟩
  refine exec_update_keeps (P := fun s => s.db.pendingBlobGC.has hash = true) baseDir hmarked
    fun hok => ?_
  cases hok
  obtain ⟨mark, hget⟩ := Bucket.has_eq_true.1 hmarked
  refine Bucket.has_eq_true.2 ⟨mark, ?_⟩
  rwa [Bucket.get_eraseAll, if_neg hcompleted]

theorem leavesEntries_sweepDeletes (pending : List (String × Bool)) (completed : List String)
    (sweepErr : Option GoError) : LeavesEntries baseDir (sweepDeletes pending completed sweepErr) :=
  only_sweepDeletes baseDir (fun hash s => (sameMarks_deleteBlob .sweep hash s).toSameEntries)
    pending completed sweepErr

theorem leavesEntries_sweep : LeavesEntries baseDir sweepPendingBlobGCLocked :=
  only_sweepPendingBlobGCLocked baseDir (fun _ => ⟨rfl, rfl, rfl⟩)
    (fun hash s => (sameMarks_deleteBlob .sweep hash s).toSameEntries) sameEntries_clear

/-- The deletion loop is done with a hash that nothing refers to only after it
has deleted the blob. -/
theorem collects_sweepDeletes {pending : List (String × Bool)} {completed : List String}
    (sweepErr : Option GoError) (hpending : (hash, true) ∉ pending) (hcompleted : hash ∉ completed) :
    Collects baseDir hash (fun out => hash ∉ out.1) (sweepDeletes pending completed sweepErr) := by
  induction pending generalizing completed sweepErr with
  | nil => exact hcompleted
  | cons head rest ih =>
    obtain ⟨other, referenced⟩ := head
    have hrest : (hash, true) ∉ rest := fun hmem => hpending (List.mem_cons_of_mem _ hmem)
    have happend : hash ≠ other → hash ∉ completed ++ [other] := by
      intro hne hmem
      rcases List.mem_append.1 hmem with hmem | hmem
      · exact hcompleted hmem
      · exact hne (List.mem_singleton.1 hmem)
    cases referenced with
    | true =>
      have hne : hash ≠ other := by
        rintro rfl
        exact hpending List.mem_cons_self
      exact ih _ hrest (happend hne)
    | false =>
      intro s hs
      refine ⟨(sameMarks_deleteBlob .sweep other s).upkeep hs, ?_⟩
      cases hexec : ((engine baseDir).exec (.deleteBlob .sweep other) s).1 with
      | some err => exact .inl (ih _ hrest hcompleted)
      | none =>
        by_cases hother : hash = other
        · refine .inr ⟨.inr ?_, ?_⟩
          · rw [removes, if_pos hexec, hother]
          · exact leavesEntries_sweepDeletes ((other, false) :: rest) completed sweepErr
        · exact .inl (ih _ hrest (happend hother))

theorem collects_sweep : Collects baseDir hash (fun _ => True) sweepPendingBlobGCLocked := by
  intro s hs
  refine ⟨((aside_sameMarks.view _).1 s).upkeep hs, ?_⟩
  -- Either the scan sees a live entry with the hash, or it finds no reference.
  by_cases hlive : s.Live hash
  · exact .inr ⟨.inl hlive, leavesEntries_sweep⟩
  have hscan : (hash, true) ∉ scanPendingBlobGC s.db := by
    intro hmem
    obtain ⟨other, -, heq⟩ := List.mem_map.1 hmem
    obtain ⟨rfl, hreferenced⟩ := Prod.mk.inj heq
    have hfree : sweepReferences s.db other = false :=
      sweepReferences_eq_false.2 ⟨fun key entry hget hdeleted hhash =>
        hlive ⟨key, entry, hget, hdeleted, hhash⟩,
        fun key task hget => by simp [hs.active key] at hget,
        fun key task hget => by simp [hs.history key] at hget⟩
    simp [hfree] at hreferenced
  left
  rcases exec_view_cases baseDir (fun db => .ok (scanPendingBlobGC db)) s with
    ⟨err, hexec⟩ | hexec <;> rw [hexec]
  · trivial
  simp only [Prog.bind]
  split_ifs
  · trivial
  refine (collects_sweepDeletes none hscan List.not_mem_nil).bind ?_ ?_
  · rintro ⟨completed, sweepErr⟩ hcompleted
    split_ifs
    · trivial
    · intro s' hs'
      refine ⟨upkeep_clear hcompleted hs', .inl ?_⟩
      cases ((engine baseDir).exec (.update (clearPendingBlobGCTx completed)) s').1 <;> trivial
  · rintro ⟨completed, sweepErr⟩
    dsimp only
    split_ifs
    · trivial
    · refine ⟨sameEntries_clear completed, fun cleared => ?_⟩
      cases cleared <;> trivial

/-! ## The operations -/

/-- What an operation does before or after it writes an entry leaves entries and
marks alone. -/
def Phase (baseDir : CleanPath) (hash : String) (writing : Bool) ⦃α : Type⦄ (p : Prog Action α) :
    Prop :=
  if writing then Collects baseDir hash (fun _ => True) p else Only (engine baseDir) SameMarks p

theorem Phase.of_only {w : Bool} (hp : Only (engine baseDir) SameMarks p) :
    Phase baseDir hash w p := by
  cases w with
  | false => exact hp
  | true => exact Collects.of_only hp

theorem Phase.after {w : Bool} (hp : Only (engine baseDir) SameMarks p)
    (hg : ∀ a, Phase baseDir hash w (g a)) : Phase baseDir hash w (p >>= g) := by
  cases w with
  | false => exact Only.bind hp hg
  | true => exact Collects.after hp hg

theorem operative_phase : Operative (Phase baseDir hash) (fun _ => True) fun _ => True :=
  have ops : Operative (fun _ _ p => Only (engine baseDir) SameMarks p) (fun _ => True)
    fun _ => True := operative_only aside_sameMarks
  { ret := fun _ => .of_only trivial
    bind := .after
    after := Collects.then
    digest := fun _ => trivial
    get := fun hg => .after (aside_sameMarks.view _) fun r => hg r fun _ _ => trivial
    prepareNotification := ops.prepareNotification
    finishNotification := ops.finishNotification
    downloads := ops.downloads
    commit := fun hg => .after (aside_sameMarks.commit _) fun r => hg r fun _ => trivial
    compensate := ops.compensate
    orphan := ops.orphan }

theorem sameMarks_setSubscription (fileName : String) (isSubscribed : Bool) :
    Only (engine baseDir) SameMarks
      (perform (.update (setSubscriptionTx fileName isSubscribed))) := by
  refine only_perform (sameMarks_update fun db result db' hok => ?_)
  rcases setSubscriptionTx_cases fileName isSubscribed db with ⟨err, htx⟩ | ⟨_, htx⟩ <;>
    rw [htx] at hok <;> cases hok
  exact ⟨rfl, rfl, rfl, rfl⟩

theorem sameMarks_completeDownloadIntent (file : IndexEntry) :
    Only (engine baseDir) SameMarks (perform (.update (completeDownloadIntentTx file))) := by
  refine only_perform (sameMarks_update fun db result db' hok => ?_)
  obtain ⟨intents, htx⟩ := completeDownloadIntentTx_eq file db
  rw [htx] at hok
  cases hok
  exact ⟨rfl, rfl, rfl, rfl⟩

theorem sameMarks_persistDownloadIntent (file : IndexEntry) (source : String) :
    Only (engine baseDir) SameMarks (perform (.update (persistDownloadIntentTx file source))) := by
  refine only_perform (sameMarks_update fun db result db' hok => ?_)
  rcases persistDownloadIntentTx_cases file source db with ⟨err, htx⟩ | ⟨-, -, -, -, htx⟩ <;>
    rw [htx] at hok <;> cases hok
  exact ⟨rfl, rfl, rfl, rfl⟩

theorem Operation.collects (hhash : hash ≠ "") (op : Operation)
    (htasks : ∀ taskID, op ≠ .pruneIntermediateTaskData taskID) :
    Collects baseDir hash (fun _ => True) op.locked := by
  have ops : Operative (Phase baseDir hash) (fun _ => True) fun _ => True := operative_phase
  have hupsert := fun (entry : IndexEntry) (_ : True) =>
    ((fun _ _ => (writes_upsertTx entry).collects hhash) :
      Leads (Phase baseDir hash) (upsert entry))
  have hsubscribe := fun (entry : IndexEntry) (_ : True) =>
    ((fun _ _ => (writes_upsertAndSubscribeTx entry).collects hhash) :
      Leads (Phase baseDir hash) (perform (.update (upsertAndSubscribeTx entry))))
  have hsweep : Phase baseDir hash true sweepPendingBlobGCLocked := collects_sweep
  have hdone : ∀ {α : Type} {p : Prog Action α}, Phase baseDir hash true p →
      Collects baseDir hash (fun _ => True) (p >>= fun _ => pure ()) :=
    fun hp => Collects.then hp fun _ => trivial
  have hquiet : ∀ {α : Type} {p : Prog Action α}, Phase baseDir hash false p →
      Collects baseDir hash (fun _ => True) (p >>= fun _ => pure ()) :=
    fun hp => hdone (.of_only hp)
  cases op with
  | setSubscription fileName isSubscribed =>
    exact hquiet (ops.setSubscriptionLocked (sameMarks_setSubscription _ _))
  | upsertIndex entry => exact hdone (ops.upsertIndexLocked hsweep (hupsert entry trivial))
  | processRemoteDeletion fileInfo =>
    exact hdone (ops.processRemoteDeletionLocked hsweep (hupsert fileInfo trivial)
      (sameMarks_completeDownloadIntent fileInfo))
  | deleteLocalFile fileName => exact hdone (ops.deleteLocalFileLocked hsweep hupsert)
  | deleteLocalCache fileName =>
    exact hquiet (ops.deleteLocalCacheLocked (sameMarks_setSubscription _ _))
  | upsertAndSubscribe entry notify =>
    exact hdone (ops.upsertAndSubscribeLocked hsweep hsubscribe trivial notify)
  | saveLocalFile fileName content =>
    exact hdone (ops.saveLocalFileLocked hsweep hsubscribe fileName content)
  | stageLocalFile pathStr content =>
    exact hdone (ops.stageLocalFileLocked hsweep hsubscribe pathStr content)
  | storeRemoteBlob fileInfo content =>
    exact hquiet (ops.storeRemoteBlobLocked (sameMarks_completeDownloadIntent fileInfo) trivial id)
  | requestRemoteDownload file source =>
    exact hquiet (ops.persistDownloadIntentLocked (sameMarks_persistDownloadIntent file source))
  | sweepPendingBlobGC => exact hdone hsweep
  | pruneIntermediateTaskData taskID => exact absurd rfl (htasks taskID)

end Collects

/-! ## Runs -/

section Runs

variable {baseDir : CleanPath} {hash : String}
variable {m : Machine Action State}

/-- The operation that holds the lock looks after the hash, or writes no entry
any more. -/
structure Tended (baseDir : CleanPath) (hash : String) (m : Machine Action State) : Prop where
  untasked : m.state.Untasked
  holder : ∀ p, m.holder = some p →
    Collects baseDir hash (fun _ => True) p ∨ LeavesEntries baseDir p

/-- The hash is marked, and the operation that holds the lock looks after it. -/
structure Owed (baseDir : CleanPath) (hash : String) (m : Machine Action State) : Prop where
  marked : m.state.Marked hash
  holder : ∀ p, m.holder = some p → Collects baseDir hash (fun _ => True) p

theorem Tended.apply (hhash : hash ≠ "") (hm : Tended baseDir hash m) (move : EngineMove) :
    Tended baseDir hash (move.apply baseDir m) := by
  obtain ⟨s, holder⟩ := m
  obtain ⟨hs, hholder⟩ := hm
  cases move with
  | acquire op htasks =>
    cases holder with
    | none =>
      refine ⟨hs, fun p hp => .inl ?_⟩
      cases hp
      exact op.collects hhash htasks
    | some p => exact ⟨hs, hholder⟩
  | advance =>
    rcases holder with _ | _ | ⟨e, next⟩
    · exact ⟨hs, hholder⟩
    · exact ⟨hs, fun p hp => by cases hp⟩
    rcases hholder _ rfl with hcollects | hleaves
    · obtain ⟨hupkeep, hnext⟩ := hcollects s hs
      refine ⟨hupkeep.untasked, fun p hp => ?_⟩
      cases hp
      exact hnext.imp id fun hsettled => hsettled.2.2 _
    · refine ⟨(hleaves.1 s).untasked hs, fun p hp => .inr ?_⟩
      cases hp
      exact hleaves.2 _
  | crash => exact ⟨⟨hs.active, hs.history⟩, fun p hp => by cases hp⟩
  | faults failing => exact ⟨⟨hs.active, hs.history⟩, hholder⟩

/-- A move that replaces an entry marks its hash, and what is left of the
operation looks after it. -/
theorem Tended.owed (hm : Tended baseDir hash m) (move : EngineMove)
    (hreplaced : Replaces m.state (move.apply baseDir m).state hash) :
    Owed baseDir hash (move.apply baseDir m) ∨ (move.apply baseDir m).state.Live hash := by
  have hsame : ∀ {s s' : State}, SameEntries s s' → ¬ Replaces s s' hash :=
    fun hentries => hentries.not_replaces
  obtain ⟨s, holder⟩ := m
  obtain ⟨hs, hholder⟩ := hm
  cases move with
  | acquire op htasks => cases holder <;> exact absurd hreplaced (hsame ⟨rfl, rfl, rfl⟩)
  | advance =>
    rcases holder with _ | _ | ⟨e, next⟩
    · exact absurd hreplaced (hsame ⟨rfl, rfl, rfl⟩)
    · exact absurd hreplaced (hsame ⟨rfl, rfl, rfl⟩)
    rcases hholder _ rfl with hcollects | hleaves
    · obtain ⟨hupkeep, hnext | ⟨-, hleaves⟩⟩ := hcollects s hs
      · refine (hupkeep.replaced hreplaced).imp (fun hmarked => ⟨hmarked, fun p hp => ?_⟩) id
        cases hp
        exact hnext
      · exact absurd hreplaced (hsame (hleaves.1 s))
    · exact absurd hreplaced (hsame (hleaves.1 s))
  | crash | faults _ => exact absurd hreplaced (hsame ⟨rfl, rfl, rfl⟩)

theorem Owed.apply (hhash : hash ≠ "") (hm : Owed baseDir hash m) (hs : m.state.Untasked)
    (move : EngineMove) :
    Owed baseDir hash (move.apply baseDir m) ∨ m.state.Live hash ∨
      (move = .advance ∧ nextRemoval baseDir m = some hash) := by
  obtain ⟨s, holder⟩ := m
  obtain ⟨hmarked, hholder⟩ := hm
  cases move with
  | acquire op htasks =>
    left
    cases holder with
    | none =>
      refine ⟨hmarked, fun p hp => ?_⟩
      cases hp
      exact op.collects hhash htasks
    | some p => exact ⟨hmarked, hholder⟩
  | advance =>
    rcases holder with _ | _ | ⟨e, next⟩
    · exact .inl ⟨hmarked, hholder⟩
    · exact .inl ⟨hmarked, fun p hp => by cases hp⟩
    obtain ⟨hupkeep, hnext | ⟨hsettled, -⟩⟩ := hholder _ rfl s hs
    · refine .inl ⟨hupkeep.marked hmarked, fun p hp => ?_⟩
      cases hp
      exact hnext
    · exact .inr (hsettled.imp id fun hremoved => ⟨rfl, hremoved⟩)
  | crash => exact .inl ⟨hmarked, fun p hp => by cases hp⟩
  | faults failing => exact .inl ⟨hmarked, hholder⟩

theorem tended_run (hhash : hash ≠ "") {s : State} (hs : s.Untasked) (moves : List EngineMove) :
    Tended baseDir hash (engineRun baseDir s moves) := by
  induction moves using List.reverseRecOn with
  | nil => exact ⟨hs, fun p hp => by cases hp⟩
  | append_singleton moves move ih =>
    rw [engineRun, List.foldl_append]
    exact ih.apply hhash move

theorem engineRun_append_cons (baseDir : CleanPath) (s : State) (earlier : List EngineMove)
    (move : EngineMove) (later : List EngineMove) :
    engineRun baseDir s (earlier ++ move :: later) =
      later.foldl (fun m move => move.apply baseDir m)
        (move.apply baseDir (engineRun baseDir s earlier)) := by
  rw [engineRun, List.foldl_append]
  rfl

/-- Once an entry with a hash has been replaced, its hash is accounted for at
every later point, whatever happens. -/
theorem replaced_hash_accounted (baseDir : CleanPath) (s : State) (hs : s.Untasked)
    (earlier : List EngineMove) (move : EngineMove) (later : List EngineMove) (hash : String)
    (hhash : hash ≠ "")
    (hreplaced : Replaces (engineRun baseDir s earlier).state
      (engineRun baseDir s (earlier ++ [move])).state hash) :
    AccountedFor baseDir s earlier move later hash := by
  rw [engineRun_append_cons] at hreplaced
  rcases (tended_run hhash hs earlier).owed move hreplaced with howed | hlive
  · -- Later moves, last one first.
    have hlater : Owed baseDir hash (engineRun baseDir s (earlier ++ move :: later)) ∨
        (∃ since, since <+: later ∧
          (engineRun baseDir s (earlier ++ move :: since)).state.Live hash) ∨
        ∃ since rest, later = since ++ .advance :: rest ∧
          nextRemoval baseDir (engineRun baseDir s (earlier ++ move :: since)) = some hash := by
      induction later using List.reverseRecOn with
      | nil =>
        rw [engineRun_append_cons]
        exact .inl howed
      | append_singleton later next ih =>
        rcases ih with howed | ⟨since, hsince, hlive⟩ | ⟨since, rest, rfl, hremoval⟩
        · have htended : Tended baseDir hash (engineRun baseDir s (earlier ++ move :: later)) :=
            tended_run hhash hs _
          rcases howed.apply hhash htended.untasked next with hnext | hlive | ⟨rfl, hremoval⟩
          · left
            rwa [engineRun_append_cons, List.foldl_append, ← engineRun_append_cons]
          · exact .inr (.inl ⟨later, List.prefix_append _ _, hlive⟩)
          · exact .inr (.inr ⟨later, [], rfl, hremoval⟩)
        · exact .inr (.inl ⟨since, hsince.trans (List.prefix_append _ _), hlive⟩)
        · exact .inr (.inr ⟨since, rest ++ [next], by simp, hremoval⟩)
    exact hlater.imp (fun howed => howed.marked) id
  · refine .inr (.inl ⟨[], List.nil_prefix, ?_⟩)
    rwa [engineRun_append_cons]

end Runs

/-- An engine with one file. -/
def State.oneFile (entry : IndexEntry) : State :=
  { State.opened with db := { Database.empty with index := Bucket.empty.put entry.name entry } }

/-- A peer replaces a file and the process dies before the sweep. -/
theorem replaced_hash_accounted_crash :
    AccountedFor dataDir (.oneFile ⟨"f", 3, digestA.text, 1, false⟩)
      [.acquire (.upsertIndex ⟨"f", 0, "", 2, false⟩) nofun, .advance] .advance [.crash]
      digestA.text := by
  refine replaced_hash_accounted dataDir _ ⟨fun _ => rfl, fun _ => rfl⟩ _ _ _ _ (by decide) ?_
  exact ⟨"f", ⟨"f", 3, digestA.text, 1, false⟩, by decide, rfl, by decide⟩

/-- An entry without a hash is replaced without a mark. -/
theorem empty_hash_not_accounted :
    ∃ s : State, s.Untasked ∧ ∃ earlier move,
      Replaces (engineRun dataDir s earlier).state (engineRun dataDir s (earlier ++ [move])).state
        "" ∧ ¬ AccountedFor dataDir s earlier move [] "" := by
  refine ⟨.oneFile ⟨"f", 0, "", 1, false⟩, ⟨fun _ => rfl, fun _ => rfl⟩,
    [.acquire (.upsertIndex ⟨"f", 3, digestA.text, 2, false⟩) nofun, .advance], .advance,
    ⟨"f", ⟨"f", 0, "", 1, false⟩, by decide, rfl, by decide⟩, ?_⟩
  rintro (hmarked | ⟨since, hsince, hlive⟩ | ⟨since, rest, heq, -⟩)
  · exact absurd hmarked (by decide)
  · obtain rfl := List.prefix_nil.1 hsince
    obtain ⟨name, entry, hget, -, hhash⟩ := hlive
    have hentry : (name, entry) = ("f", ⟨"f", 3, digestA.text, 2, false⟩) :=
      List.mem_singleton.1 (Bucket.mem_entries.2 hget)
    rw [(Prod.mk.inj hentry).2] at hhash
    exact absurd hhash (by decide)
  · simp at heq

end Proxyma.Storage
