import Proxyma.Storage.Confinement

/-!
# Deleting blobs that are in use

Four callers delete blob files.  The sweep respects every kind of reference but
reads them in one transaction and deletes later; the orphan check counts index
entries only; a save that fails takes back the blob it created without looking
at all.  Checkpoints, which add references, do not take the lock.

So a deletion is safe when an orphan is no task's blob, when no save has to be
taken back, and when no checkpoint refers to a pending hash while an operation
holds the lock.  Under these conditions every interleaving deletes unreferenced
blobs only.  What the sweep found stays true until it deletes, because nothing
but a checkpoint can add a reference meanwhile: that is the mark handed to
`sweep_keeps`.
-/

namespace Proxyma.Storage

open Keyed Atomic Atomic.Prog

variable {baseDir : CleanPath}
variable {s s' : State} {hash : String}

/-! ## References -/

/-- A live entry with a subscription refers to a hash. -/
def EntryReference (db : Database) (hash : String) : Prop :=
  ∃ name entry, db.index.get name = some entry ∧ entry.deleted = false ∧ entry.hash = hash ∧
    db.subscriptions.has name = true

/-- A task refers to a hash: an active one anywhere in its record, a finished
one in its payload or its final outputs. -/
def TaskReference (db : Database) (hash : String) : Prop :=
  (∃ id task, db.tasksActive.get id = some task ∧ hash ∈ task.blobHashes) ∨
    ∃ id task, db.tasksHistory.get id = some task ∧ hash ∈ task.finalBlobHashes

/-- Something needs the blob. -/
def Referenced (db : Database) (hash : String) : Prop :=
  EntryReference db hash ∨ TaskReference db hash

/-- A step deletes no blob that something needs. -/
def SafeDeletion (baseDir : CleanPath) (s s' : State) : Prop :=
  ∀ hash : Digest, baseDir.join hash.text ∈ s.disk.files →
    baseDir.join hash.text ∉ s'.disk.files → ¬ Referenced s.db hash.text

theorem safeDeletion_of_subset (hfiles : s.disk.files ⊆ s'.disk.files) :
    SafeDeletion baseDir s s' :=
  fun _ hbefore hafter => absurd (hfiles hbefore) hafter

theorem safeDeletion_deleteBlob (baseDir : CleanPath) (caller : Deleter) (hhash : HashOk hash)
    (hfree : ¬ Referenced s.db hash) :
    SafeDeletion baseDir s ((engine baseDir).exec (.deleteBlob caller hash) s).2 := by
  rcases exec_deleteBlob_snd baseDir caller hash s with hexec | hexec <;> rw [hexec]
  · exact safeDeletion_of_subset (Finset.Subset.refl _)
  intro digest hbefore hafter
  have hpath : baseDir.join digest.text = baseDir.join hash := by
    by_contra hne
    exact hafter (Disk.mem_files_deleteBlob hbefore hne)
  rcases hhash with rfl | hdigest
  · exact absurd hpath (join_ne_self digest.isDigest.plain)
  · rwa [CleanPath.join_injective digest.isDigest.plain hdigest.plain hpath]

/-- A count of zero, of all entries or of the subscribed ones, rules out a
reference by an entry. -/
theorem not_entryReference {db : Database} {subscribedOnly : Bool}
    (hcount : countHashRefs hash subscribedOnly db = 0) : ¬ EntryReference db hash := by
  rintro ⟨name, entry, hget, hlive, hhash, hsub⟩
  have hnone := countHashRefs_eq_zero.1 hcount name entry hget
  simp [countsAsRef, hlive, hhash, hsub] at hnone

/-! ## The conditions -/

/-- No orphan deletion of a task's blob, and no save that is taken back. -/
def Deliberate : {β : Type} → Action β → State → Prop
  | _, .deleteBlob .orphan hash, s => ¬ TaskReference s.db hash
  | _, .deleteBlob .compensate _, _ => False
  | _, _, _ => True

/-- What may happen beside an operation: while it holds the lock, no checkpoint
refers to a pending hash. -/
def Considerate (baseDir : CleanPath) (held : Bool) (s s' : State) : Prop :=
  Unlocked baseDir s s' ∧ (held = true → ∀ hash, s.db.pendingBlobGC.has hash = true →
    TaskReference s'.db hash → TaskReference s.db hash)

/-- The contract of a safe operation. -/
def blobSafety (baseDir : CleanPath) : Contract Action State where
  assume := Deliberate
  rely := fun s s' =>
    (HashInv s.db → HashInv s'.db) ∧ s'.db.index = s.db.index ∧
      s'.db.subscriptions = s.db.subscriptions ∧ s'.db.pendingBlobGC = s.db.pendingBlobGC ∧
      ∀ hash, s.db.pendingBlobGC.has hash = true → TaskReference s'.db hash →
        TaskReference s.db hash
  guarantee := SafeDeletion baseDir

theorem regular_blobSafety : (blobSafety baseDir).Regular fun s => HashInv s.db where
  refl := fun _ => ⟨id, rfl, rfl, rfl, fun _ _ => id⟩
  trans := by
    rintro a b d ⟨hinv, hindex, hsubs, hpending, htask⟩ ⟨hinv', hindex', hsubs', hpending', htask'⟩
    refine ⟨hinv' ∘ hinv, hindex'.trans hindex, hsubs'.trans hsubs, hpending'.trans hpending,
      fun hash hhash href => htask hash hhash (htask' hash ?_ href)⟩
    rwa [hpending]
  inv := fun hrely hs => hrely.1 hs

theorem Considerate.rely (h : Considerate baseDir true s s') : (blobSafety baseDir).rely s s' :=
  ⟨fun hs => hs.unlocked h.1, h.1.vfs.1, h.1.vfs.2.1, h.1.vfs.2.2, h.2 rfl⟩

/-! ## The primitives -/

/-- What the sweep found out about a hash it is going to delete. -/
structure Collectable (s : State) (hash : String) : Prop where
  isDigest : IsDigest hash
  pending : s.db.pendingBlobGC.has hash = true
  entries : ∀ name entry, s.db.index.get name = some entry → entry.deleted = false →
    entry.hash ≠ hash
  tasks : ¬ TaskReference s.db hash

theorem Collectable.not_referenced (h : Collectable s hash) : ¬ Referenced s.db hash := by
  rintro (⟨name, entry, hget, hlive, hhash, -⟩ | htask)
  · exact h.entries name entry hget hlive hhash
  · exact h.tasks htask

theorem Collectable.of_scan (hs : HashInv s.db) (hpending : s.db.pendingBlobGC.has hash = true)
    (href : sweepReferences s.db hash = false) : Collectable s hash := by
  obtain ⟨hentries, hactive, hhistory⟩ := sweepReferences_eq_false.1 href
  refine ⟨hs.pending hash hpending, hpending, hentries, ?_⟩
  rintro (⟨id, task, hget, hmem⟩ | ⟨id, task, hget, hmem⟩)
  · exact hactive id task hget hmem
  · exact hhistory id task hget hmem

theorem Collectable.rely (hrely : (blobSafety baseDir).rely s s') (h : Collectable s hash) :
    Collectable s' hash := by
  obtain ⟨-, hindex, -, hpending, htask⟩ := hrely
  exact ⟨h.isDigest, hpending ▸ h.pending, hindex ▸ h.entries,
    fun href => h.tasks (htask hash h.pending href)⟩

theorem sweep_blobSafety : Keeps (engine baseDir) (blobSafety baseDir) (fun s => HashInv s.db)
    (fun _ => True) sweepPendingBlobGCLocked := by
  refine sweep_keeps regular_blobSafety Collectable
    (fun _ => safeDeletion_of_subset (Finset.Subset.refl _))
    (fun hs _ hash hpending href => .of_scan hs hpending href)
    (fun hrely _ hmark => hmark.rely hrely) ?_ ?_
  · intro s hash hs hmark _
    have hguar := safeDeletion_deleteBlob baseDir .sweep (.inr hmark.isDigest)
      hmark.not_referenced
    rcases exec_deleteBlob_snd baseDir .sweep hash s with hexec | hexec <;> rw [hexec] at hguar ⊢
    · exact ⟨hguar, hs, fun _ => id⟩
    · exact ⟨hguar, hs, fun _ h => ⟨h.isDigest, h.pending, h.entries, h.tasks⟩⟩
  · rintro s _ completed hs ⟨⟩
    exact ⟨safeDeletion_of_subset (Finset.Subset.refl _), hs.clear completed⟩

/-- The orphan check rules out entries, the condition rules out tasks. -/
theorem orphan_blobSafety (subscribedOnly : Bool) (hhash : HashOk hash) :
    Keeps (engine baseDir) (blobSafety baseDir) (fun s => HashInv s.db) (fun _ => True)
      (deleteBlobIfOrphan hash subscribedOnly) := by
  refine fun s hs => safe_perform_bind fun s₁ hrely₁ _ => ?_
  have hs₁ := hrely₁.1 hs
  have hdone : ∀ {t : State} (err : Option GoError), HashInv t.db →
      Safe (engine baseDir) (blobSafety baseDir) (fun _ s => True ∧ HashInv s.db) (.ret err) t :=
    fun err ht t' hrely => ⟨trivial, hrely.1 ht⟩
  rcases exec_view_cases baseDir (fun db => .ok (countHashRefs hash subscribedOnly db)) s₁ with
    ⟨err, hexec⟩ | hexec <;> rw [hexec] <;>
    refine ⟨safeDeletion_of_subset (Finset.Subset.refl _), ?_⟩
  · exact hdone _ hs₁
  dsimp only
  split_ifs with hcount
  · exact hdone _ hs₁
  intro s₂ hrely₂ hassume
  obtain ⟨hinv, hindex, hsubs, -, -⟩ := hrely₂
  have hentry : ¬ EntryReference s₂.db hash := by
    rw [EntryReference, hindex, hsubs]
    exact not_entryReference (Nat.eq_zero_of_not_pos hcount)
  refine ⟨safeDeletion_deleteBlob baseDir .orphan hhash (not_or.2 ⟨hentry, hassume⟩), ?_⟩
  rcases exec_deleteBlob_snd baseDir .orphan hash s₂ with hexec | hexec <;> rw [hexec] <;>
    exact hdone _ (hinv hs₁)

theorem primitives_blobSafety :
    Primitives baseDir (blobSafety baseDir) (fun s => HashInv s.db) fun _ => True where
  regular := regular_blobSafety
  hashes := fun hs => hs
  commits := fun hs hcommits =>
    ⟨safeDeletion_of_subset (Finset.Subset.refl _), hs.commits hcommits⟩
  frame := fun {s s'} hs hdb hdisk =>
    ⟨safeDeletion_of_subset (hdisk ▸ Finset.Subset.refl _), hdb ▸ hs⟩
  commit := fun hash => by
    refine regular_blobSafety.perform fun s hs _ => ?_
    rcases exec_commit_cases baseDir hash s with ⟨err, hexec⟩ | hexec <;> rw [hexec]
    · exact ⟨safeDeletion_of_subset (Finset.Subset.refl _), hs, fun _ => trivial⟩
    · exact ⟨safeDeletion_of_subset (Disk.files_subset_commit _ _ _), hs, fun _ => trivial⟩
  compensate := fun _ _ => regular_blobSafety.perform fun _ _ hassume => hassume.elim
  sweep := sweep_blobSafety
  orphan := fun _ subscribedOnly hhash => orphan_blobSafety subscribedOnly hhash

/-! ## Runs -/

/-- In every interleaving that meets the conditions, a blob is deleted only
while nothing refers to it. -/
theorem deletes_unreferenced {s : State} (hs : HashInv s.db) {m m' : Machine Action State}
    (hrun : Relation.ReflTransGen (EngineStep baseDir Deliberate (Considerate baseDir)) s.idle m)
    (hstep : EngineStep baseDir Deliberate (Considerate baseDir) m m') :
    SafeDeletion baseDir m.state m'.state := by
  have hheld : ∀ s s', Considerate baseDir true s s' → (blobSafety baseDir).rely s s' :=
    fun _ _ h => h.rely
  have hfree : ∀ s s', Considerate baseDir false s s' → HashInv s.db → HashInv s'.db :=
    fun _ _ h hs => hs.unlocked h.1
  rcases engineStep_guarantee primitives_blobSafety hheld hfree hs hrun hstep with
    hsame | hguar | hother
  · exact safeDeletion_of_subset (hsame ▸ Finset.Subset.refl _)
  · exact hguar
  · exact safeDeletion_of_subset hother.1.disk.1

/-- A sweep deletes the blob that waits, which nothing needs. -/
theorem deletes_unreferenced_sweep :
    ∃ m m' : Machine Action State,
      dataDir.join digestA.text ∈ m.state.disk.files ∧
      dataDir.join digestA.text ∉ m'.state.disk.files ∧ SafeDeletion dataDir m.state m'.state := by
  refine ⟨_, _, ?_, ?_, deletes_unreferenced digestsOnly_collecting.1
    (.tail (.single (.acquire ⟨.sweepPendingBlobGC, trivial, rfl⟩)) (.advance trivial))
    (.advance trivial)⟩
  · decide
  · decide

/-- A task that works on the blob `aa…a`. -/
def inputCheckpoint : TaskJournalRecord :=
  { taskID := "t", status := "running", payload := some [("input", .string digestA.text)] }

/-- An operation from this state may delete a blob that something needs. -/
def LosesBlob (s : State) (op : Operation) : Prop :=
  ∃ m m' : Machine Action State,
    Relation.ReflTransGen (EngineStep dataDir (fun _ _ => True) fun _ => Unlocked dataDir)
      ⟨s, some op.locked⟩ m ∧
    EngineStep dataDir (fun _ _ => True) (fun _ => Unlocked dataDir) m m' ∧
    ¬ SafeDeletion dataDir m.state m'.state

/-- A saved file that is also the input of an active task. -/
def State.working : State :=
  ((appendTaskCheckpoint inputCheckpoint 1).run (engine dataDir)
    ((saveLocalFile "f" ⟨digestA, 3⟩).run (engine dataDir) State.opened).2).2

/-- A subscribed file whose blob has not arrived yet. -/
def State.awaiting : State :=
  ((setSubscriptionLocked "f" true).run (engine dataDir)
    ((upsertIndexLocked ⟨"f", 3, digestA.text, 1, false⟩).run (engine dataDir) State.opened).2).2

/-- Each condition is needed: a purge deletes the input of a task, a sweep deletes
a blob that a checkpoint has just referred to, and a save without a name takes
back the blob of another file. -/
theorem operations_lose_blobs :
    LosesBlob State.working (.deleteLocalCache "f") ∧
      LosesBlob State.collecting .sweepPendingBlobGC ∧
      LosesBlob State.awaiting (.saveLocalFile "" ⟨digestA, 3⟩) := by
  have hadvance : ∀ {s : State} {β : Type} {e : Action β} {next : β → Prog Action Unit},
      EngineStep dataDir (fun _ _ => True) (fun _ => Unlocked dataDir) ⟨s, some (.act e next)⟩
        ⟨((engine dataDir).exec e s).2, some (next ((engine dataDir).exec e s).1)⟩ :=
    .advance trivial
  refine ⟨?_, ?_, ?_⟩
  · refine ⟨_, _, .tail (.tail (.single hadvance) hadvance) hadvance, hadvance, fun hsafe => ?_⟩
    exact hsafe digestA (by decide) (by decide) (.inr (.inl ⟨"t", _, rfl, by decide⟩))
  · refine ⟨_, _, .tail (.single hadvance) (.interfere (.appendTaskCheckpoint _ inputCheckpoint 1
      (fun h hmem => absurd hmem List.not_mem_nil))), hadvance, fun hsafe => ?_⟩
    exact hsafe digestA (by decide) (by decide) (.inr (.inl ⟨"t", _, rfl, by decide⟩))
  · refine ⟨_, _, .tail (.tail (.tail (.tail (.single hadvance) hadvance) hadvance) hadvance)
      hadvance, hadvance, fun hsafe => ?_⟩
    exact hsafe digestA (by decide) (by decide) (.inl ⟨"f", _, rfl, rfl, rfl, by decide⟩)

end Proxyma.Storage
