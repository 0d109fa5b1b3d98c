import Proxyma.Storage.Interleaving

/-!
# What the engine unlinks

`DeleteBlob` joins whatever hash it is given to the blob directory and removes
what is there.  The hash comes from the pending list or from an index entry, and
both are filled from what peers send: a peer can name the database itself.

As long as entries and checkpoints name blobs by digests, they do so in every
state (`HashInv`), and nothing but blob files is unlinked.  An entry without a
hash is harmless: its path is the blob directory, which is never empty while the
engine is open.
-/

namespace Proxyma.Storage

open Keyed Atomic Atomic.Prog

variable {baseDir : CleanPath} {hash : String} {disk : Disk}

/-- Whatever disappears in a step is a blob file. -/
def Confined (baseDir : CleanPath) (s s' : State) : Prop :=
  ∀ path, s.disk.Has path → ¬ s'.disk.Has path → ∃ hash : Digest, path = baseDir.join hash.text

/-- An open engine keeps its database in the blob directory. -/
structure Opened (baseDir : CleanPath) (disk : Disk) : Prop where
  directory : baseDir ∉ disk.files
  database : baseDir.join "metadata.db" ∈ disk.files

/-- The invariant: digests everywhere, in an open engine. -/
def DigestsOnly (baseDir : CleanPath) (s : State) : Prop :=
  HashInv s.db ∧ Opened baseDir s.disk

/-- The contract of a confined operation. -/
def confinement (baseDir : CleanPath) : Contract Action State where
  assume := fun _ _ => True
  rely := fun s s' => DigestsOnly baseDir s → DigestsOnly baseDir s'
  guarantee := Confined baseDir

theorem regular_confinement : (confinement baseDir).Regular (DigestsOnly baseDir) where
  refl := fun _ => id
  trans := fun hab hbd ha => hbd (hab ha)
  inv := fun hrely hs => hrely hs

/-! ## The disk -/

theorem confined_of_subset {s s' : State} (hfiles : s.disk.files ⊆ s'.disk.files)
    (hdirs : s'.disk.dirs = s.disk.dirs) : Confined baseDir s s' := by
  intro path hpath hgone
  exact absurd (hpath.imp (fun h => hfiles h) fun h => hdirs ▸ h) hgone

theorem join_ne_self {part : String} (h : CleanPath.Plain part) : baseDir.join part ≠ baseDir := by
  intro heq
  have hlength := congrArg (fun path => path.parts.length) heq
  simp [CleanPath.join_of_plain baseDir h] at hlength

theorem database_ne_blob (hhash : IsDigest hash) :
    baseDir.join "metadata.db" ≠ baseDir.join hash := by
  intro heq
  have hname := CleanPath.join_injective (by decide) hhash.plain heq
  rw [← hname] at hhash
  exact absurd hhash (by decide)

theorem Opened.commit (h : Opened baseDir disk) (hash : Digest) :
    Opened baseDir (disk.commit baseDir hash).2 := by
  refine ⟨fun hmem => ?_, Disk.files_subset_commit disk baseDir hash h.database⟩
  rcases Finset.mem_insert.1 hmem with heq | hmem
  · exact join_ne_self hash.isDigest.plain heq.symm
  · exact h.directory hmem

theorem Opened.hasEntry (h : Opened baseDir disk) : disk.hasEntry baseDir = true := by
  refine decide_eq_true ⟨_, Finset.mem_union_left _ h.database, ?_⟩
  rw [CleanPath.join_of_plain baseDir (by decide)]
  simp

/-- Deleting a digest, or nothing, is confined and leaves the engine open. -/
theorem Opened.deleteBlob (h : Opened baseDir disk) (hhash : HashOk hash) :
    Opened baseDir (disk.deleteBlob baseDir hash).2 ∧
      ∀ path, disk.Has path → ¬ (disk.deleteBlob baseDir hash).2.Has path →
        ∃ digest : Digest, path = baseDir.join digest.text := by
  have hne : baseDir.join "metadata.db" ≠ baseDir.join hash := by
    rcases hhash with rfl | hdigest
    · exact join_ne_self (by decide)
    · exact database_ne_blob hdigest
  refine ⟨⟨fun hmem => h.directory (Disk.files_deleteBlob_subset _ _ _ hmem),
    Disk.mem_files_deleteBlob h.database hne⟩, fun path hpath hgone => ?_⟩
  obtain ⟨rfl, hfile | hempty⟩ := Disk.eq_of_deleteBlob_gone hpath hgone
  all_goals rcases hhash with rfl | hdigest
  · exact absurd hfile h.directory
  · exact ⟨⟨hash, hdigest⟩, rfl⟩
  · simp [show baseDir.join "" = baseDir from rfl, h.hasEntry] at hempty
  · exact ⟨⟨hash, hdigest⟩, rfl⟩

/-! ## The primitives -/

theorem deleteBlob_confined {s : State} (hs : DigestsOnly baseDir s) (caller : Deleter)
    (hhash : HashOk hash) :
    Confined baseDir s ((engine baseDir).exec (.deleteBlob caller hash) s).2 ∧
      DigestsOnly baseDir ((engine baseDir).exec (.deleteBlob caller hash) s).2 := by
  rcases exec_deleteBlob_snd baseDir caller hash s with hexec | hexec <;> rw [hexec]
  · exact ⟨confined_of_subset (Finset.Subset.refl _) rfl, hs⟩
  · obtain ⟨hopened, hgone⟩ := hs.2.deleteBlob hhash
    exact ⟨hgone, hs.1, hopened⟩

theorem primitives_confinement :
    Primitives baseDir (confinement baseDir) (DigestsOnly baseDir) fun _ => True where
  regular := regular_confinement
  hashes := fun hs => hs.1
  commits := fun hs hcommits =>
    ⟨confined_of_subset (Finset.Subset.refl _) rfl, hs.1.commits hcommits, hs.2⟩
  frame := fun {s s'} hs hdb hdisk =>
    ⟨confined_of_subset (hdisk ▸ Finset.Subset.refl _) (hdisk ▸ rfl), hdb ▸ hs.1, hdisk ▸ hs.2⟩
  commit := fun hash => by
    refine regular_confinement.perform fun s hs _ => ?_
    rcases exec_commit_cases baseDir hash s with ⟨err, hexec⟩ | hexec <;> rw [hexec]
    · exact ⟨confined_of_subset (Finset.Subset.refl _) rfl, hs, fun _ => trivial⟩
    · exact ⟨confined_of_subset (Disk.files_subset_commit _ _ _) rfl, ⟨hs.1, hs.2.commit hash⟩,
        fun _ => trivial⟩
  compensate := fun hash _ => by
    refine regular_confinement.perform fun s hs _ => ?_
    obtain ⟨hguar, hinv⟩ := deleteBlob_confined hs .compensate (.inr hash.isDigest)
    exact ⟨hguar, hinv, trivial⟩
  sweep := by
    -- A hash that was pending is a digest, whatever happens to it later.
    refine sweep_keeps regular_confinement (fun _ hash => IsDigest hash)
      (fun _ => confined_of_subset (Finset.Subset.refl _) rfl)
      (fun hs _ hash hpending _ => hs.1.pending hash hpending) (fun _ _ hmark => hmark) ?_ ?_
    · intro s hash hs hmark _
      obtain ⟨hguar, hinv⟩ := deleteBlob_confined hs .sweep (.inr hmark)
      exact ⟨hguar, hinv, fun _ hmark => hmark⟩
    · rintro s _ completed hs ⟨⟩
      exact ⟨confined_of_subset (Finset.Subset.refl _) rfl, hs.1.clear completed, hs.2⟩
  orphan := fun hash subscribedOnly hhash => by
    refine orphan_keeps regular_confinement subscribedOnly
      (fun _ => confined_of_subset (Finset.Subset.refl _) rfl) ?_
    refine regular_confinement.perform fun s hs _ => ?_
    obtain ⟨hguar, hinv⟩ := deleteBlob_confined hs .orphan hhash
    exact ⟨hguar, hinv, trivial⟩

/-! ## Runs -/

/-- In every interleaving of operations whose entries carry digests, the engine
unlinks blob files only. -/
theorem unlinks_confined {s : State} (hs : DigestsOnly baseDir s)
    {m m' : Machine Action State}
    (hrun : Relation.ReflTransGen
      (EngineStep baseDir (fun _ _ => True) fun _ => Unlocked baseDir) s.idle m)
    (hstep : EngineStep baseDir (fun _ _ => True) (fun _ => Unlocked baseDir) m m') :
    Confined baseDir m.state m'.state := by
  have hkeeps : ∀ s s', Unlocked baseDir s s' → DigestsOnly baseDir s → DigestsOnly baseDir s' := by
    intro s s' h hs
    refine ⟨hs.1.unlocked h, ?_⟩
    rcases h.cases with ⟨record, -, rfl⟩ | ⟨hash, rfl⟩ | ⟨_, _, _, _, -, rfl⟩
    · exact hs.2
    · exact hs.2.commit hash
    · exact hs.2
  have henv : ∀ {s s'}, Unlocked baseDir s s' → Confined baseDir s s' :=
    fun h => confined_of_subset h.disk.1 h.disk.2
  rcases engineStep_guarantee primitives_confinement hkeeps hkeeps hs hrun hstep with
    hsame | hguar | hother
  · rw [hsame]
    exact confined_of_subset (Finset.Subset.refl _) rfl
  · exact hguar
  · exact henv hother

/-- The engine of the fixed runs: just opened, in `/data`. -/
def State.opened : State :=
  { State.fresh with disk := ⟨{dataDir.join "metadata.db"}, {dataDir}⟩ }

/-- The same with one blob that waits to be collected. -/
def State.collecting : State :=
  { State.opened with
    db := { Database.empty with pendingBlobGC := Bucket.empty.put digestA.text () }
    disk := (State.opened.disk.commit dataDir digestA).2 }

theorem digestsOnly_collecting : DigestsOnly dataDir State.collecting :=
  ⟨by decide, Opened.commit ⟨by decide, by decide⟩ digestA⟩

/-- A sweep unlinks the blob that waits. -/
theorem unlinks_confined_sweep :
    ∃ m m' : Machine Action State,
      dataDir.join digestA.text ∈ m.state.disk.files ∧
      dataDir.join digestA.text ∉ m'.state.disk.files ∧ Confined dataDir m.state m'.state := by
  refine ⟨_, _, ?_, ?_, unlinks_confined digestsOnly_collecting
    (.tail (.single (.acquire ⟨.sweepPendingBlobGC, trivial, rfl⟩)) (.advance trivial))
    (.advance trivial)⟩
  · decide
  · decide

/-- A peer announces a file whose hash is the name of the database, then
replaces it: the sweep unlinks the database. -/
theorem peer_unlinks_database :
    let first := (handleNotification
      { name := "f", size := 0, hash := "metadata.db", version := 1, deleted := false } "peer").run
      (engine dataDir) State.opened
    let second := (handleNotification
      { name := "f", size := 0, hash := "", version := 2, deleted := false } "peer").run
      (engine dataDir) first.2
    first.2.disk.Has (dataDir.join "metadata.db") ∧
      ¬ second.2.disk.Has (dataDir.join "metadata.db") ∧
      ¬ Confined dataDir first.2 second.2 := by
  intro first second
  have hbefore : first.2.disk.Has (dataDir.join "metadata.db") := by decide
  have hafter : ¬ second.2.disk.Has (dataDir.join "metadata.db") := by decide
  refine ⟨hbefore, hafter, fun hconfined => ?_⟩
  obtain ⟨hash, hpath⟩ := hconfined _ hbefore hafter
  exact database_ne_blob hash.isDigest hpath

end Proxyma.Storage
