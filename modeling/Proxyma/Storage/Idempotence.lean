import Proxyma.Storage.IndexEffects

/-!
# Applying an entry from a peer twice

A notification and a one-entry manifest do the same to the index: they store
what the engine makes of the entry (`Receives`).  A second application changes
nothing exactly when the engine makes nothing of the entry the second time.

For an entry with a positive version that is always so: it cannot win against
itself.  A version of zero or less takes the branch of `resolveVFSWrite` that
is meant for local writes.  It is replaced by the successor of the stored
version, so that each application stores a new one, unless `bbolt` refuses a
key it would need.
-/

namespace Proxyma.Storage

open Keyed Atomic Atomic.Prog

variable (baseDir : CleanPath) {entry : IndexEntry}

/-- Processing again after `process` leaves the index as it is, and the upsert
reports no update. -/
structure AppliesOnce {α : Type} (process : Prog Action α) (entry : IndexEntry) (s : State) :
    Prop where
  index : (process.run (engine baseDir) (process.run (engine baseDir) s).2).2.db.index =
    (process.run (engine baseDir) s).2.db.index
  report : ((upsertIndexLocked entry).run (engine baseDir)
    (process.run (engine baseDir) s).2).1.1 = false

/-- The keys that storing the entry twice would write: its name, the hash it
supersedes the first time, and its own hash if it supersedes itself. -/
structure KeysFit (s : State) (entry : IndexEntry) : Prop where
  name : FitsKey entry.name.utf8ByteSize
  superseded : ∀ current, s.db.index.get entry.name = some current →
    current.hash = "" ∨ (entry.deleted = false ∧ current.hash = entry.hash) ∨
      FitsKey current.hash.utf8ByteSize
  hash : entry.deleted = true → entry.hash = "" ∨ FitsKey entry.hash.utf8ByteSize

theorem storeIndex_of_nonpos (index : Bucket String IndexEntry) (hversion : ¬ 0 < entry.version) :
    ∃ version, storeIndex entry index =
      if WriteFits (index.get entry.name) { entry with version := version } entry.name
      then some (index.put entry.name { entry with version := version }) else none := by
  unfold storeIndex
  rcases hget : index.get entry.name with _ | current
  · exact ⟨1, by simp only [effectiveEntry, if_neg hversion, Option.bind_some]⟩
  exact ⟨wrap64 (current.version + 1), by
    simp only [effectiveEntry, if_neg hversion, Option.bind_some]⟩

theorem writeFits_iff (existing : Option IndexEntry) (written : IndexEntry) (name : String) :
    WriteFits existing written name ↔ FitsKey name.utf8ByteSize ∧
      ∀ current, existing = some current →
        current.hash = "" ∨ (written.deleted = false ∧ current.hash = written.hash) ∨
          FitsKey current.hash.utf8ByteSize := by
  unfold WriteFits supersededHash
  rcases existing with _ | current
  · simp
  simp only [Option.bind_some, Option.some.injEq, forall_eq', Bool.not_eq_true']
  split_ifs with hkept
  · tauto
  · simp only [Option.mem_def, Option.some.injEq, forall_eq']
    tauto

theorem storeIndex_twice_of_pos {index index' : Bucket String IndexEntry}
    (hversion : 0 < entry.version) (hstore : storeIndex entry index = some index') :
    storeIndex entry index' = none := by
  obtain ⟨written, heff, hput⟩ := Option.bind_eq_some_iff.1 hstore
  split_ifs at hput
  obtain rfl : written = entry := by
    unfold effectiveEntry at heff
    split at heff
    · rw [if_pos hversion] at heff
      exact (Option.some.inj heff).symm
    · rw [if_pos hversion] at heff
      split_ifs at heff
      exact (Option.some.inj heff).symm
  have hself : compareIndexEntries written written ≤ 0 :=
    (compareIndexEntries_le_zero written written).2 le_rfl
  rw [← Option.some.inj hput, storeIndex, Bucket.get_put, if_pos rfl, effectiveEntry,
    if_pos hversion, if_pos hself, Option.bind_none]

/-- After one application, the engine makes nothing of the entry exactly when
its version is explicit or a write of it is refused. -/
theorem receive_again {s s₁ : State} (h : Receives entry s s₁) :
    s₁.receive entry = none ↔ 0 < entry.version ∨ ¬ (s.Up ∧ KeysFit s entry) := by
  by_cases hup : s.Up
  · obtain ⟨hup₁, hindex₁⟩ := h.up hup
    simp only [State.receive, if_pos hup₁, hup, true_and]
    change s₁.db.index = (storeIndex entry s.db.index).getD s.db.index at hindex₁
    by_cases hversion : 0 < entry.version
    · refine iff_of_true ?_ (.inl hversion)
      rcases hstore : storeIndex entry s.db.index with _ | index'
      · rw [hindex₁, hstore, Option.getD_none, hstore]
      rw [hindex₁, hstore, Option.getD_some]
      exact storeIndex_twice_of_pos hversion hstore
    · simp only [hversion, false_or]
      obtain ⟨version, hfirst⟩ := storeIndex_of_nonpos s.db.index hversion
      by_cases hfits : WriteFits (s.db.index.get entry.name) { entry with version := version }
          entry.name
      · -- The first application is stored, so the second would supersede it.
        rw [if_pos hfits] at hfirst
        rw [hfirst, Option.getD_some] at hindex₁
        obtain ⟨version', hsecond⟩ := storeIndex_of_nonpos s₁.db.index hversion
        rw [hsecond, hindex₁, Bucket.get_put, if_pos rfl]
        rw [writeFits_iff] at hfits
        simp only [writeFits_iff, hfits.1, true_and, Option.some.injEq, forall_eq', and_true,
          ite_eq_right_iff, reduceCtorEq, imp_false, not_iff_not]
        constructor
        · intro hself
          refine ⟨hfits.1, hfits.2, fun hdeleted => ?_⟩
          simpa [hdeleted] using hself
        · intro hkeys
          cases hdeleted : entry.deleted with
          | false => exact .inr (.inl rfl)
          | true => exact (hkeys.hash hdeleted).imp_right .inr
      · rw [if_neg hfits] at hfirst
        refine iff_of_true (by rw [hindex₁, hfirst, Option.getD_none, hfirst]) fun hkeys => hfits ?_
        exact (writeFits_iff _ _ _).2 ⟨hkeys.name, hkeys.superseded⟩
  · have hdown := h.down hup
    refine iff_of_true ?_ (.inr fun hkeys => hup hkeys.1)
    rw [State.receive, if_neg]
    simpa only [State.Up, hdown.faults] using hup

theorem appliesOnce_iff {α : Type} {process : Prog Action α}
    (hprocess : ∀ s, Receives entry s (process.run (engine baseDir) s).2) (s : State) :
    AppliesOnce baseDir process entry s ↔ 0 < entry.version ∨ ¬ (s.Up ∧ KeysFit s entry) := by
  rw [← receive_again (hprocess s)]
  have hreport := (run_upsertIndexLocked baseDir entry (process.run (engine baseDir) s).2).1
  constructor
  · rintro ⟨-, hfalse⟩
    rw [hreport] at hfalse
    exact Option.isNone_iff_eq_none.1 (by simpa using hfalse)
  · intro hnone
    refine ⟨?_, by rw [hreport, hnone]; rfl⟩
    rw [(hprocess _).index, hnone, Option.getD_none]

theorem receives_singleManifest (key : String) (entry : IndexEntry) (source : String) (s : State) :
    Receives entry s ((processRemoteManifestFromSource (Bucket.empty.put key entry) source).run
      (engine baseDir) s).2 := by
  obtain ⟨hfaults, hindex⟩ :=
    run_processRemoteManifestFromSource baseDir (Bucket.empty.put key entry) source s
  refine ⟨hindex.trans ?_, hfaults⟩
  unfold State.receive
  split_ifs <;> rfl

/-- For every index and every entry a peer can send, as a notification or in a
manifest, applying it twice is applying it once exactly when its version is
positive, or the database refuses to store it. -/
theorem remote_application_idempotent_iff (entry : IndexEntry) (source key : String) (s : State) :
    (AppliesOnce baseDir (handleNotification entry source) entry s ↔
      0 < entry.version ∨ ¬ (s.Up ∧ KeysFit s entry)) ∧
    (AppliesOnce baseDir (processRemoteManifestFromSource (Bucket.empty.put key entry) source)
        entry s ↔
      0 < entry.version ∨ ¬ (s.Up ∧ KeysFit s entry)) :=
  ⟨appliesOnce_iff baseDir ((storesFirst_handleNotification baseDir entry source).receives baseDir) s,
    appliesOnce_iff baseDir (receives_singleManifest baseDir key entry source) s⟩

/-- The same notification with version 0 stores version 1, then version 2. -/
theorem notification_version_zero_applies_again :
    let file : IndexEntry := ⟨"f", 3, digestA.text, 0, false⟩
    let process := handleNotification file "peer"
    let once := (process.run (engine dataDir) State.fresh).2
    let twice := (process.run (engine dataDir) once).2
    once.db.index.get "f" = some { file with version := 1 } ∧
      twice.db.index.get "f" = some { file with version := 2 } ∧
      ((upsertIndexLocked file).run (engine dataDir) once).1.1 = true ∧
      ¬ AppliesOnce dataDir process file State.fresh := by
  refine ⟨by decide, by decide, by decide, fun h => ?_⟩
  exact absurd h.report (by decide)

end Proxyma.Storage
