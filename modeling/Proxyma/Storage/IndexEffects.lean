import Proxyma.Storage.Traversal

/-!
# Effects on the index

Of the actions an operation performs, at most one writes the index; collecting
blobs, notifying and keeping track of downloads leave it alone.  `SameIndex` is
that frame.  With it, what an operation does to the index is what its one
transaction does: `storeIndex` for an entry from a peer
(`run_upsertIndexLocked` and the operations built on it), `localWrite` for a
local save or deletion.
-/

namespace Proxyma.Storage

open Keyed Atomic Atomic.Prog GoError

variable (baseDir : CleanPath) {α : Type} {write : Database → Except GoError (α × Database)}
variable {entry : IndexEntry} {s s' s'' : State} {p : Prog Action α}

/-! ## Frames -/

/-- The index and the failing calls are as before. -/
structure SameIndex (s s' : State) : Prop where
  index : s'.db.index = s.db.index
  faults : s'.faults = s.faults

theorem SameIndex.refl (s : State) : SameIndex s s := ⟨rfl, rfl⟩

theorem SameIndex.trans {a b c : State} (hab : SameIndex a b) (hbc : SameIndex b c) :
    SameIndex a c :=
  ⟨hbc.index.trans hab.index, hbc.faults.trans hab.faults⟩

theorem sameIndex_update
    (hwrite : ∀ db result db', write db = .ok (result, db') → db'.index = db.index) (s : State) :
    SameIndex s ((engine baseDir).exec (.update write) s).2 :=
  exec_update_keeps baseDir (.refl s) fun hok => ⟨hwrite _ _ _ hok, rfl⟩

theorem aside_sameIndex : Aside SameIndex := fun _ _ hdb hfaults => ⟨by rw [hdb], hfaults⟩

theorem only_sweepDeletes {keeps : State → State → Prop}
    (hdelete : ∀ hash s, keeps s ((engine baseDir).exec (.deleteBlob .sweep hash) s).2)
    (pending : List (String × Bool)) (completed : List String) (sweepErr : Option GoError) :
    Only (engine baseDir) keeps (sweepDeletes pending completed sweepErr) := by
  induction pending generalizing completed sweepErr with
  | nil => trivial
  | cons head rest ih =>
    obtain ⟨hash, referenced⟩ := head
    cases referenced with
    | true => exact ih _ _
    | false =>
      refine ⟨hdelete hash, fun err => ?_⟩
      cases err <;> exact ih _ _

/-- The sweep deletes files and clears pending flags, and does nothing else. -/
theorem only_sweepPendingBlobGCLocked {keeps : State → State → Prop} (hrefl : ∀ s, keeps s s)
    (hdelete : ∀ hash s, keeps s ((engine baseDir).exec (.deleteBlob .sweep hash) s).2)
    (hclear : ∀ completed s,
      keeps s ((engine baseDir).exec (.update (clearPendingBlobGCTx completed)) s).2) :
    Only (engine baseDir) keeps sweepPendingBlobGCLocked := by
  refine ⟨fun s => by simpa using hrefl s, fun scanned => ?_⟩
  rcases scanned with _ | _ | ⟨head, rest⟩
  · trivial
  · trivial
  refine (only_sweepDeletes baseDir hdelete _ _ _).bind fun out => ?_
  obtain ⟨_ | ⟨hash, completed⟩, sweepErr⟩ := out
  · trivial
  · refine ⟨hclear _, fun cleared => ?_⟩
    cases cleared <;> trivial

theorem sameIndex_sweep : Only (engine baseDir) SameIndex sweepPendingBlobGCLocked := by
  refine only_sweepPendingBlobGCLocked baseDir SameIndex.refl
    (fun hash => (aside_sameIndex.deleteBlob .sweep hash).1) fun completed => ?_
  refine sameIndex_update baseDir fun db result db' hok => ?_
  cases hok
  rfl

/-! ## Entries from peers -/

/-- The database answers. -/
def State.Up (s : State) : Prop := s.faults.view = none ∧ s.faults.update = none

instance (s : State) : Decidable s.Up := inferInstanceAs (Decidable (_ ∧ _))

instance (existing : Option IndexEntry) (written : IndexEntry) (name : String) :
    Decidable (WriteFits existing written name) := inferInstanceAs (Decidable (_ ∧ _))

/-- The index once an entry has been stored in it, or `none` if the entry does
not win or its keys do not fit. -/
def storeIndex (entry : IndexEntry) (index : Bucket String IndexEntry) :
    Option (Bucket String IndexEntry) :=
  (effectiveEntry (index.get entry.name) entry).bind fun written =>
    if WriteFits (index.get entry.name) written entry.name then some (index.put entry.name written)
    else none

theorem storeIndex_eq_some {index index' : Bucket String IndexEntry}
    (h : storeIndex entry index = some index') :
    ∃ written, effectiveEntry (index.get entry.name) entry = some written ∧
      FitsKey entry.name.utf8ByteSize ∧ index' = index.put entry.name written := by
  obtain ⟨written, heff, hstore⟩ := Option.bind_eq_some_iff.1 h
  split_ifs at hstore with hfits
  exact ⟨written, heff, hfits.1, (Option.some.inj hstore).symm⟩

/-- What an engine in state `s` makes of an entry: the new index, if it stores it. -/
def State.receive (s : State) (entry : IndexEntry) : Option (Bucket String IndexEntry) :=
  if s.Up then storeIndex entry s.db.index else none

theorem upsertTx_storeIndex (entry : IndexEntry) (db : Database) :
    (storeIndex entry db.index = none ∧
      ((effectiveEntry (db.index.get entry.name) entry = none ∧
          upsertTx entry db = .ok (false, db)) ∨ ∃ err, upsertTx entry db = .error err)) ∨
    ∃ db', storeIndex entry db.index = some db'.index ∧ upsertTx entry db = .ok (true, db') := by
  unfold storeIndex
  rcases upsert_cases entry db with ⟨current, hget, heff, htx, -⟩ |
    ⟨written, heff, ⟨hfits, htx, -⟩ | ⟨hfits, herr, -⟩⟩
  · exact .inl ⟨by simp [hget, heff], .inl ⟨hget ▸ heff, htx⟩⟩
  · exact .inr ⟨_, by simp [heff, hfits, Database.write], htx⟩
  · exact .inl ⟨by simp [heff, hfits], .inr herr⟩

theorem run_get (name : String) (s : State) :
    (∃ err, s.faults.view = some err ∧ (get name).run (engine baseDir) s = (.error err, s)) ∨
      (s.faults.view = none ∧
        (get name).run (engine baseDir) s = (.ok (s.db.index.get name), s)) := by
  cases hview : s.faults.view with
  | some err => exact .inl ⟨err, rfl, by simp [get, engine, exec, orFault, hview]⟩
  | none => exact .inr ⟨rfl, by simp [get, engine, exec, orFault, hview]⟩

/-- The upsert transaction stores what the engine makes of the entry. -/
theorem run_upsert (entry : IndexEntry) (hview : s.faults.view = none) :
    (s.receive entry = none ∧
      ((∃ err, (upsert entry).run (engine baseDir) s = (.error err, s)) ∨
        (effectiveEntry (s.db.index.get entry.name) entry = none ∧
          (upsert entry).run (engine baseDir) s = (.ok false, s)))) ∨
    ∃ db, s.receive entry = some db.index ∧
      (upsert entry).run (engine baseDir) s = (.ok true, { s with db := db }) := by
  simp only [State.receive, State.Up, hview, true_and, upsert, run_perform, engine, exec, orFault]
  cases hupdate : s.faults.update with
  | some err => exact .inl ⟨by simp, .inl ⟨err, rfl⟩⟩
  | none =>
    rcases upsertTx_storeIndex entry s.db with ⟨hnone, ⟨heff, htx⟩ | ⟨err, htx⟩⟩ | ⟨db, hsome, htx⟩
    · exact .inl ⟨by simpa using hnone, .inr ⟨heff, by simp [htx]⟩⟩
    · exact .inl ⟨by simpa using hnone, .inl ⟨err, by simp [htx]⟩⟩
    · exact .inr ⟨db, by simpa using hsome, by simp [htx]⟩

/-- An operation stored what the engine makes of an entry. -/
structure Receives (entry : IndexEntry) (s s' : State) : Prop where
  index : s'.db.index = (s.receive entry).getD s.db.index
  faults : s'.faults = s.faults

theorem Receives.sameIndex (h : Receives entry s s') (hsame : SameIndex s' s'') :
    Receives entry s s'' :=
  ⟨hsame.index.trans h.index, hsame.faults.trans h.faults⟩

theorem receives_of_none (h : s.receive entry = none) : Receives entry s s :=
  ⟨by simp [h], rfl⟩

/-- `upsertIndexLocked` reports an update exactly when it stores the entry, and an error
unless it does or the entry does not win. -/
theorem run_upsertIndexLocked (entry : IndexEntry) (s : State) :
    let out := (upsertIndexLocked entry).run (engine baseDir) s
    out.1.1 = (s.receive entry).isSome ∧ Receives entry s out.2 ∧
      (out.1.2 = none → s.receive entry = none →
        effectiveEntry (s.db.index.get entry.name) entry = none) := by
  simp only [upsertIndexLocked, run_bind]
  rcases run_get baseDir entry.name s with ⟨err, hview, hget⟩ | ⟨hview, hget⟩
  · have hnone : s.receive entry = none := by simp [State.receive, State.Up, hview]
    simp only [hget, hnone]
    exact ⟨rfl, receives_of_none hnone, by simp⟩
  · simp only [hget, run_bind]
    rcases run_upsert baseDir entry hview with
      ⟨hnone, ⟨err, hrun⟩ | ⟨heff, hrun⟩⟩ | ⟨db, hsome, hrun⟩
    · simp only [hrun, hnone]
      exact ⟨rfl, receives_of_none hnone, by simp⟩
    · simp only [hrun, hnone]
      exact ⟨rfl, receives_of_none hnone, fun _ _ => heff⟩
    have hstored : Receives entry s { s with db := db } := ⟨by simp [hsome], rfl⟩
    have hswept := hstored.sameIndex
      ((sameIndex_sweep baseDir).run SameIndex.refl SameIndex.trans _)
    simp only [hrun, run_bind, hsome]
    cases (sweepPendingBlobGCLocked.run (engine baseDir) { s with db := db }).1 <;>
      exact ⟨rfl, hswept, by simp⟩

/-- What follows without touching the index does not matter. -/
theorem sameIndex_bind {β : Type} {g : α → Prog Action β} (s : State)
    (hg : ∀ a, Only (engine baseDir) SameIndex (g a)) :
    SameIndex (p.run (engine baseDir) s).2 ((p >>= g).run (engine baseDir) s).2 := by
  rw [run_bind]
  exact (hg _).run SameIndex.refl SameIndex.trans _

/-! What the operations of peers do besides storing an entry is bookkeeping: they
read, look at files, and persist or complete download intents. -/

/-- A relation kept by all bookkeeping. -/
structure Bookkeeping (keeps : State → State → Prop) : Prop where
  aside : Aside keeps
  persist : ∀ file source s,
    keeps s ((engine baseDir).exec (.update (persistDownloadIntentTx file source)) s).2
  complete : ∀ file s,
    keeps s ((engine baseDir).exec (.update (completeDownloadIntentTx file)) s).2

namespace Bookkeeping

variable {baseDir} {keeps : State → State → Prop}

theorem downloads (book : Bookkeeping baseDir keeps) (critical : Downloads → α × Downloads) :
    Only (engine baseDir) keeps (perform (.downloads critical)) :=
  book.aside.action fun _ => ⟨rfl, rfl⟩

theorem blobExists (book : Bookkeeping baseDir keeps) (hash : String) :
    Only (engine baseDir) keeps (perform (.blobExists hash)) :=
  book.aside.action fun s => by
    simp only [engine, exec, orFault]
    cases (if isValidCASHash hash then s.faults.blobExists else none) <;> exact ⟨rfl, rfl⟩

theorem completeDownloadIntent (book : Bookkeeping baseDir keeps) (file : IndexEntry) :
    Only (engine baseDir) keeps (completeDownloadIntent file) :=
  (operative_only book.aside).completeDownloadIntent (only_perform (book.complete file))

theorem requestRemoteDownload (book : Bookkeeping baseDir keeps) (file : IndexEntry)
    (source : String) : Only (engine baseDir) keeps (requestRemoteDownload file source) := by
  refine Only.bind ?_ fun err => ?_
  · exact (operative_only book.aside).persistDownloadIntentLocked
      (only_perform (book.persist file source))
  rcases err with _ | err
  swap
  · trivial
  refine (book.downloads _).bind fun reserved => ?_
  obtain ⟨token, _ | _⟩ := reserved
  · trivial
  have hcall : Only (engine baseDir) keeps (perform (.onDownloadNeeded file source)) :=
    book.aside.action fun _ => ⟨rfl, rfl⟩
  refine hcall.bind fun err => ?_
  cases err with
  | some err => exact (book.downloads _).bind fun _ => trivial
  | none => trivial

theorem requestMissing (book : Bookkeeping baseDir keeps) (source : String)
    (files : List IndexEntry) (err : Option GoError) :
    Only (engine baseDir) keeps (requestMissing source files err) := by
  induction files generalizing err with
  | nil => trivial
  | cons file rest ih =>
    refine (book.requestRemoteDownload file source).bind fun err => ?_
    cases err <;> exact ih _

end Bookkeeping

theorem bookkeeping_sameIndex : Bookkeeping baseDir SameIndex where
  aside := aside_sameIndex
  persist := fun file source => sameIndex_update baseDir fun db result db' hok => by
    rcases persistDownloadIntentTx_cases file source db with ⟨err, htx⟩ | ⟨-, -, -, -, htx⟩ <;>
      rw [htx] at hok <;> cases hok
    rfl
  complete := fun file => sameIndex_update baseDir fun db result db' hok => by
    obtain ⟨intents, htx⟩ := completeDownloadIntentTx_eq file db
    cases htx.symm.trans hok
    rfl

/-- A program stores an entry, and then only keeps books. -/
def StoresFirst (entry : IndexEntry) (p : Prog Action α) : Prop :=
  ∃ g : Bool × Option GoError → Prog Action α, p = (upsertIndexLocked entry >>= g) ∧
    ∀ {keeps : State → State → Prop}, Bookkeeping baseDir keeps →
      ∀ out, Only (engine baseDir) keeps (g out)

theorem StoresFirst.receives (h : StoresFirst baseDir entry p) (s : State) :
    Receives entry s (p.run (engine baseDir) s).2 := by
  obtain ⟨g, rfl, hg⟩ := h
  exact (run_upsertIndexLocked baseDir entry s).2.1.sameIndex
    (sameIndex_bind baseDir s (hg (bookkeeping_sameIndex baseDir)))

theorem StoresFirst.bind {β : Type} {f : α → Prog Action β} (h : StoresFirst baseDir entry p)
    (hf : ∀ {keeps : State → State → Prop}, Bookkeeping baseDir keeps →
      ∀ a, Only (engine baseDir) keeps (f a)) : StoresFirst baseDir entry (p >>= f) := by
  obtain ⟨g, rfl, hg⟩ := h
  exact ⟨_, bind_assoc _ _ _, fun book out => (hg book out).bind (hf book)⟩

theorem storesFirst_processRemoteDeletion (fileInfo : IndexEntry) :
    StoresFirst baseDir fileInfo (processRemoteDeletionLocked fileInfo) := by
  refine ⟨_, rfl, fun book => ?_⟩
  rintro ⟨updated, _ | err⟩
  swap
  · trivial
  refine (book.aside.view _).bind ?_
  rintro (err | current)
  · trivial
  dsimp only
  split_ifs
  · exact book.completeDownloadIntent fileInfo
  · trivial

theorem storesFirst_processManifestEntry (remoteFileInfo : IndexEntry) :
    StoresFirst baseDir remoteFileInfo (processManifestEntry remoteFileInfo) := by
  refine ⟨_, rfl, fun book => ?_⟩
  rintro ⟨updated, _ | err⟩
  swap
  · trivial
  refine (book.aside.view _).bind ?_
  rintro (err | current)
  · trivial
  dsimp only
  split_ifs
  · trivial
  refine (book.aside.view _).bind ?_
  rintro (err | _ | _)
  · trivial
  · trivial
  refine (book.blobExists _).bind ?_
  rintro (err | hasBlob)
  · trivial
  · dsimp only
    split_ifs <;> trivial

theorem storesFirst_handleNotification (file : IndexEntry) (source : String) :
    StoresFirst baseDir file (handleNotification file source) := by
  unfold handleNotification
  split_ifs
  · refine (storesFirst_processRemoteDeletion baseDir file).bind baseDir fun _ err => ?_
    cases err <;> trivial
  refine ⟨_, rfl, fun book => ?_⟩
  rintro ⟨updated, _ | err⟩
  swap
  · trivial
  refine (book.aside.view _).bind ?_
  rintro (err | current)
  · trivial
  dsimp only
  split_ifs
  · trivial
  refine (book.aside.view _).bind ?_
  rintro (err | _ | _)
  · trivial
  · trivial
  refine (book.blobExists _).bind ?_
  rintro (err | _ | _)
  · trivial
  · refine (book.requestRemoteDownload file source).bind ?_
    rintro (_ | err)
    · trivial
    · dsimp only
      split_ifs <;> trivial
  · trivial

/-- The index after the entries of a manifest, one after the other. -/
def storeAll (entries : List IndexEntry) (index : Bucket String IndexEntry) :
    Bucket String IndexEntry :=
  entries.foldl (fun index entry => (storeIndex entry index).getD index) index

theorem Receives.up (h : Receives entry s s') (hup : s.Up) :
    s'.Up ∧ s'.db.index = storeAll [entry] s.db.index := by
  refine ⟨by simpa only [State.Up, h.faults] using hup, ?_⟩
  rw [h.index, State.receive, if_pos hup]
  rfl

theorem Receives.down (h : Receives entry s s') (hup : ¬ s.Up) : SameIndex s s' :=
  ⟨by rw [h.index, State.receive, if_neg hup]; rfl, h.faults⟩

/-- A manifest stores its entries in order; a database that is down stores none. -/
theorem run_processManifestEntries (entries missing : List IndexEntry) (err : Option GoError)
    (s : State) :
    let s' := ((processManifestEntries entries missing err).run (engine baseDir) s).2
    s'.faults = s.faults ∧
      s'.db.index = if s.Up then storeAll entries s.db.index else s.db.index := by
  induction entries generalizing missing err s with
  | nil =>
    refine ⟨rfl, ?_⟩
    split_ifs <;> rfl
  | cons entry rest ih =>
    -- Whichever branch handles the entry, it is received once and the loop goes on.
    obtain ⟨s₁, missing₁, err₁, hreceive, hrest⟩ : ∃ s₁ missing₁ err₁, Receives entry s s₁ ∧
        ((processManifestEntries (entry :: rest) missing err).run (engine baseDir) s).2 =
          ((processManifestEntries rest missing₁ err₁).run (engine baseDir) s₁).2 := by
      rw [processManifestEntries]
      split_ifs
      · have hdeletion := (storesFirst_processRemoteDeletion baseDir entry).receives baseDir s
        rw [run_bind]
        cases ((processRemoteDeletionLocked entry).run (engine baseDir) s).1 <;>
          exact ⟨_, _, _, hdeletion, rfl⟩
      · rw [run_bind]
        exact ⟨_, _, _, (storesFirst_processManifestEntry baseDir entry).receives baseDir s, rfl⟩
    obtain ⟨hfaults, hindex⟩ := ih missing₁ err₁ s₁
    simp only [hrest]
    refine ⟨hfaults.trans hreceive.faults, hindex.trans ?_⟩
    by_cases hup : s.Up
    · obtain ⟨hup₁, hindex₁⟩ := hreceive.up hup
      rw [if_pos hup, if_pos hup₁, hindex₁]
      rfl
    · have hsame := hreceive.down hup
      have hup₁ : ¬ s₁.Up := by simpa only [State.Up, hsame.faults] using hup
      rw [if_neg hup, if_neg hup₁, hsame.index]

theorem run_processRemoteManifestFromSource (manifest : Bucket String IndexEntry) (source : String)
    (s : State) :
    let s' := ((processRemoteManifestFromSource manifest source).run (engine baseDir) s).2
    s'.faults = s.faults ∧
      s'.db.index =
        if s.Up then storeAll (manifest.entries.map Prod.snd) s.db.index else s.db.index := by
  obtain ⟨hfaults, hindex⟩ :=
    run_processManifestEntries baseDir (manifest.entries.map Prod.snd) [] none s
  simp only [processRemoteManifestFromSource, processRemoteManifestE, run_bind]
  have hmissing := fun files err s =>
    ((bookkeeping_sameIndex baseDir).requestMissing source files err).run
      SameIndex.refl SameIndex.trans s
  exact ⟨(hmissing _ _ _).faults.trans hfaults, (hmissing _ _ _).index.trans hindex⟩

/-! ## Local mutations -/

/-- An operation stored an entry, or left the index alone. -/
structure MayStore (entry : IndexEntry) (s s' : State) : Prop where
  index : s'.db.index = s.db.index ∨ storeIndex entry s.db.index = some s'.db.index
  faults : s'.faults = s.faults

theorem MayStore.sameIndex (h : MayStore entry s s') (hsame : SameIndex s' s'') :
    MayStore entry s s'' :=
  ⟨hsame.index ▸ h.index, hsame.faults.trans h.faults⟩

theorem mayStore_update
    (hwrite : ∀ db result db', write db = .ok (result, db') →
      db'.index = db.index ∨ storeIndex entry db.index = some db'.index)
    (s : State) : MayStore entry s ((engine baseDir).exec (.update write) s).2 :=
  exec_update_keeps baseDir ⟨.inl rfl, rfl⟩ fun hok => ⟨hwrite _ _ _ hok, rfl⟩

theorem run_commitSubscribed (entry : IndexEntry) (s : State) :
    MayStore entry s ((commitSubscribed entry).run (engine baseDir) s).2 := by
  refine MayStore.sameIndex ?_ (sameIndex_bind baseDir s fun out => ?_)
  · refine mayStore_update baseDir (fun db result db' hok => ?_) s
    rcases upsert_cases entry db with ⟨current, -, -, -, htx⟩ |
      ⟨written, heff, ⟨hfits, -, htx⟩ | ⟨-, -, err, htx⟩⟩ <;> rw [htx] at hok <;> cases hok
    · exact .inl rfl
    · exact .inr (by simp [storeIndex, heff, hfits, Database.write])
  · rcases out with err | ⟨written, existing, _ | _⟩
    · trivial
    · trivial
    · refine (sameIndex_sweep baseDir).bind fun err => ?_
      cases err <;> trivial

/-- An operation stored the entry that the current one makes of `entry`, or
left the index alone. -/
def LocalWrite (entry : IndexEntry) (s s' : State) : Prop :=
  SameIndex s s' ∨
    ∃ written, effectiveEntry (s.db.index.get entry.name) entry = some written ∧
      MayStore written s s'

theorem LocalWrite.sameIndex (h : LocalWrite entry s s') (hsame : SameIndex s' s'') :
    LocalWrite entry s s'' := by
  rcases h with h | ⟨written, heff, hstore⟩
  · exact .inl (h.trans hsame)
  · exact .inr ⟨written, heff, hstore.sameIndex hsame⟩

theorem SameIndex.localWrite (hsame : SameIndex s s') (h : LocalWrite entry s' s'') :
    LocalWrite entry s s'' := by
  rcases h with h | ⟨written, heff, hstore⟩
  · exact .inl (hsame.trans h)
  · exact .inr ⟨written, hsame.index ▸ heff, hsame.index ▸ hstore.index,
      hstore.faults.trans hsame.faults⟩

theorem run_upsertAndSubscribeLocked (entry : IndexEntry) (s : State) :
    LocalWrite entry s ((upsertAndSubscribeLocked entry true).run (engine baseDir) s).2 := by
  simp only [upsertAndSubscribeLocked, Bool.not_true, Bool.false_eq_true, if_false, run_bind]
  rcases run_get baseDir entry.name s with ⟨err, -, hget⟩ | ⟨-, hget⟩
  · simp only [hget]
    exact .inl (SameIndex.refl s)
  simp only [hget]
  rcases heff : effectiveEntry (s.db.index.get entry.name) entry with _ | written
  · exact .inl (SameIndex.refl s)
  simp only [run_bind, run_perform]
  have hprepare : (engine baseDir).exec (.prepareNotification written) s =
      (s.faults.prepareNotification, s) := rfl
  rw [hprepare]
  cases s.faults.prepareNotification with
  | some err => exact .inl (SameIndex.refl s)
  | none =>
    refine .inr ⟨written, heff, ?_⟩
    refine (run_commitSubscribed baseDir written s).sameIndex
      (sameIndex_bind baseDir s fun out => ?_)
    exact (aside_sameIndex.finishNotification _ _).bind fun _ => trivial

theorem run_saveLocalFileLocked (fileName : String) (content : Blob) (s : State) :
    LocalWrite (savedEntry fileName content) s
      ((saveLocalFileLocked fileName content).run (engine baseDir) s).2 := by
  simp only [saveLocalFileLocked, run_bind, run_perform]
  have hcommit : SameIndex s ((engine baseDir).exec (.commit content.hash) s).2 :=
    (aside_sameIndex.commit content.hash).1 s
  generalize (engine baseDir).exec (.commit content.hash) s = committed at hcommit
  obtain ⟨err | created, s₁⟩ := committed
  · exact .inl hcommit
  refine hcommit.localWrite ?_
  refine (run_upsertAndSubscribeLocked baseDir (savedEntry fileName content) s₁).sameIndex
    (sameIndex_bind baseDir s₁ fun out => ?_)
  obtain ⟨⟨written, existing, _ | _⟩, _ | err⟩ := out
  · trivial
  · refine Only.bind ((operative_only aside_sameIndex).compensatePhysicalBlob fun _ => trivial)
      fun cleanupErr => ?_
    cases cleanupErr <;> trivial
  · trivial
  · trivial

theorem run_saveLocalFile (fileName : String) (content : Blob) (s : State) :
    LocalWrite (savedEntry fileName content) s
      ((saveLocalFile fileName content).run (engine baseDir) s).2 := by
  have hstage : (engine baseDir).exec .stageBlob s = (s.faults.stageBlob, s) := rfl
  have hprepare : (engine baseDir).exec .prepareBlob s = (s.faults.prepareBlob, s) := rfl
  simp only [saveLocalFile, run_bind, run_perform, hstage]
  cases s.faults.stageBlob with
  | some err => exact .inl (SameIndex.refl s)
  | none =>
    simp only [run_bind, run_perform, hprepare]
    cases s.faults.prepareBlob with
    | some err => exact .inl (SameIndex.refl s)
    | none => exact run_saveLocalFileLocked baseDir fileName content s

theorem run_persistTombstone (fileName : String) (fileMeta : IndexEntry) (s : State) :
    MayStore fileMeta s ((persistTombstone fileName fileMeta).run (engine baseDir) s).2 := by
  refine MayStore.sameIndex ?_ (sameIndex_bind baseDir s fun out => ?_)
  · refine mayStore_update baseDir (fun db result db' hok => ?_) s
    rcases upsertTx_storeIndex fileMeta db with ⟨-, ⟨-, htx⟩ | ⟨err, htx⟩⟩ | ⟨db', hsome, htx⟩ <;>
      rw [htx] at hok <;> cases hok
    · exact .inl rfl
    · exact .inr hsome
  · rcases out with err | _ | _
    · trivial
    · trivial
    · refine (sameIndex_sweep baseDir).bind fun err => ?_
      cases err <;> trivial

theorem run_deleteLocalFile (fileName : String) (s : State) :
    let s' := ((deleteLocalFileLocked fileName).run (engine baseDir) s).2
    SameIndex s s' ∨
      ∃ entry, s.db.index.get fileName = some entry ∧ MayStore (tombstone entry) s s' := by
  simp only [deleteLocalFileLocked, run_bind]
  rcases run_get baseDir fileName s with ⟨err, -, hget⟩ | ⟨-, hget⟩
  · simp only [hget]
    exact .inl (SameIndex.refl s)
  simp only [hget]
  rcases hentry : s.db.index.get fileName with _ | entry
  · exact .inl (SameIndex.refl s)
  have hprepare : (engine baseDir).exec (.prepareNotification (tombstone entry)) s =
      (s.faults.prepareNotification, s) := rfl
  simp only [run_bind, run_perform, hprepare]
  cases s.faults.prepareNotification with
  | some err => exact .inl (SameIndex.refl s)
  | none =>
    refine .inr ⟨entry, rfl, ?_⟩
    refine (run_persistTombstone baseDir fileName (tombstone entry) s).sameIndex
      (sameIndex_bind baseDir s fun out => ?_)
    exact (aside_sameIndex.finishNotification _ _).bind fun _ => trivial

end Proxyma.Storage
