import Proxyma.Storage.Convergence

/-!
# One-sided synchronisation

`ExecuteSyncContext` fetches the manifest of a peer, stores its entries, and then pushes
the entries of its own index that the peer lacks.  A push is left out by comparisons of
hash, version and flag that are not the replicated order.  It is right nonetheless: after
the pull the local entry is at least the remote one, so a remote version that is not
smaller is the same version, and at the same version a live local entry has no remote
tombstone below it.

What a successful delivery does to an index is `Absorbs`, which does not mention the order
of its entries.
-/

namespace Proxyma.Storage

open Keyed Atomic Atomic.Prog GoError

variable {index : Bucket String IndexEntry}

attribute [local instance] entryOrder

/-! ## The exchange -/

/-- Whether the peer needs no push of a local entry, by the manifest it sent. -/
def skipsPush (manifest : Bucket String IndexEntry) (name : String) (local_ : IndexEntry) : Bool :=
  (manifest.get name).any fun remote =>
    (!local_.deleted ∧ remote.hash = local_.hash ∧ remote.version ≥ local_.version) ∨
      (local_.deleted ∧ remote.deleted ∧ remote.version ≥ local_.version)

/-- The entries of a snapshot that are pushed. -/
def pushed (manifest : Bucket String IndexEntry) (snapshot : List (String × IndexEntry)) :
    List IndexEntry :=
  (snapshot.filter fun e => !skipsPush manifest e.1 e.2).map Prod.snd

/-- `ExecuteSyncContext` with one peer: the pushes it decides on. -/
def executeSync (manifest : Bucket String IndexEntry) (peerID : String) :
    Prog Action (Except GoError (List IndexEntry)) := do
  let (_, manifestErr) ← processRemoteManifestFromSource manifest peerID
  match manifestErr with
  | some err => return .error err
  | none =>
    match ← perform (.view fun db => .ok db.index.entries) with
    | .error err => return .error err
    | .ok snapshot => return .ok (pushed manifest snapshot)

/-- The peer takes the pushes one after the other. -/
def handleNotifications (source : String) : List IndexEntry → Prog Action (List Response)
  | [] => return []
  | file :: rest => do
      let response ← handleNotification file source
      let responses ← handleNotifications source rest
      return response :: responses

/-! ## What a delivery does to an index -/

/-- Every name has the largest of what it had and what was delivered for it. -/
structure Absorbs (entries : List IndexEntry) (index index' : Bucket String IndexEntry) :
    Prop where
  grows : ∀ k, register index k ≤ register index' k
  delivered : ∀ e ∈ entries, (e : WithBot IndexEntry) ≤ register index' e.name
  source : ∀ k, register index' k = register index k ∨
    ∃ e ∈ entries, e.name = k ∧ register index' k = e

theorem Absorbs.nil (index : Bucket String IndexEntry) : Absorbs [] index index :=
  ⟨fun _ => le_rfl, fun _ he => absurd he List.not_mem_nil, fun _ => .inl rfl⟩

theorem Absorbs.append {first second : List IndexEntry}
    {index' index'' : Bucket String IndexEntry} (h : Absorbs first index index')
    (h' : Absorbs second index' index'') : Absorbs (first ++ second) index index'' := by
  refine ⟨fun k => (h.grows k).trans (h'.grows k), fun e he => ?_, fun k => ?_⟩
  · rcases List.mem_append.1 he with hfirst | hsecond
    · exact (h.delivered e hfirst).trans (h'.grows e.name)
    · exact h'.delivered e hsecond
  · rcases h'.source k with hkept | ⟨e, he, hname, hstored⟩
    · rw [hkept]
      rcases h.source k with hold | ⟨e, he, hname, hstored⟩
      · exact .inl hold
      · exact .inr ⟨e, List.mem_append_left _ he, hname, hstored⟩
    · exact .inr ⟨e, List.mem_append_right _ he, hname, hstored⟩

theorem absorbs_put {e : IndexEntry} (hlt : register index e.name < e) :
    Absorbs [e] index (index.put e.name e) := by
  refine ⟨fun k => ?_, fun x hx => ?_, fun k => ?_⟩
  · rw [register_put]
    split_ifs with hk
    · rw [hk]
      exact hlt.le
    · exact le_rfl
  · rw [List.mem_singleton.1 hx, register_put, if_pos rfl]
  · rw [register_put]
    split_ifs with hk
    · exact .inr ⟨e, List.mem_singleton_self e, hk.symm, rfl⟩
    · exact .inl rfl

theorem absorbs_of_le {e : IndexEntry} (hle : (e : WithBot IndexEntry) ≤ register index e.name) :
    Absorbs [e] index index := by
  refine ⟨fun _ => le_rfl, fun x hx => ?_, fun _ => .inl rfl⟩
  rwa [List.mem_singleton.1 hx]

section Programs

variable (baseDir : CleanPath) {α : Type}
variable {s : State} {file : IndexEntry} {source : String}

theorem absorbs_upsertIndexLocked {entry : IndexEntry} (hversion : 0 < entry.version)
    (hok : ((upsertIndexLocked entry).run (engine baseDir) s).1.2 = none) :
    Absorbs [entry] s.db.index ((upsertIndexLocked entry).run (engine baseDir) s).2.db.index := by
  obtain ⟨-, hreceives, hkept⟩ := run_upsertIndexLocked baseDir entry s
  rw [hreceives.index]
  cases hreceive : s.receive entry with
  | none =>
    have heff := hkept hok hreceive
    rw [effectiveEntry_of_pos hversion] at heff
    split_ifs at heff with hlt
    exact absorbs_of_le (not_lt.1 hlt)
  | some index' =>
    rw [State.receive] at hreceive
    split_ifs at hreceive
    obtain ⟨-, hlt, rfl⟩ := put_of_storeIndex hversion hreceive
    exact absorbs_put hlt

/-- An operation that stores an entry first absorbs it, if that did not fail. -/
theorem StoresFirst.absorbs {entry : IndexEntry} {p : Prog Action α}
    (h : StoresFirst baseDir entry p) (hversion : 0 < entry.version)
    (hok : ((upsertIndexLocked entry).run (engine baseDir) s).1.2 = none) :
    Absorbs [entry] s.db.index (p.run (engine baseDir) s).2.db.index := by
  obtain ⟨g, rfl, hg⟩ := h
  rw [(sameIndex_bind baseDir s (hg (bookkeeping_sameIndex baseDir))).index]
  exact absorbs_upsertIndexLocked baseDir hversion hok

theorem absorbs_processRemoteDeletion (hversion : 0 < file.version)
    (hok : ((processRemoteDeletionLocked file).run (engine baseDir) s).1 = none) :
    Absorbs [file] s.db.index
      ((processRemoteDeletionLocked file).run (engine baseDir) s).2.db.index := by
  refine (storesFirst_processRemoteDeletion baseDir file).absorbs baseDir hversion ?_
  simp only [processRemoteDeletionLocked, run_bind] at hok
  generalize (upsertIndexLocked file).run (engine baseDir) s = out at hok ⊢
  obtain ⟨⟨updated, _ | err⟩, s'⟩ := out
  · rfl
  · cases hok

theorem absorbs_processManifestEntry (hversion : 0 < file.version)
    (hok : ((processManifestEntry file).run (engine baseDir) s).1.2 = none) :
    Absorbs [file] s.db.index ((processManifestEntry file).run (engine baseDir) s).2.db.index := by
  refine (storesFirst_processManifestEntry baseDir file).absorbs baseDir hversion ?_
  simp only [processManifestEntry, run_bind] at hok
  generalize (upsertIndexLocked file).run (engine baseDir) s = out at hok ⊢
  obtain ⟨⟨updated, _ | err⟩, s'⟩ := out
  · rfl
  · cases hok

theorem absorbs_handleNotification (hversion : 0 < file.version)
    (hok : ((handleNotification file source).run (engine baseDir) s).1.status < 400) :
    Absorbs [file] s.db.index
      ((handleNotification file source).run (engine baseDir) s).2.db.index := by
  refine (storesFirst_handleNotification baseDir file source).absorbs baseDir hversion ?_
  unfold handleNotification at hok
  split_ifs at hok
  · simp only [processRemoteDeletionLocked, run_bind] at hok
    generalize (upsertIndexLocked file).run (engine baseDir) s = out at hok ⊢
    obtain ⟨⟨updated, _ | err⟩, s'⟩ := out
    · rfl
    · simp at hok
  · simp only [run_bind] at hok
    generalize (upsertIndexLocked file).run (engine baseDir) s = out at hok ⊢
    obtain ⟨⟨updated, _ | err⟩, s'⟩ := out
    · rfl
    · simp at hok

/-- A manifest that is processed without an error is absorbed. -/
theorem absorbs_processManifestEntries {entries missing : List IndexEntry} {err : Option GoError}
    (hversions : ∀ e ∈ entries, 0 < e.version)
    (hok : ((processManifestEntries entries missing err).run (engine baseDir) s).1.2 = none) :
    err = none ∧ Absorbs entries s.db.index
      ((processManifestEntries entries missing err).run (engine baseDir) s).2.db.index := by
  induction entries generalizing missing err s with
  | nil => exact ⟨hok, Absorbs.nil _⟩
  | cons entry rest ih =>
    have hversion := hversions entry List.mem_cons_self
    have hrest := fun e he => hversions e (List.mem_cons_of_mem _ he)
    rw [processManifestEntries] at hok ⊢
    split_ifs at hok ⊢
    · have hentry : _ → _ := @absorbs_processRemoteDeletion baseDir s entry hversion
      rw [run_bind] at hok ⊢
      generalize (processRemoteDeletionLocked entry).run (engine baseDir) s = out at hok hentry ⊢
      obtain ⟨_ | failure, s'⟩ := out
      · obtain ⟨herr, habsorbs⟩ := ih hrest hok
        exact ⟨herr, (hentry rfl).append habsorbs⟩
      · obtain ⟨herr, -⟩ := ih hrest hok
        exact absurd (joinErrors_eq_none.1 herr).2 (by simp)
    · have hentry : _ → _ := @absorbs_processManifestEntry baseDir s entry hversion
      rw [run_bind] at hok ⊢
      generalize (processManifestEntry entry).run (engine baseDir) s = out at hok hentry ⊢
      obtain ⟨herr, habsorbs⟩ := ih hrest hok
      obtain ⟨hfirst, hsecond⟩ := joinErrors_eq_none.1 herr
      exact ⟨hfirst, (hentry hsecond).append habsorbs⟩

theorem requestMissing_error {files : List IndexEntry} {err : Option GoError}
    (hok : ((requestMissing source files err).run (engine baseDir) s).1 = none) : err = none := by
  induction files generalizing err s with
  | nil => exact hok
  | cons file rest ih =>
    simp only [requestMissing, run_bind] at hok
    generalize (requestRemoteDownload file source).run (engine baseDir) s = out at hok
    obtain ⟨_ | failure, s'⟩ := out
    · exact ih hok
    · exact absurd (joinErrors_eq_none.1 (ih hok)).2 (by simp)

theorem absorbs_processRemoteManifestFromSource {manifest : Bucket String IndexEntry}
    (hversions : ∀ e ∈ manifest.entries.map Prod.snd, 0 < e.version)
    (hok : ((processRemoteManifestFromSource manifest source).run (engine baseDir) s).1.2 = none) :
    Absorbs (manifest.entries.map Prod.snd) s.db.index
      ((processRemoteManifestFromSource manifest source).run (engine baseDir) s).2.db.index := by
  have hloop : ∀ missing err, _ → _ := fun missing err =>
    @absorbs_processManifestEntries baseDir s _ missing err hversions
  simp only [processRemoteManifestFromSource, processRemoteManifestE, run_bind, pure_eq, run_ret]
    at hok ⊢
  rw [(((bookkeeping_sameIndex baseDir).requestMissing source _ _).run
    SameIndex.refl SameIndex.trans _).index]
  exact (hloop [] none (requestMissing_error baseDir hok)).2

/-- `ExecuteSyncContext` without an error absorbs the manifest, and pushes from the index
it ends with. -/
theorem absorbs_executeSync {manifest : Bucket String IndexEntry} {peerID : String} {s' : State}
    {pushes : List IndexEntry} (hversions : ∀ e ∈ manifest.entries.map Prod.snd, 0 < e.version)
    (hrun : (executeSync manifest peerID).run (engine baseDir) s = (.ok pushes, s')) :
    Absorbs (manifest.entries.map Prod.snd) s.db.index s'.db.index ∧
      pushes = pushed manifest s'.db.index.entries := by
  have hpull : _ → _ := @absorbs_processRemoteManifestFromSource baseDir s peerID manifest hversions
  simp only [executeSync, run_bind] at hrun
  generalize (processRemoteManifestFromSource manifest peerID).run (engine baseDir) s = out
    at hpull hrun
  obtain ⟨⟨missing, _ | err⟩, s₁⟩ := out
  · simp only [run_bind, run_perform] at hrun
    rcases exec_view_cases baseDir (fun db => .ok db.index.entries) s₁ with ⟨err, hexec⟩ | hexec
    · rw [hexec] at hrun
      cases congrArg Prod.fst hrun
    · rw [hexec] at hrun
      obtain ⟨hpushes, rfl⟩ := Prod.mk.inj hrun
      exact ⟨hpull rfl, (Except.ok.inj hpushes).symm⟩
  · cases congrArg Prod.fst hrun

theorem absorbs_handleNotifications {files : List IndexEntry} {s' : State}
    {responses : List Response} (hversions : ∀ e ∈ files, 0 < e.version)
    (hrun : (handleNotifications source files).run (engine baseDir) s = (responses, s'))
    (hok : ∀ r ∈ responses, r.status < 400) : Absorbs files s.db.index s'.db.index := by
  induction files generalizing s responses with
  | nil =>
    cases hrun
    exact Absorbs.nil _
  | cons file rest ih =>
    simp only [handleNotifications, run_bind] at hrun
    have hfile : _ → _ := @absorbs_handleNotification baseDir s file source
      (hversions file List.mem_cons_self)
    generalize (handleNotification file source).run (engine baseDir) s = out at hfile hrun
    obtain ⟨response, s₁⟩ := out
    obtain ⟨hresponses, hs'⟩ := Prod.mk.inj hrun
    subst hresponses hs'
    refine (hfile (hok response List.mem_cons_self)).append (ih
      (fun e he => hversions e (List.mem_cons_of_mem _ he)) rfl fun r hr => ?_)
    exact hok r (List.mem_cons_of_mem _ hr)

end Programs

/-! ## Agreement -/

/-- Two nodes agree on a name: whether it exists, on its version and flag, and on its hash
while it is live. -/
def Agree : Option IndexEntry → Option IndexEntry → Prop
  | none, none => True
  | some x, some y => x.version = y.version ∧ x.deleted = y.deleted ∧
      (x.deleted = false → x.hash = y.hash)
  | _, _ => False

/-- An index as nodes have them: positive versions, each entry under its name. -/
structure Proper (index : Bucket String IndexEntry) : Prop where
  version_pos : ∀ k e, index.get k = some e → 0 < e.version
  named : ∀ k e, index.get k = some e → e.name = k

theorem Agree.refl (x : Option IndexEntry) : Agree x x := by
  cases x with
  | none => trivial
  | some x => exact ⟨rfl, rfl, fun _ => rfl⟩

/-- A local entry that is at least the remote one and needs no push agrees with it. -/
theorem agree_of_skipped {manifest : Bucket String IndexEntry} {k : String} {x : IndexEntry}
    (hle : register manifest k ≤ x) (hskip : skipsPush manifest k x = true) :
    Agree (some x) (manifest.get k) := by
  unfold skipsPush at hskip
  rcases hremote : manifest.get k with _ | remote
  · simp [hremote] at hskip
  rw [register_eq_coe.2 hremote, WithBot.coe_le_coe] at hle
  have hcompare := (compareIndexEntries_le_zero remote x).2 hle
  simp only [hremote, Option.any_some, decide_eq_true_eq] at hskip
  have hversion : remote.version = x.version := by
    have hge : x.version ≤ remote.version := by
      rcases hskip with ⟨-, -, h⟩ | ⟨-, -, h⟩ <;> exact h
    by_contra hne
    have hgt : x.version < remote.version := lt_of_le_of_ne hge (Ne.symm hne)
    rw [compareIndexEntries, if_pos hne, if_pos hgt] at hcompare
    exact absurd hcompare (by decide)
  rcases hskip with ⟨hlive, hhash, -⟩ | ⟨hdeleted, hremoteDeleted, -⟩
  · have hlive : x.deleted = false := by simpa using hlive
    have hremoteLive : remote.deleted = false := by
      by_contra hdeleted
      have hgone : remote.deleted = true := by simpa using hdeleted
      simp [compareIndexEntries, hversion, hlive, hgone] at hcompare
    exact ⟨hversion.symm, hlive.trans hremoteLive.symm, fun _ => hhash.symm⟩
  · refine ⟨hversion.symm, hdeleted.trans hremoteDeleted.symm, fun hlive => ?_⟩
    simp [hdeleted] at hlive

theorem Absorbs.proper {entries : List IndexEntry} {index' : Bucket String IndexEntry}
    (h : Absorbs entries index index') (hindex : Proper index)
    (hentries : ∀ e ∈ entries, 0 < e.version) : Proper index' := by
  have hcases : ∀ k e, index'.get k = some e →
      index.get k = some e ∨ (e ∈ entries ∧ e.name = k) := by
    intro k e hget
    have hregister := register_eq_coe.2 hget
    rcases h.source k with hkept | ⟨x, hx, hname, hstored⟩
    · exact .inl (register_eq_coe.1 (hkept ▸ hregister))
    · rw [hstored] at hregister
      obtain rfl := WithBot.coe_injective hregister
      exact .inr ⟨hx, hname⟩
  refine ⟨fun k e hget => ?_, fun k e hget => ?_⟩
  · rcases hcases k e hget with hold | ⟨hmem, -⟩
    · exact hindex.version_pos k e hold
    · exact hentries e hmem
  · rcases hcases k e hget with hold | ⟨-, hname⟩
    · exact hindex.named k e hold
    · exact hname

theorem mem_pushed {manifest : Bucket String IndexEntry} (hindex : Proper index) {x : IndexEntry} :
    x ∈ pushed manifest index.entries ↔
      index.get x.name = some x ∧ skipsPush manifest x.name x = false := by
  simp only [pushed, List.mem_map, List.mem_filter, Bool.not_eq_true', Prod.exists,
    exists_eq_right, Bucket.mem_entries]
  constructor
  · rintro ⟨k, hget, hskip⟩
    rw [hindex.named k x hget]
    exact ⟨hget, hskip⟩
  · exact fun h => ⟨x.name, h⟩

/-- After a sync of `a` with `b` that went through, the two nodes agree on every name. -/
theorem one_sided_sync_heals (baseDirA baseDirB : CleanPath) (a b a' b' : State)
    (peerID source : String) (ha : Proper a.db.index) (hb : Proper b.db.index)
    (pushes order : List IndexEntry) (responses : List Response)
    (hsync : (executeSync b.db.index peerID).run (engine baseDirA) a = (.ok pushes, a'))
    (horder : order.Perm pushes)
    (hpush : (handleNotifications source order).run (engine baseDirB) b = (responses, b'))
    (hdelivered : ∀ r ∈ responses, r.status < 400) (name : String) :
    Agree (a'.db.index.get name) (b'.db.index.get name) := by
  have hmanifest : ∀ e ∈ b.db.index.entries.map Prod.snd, 0 < e.version := by
    intro e he
    obtain ⟨⟨k, e'⟩, hmem, rfl⟩ := List.mem_map.1 he
    exact hb.version_pos k e' (Bucket.mem_entries.1 hmem)
  obtain ⟨hpull, hpushes⟩ := absorbs_executeSync baseDirA hmanifest hsync
  have ha' : Proper a'.db.index := hpull.proper ha hmanifest
  have hmem : ∀ e, e ∈ order ↔ a'.db.index.get e.name = some e ∧
      skipsPush b.db.index e.name e = false := by
    intro e
    rw [horder.mem_iff, hpushes, mem_pushed ha']
  have habsorbs : Absorbs order b.db.index b'.db.index :=
    absorbs_handleNotifications baseDirB
      (fun e he => ha'.version_pos e.name e ((hmem e).1 he).1) hpush hdelivered
  -- The pull leaves nothing on the peer that is above the local entry.
  have hbelow : register b.db.index name ≤ register a'.db.index name := by
    cases hremote : b.db.index.get name with
    | none =>
      rw [register_eq_bot.2 hremote]
      exact bot_le
    | some remote =>
      rw [register_eq_coe.2 hremote, ← hb.named name remote hremote]
      exact hpull.delivered remote
        (List.mem_map.2 ⟨(name, remote), Bucket.mem_entries.2 hremote, rfl⟩)
  cases hlocal : a'.db.index.get name with
  | none =>
    rw [register_eq_bot.2 hlocal] at hbelow
    rcases habsorbs.source name with hkept | ⟨e, he, hname, -⟩
    · rw [register_eq_bot.1 (hkept.trans (le_bot_iff.1 hbelow))]
      trivial
    · have hget := ((hmem e).1 he).1
      simp [hname, hlocal] at hget
  | some x =>
    have hname : x.name = name := ha'.named name x hlocal
    have hpushed : ∀ e ∈ order, e.name = name → e = x := by
      intro e he hsame
      have hstored := ((hmem e).1 he).1
      rw [hsame, hlocal] at hstored
      exact (Option.some.inj hstored).symm
    rw [register_eq_coe.2 hlocal] at hbelow
    by_cases hx : x ∈ order
    · have hstored : register b'.db.index name = x := by
        have hge := habsorbs.delivered x hx
        rw [hname] at hge
        rcases habsorbs.source name with hkept | ⟨e, he, hsame, hstored⟩
        · exact le_antisymm (hkept ▸ hbelow) hge
        · rw [hstored, hpushed e he hsame]
      rw [register_eq_coe.1 hstored]
      exact Agree.refl _
    · have hskip : skipsPush b.db.index name x = true := by
        have hnot := mt (hmem x).2 hx
        rw [hname] at hnot
        simpa [hlocal] using hnot
      have hkept : register b'.db.index name = register b.db.index name := by
        rcases habsorbs.source name with hkept | ⟨e, he, hsame, -⟩
        · exact hkept
        · exact absurd (hpushed e he hsame ▸ he) hx
      have hsame : b'.db.index.get name = b.db.index.get name := by
        cases hremote : b.db.index.get name with
        | none => exact register_eq_bot.1 (hkept.trans (register_eq_bot.2 hremote))
        | some remote => exact register_eq_coe.1 (hkept.trans (register_eq_coe.2 hremote))
      rw [hsame]
      exact agree_of_skipped hbelow hskip

/-- A node whose index holds these entries. -/
def State.indexing (entries : List IndexEntry) : State :=
  { State.fresh with
    db := { Database.empty with
      index := entries.foldl (fun index e => index.put e.name e) .empty } }

theorem State.proper_indexing {entries : List IndexEntry} (h : ∀ e ∈ entries, 0 < e.version) :
    Proper (State.indexing entries).db.index := by
  have hfold : ∀ index, Proper index →
      Proper (entries.foldl (fun index e => index.put e.name e) index) := by
    induction entries with
    | nil => exact fun index hindex => hindex
    | cons e rest ih =>
      intro index hindex
      refine ih (fun x hx => h x (List.mem_cons_of_mem _ hx)) _ ⟨fun k x hget => ?_,
        fun k x hget => ?_⟩
      · rw [Bucket.get_put] at hget
        split_ifs at hget
        · exact Option.some.inj hget ▸ h e List.mem_cons_self
        · exact hindex.version_pos k x hget
      · rw [Bucket.get_put] at hget
        split_ifs at hget with hk
        · exact Option.some.inj hget ▸ hk.symm
        · exact hindex.named k x hget
  refine hfold .empty ⟨fun k e hget => ?_, fun k e hget => ?_⟩ <;>
    cases hget

/-- One node has deleted `f` and the other has saved `g` meanwhile. -/
theorem one_sided_sync_heals_partition :
    let f : IndexEntry := ⟨"f", 3, digestA.text, 1, false⟩
    let g : IndexEntry := ⟨"g", 3, digestA.text, 1, false⟩
    let a := State.indexing [tombstone f]
    let b := State.indexing [f, g]
    let synced := (executeSync b.db.index "b").run (engine dataDir) a
    let notified := (handleNotifications "a" [tombstone f]).run (engine dataDir) b
    synced.1 = .ok [tombstone f] ∧ (∀ r ∈ notified.1, r.status < 400) ∧
      Agree (synced.2.db.index.get "f") (notified.2.db.index.get "f") := by
  intro f g a b synced notified
  have hpushes : synced.1 = .ok [tombstone f] := by
    have hsome : synced.1.toOption = some [tombstone f] := by decide +kernel
    cases hout : synced.1 with
    | error err =>
      rw [hout] at hsome
      cases hsome
    | ok pushes =>
      rw [hout] at hsome
      exact congrArg Except.ok (Option.some.inj hsome)
  have hdelivered : ∀ r ∈ notified.1, r.status < 400 := by decide +kernel
  refine ⟨hpushes, hdelivered, ?_⟩
  exact one_sided_sync_heals dataDir dataDir a b synced.2 notified.2 "b" "a"
    (State.proper_indexing (by decide)) (State.proper_indexing (by decide)) [tombstone f]
    [tombstone f] notified.1 (Prod.ext hpushes rfl) (List.Perm.refl _) rfl hdelivered "f"

end Proxyma.Storage
