import Proxyma.Storage.IndexEffects

/-!
# Versions of local mutations

`SaveLocalFile` and `DeleteLocalFile` give the stored entry of a name the next version.
They compute it before the transaction, to stage the notification, and the transaction
computes it once more if it is not positive.  Both additions wrap around at 64 bits, and
they agree (`effectiveEntry_bumped`): what is announced is what is stored.  The stored
entry beats the one before exactly when the addition did not wrap.

While a mutation holds `mutationMu`, other goroutines leave the index and the
announcements alone (`Quiet`), but may change everything else between its actions.
-/

namespace Proxyma.Storage

open Keyed Atomic Atomic.Prog GoError

variable {current : IndexEntry} {bumped : IndexEntry}

/-! ## The next version -/

theorem wrap64_max : wrap64 (2 ^ 63 - 1 + 1) = -2 ^ 63 := by decide

theorem lt_wrap64_succ_iff {v : ℤ} (hlow : -2 ^ 63 ≤ v) (hhigh : v < 2 ^ 63) :
    v < wrap64 (v + 1) ↔ v < 2 ^ 63 - 1 := by
  rcases lt_or_eq_of_le (show v ≤ 2 ^ 63 - 1 by omega) with hlt | rfl
  · rw [wrap64_of_range (by omega) (by omega)]
    omega
  · decide

theorem compareIndexEntries_of_version_ne {candidate : IndexEntry}
    (h : candidate.version ≠ current.version) :
    0 < compareIndexEntries candidate current ↔ current.version < candidate.version := by
  rw [compareIndexEntries, if_pos h]
  split_ifs with hgt
  · simpa using hgt
  · simpa using hgt

/-- The write transaction leaves an entry alone that has the next version already,
whether it wrapped around or not. -/
theorem effectiveEntry_bumped (hlow : -2 ^ 63 ≤ current.version) (hhigh : current.version < 2 ^ 63)
    (hversion : bumped.version = wrap64 (current.version + 1)) :
    effectiveEntry (some current) bumped = some bumped := by
  simp only [effectiveEntry]
  split_ifs with hpositive hcompare
  · have hlt : current.version < bumped.version := by
      rw [hversion, lt_wrap64_succ_iff hlow hhigh]
      by_contra hmax
      have hversion_max : current.version = 2 ^ 63 - 1 := by omega
      rw [hversion, hversion_max, wrap64_max] at hpositive
      exact absurd hpositive (by decide)
    exact absurd ((compareIndexEntries_of_version_ne hlt.ne').2 hlt) (not_lt.2 hcompare)
  · rfl
  · rw [← hversion]

/-! ## Mutations under the lock -/

/-- The index and the announcements are as before. -/
structure Quiet (s s' : State) : Prop where
  index : s'.db.index = s.db.index
  announced : s'.announced = s.announced

theorem Quiet.refl (s : State) : Quiet s s := ⟨rfl, rfl⟩

theorem Quiet.trans {a b c : State} (hab : Quiet a b) (hbc : Quiet b c) : Quiet a c :=
  ⟨hbc.index.trans hab.index, hbc.announced.trans hab.announced⟩

/-- What a mutation may count on while it holds the lock. -/
def mutating : Contract Action State where
  assume := fun _ _ => True
  rely := Quiet
  guarantee := fun _ _ => True

section Programs

variable {baseDir : CleanPath} {α β : Type} {post : α → State → Prop} {entry : IndexEntry}
  {s s' s'' : State} {fileName : String}

theorem safe_quiet_bind {e : Action β} {g : β → Prog Action α}
    (he : ∀ s, Quiet s ((engine baseDir).exec e s).2)
    (hg : ∀ b s', Quiet s s' → Safe (engine baseDir) mutating post (g b) s') :
    Safe (engine baseDir) mutating post (perform e >>= g) s :=
  safe_perform_bind fun s' hs _ => ⟨trivial, hg _ _ (hs.trans (he s'))⟩

theorem safe_quiet_ret {a : α} (h : ∀ s', Quiet s s' → post a s') :
    Safe (engine baseDir) mutating post (.ret a) s := h

theorem safe_get_bind {name : String} {g : Except GoError (Option IndexEntry) → Prog Action α}
    (herror : ∀ err s', Safe (engine baseDir) mutating post (g (.error err)) s')
    (hok : ∀ s', Quiet s s' →
      Safe (engine baseDir) mutating post (g (.ok (s.db.index.get name))) s') :
    Safe (engine baseDir) mutating post (get name >>= g) s := by
  refine safe_perform_bind fun s' hs _ => ⟨trivial, ?_⟩
  rcases exec_view_cases baseDir (fun db => .ok (db.index.get name)) s' with ⟨err, hexec⟩ | hexec
  · rw [hexec]
    exact herror err s'
  · rw [hexec, hs.index]
    exact hok s' hs

theorem quiet_update {write : Database → Except GoError (α × Database)}
    (hwrite : ∀ db result db', write db = .ok (result, db') → db'.index = db.index) (s : State) :
    Quiet s ((engine baseDir).exec (.update write) s).2 :=
  exec_update_keeps baseDir (.refl s) fun hok => ⟨hwrite _ _ _ hok, rfl⟩

theorem quiet_deleteBlob (caller : Deleter) (hash : String) (s : State) :
    Quiet s ((engine baseDir).exec (.deleteBlob caller hash) s).2 := by
  rcases exec_deleteBlob_snd baseDir caller hash s with hexec | hexec <;> rw [hexec] <;>
    exact ⟨rfl, rfl⟩

theorem quiet_commit (hash : Digest) (s : State) :
    Quiet s ((engine baseDir).exec (.commit hash) s).2 := by
  rcases exec_commit_cases baseDir hash s with ⟨err, hexec⟩ | hexec <;> rw [hexec] <;>
    exact ⟨rfl, rfl⟩

theorem safe_of_only {p : Prog Action α} (hp : Only (engine baseDir) Quiet p) (s : State) :
    Safe (engine baseDir) mutating (fun _ s' => Quiet s s') p s :=
  Only.safe_among (c := mutating) (hp.mono fun _ _ h => ⟨h, trivial⟩) Quiet.trans (fun _ _ h => h) s

theorem safe_sweep (s : State) :
    Safe (engine baseDir) mutating (fun _ s' => Quiet s s') sweepPendingBlobGCLocked s := by
  refine safe_of_only ?_ s
  refine only_sweepPendingBlobGCLocked baseDir Quiet.refl (quiet_deleteBlob .sweep) ?_
  refine fun completed => quiet_update fun db result db' hok => ?_
  cases hok
  rfl

theorem safe_compensatePhysicalBlob (hash : String) (created : Bool) (s : State) :
    Safe (engine baseDir) mutating (fun _ s' => Quiet s s')
      (compensatePhysicalBlob hash created) s := by
  refine safe_of_only ?_ s
  cases created with
  | false => trivial
  | true => exact only_perform (quiet_deleteBlob _ hash)

/-- The entry was stored over the one of its name and nothing was announced. -/
structure Stored (entry : IndexEntry) (s s' : State) : Prop where
  index : s'.db.index = s.db.index.put entry.name entry
  announced : s'.announced = s.announced

theorem Stored.quiet (h : Stored entry s s') (hs : Quiet s' s'') : Stored entry s s'' :=
  ⟨hs.index.trans h.index, hs.announced.trans h.announced⟩

/-- What a write that announces `entry` leaves behind if it succeeds. -/
structure Wrote (entry : IndexEntry) (s s' : State) : Prop where
  index : s'.db.index = s.db.index.put entry.name entry
  announced : s'.announced = s.announced ++ [entry]

theorem Wrote.quiet (h : Wrote entry s s') (hs : Quiet s' s'') : Wrote entry s s'' :=
  ⟨hs.index.trans h.index, hs.announced.trans h.announced⟩

theorem Quiet.wrote (hs : Quiet s s') (h : Wrote entry s' s'') : Wrote entry s s'' :=
  ⟨by rw [h.index, hs.index], by rw [h.announced, hs.announced]⟩

/-- Finishing the notification of a write that was committed if it reports no error. -/
theorem safe_finish {committed : Bool} {err : Option GoError} {result : Option GoError → α}
    (hcommitted : err = none → committed = true) (hstored : committed = true → Stored entry s s')
    (hpost : ∀ finishErr t, (joinErrors err finishErr = none → Wrote entry s t) →
      post (result finishErr) t) :
    Safe (engine baseDir) mutating post
      (perform (.finishNotification entry committed) >>= fun finishErr => .ret (result finishErr))
      s' := by
  refine safe_perform_bind fun t ht _ => ⟨trivial, fun t' ht' => hpost _ t' fun h => ?_⟩
  have hdone : committed = true := hcommitted (joinErrors_eq_none.1 h).1
  have hstored' := (hstored hdone).quiet ht
  have hwrote : Wrote entry s ((engine baseDir).exec (.finishNotification entry true) t).2 :=
    ⟨hstored'.index, by rw [← hstored'.announced]; rfl⟩
  rw [hdone] at ht'
  exact hwrote.quiet ht'

/-- The transaction of a save stores an entry that is its own effective entry. -/
theorem safe_commitSubscribed
    (hentry : effectiveEntry (s.db.index.get entry.name) entry = some entry) :
    Safe (engine baseDir) mutating (fun out s' =>
      (out.2 = none → out.1.applied = true) ∧ (out.1.applied = true → Stored entry s s'))
      (commitSubscribed entry) s := by
  refine safe_perform_bind fun s' hs _ => ⟨trivial, ?_⟩
  rcases exec_update_cases baseDir (upsertAndSubscribeTx entry) s' with
    ⟨err, hexec⟩ | ⟨result, db, -, hok, hexec⟩ <;> rw [hexec]
  · exact safe_quiet_ret fun t ht => ⟨by simp, by simp⟩
  rw [← hs.index] at hentry
  rcases upsert_cases entry s'.db with ⟨current, hget, heff, -, htx⟩ |
    ⟨written, heff, ⟨-, -, htx⟩ | ⟨-, -, err, htx⟩⟩ <;> rw [htx] at hok
  · simp [hget, heff] at hentry
  · cases hentry.symm.trans heff
    cases hok
    have hstored : Stored entry s { s' with db := { s'.db.write entry.name entry with
          subscriptions := s'.db.subscriptions.put entry.name () } } :=
      ⟨by rw [← hs.index]; rfl, hs.announced⟩
    refine (safe_sweep _).bind Quiet.refl fun err t ht => ?_
    have hpost : ∀ t', Quiet t t' → Stored entry s t' := fun t' ht' =>
      hstored.quiet (ht.trans ht')
    cases err with
    | some _ | none => exact safe_quiet_ret fun t' ht' => ⟨fun _ => rfl, fun _ => hpost t' ht'⟩
  · cases hok

/-- `SaveLocalFile` stores and announces the entry it computed. -/
theorem safe_saveLocalFileLocked {content : Blob} (hget : s.db.index.get fileName = some current)
    (hlow : -2 ^ 63 ≤ current.version) (hhigh : current.version < 2 ^ 63)
    (hbumped : bumped = { savedEntry fileName content with version := wrap64 (current.version + 1) }) :
    Safe (engine baseDir) mutating (fun err s' => err = none → Wrote bumped s s')
      (saveLocalFileLocked fileName content) s := by
  refine safe_quiet_bind (quiet_commit content.hash) fun created s₁ hs₁ => ?_
  rcases created with err | created
  · exact safe_quiet_ret fun t ht h => absurd h (by simp)
  have hname : bumped.name = fileName := by rw [hbumped]; rfl
  have hupsert : Safe (engine baseDir) mutating
      (fun out s' => out.2 = none → Wrote bumped s s')
      (upsertAndSubscribeLocked (savedEntry fileName content) true) s₁ := by
    refine safe_get_bind (fun err s' => safe_quiet_ret fun t ht h => absurd h (by simp)) ?_
    intro s₂ hs₂
    have heff : effectiveEntry (s₁.db.index.get (savedEntry fileName content).name)
        (savedEntry fileName content) = some bumped := by
      rw [hs₁.index, show (savedEntry fileName content).name = fileName from rfl, hget, hbumped]
      rfl
    dsimp only
    rw [heff]
    refine safe_quiet_bind (fun s => Quiet.refl s) fun err s₃ hs₃ => ?_
    have hquiet : Quiet s s₃ := hs₁.trans (hs₂.trans hs₃)
    cases err with
    | some err => exact safe_quiet_ret fun t ht h => absurd h (by simp)
    | none =>
      have hself : effectiveEntry (s₃.db.index.get bumped.name) bumped = some bumped := by
        rw [hquiet.index, hname, hget]
        exact effectiveEntry_bumped hlow hhigh (by rw [hbumped])
      refine (safe_commitSubscribed hself).bind Quiet.refl fun out s₄ hout => ?_
      obtain ⟨happlied, hstored⟩ := hout
      exact safe_finish happlied hstored fun finishErr t h herr => hquiet.wrote (h herr)
  refine hupsert.bind Quiet.refl fun out s₂ hout => ?_
  obtain ⟨⟨written, existing, applied⟩, err⟩ := out
  rcases err with _ | err
  · exact safe_quiet_ret fun t ht _ => (hout rfl).quiet ht
  cases applied with
  | true => exact safe_quiet_ret fun t ht h => absurd h (by simp)
  | false =>
    refine (safe_compensatePhysicalBlob _ created s₂).bind Quiet.refl
      fun cleanupErr t ht => ?_
    cases cleanupErr with
    | some _ | none => exact safe_quiet_ret fun t ht h => absurd h (by simp)

theorem safe_persistTombstone {fileMeta : IndexEntry}
    (hentry : effectiveEntry (s.db.index.get fileMeta.name) fileMeta = some fileMeta) :
    Safe (engine baseDir) mutating (fun out s' =>
      (out.2 = none → out.1 = true) ∧ (out.1 = true → Stored fileMeta s s'))
      (persistTombstone fileName fileMeta) s := by
  refine safe_perform_bind fun s' hs _ => ⟨trivial, ?_⟩
  rcases exec_update_cases baseDir (upsertTx fileMeta) s' with
    ⟨err, hexec⟩ | ⟨updated, db, -, hok, hexec⟩ <;> rw [hexec]
  · exact safe_quiet_ret fun t ht => ⟨by simp, by simp⟩
  rw [← hs.index] at hentry
  rcases upsert_cases fileMeta s'.db with ⟨current, hget, heff, htx, -⟩ |
    ⟨written, heff, ⟨-, htx, -⟩ | ⟨-, ⟨err, htx⟩, -⟩⟩ <;> rw [htx] at hok
  · simp [hget, heff] at hentry
  · cases hentry.symm.trans heff
    cases hok
    have hstored : Stored fileMeta s { s' with db := s'.db.write fileMeta.name fileMeta } :=
      ⟨by rw [← hs.index]; rfl, hs.announced⟩
    refine (safe_sweep _).bind Quiet.refl fun err t ht => ?_
    have hpost : ∀ t', Quiet t t' → Stored fileMeta s t' := fun t' ht' =>
      hstored.quiet (ht.trans ht')
    cases err with
    | some _ | none => exact safe_quiet_ret fun t' ht' => ⟨fun _ => rfl, fun _ => hpost t' ht'⟩
  · cases hok

/-- `DeleteLocalFile` stores and announces the tombstone it computed. -/
theorem safe_deleteLocalFileLocked (hget : s.db.index.get fileName = some current)
    (hname : current.name = fileName) (hlow : -2 ^ 63 ≤ current.version)
    (hhigh : current.version < 2 ^ 63) :
    Safe (engine baseDir) mutating (fun err s' => err = none → Wrote (tombstone current) s s')
      (deleteLocalFileLocked fileName) s := by
  refine safe_get_bind (fun err s' => safe_quiet_ret fun t ht h => absurd h (by simp)) ?_
  intro s₁ hs₁
  rw [hget]
  refine safe_quiet_bind (fun s => Quiet.refl s) fun err s₂ hs₂ => ?_
  have hquiet : Quiet s s₂ := hs₁.trans hs₂
  cases err with
  | some err => exact safe_quiet_ret fun t ht h => absurd h (by simp)
  | none =>
    have hself : effectiveEntry (s₂.db.index.get (tombstone current).name) (tombstone current) =
        some (tombstone current) := by
      change effectiveEntry (s₂.db.index.get current.name) _ = _
      rw [hquiet.index, hname, hget]
      exact effectiveEntry_bumped hlow hhigh rfl
    refine (safe_persistTombstone hself).bind Quiet.refl fun out s₃ hout => ?_
    obtain ⟨hcommitted, hstored⟩ := hout
    exact safe_finish hcommitted hstored fun finishErr t h herr => hquiet.wrote (h herr)

end Programs

/-! ## Local mutations -/

/-- A mutation of one file by the node itself. -/
inductive LocalMutation
  | save (content : Blob)
  | delete

/-- The part of a mutation that holds the lock. -/
def LocalMutation.locked (fileName : String) : LocalMutation → Prog Action (Option GoError)
  | .save content => saveLocalFileLocked fileName content
  | .delete => deleteLocalFileLocked fileName

/-- The entry that a mutation makes of the stored one. -/
def LocalMutation.next (current : IndexEntry) : LocalMutation → IndexEntry
  | .save content => { savedEntry current.name content with
      version := wrap64 (current.version + 1) }
  | .delete => tombstone current

/-- The stored entry beats the previous one, and is what was announced. -/
def Wins (fileName : String) (current : IndexEntry) (s s' : State) : Prop :=
  ∃ new, s'.db.index.get fileName = some new ∧ 0 < compareIndexEntries new current ∧
    s'.announced = s.announced ++ [new]

/-- A successful mutation stores the next entry and announces that one. -/
theorem LocalMutation.wrote {baseDir : CleanPath} {fileName : String} {s s' : State}
    (op : LocalMutation) (hget : s.db.index.get fileName = some current)
    (hname : current.name = fileName) (hlow : -2 ^ 63 ≤ current.version)
    (hhigh : current.version < 2 ^ 63)
    (hrun : Executes (engine baseDir) Quiet (op.locked fileName) s none s') :
    Wrote (op.next current) s s' := by
  have hsafe : Safe (engine baseDir) mutating
      (fun err s' => err = none → Wrote (op.next current) s s') (op.locked fileName) s := by
    cases op with
    | save content =>
      refine safe_saveLocalFileLocked hget hlow hhigh ?_
      rw [← hname]
      rfl
    | delete => exact safe_deleteLocalFileLocked hget hname hlow hhigh
  exact hsafe.executes Quiet.refl Quiet.trans (fun _ _ => trivial) (fun _ _ h => h) hrun rfl

/-- A successful mutation wins, unless the stored version is the largest there is. -/
theorem local_mutation_wins_iff (baseDir : CleanPath) (op : LocalMutation) (fileName : String)
    (current : IndexEntry) (s s' : State) (hget : s.db.index.get fileName = some current)
    (hname : current.name = fileName) (hlow : -2 ^ 63 ≤ current.version)
    (hhigh : current.version < 2 ^ 63)
    (hrun : Executes (engine baseDir) Quiet (op.locked fileName) s none s') :
    Wins fileName current s s' ↔ current.version < 2 ^ 63 - 1 := by
  have hwrote := op.wrote hget hname hlow hhigh hrun
  have hversion : (op.next current).version = wrap64 (current.version + 1) := by
    cases op <;> rfl
  have hkey : (op.next current).name = fileName := by
    cases op <;> exact hname
  have hstored : s'.db.index.get fileName = some (op.next current) := by
    rw [hwrote.index, hkey, Bucket.get_put, if_pos rfl]
  have hne : (op.next current).version ≠ current.version := by
    rw [hversion]
    rcases lt_or_eq_of_le (show current.version ≤ 2 ^ 63 - 1 by omega) with hlt | hmax
    · rw [wrap64_of_range (by omega) (by omega)]
      omega
    · rw [hmax, wrap64_max]
      decide
  rw [← lt_wrap64_succ_iff hlow hhigh, ← hversion, ← compareIndexEntries_of_version_ne hne]
  constructor
  · rintro ⟨new, hnew, hcompare, -⟩
    rw [hstored] at hnew
    rwa [Option.some.inj hnew]
  · exact fun hcompare => ⟨_, hstored, hcompare, hwrote.announced⟩

/-- A node that holds one entry. -/
def State.holding (entry : IndexEntry) : State :=
  { State.fresh with db := { Database.empty with index := Bucket.empty.put entry.name entry } }

/-- Saving over a file of version 4 stores version 5. -/
theorem local_mutation_wins_iff_next :
    let current : IndexEntry := ⟨"f", 3, digestA.text, 4, false⟩
    let s := State.holding current
    let out := (LocalMutation.locked "f" (.save ⟨digestA, 3⟩)).run (engine dataDir) s
    out.1.isNone = true ∧ Wins "f" current s out.2 := by
  intro current s out
  have hnone : out.1 = none := by
    have h : out.1.isNone = true := by decide +kernel
    exact Option.isNone_iff_eq_none.1 h
  have hrun : Executes (engine dataDir) Quiet (LocalMutation.locked "f" (.save ⟨digestA, 3⟩)) s
      none out.2 := hnone ▸ executes_run _ _
  refine ⟨by rw [hnone]; rfl, ?_⟩
  exact (local_mutation_wins_iff dataDir (.save ⟨digestA, 3⟩) "f" current s out.2 rfl rfl
    (by decide) (by decide) hrun).2 (by decide)

/-- Deleting a file of the largest version succeeds, and stores and announces an entry of
the smallest one. -/
theorem deletion_wraps_around :
    let current : IndexEntry := ⟨"f", 3, digestA.text, 2 ^ 63 - 1, false⟩
    let s := State.holding current
    let out := (LocalMutation.locked "f" .delete).run (engine dataDir) s
    let new : IndexEntry := ⟨"f", 3, digestA.text, -2 ^ 63, true⟩
    out.1.isNone = true ∧ out.2.db.index.get "f" = some new ∧
      compareIndexEntries new current < 0 ∧ out.2.announced = [new] := by
  decide +kernel

end Proxyma.Storage
