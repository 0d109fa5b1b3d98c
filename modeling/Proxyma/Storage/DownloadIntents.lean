import Proxyma.Storage.Confinement

/-!
# Intents that are still wanted

`ReconcileDownloadIntents` goes over the durable download intents without the
lock.  For each of them it reads the entry, the subscription and the blob in
separate steps, and gives the intent up in a later transaction that compares the
revision and nothing else.  An operation that holds the lock completes an intent
too, but what it has found out cannot change before it does.

So an intent whose file is the live entry of a subscribed name without a blob is
removed only by a reconciliation that has found something else before: a
subscription may come back, a blob may go, between its finding and its
transaction.  `Drops` says that the next action of a program would remove the
intent of a file, and `Undisturbed` that no step makes such a file wanted again.
Operations are safe by rely and guarantee (`intentKeeping`), reconciliations
because each step that leads to a removal has just seen that the file is not
wanted (`Checks`).
-/

namespace Proxyma.Storage

open Keyed Atomic Atomic.Prog GoError

/-! ## Reconciliation -/

def listDownloadIntents : Prog Action (Except GoError (List DownloadIntent)) :=
  perform (.view fun db => .ok (db.downloadIntents.entries.map Prod.snd))

def enqueueDownloadIntent (intent : DownloadIntent) : Prog Action (Option GoError) := do
  let (token, startCallback) ← perform (.downloads (reserveDownload intent))
  if !startCallback then return none
  match ← perform (.onDownloadNeeded intent.file intent.source) with
  | some err =>
    perform (.downloads (rollbackDownloadReservation intent.file.name token))
    return some err
  | none => return none

/-- One round of `ReconcileDownloadIntents`. -/
def reconcileIntent (intent : DownloadIntent) : Prog Action (Option GoError) := do
  match ← get intent.file.name with
  | .error err => return some err
  | .ok current =>
    if current = some intent.file ∧ intent.file.deleted = false then
      match ← isSubscribed intent.file.name with
      | .error err => return some err
      | .ok false => completeDownloadIntent intent.file
      | .ok true =>
        match ← perform (.blobExists intent.file.hash) with
        | .error err => return some err
        | .ok true => completeDownloadIntent intent.file
        | .ok false => enqueueDownloadIntent intent
    else completeDownloadIntent intent.file

/-- The loop of `ReconcileDownloadIntents`, which reports the first error. -/
def reconcileIntents : List DownloadIntent → Option GoError → Prog Action (Option GoError)
  | [], firstErr => return firstErr
  | intent :: rest, firstErr => do
      let err ← reconcileIntent intent
      reconcileIntents rest (firstErr <|> err)

def reconcileDownloadIntents : Prog Action (Option GoError) := do
  match ← listDownloadIntents with
  | .error err => return some err
  | .ok intents => reconcileIntents intents none

/-! ## The system -/

/-- An engine, the operation that holds `mutationMu` and the reconciliations
under way. -/
structure DownloadSystem where
  state : State
  holder : Option (Prog Action Unit)
  reconciling : List (Prog Action Unit)

/-- What can happen next.  A blob reaches `storeRemoteBlob` only under the hash
it has; `table` stands for the critical sections of `downloadMu`. -/
inductive DownloadMove
  | acquire (op : Operation) (hstored : ∀ fileInfo content,
      op = .storeRemoteBlob fileInfo content → content.hash.text = fileInfo.hash)
  | advance
  | reconcile
  | advanceReconcile (i : ℕ)
  | quarantineCorruptDownload (file : IndexEntry)
  | table (downloads : Downloads)
  | saveVerifiedPhysicalBlob (hash : Digest)
  | faults (failing : Faults)

def DownloadMove.apply (baseDir : CleanPath) : DownloadMove → DownloadSystem → DownloadSystem
  | acquire op _, ⟨s, none, threads⟩ => ⟨s, some op.locked, threads⟩
  | acquire _ _, ⟨s, some p, threads⟩ => ⟨s, some p, threads⟩
  | advance, ⟨s, none, threads⟩ => ⟨s, none, threads⟩
  | advance, ⟨s, some (.ret ()), threads⟩ => ⟨s, none, threads⟩
  | advance, ⟨s, some (.act e next), threads⟩ =>
    ⟨((engine baseDir).exec e s).2, some (next ((engine baseDir).exec e s).1), threads⟩
  | reconcile, ⟨s, holder, threads⟩ =>
    ⟨s, holder, threads ++ [reconcileDownloadIntents >>= fun _ => pure ()]⟩
  | advanceReconcile i, ⟨s, holder, threads⟩ =>
    match threads[i]? with
    | some (.act e next) =>
      ⟨((engine baseDir).exec e s).2, holder, threads.set i (next ((engine baseDir).exec e s).1)⟩
    | _ => ⟨s, holder, threads⟩
  | quarantineCorruptDownload file, ⟨s, holder, threads⟩ =>
    ⟨((completeDownloadIntent file).run (engine baseDir) s).2, holder, threads⟩
  | table downloads, ⟨s, holder, threads⟩ => ⟨{ s with downloads := downloads }, holder, threads⟩
  | saveVerifiedPhysicalBlob hash, ⟨s, holder, threads⟩ =>
    ⟨((engine baseDir).exec (.commit hash) s).2, holder, threads⟩
  | faults failing, ⟨s, holder, threads⟩ => ⟨{ s with faults := failing }, holder, threads⟩

/-- The system after some moves from a state in which nothing is under way. -/
def downloadRun (baseDir : CleanPath) (s : State) (moves : List DownloadMove) : DownloadSystem :=
  moves.foldl (fun m move => move.apply baseDir m) ⟨s, none, []⟩

/-! ## What is wanted -/

/-- There is a durable intent for this revision. -/
def HasIntent (db : Database) (file : IndexEntry) : Prop :=
  (db.downloadIntents.get file.name).map DownloadIntent.file = some file

instance (db : Database) (file : IndexEntry) : Decidable (HasIntent db file) :=
  inferInstanceAs (Decidable (_ = _))

/-- The revision is the current live entry of a subscribed name, and its blob is
missing. -/
def Wanted (baseDir : CleanPath) (s : State) (file : IndexEntry) : Prop :=
  s.db.index.get file.name = some file ∧ file.deleted = false ∧
    s.db.subscriptions.has file.name = true ∧ s.disk.blobExists baseDir file.hash = false

instance (baseDir : CleanPath) (s : State) (file : IndexEntry) :
    Decidable (Wanted baseDir s file) :=
  inferInstanceAs (Decidable (_ ∧ _))

/-- The next action of a program would remove the intent of a revision. -/
def Drops {α : Type} (baseDir : CleanPath) (p : Prog Action α) (file : IndexEntry) : Prop :=
  ∃ s : State, HasIntent s.db file ∧ ¬ HasIntent (p.after (engine baseDir) 1 s).2.db file

/-- While a reconciliation is about to remove the intent of a revision, a move
does not make the revision wanted. -/
def DownloadSystem.Undisturbed (baseDir : CleanPath) (m : DownloadSystem) (move : DownloadMove) :
    Prop :=
  ∀ p ∈ m.reconciling, ∀ file, Drops baseDir p file →
    Wanted baseDir (move.apply baseDir m).state file → Wanted baseDir m.state file

section Steps

variable {baseDir : CleanPath} {α β : Type}
variable {file : IndexEntry} {s s' : State} {p : Prog Action α}

/-- The entries and subscriptions are as before, and no file is gone. -/
structure Steady (s s' : State) : Prop where
  index : s'.db.index = s.db.index
  subscriptions : s'.db.subscriptions = s.db.subscriptions
  files : s.disk.files ⊆ s'.disk.files

theorem Steady.refl (s : State) : Steady s s := ⟨rfl, rfl, Finset.Subset.refl _⟩

theorem Steady.trans {a b c : State} (hab : Steady a b) (hbc : Steady b c) : Steady a c :=
  ⟨hbc.index.trans hab.index, hbc.subscriptions.trans hab.subscriptions, hab.files.trans hbc.files⟩

theorem Steady.wanted (h : Steady s s') (hwanted : Wanted baseDir s' file) :
    Wanted baseDir s file := by
  obtain ⟨hcurrent, hlive, hsubscribed, hmissing⟩ := hwanted
  rw [h.index] at hcurrent
  rw [h.subscriptions] at hsubscribed
  refine ⟨hcurrent, hlive, hsubscribed, ?_⟩
  simp only [Disk.blobExists, decide_eq_false_iff_not, not_and] at hmissing ⊢
  exact fun hvalid hfile => hmissing hvalid (h.files hfile)

/-- Completing one revision leaves the intent of another one alone. -/
theorem hasIntent_complete {db db' : Database} {other : IndexEntry} (h : HasIntent db file)
    (hne : file ≠ other) (htx : completeDownloadIntentTx other db = .ok ((), db')) :
    HasIntent db' file := by
  unfold completeDownloadIntentTx at htx
  split at htx
  · cases htx
    exact h
  rename_i intent hintent
  split_ifs at htx with hother
  · cases htx
    exact h
  cases htx
  have hname : file.name ≠ other.name := by
    intro hname
    rw [HasIntent, hname, hintent] at h
    exact hne ((Option.some.inj h).symm.trans (not_not.1 hother))
  rwa [HasIntent, Bucket.get_erase, if_neg hname]

theorem exec_complete (file : IndexEntry) (s : State) :
    Steady s ((engine baseDir).exec (.update (completeDownloadIntentTx file)) s).2 ∧
      ∀ other, other ≠ file → HasIntent s.db other →
        HasIntent ((engine baseDir).exec (.update (completeDownloadIntentTx file)) s).2.db other := by
  rcases exec_update_cases baseDir (completeDownloadIntentTx file) s with
    ⟨err, hexec⟩ | ⟨result, db, -, hok, hexec⟩ <;> rw [hexec]
  · exact ⟨Steady.refl s, fun _ _ hintent => hintent⟩
  · refine ⟨?_, fun other hne hintent => hasIntent_complete hintent hne hok⟩
    obtain ⟨intents, htx⟩ := completeDownloadIntentTx_eq file s.db
    cases hok.symm.trans htx
    exact ⟨rfl, rfl, Finset.Subset.refl _⟩

theorem run_completeDownloadIntent (file : IndexEntry) (s : State) :
    Steady s ((completeDownloadIntent file).run (engine baseDir) s).2 ∧
      ∀ other, other ≠ file → HasIntent s.db other →
        HasIntent ((completeDownloadIntent file).run (engine baseDir) s).2.db other := by
  obtain ⟨hsteady, hother⟩ := @exec_complete baseDir file s
  simp only [completeDownloadIntent, run_bind, run_perform]
  cases ((engine baseDir).exec (.update (completeDownloadIntentTx file)) s).1 with
  | error err => exact ⟨hsteady, hother⟩
  | ok _ => exact ⟨⟨hsteady.index, hsteady.subscriptions, hsteady.files⟩, hother⟩

/-! ## Reconciliations look first -/

/-- An action touches nothing but the disk's new files, the download table and
the hooks. -/
structure Bystands (s s' : State) : Prop extends Steady s s' where
  intents : s'.db.downloadIntents = s.db.downloadIntents

theorem Bystands.of_eq (hdb : s'.db = s.db) (hdisk : s'.disk = s.disk) : Bystands s s' := by
  refine ⟨⟨?_, ?_, ?_⟩, ?_⟩
  · rw [hdb]
  · rw [hdb]
  · rw [hdisk]
  · rw [hdb]

/-- Every action leaves what is wanted alone, and leads to a removal only if the
revision is not wanted at that moment. -/
def Checks (baseDir : CleanPath) : Prog Action α → Prop
  | .ret _ => True
  | .act e next => ∀ s : State, Steady s ((engine baseDir).exec e s).2 ∧
      Checks baseDir (next ((engine baseDir).exec e s).1) ∧
      ∀ file, Drops baseDir (next ((engine baseDir).exec e s).1) file →
        ¬ Wanted baseDir ((engine baseDir).exec e s).2 file

/-- A program that can go on from this state. -/
def Vetted (baseDir : CleanPath) (p : Prog Action α) (s : State) : Prop :=
  Checks baseDir p ∧ ∀ file, Drops baseDir p file → ¬ Wanted baseDir s file

theorem vetted_ret (a : α) (s : State) : Vetted baseDir (.ret a) s :=
  ⟨trivial, fun _ ⟨_, hintent, hgone⟩ => absurd hintent hgone⟩

theorem vetted_of_only (hp : Only (engine baseDir) Bystands p) (s : State) :
    Vetted baseDir p s := by
  induction p generalizing s with
  | ret a => exact vetted_ret a s
  | act e next ih =>
    refine ⟨fun s => ⟨(hp.1 s).toSteady, ih _ (hp.2 _) _⟩, fun file hdrops => ?_⟩
    obtain ⟨s', hintent, hgone⟩ := hdrops
    refine absurd ?_ hgone
    rw [HasIntent]
    exact (hp.1 s').intents.symm ▸ hintent

theorem Vetted.bind {g : α → Prog Action β} (hp : Vetted baseDir p s)
    (hg : ∀ a s, Vetted baseDir (g a) s) : Vetted baseDir (p >>= g) s := by
  induction p generalizing s with
  | ret a => exact hg a s
  | act e next ih => exact ⟨fun s => ⟨(hp.1 s).1, ih _ (hp.1 s).2⟩, hp.2⟩

theorem vetted_look {e : Action (Except GoError β)} {next : Except GoError β → Prog Action α}
    {found : State → β} (he : ∀ s, (∃ err, (engine baseDir).exec e s = (.error err, s)) ∨
      (engine baseDir).exec e s = (.ok (found s), s))
    (herror : ∀ err s, Vetted baseDir (next (.error err)) s)
    (hok : ∀ s, Vetted baseDir (next (.ok (found s))) s) (s : State) :
    Vetted baseDir (.act e next) s := by
  have hsame : ∀ s, ((engine baseDir).exec e s).2 = s := fun s => by
    rcases he s with ⟨err, hexec⟩ | hexec <;> rw [hexec]
  refine ⟨fun s => ?_, fun file ⟨s', hintent, hgone⟩ => absurd ?_ hgone⟩
  · rcases he s with ⟨err, hexec⟩ | hexec <;> rw [hexec]
    · exact ⟨Steady.refl s, herror err s⟩
    · exact ⟨Steady.refl s, hok s⟩
  · exact (hsame s').symm ▸ hintent

theorem vetted_completeDownloadIntent (h : ¬ Wanted baseDir s file) :
    Vetted baseDir (completeDownloadIntent file) s := by
  have hrelease : Only (engine baseDir) Bystands
      (perform (.downloads (releaseDownloadIntent file)) >>= fun _ => pure (none : Option GoError)) :=
    (only_perform fun s => .of_eq rfl rfl).bind fun _ => trivial
  refine ⟨fun s => ⟨(exec_complete file s).1, ?_⟩, fun other ⟨s', hintent, hgone⟩ hwanted => ?_⟩
  · simp only [Prog.bind]
    cases ((engine baseDir).exec (.update (completeDownloadIntentTx file)) s).1 with
    | error err => exact vetted_ret _ _
    | ok _ => exact vetted_of_only hrelease _
  · by_cases hother : other = file
    · exact h (hother ▸ hwanted)
    · exact hgone ((exec_complete file s').2 other hother hintent)

theorem only_enqueueDownloadIntent (intent : DownloadIntent) :
    Only (engine baseDir) Bystands (enqueueDownloadIntent intent) := by
  refine (only_perform fun s => .of_eq rfl rfl).bind fun out => ?_
  obtain ⟨token, startCallback⟩ := out
  rcases startCallback with _ | _
  · trivial
  refine (only_perform fun s => .of_eq rfl rfl).bind fun err => ?_
  cases err with
  | some err => exact (only_perform fun s => .of_eq rfl rfl).bind fun _ => trivial
  | none => trivial

theorem exec_blobExists_cases (hash : String) (s : State) :
    (∃ err, (engine baseDir).exec (.blobExists hash) s = (.error err, s)) ∨
      (engine baseDir).exec (.blobExists hash) s = (.ok (s.disk.blobExists baseDir hash), s) := by
  simp only [engine, exec, orFault]
  cases (if isValidCASHash hash then s.faults.blobExists else none) with
  | some err => exact .inl ⟨err, rfl⟩
  | none => exact .inr rfl

/-- Each of the three looks is the reason for what comes next. -/
theorem vetted_reconcileIntent (intent : DownloadIntent) :
    ∀ s, Vetted baseDir (reconcileIntent intent) s := by
  refine vetted_look (exec_view_cases baseDir _) (fun _ => vetted_ret _) fun s => ?_
  simp only [Prog.bind]
  split_ifs with hcurrent
  · have hlook := exec_view_cases baseDir fun db => .ok (db.subscriptions.has intent.file.name)
    refine vetted_look hlook (by exact fun _ => vetted_ret _) (fun s => ?_) s
    simp only [Prog.bind]
    cases hsubscribed : s.db.subscriptions.has intent.file.name with
    | false =>
      refine vetted_completeDownloadIntent fun hwanted => ?_
      simp [hwanted.2.2.1] at hsubscribed
    | true =>
      have hlook := @exec_blobExists_cases baseDir intent.file.hash
      refine vetted_look hlook (by exact fun _ => vetted_ret _) (fun s => ?_) s
      simp only [Prog.bind]
      rcases hblob : s.disk.blobExists baseDir intent.file.hash with _ | _
      · exact vetted_of_only (only_enqueueDownloadIntent intent) s
      refine vetted_completeDownloadIntent fun hwanted => ?_
      simp [hwanted.2.2.2] at hblob
  · exact vetted_completeDownloadIntent fun hwanted => hcurrent ⟨hwanted.1, hwanted.2.1⟩

theorem vetted_reconcileIntents (intents : List DownloadIntent) (firstErr : Option GoError) :
    ∀ s, Vetted baseDir (reconcileIntents intents firstErr) s := by
  induction intents generalizing firstErr with
  | nil => exact vetted_ret firstErr
  | cons intent rest ih => exact fun s => (vetted_reconcileIntent intent s).bind fun _ => ih _

theorem vetted_reconcileDownloadIntents (s : State) :
    Vetted baseDir (reconcileDownloadIntents >>= fun _ => pure ()) s := by
  have hlook := exec_view_cases baseDir fun db => .ok (db.downloadIntents.entries.map Prod.snd)
  refine Vetted.bind (vetted_look hlook (by exact fun _ => vetted_ret _) ?_ s) fun _ => vetted_ret ()
  exact fun s => vetted_reconcileIntents _ none s

/-! ## Operations under the lock -/

/-- No wanted intent is removed. -/
def KeepsWanted (baseDir : CleanPath) (s s' : State) : Prop :=
  ∀ file, HasIntent s.db file → Wanted baseDir s file → HasIntent s'.db file

/-- What an operation under the lock may count on, and what it has to keep. -/
def intentKeeping (baseDir : CleanPath) : Contract Action State where
  assume := fun _ _ => True
  rely := Steady
  guarantee := KeepsWanted baseDir

/-- An operation that keeps the contract. -/
def Preserves (baseDir : CleanPath) (p : Prog Action α) : Prop :=
  ∀ s, Safe (engine baseDir) (intentKeeping baseDir) (fun _ _ => True) p s

/-- The intents are as before. -/
def SameIntents (s s' : State) : Prop := s'.db.downloadIntents = s.db.downloadIntents

theorem SameIntents.keepsWanted (h : SameIntents s s') : KeepsWanted baseDir s s' := by
  intro file hintent _
  rwa [HasIntent, h]

theorem preserves_of_only (hp : Only (engine baseDir) (KeepsWanted baseDir) p) :
    Preserves baseDir p :=
  fun s => Only.safe_among (c := intentKeeping baseDir) (hp.mono fun _ _ h => ⟨trivial, h⟩)
    (fun _ _ => trivial) (fun _ _ _ => trivial) s

theorem preserves_of_sameIntents (hp : Only (engine baseDir) SameIntents p) : Preserves baseDir p :=
  preserves_of_only (hp.mono fun _ _ h => h.keepsWanted)

theorem sameIntents_update {write : Database → Except GoError (α × Database)}
    (hwrite : ∀ db result db', write db = .ok (result, db') →
      db'.downloadIntents = db.downloadIntents) (s : State) :
    SameIntents s ((engine baseDir).exec (.update write) s).2 :=
  exec_update_keeps baseDir rfl (hwrite _ _ _)

theorem aside_sameIntents : Aside SameIntents :=
  fun _ _ hdb _ => by rw [SameIntents, hdb]

theorem sameIntents_release (file : IndexEntry) (err : Option GoError) :
    Only (engine baseDir) SameIntents
      (perform (.downloads (releaseDownloadIntent file)) >>= fun _ => pure err) :=
  (aside_sameIntents.action fun _ => ⟨rfl, rfl⟩).bind fun _ => trivial

theorem sameIntents_upsert (entry : IndexEntry) (s : State) :
    SameIntents s ((engine baseDir).exec (.update (upsertTx entry)) s).2 ∧
      SameIntents s ((engine baseDir).exec (.update (upsertAndSubscribeTx entry)) s).2 := by
  constructor <;> refine sameIntents_update (fun db result db' hok => ?_) s
  · rcases upsert_cases entry db with ⟨_, -, -, htx, -⟩ |
      ⟨written, -, ⟨-, htx, -⟩ | ⟨-, ⟨err, htx⟩, -⟩⟩ <;> rw [htx] at hok <;> cases hok <;> rfl
  · rcases upsert_cases entry db with ⟨_, -, -, -, htx⟩ |
      ⟨written, -, ⟨-, -, htx⟩ | ⟨-, -, err, htx⟩⟩ <;> rw [htx] at hok <;> cases hok <;> rfl

theorem sameIntents_setSubscription (fileName : String) (isSubscribed : Bool) (s : State) :
    SameIntents s ((engine baseDir).exec (.update (setSubscriptionTx fileName isSubscribed)) s).2 := by
  refine sameIntents_update (fun db result db' hok => ?_) s
  rcases setSubscriptionTx_cases fileName isSubscribed db with ⟨err, htx⟩ | ⟨_, htx⟩ <;>
    rw [htx] at hok <;> cases hok
  rfl

theorem sameIntents_prune (taskID : String) (s : State) :
    SameIntents s ((engine baseDir).exec (.update (pruneTx taskID)) s).2 := by
  refine sameIntents_update (fun db result db' hok => ?_) s
  rcases pruneTx_cases taskID db with ⟨err, htx⟩ | ⟨records, _, -, rfl, htx⟩ <;>
    rw [htx] at hok <;> cases hok
  rfl

theorem sameIntents_sweep : Only (engine baseDir) SameIntents sweepPendingBlobGCLocked := by
  refine only_sweepPendingBlobGCLocked baseDir (fun _ => rfl)
    (fun hash => (aside_sameIntents.deleteBlob .sweep hash).1) ?_
  refine fun completed => sameIntents_update fun db result db' hok => ?_
  cases hok
  rfl

theorem sameIntents_pruneLocked (taskID : String) :
    Only (engine baseDir) SameIntents (pruneLocked taskID) := by
  refine (only_perform (sameIntents_prune taskID)).bind fun r => ?_
  rcases r with err | blobs
  · trivial
  dsimp only
  split_ifs
  · trivial
  · exact sameIntents_sweep

theorem sameIntents_upsertIndexLocked (entry : IndexEntry) :
    Only (engine baseDir) SameIntents (upsertIndexLocked entry) :=
  (operative_only aside_sameIntents).upsertIndexLocked sameIntents_sweep
    (leads_only (only_perform fun s => (sameIntents_upsert entry s).1))

/-- A new intent takes the place of one for a revision that is not current. -/
theorem keepsWanted_persist (file : IndexEntry) (source : String) :
    Only (engine baseDir) (KeepsWanted baseDir) (persistDownloadIntentLocked file source) := by
  have haside : Aside (KeepsWanted baseDir) := fun s s' hdb _ =>
    SameIntents.keepsWanted (by rw [SameIntents, hdb])
  refine (operative_only haside).persistDownloadIntentLocked (only_perform fun s => ?_)
  rcases exec_update_cases baseDir (persistDownloadIntentTx file source) s with
    ⟨err, hexec⟩ | ⟨result, db, -, hok, hexec⟩ <;> rw [hexec]
  · exact fun _ hintent _ => hintent
  rcases persistDownloadIntentTx_cases file source s.db with
    ⟨err, htx⟩ | ⟨hcurrent, -, -, -, htx⟩ <;> rw [htx] at hok <;> cases hok
  intro other hintent hwanted
  rw [HasIntent, Bucket.get_put]
  split_ifs with hname
  · rw [Option.map_some]
    have hother := hwanted.1
    rwa [hname, hcurrent] at hother
  · exact hintent

/-- Completing a revision that is not wanted, now or after interference. -/
theorem safe_completeDownloadIntent (hunwanted : ∀ s', Steady s s' → ¬ Wanted baseDir s' file) :
    Safe (engine baseDir) (intentKeeping baseDir) (fun _ _ => True) (completeDownloadIntent file)
      s := by
  refine safe_perform_bind fun s' hrely _ => ⟨fun other hintent hwanted => ?_, ?_⟩
  · refine (exec_complete file s').2 other ?_ hintent
    rintro rfl
    exact hunwanted s' hrely hwanted
  · cases ((engine baseDir).exec (.update (completeDownloadIntentTx file)) s').1 with
    | error err => exact fun _ _ => trivial
    | ok _ => exact preserves_of_sameIntents (sameIntents_release file none) _

theorem Preserves.bind {g : α → Prog Action β} (hp : Preserves baseDir p)
    (hg : ∀ a, Preserves baseDir (g a)) : Preserves baseDir (p >>= g) :=
  fun s => (hp s).bind Steady.refl fun a s' _ => hg a s'

theorem preserves_processRemoteDeletionLocked (fileInfo : IndexEntry) :
    Preserves baseDir (processRemoteDeletionLocked fileInfo) := by
  refine (preserves_of_sameIntents (sameIntents_upsertIndexLocked fileInfo)).bind fun out => ?_
  obtain ⟨updated, _ | err⟩ := out
  · refine (preserves_of_sameIntents (aside_sameIntents.view _)).bind fun r => ?_
    rcases r with err | current
    · exact preserves_of_sameIntents trivial
    dsimp only
    split_ifs with htombstone
    · refine fun s => safe_completeDownloadIntent fun s' _ hwanted => ?_
      rw [hwanted.2.1] at htombstone
      exact absurd htombstone.2 (by decide)
    · exact preserves_of_sameIntents trivial
  · exact preserves_of_sameIntents trivial

/-- A stored blob is there until the intent is completed; if its file is no longer
current, it stays so. -/
theorem preserves_storeRemoteBlobLocked {fileInfo : IndexEntry} {content : Blob}
    (hstored : content.hash.text = fileInfo.hash) :
    Preserves baseDir (storeRemoteBlobLocked fileInfo content) := by
  intro s
  refine safe_perform_bind fun s₁ _ _ =>
    ⟨((aside_sameIntents.commit content.hash).1 s₁).keepsWanted, ?_⟩
  rcases exec_commit_cases baseDir content.hash s₁ with ⟨err, hexec⟩ | hexec <;> rw [hexec]
  · exact preserves_of_sameIntents (sameIntents_release fileInfo _) _
  have hblob : baseDir.join fileInfo.hash ∈
      (s₁.disk.commit baseDir content.hash).2.files := by
    rw [← hstored]
    exact Disk.mem_files_commit _ _ _
  have hvalid : isValidCASHash fileInfo.hash = true := hstored ▸ content.hash.isDigest.1
  refine safe_perform_bind fun s₂ hrely₂ _ => ⟨((aside_sameIntents.view _).1 s₂).keepsWanted, ?_⟩
  rcases exec_view_cases baseDir (fun db => .ok (db.index.get fileInfo.name)) s₂ with
    ⟨err, hexec⟩ | hexec <;> rw [hexec] <;> dsimp only
  · refine preserves_of_sameIntents (Only.bind ((operative_only
      aside_sameIntents).compensatePhysicalBlob fun _ => trivial) fun cleanupErr => ?_) _
    cases cleanupErr <;> trivial
  split_ifs with hcurrent
  · refine safe_completeDownloadIntent fun s₃ hrely₃ hwanted => ?_
    have hmissing := hwanted.2.2.2
    simp only [Disk.blobExists, hvalid, decide_eq_false_iff_not, true_and] at hmissing
    exact hmissing (hrely₃.files (hrely₂.files hblob))
  · have hgone : ∀ s₃ : State, s₃.db.index = s₂.db.index → ¬ Wanted baseDir s₃ fileInfo := by
      intro s₃ hindex hwanted
      apply hcurrent
      rw [← hindex, hwanted.1, Option.any_some]
      simp [hwanted.2.1]
    have horphan : Only (engine baseDir) (fun s s' => s'.db.index = s.db.index ∧
        KeepsWanted baseDir s s') (deleteBlobIfOrphan fileInfo.hash false) :=
      Aside.deleteBlobIfOrphan (fun s s' hdb hfaults => ⟨by rw [hdb],
        (aside_sameIntents s s' hdb hfaults).keepsWanted⟩) fileInfo.hash false
    have hcheck := Only.safe_among (c := intentKeeping baseDir) horphan
      (fun hab hbd => hbd.trans hab) (fun _ _ hrely => hrely.index) s₂
    refine hcheck.bind Steady.refl fun gcErr s₃ hindex => ?_
    have hcomplete : Safe (engine baseDir) (intentKeeping baseDir) (fun _ _ => True)
        (completeDownloadIntent fileInfo) s₃ :=
      safe_completeDownloadIntent fun s₄ hrely => hgone s₄ (hrely.index.trans hindex)
    exact hcomplete.bind Steady.refl fun _ _ _ => fun _ _ => trivial

theorem Operation.preserves (op : Operation) (hstored : ∀ fileInfo content,
    op = .storeRemoteBlob fileInfo content → content.hash.text = fileInfo.hash) :
    Preserves baseDir op.locked := by
  have hdone : ∀ {α : Type} {p : Prog Action α}, Preserves baseDir p →
      Preserves baseDir (p >>= fun _ => pure ()) :=
    fun hp => hp.bind fun _ => preserves_of_sameIntents trivial
  have hsame : ∀ {α : Type} {p : Prog Action α}, Only (engine baseDir) SameIntents p →
      Preserves baseDir (p >>= fun _ => pure ()) :=
    fun hp => hdone (preserves_of_sameIntents hp)
  have ops : Operative (fun _ _ p => Only (engine baseDir) SameIntents p) (fun _ => True)
      fun _ => True := operative_only aside_sameIntents
  have hsubscribe := fun (entry : IndexEntry) (_ : True) =>
    leads_only (only_perform fun s => (@sameIntents_upsert baseDir entry s).2)
  cases op with
  | setSubscription fileName isSubscribed =>
    exact hsame (ops.setSubscriptionLocked (only_perform (sameIntents_setSubscription _ _)))
  | upsertIndex entry => exact hsame (sameIntents_upsertIndexLocked entry)
  | processRemoteDeletion fileInfo => exact hdone (preserves_processRemoteDeletionLocked fileInfo)
  | deleteLocalFile fileName =>
    exact hsame (ops.deleteLocalFileLocked sameIntents_sweep fun entry _ =>
      leads_only (only_perform fun s => (sameIntents_upsert entry s).1))
  | deleteLocalCache fileName =>
    exact hsame (ops.deleteLocalCacheLocked (only_perform (sameIntents_setSubscription _ _)))
  | upsertAndSubscribe entry notify =>
    exact hsame (ops.upsertAndSubscribeLocked sameIntents_sweep hsubscribe trivial notify)
  | saveLocalFile fileName content =>
    exact hsame (ops.saveLocalFileLocked sameIntents_sweep hsubscribe fileName content)
  | stageLocalFile pathStr content =>
    exact hsame (ops.stageLocalFileLocked sameIntents_sweep hsubscribe pathStr content)
  | storeRemoteBlob fileInfo content =>
    exact hdone (preserves_storeRemoteBlobLocked (hstored fileInfo content rfl))
  | requestRemoteDownload file source =>
    exact hdone (preserves_of_only (keepsWanted_persist file source))
  | sweepPendingBlobGC => exact hsame sameIntents_sweep
  | pruneIntermediateTaskData taskID => exact hsame (sameIntents_pruneLocked taskID)

/-! ## Runs -/

/-- The operation that holds the lock keeps its contract, and a reconciliation is
about to remove the intents of unwanted revisions only. -/
structure DownloadSystem.Sound (baseDir : CleanPath) (m : DownloadSystem) : Prop where
  holder : ∀ p, m.holder = some p →
    Safe (engine baseDir) (intentKeeping baseDir) (fun _ _ => True) p m.state
  reconciling : ∀ p ∈ m.reconciling, Checks baseDir p ∧
    ∀ file, Drops baseDir p file → ¬ Wanted baseDir m.state file

namespace DownloadSystem

variable {m : DownloadSystem}

theorem Sound.steady (hm : m.Sound baseDir) {s' : State} (h : Steady m.state s') :
    DownloadSystem.Sound baseDir ⟨s', m.holder, m.reconciling⟩ where
  holder := fun p hp => (hm.holder p hp).stable Steady.trans h
  reconciling := fun p hp => ⟨(hm.reconciling p hp).1, fun file hfile hwanted =>
    (hm.reconciling p hp).2 file hfile (h.wanted hwanted)⟩

/-- A reconciliation performs one action, or there is none to perform. -/
theorem advanceReconcile_cases (i : ℕ) (m : DownloadSystem) :
    (DownloadMove.advanceReconcile i).apply baseDir m = m ∨
      ∃ (β : Type) (e : Action β) (next : β → Prog Action Unit), .act e next ∈ m.reconciling ∧
        (DownloadMove.advanceReconcile i).apply baseDir m =
          ⟨((engine baseDir).exec e m.state).2, m.holder,
            m.reconciling.set i (next ((engine baseDir).exec e m.state).1)⟩ := by
  obtain ⟨s, holder, threads⟩ := m
  simp only [DownloadMove.apply]
  split
  next e next hthread => exact .inr ⟨_, e, next, List.mem_of_getElem? hthread, rfl⟩
  · exact .inl rfl

theorem Sound.apply (hm : m.Sound baseDir) (move : DownloadMove)
    (hmove : m.Undisturbed baseDir move) : (move.apply baseDir m).Sound baseDir := by
  obtain ⟨s, holder, threads⟩ := m
  cases move with
  | acquire op hstored =>
    cases holder with
    | none =>
      refine ⟨fun p hp => ?_, hm.reconciling⟩
      cases hp
      exact op.preserves hstored s
    | some p => exact hm
  | advance =>
    rcases holder with _ | _ | ⟨e, next⟩
    · exact hm
    · exact ⟨fun p hp => (by cases hp), hm.reconciling⟩
    refine ⟨fun p hp => ?_, fun p hp => ?_⟩
    · cases hp
      exact (hm.holder _ rfl s (Steady.refl s) trivial).2
    · obtain ⟨hchecks, hvetted⟩ := hm.reconciling p hp
      exact ⟨hchecks, fun file hfile hwanted =>
        hvetted file hfile (hmove p hp file hfile hwanted)⟩
  | reconcile =>
    refine ⟨hm.holder, fun p hp => ?_⟩
    rcases List.mem_append.1 hp with hp | hp
    · exact hm.reconciling p hp
    · obtain rfl := List.mem_singleton.1 hp
      exact vetted_reconcileDownloadIntents s
  | advanceReconcile i =>
    rcases advanceReconcile_cases i ⟨s, holder, threads⟩ with hsame | ⟨β, e, next, hmem, happly⟩
    · rwa [hsame]
    rw [happly]
    obtain ⟨hsteady, hchecks, hvetted⟩ := (hm.reconciling _ hmem).1 s
    have hrest := hm.steady hsteady
    refine ⟨hrest.holder, fun p hp => ?_⟩
    rcases List.mem_or_eq_of_mem_set hp with hp | rfl
    · exact hrest.reconciling p hp
    · exact ⟨hchecks, hvetted⟩
  | quarantineCorruptDownload file => exact hm.steady (run_completeDownloadIntent file s).1
  | table downloads => exact hm.steady ⟨rfl, rfl, Finset.Subset.refl _⟩
  | saveVerifiedPhysicalBlob hash =>
    refine hm.steady ?_
    rcases exec_commit_cases baseDir hash s with ⟨err, hexec⟩ | hexec <;> rw [hexec]
    · exact Steady.refl s
    · exact ⟨rfl, rfl, Disk.files_subset_commit _ _ _⟩
  | faults failing => exact hm.steady ⟨rfl, rfl, Finset.Subset.refl _⟩

theorem Sound.keepsWanted (hm : m.Sound baseDir) (move : DownloadMove) {file : IndexEntry}
    (hintent : HasIntent m.state.db file) (hwanted : Wanted baseDir m.state file)
    (hmove : move ≠ .quarantineCorruptDownload file) :
    HasIntent (move.apply baseDir m).state.db file := by
  obtain ⟨s, holder, threads⟩ := m
  cases move with
  | acquire op hstored => cases holder <;> exact hintent
  | advance =>
    rcases holder with _ | _ | ⟨e, next⟩
    · exact hintent
    · exact hintent
    · exact (hm.holder _ rfl s (Steady.refl s) trivial).1 file hintent hwanted
  | reconcile => exact hintent
  | advanceReconcile i =>
    rcases advanceReconcile_cases i ⟨s, holder, threads⟩ with hsame | ⟨β, e, next, hmem, happly⟩
    · rwa [hsame]
    · rw [happly]
      by_contra hgone
      exact (hm.reconciling _ hmem).2 file ⟨s, hintent, hgone⟩ hwanted
  | quarantineCorruptDownload other =>
    refine (run_completeDownloadIntent other s).2 file ?_ hintent
    rintro rfl
    exact hmove rfl
  | table downloads => exact hintent
  | saveVerifiedPhysicalBlob hash =>
    have hsame : SameIntents s ((engine baseDir).exec (.commit hash) s).2 :=
      (aside_sameIntents.commit hash).1 s
    exact hsame.keepsWanted file hintent hwanted
  | faults failing => exact hintent

end DownloadSystem

end Steps

theorem sound_downloadRun (baseDir : CleanPath) (s : State) (moves : List DownloadMove)
    (hundisturbed : ∀ earlier move later, moves = earlier ++ move :: later →
      (downloadRun baseDir s earlier).Undisturbed baseDir move) :
    (downloadRun baseDir s moves).Sound baseDir := by
  induction moves using List.reverseRecOn with
  | nil => exact ⟨fun p hp => (by cases hp), fun p hp => absurd hp List.not_mem_nil⟩
  | append_singleton moves move ih =>
    have hbefore := ih fun earlier move' later heq =>
      hundisturbed earlier move' (later ++ [move]) (by rw [heq]; simp)
    rw [downloadRun, List.foldl_append]
    exact hbefore.apply move (hundisturbed moves move [] rfl)

/-- From any state, in a run in which no step makes a revision wanted while a
reconciliation is about to give it up, the intent of a wanted revision is removed
by integrity quarantine only; and at no point does completing or releasing another
revision remove it. -/
theorem wanted_intents_kept (baseDir : CleanPath) (s : State) (moves : List DownloadMove)
    (hundisturbed : ∀ earlier move later, moves = earlier ++ move :: later →
      (downloadRun baseDir s earlier).Undisturbed baseDir move)
    (file : IndexEntry) (hintent : HasIntent (downloadRun baseDir s moves).state.db file) :
    (∀ move, Wanted baseDir (downloadRun baseDir s moves).state file →
        move ≠ .quarantineCorruptDownload file →
        HasIntent (downloadRun baseDir s (moves ++ [move])).state.db file) ∧
      ∀ other, other ≠ file →
        HasIntent ((completeDownloadIntent other).run (engine baseDir)
          (downloadRun baseDir s moves).state).2.db file ∧
        HasIntent ((engine baseDir).exec (.downloads (releaseDownloadIntent other))
          (downloadRun baseDir s moves).state).2.db file := by
  refine ⟨fun move hwanted hmove => ?_, fun other hother => ⟨?_, hintent⟩⟩
  · rw [downloadRun, List.foldl_append]
    exact (sound_downloadRun baseDir s moves hundisturbed).keepsWanted move hintent hwanted hmove
  · exact (run_completeDownloadIntent other _).2 file hother.symm hintent

/-- A file whose blob has not arrived. -/
def awaitedFile : IndexEntry := ⟨"f", 3, digestA.text, 1, false⟩

/-- An engine with an intent for it. -/
def State.intending (subscriptions : Bucket String Unit) : State :=
  { State.opened with
    db := { Database.empty with
      index := Bucket.empty.put "f" awaitedFile
      subscriptions := subscriptions
      downloadIntents := Bucket.empty.put "f" ⟨awaitedFile, "peer"⟩ } }

/-- A reconciliation finds the file current, and its intent stays. -/
theorem wanted_intents_kept_current :
    HasIntent (downloadRun dataDir (.intending (Bucket.empty.put "f" ()))
      ([.reconcile, .advanceReconcile 0] ++ [.advanceReconcile 0])).state.db awaitedFile := by
  refine (wanted_intents_kept dataDir (.intending (Bucket.empty.put "f" ()))
    [.reconcile, .advanceReconcile 0] ?_ awaitedFile (by decide)).1 _ (by decide) nofun
  intro earlier move later heq
  rcases earlier with _ | ⟨_, _ | ⟨_, earlier⟩⟩
  · exact fun p hp => absurd hp List.not_mem_nil
  · simp only [List.cons_append, List.nil_append, List.cons.injEq] at heq
    obtain ⟨rfl, rfl, -⟩ := heq
    exact fun p _ file _ hwanted => hwanted
  · simp at heq

/-- A reconciliation finds that nobody subscribes to the file.  The subscription
comes back, and the intent is removed although it is wanted. -/
theorem reconciliation_forgets_intent :
    let moves : List DownloadMove := [.reconcile, .advanceReconcile 0, .advanceReconcile 0,
      .advanceReconcile 0, .acquire (.setSubscription "f" true) nofun, .advance]
    let s := State.intending .empty
    HasIntent (downloadRun dataDir s moves).state.db awaitedFile ∧
      Wanted dataDir (downloadRun dataDir s moves).state awaitedFile ∧
      ¬ HasIntent (downloadRun dataDir s (moves ++ [.advanceReconcile 0])).state.db
        awaitedFile := by
  decide

end Proxyma.Storage
