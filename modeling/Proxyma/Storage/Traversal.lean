import Proxyma.Storage.Remote

/-!
# One pass through the operations

The operations of the engine are all made of the same few transactions and
actions.  Here their code is taken apart once, for every judgement about programs
that allows to put programs one after the other (`Operative`): an operation is in
order if its transactions are.  A frame is such a judgement (`operative_only`), and
so is an invariant under interference.
-/

namespace Proxyma.Storage

open Keyed Atomic Atomic.Prog GoError

section Actions

variable (baseDir : CleanPath) {α : Type}

@[simp] theorem exec_view_snd (read : Database → Except GoError α) (s : State) :
    ((engine baseDir).exec (.view read) s).2 = s := by
  simp only [engine, exec, orFault]
  cases s.faults.view <;> rfl

theorem exec_view_cases (read : Database → Except GoError α) (s : State) :
    (∃ err, (engine baseDir).exec (.view read) s = (.error err, s)) ∨
      (engine baseDir).exec (.view read) s = (read s.db, s) := by
  simp only [engine, exec, orFault]
  cases s.faults.view with
  | some err => exact .inl ⟨err, rfl⟩
  | none => exact .inr rfl

/-- A failed transaction leaves the state alone, a committed one changes only
the database. -/
theorem exec_update_cases (write : Database → Except GoError (α × Database)) (s : State) :
    (∃ err, (engine baseDir).exec (.update write) s = (.error err, s)) ∨
      ∃ result db, s.faults.update = none ∧ write s.db = .ok (result, db) ∧
        (engine baseDir).exec (.update write) s = (.ok result, { s with db := db }) := by
  simp only [engine, exec, orFault]
  cases hfault : s.faults.update with
  | some err => exact .inl ⟨err, rfl⟩
  | none =>
    cases hwrite : write s.db with
    | error err => exact .inl ⟨err, by simp⟩
    | ok out => exact .inr ⟨out.1, out.2, rfl, rfl, by simp⟩

theorem exec_update_keeps {P : State → Prop} {write : Database → Except GoError (α × Database)}
    {s : State} (hsame : P s)
    (hcommit : ∀ {result db}, write s.db = .ok (result, db) → P { s with db := db }) :
    P ((engine baseDir).exec (.update write) s).2 := by
  rcases exec_update_cases baseDir write s with
    ⟨err, hexec⟩ | ⟨result, db, -, hok, hexec⟩ <;> rw [hexec]
  · exact hsame
  · exact hcommit hok

/-- A deletion fails or is done; either way only the disk changes. -/
theorem exec_deleteBlob_snd (caller : Deleter) (hash : String) (s : State) :
    ((engine baseDir).exec (.deleteBlob caller hash) s).2 = s ∨
      ((engine baseDir).exec (.deleteBlob caller hash) s).2 =
        { s with disk := (s.disk.deleteBlob baseDir hash).2 } := by
  simp only [engine, exec]
  cases s.faults.remove with
  | some err => exact .inl rfl
  | none => exact .inr rfl

theorem exec_commit_cases (hash : Digest) (s : State) :
    (∃ err, (engine baseDir).exec (.commit hash) s = (.error err, s)) ∨
      (engine baseDir).exec (.commit hash) s =
        (.ok (baseDir.join hash.text ∉ s.disk.files),
          { s with disk := (s.disk.commit baseDir hash).2 }) := by
  simp only [engine, exec, orFault]
  cases s.faults.commit with
  | some err => exact .inl ⟨err, rfl⟩
  | none => exact .inr rfl

end Actions

/-! ## Judgements -/

/-- A judgement about programs that covers what operations do besides their
transactions.  `K true` allows to write an entry, `K false` is for the rest.
Entries are read with hashes that satisfy `fits`, and a blob is deleted again only
if it was created and meets `undo`. -/
structure Operative (K : Bool → ⦃α : Type⦄ → Prog Action α → Prop) (fits undo : String → Prop) :
    Prop where
  ret : ∀ {w : Bool} {α : Type} (a : α), K w (.ret a)
  bind : ∀ {w : Bool} {α β : Type} {p : Prog Action α} {g : α → Prog Action β}, K false p →
    (∀ a, K w (g a)) → K w (p >>= g)
  after : ∀ {α β : Type} {p : Prog Action α} {g : α → Prog Action β}, K true p →
    (∀ a, K false (g a)) → K true (p >>= g)
  digest : ∀ hash : Digest, fits hash.text
  get : ∀ {w : Bool} {α : Type} {name : String}
    {g : Except GoError (Option IndexEntry) → Prog Action α},
    (∀ r, (∀ e, r = .ok (some e) → fits e.hash) → K w (g r)) → K w (get name >>= g)
  prepareNotification : ∀ entry, K false (perform (.prepareNotification entry))
  finishNotification : ∀ entry committed, K false (perform (.finishNotification entry committed))
  downloads : ∀ critical : Downloads → Unit × Downloads, K false (perform (.downloads critical))
  commit : ∀ {w : Bool} {α : Type} {hash : Digest} {g : Except GoError Bool → Prog Action α},
    (∀ r, (r = .ok true → undo hash.text) → K w (g r)) → K w (perform (.commit hash) >>= g)
  compensate : ∀ hash, undo hash → K false (perform (.deleteBlob .compensate hash))
  orphan : ∀ hash subscribedOnly, fits hash → K false (deleteBlobIfOrphan hash subscribedOnly)

/-- The program may come first. -/
def Leads (K : Bool → ⦃α : Type⦄ → Prog Action α → Prop) {α : Type} (p : Prog Action α) : Prop :=
  ∀ (β : Type) (g : α → Prog Action β), (∀ a, K true (g a)) → K true (p >>= g)

section Frame

variable {baseDir : CleanPath} {keeps : State → State → Prop} {α : Type}

/-- A relation that only a change of the database can break. -/
def Aside (keeps : State → State → Prop) : Prop :=
  ∀ s s' : State, s'.db = s.db → s'.faults = s.faults → keeps s s'

theorem Aside.action (h : Aside keeps) {e : Action α}
    (he : ∀ s, ((engine baseDir).exec e s).2.db = s.db ∧
      ((engine baseDir).exec e s).2.faults = s.faults) :
    Only (engine baseDir) keeps (perform e) :=
  only_perform fun s => h _ _ (he s).1 (he s).2

theorem Aside.view (h : Aside keeps) (read : Database → Except GoError α) :
    Only (engine baseDir) keeps (perform (.view read)) := by
  refine h.action fun s => ?_
  rw [exec_view_snd]
  exact ⟨rfl, rfl⟩

theorem Aside.deleteBlob (h : Aside keeps) (caller : Deleter) (hash : String) :
    Only (engine baseDir) keeps (perform (.deleteBlob caller hash)) := by
  refine h.action fun s => ?_
  rcases exec_deleteBlob_snd baseDir caller hash s with hexec | hexec <;> rw [hexec] <;>
    exact ⟨rfl, rfl⟩

theorem Aside.commit (h : Aside keeps) (hash : Digest) :
    Only (engine baseDir) keeps (perform (.commit hash)) := by
  refine h.action fun s => ?_
  rcases exec_commit_cases baseDir hash s with ⟨err, hexec⟩ | hexec <;> rw [hexec] <;>
    exact ⟨rfl, rfl⟩

theorem Aside.deleteBlobIfOrphan (h : Aside keeps) (hash : String) (subscribedOnly : Bool) :
    Only (engine baseDir) keeps (deleteBlobIfOrphan hash subscribedOnly) := by
  refine (h.view _).bind fun refs => ?_
  rcases refs with err | refs
  · trivial
  dsimp only
  split_ifs
  · trivial
  · exact h.deleteBlob .orphan hash

theorem Aside.finishNotification (h : Aside keeps) (entry : IndexEntry) (committed : Bool) :
    Only (engine baseDir) keeps (perform (.finishNotification entry committed)) :=
  h.action fun _ => by cases committed <;> exact ⟨rfl, rfl⟩

theorem operative_only (h : Aside keeps) :
    Operative (fun _ _ p => Only (engine baseDir) keeps p) (fun _ => True) fun _ => True where
  ret := fun _ => trivial
  bind := Only.bind
  after := Only.bind
  digest := fun _ => trivial
  get := fun hg => (h.view _).bind fun r => hg r fun _ _ => trivial
  prepareNotification := fun _ => h.action fun _ => ⟨rfl, rfl⟩
  finishNotification := h.finishNotification
  downloads := fun _ => h.action fun _ => ⟨rfl, rfl⟩
  commit := fun hg => (h.commit _).bind fun r => hg r fun _ => trivial
  compensate := fun hash _ => h.deleteBlob .compensate hash
  orphan := fun hash subscribedOnly _ => h.deleteBlobIfOrphan hash subscribedOnly

theorem leads_only {p : Prog Action α} (hp : Only (engine baseDir) keeps p) :
    Leads (fun _ _ q => Only (engine baseDir) keeps q) p :=
  fun _ _ => hp.bind

end Frame

/-! ## Operations -/

variable {file fileInfo : IndexEntry}

namespace Operative

variable {K : Bool → ⦃α : Type⦄ → Prog Action α → Prop} {fits undo : String → Prop}
  (ops : Operative K fits undo)

variable {fileName : String} {entry : IndexEntry}
include ops

theorem setSubscriptionLocked {isSubscribed : Bool}
    (htx : K false (perform (.update (setSubscriptionTx fileName isSubscribed)))) :
    K false (setSubscriptionLocked fileName isSubscribed) := by
  refine ops.bind htx fun r => ?_
  cases r <;> exact ops.ret _

theorem completeDownloadIntent (htx : K false (perform (.update (completeDownloadIntentTx file)))) :
    K false (completeDownloadIntent file) := by
  refine ops.bind htx fun r => ?_
  cases r with
  | error err => exact ops.ret _
  | ok _ => exact ops.bind (ops.downloads _) fun _ => ops.ret _

theorem persistDownloadIntentLocked {source : String}
    (htx : K false (perform (.update (persistDownloadIntentTx file source)))) :
    K false (persistDownloadIntentLocked file source) := by
  refine ops.bind htx fun r => ?_
  cases r with
  | error err =>
    dsimp only
    split_ifs <;> exact ops.ret _
  | ok _ => exact ops.ret _

theorem deleteLocalCacheLocked
    (htx : K false (perform (.update (setSubscriptionTx fileName false)))) :
    K false (deleteLocalCacheLocked fileName) := by
  refine ops.get fun r hr => ?_
  rcases r with err | _ | entry
  · exact ops.ret _
  · exact ops.ret _
  · refine ops.bind (ops.setSubscriptionLocked htx) fun r => ?_
    cases r with
    | some err => exact ops.ret _
    | none => exact ops.orphan entry.hash true (hr entry rfl)

theorem compensatePhysicalBlob {hash : String} {created : Bool}
    (hundo : created = true → undo hash) : K false (compensatePhysicalBlob hash created) := by
  cases created with
  | false => exact ops.ret _
  | true => exact ops.compensate hash (hundo rfl)

theorem storeRemoteBlobLocked {content : Blob}
    (htx : K false (perform (.update (completeDownloadIntentTx fileInfo))))
    (hfits : fits fileInfo.hash) (hundo : undo content.hash.text → undo fileInfo.hash) :
    K false (storeRemoteBlobLocked fileInfo content) := by
  have hcomplete := ops.completeDownloadIntent htx
  refine ops.commit fun r hr => ?_
  rcases r with err | created
  · exact ops.bind (ops.downloads _) fun _ => ops.ret _
  refine ops.get fun r _ => ?_
  cases r with
  | error err =>
    refine ops.bind (ops.compensatePhysicalBlob fun h => hundo (hr (by rw [h]))) fun r => ?_
    cases r <;> exact ops.ret _
  | ok entry =>
    dsimp only
    split_ifs
    · exact hcomplete
    · refine ops.bind (ops.orphan fileInfo.hash false hfits) fun gcErr => ?_
      exact ops.bind hcomplete fun _ => ops.ret _

/-! Operations that write an entry sweep the pending list afterwards. -/

variable (hsweep : K true sweepPendingBlobGCLocked)
include hsweep

theorem upsertIndexLocked (htx : Leads K (upsert entry)) : K true (upsertIndexLocked entry) := by
  refine ops.get fun r _ => ?_
  rcases r with err | _
  · exact ops.ret _
  refine htx _ _ fun r => ?_
  rcases r with err | _ | _
  · exact ops.ret _
  · exact ops.ret _
  · refine ops.after hsweep fun r => ?_
    cases r <;> exact ops.ret _

theorem processRemoteDeletionLocked (htx : Leads K (upsert fileInfo))
    (hcomplete : K false (perform (.update (completeDownloadIntentTx fileInfo)))) :
    K true (processRemoteDeletionLocked fileInfo) := by
  refine ops.after (ops.upsertIndexLocked hsweep htx) fun out => ?_
  obtain ⟨updated, _ | err⟩ := out
  · refine ops.get fun r _ => ?_
    rcases r with err | current
    · exact ops.ret _
    dsimp only
    split_ifs
    · exact ops.completeDownloadIntent hcomplete
    · exact ops.ret _
  · exact ops.ret _

theorem persistTombstone {fileMeta : IndexEntry} (htx : Leads K (upsert fileMeta)) :
    K true (persistTombstone fileName fileMeta) := by
  refine htx _ _ fun r => ?_
  rcases r with err | _ | _
  · exact ops.ret _
  · exact ops.ret _
  · refine ops.after hsweep fun r => ?_
    cases r <;> exact ops.ret _

theorem deleteLocalFileLocked (htx : ∀ entry, fits entry.hash → Leads K (upsert entry)) :
    K true (deleteLocalFileLocked fileName) := by
  refine ops.get fun r hr => ?_
  rcases r with err | _ | entry
  · exact ops.ret _
  · exact ops.ret _
  refine ops.bind (ops.prepareNotification _) fun r => ?_
  cases r with
  | some err => exact ops.ret _
  | none =>
    have htombstone := htx (tombstone entry) (hr entry rfl)
    refine ops.after (ops.persistTombstone hsweep htombstone) fun out => ?_
    exact ops.bind (ops.finishNotification _ _) fun _ => ops.ret _

theorem commitSubscribed (htx : Leads K (perform (.update (upsertAndSubscribeTx entry)))) :
    K true (commitSubscribed entry) := by
  refine htx _ _ fun r => ?_
  rcases r with err | result
  · exact ops.ret _
  dsimp only
  split_ifs
  · exact ops.ret _
  · refine ops.after hsweep fun r => ?_
    cases r <;> exact ops.ret _

variable (htx : ∀ entry, fits entry.hash → Leads K (perform (.update (upsertAndSubscribeTx entry))))
include htx

theorem upsertAndSubscribeLocked (hentry : fits entry.hash) (shouldNotify : Bool) :
    K true (upsertAndSubscribeLocked entry shouldNotify) := by
  rcases shouldNotify with _ | _
  · exact ops.commitSubscribed hsweep (htx entry hentry)
  refine ops.get fun r _ => ?_
  rcases r with err | current
  · exact ops.ret _
  dsimp only
  rcases heff : effectiveEntry current entry with _ | written
  · exact ops.ret _
  have hwritten := htx written (effectiveEntry_hash heff ▸ hentry)
  refine ops.bind (ops.prepareNotification written) fun r => ?_
  cases r with
  | some err => exact ops.ret _
  | none =>
    refine ops.after (ops.commitSubscribed hsweep hwritten) fun out => ?_
    exact ops.bind (ops.finishNotification _ _) fun _ => ops.ret _

theorem saveLocalFileLocked (fileName : String) (content : Blob) :
    K true (saveLocalFileLocked fileName content) := by
  refine ops.commit fun r hr => ?_
  rcases r with err | created
  · exact ops.ret _
  have hentry : fits (savedEntry fileName content).hash := ops.digest content.hash
  refine ops.after (ops.upsertAndSubscribeLocked hsweep htx hentry true) fun out => ?_
  obtain ⟨⟨written, existing, _ | _⟩, _ | err⟩ := out
  · exact ops.ret _
  · refine ops.bind (ops.compensatePhysicalBlob fun h => hr (by rw [h])) fun r => ?_
    cases r <;> exact ops.ret _
  · exact ops.ret _
  · exact ops.ret _

theorem stageLocalFileLocked (pathStr : String) (content : Blob) :
    K true (stageLocalFileLocked pathStr content) := by
  refine ops.commit fun r hr => ?_
  rcases r with err | created
  · exact ops.ret _
  have hentry : fits (stagedEntry pathStr content).hash := ops.digest content.hash
  refine ops.after (ops.upsertAndSubscribeLocked hsweep htx hentry false) fun out => ?_
  obtain ⟨⟨written, existing, _ | _⟩, _ | err⟩ := out
  · exact ops.ret _
  · refine ops.bind (ops.compensatePhysicalBlob fun h => hr (by rw [h])) fun r => ?_
    cases r <;> exact ops.ret _
  · exact ops.ret _
  · exact ops.ret _

end Operative

end Proxyma.Storage
