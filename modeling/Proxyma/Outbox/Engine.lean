import Proxyma.Lib.Crew
import Proxyma.Outbox.Catalog

/-!
# The notification outbox

A node tells its peers about its pipelines, services and files.  A notification is staged
in the outbox before it is sent, and deleted when it was sent.  There is one key for each
peer and entity; a newer notification replaces an older one under its key.

`stageOutbox` takes three transactions, on the counter of generations, on the reservations
and on the entries.  Deliveries, reconciliations and mutations take the lock of a key;
`notifyWithOutbox` stages without it.  Everything between two actions of a thread can
interleave with the other threads.

The outbox is `Crew.Step` of the programs below.  Which calls fail can change at any time
(`Surroundings`), the local catalog can be changed by others (`Step.remote`), and the node
can crash and start again (`Step.restart`).

Three things are only there to be talked about: the `log`, the `past` of the catalog, and the
`Purpose` for which a transaction is made.
-/

namespace Proxyma.Outbox

open Keyed Atomic Atomic.Prog

/-! ## Entries and attempts -/

def encodeOutboxTuple (parts : List String) : String :=
  String.join (parts.map fun part => toString part.utf8ByteSize ++ ":" ++ part)

def outboxKey (peerID : String) (kind : GossipKind) (dedupe : String) : String :=
  encodeOutboxTuple [peerID, kind.text, dedupe]

/-- `encodeOutboxTuple` of byte strings that need not be texts. -/
def encodeTupleBytes (parts : List (List UInt8)) : List UInt8 :=
  parts.flatMap fun part => Text.bytes (toString part.length) ++ 58 :: part

theorem bytes_encodeOutboxTuple (parts : List String) :
    Text.bytes (encodeOutboxTuple parts) = encodeTupleBytes (parts.map Text.bytes) := by
  induction parts with
  | nil => rfl
  | cons part rest ih =>
    rw [encodeOutboxTuple] at ih ⊢
    rw [List.map_cons, String.join_cons, Text.bytes_append, ih, Text.bytes_append,
      Text.bytes_append]
    simp [encodeTupleBytes]
    rfl

theorem encodeTupleBytes_injective : Function.Injective encodeTupleBytes := by
  intro parts
  induction parts with
  | nil =>
    intro parts' h
    cases parts' with
    | nil => rfl
    | cons part rest => simp [encodeTupleBytes] at h
  | cons part rest ih =>
    intro parts' h
    rcases parts' with _ | ⟨part', rest'⟩
    · simp [encodeTupleBytes] at h
    have hcut : Text.bytes (toString part.length) ++ 58 :: (part ++ encodeTupleBytes rest) =
        Text.bytes (toString part'.length) ++ 58 :: (part' ++ encodeTupleBytes rest') := by
      simpa [encodeTupleBytes] using h
    obtain ⟨hsize, hparts⟩ :=
      Text.append_cons_inj (Text.colon_notMem_bytes _) (Text.colon_notMem_bytes _) hcut
    have hlength := Nat.repr_inj.1 (Text.bytes_injective hsize)
    obtain ⟨rfl, hrest⟩ := List.append_inj hparts hlength
    rw [ih hrest]

/-- Different lists of byte strings are encoded differently; so an outbox key belongs to
one peer, kind and dedupe value. -/
theorem outbox_keys_injective : Function.Injective encodeTupleBytes ∧
    ∀ peerID peerID' kind kind' dedupe dedupe',
      outboxKey peerID kind dedupe = outboxKey peerID' kind' dedupe' →
        peerID = peerID' ∧ kind = kind' ∧ dedupe = dedupe' := by
  refine ⟨encodeTupleBytes_injective, ?_⟩
  intro peerID peerID' kind kind' dedupe dedupe' h
  have hbytes := congrArg Text.bytes h
  rw [outboxKey, outboxKey, bytes_encodeOutboxTuple, bytes_encodeOutboxTuple] at hbytes
  have hparts := List.map_injective_iff.2 Text.bytes_injective (encodeTupleBytes_injective hbytes)
  simp only [List.cons.injEq, and_true] at hparts
  refine ⟨hparts.1, ?_, hparts.2.2⟩
  have htext := hparts.2.1
  cases kind <;> cases kind' <;> simp_all [GossipKind.text]

/-- `outboxEntry`, and the bytes it is stored as.  `since` is no field of the source: it is
the moment at which the payload was taken. -/
structure OutboxEntry where
  id : String
  peerID : String
  kind : GossipKind
  entity : String
  generation : ℕ
  payload : Payload
  since : ℕ
  deriving DecidableEq

def outboxEntity (e : OutboxEntry) : Option String :=
  if e.entity ≠ "" then some e.entity else notificationEntityFromPayload e.kind e.payload

/-- `outboxAttempt`, of a node with storage. -/
structure OutboxAttempt where
  storageID : String
  lockID : String
  entry : OutboxEntry
  deriving DecidableEq

/-! ## The state of a node -/

/-- What a transaction is made for.  It makes no difference to the transaction. -/
inductive Purpose
  | notification
  | delivery
  | reconciliation
  | mutation
  | rollback
  deriving DecidableEq

/-- What happened, as far as it matters: a thread reserved a generation, an entry was put, the
put failed or came too late, there was nothing to say about an entity, an entry was handed
to the network, and one was deleted. -/
inductive Event
  | reserved (owner : ℕ) (id : String) (generation : ℕ)
  | put (entry : OutboxEntry)
  | abandoned (id : String) (generation : ℕ)
  | superseded (id : String) (generation : ℕ)
  | idle (kind : GossipKind) (entity : String)
  | sent (entry : OutboxEntry) (ok : Bool) (moment : ℕ)
  | deleted (entry : OutboxEntry)
  deriving DecidableEq

/-- How the application of a mutation ends.  It can report an error although the catalog
has changed. -/
inductive ApplyOutcome
  | done
  | failed (err : GoError)
  | torn (err : GoError)

/-- The calls that currently fail, the registered peers in order, and the order in which the
entries of a map are met. -/
structure Surroundings where
  peers : List String := []
  reserve : Option GoError := none
  release : Option GoError := none
  put : Option GoError := none
  delete : Option GoError := none
  compare : Option GoError := none
  list : Option GoError := none
  current : Option GoError := none
  send : OutboxEntry → Option GoError := fun _ => none
  apply : ApplyOutcome := .done
  order : List (String × OutboxEntry) → List (String × OutboxEntry) := id
  order_perm : ∀ l, (order l).Perm l := by exact fun l => .refl l

/-- A node: the outbox and the catalog on disk, the locks and the deliveries to come in
memory, and its surroundings.  `boot` is the counter of generations at the last start. -/
structure State where
  generation : ℕ := 0
  reservations : Bucket String ℕ := .empty
  entries : Bucket String OutboxEntry := .empty
  catalog : Catalog := .empty
  locks : String → Option (ℕ × Purpose) := fun _ => none
  flushing : Bool := false
  spawned : List (OutboxAttempt × Bool) := []
  inFlight : ℕ := 0
  around : Surroundings := {}
  boot : ℕ := 0
  past : List Catalog := []
  log : List Event := []

namespace State

/-- The current moment: how often the catalog has changed. -/
def moment (s : State) : ℕ := s.past.length

/-- All catalogs, by the moment. -/
def timeline (s : State) : List Catalog := s.past ++ [s.catalog]

def record (s : State) (event : Event) : State := { s with log := s.log ++ [event] }

def setCatalog (s : State) (catalog : Catalog) : State :=
  { s with catalog, past := s.past ++ [s.catalog] }

/-! ## Transactions -/

/-- The largest `uint64`. -/
def maxUint64 : ℕ := 2 ^ 64 - 1

/-- `ReserveOutboxGeneration`, by thread `i`. -/
def reserveOutboxGeneration (s : State) (i : ℕ) (id : String) : Except GoError ℕ × State :=
  match s.around.reserve with
  | some err => (.error err, s)
  | none =>
    if s.generation = maxUint64 then (.error (.errorf "outbox generation exhausted" []), s)
    else (.ok (s.generation + 1), { s with
      generation := s.generation + 1
      reservations := s.reservations.put id (s.generation + 1)
      log := s.log ++ [.reserved i id (s.generation + 1)] })

def releaseOutboxGeneration (s : State) (id : String) (generation : ℕ) :
    Option GoError × State :=
  match s.around.release with
  | some err => (some err, s)
  | none =>
    if s.reservations.get id = some generation then
      (none, { s with reservations := s.reservations.erase id })
    else (none, s)

def putOutboxRawIfCurrentGeneration (s : State) (id : String) (generation : ℕ)
    (entry : OutboxEntry) : Except GoError Bool × State :=
  match s.around.put with
  | some err => (.error err, s.record (.abandoned id generation))
  | none =>
    if s.reservations.get id = some generation then
      (.ok true, { s with
        entries := s.entries.put id entry
        reservations := s.reservations.erase id
        log := s.log ++ [.put entry] })
    else (.ok false, s.record (.superseded id generation))

def deleteOutboxEntryIfUnchanged (s : State) (id : String) (expected : OutboxEntry) :
    Except GoError Bool × State :=
  match s.around.delete with
  | some err => (.error err, s)
  | none =>
    if s.entries.get id = some expected then
      (.ok true, { s with
        entries := s.entries.erase id
        log := s.log ++ [.deleted expected] })
    else (.ok false, s)

def outboxEntryMatches (s : State) (id : String) (expected : OutboxEntry) :
    Except GoError Bool :=
  match s.around.compare with
  | some err => .error err
  | none => .ok (s.entries.get id = some expected)

/-- `ListOutboxRaw`, in the order in which the map is gone through. -/
def listOutboxRaw (s : State) : Except GoError (List (String × OutboxEntry)) :=
  match s.around.list with
  | some err => .error err
  | none => .ok (s.around.order s.entries.entries)

/-- `currentNotificationPayload`, with the moment of the reading. -/
def currentNotificationPayload (s : State) (kind : GossipKind) (entity : String) :
    Except GoError (Option Payload × ℕ) × State :=
  match s.around.current with
  | some err => (.error err, s)
  | none =>
    match s.catalog.current entity kind with
    | none => (.ok (none, s.moment), s.record (.idle kind entity))
    | some payload => (.ok (some payload, s.moment), s)

def deliverOutboxEntry (s : State) (entry : OutboxEntry) : Option GoError × State :=
  (s.around.send entry, s.record (.sent entry (s.around.send entry).isNone s.moment))

/-- The application of a mutation. -/
def apply (s : State) (m : Mutation) : Option GoError × State :=
  match s.around.apply with
  | .done => (none, s.setCatalog (m.apply s.catalog))
  | .failed err => (some err, s)
  | .torn err => (some err, s.setCatalog (m.apply s.catalog))

end State

/-! ## Actions -/

/-- What the threads of a node do that others can come between.  With `begin` a payload is
taken for staging. -/
inductive Action : Type → Type 1
  | begin (purpose : Purpose) (kind : GossipKind) (entity : String) (payload : Payload) :
      Action ℕ
  | peers : Action (List String)
  | reserveOutboxGeneration (purpose : Purpose) (id : String) : Action (Except GoError ℕ)
  | releaseOutboxGeneration (id : String) (generation : ℕ) : Action (Option GoError)
  | putOutboxRawIfCurrentGeneration (purpose : Purpose) (id : String) (generation : ℕ)
      (entry : OutboxEntry) : Action (Except GoError Bool)
  | deleteOutboxEntryIfUnchanged (purpose : Purpose) (id : String) (entry : OutboxEntry) :
      Action (Except GoError Bool)
  | outboxEntryMatches (id : String) (entry : OutboxEntry) : Action (Except GoError Bool)
  | listOutboxRaw : Action (Except GoError (List (String × OutboxEntry)))
  | currentNotificationPayload (purpose : Purpose) (kind : GossipKind) (entity : String) :
      Action (Except GoError (Option Payload × ℕ))
  | deliverOutboxEntry (entry : OutboxEntry) : Action (Option GoError)
  | apply (m : Mutation) : Action (Option GoError)
  | lock (purpose : Purpose) (id : String) : Action Unit
  | unlock (id : String) : Action Unit
  | tryLockFlush : Action Bool
  | unlockFlush : Action Unit
  | goOwned (attempt : OutboxAttempt) (tracked : Bool) : Action Unit
  | done : Action Unit
  | wait : Action Unit

/-- What the actions of thread `i` do. -/
def exec (i : ℕ) : {α : Type} → Action α → State → α × State
  | _, .begin _ _ _ _, s => (s.moment, s)
  | _, .peers, s => (s.around.peers, s)
  | _, .reserveOutboxGeneration _ id, s => s.reserveOutboxGeneration i id
  | _, .releaseOutboxGeneration id generation, s => s.releaseOutboxGeneration id generation
  | _, .putOutboxRawIfCurrentGeneration _ id generation entry, s =>
    s.putOutboxRawIfCurrentGeneration id generation entry
  | _, .deleteOutboxEntryIfUnchanged _ id entry, s => s.deleteOutboxEntryIfUnchanged id entry
  | _, .outboxEntryMatches id entry, s => (s.outboxEntryMatches id entry, s)
  | _, .listOutboxRaw, s => (s.listOutboxRaw, s)
  | _, .currentNotificationPayload _ kind entity, s => s.currentNotificationPayload kind entity
  | _, .deliverOutboxEntry entry, s => s.deliverOutboxEntry entry
  | _, .apply m, s => s.apply m
  | _, .lock purpose id, s =>
    ((), { s with locks := Function.update s.locks id (some (i, purpose)) })
  | _, .unlock id, s => ((), { s with locks := Function.update s.locks id none })
  | _, .tryLockFlush, s => (!s.flushing, { s with flushing := true })
  | _, .unlockFlush, s => ((), { s with flushing := false })
  | _, .goOwned attempt tracked, s =>
    ((), { s with
      spawned := s.spawned ++ [(attempt, tracked)]
      inFlight := if tracked then s.inFlight + 1 else s.inFlight })
  | _, .done, s => ((), { s with inFlight := s.inFlight - 1 })
  | _, .wait, s => ((), s)

def node (i : ℕ) : Handler Action State := ⟨exec i⟩

/-- A lock is taken when it is free, and a flush waits for its deliveries. -/
def enabled : ⦃α : Type⦄ → Action α → State → Prop
  | _, .lock _ id, s => s.locks id = none
  | _, .wait, s => s.inFlight = 0
  | _, _, _ => True

instance : ∀ {α : Type} (e : Action α) (s : State), Decidable (enabled e s)
  | _, .lock _ id, s => inferInstanceAs (Decidable (s.locks id = none))
  | _, .wait, s => inferInstanceAs (Decidable (s.inFlight = 0))
  | _, .begin _ _ _ _, _ | _, .peers, _ | _, .reserveOutboxGeneration _ _, _
  | _, .releaseOutboxGeneration _ _, _ | _, .putOutboxRawIfCurrentGeneration _ _ _ _, _
  | _, .deleteOutboxEntryIfUnchanged _ _ _, _ | _, .outboxEntryMatches _ _, _
  | _, .listOutboxRaw, _ | _, .currentNotificationPayload _ _ _, _
  | _, .deliverOutboxEntry _, _ | _, .apply _, _ | _, .unlock _, _ | _, .tryLockFlush, _
  | _, .unlockFlush, _ | _, .goOwned _ _, _ | _, .done, _ => .isTrue trivial

/-! ## Staging and delivering -/

/-- `stageOutbox`, on a node with storage. -/
def stageOutbox (purpose : Purpose) (since : ℕ) (peerID : String) (kind : GossipKind)
    (entity : String) (payload : Payload) :
    Prog Action (Except GoError (OutboxAttempt × Bool)) := do
  let entity := (notificationEntityFromPayload kind payload).getD entity
  let id := outboxKey peerID kind entity
  match ← perform (.reserveOutboxGeneration purpose id) with
  | .error err => return .error err
  | .ok generation =>
    let entry : OutboxEntry := ⟨id, peerID, kind, entity, generation, payload, since⟩
    let result ← perform (.putOutboxRawIfCurrentGeneration purpose id generation entry)
    let _ ← perform (.releaseOutboxGeneration id generation)
    match result with
    | .error err => return .error err
    | .ok applied => return .ok (⟨id, id, entry⟩, applied)

/-- `deliverOutboxAttempt`, from the sending on. -/
def sendLocked (a : OutboxAttempt) : Prog Action (Option GoError) := do
  match ← perform (.deliverOutboxEntry a.entry) with
  | some err => return some err
  | none =>
    match ← perform (.deleteOutboxEntryIfUnchanged .delivery a.storageID a.entry) with
    | .error err => return some err
    | .ok _ => return none

/-- `deliverOutboxAttempt`, under the lock. -/
def deliverLocked (a : OutboxAttempt) : Prog Action (Option GoError) := do
  match ← perform (.outboxEntryMatches a.storageID a.entry) with
  | .error err => return some err
  | .ok false => return none
  | .ok true => sendLocked a

def deliverOutboxAttempt (a : OutboxAttempt) : Prog Action (Option GoError) := do
  perform (.lock .delivery a.lockID)
  let err ← deliverLocked a
  perform (.unlock a.lockID)
  return err

/-- The goroutine of `deliverOutboxTracked`. -/
def deliverOutboxTracked (a : OutboxAttempt) (tracked : Bool) : Prog Action Unit := do
  let _ ← deliverOutboxAttempt a
  if tracked then perform .done else return ()

/-- `deliverOutboxAttemptsAsync`, and the loop of `flushOutbox` that starts deliveries. -/
def deliverOutboxAttemptsAsync (tracked : Bool) : List OutboxAttempt → Prog Action Unit
  | [] => return ()
  | a :: rest => do
      perform (.goOwned a tracked)
      deliverOutboxAttemptsAsync tracked rest

def notifyWithOutbox (peerID : String) (kind : GossipKind) (dedupe : String)
    (payload : Payload) : Prog Action (Option GoError) := do
  let since ← perform (.begin .notification kind dedupe payload)
  match ← stageOutbox .notification since peerID kind dedupe payload with
  | .error err => return some err
  | .ok (attempt, current) =>
    if !current then return none
    else deliverOutboxAttempt attempt

/-! ## Flushing -/

def reconcileActiveOutbox : List (String × OutboxEntry) → Prog Action (Option GoError)
  | [] => return none
  | (id, entry) :: rest =>
    match outboxEntity entry with
    | none => reconcileActiveOutbox rest
    | some entity => do
        let lockID := outboxKey entry.peerID entry.kind entity
        perform (.lock .reconciliation lockID)
        match ← perform (.currentNotificationPayload .reconciliation entry.kind entity) with
        | .error err =>
          perform (.unlock lockID)
          return some err
        | .ok (none, _) =>
          let result ← perform (.deleteOutboxEntryIfUnchanged .reconciliation id entry)
          perform (.unlock lockID)
          match result with
          | .error err => return some err
          | .ok _ => reconcileActiveOutbox rest
        | .ok (some payload, since) =>
          if entry.payload = payload then
            perform (.unlock lockID)
            reconcileActiveOutbox rest
          else
            let result ←
              stageOutbox .reconciliation since entry.peerID entry.kind entity payload
            perform (.unlock lockID)
            match result with
            | .error err => return some err
            | .ok _ => reconcileActiveOutbox rest

/-- The attempt that `flushOutbox` makes of an entry. -/
def flushAttempt : String × OutboxEntry → OutboxAttempt
  | (id, entry) =>
    ⟨id, if entry.entity ≠ "" then outboxKey entry.peerID entry.kind entry.entity else id, entry⟩

/-- `flushOutbox`, once it is the only one. -/
def flushLocked : Prog Action Unit := do
  match ← perform .listOutboxRaw with
  | .error _ => return ()
  | .ok rawEntries =>
    match ← reconcileActiveOutbox rawEntries with
    | some _ => return ()
    | none =>
      match ← perform .listOutboxRaw with
      | .error _ => return ()
      | .ok rawEntries =>
        deliverOutboxAttemptsAsync true (rawEntries.map flushAttempt)
        perform .wait

def flushOutbox : Prog Action Unit := do
  if !(← perform .tryLockFlush) then return ()
  else
    flushLocked
    perform .unlockFlush

/-! ## Mutations -/

/-- `stagedOutboxMutation`. -/
structure StagedOutboxMutation where
  kind : GossipKind
  entity : String
  attempts : List OutboxAttempt
  locked : List String

/-- The loop of `reconcileCurrent`. -/
def reconcileAttempts (kind : GossipKind) (entity : String) (payload : Option Payload)
    (since : ℕ) : List OutboxAttempt → List OutboxAttempt →
      Prog Action (Except GoError (List OutboxAttempt))
  | [], reconciled => return .ok reconciled
  | a :: rest, reconciled =>
    match payload with
    | none => do
        match ← perform (.deleteOutboxEntryIfUnchanged .rollback a.storageID a.entry) with
        | .error err => return .error err
        | .ok _ => reconcileAttempts kind entity payload since rest reconciled
    | some current => do
        match ← stageOutbox .rollback since a.entry.peerID kind entity current with
        | .error err => return .error err
        | .ok (next, applied) =>
          reconcileAttempts kind entity payload since rest
            (if applied then reconciled ++ [next] else reconciled)

def reconcileCurrent (m : StagedOutboxMutation) :
    Prog Action (Except GoError (List OutboxAttempt)) := do
  match ← perform (.currentNotificationPayload .rollback m.kind m.entity) with
  | .error err => return .error err
  | .ok (payload, since) => reconcileAttempts m.kind m.entity payload since m.attempts []

/-- Unlock, in this order. -/
def unlockAll : List String → Prog Action Unit
  | [] => return ()
  | id :: rest => do
      perform (.unlock id)
      unlockAll rest

/-- `finish`, once it is decided what is to be delivered. -/
def finishWith (m : StagedOutboxMutation) (result : Except GoError (List OutboxAttempt)) :
    Prog Action (Option GoError) := do
  unlockAll m.locked.reverse
  match result with
  | .error err => return some err
  | .ok attempts =>
    deliverOutboxAttemptsAsync false attempts
    return none

def finish (m : StagedOutboxMutation) (committed : Bool) : Prog Action (Option GoError) :=
  if committed then finishWith m (.ok m.attempts)
  else do
    let result ← reconcileCurrent m
    finishWith m result

/-- The loop of `prepareOutboxMutation`. -/
def prepareForPeers (since : ℕ) (payload : Payload) :
    List String → StagedOutboxMutation → Prog Action (Except GoError StagedOutboxMutation)
  | [], staged => return .ok staged
  | peerID :: rest, staged => do
      let lockID := outboxKey peerID staged.kind staged.entity
      perform (.lock .mutation lockID)
      let staged := { staged with locked := staged.locked ++ [lockID] }
      match ← stageOutbox .mutation since peerID staged.kind staged.entity payload with
      | .error err =>
        let _ ← finish staged false
        return .error err
      | .ok (attempt, current) =>
        prepareForPeers since payload rest
          (if current then { staged with attempts := staged.attempts ++ [attempt] } else staged)

def prepareOutboxMutation (kind : GossipKind) (entity : String) (payload : Payload) :
    Prog Action (Except GoError StagedOutboxMutation) := do
  let peerIDs ← perform .peers
  let since ← perform (.begin .mutation kind entity payload)
  prepareForPeers since payload peerIDs ⟨kind, entity, [], []⟩

/-- `commitCatalogMutation`, which has the form of the mutations of files as well. -/
def commitCatalogMutation (m : Mutation) : Prog Action (Option GoError) := do
  match ← prepareOutboxMutation m.kind m.entity m.payload with
  | .error err => return some err
  | .ok staged =>
    let mutationErr ← perform (.apply m)
    let finishErr ← finish staged mutationErr.isNone
    return GoError.joinErrors mutationErr finishErr

/-! ## Runs -/

/-- What a node is asked to do. -/
inductive Request
  | enqueue (peerID : String) (kind : GossipKind) (dedupe : String) (payload : Payload)
  | notify (peerID : String) (kind : GossipKind) (dedupe : String) (payload : Payload)
  | mutate (m : Mutation)
  | flush

def enqueueOutbox (peerID : String) (kind : GossipKind) (dedupe : String) (payload : Payload) :
    Prog Action Unit := do
  let since ← perform (.begin .notification kind dedupe payload)
  let _ ← stageOutbox .notification since peerID kind dedupe payload
  return ()

/-- The thread that handles a request. -/
def Request.thread : Request → Prog Action Unit
  | .enqueue peerID kind dedupe payload => enqueueOutbox peerID kind dedupe payload
  | .notify peerID kind dedupe payload => do
      let _ ← notifyWithOutbox peerID kind dedupe payload
      return ()
  | .mutate m => do
      let _ ← commitCatalogMutation m
      return ()
  | .flush => flushOutbox

/-- A condition on the steps of a node: on its actions, by the state before, and on the
requests. -/
structure Condition where
  acts : ⦃α : Type⦄ → Action α → State → Prop
  asks : Request → Prop

def Condition.any : Condition := ⟨fun _ _ _ => True, fun _ => True⟩

/-- When an action may be performed under a condition. -/
def Condition.may (cond : Condition) ⦃α : Type⦄ (e : Action α) (s : State) : Prop :=
  enabled e s ∧ cond.acts e s

instance {α : Type} (e : Action α) (s : State) : Decidable (Condition.any.may e s) :=
  inferInstanceAs (Decidable (enabled e s ∧ True))

/-- What a crash leaves, after `clearTransientOutboxReservations`. -/
def State.restart (s : State) : State :=
  { s with
    reservations := .empty
    locks := fun _ => none
    flushing := false
    spawned := []
    inFlight := 0
    boot := s.generation }

/-- The steps of a node: a thread acts, a request or a delivery gets a thread, the catalog
is changed by others, the surroundings change, or the node crashes and starts again. -/
inductive Step (cond : Condition) : Crew Action State → Crew Action State → Prop
  | act {c c' : Crew Action State} (h : Crew.Step node cond.may c c') : Step cond c c'
  | ask {c : Crew Action State} (i : ℕ) (request : Request) (hidle : c.threads i = .ret ())
      (hasks : cond.asks request) : Step cond c (c.assign i request.thread)
  | deliver {c : Crew Action State} (i : ℕ) (a : OutboxAttempt) (tracked : Bool)
      (before rest : List (OutboxAttempt × Bool)) (hidle : c.threads i = .ret ())
      (hspawned : c.state.spawned = before ++ (a, tracked) :: rest) :
      Step cond c (Crew.assign ⟨{ c.state with spawned := before ++ rest }, c.threads⟩ i
        (deliverOutboxTracked a tracked))
  | remote {c : Crew Action State} (catalog : Catalog) :
      Step cond c ⟨c.state.setCatalog catalog, c.threads⟩
  | surroundings {c : Crew Action State} (around : Surroundings) :
      Step cond c ⟨{ c.state with around }, c.threads⟩
  | restart {c : Crew Action State} : Step cond c ⟨c.state.restart, fun _ => .ret ()⟩

/-- A new node. -/
def fresh : Crew Action State := ⟨{}, fun _ => .ret ()⟩

/-- The nodes that a run can lead to. -/
def Reachable (cond : Condition) (c : Crew Action State) : Prop :=
  Relation.ReflTransGen (Step cond) fresh c

/-- A request can be handled to its end before anything else happens. -/
theorem ask_runs {cond : Condition} {c : Crew Action State} {i : ℕ} {request : Request}
    (hidle : c.threads i = .ret ()) (hasks : cond.asks request)
    (hrun : Crew.Unhindered (node i) cond.may request.thread c.state) :
    Relation.ReflTransGen (Step cond) c
      (Crew.assign ⟨(request.thread.run (node i) c.state).2, c.threads⟩ i (.ret ())) :=
  .head (.ask i request hidle hasks) ((Crew.runs hrun).lift id fun _ _ hstep => Step.act hstep)

theorem turns_run {cond : Condition} {c : Crew Action State} (turns : List ℕ)
    (hturns : Crew.CanFollow node cond.may turns c) :
    Relation.ReflTransGen (Step cond) c (c.follow node turns) :=
  (Crew.follows hturns).lift id fun _ _ hstep => Step.act hstep

end Proxyma.Outbox
