import Proxyma.Compute.Status
import Proxyma.Pipeline.Validation
import Proxyma.Storage.Journal
import Proxyma.Lib.Threads

/-!
# The compute engine

The state of one engine and the actions on it.  An action is what the engine does
under one of its locks, or one call to the outside: the service finder, a peer,
a handler, the blob store, the journal.  What the outside answers is a `World`,
indexed by the number of answers given so far, so a statement for every world is
one for every behaviour of the clock, the network and the handlers.

The calls of later modules are built from these actions.  `exec` is their
meaning; the locked parts on the status tables are those of `TaskTables`.
-/

namespace Proxyma.Compute

open Keyed Atomic GoError

/-! ## The node -/

/-- What is fixed about a node: its identifier, which of the optional
collaborators of the engine are set, the hash of pipeline definitions and the
node that a reply address names. -/
structure Node where
  nodeID : String
  serviceFinder : Bool := true
  taskDispatcher : Bool := true
  taskEscrowDispatcher : Bool := true
  peerClient : Bool := true
  taskJournal : Bool := true
  vfsBlobResolver : Bool := true
  vfsBlobStager : Bool := true
  pipelineSchemaHash : PipelineSchema → String
  replyNode : String → String

/-- `DiscoveryQuery`, as far as the engine fills it in. -/
structure DiscoveryQuery where
  service : String
  requiredCapabilities : List (String × ℤ) := []
  excludedPeers : List String := []
  deriving DecidableEq, Repr, Inhabited

/-- `ServiceBid`, as far as a dispatch reads it. -/
structure ServiceBid where
  canAccept : Bool
  capabilities : List (String × ℤ) := []
  deriving DecidableEq, Repr, Inhabited

def supportsCapabilities (available required : List (String × ℤ)) : Bool :=
  required.all fun e => 0 < e.2 ∧ e.2 ≤ (lookupKey available e.1).getD 0

/-- The capability a node needs to continue a pipeline. -/
def pipelineStateCapability : List (String × ℤ) := [("pipeline_state", 2)]

/-- The answers of the outside: the `n`-th entry is what the next call gets after
`n` answers. -/
structure World where
  clock : ℕ → ℤ
  /-- The peer the service finder names; it may depend on the query and on whether
  the service is registered on the node. -/
  serviceFinder : ℕ → DiscoveryQuery → Bool → Except GoError String
  fetchServiceBid : ℕ → Except GoError ServiceBid
  submitTask : ℕ → Option GoError
  sendTaskEscrow : ℕ → Option GoError
  handler : ℕ → Except GoError JsonMap
  resolveBlob : ℕ → Except GoError String
  stage : ℕ → Option JsonMap → Option GoError × Option JsonMap
  journal : ℕ → Option GoError

/-- A world in which no time passes, no peer offers a service, and whatever else
is asked for succeeds. -/
def World.quiet : World where
  clock _ := 0
  serviceFinder _ query _ :=
    .error (.errorf "no nodes available for service '%s'" [query.service])
  fetchServiceBid _ := .ok ⟨true, pipelineStateCapability⟩
  submitTask _ := none
  sendTaskEscrow _ := none
  handler _ := .ok []
  resolveBlob _ := .ok "blob"
  stage _ outputs := (none, outputs)
  journal _ := none

/-- A node with all collaborators, whose hash of a definition lists its steps and
whose peers are addressed by their identifiers. -/
def Node.named (nodeID : String) : Node where
  nodeID := nodeID
  pipelineSchemaHash schema := String.intercalate "," schema.stepIDs
  replyNode replyTo := replyTo

/-- What an engine has done. -/
inductive Event
  /-- A task was put into the queue. -/
  | queued (req : TaskRequest)
  /-- The handler of a step was run, with the schema and the state of the task. -/
  | executed (taskID : String) (step : PipelineStep) (schema : PipelineSchema)
      (state : PipelineExecutionState)
  /-- A peer was asked whether it can run a step. -/
  | asked (peerID : String) (query : DiscoveryQuery)
  /-- A task was sent to a peer, which accepted it if there is no error. -/
  | submitted (peerID : String) (req : TaskRequest) (err : Option GoError)
  /-- A task was sent to a coordinator, which took it into escrow if there is no
  error. -/
  | escalated (coordinator : String) (req : TaskEscrowRequest) (err : Option GoError)
  /-- A response was sent. -/
  | responded (replyTo : String) (response : ServiceTaskResponse)

/-- A registered service: what its schema says about a payload. -/
structure RegisteredService where
  validate : JsonMap → Option GoError

/-- The state of an engine. -/
structure Engine where
  tables : TaskTables
  queue : List TaskRequest
  escrow : Table TaskEscrowRequest.taskID
  services : Bucket String RegisteredService
  pipelines : Bucket String PipelineSchema
  pipelineRevisions : Bucket String PipelineSchema
  db : Storage.Database
  closed : Bool
  trace : List Event
  answers : ℕ

/-- An engine that has just been made over a database. -/
def Engine.new (db : Storage.Database) : Engine where
  tables := .initial
  queue := []
  escrow := .empty
  services := .empty
  pipelines := .empty
  pipelineRevisions := .empty
  db := db
  closed := false
  trace := []
  answers := 0

/-- The capacity of the task queue. -/
def queueCapacity : ℕ := 10

/-! ## Equality of requests -/

mutual

/-- `reflect.DeepEqual` of two JSON values. -/
def deepEqualJson : Json → Json → Bool
  | .null, .null => true
  | .bool a, .bool b => a = b
  | .number a, .number b => a = b
  | .string a, .string b => a = b
  | .array a, .array b => deepEqualItems a b
  | .object a, .object b => a.length = b.length ∧ deepEqualFields a b
  | _, _ => false

/-- The same for slices. -/
def deepEqualItems : List Json → List Json → Bool
  | [], [] => true
  | a :: as, b :: bs => deepEqualJson a b ∧ deepEqualItems as bs
  | _, _ => false

/-- Every field of the first map is one of the second. -/
def deepEqualFields : JsonMap → JsonMap → Bool
  | [], _ => true
  | (key, value) :: rest, other =>
    (match lookupKey other key with
      | some value' => deepEqualJson value value'
      | none => false) && deepEqualFields rest other

end

/-- `reflect.DeepEqual` of two maps, nil or not. -/
def deepEqualMap {V : Type} (equal : V → V → Bool) :
    Option (List (String × V)) → Option (List (String × V)) → Bool
  | none, none => true
  | some a, some b => a.length = b.length ∧ a.all fun e => (lookupKey b e.1).any (equal e.2)
  | _, _ => false

/-- `reflect.DeepEqual` of two execution states. -/
def deepEqualState (a b : PipelineExecutionState) : Bool :=
  a.pipelineID = b.pipelineID ∧ a.pipelineVersion = b.pipelineVersion ∧
    a.schemaHash = b.schemaHash ∧ a.currentStep = b.currentStep ∧ a.snapshot = b.snapshot ∧
    deepEqualMap (fun x y => deepEqualJson (.object x) (.object y)) a.outputs b.outputs ∧
    deepEqualMap (fun x y => decide (x = y)) a.outputProducers b.outputProducers ∧
    deepEqualMap (fun x y => decide (x = y)) a.selectedTargets b.selectedTargets

/-- `reflect.DeepEqual` of two task requests. -/
def deepEqual (a b : TaskRequest) : Bool :=
  a.taskID = b.taskID && a.service = b.service && a.requesterNodeID = b.requesterNodeID &&
    a.replyTo = b.replyTo && a.expectedProducerNodeID = b.expectedProducerNodeID &&
    deepEqualMap deepEqualJson a.payload b.payload &&
    (match a.pipelineState, b.pipelineState with
      | none, none => true
      | some x, some y => deepEqualState x y
      | _, _ => false)

/-! ## Actions -/

/-- The actions of an engine. -/
inductive Action : Type → Type 1
  /-- Look at the state under a read lock. -/
  | read {β : Type} (view : Engine → β) : Action β
  -- under the lock of the status tables
  | registerOutgoingTask (req : TaskRequest) (delegated : List String) : Action Unit
  | acceptTaskCallback (producerNodeID : String) (response : ServiceTaskResponse) :
      Action (Option GoError)
  | recordTaskResponse (response : ServiceTaskResponse) : Action Unit
  | setTaskStatus (response : ServiceTaskResponse) : Action Unit
  | getTaskResponse (taskID : String) : Action (Option ServiceTaskResponse)
  | getAllTaskStatuses : Action (List ServiceTaskResponse)
  | delegateProducers (taskID : String) (targets : List String) : Action Unit
  | expectProducer (taskID target : String) (targets : List String) : Action Unit
  | restoreMetadata (taskID : String) (metadata : Option TaskStatusMetadata) : Action Unit
  | failAcceptedTasks : Action Unit
  -- the queue and the accepted tasks
  | enqueue (req : TaskRequest) : Action (Option GoError)
  | deleteAccepted (taskID : String) : Action Unit
  | dequeue : Action (Option TaskRequest)
  | close : Action Unit
  -- the escrow table
  | putEscrow (req : TaskEscrowRequest) : Action Unit
  | takeEscrow (taskID : String) : Action (Option TaskEscrowRequest)
  -- the pipeline registry
  | applyPipelineRevision (schema : PipelineSchema) : Action (Option GoError)
  -- the outside
  | now : Action ℤ
  | find (query : DiscoveryQuery) : Action (Except GoError String)
  | fetchServiceBid (peerID : String) (query : DiscoveryQuery) : Action (Except GoError ServiceBid)
  | submitToPeer (peerID : String) (req : TaskRequest) : Action (Option GoError)
  | sendTaskEscrow (coordinator : String) (req : TaskEscrowRequest) : Action (Option GoError)
  | sendTaskResponse (replyTo : String) (response : ServiceTaskResponse) : Action Unit
  | execute (taskID : String) (step : PipelineStep) (schema : PipelineSchema)
      (state : PipelineExecutionState) (payload : JsonMap) :
      Action (Except GoError JsonMap)
  | resolveBlob (sourceNodeID hash : String) : Action (Except GoError String)
  | stage (outputs : Option JsonMap) : Action (Option GoError × Option JsonMap)
  | checkpoint (record : Storage.TaskJournalRecord) : Action (Option GoError)

namespace Engine

/-- The state after one more answer of the outside. -/
def answered (s : Engine) : Engine := { s with answers := s.answers + 1 }

/-- The state with other task tables. -/
def withTables (s : Engine) (tables : TaskTables) : Engine := { s with tables := tables }

/-- The state after something visible outside. -/
def logged (s : Engine) (event : Event) : Engine := { s with trace := s.trace ++ [event] }

def errTaskDuplicate : GoError := .new "duplicate task ID"

def errClosed : GoError := .new "compute engine closed"

/-- `recordCheckpoint`: one transaction of the journal, if there is one. -/
def recordCheckpoint (c : Node) (w : World) (s : Engine) (record : Storage.TaskJournalRecord) :
    Option GoError × Engine :=
  if !c.taskJournal then (none, s)
  else
    match Storage.validateTaskID record.taskID with
    | some err => (some err, s)
    | none =>
      match w.journal s.answers with
      | some err => (some err, s.answered)
      | none =>
        match Storage.appendTaskCheckpointTx
          (Storage.completeCheckpoint record (w.clock s.answers)) s.db with
        | .error err => (some err, s.answered)
        | .ok (_, db) => (none, { s.answered with db := db })

/-- `recordTerminalResponseCheckpoint`. -/
def recordTerminalResponse (c : Node) (w : World) (s : Engine) (response : ServiceTaskResponse)
    (producerNodeID : String) : Engine :=
  if !isTerminalTaskStatus response.status then s
  else
    (s.recordCheckpoint c w
      { taskID := response.taskID
        service := response.service
        status := response.status.text
        error := response.error
        nodeID := if producerNodeID = "" then response.producerNodeID else producerNodeID
        outputs := response.outputs }).2

/-- The end of a critical section that may have stored a response. -/
def finish (c : Node) (w : World) (s : Engine) (handled : TaskTables.Handled)
    (producerNodeID : String) : Engine :=
  let s := (s.withTables handled.tables).answered
  match handled.stored with
  | none => s
  | some response => s.recordTerminalResponse c w response producerNodeID

/-- One round of `failAcceptedTasks`. -/
def failAcceptedTask (c : Node) (w : World) (s : Engine) (req : TaskRequest) : Engine :=
  if (s.tables.statuses.get req.taskID).any fun r => isTerminalTaskStatus r.status then
    s.withTables (s.tables.deleteAccepted req.taskID)
  else
    let response := failedTaskResponse req.taskID req.service "compute engine closed"
    let s := (s.withTables (s.tables.storeTaskStatus response (w.clock s.answers))).answered
    let s := (s.recordCheckpoint c w
      { taskID := req.taskID
        service := req.service
        requesterNodeID := req.requesterNodeID
        replyTo := req.replyTo
        status := "failed"
        nodeID := c.nodeID
        payload := req.payload
        pipelineState := req.pipelineState
        error := "compute engine closed" }).2
    s.withTables (s.tables.deleteAccepted req.taskID)

/-- The end of `SubmitTask`: accept a request and put it into the queue. -/
def enqueue (s : Engine) (req : TaskRequest) : Option GoError × Engine :=
  match s.tables.accepted.get req.taskID with
  | some existing =>
    if deepEqual existing req then (none, s)
    else (some (.wrapf "%w %q" [req.taskID] errTaskDuplicate), s)
  | none =>
    if s.queue.length < queueCapacity then
      (none, { s.withTables { s.tables with accepted := s.tables.accepted.insert req } with
        queue := s.queue ++ [req]
        trace := s.trace ++ [.queued req] })
    else (some (.errorf "node is overloaded: task queue is full" []), s)

/-- `ApplyPipelineRevision` without persistence. -/
def applyPipelineRevision (c : Node) (s : Engine) (schema : PipelineSchema) :
    Option GoError × Engine :=
  match validatePipelineSchema schema with
  | some err => (some err, s)
  | none =>
    match (s.pipelineRevisions.get schema.id).bind fun current =>
      validatePipelineRevision c.pipelineSchemaHash current schema with
    | some err => (some err, s)
    | none =>
      (none, { s with
        pipelineRevisions := s.pipelineRevisions.put schema.id schema
        pipelines :=
          if schema.deleted then s.pipelines.erase schema.id
          else s.pipelines.put schema.id schema })

end Engine

open Engine

/-- What an action returns and how it changes the engine. -/
def exec (c : Node) (w : World) : {β : Type} → Action β → Engine → β × Engine
  | _, .read view, s => (view s, s)
  | _, .registerOutgoingTask req delegated, s =>
    ((), (s.withTables
      (s.tables.registerOutgoingTask req delegated (w.clock s.answers))).answered)
  | _, .acceptTaskCallback producerNodeID response, s =>
    let handled := s.tables.acceptTaskCallback producerNodeID response (w.clock s.answers)
    (handled.err, s.finish c w handled producerNodeID)
  | _, .recordTaskResponse response, s =>
    ((), s.finish c w (s.tables.recordTaskResponse response (w.clock s.answers))
      response.producerNodeID)
  | _, .setTaskStatus response, s =>
    ((), (s.withTables (s.tables.setTaskStatus response (w.clock s.answers))).answered)
  | _, .getTaskResponse taskID, s =>
    let (response, tables) := s.tables.getTaskResponse taskID (w.clock s.answers)
    (response, (s.withTables tables).answered)
  | _, .getAllTaskStatuses, s =>
    let (responses, tables) := s.tables.getAllTaskStatuses (w.clock s.answers)
    (responses, (s.withTables tables).answered)
  | _, .delegateProducers taskID targets, s =>
    ((), s.withTables (s.tables.delegateProducers taskID targets))
  | _, .expectProducer taskID target targets, s =>
    ((), s.withTables (s.tables.expectProducer taskID target targets))
  | _, .restoreMetadata taskID metadata, s =>
    ((), s.withTables { s.tables with
      statusMeta := match metadata with
        | some metadata => s.tables.statusMeta.put taskID metadata
        | none => s.tables.statusMeta.erase taskID })
  | _, .failAcceptedTasks, s =>
    ((), (s.tables.accepted.rows.entries.map Prod.snd).foldl (failAcceptedTask c w) s)
  | _, .enqueue req, s => s.enqueue req
  | _, .deleteAccepted taskID, s => ((), s.withTables (s.tables.deleteAccepted taskID))
  | _, .dequeue, s => (s.queue.head?, { s with queue := s.queue.tail })
  | _, .close, s => ((), { s with closed := true })
  | _, .putEscrow req, s => ((), { s with escrow := s.escrow.insert req })
  | _, .takeEscrow taskID, s =>
    (s.escrow.get taskID, { s with escrow := s.escrow.erase taskID })
  | _, .applyPipelineRevision schema, s => s.applyPipelineRevision c schema
  | _, .now, s => (w.clock s.answers, s.answered)
  | _, .find query, s =>
    (w.serviceFinder s.answers query (s.services.has query.service), s.answered)
  | _, .fetchServiceBid peerID query, s =>
    (w.fetchServiceBid s.answers, s.answered.logged (.asked peerID query))
  | _, .submitToPeer peerID req, s =>
    (w.submitTask s.answers,
      s.answered.logged (.submitted peerID req (w.submitTask s.answers)))
  | _, .sendTaskEscrow coordinator req, s =>
    (w.sendTaskEscrow s.answers,
      s.answered.logged (.escalated coordinator req (w.sendTaskEscrow s.answers)))
  | _, .sendTaskResponse replyTo response, s => ((), s.logged (.responded replyTo response))
  | _, .execute taskID step schema state _, s =>
    (w.handler s.answers, s.answered.logged (.executed taskID step schema state))
  | _, .resolveBlob _ _, s => (w.resolveBlob s.answers, s.answered)
  | _, .stage outputs, s => (w.stage s.answers outputs, s.answered)
  | _, .checkpoint record, s => s.recordCheckpoint c w record

/-- The handler of a node's actions. -/
def handler (c : Node) (w : World) : Handler Action Engine := ⟨exec c w⟩

/-! ## What an action touches -/

/-- A checkpoint touches the journal, and takes an answer of the outside. -/
theorem recordCheckpoint_frame (c : Node) (w : World) (s : Engine)
    (record : Storage.TaskJournalRecord) :
    ∃ db answers, (s.recordCheckpoint c w record).2 = { s with db := db, answers := answers } := by
  simp only [Engine.recordCheckpoint]
  repeat' split
  all_goals exact ⟨_, _, rfl⟩

theorem recordCheckpoint_tables (c : Node) (w : World) (s : Engine)
    (record : Storage.TaskJournalRecord) : (s.recordCheckpoint c w record).2.tables = s.tables := by
  obtain ⟨_, _, h⟩ := recordCheckpoint_frame c w s record
  rw [h]

theorem finish_frame (c : Node) (w : World) (s : Engine) (handled : TaskTables.Handled)
    (producer : String) :
    ∃ db answers, s.finish c w handled producer =
      { s with tables := handled.tables, db := db, answers := answers } := by
  simp only [Engine.finish]
  split
  · exact ⟨_, _, rfl⟩
  simp only [Engine.recordTerminalResponse]
  split
  · exact ⟨_, _, rfl⟩
  · obtain ⟨db, answers, h⟩ := recordCheckpoint_frame c w (s.withTables handled.tables).answered _
    exact ⟨db, answers, h⟩

theorem finish_tables (c : Node) (w : World) (s : Engine) (handled : TaskTables.Handled)
    (producer : String) :
    (s.finish c w handled producer).tables = handled.tables := by
  obtain ⟨_, _, h⟩ := finish_frame c w s handled producer
  rw [h]

/-- Giving up accepted tasks touches the tables and the journal. -/
theorem failAcceptedTasks_frame (c : Node) (w : World) (tasks : List TaskRequest) (s : Engine) :
    ∃ tables db answers, tasks.foldl (Engine.failAcceptedTask c w) s =
      { s with tables := tables, db := db, answers := answers } := by
  induction tasks generalizing s with
  | nil => exact ⟨_, _, _, rfl⟩
  | cons req rest ih =>
    obtain ⟨tables, db, answers, hrest⟩ := ih (Engine.failAcceptedTask c w s req)
    have hone : ∃ tables db answers, Engine.failAcceptedTask c w s req =
        { s with tables := tables, db := db, answers := answers } := by
      simp only [Engine.failAcceptedTask]
      split
      · exact ⟨_, _, _, rfl⟩
      obtain ⟨db, answers, h⟩ := recordCheckpoint_frame c w (s.withTables
        (s.tables.storeTaskStatus (failedTaskResponse req.taskID req.service
          "compute engine closed") (w.clock s.answers))).answered _
      rw [h]
      exact ⟨_, _, _, rfl⟩
    obtain ⟨tables', db', answers', hone⟩ := hone
    rw [List.foldl_cons, hrest, hone]
    exact ⟨tables, db, answers, rfl⟩

/-- Whether an action touches more than the tables, the journal and the answers of the outside. -/
def Action.reaches : {β : Type} → Action β → Bool
  | _, .enqueue _ | _, .dequeue | _, .putEscrow _ | _, .takeEscrow _ | _, .close
  | _, .applyPipelineRevision _ | _, .fetchServiceBid _ _ | _, .submitToPeer _ _
  | _, .sendTaskEscrow _ _ | _, .sendTaskResponse _ _ | _, .execute _ _ _ _ _ => true
  | _, _ => false

theorem exec_frame (c : Node) (w : World) {β : Type} (e : Action β) (s : Engine)
    (he : e.reaches = false) : ∃ tables db answers, (exec c w e s).2 =
      { s with tables := tables, db := db, answers := answers } := by
  cases e with
  | enqueue | dequeue | putEscrow | takeEscrow | close | applyPipelineRevision => cases he
  | fetchServiceBid | submitToPeer | sendTaskEscrow | sendTaskResponse | execute => cases he
  | acceptTaskCallback producer response => exact ⟨_, finish_frame c w s _ producer⟩
  | recordTaskResponse response => exact ⟨_, finish_frame c w s _ response.producerNodeID⟩
  | checkpoint record => exact ⟨s.tables, recordCheckpoint_frame c w s record⟩
  | failAcceptedTasks => exact failAcceptedTasks_frame c w _ s
  | _ => exact ⟨_, _, _, rfl⟩

/-- What is registered was registered before, or it is the new definition and valid. -/
theorem applyPipelineRevision_frame (c : Node) {s : Engine} {P : PipelineSchema → Prop}
    {S : PipelineSchema} (hS : validatePipelineSchema S = none → P S)
    (hpipelines : ∀ id T, s.pipelines.get id = some T → P T)
    (hrevisions : ∀ id T, s.pipelineRevisions.get id = some T → P T) :
    ∃ pipelines revisions, (s.applyPipelineRevision c S).2 =
        { s with pipelines := pipelines, pipelineRevisions := revisions } ∧
      (∀ id T, pipelines.get id = some T → P T) ∧ ∀ id T, revisions.get id = some T → P T := by
  simp only [Engine.applyPipelineRevision]
  split
  · exact ⟨_, _, rfl, hpipelines, hrevisions⟩
  split
  · exact ⟨_, _, rfl, hpipelines, hrevisions⟩
  rename_i hvalid _ _
  have hput : ∀ {b : Bucket String PipelineSchema}, (∀ id T, b.get id = some T → P T) →
      ∀ id T, (b.put S.id S).get id = some T → P T := by
    intro b hb id T hT
    rw [Bucket.get_put] at hT
    split_ifs at hT
    · exact Option.some.inj hT ▸ hS hvalid
    · exact hb id T hT
  refine ⟨_, _, rfl, fun id T hT => ?_, hput hrevisions⟩
  split_ifs at hT
  · rw [Bucket.get_erase] at hT
    split_ifs at hT
    exact hpipelines id T hT
  · exact hput hpipelines id T hT

end Proxyma.Compute
