import Proxyma.Compute.Dispatch

/-!
# Escrow

A pipeline step for which no node can be found is escalated to the coordinator
of the task, which keeps the task in its escrow table and journals it.  From
there it is resumed when a node for the step has appeared, and restored after a
restart.
-/

namespace Proxyma.Compute

open Keyed Atomic Atomic.Call GoError

def coordinatorNodeID (c : Node) (t : TaskRequest) : String :=
  let initial := (t.pipelineState.map fun state => state.producer initialStep).getD ""
  if initial ≠ "" then initial
  else if t.requesterNodeID ≠ "" then t.requesterNodeID
  else if t.replyTo ≠ "" then c.replyNode t.replyTo
  else ""

/-- The response that reports a task in escrow. -/
def escrowStatus (taskID service error producerNodeID : String) : ServiceTaskResponse :=
  { taskID, service, status := .escrow, error, producerNodeID }

def checkpointFromEscrow (req : TaskEscrowRequest) (status nodeID : String) :
    Storage.TaskJournalRecord :=
  { taskID := req.taskID
    service := req.service
    requesterNodeID := req.requesterNodeID
    replyTo := req.replyTo
    status := status
    error := req.error
    nodeID := nodeID
    payload := req.payload
    pipelineState := req.pipelineState
    stepID := req.stepID
    stepIndex := req.stepIndex }

/-! ## Into escrow -/

/-- `PutTaskInEscrow` with a complete request. -/
def storeEscrow (c : Node) (req : TaskEscrowRequest) : Call Action (Option GoError) := do
  let existing ← perform (.read fun s => s.escrow.get req.taskID)
  let isDuplicateEscrow := existing.any fun existing => existing.stepIndex = req.stepIndex
  let err ← (if c.taskJournal ∧ !isDuplicateEscrow then
      perform (.checkpoint
        { checkpointFromEscrow req "escrow" req.producerNodeID with timestamp := req.timestamp })
    else pure none)
  match err with
  | some err => return some (.wrapf "persist escrow checkpoint: %w" [] err)
  | none =>
    perform (.putEscrow req)
    setTaskStatus (escrowStatus req.taskID req.service req.error req.producerNodeID)
    return none

def putTaskInEscrow (c : Node) (req : TaskEscrowRequest) : Call Action (Option GoError) := do
  if req.taskID = "" then return some (.errorf "empty task ID in escrow request" [])
  else
    let now ← perform .now
    storeEscrow c { req with
      timestamp := if req.timestamp = 0 then now else req.timestamp
      requesterNodeID := if req.requesterNodeID = "" then c.nodeID else req.requesterNodeID }

/-- The escrow request a worker makes of a task. -/
def escrowRequest (c : Node) (t : TaskRequest) (step : PipelineStep) (stepIndex : ℤ)
    (cause : GoError) (now : ℤ) : TaskEscrowRequest :=
  { taskID := t.taskID
    service := t.service
    requesterNodeID := coordinatorNodeID c t
    replyTo := t.replyTo
    stepID := step.id
    stepIndex := stepIndex
    error := cause.text
    producerNodeID := c.nodeID
    payload := t.payload
    pipelineState := t.pipelineState
    outputs := t.pipelineState.bind PipelineExecutionState.outputs
    timestamp := now }

/-- The request of `escalateToEscrow` to a coordinator on another node. -/
def sendEscrow (c : Node) (coordinator : String) (req : TaskEscrowRequest) :
    Call Action (Option GoError) := do
  if c.taskEscrowDispatcher then
    let err ← perform (.sendTaskEscrow coordinator req)
    return err.map (.wrapf "escrow dispatcher: %w" [])
  else if c.peerClient then
    let err ← perform (.sendTaskEscrow coordinator req)
    return err.map (.wrapf "send task escrow RPC: %w" [])
  else return some (.errorf "no escrow dispatcher or peer client available" [])

def escalateToEscrow (c : Node) (t : TaskRequest) (step : PipelineStep) (stepIndex : ℤ)
    (cause : GoError) : Call Action (Option GoError) := do
  let coordinator := coordinatorNodeID c t
  let now ← perform .now
  let req := escrowRequest c t step stepIndex cause now
  if coordinator = c.nodeID ∨ coordinator = "" then
    perform (.deleteAccepted t.taskID)
    putTaskInEscrow c req
  else
    match ← sendEscrow c coordinator req with
    | some err => return some err
    | none =>
      perform (.deleteAccepted t.taskID)
      setTaskStatus (escrowStatus t.taskID t.service cause.text c.nodeID)
      let _ ← perform (.checkpoint
        { checkpointFromTask c t "escrow" with
          stepID := step.id
          stepIndex := stepIndex
          error := cause.text })
      return none

/-- The checks of `HandleServiceEscrow` under the status lock. -/
def escrowRefusal (tables : TaskTables) (producerNodeID taskID : String) : Option GoError :=
  match tables.statusMeta.get taskID with
  | none =>
    if (tables.retired.get taskID).isSome then
      some (.errorf "task %q is already in terminal state" [taskID])
    else some (.errorf "task %q not found" [taskID])
  | some metadata =>
    if (metadata.expectedProducer = "" ∨ metadata.expectedProducer ≠ producerNodeID) ∧
        producerNodeID ∉ metadata.delegatedProducers then
      some (.errorf "producer %q is not authorized for task %q" [producerNodeID, taskID])
    else
      match (tables.statuses.get taskID).filter fun r => isTerminalTaskStatus r.status with
      | some current =>
        some (.errorf "task %q is already in terminal state %q" [taskID, current.status.text])
      | none => none

/-- `HandleServiceEscrow` of a decoded request from an authenticated peer. -/
def handleServiceEscrow (c : Node) (producerNodeID : String) (req : TaskEscrowRequest) :
    Call Action (Option GoError) := do
  if req.producerNodeID ≠ "" ∧ req.producerNodeID ≠ producerNodeID then
    return some (.errorf "producer node ID must match authenticated peer" [])
  else if req.requesterNodeID ≠ "" ∧ req.requesterNodeID ≠ c.nodeID then
    return some (.errorf "requester node ID must match coordinator" [])
  else
    match ← perform (.read fun s => escrowRefusal s.tables producerNodeID req.taskID) with
    | some err => return some err
    | none =>
      putTaskInEscrow c { req with
        producerNodeID := if req.producerNodeID = "" then producerNodeID else req.producerNodeID
        requesterNodeID := if req.requesterNodeID = "" then c.nodeID else req.requesterNodeID }

/-! ## After a restart -/

/-- The escrow entry `RestoreEscrowTask` makes of a stored task. -/
def restoredEntry (task : Storage.TaskRecord) (stepID : String) : TaskEscrowRequest :=
  { taskID := task.taskID
    service := task.service
    requesterNodeID := task.requesterNodeID
    replyTo := task.replyTo
    stepID := stepID
    stepIndex := task.currentStep
    error := task.error
    outputs := task.outputs
    payload := task.payload
    pipelineState := task.pipelineState
    timestamp := task.updatedAt }

/-- `RestoreEscrowTask` with the step's identifier found. -/
def restoreEscrow (task : Storage.TaskRecord) (stepID : String) : Call Action Unit := do
  perform (.putEscrow (restoredEntry task stepID))
  setTaskStatus (escrowStatus task.taskID task.service task.error task.nodeID)
  let node := if task.nodeID = "" then [] else [task.nodeID]
  if task.expectedProducerNodeID = "" then perform (.delegateProducers task.taskID node)
  else perform (.expectProducer task.taskID task.expectedProducerNodeID node)

def restoreEscrowTask (task : Storage.TaskRecord) : Call Action Unit := do
  match task.pipelineState.bind PipelineExecutionState.snapshot with
  | none => restoreEscrow task task.currentStepID
  | some snapshot =>
    if task.currentStepID = "" ∧ task.currentStep < snapshot.steps.length then
      match snapshot.stepAt task.currentStep with
      | none => panic
      | some step => restoreEscrow task step.id
    else restoreEscrow task task.currentStepID

/-- The checkpoint that gives up a task which was active when its node stopped. -/
def zombieCheckpoint (task : Storage.TaskRecord) : Storage.TaskJournalRecord :=
  { taskID := task.taskID
    service := task.service
    requesterNodeID := task.requesterNodeID
    replyTo := task.replyTo
    status := "failed"
    error := "server restarted while task was active"
    nodeID := task.nodeID
    payload := task.payload
    pipelineState := task.pipelineState
    outputs := some [("error", .string "server restarted while task was active")]
    stepID := task.currentStepID
    stepIndex := task.currentStep }

/-- The loop of `New` over the tasks that were active when the node stopped. -/
def restoreActiveTasks : List Storage.TaskRecord → Call Action Unit
  | [] => return ()
  | task :: rest => do
      if task.status = "escrow" then
        restoreEscrowTask task
        restoreActiveTasks rest
      else
        let _ ← perform (.checkpoint (zombieCheckpoint task))
        restoreActiveTasks rest

/-- The loop of `New` over the stored definitions. -/
def registerPipelines : List PipelineSchema → Call Action Unit
  | [] => return ()
  | schema :: rest => do
      let _ ← perform (.applyPipelineRevision schema)
      registerPipelines rest

/-- The part of `New` that brings an engine up, with what was stored when the node
stopped. -/
def startEngine (schemas : List PipelineSchema) (active : List Storage.TaskRecord) :
    Call Action Unit := do
  registerPipelines schemas
  restoreActiveTasks active

/-! ## Out of escrow -/

/-- The part of `ResumeEscrowTask` that looks for a node. -/
def findCandidate (c : Node) (step : PipelineStep) (stepIndex : ℤ) : Call Action String := do
  let localSupports ← getHandler step.service
  if localSupports then return c.nodeID
  else if !c.serviceFinder then return ""
  else
    match ← perform (.find (stepQuery step stepIndex [])) with
    | .error _ => return ""
    | .ok peerID => return peerID

/-- The state with which a task leaves escrow. -/
def resumeState (c : Node) (task : TaskEscrowRequest) (schema : PipelineSchema)
    (stepIndex : ℤ) (step : PipelineStep) (targetPeer : String) : PipelineExecutionState :=
  let state : PipelineExecutionState := task.pipelineState.getD
    { pipelineID := schema.id
      pipelineVersion := schema.version
      currentStep := stepIndex
      outputs := some [] }
  let state := { state with
    schemaHash := if state.schemaHash = "" then c.pipelineSchemaHash schema else state.schemaHash
    snapshot := some (state.snapshot.getD schema)
    outputs := some (mergeMap (state.outputs.getD []) (task.outputs.getD []) false) }
  let state := state.ensureInitialProducer task.requesterNodeID
  let state :=
    match if 0 < stepIndex ∧ task.producerNodeID ≠ "" then schema.stepAt (stepIndex - 1) else none
    with
    | none => state
    | some previous =>
      if state.producer previous.id = "" then state.setProducer previous.id task.producerNodeID
      else state
  state.setTarget step.id targetPeer

/-- The request that `ResumeEscrowTask` makes of an escrow entry. -/
def resumeRequest (c : Node) (task : TaskEscrowRequest) (schema : PipelineSchema)
    (stepIndex : ℤ) (step : PipelineStep) (targetPeer : String) : TaskRequest :=
  { taskID := task.taskID
    service := task.service
    requesterNodeID := task.requesterNodeID
    replyTo := task.replyTo
    payload := some (task.payload.getD [])
    pipelineState := some (resumeState c task schema stepIndex step targetPeer)
    expectedProducerNodeID := targetPeer }

def revertEscrow (taskID : String) (task : TaskEscrowRequest)
    (prevMeta : Option TaskStatusMetadata) : Call Action Unit := do
  perform (.putEscrow task)
  perform (.restoreMetadata taskID prevMeta)
  setTaskStatus (escrowStatus task.taskID task.service task.error task.producerNodeID)

/-- The end of a successful resumption. -/
def markResumed (c : Node) (task : TaskEscrowRequest) (stepIndex : ℤ) (step : PipelineStep)
    (targetPeer : String) : Call Action Unit := do
  setTaskStatus
    { taskID := task.taskID
      service := task.service
      status := .running
      producerNodeID := targetPeer }
  let _ ← perform (.checkpoint
    { checkpointFromEscrow task "running" c.nodeID with stepID := step.id, stepIndex := stepIndex })
  return ()

/-- Hand a resumed request to its node. -/
def handOver (c : Node) (targetPeer : String) (req : TaskRequest) :
    Call Action (Option GoError) := do
  if targetPeer = c.nodeID then
    perform (.deleteAccepted req.taskID)
    let err ← submitTask c req
    return err.map (.wrapf "resubmit local task failed: %w" [])
  else if !c.taskDispatcher then
    return some (.errorf "task dispatcher not configured on compute engine" [])
  else
    let (err, _) ← dispatchTask c targetPeer req
    match err with
    | some err => return some (.wrapf "dispatch step to %q failed: %w" [targetPeer] err)
    | none =>
      perform (.deleteAccepted req.taskID)
      return none

/-- `ResumeEscrowTask` once the task has been taken out of the table. -/
def resumeTaken (c : Node) (taskID : String) (task : TaskEscrowRequest) (schema : PipelineSchema)
    (stepIndex : ℤ) (step : PipelineStep) (targetPeer : String) :
    Call Action (Option GoError) := do
  let prevMeta ← perform (.read fun s => s.tables.statusMeta.get taskID)
  let (_, req) ← preparePipelineTargets c
    (resumeRequest c task schema stepIndex step targetPeer)
  perform (.expectProducer task.taskID targetPeer
    ((req.pipelineState.map PipelineExecutionState.targets).getD []))
  match ← handOver c targetPeer req with
  | some err =>
    revertEscrow taskID task prevMeta
    return some err
  | none =>
    markResumed c task stepIndex step targetPeer
    return none

def resumeEscrowTask (c : Node) (taskID : String) : Call Action (Option GoError) := do
  match ← perform (.read fun s => s.escrow.get taskID) with
  | none => return some (.errorf "task %q not in escrow" [taskID])
  | some task =>
    match ← registeredOrCarried task.service task.pipelineState with
    | none => return some (.errorf "pipeline schema %q not found for escrow task" [task.service])
    | some schema =>
      match schema.stepAt task.stepIndex with
      | none =>
        return some (.errorf "step index %d out of bounds for pipeline %q"
          [toString task.stepIndex, task.service])
      | some step =>
        let targetPeer ← findCandidate c step task.stepIndex
        if targetPeer = "" then
          return some (.errorf "no candidate node available for step '%s' service '%s'"
            [step.id, step.service])
        else
          match ← perform (.takeEscrow taskID) with
          | none => return some (.errorf "task %q not in escrow" [taskID])
          | some taken => resumeTaken c taskID taken schema task.stepIndex step targetPeer

/-- The loop of `WakeupEscrowTasks`. -/
def resumeEscrowTasks (c : Node) : List String → Call Action ℕ
  | [] => return 0
  | taskID :: rest => do
      let err ← resumeEscrowTask c taskID
      let resumed ← resumeEscrowTasks c rest
      return (if err.isNone then resumed + 1 else resumed)

def wakeupEscrowTasks (c : Node) : Call Action ℕ := do
  let taskIDs ← perform (.read fun s => s.escrow.keys)
  resumeEscrowTasks c taskIDs

end Proxyma.Compute
