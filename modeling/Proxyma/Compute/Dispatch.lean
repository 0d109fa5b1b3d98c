import Proxyma.Compute.Binding

/-!
# Handing tasks on

`submitTask` puts a task into the queue of this node, `dispatchTask` sends it to
another one.  A task whose requester is this node is tracked: it is registered
before it is sent and marked as failed if the peer does not take it.
-/

namespace Proxyma.Compute

open Keyed Atomic Atomic.Call GoError

def setTaskStatus (response : ServiceTaskResponse) : Call Action Unit := do
  let closed ← perform (.read Engine.closed)
  perform (.setTaskStatus
    (if closed then markTaskFailedShape response Engine.errClosed.text else response))

/-! ## The local queue -/

/-- `SubmitTask` from the lifecycle lock on. -/
def admitTask (req : TaskRequest) : Call Action (Option GoError) := do
  let closed ← perform (.read Engine.closed)
  if closed then return some Engine.errClosed
  else
    let status ← perform (.read fun s => s.tables.statuses.get req.taskID)
    match status.filter fun response => isTerminalTaskStatus response.status with
    | some response =>
      if response.service = req.service then return none
      else
        return some (.wrapf "%w %q: existing service %q, new service %q"
          [req.taskID, response.service, req.service] Engine.errTaskDuplicate)
    | none =>
      match ← perform (.read fun s => s.tables.retired.get req.taskID) with
      | some retired =>
        if retired.service = req.service then return none
        else
          return some (.wrapf "%w %q: retired service %q, new service %q"
            [req.taskID, retired.service, req.service] Engine.errTaskDuplicate)
      | none => perform (.enqueue req)

def submitTask (c : Node) (req : TaskRequest) : Call Action (Option GoError) := do
  if req.taskID = "" then return some (.wrapf "%w: task ID is empty" [] Engine.errTaskDuplicate)
  else
    let req := { req with
      requesterNodeID := if req.requesterNodeID = "" then c.nodeID else req.requesterNodeID }
    if req.pipelineState.isNone then
      let (err, req, _) ← bindPipelineTask c req
      match err with
      | some err => return some err
      | none => admitTask req
    else admitTask req

/-! ## Peers -/

/-- The producers `RegisterOutgoingTask` delegates a task to: the nodes of its
steps. -/
def stepProducers (state : PipelineExecutionState) (schema : Option PipelineSchema) :
    List String :=
  let steps := (schema.map PipelineSchema.steps).getD []
  let bound := steps.map fun step =>
    if state.target step.id = "" then step.targetNodeID else state.target step.id
  addProducers [] (bound.filter (fun target => target ≠ "") ++ state.targets)

def registerOutgoingTask (req : TaskRequest) : Call Action Unit := do
  match req.pipelineState with
  | none => perform (.registerOutgoingTask req [])
  | some state =>
    let schema ← registeredOrCarried req.service req.pipelineState
    perform (.registerOutgoingTask req (stepProducers state schema))

def markTaskAsFailed (req : TaskRequest) (reason : String) : Call Action Unit :=
  setTaskStatus (failedTaskResponse req.taskID req.service reason)

def submitTrackedTask (c : Node) (req : TaskRequest)
    (submit : TaskRequest → Call Action (Option GoError)) : Call Action (Option GoError) := do
  let (err, req) ← preparePipelineTargets c req
  match err with
  | some err => return some (.wrapf "prepare pipeline targets: %w" [] err)
  | none =>
    registerOutgoingTask req
    match ← submit req with
    | some err =>
      markTaskAsFailed req err.text
      return some err
    | none => return none

/-- The part of `DispatchTask` that asks the peer whether it can continue a
pipeline. -/
def verifyContinuation (targetPeerID : String) (req : TaskRequest) :
    Call Action (Option GoError) := do
  match req.pipelineState with
  | none => return none
  | some state =>
    if state.currentStep ≤ 0 then return none
    else
      let schema ← registeredOrCarried req.service req.pipelineState
      match schema.bind fun schema => schema.stepAt state.currentStep with
      | none =>
        return some (.errorf "cannot validate pipeline continuation capability for step %d"
          [toString state.currentStep])
      | some step =>
        match ← perform (.fetchServiceBid targetPeerID (stepQuery step state.currentStep [])) with
        | .error err => return some (.wrapf "verify pipeline continuation capability: %w" [] err)
        | .ok bid =>
          if bid.canAccept ∧ supportsCapabilities bid.capabilities pipelineStateCapability
          then return none
          else
            return some (.errorf "peer %q does not support pipeline state capability v%d"
              [targetPeerID, "2"])

/-- `DispatchTask` once the request is bound: the error, and the payload as the
caller sees it. -/
def sendTask (c : Node) (targetPeerID : String) (req : TaskRequest) :
    Call Action (Option GoError × Option JsonMap) := do
  let (err, req) ← bindPipelineStepTarget req targetPeerID
  match err with
  | some err => return (some (.wrapf "bind pipeline step target: %w" [] err), req.payload)
  | none =>
    let (err, payload) ← perform (.stage req.payload)
    let req := { req with payload := payload }
    match err with
    | some err => return (some (.wrapf "stage payload for dispatch: %w" [] err), payload)
    | none =>
      match ← verifyContinuation targetPeerID req with
      | some err => return (some err, payload)
      | none =>
        let submit := fun prepared => perform (.submitToPeer targetPeerID prepared)
        let err ← (if req.requesterNodeID ≠ c.nodeID then submit req
          else submitTrackedTask c req submit)
        return (err, payload)

/-- `DispatchTask`: the error, and the request as the caller sees it afterwards. -/
def dispatchTask (c : Node) (targetPeerID : String) (caller : TaskRequest) :
    Call Action (Option GoError × TaskRequest) := do
  let (err, req, shared) ← bindPipelineTask c { caller with
    requesterNodeID := if caller.requesterNodeID = "" then c.nodeID else caller.requesterNodeID
    expectedProducerNodeID := targetPeerID }
  let caller := { caller with pipelineState := shared }
  match err with
  | some err => return (some (.wrapf "bind pipeline task: %w" [] err), caller)
  | none =>
    let (err, payload) ← sendTask c targetPeerID req
    return (err, { caller with payload := payload })

/-- The part of `LocalServiceRunContext` that starts a task: the request names
this node as its requester and carries no execution state yet. -/
def localServiceRun (c : Node) (req : TaskRequest) (targetPeerID : String) :
    Call Action (Option GoError) := do
  let (err, req, _) ← bindPipelineTask c { req with expectedProducerNodeID := targetPeerID }
  match err with
  | some err => return some (.wrapf "bind pipeline task: %w" [] err)
  | none =>
    if targetPeerID = c.nodeID then
      let err ← submitTrackedTask c req (submitTask c)
      return err.map (.wrapf "failed to submit local task: %w" [])
    else
      let (err, _) ← dispatchTask c targetPeerID req
      return err

end Proxyma.Compute
