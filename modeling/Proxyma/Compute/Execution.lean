import Proxyma.Compute.Escrow

/-!
# Processing a task

`processTask` binds a task from the queue, works out the input of its current
step and either runs the step's handler here or routes the task to another node.
After a step it records the outputs and advances: the next step is routed in its
turn, and after the last one the result is reported.

Routing tries up to three nodes (`failover`), this node among them; a task that
no node takes goes to escrow if it is past its first step, and fails otherwise.
-/

namespace Proxyma.Compute

open Keyed Atomic Atomic.Call GoError

/-! ## Failures -/

def sendPipelineError (c : Node) (t : TaskRequest) (err : GoError) : Call Action Unit := do
  let stepIndex := (t.pipelineState.map PipelineExecutionState.currentStep).getD 0
  let previous := (t.pipelineState.bind PipelineExecutionState.snapshot).bind fun snapshot =>
    snapshot.stepAt (stepIndex - 1)
  let _ ← perform (.checkpoint
    { checkpointFromTask c t "failed" with
      stepID := (previous.map PipelineStep.id).getD ""
      stepIndex := stepIndex
      error := err.text })
  let response : ServiceTaskResponse :=
    { taskID := t.taskID
      service := t.service
      status := .failed
      error := err.text
      producerNodeID := c.nodeID
      pipelineState := t.pipelineState }
  setTaskStatus response
  if t.replyTo ≠ "" then perform (.sendTaskResponse t.replyTo response)

/-! ## Routing -/

/-- The request as it is sent to one of its candidates. -/
def targeted (t : TaskRequest) (step : PipelineStep) (target : String) : TaskRequest :=
  { t with
    expectedProducerNodeID := target
    pipelineState := t.pipelineState.map fun state => state.setTarget step.id target }

/-- Let a node answer for a task. -/
def delegateTo (taskID target : String) : Call Action Unit :=
  if target ≠ "" then perform (.delegateProducers taskID [target]) else pure ()

/-- The part of `dispatchStepWithFailover` that looks for the next candidate. -/
def findAlternative (c : Node) (step : PipelineStep) (stepIndex : ℤ) (triedPeers : List String) :
    Call Action String := do
  let found ← (if c.serviceFinder then do
      let answer ← perform (.find (stepQuery step stepIndex triedPeers))
      return (match answer with
        | .ok peerID => if peerID ∈ triedPeers then "" else peerID
        | .error _ => "")
    else pure "")
  if found ≠ "" then return found
  else if c.nodeID ∈ triedPeers then return ""
  else
    let localSupports ← getHandler step.service
    return (if localSupports then c.nodeID else "")

/-- How the rounds of `dispatchStepWithFailover` end: a node has the task, there
is no dispatcher, or no candidate took it. -/
inductive Dispatched
  | handed
  | unconfigured (t : TaskRequest)
  | exhausted (t : TaskRequest)

/-- One attempt of a round: the error, and the request afterwards. -/
def attempt (c : Node) (t : TaskRequest) (step : PipelineStep) (target : String) :
    Call Action (Option GoError × TaskRequest) := do
  if target = c.nodeID then
    perform (.deleteAccepted t.taskID)
    let t := targeted t step c.nodeID
    let err ← submitTask c t
    return (err, t)
  else
    let (err, t) ← dispatchTask c target (targeted t step target)
    match err with
    | some err => return (some err, t)
    | none =>
      perform (.deleteAccepted t.taskID)
      return (none, t)

/-- The rounds of `dispatchStepWithFailover`. -/
def failover (c : Node) (step : PipelineStep) (stepIndex : ℤ) :
    ℕ → List String → String → TaskRequest → Call Action Dispatched
  | 0, _, _, t => return .exhausted t
  | rounds + 1, triedPeers, target, t => do
      if target ≠ c.nodeID ∧ !c.taskDispatcher then return .unconfigured t
      else
        let (err, t) ← attempt c t step target
        match err with
        | none => return .handed
        | some _ =>
          let triedPeers := triedPeers ++ [target]
          let altTarget ← findAlternative c step stepIndex triedPeers
          if altTarget = "" then return .exhausted t
          else
            perform (.delegateProducers t.taskID [altTarget])
            failover c step stepIndex rounds triedPeers altTarget t

/-- Whether a task that found no node may go to escrow. -/
def mayEscalate (t : TaskRequest) (stepIndex : ℤ) : Bool :=
  0 < stepIndex ∧ t.pipelineState.isSome ∧ (t.requesterNodeID ≠ "" ∨ t.replyTo ≠ "")

/-- The result of `dispatchStepWithFailover`: the task is with a node, it is in
escrow, or there is an error. -/
inductive Routed
  | handed
  | escrowed
  | failed (t : TaskRequest) (err : GoError)

/-- Escalate a task if that is allowed. -/
def escalateOr (c : Node) (t : TaskRequest) (step : PipelineStep) (stepIndex : ℤ)
    (err : GoError) : Call Action Routed := do
  if mayEscalate t stepIndex then
    match ← escalateToEscrow c t step stepIndex err with
    | none => return .escrowed
    | some _ => return .failed t err
  else return .failed t err

def dispatchStepWithFailover (c : Node) (t : TaskRequest) (step : PipelineStep)
    (initialTarget : String) (stepIndex : ℤ) : Call Action Routed := do
  delegateTo t.taskID initialTarget
  match ← failover c step stepIndex 3 [] initialTarget t with
  | .handed => return .handed
  | .unconfigured t =>
    return .failed t (.errorf "task dispatcher not configured on compute engine" [])
  | .exhausted t =>
    escalateOr c t step stepIndex (.errorf ("failed to dispatch step '%s': " ++
      "all target candidates exhausted (initial: %s)") [step.id, initialTarget])

/-- The end of `routePipelineStep`. -/
def finishRoute (c : Node) : Routed → Call Action Unit
  | .handed => return ()
  | .escrowed => return ()
  | .failed t err => sendPipelineError c t err

/-- `routePipelineStep` to a chosen node. -/
def routeTo (c : Node) (t : TaskRequest) (step : PipelineStep) (stepIndex : ℤ)
    (targetPeer : String) : Call Action Unit := do
  delegateTo t.taskID targetPeer
  let routed ← dispatchStepWithFailover c t step targetPeer stepIndex
  finishRoute c routed

def routePipelineStep (c : Node) (t : TaskRequest) (step : PipelineStep) : Call Action Unit := do
  let stepIndex := (t.pipelineState.map PipelineExecutionState.currentStep).getD 0
  let selected := (t.pipelineState.map fun state => state.target step.id).getD ""
  if selected ≠ "" then routeTo c t step stepIndex selected
  else
    let choose (targetPeer : String) : Call Action Unit :=
      routeTo c { t with
        pipelineState := t.pipelineState.map fun state => state.setTarget step.id targetPeer }
        step stepIndex targetPeer
    match ← selectPipelineStepTarget c step stepIndex with
    | .ok targetPeer => choose targetPeer
    | .error err =>
      let localSupports ← getHandler step.service
      if localSupports then choose c.nodeID
      else
        let routed ← escalateOr c t step stepIndex
          (.wrapf "failed to discover node for step '%s': %w" [step.id] err)
        finishRoute c routed

/-! ## Advancing -/

/-- The outputs of a finished pipeline. -/
def finalOutputs (state : PipelineExecutionState) (finalStepID : String) : JsonMap :=
  let outputs := state.outputs.getD []
  assignKey ((lookupKey outputs finalStepID).getD []) "$pipeline_outputs"
    (.object (outputs.map fun e => (e.1, .object e.2)))

/-- `stageOutputBlobs`: the error, and the outputs. -/
def stageOutputBlobs (c : Node) (outputs : JsonMap) :
    Call Action (Option GoError × Option JsonMap) :=
  if c.vfsBlobStager then perform (.stage (some outputs)) else pure (none, some outputs)

/-- The report of a finished pipeline. -/
def completePipeline (c : Node) (t : TaskRequest) (state : PipelineExecutionState)
    (finalStepID : String) : Call Action Unit := do
  let outputs := finalOutputs state finalStepID
  let (err, staged) ← stageOutputBlobs c outputs
  match err with
  | some err =>
    sendPipelineError c t (.wrapf "pipeline failed staging final outputs: %w" [] err)
  | none =>
    let _ ← perform (.checkpoint
      { checkpointFromTask c t "completed" with
        stepID := finalStepID
        stepIndex := state.currentStep
        outputs := staged
        pipelineState := some state })
    let response : ServiceTaskResponse :=
      { taskID := t.taskID
        service := t.service
        status := .completed
        outputs := staged
        producerNodeID := c.nodeID
        pipelineState := some state }
    setTaskStatus
      (if t.replyTo ≠ "" ∧ t.requesterNodeID = c.nodeID ∧ taskNeedsOutputIngest response
        then { response with status := .ingesting } else response)
    if t.replyTo ≠ "" then perform (.sendTaskResponse t.replyTo response)

/-- `advancePipeline` with the definition to go on with. -/
def continuePipeline (c : Node) (t : TaskRequest) (schema : PipelineSchema)
    (state : PipelineExecutionState) : Call Action Unit := do
  let t := { t with pipelineState := some state }
  if state.currentStep < schema.steps.length then
    match schema.stepAt state.currentStep with
    | none => panic
    | some nextStep => routePipelineStep c t nextStep
  else
    match schema.steps.getLast? with
    | none => panic
    | some finalStep => completePipeline c t state finalStep.id

def advancePipeline (c : Node) (t : TaskRequest) (schema : PipelineSchema)
    (state : PipelineExecutionState) : Call Action Unit := do
  match ← getPipeline t.service with
  | none => continuePipeline c t schema state
  | some latest =>
    let (schema, state) ← tryDynamicSchemaMigration c
      { t with pipelineState := some state } state schema latest
    continuePipeline c t schema state

/-! ## Running a step -/

/-- The input of a step from its connections, with the node that produced each
port. -/
def connectedInputs (t : TaskRequest) (schema : PipelineSchema) (state : PipelineExecutionState)
    (step : PipelineStep) : List (String × Json × String) :=
  (schema.connections.filter fun conn => conn.toStep = step.id).map fun conn =>
    let value :=
      if conn.fromStep = initialStep then lookupKey (t.payload.getD []) conn.fromPort
      else (lookupKey (state.outputs.getD []) conn.fromStep).bind fun outputs =>
        lookupKey outputs conn.fromPort
    (conn.toPort, value.getD .null, state.producer conn.fromStep)

/-- The input of a step without connections: the payload for the first step, and
the outputs of the step before it for the others. -/
def defaultInputs (t : TaskRequest) (schema : PipelineSchema) (state : PipelineExecutionState) :
    List (String × Json × String) :=
  if state.currentStep = 0 then
    ((t.payload.getD []).filter fun e => e.1 ≠ "$pipeline" ∧ e.1 ≠ "requester_node_id").map
      fun e => (e.1, e.2, state.producer initialStep)
  else
    match schema.stepAt (state.currentStep - 1) with
    | none => []
    | some previous =>
      ((lookupKey (state.outputs.getD []) previous.id).getD []).map
        fun e => (e.1, e.2, state.producer previous.id)

/-- The payload of a step, and who produced its entries. -/
def stepInputs (t : TaskRequest) (schema : PipelineSchema) (state : PipelineExecutionState)
    (step : PipelineStep) : JsonMap × List (String × String) :=
  let connected := connectedInputs t schema state step
  let inputs := if connected = [] then defaultInputs t schema state else connected
  inputs.foldl (fun acc e => (assignKey acc.1 e.1 e.2.1, assignKey acc.2 e.1 e.2.2)) ([], [])

/-- The loop that replaces VFS references in a payload by local paths. -/
def resolveInputs (c : Node) (t : TaskRequest) (step : PipelineStep)
    (producers : List (String × String)) : JsonMap → JsonMap → Call Action (Except GoError JsonMap)
  | [], payload => return .ok payload
  | (key, value) :: rest, payload => do
      let hash := match value with
        | .string path => parseVFSURI path
        | _ => none
      match hash with
      | none => resolveInputs c t step producers rest payload
      | some hash =>
        let producer := (lookupKey producers key).getD ""
        let sourceNodeID := if producer = "" then t.requesterNodeID else producer
        match ← perform (.resolveBlob sourceNodeID hash) with
        | .error err =>
          return .error (.wrapf "step '%s' failed to resolve vfs://%s from '%s': %w"
            [step.id, hash, sourceNodeID] err)
        | .ok path =>
          if path = "" then
            return .error (.wrapf "step '%s' failed to resolve vfs://%s: %w" [step.id, hash]
              (.errorf "empty path resolving vfs://%s" [hash]))
          else resolveInputs c t step producers rest (assignKey payload key (.string path))

def validatePayload (service : String) (payload : JsonMap) : Call Action (Option GoError) := do
  match ← perform (.read fun s => (s.services.get service).map fun r => r.validate payload) with
  | none =>
    return some (.errorf "validation failed: service '%s' is not supported by this node"
      [service])
  | some verdict => return verdict

/-- The part of `executePipelineStep` from the input to the outputs of a step. -/
def runStep (c : Node) (t : TaskRequest) (schema : PipelineSchema)
    (state : PipelineExecutionState) (step : PipelineStep) :
    Call Action (Except GoError JsonMap) := do
  let (payload, producers) := stepInputs t schema state step
  let payload := assignKey payload "requester_node_id" (.string t.requesterNodeID)
  let resolved ← (if c.vfsBlobResolver then resolveInputs c t step producers payload payload
    else pure (.ok payload))
  match resolved with
  | .error err => return .error err
  | .ok payload =>
    match ← validatePayload step.service payload with
    | some err => return .error (.wrapf "step '%s' failed input validation: %w" [step.id] err)
    | none =>
      match ← perform (.execute t.taskID step schema state payload) with
      | .error err => return .error (.wrapf "step '%s' failed: %w" [step.id] err)
      | .ok outputs =>
        let (err, staged) ← stageOutputBlobs c outputs
        match err with
        | some err =>
          return .error (.wrapf "step '%s' failed staging outputs: %w" [step.id] err)
        | none => return .ok (staged.getD [])

/-- The state after a step has run on a node. -/
def recordStep (c : Node) (state : PipelineExecutionState) (step : PipelineStep)
    (outputs : JsonMap) : PipelineExecutionState :=
  { (state.setProducer step.id c.nodeID) with
    outputs := some (assignKey (state.outputs.getD []) step.id outputs)
    currentStep := state.currentStep + 1 }

/-- The two checkpoints after a step: that of `SaveIntermediateOutput`, and that
of the step itself. -/
def checkpointStep (c : Node) (t : TaskRequest) (state : PipelineExecutionState)
    (step : PipelineStep) (outputs : JsonMap) : Call Action Unit := do
  let _ ← perform (.checkpoint
    { taskID := t.taskID
      status := "running"
      stepID := step.id
      outputs := some outputs
      intermediate := true
      intermediateBlobs := Storage.extractBlobHashes (some outputs) })
  let _ ← perform (.checkpoint
    { checkpointFromTask c t "running" with
      stepID := step.id
      stepIndex := state.currentStep
      outputs := some outputs
      intermediate := true
      pipelineState := some state })
  return ()

/-- Whether a step is to be run on this node. -/
def isTargetSelf (c : Node) (state : PipelineExecutionState) (step : PipelineStep) : Bool :=
  state.target step.id = c.nodeID ∨
    (state.target step.id = "" ∧ (step.targetNodeID = "" ∨ step.targetNodeID = c.nodeID))

/-- `executePipelineStep` for a step that is in range. -/
def executeStep (c : Node) (t : TaskRequest) (schema : PipelineSchema)
    (state : PipelineExecutionState) (step : PipelineStep) : Call Action Unit := do
  let localExists ← getHandler step.service
  if localExists ∧ isTargetSelf c state step then
    match ← runStep c t schema state step with
    | .error err => sendPipelineError c t err
    | .ok outputs =>
      let state := recordStep c state step outputs
      checkpointStep c { t with pipelineState := some state } state step outputs
      advancePipeline c { t with pipelineState := some state } schema state
  else routePipelineStep c t step

def executePipelineStep (c : Node) (t : TaskRequest) (schema : PipelineSchema) :
    Call Action Unit := do
  match t.pipelineState with
  | none => sendPipelineError c t (.errorf "pipeline execution state is missing" [])
  | some state =>
    let state := { state with outputs := some (state.outputs.getD []) }
    let t := { t with pipelineState := some state }
    match schema.stepAt state.currentStep with
    | none =>
      sendPipelineError c t
        (.errorf "step index %d out of bounds" [toString state.currentStep])
    | some step => executeStep c t schema state step

/-- A service as a pipeline of one step. -/
def singleStep (service : String) : PipelineSchema where
  id := service
  version := 1
  steps := [{ id := "step0", service := service }]

def processTask (c : Node) (t : TaskRequest) : Call Action Unit := do
  let t := { t with payload := some ((t.payload.getD []).filter fun e => e.1 ≠ "$pipeline") }
  let schema ← registeredOrCarried t.service t.pipelineState
  let bound ← bindPipelineState c t (schema.getD (singleStep t.service))
  match bound.result with
  | .error err => sendPipelineError c bound.request err
  | .ok execSchema => executePipelineStep c bound.request execSchema

/-- One round of `serviceWorker`: take a task from the queue and process it. -/
def worker (c : Node) : Call Action Unit := do
  match ← perform .dequeue with
  | none => return ()
  | some task => processTask c task

/-! ## Submissions -/

/-- Who is expected to submit a task with an execution state. -/
def expectedSubmitter (state : PipelineExecutionState) (registered : Option PipelineSchema) :
    String :=
  let inRange (schema : PipelineSchema) : Bool := state.currentStep ≤ schema.steps.length
  let previous :=
    if 0 < state.currentStep then
      ((state.snapshot.filter inRange).or (registered.filter inRange)).bind
        fun schema => schema.stepAt (state.currentStep - 1)
    else none
  match previous with
  | some step =>
    if step.id ≠ "" then state.producer step.id else state.producer initialStep
  | none => state.producer initialStep

/-- The provenance check of `HandleServiceSubmit`: the request to submit, or an
error. -/
def checkProvenance (submitterNodeID : String) (registered : Option PipelineSchema)
    (req : TaskRequest) : Except GoError TaskRequest :=
  match req.pipelineState with
  | none =>
    if req.requesterNodeID ≠ "" ∧ req.requesterNodeID ≠ submitterNodeID then
      .error (.errorf "requester node ID must match authenticated peer" [])
    else .ok { req with requesterNodeID := submitterNodeID }
  | some state =>
    let expected := expectedSubmitter state registered
    let initial := state.producer initialStep
    let isAuthorizedCoordinator := (initial ≠ "" ∧ initial = submitterNodeID) ∨
      (req.requesterNodeID ≠ "" ∧ req.requesterNodeID = submitterNodeID)
    if (expected = "" ∨ expected ≠ submitterNodeID) ∧ ¬isAuthorizedCoordinator then
      .error (.errorf "pipeline provenance does not match authenticated submitter" [])
    else .ok req

/-- `HandleServiceSubmit` of a decoded request from an authenticated peer. -/
def handleServiceSubmit (c : Node) (submitterNodeID : String) (req : TaskRequest) :
    Call Action (Option GoError) := do
  let registered ← getPipeline req.service
  match checkProvenance submitterNodeID registered req with
  | .error err => return some err
  | .ok req =>
    let isPipeline ← getPipeline req.service
    let verdict ← (if isPipeline.isSome then pure none
      else validatePayload req.service (req.payload.getD []))
    match verdict with
    | some err => return some (.wrapf "Validation failed: %w" [] err)
    | none => submitTask c req

end Proxyma.Compute
