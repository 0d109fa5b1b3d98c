import Proxyma.Compute.Engine

/-!
# Binding a task to a pipeline definition

A pipeline task carries the definition it was started with.  Before a node works
on a task it binds it (`bindPipelineState`): it resolves the definition the task
carries and, if its own registry holds a newer one, tries to migrate the task to
it.  The node that sends a task also chooses the nodes of the steps to come
(`preparePipelineTargets`) and pins the one it sends to (`bindPipelineStepTarget`).

Go passes execution states by pointer, and binding writes through the pointer
before it makes a copy.  `Bound` therefore keeps apart what the caller's pointer
shows afterwards and the request that the function returns.
-/

/-! ## Execution states -/

namespace Proxyma.PipelineExecutionState

/-- `SelectedTargets[stepID]`. -/
def target (state : PipelineExecutionState) (stepID : String) : String :=
  (lookupKey (state.selectedTargets.getD []) stepID).getD ""

/-- Assign `SelectedTargets[stepID]`. -/
def setTarget (state : PipelineExecutionState) (stepID targetNodeID : String) :
    PipelineExecutionState :=
  { state with
    selectedTargets := some (assignKey (state.selectedTargets.getD []) stepID targetNodeID) }

/-- `OutputProducers[stepID]`. -/
def producer (state : PipelineExecutionState) (stepID : String) : String :=
  (lookupKey (state.outputProducers.getD []) stepID).getD ""

/-- Assign `OutputProducers[stepID]`. -/
def setProducer (state : PipelineExecutionState) (stepID nodeID : String) :
    PipelineExecutionState :=
  { state with
    outputProducers := some (assignKey (state.outputProducers.getD []) stepID nodeID) }

/-- The values of `SelectedTargets` that are not empty. -/
def targets (state : PipelineExecutionState) : List String :=
  ((state.selectedTargets.getD []).map Prod.snd).filter fun target => target ≠ ""

/-- An initial producer is filled in if there is none. -/
def ensureInitialProducer (state : PipelineExecutionState) (nodeID : String) :
    PipelineExecutionState :=
  let state := { state with outputProducers := some (state.outputProducers.getD []) }
  if state.producer initialStep = "" then state.setProducer initialStep nodeID else state

end Proxyma.PipelineExecutionState

namespace Proxyma.Compute

open Keyed Atomic Atomic.Call GoError

/-! ## Lookups -/

def getPipeline (id : String) : Call Action (Option PipelineSchema) :=
  perform (.read fun s => s.pipelines.get id)

def getPipelineRevision (id : String) : Call Action (Option PipelineSchema) :=
  perform (.read fun s => s.pipelineRevisions.get id)

/-- Whether the registry has a handler for a service. -/
def getHandler (service : String) : Call Action Bool :=
  perform (.read fun s => s.services.has service)

/-- The definition that the sending side of a task looks its steps up in: the
registered one, or else the one the task carries. -/
def registeredOrCarried (service : String) (state : Option PipelineExecutionState) :
    Call Action (Option PipelineSchema) := do
  let schema ← getPipeline service
  return schema.or (state.bind PipelineExecutionState.snapshot)

/-- The query for a node that runs a step. -/
def stepQuery (step : PipelineStep) (stepIndex : ℤ) (excludedPeers : List String) :
    DiscoveryQuery where
  service := step.service
  requiredCapabilities := if 0 < stepIndex then pipelineStateCapability else []
  excludedPeers := excludedPeers

def selectPipelineStepTarget (c : Node) (step : PipelineStep) (stepIndex : ℤ) :
    Call Action (Except GoError String) := do
  if step.targetNodeID ≠ "" ∧ step.targetNodeID ≠ c.nodeID then return .ok step.targetNodeID
  else
    let localSupports ← getHandler step.service
    if localSupports then return .ok c.nodeID
    else if !c.serviceFinder then
      return .error (.errorf "service finder not configured on compute engine" [])
    else
      match ← perform (.find (stepQuery step stepIndex [])) with
      | .error err => return .error err
      | .ok targetPeer =>
        if targetPeer = "" then
          return .error (.errorf "service finder returned an empty peer" [])
        else return .ok targetPeer

/-! ## Migration -/

/-- The largest capacity `make` takes for a slice of strings. -/
def maxStringSlice : ℤ := 2 ^ 48 / 16

/-- Whether a definition is newer than the one a task is bound to. -/
def isUpdated (c : Node) (state : PipelineExecutionState) (target : PipelineSchema) : Bool :=
  state.pipelineVersion < target.version ∨
    (target.version = state.pipelineVersion ∧ c.pipelineSchemaHash target ≠ state.schemaHash)

/-- The identifiers of the steps a task has completed. -/
def completedSteps (state : PipelineExecutionState) (schema : PipelineSchema) : List String :=
  (schema.steps.take state.currentStep.toNat).map PipelineStep.id

/-- The state of a task that adopts a definition. -/
def adopt (c : Node) (state : PipelineExecutionState) (target : PipelineSchema) :
    PipelineExecutionState :=
  { state with
    pipelineVersion := target.version
    schemaHash := c.pipelineSchemaHash target
    snapshot := some target
    selectedTargets := some (state.selectedTargets.getD []) }

/-- The loop of `tryDynamicSchemaMigration` over the steps to come. -/
def selectUpcoming (c : Node) : List PipelineStep → ℤ → PipelineExecutionState →
    Call Action PipelineExecutionState
  | [], _, state => return state
  | step :: rest, i, state => do
      if state.target step.id ≠ "" then selectUpcoming c rest (i + 1) state
      else if step.targetNodeID ≠ "" then
        selectUpcoming c rest (i + 1) (state.setTarget step.id step.targetNodeID)
      else
        match ← selectPipelineStepTarget c step i with
        | .error _ => selectUpcoming c rest (i + 1) state
        | .ok cand => selectUpcoming c rest (i + 1) (state.setTarget step.id cand)

def checkpointFromTask (c : Node) (t : TaskRequest) (status : String) :
    Storage.TaskJournalRecord :=
  { taskID := t.taskID
    service := t.service
    requesterNodeID := t.requesterNodeID
    replyTo := t.replyTo
    status := status
    nodeID := c.nodeID
    payload := t.payload
    pipelineState := t.pipelineState }

def migrationCheckpoint (c : Node) (t : TaskRequest) (fromVersion toVersion : ℤ)
    (state : PipelineExecutionState) : Storage.TaskJournalRecord :=
  { checkpointFromTask c t taskEventSchemaMigrated with
    stepIndex := state.currentStep
    pipelineState := some state
    metadata := some [("from_version", toString fromVersion), ("to_version", toString toVersion)] }

/-- The end of an accepted migration: choose nodes for the steps to come and
make the choice known. -/
def finishMigration (c : Node) (t : TaskRequest) (fromVersion : ℤ) (target : PipelineSchema)
    (state : PipelineExecutionState) : Call Action PipelineExecutionState := do
  let state ← selectUpcoming c (target.steps.drop state.currentStep.toNat) state.currentStep state
  perform (.delegateProducers t.taskID state.targets)
  let _ ← perform (.checkpoint (migrationCheckpoint c t fromVersion target.version state))
  return state

/-- `tryDynamicSchemaMigration`: the definition to go on with, and the state. -/
def tryDynamicSchemaMigration (c : Node) (t : TaskRequest) (state : PipelineExecutionState)
    (current target : PipelineSchema) : Call Action (PipelineSchema × PipelineExecutionState) := do
  if current.id ≠ target.id ∨ target.steps = [] then return (current, state)
  else if !isUpdated c state target then return (current, state)
  else if state.currentStep < 0 ∨ maxStringSlice < state.currentStep then panic
  else
    match validatePrefixMigration (completedSteps state current) state.outputs current target with
    | some _ => return (current, state)
    | none =>
      let state' ← finishMigration c t state.pipelineVersion target (adopt c state target)
      return (target, state')

/-! ## Binding -/

/-- What `bindPipelineState` leaves behind: the definition to execute or an
error, the request, and what a caller sees through the pointer it passed in. -/
structure Bound where
  result : Except GoError PipelineSchema
  request : TaskRequest
  shared : Option PipelineExecutionState

/-- The state of a task that is bound for the first time. -/
def initialState (c : Node) (requesterNodeID : String) (schema : PipelineSchema) :
    PipelineExecutionState where
  pipelineID := schema.id
  pipelineVersion := schema.version
  schemaHash := c.pipelineSchemaHash schema
  snapshot := some schema
  outputs := some []
  outputProducers := some [(initialStep, requesterNodeID)]

/-- The definition a task was started with: the one it carries, or a registered
one with the hash it is bound to. -/
def resolveSnapshot (c : Node) (incoming : PipelineExecutionState) (localSchema : PipelineSchema) :
    Call Action (Option PipelineSchema) := do
  match incoming.snapshot with
  | some snapshot => return some snapshot
  | none =>
    let revision ← getPipelineRevision incoming.pipelineID
    match revision.filter fun rev => c.pipelineSchemaHash rev = incoming.schemaHash with
    | some rev => return some rev
    | none =>
      if c.pipelineSchemaHash localSchema = incoming.schemaHash then return some localSchema
      else return none

/-- The end of `bindPipelineState`: the checks of a resolved and perhaps migrated
task. -/
def checkBound (t : TaskRequest) (execSchema : PipelineSchema)
    (incoming : PipelineExecutionState) : Call Action Bound := do
  let failed (err : GoError) : Bound :=
    ⟨.error err, { t with pipelineState := some incoming }, some incoming⟩
  let bound : Bound :=
    ⟨.ok execSchema, { t with
      pipelineState := some (incoming.ensureInitialProducer t.requesterNodeID) }, some incoming⟩
  if (execSchema.steps.length : ℤ) < incoming.currentStep then
    return failed (.errorf "step index %d out of bounds" [toString incoming.currentStep])
  else if 0 < incoming.currentStep ∧ execSchema.steps ≠ [] then
    match execSchema.stepAt (incoming.currentStep - 1) with
    | none => panic
    | some previous =>
      if incoming.producer previous.id = "" then
        return failed
          (.errorf "pipeline provenance missing for completed step '%s'" [previous.id])
      else return bound
  else return bound

def bindPipelineState (c : Node) (t : TaskRequest) (localSchema : PipelineSchema) :
    Call Action Bound := do
  match t.pipelineState with
  | none =>
    return ⟨.ok localSchema,
      { t with pipelineState := some (initialState c t.requesterNodeID localSchema) }, none⟩
  | some incoming =>
    if incoming.pipelineID ≠ localSchema.id then
      return ⟨.error (.errorf
        "pipeline schema ID mismatch: task is bound to %q, local is %q"
        [incoming.pipelineID, localSchema.id]), t, some incoming⟩
    else
      match ← resolveSnapshot c incoming localSchema with
      | none =>
        return ⟨.error (.errorf ("pipeline schema mismatch for '%s': task is bound to " ++
          "version %d hash %s, local schema is version %d hash %s")
          [localSchema.id, toString incoming.pipelineVersion, incoming.schemaHash,
            toString localSchema.version, c.pipelineSchemaHash localSchema]), t, some incoming⟩
      | some current =>
        let incoming := { incoming with snapshot := some current }
        let t := { t with pipelineState := some incoming }
        let (execSchema, incoming) ←
          tryDynamicSchemaMigration c t incoming current localSchema
        checkBound t execSchema incoming

/-- `BindPipelineTask`: the error, the request, and the caller's state. -/
def bindPipelineTask (c : Node) (req : TaskRequest) :
    Call Action (Option GoError × TaskRequest × Option PipelineExecutionState) := do
  match ← registeredOrCarried req.service req.pipelineState with
  | none => return (none, req, req.pipelineState)
  | some schema =>
    let bound ← bindPipelineState c req schema
    match bound.result with
    | .error err => return (some err, bound.request, bound.shared)
    | .ok _ => return (none, bound.request, bound.shared)

/-! ## Targets -/

/-- The loop of `PreparePipelineTargets` from step `i` on. -/
def prepareTargets (c : Node) : List PipelineStep → ℤ → PipelineExecutionState →
    Call Action (Option GoError × PipelineExecutionState)
  | [], _, state => return (none, state)
  | step :: rest, i, state => do
      if state.target step.id ≠ "" then prepareTargets c rest (i + 1) state
      else
        match ← selectPipelineStepTarget c step i with
        | .error err =>
          if 0 < i then prepareTargets c rest (i + 1) state
          else
            return (some (.wrapf "select target for pipeline step '%s': %w" [step.id] err), state)
        | .ok targetPeer => prepareTargets c rest (i + 1) (state.setTarget step.id targetPeer)

/-- `PreparePipelineTargets`: the error, and the request. -/
def preparePipelineTargets (c : Node) (req : TaskRequest) :
    Call Action (Option GoError × TaskRequest) := do
  match req.pipelineState with
  | none => return (none, req)
  | some state =>
    match ← registeredOrCarried req.service req.pipelineState with
    | none => return (none, req)
    | some schema =>
      let state := { state with selectedTargets := some (state.selectedTargets.getD []) }
      let (err, state) ← prepareTargets c schema.steps 0 state
      return (err, { req with pipelineState := some state })

/-- `BindPipelineStepTarget`: the error, and the request. -/
def bindPipelineStepTarget (req : TaskRequest) (targetPeerID : String) :
    Call Action (Option GoError × TaskRequest) := do
  match req.pipelineState with
  | none => return (none, req)
  | some state =>
    match ← registeredOrCarried req.service req.pipelineState with
    | none => return (none, req)
    | some schema =>
      match schema.stepAt state.currentStep with
      | none =>
        return (some (.errorf "pipeline step index %d out of bounds"
          [toString state.currentStep]), req)
      | some step =>
        if targetPeerID = "" then
          return (some (.errorf "pipeline target peer is empty" []), req)
        else if state.target step.id ≠ "" ∧ state.target step.id ≠ targetPeerID then
          return (some (.errorf ("pipeline step '%s' target already selected as %q, " ++
            "cannot dispatch to %q") [step.id, state.target step.id, targetPeerID]), req)
        else
          return (none, { req with pipelineState := some (state.setTarget step.id targetPeerID) })

end Proxyma.Compute
