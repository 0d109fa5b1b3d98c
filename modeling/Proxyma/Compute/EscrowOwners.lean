import Proxyma.Compute.Cluster

/-!
# Who holds a task in escrow

A worker that finds no node for a step escalates the task to its coordinator, the
node that started it.  The coordinator is read off the request: it is the producer
of the initial outputs, or else the requester.  `ownership` is the custody that
both name the node that started the task, and that a node's escrow table has
only tasks the node has started.

Two things break it, and `Policy.owned` excludes them.  A worker journals an
escalated task with the status `escrow`, so when it restarts it puts the task into
its own table.  And a step may be called `$initial`; the node that runs it then
passes for the coordinator.  Without such a step the coordinator of a task is the
same wherever the task goes, over restarts as well (`Coordinated`).
-/

namespace Proxyma.Compute

open Keyed Atomic Atomic.Call

variable {origin : String → String} {state : PipelineExecutionState} {stepID : String}
  {S : PipelineSchema} {policy : Policy}

/-- The initial outputs come from the node that started the task, and no step of
the definition is mistaken for them. -/
structure InitialFrom (node : String) (state : PipelineExecutionState) : Prop where
  producer : state.producer initialStep = "" ∨ state.producer initialStep = node
  snapshot : ∀ S, state.snapshot = some S → initialStep ∉ S.stepIDs

/-- A node speaks for the tasks it has started. -/
def Speaks (origin : String → String) (id node : String) : Prop := node = origin id ∧ node ≠ ""

/-- The custody of a node: everywhere tasks name their origin, and the node's
escrow table has its own tasks only. -/
def ownership (origin : String → String) (nodeID : String) : Custody where
  owns := Speaks origin
  flows id := InitialFrom (origin id)
  entry task :=
    Carries (Speaks origin) (fun id => InitialFrom (origin id)) task ∧
      origin task.taskID = nodeID
  schema S := initialStep ∉ S.stepIDs

/-- No step is called `$initial`, and a node restarts only while the tasks that
are in escrow in its database are its own. -/
def Policy.owned (origin : String → String) : Policy where
  admits S := initialStep ∉ S.stepIDs
  origin := origin
  restarts i s := ∀ task ∈ s.activeTasks, task.status = "escrow" → origin task.taskID = i

/-! ## Changes of a state -/

theorem producer_setProducer (state : PipelineExecutionState) (stepID nodeID key : String) :
    (state.setProducer stepID nodeID).producer key =
      if key = stepID then nodeID else state.producer key := by
  simp only [PipelineExecutionState.producer, PipelineExecutionState.setProducer,
    Option.getD_some, lookupKey_assignKey]
  split_ifs <;> rfl

theorem InitialFrom.setProducer {node : String} (h : InitialFrom node state)
    (hstep : stepID ≠ initialStep) (nodeID : String) :
    InitialFrom node (state.setProducer stepID nodeID) := by
  refine ⟨?_, h.snapshot⟩
  rw [producer_setProducer, if_neg (Ne.symm hstep)]
  exact h.producer

theorem InitialFrom.ensureInitialProducer {node : String} (h : InitialFrom node state) :
    InitialFrom node (state.ensureInitialProducer node) := by
  unfold PipelineExecutionState.ensureInitialProducer
  dsimp only
  split_ifs
  · refine ⟨?_, h.snapshot⟩
    rw [producer_setProducer, if_pos rfl]
    exact .inr rfl
  · exact ⟨h.producer, h.snapshot⟩

theorem id_ne_initialStep (hS : initialStep ∉ S.stepIDs) {k : ℤ} {step : PipelineStep}
    (hstep : S.stepAt k = some step) : step.id ≠ initialStep := by
  unfold PipelineSchema.stepAt at hstep
  split_ifs at hstep
  intro hid
  exact hS (hid ▸ List.mem_map_of_mem (List.mem_of_getElem? hstep))

theorem InitialFrom.resumeState {task : TaskEscrowRequest} (c : Node)
    (h : InitialFrom task.requesterNodeID state) (htask : task.pipelineState = some state)
    (hS : initialStep ∉ S.stepIDs) (stepIndex : ℤ) (step : PipelineStep) (target : String) :
    InitialFrom task.requesterNodeID (resumeState c task S stepIndex step target) := by
  refine resumeState_induction htask ?_ ?_ ?_ ?_
  · refine ⟨h.producer, fun T hT => ?_⟩
    obtain rfl : state.snapshot.getD S = T := by simpa using hT
    cases hsnapshot : state.snapshot with
    | none => exact hS
    | some T => exact h.snapshot T hsnapshot
  · exact fun st hst => hst.ensureInitialProducer
  · exact fun st previous hprevious hst => hst.setProducer (id_ne_initialStep hS hprevious) _
  · exact fun st hst => ⟨hst.producer, hst.snapshot⟩

/-! ## The custody -/

theorem ownership_lawful (c : Node) : (ownership origin c.nodeID).Lawful c True where
  carried h hsnapshot := h.snapshot _ hsnapshot
  single service := by simp [ownership, singleStep, PipelineSchema.stepIDs, initialStep]
  anonymous nodeID h := absurd rfl h.2
  coordinated := by
    intro t state ht hstate
    obtain ⟨hrequester, hne⟩ := ht.owns
    unfold coordinatorNodeID
    rw [hstate]
    dsimp only [Option.map_some, Option.getD_some]
    split_ifs with hinitial
    · exact ⟨((ht.flows state hstate).producer).resolve_left hinitial, hinitial⟩
    · exact ⟨hrequester, hne⟩
  initial := by
    rintro id requester S ⟨hrequester, -⟩ hS
    refine ⟨.inr ?_, ?_⟩
    · simp [initialState, PipelineExecutionState.producer, lookupKey_cons, hrequester]
    · rintro _ ⟨⟩
      exact hS
  resolved := by
    intro id state S h _ hS
    refine ⟨h.producer, ?_⟩
    rintro _ ⟨⟩
    exact hS
  adopted := by
    intro id state current target h _ htarget _ _ _
    refine ⟨h.producer, ?_⟩
    rintro _ ⟨⟩
    exact htarget
  retargeted := by
    intro id state state' h hretargeted
    rw [hretargeted]
    exact ⟨h.producer, h.snapshot⟩
  produced := by
    rintro id state requester ⟨rfl, -⟩ h
    exact h.ensureInitialProducer
  allocated h := ⟨h.producer, h.snapshot⟩
  recorded := by
    intro id state S step outputs h hsnapshot hstep
    have hset := h.setProducer (id_ne_initialStep (h.snapshot S hsnapshot) hstep) c.nodeID
    exact ⟨hset.producer, hset.snapshot⟩
  received := by
    intro id state h
    refine ⟨?_, h.snapshot⟩
    have hproducer : (received state).producer initialStep = state.producer initialStep := by
      simp [received, PipelineExecutionState.producer]
    rw [hproducer]
    exact h.producer
  inRange _ := .inl trivial
  escrowed := by
    intro req hreq hrequester
    exact ⟨hreq, hreq.owns.1.symm.trans hrequester⟩
  waiting h := h.1
  resumed := by
    rintro task S stepIndex step target ⟨⟨⟨hrequester, -⟩, state, hstate, h⟩, -⟩ hS
    have hfrom : InitialFrom task.requesterNodeID state := hrequester ▸ h
    have hresumed := hfrom.resumeState c hstate hS stepIndex step target
    rwa [hrequester] at hresumed

theorem ownership_agrees (d : Deployment) :
    Cluster.Agrees d (.owned origin) fun i => ownership origin (d.node i).nodeID where
  started hne horigin := ⟨horigin.symm, hne⟩
  submitted h := h
  escalated h := h
  admitted h _ := h
  restored := by
    intro i s task hrestarts hs htask hstatus stepID
    refine ⟨hs.carries htask hstatus stepID, ?_⟩
    rw [d.nodeID i]
    exact hrestarts task htask hstatus

/-- A node holds a task in escrow. -/
def Cluster.Holder (cl : Cluster) (id i : String) : Prop := ((cl i).state.escrow.get id).isSome

/-- In a cluster of owned tasks the holder of a task is the coordinator that
escalations of the task name, and no two nodes hold it. -/
theorem escrow_holder_unique (d : Deployment) (origin : String → String)
    (services : String → Bucket String RegisteredService) (cl : Cluster)
    (hrun : Relation.ReflTransGen (Cluster.Step d (.owned origin)) (Cluster.initial services) cl) :
    (∀ j coordinator req err, .escalated coordinator req err ∈ (cl j).state.trace →
      ∀ i, cl.Holder req.taskID i → i = req.requesterNodeID) ∧
    ∀ id i j, cl.Holder id i → cl.Holder id j → i = j := by
  have hsound : Cluster.Sound d (fun i => ownership origin (d.node i).nodeID)
      (fun i => ownership_lawful (d.node i)) cl := Cluster.sound_of_run (ownership_agrees d) hrun
  have hholder : ∀ id i, cl.Holder id i → origin id = i := by
    intro id i hheld
    obtain ⟨task, htask⟩ := Option.isSome_iff_exists.1 hheld
    obtain ⟨-, horigin⟩ := (hsound i).holds.escrow id task htask
    rw [← Table.key_of_get htask, horigin, d.nodeID i]
  refine ⟨fun j coordinator req err hescalated i hheld => ?_, fun id i j hi hj => ?_⟩
  · have hcarries := (hsound j).holds.trace _ hescalated
    rw [hcarries.owns.1, hholder _ _ hheld]
  · rw [← hholder id i hi, hholder id j hj]

/-! ## An escalation -/

/-- A pipeline whose second step finds no node. -/
def stranded : PipelineSchema where
  id := "p"
  version := 1
  steps := [{ id := "first", service := "f" }, { id := "second", service := "g" }]

/-- Node `b` can run the first step. -/
def strandedServices : String → Bucket String RegisteredService
  | "b" => Bucket.empty.put "f" ⟨fun _ => none⟩
  | _ => .empty

/-- Node `a` starts a task on node `b`, which runs the first step and escalates
the task to `a`. -/
def escalatedRun : Cluster :=
  let d := Deployment.quiet
  let cl := Cluster.initial strandedServices
  let cl := cl.after d "a" (perform (.applyPipelineRevision stranded))
  let cl := cl.after d "b" (perform (.applyPipelineRevision stranded))
  let cl := cl.after d "a"
    (localServiceRun (d.node "a") { taskID := "t", service := "p", requesterNodeID := "a" } "b")
  let cl := cl.afterSubmit d "a" "b"
  let cl := cl.after d "b" (worker (d.node "b"))
  cl.afterEscrow d "b" "a"

/-- Node `a` starts a task of a pipeline on node `b`. -/
def startedRun (S : PipelineSchema) : Cluster :=
  let d := Deployment.quiet
  let cl := Cluster.initial strandedServices
  let cl := cl.after d "a" (perform (.applyPipelineRevision S))
  let cl := cl.after d "b" (perform (.applyPipelineRevision S))
  cl.after d "a"
    (localServiceRun (d.node "a") { taskID := "t", service := "p", requesterNodeID := "a" } "b")

/-- Node `b` takes the task and runs its first step. -/
def workedRun (S : PipelineSchema) : Cluster :=
  ((startedRun S).afterSubmit .quiet "a" "b").after .quiet "b" (worker (.named "b"))

theorem run_workedRun (hadmits : policy.admits S) (horigin : policy.origin "t" = "a")
    (hsent : ((startedRun S).submissions "a" "b").isEmpty = false) :
    Relation.ReflTransGen (Cluster.Step .quiet policy) (Cluster.initial strandedServices)
      (workedRun S) := by
  refine Cluster.run_after (Cluster.run_afterSubmit (Cluster.run_after (Cluster.run_after
    (Cluster.run_after .refl ?_) ?_) ?_) hsent) .work
  · exact .act rfl hadmits
  · exact .act rfl hadmits
  · exact .run (by decide) horigin rfl rfl

theorem run_escalatedRun (hadmits : policy.admits stranded) (horigin : policy.origin "t" = "a") :
    Relation.ReflTransGen (Cluster.Step .quiet policy) (Cluster.initial strandedServices)
      escalatedRun := by
  refine Cluster.run_afterEscrow (run_workedRun hadmits horigin ?_) ?_
  · decide +kernel
  · decide +kernel

theorem escrow_holder_unique_escalated : ∃ cl,
    Relation.ReflTransGen (Cluster.Step .quiet (.owned fun _ => "a"))
      (Cluster.initial strandedServices) cl ∧
    cl.Holder "t" "a" ∧ ∀ i, cl.Holder "t" i → i = "a" := by
  have hrun : Relation.ReflTransGen (Cluster.Step .quiet (.owned fun _ => "a"))
      (Cluster.initial strandedServices) escalatedRun := by
    refine run_escalatedRun ?_ rfl
    unfold Policy.owned
    decide
  have hheld : escalatedRun.Holder "t" "a" := by
    unfold Cluster.Holder
    decide +kernel
  refine ⟨escalatedRun, hrun, hheld, fun i hi => ?_⟩
  exact (escrow_holder_unique .quiet (fun _ => "a") strandedServices escalatedRun hrun).2 "t" i "a"
    hi hheld

/-! ## The coordinator of a task -/

/-- The custody that every execution state of a task names the node that started it. -/
def coordination (origin : String → String) : Custody where
  owns := Speaks origin
  flows id state := InitialFrom (origin id) state ∧ state.producer initialStep ≠ ""
  entry := Carries (Speaks origin) fun id state =>
    InitialFrom (origin id) state ∧ state.producer initialStep ≠ ""
  schema S := initialStep ∉ S.stepIDs

/-- No step is called `$initial`. -/
def Policy.unreserved (origin : String → String) : Policy where
  admits S := initialStep ∉ S.stepIDs
  origin := origin
  restarts _ _ := True

theorem ensureInitialProducer_of_ne {requester : String} (h : state.producer initialStep ≠ "") :
    (state.ensureInitialProducer requester).producer initialStep ≠ "" := by
  unfold PipelineExecutionState.ensureInitialProducer
  dsimp only
  split_ifs with hempty
  · exact absurd hempty h
  · exact h

theorem setProducer_of_ne {nodeID : String} (h : state.producer initialStep ≠ "")
    (hstep : stepID ≠ initialStep) :
    (state.setProducer stepID nodeID).producer initialStep ≠ "" := by
  rwa [producer_setProducer, if_neg (Ne.symm hstep)]

/-- The laws are those of `ownership`, and what has a producer keeps one. -/
theorem coordination_lawful (c : Node) : (coordination origin).Lawful c True := by
  have hlaws := @ownership_lawful origin c
  exact
    { carried := fun h => hlaws.carried h.1
      single := hlaws.single
      anonymous := hlaws.anonymous
      coordinated := fun h => hlaws.coordinated ⟨h.owns, fun state hstate => (h.flows state hstate).1⟩
      initial := fun howns hS => ⟨hlaws.initial howns hS, by
        simpa [initialState, PipelineExecutionState.producer, lookupKey_cons] using howns.2⟩
      resolved := fun h hnone hS => ⟨hlaws.resolved h.1 hnone hS, h.2⟩
      adopted := fun h hsnapshot hS hne hrange hvalid =>
        ⟨hlaws.adopted h.1 hsnapshot hS hne hrange hvalid, h.2⟩
      retargeted := fun h hretargeted => ⟨hlaws.retargeted h.1 hretargeted, by
        rw [hretargeted]
        exact h.2⟩
      produced := fun howns h => ⟨hlaws.produced howns h.1, ensureInitialProducer_of_ne h.2⟩
      allocated := fun h => ⟨hlaws.allocated h.1, h.2⟩
      recorded := fun outputs h hsnapshot hstep => ⟨hlaws.recorded outputs h.1 hsnapshot hstep,
        setProducer_of_ne h.2 (id_ne_initialStep (h.1.snapshot _ hsnapshot) hstep)⟩
      received := fun h => ⟨hlaws.received h.1, by
        simpa [received, PipelineExecutionState.producer] using h.2⟩
      inRange := fun _ => .inl trivial
      escrowed := fun h _ => h
      waiting := id
      resumed := by
        rintro task S stepIndex step target ⟨⟨hrequester, -⟩, state, hstate, hfrom, hne⟩ hS
        rw [← hrequester] at hfrom
        refine ⟨hrequester ▸ hfrom.resumeState c hstate hS stepIndex step target, ?_⟩
        refine resumeState_induction (P := fun st => st.producer initialStep ≠ "") hstate hne ?_ ?_ ?_
        · exact fun st h => ensureInitialProducer_of_ne h
        · exact fun st previous hprevious h => setProducer_of_ne h (id_ne_initialStep hS hprevious)
        · exact fun st h => h }

/-- Wherever a task is held or sent, its execution state names the node that started it as
the producer of the initial outputs, and so that node is the coordinator. -/
structure Coordinated (origin : String → String) (c : Node) (s : Engine) : Prop where
  queue : ∀ t ∈ s.queue, coordinatorNodeID c t = origin t.taskID ∧
    ∀ state, t.pipelineState = some state → state.producer initialStep = origin t.taskID
  escrow : ∀ id task, s.escrow.get id = some task →
    ∃ state, task.pipelineState = some state ∧ state.producer initialStep = origin task.taskID
  active : ∀ id record, s.db.tasksActive.get id = some record →
    ∀ state, record.pipelineState = some state → state.producer initialStep = origin id
  executed : ∀ taskID step schema state, .executed taskID step schema state ∈ s.trace →
    state.producer initialStep = origin taskID
  submitted : ∀ peerID req err, .submitted peerID req err ∈ s.trace →
    coordinatorNodeID c req = origin req.taskID ∧
      ∀ state, req.pipelineState = some state → state.producer initialStep = origin req.taskID
  escalated : ∀ coordinator req err, .escalated coordinator req err ∈ s.trace →
    ∃ state, req.pipelineState = some state ∧ state.producer initialStep = origin req.taskID

theorem coordinated_of_fine {c : Node} {t : TaskRequest}
    (h : Fine (coordination origin).owns (coordination origin).flows t) :
    coordinatorNodeID c t = origin t.taskID ∧
      ∀ state, t.pipelineState = some state → state.producer initialStep = origin t.taskID := by
  have hproducer : ∀ state, t.pipelineState = some state →
      state.producer initialStep = origin t.taskID := by
    intro state hstate
    obtain ⟨hfrom, hne⟩ := h.flows state hstate
    exact hfrom.producer.resolve_left hne
  refine ⟨?_, hproducer⟩
  unfold coordinatorNodeID
  cases hstate : t.pipelineState with
  | none => simpa [h.owns.2] using h.owns.1
  | some state => simpa [(h.flows state hstate).2] using hproducer state hstate

theorem coordinated_of_carries {req : TaskEscrowRequest} (h : (coordination origin).entry req) :
    ∃ state, req.pipelineState = some state ∧
      state.producer initialStep = origin req.taskID := by
  obtain ⟨-, state, hstate, hfrom, hne⟩ := h
  exact ⟨state, hstate, hfrom.producer.resolve_left hne⟩

/-- Over every run in which no pipeline with a step called `$initial` is registered, with
restarts at any time, every node holds and sends tasks with the same coordinator. -/
theorem coordinator_fixed (d : Deployment) (origin : String → String)
    (services : String → Bucket String RegisteredService) (cl : Cluster)
    (hrun : Relation.ReflTransGen (Cluster.Step d (.unreserved origin)) (Cluster.initial services)
      cl) (i : String) : Coordinated origin (d.node i) (cl i).state := by
  have hagrees : Cluster.Agrees d (.unreserved origin) fun _ => coordination origin :=
    { started := fun hne horigin => ⟨horigin.symm, hne⟩
      submitted := id
      escalated := id
      admitted := fun h _ => h
      restored := fun _ hs htask hstatus => hs.carries htask hstatus }
  have hsound : Cluster.Sound d (fun _ => coordination origin)
      (fun i => coordination_lawful (d.node i)) cl := Cluster.sound_of_run hagrees hrun
  have hholds := (hsound i).holds
  refine ⟨fun t ht => coordinated_of_fine (hholds.queue t ht),
    fun id task htask => coordinated_of_carries (hholds.escrow id task htask),
    fun id record hrecord state hstate => ?_, fun taskID step schema state hevent => ?_,
    fun peerID req err hevent => coordinated_of_fine (hholds.trace _ hevent),
    fun coordinator req err hevent => coordinated_of_carries (hholds.trace _ hevent)⟩
  · obtain ⟨hfrom, hne⟩ := (hholds.active id record hrecord).flows state hstate
    exact hfrom.producer.resolve_left hne
  · obtain ⟨⟨hfrom, hne⟩, -⟩ := hholds.trace _ hevent
    exact hfrom.producer.resolve_left hne

theorem coordinator_fixed_escalated :
    Relation.ReflTransGen (Cluster.Step .quiet (.unreserved fun _ => "a"))
      (Cluster.initial strandedServices) escalatedRun ∧
    Coordinated (fun _ => "a") (.named "a") (escalatedRun "a").state := by
  have hrun : Relation.ReflTransGen (Cluster.Step .quiet (.unreserved fun _ => "a"))
      (Cluster.initial strandedServices) escalatedRun := by
    refine run_escalatedRun ?_ rfl
    unfold Policy.unreserved
    decide
  exact ⟨hrun, coordinator_fixed .quiet (fun _ => "a") strandedServices escalatedRun hrun "a"⟩

/-- A pipeline like `stranded` whose first step is called `$initial`. -/
def reserved : PipelineSchema :=
  { stranded with steps := [{ id := initialStep, service := "f" }, { id := "second", service := "g" }] }

/-- The pipeline is valid, and the node that runs its first step passes for the coordinator:
it keeps the task of node `a` in its own escrow table. -/
theorem reserved_step_moves_coordinator :
    validatePipelineSchema reserved = none ∧
    Relation.ReflTransGen (Cluster.Step .quiet (.startedBy "a")) (Cluster.initial strandedServices)
      (workedRun reserved) ∧
    ¬Coordinated (fun _ => "a") (.named "b") (workedRun reserved "b").state := by
  refine ⟨by decide +kernel, run_workedRun trivial rfl (by decide +kernel), fun h => ?_⟩
  have hheld : ((workedRun reserved "b").state.escrow.get "t").map (fun task =>
      task.pipelineState.map fun state => state.producer initialStep) = some (some "b") := by
    decide +kernel
  obtain ⟨task, htask, hproducer⟩ := Option.map_eq_some_iff.1 hheld
  obtain ⟨state, hstate, horigin⟩ := h.escrow "t" task htask
  rw [hstate] at hproducer
  exact absurd (horigin.symm.trans (Option.some.inj hproducer)) (by decide)

/-- The worker restarts over its own journal, and then both nodes hold the task. -/
theorem restarted_worker_holds : ∃ cl,
    Relation.ReflTransGen (Cluster.Step .quiet (.startedBy "a")) (Cluster.initial strandedServices)
      cl ∧
    (∃ req err, .escalated "a" req err ∈ (cl "b").state.trace ∧ req.taskID = "t" ∧
      req.requesterNodeID = "a") ∧
    cl.Holder "t" "a" ∧ cl.Holder "t" "b" := by
  set cl := escalatedRun.afterRestart .quiet "b" (strandedServices "b") [stranded] with hcl
  have hrun : Relation.ReflTransGen (Cluster.Step .quiet (.startedBy "a"))
      (Cluster.initial strandedServices) cl :=
    (run_escalatedRun trivial rfl).tail (.restart _ trivial fun _ _ => trivial)
  have hsent : (cl.escalations "b" "a").isEmpty = false := by
    rw [hcl]
    decide +kernel
  have hnamed : ((cl.escalations "b" "a").headD default).taskID = "t" ∧
      ((cl.escalations "b" "a").headD default).requesterNodeID = "a" := by
    rw [hcl]
    decide +kernel
  obtain ⟨err, hescalated⟩ := Cluster.exists_of_mem_escalations (Cluster.headD_mem default hsent)
  refine ⟨cl, hrun, ⟨_, err, hescalated, hnamed⟩, ?_⟩
  rw [hcl]
  unfold Cluster.Holder
  decide +kernel

end Proxyma.Compute
