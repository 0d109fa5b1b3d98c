import Proxyma.Compute.Holdings

/-!
# Clusters

Nodes that run engines and talk to each other.  Each node is a pool of threads
over its engine; a thread is one of the calls of `Starts`.  What one node has sent
to another, accepted or not, is in its trace, and the other may receive it at any
later time and any number of times.  A node may stop at any moment and come up
again over its database.

`Sound.step` is the one step lemma: if every node keeps its discipline, and what a
node sends is fine for the node that receives it, then every step of the cluster
keeps the disciplines of all nodes.
-/

namespace Proxyma.Compute

open Keyed Atomic Atomic.Call

/-- The nodes of a cluster and what the outside answers them. -/
structure Deployment where
  node : String → Node
  world : String → World
  nodeID : ∀ i, (node i).nodeID = i

/-- Every identifier is a node, in a quiet world. -/
def Deployment.quiet : Deployment := ⟨Node.named, fun _ => .quiet, fun _ => rfl⟩

/-- The engines of the nodes, with the threads that work on them. -/
abbrev Cluster := String → Pool Action Engine

/-- A request after it has been sent; the expected producer is not sent along. -/
def TaskRequest.received (req : TaskRequest) : TaskRequest :=
  { req with
    pipelineState := req.pipelineState.map Compute.received
    expectedProducerNodeID := "" }

/-- An escrow request after it has been sent. -/
def TaskEscrowRequest.received (req : TaskEscrowRequest) : TaskEscrowRequest :=
  { req with
    payload := Storage.omitEmpty req.payload
    outputs := Storage.omitEmpty req.outputs
    pipelineState := req.pipelineState.map Compute.received }

/-- The actions a node takes on its own or on behalf of a peer, besides the calls
that hand tasks on. -/
def Action.standsAlone : {β : Type} → Action β → Bool
  | _, .acceptTaskCallback _ _ => true
  | _, .recordTaskResponse _ => true
  | _, .getTaskResponse _ => true
  | _, .getAllTaskStatuses => true
  | _, .applyPipelineRevision _ => true
  | _, .close => true
  | _, .failAcceptedTasks => true
  | _, _ => false

/-- The definitions a cluster registers, who starts which task, and when a node
may restart. -/
structure Policy where
  admits : PipelineSchema → Prop
  origin : String → String
  restarts : String → Engine → Prop

/-- Every task is started by one node, and nothing else is asked for. -/
def Policy.startedBy (nodeID : String) : Policy where
  admits _ := True
  origin _ := nodeID
  restarts _ _ := True

/-- The definition an action registers is admitted. -/
def Policy.Admits (policy : Policy) : {β : Type} → Action β → Prop
  | _, .applyPipelineRevision schema => policy.admits schema
  | _, _ => True

/-- The calls a node can start. -/
inductive Starts (d : Deployment) (policy : Policy) (cl : Cluster) (i : String) :
    Prog Action Unit → Prop
  | run {req : TaskRequest} {targetPeerID : String} (hnode : i ≠ "")
      (horigin : policy.origin req.taskID = i) (hrequester : req.requesterNodeID = i)
      (hstate : req.pipelineState = none) :
      Starts d policy cl i (localServiceRun (d.node i) req targetPeerID).thread
  | submit {j : String} {req : TaskRequest} {err : Option GoError}
      (hsent : .submitted i req err ∈ (cl j).state.trace) :
      Starts d policy cl i (handleServiceSubmit (d.node i) j (TaskRequest.received req)).thread
  | escrow {j : String} {req : TaskEscrowRequest} {err : Option GoError}
      (hsent : .escalated i req err ∈ (cl j).state.trace) :
      Starts d policy cl i (handleServiceEscrow (d.node i) j (TaskEscrowRequest.received req)).thread
  | work : Starts d policy cl i (worker (d.node i)).thread
  | resume {taskID : String} : Starts d policy cl i (resumeEscrowTask (d.node i) taskID).thread
  | wakeup : Starts d policy cl i (wakeupEscrowTasks (d.node i)).thread
  | act {β : Type} {e : Action β} (halone : e.standsAlone = true) (hadmits : policy.Admits e) :
      Starts d policy cl i (perform e).thread

namespace Cluster

variable {cl start : Cluster} {d : Deployment} {i j : String} {policy : Policy}

/-- One step of a cluster. -/
inductive Step (d : Deployment) (policy : Policy) : Cluster → Cluster → Prop
  | start {cl : Cluster} {i : String} {thread : Prog Action Unit}
      (hstart : Starts d policy cl i thread) :
      Step d policy cl (Function.update cl i ((cl i).spawn thread))
  | act {cl : Cluster} {i : String} {pool : Pool Action Engine}
      (hstep : Pool.Step (handler (d.node i) (d.world i)) (cl i) pool) :
      Step d policy cl (Function.update cl i pool)
  | restart {cl : Cluster} {i : String} (services : Bucket String RegisteredService)
      {schemas : List PipelineSchema} (hrestarts : policy.restarts i (cl i).state)
      (hadmits : ∀ S ∈ schemas, policy.admits S) :
      Step d policy cl (Function.update cl i
        ⟨(cl i).state.restarted (d.node i) (d.world i) services schemas, []⟩)

/-- The cluster after a node has run a call from its start to its end. -/
def after (d : Deployment) (cl : Cluster) (i : String) {α : Type} (call : Call Action α) :
    Cluster :=
  Function.update cl i
    ⟨(call.prog.run (handler (d.node i) (d.world i)) (cl i).state).2, .ret () :: (cl i).threads⟩

theorem run_after {α : Type} {call : Call Action α}
    (hrun : Relation.ReflTransGen (Step d policy) start cl)
    (hstart : Starts d policy cl i call.thread) :
    Relation.ReflTransGen (Step d policy) start (cl.after d i call) := by
  have hlift : ∀ {p p' : Pool Action Engine},
      Relation.ReflTransGen (Pool.Step (handler (d.node i) (d.world i))) p p' →
      Relation.ReflTransGen (Step d policy) (Function.update cl i p)
        (Function.update cl i p') := by
    intro p p' hpool
    refine Relation.ReflTransGen.lift (Function.update cl i) (fun q q' hq => ?_) p p' hpool
    have hact : Pool.Step (handler (d.node i) (d.world i)) (Function.update cl i q i) q' := by
      simpa using hq
    have hstep : Step d policy (Function.update cl i q)
        (Function.update (Function.update cl i q) i q') := .act hact
    simpa [Function.onFun] using hstep
  refine hrun.trans (.head (.start hstart) ?_)
  have hruns := hlift (Pool.runs (handler (d.node i) (d.world i)) call.thread (cl i).state
    (cl i).threads)
  simpa [after, Call.thread, Pool.spawn] using hruns

/-- The requests a node has sent to another. -/
def submissions (cl : Cluster) (j i : String) : List TaskRequest :=
  (cl j).state.trace.filterMap fun
    | .submitted peerID req _ => if peerID = i then some req else none
    | _ => none

/-- The tasks a node has escalated to another. -/
def escalations (cl : Cluster) (j i : String) : List TaskEscrowRequest :=
  (cl j).state.trace.filterMap fun
    | .escalated coordinator req _ => if coordinator = i then some req else none
    | _ => none

theorem exists_of_mem_submissions {req : TaskRequest} (h : req ∈ cl.submissions j i) :
    ∃ err, .submitted i req err ∈ (cl j).state.trace := by
  obtain ⟨event, hevent, hsome⟩ := List.mem_filterMap.1 h
  cases event with
  | submitted peerID sent err =>
    obtain ⟨rfl, rfl⟩ : peerID = i ∧ sent = req := by simpa using hsome
    exact ⟨err, hevent⟩
  | _ => exact absurd hsome (by simp)

theorem exists_of_mem_escalations {req : TaskEscrowRequest} (h : req ∈ cl.escalations j i) :
    ∃ err, .escalated i req err ∈ (cl j).state.trace := by
  obtain ⟨event, hevent, hsome⟩ := List.mem_filterMap.1 h
  cases event with
  | escalated coordinator sent err =>
    obtain ⟨rfl, rfl⟩ : coordinator = i ∧ sent = req := by simpa using hsome
    exact ⟨err, hevent⟩
  | _ => exact absurd hsome (by simp)

/-- The cluster after a node has received the first request that another sent it. -/
def afterSubmit (d : Deployment) (cl : Cluster) (j i : String) : Cluster :=
  cl.after d i
    (handleServiceSubmit (d.node i) j (TaskRequest.received ((cl.submissions j i).headD default)))

/-- The cluster after a node has received the first task escalated to it. -/
def afterEscrow (d : Deployment) (cl : Cluster) (j i : String) : Cluster :=
  cl.after d i (handleServiceEscrow (d.node i) j
    (TaskEscrowRequest.received ((cl.escalations j i).headD default)))

theorem headD_mem {α : Type} {l : List α} (fallback : α) (h : l.isEmpty = false) :
    l.headD fallback ∈ l := by
  cases l with
  | nil => exact absurd h (by simp)
  | cons a l => exact List.mem_cons_self

theorem run_afterSubmit (hrun : Relation.ReflTransGen (Step d policy) start cl)
    (hsent : (cl.submissions j i).isEmpty = false) :
    Relation.ReflTransGen (Step d policy) start (cl.afterSubmit d j i) := by
  obtain ⟨err, hevent⟩ := exists_of_mem_submissions (headD_mem default hsent)
  exact run_after hrun (.submit hevent)

theorem run_afterEscrow (hrun : Relation.ReflTransGen (Step d policy) start cl)
    (hsent : (cl.escalations j i).isEmpty = false) :
    Relation.ReflTransGen (Step d policy) start (cl.afterEscrow d j i) := by
  obtain ⟨err, hevent⟩ := exists_of_mem_escalations (headD_mem default hsent)
  exact run_after hrun (.escrow hevent)

/-- The cluster after a node has restarted. -/
def afterRestart (d : Deployment) (cl : Cluster) (i : String)
    (services : Bucket String RegisteredService) (schemas : List PipelineSchema) : Cluster :=
  Function.update cl i ⟨(cl i).state.restarted (d.node i) (d.world i) services schemas, []⟩

/-- A cluster of new nodes. -/
def initial (services : String → Bucket String RegisteredService) : Cluster :=
  fun i => ⟨{ Engine.new .empty with services := services i }, []⟩

/-- The nodes keep a custody. -/
def Sound (d : Deployment) (v : String → Custody) (hv : ∀ i, (v i).Lawful (d.node i) True)
    (cl : Cluster) : Prop :=
  ∀ i, (cl i).Sound ((hv i).discipline (d.world i)).rules (Engine.Holds (v i))

/-- What the custodies of the nodes have to agree on. -/
structure Agrees (d : Deployment) (policy : Policy) (v : String → Custody) : Prop where
  started : ∀ {i id}, i ≠ "" → policy.origin id = i → (v i).owns id i
  submitted : ∀ {i j req}, Fine (v j).owns (v j).flows req → Fine (v i).owns (v i).flows req
  escalated : ∀ {i j req}, Carries (v j).owns (v j).flows req →
    Carries (v i).owns (v i).flows req
  admitted : ∀ {i S}, policy.admits S → validatePipelineSchema S = none → (v i).schema S
  restored : ∀ {i s task}, policy.restarts i s → Engine.Holds (v i) s → task ∈ s.activeTasks →
    task.status = "escrow" → ∀ stepID, (v i).entry (restoredEntry task stepID)

variable {d : Deployment} {policy : Policy} {v : String → Custody}
  {hv : ∀ i, (v i).Lawful (d.node i) True}

theorem fine_received {req : TaskRequest} (hreq : Fine (v i).owns (v i).flows req)
    (hreceived : ∀ {id state}, (v i).flows id state → (v i).flows id (received state)) :
    Fine (v i).owns (v i).flows (TaskRequest.received req) := by
  refine ⟨hreq.owns, fun state hstate => ?_⟩
  obtain ⟨state', hstate', rfl⟩ := Option.map_eq_some_iff.1 hstate
  exact hreceived (hreq.flows state' hstate')

theorem carries_received {req : TaskEscrowRequest} (hreq : Carries (v i).owns (v i).flows req)
    (hreceived : ∀ {id state}, (v i).flows id state → (v i).flows id (received state)) :
    Carries (v i).owns (v i).flows (TaskEscrowRequest.received req) := by
  obtain ⟨howns, state, hstate, hflows⟩ := hreq
  exact ⟨howns, received state, by simp [TaskEscrowRequest.received, hstate], hreceived hflows⟩

theorem Sound.starts (ha : Agrees d policy v) (hcl : Sound d v hv cl) {thread : Prog Action Unit}
    (hstart : Starts d policy cl i thread) :
    thread.Obeys ((hv i).discipline (d.world i)).rules fun _ => True := by
  set D := (hv i).discipline (d.world i)
  have hstocked : D.conduct.Stocked :=
    Discipline.stocked (fun h ht => h.queue _ ht) fun h hget => h.escrow _ _ hget
  cases hstart with
  | run hnode horigin hrequester hstate =>
    refine (D.keeps (n := 0) (Conduct.localServiceRun_runs
      (Discipline.good_iff.2 ⟨?_, ?_⟩) _)).thread
    · rw [hrequester]
      exact ha.started hnode horigin
    · intro state hsome
      cases hstate.symm.trans hsome
  | @submit j req err hsent =>
    have hreq : Fine (v i).owns (v i).flows req := ha.submitted ((hcl j).holds.trace _ hsent)
    have hreceived : D.terms.Good 0 _ := Discipline.good_iff.2 (fine_received hreq (hv i).received)
    exact (D.keeps (Tenets.handleServiceSubmit_runs (D := D.conduct.toTenets) j hreceived)).thread
  | @escrow j req err hsent =>
    have hreq : Carries (v i).owns (v i).flows req := ha.escalated ((hcl j).holds.trace _ hsent)
    exact (D.keeps (n := 0) (Charter.handleServiceEscrow_runs j
      (Discipline.lodges (carries_received hreq (hv i).received)))).thread
  | work => exact (D.keeps (n := 0) (Conduct.worker_runs hstocked)).thread
  | @resume taskID =>
    exact (D.keeps (n := 0) (Conduct.resumeEscrowTask_runs hstocked taskID)).thread
  | wakeup => exact (D.keeps (n := 0) (Conduct.wakeupEscrowTasks_runs hstocked)).thread
  | @act β e halone hadmits =>
    have hpermits : (v i).Permits e := by
      cases e with
      | applyPipelineRevision S => exact fun hvalid => ha.admitted hadmits hvalid
      | _ => first | exact trivial | exact absurd halone (by simp [Action.standsAlone])
    have hkeeps : D.Keeps (perform e) := Discipline.perform_any hpermits
    exact hkeeps.thread

/-- Every step of a cluster keeps the custody of all its nodes. -/
theorem Sound.step (ha : Agrees d policy v) {cl' : Cluster} (hcl : Sound d v hv cl)
    (hstep : Step d policy cl cl') : Sound d v hv cl' := by
  have hupdate : ∀ (i : String) (pool : Pool Action Engine),
      pool.Sound ((hv i).discipline (d.world i)).rules (Engine.Holds (v i)) →
      Sound d v hv (Function.update cl i pool) := by
    intro i pool hpool k
    by_cases hk : k = i
    · subst hk
      simpa using hpool
    · simpa [hk] using hcl k
  cases hstep with
  | @start i thread hstart => exact hupdate i _ ((hcl i).spawn (hcl.starts ha hstart))
  | @act i pool hpool =>
    exact hupdate i _ ((hcl i).step ((hv i).discipline (d.world i)).rules_sound hpool)
  | @restart i services schemas hrestarts hadmits =>
    have hholds := (hcl i).holds
    refine hupdate i _ ⟨?_, by simp⟩
    exact hholds.restarted (hv i) (d.world i) services
      (fun S hS hvalid => ha.admitted (hadmits S hS) hvalid)
      fun task htask hstatus => ha.restored hrestarts hholds htask hstatus

theorem initial_sound (services : String → Bucket String RegisteredService) :
    Sound d v hv (initial services) := by
  refine fun i => ⟨⟨?_, ?_, ?_, ?_, ?_, ?_⟩, by simp [initial]⟩
  · intro t ht
    simp [initial, Engine.new] at ht
  · intro id task hget
    simp [initial, Engine.new] at hget
  · intro id record hget
    simp [initial, Engine.new, Storage.Database.empty] at hget
  · intro e he
    simp [initial, Engine.new] at he
  · intro id S hget
    simp [initial, Engine.new] at hget
  · intro id S hget
    simp [initial, Engine.new] at hget

/-- In every state a cluster reaches, the nodes keep their custody. -/
theorem sound_of_run (ha : Agrees d policy v)
    {services : String → Bucket String RegisteredService}
    (hrun : Relation.ReflTransGen (Step d policy) (initial services) cl) : Sound d v hv cl := by
  induction hrun with
  | refl => exact initial_sound services
  | tail _ hstep ih => exact ih.step ha hstep

end Cluster

end Proxyma.Compute
