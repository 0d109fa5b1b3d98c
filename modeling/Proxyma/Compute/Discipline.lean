import Proxyma.Compute.Conduct

/-!
# Custody

A `Custody` names what is to be known about the values that the calls of an engine
pass on, `Custody.Lawful` the laws that the changes of the source have to keep, and
`Custody.Permits` says which values an action may put into the state.  A `Discipline`
adds an invariant of the engine that provides for them.

A discipline is a conduct in which nothing costs anything (`Discipline.conduct`).
Different disciplines then give different results about all interleavings of the
calls: who may hold a task in escrow, what is known when a step runs, and that
nothing panics.
-/

namespace Proxyma.Compute

open Keyed Atomic Atomic.Call GoError

/-- An execution state after it has been encoded and decoded as JSON. -/
def received (state : PipelineExecutionState) : PipelineExecutionState :=
  { state with
    outputs := Storage.omitEmpty state.outputs
    outputProducers := Storage.omitEmpty state.outputProducers
    selectedTargets := Storage.omitEmpty state.selectedTargets }

@[simp] theorem getD_omitEmpty {α : Type} (m : Option (List α)) :
    (Storage.omitEmpty m).getD [] = m.getD [] := by
  rcases m with _ | _ | ⟨e, rest⟩ <;> rfl

/-- What holds of the state of an escrow entry with its outputs merged in, and is
kept by the changes that follow, holds of the state with which the task leaves. -/
theorem resumeState_induction {c : Node} {task : TaskEscrowRequest}
    {state : PipelineExecutionState} {schema : PipelineSchema} {stepIndex : ℤ}
    {step : PipelineStep} {target : String} {P : PipelineExecutionState → Prop}
    (htask : task.pipelineState = some state)
    (hmerged : P { state with
      schemaHash := if state.schemaHash = "" then c.pipelineSchemaHash schema else state.schemaHash
      snapshot := some (state.snapshot.getD schema)
      outputs := some (mergeMap (state.outputs.getD []) (task.outputs.getD []) false) })
    (hinitial : ∀ st, P st → P (st.ensureInitialProducer task.requesterNodeID))
    (hprevious : ∀ st previous, schema.stepAt (stepIndex - 1) = some previous → P st →
      P (st.setProducer previous.id task.producerNodeID))
    (htarget : ∀ st, P st → P (st.setTarget step.id target)) :
    P (resumeState c task schema stepIndex step target) := by
  have hfilled := hinitial _ hmerged
  unfold resumeState
  rw [htask]
  dsimp only [Option.getD_some]
  generalize PipelineExecutionState.ensureInitialProducer _ task.requesterNodeID = filled at *
  refine htarget _ ?_
  split
  · exact hfilled
  rename_i previous hstep
  have hstep' : schema.stepAt (stepIndex - 1) = some previous := by
    split_ifs at hstep
    exact hstep
  split_ifs
  · exact hprevious filled previous hstep' hfilled
  · exact hfilled

/-- An escrow request of its owner that carries an execution state. -/
structure Carries (owns : String → String → Prop) (flows : String → PipelineExecutionState → Prop)
    (req : TaskEscrowRequest) : Prop where
  owns : owns req.taskID req.requesterNodeID
  flows : ∃ state, req.pipelineState = some state ∧ flows req.taskID state

/-- What is to be known about the values in flight at a node.  `owns id node` says
that a node may speak for a task, `flows id state` is about the execution states
of a task, `schema` about definitions and `entry` about the escrow table. -/
structure Custody where
  owns : String → String → Prop
  flows : String → PipelineExecutionState → Prop
  entry : TaskEscrowRequest → Prop
  schema : PipelineSchema → Prop

/-- What an action may put into the state. -/
def Custody.Permits (v : Custody) : {β : Type} → Action β → Prop
  | _, .enqueue req => Fine v.owns v.flows req
  | _, .submitToPeer _ req => Fine v.owns v.flows req
  | _, .putEscrow req => v.entry req
  | _, .sendTaskEscrow _ req => Carries v.owns v.flows req
  | _, .checkpoint record => Journaled v.owns v.flows record
  | _, .applyPipelineRevision schema => validatePipelineSchema schema = none → v.schema schema
  | _, .execute taskID step schema state _ =>
    v.flows taskID state ∧ state.snapshot = some schema ∧
      schema.stepAt state.currentStep = some step
  | _, _ => True

/-- The laws that let the calls of the engine pass values on. -/
structure Custody.Lawful (v : Custody) (c : Node) (panics : Prop) : Prop where
  carried : ∀ {id state S}, v.flows id state → state.snapshot = some S → v.schema S
  single : ∀ service, v.schema (singleStep service)
  -- owners
  anonymous : ∀ {id} nodeID, v.owns id "" → v.owns id nodeID
  coordinated : ∀ {t state}, Fine v.owns v.flows t → t.pipelineState = some state →
    v.owns t.taskID (coordinatorNodeID c t)
  -- execution states
  initial : ∀ {id requester S}, v.owns id requester → v.schema S →
    v.flows id (initialState c requester S)
  resolved : ∀ {id state S}, v.flows id state → state.snapshot = none → v.schema S →
    v.flows id { state with snapshot := some S }
  adopted : ∀ {id state current target}, v.flows id state → state.snapshot = some current →
    v.schema target → target.steps ≠ [] → 0 ≤ state.currentStep →
    validatePrefixMigration (completedSteps state current) state.outputs current target = none →
    v.flows id (adopt c state target)
  retargeted : ∀ {id state state'}, v.flows id state → Retargeted state state' → v.flows id state'
  produced : ∀ {id state requester}, v.owns id requester → v.flows id state →
    v.flows id (state.ensureInitialProducer requester)
  allocated : ∀ {id state}, v.flows id state →
    v.flows id { state with outputs := some (state.outputs.getD []) }
  recorded : ∀ {id state S step} outputs, v.flows id state → state.snapshot = some S →
    S.stepAt state.currentStep = some step → v.flows id (recordStep c state step outputs)
  received : ∀ {id state}, v.flows id state → v.flows id (received state)
  inRange : ∀ {id state}, v.flows id state → panics ∨
    (0 ≤ state.currentStep ∧ state.currentStep ≤ maxStringSlice ∧
      ∀ S, state.snapshot = some S → state.currentStep ≤ S.steps.length)
  -- escrow
  escrowed : ∀ {req}, Carries v.owns v.flows req → req.requesterNodeID = c.nodeID → v.entry req
  waiting : ∀ {task}, v.entry task → Carries v.owns v.flows task
  resumed : ∀ {task S} stepIndex step target, v.entry task → v.schema S →
    v.flows task.taskID (resumeState c task S stepIndex step target)

/-- A custody that an invariant of the node's engine provides for.  `panics` says
whether a call may panic. -/
structure Discipline (c : Node) (w : World) extends Custody where
  inv : Engine → Prop
  panics : Prop
  lawful : toCustody.Lawful c panics
  registered : ∀ {s id S}, inv s → s.pipelines.get id = some S → schema S
  revision : ∀ {s id S}, inv s → s.pipelineRevisions.get id = some S → schema S
  kept : ∀ {β : Type} (e : Action β) s, toCustody.Permits e → inv s → inv (exec c w e s).2

namespace Discipline

variable {c : Node} {w : World} (D : Discipline c w)

/-- The rules of a discipline: permitted actions, with answers from the states of
the invariant. -/
def rules : Rules Action where
  allowed := D.Permits
  answers e b := ∃ s, D.inv s ∧ b = (exec c w e s).1

theorem rules_sound : D.rules.Sound (handler c w) D.inv :=
  fun e s he hs => ⟨D.kept e s he hs, s, hs, rfl⟩

/-- What a call returns satisfies `ok`, unless it panics. -/
def Returns {α : Type} (ok : α → Prop) : Option α → Prop
  | none => D.panics
  | some a => ok a

/-- A call that obeys the rules, whatever it returns. -/
abbrev Keeps {α : Type} (p : Call Action α) : Prop := p.Obeys D.rules (D.Returns fun _ => True)

/-- Under a discipline nothing costs anything. -/
def charter : Charter := .gratis D.rules D.panics fun {_ e} he => by
  cases e <;> first | exact trivial | exact absurd he (by simp [Action.plain])

variable {D} {α β : Type}

theorem silent {e : Action α} (he : D.Permits e) : D.charter.Silent e := ⟨he, rfl, fun _ => rfl⟩

theorem hands {n : ℕ} {e : Action (Option GoError)} (he : D.Permits e) : D.charter.Hands n e :=
  ⟨he, Nat.zero_le n, fun _ => le_rfl⟩

variable (D) in
/-- The terms of a discipline. -/
def terms : Terms where
  owns := D.owns
  fresh _ _ := True
  flows _ := D.flows
  schema := D.schema

theorem good_iff {n : ℕ} {t : TaskRequest} : D.terms.Good n t ↔ Fine D.owns D.flows t :=
  ⟨fun h => ⟨h.owns, h.state.some⟩, fun h => ⟨h.owns, fun _ => trivial, h.flows⟩⟩

/-- An escrow request that its owner may leave with this node. -/
theorem lodges {n : ℕ} {req : TaskEscrowRequest} (hreq : Carries D.owns D.flows req)
    (howned : req.requesterNodeID = "" ∨ req.requesterNodeID = c.nodeID) :
    D.charter.Lodges c n req := by
  intro timestamp producerNodeID
  have howns : D.owns req.taskID c.nodeID := by
    rcases howned with howned | howned
    · exact D.lawful.anonymous _ (howned ▸ hreq.owns)
    · exact howned ▸ hreq.owns
  obtain ⟨state, hstate, hflows⟩ := hreq.flows
  refine ⟨silent ⟨?_, fun _ => ⟨howns, ?_⟩, .inr howns⟩, ?_, Nat.zero_le n⟩
  · intro st hst
    cases hstate.symm.trans hst
    exact hflows
  · exact Option.isSome_iff_exists.2 ⟨state, hstate⟩
  · exact D.lawful.escrowed ⟨howns, state, hstate, hflows⟩ rfl

variable (D) in
/-- A discipline as a conduct. -/
def conduct : Conduct c where
  toCharter := D.charter
  toTerms := D.terms
  registered := fun ⟨_, hs, hS⟩ => D.registered hs hS.symm
  revision := fun ⟨_, hs, hS⟩ => D.revision hs hS.symm
  raise _ := ⟨id, id⟩
  anonymous := D.lawful.anonymous
  carried := D.lawful.carried
  initial howns _ := D.lawful.initial howns
  resolved := D.lawful.resolved
  adopted := D.lawful.adopted
  retargeted := D.lawful.retargeted
  produced := D.lawful.produced
  inRange := D.lawful.inRange
  journals hrecord := silent hrecord
  enqueues hreq := hands (good_iff.1 hreq)
  entry _ := D.entry
  single := D.lawful.single
  submits hreq := hands (good_iff.1 hreq)
  allocated := D.lawful.allocated
  executes _ hstate hsnapshot hstep :=
    ⟨⟨hstate, hsnapshot, hstep⟩, Nat.zero_le _, fun _ outputs =>
      D.lawful.recorded outputs hstate hsnapshot hstep⟩
  escalates step stepIndex cause now ht hsome := by
    obtain ⟨state, hstate⟩ := Option.isSome_iff_exists.1 hsome
    have hreq : Carries D.owns D.flows (escrowRequest c _ step stepIndex cause now) :=
      ⟨D.lawful.coordinated (good_iff.1 ht) hstate, state, hstate, ht.state.some state hstate⟩
    exact ⟨fun _ => silent hreq, fun howner => lodges hreq howner.symm⟩
  raiseEntry _ := id
  puts htask := ⟨htask, Nat.zero_le _⟩
  resumes stepIndex step target htask hschema :=
    ⟨(D.lawful.waiting htask).owns, Terms.apt_some
      (D.lawful.resumed stepIndex step target htask hschema)⟩
  marks stepID stepIndex htask := by
    obtain ⟨howns, state, hstate, hflows⟩ := D.lawful.waiting htask
    refine silent ⟨fun st hst => ?_, fun h => ?_, Or.inr howns⟩
    · obtain rfl : state = st := Option.some.inj (hstate.symm.trans hst)
      exact hflows
    · exact absurd h (by simp [checkpointFromEscrow])

/-- The invariant provides for what is in the queue and in the escrow table. -/
theorem stocked (queued : ∀ {s t}, D.inv s → t ∈ s.queue → Fine D.owns D.flows t)
    (held : ∀ {s id task}, D.inv s → s.escrow.get id = some task → D.entry task) :
    D.conduct.Stocked where
  dequeue := ⟨trivial, rfl⟩
  queued := fun ⟨_, hs, ht⟩ => good_iff.2 (queued hs (List.mem_of_mem_head? ht.symm))
  take _ := ⟨trivial, rfl⟩
  taken := fun ⟨_, hs, htask⟩ => held hs htask.symm
  waiting := by
    rintro id task ⟨s, hs, htask⟩ S hS
    obtain ⟨-, state, hstate, hflows⟩ := D.lawful.waiting (held hs htask.symm)
    rw [hstate] at hS
    exact D.lawful.carried hflows hS

theorem keeps {n : ℕ} {p : Call Action α} (hp : D.conduct.Affords n p) : D.Keeps p := by
  refine hp.obeys.mono ?_
  rintro (_ | a) ha
  · exact ha rfl
  · trivial

/-! ## Restarts -/

theorem after {p : Call Action α} {g : α → Call Action β} (hp : D.Keeps p)
    (hg : ∀ a, D.Keeps (g a)) : D.Keeps (p >>= g) :=
  Obeys.bind hp id fun a _ => hg a

theorem perform_any {e : Action α} (he : D.Permits e) : D.Keeps (perform e) :=
  obeys_perform he fun _ _ => trivial

theorem registerPipelines_obeys {schemas : List PipelineSchema}
    (hschemas : ∀ S ∈ schemas, validatePipelineSchema S = none → D.schema S) :
    D.Keeps (registerPipelines schemas) := by
  induction schemas with
  | nil => exact trivial
  | cons S rest ih =>
    refine after (perform_any (hschemas S (by simp))) fun _ => ih fun S' hS' => ?_
    exact hschemas S' (List.mem_cons_of_mem _ hS')

theorem restoreEscrow_obeys {task : Storage.TaskRecord} {stepID : String}
    (hentry : D.entry (restoredEntry task stepID)) :
    D.Keeps (restoreEscrow task stepID) := by
  refine after (perform_any hentry) fun _ =>
    after (keeps (n := 0) (Charter.setTaskStatus_still _).affords) fun _ => ?_
  dsimp only
  split <;> exact perform_any trivial

theorem restoreEscrowTask_obeys (hpanics : D.panics) {task : Storage.TaskRecord}
    (hentry : ∀ stepID, D.entry (restoredEntry task stepID)) :
    D.Keeps (restoreEscrowTask task) := by
  unfold restoreEscrowTask
  split
  · exact restoreEscrow_obeys (hentry _)
  split
  · split
    · exact hpanics
    · exact restoreEscrow_obeys (hentry _)
  · exact restoreEscrow_obeys (hentry _)

theorem restoreActiveTasks_obeys (hpanics : D.panics) {active : List Storage.TaskRecord}
    (hentry : ∀ task ∈ active, task.status = "escrow" →
      ∀ stepID, D.entry (restoredEntry task stepID))
    (hzombie : ∀ task ∈ active, Journaled D.owns D.flows (zombieCheckpoint task)) :
    D.Keeps (restoreActiveTasks active) := by
  induction active with
  | nil => exact trivial
  | cons task rest ih =>
    have hrest := ih (fun t ht => hentry t (List.mem_cons_of_mem _ ht))
      fun t ht => hzombie t (List.mem_cons_of_mem _ ht)
    unfold restoreActiveTasks
    split
    · rename_i hstatus
      exact after (restoreEscrowTask_obeys hpanics (hentry task (by simp) hstatus))
        fun _ => hrest
    · exact after (perform_any (hzombie task (by simp))) fun _ => hrest

end Discipline

end Proxyma.Compute
