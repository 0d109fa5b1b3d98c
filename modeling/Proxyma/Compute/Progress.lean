import Proxyma.Compute.Dispatching
import Proxyma.Compute.Panics
import Proxyma.Compute.StatusLaw

/-!
# Progress

A worker that takes a task from the queue either runs its current step, or hands
the task to another node, or puts it into escrow, or ends it.  It may also put the
task back into its own queue.  That is progress if the step is pinned to this
node and this node has the service, since the next round then runs the handler.

It is none if the step is pinned to this node and the service is not there: the
round ends where it began.  `Stuck` describes these tasks.  They are the only ones
without progress, apart from those whose binding panics.
-/

namespace Proxyma.Compute

open Keyed Atomic Atomic.Call GoError TaskTables

variable {c : Node} {w : World} {s s' : Engine}
variable {s₁ s₂ s₃ : Engine} {id target : String} {step : PipelineStep} {t : TaskRequest}
  {schema : PipelineSchema} {state : PipelineExecutionState}

/-! ## What is progress -/

/-- The step of a task was run, or another node has taken the task. -/
def Event.Advances (c : Node) (id : String) : Event → Prop
  | .executed taskID _ _ _ => taskID = id
  | .submitted peerID req none => peerID ≠ c.nodeID ∧ req.taskID = id
  | .escalated _ req none => req.taskID = id
  | _ => False

/-- Such an event has been logged. -/
def Advanced (c : Node) (id : String) (s s' : Engine) : Prop :=
  ∃ new, s'.trace = s.trace ++ new ∧ ∃ e ∈ new, e.Advances c id

/-- A task is reported as ended, or it is retired. -/
def Concluded (s : Engine) (id : String) : Prop := ∃ response, KnownAs s id response

/-- What processing a task comes to, if `step` is the step it is at. -/
inductive Progresses (c : Node) (s s' : Engine) (id : String) (step : Option PipelineStep) : Prop
  | advanced (h : Advanced c id s s')
  | escrowed (h : (s'.escrow.get id).isSome)
  | concluded (h : Concluded s' id)
  /-- The task is back in the queue, pinned to this node, which has the service. -/
  | pinned {here : PipelineStep} {req : TaskRequest} {st : PipelineExecutionState}
      (hstep : step = some here) (hhas : s.services.has here.service = true)
      (hqueue : s'.queue = s.queue ++ [req]) (hid : req.taskID = id)
      (hstate : req.pipelineState = some st) (htarget : st.target here.id = c.nodeID)

/-- Nothing has happened to the queue and the services. -/
structure Trail (s s' : Engine) : Prop where
  logs : Engine.Logs (fun _ => True) s s'
  queue : s'.queue = s.queue
  services : s'.services = s.services

theorem Trail.trans (h₁ : Trail s₁ s₂) (h₂ : Trail s₂ s₃) : Trail s₁ s₃ :=
  ⟨h₁.logs.trans h₂.logs, h₂.queue.trans h₁.queue, h₂.services.trans h₁.services⟩

theorem Engine.Same.trail (h : s.Same s') : Trail s s' :=
  ⟨h.logs fun _ _ => trivial, h.queue, h.services⟩

theorem Trail.of_eq (htrace : s'.trace = s.trace) (hqueue : s'.queue = s.queue)
    (hservices : s'.services = s.services) : Trail s s' :=
  ⟨.of_eq htrace, hqueue, hservices⟩

theorem Advanced.after (h : Engine.Logs (fun _ => True) s₁ s₂) (h' : Advanced c id s₂ s₃) :
    Advanced c id s₁ s₃ := by
  obtain ⟨first, hfirst, -⟩ := h
  obtain ⟨second, hsecond, e, he, hadvances⟩ := h'
  exact ⟨first ++ second, by rw [hsecond, hfirst, List.append_assoc], e,
    List.mem_append_right _ he, hadvances⟩

theorem Advanced.before (h : Advanced c id s₁ s₂) (h' : Engine.Logs (fun _ => True) s₂ s₃) :
    Advanced c id s₁ s₃ := by
  obtain ⟨first, hfirst, e, he, hadvances⟩ := h
  obtain ⟨second, hsecond, -⟩ := h'
  exact ⟨first ++ second, by rw [hsecond, hfirst, List.append_assoc], e,
    List.mem_append_left _ he, hadvances⟩

theorem Progresses.after {step : Option PipelineStep} (h : Trail s₁ s₂)
    (h' : Progresses c s₂ s₃ id step) : Progresses c s₁ s₃ id step := by
  cases h' with
  | advanced hadvanced => exact .advanced (hadvanced.after h.logs)
  | escrowed hescrowed => exact .escrowed hescrowed
  | concluded hconcluded => exact .concluded hconcluded
  | pinned hstep hhas hqueue hid hstate htarget =>
    exact .pinned hstep (h.services ▸ hhas) (h.queue ▸ hqueue) hid hstate htarget

/-! ## The trace only grows -/

theorem exec_logs {β : Type} (e : Action β) (s : Engine) :
    Engine.Logs (fun _ => True) s (exec c w e s).2 := by
  have hsame : ∀ {s' : Engine}, s'.trace = s.trace → Engine.Logs (fun _ => True) s s' := .of_eq
  have hframe := exec_frame c w e s
  cases e with
  | fetchServiceBid | submitToPeer | sendTaskEscrow | sendTaskResponse | execute =>
    exact ⟨[_], rfl, fun _ _ => trivial⟩
  | enqueue req =>
    simp only [exec, Engine.enqueue]
    repeat' split
    all_goals first
      | exact hsame rfl
      | exact ⟨[_], rfl, fun _ _ => trivial⟩
  | applyPipelineRevision schema =>
    simp only [exec, Engine.applyPipelineRevision]
    repeat' split
    all_goals exact hsame rfl
  | dequeue | putEscrow | takeEscrow | close => exact hsame rfl
  | _ =>
    obtain ⟨_, _, _, heq⟩ := hframe rfl
    exact hsame (by rw [heq])

theorem run_logs {α : Type} (p : Call Action α) :
    p.Ends (handler c w) s fun _ s' => Engine.Logs (fun _ => True) s s' := by
  obtain ⟨p⟩ := p
  change Engine.Logs _ s (p.run (handler c w) s).2
  induction p generalizing s with
  | ret a => exact .of_eq rfl
  | act e next ih => exact (exec_logs e s).trans (ih _)

/-! ## Ending a task -/

theorem concluded_iff :
    Concluded s id ↔ (∃ active, Ended s id active) ∨ (s.tables.retired.get id).isSome := by
  constructor
  · rintro ⟨response, hended | ⟨-, hretired⟩⟩
    · exact .inl ⟨response, hended⟩
    · exact .inr (by simp [hretired])
  · rintro (⟨active, hended⟩ | hretired)
    · exact ⟨active, .inl hended⟩
    · by_cases hactive : ∃ active, Ended s id active
      · exact ⟨_, .inl hactive.choose_spec⟩
      · obtain ⟨response, hresponse⟩ := Option.isSome_iff_exists.1 hretired
        exact ⟨response, .inr ⟨not_exists.1 hactive, hresponse⟩⟩

theorem concluded_congr (hstatuses : s'.tables.statuses = s.tables.statuses)
    (hretired : s'.tables.retired = s.tables.retired) : Concluded s' id ↔ Concluded s id := by
  simp only [concluded_iff, Ended, hstatuses, hretired]

/-- A task whose end is set has ended, if not otherwise then this way. -/
theorem concluded_statusState {response : ServiceTaskResponse}
    (hterminal : isTerminalTaskStatus response.status = true) :
    Concluded (statusState c w s response) response.taskID := by
  set stored := if s.closed then markTaskFailedShape response Engine.errClosed.text else response
    with hstored
  have hid : stored.taskID = response.taskID := by
    rw [hstored]
    split <;> rfl
  have hended : isTerminalTaskStatus stored.status = true := by
    rw [hstored]
    split
    · rfl
    · exact hterminal
  rw [← hid, concluded_iff]
  change (∃ active, (s.tables.setTaskStatus stored (w.clock s.answers)).statuses.get stored.taskID =
      some active ∧ isTerminalTaskStatus active.status = true) ∨
    ((s.tables.setTaskStatus stored (w.clock s.answers)).retired.get stored.taskID).isSome = true
  simp only [TaskTables.setTaskStatus]
  split
  next hretired => exact .inr hretired
  split
  · rename_i hactive
    obtain ⟨active, hactive, hactiveEnded⟩ := (Option.any_eq_true _ _).1 hactive
    exact .inl ⟨active, hactive, hactiveEnded⟩
  · exact .inl ⟨stored, (puts_touchTaskStatus _ stored _).kept, hended⟩

theorem sendPipelineError_concludes (t : TaskRequest) (err : GoError) :
    (sendPipelineError c t err).Ends (handler c w) s fun _ s' => Concluded s' t.taskID := by
  refine ends_perform_bind.2 (setTaskStatus_bind.2 ?_)
  set response : ServiceTaskResponse :=
    { taskID := t.taskID, service := t.service, status := .failed, error := err.text
      producerNodeID := c.nodeID, pipelineState := t.pipelineState } with hresponse
  have hconcluded : ∀ s₁, Concluded (statusState c w s₁ response) t.taskID :=
    fun s₁ => concluded_statusState rfl
  split
  · exact (concluded_congr rfl rfl).2 (hconcluded _)
  · exact hconcluded _

/-! ## Escalation -/

theorem storeEscrow_stores (req : TaskEscrowRequest) :
    (storeEscrow c req).Ends (handler c w) s fun o s' =>
      ∃ err, o = some err ∧ (err = none → (s'.escrow.get req.taskID).isSome) := by
  have hstored : ∀ {s₁ : Engine}, (do
      perform (.putEscrow req)
      setTaskStatus (escrowStatus req.taskID req.service req.error req.producerNodeID)
      return none : Call Action (Option GoError)).Ends (handler c w) s₁ fun o s' =>
        ∃ err, o = some err ∧ (err = none → (s'.escrow.get req.taskID).isSome) := by
    intro s₁
    refine ends_perform_bind.2 (setTaskStatus_bind.2 ⟨none, rfl, fun _ => ?_⟩)
    change ((s₁.escrow.insert req).get req.taskID).isSome = true
    simp
  refine ends_perform_bind.2 ?_
  refine ends_bind.2 ?_
  split
  · refine ends_perform.2 (then_some.2 ?_)
    split
    · exact ⟨_, rfl, by simp⟩
    · exact hstored
  · exact hstored

theorem putTaskInEscrow_stores (req : TaskEscrowRequest) :
    (putTaskInEscrow c req).Ends (handler c w) s fun o s' =>
      ∃ err, o = some err ∧ (err = none → (s'.escrow.get req.taskID).isSome) := by
  unfold putTaskInEscrow
  split
  · exact ⟨_, rfl, by simp⟩
  · exact ends_perform_bind.2 (storeEscrow_stores _)

theorem sendEscrow_advances (coordinator : String) {req : TaskEscrowRequest} :
    (sendEscrow c coordinator req).Ends (handler c w) s fun o s' =>
      ∃ err, o = some err ∧ (err = none → Advanced c req.taskID s s') := by
  have hsent : ∀ msg, (do
      let err ← perform (.sendTaskEscrow coordinator req)
      return err.map (.wrapf msg []) : Call Action (Option GoError)).Ends (handler c w) s
        fun o s' => ∃ err, o = some err ∧ (err = none → Advanced c req.taskID s s') := by
    intro msg
    refine ends_perform_bind.2 ⟨_, rfl, fun hnone => ⟨[_], rfl, _, List.mem_singleton_self _, ?_⟩⟩
    have hok : w.sendTaskEscrow s.answers = none := Option.map_eq_none_iff.1 hnone
    rw [hok]
    rfl
  unfold sendEscrow
  split
  · exact hsent _
  split
  · exact hsent _
  · exact ⟨_, rfl, by simp⟩

/-- An escalation without an error puts the task into escrow, here or at its
coordinator. -/
theorem escalateToEscrow_progresses (t : TaskRequest) (step : PipelineStep) (stepIndex : ℤ)
    (cause : GoError) (here : Option PipelineStep) :
    (escalateToEscrow c t step stepIndex cause).Ends (handler c w) s fun o s' =>
      ∃ err, o = some err ∧ (err = none → Progresses c s s' t.taskID here) := by
  refine ends_perform_bind.2 ?_
  split
  · refine deleteAccepted_bind.2 ((putTaskInEscrow_stores _).mono ?_)
    rintro _ s' ⟨err, rfl, hstored⟩
    exact ⟨err, rfl, fun hnone => .escrowed (hstored hnone)⟩
  · refine Ends.bind (sendEscrow_advances _) ?_ ?_
    · rintro s' ⟨err, ⟨⟩, -⟩
    rintro _ s' ⟨err, ⟨⟩, hadvances⟩
    split
    · exact ⟨_, rfl, by simp⟩
    · refine deleteAccepted_bind.2 (setTaskStatus_bind.2 (ends_perform_bind.2 ?_))
      have hlogs : Engine.Logs (fun _ => True) s' (statusState c w (s'.released t.taskID)
          (escrowStatus t.taskID t.service cause.text c.nodeID)) := .of_eq rfl
      exact ⟨none, rfl, fun _ => .advanced ((hadvances rfl).before (hlogs.trans (exec_logs _ _)))⟩

/-- A task that no node takes goes to escrow, or it is failed. -/
theorem escalate_progresses (t : TaskRequest) (step : PipelineStep) (stepIndex : ℤ)
    (err : GoError) (here : Option PipelineStep) :
    (do
      let routed ← escalateOr c t step stepIndex err
      finishRoute c routed : Call Action Unit).Ends (handler c w) s
      fun _ s' => Progresses c s s' t.taskID here := by
  have hfailed : ∀ {s₁ : Engine}, (sendPipelineError c t err).Ends (handler c w) s₁
      fun _ s' => Progresses c s s' t.taskID here :=
    (sendPipelineError_concludes t err).mono fun _ _ h => .concluded h
  unfold escalateOr
  split
  · refine ends_bind.2 (Ends.bind (escalateToEscrow_progresses t step stepIndex err here) ?_ ?_)
    · rintro s' ⟨_, ⟨⟩, -⟩
    rintro _ s' ⟨err', ⟨⟩, hprogress⟩
    split
    · exact hprogress rfl
    · exact hfailed
  · exact hfailed

/-! ## Rounds -/

/-- A task whose step is pinned to this node, which lacks the service, while
nothing keeps the task from being queued. -/
@[mk_iff] structure Requeues (c : Node) (s : Engine) (id : String) (step : PipelineStep)
    (target : String) : Prop where
  self : target = c.nodeID
  missing : s.services.has step.service = false
  named : id ≠ ""
  isOpen : s.closed = false
  room : s.queue.length < queueCapacity
  unknown : ¬Concluded s id

theorem Engine.Same.requeues_iff (hsame : s.Same s') :
    Requeues c s' id step target ↔ Requeues c s id step target := by
  simp only [Compute.requeues_iff, hsame.services, hsame.closed, hsame.queue,
    concluded_congr hsame.statuses hsame.retired]

/-- Nothing has come of a task. -/
structure Unmoved (c : Node) (s s' : Engine) (id : String) : Prop where
  statuses : s'.tables.statuses = s.tables.statuses
  retired : s'.tables.retired = s.tables.retired
  escrow : s'.escrow = s.escrow
  logs : Engine.Logs (fun e => ¬e.Advances c id) s s'

theorem Engine.Same.unmoved (h : s.Same s') (id : String) : Unmoved c s s' id := by
  refine ⟨h.statuses, h.retired, h.escrow, h.logs ?_⟩
  rintro _ ⟨peer, query, rfl⟩ hadvances
  exact hadvances

theorem Unmoved.trans (h₁ : Unmoved c s₁ s₂ id) (h₂ : Unmoved c s₂ s₃ id) : Unmoved c s₁ s₃ id :=
  ⟨h₂.statuses.trans h₁.statuses, h₂.retired.trans h₁.retired, h₂.escrow.trans h₁.escrow,
    h₁.logs.trans h₂.logs⟩

/-- A task that was not settled before has not made progress. -/
theorem Unmoved.progresses_iff {step : Option PipelineStep} (h : Unmoved c s s' id)
    (hpinned : ∀ here, step = some here → s.services.has here.service = false) :
    Progresses c s s' id step ↔ Concluded s id ∨ (s.escrow.get id).isSome := by
  constructor
  · rintro (⟨new, hnew, e, he, hadvances⟩ | hescrowed | hconcluded | ⟨hstep, hhas, -⟩)
    · obtain ⟨new', hnew', hnone⟩ := h.logs
      obtain rfl := List.append_cancel_left (hnew.symm.trans hnew')
      exact absurd hadvances (hnone e he)
    · exact .inr (h.escrow ▸ hescrowed)
    · exact .inl ((concluded_congr h.statuses h.retired).1 hconcluded)
    · cases (hpinned _ hstep).symm.trans hhas
  · rintro (hconcluded | hescrowed)
    · exact .concluded ((concluded_congr h.statuses h.retired).2 hconcluded)
    · exact .escrowed (h.escrow ▸ hescrowed)

/-- The ways an attempt ends. -/
inductive AttemptOutcome (c : Node) (s : Engine) (t : TaskRequest) (step : PipelineStep)
    (target : String) : Option (Option GoError × TaskRequest) → Engine → Prop
  | requeued {t' : TaskRequest} {s' : Engine} (h : Requeues c s t.taskID step target)
      (hunmoved : Unmoved c s s' t.taskID) : AttemptOutcome c s t step target (some (none, t')) s'
  | panicked {s' : Engine} (hnot : ¬Requeues c s t.taskID step target) :
      AttemptOutcome c s t step target none s'
  | failed {err : GoError} {t' : TaskRequest} {s' : Engine}
      (hnot : ¬Requeues c s t.taskID step target) (htrail : Trail s s') :
      AttemptOutcome c s t step target (some (some err, t')) s'
  | progressed {t' : TaskRequest} {s' : Engine} (hnot : ¬Requeues c s t.taskID step target)
      (h : Progresses c s s' t.taskID (some step)) :
      AttemptOutcome c s t step target (some (none, t')) s'

theorem SendResult.trail {peerID : String} {req : TaskRequest}
    {o : Option (Option GoError × Option JsonMap)} (h : SendResult c w s peerID req o s') :
    Trail s s' := by
  cases h with
  | refused hsame => exact hsame.trail
  | sent hsame => exact hsame.trail.trans ⟨⟨[_], rfl, fun _ _ => trivial⟩, rfl, rfl⟩
  | @tracked sent payload s₁ hsame =>
    refine hsame.trail.trans ?_
    unfold trackedState
    split <;> exact ⟨⟨[_], rfl, fun _ _ => trivial⟩, rfl, rfl⟩

/-- A request that is sent without an error is with another node. -/
theorem SendResult.advanced {peerID : String} {req : TaskRequest} {payload : Option JsonMap}
    (h : SendResult c w s peerID req (some (none, payload)) s') (hpeer : peerID ≠ c.nodeID) :
    Advanced c req.taskID s s' := by
  generalize hout : some ((none : Option GoError), payload) = o at h
  cases h with
  | refused => cases hout
  | @sent sent _ s₁ hsame hrequester hsent =>
    have hnone : w.submitTask s₁.answers = none := (Prod.mk.inj (Option.some.inj hout)).1.symm
    refine Advanced.after hsame.trail.logs ⟨[_], rfl, _, List.mem_singleton_self _, ?_⟩
    rw [hnone]
    exact ⟨hpeer, hsent.taskID⟩
  | @tracked sent _ s₁ hsame hrequester hsent =>
    have hnone : w.submitTask (registeredState c w s₁ sent).answers = none :=
      (Prod.mk.inj (Option.some.inj hout)).1.symm
    unfold trackedState
    rw [hnone]
    refine Advanced.after hsame.trail.logs ⟨[_], rfl, _, List.mem_singleton_self _, ?_⟩
    rw [hnone]
    exact ⟨hpeer, hsent.taskID⟩

theorem AttemptOutcome.admitted {err : Option GoError} (hstate : t.pipelineState.isSome)
    (hid : t.taskID ≠ "")
    (h : AdmitResult (s.released t.taskID) (requestedBy c (targeted t step c.nodeID)) err s') :
    AttemptOutcome c s t step c.nodeID (some (err, targeted t step c.nodeID)) s' := by
  have htrail : Trail s (s.released t.taskID) := .of_eq rfl rfl rfl
  cases h with
  | closed hclosed => exact .failed (fun h => Bool.false_ne_true (h.isOpen.symm.trans hclosed)) htrail
  | known _ hknown => exact .progressed (fun h => h.unknown ⟨_, hknown⟩) (.concluded ⟨_, hknown⟩)
  | conflict _ hknown => exact .failed (fun h => h.unknown ⟨_, hknown⟩) htrail
  | enqueued hopen hunknown =>
    set req := requestedBy c (targeted t step c.nodeID)
    have hnew : (s.released t.taskID).tables.accepted.get req.taskID = none :=
      accepted_released s t.taskID
    simp only [Engine.enqueue, hnew]
    split
    · rename_i hroom
      cases hhas : s.services.has step.service with
      | true =>
        obtain ⟨st, hst⟩ := Option.isSome_iff_exists.1 hstate
        have hreq : req.pipelineState = some (st.setTarget step.id c.nodeID) := by
          simp [req, requestedBy, targeted, hst]
        refine .progressed (fun h => Bool.false_ne_true (h.missing.symm.trans hhas))
          (.pinned rfl hhas rfl rfl hreq ?_)
        rw [target_setTarget, if_pos rfl]
      | false =>
        refine .requeued ⟨rfl, hhas, hid, hopen, hroom, ?_⟩ ⟨rfl, rfl, rfl, [_], rfl, ?_⟩
        · rintro ⟨response, hknown⟩
          exact hunknown response hknown
        · simp [Event.Advances]
    next hfull => exact .failed (fun h => hfull h.room) htrail

theorem attempt_outcome (step : PipelineStep) (target : String) (hstate : t.pipelineState.isSome) :
    (attempt c t step target).Ends (handler c w) s (AttemptOutcome c s t step target) := by
  unfold attempt
  split
  · rename_i hself
    subst hself
    have hstate' : (targeted t step c.nodeID).pipelineState.isSome := by
      simpa [targeted] using hstate
    refine deleteAccepted_bind.2 (Ends.bind (submitTask_ends hstate') ?_ ?_)
    · rintro s' ⟨_, ⟨⟩, -⟩
    rintro _ s' ⟨err, ⟨⟩, ⟨hempty, herr, rfl⟩ | ⟨hid, hadmit⟩⟩
    · obtain ⟨err, rfl⟩ := Option.ne_none_iff_exists'.1 herr
      exact .failed (fun h => h.named hempty) (.of_eq rfl rfl rfl)
    · exact .admitted hstate hid hadmit
  · rename_i hremote
    have hnot : ¬Requeues c s t.taskID step target := fun h => hremote h.self
    refine Ends.bind (dispatchTask_ends target (targeted t step target))
      (fun _ _ => .panicked hnot) ?_
    rintro ⟨err, t'⟩ s' hresult
    generalize hout : some (err, t') = o at hresult
    cases hresult with
    | panicked => cases hout
    | unbound hbound hsame =>
      cases hout
      exact .failed hnot hsame.trail
    | @sent req shared err payload s₁ _ hbound hsame hsend =>
      cases hout
      cases err with
      | some err => exact .failed hnot (hsame.trail.trans hsend.trail)
      | none =>
        have hid : req.taskID = t.taskID := by rw [hbound.request_eq]; rfl
        refine deleteAccepted_bind.2 (.progressed hnot (.advanced ?_))
        have hadvanced := (hsend.advanced hremote).after hsame.trail.logs
        exact hid ▸ hadvanced.before (.of_eq rfl)

/-- The finder names this node only if the service is registered on it. -/
def HonestFinder (c : Node) (w : World) : Prop :=
  ∀ n query, w.serviceFinder n query false ≠ .ok c.nodeID

theorem MayRun.not_requeues (h : target = c.nodeID → MayRun c w s step)
    (hhonest : HonestFinder c w) (hservices : s'.services = s.services) :
    ¬Requeues c s' id step target := by
  intro hrequeues
  rcases h hrequeues.self with hhas | ⟨n, query, hfound⟩
  · simp [← hservices, hrequeues.missing] at hhas
  · exact hhonest n query hfound

/-- The ways the rounds of a task end. -/
inductive RoundsOutcome (c : Node) (s : Engine) (t : TaskRequest) (step : PipelineStep)
    (target : String) : Option Dispatched → Engine → Prop
  | requeued {s' : Engine} (h : Requeues c s t.taskID step target)
      (hunmoved : Unmoved c s s' t.taskID) : RoundsOutcome c s t step target (some .handed) s'
  | panicked {s' : Engine} (hnot : ¬Requeues c s t.taskID step target) :
      RoundsOutcome c s t step target none s'
  | progressed {s' : Engine} (hnot : ¬Requeues c s t.taskID step target)
      (h : Progresses c s s' t.taskID (some step)) :
      RoundsOutcome c s t step target (some .handed) s'
  | unconfigured {t' : TaskRequest} {s' : Engine} (hnot : ¬Requeues c s t.taskID step target)
      (hid : t'.taskID = t.taskID) : RoundsOutcome c s t step target (some (.unconfigured t')) s'
  | exhausted {t' : TaskRequest} {s' : Engine} (hnot : ¬Requeues c s t.taskID step target)
      (hid : t'.taskID = t.taskID) (htrail : Trail s s') :
      RoundsOutcome c s t step target (some (.exhausted t')) s'

theorem RoundsOutcome.after {t' : TaskRequest} {next : String} {o : Option Dispatched}
    (hnot : ¬Requeues c s t.taskID step target) (htrail : Trail s s₁)
    (hid : t'.taskID = t.taskID) (hnext : ¬Requeues c s₁ t'.taskID step next)
    (h : RoundsOutcome c s₁ t' step next o s') : RoundsOutcome c s t step target o s' := by
  cases h with
  | requeued hrequeues => exact absurd hrequeues hnext
  | panicked => exact .panicked hnot
  | progressed _ hprogress => exact .progressed hnot (.after htrail (hid ▸ hprogress))
  | unconfigured _ hid' => exact .unconfigured hnot (hid'.trans hid)
  | exhausted _ hid' htrail' => exact .exhausted hnot (hid'.trans hid) (htrail.trans htrail')

theorem failover_outcome (hhonest : HonestFinder c w) (step : PipelineStep) (stepIndex : ℤ)
    (rounds : ℕ) (triedPeers : List String) (target : String) (hstate : t.pipelineState.isSome)
    (hrounds : rounds = 0 → ¬Requeues c s t.taskID step target) :
    (failover c step stepIndex rounds triedPeers target t).Ends (handler c w) s
      (RoundsOutcome c s t step target) := by
  induction rounds generalizing s triedPeers target t with
  | zero => exact .exhausted (hrounds rfl) rfl (.of_eq rfl rfl rfl)
  | succ rounds ih =>
    unfold failover
    split
    next hremote => exact .unconfigured (fun h => hremote.1 h.self) rfl
    refine Ends.bind ((attempt_outcome step target hstate).and
      (attempt_request step target hstate)) ?_ ?_
    · rintro s₁ ⟨houtcome, -⟩
      cases houtcome with
      | panicked hnot => exact .panicked hnot
    rintro ⟨err, t'⟩ s₁ ⟨houtcome, hrequest⟩
    have hkept : SameRequest t t' := hrequest err t' rfl
    cases houtcome with
    | requeued hrequeues hunmoved => exact .requeued hrequeues hunmoved
    | progressed hnot hprogress => exact .progressed hnot hprogress
    | failed hnot htrail =>
      refine Ends.bind (Obeys.prepared (findAlternative_prepares step stepIndex _)) ?_ ?_
      · rintro s₂ ⟨⟨_, ⟨⟩, -⟩, -⟩
      rintro next s₂ ⟨⟨_, ⟨⟩, hnext⟩, hsame⟩
      have htrail₂ : Trail s s₂ := htrail.trans hsame.trail
      split
      · exact .exhausted hnot hkept.taskID htrail₂
      rename_i hne
      have htrail₃ : Trail s (exec c w (.delegateProducers t'.taskID [next]) s₂).2 :=
        htrail₂.trans (.of_eq rfl rfl rfl)
      have hnot₃ : ¬Requeues c (exec c w (.delegateProducers t'.taskID [next]) s₂).2 t'.taskID step
          next := MayRun.not_requeues (fun hself => hnext hself hne) hhonest hsame.services
      exact ends_perform_bind.2 ((ih _ next hkept.state fun _ => hnot₃).mono
        fun o s' hrest => hrest.after hnot htrail₃ hkept.taskID hnot₃)

/-! ## Routing -/

/-- A task that is blocked is only queued again; otherwise it makes progress, unless there is
a panic. -/
inductive Outcome (blocked : Prop) (c : Node) (s : Engine) (id : String)
    (step : Option PipelineStep) (o : Option Unit) (s' : Engine) : Prop
  | requeued (h : blocked) (hunmoved : Unmoved c s s' id)
  | moved (hnot : ¬blocked) (h : o = none ∨ Progresses c s s' id step)

theorem Outcome.after {blocked blocked' : Prop} {step : Option PipelineStep} {o : Option Unit}
    (hsame : s.Same s₁) (hblocked : blocked ↔ blocked') (h : Outcome blocked c s₁ id step o s') :
    Outcome blocked' c s id step o s' := by
  cases h with
  | requeued h hunmoved => exact .requeued (hblocked.1 h) ((hsame.unmoved _).trans hunmoved)
  | moved hnot h => exact .moved (mt hblocked.2 hnot) (h.imp_right (.after hsame.trail))

theorem routeTo_outcome (hhonest : HonestFinder c w) (step : PipelineStep) (stepIndex : ℤ)
    (target : String) (hstate : t.pipelineState.isSome) :
    (routeTo c t step stepIndex target).Ends (handler c w) s
      (Outcome (Requeues c s t.taskID step target) c s t.taskID (some step)) := by
  refine ends_delegateTo.2 (ends_bind.2 (ends_delegateTo.2 ?_))
  set s₁ := ((delegateTo t.taskID target).prog.run (handler c w)
    ((delegateTo t.taskID target).prog.run (handler c w) s).2).2
  have hsame : s.Same s₁ := (same_delegateTo _ _).trans (same_delegateTo _ _)
  have hmoved : ∀ {o s'}, ¬Requeues c s₁ t.taskID step target →
      o = none ∨ Progresses c s₁ s' t.taskID (some step) →
      Outcome (Requeues c s t.taskID step target) c s t.taskID (some step) o s' :=
    fun hnot h => .after hsame hsame.requeues_iff (.moved hnot h)
  refine Ends.bind (failover_outcome hhonest step stepIndex 3 [] target hstate (by simp)) ?_ ?_
  · intro s₂ houtcome
    cases houtcome with
    | panicked hnot => exact hmoved hnot (.inl rfl)
  intro dispatched s₂ houtcome
  cases houtcome with
  | requeued hrequeues hunmoved =>
    exact .requeued (hsame.requeues_iff.1 hrequeues) ((hsame.unmoved _).trans hunmoved)
  | progressed hnot hprogress => exact hmoved hnot (.inr hprogress)
  | @unconfigured t' _ hnot hid =>
    refine then_some.2 ((sendPipelineError_concludes t' _).mono fun _ s₃ hconcluded => ?_)
    exact hmoved hnot (.inr (.concluded (hid ▸ hconcluded)))
  | @exhausted t' _ hnot hid htrail =>
    refine ends_bind.1 ((escalate_progresses t' step stepIndex _ (some step)).mono ?_)
    exact fun _ s₃ hprogress => hmoved hnot (.inr (.after htrail (hid ▸ hprogress)))

/-- The step is pinned to a node that cannot run it and that queues the task again. -/
def Blocked (c : Node) (s : Engine) (id : String) :
    Option (PipelineStep × PipelineExecutionState) → Prop
  | none => False
  | some (step, state) => state.target step.id ≠ "" ∧
      Requeues c s id step (state.target step.id)

theorem routePipelineStep_outcome (hhonest : HonestFinder c w) (step : PipelineStep)
    (hstate : t.pipelineState = some state) :
    (routePipelineStep c t step).Ends (handler c w) s
      (Outcome (Blocked c s t.taskID (some (step, state))) c s t.taskID (some step)) := by
  unfold routePipelineStep
  simp only [hstate, Option.map_some, Option.getD_some]
  split
  · rename_i htarget
    refine (routeTo_outcome hhonest step _ _ (by simp [hstate])).mono fun o s' houtcome => ?_
    exact houtcome.after (.refl s) (by simp [Blocked, htarget])
  rename_i htarget
  have hfree : ¬Blocked c s t.taskID (some (step, state)) := fun h => htarget h.1
  have hselected : ∀ {s₁ : Engine} (stepIndex : ℤ) (target : String), s.Same s₁ →
      (target = c.nodeID → MayRun c w s step) →
      (routeTo c { t with pipelineState := some (state.setTarget step.id target) }
        step stepIndex target).Ends (handler c w) s₁
        (Outcome (Blocked c s t.taskID (some (step, state))) c s t.taskID (some step)) := by
    intro s₁ stepIndex target hsame hmay
    refine (routeTo_outcome hhonest step stepIndex target rfl).mono fun o s' houtcome => ?_
    exact houtcome.after hsame
      (iff_of_false (MayRun.not_requeues hmay hhonest hsame.services) hfree)
  refine Ends.bind (Obeys.prepared (selectPipelineStepTarget_prepares step _)) ?_ ?_
  · rintro s₁ ⟨⟨_, ⟨⟩, -⟩, -⟩
  rintro chosen s₁ ⟨⟨_, ⟨⟩, hchosen⟩, hsame⟩
  split
  next target => exact hselected _ target hsame (hchosen target rfl).mayRun
  · refine (getHandler_ends _).2 ?_
    split
    next hhas => exact hselected _ c.nodeID hsame fun _ => .inl (hsame.services ▸ hhas)
    · refine (escalate_progresses t step _ _ (some step)).mono fun o s' hprogress => ?_
      exact .moved hfree (.inr (.after hsame.trail hprogress))

/-! ## Running a step -/

theorem runStep_advances (t : TaskRequest) (schema : PipelineSchema)
    (state : PipelineExecutionState) (step : PipelineStep) :
    (runStep c t schema state step).Ends (handler c w) s fun o s' =>
      ∀ outputs, o = some (.ok outputs) → Advanced c t.taskID s s' := by
  refine Ends.bind (run_logs _) (by simp) ?_
  intro resolved s₁ hlogs₁
  split
  · exact ends_pure.2 (by simp)
  refine Ends.bind (run_logs _) (by simp) ?_
  intro verdict s₂ hlogs₂
  split
  · exact ends_pure.2 (by simp)
  refine ends_perform_bind.2 ?_
  split
  · exact ends_pure.2 (by simp)
  -- from here on the handler has been run
  refine (run_logs _).mono fun o s' hlogs outputs _ => ?_
  refine Advanced.before (Advanced.after (hlogs₁.trans hlogs₂) ?_) hlogs
  exact ⟨[_], rfl, _, List.mem_singleton_self _, rfl⟩

theorem executeStep_outcome (hhonest : HonestFinder c w)
    (hstate : t.pipelineState = some state) :
    (executeStep c t schema state step).Ends (handler c w) s
      (Outcome (Blocked c s t.taskID (some (step, state))) c s t.taskID (some step)) := by
  refine (getHandler_ends _).2 ?_
  split
  · rename_i hhas
    have hfree : ¬Blocked c s t.taskID (some (step, state)) := fun h =>
      Bool.false_ne_true (h.2.missing.symm.trans hhas.1)
    refine Ends.bind (runStep_advances t schema state step) (fun _ _ => .moved hfree (.inl rfl)) ?_
    intro result s₁ hadvances
    split
    · exact (sendPipelineError_concludes t _).mono fun _ _ h => .moved hfree (.inr (.concluded h))
    · refine (run_logs _).mono fun o s' hlogs => ?_
      exact .moved hfree (.inr (.advanced ((hadvances _ rfl).before hlogs)))
  · exact routePipelineStep_outcome hhonest step hstate

/-! ## Processing -/

/-- The request as a worker binds it. -/
def cleaned (t : TaskRequest) : TaskRequest :=
  { t with payload := some ((t.payload.getD []).filter fun e => e.1 ≠ "$pipeline") }

/-- The step of a definition that a state is at. -/
def stepHere (schema : PipelineSchema) (state : PipelineExecutionState) :
    Option (PipelineStep × PipelineExecutionState) :=
  (schema.stepAt state.currentStep).map fun step => (step, state)

/-- The step a task is at once it is bound, and its state. -/
def boundStep (c : Node) (w : World) (s : Engine) (t : TaskRequest) :
    Option (PipelineStep × PipelineExecutionState) :=
  match ((bindPipelineState c (cleaned t) (localSchema s t)).prog.run (handler c w) s).1 with
  | some ⟨.ok schema, bound, _⟩ => bound.pipelineState.bind (stepHere schema)
  | _ => none

/-- Processing the task only puts it back into the queue. -/
def Stuck (c : Node) (w : World) (s : Engine) (t : TaskRequest) : Prop :=
  Blocked c s t.taskID (boundStep c w s t)

/-- Nothing is left to do for a task. -/
def Settled (s : Engine) (id : String) : Prop := Concluded s id ∨ (s.escrow.get id).isSome

theorem executePipelineStep_outcome (hhonest : HonestFinder c w)
    (hstate : t.pipelineState = some state) :
    (executePipelineStep c t schema).Ends (handler c w) s
      (Outcome (Blocked c s t.taskID (stepHere schema state)) c s t.taskID
        (schema.stepAt state.currentStep)) := by
  unfold executePipelineStep
  rw [hstate, stepHere]
  dsimp only
  cases schema.stepAt state.currentStep with
  | none =>
    exact (sendPipelineError_concludes _ _).mono fun _ _ h => .moved id (.inr (.concluded h))
  | some step => exact executeStep_outcome hhonest rfl

/-- The ways processing a task ends. -/
inductive ProcessOutcome (c : Node) (w : World) (s : Engine) (t : TaskRequest) (o : Option Unit)
    (s' : Engine) : Prop
  | panicked (h : PanicsAtBind c s t) (hstep : boundStep c w s t = none)
      (hunmoved : Unmoved c s s' t.taskID)
  | bound (hbinds : ¬PanicsAtBind c s t) (h : Outcome (Stuck c w s t) c s t.taskID
      ((boundStep c w s t).map Prod.fst) o s')

theorem blocked_congr (hsame : s.Same s') (here : Option (PipelineStep × PipelineExecutionState)) :
    Blocked c s' id here ↔ Blocked c s id here := by
  unfold Blocked
  split
  · exact Iff.rfl
  · rw [hsame.requeues_iff]

theorem executePipelineStep_process (hhonest : HonestFinder c w) {bound : TaskRequest}
    (hid : bound.taskID = t.taskID) (hstate : bound.pipelineState = some state)
    (hhere : boundStep c w s t = stepHere schema state) (hbinds : ¬PanicsAtBind c s t)
    (hsame : s.Same s₁) :
    (executePipelineStep c bound schema).Ends (handler c w) s₁ (ProcessOutcome c w s t) := by
  have hfst : (boundStep c w s t).map Prod.fst = schema.stepAt state.currentStep := by
    rw [hhere, stepHere]
    cases schema.stepAt state.currentStep <;> rfl
  refine (executePipelineStep_outcome hhonest hstate).mono fun o s' houtcome => .bound hbinds ?_
  rw [hid] at houtcome
  rw [hfst]
  exact houtcome.after hsame (by rw [Stuck, hhere, blocked_congr hsame])

theorem processTask_outcome (hhonest : HonestFinder c w) (t : TaskRequest) :
    (processTask c t).Ends (handler c w) s (ProcessOutcome c w s t) := by
  have hbind : (bindPipelineState c (cleaned t) (localSchema s t)).Ends (handler c w) s
      fun o s' => (BindResult c s (cleaned t) (localSchema s t) o ∧ s.Same s') ∧
        ((bindPipelineState c (cleaned t) (localSchema s t)).prog.run (handler c w) s).1 = o :=
    (Obeys.prepared (bindPipelineState_prepares (cleaned t) (localSchema s t))).and rfl
  refine (registeredOrCarried_ends _ _).2 (Ends.bind hbind ?_ ?_)
  · rintro s' ⟨⟨hresult, hsame⟩, hrun⟩
    exact .panicked hresult.panics (by rw [boundStep, hrun]) (hsame.unmoved _)
  rintro bound s₁ ⟨⟨hresult, hsame⟩, hrun⟩
  have hbinds : ¬PanicsAtBind c s t := fun h => hresult.not_panics h
  have hfailed : ∀ {req : TaskRequest} {err : GoError}, req.taskID = t.taskID →
      boundStep c w s t = none →
      (sendPipelineError c req err).Ends (handler c w) s₁ (ProcessOutcome c w s t) := by
    intro req err hid hnone
    refine (sendPipelineError_concludes req err).mono fun o s' hconcluded => ?_
    refine .bound hbinds (.moved ?_ (.inr (.concluded (hid ▸ hconcluded))))
    rw [Stuck, hnone]
    exact id
  cases hresult with
  | fresh hstate =>
    exact executePipelineStep_process hhonest rfl rfl (by rw [boundStep, hrun]; rfl) hbinds hsame
  | refused _ | rejected _ => exact hfailed rfl (by rw [boundStep, hrun])
  | bound =>
    exact executePipelineStep_process hhonest rfl rfl (by rw [boundStep, hrun]; rfl) hbinds hsame

/-- If the finder names this node only for services it has, then processing a task
comes to something, unless the binding panics or the current step is pinned to
this node and its service is not registered here. -/
theorem processing_progresses_iff (c : Node) (w : World) (s : Engine) (t : TaskRequest)
    (hfits : FitsMemory s t) (hhonest : HonestFinder c w) :
    Progresses c s ((processTask c t).prog.run (handler c w) s).2 t.taskID
        ((boundStep c w s t).map Prod.fst) ↔
      Settled s t.taskID ∨ (¬PanicsAtBind c s t ∧ ¬Stuck c w s t) := by
  obtain ⟨houtcome, hreturns⟩ :=
    (processTask_outcome (s := s) hhonest t).and (processTask_returns (c := c) (w := w) hfits)
  cases houtcome with
  | panicked hpanics hstep hunmoved =>
    rw [hunmoved.progresses_iff (by simp [hstep]), ← Settled]
    simp [hpanics]
  | bound hbinds houtcome =>
    cases houtcome with
    | requeued hstuck hunmoved =>
      rw [hunmoved.progresses_iff ?_, ← Settled]
      · simp [hstuck]
      · intro here hhere
        obtain ⟨⟨step, state⟩, hbound, rfl⟩ := Option.map_eq_some_iff.1 hhere
        rw [Stuck, hbound] at hstuck
        exact hstuck.2.missing
    | moved hnot hmoved =>
      refine iff_of_true ?_ (.inr ⟨hbinds, hnot⟩)
      rcases hmoved with hnone | hprogress
      · exact absurd (hreturns.2 hbinds) (by rw [hnone]; simp)
      · exact hprogress

/-- A node where a pipeline is registered, but not the service of its step. -/
def unequippedNode : Engine :=
  ((Engine.new .empty).applyPipelineRevision (.named "a") (revised 1)).2

/-- A request of node `b` whose only step is pinned to a node. -/
def pinnedRequest (target : String) : TaskRequest where
  taskID := "t"
  service := "p"
  requesterNodeID := "b"
  payload := some []
  expectedProducerNodeID := target
  pipelineState := some
    { pipelineID := "p", pipelineVersion := 1, schemaHash := "only", currentStep := 0
      outputs := some []
      outputProducers := some [("$initial", "b")], selectedTargets := some [("only", target)]
      snapshot := some (revised 1) }

/-- A task that the node has taken from its queue and whose service it has. -/
theorem processing_progresses_iff_first :
    FitsMemory revisedNode (requestAt 0) ∧ HonestFinder (.named "a") .quiet ∧
      (Progresses (.named "a") revisedNode ((processTask (.named "a") (requestAt 0)).prog.run
          (handler (.named "a") .quiet) revisedNode).2 "t"
          ((boundStep (.named "a") .quiet revisedNode (requestAt 0)).map Prod.fst) ↔
        Settled revisedNode "t" ∨ (¬PanicsAtBind (.named "a") revisedNode (requestAt 0) ∧
          ¬Stuck (.named "a") .quiet revisedNode (requestAt 0))) := by
  have hhonest : HonestFinder (.named "a") .quiet := by
    intro n query h
    simp [World.quiet] at h
  exact ⟨fitsMemory_requestAt 0, hhonest,
    processing_progresses_iff _ _ _ _ (fitsMemory_requestAt 0) hhonest⟩

/-- A step pinned to a node without its service: the worker puts the request back
into its own queue as it was, so it will take it out again. -/
theorem pinned_task_is_requeued :
    let node : Engine := { unequippedNode with queue := [pinnedRequest "a"] }
    let worked := (worker (.named "a")).prog.run (handler (.named "a") .quiet) node
    worked.1 = some () ∧ worked.2.queue.map (deepEqual (pinnedRequest "a")) = [true] ∧
      worked.2.tables.reported "t" = none ∧ (worked.2.escrow.get "t").isNone ∧
      (worked.2.trace matches [.queued _]) := by
  decide +kernel

end Proxyma.Compute
