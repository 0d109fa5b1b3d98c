import Proxyma.Compute.Preparation

/-!
# Handing a task on

What `admitTask` and `dispatchTask` do to the state of a node, each in one
predicate.  A task is put into the queue of this node unless it is known to have
ended.  A task that a peer is to run and that is refused before it is sent leaves
all tasks where they are.  A task that is sent is sent exactly once, and what it is
sent as is `SentAs`.  If the requester is this node, the task is registered before
it is sent and marked as failed if the peer does not take it (`trackedState`).
-/

namespace Proxyma.Compute

open Keyed Atomic Atomic.Call GoError

variable {c : Node} {w : World} {s : Engine} {β : Type} {g : Unit → Call Action β}
  {peerID taskID : String} {req' : TaskRequest}
variable {response : ServiceTaskResponse} {req : TaskRequest} {target : String}

/-! ## Single actions -/

/-- The state after `setTaskStatus`. -/
def statusState (c : Node) (w : World) (s : Engine) (response : ServiceTaskResponse) : Engine :=
  (exec c w (.setTaskStatus
    (if s.closed then markTaskFailedShape response Engine.errClosed.text else response)) s).2

theorem setTaskStatus_ends {post : Option Unit → Engine → Prop} :
    (setTaskStatus response).Ends (handler c w) s post ↔
      post (some ()) (statusState c w s response) := Iff.rfl

variable {post : Option β → Engine → Prop}

theorem setTaskStatus_bind :
    (setTaskStatus response >>= g).Ends (handler c w) s post ↔
      (g ()).Ends (handler c w) (statusState c w s response) post := Iff.rfl

/-- The state without the accepted entry of a task. -/
def Engine.released (s : Engine) (taskID : String) : Engine :=
  s.withTables (s.tables.deleteAccepted taskID)

@[simp] theorem accepted_released (s : Engine) (taskID : String) :
    (s.released taskID).tables.accepted.get taskID = none := by
  simp [Engine.released, Engine.withTables, TaskTables.deleteAccepted]

theorem deleteAccepted_bind :
    (perform (.deleteAccepted taskID) >>= g).Ends (handler c w) s post ↔
      (g ()).Ends (handler c w) (s.released taskID) post := Iff.rfl

/-- The state after a request has been sent to a peer. -/
def submittedState (w : World) (s : Engine) (peerID : String) (req : TaskRequest) : Engine :=
  s.answered.logged (.submitted peerID req (w.submitTask s.answers))

/-- The state after a request has been registered as outgoing. -/
def registeredState (c : Node) (w : World) (s : Engine) (req : TaskRequest) : Engine :=
  (exec c w (.registerOutgoingTask req ((req.pipelineState.map fun state =>
    stepProducers state (sentSchema s req.service req.pipelineState)).getD [])) s).2

theorem registerOutgoingTask_bind :
    (registerOutgoingTask req >>= g).Ends (handler c w) s post ↔
      (g ()).Ends (handler c w) (registeredState c w s req) post := by
  unfold registerOutgoingTask registeredState
  split
  · rename_i hnone
    rw [hnone]
    rfl
  · rename_i state hstate
    rw [hstate]
    rfl

/-- The state after a tracked request has been sent. -/
def trackedState (c : Node) (w : World) (s : Engine) (peerID : String) (req : TaskRequest) :
    Engine :=
  let sent := submittedState w (registeredState c w s req) peerID req
  match w.submitTask (registeredState c w s req).answers with
  | none => sent
  | some err => statusState c w sent (failedTaskResponse req.taskID req.service err.text)

/-! ## The local queue -/

/-- A task is reported as ended in the active table. -/
def Ended (s : Engine) (taskID : String) (response : ServiceTaskResponse) : Prop :=
  s.tables.statuses.get taskID = some response ∧ isTerminalTaskStatus response.status = true

/-- The response under which `admitTask` knows a task: one that ended, or a retired
one. -/
def KnownAs (s : Engine) (taskID : String) (response : ServiceTaskResponse) : Prop :=
  Ended s taskID response ∨
    (∀ active, ¬Ended s taskID active) ∧ s.tables.retired.get taskID = some response

theorem KnownAs.unique {response' : ServiceTaskResponse} (h : KnownAs s taskID response)
    (h' : KnownAs s taskID response') : response = response' := by
  rcases h with hended | ⟨hnone, hretired⟩
  · rcases h' with hended' | ⟨hnone', -⟩
    · exact Option.some.inj (hended.1.symm.trans hended'.1)
    · exact absurd hended (hnone' response)
  · rcases h' with hended' | ⟨-, hretired'⟩
    · exact absurd hended' (hnone response')
    · exact Option.some.inj (hretired.symm.trans hretired')

/-- The ways `admitTask` ends. -/
inductive AdmitResult (s : Engine) (req : TaskRequest) : Option GoError → Engine → Prop
  | closed (hclosed : s.closed = true) : AdmitResult s req (some Engine.errClosed) s
  | known {response : ServiceTaskResponse} (hopen : s.closed = false)
      (hknown : KnownAs s req.taskID response) (hservice : response.service = req.service) :
      AdmitResult s req none s
  | conflict {response : ServiceTaskResponse} {err : GoError} (hopen : s.closed = false)
      (hknown : KnownAs s req.taskID response) (hservice : response.service ≠ req.service) :
      AdmitResult s req (some err) s
  | enqueued (hopen : s.closed = false) (hunknown : ∀ response, ¬KnownAs s req.taskID response) :
      AdmitResult s req (s.enqueue req).1 (s.enqueue req).2

theorem admitTask_ends (req : TaskRequest) :
    (admitTask req).Ends (handler c w) s fun o s' => ∃ err, o = some err ∧
      AdmitResult s req err s' := by
  refine ends_perform_bind.2 ?_
  split
  next hclosed => exact ⟨_, rfl, .closed hclosed⟩
  rename_i hclosed
  have hopen : s.closed = false := Bool.eq_false_iff.2 hclosed
  refine ends_perform_bind.2 ?_
  split
  · rename_i response hresponse
    obtain ⟨hget, hterminal⟩ := Option.filter_eq_some_iff.1 hresponse
    have hknown : KnownAs s req.taskID response := .inl ⟨hget, hterminal⟩
    split
    next hservice => exact ⟨_, rfl, .known hopen hknown hservice⟩
    next hservice => exact ⟨_, rfl, .conflict hopen hknown hservice⟩
  rename_i hnone
  have hactive : ∀ active, ¬Ended s req.taskID active := by
    rintro active ⟨hget, hterminal⟩
    exact Option.filter_eq_none_iff.1 hnone active hget hterminal
  refine ends_perform_bind.2 ?_
  split
  · rename_i response hretired
    have hknown : KnownAs s req.taskID response := .inr ⟨hactive, hretired⟩
    split
    next hservice => exact ⟨_, rfl, .known hopen hknown hservice⟩
    next hservice => exact ⟨_, rfl, .conflict hopen hknown hservice⟩
  rename_i hretired
  refine ⟨_, rfl, .enqueued hopen ?_⟩
  rintro response (hended | ⟨-, hsome⟩)
  · exact hactive response hended
  · cases hretired.symm.trans hsome

/-- A request whose task has not been accepted is queued if there is room. -/
theorem enqueue_cases (hnew : s.tables.accepted.get req.taskID = none) :
    (∃ err, (s.enqueue req).1 = some err ∧ (s.enqueue req).2 = s) ∨
      ((s.enqueue req).1 = none ∧ (s.enqueue req).2.queue = s.queue ++ [req] ∧
        (s.enqueue req).2.escrow = s.escrow) := by
  simp only [Engine.enqueue, hnew]
  split
  · exact .inr ⟨rfl, rfl, rfl⟩
  · exact .inl ⟨_, rfl, rfl⟩

/-- The request with this node as its requester if it names none. -/
def requestedBy (c : Node) (req : TaskRequest) : TaskRequest :=
  { req with
    requesterNodeID := if req.requesterNodeID = "" then c.nodeID else req.requesterNodeID }

theorem submitTask_ends (hstate : req.pipelineState.isSome) :
    (submitTask c req).Ends (handler c w) s fun o s' => ∃ err, o = some err ∧
      ((req.taskID = "" ∧ err ≠ none ∧ s' = s) ∨
        (req.taskID ≠ "" ∧ AdmitResult s (requestedBy c req) err s')) := by
  unfold submitTask
  split
  next hempty => exact ⟨_, rfl, .inl ⟨hempty, by simp, rfl⟩⟩
  · rename_i hid
    rw [if_neg (by simpa [Option.isSome_iff_ne_none] using hstate)]
    refine (admitTask_ends (requestedBy c req)).mono ?_
    rintro _ s' ⟨err, rfl, hadmit⟩
    exact ⟨err, rfl, .inr ⟨hid, hadmit⟩⟩

/-! ## Sending -/

/-- What a bound request is sent as: its step is pinned to the peer, and perhaps
other steps have been given nodes. -/
structure SentAs (s : Engine) (peerID : String) (req sent : TaskRequest) : Prop where
  taskID : sent.taskID = req.taskID
  service : sent.service = req.service
  requester : sent.requesterNodeID = req.requesterNodeID
  replyTo : sent.replyTo = req.replyTo
  expected : sent.expectedProducerNodeID = req.expectedProducerNodeID
  none : req.pipelineState = none → sent.pipelineState = none
  some : ∀ state, req.pipelineState = some state →
    ∃ state', sent.pipelineState = some state' ∧ Retargeted state state' ∧
      ∀ schema, sentSchema s req.service req.pipelineState = some schema →
        ∃ step, schema.stepAt state.currentStep = some step ∧ state'.target step.id = peerID ∧
          peerID ≠ ""

theorem PinResult.sentAs (h : PinResult s req target req') (payload : Option JsonMap) :
    SentAs s target req { req' with payload := payload } := by
  cases h with
  | plain hplain =>
    refine ⟨rfl, rfl, rfl, rfl, rfl, id, fun state hstate => ⟨state, hstate, .refl state, ?_⟩⟩
    intro schema hschema
    cases (hplain state hstate).symm.trans hschema
  | @pinned state step hstate hstep htarget =>
    refine ⟨rfl, rfl, rfl, rfl, rfl, fun hnone => ?_, fun state' hstate' => ?_⟩
    · cases hstate.symm.trans hnone
    · cases hstate.symm.trans hstate'
      refine ⟨_, rfl, retargeted_setTarget state step.id target, fun schema hschema => ?_⟩
      rw [sentStep, hschema, hstate] at hstep
      exact ⟨step, hstep, by rw [target_setTarget, if_pos rfl], htarget⟩

/-- Filling in other nodes does not change where the step goes. -/
theorem SentAs.filled {sent sent' : TaskRequest} (h : SentAs s peerID req sent)
    (hfilled : FilledRequest sent sent') : SentAs s peerID req sent' := by
  have heq := hfilled.eq
  refine ⟨?_, ?_, ?_, ?_, ?_, fun hnone => hfilled.none (h.none hnone), fun state hstate => ?_⟩
  · rw [heq]
    exact h.taskID
  · rw [heq]
    exact h.service
  · rw [heq]
    exact h.requester
  · rw [heq]
    exact h.replyTo
  · rw [heq]
    exact h.expected
  obtain ⟨state', hstate', hretargeted, hpinned⟩ := h.some state hstate
  obtain ⟨state'', hstate'', hfill⟩ := hfilled.some state' hstate'
  refine ⟨state'', hstate'', hretargeted.trans hfill.retargeted, fun schema hschema => ?_⟩
  obtain ⟨step, hstep, htarget, hpeer⟩ := hpinned schema hschema
  refine ⟨step, hstep, ?_, hpeer⟩
  rw [hfill.kept step.id (htarget ▸ hpeer), htarget]

/-- The ways a bound request is sent. -/
inductive SendResult (c : Node) (w : World) (s : Engine) (peerID : String) (req : TaskRequest) :
    Option (Option GoError × Option JsonMap) → Engine → Prop
  | refused {err : GoError} {payload : Option JsonMap} {s' : Engine} (hsame : s.Same s') :
      SendResult c w s peerID req (some (some err, payload)) s'
  | sent {sent : TaskRequest} {payload : Option JsonMap} {s' : Engine} (hsame : s.Same s')
      (hrequester : req.requesterNodeID ≠ c.nodeID) (hsent : SentAs s peerID req sent) :
      SendResult c w s peerID req (some (w.submitTask s'.answers, payload))
        (submittedState w s' peerID sent)
  | tracked {sent : TaskRequest} {payload : Option JsonMap} {s' : Engine} (hsame : s.Same s')
      (hrequester : req.requesterNodeID = c.nodeID) (hsent : SentAs s peerID req sent) :
      SendResult c w s peerID req
        (some (w.submitTask (registeredState c w s' sent).answers, payload))
        (trackedState c w s' peerID sent)

theorem submitTrackedTask_ends {post : Option (Option GoError) → Engine → Prop}
    (hrefused : ∀ err s', s.Same s' → post (some (some err)) s')
    (htracked : ∀ s' sent, s.Same s' → FilledRequest req sent →
      post (some (w.submitTask (registeredState c w s' sent).answers)) (trackedState c w s' peerID sent)) :
    (submitTrackedTask c req fun prepared => perform (.submitToPeer peerID prepared)).Ends
      (handler c w) s post := by
  refine Ends.bind (Obeys.prepared (preparePipelineTargets_asks req).prepares) ?_ ?_
  · rintro s' ⟨⟨out, hout, -⟩, -⟩
    cases hout
  rintro ⟨err, sent⟩ s' ⟨⟨_, ⟨⟩, hfilled⟩, hsame⟩
  dsimp only
  split
  · exact hrefused _ s' hsame
  refine registerOutgoingTask_bind.2 (ends_perform_bind.2 ?_)
  have hend := htracked s' sent hsame hfilled
  unfold trackedState at hend
  split
  · rename_i err herr
    have hfailed : w.submitTask (registeredState c w s' sent).answers = some err := herr
    rw [hfailed] at hend
    exact setTaskStatus_bind.2 hend
  · rename_i herr
    have hok : w.submitTask (registeredState c w s' sent).answers = none := herr
    rwa [hok] at hend

theorem sendTask_ends (peerID : String) (req : TaskRequest) :
    (sendTask c peerID req).Ends (handler c w) s (SendResult c w s peerID req) := by
  refine Ends.bind (Obeys.prepared (bindPipelineStepTarget_prepares req peerID)) ?_ ?_
  · rintro s' ⟨⟨out, hout, -⟩, -⟩
    simp at hout
  rintro ⟨err, pinned⟩ s₁ ⟨⟨_, ⟨⟩, hpinned, -⟩, hsame₁⟩
  dsimp only
  split
  · exact .refused hsame₁
  have hsent : ∀ payload, SentAs s peerID req { pinned with payload := payload } :=
    (hpinned rfl).sentAs
  refine ends_perform_bind.2 ?_
  have hsame₂ : s.Same (exec c w (.stage pinned.payload) s₁).2 := hsame₁.trans (same_exec c w _ _ rfl)
  split
  · exact .refused hsame₂
  refine Ends.bind (Obeys.prepared (verifyContinuation_asks peerID _).prepares) ?_ ?_
  · rintro s' ⟨⟨out, hout⟩, -⟩
    simp at hout
  rintro verdict s₃ ⟨-, hsame₃⟩
  have hsame := hsame₂.trans hsame₃
  split
  · exact .refused hsame
  split
  · rename_i hrequester
    refine ends_bind.2 ?_
    refine .sent hsame ?_ (hsent _)
    rwa [← (hsent none).requester]
  · rename_i hrequester
    refine ends_bind.2 (submitTrackedTask_ends ?_ ?_)
    · intro err s' hsame'
      exact .refused (hsame.trans hsame')
    · intro s' sent hsame' hfilled
      refine .tracked (hsame.trans hsame') ?_ ((hsent _).filled hfilled)
      rw [← (hsent none).requester]
      exact not_not.1 hrequester

/-! ## Dispatching -/

/-- The request as it is bound before it is sent to a peer. -/
def outgoing (c : Node) (peerID : String) (caller : TaskRequest) : TaskRequest :=
  { caller with
    requesterNodeID := if caller.requesterNodeID = "" then c.nodeID else caller.requesterNodeID
    expectedProducerNodeID := peerID }

/-- The ways `dispatchTask` ends. -/
inductive DispatchResult (c : Node) (w : World) (s : Engine) (peerID : String)
    (caller : TaskRequest) : Option (Option GoError × TaskRequest) → Engine → Prop
  | panicked {schema : PipelineSchema} {s' : Engine}
      (hschema : sentSchema s caller.service caller.pipelineState = some schema)
      (hpanics : BindPanics c s (outgoing c peerID caller) schema) (hsame : s.Same s') :
      DispatchResult c w s peerID caller none s'
  | unbound {err : GoError} {req : TaskRequest} {shared : Option PipelineExecutionState}
      {s' : Engine} (hbound : TaskBindResult c s (outgoing c peerID caller)
        (some (some err, req, shared))) (hsame : s.Same s') :
      DispatchResult c w s peerID caller
        (some (some (.wrapf "bind pipeline task: %w" [] err),
          { caller with pipelineState := shared })) s'
  | sent {req : TaskRequest} {shared : Option PipelineExecutionState} {err : Option GoError}
      {payload : Option JsonMap} {s₁ s' : Engine}
      (hbound : TaskBindResult c s (outgoing c peerID caller) (some (none, req, shared)))
      (hsame : s.Same s₁) (hsend : SendResult c w s₁ peerID req (some (err, payload)) s') :
      DispatchResult c w s peerID caller
        (some (err, { caller with pipelineState := shared, payload := payload })) s'

theorem dispatchTask_ends (peerID : String) (caller : TaskRequest) :
    (dispatchTask c peerID caller).Ends (handler c w) s (DispatchResult c w s peerID caller) := by
  refine Ends.bind (Obeys.prepared (bindPipelineTask_prepares (outgoing c peerID caller))) ?_ ?_
  · rintro s' ⟨hresult, hsame⟩
    generalize hnone : (none : Option (Option GoError × TaskRequest ×
      Option PipelineExecutionState)) = o at hresult
    cases hresult with
    | plain => cases hnone
    | bound hschema hresult =>
      obtain rfl := Option.map_eq_none_iff.1 hnone.symm
      exact .panicked hschema hresult.panics hsame
  rintro ⟨err, req, shared⟩ s₁ ⟨hresult, hsame⟩
  dsimp only
  split
  · exact .unbound hresult hsame
  refine Ends.bind (sendTask_ends peerID req) ?_ ?_
  · intro s' hsend
    cases hsend
  · rintro ⟨err, payload⟩ s' hsend
    exact .sent hresult hsame hsend

/-! ## Rounds -/

theorem ends_delegateTo {id : String} :
    (delegateTo id target >>= g).Ends (handler c w) s post ↔
      (g ()).Ends (handler c w) ((delegateTo id target).prog.run (handler c w) s).2 post := by
  unfold delegateTo
  split <;> exact Iff.rfl

theorem same_delegateTo (taskID target : String) :
    s.Same ((delegateTo taskID target).prog.run (handler c w) s).2 := by
  unfold delegateTo
  split
  · exact same_exec c w (.delegateProducers taskID [target]) s rfl
  · exact .refl s

theorem TaskBindResult.shared_isSome {err : Option GoError} {shared : Option PipelineExecutionState}
    (h : TaskBindResult c s req (some (err, req', shared))) (hstate : req.pipelineState.isSome) :
    shared.isSome := by
  generalize hout : some (err, req', shared) = o at h
  cases h with
  | plain hschema =>
    cases hout
    exact hstate
  | bound hschema hresult =>
    obtain ⟨bound, rfl, hbound⟩ := Option.map_eq_some_iff.1 hout.symm
    obtain ⟨-, -, rfl⟩ := hbound
    cases hresult with
    | fresh hnone => simp [hnone] at hstate
    | refused | rejected | bound => rfl

/-- A request for the same task. -/
structure SameRequest (t t' : TaskRequest) : Prop where
  taskID : t'.taskID = t.taskID
  service : t'.service = t.service
  requester : t'.requesterNodeID = t.requesterNodeID
  state : t'.pipelineState.isSome

theorem attempt_request {t : TaskRequest} (step : PipelineStep) (target : String)
    (hstate : t.pipelineState.isSome) :
    (attempt c t step target).Ends (handler c w) s fun o _ =>
      ∀ err t', o = some (err, t') → SameRequest t t' := by
  have htargeted : ∀ p, (targeted t step p).pipelineState.isSome := by
    simpa [targeted] using hstate
  unfold attempt
  split
  · refine deleteAccepted_bind.2 (Ends.bind (submitTask_ends (htargeted _)) ?_ ?_)
    · rintro s' ⟨err, ⟨⟩, -⟩
    · rintro err s' -
      refine ends_pure.2 ?_
      rintro _ _ ⟨⟩
      exact ⟨rfl, rfl, rfl, htargeted _⟩
  · refine Ends.bind (dispatchTask_ends target (targeted t step target)) ?_ ?_
    · simp
    rintro ⟨err, t'⟩ s' hresult
    have hkept : SameRequest t t' := by
      generalize hout : some (err, t') = o at hresult
      cases hresult with
      | panicked => cases hout
      | unbound hbound | sent hbound =>
        cases hout
        exact ⟨rfl, rfl, rfl, hbound.shared_isSome (htargeted _)⟩
    dsimp only
    split
    · refine ends_pure.2 ?_
      rintro _ _ ⟨⟩
      exact hkept
    · refine deleteAccepted_bind.2 (ends_pure.2 ?_)
      rintro _ _ ⟨⟩
      exact hkept

/-- This node may be a candidate for a step: it has the service, or the finder
names it although it has not. -/
def MayRun (c : Node) (w : World) (s : Engine) (step : PipelineStep) : Prop :=
  s.services.has step.service = true ∨ ∃ n query, w.serviceFinder n query false = .ok c.nodeID

theorem Selected.mayRun {step : PipelineStep} {i : ℤ} (h : Selected c w s step i target)
    (hself : target = c.nodeID) : MayRun c w s step := by
  by_cases hbound : step.targetNodeID = "" ∨ step.targetNodeID = c.nodeID
  · rcases h.named hbound with ⟨-, hhas⟩ | ⟨-, -, n, hfound⟩
    · exact .inl hhas
    · exact .inr ⟨n, _, hself ▸ hfound⟩
  · rw [not_or] at hbound
    exact absurd ((h.bound hbound.1 hbound.2).symm.trans hself) hbound.2

theorem findAlternative_prepares (step : PipelineStep) (stepIndex : ℤ)
    (triedPeers : List String) :
    (findAlternative c step stepIndex triedPeers).Obeys (preparing c w s) fun o =>
      ∃ target, o = some target ∧ (target = c.nodeID → target ≠ "" → MayRun c w s step) := by
  unfold findAlternative
  refine prepare_bind (?_ : Call.Obeys (preparing c w s) (fun o => ∃ target, o = some target ∧
    (target = c.nodeID → target ≠ "" → MayRun c w s step)) _) fun found hfound => ?_
  · split
    · refine obeys_perform_bind rfl ?_
      rintro _ ⟨s', hs', rfl⟩
      refine ⟨_, rfl, ?_⟩
      simp only [exec, stepQuery, hs'.services]
      split
      · rename_i peer hfound
        split_ifs
        · exact fun _ hempty => absurd rfl hempty
        · rintro rfl -
          cases hhas : s.services.has step.service with
          | true => exact .inl hhas
          | false => exact .inr ⟨s'.answers, _, by rw [← hhas]; exact hfound⟩
      · exact fun _ hempty => absurd rfl hempty
    · exact ⟨_, rfl, fun _ hempty => absurd rfl hempty⟩
  split
  · exact ⟨_, rfl, hfound⟩
  split
  · exact ⟨_, rfl, fun _ hempty => absurd rfl hempty⟩
  · refine getHandler_bind step.service ⟨_, rfl, ?_⟩
    cases hhas : s.services.has step.service with
    | true => exact fun _ _ => .inl hhas
    | false => exact fun _ hempty => absurd rfl hempty

end Proxyma.Compute
