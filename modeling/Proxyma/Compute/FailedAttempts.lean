import Proxyma.Compute.EscrowConservation
import Proxyma.Compute.StatusLaw

/-!
# Failed attempts

A node that tracks a task tries to hand it to one node after another, in the rounds
of `failover` and by resuming it from escrow.  Whether a failed attempt harms the
task depends on how far it got.  An attempt that is given up before the request is
sent leaves the status alone.  An attempt whose request is sent and refused marks
the task as failed, and a failed task stays failed whatever comes later.

`Tracks` is what all attempts keep: the task is unfinished as long as no request of
it was refused, and failed from then on.  When the task is well after a successful
attempt is read off that.
-/

namespace Proxyma.Compute

open Keyed Atomic Atomic.Call GoError TaskTables

variable {c : Node} {w : World} {s : Engine}

/-! ## The status of a tracked task -/

/-- A request of a task was sent to a peer, which refused it. -/
def Event.refuses (id : String) : Event → Bool
  | .submitted _ req (some _) => req.taskID = id
  | _ => false

/-- How many requests of a task were refused by the peers they were sent to. -/
def Engine.refusals (s : Engine) (id : String) : ℕ := s.trace.countP (Event.refuses id)

/-- A task of an open engine is unfinished while no more than `base` requests of it
have been refused, and failed afterwards. -/
structure Tracks (id service : String) (base : ℕ) (s : Engine) : Prop where
  isOpen : s.closed = false
  notRetired : s.tables.retired.get id = none
  entry : ∃ current, s.tables.statuses.get id = some current ∧ current.service = service ∧
    (s.refusals id = base ∧ isTerminalTaskStatus current.status = false ∨
      base < s.refusals id ∧ current.status = .failed)

/-- A node may answer for a task. -/
def Authorized (s : Engine) (id target : String) : Prop :=
  isAuthorizedCallbackProducer target (s.tables.metadataOf id) = true

section Steps

variable {id service : String} {base : ℕ}
variable {s' : Engine} {peerID : String} {req : TaskRequest}

theorem Tracks.of_eq (h : Tracks id service base s) (hclosed : s'.closed = s.closed)
    (hstatuses : s'.tables.statuses = s.tables.statuses)
    (hretired : s'.tables.retired = s.tables.retired) (htrace : s'.refusals id = s.refusals id) :
    Tracks id service base s' := by
  refine ⟨hclosed.trans h.isOpen, by rw [hretired]; exact h.notRetired, ?_⟩
  rw [hstatuses, htrace]
  exact h.entry

theorem Engine.Same.refusals (h : s.Same s') (id : String) : s'.refusals id = s.refusals id := by
  obtain ⟨asked, htrace, hasked⟩ := h.trace
  have hnone : asked.countP (Event.refuses id) = 0 := by
    rw [List.countP_eq_zero]
    intro e he
    obtain ⟨peer, query, rfl⟩ := hasked e he
    simp [Event.refuses]
  rw [Engine.refusals, htrace, List.countP_append, hnone, Nat.add_zero, Engine.refusals]

theorem Tracks.same (h : Tracks id service base s) (hsame : s.Same s') :
    Tracks id service base s' :=
  h.of_eq hsame.closed hsame.statuses hsame.retired (hsame.refusals id)

/-- Who may answer for a task is the same. -/
structure SameProducers (id : String) (t t' : TaskTables) : Prop where
  expected : (t'.metadataOf id).expectedProducer = (t.metadataOf id).expectedProducer
  delegated : (t'.metadataOf id).delegatedProducers = (t.metadataOf id).delegatedProducers

theorem SameProducers.of_eq {t t' : TaskTables} (h : t'.statusMeta = t.statusMeta) :
    SameProducers id t t' :=
  ⟨by rw [metadataOf, h, metadataOf], by rw [metadataOf, h, metadataOf]⟩

theorem Authorized.same {target : String} (h : Authorized s id target)
    (hsame : SameProducers id s.tables s'.tables) : Authorized s' id target := by
  unfold Authorized isAuthorizedCallbackProducer at *
  rwa [hsame.expected, hsame.delegated]

/-- The entries of a task after a response about it has been stored. -/
theorem storeTaskStatus_entries (t : TaskTables) (response : ServiceTaskResponse) (now : ℤ) :
    (t.storeTaskStatus response now).retired.get response.taskID =
        t.retired.get response.taskID ∧
      SameProducers response.taskID t (t.storeTaskStatus response now) := by
  have hspared := pruneTaskStatuses_spares (puts_touchTaskStatus t response now).touched
  refine ⟨hspared.retired, ?_⟩
  have hmetadata : (t.storeTaskStatus response now).metadataOf response.taskID =
      { t.metadataOf response.taskID with touchedAt := now, sequence := t.statusSeq + 1 } := by
    rw [metadataOf, storeTaskStatus]
    refine (congrArg (Option.getD · {}) hspared.metadata).trans ?_
    simp [touchTaskStatus, touchStatusMeta, stored, metadataOf]
  exact ⟨by rw [hmetadata], by rw [hmetadata]⟩

/-- What setting the status of an active task does: nothing if the task has ended. -/
theorem setTaskStatus_cases {t : TaskTables} {current : ServiceTaskResponse}
    (response : ServiceTaskResponse) (now : ℤ)
    (hretired : t.retired.get response.taskID = none)
    (hcurrent : t.statuses.get response.taskID = some current) :
    (isTerminalTaskStatus current.status = true ∧ t.setTaskStatus response now = t) ∨
      isTerminalTaskStatus current.status = false ∧
        (t.setTaskStatus response now).statuses.get response.taskID = some response ∧
        (t.setTaskStatus response now).retired.get response.taskID = none ∧
        SameProducers response.taskID t (t.setTaskStatus response now) := by
  simp only [TaskTables.setTaskStatus, hretired, hcurrent, Option.isSome_none, Option.any_some,
    Bool.false_eq_true, if_false]
  cases hterminal : isTerminalTaskStatus current.status with
  | true => exact .inl ⟨rfl, rfl⟩
  | false =>
    refine .inr ⟨rfl, ?_⟩
    simp only [Bool.false_eq_true, if_false]
    split
    · have hentries := storeTaskStatus_entries (t.deleteAccepted response.taskID) response now
      exact ⟨(puts_touchTaskStatus _ response now).kept, hentries.1.trans hretired,
        hentries.2.expected, hentries.2.delegated⟩
    · have hentries := storeTaskStatus_entries t response now
      exact ⟨(puts_touchTaskStatus _ response now).kept, hentries.1.trans hretired, hentries.2⟩

theorem statusState_tables (hopen : s.closed = false) (response : ServiceTaskResponse) :
    (statusState c w s response).tables = s.tables.setTaskStatus response (w.clock s.answers) := by
  simp [statusState, hopen, exec, Engine.answered, Engine.withTables]

theorem Tracks.setStatus (h : Tracks id service base s) {response : ServiceTaskResponse}
    (hid : response.taskID = id) (hservice : response.service = service)
    (hterminal : isTerminalTaskStatus response.status = false) :
    Tracks id service base (statusState c w s response) ∧
      SameProducers id s.tables (statusState c w s response).tables := by
  subst hid
  have htables := statusState_tables (c := c) (w := w) h.isOpen response
  obtain ⟨current, hcurrent, hcurrentService, hstanding⟩ := h.entry
  rcases setTaskStatus_cases response (w.clock s.answers) h.notRetired hcurrent with
    ⟨-, hsame⟩ | ⟨hunfinished, hget, hretired, hproducers⟩
  · rw [hsame] at htables
    refine ⟨h.of_eq rfl (by rw [htables]) (by rw [htables]) rfl, ?_⟩
    rw [htables]
    exact .of_eq rfl
  · rw [← htables] at hget hretired hproducers
    refine ⟨⟨h.isOpen, hretired, response, hget, hservice, .inl ⟨?_, hterminal⟩⟩, hproducers⟩
    -- an unfinished task has not been refused
    rcases hstanding with ⟨hbase, -⟩ | ⟨-, hfailed⟩
    · exact hbase
    · simp [hfailed] at hunfinished

theorem Tracks.refused (h : Tracks id service base s) {err : GoError} (hid : req.taskID = id)
    (hservice : req.service = service) (herr : w.submitTask s.answers = some err) :
    Tracks id service base (statusState c w (submittedState w s peerID req)
      (failedTaskResponse req.taskID req.service err.text)) := by
  subst hid
  set sent := submittedState w s peerID req with hsent
  have hrefusals : sent.refusals req.taskID = s.refusals req.taskID + 1 := by
    simp [hsent, submittedState, Engine.refusals, Engine.logged, Engine.answered, herr,
      Event.refuses]
  have hopen : sent.closed = false := h.isOpen
  have htables := statusState_tables (c := c) (w := w) hopen
    (failedTaskResponse req.taskID req.service err.text)
  obtain ⟨current, hcurrent, hcurrentService, hstanding⟩ := h.entry
  have hrefused : base < sent.refusals req.taskID := by
    rw [hrefusals]
    rcases hstanding with ⟨hbase, -⟩ | ⟨hbase, -⟩ <;> omega
  change sent.tables.statuses.get req.taskID = some current at hcurrent
  have hnotRetired : sent.tables.retired.get req.taskID = none := h.notRetired
  rcases setTaskStatus_cases (failedTaskResponse req.taskID req.service err.text)
    (w.clock sent.answers) hnotRetired hcurrent with
    ⟨hended, hsame⟩ | ⟨-, hget, hretired, -⟩
  · have hfailed : current.status = .failed := by
      rcases hstanding with ⟨-, hunfinished⟩ | ⟨-, hfailed⟩
      · simp [hunfinished] at hended
      · exact hfailed
    refine ⟨h.isOpen, ?_, current, ?_, hcurrentService, .inr ⟨hrefused, hfailed⟩⟩
    · rw [htables, hsame, hnotRetired]
    · rw [htables, hsame, hcurrent]
  · rw [← htables] at hget hretired
    exact ⟨h.isOpen, hretired, _, hget, hservice, .inr ⟨hrefused, rfl⟩⟩

/-- Registering a task again adds the node that is expected to answer. -/
theorem Tracks.registered (h : Tracks id service base s) (hid : req.taskID = id) :
    Tracks id service base (registeredState c w s req) ∧
      (req.expectedProducerNodeID ≠ "" →
        Authorized (registeredState c w s req) id req.expectedProducerNodeID) := by
  subst hid
  obtain ⟨current, hcurrent, -⟩ := h.entry
  constructor
  · refine h.of_eq rfl ?_ ?_ rfl <;>
    · simp only [registeredState, exec, Engine.answered, Engine.withTables,
        TaskTables.registerOutgoingTask, hcurrent]
      split <;> rfl
  · intro hexpected
    simp only [Authorized, registeredState, exec, Engine.answered, Engine.withTables,
      TaskTables.registerOutgoingTask, hcurrent, if_pos hexpected]
    simp [isAuthorizedCallbackProducer, expectProducer, setMetadata, metadataOf, hexpected]

theorem submittedState_tracks (h : Tracks id service base s)
    (herr : w.submitTask s.answers = none) :
    Tracks id service base (submittedState w s peerID req) := by
  refine h.of_eq rfl rfl rfl ?_
  simp [submittedState, Engine.refusals, Engine.logged, Engine.answered, herr, Event.refuses]

/-- Sending a tracked request: it is registered first, and a refusal ends the task. -/
theorem Tracks.tracked (h : Tracks id service base s) (peerID : String) (hid : req.taskID = id)
    (hservice : req.service = service) :
    Tracks id service base (trackedState c w s peerID req) ∧
      (w.submitTask (registeredState c w s req).answers = none →
        req.expectedProducerNodeID ≠ "" →
        Authorized (trackedState c w s peerID req) id req.expectedProducerNodeID) := by
  obtain ⟨hregistered, hauthorized⟩ := h.registered (c := c) (w := w) hid
  unfold trackedState
  cases herr : w.submitTask (registeredState c w s req).answers with
  | none => exact ⟨submittedState_tracks hregistered herr, fun _ => hauthorized⟩
  | some err => exact ⟨hregistered.refused hid hservice herr, fun h => absurd h (by simp)⟩

theorem Tracks.dispatched (h : Tracks id service base s) {caller : TaskRequest}
    {o : Option (Option GoError × TaskRequest)} (hid : caller.taskID = id)
    (hservice : caller.service = service)
    (hrequester : caller.requesterNodeID = "" ∨ caller.requesterNodeID = c.nodeID)
    (hresult : DispatchResult c w s peerID caller o s') :
    Tracks id service base s' ∧
      ∀ t, o = some (none, t) → peerID ≠ "" → Authorized s' id peerID := by
  cases hresult with
  | panicked _ _ hsame | unbound _ hsame => exact ⟨h.same hsame, by simp⟩
  | @sent req shared err payload s₁ _ hbound hsame hsend =>
    have hreq := hbound.request_eq
    have hself : req.requesterNodeID = c.nodeID := by
      rw [hreq]
      rcases hrequester with hempty | hself
      · simp [outgoing, hempty]
      · simp [outgoing, hself]
    generalize hout : some (err, payload) = out at hsend
    cases hsend with
    | refused hsame' =>
      cases hout
      exact ⟨h.same (hsame.trans hsame'), by simp⟩
    | sent hsame' hother hsent => exact absurd hself hother
    | @tracked sent _ s₂ hsame' hself' hsent =>
      cases hout
      have hsentID : sent.taskID = id := hsent.taskID.trans (by rw [hreq]; exact hid)
      have hsentService : sent.service = service :=
        hsent.service.trans (by rw [hreq]; exact hservice)
      have hexpected : sent.expectedProducerNodeID = peerID :=
        hsent.expected.trans (by rw [hreq]; rfl)
      obtain ⟨htracks, hauthorized⟩ :=
        (h.same (hsame.trans hsame')).tracked (c := c) (w := w) peerID hsentID hsentService
      refine ⟨htracks, fun t ht hpeer => ?_⟩
      rw [hexpected] at hauthorized
      simp only [Option.some.injEq, Prod.mk.injEq] at ht
      exact hauthorized ht.1 hpeer

theorem Tracks.released (h : Tracks id service base s) (taskID : String) :
    Tracks id service base (s.released taskID) :=
  h.of_eq rfl rfl rfl rfl

/-- Admitting a task to the queue of this node does not touch its status. -/
theorem Tracks.admitted (h : Tracks id service base s) {err : Option GoError}
    (hresult : AdmitResult s req err s') :
    Tracks id service base s' ∧ SameProducers id s.tables s'.tables := by
  cases hresult with
  | closed | known | conflict => exact ⟨h, .of_eq rfl⟩
  | enqueued =>
    simp only [Engine.enqueue]
    repeat' split
    all_goals
      refine ⟨h.of_eq rfl rfl rfl ?_, .of_eq rfl⟩
      simp [Engine.refusals, Event.refuses]

theorem submitTask_tracks (h : Tracks id service base s) (hstate : req.pipelineState.isSome) :
    (submitTask c req).Ends (handler c w) s fun _ s' =>
      Tracks id service base s' ∧ SameProducers id s.tables s'.tables := by
  refine (submitTask_ends hstate).mono ?_
  rintro _ s' ⟨err, rfl, ⟨-, -, rfl⟩ | ⟨-, hadmit⟩⟩
  · exact ⟨h, .of_eq rfl⟩
  · exact h.admitted hadmit

/-! ## Attempts -/

/-- One attempt to hand a task to a node. -/
inductive Attempt
  /-- A round of `failover`. -/
  | failover (t : TaskRequest) (step : PipelineStep) (target : String)
  /-- The resumption of a task that has been taken out of escrow. -/
  | resume (task : TaskEscrowRequest) (schema : PipelineSchema) (stepIndex : ℤ)
      (step : PipelineStep) (target : String)

namespace Attempt

/-- The node that is to take the task. -/
def target : Attempt → String
  | .failover _ _ target => target
  | .resume _ _ _ _ target => target

/-- The call that makes the attempt.  In `failover` the node is made a delegate
before its round. -/
def call (c : Node) : Attempt → Call Action (Option GoError)
  | .failover t step target => do
      delegateTo t.taskID target
      let (err, _) ← attempt c t step target
      return err
  | .resume task schema stepIndex step target =>
    resumeTaken c task.taskID task schema stepIndex step target

/-- The attempt is about a pipeline task whose requester is this node. -/
def For (c : Node) (id service : String) : Attempt → Prop
  | .failover t _ _ => t.taskID = id ∧ t.service = service ∧ t.pipelineState.isSome ∧
      (t.requesterNodeID = "" ∨ t.requesterNodeID = c.nodeID)
  | .resume task _ _ _ _ => task.taskID = id ∧ task.service = service ∧
      (task.requesterNodeID = "" ∨ task.requesterNodeID = c.nodeID)

end Attempt

theorem authorized_delegate {s : Engine} (target : String) :
    Authorized (exec c w (.delegateProducers id [target]) s).2 id target := by
  simp [Authorized, exec, Engine.withTables, isAuthorizedCallbackProducer, delegateProducers,
    setMetadata, metadataOf, mem_addProducers]

theorem authorized_expect {target : String} (targets : List String) (htarget : target ≠ "") :
    Authorized (exec c w (.expectProducer id target targets) s).2 id target := by
  simp [Authorized, exec, Engine.withTables, isAuthorizedCallbackProducer, expectProducer,
    setMetadata, metadataOf, htarget]

theorem delegateTo_bind {β : Type} {target : String} {g : Unit → Call Action β}
    {post : Option β → Engine → Prop}
    (hg : ∀ s', s.Same s' → (target ≠ "" → Authorized s' id target) →
      (g ()).Ends (handler c w) s' post) :
    (delegateTo id target >>= g).Ends (handler c w) s post := by
  unfold delegateTo
  split
  · exact ends_perform_bind.2 (hg _ (same_exec c w _ s rfl) fun _ => authorized_delegate target)
  next hempty => exact hg s (.refl s) fun h => absurd h hempty

theorem attempt_tracks (h : Tracks id service base s) {t : TaskRequest} (step : PipelineStep)
    (target : String) (hid : t.taskID = id) (hservice : t.service = service)
    (hstate : t.pipelineState.isSome)
    (hrequester : t.requesterNodeID = "" ∨ t.requesterNodeID = c.nodeID)
    (hauthorized : target ≠ "" → Authorized s id target) :
    (attempt c t step target).Ends (handler c w) s fun o s' =>
      Tracks id service base s' ∧
        ∀ t', o = some (none, t') → target ≠ "" → Authorized s' id target := by
  have hstate' : (targeted t step c.nodeID).pipelineState.isSome := by
    simpa [targeted] using hstate
  unfold attempt
  split
  · refine deleteAccepted_bind.2 (Ends.bind (submitTask_tracks (h.released _) hstate') ?_ ?_)
    · rintro s' ⟨htracks, -⟩
      exact ⟨htracks, by simp⟩
    · rintro err s' ⟨htracks, hsame⟩
      refine ends_pure.2 ⟨htracks, fun t' ht htarget => (hauthorized htarget).same ?_⟩
      exact ⟨hsame.expected, hsame.delegated⟩
  · have hdispatched : ∀ o s', DispatchResult c w s target (targeted t step target) o s' →
        Tracks id service base s' ∧
          ∀ t, o = some (none, t) → target ≠ "" → Authorized s' id target :=
      fun o s' => Tracks.dispatched h hid hservice hrequester
    refine Ends.bind (dispatchTask_ends target (targeted t step target)) ?_ ?_
    · intro s' hresult
      exact ⟨(hdispatched _ _ hresult).1, by simp⟩
    rintro ⟨err, t'⟩ s' hresult
    obtain ⟨htracks, hdone⟩ := hdispatched _ _ hresult
    dsimp only
    split
    · exact ends_pure.2 ⟨htracks, by simp⟩
    · refine deleteAccepted_bind.2 (ends_pure.2 ⟨htracks.released _, fun _ _ htarget => ?_⟩)
      exact (hdone t' rfl htarget).same (.of_eq rfl)

theorem handOver_tracks (h : Tracks id service base s) {target : String} (hid : req.taskID = id)
    (hservice : req.service = service) (hstate : req.pipelineState.isSome)
    (hrequester : req.requesterNodeID = "" ∨ req.requesterNodeID = c.nodeID)
    (hauthorized : target ≠ "" → Authorized s id target) :
    (handOver c target req).Ends (handler c w) s fun o s' =>
      Tracks id service base s' ∧ (o = some none → target ≠ "" → Authorized s' id target) := by
  unfold handOver
  split
  · refine deleteAccepted_bind.2 (Ends.bind (submitTask_tracks (h.released _) hstate) ?_ ?_)
    · rintro s' ⟨htracks, -⟩
      exact ⟨htracks, by simp⟩
    · rintro err s' ⟨htracks, hsame⟩
      refine ends_pure.2 ⟨htracks, fun ht htarget => (hauthorized htarget).same ?_⟩
      exact ⟨hsame.expected, hsame.delegated⟩
  split
  · exact ends_pure.2 ⟨h, by simp⟩
  refine Ends.bind (dispatchTask_ends target req) ?_ ?_
  · intro s' hresult
    exact ⟨(h.dispatched hid hservice hrequester hresult).1, by simp⟩
  rintro ⟨err, t'⟩ s' hresult
  obtain ⟨htracks, hdone⟩ := h.dispatched hid hservice hrequester hresult
  dsimp only
  split
  · exact ends_pure.2 ⟨htracks, by simp⟩
  · refine deleteAccepted_bind.2 (ends_pure.2 ⟨htracks.released _, fun _ htarget => ?_⟩)
    exact (hdone t' rfl htarget).same (.of_eq rfl)

theorem resumeTaken_tracks (h : Tracks id service base s) {task : TaskEscrowRequest}
    (schema : PipelineSchema) (stepIndex : ℤ) (step : PipelineStep) (target : String)
    (hid : task.taskID = id) (hservice : task.service = service)
    (hrequester : task.requesterNodeID = "" ∨ task.requesterNodeID = c.nodeID) :
    (resumeTaken c task.taskID task schema stepIndex step target).Ends (handler c w) s fun o s' =>
      Tracks id service base s' ∧ (o = some none → target ≠ "" → Authorized s' id target) := by
  refine read_ends.2 (Ends.bind (Obeys.prepared (preparePipelineTargets_asks _).prepares) ?_ ?_)
  · rintro s' ⟨⟨_, ⟨⟩, -⟩, -⟩
  rintro ⟨err, req⟩ s₁ ⟨⟨_, ⟨⟩, hfilled⟩, hsame₁⟩
  replace hfilled : FilledRequest (resumeRequest c task schema stepIndex step target) req := hfilled
  have hstate : req.pipelineState.isSome := by
    obtain ⟨state', hstate', -⟩ := hfilled.some _ rfl
    rw [hstate']
    rfl
  refine ends_perform_bind.2 ?_
  set expected := ((handler c w).exec (.expectProducer task.taskID target
    ((req.pipelineState.map PipelineExecutionState.targets).getD [])) s₁).2 with hexpected
  have hsame : s.Same expected := hsame₁.trans (same_exec c w _ s₁ rfl)
  have hauthorized : target ≠ "" → Authorized expected id target := by
    intro htarget
    rw [hexpected, hid]
    exact authorized_expect _ htarget
  refine Ends.bind (handOver_tracks (h.same hsame) (by rw [hfilled.eq]; exact hid)
    (by rw [hfilled.eq]; exact hservice) hstate (by rw [hfilled.eq]; exact hrequester)
    hauthorized) ?_ ?_
  · rintro s' ⟨htracks, -⟩
    exact ⟨htracks, by simp⟩
  rintro err s' ⟨htracks, hdone⟩
  split
  · -- the entry goes back into escrow, with the metadata it had
    have hput : Tracks id service base { s' with escrow := s'.escrow.insert task } :=
      htracks.of_eq rfl rfl rfl rfl
    have hrestored := hput.same (same_exec c w (.restoreMetadata task.taskID
      (s.tables.statusMeta.get task.taskID)) _ rfl)
    refine ends_bind.2 (ends_perform_bind.2 (ends_perform_bind.2 (setTaskStatus_ends.2 ?_)))
    exact then_some.2 (ends_pure.2 ⟨(hrestored.setStatus hid hservice rfl).1, by simp⟩)
  · refine ends_bind.2 (setTaskStatus_bind.2 (ends_perform_bind.2 ?_))
    let running : ServiceTaskResponse :=
      { taskID := task.taskID, service := task.service, status := .running
        producerNodeID := target }
    obtain ⟨hrunning, hproducers⟩ :
        Tracks id service base (statusState c w s' running) ∧
          SameProducers id s'.tables (statusState c w s' running).tables :=
      htracks.setStatus hid hservice rfl
    refine ⟨hrunning.same (Engine.same_recordCheckpoint c w _ _), fun _ htarget => ?_⟩
    refine ((hdone rfl htarget).same hproducers).same (.of_eq ?_)
    exact congrArg TaskTables.statusMeta (recordCheckpoint_tables c w _ _)

theorem call_tracks (h : Tracks id service base s) (a : Attempt) (ha : a.For c id service) :
    (a.call c).Ends (handler c w) s fun o s' =>
      Tracks id service base s' ∧ (o = some none → a.target ≠ "" → Authorized s' id a.target) := by
  cases a with
  | failover t step target =>
    obtain ⟨rfl, hservice, hstate, hrequester⟩ := ha
    refine delegateTo_bind fun s₁ hsame hauthorized => ?_
    refine Ends.bind (attempt_tracks (h.same hsame) step target rfl hservice hstate hrequester
      hauthorized) ?_ ?_
    · rintro s' ⟨htracks, -⟩
      exact ⟨htracks, by simp⟩
    · rintro ⟨err, t'⟩ s' ⟨htracks, hdone⟩
      refine ends_pure.2 ⟨htracks, fun herr => ?_⟩
      cases herr
      exact hdone t' rfl
  | resume task schema stepIndex step target =>
    exact resumeTaken_tracks h schema stepIndex step target ha.1 ha.2.1 ha.2.2

/-- Nothing that concerns the status of a task has happened. -/
structure Idle (id : String) (s s' : Engine) : Prop where
  closed : s'.closed = s.closed
  statuses : s'.tables.statuses = s.tables.statuses
  retired : s'.tables.retired = s.tables.retired
  refusals : s'.refusals id = s.refusals id

/-- What a node does with a task between two of its attempts, and the attempts. -/
inductive Attempted (c : Node) (w : World) (id service : String) : Engine → Engine → Prop
  | idle {s s' : Engine} (hidle : Idle id s s') : Attempted c w id service s s'
  | made {s : Engine} (a : Attempt) (ha : a.For c id service) :
      Attempted c w id service s ((a.call c).prog.run (handler c w) s).2

theorem attempted_tracks (h : Tracks id service base s)
    (hrun : Relation.ReflTransGen (Attempted c w id service) s s') : Tracks id service base s' := by
  induction hrun with
  | refl => exact h
  | tail _ hstep ih =>
    cases hstep with
    | idle hidle => exact ih.of_eq hidle.closed hidle.statuses hidle.retired hidle.refusals
    | made a ha => exact (call_tracks ih a ha).1

theorem storeCallback_completed (t : TaskTables) {response : ServiceTaskResponse} (now : ℤ)
    (h : response.status = .completed) : (t.storeCallback response now).err = none := by
  simp only [storeCallback, h]
  split <;> rfl

/-- A completed callback of an authorized node about an active task that has not
ended is accepted. -/
theorem callback_accepted {target : String} {current callback : ServiceTaskResponse}
    (htarget : target ≠ "") (hproducer : callback.producerNodeID = "" ∨
      callback.producerNodeID = target) (hid : callback.taskID = id)
    (hservice : callback.service = "" ∨ callback.service = current.service)
    (hstatus : callback.status = .completed) (hactive : s.tables.statuses.get id = some current)
    (hunfinished : isTerminalTaskStatus current.status = false)
    (hauthorized : Authorized s id target) :
    (exec c w (.acceptTaskCallback target callback) s).1 = none := by
  subst hid
  have hsender : ¬(callback.producerNodeID ≠ "" ∧ callback.producerNodeID ≠ target) := by
    rcases hproducer with h | h <;> simp [h]
  have hsameService : ¬(callback.service ≠ "" ∧ current.service ≠ "" ∧
      callback.service ≠ current.service) := by
    rcases hservice with h | h <;> simp [h]
  rw [Authorized] at hauthorized
  simp only [exec, acceptTaskCallback, if_neg htarget, if_neg hsender, hactive, hauthorized,
    handleCallback, if_neg hsameService, hunfinished]
  simp only [Bool.not_true, Bool.false_eq_true, if_false]
  split
  · rfl
  · exact storeCallback_completed _ _ hstatus

/-! ## The attempts of the two functions -/

/-- A task of an open engine that is active and unfinished. -/
structure Tracked (s : Engine) (id service : String) : Prop where
  isOpen : s.closed = false
  notRetired : s.tables.retired.get id = none
  active : ∃ current, s.tables.statuses.get id = some current ∧ current.service = service ∧
    isTerminalTaskStatus current.status = false

theorem Tracked.tracks (h : Tracked s id service) : Tracks id service (s.refusals id) s := by
  obtain ⟨current, hcurrent, hservice, hunfinished⟩ := h.active
  exact ⟨h.isOpen, h.notRetired, current, hcurrent, hservice, .inl ⟨rfl, hunfinished⟩⟩

/-- A callback by which a node reports a task as completed. -/
structure CompletedBy (callback : ServiceTaskResponse) (target id service : String) : Prop where
  taskID : callback.taskID = id
  status : callback.status = .completed
  service : callback.service = "" ∨ callback.service = service
  producer : callback.producerNodeID = "" ∨ callback.producerNodeID = target

end Steps

/-- A task of the runs below, which `a` has started. -/
def trackedTask : TaskRequest where
  taskID := "t"
  service := "p"
  requesterNodeID := "a"
  pipelineState := some
    { pipelineID := "p", pipelineVersion := 1
      snapshot := some { id := "p", version := 1, steps := [{ id := "only", service := "f" }] } }

/-- The engine of `a` that tracks it. -/
def trackingEngine (w : World) : Engine :=
  (exec (.named "a") w (.registerOutgoingTask trackedTask []) (.new .empty)).2

/-- A world in which the finder names `d` and the first payload cannot be staged. -/
def World.unstaged : World :=
  { World.quiet with
    serviceFinder := fun _ _ _ => .ok "d"
    stage := fun n outputs => (if n < 3 then some (.new "no space left") else none, outputs) }

/-- A world in which the finder names `d` and the first peer refuses the task. -/
def World.refusing : World :=
  { World.quiet with
    serviceFinder := fun _ _ _ => .ok "d"
    submitTask := fun n => if n < 5 then some (.new "connection refused") else none }

/-- The attempt to hand the task to a node. -/
def trackedAttempt (target : String) : Attempt :=
  .failover trackedTask { id := "only", service := "f" } target

/-- The answer of a node that has run the task. -/
def trackedAnswer : ServiceTaskResponse := { taskID := "t", service := "p", status := .completed }

/-- The attempt to hand the task to `b`, whose payload cannot be staged. -/
def unstagedAttempt : Option (Option GoError) × Engine :=
  ((trackedAttempt "b").call (.named "a")).prog.run (handler (.named "a") .unstaged)
    (trackingEngine .unstaged)

end Proxyma.Compute
