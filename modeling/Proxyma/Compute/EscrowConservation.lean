import Proxyma.Compute.Dispatching

/-!
# Escrow conservation

`resumeEscrowTask` takes a task out of escrow, hands it to a node, and puts it back
if that fails.  `ResumeTakenResult` lists the ways it ends, with what is known about the
queue, the trace and the escrow table at the end.

Two of them lose the task.  The local queue swallows a task that is reported as
ended or retired: it says that it has taken it.  And the binding before a dispatch
panics when the task is about to migrate with an index out of range; the task is
out of the table by then.  These two are the only ones.
-/

namespace Proxyma.Compute

open Keyed Atomic Atomic.Call GoError

variable {c : Node} {w : World} {s : Engine} {peerID : String} {stepIndex : ℤ} {step : PipelineStep}
  {task : TaskEscrowRequest}
variable {s' : Engine} {id target : String} {req : TaskRequest}

/-! ## The queue and the trace -/

/-- Nothing has been queued or sent. -/
structure Engine.Still (s s' : Engine) : Prop where
  queue : s'.queue = s.queue
  trace : ∃ asked, s'.trace = s.trace ++ asked ∧ ∀ e ∈ asked, ∃ peer query, e = .asked peer query

theorem Engine.Still.of_eq (hqueue : s'.queue = s.queue) (htrace : s'.trace = s.trace) :
    s.Still s' :=
  ⟨hqueue, [], by simpa using htrace, by simp⟩

theorem Engine.Still.trans {a b d : Engine} (hab : a.Still b) (hbd : b.Still d) : a.Still d := by
  obtain ⟨first, hfirst, hasked⟩ := hab.trace
  obtain ⟨second, hsecond, hasked'⟩ := hbd.trace
  refine ⟨hbd.queue.trans hab.queue, first ++ second, ?_, ?_⟩
  · rw [hsecond, hfirst, List.append_assoc]
  · intro e he
    rcases List.mem_append.1 he with he | he
    · exact hasked e he
    · exact hasked' e he

theorem Engine.Same.still (h : s.Same s') : s.Still s' := ⟨h.queue, h.trace⟩

/-- A task has been put into the queue, or a peer has accepted it. -/
def HandedOn (id : String) (s s' : Engine) : Prop :=
  (∃ req, req.taskID = id ∧ s'.queue = s.queue ++ [req]) ∨
    ∃ peer req new, s'.trace = s.trace ++ new ∧ .submitted peer req none ∈ new ∧ req.taskID = id

theorem Engine.Still.not_handedOn (h : s.Still s') : ¬HandedOn id s s' := by
  rintro (⟨req, -, hqueue⟩ | ⟨peer, req, new, htrace, hmem, -⟩)
  · simp [h.queue] at hqueue
  · obtain ⟨asked, hasked, hall⟩ := h.trace
    obtain rfl : new = asked := List.append_cancel_left (htrace.symm.trans hasked)
    obtain ⟨_, _, heq⟩ := hall _ hmem
    cases heq

theorem HandedOn.mono {a d : Engine} (h : HandedOn id s s') (hbefore : a.Still s)
    (hafter : s'.Still d) : HandedOn id a d := by
  obtain ⟨before, hbefore', -⟩ := hbefore.trace
  obtain ⟨after, hafter', -⟩ := hafter.trace
  rcases h with ⟨req, hid, hqueue⟩ | ⟨peer, req, new, htrace, hmem, hid⟩
  · exact .inl ⟨req, hid, by rw [hafter.queue, hqueue, hbefore.queue]⟩
  · refine .inr ⟨peer, req, before ++ new ++ after, ?_, by simp [hmem], hid⟩
    rw [hafter', htrace, hbefore']
    simp

/-! ## Handing over -/

/-- The local queue takes a task that is known to have ended, and does nothing
with it. -/
def Swallows (s : Engine) (taskID service : String) : Prop :=
  s.closed = false ∧ ∃ response, KnownAs s taskID response ∧ response.service = service

/-- The task gets lost when it is handed over to a node. -/
def Loses (c : Node) (s : Engine) (target : String) (req : TaskRequest) : Prop :=
  (target = c.nodeID ∧ req.taskID ≠ "" ∧ Swallows s req.taskID req.service) ∨
    (target ≠ c.nodeID ∧ c.taskDispatcher = true ∧ ∃ schema,
      sentSchema s req.service req.pipelineState = some schema ∧ BindPanics c s req schema)

/-- The ways `handOver` ends. -/
inductive HandOverResult (c : Node) (s : Engine) (target : String) (req : TaskRequest) :
    Option (Option GoError) → Engine → Prop
  | failed {err : GoError} {s' : Engine} (hkept : ¬Loses c s target req)
      (hescrow : s'.escrow = s.escrow) : HandOverResult c s target req (some (some err)) s'
  | handed {s' : Engine} (hkept : ¬Loses c s target req) (hhanded : HandedOn req.taskID s s')
      (hescrow : s'.escrow = s.escrow) : HandOverResult c s target req (some none) s'
  | lost {o : Option (Option GoError)} {s' : Engine} (hloses : Loses c s target req)
      (hout : ∀ err, o ≠ some (some err)) (hstill : s.Still s') (hescrow : s'.escrow = s.escrow) :
      HandOverResult c s target req o s'

theorem handOver_local (hlocal : target = c.nodeID) (hstate : req.pipelineState.isSome) :
    (handOver c target req).Ends (handler c w) s (HandOverResult c s target req) := by
  have hloses : Loses c s target req ↔ req.taskID ≠ "" ∧ Swallows s req.taskID req.service := by
    simp [Loses, hlocal]
  unfold handOver
  rw [if_pos hlocal]
  refine deleteAccepted_bind.2 (Ends.bind (submitTask_ends hstate) ?_ ?_)
  · rintro s' ⟨_, ⟨⟩, -⟩
  rintro err s' ⟨_, ⟨⟩, hresult⟩
  refine ends_pure.2 ?_
  rcases hresult with ⟨hempty, herr, rfl⟩ | ⟨hid, hadmit⟩
  · obtain ⟨err, rfl⟩ := Option.ne_none_iff_exists'.1 herr
    exact .failed (fun h => (hloses.1 h).1 hempty) rfl
  cases hadmit with
  | closed hclosed =>
    refine .failed (fun h => ?_) rfl
    have hopen : s.closed = false := (hloses.1 h).2.1
    cases hopen.symm.trans hclosed
  | known hopen hknown hservice =>
    exact .lost (hloses.2 ⟨hid, hopen, _, hknown, hservice⟩) (by simp) (.of_eq rfl rfl) rfl
  | conflict hopen hknown hservice =>
    refine .failed (fun h => ?_) rfl
    obtain ⟨-, response', hknown', hservice'⟩ := (hloses.1 h).2
    exact hservice (hknown.unique hknown' ▸ hservice')
  | enqueued hopen hunknown =>
    have hkept : ¬Loses c s target req := by
      intro h
      obtain ⟨-, response, hknown, -⟩ := (hloses.1 h).2
      exact hunknown response hknown
    have hnew : (s.released req.taskID).tables.accepted.get (requestedBy c req).taskID = none :=
      accepted_released s req.taskID
    rcases enqueue_cases hnew with ⟨err, herr, hstate'⟩ | ⟨hok, hqueue, hescrow⟩
    · rw [herr, hstate']
      exact .failed hkept rfl
    · rw [hok]
      exact .handed hkept (.inl ⟨requestedBy c req, rfl, hqueue⟩) hescrow

theorem TaskBindResult.not_panics {schema : PipelineSchema}
    {out : Option GoError × TaskRequest × Option PipelineExecutionState}
    (h : TaskBindResult c s req (some out))
    (hschema : sentSchema s req.service req.pipelineState = some schema) :
    ¬BindPanics c s req schema := by
  generalize hout : some out = o at h
  cases h with
  | plain hnone => exact absurd (hnone.symm.trans hschema) (by simp)
  | bound hschema' hresult =>
    obtain ⟨bound, rfl, -⟩ := Option.map_eq_some_iff.1 hout.symm
    exact Option.some.inj (hschema'.symm.trans hschema) ▸ hresult.not_panics

theorem SendResult.handed {payload : Option JsonMap}
    (h : SendResult c w s peerID req (some (none, payload)) s') :
    HandedOn req.taskID s s' ∧ s'.escrow = s.escrow := by
  generalize hout : some ((none : Option GoError), payload) = o at h
  cases h with
  | refused => cases hout
  | @sent sent _ s₁ hsame hrequester hsent =>
    have hnone : w.submitTask s₁.answers = none := (Prod.mk.inj (Option.some.inj hout)).1.symm
    refine ⟨HandedOn.mono (.inr ⟨peerID, sent, [_], rfl, ?_, hsent.taskID⟩) hsame.still
      (.of_eq rfl rfl), hsame.escrow⟩
    rw [hnone]
    exact List.mem_cons_self
  | @tracked sent _ s₁ hsame hrequester hsent =>
    have hnone : w.submitTask (registeredState c w s₁ sent).answers = none :=
      (Prod.mk.inj (Option.some.inj hout)).1.symm
    unfold trackedState
    rw [hnone]
    refine ⟨HandedOn.mono (.inr ⟨peerID, sent, [_], rfl, ?_, hsent.taskID⟩)
      (hsame.still.trans (.of_eq rfl rfl)) (.of_eq rfl rfl), hsame.escrow⟩
    rw [hnone]
    exact List.mem_cons_self

theorem SendResult.escrow {out : Option (Option GoError × Option JsonMap)}
    (h : SendResult c w s peerID req out s') : s'.escrow = s.escrow := by
  cases h with
  | refused hsame | sent hsame => exact hsame.escrow
  | tracked hsame =>
    unfold trackedState
    split <;> exact hsame.escrow

theorem handOver_remote (hremote : target ≠ c.nodeID) :
    (handOver c target req).Ends (handler c w) s (HandOverResult c s target req) := by
  unfold handOver
  rw [if_neg hremote]
  split
  · rename_i hdispatcher
    refine .failed ?_ rfl
    rintro (⟨hlocal, -⟩ | ⟨-, hset, -⟩)
    · exact hremote hlocal
    · simp [hset] at hdispatcher
  rename_i hdispatcher
  refine Ends.bind (dispatchTask_ends target req) ?_ ?_
  · intro s' hresult
    cases hresult with
    | panicked hschema hpanics hsame =>
      exact .lost (.inr ⟨hremote, by simpa using hdispatcher, _, hschema, hpanics⟩) (by simp)
        hsame.still hsame.escrow
  rintro ⟨err, caller⟩ s' hresult
  have hkept : ∀ {out}, TaskBindResult c s (outgoing c target req) (some out) →
      ¬Loses c s target req := by
    rintro out hbound (⟨hlocal, -⟩ | ⟨-, -, schema, hschema, hpanics⟩)
    · exact hremote hlocal
    · exact hbound.not_panics hschema hpanics
  cases hresult with
  | unbound hbound hsame => exact .failed (hkept hbound) hsame.escrow
  | @sent bound shared err payload s₁ _ hbound hsame hsend =>
    have hescrow := hsend.escrow.trans hsame.escrow
    cases err with
    | some err => exact .failed (hkept hbound) hescrow
    | none =>
      have hid : bound.taskID = req.taskID := by rw [hbound.request_eq]; rfl
      have hhanded := hsend.handed.1.mono hsame.still (Engine.Still.of_eq rfl rfl :
        s'.Still (s'.released req.taskID))
      exact .handed (hkept hbound) (hid ▸ hhanded) hescrow

theorem handOver_ends (target : String) (hstate : req.pipelineState.isSome) :
    (handOver c target req).Ends (handler c w) s (HandOverResult c s target req) := by
  by_cases hlocal : target = c.nodeID
  · exact handOver_local hlocal hstate
  · exact handOver_remote hlocal

/-! ## Resuming -/

/-- The node that `resumeEscrowTask` finds for a step, empty if there is none. -/
def candidateFor (c : Node) (w : World) (s : Engine) (step : PipelineStep) (stepIndex : ℤ) :
    String :=
  if s.services.has step.service then c.nodeID
  else if !c.serviceFinder then ""
  else
    match w.serviceFinder s.answers (stepQuery step stepIndex []) false with
    | .error _ => ""
    | .ok peerID => peerID

theorem findCandidate_bind {β : Type} {g : String → Call Action β} {post : Option β → Engine → Prop}
    (h : ∀ s', s.Same s' → (g (candidateFor c w s step stepIndex)).Ends (handler c w) s' post) :
    (findCandidate c step stepIndex >>= g).Ends (handler c w) s post := by
  unfold candidateFor at h
  refine ends_bind.2 ((getHandler_ends _).2 ?_)
  cases hhas : s.services.has step.service with
  | true =>
    simp only [hhas, if_true] at h
    exact h s (.refl s)
  | false =>
    simp only [hhas, Bool.false_eq_true, if_false] at h ⊢
    split
    · rename_i hfinder
      rw [if_pos hfinder] at h
      exact h s (.refl s)
    · rename_i hfinder
      rw [if_neg hfinder] at h
      refine ends_perform_bind.2 ?_
      have hanswer : ((handler c w).exec (.find (stepQuery step stepIndex [])) s).1 =
          w.serviceFinder s.answers (stepQuery step stepIndex []) false := by
        simp [handler, exec, stepQuery, hhas]
      rw [hanswer]
      have hsame : s.Same ((handler c w).exec (.find (stepQuery step stepIndex [])) s).2 :=
        same_exec c w (.find (stepQuery step stepIndex [])) s rfl
      split
      · rename_i herr
        rw [herr] at h
        exact h _ hsame
      · rename_i herr
        rw [herr] at h
        exact h _ hsame

/-- Whether a task gets lost does not depend on the nodes of other steps, nor on
what the escrow table holds. -/
theorem loses_congr {req' : TaskRequest} (hclosed : s'.closed = s.closed)
    (hstatuses : s'.tables.statuses = s.tables.statuses)
    (hretired : s'.tables.retired = s.tables.retired) (hpipelines : s'.pipelines = s.pipelines)
    (hrevisions : s'.pipelineRevisions = s.pipelineRevisions) (hreq : FilledRequest req req')
    (hstate : req.pipelineState.isSome) : Loses c s' target req' ↔ Loses c s target req := by
  obtain ⟨state, hstate⟩ := Option.isSome_iff_exists.1 hstate
  obtain ⟨state', hstate', hfilled⟩ := hreq.some state hstate
  have hid : req'.taskID = req.taskID := by rw [hreq.eq]
  have hservice : req'.service = req.service := by rw [hreq.eq]
  have hswallows : Swallows s' req'.taskID req'.service ↔ Swallows s req.taskID req.service := by
    simp only [Swallows, KnownAs, Ended, hclosed, hstatuses, hretired, hid, hservice]
  have hsnapshot : state'.snapshot = state.snapshot := by rw [hfilled.retargeted]
  have hschema : sentSchema s' req'.service req'.pipelineState =
      sentSchema s req.service req.pipelineState := by
    simp [sentSchema, hpipelines, hservice, hstate, hstate', hsnapshot]
  have hpanics : ∀ schema, BindPanics c s' req' schema ↔ BindPanics c s req schema := by
    intro schema
    constructor
    · refine BindPanics.retarget hrevisions fun st hst => ?_
      cases hstate'.symm.trans hst
      exact ⟨state, hstate, hfilled.retargeted⟩
    · refine BindPanics.retarget hrevisions.symm fun st hst => ?_
      cases hstate.symm.trans hst
      exact ⟨state', hstate', hfilled.retargeted.symm⟩
  simp only [Loses, hschema, hpanics]
  rw [hswallows, hid]

/-- The ways a task that has been taken out of escrow is resumed. -/
inductive ResumeTakenResult (c : Node) (s : Engine) (task : TaskEscrowRequest) (target : String)
    (req : TaskRequest) : Option (Option GoError) → Engine → Prop
  | reverted {err : GoError} {s' : Engine} (hkept : ¬Loses c s target req)
      (hescrow : s'.escrow = s.escrow.insert task) :
      ResumeTakenResult c s task target req (some (some err)) s'
  | handed {s' : Engine} (hkept : ¬Loses c s target req) (hhanded : HandedOn req.taskID s s')
      (hescrow : s'.escrow = s.escrow) : ResumeTakenResult c s task target req (some none) s'
  | lost {o : Option (Option GoError)} {s' : Engine} (hloses : Loses c s target req)
      (hout : ∀ err, o ≠ some (some err)) (hstill : s.Still s') (hescrow : s'.escrow = s.escrow) :
      ResumeTakenResult c s task target req o s'

theorem still_statusState (response : ServiceTaskResponse) :
    s.Still (statusState c w s response) := .of_eq rfl rfl

theorem markResumed_bind {β : Type} {g : Unit → Call Action β} {post : Option β → Engine → Prop}
    (h : ∀ s', s.Still s' → s'.escrow = s.escrow → (g ()).Ends (handler c w) s' post) :
    (markResumed c task stepIndex step target >>= g).Ends (handler c w) s post := by
  refine ends_bind.2 (setTaskStatus_bind.2 (ends_perform_bind.2 ?_))
  have hstill : s.Still (statusState c w s { taskID := task.taskID, service := task.service
                                             status := .running, producerNodeID := target }) :=
    still_statusState _
  refine h _ (hstill.trans ?_) ?_
  · exact (Engine.same_recordCheckpoint c w _ _).still
  · exact (Engine.same_recordCheckpoint c w _ _).escrow

theorem resumeTaken_ends (taskID : String) (task : TaskEscrowRequest) (schema : PipelineSchema)
    (stepIndex : ℤ) (step : PipelineStep) (target : String) :
    (resumeTaken c taskID task schema stepIndex step target).Ends (handler c w) s
      (ResumeTakenResult c s task target
        (resumeRequest c task schema stepIndex step target)) := by
  refine read_ends.2 (Ends.bind (Obeys.prepared (preparePipelineTargets_asks _).prepares) ?_ ?_)
  · rintro s' ⟨⟨_, ⟨⟩, -⟩, -⟩
  rintro ⟨err, req⟩ s₁ ⟨⟨_, ⟨⟩, hfilled⟩, hsame₁⟩
  replace hfilled : FilledRequest (resumeRequest c task schema stepIndex step target) req := hfilled
  refine ends_perform_bind.2 ?_
  have hsome : req.pipelineState.isSome := by
    obtain ⟨state', hstate', -⟩ := hfilled.some _ rfl
    rw [hstate']
    rfl
  have hid : req.taskID = task.taskID := by rw [hfilled.eq]; rfl
  have hsame : s.Same ((handler c w).exec (.expectProducer task.taskID target
      ((req.pipelineState.map PipelineExecutionState.targets).getD [])) s₁).2 :=
    hsame₁.trans (same_exec c w _ s₁ rfl)
  refine Ends.bind (handOver_ends target hsome) ?_ ?_
  all_goals
    have hloses : ∀ {s₂}, s.Same s₂ → (Loses c s₂ target req ↔
        Loses c s target (resumeRequest c task schema stepIndex step target)) := fun h =>
      loses_congr h.closed h.statuses h.retired h.pipelines h.revisions hfilled rfl
  · intro s' hresult
    cases hresult with
    | lost hlost _ hstill hescrow =>
      exact .lost ((hloses hsame).1 hlost) (by simp) (hsame.still.trans hstill)
        (hescrow.trans hsame.escrow)
  · intro err s' hresult
    cases hresult with
    | failed hkept hescrow =>
      refine .reverted (fun h => hkept ((hloses hsame).2 h)) ?_
      exact congrArg (fun table => Table.insert table task) (hescrow.trans hsame.escrow)
    | handed hkept hhanded hescrow =>
      refine markResumed_bind fun s'' hstill hescrow' => ends_pure.2 ?_
      refine .handed (fun h => hkept ((hloses hsame).2 h)) ?_
        (hescrow'.trans (hescrow.trans hsame.escrow))
      have hhanded' := hhanded.mono hsame.still hstill
      rwa [hid] at hhanded'
    | lost hlost hout hstill hescrow =>
      cases err with
      | some err => exact absurd rfl (hout err)
      | none =>
        refine markResumed_bind fun s'' hstill' hescrow' => ends_pure.2 ?_
        exact .lost ((hloses hsame).1 hlost) (by simp)
          ((hsame.still.trans hstill).trans hstill')
          (hescrow'.trans (hescrow.trans hsame.escrow))

/-- A task can be resumed: there is an entry, its step and a node for it. -/
structure Resumes (c : Node) (w : World) (s : Engine) (id : String) (task : TaskEscrowRequest)
    (schema : PipelineSchema) (step : PipelineStep) : Prop where
  entry : s.escrow.get id = some task
  found : sentSchema s task.service task.pipelineState = some schema
  inRange : schema.stepAt task.stepIndex = some step
  candidate : candidateFor c w s step task.stepIndex ≠ ""

/-- The resumption of a task that loses it. -/
def LosesEscrow (c : Node) (w : World) (s : Engine) (id : String) : Prop :=
  ∃ task schema step, Resumes c w s id task schema step ∧
    Loses c s (candidateFor c w s step task.stepIndex)
      (resumeRequest c task schema task.stepIndex step (candidateFor c w s step task.stepIndex))

/-- What a resumption must not do: say that it handed a task on when it did not,
or take a task out of escrow without handing it on. -/
structure EscrowConserved (id : String) (s : Engine) (o : Option (Option GoError)) (s' : Engine) :
    Prop where
  handed : o = some none → HandedOn id s s'
  kept : ∀ err, o = some (some err) → (s.escrow.get id).isSome → (s'.escrow.get id).isSome
  others : ∀ id', (s.escrow.get id').isSome →
    (s'.escrow.get id').isSome ∨ HandedOn id' s s'

theorem escrowConserved_refused {err : GoError} (hescrow : s'.escrow = s.escrow) :
    EscrowConserved id s (some (some err)) s' := by
  refine ⟨by simp, fun _ _ h => ?_, fun id' h => .inl ?_⟩
  · rwa [hescrow]
  · rwa [hescrow]

theorem conserved_of_resumeTaken {o : Option (Option GoError)} {taken : Engine}
    (hentry : s.escrow.get id = some task) (hreq : req.taskID = task.taskID)
    (hstill : s.Still taken) (hescrow : taken.escrow = s.escrow.erase id)
    (h : ResumeTakenResult c taken task target req o s') :
    EscrowConserved id s o s' ↔ ¬Loses c taken target req := by
  have hid : task.taskID = id := Table.key_of_get hentry
  have herased : ∀ {id' : String}, id' ≠ id → (s.escrow.get id').isSome →
      (taken.escrow.get id').isSome := by
    intro id' hne hsome
    rwa [hescrow, Table.get_erase, if_neg hne]
  cases h with
  | reverted hkept hreverted =>
    refine iff_of_true ⟨by simp, fun _ _ _ => ?_, fun id' hsome => .inl ?_⟩ hkept
    · rw [hreverted, Table.get_insert, if_pos hid.symm]
      rfl
    · rw [hreverted, Table.get_insert]
      split_ifs with hsame
      · rfl
      · exact herased (fun h => hsame (h.trans hid.symm)) hsome
  | handed hkept hhanded hkeptEscrow =>
    have hon : HandedOn id s s' :=
      (hreq.trans hid) ▸ hhanded.mono hstill (Engine.Still.of_eq rfl rfl)
    refine iff_of_true ⟨fun _ => hon, by simp, fun id' hsome => ?_⟩ hkept
    by_cases hsame : id' = id
    · exact .inr (hsame ▸ hon)
    · exact .inl (by rw [hkeptEscrow]; exact herased hsame hsome)
  | lost hloses hout hstill' hkeptEscrow =>
    refine iff_of_false (fun h => ?_) fun h => h hloses
    rcases h.others id (by simp [hentry]) with hsome | hon
    · simp [hkeptEscrow, hescrow] at hsome
    · exact (hstill.trans hstill').not_handedOn hon

/-- Resuming a task conserves it, unless the queue swallows it or its binding
panics. -/
theorem resume_conserves_iff (c : Node) (w : World) (s : Engine) (id : String) :
    EscrowConserved id s ((resumeEscrowTask c id).prog.run (handler c w) s).1
        ((resumeEscrowTask c id).prog.run (handler c w) s).2 ↔
      ¬LosesEscrow c w s id := by
  change (resumeEscrowTask c id).Ends (handler c w) s fun o s' =>
    EscrowConserved id s o s' ↔ ¬LosesEscrow c w s id
  have hrefused : ∀ {err : GoError} {s' : Engine}, s'.escrow = s.escrow →
      (∀ task schema step, ¬Resumes c w s id task schema step) →
      (EscrowConserved id s (some (some err)) s' ↔ ¬LosesEscrow c w s id) := by
    intro err s' hescrow hnot
    refine iff_of_true (escrowConserved_refused hescrow) ?_
    rintro ⟨task, schema, step, hresumes, -⟩
    exact hnot task schema step hresumes
  refine read_ends.2 ?_
  split
  next hnone => exact hrefused rfl fun task _ _ h => absurd (hnone.symm.trans h.entry) (by simp)
  rename_i task hentry
  refine (registeredOrCarried_ends _ _).2 ?_
  split
  · rename_i hnone
    refine hrefused rfl fun task' _ _ h => ?_
    cases hentry.symm.trans h.entry
    cases hnone.symm.trans h.found
  rename_i schema hschema
  split
  · rename_i hnone
    refine hrefused rfl fun task' schema' _ h => ?_
    cases hentry.symm.trans h.entry
    cases hschema.symm.trans h.found
    cases hnone.symm.trans h.inRange
  rename_i step hstep
  have hunique : ∀ {task' schema' step'}, Resumes c w s id task' schema' step' →
      task' = task ∧ schema' = schema ∧ step' = step := by
    intro task' schema' step' h
    cases hentry.symm.trans h.entry
    cases hschema.symm.trans h.found
    exact ⟨rfl, rfl, Option.some.inj (h.inRange.symm.trans hstep)⟩
  refine findCandidate_bind fun s₁ hsame => ?_
  split
  · rename_i hempty
    refine hrefused hsame.escrow fun task' schema' step' h => ?_
    obtain ⟨rfl, rfl, rfl⟩ := hunique h
    exact h.candidate hempty
  rename_i hcandidate
  refine ends_perform_bind.2 ?_
  have htaken : ((handler c w).exec (.takeEscrow id) s₁).1 = some task := by
    rw [← hentry, ← hsame.escrow]
    rfl
  rw [htaken]
  refine (resumeTaken_ends id task schema task.stepIndex step _).mono fun o s' hresult => ?_
  have hstill : s.Still ((handler c w).exec (.takeEscrow id) s₁).2 :=
    hsame.still.trans (.of_eq rfl rfl)
  have hescrow : ((handler c w).exec (.takeEscrow id) s₁).2.escrow = s.escrow.erase id := by
    rw [← hsame.escrow]
    rfl
  -- taking the entry out of the table changes nothing that decides about a loss
  have hloses : ∀ {target req}, req.pipelineState.isSome →
      (Loses c ((handler c w).exec (.takeEscrow id) s₁).2 target req ↔ Loses c s target req) :=
    fun hstate => loses_congr hsame.closed hsame.statuses hsame.retired hsame.pipelines
      hsame.revisions (FilledRequest.refl _) hstate
  rw [conserved_of_resumeTaken hentry rfl hstill hescrow hresult, not_iff_not, hloses rfl]
  constructor
  · exact fun h => ⟨task, schema, step, ⟨hentry, hschema, hstep, hcandidate⟩, h⟩
  · rintro ⟨task', schema', step', hresumes, h⟩
    obtain ⟨rfl, rfl, rfl⟩ := hunique hresumes
    exact h

/-! ## A lost task -/

/-- A clock that jumps by an hour after the first answers. -/
def World.jumping (before : ℕ) : World :=
  { World.quiet with clock := fun n => if n < before then 0 else 3600 * 10 ^ 9 }

/-- An escrow request for the first step of a pipeline. -/
def waitingTask : TaskEscrowRequest where
  taskID := "t"
  service := "p"
  requesterNodeID := "a"
  stepID := "only"
  pipelineState := some
    { pipelineID := "p", pipelineVersion := 1
      snapshot := some { id := "p", version := 1, steps := [{ id := "only", service := "f" }] } }

/-- The task goes into escrow, an hour passes, and somebody lists the statuses. -/
def forgotten : Engine :=
  let start := { Engine.new .empty with
    services := Bucket.empty.put "f" (⟨fun _ => none⟩ : RegisteredService) }
  let h := handler (.named "a") (.jumping 3)
  let put := ((putTaskInEscrow (.named "a") waitingTask).prog.run h start).2
  ((perform .getAllTaskStatuses).prog.run h put).2

/-- The status of the task has expired meanwhile, and the queue swallows it. -/
theorem resume_of_expired_task_loses_it :
    let resumed := (resumeEscrowTask (.named "a") "t").prog.run (handler (.named "a") (.jumping 3))
      forgotten
    resumed.1 = some none ∧ (forgotten.escrow.get "t").isSome = true ∧
      (resumed.2.escrow.get "t").isSome = false ∧ resumed.2.queue.length = 0 ∧
      resumed.2.trace.length = 0 := by
  decide +kernel

end Proxyma.Compute
