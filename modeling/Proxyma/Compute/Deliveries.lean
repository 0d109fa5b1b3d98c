import Proxyma.Compute.Budget
import Proxyma.Compute.Cluster
import Proxyma.Compute.Progress

/-!
# Duplicate deliveries

A request may be delivered to a node any number of times.  An `Intake` is a node with
the threads that deliver one request to it, apart from all its other threads.  What
the node may still do for one step of a task is `held`; the other threads live on
that, so `Intake.Sound` comes down to what a delivery adds.

`SubmitTask` recognises a duplicate by the accepted entry of the task, or by a
terminal or retired status.  Between the moment a worker hands the task to another
node, which deletes the entry, and the report of a terminal status there is neither.
A delivery is `timely` if it does not come to put the task into the queue again while
the accepted entry is gone.
-/

namespace Proxyma.Compute

open Keyed Atomic Atomic.Call

/-! ## What a node holds -/

/-- The handler of a step of a task was run. -/
def Event.runs (id : String) (k : ℤ) : Event → Bool
  | .executed taskID _ _ state => taskID = id ∧ state.currentStep = k
  | _ => false

/-- A peer has taken a task at a step. -/
def Event.sends (id : String) (k : ℤ) : Event → Bool
  | .submitted _ req none => req.taskID = id ∧ stepIndexOf req.pipelineState = k
  | _ => false

/-- How often the handler of a step of a task was run. -/
def Engine.executions (s : Engine) (id : String) (k : ℤ) : ℕ := s.trace.countP (Event.runs id k)

/-- How often a peer has taken a task at a step. -/
def Engine.submissions (s : Engine) (id : String) (k : ℤ) : ℕ := s.trace.countP (Event.sends id k)

/-- What the queue, the escrow table and the past of an engine amount to. -/
def held (id : String) (k : ℤ) (s : Engine) : ℕ :=
  (s.queue.map (requestShare id k)).sum + ((s.escrow.get id).map (entryShare id k)).getD 0 +
    (s.executions id k + s.submissions id k)

variable {s s' : Engine} {thread : Prog Action Unit} {total : Engine → ℕ} {r : Rules Action}

section Balance

variable {c : Node} {w : World} {id : String} {k : ℤ}

theorem held_of_eq (hqueue : s'.queue = s.queue) (hescrow : s'.escrow = s.escrow)
    (htrace : s'.trace = s.trace) : held id k s' = held id k s := by
  simp only [held, hqueue, hescrow, Engine.executions, Engine.submissions, htrace]

theorem held_logged (s : Engine) (event : Event) :
    held id k (s.logged event) =
      held id k s + ((if event.runs id k then 1 else 0) + if event.sends id k then 1 else 0) := by
  simp only [held, Engine.executions, Engine.submissions, Engine.logged, List.countP_append,
    List.countP_singleton]
  omega

theorem held_queued {req : TaskRequest} (hqueue : s'.queue = s.queue ++ [req])
    (hescrow : s'.escrow = s.escrow) (htrace : s'.trace = s.trace ++ [.queued req]) :
    held id k s' = held id k s + requestShare id k req := by
  simp only [held, Engine.executions, Engine.submissions, hqueue, hescrow, htrace,
    List.map_append, List.sum_append, List.countP_append, List.countP_singleton, Event.runs,
    Event.sends, List.map_singleton, List.sum_singleton, Bool.false_eq_true, if_false]
  omega

/-- A request is queued if its task has no accepted entry and there is room, and
nothing happens otherwise. -/
theorem enqueue_effect (s : Engine) (req : TaskRequest) :
    (s.enqueue req).2 = s ∨
      s.tables.accepted.get req.taskID = none ∧ (s.enqueue req).1 = none ∧
        (s.enqueue req).2.queue = s.queue ++ [req] ∧ (s.enqueue req).2.escrow = s.escrow ∧
        (s.enqueue req).2.trace = s.trace ++ [.queued req] := by
  unfold Engine.enqueue
  cases hentry : s.tables.accepted.get req.taskID with
  | some existing =>
    dsimp only
    split <;> exact .inl rfl
  | none =>
    dsimp only
    split
    · exact .inr ⟨rfl, rfl, rfl, rfl, rfl⟩
    · exact .inl rfl

theorem entryShare_of_ne {e : TaskEscrowRequest} (h : e.taskID ≠ id) : entryShare id k e = 0 := by
  simp [entryShare, share, h]

theorem prices_balanced : (prices id k).Balanced (handler c w) (held id k) := by
  intro β e s
  change held id k (exec c w e s).2 + Action.gain id k e (exec c w e s).1 ≤
    held id k s + Action.cost id k e
  have hframe : ∀ {s' : Engine}, s'.queue = s.queue → s'.escrow = s.escrow → s'.trace = s.trace →
      held id k s' + 0 ≤ held id k s + 0 :=
    fun hqueue hescrow htrace => (held_of_eq hqueue hescrow htrace).le
  have hanswered : held id k s.answered = held id k s := held_of_eq rfl rfl rfl
  have hlogged : ∀ {event : Event}, event.runs id k = false → event.sends id k = false →
      held id k (s.answered.logged event) + 0 ≤ held id k s + 0 := by
    intro event hruns hsends
    rw [held_logged, hruns, hsends, hanswered]
    exact le_rfl
  have hexec := exec_frame c w e s
  cases e with
  | enqueue req =>
    have hgain : ∀ answer, Action.gain id k (.enqueue req) answer ≤ requestShare id k req := by
      rintro (_ | err)
      · exact Nat.zero_le _
      · exact le_rfl
    rcases enqueue_effect s req with hsame | ⟨-, hok, hqueue, hescrow, htrace⟩
    · simp only [exec, hsame]
      exact Nat.add_le_add_left (hgain _) _
    · simp only [exec, hok, held_queued hqueue hescrow htrace]
      exact le_rfl
  | dequeue =>
    simp only [exec, Action.cost]
    rcases hqueue : s.queue with _ | ⟨req, rest⟩
    · simp [held, Engine.executions, Engine.submissions, Action.gain, hqueue]
    simp only [held, Engine.executions, Engine.submissions, Action.gain, hqueue,
      List.head?_cons, List.tail_cons, List.map_cons, List.sum_cons]
    omega
  | putEscrow entry =>
    simp only [exec, held, Engine.executions, Engine.submissions, Action.gain, Action.cost,
      Table.get_insert]
    split
    · simp only [Option.map_some, Option.getD_some]
      omega
    · omega
  | takeEscrow taskID =>
    have hgain : Action.gain id k (.takeEscrow taskID) (s.escrow.get taskID) =
        ((s.escrow.get taskID).map (entryShare id k)).getD 0 := by
      cases s.escrow.get taskID <;> rfl
    simp only [exec, hgain, held, Engine.executions, Engine.submissions, Action.cost,
      Table.get_erase]
    split
    · rename_i hid
      simp only [hid, Option.map_none, Option.getD_none]
      omega
    · rename_i hid
      have hother : ((s.escrow.get taskID).map (entryShare id k)).getD 0 = 0 := by
        cases hentry : s.escrow.get taskID with
        | none => rfl
        | some entry =>
          exact entryShare_of_ne ((Table.key_of_get hentry).trans_ne (Ne.symm hid))
      omega
  | execute taskID step schema state payload =>
    simp only [exec, held_logged, Action.gain, Action.cost, Event.runs, Event.sends, runCost,
      hanswered, decide_eq_true_eq, Bool.false_eq_true, if_false]
    omega
  | submitToPeer peerID req =>
    simp only [exec, held_logged, hanswered, Action.cost, Event.runs, Bool.false_eq_true,
      if_false, Nat.zero_add]
    cases w.submitTask s.answers with
    | none => simp [Action.gain, Event.sends, runCost]
    | some err => simp [Action.gain, Event.sends]
  | fetchServiceBid | sendTaskEscrow => exact hlogged rfl rfl
  | sendTaskResponse replyTo response =>
    refine Eq.le (?_ : held id k (s.logged _) + 0 = held id k s + 0)
    rw [held_logged]
    rfl
  | close => exact hframe rfl rfl rfl
  | applyPipelineRevision schema =>
    simp only [exec, Engine.applyPipelineRevision]
    repeat' split
    all_goals exact hframe rfl rfl rfl
  | _ =>
    obtain ⟨_, _, _, heq⟩ := hexec rfl
    rw [heq]
    exact hframe rfl rfl rfl

end Balance

/-! ## The intake of a node -/

/-- The engine of a node with its threads, and the threads that deliver one request
to it. -/
structure Intake where
  pool : Pool Action Engine
  deliveries : List (Prog Action Unit)

/-- The other calls of a node: none of them brings the task in at step `k` or
before. -/
inductive OtherCall (c : Node) (id : String) (k : ℤ) : Prog Action Unit → Prop
  | work : OtherCall c id k (worker c).thread
  | resume {taskID : String} : OtherCall c id k (resumeEscrowTask c taskID).thread
  | wakeup : OtherCall c id k (wakeupEscrowTasks c).thread
  | run {req : TaskRequest} {peerID : String} (hother : requestShare id k req = 0) :
      OtherCall c id k (localServiceRun c req peerID).thread
  | submit {submitter : String} {req : TaskRequest} (hother : requestShare id k req = 0) :
      OtherCall c id k (handleServiceSubmit c submitter req).thread
  | escrow {producer : String} {req : TaskEscrowRequest} (hother : entryShare id k req = 0) :
      OtherCall c id k (handleServiceEscrow c producer req).thread
  | act {β : Type} {e : Action β} (halone : e.standsAlone = true) :
      OtherCall c id k (perform e).thread

theorem OtherCall.spends {c : Node} {id : String} {k : ℤ} (h : OtherCall c id k thread) :
    thread.Spends (prices id k) (fun _ _ => True) 0 := by
  have hstocked : (budget c id k).Stocked := stocked_budget c id k
  cases h with
  | work => exact spends_of_affords (Conduct.worker_runs hstocked)
  | resume => exact spends_of_affords (Conduct.resumeEscrowTask_runs hstocked _)
  | wakeup => exact spends_of_affords (Conduct.wakeupEscrowTasks_runs hstocked)
  | run hother =>
    exact spends_of_affords (Conduct.localServiceRun_runs (D := budget c id k)
      (good_shares.2 hother.le) _)
  | submit hother =>
    exact spends_of_affords (Tenets.handleServiceSubmit_runs (D := (budget c id k).toTenets) _
      (good_shares.2 hother.le))
  | escrow hother =>
    exact spends_of_affords (Charter.handleServiceEscrow_runs _ fun _ => lodges_pricing hother.le)
  | @act β e halone =>
    refine spends_of_affords (Charter.Still.affords
      (Charter.still_perform ⟨trivial, ?_, fun b => ?_⟩)) <;>
      cases e <;> first | rfl | exact absurd halone (by simp [Action.standsAlone])

variable {i start : Intake}

namespace Intake

variable {c : Node} {w : World} {id : String} {k : ℤ} {delivery : Prog Action Unit}
  {meets : {β : Type} → Action β → Engine → Bool}

/-- One step of a node to which a request for a task is delivered; `meets` is asked
for when a delivery acts. -/
inductive Step (c : Node) (w : World) (id : String) (k : ℤ) (delivery : Prog Action Unit)
    (meets : {β : Type} → Action β → Engine → Bool) : Intake → Intake → Prop
  | start {pool : Pool Action Engine} {deliveries : List (Prog Action Unit)}
      {thread : Prog Action Unit} (hcall : OtherCall c id k thread) :
      Step c w id k delivery meets ⟨pool, deliveries⟩ ⟨pool.spawn thread, deliveries⟩
  | act {pool pool' : Pool Action Engine} {deliveries : List (Prog Action Unit)}
      (hstep : Pool.Step (handler c w) pool pool') :
      Step c w id k delivery meets ⟨pool, deliveries⟩ ⟨pool', deliveries⟩
  | deliver {pool : Pool Action Engine} {deliveries : List (Prog Action Unit)} :
      Step c w id k delivery meets ⟨pool, deliveries⟩ ⟨pool, delivery :: deliveries⟩
  | receive {β : Type} {e : Action β} {next : β → Prog Action Unit} {s : Engine}
      {threads before rest : List (Prog Action Unit)} (hmeets : meets e s = true) :
      Step c w id k delivery meets ⟨⟨s, threads⟩, before ++ .act e next :: rest⟩
        ⟨⟨(exec c w e s).2, threads⟩, before ++ next (exec c w e s).1 :: rest⟩

/-- What may be spent grows with what has happened, and a delivery adds no more to
what is held than it adds to that. -/
structure Allowed (c : Node) (w : World) (id : String) (k : ℤ) (r : Rules Action)
    (meets : {β : Type} → Action β → Engine → Bool) (total : Engine → ℕ) : Prop where
  answers : ∀ {β : Type} (e : Action β) b, r.answers e b
  mono : ∀ {s s' : Engine}, Engine.Logs (fun _ => True) s s' → total s ≤ total s'
  receives : ∀ {β : Type} (e : Action β) s, r.allowed e → meets e s = true →
    held id k (exec c w e s).2 + total s ≤ held id k s + total (exec c w e s).2

/-- The node keeps to what may be spent, and deliveries keep their rules. -/
structure Sound (id : String) (k : ℤ) (r : Rules Action) (total : Engine → ℕ) (i : Intake) :
    Prop where
  funded : i.pool.Funded (prices id k) (held id k) (total i.pool.state)
  delivers : ∀ thread ∈ i.deliveries, thread.Obeys r fun _ => True

theorem Sound.step (ha : Allowed c w id k r meets total)
    (hdelivery : delivery.Obeys r fun _ => True) {i' : Intake} (hi : i.Sound id k r total)
    (hstep : Step c w id k delivery meets i i') : i'.Sound id k r total := by
  cases hstep with
  | start hcall => exact ⟨hi.funded.spawn hcall.spends, hi.delivers⟩
  | @act pool pool' deliveries hact =>
    refine ⟨?_, hi.delivers⟩
    have hlogs : Engine.Logs (fun _ => True) pool.state pool'.state := by
      cases hact with
      | act => exact exec_logs _ _
    refine (hi.funded.step prices_balanced hact).interfere ?_
    exact Nat.add_le_add_left (ha.mono hlogs) _
  | deliver => exact ⟨hi.funded, List.forall_mem_cons.2 ⟨hdelivery, hi.delivers⟩⟩
  | @receive β e next s threads before rest hmeets =>
    obtain ⟨hallowed, hnext⟩ := hi.delivers (.act e next) (by simp)
    refine ⟨hi.funded.interfere (ha.receives e s hallowed hmeets), fun thread hthread => ?_⟩
    simp only [List.mem_append, List.mem_cons] at hthread
    rcases hthread with hbefore | rfl | hrest
    · exact hi.delivers thread (by simp [hbefore])
    · exact hnext _ (ha.answers _ _)
    · exact hi.delivers thread (by simp [hrest])

theorem run_logs {i' : Intake} (hrun : Relation.ReflTransGen (Step c w id k delivery meets) i i') :
    Engine.Logs (fun _ => True) i.pool.state i'.pool.state := by
  induction hrun with
  | refl => exact .of_eq rfl
  | tail _ hstep ih =>
    refine ih.trans ?_
    cases hstep with
    | start | deliver => exact .of_eq rfl
    | act hact =>
      cases hact with
      | act => exact exec_logs _ _
    | receive => exact exec_logs _ _

/-- In every state a node reaches, what it holds stays within what may be spent. -/
theorem held_le_of_run (ha : Allowed c w id k r meets total)
    (hdelivery : delivery.Obeys r fun _ => True) (hs : held id k s ≤ total s)
    (hrun : Relation.ReflTransGen (Step c w id k delivery meets) ⟨⟨s, []⟩, []⟩ i) :
    held id k i.pool.state ≤ total i.pool.state := by
  have hsound : i.Sound id k r total := by
    induction hrun with
    | refl => exact ⟨⟨[], rfl, by simp, by simpa using hs⟩, by simp⟩
    | tail _ hstep ih => exact ih.step ha hdelivery hstep
  exact hsound.funded.held_le

theorem calm_receives {β : Type} {e : Action β} (hquiet : e.moves = false) (s : Engine) :
    held id k (exec c w e s).2 ≤ held id k s := by
  have hbalance := @prices_balanced c w id k _ e s
  have hfree : (prices id k).cost e = 0 := by
    cases e <;> first | rfl | exact absurd hquiet (by simp [Action.moves])
  change held id k (exec c w e s).2 + _ ≤ held id k s + _ at hbalance
  omega

/-! ### Runs on fixed inputs -/

/-- The node after a delivery has run from its start to its end. -/
def delivered (c : Node) (w : World) (delivery : Prog Action Unit) (i : Intake) : Intake :=
  ⟨⟨(delivery.run (handler c w) i.pool.state).2, i.pool.threads⟩, .ret () :: i.deliveries⟩

/-- The node after another call has run from its start to its end. -/
def called (c : Node) (w : World) (thread : Prog Action Unit) (i : Intake) : Intake :=
  ⟨⟨(thread.run (handler c w) i.pool.state).2, .ret () :: i.pool.threads⟩, i.deliveries⟩

/-- Every action of an uninterrupted run meets the condition. -/
def meetsAll (c : Node) (w : World) (meets : {β : Type} → Action β → Engine → Bool) :
    Prog Action Unit → Engine → Bool
  | .ret _, _ => true
  | .act e next, s => meets e s && meetsAll c w meets (next (exec c w e s).1) (exec c w e s).2

theorem run_delivered (hmeets : meetsAll c w meets delivery i.pool.state = true)
    (hrun : Relation.ReflTransGen (Step c w id k delivery meets) start i) :
    Relation.ReflTransGen (Step c w id k delivery meets) start (i.delivered c w delivery) := by
  have hreceives : ∀ (thread : Prog Action Unit) (s : Engine),
      meetsAll c w meets thread s = true → Relation.ReflTransGen
      (Step c w id k delivery meets) ⟨⟨s, i.pool.threads⟩, thread :: i.deliveries⟩
      ⟨⟨(thread.run (handler c w) s).2, i.pool.threads⟩, .ret () :: i.deliveries⟩ := by
    intro thread
    induction thread with
    | ret a => exact fun _ _ => .refl
    | @act β e next ih =>
      intro s hmeets
      obtain ⟨hhead, htail⟩ := Bool.and_eq_true_iff.1 hmeets
      have hfirst : Step c w id k delivery meets
          ⟨⟨s, i.pool.threads⟩, [] ++ .act e next :: i.deliveries⟩
          ⟨⟨(exec c w e s).2, i.pool.threads⟩, [] ++ next (exec c w e s).1 :: i.deliveries⟩ :=
        .receive hhead
      exact .head hfirst (ih _ _ htail)
  exact hrun.trans (.head .deliver (hreceives _ _ hmeets))

theorem run_called (hcall : OtherCall c id k thread)
    (hrun : Relation.ReflTransGen (Step c w id k delivery meets) start i) :
    Relation.ReflTransGen (Step c w id k delivery meets) start (i.called c w thread) := by
  refine hrun.trans (.head (.start hcall) ?_)
  have hruns := Pool.runs (handler c w) thread i.pool.state i.pool.threads
  exact Relation.ReflTransGen.lift (fun pool => (⟨pool, i.deliveries⟩ : Intake))
    (fun _ _ hstep => .act hstep) _ _ hruns

end Intake

/-! ## Deliveries of a submission -/

section Submissions

variable {c : Node} {w : World} {id : String} {k : ℤ}

/-- A task has been put into the queue. -/
def Engine.entered (s : Engine) (id : String) : Bool :=
  s.trace.any fun
    | .queued req => req.taskID = id
    | _ => false

/-- A delivery that comes to queue its request finds the accepted entry of the task,
or the task has never been in the queue. -/
def timely : {β : Type} → Action β → Engine → Bool
  | _, .enqueue req, s => (s.tables.accepted.get req.taskID).isSome || !s.entered req.taskID
  | _, _, _ => true

/-- What a delivery may do: queue its request, and nothing else of weight. -/
def Action.delivers (id : String) : {β : Type} → Action β → Prop
  | _, .enqueue req => req.taskID = id
  | _, e => e.moves = false

/-- The rules of a delivery. -/
def delivering (id : String) : Rules Action where
  allowed e := e.delivers id

/-- Binding a request and queueing it keeps to the task. -/
def keepingTask (c : Node) (id : String) : Tenets c where
  toCharter := .gratis (delivering id) True fun {_ e} he => by
    cases e <;> first | rfl | exact absurd he (by simp [Action.plain])
  toTerms := ⟨fun taskID _ => taskID = id, fun _ _ => True, fun _ taskID _ => taskID = id,
    fun _ => True⟩
  registered _ := trivial
  revision _ := trivial
  raise _ := ⟨fun h => h, fun h => h⟩
  anonymous _ h := h
  carried _ _ := trivial
  initial h _ _ := h
  resolved h _ _ := h
  adopted h _ _ _ _ _ := h
  retargeted h _ := h
  produced h _ := h
  inRange _ := Or.inl trivial
  journals _ := ⟨rfl, rfl, fun _ => rfl⟩
  enqueues hreq := ⟨hreq.owns, Nat.zero_le _, fun _ => le_rfl⟩

theorem handleServiceSubmit_delivers (submitter : String) (req : TaskRequest) :
    (handleServiceSubmit c submitter req).Obeys (delivering req.taskID) fun _ => True := by
  have hreq : (keepingTask c req.taskID).Good 0 req := ⟨rfl, fun _ => trivial, fun _ _ => rfl⟩
  exact (Tenets.handleServiceSubmit_runs submitter hreq).obeys.mono fun _ _ => trivial

theorem entered_iff : s.entered id = true ↔ ∃ req, .queued req ∈ s.trace ∧ req.taskID = id := by
  simp only [Engine.entered, List.any_eq_true]
  constructor
  · rintro ⟨event, hevent, hid⟩
    cases event with
    | queued req => exact ⟨req, hevent, by simpa using hid⟩
    | _ => exact absurd hid (by simp)
  · rintro ⟨req, hreq, hid⟩
    exact ⟨.queued req, hreq, by simpa using hid⟩

/-- What may be spent on a step of a task: nothing before the task has entered the
queue, and the price of one run afterwards. -/
def allowance (id : String) (s : Engine) : ℕ := if s.entered id then 1 else 0

theorem allowance_mono (h : Engine.Logs (fun _ => True) s s') :
    allowance id s ≤ allowance id s' := by
  unfold allowance
  split_ifs with hs hs'
  · exact le_rfl
  · obtain ⟨new, htrace, -⟩ := h
    obtain ⟨req, hreq, hid⟩ := entered_iff.1 hs
    refine absurd (entered_iff.2 ⟨req, ?_, hid⟩) hs'
    rw [htrace]
    exact List.mem_append_left _ hreq
  · exact Nat.zero_le _
  · exact le_rfl

theorem timely_allowed (base : ℕ) :
    Intake.Allowed c w id k (delivering id) timely fun s => base + allowance id s where
  answers _ _ := trivial
  mono h := Nat.add_le_add_left (allowance_mono h) _
  receives e s hdelivers htimely := by
    have hmono : allowance id s ≤ allowance id (exec c w e s).2 := allowance_mono (exec_logs e s)
    by_cases hquiet : e.moves = false
    · have hheld : held id k (exec c w e s).2 ≤ held id k s := Intake.calm_receives hquiet s
      omega
    cases e with
    | enqueue queued =>
      obtain rfl : queued.taskID = id := hdelivers
      simp only [exec]
      rcases enqueue_effect s queued with hsame | ⟨hentry, -, hqueue, hescrow, htrace⟩
      · rw [hsame]
      -- the task has not been here before
      have hnew : s.entered queued.taskID = false := by
        simpa [timely, hentry] using htimely
      have hentered : (s.enqueue queued).2.entered queued.taskID = true :=
        entered_iff.2 ⟨queued, by rw [htrace]; simp, rfl⟩
      have hshare : requestShare queued.taskID k queued ≤ 1 := by
        unfold requestShare share
        split_ifs <;> omega
      rw [held_queued hqueue hescrow htrace]
      simp only [allowance, hnew, hentered, Bool.false_eq_true, if_false, if_true]
      omega
    | _ => exact absurd hdelivers hquiet

/-- A node that neither has a task nor has run a step of it. -/
structure Unseen (s : Engine) (id : String) : Prop where
  queue : ∀ req ∈ s.queue, req.taskID ≠ id
  escrow : s.escrow.get id = none
  executed : ∀ taskID step schema state, .executed taskID step schema state ∈ s.trace →
    taskID ≠ id

theorem requestShare_of_ne {t : TaskRequest} (h : t.taskID ≠ id) : requestShare id k t = 0 := by
  simp [requestShare, share, h]

theorem Unseen.held (h : Unseen s id) (k : ℤ) : held id k s = s.submissions id k := by
  have hqueue : (s.queue.map (requestShare id k)).sum = 0 := by
    refine List.sum_eq_zero fun n hn => ?_
    obtain ⟨req, hreq, rfl⟩ := List.mem_map.1 hn
    exact requestShare_of_ne (h.queue req hreq)
  have hruns : s.executions id k = 0 := by
    refine List.countP_eq_zero.2 fun event hevent => ?_
    cases event with
    | executed taskID step schema state =>
      simp [Event.runs, h.executed taskID step schema state hevent]
    | _ => simp [Event.runs]
  rw [Compute.held, hqueue, hruns, h.escrow]
  simp

end Submissions

/-- However often a request is delivered, and whatever else the node does, it runs a
step of the task at most once, if the deliveries are timely. -/
theorem timely_deliveries_execute_once (c : Node) (w : World) (s : Engine) (submitter : String)
    (req : TaskRequest) (k : ℤ) (hunseen : Unseen s req.taskID) (i : Intake)
    (hrun : Relation.ReflTransGen (Intake.Step c w req.taskID k
      (handleServiceSubmit c submitter req).thread timely) ⟨⟨s, []⟩, []⟩ i) :
    i.pool.state.executions req.taskID k ≤ 1 := by
  have hheld := Intake.held_le_of_run (timely_allowed (s.submissions req.taskID k))
    (handleServiceSubmit_delivers submitter req).thread (by rw [hunseen.held k]; omega) hrun
  have hallowance : allowance req.taskID i.pool.state ≤ 1 := by
    unfold allowance
    split_ifs <;> omega
  -- what was submitted before the first delivery is in both counts
  have hsubmitted : s.submissions req.taskID k ≤ i.pool.state.submissions req.taskID k := by
    obtain ⟨new, htrace, -⟩ := Intake.run_logs hrun
    rw [Engine.submissions, Engine.submissions, htrace, List.countP_append]
    exact Nat.le_add_right _ _
  unfold held at hheld
  omega

/-- Apart from deliveries, and in whatever order its calls act, what a node holds of a step,
with the runs and the hand-overs so far, never grows. -/
theorem work_not_multiplied (c : Node) (w : World) (s : Engine) (id : String) (k : ℤ)
    (i : Intake) (hrun : Relation.ReflTransGen (Intake.Step c w id k (.ret ()) fun _ _ => false)
      ⟨⟨s, []⟩, []⟩ i) : held id k i.pool.state ≤ held id k s := by
  have hallowed : Intake.Allowed c w id k (delivering id) (fun _ _ => false)
      fun _ => held id k s := ⟨fun _ _ => trivial, fun _ => le_rfl, by simp⟩
  exact Intake.held_le_of_run hallowed (by trivial) le_rfl hrun

/-! ## A duplicate after the task was handed on -/

/-- A pipeline whose second step is bound to node `b`. -/
def relayed : PipelineSchema where
  id := "p"
  version := 1
  steps := [{ id := "first", service := "f" },
    { id := "second", service := "g", targetNodeID := "b" }]

/-- Node `a`, which can run the first step. -/
def relayNode : Engine :=
  (({ Engine.new .empty with services := Bucket.empty.put "f" ⟨fun _ => none⟩ } :
    Engine).applyPipelineRevision (.named "a") relayed).2

/-- A request of node `o` for the pipeline. -/
def relayRequest : TaskRequest where
  taskID := "t"
  service := "p"
  requesterNodeID := "o"

/-- Its delivery to node `a`. -/
def relayDelivery : Prog Action Unit := (handleServiceSubmit (.named "a") "o" relayRequest).thread

/-- The request is delivered. -/
def relayReceived : Intake :=
  Intake.delivered (.named "a") .quiet relayDelivery ⟨⟨relayNode, []⟩, []⟩

/-- A worker of node `a` takes a task from the queue. -/
def Intake.worked (i : Intake) : Intake := i.called (.named "a") .quiet (worker (.named "a")).thread

theorem unseen_relayNode : Unseen relayNode relayRequest.taskID := by
  have hqueue : relayNode.queue = [] := rfl
  have htrace : relayNode.trace = [] := rfl
  exact ⟨by simp [hqueue], rfl, by simp [htrace]⟩

/-- One worker runs the step, and the next finds nothing. -/
theorem work_not_multiplied_twice :
    let s := relayReceived.pool.state
    let i := (Intake.mk ⟨s, []⟩ []).worked.worked
    i.pool.state.executions "t" 0 = 1 ∧ held "t" 0 i.pool.state ≤ held "t" 0 s := by
  refine ⟨by decide +kernel, work_not_multiplied (.named "a") .quiet _ _ _ _ ?_⟩
  exact Intake.run_called .work (Intake.run_called .work .refl)

/-- A duplicate that comes while the task waits in the queue. -/
theorem timely_deliveries_execute_once_waiting :
    let i := (relayReceived.delivered (.named "a") .quiet relayDelivery).worked
    Unseen relayNode relayRequest.taskID ∧
    Relation.ReflTransGen (Intake.Step (.named "a") .quiet "t" 0 relayDelivery timely)
      ⟨⟨relayNode, []⟩, []⟩ i ∧
    i.pool.state.executions "t" 0 ≤ 1 := by
  have hrun : Relation.ReflTransGen (Intake.Step (.named "a") .quiet "t" 0 relayDelivery timely)
      ⟨⟨relayNode, []⟩, []⟩ (relayReceived.delivered (.named "a") .quiet relayDelivery).worked := by
    refine Intake.run_called .work (Intake.run_delivered ?_ (Intake.run_delivered ?_ .refl))
    · decide +kernel
    · decide +kernel
  exact ⟨unseen_relayNode, hrun,
    timely_deliveries_execute_once _ _ _ _ relayRequest _ unseen_relayNode _ hrun⟩

/-- The same request is delivered once more after the task was handed on: node `a`
runs the step a second time. -/
theorem late_duplicate_executes_again : ∃ i,
    Unseen relayNode relayRequest.taskID ∧
    Relation.ReflTransGen (Intake.Step (.named "a") .quiet "t" 0 relayDelivery fun _ _ => true)
      ⟨⟨relayNode, []⟩, []⟩ i ∧
    i.pool.state.executions "t" 0 = 2 := by
  refine ⟨(relayReceived.worked.delivered (.named "a") .quiet relayDelivery).worked,
    unseen_relayNode, ?_, ?_⟩
  · refine Intake.run_called .work (Intake.run_delivered ?_ (Intake.run_called .work
      (Intake.run_delivered ?_ .refl)))
    · decide +kernel
    · decide +kernel
  · decide +kernel

end Proxyma.Compute
