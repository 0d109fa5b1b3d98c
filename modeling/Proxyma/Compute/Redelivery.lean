import Proxyma.Compute.Deliveries
import Proxyma.Compute.EscrowUnfinished

/-!
# Duplicate escrow requests

`PutTaskInEscrow` recognises a duplicate by the entry of the task in the escrow table.
A resumption has emptied the table, while the node that sent the request may still
speak for the task, so a late duplicate passes the checks of `HandleServiceEscrow`,
goes back into escrow and is resumed again.

A delivery that finds the task `stillWaiting` at its step replaces an entry by one of
the same share, so it adds nothing to what the coordinator holds.
-/

namespace Proxyma.Compute

open Keyed Atomic Atomic.Call

section Escrow

variable {c : Node} {w : World} {id : String} {k : ℤ}

/-- A delivery that comes to store its request finds an entry of the task at the
same step. -/
def stillWaiting : {β : Type} → Action β → Engine → Bool
  | _, .putEscrow e, s => (s.escrow.get e.taskID).any fun entry =>
    entry.pipelineState.map PipelineExecutionState.currentStep =
      e.pipelineState.map PipelineExecutionState.currentStep
  | _, _, _ => true

/-- What the delivery of an escrow request may do: store an entry for its task, and
nothing else of weight. -/
def Action.stores (id : String) : {β : Type} → Action β → Prop
  | _, .putEscrow e => e.taskID = id
  | _, e => e.moves = false

/-- The rules of such a delivery. -/
def storing (id : String) : Rules Action where
  allowed e := e.stores id

theorem handleServiceEscrow_stores (producer : String) (req : TaskEscrowRequest) :
    (handleServiceEscrow c producer req).Obeys (storing req.taskID) fun _ => True := by
  have hplain : ∀ {β : Type} {e : Action β}, e.plain = true → e.stores req.taskID := by
    intro β e he
    cases e <;> first | rfl | exact absurd he (by simp [Action.plain])
  have hlodges : (Charter.gratis (storing req.taskID) True hplain).Lodges c 0 req :=
    fun _ _ => ⟨⟨rfl, rfl, fun _ => rfl⟩, rfl, le_rfl⟩
  exact (Charter.handleServiceEscrow_runs producer fun _ => hlodges).obeys.mono fun _ _ => trivial

/-- An entry that replaces one of the same step adds nothing. -/
theorem stillWaiting_allowed (total : ℕ) :
    Intake.Allowed c w id k (storing id) stillWaiting fun _ => total where
  answers _ _ := trivial
  mono _ := le_rfl
  receives e s hstores hwaiting := by
    refine Nat.add_le_add_right ?_ _
    by_cases hquiet : e.moves = false
    · exact Intake.calm_receives hquiet s
    cases e with
    | putEscrow entry =>
      obtain rfl : entry.taskID = id := hstores
      obtain ⟨current, hcurrent, hstep⟩ : ∃ current, s.escrow.get entry.taskID = some current ∧
          current.pipelineState.map PipelineExecutionState.currentStep =
            entry.pipelineState.map PipelineExecutionState.currentStep := by
        simpa [stillWaiting, Option.any_eq_true] using hwaiting
      have hshare : entryShare entry.taskID k entry = entryShare entry.taskID k current := by
        rw [entryShare, entryShare, hstep, Table.key_of_get hcurrent]
      simp only [exec, held, Engine.executions, Engine.submissions, Table.get_insert, if_true,
        hcurrent, Option.map_some, Option.getD_some, hshare]
      exact le_rfl
    | _ => exact absurd hstores hquiet

end Escrow

/-- How many requests in the queue are for a task that has yet to come to a step. -/
def Engine.queuedFor (s : Engine) (id : String) (k : ℤ) : ℕ :=
  s.queue.countP fun req => req.taskID = id ∧ stepIndexOf req.pipelineState ≤ k

/-- A task waits in escrow at a step or before it; an entry that carries no state
may be resumed at any step. -/
def Engine.escrowedFor (s : Engine) (id : String) (k : ℤ) : Bool :=
  (s.escrow.get id).any fun entry =>
    (entry.pipelineState.map PipelineExecutionState.currentStep).all fun index => index ≤ k

section Counts

variable {id : String} {k : ℤ}

theorem queuedFor_eq (s : Engine) :
    s.queuedFor id k = (s.queue.map (requestShare id k)).sum := by
  unfold Engine.queuedFor
  induction s.queue with
  | nil => rfl
  | cons req rest ih =>
    rw [List.countP_cons, List.map_cons, List.sum_cons, ← ih, requestShare, share, Nat.add_comm]
    simp

theorem escrowedFor_eq (s : Engine) :
    (s.escrowedFor id k).toNat = ((s.escrow.get id).map (entryShare id k)).getD 0 := by
  unfold Engine.escrowedFor
  rcases hentry : s.escrow.get id with _ | entry
  · rfl
  have hid : entry.taskID = id := Table.key_of_get hentry
  rcases hindex : entry.pipelineState.map PipelineExecutionState.currentStep with _ | index
  · simp [entryShare, share, hindex, hid]
  by_cases hle : index ≤ k
  · simp [entryShare, share, hindex, hid, hle]
  · simp [entryShare, share, hindex, hid, hle]

theorem held_eq (s : Engine) :
    held id k s = s.queuedFor id k + (s.escrowedFor id k).toNat +
      (s.executions id k + s.submissions id k) := by
  rw [queuedFor_eq, escrowedFor_eq, held]

end Counts

/-- What holds of a coordinator in state `s'` that took an escrow request in state
`s`: apart from what was in the queue already, the step has been dispatched once at
most, and when it has been, the task is not in escrow for it again. -/
def DispatchedOnce (id : String) (k : ℤ) (s s' : Engine) : Prop :=
  s'.executions id k + s'.submissions id k + s'.queuedFor id k + (s'.escrowedFor id k).toNat ≤
    s.executions id k + s.submissions id k + s.queuedFor id k + 1

/-- An escrow request that has been taken is delivered again any number of times.  If
each delivery that comes to store it finds the task still waiting, then the step is
not dispatched a second time, and no delivery puts the task back into escrow. -/
theorem redelivered_escrow_dispatches_once (c : Node) (w : World) (s₀ : Engine)
    (producer : String) (req : TaskEscrowRequest) (k : ℤ) (i : Intake)
    (hrun : Relation.ReflTransGen (Intake.Step c w req.taskID k
      (handleServiceEscrow c producer req).thread stillWaiting)
      ⟨⟨((handleServiceEscrow c producer req).prog.run (handler c w) s₀).2, []⟩, []⟩ i) :
    DispatchedOnce req.taskID k ((handleServiceEscrow c producer req).prog.run (handler c w) s₀).2
      i.pool.state ∧
    ∀ i', Intake.Step c w req.taskID k (handleServiceEscrow c producer req).thread stillWaiting
        i i' → i.pool.state.escrow.get req.taskID = none →
      (i'.pool.state.escrow.get req.taskID).isSome → Pool.Step (handler c w) i.pool i'.pool := by
  set s := ((handleServiceEscrow c producer req).prog.run (handler c w) s₀).2
  have hheld := Intake.held_le_of_run (stillWaiting_allowed (held req.taskID k s))
    (handleServiceEscrow_stores producer req).thread le_rfl hrun
  refine ⟨?_, fun i' hstep hout hin => ?_⟩
  · have hone : (s.escrowedFor req.taskID k).toNat ≤ 1 := Bool.toNat_le _
    rw [held_eq, held_eq] at hheld
    unfold DispatchedOnce
    omega
  · cases hstep with
    | act hact => exact hact
    | start | deliver => simp [Pool.spawn, hout] at hin
    | @receive β e next s threads before rest hmeets =>
      rcases exec_escrow c w e s hin with hbefore | hputs
      · simp [hout] at hbefore
      cases e with
      | putEscrow entry =>
        have hid : entry.taskID = req.taskID := hputs
        simp only [stillWaiting, hid] at hmeets
        simp [hout] at hmeets
      | _ => exact absurd hputs id

/-! ## A duplicate after the task was resumed -/

/-- A world in which the service finder always names node `d`. -/
def World.finding : World := { World.quiet with serviceFinder := fun _ _ _ => .ok "d" }

/-- The pipeline of the task that `a` has started, and that `b` could not continue. -/
def stalledSchema : PipelineSchema where
  id := "p"
  version := 1
  steps := [{ id := "first", service := "f" }, { id := "second", service := "g" }]

/-- The coordinator, which has selected `b` for the first step. -/
def stalledNode : Engine :=
  (exec (.named "a") .finding (.registerOutgoingTask
    { taskID := "t", service := "p", requesterNodeID := "a", expectedProducerNodeID := "b" } ["b"])
    (.new .empty)).2

/-- What `b` sends: it has run the first step and found no node for the second. -/
def stalledTask : TaskEscrowRequest where
  taskID := "t"
  service := "p"
  requesterNodeID := "a"
  stepID := "second"
  stepIndex := 1
  error := "no nodes available"
  producerNodeID := "b"
  pipelineState := some
    { pipelineID := "p", pipelineVersion := 1, currentStep := 1, snapshot := some stalledSchema
      outputs := some [("first", [])]
      outputProducers := some [(initialStep, "a"), ("first", "b")] }

def stalledDelivery : Prog Action Unit := (handleServiceEscrow (.named "a") "b" stalledTask).thread

/-- The request has been taken. -/
def stalledTaken : Engine :=
  ((handleServiceEscrow (.named "a") "b" stalledTask).prog.run (handler (.named "a") .finding)
    stalledNode).2

/-- The task is resumed. -/
def Intake.resumed (i : Intake) : Intake :=
  i.called (.named "a") .finding (resumeEscrowTask (.named "a") "t").thread

/-- The request comes once more while the task is waiting; then it is resumed. -/
theorem redelivered_escrow_dispatches_once_waiting :
    let i := (Intake.delivered (.named "a") .finding stalledDelivery ⟨⟨stalledTaken, []⟩, []⟩).resumed
    Relation.ReflTransGen (Intake.Step (.named "a") .finding "t" 1 stalledDelivery stillWaiting)
      ⟨⟨stalledTaken, []⟩, []⟩ i ∧
    i.pool.state.submissions "t" 1 = 1 ∧ DispatchedOnce "t" 1 stalledTaken i.pool.state := by
  have hrun : Relation.ReflTransGen
      (Intake.Step (.named "a") .finding "t" 1 stalledDelivery stillWaiting)
      ⟨⟨stalledTaken, []⟩, []⟩
      (Intake.delivered (.named "a") .finding stalledDelivery ⟨⟨stalledTaken, []⟩, []⟩).resumed := by
    refine Intake.run_called .resume (Intake.run_delivered ?_ .refl)
    decide +kernel
  exact ⟨hrun, by decide +kernel,
    (redelivered_escrow_dispatches_once (.named "a") .finding stalledNode "b" stalledTask 1 _
      hrun).1⟩

/-- The request comes once more after the task was resumed: the task is in escrow
again, and the step is dispatched a second time. -/
theorem late_escrow_duplicate_dispatches_again : ∃ back again,
    ((handleServiceEscrow (.named "a") "b" stalledTask).prog.run (handler (.named "a") .finding)
      stalledNode).1 = some none ∧
    Relation.ReflTransGen (Intake.Step (.named "a") .finding "t" 1 stalledDelivery
      fun _ _ => true) ⟨⟨stalledTaken, []⟩, []⟩ back ∧
    Relation.ReflTransGen (Intake.Step (.named "a") .finding "t" 1 stalledDelivery
      fun _ _ => true) back again ∧
    stalledTaken.submissions "t" 1 = 0 ∧ stalledTaken.queuedFor "t" 1 = 0 ∧
    back.pool.state.submissions "t" 1 = 1 ∧ back.pool.state.escrowedFor "t" 1 = true ∧
    again.pool.state.submissions "t" 1 = 2 := by
  let back := (Intake.resumed ⟨⟨stalledTaken, []⟩, []⟩).delivered (.named "a") .finding
    stalledDelivery
  have haccepted : ((handleServiceEscrow (.named "a") "b" stalledTask).prog.run
      (handler (.named "a") .finding) stalledNode).1.map Option.isNone = some true := by
    decide +kernel
  refine ⟨back, back.resumed, ?_, ?_, ?_, ?_, ?_, ?_, ?_, ?_⟩
  · obtain ⟨answer, hanswer, hnone⟩ := Option.map_eq_some_iff.1 haccepted
    rw [hanswer, Option.isNone_iff_eq_none.1 hnone]
  · refine Intake.run_delivered ?_ (Intake.run_called .resume .refl)
    decide +kernel
  · exact Intake.run_called .resume .refl
  all_goals decide +kernel

end Proxyma.Compute
