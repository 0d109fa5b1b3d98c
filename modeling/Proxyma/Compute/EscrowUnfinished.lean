import Proxyma.Compute.Escrow
import Proxyma.Compute.StatusLaw

/-!
# Finished tasks in escrow

The escrow table and the status tables know nothing of each other: a callback that
finishes a task does not look into escrow, and a task is put back into escrow after a
failed dispatch without a look at its status.  So the two have to be kept
apart from outside.  `SparesEscrow` says how: no task in escrow is finished or
given up, and no finished task is put there.  Along every sequence of actions of that
kind the tasks in escrow stay unfinished.

The part that needs an argument is retention.  `exec_active` says that an action
keeps the active entry of a task that is young, while there is room in the table.
-/

namespace Proxyma.Compute

open Keyed Atomic TaskTables

variable {t : TaskTables} {id : String} {s : Engine} {t' : TaskTables}
  {response : ServiceTaskResponse} {β : Type} {e : Action β} {status : TaskStatus}

/-! ## Active entries that stay -/

theorem HasRoom.mono {m n : ℕ} (h : HasRoom t n) (hmn : m ≤ n) : HasRoom t m :=
  h.imp_right fun h => by omega

theorem hasRoom_stored {n : ℕ} (h : HasRoom t (n + 1)) (response : ServiceTaskResponse) :
    HasRoom (t.stored response) n := by
  refine h.imp_right fun h => ?_
  have hlength : (t.stored response).responses.length ≤ t.responses.length + 1 := by
    simpa [responses, stored, Table.insert] using
      Bucket.length_put_le t.statuses.rows response.taskID response
  change ((t.stored response).responses.length : ℤ) + n ≤ t.statusLimit
  push_cast at h
  omega

/-- An active task that retention has no reason to give up, even if one more
response is stored. -/
structure Secure (t : TaskTables) (id : String) (now : ℤ) : Prop where
  active : (t.statuses.get id).isSome
  young : Young t id now
  room : HasRoom t 1

/-- The delegate that a callback adds does not make a task older. -/
theorem Secure.adjusted {now : ℤ} (h : Secure t id now) (hadjusted : Adjusted t t') :
    Secure t' id now := by
  have hlimit : t'.statusLimit = t.statusLimit := congrArg Prod.fst hadjusted.limits
  refine ⟨hadjusted.statuses ▸ h.active, ⟨hadjusted.kept id h.young.metadata, fun r hr => ?_⟩, ?_⟩
  · rw [← h.young.unexpired r (hadjusted.statuses ▸ hr)]
    have hlimits := hadjusted.limits
    simp only [limits, Prod.mk.injEq] at hlimits
    have htouched := hadjusted.touched r.taskID
    simp only [metadataOf] at htouched
    simp only [isExpired, htouched, hlimits]
  · simpa [HasRoom, responses, hadjusted.statuses, hlimit] using h.room

/-- A retention pass after a response has been stored and its task touched keeps
every secure task. -/
theorem prune_stored_active {now : ℤ} (h : Secure t id now) (hputs : Puts now response t t') :
    ((t'.pruneTaskStatuses now response.taskID).statuses.get id).isSome := by
  by_cases hid : id = response.taskID
  · subst hid
    rw [hputs.kept]
    rfl
  · have hget : t'.statuses.get id = t.statuses.get id := by
      rw [hputs.statuses, Table.get_insert_of_ne _ hid]
    have hyoung' : Young t' id now := by
      refine ⟨by rw [hputs.others id hid]; exact h.young.metadata, fun r hr => ?_⟩
      have hkey : r.taskID = id := Table.key_of_get hr
      rw [isExpired_congr hputs.limits (by rw [hkey]; exact hputs.others id hid)]
      exact h.young.unexpired r (hget.symm.trans hr)
    have hroom' : HasRoom t' 0 := by
      have hstored := hasRoom_stored h.room response
      have hlimit : t'.statusLimit = t.statusLimit := congrArg Prod.fst hputs.limits
      simpa [HasRoom, responses, stored, hputs.statuses, hlimit] using hstored
    rw [pruneTaskStatuses_young hyoung' hroom', hget]
    exact h.active

theorem exec_active (c : Node) (w : World) (e : Action β) (s : Engine)
    (he : e.failsAccepted = false) (h : Secure s.tables id (w.clock s.answers)) :
    ((exec c w e s).2.tables.statuses.get id).isSome := by
  by_cases hreports : e.reports = true
  · have hturn := exec_turn c w e s he hreports
    generalize (exec c w e s).2.tables = t' at hturn ⊢
    cases hturn with
    | adjust hadjusted => exact hadjusted.statuses ▸ h.active
    | store hstores hadjusted hputs => exact prune_stored_active (h.adjusted hadjusted) hputs
    | look hcovers =>
      rw [hcovers.statuses, pruneTaskStatuses_young h.young (h.room.mono (by omega))]
      exact h.active
  · rw [(exec_unreported c w e s (by simpa using hreports)).1]
    exact h.active

/-! ## The escrow table -/

/-- The task an action puts into escrow. -/
def Action.escrows : {β : Type} → Action β → String → Prop
  | _, .putEscrow req, id => req.taskID = id
  | _, _, _ => False

/-- What is in escrow after an action was there before, or has just been put
there. -/
theorem exec_escrow (c : Node) (w : World) (e : Action β) (s : Engine)
    (hin : ((exec c w e s).2.escrow.get id).isSome) : (s.escrow.get id).isSome ∨ e.escrows id := by
  have hframe := exec_frame c w e s
  cases e with
  | putEscrow req =>
    simp only [exec, Table.get_insert] at hin
    split_ifs at hin with hid
    · exact .inr hid.symm
    · exact .inl hin
  | takeEscrow taskID =>
    simp only [exec, Table.get_erase] at hin
    split_ifs at hin
    · simp at hin
    · exact .inl hin
  | enqueue req =>
    simp only [exec, Engine.enqueue] at hin
    repeat' split at hin
    all_goals exact .inl hin
  | applyPipelineRevision schema =>
    simp only [exec, Engine.applyPipelineRevision] at hin
    repeat' split at hin
    all_goals exact .inl hin
  | dequeue | close => exact .inl hin
  | fetchServiceBid | submitToPeer | sendTaskEscrow | sendTaskResponse | execute =>
    exact .inl hin
  | _ =>
    obtain ⟨_, _, _, heq⟩ := hframe rfl
    rw [heq] at hin
    exact .inl hin

/-- Every task in escrow is unfinished. -/
def Unfinished (s : Engine) : Prop :=
  ∀ id, (s.escrow.get id).isSome → ∀ status, s.tables.reported id = some status →
    isTerminalTaskStatus status = false

/-- What has to be kept apart from outside: no authorized callback and no other
terminal response for a task in escrow, no finished task into escrow. -/
def KeepsApart : {β : Type} → Action β → Engine → Prop
  | _, .acceptTaskCallback producer response, s =>
    isAuthorizedCallbackProducer producer (s.tables.metadataOf response.taskID) = true →
      s.escrow.get response.taskID = none
  | _, .recordTaskResponse response, s =>
    isTerminalTaskStatus response.status = true → s.escrow.get response.taskID = none
  | _, .setTaskStatus response, s =>
    isTerminalTaskStatus response.status = true → s.escrow.get response.taskID = none
  | _, .putEscrow req, s =>
    ∀ status, s.tables.reported req.taskID = some status → isTerminalTaskStatus status = false
  | _, .failAcceptedTasks, _ => False
  | _, _, _ => True

/-- The steps that leave every task in escrow unfinished: they keep finished tasks
apart from escrow, and retention has no reason to give up a task in escrow. -/
structure SparesEscrow (w : World) {β : Type} (e : Action β) (s : Engine) : Prop where
  apart : KeepsApart e s
  room : HasRoom s.tables 1
  young : ∀ id, (s.escrow.get id).isSome → (s.tables.statuses.get id).isSome →
    Young s.tables id (w.clock s.answers)

theorem KeepsApart.not_failsAccepted (he : KeepsApart e s) : e.failsAccepted = false := by
  cases e <;> first | rfl | exact absurd he id

/-- A report after retention has kept the active entry was the report before. -/
theorem AgedAt.reported_before {active retired active' retired' : Option ServiceTaskResponse}
    (h : AgedAt active retired active' retired') (hstays : active.isSome → active'.isSome)
    (hstatus : (active'.or retired').map ServiceTaskResponse.status = some status) :
    (active.or retired).map ServiceTaskResponse.status = some status := by
  cases h with
  | kept hretired => rcases hretired with rfl | rfl <;> cases active <;> simp_all
  | deleted _ _ | retired _ _ => simp at hstays

theorem KeepsApart.stores (he : KeepsApart e s) (hstores : Stores e s.tables response)
    (hin : (s.escrow.get response.taskID).isSome) :
    isTerminalTaskStatus response.status = false := by
  have hheld : s.escrow.get response.taskID ≠ none := Option.isSome_iff_ne_none.1 hin
  cases e with
  | registerOutgoingTask req delegated =>
    rw [hstores.2]
    rfl
  | acceptTaskCallback producer callback =>
    rw [hstores.taskID] at hheld
    exact absurd (he hstores.authorized) hheld
  | recordTaskResponse _ | setTaskStatus _ =>
    obtain ⟨rfl, -⟩ := hstores
    exact Bool.eq_false_iff.2 fun hterminal => hheld (he hterminal)
  | _ => exact absurd hstores id

/-- What was in escrow before a step is still unfinished after it. -/
theorem Unfinished.stays {c : Node} {w : World} (hs : Unfinished s) (he : SparesEscrow w e s)
    (hin : (s.escrow.get id).isSome) (hstatus : (exec c w e s).2.tables.reported id = some status) :
    isTerminalTaskStatus status = false := by
  have hfails := he.apart.not_failsAccepted
  -- retention has no reason to give the task up
  have hstays : (s.tables.statuses.get id).isSome →
      ((exec c w e s).2.tables.statuses.get id).isSome := fun hactive =>
    exec_active c w e s hfails ⟨hactive, he.young id hin hactive, he.room⟩
  rcases exec_tables c w e s hfails with haged | ⟨response, hstores, haged, hkept⟩
  · exact hs id hin status ((haged.entry id).reported_before hstays hstatus)
  by_cases hid : id = response.taskID
  · subst hid
    obtain rfl : response.status = status := by simpa [reported, hkept] using hstatus
    exact he.apart.stores hstores hin
  · have hget : (s.tables.stored response).statuses.get id = s.tables.statuses.get id :=
      Table.get_insert_of_ne _ hid
    have hbefore := (haged.entry id).reported_before (by rwa [hget]) hstatus
    rw [hget] at hbefore
    exact hs id hin status hbefore

theorem unfinished_step (c : Node) (w : World) (e : Action β) (s : Engine) (he : SparesEscrow w e s)
    (hs : Unfinished s) : Unfinished (exec c w e s).2 := by
  intro id hin status hstatus
  rcases exec_escrow c w e s hin with hin | hputs
  · exact hs.stays he hin hstatus
  cases e with
  | putEscrow req =>
    obtain rfl : req.taskID = id := hputs
    exact he.apart status hstatus
  | _ => exact absurd hputs not_false

/-- In every run of one engine that keeps finished tasks apart from escrow and does
not give up a task in escrow, no task in escrow is reported as completed or
failed.  What is taken out to be dispatched is therefore unfinished. -/
theorem escrow_unfinished (c : Node) (w : World) (db : Storage.Database) (s : Engine)
    (hrun : Relation.ReflTransGen (Acts (handler c w) (SparesEscrow w)) (Engine.new db) s) :
    (∀ id entry status, s.escrow.get id = some entry → s.tables.reported id = some status →
        status ≠ .completed ∧ status ≠ .failed) ∧
      ∀ id entry status, (exec c w (.takeEscrow id) s).1 = some entry →
        s.tables.reported id = some status → status ≠ .completed ∧ status ≠ .failed := by
  have hnew : Unfinished (Engine.new db) := by
    intro id hin
    simp [Engine.new] at hin
  have hunfinished : Unfinished s :=
    Acts.run (fun e s he hs => unfinished_step c w e s he hs) hnew hrun
  have hheld : ∀ id entry status, s.escrow.get id = some entry →
      s.tables.reported id = some status → status ≠ .completed ∧ status ≠ .failed := by
    intro id entry status hget hstatus
    have hterminal := hunfinished id (by simp [hget]) status hstatus
    constructor <;> rintro rfl <;> simp at hterminal
  exact ⟨hheld, hheld⟩

/-- A task that `a` sends to `b`. -/
def sentRequest : TaskRequest :=
  { taskID := "task", service := "scan", expectedProducerNodeID := "b" }

/-- The engine of `a` afterwards. -/
def sentEngine : Engine :=
  ((handler (.named "a") .quiet).exec (.registerOutgoingTask sentRequest []) (.new .empty)).2

/-- What `b` sends back for lack of a node. -/
def scanEscrow : TaskEscrowRequest :=
  { taskID := "task", service := "scan", producerNodeID := "b", error := "no nodes available" }

theorem escrow_unfinished_sent :
    sentEngine.tables.reported "task" = some .pending ∧
      TaskStatus.pending ≠ .completed ∧ TaskStatus.pending ≠ .failed := by
  let held := ((handler (.named "a") .quiet).exec (.putEscrow scanEscrow) sentEngine).2
  have hreported : sentEngine.tables.reported "task" = some .pending := by decide +kernel
  have hfirst : SparesEscrow .quiet (.registerOutgoingTask sentRequest []) (.new .empty) := by
    refine ⟨trivial, .inr (by decide +kernel), fun id hin => ?_⟩
    simp [Engine.new] at hin
  have hsecond : SparesEscrow .quiet (.putEscrow scanEscrow) sentEngine := by
    refine ⟨fun status hstatus => ?_, .inr (by decide +kernel), fun id hin => ?_⟩
    · cases hreported.symm.trans hstatus
      rfl
    · have hempty : sentEngine.escrow = .empty := rfl
      simp [hempty] at hin
  have hrun : Relation.ReflTransGen (Acts (handler (.named "a") .quiet) (SparesEscrow .quiet))
      (.new .empty) held :=
    (Relation.ReflTransGen.single (.act hfirst)).tail (.act hsecond)
  have hget : held.escrow.get "task" = some scanEscrow := Table.get_insert_self _ scanEscrow
  exact ⟨hreported, (escrow_unfinished (.named "a") .quiet .empty held hrun).1 "task" scanEscrow
    .pending hget hreported⟩

/-- After the escrow request of `b` its answer comes in as well; the task is
completed and waits in escrow, from where it is dispatched. -/
theorem callback_finishes_task_in_escrow :
    let h := handler (.named "a") .quiet
    let escrowed := (handleServiceEscrow (.named "a") "b" scanEscrow).prog.run h sentEngine
    let answered := h.exec (.acceptTaskCallback "b" (scanReport .completed)) escrowed.2
    escrowed.1 = some none ∧ answered.1 = none ∧
      answered.2.tables.reported "task" = some .completed ∧
      (answered.2.escrow.get "task").isSome = true ∧
      (h.exec (.takeEscrow "task") answered.2).1.isSome = true := by
  decide +kernel

end Proxyma.Compute
