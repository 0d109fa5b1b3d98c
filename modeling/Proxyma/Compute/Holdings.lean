import Proxyma.Compute.Discipline
import Proxyma.Compute.StatusLaw

/-!
# What an engine holds

`Engine.Holds` says that everything an engine holds is in the custody it is given
to: the tasks in its queue, its escrow entries, its definitions, the tasks that
are active in its database and what it has sent.  `exec_holds` goes through the
actions once; with the laws of the custody this makes a `Discipline`, so every
call of the engine keeps it.

The database needs a closer look, because it merges checkpoints: `Restorable` is
what is known about a task record, and `restorable_applyJournalRecord` that a
checkpoint keeps it.
-/

namespace Proxyma.Compute

open Keyed Atomic Atomic.Call

/-! ## The journal -/

/-- A task record from which a task can be restored. -/
structure Restorable (v : Custody) (id : String) (record : Storage.TaskRecord) : Prop where
  taskID : record.taskID = id
  flows : ∀ state, record.pipelineState = some state → v.flows id state
  escrow : record.status = "escrow" →
    v.owns id record.requesterNodeID ∧ record.pipelineState.isSome
  owns : record.requesterNodeID = "" ∨ v.owns id record.requesterNodeID

variable {v : Custody} {c : Node} {w : World} {s : Engine} {record : Storage.TaskJournalRecord}
  {task : Storage.TaskRecord}

theorem restorable_newTaskRecord (id : String) (createdAt : ℤ) :
    Restorable v id (Storage.newTaskRecord id createdAt) := by
  refine ⟨rfl, ?_, ?_, .inl rfl⟩
  · rintro _ ⟨⟩
  · exact fun h => absurd h (by simp [Storage.newTaskRecord])

theorem restorable_stored (hreceived : ∀ {id state}, v.flows id state → v.flows id (received state))
    {id : String} {record : Storage.TaskRecord} (h : Restorable v id record) :
    Restorable v id record.stored := by
  refine ⟨h.taskID, ?_, fun hstatus => ?_, h.owns⟩
  · intro state hstate
    obtain ⟨state', hstate', rfl⟩ := Option.map_eq_some_iff.1 hstate
    exact hreceived (h.flows state' hstate')
  · refine ⟨(h.escrow hstatus).1, ?_⟩
    obtain ⟨state, hstate⟩ := Option.isSome_iff_exists.1 (h.escrow hstatus).2
    simp [Storage.TaskRecord.stored, Storage.TaskContext.stored, hstate]

theorem restorable_applyJournalRecord {id : String} {record : Storage.TaskRecord}
    {update : Storage.TaskJournalRecord} (h : Restorable v id record) (hid : update.taskID = id)
    (hupdate : Journaled v.owns v.flows update) :
    Restorable v id (record.applyJournalRecord update) := by
  subst hid
  set requester := Storage.mergeComparable "" record.requesterNodeID update.requesterNodeID true
    with hrequester
  -- the requester is the one of the checkpoint, or the old one if that is empty
  have hcases : requester = update.requesterNodeID ∧ update.requesterNodeID ≠ "" ∨
      requester = record.requesterNodeID ∧ update.requesterNodeID = "" := by
    by_cases hempty : update.requesterNodeID = ""
    · exact .inr ⟨by simp [hrequester, Storage.mergeComparable, hempty], hempty⟩
    · exact .inl ⟨by simp [hrequester, Storage.mergeComparable, hempty], hempty⟩
  have howns : requester = "" ∨ v.owns update.taskID requester := by
    rcases hcases with ⟨heq, hne⟩ | ⟨heq, -⟩
    · exact .inr (heq ▸ hupdate.owns.resolve_left hne)
    · exact heq ▸ h.owns
  have hold : v.owns update.taskID record.requesterNodeID → v.owns update.taskID requester := by
    rcases hcases with ⟨heq, hne⟩ | ⟨heq, -⟩
    · exact fun _ => heq ▸ hupdate.owns.resolve_left hne
    · exact fun hrecord => heq ▸ hrecord
  have hnew : v.owns update.taskID update.requesterNodeID → v.owns update.taskID requester := by
    rcases hcases with ⟨heq, -⟩ | ⟨heq, hempty⟩
    · exact fun hupdated => heq ▸ hupdated
    · intro hupdated
      rcases h.owns with hrecord | hrecord
      · rwa [heq, hrecord, ← hempty]
      · exact heq ▸ hrecord
  have hsome : (record.applyJournalRecord update).pipelineState =
      update.pipelineState.or record.pipelineState := by
    simp only [Storage.TaskRecord.applyJournalRecord, Storage.TaskContext.overlay,
      Storage.TaskContext.merge]
    cases update.pipelineState <;> simp
  refine ⟨h.taskID, ?_, ?_, howns⟩
  · intro state hstate
    rw [hsome] at hstate
    rcases hpipeline : update.pipelineState with _ | state'
    · exact h.flows state (by simpa [hpipeline] using hstate)
    obtain rfl : state' = state := by simpa [hpipeline] using hstate
    exact hupdate.flows state' hpipeline
  · -- a status of `escrow` comes from the checkpoint or was there before
    intro hstatus
    have hcame : update.status = "escrow" ∨ record.status = "escrow" := by
      simp only [Storage.TaskRecord.applyJournalRecord, Storage.TaskContext.overlay,
        Storage.TaskContext.merge] at hstatus
      split_ifs at hstatus with hmigrated hempty
      · exact .inr hstatus
      · simp at hstatus
      · exact .inl hstatus
      · exact .inr hstatus
    rw [hsome]
    rcases hcame with hcame | hcame
    · exact ⟨hnew (hupdate.escrow hcame).1, by simp [(hupdate.escrow hcame).2]⟩
    · exact ⟨hold (h.escrow hcame).1, by simp [(h.escrow hcame).2]⟩

/-! ## The engine -/

/-- An event that shows only values in custody. -/
def Custody.Shows (v : Custody) : Event → Prop
  | .executed taskID step schema state =>
    v.flows taskID state ∧ state.snapshot = some schema ∧
      schema.stepAt state.currentStep = some step
  | .submitted _ req _ => Fine v.owns v.flows req
  | .escalated _ req _ => Carries v.owns v.flows req
  | _ => True

/-- Everything an engine holds is in custody. -/
structure Engine.Holds (v : Custody) (s : Engine) : Prop where
  queue : ∀ t ∈ s.queue, Fine v.owns v.flows t
  escrow : ∀ id task, s.escrow.get id = some task → v.entry task
  active : ∀ id record, s.db.tasksActive.get id = some record → Restorable v id record
  trace : ∀ e ∈ s.trace, v.Shows e
  pipelines : ∀ id S, s.pipelines.get id = some S → v.schema S
  revisions : ∀ id S, s.pipelineRevisions.get id = some S → v.schema S

theorem Engine.Holds.withTables (h : s.Holds v) (tables : TaskTables) :
    (s.withTables tables).Holds v :=
  ⟨h.queue, h.escrow, h.active, h.trace, h.pipelines, h.revisions⟩

theorem Engine.Holds.answered (h : s.Holds v) : s.answered.Holds v :=
  ⟨h.queue, h.escrow, h.active, h.trace, h.pipelines, h.revisions⟩

theorem Engine.Holds.logged (h : s.Holds v) {event : Event} (hevent : v.Shows event) :
    (s.logged event).Holds v := by
  refine ⟨h.queue, h.escrow, h.active, fun e he => ?_, h.pipelines, h.revisions⟩
  rcases List.mem_append.1 he with he | he
  · exact h.trace e he
  · obtain rfl : e = event := by simpa using he
    exact hevent

theorem Engine.Holds.enqueue {req : TaskRequest} (h : s.Holds v)
    (hreq : Fine v.owns v.flows req) : (s.enqueue req).2.Holds v := by
  simp only [Engine.enqueue]
  split
  · split <;> exact h
  split
  · refine ⟨fun t ht => ?_, h.escrow, h.active, fun e he => ?_, h.pipelines, h.revisions⟩
    · rcases List.mem_append.1 ht with ht | ht
      · exact h.queue t ht
      · obtain rfl : t = req := by simpa using ht
        exact hreq
    · rcases List.mem_append.1 he with he | he
      · exact h.trace e he
      · obtain rfl : e = .queued req := by simpa using he
        exact trivial
  · exact h

theorem Engine.Holds.applyPipelineRevision {S : PipelineSchema} (h : s.Holds v) (c : Node)
    (hS : validatePipelineSchema S = none → v.schema S) :
    (s.applyPipelineRevision c S).2.Holds v := by
  obtain ⟨_, _, heq, hpipelines, hrevisions⟩ :=
    applyPipelineRevision_frame c hS h.pipelines h.revisions
  rw [heq]
  exact ⟨h.queue, h.escrow, h.active, h.trace, hpipelines, hrevisions⟩

theorem journaled_sequenced {now : ℤ} {db : Storage.Database} (h : Journaled v.owns v.flows record) :
    Journaled v.owns v.flows (Storage.sequenced (Storage.completeCheckpoint record now) db) := by
  obtain ⟨seq, hseq⟩ := Storage.sequenced_eq (Storage.completeCheckpoint record now) db
  rw [hseq]
  exact ⟨h.flows, h.escrow, h.owns⟩

section Laws

variable (hreceived : ∀ {id state}, v.flows id state → v.flows id (received state))

include hreceived

/-- A checkpoint either ends the task or can be restored from. -/
theorem Engine.Holds.recordCheckpoint (h : s.Holds v) (c : Node) (w : World)
    (hrecord : Storage.isTerminalTaskStatus record.status ∨ Journaled v.owns v.flows record) :
    (s.recordCheckpoint c w record).2.Holds v := by
  simp only [Engine.recordCheckpoint]
  split
  · exact h
  split
  · exact h
  split
  · exact h.answered
  split
  · exact h.answered
  rename_i db hdb
  rw [Storage.appendTaskCheckpointTx_eq] at hdb
  split_ifs at hdb
  obtain rfl : _ = db := congrArg Prod.snd (Except.ok.inj hdb)
  refine ⟨h.queue, h.escrow, fun id task hget => ?_, h.trace, h.pipelines, h.revisions⟩
  set update := Storage.sequenced (Storage.completeCheckpoint record (w.clock s.answers)) s.db
    with hupdate
  obtain ⟨seq, hseq⟩ := Storage.sequenced_eq
    (Storage.completeCheckpoint record (w.clock s.answers)) s.db
  have hid : update.taskID = record.taskID := by rw [hupdate, hseq]; rfl
  have hstatus : update.status = record.status := by rw [hupdate, hseq]; rfl
  simp only [Storage.Database.checkpoint, hid, hstatus] at hget
  split_ifs at hget with hterminal
  · simp only [Bucket.get_erase] at hget
    split_ifs at hget
    exact h.active id task hget
  · simp only [Bucket.get_put] at hget
    split_ifs at hget with hsame
    · subst hsame
      cases hget
      have hjournaled : Journaled v.owns v.flows update :=
        journaled_sequenced (hrecord.resolve_left hterminal)
      simp only [Storage.checkpointed, hid, hstatus, if_neg hterminal]
      refine restorable_stored hreceived
        (restorable_applyJournalRecord ?_ hid hjournaled)
      cases hactive : s.db.tasksActive.get record.taskID with
      | none => exact restorable_newTaskRecord _ _
      | some active => exact h.active _ _ hactive
    · exact h.active id task hget

theorem Engine.Holds.finish (h : s.Holds v) (c : Node) (w : World) (handled : TaskTables.Handled)
    (producerNodeID : String) : (s.finish c w handled producerNodeID).Holds v := by
  have hs := (h.withTables handled.tables).answered
  simp only [Engine.finish]
  split
  · exact hs
  simp only [Engine.recordTerminalResponse]
  split
  · exact hs
  · rename_i response _ hterminal
    refine hs.recordCheckpoint hreceived c w (.inl ?_)
    cases hstatus : response.status <;>
      simp_all [isTerminalTaskStatus, Storage.isTerminalTaskStatus, TaskStatus.text]

theorem Engine.Holds.failAcceptedTask (h : s.Holds v) (c : Node) (w : World) (req : TaskRequest) :
    (s.failAcceptedTask c w req).Holds v := by
  simp only [Engine.failAcceptedTask]
  split
  · exact h.withTables _
  · exact (((h.withTables _).answered).recordCheckpoint hreceived c w (.inl rfl)).withTables _

theorem Engine.Holds.failAcceptedTasks (h : s.Holds v) (c : Node) (w : World)
    (tasks : List TaskRequest) : (tasks.foldl (Engine.failAcceptedTask c w) s).Holds v := by
  induction tasks generalizing s with
  | nil => exact h
  | cons req rest ih => exact ih (h.failAcceptedTask hreceived c w req)

/-- Every permitted action keeps what the engine holds in custody. -/
theorem exec_holds (c : Node) (w : World) {β : Type} (e : Action β) (s : Engine)
    (he : v.Permits e) (h : s.Holds v) : (exec c w e s).2.Holds v := by
  cases e with
  | acceptTaskCallback _ _ | recordTaskResponse _ => exact h.finish hreceived c w _ _
  | failAcceptedTasks => exact h.failAcceptedTasks hreceived c w _
  | enqueue req => exact h.enqueue he
  | dequeue =>
    refine ⟨fun t ht => ?_, h.escrow, h.active, h.trace, h.pipelines, h.revisions⟩
    exact h.queue t (List.mem_of_mem_tail ht)
  | putEscrow req =>
    refine ⟨h.queue, fun id task htask => ?_, h.active, h.trace, h.pipelines, h.revisions⟩
    simp only [exec, Table.get_insert] at htask
    split_ifs at htask
    · exact Option.some.inj htask ▸ he
    · exact h.escrow id task htask
  | takeEscrow taskID =>
    refine ⟨h.queue, fun id task htask => ?_, h.active, h.trace, h.pipelines, h.revisions⟩
    simp only [exec, Table.get_erase] at htask
    split_ifs at htask
    exact h.escrow id task htask
  | applyPipelineRevision S => exact h.applyPipelineRevision c he
  | fetchServiceBid peerID query => exact h.answered.logged trivial
  | submitToPeer _ _ | sendTaskEscrow _ _ => exact h.answered.logged he
  | sendTaskResponse replyTo response => exact h.logged trivial
  | execute taskID step schema state payload => exact h.answered.logged he
  | checkpoint record => exact h.recordCheckpoint hreceived c w (.inr he)
  | _ => exact ⟨h.queue, h.escrow, h.active, h.trace, h.pipelines, h.revisions⟩

end Laws

/-- A custody that the engine's holdings provide for. -/
def Custody.Lawful.discipline {panics : Prop} (hv : v.Lawful c panics) (w : World) :
    Discipline c w where
  toCustody := v
  inv := Engine.Holds v
  panics := panics
  lawful := hv
  registered h hget := h.pipelines _ _ hget
  revision h hget := h.revisions _ _ hget
  kept e s he h := exec_holds hv.received c w e s he h

/-! ## Restarts -/

/-- An engine that comes up over the database of an earlier one.  The trace goes
on, so that it still shows what the node has sent. -/
def Engine.reopened (s : Engine) (services : Bucket String RegisteredService) : Engine :=
  { Engine.new s.db with services := services, trace := s.trace, answers := s.answers }

/-- The tasks that are active in an engine's database. -/
def Engine.activeTasks (s : Engine) : List Storage.TaskRecord :=
  s.db.tasksActive.entries.map Prod.snd

/-- The engine of a node after a restart. -/
def Engine.restarted (c : Node) (w : World) (s : Engine)
    (services : Bucket String RegisteredService) (schemas : List PipelineSchema) : Engine :=
  ((startEngine schemas s.activeTasks).prog.run (handler c w) (s.reopened services)).2

theorem Engine.Holds.reopened (h : s.Holds v) (services : Bucket String RegisteredService) :
    (s.reopened services).Holds v := by
  refine ⟨?_, ?_, h.active, h.trace, ?_, ?_⟩
  · intro t ht
    simp [Engine.reopened, Engine.new] at ht
  all_goals
    intro id _ hget
    simp [Engine.reopened, Engine.new] at hget

theorem Engine.Holds.restorable (h : s.Holds v) (htask : task ∈ s.activeTasks) :
    Restorable v task.taskID task := by
  obtain ⟨⟨id, task⟩, hmem, rfl⟩ := List.mem_map.1 htask
  have hrestorable := h.active id task (Bucket.mem_entries.1 hmem)
  exact hrestorable.taskID ▸ hrestorable

theorem Engine.Holds.carries (h : s.Holds v) (htask : task ∈ s.activeTasks)
    (hstatus : task.status = "escrow") (stepID : String) :
    Carries v.owns v.flows (restoredEntry task stepID) := by
  have hrestorable := h.restorable htask
  obtain ⟨howns, hsome⟩ := hrestorable.escrow hstatus
  obtain ⟨state, hstate⟩ := Option.isSome_iff_exists.1 hsome
  exact ⟨howns, state, hstate, hrestorable.flows state hstate⟩

theorem journaled_zombieCheckpoint (h : Restorable v task.taskID task) :
    Journaled v.owns v.flows (zombieCheckpoint task) :=
  ⟨h.flows, fun hstatus => absurd hstatus (by simp [zombieCheckpoint]), h.owns⟩

/-- A restart keeps the holdings if the tasks it puts back into escrow are
entries of the node. -/
theorem Engine.Holds.restarted (hv : v.Lawful c True) (w : World) (h : s.Holds v)
    (services : Bucket String RegisteredService) {schemas : List PipelineSchema}
    (hschemas : ∀ S ∈ schemas, validatePipelineSchema S = none → v.schema S)
    (hentry : ∀ task ∈ s.activeTasks, task.status = "escrow" →
      ∀ stepID, v.entry (restoredEntry task stepID)) :
    (s.restarted c w services schemas).Holds v := by
  have hobeys : (startEngine schemas s.activeTasks).Obeys (hv.discipline w).rules
      ((hv.discipline w).Returns fun _ => True) := by
    refine Discipline.after (Discipline.registerPipelines_obeys hschemas) fun _ => ?_
    exact Discipline.restoreActiveTasks_obeys trivial hentry
      fun task htask => journaled_zombieCheckpoint (h.restorable htask)
  exact (hobeys.ends (hv.discipline w).rules_sound (h.reopened services)).2

end Proxyma.Compute
