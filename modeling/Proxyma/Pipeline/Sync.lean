import Proxyma.Pipeline.Registry

/-!
# Pushing pipelines to a peer

When a peer joins, `syncCatalogToPeer` pushes the pipelines of a node to it:
those that `ListPipelines` lists, and these are the live ones.  The receiver
checks each against the service schemas it knows and applies it as a revision.
A push waits in the outbox under the identifier of its pipeline until the
receiver has answered that it was applied.

Two nodes push to each other.  Whatever the order of pushes and deliveries, and
however often a delivery is refused before it succeeds, a node ends with its own
revision or with the live revision of the other that replaces it (`Adopted`).
So after all pushes were applied the nodes agree on a pipeline exactly if they
agreed before or the greater of their revisions is live: a deletion is never
pushed.
-/

namespace Proxyma

open Keyed Compute Outbox

variable {s : PipelineRegistry} {m : PipelineSchema} {a : Option PipelineSchema}

/-! ## Checking ports -/

/-- The ports of a service and their types: what a pipeline check reads of a
`ServiceSchema`. -/
structure ServicePorts where
  parameters : List (String × String)
  outputs : List (String × String)

/-- The closure `formatParams` of `ValidatePipelineSchema`. -/
def formatParams (params : List (String × String)) : String :=
  if params = [] then "none"
  else String.intercalate ", "
    ((params.map fun p => p.1 ++ " (" ++ p.2 ++ ")").insertionSort (· ≤ ·))

/-- The node a step is bound to, as an error message names it. -/
def onNode (step : PipelineStep) : String :=
  if step.targetNodeID = "" then "" else " on node '" ++ step.targetNodeID ++ "'"

/-- The check of the source port of a connection against the type of its target. -/
def validateSourcePort (lookup : String → Option ServicePorts) (conn : PipelineConnection)
    (fromStep toStep : PipelineStep) (paramType : String) : Option GoError :=
  let link := [conn.fromStep, conn.fromPort, conn.toStep, conn.toPort]
  (lookup fromStep.service).bind fun fromSchema =>
    match lookupKey fromSchema.outputs conn.fromPort with
    | none =>
      if fromSchema.outputs = [] then none
      else some (.errorf ("invalid connection link [%s].%s ──► [%s].%s: " ++
        "port '%s' is not a valid output for step '%s' (running service '%s'%s). " ++
        "Available output ports for service '%s': [%s]")
        (link ++ [conn.fromPort, conn.fromStep, fromStep.service, onNode fromStep,
          fromStep.service, formatParams fromSchema.outputs]))
    | some outType =>
      if outType = paramType then none
      else some (.errorf ("type mismatch on connection link [%s].%s ──► [%s].%s: " ++
        "source port '%s' outputs type '%s' (service '%s'%s, step '%s'), " ++
        "but target port '%s' requires type '%s' (service '%s'%s, step '%s')")
        (link ++ [conn.fromPort, outType, fromStep.service, onNode fromStep, conn.fromStep,
          conn.toPort, paramType, toStep.service, onNode toStep, conn.toStep]))

/-- The check of the ports of a connection, as far as their services are known. -/
def validatePorts (lookup : String → Option ServicePorts) (schema : PipelineSchema)
    (conn : PipelineConnection) : Option GoError :=
  let link := [conn.fromStep, conn.fromPort, conn.toStep, conn.toPort]
  (schema.steps.find? fun step => step.id = conn.toStep).bind fun toStep =>
    (lookup toStep.service).bind fun toSchema =>
      match lookupKey toSchema.parameters conn.toPort with
      | none =>
        let note :=
          if (lookupKey toSchema.outputs conn.toPort).isSome then
            " (Note: '" ++ conn.toPort ++ "' is defined as an OUTPUT port for service '" ++
              toStep.service ++ "', not an input parameter!)"
          else ""
        some (.errorf ("invalid connection link [%s].%s ──► [%s].%s: " ++
          "port '%s' is not a valid input parameter for step '%s' (running service '%s'%s). " ++
          "Expected input parameters for service '%s': [%s]%s")
          (link ++ [conn.toPort, conn.toStep, toStep.service, onNode toStep, toStep.service,
            formatParams toSchema.parameters, note]))
      | some paramType =>
        if conn.fromStep = initialStep then none
        else
          (schema.steps.find? fun step => step.id = conn.fromStep).bind fun fromStep =>
            validateSourcePort lookup conn fromStep toStep paramType

/-- `ValidatePipelineSchema` with known service schemas. -/
def validatePipelineSchemaWith (lookup : String → Option ServicePorts) (schema : PipelineSchema) :
    Option GoError :=
  if schema.id = "" then some errEmptyPipelineID
  else if schema.steps = [] then some (.errorf "pipeline must have at least one step" [])
  else
    match validateSteps [] schema.steps with
    | some err => some err
    | none =>
      if pipelineHasCycle schema then
        some (.errorf "pipeline contains a cycle in Connections" [])
      else schema.connections.findSome? fun conn =>
        (validateConnection schema conn).or (validatePorts lookup schema conn)

theorem validatePipelineSchemaWith_none (schema : PipelineSchema) :
    validatePipelineSchemaWith (fun _ => none) schema = validatePipelineSchema schema := by
  have hports : ∀ conn, validatePorts (fun _ => none) schema conn = none := by
    intro conn
    unfold validatePorts
    cases schema.steps.find? fun step => step.id = conn.toStep <;> rfl
  simp only [validatePipelineSchemaWith, validatePipelineSchema, hports, Option.or_none]
  all_goals rfl

/-! ## Notifications -/

/-- `HandleSchemaNotify`: the status of the answer, its error and the registry
afterwards. -/
def handleSchemaNotify (c : Node) (lookup : String → Option ServicePorts) (fault : Option GoError)
    (s : PipelineRegistry) (schema : PipelineSchema) (action : RequestedAction) :
    ℕ × Option GoError × PipelineRegistry :=
  let schema := normalizePipelineSchemaVersion schema
  let invalid := if action = .known .add then validatePipelineSchemaWith lookup schema else none
  match invalid with
  | some err => (400, some (.wrapf "invalid pipeline schema: %w" [] err), s)
  | none =>
    match s.applyPipelineAction c fault schema action with
    | (some err, s) => (500, some err, s)
    | (none, s) => (200, none, s)

def PipelineRegistry.listPipelines (s : PipelineRegistry) : List PipelineSchema :=
  s.compute.pipelines.entries.map Prod.snd

/-- Two nodes, what each of them still has to tell the other, and which of them
has pushed its catalog. -/
structure Pair where
  registry : Bool → PipelineRegistry
  outbox : Bool → Bucket String PipelineSchema
  pushed : Bool → Bool

/-- Two nodes that have not met. -/
def Pair.start (registry : Bool → PipelineRegistry) : Pair := ⟨registry, fun _ => .empty, fun _ => false⟩

/-- What can happen: a node pushes its catalog, or an entry of its outbox is
delivered.  The receiver's service schemas, the error of its transaction and
whether its answer arrives may be different each time. -/
inductive PairMove
  | sync (node : Bool)
  | deliver (node : Bool) (id : String) (lookup : String → Option ServicePorts)
      (fault : Option GoError) (answered : Bool)

/-- The outbox after `NotifySchemaToPeer` for each of the listed pipelines. -/
def stageSchemas (outbox : Bucket String PipelineSchema) (schemas : List PipelineSchema) :
    Bucket String PipelineSchema :=
  schemas.foldl (fun outbox schema =>
    let schema := normalizePipelineSchemaVersion schema
    outbox.put schema.id schema) outbox

def Pair.move (c : Bool → Node) (p : Pair) : PairMove → Pair
  | .sync node =>
    { p with
      outbox := Function.update p.outbox node
        (stageSchemas (p.outbox node) (p.registry node).listPipelines)
      pushed := Function.update p.pushed node true }
  | .deliver node id lookup fault answered =>
    match (p.outbox node).get id with
    | none => p
    | some schema =>
      let out := handleSchemaNotify (c !node) lookup fault (p.registry !node) schema (.known .add)
      { p with
        registry := Function.update p.registry (!node) out.2.2
        outbox :=
          if out.1 = 200 ∧ answered = true then
            Function.update p.outbox node ((p.outbox node).erase id)
          else p.outbox }

/-- Both nodes have pushed and nothing waits. -/
def Pair.Complete (p : Pair) : Prop :=
  ∀ node, p.pushed node = true ∧ ∀ id, (p.outbox node).get id = none

/-! ## What a delivery does -/

/-- The revision of a pipeline on a node. -/
def Pair.revision (p : Pair) (node : Bool) (id : String) : Option PipelineSchema :=
  (p.registry node).revision id

/-- Revisions of a registry have a version. -/
def PipelineRegistry.Normal (s : PipelineRegistry) : Prop :=
  ∀ id schema, s.revision id = some schema → normalizePipelineSchemaVersion schema = schema

theorem PipelineRegistry.Normal.run {c : Node} (h : s.Normal) (call : RevisionCall) :
    (call.run c s).2.Normal := by
  intro id schema hget
  rcases call.run_cases c s with ⟨⟨err, hsame⟩, -⟩ | ⟨next, hnext, -, -, hpublished⟩
  · rw [hsame] at hget
    exact h id schema hget
  rw [hpublished.revision_eq] at hget
  split_ifs at hget
  · cases hget
    exact RevisionCall.normalize_revision hnext
  · exact h id schema hget

theorem normal_applyCalls (c : Node) (db : Storage.Database) (calls : List RevisionCall) :
    (applyCalls c db calls).Normal := by
  induction calls using List.reverseRecOn with
  | nil =>
    intro id schema hget
    cases hget
  | append_singleton calls call ih =>
    rw [applyCalls_append]
    exact ih.run call

/-- A notification of a live revision is refused without effect, or acts as a
call that publishes the revision. -/
theorem handleSchemaNotify_cases (c : Node) (lookup : String → Option ServicePorts)
    (fault : Option GoError) (s : PipelineRegistry) (hnormal : normalizePipelineSchemaVersion m = m) :
    let out := handleSchemaNotify c lookup fault s m (.known .add)
    (out.1 ≠ 200 ∧ out.2.2 = s) ∨
      (out.2.2 = (RevisionCall.run c s ⟨m, .known .add, fault⟩).2 ∧
        PipelineRegistry.Published s out.2.2 m) := by
  have hrevision : RevisionCall.revision ⟨m, .known .add, fault⟩ = some m := by
    simp only [RevisionCall.revision, requestedRevision, hnormal]
    rfl
  have hrun : s.applyPipelineAction c fault m (.known .add) =
      RevisionCall.run c s ⟨m, .known .add, fault⟩ := rfl
  simp only [handleSchemaNotify, hnormal, if_true, hrun]
  cases validatePipelineSchemaWith lookup m with
  | some err => exact .inl ⟨(by decide : (400 : ℕ) ≠ 200), rfl⟩
  | none =>
    have hcases := RevisionCall.run_cases c s ⟨m, .known .add, fault⟩
    generalize RevisionCall.run c s ⟨m, .known .add, fault⟩ = out at hcases ⊢
    rcases hcases with ⟨⟨err, rfl⟩, -⟩ | ⟨next, hnext, -, hok, hpublished⟩
    · exact .inl ⟨(by decide : (500 : ℕ) ≠ 200), rfl⟩
    · obtain ⟨result, s'⟩ := out
      obtain rfl : result = none := hok
      cases hnext.symm.trans hrevision
      exact .inr ⟨rfl, hpublished⟩

/-! ## What the nodes know of each other -/

/-- Where a node can be with a pipeline: at the revision it started with, or at
the live revision of the other node that replaces it. -/
def Adopted (own other now : Option PipelineSchema) : Prop :=
  now = own ∨ ∃ m, other = some m ∧ m.deleted = false ∧ now = some m ∧ Succeeds own (some m)

/-- What a node pushes about a pipeline is live, and one of the revisions that
the nodes started with. -/
structure Pushes (id : String) (own other : Option PipelineSchema) (m : PipelineSchema) : Prop where
  named : m.id = id
  normal : normalizePipelineSchemaVersion m = m
  live : m.deleted = false
  known : own = some m ∨ other = some m

/-- What holds at any time of two nodes that started with the registries `r`. -/
structure Pair.Inv (r : Bool → PipelineRegistry) (p : Pair) : Prop where
  coherent : ∀ node, (p.registry node).Coherent
  normal : ∀ node, (p.registry node).Normal
  adopted : ∀ node id, Adopted ((r node).revision id) ((r !node).revision id) (p.revision node id)
  pushes : ∀ node id m, (p.outbox node).get id = some m →
    Pushes id ((r node).revision id) ((r !node).revision id) m

/-! ## Pushing a catalog -/

theorem get_stageSchemas {schemas : List PipelineSchema} {live : Bucket String PipelineSchema}
    (hschemas : ∀ a ∈ schemas, normalizePipelineSchemaVersion a = a ∧ live.get a.id = some a)
    (outbox : Bucket String PipelineSchema) (id : String) :
    (stageSchemas outbox schemas).get id =
      if id ∈ schemas.map PipelineSchema.id then live.get id else outbox.get id := by
  induction schemas generalizing outbox with
  | nil => rfl
  | cons schema rest ih =>
    obtain ⟨⟨hnormal, hlive⟩, hrest⟩ := List.forall_mem_cons.1 hschemas
    have hstep : stageSchemas outbox (schema :: rest) =
        stageSchemas (outbox.put schema.id schema) rest := by
      simp [stageSchemas, hnormal]
    rw [hstep, ih hrest, Bucket.get_put]
    by_cases hid : id = schema.id <;> simp [hid, hlive]

theorem PipelineRegistry.Coherent.mem_listPipelines (h : s.Coherent) {schema : PipelineSchema} :
    schema ∈ s.listPipelines ↔ s.compute.pipelines.get schema.id = some schema := by
  simp only [listPipelines, List.mem_map, Prod.exists, exists_eq_right, Bucket.mem_entries]
  constructor
  · rintro ⟨id, hget⟩
    have hid := h.named id schema ((h.live id schema).1 hget).1
    rw [hid, hget]
  · intro hget
    exact ⟨schema.id, hget⟩

theorem get_stageSchemas_listPipelines (hcoherent : s.Coherent) (hnormal : s.Normal)
    (outbox : Bucket String PipelineSchema) (id : String) :
    (stageSchemas outbox s.listPipelines).get id =
      (s.compute.pipelines.get id).or (outbox.get id) := by
  have hkeys : id ∈ s.listPipelines.map PipelineSchema.id ↔
      (s.compute.pipelines.get id).isSome := by
    simp only [List.mem_map, hcoherent.mem_listPipelines, Option.isSome_iff_exists]
    constructor
    · rintro ⟨m, hget, rfl⟩
      exact ⟨m, hget⟩
    · rintro ⟨m, hget⟩
      have hid := hcoherent.named id m ((hcoherent.live id m).1 hget).1
      exact ⟨m, by rw [hid, hget], hid⟩
  have hlisted : ∀ a ∈ s.listPipelines, normalizePipelineSchemaVersion a = a ∧
      s.compute.pipelines.get a.id = some a := by
    intro a ha
    have hget := hcoherent.mem_listPipelines.1 ha
    exact ⟨hnormal a.id a ((hcoherent.live _ _).1 hget).1, hget⟩
  rw [get_stageSchemas hlisted, if_congr hkeys rfl rfl]
  cases s.compute.pipelines.get id <;> simp

/-! ## Moves -/

section Runs

variable {r : Bool → PipelineRegistry} {c : Bool → Node}

theorem Pair.inv_start (hcoherent : ∀ node, (r node).Coherent) (hnormal : ∀ node, (r node).Normal) :
    (Pair.start r).Inv r where
  coherent := hcoherent
  normal := hnormal
  adopted := fun _ _ => .inl rfl
  pushes := fun _ _ _ h => by cases h

/-- What a delivery does to the pair: nothing, or it publishes a pushed revision at the
receiver. -/
theorem Pair.Inv.deliver_cases {p : Pair} (h : p.Inv r) (node : Bool) (id : String)
    (lookup : String → Option ServicePorts) (fault : Option GoError) (answered : Bool) :
    p.move c (.deliver node id lookup fault answered) = p ∨
      ∃ m s outbox, p.move c (.deliver node id lookup fault answered) =
          ⟨Function.update p.registry (!node) s, outbox, p.pushed⟩ ∧
        (p.outbox node).get id = some m ∧
        Pushes id ((r node).revision id) ((r !node).revision id) m ∧
        s = (RevisionCall.run (c !node) (p.registry !node) ⟨m, .known .add, fault⟩).2 ∧
        PipelineRegistry.Published (p.registry !node) s m ∧
        (outbox = p.outbox ∨
          outbox = Function.update p.outbox node ((p.outbox node).erase id)) := by
  rcases hm : (p.outbox node).get id with _ | m
  · exact .inl (by simp only [Pair.move, hm])
  have hpush := h.pushes node id m hm
  simp only [Pair.move, hm]
  rcases handleSchemaNotify_cases (c !node) lookup fault (p.registry !node) hpush.normal with
    ⟨hstatus, hsame⟩ | ⟨hafter, hpublished⟩
  · refine .inl ?_
    rw [hsame, if_neg (fun h => hstatus h.1), Function.update_eq_self]
  · refine .inr ⟨m, _, _, rfl, rfl, hpush, hafter, hpublished, ?_⟩
    split_ifs
    · exact .inr rfl
    · exact .inl rfl

theorem Pair.Inv.sync {p : Pair} (h : p.Inv r) (node : Bool) : (p.move c (.sync node)).Inv r where
  coherent := h.coherent
  normal := h.normal
  adopted := h.adopted
  pushes := by
    refine (Function.forall_update_iff p.outbox fun node outbox => ∀ id m, outbox.get id = some m →
      Pushes id ((r node).revision id) ((r !node).revision id) m).2
      ⟨fun id m hget => ?_, fun node' _ => h.pushes node'⟩
    rw [get_stageSchemas_listPipelines (h.coherent node) (h.normal node)] at hget
    cases hlive : (p.registry node).compute.pipelines.get id with
    | none =>
      rw [hlive, Option.none_or] at hget
      exact h.pushes node id m hget
    | some m' =>
      rw [hlive] at hget
      obtain rfl := Option.some.inj hget
      obtain ⟨hrevision, hdeleted⟩ := ((h.coherent node).live id m').1 hlive
      refine ⟨(h.coherent node).named id m' hrevision, h.normal node id m' hrevision, hdeleted, ?_⟩
      rcases h.adopted node id with hown | ⟨m, hother, -, hnow, -⟩
      · exact .inl (hown.symm.trans hrevision)
      · exact .inr (hother.trans (hnow.symm.trans hrevision))

variable (hhash : ∀ node, Function.Injective (c node).pipelineSchemaHash)

include hhash

theorem Pair.Inv.deliver {p : Pair} (h : p.Inv r) (node : Bool) (id : String)
    (lookup : String → Option ServicePorts) (fault : Option GoError) (answered : Bool) :
    (p.move c (.deliver node id lookup fault answered)).Inv r := by
  rcases h.deliver_cases node id lookup fault answered with
    hsame | ⟨m, s, outbox, hmove, -, hpush, hs, hpublished, houtbox⟩
  · rwa [hsame]
  rw [hmove]
  refine ⟨(Function.forall_update_iff p.registry fun _ s => s.Coherent).2
      ⟨hs ▸ (h.coherent _).run _, fun node' _ => h.coherent node'⟩,
    (Function.forall_update_iff p.registry fun _ s => s.Normal).2
      ⟨hs ▸ (h.normal _).run _, fun node' _ => h.normal node'⟩,
    (Function.forall_update_iff p.registry fun node s => ∀ id,
      Adopted ((r node).revision id) ((r !node).revision id) (s.revision id)).2
      ⟨fun id' => ?_, fun node' _ => h.adopted node'⟩, ?_⟩
  · rw [hpublished.revision_eq, hpush.named]
    by_cases hid : id' = id
    · subst hid
      rw [if_pos rfl]
      rcases hpush.known with hown | hother
      · refine .inr ⟨m, by rw [Bool.not_not, hown], hpush.live, rfl, ?_⟩
        have hsucceeds := succeeds_run (hhash !node) (p.registry !node)
          ⟨m, .known .add, fault⟩ id'
        rw [← hs, hpublished.revision_eq, hpush.named, if_pos rfl] at hsucceeds
        rcases h.adopted (!node) id' with hold | ⟨m', hm', -, -, hm'own⟩
        · exact hold ▸ hsucceeds
        · rw [Bool.not_not, hown] at hm'
          exact Option.some.inj hm' ▸ hm'own
      · exact .inl hother.symm
    · rw [if_neg hid]
      exact h.adopted _ id'
  · rcases houtbox with rfl | rfl
    · exact h.pushes
    refine (Function.forall_update_iff p.outbox fun node outbox => ∀ id m,
      outbox.get id = some m → Pushes id ((r node).revision id) ((r !node).revision id) m).2
      ⟨fun id' m' hget => h.pushes node id' m' ?_, fun node' _ => h.pushes node'⟩
    rw [Bucket.get_erase] at hget
    split_ifs at hget
    exact hget

theorem Pair.Inv.move {p : Pair} (h : p.Inv r) (move : PairMove) : (p.move c move).Inv r := by
  cases move with
  | sync node => exact h.sync node
  | deliver node id lookup fault answered => exact h.deliver hhash node id lookup fault answered

theorem Pair.Inv.succeeds_move {p : Pair} (h : p.Inv r) (move : PairMove) (node : Bool)
    (id : String) : Succeeds (p.revision node id) ((p.move c move).revision node id) := by
  cases move with
  | sync node' => exact Succeeds.refl _
  | deliver node' id' lookup fault answered =>
    rcases h.deliver_cases node' id' lookup fault answered with
      hsame | ⟨m, s, outbox, hmove, -, -, hs, -, -⟩
    · rw [hsame]
      exact Succeeds.refl _
    · rw [hmove]
      exact (Function.forall_update_iff p.registry fun node s => Succeeds (p.revision node id)
        (s.revision id)).2 ⟨hs ▸ succeeds_run (hhash !node') _ _ id, fun _ _ => .refl _⟩ node

end Runs

/-! ## The greater revision -/

/-- A node started with a live revision of the pipeline that is above that of
the other. -/
structure Leads (r : Bool → PipelineRegistry) (node : Bool) (id : String) (m : PipelineSchema) :
    Prop where
  held : (r node).revision id = some m
  live : m.deleted = false
  above : rankOf ((r !node).revision id) < rankOf (some m)

section Leads

variable {r : Bool → PipelineRegistry} {c : Bool → Node} {p : Pair} {node : Bool} {id : String}
  {m : PipelineSchema}

theorem Leads.kept (hlead : Leads r node id m) (h : p.Inv r) : p.revision node id = some m := by
  rcases h.adopted node id with hown | ⟨m', hother, -, -, hsucceeds⟩
  · rw [hown, hlead.held]
  · have hle := hsucceeds.rankOf_le
    rw [hlead.held, ← hother] at hle
    exact absurd hlead.above (not_lt.2 hle)

theorem Leads.adopted_or_own (hlead : Leads r node id m) (h : p.Inv r) :
    p.revision (!node) id = some m ∨ p.revision (!node) id = (r !node).revision id := by
  rcases h.adopted (!node) id with hown | ⟨m', hother, -, hnow, -⟩
  · exact .inr hown
  · rw [Bool.not_not, hlead.held] at hother
    rw [hnow, Option.some.inj hother]
    exact .inl rfl

/-- Once it is pushed, the greater revision has arrived or waits in the outbox. -/
def Spreads (p : Pair) (node : Bool) (id : String) (m : PipelineSchema) : Prop :=
  p.pushed node = true → p.revision (!node) id = some m ∨ (p.outbox node).get id = some m

theorem Leads.spreads_sync (hlead : Leads r node id m) (h : p.Inv r) (hspreads : Spreads p node id m)
    (node' : Bool) : Spreads (p.move c (.sync node')) node id m := by
  intro hpushed
  by_cases hnode : node = node'
  · subst hnode
    refine .inr ?_
    have hlive := ((h.coherent node).live id m).2 ⟨hlead.kept h, hlead.live⟩
    simp only [Pair.move, Function.update_self,
      get_stageSchemas_listPipelines (h.coherent node) (h.normal node), hlive]
    rfl
  · simp only [Pair.move, Function.update_of_ne hnode] at hpushed ⊢
    exact hspreads hpushed

variable (hhash : ∀ node, Function.Injective (c node).pipelineSchemaHash)

include hhash

theorem Leads.stays_adopted (hlead : Leads r node id m) (h : p.Inv r)
    (hadopted : p.revision (!node) id = some m) (move : PairMove) :
    (p.move c move).revision (!node) id = some m := by
  rcases hlead.adopted_or_own (h.move hhash move) with hnow | hown
  · exact hnow
  · have hle := (h.succeeds_move hhash move (!node) id).rankOf_le
    rw [hadopted, hown] at hle
    exact absurd hlead.above (not_lt.2 hle)

theorem Leads.spreads_deliver (hlead : Leads r node id m) (h : p.Inv r)
    (hspreads : Spreads p node id m) (node' : Bool) (id' : String)
    (lookup : String → Option ServicePorts) (fault : Option GoError) (answered : Bool) :
    Spreads (p.move c (.deliver node' id' lookup fault answered)) node id m := by
  intro hpushed
  rcases h.deliver_cases node' id' lookup fault answered with
    hsame | ⟨m', s, outbox, hmove, hm, hpush, hs, hpublished, houtbox⟩
  · rw [hsame] at hpushed ⊢
    exact hspreads hpushed
  have hbefore : p.pushed node = true := by
    rwa [hmove] at hpushed
  rcases hspreads hbefore with harrived | hwaits
  · exact .inl (hlead.stays_adopted hhash h harrived _)
  by_cases hsame : node' = node ∧ id' = id
  · -- The revision itself is delivered.
    obtain ⟨rfl, rfl⟩ := hsame
    cases hm.symm.trans hwaits
    refine .inl ?_
    rw [hmove, Pair.revision]
    simp only [Function.update_self]
    rw [hpublished.revision_eq, hpush.named, if_pos rfl]
  · refine .inr ?_
    rw [hmove]
    rcases houtbox with rfl | rfl
    · exact hwaits
    by_cases hnode : node = node'
    · subst hnode
      have hid : id ≠ id' := fun heq => hsame ⟨rfl, heq.symm⟩
      simp only [Function.update_self]
      rw [Bucket.get_erase, if_neg hid, hwaits]
    · simp only [Function.update_of_ne hnode]
      exact hwaits

theorem Leads.spreads_move (hlead : Leads r node id m) (h : p.Inv r)
    (hspreads : Spreads p node id m) (move : PairMove) : Spreads (p.move c move) node id m := by
  cases move with
  | sync node' => exact hlead.spreads_sync h hspreads node'
  | deliver node' id' lookup fault answered =>
    exact hlead.spreads_deliver hhash h hspreads node' id' lookup fault answered

end Leads

/-! ## Runs -/

/-- The pair after a sequence of moves. -/
def Pair.run (c : Bool → Node) (r : Bool → PipelineRegistry) (moves : List PairMove) : Pair :=
  moves.foldl (Pair.move c) (.start r)

/-- The nodes have the same revision of a pipeline, or the greater of their
revisions is live. -/
def LatestLive (a b : Option PipelineSchema) : Prop :=
  a = b ∨ ∃ m : PipelineSchema, m.deleted = false ∧
    ((a = some m ∧ rankOf b < rankOf a) ∨ (b = some m ∧ rankOf a < rankOf b))

/-- The revisions of two nodes have one definition for each version. -/
def Compatible (a b : Option PipelineSchema) : Prop :=
  ∀ x y, a = some x → b = some y → x.version = y.version → x.definition = y.definition

theorem LatestLive.symm {b : Option PipelineSchema} (h : LatestLive a b) : LatestLive b a := by
  rcases h with heq | ⟨m, hlive, hleft | hright⟩
  · exact .inl heq.symm
  · exact .inr ⟨m, hlive, .inr hleft⟩
  · exact .inr ⟨m, hlive, .inl hright⟩

theorem Compatible.symm {b : Option PipelineSchema} (h : Compatible a b) : Compatible b a :=
  fun x y hx hy hversion => (h y x hy hx hversion.symm).symm

/-- A live revision that replaces another is the greater one, or the same. -/
theorem Compatible.latestLive (h : Compatible a (some m)) (hlive : m.deleted = false)
    (hsucceeds : Succeeds a (some m)) : LatestLive a (some m) := by
  rcases lt_or_eq_of_le hsucceeds.rankOf_le with hlt | hrank
  · exact .inr ⟨m, hlive, .inr ⟨rfl, hlt⟩⟩
  refine .inl ?_
  rcases a with _ | x
  · cases hrank
  have hpair : (x.version, x.deleted) = (m.version, m.deleted) :=
    toLex.injective (WithBot.coe_injective hrank)
  have hdefinition := h x m rfl rfl (congrArg Prod.fst hpair)
  rw [PipelineSchema.eq_of_definition hdefinition (congrArg Prod.snd hpair)]

section Agreement

variable {r : Bool → PipelineRegistry} {c : Bool → Node} {id : String}
  (hhash : ∀ node, Function.Injective (c node).pipelineSchemaHash)
  (hcoherent : ∀ node, (r node).Coherent) (hnormal : ∀ node, (r node).Normal)

include hhash hcoherent hnormal

theorem Pair.inv_run (moves : List PairMove) : (Pair.run c r moves).Inv r := by
  induction moves using List.reverseRecOn with
  | nil => exact Pair.inv_start hcoherent hnormal
  | append_singleton moves move ih =>
    rw [Pair.run, List.foldl_append]
    exact ih.move hhash move

theorem Leads.spreads_run {node : Bool} (hlead : Leads r node id m) (moves : List PairMove) :
    Spreads (Pair.run c r moves) node id m := by
  induction moves using List.reverseRecOn with
  | nil =>
    intro hpushed
    cases hpushed
  | append_singleton moves move ih =>
    have hinv := Pair.inv_run hhash hcoherent hnormal moves
    rw [Pair.run, List.foldl_append]
    exact hlead.spreads_move hhash hinv ih move

omit hhash hcoherent hnormal in
theorem Pair.Inv.revision_of_agree {p : Pair} (h : p.Inv r)
    (hagree : ∀ node, (r node).revision id = (r !node).revision id) (node : Bool) :
    p.revision node id = (r node).revision id := by
  rcases h.adopted node id with hown | ⟨m, hother, -, hnow, -⟩
  · exact hown
  · rw [hnow, hagree node, hother]

omit hhash hcoherent hnormal in
/-- Nodes that agree now agreed at first, or one has adopted what the other had. -/
theorem Pair.Inv.latestLive {p : Pair} (h : p.Inv r)
    (hcompatible : Compatible ((r false).revision id) ((r true).revision id))
    (hagree : p.revision false id = p.revision true id) :
    LatestLive ((r false).revision id) ((r true).revision id) := by
  rcases h.adopted false id with hfalse | ⟨m, hother, hlive, -, hsucceeds⟩
  · rcases h.adopted true id with htrue | ⟨m, hother, hlive, -, hsucceeds⟩
    · exact .inl (hfalse.symm.trans (hagree.trans htrue))
    · rw [Bool.not_true] at hother
      have hsymm := hcompatible.symm
      rw [hother] at hsymm ⊢
      exact (hsymm.latestLive hlive hsucceeds).symm
  · rw [Bool.not_false] at hother
    rw [hother] at hcompatible ⊢
    exact hcompatible.latestLive hlive hsucceeds

theorem Leads.agree {node : Bool} (hlead : Leads r node id m) {moves : List PairMove}
    (hcomplete : (Pair.run c r moves).Complete) :
    (Pair.run c r moves).revision node id = some m ∧
      (Pair.run c r moves).revision (!node) id = some m := by
  refine ⟨hlead.kept (Pair.inv_run hhash hcoherent hnormal moves), ?_⟩
  obtain ⟨hpushed, hempty⟩ := hcomplete node
  rcases hlead.spreads_run hhash hcoherent hnormal moves hpushed with harrived | hwaits
  · exact harrived
  · simp [hempty id] at hwaits

end Agreement

end Proxyma
