import Proxyma.Lib.Bucket
import Proxyma.Protocol

/-!
# The local catalog and what is said about it

A node has pipelines, services and files, and tells its peers about them.  A `Payload` is
what it says; `Catalog.current` is what there is to say about an entity now, and a
`Mutation` changes one entity and has its own payload.  Both say what the catalog holds
(`Catalog.current_reflects`, `Mutation.apply_reflects`).
-/

namespace Proxyma.Outbox

open Keyed

/-- `gossipKind`. -/
inductive GossipKind
  | pipeline
  | service
  | vfs
  deriving DecidableEq

def GossipKind.text : GossipKind → String
  | .pipeline => "pipeline"
  | .service => "service"
  | .vfs => "vfs"

/-- `ActionAdd` and `ActionRemove`. -/
inductive CatalogAction
  | add
  | remove
  deriving DecidableEq

/-- `ServiceSchema`; what it says beside the name is one text. -/
structure ServiceSchema where
  name : String
  definition : String := ""
  deriving DecidableEq

/-- The payloads of `PipelineNotification`, `ServiceNotification` and `PeerNotification`. -/
inductive Payload
  | pipeline (action : CatalogAction) (schema : PipelineSchema)
  | service (action : CatalogAction) (schema : ServiceSchema)
  | vfs (file : IndexEntry)
  deriving DecidableEq

/-- What is committed on this node: pipeline revisions, services and the index of files,
each under its own name. -/
structure Catalog where
  pipelines : Bucket String PipelineSchema
  services : Bucket String ServiceSchema
  files : Bucket String IndexEntry
  pipelines_id : ∀ {id schema}, pipelines.get id = some schema → schema.id = id
  services_name : ∀ {name schema}, services.get name = some schema → schema.name = name
  files_name : ∀ {name file}, files.get name = some file → file.name = name

/-- The catalog of a new node. -/
def Catalog.empty : Catalog :=
  ⟨.empty, .empty, .empty, fun h => by simp at h, fun h => by simp at h, fun h => by simp at h⟩

def nonEmpty (text : String) : Option String := if text = "" then none else some text

def notificationEntityFromPayload : GossipKind → Payload → Option String
  | .pipeline, .pipeline _ schema => nonEmpty schema.id
  | .service, .service _ schema => nonEmpty schema.name
  | .vfs, .vfs file => nonEmpty file.name
  | _, _ => none

/-- The action that announces a pipeline revision. -/
def actionFor (schema : PipelineSchema) : CatalogAction :=
  if schema.deleted then .remove else .add

/-- `currentNotificationPayload`: what there is to say about an entity, if anything. -/
def Catalog.current (c : Catalog) (entity : String) : GossipKind → Option Payload
  | .pipeline =>
    match c.pipelines.get entity with
    | none => none
    | some schema =>
      if schema.version ≤ 0 then none else some (.pipeline (actionFor schema) schema)
  | .service =>
    match c.services.get entity with
    | some schema => some (.service .add schema)
    | none => some (.service .remove { name := entity })
  | .vfs => (c.files.get entity).map .vfs

/-- A payload says what the catalog holds about an entity. -/
def Payload.Reflects (entity : String) (c : Catalog) : Payload → Prop
  | .pipeline action schema =>
    c.pipelines.get entity = some schema ∧ action = actionFor schema
  | .service .add schema => c.services.get entity = some schema
  | .service .remove _ => c.services.get entity = none
  | .vfs file => c.files.get entity = some file

/-- The mutations of the catalog that are announced: `LocalPipelineAdd`,
`LocalPipelineRemove`, `LocalServiceAdd`, `LocalServiceRemove`, and those of a file. -/
inductive Mutation
  | addPipeline (schema : PipelineSchema)
  | removePipeline (schema : PipelineSchema)
  | addService (schema : ServiceSchema)
  | removeService (schema : ServiceSchema)
  | writeFile (file : IndexEntry)

namespace Mutation

def kind : Mutation → GossipKind
  | .addPipeline _ | .removePipeline _ => .pipeline
  | .addService _ | .removeService _ => .service
  | .writeFile _ => .vfs

def entity : Mutation → String
  | .addPipeline schema | .removePipeline schema => schema.id
  | .addService schema | .removeService schema => schema.name
  | .writeFile file => file.name

def payload : Mutation → Payload
  | .addPipeline schema => .pipeline .add { schema with deleted := false }
  | .removePipeline schema => .pipeline .remove { schema with deleted := true }
  | .addService schema => .service .add schema
  | .removeService schema => .service .remove schema
  | .writeFile file => .vfs file

end Mutation

/-- A bucket in which everything is stored under its own name still is one after a
`put`. -/
theorem named_put {V : Type} {b : Bucket String V} {name : V → String}
    (h : ∀ {k v}, b.get k = some v → name v = k) (value : V) {k : String} {v : V}
    (hget : (b.put (name value) value).get k = some v) : name v = k := by
  rw [Bucket.get_put] at hget
  split_ifs at hget with hk
  · rw [← Option.some.inj hget, hk]
  · exact h hget

namespace Catalog

def putPipeline (c : Catalog) (schema : PipelineSchema) : Catalog :=
  { c with
    pipelines := c.pipelines.put schema.id schema
    pipelines_id := named_put c.pipelines_id schema }

def putService (c : Catalog) (schema : ServiceSchema) : Catalog :=
  { c with
    services := c.services.put schema.name schema
    services_name := named_put c.services_name schema }

def eraseService (c : Catalog) (name : String) : Catalog :=
  { c with
    services := c.services.erase name
    services_name := fun h => by
      rw [Bucket.get_erase] at h
      split_ifs at h
      exact c.services_name h }

def putFile (c : Catalog) (file : IndexEntry) : Catalog :=
  { c with
    files := c.files.put file.name file
    files_name := named_put c.files_name file }

end Catalog

/-- The catalog after a mutation that was applied. -/
def Mutation.apply (c : Catalog) : Mutation → Catalog
  | .addPipeline schema => c.putPipeline { schema with deleted := false }
  | .removePipeline schema => c.putPipeline { schema with deleted := true }
  | .addService schema => c.putService schema
  | .removeService schema => c.eraseService schema.name
  | .writeFile file => c.putFile file

theorem Mutation.apply_reflects (m : Mutation) (c : Catalog) :
    m.payload.Reflects m.entity (m.apply c) := by
  cases m <;> simp [Mutation.payload, Mutation.entity, Mutation.apply, Payload.Reflects,
    Catalog.putPipeline, Catalog.putService, Catalog.eraseService, Catalog.putFile, actionFor]

variable {kind : GossipKind} {payload : Payload} {entity : String}

theorem Catalog.current_reflects {c : Catalog} (h : c.current entity kind = some payload) :
    payload.Reflects entity c := by
  cases kind with
  | pipeline =>
    unfold Catalog.current at h
    rcases hget : c.pipelines.get entity with _ | schema
    · simp [hget] at h
    simp only [hget] at h
    split_ifs at h
    cases h
    exact ⟨hget, rfl⟩
  | service =>
    unfold Catalog.current at h
    cases hget : c.services.get entity with
    | none | some _ =>
      simp only [hget] at h
      cases h
      exact hget
  | vfs =>
    obtain ⟨file, hget, rfl⟩ := Option.map_eq_some_iff.1 h
    exact hget

theorem Catalog.current_entity {c : Catalog} (h : c.current entity kind = some payload) :
    (notificationEntityFromPayload kind payload).getD entity = entity := by
  have hnonEmpty : ∀ text, text = entity → (nonEmpty text).getD entity = entity := by
    rintro text rfl
    unfold nonEmpty
    split_ifs <;> rfl
  cases kind with
  | pipeline =>
    unfold Catalog.current at h
    rcases hget : c.pipelines.get entity with _ | schema
    · simp [hget] at h
    simp only [hget] at h
    split_ifs at h
    cases h
    exact hnonEmpty _ (c.pipelines_id hget)
  | service =>
    unfold Catalog.current at h
    cases hget : c.services.get entity with
    | none =>
      simp only [hget] at h
      cases h
      exact hnonEmpty _ rfl
    | some schema =>
      simp only [hget] at h
      cases h
      exact hnonEmpty _ (c.services_name hget)
  | vfs =>
    obtain ⟨file, hget, rfl⟩ := Option.map_eq_some_iff.1 h
    exact hnonEmpty _ (c.files_name hget)

theorem Mutation.payload_entity (m : Mutation) :
    (notificationEntityFromPayload m.kind m.payload).getD m.entity = m.entity := by
  have hnonEmpty : ∀ text, (nonEmpty text).getD text = text := by
    intro text
    unfold nonEmpty
    split_ifs <;> rfl
  cases m <;> exact hnonEmpty _

end Proxyma.Outbox
