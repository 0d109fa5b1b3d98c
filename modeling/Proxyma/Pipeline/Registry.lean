import Proxyma.Compute.Engine
import Proxyma.Outbox.Catalog
import Mathlib.Tactic.DeriveCountable

/-!
# The registry of pipeline revisions

A node has the current revision of every pipeline three times: in memory under
`pipelineRevisions`, among the `pipelines` if it is live, and in the bucket of
persisted schemas.  `ApplyPipelineRevision` checks a new revision against the
current one, persists it and then publishes it in memory; `applyPipelineAction`
is the only caller that persists.

The check lets a revision pass exactly if it is newer, or of the same version
with the same definition and not a return from deletion
(`validatePipelineRevision_iff`).  So the pair of version and deletion mark, in
lexicographic order, never goes down, and where versions do not conflict the
registry ends with the greatest revision it was given.
-/

namespace Proxyma

open Keyed Compute Outbox

namespace PipelineSchema

/-- A revision without its deletion mark. -/
def definition (schema : PipelineSchema) : PipelineSchema := { schema with deleted := false }

/-- What decides between two revisions of a pipeline. -/
def rank (schema : PipelineSchema) : ℤ ×ₗ Bool := toLex (schema.version, schema.deleted)

theorem version_of_definition {a b : PipelineSchema} (h : a.definition = b.definition) :
    a.version = b.version := by
  have hversion := congrArg PipelineSchema.version h
  exact hversion

theorem eq_of_definition {a b : PipelineSchema} (hdefinition : a.definition = b.definition)
    (hdeleted : a.deleted = b.deleted) : a = b := by
  cases a
  cases b
  simp_all [definition]

end PipelineSchema

/-- With a hash that tells definitions apart, a revision replaces another exactly
if it is newer, or the same definition and not a return from deletion. -/
theorem validatePipelineRevision_iff {hash : PipelineSchema → String}
    (hhash : Function.Injective hash) {current next : PipelineSchema} :
    validatePipelineRevision hash current next = none ↔
      current.id = next.id ∧ (current.version < next.version ∨
        (next.definition = current.definition ∧ (current.deleted = true → next.deleted = true))) := by
  have hversion := @PipelineSchema.version_of_definition next current
  unfold validatePipelineRevision
  split_ifs with hid hold hnew hdefinition hdeleted
  · simp [hid]
  · simp only [false_iff]
    rintro ⟨-, hlt | ⟨hsame, -⟩⟩
    · omega
    · have := hversion hsame
      omega
  · simp only [not_not] at hid
    simp [hid, hnew]
  · simp only [false_iff]
    rintro ⟨-, hlt | ⟨hsame, -⟩⟩
    · exact hnew hlt
    · exact hdefinition (congrArg hash hsame)
  · simp only [false_iff]
    rintro ⟨-, hlt | ⟨-, hkeeps⟩⟩
    · exact hnew hlt
    · simp [hkeeps hdeleted.1] at hdeleted
  · simp only [not_not] at hid hdefinition
    refine ⟨fun _ => ⟨hid, .inr ⟨hhash hdefinition, ?_⟩⟩, fun _ => rfl⟩
    intro hcurrent
    by_contra hnext
    exact hdeleted ⟨hcurrent, by simpa using hnext⟩

theorem rank_le_of_replaces {current next : PipelineSchema}
    (h : current.version < next.version ∨
      (next.definition = current.definition ∧ (current.deleted = true → next.deleted = true))) :
    current.rank ≤ next.rank := by
  unfold PipelineSchema.rank
  rw [Prod.Lex.toLex_le_toLex]
  rcases h with hlt | ⟨hsame, hkeeps⟩
  · exact .inl hlt
  · exact .inr ⟨(PipelineSchema.version_of_definition hsame).symm, hkeeps⟩

/-! ## Applying a revision -/

def normalizePipelineSchemaVersion (schema : PipelineSchema) : PipelineSchema :=
  if schema.version ≤ 0 then { schema with version := 1 } else schema

/-- `SavePipelineSchema`, with the error of its transaction if that fails. -/
def savePipelineSchema (fault : Option GoError) (schema : PipelineSchema)
    (schemas : Bucket String PipelineSchema) : Except GoError (Bucket String PipelineSchema) :=
  let schema := normalizePipelineSchemaVersion schema
  match fault with
  | some err => .error err
  | none => Storage.boltPut schemas schema.id schema

/-- A node's pipelines: the engine that has them in memory, and the bucket of
persisted ones. -/
structure PipelineRegistry where
  compute : Engine
  schemas : Bucket String PipelineSchema

namespace PipelineRegistry

/-- `ApplyPipelineRevision` with a function that persists: the new memory is
published only if that succeeds. -/
def applyPipelineRevision (c : Node) (s : PipelineRegistry) (schema : PipelineSchema)
    (persist : PipelineSchema → Bucket String PipelineSchema →
      Except GoError (Bucket String PipelineSchema)) : Option GoError × PipelineRegistry :=
  match s.compute.applyPipelineRevision c schema with
  | (some err, _) => (some err, s)
  | (none, compute) =>
    match persist schema s.schemas with
    | .error err => (some err, s)
    | .ok schemas => (none, ⟨compute, schemas⟩)

end PipelineRegistry

/-- The action a request asks for; no other is known. -/
inductive RequestedAction
  | known (action : CatalogAction)
  | unknown (text : String)
  deriving DecidableEq

/-- The revision a request asks for. -/
def requestedRevision (schema : PipelineSchema) : RequestedAction → Except GoError PipelineSchema
  | .known .add => .ok (normalizePipelineSchemaVersion schema)
  | .known .remove => .ok { normalizePipelineSchemaVersion schema with deleted := true }
  | .unknown text => .error (.errorf "unknown pipeline action %q" [text])

namespace PipelineRegistry

/-- `applyPipelineAction` on a node with storage. -/
def applyPipelineAction (c : Node) (fault : Option GoError) (s : PipelineRegistry)
    (schema : PipelineSchema) (action : RequestedAction) : Option GoError × PipelineRegistry :=
  match requestedRevision schema action with
  | .error err => (some err, s)
  | .ok schema =>
    s.applyPipelineRevision c schema fun staged schemas =>
      (savePipelineSchema fault staged schemas).mapError
        (.wrapf "failed to save pipeline schema revision to DB: %w" [])

/-- The revision `GetPipelineRevision` returns. -/
def revision (s : PipelineRegistry) (id : String) : Option PipelineSchema :=
  s.compute.pipelineRevisions.get id

/-- A revision has been persisted and published. -/
structure Published (s s' : PipelineRegistry) (next : PipelineSchema) : Prop where
  revisions : s'.compute.pipelineRevisions = s.compute.pipelineRevisions.put next.id next
  live : s'.compute.pipelines =
    if next.deleted then s.compute.pipelines.erase next.id
    else s.compute.pipelines.put next.id next
  persisted : s'.schemas = s.schemas.put next.id next

theorem Published.revision_eq {s s' : PipelineRegistry} {next : PipelineSchema}
    (h : Published s s' next) (id : String) :
    s'.revision id = if id = next.id then some next else s.revision id := by
  rw [revision, h.revisions, Bucket.get_put, revision]

end PipelineRegistry

/-- A call of `applyPipelineAction`, and the error of its transaction if that
fails. -/
structure RevisionCall where
  schema : PipelineSchema
  action : RequestedAction
  fault : Option GoError

namespace RevisionCall

/-- The revision a call delivers. -/
def revision (call : RevisionCall) : Option PipelineSchema :=
  (requestedRevision call.schema call.action).toOption

/-- The error and the registry after a call. -/
def run (c : Node) (s : PipelineRegistry) (call : RevisionCall) : Option GoError × PipelineRegistry :=
  s.applyPipelineAction c call.fault call.schema call.action

/-- A revision reaches persistence: it is well formed, and the current one may
be replaced by it. -/
def Passes (c : Node) (s : PipelineRegistry) (next : PipelineSchema) : Prop :=
  validatePipelineSchema next = none ∧ ∀ current, s.revision next.id = some current →
    validatePipelineRevision c.pipelineSchemaHash current next = none

theorem normalize_revision {call : RevisionCall} {next : PipelineSchema}
    (h : call.revision = some next) : normalizePipelineSchemaVersion next = next := by
  have hpositive : 0 < next.version := by
    rcases call with ⟨schema, (_ | _) | text, fault⟩
    all_goals
      simp only [revision, requestedRevision, Except.toOption, Option.some.injEq,
        reduceCtorEq, normalizePipelineSchemaVersion] at h
    all_goals
      subst h
      split_ifs with hzero
      · exact one_pos
      · exact not_le.1 hzero
  rw [normalizePipelineSchemaVersion, if_neg (not_le.2 hpositive)]

theorem applyPipelineRevision_cases (c : Node) (s : PipelineRegistry) (next : PipelineSchema) :
    (¬ Passes c s next ∧ ∃ err, (s.compute.applyPipelineRevision c next).1 = some err) ∨
      (Passes c s next ∧ s.compute.applyPipelineRevision c next = (none,
        { s.compute with
          pipelineRevisions := s.compute.pipelineRevisions.put next.id next
          pipelines :=
            if next.deleted then s.compute.pipelines.erase next.id
            else s.compute.pipelines.put next.id next })) := by
  unfold Engine.applyPipelineRevision
  cases hvalid : validatePipelineSchema next with
  | some err =>
    refine .inl ⟨?_, err, rfl⟩
    intro hpasses
    simp [hpasses.1] at hvalid
  | none =>
    cases hcurrent : s.compute.pipelineRevisions.get next.id with
    | none =>
      refine .inr ⟨⟨hvalid, ?_⟩, rfl⟩
      intro current hget
      simp [PipelineRegistry.revision, hcurrent] at hget
    | some current =>
      simp only [Option.bind_some]
      cases hnext : validatePipelineRevision c.pipelineSchemaHash current next with
      | some err =>
        refine .inl ⟨?_, err, rfl⟩
        intro hpasses
        simp [hpasses.2 current hcurrent] at hnext
      | none =>
        refine .inr ⟨⟨hvalid, ?_⟩, rfl⟩
        intro current' hget
        cases hcurrent.symm.trans hget
        exact hnext

/-- What a call does: it fails without effect, or it publishes its revision, for
which the revision has to pass and to be persisted. -/
theorem run_cases (c : Node) (s : PipelineRegistry) (call : RevisionCall) :
    ((∃ err, call.run c s = (some err, s)) ∧ ∀ next, call.revision = some next →
      Passes c s next → call.fault ≠ none ∨ ¬ Storage.FitsKey next.id.utf8ByteSize) ∨
    ∃ next, call.revision = some next ∧ Passes c s next ∧ (call.run c s).1 = none ∧
      PipelineRegistry.Published s (call.run c s).2 next := by
  cases hrequest : requestedRevision call.schema call.action with
  | error err =>
    refine .inl ⟨⟨err, ?_⟩, ?_⟩
    · rw [run, PipelineRegistry.applyPipelineAction, hrequest]
    · intro next hnext
      rw [revision, hrequest] at hnext
      cases hnext
  | ok next =>
    have hrevision : call.revision = some next := by
      rw [revision, hrequest]
      rfl
    have hrun : call.run c s = s.applyPipelineRevision c next fun staged schemas =>
        (savePipelineSchema call.fault staged schemas).mapError
          (.wrapf "failed to save pipeline schema revision to DB: %w" []) := by
      rw [run, PipelineRegistry.applyPipelineAction, hrequest]
    have honly : ∀ next', call.revision = some next' → next' = next := by
      intro next' h
      exact Option.some.inj (h.symm.trans hrevision)
    rw [hrun, PipelineRegistry.applyPipelineRevision]
    rcases applyPipelineRevision_cases c s next with ⟨hfails, err, hout⟩ | ⟨hpasses, hout⟩
    · refine .inl ⟨⟨err, ?_⟩, ?_⟩
      · cases happly : s.compute.applyPipelineRevision c next with
        | mk result compute =>
          rw [happly] at hout
          obtain rfl : result = some err := hout
          rfl
      · intro next' h hpasses
        obtain rfl := honly next' h
        exact absurd hpasses hfails
    · rw [hout]
      have hnormal := normalize_revision hrevision
      simp only [savePipelineSchema, hnormal]
      cases hfault : call.fault with
      | some err => exact .inl ⟨⟨_, rfl⟩, fun _ _ _ => .inl (by simp)⟩
      | none =>
        by_cases hfits : Storage.FitsKey next.id.utf8ByteSize
        · simp only [Storage.boltPut_of_fits s.schemas next hfits, Except.mapError]
          exact .inr ⟨next, hrevision, hpasses, trivial, rfl, rfl, rfl⟩
        simp only [Storage.boltPut, Storage.putSized, if_neg hfits, Except.mapError]
        refine .inl ⟨⟨_, rfl⟩, ?_⟩
        intro next' h _
        obtain rfl := honly next' h
        exact .inr hfits

end RevisionCall

/-! ## Sequences of calls -/

/-- The registry of a new node over a database. -/
def PipelineRegistry.new (db : Storage.Database) : PipelineRegistry := ⟨Engine.new db, .empty⟩

/-- The registry after a sequence of calls. -/
def applyCalls (c : Node) (db : Storage.Database) (calls : List RevisionCall) : PipelineRegistry :=
  calls.foldl (fun s call => (call.run c s).2) (.new db)

theorem applyCalls_append (c : Node) (db : Storage.Database) (calls : List RevisionCall)
    (call : RevisionCall) :
    applyCalls c db (calls ++ [call]) = (call.run c (applyCalls c db calls)).2 := by
  rw [applyCalls, List.foldl_append]
  rfl

/-- The three places agree. -/
structure PipelineRegistry.Coherent (s : PipelineRegistry) : Prop where
  named : ∀ id schema, s.revision id = some schema → schema.id = id
  live : ∀ id schema, s.compute.pipelines.get id = some schema ↔
    s.revision id = some schema ∧ schema.deleted = false
  persisted : ∀ id, s.schemas.get id = s.revision id

theorem PipelineRegistry.coherent_new (db : Storage.Database) : (PipelineRegistry.new db).Coherent where
  named := fun id schema h => by cases h
  live := fun id schema => by
    constructor
    · intro h
      cases h
    · rintro ⟨h, -⟩
      cases h
  persisted := fun id => rfl

theorem PipelineRegistry.Coherent.published {s s' : PipelineRegistry} {next : PipelineSchema}
    (h : s.Coherent) (hpublished : Published s s' next) : s'.Coherent := by
  refine ⟨?_, ?_, ?_⟩
  · intro id schema hget
    rw [hpublished.revision_eq] at hget
    split_ifs at hget with hid
    · cases hget
      exact hid.symm
    · exact h.named id schema hget
  · intro id schema
    rw [hpublished.revision_eq, hpublished.live]
    by_cases hid : id = next.id
    · subst hid
      cases hdeleted : next.deleted with
      | false =>
        simp only [Bool.false_eq_true, if_false, Bucket.get_put, if_true, iff_self_and]
        exact fun heq => Option.some.inj heq ▸ hdeleted
      | true =>
        simp only [if_true, Bucket.get_erase, reduceCtorEq, false_iff, not_and, Bool.not_eq_false]
        exact fun heq => Option.some.inj heq ▸ hdeleted
    · rw [if_neg hid, ← h.live id schema]
      split_ifs
      · rw [Bucket.get_erase, if_neg hid]
      · rw [Bucket.get_put, if_neg hid]
  · intro id
    rw [hpublished.revision_eq, hpublished.persisted, Bucket.get_put, h.persisted]

theorem PipelineRegistry.Coherent.run {c : Node} {s : PipelineRegistry} (h : s.Coherent)
    (call : RevisionCall) : (call.run c s).2.Coherent := by
  rcases call.run_cases c s with ⟨⟨err, hsame⟩, -⟩ | ⟨next, -, -, -, hpublished⟩
  · rwa [hsame]
  · exact h.published hpublished

theorem coherent_applyCalls (c : Node) (db : Storage.Database) (calls : List RevisionCall) :
    (applyCalls c db calls).Coherent := by
  induction calls using List.reverseRecOn with
  | nil => exact PipelineRegistry.coherent_new db
  | append_singleton calls call ih =>
    rw [applyCalls_append]
    exact ih.run call

/-- The rank of a revision, or the least one if there is none. -/
def rankOf (revision : Option PipelineSchema) : WithBot (ℤ ×ₗ Bool) :=
  revision.elim ⊥ fun schema => schema.rank

/-- What later registries have of a revision: it, or a replacement of it. -/
def Succeeds (old new : Option PipelineSchema) : Prop :=
  ∀ a, old = some a → ∃ b, new = some b ∧ (a.version < b.version ∨
    (b.definition = a.definition ∧ (a.deleted = true → b.deleted = true)))

theorem Succeeds.refl (revision : Option PipelineSchema) : Succeeds revision revision :=
  fun a h => ⟨a, h, .inr ⟨rfl, id⟩⟩

theorem Succeeds.trans {r₁ r₂ r₃ : Option PipelineSchema} (h₁₂ : Succeeds r₁ r₂)
    (h₂₃ : Succeeds r₂ r₃) : Succeeds r₁ r₃ := by
  intro a ha
  obtain ⟨b, hb, hab⟩ := h₁₂ a ha
  obtain ⟨d, hd, hbd⟩ := h₂₃ b hb
  refine ⟨d, hd, ?_⟩
  rcases hab with hlt | ⟨hsame, hkeeps⟩ <;> rcases hbd with hlt' | ⟨hsame', hkeeps'⟩
  · exact .inl (hlt.trans hlt')
  · exact .inl (hlt.trans_eq (PipelineSchema.version_of_definition hsame').symm)
  · exact .inl ((PipelineSchema.version_of_definition hsame).symm.trans_lt hlt')
  · exact .inr ⟨hsame'.trans hsame, fun h => hkeeps' (hkeeps h)⟩

theorem Succeeds.rankOf_le {old new : Option PipelineSchema} (h : Succeeds old new) :
    rankOf old ≤ rankOf new := by
  rcases old with _ | a
  · exact bot_le
  obtain ⟨b, rfl, hab⟩ := h a rfl
  exact WithBot.coe_le_coe.2 (rank_le_of_replaces hab)

theorem Succeeds.definition_eq {a b : PipelineSchema} (h : Succeeds (some a) (some b))
    (hversion : a.version = b.version) : a.definition = b.definition := by
  obtain ⟨b', hb, hlt | ⟨hsame, -⟩⟩ := h a rfl
  · cases hb
    omega
  · cases hb
    exact hsame.symm

section Injective

variable {c : Node} (hhash : Function.Injective c.pipelineSchemaHash)

include hhash

theorem succeeds_run (s : PipelineRegistry) (call : RevisionCall) (id : String) :
    Succeeds (s.revision id) ((call.run c s).2.revision id) := by
  rcases call.run_cases c s with ⟨⟨err, hsame⟩, -⟩ | ⟨next, -, hpasses, -, hpublished⟩
  · rw [hsame]
    exact Succeeds.refl _
  rw [hpublished.revision_eq]
  split_ifs with hid
  · subst hid
    intro current hcurrent
    exact ⟨next, rfl, ((validatePipelineRevision_iff hhash).1 (hpasses.2 current hcurrent)).2⟩
  · exact Succeeds.refl _

theorem succeeds_applyCalls (db : Storage.Database) (earlier later : List RevisionCall)
    (id : String) : Succeeds ((applyCalls c db earlier).revision id)
      ((applyCalls c db (earlier ++ later)).revision id) := by
  induction later using List.reverseRecOn with
  | nil =>
    rw [List.append_nil]
    exact Succeeds.refl _
  | append_singleton later call ih =>
    rw [← List.append_assoc, applyCalls_append]
    exact ih.trans (succeeds_run hhash _ call id)

/-- A revision that does not get past the current one is not above it, unless
their definitions conflict. -/
theorem rank_le_of_not_passes {s : PipelineRegistry} (hs : s.Coherent) {next : PipelineSchema}
    (hvalid : validatePipelineSchema next = none) (hfails : ¬ RevisionCall.Passes c s next)
    (hagree : ∀ current, s.revision next.id = some current → current.version = next.version →
      current.definition = next.definition) :
    ∃ current, s.revision next.id = some current ∧ next.rank ≤ current.rank := by
  simp only [RevisionCall.Passes, hvalid, true_and, not_forall] at hfails
  obtain ⟨current, hcurrent, hrefused⟩ := hfails
  refine ⟨current, hcurrent, ?_⟩
  rw [validatePipelineRevision_iff hhash] at hrefused
  have hid := hs.named next.id current hcurrent
  have hold : ¬ current.version < next.version := fun hlt => hrefused ⟨hid, .inl hlt⟩
  unfold PipelineSchema.rank
  rw [Prod.Lex.toLex_le_toLex]
  rcases lt_or_eq_of_le (not_lt.1 hold) with hlt | hsame
  · exact .inl hlt
  refine .inr ⟨hsame, ?_⟩
  intro hnext
  have hdefinition := hagree current hcurrent hsame.symm
  by_contra hcurrentLive
  exact hrefused ⟨hid, .inr ⟨hdefinition.symm, fun h => absurd h hcurrentLive⟩⟩

end Injective

/-- The well-formed revisions of a pipeline among those delivered by calls. -/
def deliveredRevisions (id : String) (calls : List RevisionCall) : List PipelineSchema :=
  (calls.filterMap RevisionCall.revision).filter fun schema =>
    schema.id = id ∧ (validatePipelineSchema schema).isNone

/-- The revisions have one definition for each version. -/
def Unanimous (schemas : List PipelineSchema) : Prop :=
  ∀ a ∈ schemas, ∀ b ∈ schemas, a.version = b.version → a.definition = b.definition

/-- A revision of the greatest rank. -/
def IsLatest (schemas : List PipelineSchema) (schema : PipelineSchema) : Prop :=
  schema ∈ schemas ∧ ∀ a ∈ schemas, a.rank ≤ schema.rank

theorem mem_deliveredRevisions {id : String} {calls : List RevisionCall} {schema : PipelineSchema} :
    schema ∈ deliveredRevisions id calls ↔
      (∃ call ∈ calls, call.revision = some schema) ∧ schema.id = id ∧
        validatePipelineSchema schema = none := by
  simp [deliveredRevisions]

theorem deliveredRevisions_append {id : String} {calls : List RevisionCall} {call : RevisionCall}
    {schema : PipelineSchema} (h : schema ∈ deliveredRevisions id calls) :
    schema ∈ deliveredRevisions id (calls ++ [call]) := by
  rw [mem_deliveredRevisions] at h ⊢
  obtain ⟨⟨call', hcall', hrevision⟩, hrest⟩ := h
  exact ⟨⟨call', List.mem_append_left _ hcall', hrevision⟩, hrest⟩

theorem Unanimous.eq_of_isLatest {schemas : List PipelineSchema} (h : Unanimous schemas)
    {a b : PipelineSchema} (ha : IsLatest schemas a) (hb : IsLatest schemas b) : a = b := by
  have hrank : a.rank = b.rank := le_antisymm (hb.2 a ha.1) (ha.2 b hb.1)
  have hpair : (a.version, a.deleted) = (b.version, b.deleted) := toLex.injective hrank
  have hversion := congrArg Prod.fst hpair
  have hdeleted := congrArg Prod.snd hpair
  exact PipelineSchema.eq_of_definition (h a ha.1 b hb.1 hversion) hdeleted

section Persisting

variable {c : Node} {db : Storage.Database} {id : String}

theorem mem_deliveredRevisions_of_revision (calls : List RevisionCall) {schema : PipelineSchema}
    (h : (applyCalls c db calls).revision id = some schema) :
    schema ∈ deliveredRevisions id calls := by
  induction calls using List.reverseRecOn with
  | nil => cases h
  | append_singleton calls call ih =>
    have hkeeps := fun schema => @deliveredRevisions_append id calls call schema
    rw [applyCalls_append] at h
    rcases call.run_cases c (applyCalls c db calls) with
      ⟨⟨err, hsame⟩, -⟩ | ⟨next, hnext, hpasses, -, hpub⟩
    · rw [hsame] at h
      exact hkeeps schema (ih h)
    rw [hpub.revision_eq] at h
    split_ifs at h with hid
    · cases h
      rw [mem_deliveredRevisions]
      exact ⟨⟨call, by simp, hnext⟩, hid.symm, hpasses.1⟩
    · exact hkeeps schema (ih h)

theorem rank_le_revision (db : Storage.Database)
    (hhash : Function.Injective c.pipelineSchemaHash) (hfits : Storage.FitsKey id.utf8ByteSize)
    (calls : List RevisionCall)
    (hpersists : ∀ call ∈ calls, call.fault = none)
    (hunanimous : Unanimous (deliveredRevisions id calls)) {schema : PipelineSchema}
    (hschema : schema ∈ deliveredRevisions id calls) :
    ∃ current, (applyCalls c db calls).revision id = some current ∧ schema.rank ≤ current.rank := by
  induction calls using List.reverseRecOn generalizing schema with
  | nil => simp [deliveredRevisions] at hschema
  | append_singleton calls call ih =>
    have hbefore := fun schema => @deliveredRevisions_append id calls call schema
    have hsucceeds := succeeds_applyCalls hhash db calls [call] id
    obtain ⟨⟨call', hcall', hrevision⟩, hid, hvalid⟩ := mem_deliveredRevisions.1 hschema
    rcases List.mem_append.1 hcall' with hold | hnew
    · -- Delivered before: the rank does not go down.
      obtain ⟨current, hcurrent, hle⟩ := ih
        (fun call hcall => hpersists call (List.mem_append_left _ hcall))
        (fun a ha b hb => hunanimous a (hbefore a ha) b (hbefore b hb))
        (mem_deliveredRevisions.2 ⟨⟨call', hold, hrevision⟩, hid, hvalid⟩)
      obtain ⟨later, hlater, hreplaces⟩ := hsucceeds current hcurrent
      exact ⟨later, hlater, hle.trans (rank_le_of_replaces hreplaces)⟩
    · obtain rfl := List.mem_singleton.1 hnew
      rw [applyCalls_append]
      rcases call'.run_cases c (applyCalls c db calls) with
        ⟨⟨err, hsame⟩, hrefused⟩ | ⟨next, hnext, -, -, hpub⟩
      · rw [hsame]
        have hfails : ¬ RevisionCall.Passes c (applyCalls c db calls) schema := by
          intro hpasses
          rcases hrefused schema hrevision hpasses with hfault | hkey
          · exact hfault (hpersists call' (by simp))
          · exact hkey (hid ▸ hfits)
        rw [← hid]
        refine rank_le_of_not_passes hhash (coherent_applyCalls c db calls) hvalid hfails ?_
        intro current hcurrent hversion
        rw [hid] at hcurrent
        exact hunanimous current (hbefore current (mem_deliveredRevisions_of_revision calls hcurrent))
          schema hschema hversion
      · obtain rfl := Option.some.inj (hnext.symm.trans hrevision)
        exact ⟨next, by rw [hpub.revision_eq, if_pos hid.symm], le_rfl⟩

/-- With persistence working and no conflicting definitions, the registry ends
with the greatest revision delivered, whatever the order and repetitions. -/
theorem revision_eq_latest (hhash : Function.Injective c.pipelineSchemaHash)
    (hfits : Storage.FitsKey id.utf8ByteSize) {calls : List RevisionCall}
    (hpersists : ∀ call ∈ calls, call.fault = none)
    (hunanimous : Unanimous (deliveredRevisions id calls)) (schema : PipelineSchema) :
    (applyCalls c db calls).revision id = some schema ↔
      IsLatest (deliveredRevisions id calls) schema := by
  have hstored : ∀ current, (applyCalls c db calls).revision id = some current →
      IsLatest (deliveredRevisions id calls) current := by
    intro current hcurrent
    refine ⟨mem_deliveredRevisions_of_revision calls hcurrent, ?_⟩
    intro a ha
    obtain ⟨current', hcurrent', hle⟩ :=
      rank_le_revision db hhash hfits calls hpersists hunanimous ha
    cases hcurrent.symm.trans hcurrent'
    exact hle
  refine ⟨hstored schema, ?_⟩
  intro hlatest
  obtain ⟨current, hcurrent, -⟩ :=
    rank_le_revision db hhash hfits calls hpersists hunanimous hlatest.1
  rw [hcurrent, hunanimous.eq_of_isLatest (hstored current hcurrent) hlatest]

end Persisting

/-- For any calls on a new node, with any of them failing to persist: the rank of
a pipeline's revision never goes down, a version keeps its definition, the
pipeline is live exactly if its revision is not deleted, and the persisted
revision is the one in memory.  If all calls persist and no two well-formed
revisions conflict, the revision is the greatest one delivered. -/
theorem registry_keeps_latest {c : Node} (hhash : Function.Injective c.pipelineSchemaHash)
    (db : Storage.Database) (calls : List RevisionCall) (id : String) :
    (∀ earlier later, calls = earlier ++ later →
      rankOf ((applyCalls c db earlier).revision id) ≤
          rankOf ((applyCalls c db calls).revision id) ∧
        ∀ a b, (applyCalls c db earlier).revision id = some a →
          (applyCalls c db calls).revision id = some b → a.version = b.version →
            a.definition = b.definition) ∧
      (∀ schema, (applyCalls c db calls).compute.pipelines.get id = some schema ↔
        (applyCalls c db calls).revision id = some schema ∧ schema.deleted = false) ∧
      (applyCalls c db calls).schemas.get id = (applyCalls c db calls).revision id ∧
      (Storage.FitsKey id.utf8ByteSize → (∀ call ∈ calls, call.fault = none) →
        Unanimous (deliveredRevisions id calls) →
          ∀ schema, (applyCalls c db calls).revision id = some schema ↔
            IsLatest (deliveredRevisions id calls) schema) := by
  have hcoherent := coherent_applyCalls c db calls
  refine ⟨?_, hcoherent.live id, hcoherent.persisted id, ?_⟩
  · rintro earlier later rfl
    have hsucceeds := succeeds_applyCalls hhash db earlier later id
    refine ⟨hsucceeds.rankOf_le, ?_⟩
    intro a b ha hb
    rw [ha, hb] at hsucceeds
    exact hsucceeds.definition_eq
  · intro hfits hpersists hunanimous
    exact revision_eq_latest hhash hfits hpersists hunanimous

/-! ## An injective hash -/

/-- The text of as many strokes as a number says. -/
def strokes (n : ℕ) : String := String.ofList (List.replicate n '|')

theorem strokes_injective : Function.Injective strokes := by
  intro m n h
  have hlists : List.replicate m '|' = List.replicate n '|' := by
    simpa [strokes] using congrArg String.toList h
  simpa using congrArg List.length hlists

instance countable_string : Countable String :=
  have : Countable Char :=
    Function.Injective.countable (f := Char.toNat) fun _ _ h => Char.ext (UInt32.toNat_inj.1 h)
  Function.Injective.countable (f := String.toList) fun _ _ h => String.toList_inj.1 h

deriving instance Countable for PipelineStep, PipelineConnection, PipelineSchema

/-- There are only countably many schemas, so a hash can tell them apart. -/
theorem exists_injective_hash : ∃ hash : PipelineSchema → String, Function.Injective hash := by
  obtain ⟨number, hnumber⟩ := exists_injective_nat PipelineSchema
  exact ⟨strokes ∘ number, strokes_injective.comp hnumber⟩

/-- A node with the hash. -/
def hashing (hash : PipelineSchema → String) : Node :=
  { Node.named "a" with pipelineSchemaHash := hash }

/-- A revision of the pipeline `p`. -/
def pipelineP (version : ℤ) (steps : List PipelineStep) : PipelineSchema where
  id := "p"
  version := version
  steps := steps

/-- The removal wins, also when it is delivered first. -/
theorem registry_keeps_latest_removed : ∃ hash, Function.Injective hash ∧
    (applyCalls (hashing hash) .empty
      [⟨pipelineP 1 [⟨"s", "echo", ""⟩], .known .remove, none⟩,
        ⟨pipelineP 1 [⟨"s", "echo", ""⟩], .known .add, none⟩]).revision "p" =
      some { pipelineP 1 [⟨"s", "echo", ""⟩] with deleted := true } := by
  obtain ⟨hash, hhash⟩ := exists_injective_hash
  have h := registry_keeps_latest (c := hashing hash) hhash .empty
    [⟨pipelineP 1 [⟨"s", "echo", ""⟩], .known .remove, none⟩,
      ⟨pipelineP 1 [⟨"s", "echo", ""⟩], .known .add, none⟩] "p"
  refine ⟨hash, hhash, (h.2.2.2 (by decide) (by simp) ?_ _).2 ?_⟩
  · unfold Unanimous
    decide
  · unfold IsLatest
    decide

/-- A definition without steps is delivered and refused, although it is the
latest one delivered and conflicts with no other. -/
theorem malformed_latest_refused : ∃ hash, Function.Injective hash ∧
    let calls : List RevisionCall :=
      [⟨pipelineP 1 [⟨"s", "echo", ""⟩], .known .add, none⟩, ⟨pipelineP 2 [], .known .add, none⟩]
    Unanimous (calls.filterMap RevisionCall.revision) ∧
      IsLatest (calls.filterMap RevisionCall.revision) (pipelineP 2 []) ∧
      (applyCalls (hashing hash) .empty calls).revision "p" =
        some (pipelineP 1 [⟨"s", "echo", ""⟩]) := by
  obtain ⟨hash, hhash⟩ := exists_injective_hash
  refine ⟨hash, hhash, ?_, ?_, ?_⟩
  · unfold Unanimous
    decide
  · unfold IsLatest
    decide
  · rfl

end Proxyma
