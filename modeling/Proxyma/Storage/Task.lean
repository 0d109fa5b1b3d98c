import Proxyma.Storage.Physical

/-!
# Task records

The records of the task journal: an immutable checkpoint
(`TaskJournalRecord`), and the aggregate of a task's checkpoints
(`TaskRecord`) that is kept while the task is active and in its history.
`applyJournalRecord` folds one checkpoint into the aggregate.

Both kinds of record refer to blobs by naming their digests somewhere inside a
JSON value.  `extractBlobHashesInternal` walks the value and collects them; a map of
maps or of strings is walked as the array of its values.  `mentions` lists the
strings that may name a blob, and `walk_eq` says that a walk adds these one by one.
-/

namespace Proxyma.Storage

/-! ## Blob references in JSON values -/

/-- `addHash`: remember a normalised hash once. -/
def addHash (result : List String) (h : String) : List String :=
  let h := Text.toLower (Text.trimSpace h)
  if isValidCASHash h ∧ h ∉ result then result ++ [h] else result

mutual

/-- `walk`, with the result so far as an argument. -/
def walk (skipPipelineOutputs : Bool) : Json → List String → List String
  | .null, result => result
  | .bool _, result => result
  | .number _, result => result
  | .string x, result =>
    match parseVFSURI x with
    | some h => addHash result h
    | none => if isValidCASHash x then addHash result x else result
  | .array items, result => walkItems skipPipelineOutputs items result
  | .object fields, result =>
    walkFields skipPipelineOutputs fields <|
      match lookupKey fields outputHashKey with
      | some (.string h) => addHash result h
      | _ => result

/-- The loop of `walk` over a slice. -/
def walkItems (skipPipelineOutputs : Bool) : List Json → List String → List String
  | [], result => result
  | item :: rest, result =>
    walkItems skipPipelineOutputs rest (walk skipPipelineOutputs item result)

/-- The loop of `walk` over a map. -/
def walkFields (skipPipelineOutputs : Bool) : JsonMap → List String → List String
  | [], result => result
  | (k, item) :: rest, result =>
    walkFields skipPipelineOutputs rest <|
      if skipPipelineOutputs ∧ k = "$pipeline_outputs" then result
      else walk skipPipelineOutputs item result

end

/-- `extractBlobHashesInternal` of a `map[string]any`. -/
def extractBlobHashesInternal (v : Option JsonMap) (skipPipelineOutputs : Bool) : List String :=
  match v with
  | none => []
  | some fields => walk skipPipelineOutputs (.object fields) []

def extractBlobHashes (v : Option JsonMap) : List String := extractBlobHashesInternal v false

def extractNonIntermediateBlobHashes (v : Option JsonMap) : List String :=
  extractBlobHashesInternal v true

/-- `ExtractBlobHashes` of a `map[string]map[string]any`, whose own keys mean
nothing to `walk`. -/
def extractStepBlobHashes (v : Option (List (String × JsonMap))) : List String :=
  (v.getD []).foldl (fun result e => walk false (.object e.2) result) []

/-- One character of `isHexString`. -/
def isHexChar (c : Char) : Bool :=
  ¬((c < '0' ∨ '9' < c) ∧ (c < 'a' ∨ 'f' < c) ∧ (c < 'A' ∨ 'F' < c))

theorem isHexChar_spec {c : Char} (hc : isHexChar c = true) : c.toNat < 128 ∧
    c.toLower.toNat < 128 ∧ Text.isSpace c = false ∧ isHexChar c.toLower = true := by
  have hascii : ∀ n < 128, isHexChar (Char.ofNat n) = true →
      (Char.ofNat n).toLower.toNat < 128 ∧ Text.isSpace (Char.ofNat n) = false ∧
        isHexChar (Char.ofNat n).toLower = true := by decide
  have hlt : c.toNat < 128 := by
    by_contra hge
    have habove : ∀ c' : Char, c'.toNat < 128 → c' < c := fun c' h => h.trans_le (not_lt.1 hge)
    simp [isHexChar, habove] at hc
  have hspec := hascii c.toNat hlt
  rw [Char.ofNat_toNat] at hspec
  exact ⟨hlt, hspec hc⟩

/-- The hash that a string stands for, trimmed and in lower case. -/
def normalised (s : String) : List String :=
  [Text.toLower (Text.trimSpace s)].filter isValidCASHash

theorem normalised_of_isValidCASHash {s : String} (h : isValidCASHash s = true) :
    normalised s = [Text.toLower s] := by
  obtain ⟨hsize, hall⟩ : s.utf8ByteSize = 64 ∧ ∀ c ∈ s.toList, isHexChar c = true := by
    simpa [isValidCASHash, isHexString, isHexChar] using h
  have hhex := fun c hc => isHexChar_spec (hall c hc)
  have hlower : ∀ c ∈ (Text.toLower s).toList, c.toNat < 128 ∧ isHexChar c = true := by
    intro c hc
    obtain ⟨d, hd, rfl⟩ : ∃ d ∈ s.toList, d.toLower = c := by simpa [Text.toLower] using hc
    exact ⟨(hhex d hd).2.1, (hhex d hd).2.2.2⟩
  have hvalid : isValidCASHash (Text.toLower s) = true := by
    have hstring : isHexString (Text.toLower s) = true :=
      List.all_eq_true.2 fun c hc => (hlower c hc).2
    rw [Text.utf8ByteSize_eq_length fun c hc => (hhex c hc).1] at hsize
    rw [isValidCASHash, Text.utf8ByteSize_eq_length fun c hc => (hlower c hc).1, hstring]
    simpa [Text.toLower] using hsize
  rw [normalised, Text.trimSpace_eq_self fun c hc => (hhex c hc).2.2.1]
  simp [hvalid]

theorem mem_addHash {result : List String} {h x : String} :
    x ∈ addHash result h ↔ x ∈ result ∨ x ∈ normalised h := by
  by_cases hvalid : isValidCASHash (Text.toLower (Text.trimSpace h)) = true
  · by_cases hmem : Text.toLower (Text.trimSpace h) ∈ result
    · simp only [addHash, normalised, hvalid, hmem]
      grind
    · simp [addHash, normalised, hvalid, hmem]
  · simp [addHash, normalised, hvalid]

mutual

/-- The strings in which a value can name a hash: a hash, the last segment of a URI, and
the string under the key `output_hash`. -/
def mentions (skip : Bool) : Json → List String
  | .string x =>
    match parseVFSURI x with
    | some segment => [segment]
    | none => if isValidCASHash x then [x] else []
  | .array items => itemMentions skip items
  | .object fields =>
    (match lookupKey fields outputHashKey with
      | some (.string h) => [h]
      | _ => []) ++ fieldMentions skip fields
  | _ => []

def itemMentions (skip : Bool) : List Json → List String
  | [] => []
  | item :: rest => mentions skip item ++ itemMentions skip rest

def fieldMentions (skip : Bool) : JsonMap → List String
  | [] => []
  | (k, item) :: rest =>
    (if skip ∧ k = "$pipeline_outputs" then [] else mentions skip item) ++ fieldMentions skip rest

end

mutual

theorem walk_eq (skip : Bool) : ∀ (v : Json) (result : List String),
    walk skip v result = (mentions skip v).foldl addHash result
  | .null, _ | .bool _, _ | .number _, _ => rfl
  | .string s, result => by
      simp only [walk, mentions]
      cases parseVFSURI s with
      | some segment => simp
      | none => split_ifs <;> simp
  | .array items, result => walkItems_eq skip items result
  | .object fields, result => by
      rw [walk, mentions, List.foldl_append, walkFields_eq]
      congr 1
      split <;> simp

theorem walkItems_eq (skip : Bool) : ∀ (items : List Json) (result : List String),
    walkItems skip items result = (itemMentions skip items).foldl addHash result
  | [], _ => rfl
  | item :: rest, result => by
      rw [walkItems, itemMentions, List.foldl_append, walk_eq skip item, walkItems_eq skip rest]

theorem walkFields_eq (skip : Bool) : ∀ (fields : JsonMap) (result : List String),
    walkFields skip fields result = (fieldMentions skip fields).foldl addHash result
  | [], _ => rfl
  | (k, item) :: rest, result => by
      rw [walkFields, fieldMentions, List.foldl_append, walkFields_eq skip rest]
      split_ifs
      · rfl
      · rw [walk_eq skip item]

end

/-- A walk keeps what it is given and adds the hashes that the value names. -/
theorem mem_walk {skip : Bool} {v : Json} {result : List String} {x : String} :
    x ∈ walk skip v result ↔ x ∈ result ∨ ∃ s ∈ mentions skip v, x ∈ normalised s := by
  rw [walk_eq]
  induction mentions skip v generalizing result with
  | nil => simp
  | cons s rest ih => rw [List.foldl_cons, ih, mem_addHash, List.exists_mem_cons_iff, or_assoc]

theorem nodup_walk (skip : Bool) (v : Json) : (walk skip v []).Nodup := by
  rw [walk_eq]
  refine List.foldlRecOn _ _ List.nodup_nil fun result h s _ => ?_
  simp only [addHash]
  split_ifs with hnew
  · simpa [List.concat_eq_append] using h.concat hnew.2
  · exact h

mutual

/-- A value with the entries `$pipeline_outputs` of all its maps removed. -/
def withoutOutputs : Json → Json
  | .array items => .array (itemsWithoutOutputs items)
  | .object fields => .object (fieldsWithoutOutputs fields)
  | v => v

def itemsWithoutOutputs : List Json → List Json
  | [] => []
  | item :: rest => withoutOutputs item :: itemsWithoutOutputs rest

def fieldsWithoutOutputs : JsonMap → JsonMap
  | [] => []
  | (k, item) :: rest =>
    if k = "$pipeline_outputs" then fieldsWithoutOutputs rest
    else (k, withoutOutputs item) :: fieldsWithoutOutputs rest

end

theorem lookupKey_fieldsWithoutOutputs (fields : JsonMap) :
    lookupKey (fieldsWithoutOutputs fields) outputHashKey =
      (lookupKey fields outputHashKey).map withoutOutputs := by
  induction fields with
  | nil => rfl
  | cons e rest ih =>
    obtain ⟨k, item⟩ := e
    unfold lookupKey at ih ⊢
    rw [fieldsWithoutOutputs, List.find?_cons]
    split_ifs with hk
    · have hne : decide (k = outputHashKey) = false := by rw [hk]; decide
      simp only [hne]
      exact ih
    · rw [List.find?_cons]
      cases hkey : decide (k = outputHashKey) with
      | true => rfl
      | false => exact ih

mutual

theorem mentions_skip : ∀ v : Json, mentions true v = mentions false (withoutOutputs v)
  | .null | .bool _ | .number _ | .string _ => rfl
  | .array items => itemMentions_skip items
  | .object fields => by
      rw [mentions, withoutOutputs, mentions, fieldMentions_skip, lookupKey_fieldsWithoutOutputs]
      congr 1
      rcases lookupKey fields outputHashKey with _ | v
      · rfl
      · cases v <;> rfl

theorem itemMentions_skip : ∀ items : List Json,
    itemMentions true items = itemMentions false (itemsWithoutOutputs items)
  | [] => rfl
  | item :: rest => by
      rw [itemMentions, itemsWithoutOutputs, itemMentions, mentions_skip item, itemMentions_skip rest]

theorem fieldMentions_skip : ∀ fields : JsonMap,
    fieldMentions true fields = fieldMentions false (fieldsWithoutOutputs fields)
  | [] => rfl
  | (k, item) :: rest => by
      rw [fieldMentions, fieldsWithoutOutputs, fieldMentions_skip rest]
      by_cases hk : k = "$pipeline_outputs"
      · simp [hk]
      · simp [hk, fieldMentions, mentions_skip item]

end

/-- Extraction misses nothing and finds nothing else: each hash once that is mentioned, up
to case and blanks, and without the results of steps those that are mentioned elsewhere. -/
theorem blob_hashes_complete (v : Json) : (walk false v []).Nodup ∧
    (∀ x, x ∈ walk false v [] ↔ ∃ s ∈ mentions false v, x ∈ normalised s) ∧
    (∀ s, isValidCASHash s = true → normalised s = [Text.toLower s]) ∧
    walk true v [] = walk false (withoutOutputs v) [] := by
  refine ⟨nodup_walk false v, fun x => by simp [mem_walk],
    fun s => normalised_of_isValidCASHash, ?_⟩
  rw [walk_eq, walk_eq, mentions_skip]

/-- A segment is trimmed too: this one is no hash, but it is without the blank. -/
theorem blank_segment_extracted :
    let segment := digestA.text ++ " "
    parseVFSURI ("vfs://" ++ segment) = some segment ∧ isValidCASHash segment = false ∧
      walk false (.string ("vfs://" ++ segment)) [] = [digestA.text] := by
  decide +kernel

theorem isDigest_of_mem_extract {v : Option JsonMap} {skip : Bool} {x : String}
    (hx : x ∈ extractBlobHashesInternal v skip) : IsDigest x := by
  rcases v with _ | fields
  · simp [extractBlobHashesInternal] at hx
  obtain ⟨s, -, hs⟩ := (mem_walk.1 hx).resolve_left List.not_mem_nil
  obtain ⟨hs, hvalid⟩ := List.mem_filter.1 hs
  obtain rfl := List.mem_singleton.1 hs
  exact ⟨hvalid, Text.toLower_toLower _⟩

theorem mem_extractStepBlobHashes {outputs : Option (List (String × JsonMap))} {x : String} :
    x ∈ extractStepBlobHashes outputs ↔
      ∃ e ∈ outputs.getD [], x ∈ extractBlobHashes (some e.2) := by
  have hfold : ∀ (l : List (String × JsonMap)) (result : List String),
      x ∈ l.foldl (fun result e => walk false (.object e.2) result) result ↔
        x ∈ result ∨ ∃ e ∈ l, x ∈ walk false (.object e.2) [] := by
    intro l
    induction l with
    | nil => simp
    | cons e rest ih =>
      intro result
      rw [List.foldl_cons, ih, mem_walk]
      simp [or_assoc, mem_walk]
  simpa [extractStepBlobHashes, extractBlobHashes, extractBlobHashesInternal] using
    hfold (outputs.getD []) []

/-! ## Records -/

/-- Identity, provenance, routing and execution state shared by checkpoints and
task aggregates. -/
structure TaskContext where
  taskID : String
  service : String := ""
  status : String
  requesterNodeID : String := ""
  replyTo : String := ""
  nodeID : String := ""
  payload : Option JsonMap := none
  error : String := ""
  pipelineState : Option PipelineExecutionState := none
  metadata : Option (List (String × String)) := none
  deriving Repr, Inhabited

def errEmptyTaskID : GoError := .new "task ID cannot be empty"

def validateTaskID (taskID : String) : Option GoError :=
  if Text.trimSpace taskID = "" then some errEmptyTaskID else none

def mergeComparable {T : Type} [DecidableEq T] (zero dst src : T) (overwrite : Bool) : T :=
  if src = zero then dst else if overwrite ∨ dst = zero then src else dst

/-- `TaskContext.merge`. -/
def TaskContext.merge (c src : TaskContext) (overwrite : Bool) : TaskContext where
  taskID := c.taskID
  status := if overwrite ∧ src.status ≠ "" then src.status else c.status
  service := mergeComparable "" c.service src.service overwrite
  requesterNodeID := mergeComparable "" c.requesterNodeID src.requesterNodeID overwrite
  replyTo := mergeComparable "" c.replyTo src.replyTo overwrite
  nodeID := mergeComparable "" c.nodeID src.nodeID overwrite
  error := mergeComparable "" c.error src.error overwrite
  payload := if src.payload.isSome ∧ (overwrite ∨ c.payload.isNone) then src.payload else c.payload
  pipelineState :=
    if src.pipelineState.isSome ∧ (overwrite ∨ c.pipelineState.isNone) then src.pipelineState
    else c.pipelineState
  metadata :=
    match src.metadata with
    | none | some [] => c.metadata
    | some entries => some (mergeMap (c.metadata.getD []) entries overwrite)

/-- `TaskContext.Overlay`. -/
def TaskContext.overlay (c update : TaskContext) : TaskContext := c.merge update true

/-- `TaskContext.FillMissing`. -/
def TaskContext.fillMissing (c base : TaskContext) : TaskContext := c.merge base false

/-- A checkpoint.  Times are nanoseconds after Go's zero time. -/
structure TaskJournalRecord extends TaskContext where
  sequence : UInt64 := 0
  timestamp : ℤ := 0
  stepID : String := ""
  stepIndex : ℤ := 0
  outputs : Option JsonMap := none
  intermediate : Bool := false
  intermediateBlobs : List String := []
  deriving Repr, Inhabited

/-- `TaskJournalRecord.BlobHashes`. -/
def TaskJournalRecord.blobHashes (r : TaskJournalRecord) : List String :=
  r.intermediateBlobs ++ extractBlobHashes r.outputs

/-- The aggregate of a task's checkpoints. -/
structure TaskRecord extends TaskContext where
  createdAt : ℤ
  updatedAt : ℤ := 0
  currentStep : ℤ := 0
  currentStepID : String := ""
  expectedProducerNodeID : String := ""
  outputs : Option (List (String × JsonMap))
  finalOutputs : Option JsonMap := none
  retries : ℤ := 0
  deriving Repr, Inhabited

namespace TaskRecord

/-- `TaskRecord.BlobHashes`. -/
def blobHashes (t : TaskRecord) : List String :=
  extractStepBlobHashes t.outputs ++ extractBlobHashes t.payload ++
    extractBlobHashes t.finalOutputs

/-- The hashes a history record protects: those of its payload, and those of
its final outputs outside `$pipeline_outputs`. -/
def finalBlobHashes (t : TaskRecord) : List String :=
  extractNonIntermediateBlobHashes t.finalOutputs ++ extractBlobHashes t.payload

end TaskRecord

/-- What `omitempty` makes of a map on its way through JSON. -/
def omitEmpty {α : Type} : Option (List α) → Option (List α)
  | some [] => none
  | m => m

/-- A context as it is read back from the database. -/
def TaskContext.stored (c : TaskContext) : TaskContext :=
  { c with
    payload := omitEmpty c.payload
    metadata := omitEmpty c.metadata
    pipelineState := c.pipelineState.map fun state =>
      { state with
        outputs := omitEmpty state.outputs
        outputProducers := omitEmpty state.outputProducers
        selectedTargets := omitEmpty state.selectedTargets } }

/-- A checkpoint as it is read back from the journal. -/
def TaskJournalRecord.stored (r : TaskJournalRecord) : TaskJournalRecord :=
  { r with toTaskContext := r.toTaskContext.stored, outputs := omitEmpty r.outputs }

/-- A task record as it is read back from its bucket. -/
def TaskRecord.stored (t : TaskRecord) : TaskRecord :=
  { t with
    toTaskContext := t.toTaskContext.stored
    outputs := omitEmpty t.outputs
    finalOutputs := omitEmpty t.finalOutputs }

@[simp] theorem extractBlobHashesInternal_omitEmpty (m : Option JsonMap) (skip : Bool) :
    extractBlobHashesInternal (omitEmpty m) skip = extractBlobHashesInternal m skip := by
  rcases m with _ | _ | ⟨e, rest⟩ <;> rfl

@[simp] theorem TaskRecord.blobHashes_stored (t : TaskRecord) :
    t.stored.blobHashes = t.blobHashes := by
  have houtputs : extractStepBlobHashes (omitEmpty t.outputs) = extractStepBlobHashes t.outputs := by
    rcases t.outputs with _ | _ | ⟨e, rest⟩ <;> rfl
  simp [stored, TaskContext.stored, blobHashes, extractBlobHashes, houtputs]

@[simp] theorem TaskRecord.finalBlobHashes_stored (t : TaskRecord) :
    t.stored.finalBlobHashes = t.finalBlobHashes := by
  simp [stored, TaskContext.stored, finalBlobHashes, extractBlobHashes,
    extractNonIntermediateBlobHashes]

def newTaskRecord (taskID : String) (createdAt : ℤ) : TaskRecord where
  taskID := taskID
  status := ""
  createdAt := createdAt
  outputs := some []

def isTerminalTaskStatus (status : String) : Bool := status = "completed" ∨ status = "failed"

namespace TaskRecord

def applyJournalRecord (t : TaskRecord) (record : TaskJournalRecord) : TaskRecord :=
  let context := t.toTaskContext.overlay record.toTaskContext
  let status :=
    if record.status = taskEventSchemaMigrated then
      if t.status ≠ "" then t.status else "running"
    else context.status
  let outputs :=
    match record.pipelineState.bind PipelineExecutionState.outputs with
    | none => t.outputs
    | some cloned => some (mergeMap (t.outputs.getD []) cloned true)
  { t with
    toTaskContext := { context with status := status }
    updatedAt := record.timestamp
    currentStepID := if record.stepID ≠ "" then record.stepID else t.currentStepID
    currentStep :=
      if 0 < record.stepIndex ∨ t.currentStep = 0 then record.stepIndex else t.currentStep
    finalOutputs :=
      if record.outputs.isSome ∧ isTerminalTaskStatus record.status then record.outputs
      else t.finalOutputs
    outputs :=
      match record.outputs with
      | some stepOutputs =>
        if record.stepID ≠ "" then some (assignKey (outputs.getD []) record.stepID stepOutputs)
        else outputs
      | none => outputs }

def mergeFromActive (t active : TaskRecord) : TaskRecord :=
  { t with
    toTaskContext := t.toTaskContext.fillMissing active.toTaskContext
    createdAt := if t.createdAt = 0 ∧ active.createdAt ≠ 0 then active.createdAt else t.createdAt
    outputs := if t.outputs.isNone ∧ active.outputs.isSome then active.outputs else t.outputs
    currentStepID := mergeComparable "" t.currentStepID active.currentStepID false
    expectedProducerNodeID :=
      mergeComparable "" t.expectedProducerNodeID active.expectedProducerNodeID false
    currentStep := mergeComparable 0 t.currentStep active.currentStep false
    retries := mergeComparable 0 t.retries active.retries false }

end TaskRecord

end Proxyma.Storage
