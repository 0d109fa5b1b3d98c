import Proxyma.Lib.CleanPath
import Proxyma.Lib.Text

/-!
# Protocol values

The data that nodes exchange and store: errors, JSON values, VFS index entries,
pipeline definitions, and tasks with the execution state they carry.  Machine
integers are `ℤ` with `wrap64` at the additions that can overflow.  A Go map is an
association list; a nil map or pointer is `none`.
-/

namespace Proxyma

/-! ## Errors -/

/-- A non-nil Go `error`.  Formatted errors keep the format of the source and
its string operands apart. -/
inductive GoError
  /-- A sentinel made by `errors.New`. -/
  | new (text : String)
  /-- `*VFSFileNotFoundError`. -/
  | vfsFileNotFound (name : String)
  /-- `fmt.Errorf` without `%w`. -/
  | errorf (format : String) (args : List String)
  /-- `fmt.Errorf` whose last operand is formatted with `%w`. -/
  | wrapf (format : String) (args : List String) (err : GoError)
  /-- `errors.Join` of two non-nil errors. -/
  | join (first second : GoError)
  deriving DecidableEq, Repr

namespace GoError

/-- `errors.Is(err, target)`. -/
def is : GoError → GoError → Bool
  | wrapf format args err, target => wrapf format args err = target ∨ err.is target
  | join first second, target =>
    join first second = target ∨ first.is target ∨ second.is target
  | err, target => err = target

/-- The text `fmt` makes of a format: `%w` stands for the wrapped error, any other
directive for the next operand, which `%q` puts in quotes. -/
def formatText (wrapped : String) : List Char → List String → String
  | [], _ => ""
  | '%' :: 'w' :: rest, args => wrapped ++ formatText wrapped rest args
  | '%' :: directive :: rest, args =>
    let arg := args.headD ""
    (if directive = 'q' then "\"" ++ arg ++ "\"" else arg) ++ formatText wrapped rest args.tail
  | char :: rest, args => String.singleton char ++ formatText wrapped rest args

/-- `err.Error()`. -/
def text : GoError → String
  | new text => text
  | vfsFileNotFound name => "file " ++ name ++ " not found"
  | errorf format args => formatText "" format.toList args
  | wrapf format args err => formatText err.text format.toList args
  | join first second => first.text ++ "\n" ++ second.text

/-- `errors.Join` of two values of type `error`. -/
def joinErrors : Option GoError → Option GoError → Option GoError
  | none, err => err
  | err, none => err
  | some first, some second => some (join first second)

theorem joinErrors_eq_none {a b : Option GoError} :
    joinErrors a b = none ↔ a = none ∧ b = none := by
  cases a <;> cases b <;> simp [joinErrors]

end GoError

/-- `os.ErrNotExist`. -/
def errNotExist : GoError := .new "file does not exist"

/-- `ENOTEMPTY`. -/
def errNotEmpty : GoError := .new "directory not empty"

/-! ## Integers -/

/-- The value of a 64-bit signed addition whose exact result is `v`. -/
def wrap64 (v : ℤ) : ℤ := Int.bmod v (2 ^ 64)

theorem wrap64_of_range {v : ℤ} (hlow : -2 ^ 63 ≤ v) (hhigh : v < 2 ^ 63) : wrap64 v = v := by
  unfold wrap64
  exact Int.bmod_eq_of_le (by norm_num; omega) (by norm_num; omega)

/-! ## JSON -/

/-- A decoded JSON value.  The fields of an object are listed in the order in
which a loop over them runs. -/
inductive Json
  | null
  | bool (value : Bool)
  | number (literal : String)
  | string (value : String)
  | array (items : List Json)
  | object (fields : List (String × Json))
  deriving Repr, Inhabited

/-- `map[string]any`. -/
abbrev JsonMap := List (String × Json)

/-- The value a Go map holds under a key. -/
def lookupKey {V : Type} (m : List (String × V)) (key : String) : Option V :=
  (m.find? fun e => e.1 = key).map Prod.snd

/-- Assign a key of a Go map. -/
def assignKey {V : Type} (m : List (String × V)) (key : String) (value : V) :
    List (String × V) :=
  if (lookupKey m key).isSome then m.map fun e => if e.1 = key then (key, value) else e
  else m ++ [(key, value)]

theorem mem_assignKey {V : Type} (m : List (String × V)) (key : String) (value : V) :
    (key, value) ∈ assignKey m key value := by
  unfold assignKey lookupKey
  cases hfind : m.find? fun e => e.1 = key with
  | none => simp
  | some e =>
    have hmem := List.mem_of_find?_eq_some hfind
    have hkey : e.1 = key := by simpa using List.find?_some hfind
    simp only [Option.map_some, Option.isSome_some, if_true]
    exact List.mem_map.2 ⟨e, hmem, if_pos hkey⟩

@[simp] theorem lookupKey_nil {V : Type} (key : String) :
    lookupKey ([] : List (String × V)) key = none := rfl

theorem lookupKey_cons {V : Type} (e : String × V) (m : List (String × V)) (key : String) :
    lookupKey (e :: m) key = if e.1 = key then some e.2 else lookupKey m key := by
  unfold lookupKey
  rw [List.find?_cons]
  split <;> simp_all

theorem lookupKey_map_assign {V : Type} (m : List (String × V)) (key key' : String) (value : V) :
    lookupKey (m.map fun e => if e.1 = key then (key, value) else e) key' =
      if key' = key then (lookupKey m key).map fun _ => value else lookupKey m key' := by
  induction m with
  | nil => simp
  | cons e m ih =>
    simp only [List.map_cons, lookupKey_cons, ih]
    by_cases hkey : key' = key
    · subst hkey
      by_cases he : e.1 = key' <;> simp [he]
    · by_cases he : e.1 = key
      · simp [he, hkey, Ne.symm hkey]
      · simp [he, hkey]

theorem lookupKey_assignKey {V : Type} (m : List (String × V)) (key key' : String) (value : V) :
    lookupKey (assignKey m key value) key' =
      if key' = key then some value else lookupKey m key' := by
  unfold assignKey
  split_ifs with hmem hkey hkey
  · rw [lookupKey_map_assign, if_pos hkey]
    obtain ⟨old, hold⟩ := Option.isSome_iff_exists.1 hmem
    rw [hold]
    rfl
  · rw [lookupKey_map_assign, if_neg hkey]
  all_goals
    have happend : ∀ m : List (String × V), lookupKey (m ++ [(key, value)]) key' =
        (lookupKey m key').or (if key = key' then some value else none) := by
      intro m
      induction m with
      | nil => simp [lookupKey_cons]
      | cons e m ih =>
        rw [List.cons_append, lookupKey_cons, lookupKey_cons, ih]
        split_ifs <;> rfl
    rw [happend]
  · subst hkey
    simp [Option.not_isSome_iff_eq_none.1 hmem]
  · simp [Ne.symm hkey]

/-- `MergeMap(dst, src, overwrite)`. -/
def mergeMap {V : Type} (dst src : List (String × V)) (overwrite : Bool) : List (String × V) :=
  src.foldl (fun dst e =>
    if overwrite ∨ (lookupKey dst e.1).isNone then assignKey dst e.1 e.2 else dst) dst

theorem isSome_lookupKey_mergeMap {V : Type} (dst src : List (String × V)) (overwrite : Bool)
    {key : String} (h : (lookupKey dst key).isSome) :
    (lookupKey (mergeMap dst src overwrite) key).isSome := by
  unfold mergeMap
  induction src generalizing dst with
  | nil => exact h
  | cons e src ih =>
    refine ih _ ?_
    dsimp only
    split_ifs
    · rw [lookupKey_assignKey]
      split_ifs
      · rfl
      · exact h
    · exact h

/-! ## VFS entries and URIs -/

/-- The metadata of one logical file. -/
structure IndexEntry where
  name : String
  size : ℤ
  hash : String
  version : ℤ
  deleted : Bool
  deriving DecidableEq, Repr, Inhabited

/-- `VFSURIPrefix`. -/
def vfsURIStart : String := "vfs://"

def isVFSURI (s : String) : Bool := Text.hasPrefix s vfsURIStart

/-- `ParseVFSURI`, with `none` for `ok = false`. -/
def parseVFSURI (s : String) : Option String :=
  if !isVFSURI s then none
  else
    let hash := CleanPath.base (Text.trimPrefix s vfsURIStart)
    if hash ≠ "" ∧ hash ≠ "." then some hash else none

def outputHashKey : String := "output_hash"

/-! ## Pipelines -/

/-- One step of a pipeline: a service, and the node it is bound to if any. -/
structure PipelineStep where
  id : String
  service : String
  targetNodeID : String := ""
  deriving DecidableEq, Repr, Inhabited

/-- A link from an output port to an input port. -/
structure PipelineConnection where
  fromStep : String
  fromPort : String
  toStep : String
  toPort : String
  deriving DecidableEq, Repr, Inhabited

/-- One revision of a pipeline definition. -/
structure PipelineSchema where
  id : String
  version : ℤ
  steps : List PipelineStep
  connections : List PipelineConnection := []
  deleted : Bool := false
  deriving DecidableEq, Repr, Inhabited

/-- The execution state a pipeline task carries from node to node. -/
structure PipelineExecutionState where
  pipelineID : String
  pipelineVersion : ℤ
  schemaHash : String := ""
  currentStep : ℤ := 0
  outputs : Option (List (String × JsonMap)) := none
  outputProducers : Option (List (String × String)) := none
  selectedTargets : Option (List (String × String)) := none
  snapshot : Option PipelineSchema := none
  deriving Repr, Inhabited

/-- The step an index of type `int` names, if it is in range. -/
def PipelineSchema.stepAt (schema : PipelineSchema) (index : ℤ) : Option PipelineStep :=
  if 0 ≤ index then schema.steps[index.toNat]? else none

def taskEventSchemaMigrated : String := "schema_migrated"

/-! ## Tasks -/

/-- The `Status` of a task response; `other` is any text the engine does not
know. -/
inductive TaskStatus
  | pending
  | running
  | escrow
  | ingesting
  | completed
  | failed
  | other (text : String)
  deriving DecidableEq, Repr, Inhabited

def TaskStatus.text : TaskStatus → String
  | pending => "pending"
  | running => "running"
  | escrow => "escrow"
  | ingesting => "ingesting"
  | completed => "completed"
  | failed => "failed"
  | other text => text

/-- `TaskRequest`. -/
structure TaskRequest where
  taskID : String
  service : String
  requesterNodeID : String := ""
  replyTo : String := ""
  payload : Option JsonMap := none
  pipelineState : Option PipelineExecutionState := none
  expectedProducerNodeID : String := ""
  deriving Repr, Inhabited

/-- `ServiceTaskResponse`. -/
structure ServiceTaskResponse where
  taskID : String
  service : String
  status : TaskStatus
  error : String := ""
  outputs : Option JsonMap := none
  producerNodeID : String := ""
  pipelineState : Option PipelineExecutionState := none
  deriving Repr, Inhabited

/-- `TaskEscrowRequest`, without the status, which is always `escrow`. -/
structure TaskEscrowRequest where
  taskID : String
  service : String
  requesterNodeID : String := ""
  replyTo : String := ""
  stepID : String := ""
  stepIndex : ℤ := 0
  error : String := ""
  payload : Option JsonMap := none
  outputs : Option (List (String × JsonMap)) := none
  pipelineState : Option PipelineExecutionState := none
  producerNodeID : String := ""
  timestamp : ℤ := 0
  deriving Repr, Inhabited

/-- The hash and the name `OutputHashFromOutputs` finds; the hash is empty if
there is none. -/
def outputHashFromOutputs (outputs : Option JsonMap) : String × String :=
  let fields := outputs.getD []
  let text : Option Json → String
    | some (.string s) => s
    | _ => ""
  if text (lookupKey fields outputHashKey) ≠ "" then
    (text (lookupKey fields outputHashKey), text (lookupKey fields "output_name"))
  else
    (fields.findSome? fun e =>
      match e.2 with
      | .string pathStr => (parseVFSURI pathStr).map fun hash => (hash, e.1)
      | _ => none).getD ("", "")

end Proxyma
