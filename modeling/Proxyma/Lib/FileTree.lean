import Mathlib

/-!
# Directory trees

A directory tree as a value: a file with its content, or a directory with named
entries.  Paths are lists of names.  The operations are those a program has on
one file system, and each either fails and leaves the tree alone or is done as a
whole.

What an operation does to the rest of the tree is said in terms of paths that
are `Apart`, that is, neither below the other: such a path is not affected.
-/

namespace FileTree

/-- A path, from the root of the tree. -/
abbrev Path := List String

variable {q : Path}

/-- A file or a directory. -/
inductive Node (α : Type) : Type
  | file (content : α)
  | dir (entries : List (String × Node α))

/-- Why an operation fails. -/
inductive Errno
  | exist
  | notExist
  | notDir
  | notEmpty
  | invalid
  deriving DecidableEq, Repr

/-! ## Entries of a directory -/

section Entries

variable {V : Type}

/-- The entry with a name. -/
def find (entries : List (String × V)) (name : String) : Option V :=
  (entries.find? fun e => e.1 = name).map Prod.snd

/-- Remove the entry with a name. -/
def discard (entries : List (String × V)) (name : String) : List (String × V) :=
  entries.filter fun e => e.1 ≠ name

/-- Add or replace the entry with a name. -/
def assign (entries : List (String × V)) (name : String) (node : V) : List (String × V) :=
  (name, node) :: discard entries name

@[simp] theorem find_discard (entries : List (String × V)) (name other : String) :
    find (discard entries name) other = if other = name then none else find entries other := by
  induction entries with
  | nil => simp [find, discard]
  | cons e rest ih =>
    simp only [find, discard] at ih ⊢
    by_cases hname : e.1 = name
    · rw [List.filter_cons_of_neg (by simpa using hname), ih]
      by_cases hother : other = name
      · simp [hother]
      · rw [List.find?_cons_of_neg (by simpa [hname] using fun h => hother h.symm)]
    · rw [List.filter_cons_of_pos (by simpa using hname)]
      by_cases hfirst : e.1 = other
      · have hne : other ≠ name := fun h => hname (hfirst.trans h)
        simp [hfirst, hne]
      · rw [List.find?_cons_of_neg (by simpa using hfirst), ih,
          List.find?_cons_of_neg (by simpa using hfirst)]

@[simp] theorem find_assign (entries : List (String × V)) (name other : String) (node : V) :
    find (assign entries name node) other =
      if other = name then some node else find entries other := by
  by_cases h : other = name
  · simp [find, assign, h]
  · have hskip : find (assign entries name node) other = find (discard entries name) other := by
      simp only [find, assign]
      rw [List.find?_cons_of_neg (by simpa using fun h' => h h'.symm)]
    rw [hskip, find_discard, if_neg h, if_neg h]

end Entries

/-! ## Paths -/

/-- Neither path is below the other. -/
def Apart (p q : Path) : Prop := ¬ p <+: q ∧ ¬ q <+: p

instance (p q : Path) : Decidable (Apart p q) := inferInstanceAs (Decidable (_ ∧ _))

theorem Apart.symm {p : Path} (h : Apart p q) : Apart q p := ⟨h.2, h.1⟩

theorem not_apart_nil : ¬ Apart [] q := fun h => h.1 List.nil_prefix

theorem apart_cons {c d : String} {p : Path} : Apart (c :: p) (d :: q) ↔ c ≠ d ∨ Apart p q := by
  simp only [Apart, List.cons_prefix_cons]
  by_cases h : c = d
  · simp [h]
  · simp [h, Ne.symm h]

namespace Node

variable {α : Type}
variable {p q a : Path} {tree tree' value : Node α}

/-- What is at a path. -/
def get : Path → Node α → Option (Node α)
  | [], node => some node
  | c :: p, .dir entries => (find entries c).bind (get p)
  | _ :: _, .file _ => none

/-- Put something at a path whose parent directory exists. -/
def set : Path → Node α → Node α → Option (Node α)
  | [], _, value => some value
  | _ :: _, .file _, _ => none
  | [c], .dir entries, value => some (.dir (assign entries c value))
  | c :: d :: p, .dir entries, value =>
    ((find entries c).bind fun node => set (d :: p) node value).map fun node =>
      .dir (assign entries c node)

/-- Remove what is at a path, if anything. -/
def removeAll : Path → Node α → Node α
  | [], node => node
  | _ :: _, .file content => .file content
  | [c], .dir entries => .dir (discard entries c)
  | c :: d :: p, .dir entries =>
    match find entries c with
    | none => .dir entries
    | some node => .dir (assign entries c (removeAll (d :: p) node))

/-- Create a directory and those above it. -/
def mkdirAll : Path → Node α → Option (Node α)
  | [], .dir entries => some (.dir entries)
  | _, .file _ => none
  | c :: p, .dir entries =>
    (mkdirAll p ((find entries c).getD (.dir []))).map fun node => .dir (assign entries c node)

/-- Create a directory where nothing is. -/
def mkdir (p : Path) (tree : Node α) : Except Errno (Node α) :=
  if (tree.get p).isSome then .error .exist
  else
    match tree.set p (.dir []) with
    | none => .error .notExist
    | some tree => .ok tree

/-- Whether a rename may put one thing in the place of another. -/
def replaces : Node α → Option (Node α) → Bool
  | _, none => true
  | .file _, some (.file _) => true
  | .dir _, some (.dir []) => true
  | _, _ => false

/-- Move what is at one path to another. -/
def rename (a b : Path) (tree : Node α) : Except Errno (Node α) :=
  match tree.get a with
  | none => .error .notExist
  | some value =>
    if a <+: b then .error .invalid
    else if !value.replaces (tree.get b) then .error .notEmpty
    else
      match (tree.removeAll a).set b value with
      | none => .error .notExist
      | some tree => .ok tree

/-- Write a file. -/
def write (p : Path) (content : α) (tree : Node α) : Except Errno (Node α) :=
  if !(file content).replaces (tree.get p) then .error .notDir
  else
    match tree.set p (.file content) with
    | none => .error .notExist
    | some tree => .ok tree

/-- Remove a file or an empty directory. -/
def remove (p : Path) (tree : Node α) : Except Errno (Node α) :=
  match tree.get p with
  | none => .error .notExist
  | some (.dir (_ :: _)) => .error .notEmpty
  | some _ => .ok (tree.removeAll p)

/-- The root is a directory. -/
def IsDir : Node α → Prop
  | dir _ => True
  | file _ => False

/-! ## Reading after writing -/

theorem get_set (h : tree.set p value = some tree') : tree'.get p = some value := by
  induction p generalizing tree tree' with
  | nil => cases h; rfl
  | cons c p ih =>
    cases tree with
    | file content => cases h
    | dir entries =>
      cases p with
      | nil =>
        cases h
        simp [get]
      | cons d p =>
        obtain ⟨node, hnode, rfl⟩ := Option.map_eq_some_iff.1 h
        obtain ⟨child, -, hchild⟩ := Option.bind_eq_some_iff.1 hnode
        simpa [get] using ih hchild

theorem get_set_of_apart (h : tree.set p value = some tree') (hpq : Apart p q) :
    tree'.get q = tree.get q := by
  induction p generalizing q tree tree' with
  | nil => exact absurd hpq not_apart_nil
  | cons c p ih =>
    cases tree with
    | file content => cases h
    | dir entries =>
      rcases q with _ | ⟨e, q⟩
      · exact absurd hpq.symm not_apart_nil
      cases p with
      | nil =>
        cases h
        have hne : e ≠ c := by
          rintro rfl
          exact hpq.1 (by simp)
        simp [get, hne]
      | cons d p =>
        obtain ⟨node, hnode, rfl⟩ := Option.map_eq_some_iff.1 h
        obtain ⟨child, hfind, hchild⟩ := Option.bind_eq_some_iff.1 hnode
        by_cases hce : e = c
        · subst hce
          have hrest := (apart_cons.1 hpq).resolve_left fun hne => hne rfl
          simp [get, hfind, ih hchild hrest]
        · simp [get, hce]

theorem get_removeAll (hp : p ≠ []) (tree : Node α) (q : Path) :
    (tree.removeAll p).get (p ++ q) = none := by
  induction p generalizing tree with
  | nil => exact absurd rfl hp
  | cons c p ih =>
    cases tree with
    | file content => rfl
    | dir entries =>
      rcases p with _ | ⟨d, p⟩
      · simp [removeAll, get]
      simp only [removeAll]
      cases hfind : find entries c with
      | none => simp [get, hfind]
      | some node => simpa [get] using ih (by simp) node

theorem get_removeAll_of_apart (hpq : Apart p q) (tree : Node α) :
    (tree.removeAll p).get q = tree.get q := by
  induction p generalizing q tree with
  | nil => exact absurd hpq not_apart_nil
  | cons c p ih =>
    cases tree with
    | file content => rfl
    | dir entries =>
      rcases q with _ | ⟨e, q⟩
      · exact absurd hpq.symm not_apart_nil
      cases p with
      | nil =>
        have hne : e ≠ c := by
          rintro rfl
          exact hpq.1 (by simp)
        simp [removeAll, get, hne]
      | cons d p =>
        simp only [removeAll]
        rcases hfind : find entries c with _ | node
        · rfl
        by_cases hce : e = c
        · subst hce
          have hrest := (apart_cons.1 hpq).resolve_left fun hne => hne rfl
          simp [get, hfind, ih hrest node]
        · simp [get, hce]

theorem get_mkdirAll_of_apart (h : tree.mkdirAll p = some tree') (hpq : Apart p q) :
    tree'.get q = tree.get q := by
  induction p generalizing q tree tree' with
  | nil => exact absurd hpq not_apart_nil
  | cons c p ih =>
    cases tree with
    | file content => cases h
    | dir entries =>
      rcases q with _ | ⟨e, q⟩
      · exact absurd hpq.symm not_apart_nil
      obtain ⟨node, hnode, rfl⟩ := Option.map_eq_some_iff.1 h
      by_cases hce : e = c
      · subst hce
        have hrest := (apart_cons.1 hpq).resolve_left fun hne => hne rfl
        have hget := ih hnode hrest
        cases hfind : find entries e with
        | some child => simpa [get, hfind] using hget
        | none =>
          rcases q with _ | ⟨d, q⟩
          · exact absurd hrest.symm not_apart_nil
          have hempty : get (d :: q) (dir [] : Node α) = none := rfl
          rw [hfind, Option.getD_none, hempty] at hget
          simp [get, hfind, hget]
      · simp [get, hce]

theorem get_append (p q : Path) (tree : Node α) :
    tree.get (p ++ q) = (tree.get p).bind (get q) := by
  induction p generalizing tree with
  | nil => rfl
  | cons c p ih =>
    cases tree with
    | file content => rfl
    | dir entries =>
      simp only [List.cons_append, get]
      cases find entries c with
      | none => rfl
      | some node => exact ih node

theorem get_set_parent {c : String} {entries : List (String × Node α)}
    (h : tree.set (p ++ [c]) value = some tree') (hdir : tree.get p = some (.dir entries)) :
    tree'.get p = some (.dir (assign entries c value)) := by
  induction p generalizing tree tree' with
  | nil =>
    cases hdir
    cases h
    rfl
  | cons d p ih =>
    cases tree with
    | file content => cases h
    | dir outer =>
      obtain ⟨e, rest, hrest⟩ : ∃ e rest, p ++ [c] = e :: rest := by
        cases p <;> exact ⟨_, _, rfl⟩
      rw [List.cons_append, hrest, set] at h
      obtain ⟨node, hnode, rfl⟩ := Option.map_eq_some_iff.1 h
      obtain ⟨child, hfind, hchild⟩ := Option.bind_eq_some_iff.1 hnode
      rw [get, hfind] at hdir
      rw [← hrest] at hchild
      simpa [get] using ih hchild hdir

/-- A directory that did not exist is empty when it has been created; what is in
it otherwise stays. -/
theorem get_mkdirAll (h : tree.mkdirAll p = some tree') :
    tree'.get p = some ((tree.get p).getD (.dir [])) := by
  induction p generalizing tree tree' with
  | nil =>
    cases tree with
    | file content => cases h
    | dir entries => cases h; rfl
  | cons c p ih =>
    cases tree with
    | file content => cases h
    | dir entries =>
      obtain ⟨node, hnode, rfl⟩ := Option.map_eq_some_iff.1 h
      have hget := ih hnode
      simp only [get, find_assign, if_true, Option.bind_some, hget]
      cases hfind : find entries c with
      | some child => simp
      | none => cases p <;> simp [get, find]

/-- Creating a directory does not change what is in it. -/
theorem get_mkdirAll_below (h : tree.mkdirAll p = some tree') (hq : q ≠ []) :
    tree'.get (p ++ q) = tree.get (p ++ q) := by
  rw [get_append, get_append, get_mkdirAll h]
  cases hget : tree.get p with
  | some node => rfl
  | none =>
    cases q with
    | nil => exact absurd rfl hq
    | cons c q => rfl

/-! ## The root -/

theorem isDir_set (hp : p ≠ []) (h : tree.set p value = some tree') : tree'.IsDir := by
  match p, tree, h with
  | [c], .dir entries, h => cases h; trivial
  | c :: d :: p, .dir entries, h =>
    obtain ⟨node, -, rfl⟩ := Option.map_eq_some_iff.1 h
    trivial

theorem isDir_removeAll (h : tree.IsDir) : (tree.removeAll p).IsDir := by
  match p, tree, h with
  | [], .dir entries, _ => trivial
  | [c], .dir entries, _ => trivial
  | c :: d :: p, .dir entries, _ =>
    simp only [removeAll]
    split <;> trivial

theorem isDir_mkdirAll (h : tree.mkdirAll p = some tree') : tree'.IsDir := by
  match p, tree, h with
  | [], .dir entries, h => cases h; trivial
  | c :: p, .dir entries, h =>
    obtain ⟨node, -, rfl⟩ := Option.map_eq_some_iff.1 h
    trivial

/-- In a directory, anything can be put under a name. -/
theorem set_singleton (h : tree.IsDir) (c : String) (value : Node α) :
    ∃ tree', tree.set [c] value = some tree' := by
  match tree, h with
  | .dir entries, _ => exact ⟨_, rfl⟩

/-! ## Operations -/

/-- What a rename does when it is done. -/
structure Renamed (a b : Path) (tree tree' : Node α) : Prop where
  moved : tree'.get b = tree.get a
  gone : tree'.get a = none
  others : ∀ q, Apart a q → Apart b q → tree'.get q = tree.get q
  isDir : tree'.IsDir

theorem rename_ok {b : Path} (ha : a ≠ []) (hb : b ≠ []) (hab : Apart a b)
    (h : tree.rename a b = .ok tree') : Renamed a b tree tree' := by
  unfold rename at h
  split at h
  · cases h
  rename_i value hvalue
  split_ifs at h
  split at h
  · cases h
  rename_i result hset
  cases h
  refine ⟨(get_set hset).trans hvalue.symm, ?_, fun q haq hbq => ?_, isDir_set hb hset⟩
  · rw [get_set_of_apart hset hab.symm]
    simpa using get_removeAll ha tree []
  · rw [get_set_of_apart hset hbq, get_removeAll_of_apart haq]

theorem rename_notExist {b : Path} (h : tree.get a = none) :
    tree.rename a b = .error .notExist := by
  rw [rename, h]

/-- A rename to a free name in the root directory is done. -/
theorem rename_free {c : String} (hac : Apart a [c]) (hdir : tree.IsDir)
    (hvalue : tree.get a = some value) (hfree : tree.get [c] = none) :
    ∃ tree', tree.rename a [c] = .ok tree' := by
  obtain ⟨tree', hset⟩ := set_singleton (isDir_removeAll (p := a) hdir) c value
  refine ⟨tree', ?_⟩
  simp only [rename, hvalue, hac.1, hfree, if_false, replaces, hset]
  rfl

theorem mkdir_ok (h : tree.mkdir p = .ok tree') : tree.set p (.dir []) = some tree' := by
  unfold mkdir at h
  split_ifs at h
  split at h
  · cases h
  · rename_i result hset
    cases h
    exact hset

/-- What a write does when it is done. -/
structure Written (p : Path) (content : α) (tree tree' : Node α) : Prop where
  get : tree'.get p = some (.file content)
  others : ∀ q, Apart p q → tree'.get q = tree.get q
  isDir : tree'.IsDir

theorem write_ok (hp : p ≠ []) {content : α} (h : tree.write p content = .ok tree') :
    tree.set p (.file content) = some tree' ∧ Written p content tree tree' := by
  unfold write at h
  split_ifs at h
  split at h
  · cases h
  · rename_i result hset
    cases h
    exact ⟨hset, get_set hset, fun q hpq => get_set_of_apart hset hpq, isDir_set hp hset⟩

/-- What a removal does. -/
structure Removed (p : Path) (tree tree' : Node α) : Prop where
  gone : ∀ q, tree'.get (p ++ q) = none
  others : ∀ q, Apart p q → tree'.get q = tree.get q

theorem removed_removeAll (hp : p ≠ []) (tree : Node α) : Removed p tree (tree.removeAll p) :=
  ⟨get_removeAll hp tree, fun _ hpq => get_removeAll_of_apart hpq tree⟩

theorem remove_file {content : α} (h : tree.get p = some (.file content)) :
    tree.remove p = .ok (tree.removeAll p) := by
  rw [remove, h]

theorem remove_ok (h : tree.remove p = .ok tree') : tree' = tree.removeAll p := by
  unfold remove at h
  split at h
  · cases h
  · cases h
  · cases h
    rfl

end Node

end FileTree
