import Mathlib

/-!
# Cleaned paths

A path in the normal form of `filepath.Clean`: a flag for the leading slash and
the components that remain once empty components, `.` and `..` are resolved.
`CleanPath.join` appends a text of any shape, which is why it can leave the
directory it starts from; `join_of_plain` says that a single ordinary component
only descends.
-/

/-- A path without empty components, without `.`, and with `..` only where it
cannot be resolved. -/
structure CleanPath where
  rooted : Bool
  parts : List String
  deriving DecidableEq, Repr

namespace CleanPath

/-- The components of a text between its slashes. -/
def splitSlash : List Char → List (List Char)
  | [] => [[]]
  | c :: rest =>
    if c = '/' then [] :: splitSlash rest
    else match splitSlash rest with
      | [] => [[c]]
      | head :: tail => (c :: head) :: tail

/-- The components of a text between its slashes. -/
def components (s : String) : List String := (splitSlash s.toList).map String.ofList

/-- Append one component the way `filepath.Clean` reads it. -/
def push (path : CleanPath) (part : String) : CleanPath :=
  if part = "" ∨ part = "." then path
  else if part = ".." then
    match path.parts.getLast? with
    | none => if path.rooted then path else { path with parts := [".."] }
    | some last =>
      if last = ".." then { path with parts := path.parts ++ [".."] }
      else { path with parts := path.parts.dropLast }
  else { path with parts := path.parts ++ [part] }

/-- `filepath.Join(path, text)`. -/
def join (path : CleanPath) (text : String) : CleanPath := (components text).foldl push path

/-- `filepath.Base` of a text. -/
def base (text : String) : String :=
  let trimmed := (text.toList.reverse.dropWhile (· = '/')).reverse
  if text = "" then "."
  else if trimmed = [] then "/"
  else String.ofList (trimmed.reverse.takeWhile (· ≠ '/')).reverse

/-- An ordinary component: no slash, and none of the texts `Clean` resolves. -/
def Plain (part : String) : Prop := part ≠ "" ∧ part ≠ "." ∧ part ≠ ".." ∧ '/' ∉ part.toList

instance (part : String) : Decidable (Plain part) := inferInstanceAs (Decidable (_ ∧ _))

theorem splitSlash_of_notMem : ∀ {l : List Char}, '/' ∉ l → splitSlash l = [l]
  | [], _ => rfl
  | c :: rest, h => by
      have hc : c ≠ '/' := fun hc => h (hc ▸ List.mem_cons_self)
      have hrest : '/' ∉ rest := fun hmem => h (List.mem_cons_of_mem _ hmem)
      simp [splitSlash, hc, splitSlash_of_notMem hrest]

theorem join_of_plain (path : CleanPath) {part : String} (h : Plain part) :
    path.join part = { path with parts := path.parts ++ [part] } := by
  obtain ⟨hempty, hdot, hdots, hslash⟩ := h
  simp [join, components, splitSlash_of_notMem hslash, push, hempty, hdot, hdots]

/-- Distinct ordinary components name distinct files of a directory. -/
theorem join_injective {path : CleanPath} {a b : String} (ha : Plain a) (hb : Plain b)
    (h : path.join a = path.join b) : a = b := by
  rw [join_of_plain path ha, join_of_plain path hb] at h
  simpa using h

end CleanPath
