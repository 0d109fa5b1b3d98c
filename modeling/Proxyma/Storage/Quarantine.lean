import Proxyma.Storage.Physical

/-!
# Corrupt blobs

One path of the blob directory: the file that is there, whose content need not
hash to the name, and what the process knows about it.  The operations on a hash
exclude each other by a lock of the hash; readers share it.

`BlobExists` and `ReadBlob` find out that the file is corrupt under the shared
lock, give the lock up and take it again exclusively to move the file aside.  So
each of them is two moves here, and what is at the path may be another file by
the time of the second one.  `Prepare` and `Commit` verify and move aside under
one exclusive lock.

The state remembers what was moved aside, and whether a commit has succeeded
since the last deletion.  As long as no commit runs while a reader waits to move
a file aside, a reader that waits finds a corrupt file or none (`Sound.waiting`),
and everything else follows.
-/

namespace Proxyma.Storage

open GoError

/-! ## Files -/

/-- A way to hash contents and to measure them. -/
structure Hashing (α : Type) where
  sum256 : α → String
  size : α → ℤ

/-- A directory entry; `regular` is false for directories, links and the like. -/
structure CasFile (α : Type) where
  content : α
  regular : Bool
  modTime : ℤ
  deriving DecidableEq

def errBlobCorrupt : GoError := .new "CAS blob is corrupt"

/-- `os.ErrExist`. -/
def errExist : GoError := .new "file already exists"

/-- What can fail: the calls an operation makes, by the order of their first use. -/
structure FileFaults where
  lstat : Option GoError := none
  open_ : Option GoError := none
  restat : Option GoError := none
  removeAll : Option GoError := none
  rename : Option GoError := none
  link : Option GoError := none
  stat : Option GoError := none
  relink : Option GoError := none
  sync : Option GoError := none
  remove : Option GoError := none

/-- What a verification finds. -/
inductive Verdict
  | intact
  | missing
  | corrupt (err : GoError)
  | failed (err : GoError)

/-- The state of the path of one hash. -/
structure BlobPath (α : Type) where
  file : Option (CasFile α)
  verified : Option (ℤ × ℤ)
  waiting : ℕ
  quarantined : List (CasFile α)
  committed : Bool

/-- A process that has just started, with any file at the path. -/
def BlobPath.start {α : Type} (file : Option (CasFile α)) : BlobPath α := ⟨file, none, 0, [], false⟩

section Operations

variable {α : Type} (h : Hashing α) (hash : String)

/-- The content of a file hashes to its name. -/
def CasFile.Matches (file : CasFile α) : Prop := file.regular = true ∧ h.sum256 file.content = hash

instance (file : CasFile α) : Decidable (file.Matches h hash) :=
  inferInstanceAs (Decidable (_ ∧ _))

def fingerprint (file : CasFile α) : ℤ × ℤ := (h.size file.content, file.modTime)

namespace BlobPath

def removeCachedHash (s : BlobPath α) : BlobPath α := { s with verified := none }

def verifyCASFile (faults : FileFaults) (s : BlobPath α) : Verdict :=
  match faults.lstat, s.file with
  | some err, _ => .failed err
  | none, none => .missing
  | none, some file =>
    if !file.regular then
      .corrupt (.join errBlobCorrupt (.errorf "CAS path is not a regular file" []))
    else
      match faults.open_ with
      | some err => .failed err
      | none =>
        if h.sum256 file.content ≠ hash then
          .corrupt (.join errBlobCorrupt (.errorf "hash mismatch: expected %s, got %s"
            [hash, h.sum256 file.content]))
        else .intact

def cacheVerifiedLocked (faults : FileFaults) (s : BlobPath α) : BlobPath α :=
  match faults.restat, s.file with
  | none, some file => { s with verified := some (fingerprint h file) }
  | _, _ => s

def verifyAndCacheLocked (faults : FileFaults) (s : BlobPath α) : Verdict × BlobPath α :=
  match s.verifyCASFile h hash faults with
  | .intact =>
    match faults.restat with
    | some err => (.failed err, s)
    | none => (.intact, s.cacheVerifiedLocked h faults)
  | verdict => (verdict, s)

def verifiedCurrentLocked (faults : FileFaults) (s : BlobPath α) : Bool :=
  faults.lstat.isNone && s.file.any fun file =>
    file.regular && s.verified = some (fingerprint h file)

def quarantineBlobLocked (faults : FileFaults) (s : BlobPath α) : Option GoError × BlobPath α :=
  match faults.removeAll with
  | some err => (some err, s)
  | none =>
    match s.file with
    | none => (none, s.removeCachedHash)
    | some file =>
      match faults.rename with
      | some err => (some err, s)
      | none =>
        (faults.sync,
          removeCachedHash { s with file := none, quarantined := s.quarantined ++ [file] })

/-- The part of `BlobExists` and `ReadBlob` under the shared lock; a reader that
finds the file corrupt waits for the exclusive one. -/
def look (faults : FileFaults) (s : BlobPath α) : BlobPath α :=
  if !isValidCASHash hash then s
  else if s.verifiedCurrentLocked h faults then s
  else
    match s.verifyAndCacheLocked h hash faults with
    | (.intact, s) => s
    | (.missing, s) => s.removeCachedHash
    | (.corrupt _, s) => { s with waiting := s.waiting + 1 }
    | (.failed _, s) => s

/-- The rest of `BlobExists` and `ReadBlob` for a reader that waits. -/
def quarantine (faults : FileFaults) (s : BlobPath α) : BlobPath α :=
  if s.waiting = 0 then s
  else { (s.quarantineBlobLocked faults).2 with waiting := s.waiting - 1 }

def prepare (faults : FileFaults) (s : BlobPath α) : Option GoError × BlobPath α :=
  if s.verifiedCurrentLocked h faults then (none, s)
  else
    match faults.lstat, s.file with
    | some err, _ => (some err, s)
    | none, none => (none, s)
    | none, some info =>
      match s.verifyAndCacheLocked h hash faults with
      | (.intact, s) => (none, s)
      | (.missing, s) => (some errNotExist, s)
      | (.failed err, s) => (some err, s)
      | (.corrupt err, s) =>
        match s.quarantineBlobLocked faults with
        | (some quarantineErr, s) => (some (.join err quarantineErr), s)
        | (none, s) => (if !info.regular then some err else none, s)

/-- The end of `commitLocked`, with the staged file in place. -/
def finishLink (message : String) (faults : FileFaults) (s : BlobPath α) :
    Except GoError Bool × BlobPath α :=
  match faults.sync with
  | some err =>
    (.error (.wrapf message [] err),
      if faults.remove.isNone then { s with file := none } else s)
  | none => (.ok true, s.cacheVerifiedLocked h faults)

/-- `commitLocked` of a staged file. -/
def commitLocked (faults : FileFaults) (staged : CasFile α) (s : BlobPath α) :
    Except GoError Bool × BlobPath α :=
  match s.file with
  | none =>
    match faults.link with
    | some linkErr => (.error (.wrapf "create blob destination: %w" [] linkErr), s)
    | none => { s with file := some staged }.finishLink h "sync blob directory: %w" faults
  | some info =>
    if faults.stat.isSome then
      (.error (.wrapf "create blob destination: %w" [] (faults.link.getD errExist)), s)
    else if s.verifiedCurrentLocked h faults then (.ok false, s)
    else
      match s.verifyAndCacheLocked h hash faults with
      | (.intact, s) => (.ok false, s)
      | (.missing, s) =>
        (.error (.wrapf "existing CAS verification failed: %w" [] errNotExist), s)
      | (.failed err, s) => (.error (.wrapf "existing CAS verification failed: %w" [] err), s)
      | (.corrupt err, s) =>
        match s.quarantineBlobLocked faults with
        | (some quarantineErr, s) =>
          (.error (.join (.wrapf "existing CAS verification failed: %w" [] err)
            (.wrapf "quarantine corrupt CAS blob: %w" [] quarantineErr)), s)
        | (none, s) =>
          if !(faults.restat.isNone && info.regular) then
            (.error (.wrapf "existing CAS verification failed: %w" [] err), s)
          else
            match faults.relink with
            | some err => (.error (.wrapf "replace quarantined CAS blob: %w" [] err), s)
            | none =>
              { s with file := some staged }.finishLink h
                "sync repaired blob directory: %w" faults

/-- `Commit` of a staged file. -/
def commit (faults : FileFaults) (staged : CasFile α) (s : BlobPath α) :
    Except GoError Bool × BlobPath α :=
  match s.commitLocked h hash faults staged with
  | (.error err, s) => (.error err, s)
  | (.ok created, s) => (.ok created, { s with committed := true })

def deleteBlob (faults : FileFaults) (s : BlobPath α) : Option GoError × BlobPath α :=
  match faults.remove, s.file with
  | some err, some _ => (some err, { s with committed := false })
  | _, _ => (none, removeCachedHash { s with file := none, committed := false })

end BlobPath

end Operations

/-! ## Moves -/

/-- A staged file: its content hashes to the name it is going to have. -/
structure StagedFile {α : Type} (h : Hashing α) (hash : String) where
  file : CasFile α
  isMatch : file.Matches h hash

/-- The critical sections of the operations on one hash. -/
inductive PathMove {α : Type} (h : Hashing α) (hash : String)
  | look (faults : FileFaults)
  | quarantine (faults : FileFaults)
  | prepare (faults : FileFaults)
  | commit (faults : FileFaults) (staged : StagedFile h hash)
  | deleteBlob (faults : FileFaults)

section Moves

variable {α : Type} {h : Hashing α} {hash : String}

def BlobPath.move (s : BlobPath α) : PathMove h hash → BlobPath α
  | .look faults => s.look h hash faults
  | .quarantine faults => s.quarantine faults
  | .prepare faults => (s.prepare h hash faults).2
  | .commit faults staged => (s.commit h hash faults staged.file).2
  | .deleteBlob faults => (s.deleteBlob faults).2

/-- The state after a sequence of moves. -/
def BlobPath.run (file : Option (CasFile α)) (moves : List (PathMove h hash)) : BlobPath α :=
  moves.foldl BlobPath.move (.start file)

/-- No commit runs while a reader waits to move the file aside. -/
def BlobPath.Undisturbed (s : BlobPath α) : PathMove h hash → Prop
  | .commit _ _ => s.waiting = 0
  | _ => True

/-! ## What the process knows -/

/-- What holds as long as commits are undisturbed. -/
structure BlobPath.Sound (h : Hashing α) (hash : String) (s : BlobPath α) : Prop where
  known : s.verified ≠ none → ∃ file, s.file = some file ∧ file.Matches h hash
  waiting : 0 < s.waiting → ∀ file, s.file = some file → ¬ file.Matches h hash
  moved : ∀ file ∈ s.quarantined, ¬ file.Matches h hash
  held : s.committed = true → ∃ file, s.file = some file ∧ file.Matches h hash

namespace BlobPath

variable {s : BlobPath α}

theorem sound_start (file : Option (CasFile α)) : (BlobPath.start file).Sound h hash where
  known := fun hverified => absurd rfl hverified
  waiting := fun hwaiting => absurd hwaiting (lt_irrefl 0)
  moved := fun _ hfile => absurd hfile List.not_mem_nil
  held := fun hcommitted => by cases hcommitted

theorem Sound.removeCachedHash (hs : s.Sound h hash) : s.removeCachedHash.Sound h hash where
  known := fun hverified => absurd rfl hverified
  waiting := hs.waiting
  moved := hs.moved
  held := hs.held

theorem cacheVerifiedLocked_eq (faults : FileFaults) (s : BlobPath α) :
    s.cacheVerifiedLocked h faults =
      { s with verified := (s.cacheVerifiedLocked h faults).verified } := by
  rcases s with ⟨_ | file, verified, waiting, quarantined, committed⟩ <;>
    cases hrestat : faults.restat <;> simp [cacheVerifiedLocked, hrestat]

/-- A matching file is at the path. -/
def Intact (h : Hashing α) (hash : String) (s : BlobPath α) : Prop :=
  ∃ file, s.file = some file ∧ file.Matches h hash

/-- No matching file is. -/
def Spoilt (h : Hashing α) (hash : String) (s : BlobPath α) : Prop :=
  ∀ file, s.file = some file → ¬ file.Matches h hash

theorem Sound.cacheVerifiedLocked (hs : s.Sound h hash) (faults : FileFaults)
    (hintact : s.Intact h hash) : (s.cacheVerifiedLocked h faults).Sound h hash := by
  rw [cacheVerifiedLocked_eq]
  exact ⟨fun _ => hintact, hs.waiting, hs.moved, hs.held⟩

/-- A file that is verified and has not changed since matches. -/
theorem Sound.intact_of_verified (hs : s.Sound h hash) {faults : FileFaults}
    (hcurrent : s.verifiedCurrentLocked h faults = true) : s.Intact h hash := by
  refine hs.known ?_
  intro hnone
  simp [verifiedCurrentLocked, hnone] at hcurrent

theorem spoilt_of_file {file : CasFile α} (hfile : s.file = some file)
    (hcorrupt : ¬ file.Matches h hash) : s.Spoilt h hash := by
  intro file' hfile'
  cases hfile.symm.trans hfile'
  exact hcorrupt

/-- What a verdict says about the path. -/
def Right (h : Hashing α) (hash : String) (s : BlobPath α) : Verdict → Prop
  | .intact => s.Intact h hash
  | .corrupt _ => s.Spoilt h hash
  | _ => True

theorem verifyCASFile_right (faults : FileFaults) (s : BlobPath α) :
    s.Right h hash (s.verifyCASFile h hash faults) := by
  unfold verifyCASFile
  rcases faults.lstat with _ | err
  swap
  · trivial
  rcases hfile : s.file with _ | file
  · trivial
  dsimp only
  split_ifs with hregular hsum
  · refine spoilt_of_file hfile fun hmatch => ?_
    simp [hmatch.1] at hregular
  · cases faults.open_ with
    | some err => trivial
    | none => exact spoilt_of_file hfile fun hmatch => hsum hmatch.2
  · cases faults.open_ with
    | some err => trivial
    | none => exact ⟨file, hfile, by simpa using hregular, not_not.1 hsum⟩

theorem Sound.verifyAndCacheLocked (hs : s.Sound h hash) (faults : FileFaults) :
    let out := s.verifyAndCacheLocked h hash faults
    out.2.Sound h hash ∧ out.2.waiting = s.waiting ∧ out.2.Right h hash out.1 := by
  have hright := @verifyCASFile_right α h hash faults s
  unfold BlobPath.verifyAndCacheLocked
  cases hverdict : s.verifyCASFile h hash faults with
  | intact =>
    rw [hverdict] at hright
    cases faults.restat with
    | some err => exact ⟨hs, rfl, trivial⟩
    | none =>
      refine ⟨hs.cacheVerifiedLocked faults hright, ?_⟩
      rw [cacheVerifiedLocked_eq]
      exact ⟨rfl, hright⟩
  | missing => exact ⟨hs, rfl, trivial⟩
  | corrupt err =>
    rw [hverdict] at hright
    exact ⟨hs, rfl, hright⟩
  | failed err => exact ⟨hs, rfl, trivial⟩

theorem Sound.quarantineBlobLocked (hs : s.Sound h hash) (faults : FileFaults)
    (hspoilt : s.Spoilt h hash) :
    let out := s.quarantineBlobLocked faults
    out.2.Sound h hash ∧ out.2.waiting = s.waiting ∧ (out.1 = none → out.2.file = none) ∧
      out.2.Spoilt h hash := by
  unfold BlobPath.quarantineBlobLocked
  rcases faults.removeAll with _ | err
  swap
  · exact ⟨hs, rfl, fun herr => (by cases herr), hspoilt⟩
  rcases hfile : s.file with _ | file
  · exact ⟨hs.removeCachedHash, rfl, fun _ => hfile, hspoilt⟩
  rcases faults.rename with _ | err
  swap
  · exact ⟨hs, rfl, fun herr => (by cases herr), hspoilt⟩
  refine ⟨⟨fun hverified => absurd rfl hverified, fun _ _ hsome => ?_, ?_, ?_⟩,
    rfl, fun _ => rfl, fun _ hsome => by cases hsome⟩
  · cases hsome
  · intro file' hmem
    rcases List.mem_append.1 hmem with hold | hnew
    · exact hs.moved file' hold
    · rw [List.mem_singleton.1 hnew]
      exact hspoilt file hfile
  · intro hcommitted
    obtain ⟨file', hfile', hmatch⟩ := hs.held hcommitted
    exact absurd hmatch (hspoilt file' hfile')

/-- Linking a staged file into the empty place, while no reader waits. -/
theorem Sound.finishLink (hs : s.Sound h hash) (hwaiting : s.waiting = 0) (hfile : s.file = none)
    {staged : CasFile α} (hstaged : staged.Matches h hash) (message : String) (faults : FileFaults) :
    let out := BlobPath.finishLink h message faults { s with file := some staged }
    out.2.Sound h hash ∧ ∀ created, out.1 = .ok created → out.2.Intact h hash := by
  have hintact : Intact h hash { s with file := some staged } := ⟨staged, rfl, hstaged⟩
  have hplaced : Sound h hash { s with file := some staged } :=
    ⟨fun _ => hintact, fun hpos => absurd hpos (by simp [hwaiting]), hs.moved, fun _ => hintact⟩
  have hempty : ¬ s.Intact h hash := by
    rintro ⟨file, hsome, -⟩
    simp [hfile] at hsome
  unfold BlobPath.finishLink
  cases faults.sync with
  | some err =>
    refine ⟨?_, fun created hok => by cases hok⟩
    split_ifs
    · exact ⟨fun hverified => absurd (hs.known hverified) hempty,
        fun hpos => absurd hpos (by simp [hwaiting]), hs.moved,
        fun hcommitted => absurd (hs.held hcommitted) hempty⟩
    · exact hplaced
  | none =>
    refine ⟨hplaced.cacheVerifiedLocked faults hintact, fun created _ => ?_⟩
    dsimp only
    rwa [cacheVerifiedLocked_eq]

/-! ## Each move -/

theorem Sound.look (hs : s.Sound h hash) (faults : FileFaults) :
    (s.look h hash faults).Sound h hash := by
  unfold BlobPath.look
  split_ifs
  · exact hs
  · exact hs
  obtain ⟨hsound, -, hright⟩ := hs.verifyAndCacheLocked faults
  generalize s.verifyAndCacheLocked h hash faults = out at hsound hright
  obtain ⟨_ | _ | err | err, s'⟩ := out
  · exact hsound
  · exact hsound.removeCachedHash
  · exact ⟨hsound.known, fun _ => hright, hsound.moved, hsound.held⟩
  · exact hsound

theorem Sound.quarantine (hs : s.Sound h hash) (faults : FileFaults) :
    (s.quarantine faults).Sound h hash := by
  unfold BlobPath.quarantine
  split_ifs with hzero
  · exact hs
  · obtain ⟨hsound, -, -, hspoilt⟩ :=
      hs.quarantineBlobLocked faults (hs.waiting (Nat.pos_of_ne_zero hzero))
    exact ⟨hsound.known, fun _ => hspoilt, hsound.moved, hsound.held⟩

theorem Sound.prepare (hs : s.Sound h hash) (faults : FileFaults) :
    (s.prepare h hash faults).2.Sound h hash := by
  unfold BlobPath.prepare
  split_ifs
  · exact hs
  rcases faults.lstat with _ | err
  swap
  · exact hs
  rcases s.file with _ | info
  · exact hs
  obtain ⟨hsound, -, hright⟩ := hs.verifyAndCacheLocked faults
  generalize s.verifyAndCacheLocked h hash faults = out at hsound hright ⊢
  obtain ⟨_ | _ | err | err, s'⟩ := out
  · exact hsound
  · exact hsound
  · obtain ⟨hmoved, -⟩ := hsound.quarantineBlobLocked faults hright
    dsimp only
    generalize s'.quarantineBlobLocked faults = out at hmoved
    obtain ⟨_ | quarantineErr, s''⟩ := out <;> exact hmoved
  · exact hsound

theorem Sound.commitLocked (hs : s.Sound h hash) (hwaiting : s.waiting = 0) (faults : FileFaults)
    {staged : CasFile α} (hstaged : staged.Matches h hash) :
    let out := s.commitLocked h hash faults staged
    out.2.Sound h hash ∧ ∀ created, out.1 = .ok created → out.2.Intact h hash := by
  unfold BlobPath.commitLocked
  cases hinfo : s.file with
  | none =>
    cases faults.link with
    | none => exact hs.finishLink hwaiting hinfo hstaged _ faults
    | some err => exact ⟨hs, fun created hok => by cases hok⟩
  | some info =>
    dsimp only
    by_cases hstat : faults.stat.isSome
    · rw [if_pos hstat]
      exact ⟨hs, fun created hok => by cases hok⟩
    rw [if_neg hstat]
    by_cases hcurrent : s.verifiedCurrentLocked h faults
    · rw [if_pos hcurrent]
      exact ⟨hs, fun created _ => hs.intact_of_verified hcurrent⟩
    rw [if_neg hcurrent]
    obtain ⟨hsound, hkept, hright⟩ := hs.verifyAndCacheLocked faults
    generalize s.verifyAndCacheLocked h hash faults = out at hsound hkept hright ⊢
    obtain ⟨_ | _ | err | err, s'⟩ := out
    · exact ⟨hsound, fun created _ => hright⟩
    · exact ⟨hsound, fun created hok => by cases hok⟩
    · obtain ⟨hmoved, hsame, hempty, -⟩ := hsound.quarantineBlobLocked faults hright
      dsimp only
      generalize s'.quarantineBlobLocked faults = out at hmoved hsame hempty ⊢
      obtain ⟨_ | quarantineErr, s''⟩ := out
      · dsimp only
        split_ifs
        · exact ⟨hmoved, fun created hok => by cases hok⟩
        cases faults.relink with
        | some err => exact ⟨hmoved, fun created hok => by cases hok⟩
        | none =>
          exact hmoved.finishLink ((hsame.trans hkept).trans hwaiting) (hempty rfl) hstaged _
            faults
      · exact ⟨hmoved, fun created hok => by cases hok⟩
    · exact ⟨hsound, fun created hok => by cases hok⟩

theorem Sound.commit (hs : s.Sound h hash) (hwaiting : s.waiting = 0) (faults : FileFaults)
    {staged : CasFile α} (hstaged : staged.Matches h hash) :
    (s.commit h hash faults staged).2.Sound h hash := by
  obtain ⟨hsound, hintact⟩ := hs.commitLocked hwaiting faults hstaged
  unfold BlobPath.commit
  generalize s.commitLocked h hash faults staged = out at hsound hintact
  obtain ⟨err | created, s'⟩ := out
  · exact hsound
  · exact ⟨hsound.known, hsound.waiting, hsound.moved, fun _ => hintact created rfl⟩

theorem Sound.deleteBlob (hs : s.Sound h hash) (faults : FileFaults) :
    (s.deleteBlob faults).2.Sound h hash := by
  unfold BlobPath.deleteBlob
  split
  · exact ⟨hs.known, hs.waiting, hs.moved, fun hcommitted => by cases hcommitted⟩
  · exact ⟨fun hverified => absurd rfl hverified, fun _ file hfile => (by cases hfile), hs.moved,
      fun hcommitted => by cases hcommitted⟩

theorem Sound.move (hs : s.Sound h hash) (move : PathMove h hash) (hmove : s.Undisturbed move) :
    (s.move move).Sound h hash := by
  cases move with
  | look faults => exact hs.look faults
  | quarantine faults => exact hs.quarantine faults
  | prepare faults => exact hs.prepare faults
  | commit faults staged => exact hs.commit hmove faults staged.isMatch
  | deleteBlob faults => exact hs.deleteBlob faults

end BlobPath

end Moves

/-! ## Runs -/

/-- From any file at the path, in a run in which no commit comes between a
reader's finding and its moving the file aside, only files are moved aside whose
content does not hash to the name, and after a successful commit the blob is
there with matching content until it is deleted. -/
theorem repaired_blob_kept {α : Type} {h : Hashing α} {hash : String}
    (file : Option (CasFile α)) (moves : List (PathMove h hash))
    (hundisturbed : ∀ earlier move later, moves = earlier ++ move :: later →
      (BlobPath.run file earlier).Undisturbed move) :
    (∀ moved ∈ (BlobPath.run file moves).quarantined, ¬ moved.Matches h hash) ∧
      ((BlobPath.run file moves).committed = true →
        ∃ kept, (BlobPath.run file moves).file = some kept ∧ kept.Matches h hash) := by
  have hsound : (BlobPath.run file moves).Sound h hash := by
    induction moves using List.reverseRecOn with
    | nil => exact BlobPath.sound_start file
    | append_singleton moves move ih =>
      have hbefore := ih fun earlier move' later heq =>
        hundisturbed earlier move' (later ++ [move]) (by rw [heq]; simp)
      rw [BlobPath.run, List.foldl_append]
      exact hbefore.move move (hundisturbed moves move [] rfl)
  exact ⟨hsound.moved, hsound.held⟩

/-- Texts, of which only `good` hashes to the digest `aa…a`. -/
def sampleHashing : Hashing String where
  sum256 content := if content = "good" then digestA.text else ""
  size content := content.utf8ByteSize

/-- The good text on its way to its place. -/
def stagedGood : StagedFile sampleHashing digestA.text := ⟨⟨"good", true, 1⟩, rfl, rfl⟩

/-- A corrupt file is repaired. -/
theorem repaired_blob_kept_after_prepare :
    ∃ kept, (BlobPath.run (some ⟨"bad", true, 0⟩)
        [.prepare {}, .commit {} stagedGood]).file = some kept ∧
      kept.Matches sampleHashing digestA.text := by
  refine (repaired_blob_kept (some ⟨"bad", true, 0⟩) [.prepare {}, .commit {} stagedGood] ?_).2
    (by decide +kernel)
  intro earlier move later heq
  rcases earlier with _ | ⟨_, _ | ⟨_, earlier⟩⟩
  · obtain rfl : _ = move := (List.cons.inj heq).1
    trivial
  · simp only [List.cons_append, List.nil_append, List.cons.injEq] at heq
    obtain ⟨rfl, rfl, -⟩ := heq
    have hwaiting : (BlobPath.run (some ⟨"bad", true, 0⟩)
        ([.prepare {}] : List (PathMove sampleHashing digestA.text))).waiting = 0 := by
      decide +kernel
    exact hwaiting
  · simp at heq

/-- A reader finds the file corrupt; before it gets the exclusive lock the blob
is repaired and its commit succeeds, and then the reader moves the good file
aside. -/
theorem repaired_blob_quarantined :
    let s := BlobPath.run (some ⟨"bad", true, 0⟩)
      [.look {}, .prepare {}, .commit {} stagedGood, .quarantine {}]
    s.committed = true ∧ s.file.isNone = true ∧ s.quarantined.length = 2 ∧
      ∃ moved ∈ s.quarantined, moved.Matches sampleHashing digestA.text := by
  decide +kernel

end Proxyma.Storage
