import Proxyma.Protocol

/-!
# Content-addressed files

The physical layer keeps one file for every blob, named by the lower-case
hexadecimal SHA-256 digest of its content.  Content enters the model only
through its digest and size.  `Digest` carries the shape of such a name, and
`IsDigest.plain` is why a digest joined to the blob directory stays in it;
`Disk.remove` takes any text, as `DeleteBlob` does.
-/

namespace Proxyma.Storage

/-! ## Blob names -/

def isHexString (s : String) : Bool :=
  s.toList.all fun c =>
    ¬((c < '0' ∨ '9' < c) ∧ (c < 'a' ∨ 'f' < c) ∧ (c < 'A' ∨ 'F' < c))

/-- `IsValidCASHash`: 64 hexadecimal digits, in either case. -/
def isValidCASHash (s : String) : Bool := s.utf8ByteSize = 64 ∧ isHexString s

/-- The text of a digest as `hex.EncodeToString` writes it. -/
def IsDigest (s : String) : Prop := isValidCASHash s = true ∧ Text.toLower s = s

instance (s : String) : Decidable (IsDigest s) := inferInstanceAs (Decidable (_ ∧ _))

/-- The name of a blob. -/
structure Digest where
  text : String
  isDigest : IsDigest text
  deriving DecidableEq

/-- The digest `aa…a`, for runs on fixed inputs. -/
def digestA : Digest := ⟨String.ofList (List.replicate 64 'a'), by decide⟩

/-- The directory of those runs. -/
def dataDir : CleanPath := ⟨true, ["data"]⟩

/-- Content on its way into the store. -/
structure Blob where
  hash : Digest
  size : ℤ
  deriving DecidableEq

theorem IsDigest.plain {s : String} (h : IsDigest s) : CleanPath.Plain s := by
  obtain ⟨hsize, hhex⟩ : s.utf8ByteSize = 64 ∧ isHexString s = true := by
    simpa [isValidCASHash] using h.1
  have hne : ∀ t : String, t.utf8ByteSize ≠ 64 → s ≠ t := by
    rintro t ht rfl
    exact ht hsize
  refine ⟨hne _ (by decide), hne _ (by decide), hne _ (by decide), fun hslash => ?_⟩
  have hall := List.all_eq_true.1 hhex '/' hslash
  exact absurd hall (by decide)

/-! ## Directory entries -/

/-- The files and directories the process can see. -/
structure Disk where
  files : Finset CleanPath
  dirs : Finset CleanPath
  deriving DecidableEq

namespace Disk

/-- Whether something is at a path. -/
def Has (disk : Disk) (path : CleanPath) : Prop := path ∈ disk.files ∨ path ∈ disk.dirs

instance (disk : Disk) (path : CleanPath) : Decidable (disk.Has path) :=
  inferInstanceAs (Decidable (_ ∨ _))

/-- Whether a directory has an entry. -/
def hasEntry (disk : Disk) (dir : CleanPath) : Bool :=
  decide (∃ path ∈ disk.files ∪ disk.dirs,
    path.rooted = dir.rooted ∧ path.parts ≠ [] ∧ path.parts.dropLast = dir.parts)

/-- `os.Remove`: unlink a file or an empty directory. -/
def remove (disk : Disk) (path : CleanPath) : Option GoError × Disk :=
  if path ∈ disk.files then (none, { disk with files := disk.files.erase path })
  else if path ∈ disk.dirs then
    if disk.hasEntry path then (some errNotEmpty, disk)
    else (none, { disk with dirs := disk.dirs.erase path })
  else (some errNotExist, disk)

def deleteBlob (disk : Disk) (baseDir : CleanPath) (hash : String) : Option GoError × Disk :=
  let (err, disk) := disk.remove (baseDir.join hash)
  if err = some errNotExist then (none, disk) else (err, disk)

/-- `BlobExists` on a store whose files have the content they are named for. -/
def blobExists (disk : Disk) (baseDir : CleanPath) (hash : String) : Bool :=
  isValidCASHash hash ∧ baseDir.join hash ∈ disk.files

/-- `StagedBlob.Commit`: link the staged file to its name, reporting whether
this created it. -/
def commit (disk : Disk) (baseDir : CleanPath) (hash : Digest) : Bool × Disk :=
  (baseDir.join hash.text ∉ disk.files,
    { disk with files := insert (baseDir.join hash.text) disk.files })

/-! Removal touches one path, commit adds one file. -/

theorem deleteBlob_snd (disk : Disk) (baseDir : CleanPath) (hash : String) :
    (disk.deleteBlob baseDir hash).2 = (disk.remove (baseDir.join hash)).2 := by
  unfold deleteBlob
  simp only
  split <;> rfl

theorem mem_files_deleteBlob {disk : Disk} {baseDir path : CleanPath} {hash : String}
    (hpath : path ∈ disk.files) (hne : path ≠ baseDir.join hash) :
    path ∈ (disk.deleteBlob baseDir hash).2.files := by
  rw [deleteBlob_snd, remove]
  split_ifs
  · exact Finset.mem_erase.2 ⟨hne, hpath⟩
  all_goals exact hpath

theorem files_deleteBlob_subset (disk : Disk) (baseDir : CleanPath) (hash : String) :
    (disk.deleteBlob baseDir hash).2.files ⊆ disk.files := by
  rw [deleteBlob_snd, remove]
  split_ifs
  · exact Finset.erase_subset _ _
  all_goals exact Finset.Subset.refl _

/-- Whatever a deletion takes away is at the path it was given; a directory it
takes away has no entry. -/
theorem eq_of_deleteBlob_gone {disk : Disk} {baseDir path : CleanPath} {hash : String}
    (hpath : disk.Has path) (hgone : ¬ (disk.deleteBlob baseDir hash).2.Has path) :
    path = baseDir.join hash ∧ (path ∈ disk.files ∨ disk.hasEntry path = false) := by
  rw [deleteBlob_snd, remove] at hgone
  split_ifs at hgone with hfile hdir hentry
  · by_cases heq : path = baseDir.join hash
    · exact ⟨heq, .inl (heq ▸ hfile)⟩
    · exact absurd (hpath.imp_left fun h => Finset.mem_erase.2 ⟨heq, h⟩) hgone
  · exact absurd hpath hgone
  · by_cases heq : path = baseDir.join hash
    · exact ⟨heq, .inr (by simpa [heq] using hentry)⟩
    · exact absurd (hpath.imp_right fun h => Finset.mem_erase.2 ⟨heq, h⟩) hgone
  · exact absurd hpath hgone

theorem mem_files_commit (disk : Disk) (baseDir : CleanPath) (hash : Digest) :
    baseDir.join hash.text ∈ (disk.commit baseDir hash).2.files :=
  Finset.mem_insert_self _ _

theorem files_subset_commit (disk : Disk) (baseDir : CleanPath) (hash : Digest) :
    disk.files ⊆ (disk.commit baseDir hash).2.files :=
  Finset.subset_insert _ _

end Disk

end Proxyma.Storage
