import Proxyma.Join.Rollback

/-!
# Recovering an interrupted join

A disk is `Interrupted` if what the node had before the join can still be put
together from it: nothing was moved yet, or the journal says that an installation
was under way and each item is `Kept`, in its place or in the backup.  A recovery
may be cut off as well, and leaves such a disk again.

What recovery cannot see is that an earlier recovery has already moved an item
back: the journal still has it as installed, and the backup is gone.  Such an
item is `Stranded`, and recovery removes it.
-/

namespace Proxyma.Join

open FileTree Atomic Atomic.Prog

/-! ## Items -/

/-- What the node had can still be found among the places of an item. -/
inductive Kept (before : Option (Node Document)) (s : Slot) : Prop
  | home (hbackup : s .backup = none) (hfinal : s .final = before)
  | backedUp (hbefore : before ≠ none) (hbackup : s .backup = before)
      (hfree : s .final = none ∨ s .staged = none)
  | fresh (hbefore : before = none) (hbackup : s .backup = none) (hstaged : s .staged = none)

/-- An item that a rollback with given flags puts back. -/
structure Ready (before : Option (Node Document)) (installed backedUp : Bool) (accurate : Prop)
    (s : Slot) : Prop where
  kept : Kept before s
  removable : installed = true → before ≠ none → s .backup ≠ none
  known : s .backup ≠ none → backedUp = true
  removed : before = none → s .final ≠ none → installed = true
  free : s .backup ≠ none → installed = false → s .final = none
  found : accurate → backedUp = true → s .backup ≠ none

/-- Such an item after the first pass. -/
structure Cleared (before : Option (Node Document)) (quiet : Prop) (backedUp : Bool)
    (accurate : Prop) (err : Option GoError) (s : Slot) : Prop where
  kept : Kept before s
  known : s .backup ≠ none → backedUp = true
  home : err = none ∨ quiet → s .backup = none → s .final = before
  free : quiet → s .backup ≠ none → s .final = none
  found : accurate → backedUp = true → s .backup ≠ none

/-- Such an item after both passes. -/
structure Restored (before : Option (Node Document)) (quiet : Prop) (err : Option GoError)
    (s : Slot) : Prop where
  kept : Kept before s
  home : err = none ∨ quiet → s .final = before

section Items

variable {before : Option (Node Document)}

theorem Kept.backup_eq {s : Slot} (h : Kept before s) (hbackup : s .backup ≠ none) :
    before ≠ none ∧ s .backup = before := by
  cases h with
  | home hnone => exact absurd hnone hbackup
  | backedUp hbefore heq => exact ⟨hbefore, heq⟩
  | fresh _ hnone => exact absurd hnone hbackup

/-- Removing what is in place is harmless if what was there before is in the
backup, or there was nothing. -/
theorem Kept.clear {s : Slot} (h : Kept before s) (hremovable : before ≠ none → s .backup ≠ none) :
    Kept before (s.clear .final) := by
  cases h with
  | home hbackup hfinal =>
    have hbefore : before = none := by
      by_contra hne
      exact hremovable hne hbackup
    exact .home hbackup hbefore.symm
  | backedUp hbefore hbackup => exact .backedUp hbefore hbackup (.inl rfl)
  | fresh hbefore hbackup hstaged => exact .fresh hbefore hbackup hstaged

theorem Kept.restore {s : Slot} (h : Kept before s) (hbackup : s .backup ≠ none) :
    Kept before (s.move .backup .final) :=
  .home rfl (h.backup_eq hbackup).2

theorem undoes_ready (before : Option (Node Document)) (quiet accurate : Prop)
    (installed backedUp : Bool) :
    Undoes quiet (quiet ∧ accurate) installed backedUp (Kept before)
      (Ready before installed backedUp accurate) (Cleared before quiet backedUp accurate)
      (Restored before quiet) where
  sure_quiet := And.left
  kept_ready := Ready.kept
  kept_cleared := Cleared.kept
  kept_restored := Restored.kept
  skip := by
    intro err s hnot h
    refine ⟨h.kept, h.known, fun _ hbackup => ?_, fun _ hbackup => h.free hbackup hnot, h.found⟩
    cases h.kept with
    | home _ hfinal => exact hfinal
    | backedUp hbefore heq => exact absurd (heq ▸ hbackup) hbefore
    | fresh hbefore =>
      by_contra hne
      have hinstalled := h.removed hbefore (hbefore ▸ hne)
      simp [hnot] at hinstalled
  clear := by
    intro err s hinstalled h
    refine ⟨h.kept.clear (h.removable hinstalled), h.known, fun _ hbackup => ?_, fun _ _ => rfl,
      h.found⟩
    have hbefore : before = none := by
      by_contra hne
      exact h.removable hinstalled hne hbackup
    exact hbefore.symm
  clearFailed := by
    intro e s hnot hinstalled h
    exact ⟨h.kept, h.known, fun hquiet => absurd (hquiet.resolve_left (by simp)) hnot,
      fun hquiet => absurd hquiet hnot, h.found⟩
  cleared_mono := by
    intro err e s h
    exact ⟨h.kept, h.known, fun hquiet => h.home (.inr (hquiet.resolve_left (by simp))), h.free,
      h.found⟩
  leave := by
    intro err s hnot h
    refine ⟨h.kept, fun hquiet => h.home hquiet ?_⟩
    by_contra hbackup
    have hbackedUp := h.known hbackup
    simp [hnot] at hbackedUp
  restore := fun _ h hbackup => ⟨h.kept.restore hbackup, fun _ => (h.kept.backup_eq hbackup).2⟩
  restoreFailed := by
    intro err e s _ h hreason
    refine ⟨h.kept, fun hquiet => ?_⟩
    have hq : quiet := hquiet.resolve_left (by simp)
    rcases hreason hq with hbackup | hfinal
    · exact h.home (.inr hq) hbackup
    · by_cases hbackup : s .backup = none
      · exact h.home (.inr hq) hbackup
      · exact absurd (h.free hq hbackup) hfinal
  restored_mono := fun h => ⟨h.kept, fun hquiet => h.home (.inr (hquiet.resolve_left (by simp)))⟩
  sure_restore := by
    intro err s hsure hbackedUp h
    have hbackup := h.found hsure.2 hbackedUp
    exact ⟨hbackup, h.free hsure.1 hbackup⟩

end Items

/-! ## Disks -/

/-- An installation was under way, and each item is kept. -/
structure Underway (root : String) (before : Item → Option (Node Document)) (j : JoinJournal)
    (l : Layout) : Prop where
  journal : l.journal = some (.file (.journal j))
  belongs : j.Belongs root
  phase : j.phase = .installing ∨ j.phase = .installed
  had : ∀ item, j.had item = (before item).isSome
  recorded : ∀ item, j.installed item = true → j.had item = true → j.backedUp item = true
  kept : ∀ item, Kept (before item) (l.slot item)

/-- What the node had before the join can be recovered. -/
inductive Interrupted (root : String) (before : Item → Option (Node Document)) (l : Layout) : Prop
  | idle (hjournal : l.journal = none) (hfinal : ∀ item, l.slot item .final = before item)
  | staged (j : JoinJournal) (hjournal : l.journal = some (.file (.journal j)))
      (hbelongs : j.Belongs root) (hphase : j.phase = .staged)
      (hfinal : ∀ item, l.slot item .final = before item)
  | underway (j : JoinJournal) (h : Underway root before j l)

/-- The journal of an installation that was under way. -/
def Layout.installation (l : Layout) : Option JoinJournal :=
  match l.journal with
  | some (.file (.journal j)) =>
    if j.phase = .installing ∨ j.phase = .installed then some j else none
  | _ => none

/-- The backups of which the journal speaks are there. -/
def Accurate (l : Layout) : Prop :=
  ∀ j ∈ l.installation, ∀ item, j.backedUp item = true → l.slot item .backup ≠ none

/-- The journal has an item as installed in place of an earlier one, and the
backup of that is gone. -/
def Stranded (l : Layout) (item : Item) : Prop :=
  ∃ j ∈ l.installation, j.had item = true ∧ j.installed item = true ∧ l.slot item .backup = none

instance (l : Layout) (item : Item) : Decidable (Stranded l item) :=
  match h : l.installation with
  | none => .isFalse (by simp [Stranded, h])
  | some j =>
    decidable_of_iff
      (j.had item = true ∧ j.installed item = true ∧ l.slot item .backup = none)
      (by simp [Stranded, h])

section Disks

variable {root : String} {before : Item → Option (Node Document)} {l : Layout} {j : JoinJournal}

theorem Underway.installation (h : Underway root before j l) : l.installation = some j := by
  simp [Layout.installation, h.journal, h.phase]

theorem Underway.moved (h : Underway root before j l) {l' : Layout} (hjournal : l'.journal = l.journal)
    (hkept : ∀ item, Kept (before item) (l'.slot item)) : Underway root before j l' :=
  { h with journal := hjournal.trans h.journal, kept := hkept }

theorem Interrupted.withoutRoot (h : Interrupted root before l)
    (hfinal : ∀ item, l.slot item .final = before item) : Interrupted root before l.withoutRoot := by
  cases h with
  | idle hjournal => exact .idle hjournal hfinal
  | staged j hjournal hbelongs hphase => exact .staged j hjournal hbelongs hphase hfinal
  | underway j h => exact .underway j (h.moved rfl fun item => .home rfl (hfinal item))

/-- What recovery makes of a journal and a layout. -/
def inferred (j : JoinInstallation) (l : Layout) : JoinInstallation :=
  inferFlags j (l.slot .certs .backup).isSome (l.slot .config .backup).isSome
    (l.slot .certs .staged).isSome (l.slot .config .staged).isSome (l.slot .certs .final).isSome
    (l.slot .config .final).isSome

theorem inferred_backedUp (j : JoinInstallation) (l : Layout) (item : Item) :
    (inferred j l).backedUp item = (j.backedUp item || (l.slot item .backup).isSome) := by
  cases item <;> rfl

theorem inferred_installed (j : JoinInstallation) (l : Layout) (item : Item) :
    (inferred j l).installed item =
      (j.installed item || (!(l.slot item .staged).isSome && (l.slot item .final).isSome &&
        (!j.had item || (l.slot item .backup).isSome))) := by
  cases item <;> rfl

/-- The flags recovery infers are good enough to undo the join, unless an item is
stranded. -/
theorem Underway.ready {j : JoinInstallation} (h : Underway root before j.toJoinJournal l)
    (item : Item) (hsound : ¬ Stranded l item) :
    Ready (before item) ((inferred j l).installed item) ((inferred j l).backedUp item) (Accurate l)
      (l.slot item) := by
  have hhad := h.had item
  have hstranded : j.had item = true → j.installed item = true → l.slot item .backup ≠ none :=
    fun hh hi hb => hsound ⟨_, h.installation, hh, hi, hb⟩
  rw [inferred_backedUp, inferred_installed]
  refine ⟨h.kept item, fun hinstalled hbefore => ?_, fun hbackup => ?_, fun hbefore hfinal => ?_,
    fun hbackup hinstalled => ?_, fun haccurate hbackedUp => ?_⟩
  · have htrue : j.had item = true := by rw [hhad]; exact Option.isSome_iff_ne_none.2 hbefore
    rcases Bool.or_eq_true_iff.1 hinstalled with hi | hi
    · exact hstranded htrue hi
    · rw [htrue] at hi
      simp only [Bool.not_true, Bool.false_or, Bool.and_eq_true] at hi
      exact Option.isSome_iff_ne_none.1 hi.2
  · rw [Option.isSome_iff_ne_none.2 hbackup, Bool.or_true]
  · have hfalse : j.had item = false := by rw [hhad, hbefore]; rfl
    cases h.kept item with
    | home _ heq => exact absurd (heq.trans hbefore) hfinal
    | backedUp hne => exact absurd hbefore hne
    | fresh _ _ hstaged => simp [hstaged, hfalse, Option.isSome_iff_ne_none.2 hfinal]
  · by_contra hfinal
    have hstaged : l.slot item .staged = none := by
      cases h.kept item with
      | home hnone => exact absurd hnone hbackup
      | backedUp _ _ hfree => exact hfree.resolve_left hfinal
      | fresh _ hnone => exact absurd hnone hbackup
    simp [hstaged, Option.isSome_iff_ne_none.2 hbackup, Option.isSome_iff_ne_none.2 hfinal]
      at hinstalled
  · rcases Bool.or_eq_true_iff.1 hbackedUp with hb | hb
    · exact haccurate _ h.installation item hb
    · exact Option.isSome_iff_ne_none.1 hb

end Disks

/-! ## The program -/

/-- The installation recovery makes of a journal. -/
def JoinJournal.load (j : JoinJournal) : JoinInstallation :=
  { j with finished := false, journalPath := [joinJournalFileName] }

section Program

variable {root : String} (hroot : Text.hasPrefix root ".join-txn-" = true)
  {inv : Disk → Prop} {post : Option GoError → Disk → Prop} {tree : Node Document}

theorem safe_pathExists_bind {α : Type} {post : α → Disk → Prop} {path : Path}
    {g : Except GoError Bool → Prog Action α} (hinv : inv ⟨tree, []⟩)
    (hg : Safe files (Contract.alone inv) post (g (.ok (tree.get path).isSome)) ⟨tree, []⟩) :
    Safe files (Contract.alone inv) post (pathExists path >>= g) ⟨tree, []⟩ := by
  rintro s' rfl -
  exact ⟨hinv, hg⟩

include hroot in
theorem JoinJournal.Belongs.check {j : JoinJournal} (h : j.Belongs root) :
    belongsToStorage j = true := by
  simp [belongsToStorage, h.rootPath, h.finalCerts, h.finalConfig, h.backupCerts, h.backupConfig,
    h.stagedCerts, h.stagedConfig, place, Item.name, parent, hroot]

theorem JoinJournal.Belongs.inferred {j : JoinJournal} (h : j.Belongs root) (l : Layout) :
    (inferred j.load l).Belongs root :=
  ⟨h.rootPath, h.finalCerts, h.finalConfig, h.backupCerts, h.backupConfig, h.stagedCerts,
    h.stagedConfig⟩

theorem safe_recoverInstalling {j : JoinInstallation} (hj : j.Belongs root)
    (hinv : inv ⟨tree, []⟩)
    (hrollback : Safe files (Contract.alone inv) (fun res d => post res.2 d)
      (rollback (inferred j (layout root tree))) ⟨tree, []⟩) :
    Safe files (Contract.alone inv) post (recoverInstalling j) ⟨tree, []⟩ := by
  unfold recoverInstalling
  rw [hj.finalConfig, hj.finalCerts, hj.backupConfig, hj.backupCerts, hj.stagedCerts,
    hj.stagedConfig]
  refine safe_pathExists_bind hinv ?_
  refine safe_pathExists_bind hinv ?_
  refine safe_pathExists_bind hinv ?_
  refine safe_pathExists_bind hinv ?_
  refine safe_pathExists_bind hinv ?_
  refine safe_pathExists_bind hinv ?_
  exact hrollback.then fun res d hpost => safe_ret hpost

theorem safe_recover_idle (hjournal : (layout root tree).journal = none) (hinv : inv ⟨tree, []⟩)
    (hpost : post none ⟨tree, []⟩) :
    Safe files (Contract.alone inv) post recoverJoinInstallation ⟨tree, []⟩ := by
  have hread : files.exec (.readJSONFile [joinJournalFileName]) ⟨tree, []⟩ =
      (.error errNotExist, ⟨tree, []⟩) := by
    have hget : tree.get [joinJournalFileName] = none := hjournal
    simp [files, attempt, hget]
  refine safe_look_bind hread hinv ?_
  exact safe_ret hpost

include hroot

theorem safe_recover_journal {j : JoinJournal}
    (hjournal : (layout root tree).journal = some (.file (.journal j))) (hj : j.Belongs root)
    (hinv : inv ⟨tree, []⟩)
    (hclean : j.phase = .committed ∨ j.phase = .staged → ∀ j' : JoinInstallation,
      j'.root = [root] → j'.journalPath = [joinJournalFileName] →
      Safe files (Contract.alone inv) post (cleanupCommitted j') ⟨tree, []⟩)
    (hundo : j.phase = .installing ∨ j.phase = .installed →
      Safe files (Contract.alone inv) (fun res d => post res.2 d)
        (rollback (inferred j.load (layout root tree))) ⟨tree, []⟩) :
    Safe files (Contract.alone inv) post recoverJoinInstallation ⟨tree, []⟩ := by
  have hread : files.exec (.readJSONFile [joinJournalFileName]) ⟨tree, []⟩ =
      (.ok j, ⟨tree, []⟩) := by
    have hget : tree.get [joinJournalFileName] = some (.file (.journal j)) := hjournal
    simp [files, attempt, hget]
  refine safe_look_bind hread hinv ?_
  simp only [hj.check hroot, Bool.not_true, Bool.false_eq_true, if_false]
  cases hphase : j.phase with
  | committed => exact hclean (.inl hphase) _ hj.rootPath rfl
  | staged => exact hclean (.inr hphase) _ hj.rootPath rfl
  | installing => exact safe_recoverInstalling hj hinv (hundo (.inl hphase))
  | installed => exact safe_recoverInstalling hj hinv (hundo (.inr hphase))

theorem safe_cleanup {I : Layout → Prop} {j : JoinInstallation} {content : Document}
    (hrootPath : j.root = [root]) (hjournalPath : j.journalPath = [joinJournalFileName])
    {d : Disk} (hquiet : d.faults = []) (hd : Within root I d.tree)
    (hjournal : (layout root d.tree).journal = some (.file content))
    (hnoRoot : I (layout root d.tree).withoutRoot)
    (hnoJournal : I (layout root d.tree).withoutJournal)
    (hnone : I (layout root d.tree).withoutRoot.withoutJournal)
    {combine : Option GoError × Option GoError × Option GoError → Option GoError}
    (hcombine : combine (none, none, none) = none) :
    SafeWithin root I
      (fun err d' => err = none ∧ (layout root d'.tree).journal = none ∧
        ∀ item, (layout root d'.tree).slot item .final = (layout root d.tree).slot item .final)
      (removeTransaction j >>= fun errs => .ret (combine errs)) d := by
  refine (removeTransaction_spec hroot hrootPath hjournalPath hd hnoRoot hnoJournal hnone).then ?_
  rintro errs d' ⟨-, hfinal, hgone⟩
  obtain ⟨rfl, hnone'⟩ := hgone hquiet content hjournal
  exact safe_ret ⟨hcombine, hnone', hfinal⟩

variable {before : Item → Option (Node Document)}

/-- How a recovery ends: everything is back, and if all calls succeed, the
transaction is gone. -/
structure Recovered (root : String) (before : Item → Option (Node Document)) (accurate : Prop)
    (err : Option GoError) (d : Disk) : Prop where
  final : ∀ item, (layout root d.tree).slot item .final = before item
  clean : accurate → err = none ∧ (layout root d.tree).journal = none

/-- A recovery that is not cut off puts everything back, unless an item is
stranded; wherever it is cut off, it can be repeated. -/
theorem recover_spec (hdir : tree.IsDir) (h : Interrupted root before (layout root tree))
    (hsound : ∀ item, ¬ Stranded (layout root tree) item) :
    SafeWithin root (Interrupted root before)
      (Recovered root before (Accurate (layout root tree))) recoverJoinInstallation ⟨tree, []⟩ := by
  have hwithin : Within root (Interrupted root before) tree := ⟨hdir, h⟩
  cases h with
  | idle hjournal hfinal =>
    exact safe_recover_idle hjournal hwithin ⟨hfinal, fun _ => ⟨rfl, hjournal⟩⟩
  | staged j hjournal hbelongs hphase hfinal =>
    refine safe_recover_journal hroot hjournal hbelongs hwithin (fun _ j' hrootPath hpath => ?_)
      fun hwrong => by simp [hphase] at hwrong
    refine (safe_cleanup hroot hrootPath hpath rfl hwithin hjournal
      (hwithin.2.withoutRoot hfinal) (.idle rfl hfinal) (.idle rfl hfinal) rfl).mono ?_
    rintro err d' ⟨herr, hgone, hsame⟩
    exact ⟨fun item => (hsame item).trans (hfinal item), fun _ => ⟨herr, hgone⟩⟩
  | underway j hunder =>
    refine safe_recover_journal hroot hunder.journal hunder.belongs hwithin (fun hwrong => ?_)
      fun _ => ?_
    · rcases hunder.phase with hphase | hphase <;> simp [hphase] at hwrong
    have hload : Underway root before j.load.toJoinJournal (layout root tree) := hunder
    have hundoes := fun item => undoes_ready (before item) True (Accurate (layout root tree))
      ((inferred j.load (layout root tree)).installed item)
      ((inferred j.load (layout root tree)).backedUp item)
    have hkeep : ∀ l, l.journal = (layout root tree).journal →
        (∀ item, Kept (before item) (l.slot item)) → Interrupted root before l :=
      fun l hjournal hkept => .underway j (hunder.moved hjournal hkept)
    refine safe_rollback (d := ⟨tree, []⟩) hroot hundoes hkeep
      (Recovered root before (Accurate (layout root tree))) (hunder.belongs.inferred _) rfl rfl
      ⟨hdir, fun _ => rfl, fun _ => rfl, rfl, fun item => hload.ready item (hsound item)⟩ ?_ ?_
    · intro e d' hprogress
      refine ⟨fun item => (hprogress.known item).home (.inr trivial), fun haccurate => ?_⟩
      cases hprogress.sure ⟨trivial, haccurate⟩
    · intro j' hrootPath hpath d' hprogress
      have hfinal : ∀ item, (layout root d'.tree).slot item .final = before item :=
        fun item => (hprogress.known item).home (.inl rfl)
      have hunder' : Underway root before j (layout root d'.tree) :=
        hunder.moved hprogress.journal fun item => (hprogress.known item).kept
      have hinter : Interrupted root before (layout root d'.tree) := .underway j hunder'
      refine (safe_cleanup hroot (hrootPath.trans hunder.belongs.rootPath) hpath
        (hprogress.quiet trivial) ⟨hprogress.isDir, hinter⟩ hunder'.journal
        (hinter.withoutRoot hfinal) (.idle rfl hfinal) (.idle rfl hfinal) rfl).mono ?_
      rintro err d'' ⟨herr, hgone, hsame⟩
      exact ⟨fun item => (hsame item).trans (hfinal item), fun _ => ⟨herr, hgone⟩⟩

end Program

end Proxyma.Join
