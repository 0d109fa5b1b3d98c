import Proxyma.Join.Crashes

/-!
# Recoveries that are cut off

A process that rolls back may die as well, and so may a recovery.  As long as no
recovery starts from a disk with a stranded item, each of them leaves a disk from
which the next one can put everything back.  From a disk with a stranded item,
the item is lost: every recovery removes it, finds no backup, and keeps the
journal.
-/

namespace Proxyma.Join

open FileTree Atomic Atomic.Prog

/-! ## A join that is rolled back -/

/-- What `JoinCluster` does to the storage directory when it does not commit: the
installation failed, or the node did not start. -/
def undoneJoin (suffix : String) (identity : Identity) : Prog Action (Option GoError) := do
  match ← stageJoinInstallation suffix identity with
  | .error err => return some err
  | .ok j =>
  let (j, _) ← install j
  let (_, err) ← rollback j
  return err

theorem undoes_nothing (s : Slot) :
    Undoes False False false false (· = s) (· = s) (fun _ => (· = s)) (fun _ => (· = s)) where
  sure_quiet := id
  kept_ready := id
  kept_cleared := id
  kept_restored := id
  skip := fun _ h => h
  clear := fun h => nomatch h
  clearFailed := fun _ h => nomatch h
  cleared_mono := id
  leave := fun _ h => h
  restore := fun h => nomatch h
  restoreFailed := fun h => nomatch h
  restored_mono := id
  sure_restore := fun h => h.elim

variable {j : JoinInstallation} {tree : Node Document} {item : Item}

section Live

variable {root : String} (hroot : Text.hasPrefix root ".join-txn-" = true)
  {before : Item → Option (Node Document)} {new : Item → Node Document}

include hroot

theorem safe_finishRollback (hrootPath : j.root = [root])
    (hpath : j.journalPath = [joinJournalFileName]) {d : Disk} (hdir : d.tree.IsDir)
    (h : Interrupted root before (layout root d.tree))
    (hfinal : ∀ item, (layout root d.tree).slot item .final = before item) :
    SafeWithin root (Interrupted root before)
      (fun _ _ => True) (finishRollback j) d := by
  refine (removeTransaction_spec hroot hrootPath hpath ⟨hdir, h⟩ (h.withoutRoot hfinal)
    (.idle rfl hfinal) (.idle rfl hfinal)).then ?_
  exact fun _ _ _ => safe_ret trivial

/-- A rollback by the process that installed, whichever calls fail. -/
theorem rollback_spec {d : Disk} {res : JoinInstallation × Option GoError}
    (h : Installed root before new j res d) :
    SafeWithin root (Interrupted root before)
      (fun _ _ => True) (rollback res.1) d := by
  obtain ⟨hdir, ⟨hres, -, hstaged⟩ | ⟨⟨disk, hrun⟩, -⟩⟩ := h
  · rw [hres]
    have hflags := hstaged.flags_inPhase .installing
    have hundoes := fun item : Item => undoes_nothing ((layout root d.tree).slot item)
    refine safe_rollback (d := d) hroot hundoes (fun l hjournal hsame => ?_) (fun _ _ => True)
      (hstaged.belongs.inPhase .installing) (funext fun item => (hflags item).2)
      (funext fun item => (hflags item).1)
      ⟨hdir, fun hfalse => hfalse.elim, fun hfalse => hfalse.elim, rfl, fun item => rfl⟩
      (fun _ _ _ => trivial) fun j' hrootPath hpath d' hprogress => ?_
    · obtain rfl : l = layout root d.tree := Layout.ext hjournal (funext hsame)
      exact hstaged.forward.1
    have hlayout : layout root d'.tree = layout root d.tree :=
      Layout.ext hprogress.journal (funext hprogress.known)
    refine safe_finishRollback hroot (hrootPath.trans hstaged.belongs.rootPath)
      (hpath.trans hstaged.path) hprogress.isDir ?_ ?_ <;> rw [hlayout]
    · exact hstaged.forward.1
    · exact hstaged.final
  · have hundoes := fun item => undoes_ready (before item) False False (res.1.installed item)
      (res.1.backedUp item)
    refine safe_rollback (d := d) hroot hundoes
      (fun l hjournal hkept => .underway disk (hrun.underway.moved hjournal hkept))
      (fun _ _ => True) hrun.belongs rfl rfl
      ⟨hdir, fun hfalse => hfalse.elim, fun hfalse => hfalse.1.elim, rfl, fun item =>
        (hrun.live item).ready⟩ (fun _ _ _ => trivial) fun j' hrootPath hpath d' hprogress => ?_
    refine safe_finishRollback hroot (hrootPath.trans hrun.belongs.rootPath) (hpath.trans hrun.path)
      hprogress.isDir ?_ fun item => (hprogress.known item).home (.inl rfl)
    exact .underway disk (hrun.underway.moved hprogress.journal fun item =>
      (hprogress.known item).kept)

end Live

theorem undoneJoin_spec (suffix : String) (identity : Identity) (hdir : tree.IsDir)
    (hjournal : tree.get [joinJournalFileName] = none) (faults : List Bool) :
    SafeWithin (transactionName suffix)
        (Interrupted (transactionName suffix) fun item => tree.get [item.name])
      (fun _ _ => True) (undoneJoin suffix identity) ⟨tree, faults⟩ := by
  have hroot := hasPrefix_transactionName suffix
  have hweaken : ∀ d : Disk, Within (transactionName suffix)
      (Forward (transactionName suffix) fun item => tree.get [item.name]) d.tree →
      Within (transactionName suffix)
        (Interrupted (transactionName suffix) fun item => tree.get [item.name]) d.tree :=
    fun d hd => ⟨hd.1, hd.2.1⟩
  unfold undoneJoin
  refine ((stageJoinInstallation_spec suffix identity hdir hjournal faults).weaken hweaken).then ?_
  intro res d₁ hres
  rcases res with err | j
  · exact safe_ret trivial
  obtain ⟨hdir₁, hstaged⟩ := hres j rfl
  refine ((install_spec hroot hstaged hdir₁).weaken hweaken).then fun res d₂ hpost => ?_
  exact (rollback_spec hroot hpost).then fun _ _ _ => safe_ret trivial

/-! ## A stranded item -/

/-- An item that no recovery can bring back: it is recorded as backed up and
installed, and the backup is gone. -/
def Lost (root : String) (item : Item) (l : Layout) : Prop :=
  ∃ j : JoinJournal, l.journal = some (.file (.journal j)) ∧ j.Belongs root ∧
    (j.phase = .installing ∨ j.phase = .installed) ∧ j.installed item = true ∧
    j.backedUp item = true ∧ l.slot item .backup = none

theorem Interrupted.lost {root : String} {before : Item → Option (Node Document)} {l : Layout}
    (h : Interrupted root before l) (hstranded : Stranded l item) :
    Lost root item l ∧ before item ≠ none := by
  obtain ⟨j, hj, hhad, hinstalled, hbackup⟩ := hstranded
  cases h with
  | idle hnone => simp [Layout.installation, hnone] at hj
  | staged j' hjournal _ hphase => simp [Layout.installation, hjournal, hphase] at hj
  | underway j' hunder =>
    rw [hunder.installation] at hj
    cases hj
    refine ⟨⟨j, hunder.journal, hunder.belongs, hunder.phase, hinstalled,
      hunder.recorded item hinstalled hhad, hbackup⟩, ?_⟩
    rw [hunder.had item] at hhad
    exact Option.isSome_iff_ne_none.1 hhad

/-- What a rollback does to a lost item: it is removed, and the missing backup is
an error. -/
theorem undoes_lost :
    Undoes True False true true (fun s => s .backup = none) (fun s => s .backup = none)
      (fun _ s => s .backup = none ∧ s .final = none)
      (fun err s => s .backup = none ∧ s .final = none ∧ err ≠ none) where
  sure_quiet := fun _ => trivial
  kept_ready := id
  kept_cleared := And.left
  kept_restored := And.left
  skip := fun h => nomatch h
  clear := fun _ h => ⟨h, rfl⟩
  clearFailed := fun h => absurd trivial h
  cleared_mono := id
  leave := fun h => nomatch h
  restore := fun _ h hne => absurd h.1 hne
  restoreFailed := fun _ h _ => ⟨h.1, h.2, by simp⟩
  restored_mono := fun h => ⟨h.1, h.2.1, by simp⟩
  sure_restore := fun h => h.elim

theorem undoes_any (installed backedUp : Bool) :
    Undoes True False installed backedUp (fun _ => True) (fun _ => True) (fun _ _ => True)
      (fun _ _ => True) := by
  constructor <;> simp

section Lost

variable {root : String} (hroot : Text.hasPrefix root ".join-txn-" = true)

include hroot

/-- A recovery that starts with a lost item ends without it, and leaves it lost
wherever it is cut off. -/
theorem recover_lost (hdir : tree.IsDir) (h : Lost root item (layout root tree)) :
    SafeWithin root (Lost root item)
      (fun _ d => (layout root d.tree).slot item .final = none)
      recoverJoinInstallation ⟨tree, []⟩ := by
  have hwithin : Within root (Lost root item) tree := ⟨hdir, h⟩
  obtain ⟨j, hjournal, hbelongs, hphase, hinstalled, hbackedUp, hbackup⟩ := h
  refine safe_recover_journal hroot hjournal hbelongs hwithin (fun hwrong => ?_) fun _ => ?_
  · rcases hphase with hphase | hphase <;> simp [hphase] at hwrong
  have hi : (inferred j.load (layout root tree)).installed item = true := by
    have hload : j.load.installed item = true := hinstalled
    rw [inferred_installed, hload, Bool.true_or]
  have hb : (inferred j.load (layout root tree)).backedUp item = true := by
    have hload : j.load.backedUp item = true := hbackedUp
    rw [inferred_backedUp, hload, Bool.true_or]
  have hundoes : ∀ other, Undoes True False
      ((inferred j.load (layout root tree)).installed other)
      ((inferred j.load (layout root tree)).backedUp other)
      (fun s => other = item → s .backup = none) (fun s => other = item → s .backup = none)
      (fun _ s => other = item → s .backup = none ∧ s .final = none)
      (fun err s => other = item → s .backup = none ∧ s .final = none ∧ err ≠ none) := by
    intro other
    by_cases hother : other = item
    · subst hother
      simpa [hi, hb] using undoes_lost
    · simpa [hother] using undoes_any _ _
  refine safe_rollback (d := ⟨tree, []⟩) hroot hundoes (fun l hl hkept => ?_)
    (fun _ d => (layout root d.tree).slot item .final = none) (hbelongs.inferred _) rfl rfl
    ⟨hdir, fun _ => rfl, fun _ => rfl, rfl, fun other hother => hother ▸ hbackup⟩
    (fun e d' hprogress => (hprogress.known item rfl).2.1) fun j' _ _ d' hprogress => ?_
  · exact ⟨j, hl.trans hjournal, hbelongs, hphase, hinstalled, hbackedUp, hkept item rfl⟩
  · exact absurd rfl (hprogress.known item rfl).2.2

end Lost

/-! ## Recoveries in a row -/

/-- The storage directory after recoveries that die after the given numbers of
calls, and one that does not. -/
def recoverAgain : List ℕ → Node Document → Node Document
  | [], tree => (recoverJoinInstallation.run files ⟨tree, []⟩).2.tree
  | k :: ks, tree => recoverAgain ks (recoverJoinInstallation.crash files k ⟨tree, []⟩).tree

/-- The storage directories from which these recoveries start. -/
def restarts : List ℕ → Node Document → List (Node Document)
  | [], tree => [tree]
  | k :: ks, tree => tree :: restarts ks (recoverJoinInstallation.crash files k ⟨tree, []⟩).tree

theorem mem_restarts (ks : List ℕ) (tree : Node Document) : tree ∈ restarts ks tree := by
  cases ks <;> simp [restarts]

section Recoveries

variable {root : String} (hroot : Text.hasPrefix root ".join-txn-" = true)

include hroot

theorem recoverAgain_lost (ks : List ℕ) (hdir : tree.IsDir) (h : Lost root item (layout root tree))
    : (recoverAgain ks tree).get [item.name] = none := by
  induction ks generalizing tree with
  | nil => exact (recover_lost hroot hdir h).run
  | cons k ks ih =>
    obtain ⟨hdir', h'⟩ := (recover_lost hroot hdir h).crash ⟨hdir, h⟩ k
    exact ih hdir' h'

/-- Recoveries in a row put everything back exactly if none of them starts with a
stranded item. -/
theorem recoverAgain_eq_iff {before : Item → Option (Node Document)} (ks : List ℕ)
    (hdir : tree.IsDir) (h : Interrupted root before (layout root tree)) :
    (∀ item : Item, (recoverAgain ks tree).get [item.name] = before item) ↔
      ∀ t ∈ restarts ks tree, ∀ item, ¬ Stranded (layout root t) item := by
  induction ks generalizing tree with
  | nil =>
    simp only [restarts, List.mem_singleton, forall_eq]
    refine ⟨fun hback item hstranded => ?_, fun hsound => ?_⟩
    · obtain ⟨hlost, hbefore⟩ := h.lost hstranded
      exact hbefore ((hback item).symm.trans (recoverAgain_lost hroot [] hdir hlost))
    · exact (recover_spec hroot hdir h hsound).run.final
  | cons k ks ih =>
    by_cases hsound : ∀ item, ¬ Stranded (layout root tree) item
    · obtain ⟨hdir', h'⟩ := (recover_spec hroot hdir h hsound).crash ⟨hdir, h⟩ k
      simpa [restarts, recoverAgain, hsound] using ih hdir' h'
    obtain ⟨item, hstranded⟩ := not_forall_not.1 hsound
    obtain ⟨hlost, hbefore⟩ := h.lost hstranded
    refine ⟨fun hback => ?_, fun hall => ?_⟩
    · exact absurd ((hback item).symm.trans (recoverAgain_lost hroot (k :: ks) hdir hlost))
        hbefore
    · exact absurd hstranded (hall tree (mem_restarts _ _) item)

end Recoveries

/-- However a join was cut off, further recoveries reach what one recovery would
have reached, which is what the node had, exactly if none of them starts with a
stranded item. -/
theorem restartable_iff (suffix : String) (identity : Identity) (tree : Node Document)
    (hdir : tree.IsDir) (hjournal : tree.get [joinJournalFileName] = none) (faults : List Bool)
    (n : ℕ) (ks : List ℕ) :
    let first := ((undoneJoin suffix identity).crash files n ⟨tree, faults⟩).tree
    (∀ item : Item,
      (recoverAgain ks first).get [item.name] = (recoverAgain [] first).get [item.name] ∧
        (recoverAgain ks first).get [item.name] = tree.get [item.name]) ↔
      ∀ t ∈ restarts ks first, ∀ item, ¬ Stranded (layout (transactionName suffix) t) item := by
  intro first
  have hroot := hasPrefix_transactionName suffix
  obtain ⟨hdir', h⟩ := (undoneJoin_spec suffix identity hdir hjournal faults).crash
    ⟨hdir, (forward_idle hjournal).1⟩ n
  have hagain := recoverAgain_eq_iff hroot ks hdir' h
  refine ⟨fun hsame => hagain.1 fun item => (hsame item).2, fun hsound item => ?_⟩
  have honce := (recoverAgain_eq_iff hroot [] hdir' h).2 fun t ht => by
    rw [List.mem_singleton.1 ht]
    exact hsound first (mem_restarts ks first)
  have hlast := hagain.2 hsound item
  exact ⟨hlast.trans (honce item).symm, hlast⟩

/-- A recovery that dies when it has removed both new items and moved nothing
back does no harm. -/
theorem restartable_iff_removed :
    settledNode.IsDir ∧ settledNode.get [joinJournalFileName] = none ∧
      (recoverAgain [9] ((undoneJoin "1" joinedIdentity).crash files 60
        ⟨settledNode, []⟩).tree).get [Item.certs.name] = settledNode.get [Item.certs.name] :=
  ⟨trivial, rfl, (((restartable_iff "1" joinedIdentity settledNode trivial rfl [] 60 [9]).2
    (by decide +kernel)) .certs).2⟩

/-- One that dies when it has moved the certificates back makes the next one
remove them. -/
theorem recovery_removes_restored :
    settledNode.IsDir ∧ settledNode.get [joinJournalFileName] = none ∧
      let first := ((undoneJoin "1" joinedIdentity).crash files 60 ⟨settledNode, []⟩).tree
      ((recoverAgain [] first).get ["certs"]).isSome = true ∧
        ((recoverAgain [11] first).get ["certs"]).isSome = false :=
  ⟨trivial, rfl, by decide +kernel, by decide +kernel⟩

end Proxyma.Join
