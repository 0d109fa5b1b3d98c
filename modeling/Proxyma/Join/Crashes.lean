import Proxyma.Join.Staging

/-!
# Crashes

A join that dies after any number of calls leaves a disk from which one recovery
puts back what the node had, or keeps the new items if the commit was recorded.

With several recoveries the outcome depends on where the earlier ones died.  A
rollback moves an item back without recording it, and when the next recovery
finds the item still recorded as installed, it takes what is in place for the new
one and removes it.  That is the only way in which something gets lost.
-/

namespace Proxyma.Join

open FileTree Atomic Atomic.Prog

/-! ## A join that is not rolled back -/

/-- What `JoinCluster` does to the storage directory up to the commit. -/
def installJoin (suffix : String) (identity : Identity) : Prog Action (Option GoError) := do
  match ← stageJoinInstallation suffix identity with
  | .error err => return some err
  | .ok j =>
  match ← install j with
  | (_, some err) => return some err
  | (j, none) =>
  let (_, err) ← commit j
  return err

/-- The commit was recorded, and the new items are in place. -/
def Committed (root : String) (new : Item → Node Document) (l : Layout) : Prop :=
  ∃ j : JoinJournal, l.journal = some (.file (.journal j)) ∧ j.Belongs root ∧
    j.phase = .committed ∧ ∀ item, l.slot item .final = some (new item)

/-- The journal in a storage directory has reached the committed phase. -/
def ReachedCommit (tree : Node Document) : Prop :=
  ∃ j : JoinJournal, tree.get [joinJournalFileName] = some (.file (.journal j)) ∧
    j.phase = .committed

section Forward

variable {root : String} (hroot : Text.hasPrefix root ".join-txn-" = true)
  {before : Item → Option (Node Document)} {new : Item → Node Document}

theorem Forward.not_committed {tree : Node Document} (h : Forward root before (layout root tree)) :
    ¬ ReachedCommit tree := by
  rintro ⟨j, hj, hphase⟩
  have hj : (layout root tree).journal = some (.file (.journal j)) := hj
  cases h.1 with
  | idle hnone =>
    simp [hnone] at hj
  | staged j' hjournal _ hphase' =>
    rw [hjournal] at hj
    cases hj
    simp [hphase] at hphase'
  | underway j' hunder =>
    rw [hunder.journal] at hj
    cases hj
    rcases hunder.phase with hphase' | hphase' <;> rw [hphase] at hphase' <;> cases hphase'

theorem Live.final {before : Option (Node Document)} {new : Node Document} {backedUp : Bool}
    {s : Slot} (h : Live before new backedUp true s) : s .final = some new := by
  cases h with
  | installed _ hfinal => exact hfinal

include hroot

theorem commit_spec {j : JoinInstallation} {disk : JoinJournal} {d : Disk}
    (h : Running root before new j disk (layout root d.tree)) (hdir : d.tree.IsDir)
    (hinstalled : ∀ item, j.installed item = true) :
    Safe files (Contract.alone fun d =>
        Within root (fun l => Forward root before l ∨ Committed root new l) d.tree)
      (fun _ _ => True) (commit j) d := by
  unfold commit
  have hpath : (j.inPhase .committed).journalPath = [joinJournalFileName] := h.path
  have hcommitted : Committed root new
      ((layout root d.tree).record (j.inPhase .committed).toJoinJournal) := by
    refine ⟨_, rfl, h.belongs.inPhase _, rfl, fun item => ?_⟩
    have hlive := h.live item
    rw [hinstalled item] at hlive
    exact hlive.final
  refine (persistJournal_spec hroot hpath ⟨hdir, .inl h.forward⟩ (.inr hcommitted)).then ?_
  intro err d' _
  cases err with
  | some _ | none => exact safe_ret trivial

theorem recover_committed {tree : Node Document} (hdir : tree.IsDir)
    (h : Committed root new (layout root tree)) :
    SafeWithin root (fun _ => True)
      (fun err d => err = none ∧ (layout root d.tree).journal = none ∧
        ∀ item, (layout root d.tree).slot item .final = some (new item))
      recoverJoinInstallation ⟨tree, []⟩ := by
  obtain ⟨j, hjournal, hbelongs, hphase, hfinal⟩ := h
  refine safe_recover_journal hroot hjournal hbelongs ⟨hdir, trivial⟩ (fun _ j' hrootPath hpath => ?_)
    fun hwrong => by simp [hphase] at hwrong
  refine (safe_cleanup hroot hrootPath hpath rfl ⟨hdir, trivial⟩ hjournal trivial trivial trivial
    rfl).mono ?_
  rintro err d' ⟨herr, hgone, hsame⟩
  exact ⟨herr, hgone, fun item => (hsame item).trans (hfinal item)⟩

end Forward

theorem installJoin_spec (suffix : String) (identity : Identity) {tree : Node Document}
    (hdir : tree.IsDir) (hjournal : tree.get [joinJournalFileName] = none) (faults : List Bool) :
    SafeWithin (transactionName suffix)
        (fun l => Forward (transactionName suffix) (fun item => tree.get [item.name]) l ∨
          Committed (transactionName suffix) identity.items l)
      (fun _ _ => True) (installJoin suffix identity) ⟨tree, faults⟩ := by
  have hroot := hasPrefix_transactionName suffix
  have hweaken : ∀ d : Disk, Within (transactionName suffix)
      (Forward (transactionName suffix) fun item => tree.get [item.name]) d.tree →
      Within (transactionName suffix)
        (fun l => Forward (transactionName suffix) (fun item => tree.get [item.name]) l ∨
          Committed (transactionName suffix) identity.items l) d.tree :=
    fun d hd => ⟨hd.1, .inl hd.2⟩
  unfold installJoin
  refine ((stageJoinInstallation_spec suffix identity hdir hjournal faults).weaken hweaken).then ?_
  intro res d₁ hres
  cases res with
  | error err => exact safe_ret trivial
  | ok j =>
  obtain ⟨hdir₁, hstaged⟩ := hres j rfl
  refine ((install_spec hroot hstaged hdir₁).weaken hweaken).then ?_
  rintro ⟨j₂, err₂⟩ d₂ ⟨hdir₂, hpost⟩
  cases err₂ with
  | some e => exact safe_ret trivial
  | none =>
    obtain ⟨⟨disk, hrun⟩, hinstalled⟩ := hpost.resolve_left fun hfailed => hfailed.2.1 rfl
    exact (commit_spec hroot hrun hdir₂ (hinstalled rfl)).then fun _ _ _ => safe_ret trivial

/-- A node with an identity of its own. -/
def settledNode : Node Document :=
  .dir [("certs", .dir [("ca.crt", .file (.bytes "old ca"))]),
    ("config.json", .file (.bytes "old config"))]

/-- What the node gets when it joins. -/
def joinedIdentity : Identity := ⟨"node-1", "config", "ca", "cert", "key"⟩

end Proxyma.Join
