import Proxyma.Join.Layout

/-!
# Undoing a join

`rollback` makes two passes over the items: it removes what the join brought,
then it moves what the join replaced back.  Every call can fail, in which case
the passes go on and the transaction is kept.  `safe_rollback` is the rule for
such a run: what is known of each item before, between and after the passes is
given by three predicates, and `Undoes` lists what has to be shown of one item.

The rule is used for a rollback by the process that installed and for one by a
recovery, which knows less.
-/

namespace Proxyma.Join

open FileTree Atomic Atomic.Prog

namespace JoinJournal

/-- Whether the item was there before the join. -/
def had (j : JoinJournal) : Item → Bool
  | .certs => j.hadCerts
  | .config => j.hadConfig

/-- Whether the item was recorded as backed up. -/
def backedUp (j : JoinJournal) : Item → Bool
  | .certs => j.certsBackedUp
  | .config => j.configBackedUp

/-- Whether the item was recorded as installed. -/
def installed (j : JoinJournal) : Item → Bool
  | .certs => j.certsInstalled
  | .config => j.configInstalled

/-- The journal is about the transaction in a directory. -/
structure Belongs (root : String) (j : JoinJournal) : Prop where
  rootPath : j.root = [root]
  finalCerts : j.finalCerts = place root .certs .final
  finalConfig : j.finalConfig = place root .config .final
  backupCerts : j.backupCerts = place root .certs .backup
  backupConfig : j.backupConfig = place root .config .backup
  stagedCerts : j.stagedCerts = place root .certs .staged
  stagedConfig : j.stagedConfig = place root .config .staged

end JoinJournal

theorem joinErrors_some (err : Option GoError) (e : GoError) :
    ∃ e', GoError.joinErrors err (some e) = some e' := by
  cases err <;> exact ⟨_, rfl⟩

/-! ## Removing the transaction -/

section Transaction

variable {root : String} (hroot : Text.hasPrefix root ".join-txn-" = true)

/-- The layout without the transaction directory. -/
def Layout.withoutRoot (l : Layout) : Layout :=
  { l with slot := fun item p => if p = .final then l.slot item p else none }

def Layout.withoutJournal (l : Layout) : Layout := { l with journal := none }

variable {I : Layout → Prop} {d : Disk} {j : JoinInstallation}

include hroot

/-- Removing the transaction leaves what the node reads alone; without faults,
the journal is gone in the end and there is no error. -/
theorem removeTransaction_spec (hrootPath : j.root = [root])
    (hjournalPath : j.journalPath = [joinJournalFileName]) (hd : Within root I d.tree)
    (hnoRoot : I (layout root d.tree).withoutRoot)
    (hnoJournal : I (layout root d.tree).withoutJournal)
    (hnone : I (layout root d.tree).withoutRoot.withoutJournal) :
    SafeWithin root I
      (fun errs d' => Within root I d'.tree ∧
        (∀ item, (layout root d'.tree).slot item .final = (layout root d.tree).slot item .final) ∧
        (d.faults = [] → ∀ content, (layout root d.tree).journal = some (.file content) →
          errs = (none, none, none) ∧ (layout root d'.tree).journal = none))
      (removeTransaction j) d := by
  unfold removeTransaction
  rw [hrootPath, hjournalPath]
  have hfirst := safe_call (l := (layout root d.tree).withoutRoot) (e := .removeAll [root])
    (fun tree => .ok (tree.removeAll [root])) (fun _ => rfl) rfl hd hnoRoot (by
      rintro tree ⟨⟩
      exact ⟨Node.isDir_removeAll hd.1, layout_removeRoot hroot⟩)
  refine hfirst.then fun rootErr d₁ ⟨hfaults₁, hwithin₁, hlayout₁⟩ => ?_
  have hI₁ : I (layout root d₁.tree).withoutJournal := by
    rcases hlayout₁ with ⟨-, h⟩ | ⟨-, -, h⟩ <;> rw [h]
    · exact hnone
    · exact hnoJournal
  have hsecond := safe_call (e := .remove [joinJournalFileName])
    (fun tree => tree.remove [joinJournalFileName]) (fun _ => rfl) rfl hwithin₁ hI₁
    fun tree hremove => by
      obtain rfl := Node.remove_ok hremove
      exact ⟨Node.isDir_removeAll hwithin₁.1, layout_removeJournal hroot⟩
  refine hsecond.then fun journalErr d₂ ⟨hfaults₂, hwithin₂, hlayout₂⟩ => ?_
  refine (syncDir_spec _ hwithin₂).then fun syncErr d₃ ⟨hsame, hsync⟩ => safe_ret ?_
  rw [hsame.1]
  refine ⟨hwithin₂, fun item => ?_, fun hquiet content hjournal => ?_⟩
  · have h₁ : (layout root d₁.tree).slot item .final = (layout root d.tree).slot item .final := by
      rcases hlayout₁ with ⟨-, h⟩ | ⟨-, -, h⟩ <;> rw [h]
      rfl
    rcases hlayout₂ with ⟨-, h⟩ | ⟨-, -, h⟩ <;> rw [h] <;> exact h₁
  · obtain ⟨hrootErr, hl₁⟩ := hlayout₁.resolve_right fun h => nomatch h.2.1 hquiet
    have hquiet₁ : d₁.faults = [] := by simp [hfaults₁, hquiet]
    have hfile : d₁.tree.get [joinJournalFileName] = some (.file content) :=
      (congrArg Layout.journal hl₁).trans hjournal
    have hremove := Node.remove_file hfile
    obtain ⟨hjournalErr, hl₂⟩ := hlayout₂.resolve_right fun h => by
      obtain ⟨errno, hno⟩ := h.2.1 hquiet₁
      simp [hremove] at hno
    have hsyncErr : syncErr = none := hsync (by simp [hfaults₂, hquiet₁]) rfl
    exact ⟨by rw [hrootErr, hjournalErr, hsyncErr], by rw [hl₂]; rfl⟩

end Transaction

/-! ## The rule -/

/-- What has to be shown of one item so that a rollback with given flags takes it
from `ready` over `cleared` to `restored`, and `kept` holds all the time.  `quiet`
says that no call is cut off by a fault, and `sure` that none fails. -/
structure Undoes (quiet sure : Prop) (installed backedUp : Bool) (kept ready : Slot → Prop)
    (cleared restored : Option GoError → Slot → Prop) : Prop where
  sure_quiet : sure → quiet
  kept_ready : ∀ {s}, ready s → kept s
  kept_cleared : ∀ {err s}, cleared err s → kept s
  kept_restored : ∀ {err s}, restored err s → kept s
  skip : ∀ {err s}, installed = false → ready s → cleared err s
  clear : ∀ {err s}, installed = true → ready s → cleared err (s.clear .final)
  clearFailed : ∀ {e s}, ¬ quiet → installed = true → ready s → cleared (some e) s
  cleared_mono : ∀ {err e s}, cleared err s → cleared (some e) s
  leave : ∀ {err s}, backedUp = false → cleared err s → restored err s
  restore : ∀ {err s}, backedUp = true → cleared err s → s .backup ≠ none →
    restored err (s.move .backup .final)
  restoreFailed : ∀ {err e s}, backedUp = true → cleared err s →
    (quiet → s .backup = none ∨ s .final ≠ none) → restored (some e) s
  restored_mono : ∀ {err e s}, restored err s → restored (some e) s
  sure_restore : ∀ {err s}, sure → backedUp = true → cleared err s →
    s .backup ≠ none ∧ s .final = none

/-- How far a rollback is with an item. -/
inductive Stage
  | ready
  | cleared
  | restored
  deriving DecidableEq

variable {item : Item} {err' : Option GoError} {message : String} {s : Slot}

section Rule

variable {root : String} (hroot : Text.hasPrefix root ".join-txn-" = true)
  {I : Layout → Prop} {quiet sure : Prop} {installed backedUp : Item → Bool}
  {kept ready : Item → Slot → Prop} {cleared restored : Item → Option GoError → Slot → Prop}

/-- What is known of an item at a stage. -/
def Known (ready : Item → Slot → Prop) (cleared restored : Item → Option GoError → Slot → Prop)
    (stage : Stage) (item : Item) (err : Option GoError) (s : Slot) : Prop :=
  match stage with
  | .ready => ready item s
  | .cleared => cleared item err s
  | .restored => restored item err s

/-- The disk in the course of a rollback, with the error so far. -/
structure Progress (root : String) (quiet sure : Prop) (journal : Option (Node Document))
    (known : Stage → Item → Option GoError → Slot → Prop) (stage : Item → Stage)
    (err : Option GoError) (d : Disk) : Prop where
  isDir : d.tree.IsDir
  quiet : quiet → d.faults = []
  sure : sure → err = none
  journal : (layout root d.tree).journal = journal
  known : ∀ item, known (stage item) item err ((layout root d.tree).slot item)

variable (hundoes : ∀ item, Undoes quiet sure (installed item) (backedUp item) (kept item)
    (ready item) (cleared item) (restored item))
  {journal : Option (Node Document)} {stage : Item → Stage} {err : Option GoError} {d : Disk}

include hundoes

theorem Known.isKept {st : Stage} (h : Known ready cleared restored st item err s) :
    kept item s := by
  cases st with
  | ready => exact (hundoes item).kept_ready h
  | cleared => exact (hundoes item).kept_cleared h
  | restored => exact (hundoes item).kept_restored h

theorem Known.mono {st : Stage} (h : Known ready cleared restored st item err s)
    (herr : err' = err ∨ ∃ e, err' = some e) : Known ready cleared restored st item err' s := by
  obtain rfl | ⟨e, rfl⟩ := herr
  · exact h
  · cases st with
    | ready => exact h
    | cleared => exact (hundoes item).cleared_mono h
    | restored => exact (hundoes item).restored_mono h

theorem Progress.within
    (h : Progress root quiet sure journal (Known ready cleared restored) stage err d)
    (hI : ∀ l, l.journal = journal → (∀ item, kept item (l.slot item)) → I l) :
    Within root I d.tree :=
  ⟨h.isDir, hI _ h.journal fun item => (h.known item).isKept hundoes⟩

/-- After a call about one item, that item has reached the next stage. -/
theorem Progress.next {next : Stage} {d' : Disk}
    (h : Progress root quiet sure journal (Known ready cleared restored) stage err d)
    (hdir : d'.tree.IsDir) (hfaults : d.faults = [] → d'.faults = []) (hsure : sure → err' = none)
    (herr : err' = err ∨ ∃ e, err' = some e)
    (hlayout : layout root d'.tree = (layout root d.tree).put item s)
    (hnext : Known ready cleared restored next item err' s) :
    Progress root quiet sure journal (Known ready cleared restored)
      (Function.update stage item next) err' d' := by
  refine ⟨hdir, fun hq => hfaults (h.quiet hq), hsure, by rw [hlayout]; exact h.journal,
    fun other => ?_⟩
  rw [hlayout]
  by_cases hne : other = item
  · subst hne
    rwa [Function.update_self, Layout.put_slot]
  · rw [Function.update_of_ne hne, Layout.put_slot_of_ne _ _ hne]
    exact (h.known other).mono hundoes herr

variable (hI : ∀ l, l.journal = journal → (∀ item, kept item (l.slot item)) → I l)

include hI

/-- A call of a pass is done, or it fails and the item is left where it is. -/
theorem Progress.call (item : Item) (next : Stage) (f : Slot → Slot)
    {e : Action (Option GoError)} (op : Node Document → Except Errno (Node Document))
    (he : ∀ d, attempt e d = d.update (op d.tree)) (hfailure : failure e = some ioError)
    (h : Progress root quiet sure journal (Known ready cleared restored) stage err d)
    (hok : ∀ tree, op d.tree = .ok tree → tree.IsDir ∧
      layout root tree = (layout root d.tree).put item (f ((layout root d.tree).slot item)) ∧
      Known ready cleared restored next item err (f ((layout root d.tree).slot item)))
    (hfail : ∀ e, (quiet → ∃ errno, op d.tree = .error errno) → ¬ sure ∧
      Known ready cleared restored next item (some e) ((layout root d.tree).slot item)) :
    SafeWithin root I
      (fun res d' => ∀ err', (res = none ∧ err' = err ∨ res ≠ none ∧ ∃ e, err' = some e) →
        Progress root quiet sure journal (Known ready cleared restored)
          (Function.update stage item next) err' d') (perform e) d := by
  have hfaults : d.faults = [] → d.faults.tail = [] := fun hquiet => by rw [hquiet]; rfl
  refine safe_update op he hfailure (fun tree htree => ?_) fun e hreason => ?_
  · obtain ⟨hdir, hlayout, hnext⟩ := hok tree htree
    have hdone : Progress root quiet sure journal (Known ready cleared restored)
        (Function.update stage item next) err ⟨tree, d.faults.tail⟩ :=
      h.next hundoes hdir hfaults h.sure (.inl rfl) hlayout hnext
    refine ⟨hdone.within hundoes hI, fun err' herr => ?_⟩
    obtain ⟨-, rfl⟩ := herr.resolve_right fun hne => hne.1 rfl
    exact hdone
  · refine ⟨h.within hundoes hI, fun err' herr => ?_⟩
    obtain ⟨-, e', rfl⟩ := herr.resolve_left fun hnone => nomatch hnone.1
    obtain ⟨hsure, hnext⟩ := hfail e' fun hq => hreason (h.quiet hq)
    exact h.next hundoes h.isDir hfaults (fun hs => absurd hs hsure) (.inr ⟨e', rfl⟩)
      ((layout root d.tree).put_self item).symm hnext

include hroot

theorem Progress.removeInstalled (item : Item)
    (h : Progress root quiet sure journal (Known ready cleared restored) stage err d)
    (hstage : stage item = .ready) :
    SafeWithin root I
      (fun err' d' => Progress root quiet sure journal (Known ready cleared restored)
        (Function.update stage item .cleared) err' d')
      (removeInstalled (installed item) (place root item .final) message err) d := by
  have hready : ready item ((layout root d.tree).slot item) := by
    have hknown := h.known item
    rwa [hstage] at hknown
  cases hneeded : installed item with
  | false =>
    exact safe_ret (h.next hundoes h.isDir id h.sure (.inl rfl)
      ((layout root d.tree).put_self item).symm ((hundoes item).skip hneeded hready))
  | true =>
    refine (h.call hundoes hI item .cleared (fun s => s.clear .final)
      (fun tree => .ok (tree.removeAll (place root item .final))) (fun _ => rfl) rfl ?_
      fun e hreason => ?_).then fun res d' hpost => ?_
    · rintro tree ⟨⟩
      exact ⟨Node.isDir_removeAll h.isDir, layout_clear hroot item .final,
        (hundoes item).clear hneeded hready⟩
    · have hnot : ¬ quiet := fun hq => nomatch hreason hq
      exact ⟨fun hs => hnot ((hundoes item).sure_quiet hs),
        (hundoes item).clearFailed hnot hneeded hready⟩
    · cases res with
      | none => exact safe_ret (hpost err (.inl ⟨rfl, rfl⟩))
      | some e => exact safe_ret (hpost _ (.inr ⟨by simp, joinErrors_some _ _⟩))

theorem Progress.restoreBackup (item : Item)
    (h : Progress root quiet sure journal (Known ready cleared restored) stage err d)
    (hstage : stage item = .cleared) :
    SafeWithin root I
      (fun res d' => Progress root quiet sure journal (Known ready cleared restored)
        (Function.update stage item .restored) res.1 d')
      (restoreBackup (backedUp item) (place root item .backup) (place root item .final) message
        err) d := by
  have hcleared : cleared item err ((layout root d.tree).slot item) := by
    have hknown := h.known item
    rwa [hstage] at hknown
  cases hneeded : backedUp item with
  | false =>
    exact safe_ret (h.next hundoes h.isDir id h.sure (.inl rfl)
      ((layout root d.tree).put_self item).symm ((hundoes item).leave hneeded hcleared))
  | true =>
    refine (h.call hundoes hI item .restored (fun s => s.move .backup .final)
      (fun tree => tree.rename (place root item .backup) (place root item .final)) (fun _ => rfl)
      rfl (fun tree hrename => ?_) fun e hreason => ?_).then fun res d' hpost => ?_
    · obtain ⟨hdir, hlayout⟩ := layout_move hroot (by decide) hrename
      refine ⟨hdir, hlayout, (hundoes item).restore hneeded hcleared fun hnone => ?_⟩
      simp [Node.rename_notExist hnone] at hrename
    · -- without a fault, a move fails only if there is nothing to move or no room for it
      have hblocked : quiet → (layout root d.tree).slot item .backup = none ∨
          (layout root d.tree).slot item .final ≠ none := by
        intro hq
        by_contra hneither
        rw [not_or, not_not] at hneither
        obtain ⟨tree', hmoved⟩ := move_final hroot h.isDir (by decide) hneither.1 hneither.2
        obtain ⟨errno, herror⟩ := hreason hq
        simp [hmoved] at herror
      refine ⟨fun hs => ?_, (hundoes item).restoreFailed hneeded hcleared hblocked⟩
      obtain ⟨hbackup, hfree⟩ := (hundoes item).sure_restore hs hneeded hcleared
      exact (hblocked ((hundoes item).sure_quiet hs)).elim hbackup fun hne => hne hfree
    · cases res with
      | none => exact safe_ret (hpost err (.inl ⟨rfl, rfl⟩))
      | some e => exact safe_ret (hpost _ (.inr ⟨by simp, joinErrors_some _ _⟩))

/-- A rollback takes every item through the stages; if no call failed, it goes on
to remove the transaction. -/
theorem safe_rollback (post : Option GoError → Disk → Prop) {j : JoinInstallation} (hj : j.Belongs root)
    (hinstalled : j.installed = installed) (hbackedUp : j.backedUp = backedUp)
    (hd : Progress root quiet sure journal (Known ready cleared restored) (fun _ => .ready) none d)
    (hstop : ∀ e d', Progress root quiet sure journal (Known ready cleared restored)
      (fun _ => .restored) (some e) d' → post (some e) d')
    (hfinish : ∀ j' : JoinInstallation, j'.root = j.root → j'.journalPath = j.journalPath →
      ∀ d', Progress root quiet sure journal (Known ready cleared restored)
        (fun _ => .restored) none d' →
      SafeWithin root I post (finishRollback j') d') :
    SafeWithin root I (fun res d' => post res.2 d')
      (rollback j) d := by
  subst hinstalled hbackedUp
  unfold rollback
  rw [hj.finalConfig, hj.finalCerts, hj.backupConfig, hj.backupCerts]
  refine (hd.removeInstalled hroot hundoes hI .config rfl).then fun err₁ d₁ h₁ => ?_
  refine (h₁.removeInstalled hroot hundoes hI .certs rfl).then fun err₂ d₂ h₂ => ?_
  refine (h₂.restoreBackup hroot hundoes hI .config rfl).then ?_
  rintro ⟨err₃, b₃⟩ d₃ h₃
  refine (h₃.restoreBackup hroot hundoes hI .certs rfl).then ?_
  rintro ⟨err₄, b₄⟩ d₄ h₄
  have hstage : Function.update (Function.update (Function.update (Function.update
      (fun _ : Item => Stage.ready) .config .cleared) .certs .cleared) .config .restored) .certs
        .restored = fun _ => .restored := by
    funext item
    cases item <;> rfl
  rw [hstage] at h₄
  cases err₄ with
  | some e => exact safe_ret (hstop e d₄ h₄)
  | none => exact (hfinish _ rfl rfl d₄ h₄).then fun err d' hpost => safe_ret hpost

end Rule

end Proxyma.Join
