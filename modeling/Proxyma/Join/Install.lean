import Proxyma.Join.Recovery

/-!
# The course of an installation

While `install` runs, each item is `Live`: untouched, in the backup, or replaced
by the new one, and the flags in memory say which.  The journal on disk may be
behind, since it is written after the move it records.  `Running` keeps track of
both, and `backUp` and `moveIn` take one item from one state to the next.
-/

namespace Proxyma.Join

open FileTree Atomic Atomic.Prog

/-- The state of an item while the process that installs it lives. -/
inductive Live (before : Option (Node Document)) (new : Node Document) :
    Bool → Bool → Slot → Prop
  | untouched {s : Slot} (hfinal : s .final = before) (hbackup : s .backup = none)
      (hstaged : s .staged = some new) : Live before new false false s
  | backedUp {s : Slot} (hbefore : before ≠ none) (hfinal : s .final = none)
      (hbackup : s .backup = before) (hstaged : s .staged = some new) : Live before new true false s
  | installed {s : Slot} {backedUp : Bool} (hflag : backedUp = before.isSome)
      (hfinal : s .final = some new) (hbackup : s .backup = before) (hstaged : s .staged = none) :
      Live before new backedUp true s

section Items

variable {before : Option (Node Document)} {new : Node Document} {backedUp installed : Bool}
  {s : Slot}

theorem Live.kept (h : Live before new backedUp installed s) : Kept before s := by
  cases h with
  | untouched hfinal hbackup => exact .home hbackup hfinal
  | backedUp hbefore hfinal hbackup => exact .backedUp hbefore hbackup (.inl hfinal)
  | installed _ _ hbackup hstaged =>
    by_cases hbefore : before = none
    · exact .fresh hbefore (hbackup.trans hbefore) hstaged
    · exact .backedUp hbefore hbackup (.inr hstaged)

theorem Live.backup (h : Live before new backedUp installed s) (hbackedUp : backedUp = true) :
    s .backup ≠ none := by
  cases h with
  | untouched => cases hbackedUp
  | backedUp hbefore _ hbackup => rwa [hbackup]
  | installed hflag _ hbackup =>
    rw [hbackup]
    exact Option.isSome_iff_ne_none.1 (hflag.symm.trans hbackedUp)

theorem Live.recorded (h : Live before new backedUp true s) : backedUp = before.isSome := by
  cases h with
  | installed hflag => exact hflag

/-- The flags in memory are exact, so a rollback puts the item back. -/
theorem Live.ready (h : Live before new backedUp installed s) :
    Ready before installed backedUp False s := by
  refine ⟨h.kept, fun hinstalled hbefore => ?_, fun hbackup => ?_, fun hbefore hfinal => ?_,
    fun _ hinstalled => ?_, fun hfalse => hfalse.elim⟩
  · subst hinstalled
    exact h.backup (h.recorded.trans (Option.isSome_iff_ne_none.2 hbefore))
  · cases h with
    | untouched _ hnone => exact absurd hnone hbackup
    | backedUp => rfl
    | installed hflag _ heq => exact hflag.trans (Option.isSome_iff_ne_none.2 (heq ▸ hbackup))
  · cases h with
    | untouched heq => exact absurd (heq.trans hbefore) hfinal
    | backedUp hne => exact absurd hbefore hne
    | installed => rfl
  · cases h with
    | untouched hfinal hbackup => exact absurd hbackup ‹_›
    | backedUp _ hfinal => exact hfinal
    | installed => cases hinstalled

theorem Live.backUp (h : Live before new false false s) (hfinal : s .final ≠ none) :
    Live before new true false (s.move .final .backup) := by
  cases h with
  | untouched heq _ hstaged => exact .backedUp (heq ▸ hfinal) rfl heq hstaged

theorem Live.moveIn (h : Live before new backedUp false s)
    (hbacked : before ≠ none → backedUp = true) :
    Live before new backedUp true (s.move .staged .final) := by
  cases h with
  | untouched hfinal hbackup hstaged =>
    have hbefore : before = none := by
      by_contra hne
      exact absurd (hbacked hne) (by decide)
    subst hbefore
    exact .installed rfl hstaged hbackup rfl
  | backedUp hbefore _ hbackup hstaged =>
    exact .installed (Option.isSome_iff_ne_none.2 hbefore).symm hstaged hbackup rfl

end Items

/-! ## Installations -/

namespace JoinInstallation

/-- Enter a phase. -/
def inPhase (j : JoinInstallation) (phase : Phase) : JoinInstallation := { j with phase }

/-- Record an item as backed up. -/
def markBackedUp (j : JoinInstallation) : Item → JoinInstallation
  | .certs => { j with certsBackedUp := true }
  | .config => { j with configBackedUp := true }

/-- Record an item as installed. -/
def markInstalled (j : JoinInstallation) : Item → JoinInstallation
  | .certs => { j with certsInstalled := true }
  | .config => { j with configInstalled := true, phase := .installed }

end JoinInstallation

/-- An installation under way: the flags in memory are exact, and the journal on
disk is one from which recovery can go on. -/
structure Running (root : String) (before : Item → Option (Node Document))
    (new : Item → Node Document) (j : JoinInstallation) (disk : JoinJournal) (l : Layout) :
    Prop where
  underway : Underway root before disk l
  accurate : ∀ item, disk.backedUp item = true → l.slot item .backup ≠ none
  belongs : j.Belongs root
  path : j.journalPath = [joinJournalFileName]
  phase : j.phase = .installing ∨ j.phase = .installed
  had : ∀ item, j.had item = (before item).isSome
  live : ∀ item, Live (before item) (new item) (j.backedUp item) (j.installed item) (l.slot item)

variable {j' : JoinInstallation}

section Installations

variable {root : String} {before : Item → Option (Node Document)} {new : Item → Node Document}
  {j : JoinInstallation} {disk : JoinJournal} {l : Layout}
variable {item : Item}

/-- What is known of a disk on which no rollback has begun. -/
def Forward (root : String) (before : Item → Option (Node Document)) (l : Layout) : Prop :=
  Interrupted root before l ∧ Accurate l

theorem Running.forward (h : Running root before new j disk l) : Forward root before l := by
  refine ⟨.underway disk h.underway, fun j' hj' => ?_⟩
  rw [h.underway.installation] at hj'
  cases hj'
  exact h.accurate

theorem Forward.not_stranded (h : Forward root before l) (item : Item) : ¬ Stranded l item := by
  rintro ⟨j, hj, hhad, hinstalled, hbackup⟩
  cases h.1 with
  | idle hnone => simp [Layout.installation, hnone] at hj
  | staged j' hjournal _ hphase => simp [Layout.installation, hjournal, hphase] at hj
  | underway j' hunder =>
    have haccurate := h.2 j hj item
    rw [hunder.installation] at hj
    cases hj
    exact haccurate (hunder.recorded item hinstalled hhad) hbackup

theorem Running.persist (h : Running root before new j disk l) :
    Running root before new j j.toJoinJournal (l.record j.toJoinJournal) := by
  refine { h with underway := ⟨rfl, h.belongs, h.phase, h.had, fun item hi hh => ?_, fun item =>
    (h.live item).kept⟩, accurate := fun item => (h.live item).backup }
  have hlive := h.live item
  rw [hi] at hlive
  rwa [hlive.recorded, ← h.had item]

/-- A move of one item, with the flags in memory set accordingly. -/
theorem Running.moved (h : Running root before new j disk l) {s : Slot}
    (hbackup : l.slot item .backup ≠ none → s .backup ≠ none)
    (hlive : Live (before item) (new item) (j'.backedUp item) (j'.installed item) s)
    (hsame : ∀ other, other ≠ item →
      j'.backedUp other = j.backedUp other ∧ j'.installed other = j.installed other)
    (hbelongs : j'.Belongs root) (hpath : j'.journalPath = j.journalPath)
    (hphase : j'.phase = .installing ∨ j'.phase = .installed)
    (hhad : ∀ item, j'.had item = j.had item) : Running root before new j' disk (l.put item s) := by
  have hall : ∀ other, Live (before other) (new other) (j'.backedUp other) (j'.installed other)
      ((l.put item s).slot other) := by
    intro other
    by_cases hne : other = item
    · subst hne
      rwa [Layout.put_slot]
    · rw [Layout.put_slot_of_ne _ _ hne, (hsame other hne).1, (hsame other hne).2]
      exact h.live other
  refine ⟨h.underway.moved rfl fun other => (hall other).kept, fun other hbackedUp => ?_, hbelongs,
    hpath.trans h.path, hphase, fun item => (hhad item).trans (h.had item), hall⟩
  by_cases hne : other = item
  · subst hne
    rw [Layout.put_slot]
    exact hbackup (h.accurate other hbackedUp)
  · rw [Layout.put_slot_of_ne _ _ hne]
    exact h.accurate other hbackedUp

theorem Running.backUp (h : Running root before new j disk l)
    (hflags : j.backedUp item = false ∧ j.installed item = false)
    (hfinal : l.slot item .final ≠ none) :
    Running root before new (j.markBackedUp item) disk
      (l.put item ((l.slot item).move .final .backup)) := by
  have hlive := h.live item
  rw [hflags.1, hflags.2] at hlive
  have hnext := hlive.backUp hfinal
  refine h.moved (fun _ => hnext.backup rfl) ?_ (fun other hne => ?_) ?_ ?_ ?_ fun other => ?_
  · cases item <;> (rw [← hflags.2] at hnext; exact hnext)
  · cases item <;> cases other <;> first | exact absurd rfl hne | exact ⟨rfl, rfl⟩
  · obtain ⟨h₁, h₂, h₃, h₄, h₅, h₆, h₇⟩ := h.belongs
    cases item <;> exact ⟨h₁, h₂, h₃, h₄, h₅, h₆, h₇⟩
  · cases item <;> rfl
  · cases item <;> exact h.phase
  · cases item <;> cases other <;> rfl

theorem Running.moveIn (h : Running root before new j disk l) (hflag : j.installed item = false)
    (hbacked : before item ≠ none → j.backedUp item = true) :
    Running root before new (j.markInstalled item) disk
      (l.put item ((l.slot item).move .staged .final)) := by
  have hlive := h.live item
  rw [hflag] at hlive
  have hnext := hlive.moveIn hbacked
  refine h.moved (fun hbackup => hbackup) ?_ (fun other hne => ?_) ?_ ?_ ?_ fun other => ?_
  · cases item <;> exact hnext
  · cases item <;> cases other <;> first | exact absurd rfl hne | exact ⟨rfl, rfl⟩
  · obtain ⟨h₁, h₂, h₃, h₄, h₅, h₆, h₇⟩ := h.belongs
    cases item <;> exact ⟨h₁, h₂, h₃, h₄, h₅, h₆, h₇⟩
  · cases item <;> rfl
  · cases item with
    | certs => exact h.phase
    | config => exact .inr rfl
  · cases item <;> cases other <;> rfl

theorem flags_of_backUp (h : j' = j.markBackedUp item ∨ j' = j) (other : Item) :
    j'.installed other = j.installed other ∧
      (other ≠ item → j'.backedUp other = j.backedUp other) := by
  obtain rfl | rfl := h
  · cases item <;> cases other <;>
      first | exact ⟨rfl, fun _ => rfl⟩ | exact ⟨rfl, fun hne => absurd rfl hne⟩
  · exact ⟨rfl, fun _ => rfl⟩

end Installations

/-! ## The programs -/

/-- A staged installation: nothing was moved, the new items wait. -/
structure Staged (root : String) (before : Item → Option (Node Document))
    (new : Item → Node Document) (j : JoinInstallation) (l : Layout) : Prop where
  journal : l.journal = some (.file (.journal j.toJoinJournal))
  belongs : j.Belongs root
  path : j.journalPath = [joinJournalFileName]
  phase : j.phase = .staged
  had : ∀ item, j.had item = (before item).isSome
  flags : ∀ item, j.backedUp item = false ∧ j.installed item = false
  final : ∀ item, l.slot item .final = before item
  backup : ∀ item, l.slot item .backup = none
  staged : ∀ item, l.slot item .staged = some (new item)

section Programs

variable {root : String} (hroot : Text.hasPrefix root ".join-txn-" = true)
  {before : Item → Option (Node Document)} {new : Item → Node Document}
  {j : JoinInstallation} {disk : JoinJournal} {d : Disk}
variable {l : Layout} {message : String}

theorem JoinJournal.Belongs.inPhase (h : j.Belongs root) (phase : Phase) :
    (j.inPhase phase).Belongs root :=
  ⟨h.rootPath, h.finalCerts, h.finalConfig, h.backupCerts, h.backupConfig, h.stagedCerts,
    h.stagedConfig⟩

theorem JoinInstallation.had_inPhase (j : JoinInstallation) (phase : Phase) (item : Item) :
    (j.inPhase phase).had item = j.had item := by
  cases item <;> rfl

theorem Staged.flags_inPhase (h : Staged root before new j l) (phase : Phase) (item : Item) :
    (j.inPhase phase).backedUp item = false ∧ (j.inPhase phase).installed item = false := by
  cases item with
  | certs => exact h.flags .certs
  | config => exact h.flags .config

theorem Staged.forward (h : Staged root before new j l) : Forward root before l := by
  refine ⟨.staged _ h.journal h.belongs h.phase h.final, fun j' hj' => ?_⟩
  simp [Layout.installation, h.journal, h.phase] at hj'

theorem Staged.begin (h : Staged root before new j l) :
    Running root before new (j.inPhase .installing) (j.inPhase .installing).toJoinJournal
      (l.record (j.inPhase .installing).toJoinJournal) := by
  have hbelongs : (j.inPhase .installing).Belongs root := h.belongs.inPhase _
  have hhad : ∀ item, (j.inPhase .installing).had item = (before item).isSome := fun item =>
    (j.had_inPhase _ item).trans (h.had item)
  have hflags := h.flags_inPhase .installing
  refine ⟨⟨rfl, hbelongs, .inl rfl, hhad, fun item hi => ?_, fun item =>
    .home (h.backup item) (h.final item)⟩, fun item hb => ?_, hbelongs, h.path, .inl rfl, hhad,
    fun item => ?_⟩
  · simp [(hflags item).2] at hi
  · simp [(hflags item).1] at hb
  · rw [(hflags item).1, (hflags item).2]
    exact .untouched (h.final item) (h.backup item) (h.staged item)

include hroot

/-- A move that was done is recorded, in memory and then on disk. -/
theorem Running.record (h : Running root before new j disk (layout root d.tree))
    (hdir : d.tree.IsDir) :
    SafeWithin root (Forward root before)
      (fun _ d' => d'.tree.IsDir ∧ ∃ disk', Running root before new j disk' (layout root d'.tree))
      (persistJournal j) d := by
  refine (persistJournal_spec hroot h.path ⟨hdir, h.forward⟩ h.persist.forward).mono ?_
  rintro err d' ⟨hwithin, ⟨-, hlayout⟩ | ⟨-, hlayout⟩⟩ <;> rw [hlayout]
  · exact ⟨hwithin.1, disk, h⟩
  · exact ⟨hwithin.1, _, h.persist⟩

/-- What `backUp` and `moveIn` have in common: one rename and its record. -/
theorem Running.rename {item : Item} {p q : Place} (hpq : p ≠ q)
    (h : Running root before new j disk (layout root d.tree)) (hdir : d.tree.IsDir)
    (hmoved : Running root before new j' disk
      ((layout root d.tree).put item (((layout root d.tree).slot item).move p q))) :
    SafeWithin root (Forward root before)
      (fun res d' => d'.tree.IsDir ∧
        (∃ disk', Running root before new res.1 disk' (layout root d'.tree)) ∧
        (res.1 = j' ∨ res.1 = j ∧ res.2 ≠ none))
      (perform (.rename (place root item p) (place root item q)) >>= fun err =>
        match err with
        | some err => pure (j, some (.wrapf message [] err))
        | none => persistJournal j' >>= fun err => pure (j', err)) d := by
  refine (safe_call (fun tree => tree.rename (place root item p) (place root item q))
    (fun _ => rfl) rfl ⟨hdir, h.forward⟩ hmoved.forward fun tree hrename =>
      layout_move hroot hpq hrename).then ?_
  rintro err d₁ ⟨-, ⟨hdir₁, -⟩, ⟨rfl, hlayout⟩ | ⟨⟨e, rfl⟩, -, htree⟩⟩
  · rw [← hlayout] at hmoved
    refine (hmoved.record hroot hdir₁).then fun err d₂ ⟨hdir₂, hrun₂⟩ => ?_
    exact safe_ret ⟨hdir₂, hrun₂, .inl rfl⟩
  · exact safe_ret ⟨hdir₁, ⟨disk, htree ▸ h⟩, .inr ⟨rfl, by simp⟩⟩

theorem backUp_spec (item : Item) (h : Running root before new j disk (layout root d.tree))
    (hdir : d.tree.IsDir) (hflags : j.backedUp item = false ∧ j.installed item = false) :
    SafeWithin root (Forward root before)
      (fun res d' => d'.tree.IsDir ∧
        (∃ disk', Running root before new res.1 disk' (layout root d'.tree)) ∧
        (res.1 = j.markBackedUp item ∨
          res.1 = j ∧ (res.2 = none → before item = none)))
      (backUp (place root item .final) (place root item .backup) message
        (fun j => j.markBackedUp item) j) d := by
  have hfinal : (layout root d.tree).slot item .final = before item := by
    have hlive := h.live item
    rw [hflags.1, hflags.2] at hlive
    cases hlive with
    | untouched hfinal => exact hfinal
  unfold backUp
  refine (pathExists_spec _ ⟨hdir, h.forward⟩).then fun res d₁ ⟨htree, hfound⟩ => ?_
  match res with
  | .error err =>
    exact safe_ret ⟨htree ▸ hdir, ⟨disk, htree ▸ h⟩, .inr ⟨rfl, fun hnone => nomatch hnone⟩⟩
  | .ok false =>
    refine safe_ret ⟨htree ▸ hdir, ⟨disk, htree ▸ h⟩, .inr ⟨rfl, fun _ => ?_⟩⟩
    rw [← hfinal]
    exact Option.isSome_eq_false_iff.1 (hfound false rfl).symm |> Option.isNone_iff_eq_none.1
  | .ok true =>
    rw [← htree] at h hdir hfinal hfound
    have hsome : (layout root d₁.tree).slot item .final ≠ none :=
      Option.isSome_iff_ne_none.1 (hfound true rfl).symm
    refine (Running.rename hroot (by decide) h hdir (h.backUp hflags hsome)).mono ?_
    rintro res d' ⟨hdir', hrun, hj | ⟨hj, herr⟩⟩
    · exact ⟨hdir', hrun, .inl hj⟩
    · exact ⟨hdir', hrun, .inr ⟨hj, fun hnone => absurd hnone herr⟩⟩

theorem moveIn_spec (item : Item) (h : Running root before new j disk (layout root d.tree))
    (hdir : d.tree.IsDir) (hflag : j.installed item = false)
    (hbacked : before item ≠ none → j.backedUp item = true) :
    SafeWithin root (Forward root before)
      (fun res d' => d'.tree.IsDir ∧
        (∃ disk', Running root before new res.1 disk' (layout root d'.tree)) ∧
        (res.1 = j.markInstalled item ∨ res.1 = j ∧ res.2 ≠ none))
      (moveIn (place root item .staged) (place root item .final) message
        (fun j => j.markInstalled item) j) d :=
  Running.rename hroot (by decide) h hdir (h.moveIn hflag hbacked)

/-- The moves of an installation; without an error, all of them are done. -/
theorem moveItems_spec (h : Running root before new j disk (layout root d.tree))
    (hdir : d.tree.IsDir)
    (hflags : ∀ item, j.backedUp item = false ∧ j.installed item = false) :
    SafeWithin root (Forward root before)
      (fun res d' => d'.tree.IsDir ∧
        (∃ disk', Running root before new res.1 disk' (layout root d'.tree)) ∧
        (res.2 = none → ∀ item, res.1.installed item = true))
      (moveItems j) d := by
  unfold moveItems
  rw [h.belongs.finalCerts, h.belongs.backupCerts]
  refine (backUp_spec hroot .certs h hdir (hflags .certs)).then ?_
  rintro ⟨j₁, err₁⟩ d₁ ⟨hdir₁, ⟨disk₁, hrun₁⟩, hj₁⟩
  cases err₁ with
  | some e => exact safe_ret ⟨hdir₁, ⟨disk₁, hrun₁⟩, fun hnone => nomatch hnone⟩
  | none =>
  have hstep₁ := flags_of_backUp (hj₁.imp id And.left)
  have hcerts : before .certs ≠ none → j₁.backedUp .certs = true := fun hne => by
    obtain rfl | ⟨-, hnone⟩ := hj₁
    · rfl
    · exact absurd (hnone rfl) hne
  have hconfig : j₁.backedUp .config = false ∧ j₁.installed .config = false :=
    ⟨((hstep₁ .config).2 (by decide)).trans (hflags .config).1,
      (hstep₁ .config).1.trans (hflags .config).2⟩
  dsimp only
  rw [hrun₁.belongs.finalConfig, hrun₁.belongs.backupConfig]
  refine (backUp_spec hroot .config hrun₁ hdir₁ hconfig).then ?_
  rintro ⟨j₂, err₂⟩ d₂ ⟨hdir₂, ⟨disk₂, hrun₂⟩, hj₂⟩
  cases err₂ with
  | some e => exact safe_ret ⟨hdir₂, ⟨disk₂, hrun₂⟩, fun hnone => nomatch hnone⟩
  | none =>
  have hstep₂ := flags_of_backUp (hj₂.imp id And.left)
  have hcerts₂ : before .certs ≠ none → j₂.backedUp .certs = true := fun hne =>
    ((hstep₂ .certs).2 (by decide)).trans (hcerts hne)
  have hconfig₂ : before .config ≠ none → j₂.backedUp .config = true := fun hne => by
    obtain rfl | ⟨-, hnone⟩ := hj₂
    · rfl
    · exact absurd (hnone rfl) hne
  have hnew₂ : ∀ item, j₂.installed item = false := fun item =>
    (hstep₂ item).1.trans ((hstep₁ item).1.trans (hflags item).2)
  dsimp only
  rw [hrun₂.belongs.stagedCerts, hrun₂.belongs.finalCerts]
  refine (moveIn_spec hroot .certs hrun₂ hdir₂ (hnew₂ .certs) hcerts₂).then ?_
  rintro ⟨j₃, err₃⟩ d₃ ⟨hdir₃, ⟨disk₃, hrun₃⟩, hj₃⟩
  cases err₃ with
  | some e => exact safe_ret ⟨hdir₃, ⟨disk₃, hrun₃⟩, fun hnone => nomatch hnone⟩
  | none =>
  obtain rfl : j₃ = j₂.markInstalled .certs := hj₃.resolve_right fun hfailed => hfailed.2 rfl
  dsimp only
  rw [hrun₃.belongs.stagedConfig, hrun₃.belongs.finalConfig]
  refine (moveIn_spec hroot .config hrun₃ hdir₃ (hnew₂ .config) hconfig₂).mono ?_
  rintro ⟨j₄, err₄⟩ d₄ ⟨hdir₄, hrun₄, hj₄⟩
  refine ⟨hdir₄, hrun₄, fun hnone item => ?_⟩
  obtain rfl : j₄ = _ := hj₄.resolve_right fun hfailed => hfailed.2 hnone
  cases item <;> rfl

/-- How `install` ends: it did not begin, or it is under way, and finished if
there is no error. -/
def Installed (root : String) (before : Item → Option (Node Document))
    (new : Item → Node Document) (j : JoinInstallation)
    (res : JoinInstallation × Option GoError) (d : Disk) : Prop :=
  d.tree.IsDir ∧
    ((res = (j.inPhase .installing, res.2) ∧ res.2 ≠ none ∧
        Staged root before new j (layout root d.tree)) ∨
      (∃ disk, Running root before new res.1 disk (layout root d.tree)) ∧
        (res.2 = none → ∀ item, res.1.installed item = true))

theorem install_spec (h : Staged root before new j (layout root d.tree)) (hdir : d.tree.IsDir) :
    SafeWithin root (Forward root before)
      (Installed root before new j) (install j) d := by
  unfold install
  have hpath : (j.inPhase .installing).journalPath = [joinJournalFileName] := h.path
  refine (persistJournal_spec hroot hpath ⟨hdir, h.forward⟩ h.begin.forward).then ?_
  rintro err d₁ ⟨hwithin₁, ⟨⟨e, rfl⟩, hlayout⟩ | ⟨rfl, hlayout⟩⟩
  · rw [← hlayout] at h
    exact safe_ret ⟨hwithin₁.1, .inl ⟨rfl, by simp, h⟩⟩
  have hrun₁ := h.begin
  rw [← hlayout] at hrun₁
  have hflags := h.flags_inPhase .installing
  have hparent : parent j.backupCerts = [root, "backup"] := by rw [h.belongs.backupCerts]; rfl
  have hmkdir := safe_call (e := .mkdirAll (parent j.backupCerts))
    (fun tree => ((tree.mkdirAll (parent j.backupCerts)).map Except.ok).getD (.error .notDir))
    (fun _ => rfl) rfl hwithin₁ hwithin₁.2 fun tree hop => by
      have hmade := mkdirAll_ok hop
      exact ⟨Node.isDir_mkdirAll hmade, layout_mkdirBackup hroot (hparent ▸ hmade)⟩
  refine hmkdir.then fun err d₂ ⟨_, ⟨hdir₂, _⟩, hdone⟩ => ?_
  have hlayout₂ : layout root d₂.tree = layout root d₁.tree := by
    rcases hdone with ⟨-, hsame⟩ | ⟨-, -, htree⟩
    · exact hsame
    · rw [htree]
  rw [← hlayout₂] at hrun₁
  cases err with
  | some e => exact safe_ret ⟨hdir₂, .inr ⟨⟨_, hrun₁⟩, fun hnone => nomatch hnone⟩⟩
  | none =>
    refine (moveItems_spec hroot hrun₁ hdir₂ hflags).mono ?_
    exact fun res d' hpost => ⟨hpost.1, .inr hpost.2⟩

end Programs

end Proxyma.Join
