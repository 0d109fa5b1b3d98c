import Proxyma.Join.Install

/-!
# Staging a join

`stageJoinInstallation` writes only below the transaction directory until it
writes the journal.  In between, the layout is a `stagingLayout`: no journal, the
items as they were, and whatever is staged so far.
-/

namespace Proxyma.Join

open FileTree Atomic Atomic.Prog

/-- The directory of certificates a join brings. -/
def Identity.certs (identity : Identity) : Node Document :=
  let entries := assign (assign [] "ca.crt" (.file (.bytes identity.caPEM)))
    (identity.nodeID ++ ".crt") (.file (.bytes identity.certPEM))
  .dir (if identity.keyPEM ≠ "" then
    assign entries (identity.nodeID ++ ".key") (.file (.bytes identity.keyPEM)) else entries)

/-- What a join brings. -/
def Identity.items (identity : Identity) : Item → Node Document
  | .certs => identity.certs
  | .config => .file (.bytes identity.cfg)

/-- No journal, nothing moved. -/
def stagingLayout (before staged : Item → Option (Node Document)) : Layout where
  journal := none
  slot := fun item p =>
    match p with
    | .final => before item
    | .backup => none
    | .staged => staged item

variable {content : Document} {entries : List (String × Node Document)}

section Effects

variable {root : String} (hroot : Text.hasPrefix root ".join-txn-" = true)
  {before staged : Item → Option (Node Document)} {tree tree' : Node Document}

theorem forward_stagingLayout : Forward root before (stagingLayout before staged) :=
  ⟨.idle rfl fun _ => rfl, fun _ hj => nomatch hj⟩

include hroot

theorem layout_mkdirTemp (hset : tree.set [root] (.dir []) = some tree')
    (hjournal : tree.get [joinJournalFileName] = none)
    (hbefore : ∀ item, tree.get (place root item .final) = before item) :
    layout root tree' = stagingLayout before fun _ => none := by
  have hapart : ∀ {q}, Apart [root] q → tree'.get q = tree.get q := Node.get_set_of_apart hset
  have hbelow : ∀ c rest, tree'.get (root :: c :: rest) = none := fun c rest => by
    rw [← List.singleton_append, Node.get_append, Node.get_set hset]
    rfl
  ext1
  · exact (hapart (apart_cons.2 (.inl (journal_ne_root hroot).symm))).trans hjournal
  funext item p
  cases p with
  | final =>
    exact (hapart (apart_cons.2 (.inl (name_ne_root hroot item).symm))).trans (hbefore item)
  | backup | staged => exact hbelow _ _

theorem layout_stage (h : layout root tree = stagingLayout before staged) (item : Item)
    (hothers : ∀ q, Apart (place root item .staged) q → tree'.get q = tree.get q)
    {value : Node Document} (hvalue : tree'.get (place root item .staged) = some value) :
    layout root tree' = stagingLayout before (Function.update staged item (some value)) := by
  ext1
  · exact (hothers _ (apart_journal hroot item .staged)).trans (congrArg Layout.journal h)
  funext other p
  by_cases hsame : other = item ∧ p = .staged
  · obtain ⟨rfl, rfl⟩ := hsame
    simpa [stagingLayout, layout] using hvalue
  have hget : (layout root tree').slot other p = (layout root tree).slot other p :=
    hothers _ (apart_place hroot (by grind))
  rw [hget, h]
  cases p with
  | final | backup => rfl
  | staged =>
    have hne : other ≠ item := fun heq => hsame ⟨heq, rfl⟩
    simp [stagingLayout, Function.update_of_ne hne]

theorem layout_mkdirStaged (h : layout root tree = stagingLayout before fun _ => none)
    (hmade : tree.mkdirAll (place root .certs .staged) = some tree') :
    layout root tree' =
      stagingLayout before (Function.update (fun _ => none) .certs (some (.dir []))) := by
  refine layout_stage hroot h .certs (fun q hq => Node.get_mkdirAll_of_apart hmade hq) ?_
  have hnone : tree.get (place root .certs .staged) = none :=
    congrArg (fun l : Layout => l.slot .certs .staged) h
  rw [Node.get_mkdirAll hmade, hnone]
  rfl

theorem layout_writePEM (h : layout root tree = stagingLayout before staged)
    (hstaged : staged .certs = some (.dir entries)) {name : String}
    (hwrite : tree.write (place root .certs .staged ++ [name]) content = .ok tree') :
    layout root tree' = stagingLayout before
      (Function.update staged .certs (some (.dir (assign entries name (.file content))))) := by
  obtain ⟨hset, hwritten⟩ := Node.write_ok (by simp) hwrite
  refine layout_stage hroot h .certs (fun q hq => hwritten.others q ?_) ?_
  · -- a path apart from the directory is apart from what is in it
    refine ⟨fun hbelow => hq.1 (List.IsPrefix.trans (List.prefix_append _ _) hbelow), fun habove => ?_⟩
    rcases List.prefix_concat_iff.1 habove with heq | hinside
    · exact hq.1 (heq ▸ List.prefix_append _ _)
    · exact hq.2 hinside
  · have hdir : tree.get (place root .certs .staged) = some (.dir entries) :=
      (congrArg (fun l : Layout => l.slot .certs .staged) h).trans hstaged
    exact Node.get_set_parent hset hdir

theorem layout_writeConfig (h : layout root tree = stagingLayout before staged)
    (hwrite : tree.write (place root .config .staged) content = .ok tree') :
    layout root tree' =
      stagingLayout before (Function.update staged .config (some (.file content))) := by
  obtain ⟨-, hwritten⟩ := Node.write_ok (place_ne_nil _ _) hwrite
  exact layout_stage hroot h .config hwritten.others hwritten.get

end Effects

/-! ## The programs -/

/-- The disk while a join is staged. -/
def Staging (root : String) (before staged : Item → Option (Node Document)) (d : Disk) : Prop :=
  d.tree.IsDir ∧ layout root d.tree = stagingLayout before staged

section Programs

variable {root : String} (hroot : Text.hasPrefix root ".join-txn-" = true)
  {before staged : Item → Option (Node Document)} {d : Disk}

theorem Staging.within (h : Staging root before staged d) :
    Within root (Forward root before) d.tree :=
  ⟨h.1, by rw [h.2]; exact forward_stagingLayout⟩

theorem Staging.look {d' : Disk} (h : Staging root before staged d) (hsame : d'.tree = d.tree) :
    Staging root before staged d' := by
  rwa [Staging, hsame]

/-- How a part of the staging ends: with more staged, or with an error. -/
def Stages (root : String) (before staged : Item → Option (Node Document)) (err : Option GoError)
    (d : Disk) : Prop :=
  ∃ staged', Staging root before staged' d ∧ (err = none → staged' = staged)

theorem Staging.call (h : Staging root before staged d) {e : Action (Option GoError)}
    (op : Node Document → Except Errno (Node Document))
    (he : ∀ d, attempt e d = d.update (op d.tree)) (hfailure : failure e = some ioError)
    {staged' : Item → Option (Node Document)}
    (hop : ∀ tree, op d.tree = .ok tree →
      tree.IsDir ∧ layout root tree = stagingLayout before staged') :
    SafeWithin root (Forward root before)
      (Stages root before staged') (perform e) d := by
  refine safe_update op he hfailure (fun tree hok => ?_) fun err _ => ?_
  · have hnext : Staging root before staged' ⟨tree, d.faults.tail⟩ := hop tree hok
    exact ⟨hnext.within, staged', hnext, fun _ => rfl⟩
  · exact ⟨h.within, staged, h, fun hnone => nomatch hnone⟩

include hroot

theorem writePEM_spec (h : Staging root before staged d)
    (hstaged : staged .certs = some (.dir entries)) (name : String) (content : Document) :
    SafeWithin root (Forward root before)
      (Stages root before
        (Function.update staged .certs (some (.dir (assign entries name (.file content))))))
      (perform (.write (place root .certs .staged ++ [name]) content)) d := by
  refine h.call (fun tree => tree.write (place root .certs .staged ++ [name]) content)
    (fun _ => rfl) rfl fun tree hwrite => ?_
  exact ⟨(Node.write_ok (by simp) hwrite).2.isDir, layout_writePEM hroot h.2 hstaged hwrite⟩

theorem writeNodePEMs_spec (identity : Identity)
    (h : Staging root before (Function.update staged .certs (some (.dir []))) d) :
    SafeWithin root (Forward root before)
      (Stages root before (Function.update staged .certs (some identity.certs)))
      (writeNodePEMs (caCertPath (place root .certs .staged))
        (nodeCertPath (place root .certs .staged) identity.nodeID)
        (nodeKeyPath (place root .certs .staged) identity.nodeID) identity.caPEM identity.certPEM
        identity.keyPEM) d := by
  unfold writeNodePEMs caCertPath nodeCertPath nodeKeyPath
  refine (writePEM_spec hroot h (Function.update_self ..) "ca.crt" (.bytes identity.caPEM)).then ?_
  rintro err₁ d₁ ⟨staged₁, h₁, hok₁⟩
  cases err₁ with
  | some e => exact safe_ret ⟨staged₁, h₁, fun hnone => nomatch hnone⟩
  | none =>
  obtain rfl := hok₁ rfl
  refine (writePEM_spec hroot h₁ (Function.update_self ..) _ (.bytes identity.certPEM)).then ?_
  rintro err₂ d₂ ⟨staged₂, h₂, hok₂⟩
  cases err₂ with
  | some e => exact safe_ret ⟨staged₂, h₂, fun hnone => nomatch hnone⟩
  | none =>
  obtain rfl := hok₂ rfl
  simp only [Function.update_idem] at h₂ ⊢
  by_cases hkey : identity.keyPEM = ""
  · rw [if_neg (by simpa using hkey)]
    refine safe_ret ⟨_, h₂, fun _ => ?_⟩
    simp [Identity.certs, hkey]
  · rw [if_pos hkey]
    refine (writePEM_spec hroot h₂ (Function.update_self ..) _ (.bytes identity.keyPEM)).mono ?_
    rintro err₃ d₃ ⟨staged₃, h₃, hok₃⟩
    refine ⟨staged₃, h₃, fun hnone => ?_⟩
    rw [hok₃ hnone]
    simp [Identity.certs, hkey]

theorem stageFiles_spec (identity : Identity) {j : JoinInstallation} (hj : j.Belongs root)
    (h : Staging root before (fun _ => none) d) :
    SafeWithin root (Forward root before)
      (Stages root before fun item => some (identity.items item)) (stageFiles j identity) d := by
  have hitems : (fun item => some (identity.items item)) =
      Function.update (Function.update (fun _ => none) .certs (some identity.certs)) .config
        (some (.file (.bytes identity.cfg))) := by
    funext item
    cases item <;> rfl
  rw [hitems]
  unfold stageFiles
  rw [hj.stagedCerts, hj.stagedConfig]
  have hmkdir : SafeWithin root (Forward root before)
      (Stages root before (Function.update (fun _ => none) .certs (some (.dir []))))
      (perform (.mkdirAll (place root .certs .staged))) d := by
    refine h.call (fun tree => ((tree.mkdirAll (place root .certs .staged)).map Except.ok).getD
      (.error .notDir)) (fun _ => rfl) rfl fun tree hop => ?_
    have hmade := mkdirAll_ok hop
    exact ⟨Node.isDir_mkdirAll hmade, layout_mkdirStaged hroot h.2 hmade⟩
  refine hmkdir.then ?_
  rintro err₁ d₁ ⟨staged₁, h₁, hok₁⟩
  cases err₁ with
  | some e => exact safe_ret ⟨staged₁, h₁, fun hnone => nomatch hnone⟩
  | none =>
  obtain rfl := hok₁ rfl
  refine (writeNodePEMs_spec hroot identity h₁).then ?_
  rintro err₂ d₂ ⟨staged₂, h₂, hok₂⟩
  cases err₂ with
  | some e => exact safe_ret ⟨staged₂, h₂, fun hnone => nomatch hnone⟩
  | none =>
  obtain rfl := hok₂ rfl
  have hwrite := h₂.call
    (fun tree => tree.write (place root .config .staged) (.bytes identity.cfg))
    (e := .write (place root .config .staged) (.bytes identity.cfg)) (fun _ => rfl) rfl
    fun tree hwrite => ⟨(Node.write_ok (place_ne_nil _ _) hwrite).2.isDir,
      layout_writeConfig hroot h₂.2 hwrite⟩
  refine hwrite.then ?_
  rintro err₃ d₃ ⟨staged₃, h₃, hok₃⟩
  cases err₃ with
  | some e => exact safe_ret ⟨staged₃, h₃, fun hnone => nomatch hnone⟩
  | none =>
  obtain rfl := hok₃ rfl
  refine (safe_look (only_syncStaged _) h₃.within).then fun err₄ d₄ hsame₄ => ?_
  have h₄ := h₃.look hsame₄.1
  cases err₄ with
  | some e => exact safe_ret ⟨_, h₄, fun hnone => nomatch hnone⟩
  | none =>
    refine (safe_look (only_syncDir _) h₄.within).mono fun err₅ d₅ hsame₅ => ?_
    exact ⟨_, h₄.look hsame₅.1, fun _ => rfl⟩

/-- How the staging ends: with a journal and all items staged, or with an error. -/
def StageResult (root : String) (before : Item → Option (Node Document)) (identity : Identity)
    (res : Except GoError JoinInstallation) (d : Disk) : Prop :=
  match res with
  | .ok j => d.tree.IsDir ∧ Staged root before identity.items j (layout root d.tree)
  | .error _ => ∃ staged, Staging root before staged d

omit hroot in
theorem belongs_newInstallation (hadCerts hadConfig : Bool) :
    JoinJournal.Belongs root { newInstallation [root] with hadCerts, hadConfig } :=
  ⟨rfl, rfl, rfl, rfl, rfl, rfl, rfl⟩

/-- Writing the first journal makes the installation a staged one. -/
theorem persistStaged_spec (identity : Identity) {hadCerts hadConfig : Bool}
    (hhad : hadCerts = (before .certs).isSome ∧ hadConfig = (before .config).isSome)
    (h : Staging root before (fun item => some (identity.items item)) d) :
    SafeWithin root (Forward root before)
      (fun err d' => match err with
        | none => StageResult root before identity
            (.ok { newInstallation [root] with hadCerts, hadConfig }) d'
        | some _ => ∃ staged, Staging root before staged d')
      (persistJournal { newInstallation [root] with hadCerts, hadConfig }) d := by
  have hstaged : Staged root before identity.items { newInstallation [root] with hadCerts, hadConfig }
      ((layout root d.tree).record
        { newInstallation [root] with hadCerts, hadConfig }.toJoinJournal) := by
    refine ⟨rfl, belongs_newInstallation _ _, rfl, rfl, fun item => ?_, fun item => ?_, fun item => ?_,
      fun item => ?_, fun item => ?_⟩
    · cases item with
      | certs => exact hhad.1
      | config => exact hhad.2
    · cases item <;> exact ⟨rfl, rfl⟩
    all_goals rw [h.2]; rfl
  refine (persistJournal_spec hroot rfl h.within hstaged.forward).mono ?_
  rintro err d' ⟨hwithin, ⟨⟨e, rfl⟩, hlayout⟩ | ⟨rfl, hlayout⟩⟩
  · exact ⟨_, hwithin.1, hlayout.trans h.2⟩
  · exact ⟨hwithin.1, hlayout ▸ hstaged⟩

theorem stageTransaction_spec (identity : Identity) (h : Staging root before (fun _ => none) d) :
    SafeWithin root (Forward root before)
      (StageResult root before identity) (stageTransaction [root] identity) d := by
  have hfinal : ∀ item, d.tree.get (place root item .final) = before item := fun item =>
    congrArg (fun l : Layout => l.slot item .final) h.2
  unfold stageTransaction
  refine (pathExists_spec (place root .certs .final) h.within).then ?_
  rintro res₁ d₁ ⟨htree₁, hfound₁⟩
  have h₁ := h.look htree₁
  cases res₁ with
  | error err => exact safe_ret ⟨_, h₁⟩
  | ok hadCerts =>
  refine (pathExists_spec (place root .config .final) h₁.within).then ?_
  rintro res₂ d₂ ⟨htree₂, hfound₂⟩
  have h₂ := h₁.look htree₂
  cases res₂ with
  | error err => exact safe_ret ⟨_, h₂⟩
  | ok hadConfig =>
  have hhad : hadCerts = (before .certs).isSome ∧ hadConfig = (before .config).isSome := by
    refine ⟨(hfound₁ _ rfl).trans (by rw [hfinal]), (hfound₂ _ rfl).trans ?_⟩
    rw [htree₁, hfinal]
  refine (stageFiles_spec hroot identity (belongs_newInstallation hadCerts hadConfig) h₂).then ?_
  rintro err₃ d₃ ⟨staged₃, h₃, hok₃⟩
  cases err₃ with
  | some e => exact safe_ret ⟨staged₃, h₃⟩
  | none =>
  obtain rfl := hok₃ rfl
  refine (persistStaged_spec hroot identity hhad h₃).then fun err₄ d₄ hpost => ?_
  cases err₄ with
  | some _ | none => exact safe_ret hpost

end Programs

/-- Before a join: nothing was staged, and there is no journal. -/
theorem forward_idle {root : String} {tree : Node Document}
    (hjournal : tree.get [joinJournalFileName] = none) :
    Forward root (fun item => tree.get [item.name]) (layout root tree) := by
  refine ⟨.idle hjournal fun _ => rfl, fun j hj => ?_⟩
  have hnone : (layout root tree).journal = none := hjournal
  simp [Layout.installation, hnone] at hj

theorem stageJoinInstallation_spec (suffix : String) (identity : Identity) {tree : Node Document}
    (hdir : tree.IsDir) (hjournal : tree.get [joinJournalFileName] = none) (faults : List Bool) :
    SafeWithin (transactionName suffix)
        (Forward (transactionName suffix) fun item => tree.get [item.name])
      (fun res d => ∀ j, res = .ok j → d.tree.IsDir ∧
        Staged (transactionName suffix) (fun item => tree.get [item.name]) identity.items j
          (layout (transactionName suffix) d.tree))
      (stageJoinInstallation suffix identity) ⟨tree, faults⟩ := by
  have hroot := hasPrefix_transactionName suffix
  unfold stageJoinInstallation
  generalize transactionName suffix = root at hroot ⊢
  have hwithin : Within root (Forward root fun item => tree.get [item.name]) tree :=
    ⟨hdir, forward_idle hjournal⟩
  have hstorage : SafeWithin root
      (Forward root fun item => tree.get [item.name]) (fun _ d => d.tree = tree)
      (perform (.mkdirAll [])) ⟨tree, faults⟩ := by
    refine safe_update (fun tree => ((tree.mkdirAll []).map Except.ok).getD (.error .notDir))
      (fun _ => rfl) rfl (fun made hop => ?_) fun _ _ => ⟨hwithin, rfl⟩
    match tree, hdir with
    | .dir entries, _ =>
      cases hop
      exact ⟨hwithin, rfl⟩
  refine hstorage.then fun err₁ d₁ htree₁ => ?_
  cases err₁ with
  | some e => exact safe_ret fun j hj => nomatch hj
  | none =>
  have hmkdir : SafeWithin root
      (Forward root fun item => tree.get [item.name])
      (fun err d => err = none → Staging root (fun item => tree.get [item.name]) (fun _ => none) d)
      (perform (.mkdirTemp root)) d₁ := by
    refine safe_update (fun tree => tree.mkdir [root]) (fun _ => rfl) rfl (fun made hop => ?_)
      fun _ _ => ⟨by rwa [htree₁], fun hnone => nomatch hnone⟩
    rw [htree₁] at hop
    have hset := Node.mkdir_ok hop
    have hstaging : Staging root (fun item => tree.get [item.name]) (fun _ => none)
        ⟨made, d₁.faults.tail⟩ :=
      ⟨Node.isDir_set (by simp) hset, layout_mkdirTemp hroot hset hjournal fun _ => rfl⟩
    exact ⟨hstaging.within, fun _ => hstaging⟩
  refine hmkdir.then fun err₂ d₂ hstaging => ?_
  cases err₂ with
  | some e => exact safe_ret fun j hj => nomatch hj
  | none =>
  refine (stageTransaction_spec hroot identity (hstaging rfl)).then fun res₃ d₃ hres => ?_
  cases res₃ with
  | ok j =>
    refine safe_ret fun j' hj' => ?_
    cases hj'
    exact hres
  | error err =>
    -- the transaction directory goes again, or stays behind without a journal
    obtain ⟨staged, h₃⟩ := hres
    refine (safe_call (l := stagingLayout _ fun _ => none) (fun tree => .ok (tree.removeAll [root]))
      (fun _ => rfl) rfl h₃.within forward_stagingLayout ?_).then fun _ _ _ =>
        safe_ret fun j hj => nomatch hj
    rintro removed ⟨⟩
    refine ⟨Node.isDir_removeAll h₃.1, ?_⟩
    rw [layout_removeRoot hroot, h₃.2]
    refine Layout.ext rfl (funext fun item => funext fun p => ?_)
    cases p <;> rfl

end Proxyma.Join
