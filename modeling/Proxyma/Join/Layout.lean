import Proxyma.Join.Installation

/-!
# What a join moves around

A join has two items, the certificates and the configuration.  Each has three
places: where the node reads it, where the old one is kept and where the new one
waits.  The `layout` of a storage directory is its journal and what is in these
six places, and everything a join does after staging is said in terms of it: a
call moves an item from one place to another, clears a place, or replaces the
journal.
-/

namespace Proxyma.Join

open FileTree Atomic Atomic.Prog

/-- What a join replaces. -/
inductive Item
  | certs
  | config
  deriving DecidableEq, Repr

instance : Fintype Item := ⟨{.certs, .config}, fun item => by cases item <;> decide⟩

/-- Where an item can be. -/
inductive Place
  | final
  | backup
  | staged
  deriving DecidableEq, Repr

def Item.name : Item → String
  | certs => "certs"
  | config => "config.json"

/-- The path of a place, for a transaction directory. -/
def place (root : String) (item : Item) : Place → Path
  | .final => [item.name]
  | .backup => [root, "backup", item.name]
  | .staged => [root, "state", item.name]

/-- What is in the places of one item. -/
abbrev Slot := Place → Option (Node Document)

/-- The journal and what is in the places of both items. -/
@[ext] structure Layout where
  journal : Option (Node Document)
  slot : Item → Slot

def layout (root : String) (tree : Node Document) : Layout where
  journal := tree.get [joinJournalFileName]
  slot := fun item p => tree.get (place root item p)

namespace Slot

/-- Empty a place. -/
def clear (s : Slot) (p : Place) : Slot := fun x => if x = p then none else s x

/-- Move an item to another of its places. -/
def move (s : Slot) (p q : Place) : Slot :=
  fun x => if x = p then none else if x = q then s p else s x

end Slot

namespace Layout

/-- Replace what is in the places of an item. -/
def put (l : Layout) (item : Item) (s : Slot) : Layout :=
  { l with slot := fun x => if x = item then s else l.slot x }

/-- Replace the journal. -/
def record (l : Layout) (j : JoinJournal) : Layout :=
  { l with journal := some (.file (.journal j)) }

@[simp] theorem put_slot (l : Layout) (item : Item) (s : Slot) :
    (l.put item s).slot item = s := by
  simp [put]

theorem put_slot_of_ne (l : Layout) {item other : Item} (s : Slot) (h : other ≠ item) :
    (l.put item s).slot other = l.slot other := by
  simp [put, h]

theorem put_self (l : Layout) (item : Item) : l.put item (l.slot item) = l := by
  refine Layout.ext rfl (funext fun other => ?_)
  by_cases h : other = item
  · rw [h, put_slot]
  · exact l.put_slot_of_ne _ h

end Layout

/-! ## The paths -/

section Paths

variable {root : String} (hroot : Text.hasPrefix root ".join-txn-" = true)
variable {item : Item} {p : Place}

theorem hasPrefix_transactionName (suffix : String) :
    Text.hasPrefix (transactionName suffix) ".join-txn-" = true :=
  Text.hasPrefix_append _ _

include hroot

theorem name_ne_root (item : Item) : item.name ≠ root := by
  rintro rfl
  cases item <;> exact absurd hroot (by decide)

theorem journal_ne_root : joinJournalFileName ≠ root := by
  rintro rfl
  exact absurd hroot (by decide)

theorem apart_place {other : Item} {q : Place} (h : item ≠ other ∨ p ≠ q) :
    Apart (place root item p) (place root other q) := by
  have hitem : item ≠ other → item.name ≠ other.name := by
    cases item <;> cases other <;> decide
  have hname := name_ne_root hroot
  have hsymm : ∀ item : Item, root ≠ item.name := fun item => (hname item).symm
  cases p <;> cases q <;> simp_all [place, apart_cons]

theorem apart_journal (item : Item) (p : Place) :
    Apart (place root item p) [joinJournalFileName] := by
  have hroot' := journal_ne_root hroot
  cases p with
  | final => cases item <;> simp [place, apart_cons, Item.name, joinJournalFileName]
  | backup | staged => exact apart_cons.2 (.inl hroot'.symm)

omit hroot in
theorem place_ne_nil (item : Item) (p : Place) : place root item p ≠ [] := by
  cases p <;> simp [place]

/-! ## What the calls do to the layout -/

variable {tree tree' : Node Document}

theorem layout_clear (item : Item) (p : Place) :
    layout root (tree.removeAll (place root item p)) =
      (layout root tree).put item (((layout root tree).slot item).clear p) := by
  have hplace : place root item p ≠ [] := place_ne_nil item p
  have hremoved := Node.removed_removeAll hplace tree
  ext1
  · exact hremoved.others _ (apart_journal hroot item p)
  funext other q
  by_cases hsame : other = item ∧ q = p
  · obtain ⟨rfl, rfl⟩ := hsame
    simpa [layout, Slot.clear] using hremoved.gone []
  have hget := hremoved.others (place root other q) (apart_place hroot (by grind))
  by_cases hitem : other = item
  · subst hitem
    simp_all [layout, Slot.clear]
  · rwa [Layout.put_slot_of_ne _ _ hitem]

theorem layout_move {q : Place} (hpq : p ≠ q)
    (h : tree.rename (place root item p) (place root item q) = .ok tree') :
    tree'.IsDir ∧ layout root tree' =
      (layout root tree).put item (((layout root tree).slot item).move p q) := by
  have hrenamed := Node.rename_ok (place_ne_nil item p) (place_ne_nil item q)
    (apart_place hroot (.inr hpq)) h
  refine ⟨hrenamed.isDir, Layout.ext ?_ ?_⟩
  · exact hrenamed.others _ (apart_journal hroot item p) (apart_journal hroot item q)
  funext other x
  by_cases hitem : other = item
  · subst hitem
    by_cases hp : x = p
    · subst hp
      simpa [layout, Slot.move] using hrenamed.gone
    by_cases hq : x = q
    · subst hq
      simpa [layout, Slot.move, hp] using hrenamed.moved
    · simpa [layout, Slot.move, hp, hq] using hrenamed.others (place root other x)
        (apart_place hroot (.inr (Ne.symm hp))) (apart_place hroot (.inr (Ne.symm hq)))
  · rw [Layout.put_slot_of_ne _ _ hitem]
    exact hrenamed.others _ (apart_place hroot (.inl (Ne.symm hitem)))
      (apart_place hroot (.inl (Ne.symm hitem)))

/-- An item can be moved to where the node reads it if nothing is there. -/
theorem move_final (hdir : tree.IsDir) (hp : p ≠ .final)
    (hvalue : (layout root tree).slot item p ≠ none)
    (hfree : (layout root tree).slot item .final = none) :
    ∃ tree', tree.rename (place root item p) (place root item .final) = .ok tree' := by
  obtain ⟨value, hvalue⟩ := Option.ne_none_iff_exists'.1 hvalue
  exact Node.rename_free (apart_place hroot (.inr hp)) hdir hvalue hfree

theorem layout_record {j : JoinJournal}
    (h : tree.write [joinJournalFileName] (.journal j) = .ok tree') :
    tree'.IsDir ∧ layout root tree' = (layout root tree).record j := by
  obtain ⟨-, hwritten⟩ := Node.write_ok (by simp) h
  refine ⟨hwritten.isDir, Layout.ext hwritten.get ?_⟩
  funext item p
  exact hwritten.others _ (apart_journal hroot item p).symm

/-- Removing the transaction directory empties the places in it. -/
theorem layout_removeRoot :
    layout root (tree.removeAll [root]) =
      { layout root tree with
        slot := fun item p => if p = .final then (layout root tree).slot item p else none } := by
  have hremoved := Node.removed_removeAll (p := [root]) (by simp) tree
  ext1
  · exact hremoved.others _ (apart_cons.2 (.inl (journal_ne_root hroot).symm))
  funext item p
  cases p with
  | final =>
    exact hremoved.others _ (apart_cons.2 (.inl (name_ne_root hroot item).symm))
  | backup => exact hremoved.gone ["backup", item.name]
  | staged => exact hremoved.gone ["state", item.name]

theorem layout_removeJournal :
    layout root (tree.removeAll [joinJournalFileName]) =
      { layout root tree with journal := none } := by
  have hremoved := Node.removed_removeAll (p := [joinJournalFileName]) (by simp) tree
  ext1
  · exact hremoved.gone []
  · funext item p
    exact hremoved.others _ (apart_journal hroot item p).symm

/-- Creating the backup directory leaves everything else alone. -/
theorem layout_mkdirBackup (h : tree.mkdirAll [root, "backup"] = some tree') :
    layout root tree' = layout root tree := by
  have hapart : ∀ {q}, Apart [root, "backup"] q → tree'.get q = tree.get q :=
    Node.get_mkdirAll_of_apart h
  ext1
  · exact hapart (apart_cons.2 (.inl (journal_ne_root hroot).symm))
  funext item p
  cases p with
  | final => exact hapart (apart_cons.2 (.inl (name_ne_root hroot item).symm))
  | backup => exact Node.get_mkdirAll_below h (q := [item.name]) (by simp)
  | staged => exact hapart (by simp [place, apart_cons])

end Paths

/-! ## Calls that may fail -/

theorem exec_cases {β : Type} (e : Action β) (d : Disk) :
    (d.faults ≠ [] ∧ files.exec e d = (failure e, ⟨d.tree, d.faults.tail⟩)) ∨
      files.exec e d = attempt e ⟨d.tree, d.faults.tail⟩ := by
  obtain ⟨tree, faults⟩ := d
  match faults with
  | [] => exact .inr rfl
  | true :: rest => exact .inl ⟨by simp, rfl⟩
  | false :: rest => exact .inr rfl

section Calls

variable {α : Type} {inv : Disk → Prop}
variable {d : Disk} {I : Node Document → Prop}

/-- A call that replaces the tree by the result of an operation.  It can fail
because of the operation or because of a fault. -/
theorem safe_update {e : Action (Option GoError)} {post : Option GoError → Disk → Prop}
    (op : Node Document → Except Errno (Node Document))
    (he : ∀ d, attempt e d = d.update (op d.tree)) (hfailure : failure e = some ioError)
    (hok : ∀ tree, op d.tree = .ok tree →
      inv ⟨tree, d.faults.tail⟩ ∧ post none ⟨tree, d.faults.tail⟩)
    (hfail : ∀ err, (d.faults = [] → ∃ errno, op d.tree = .error errno) →
      inv ⟨d.tree, d.faults.tail⟩ ∧ post (some err) ⟨d.tree, d.faults.tail⟩) :
    Safe files (Contract.alone inv) post (perform e) d := by
  rcases exec_cases e d with ⟨hfaults, hexec⟩ | hexec
  · rw [hfailure] at hexec
    obtain ⟨hinv, hpost⟩ := hfail ioError fun h => absurd h hfaults
    exact safe_perform (by rwa [hexec]) (by rwa [hexec])
  · rw [he] at hexec
    cases hop : op d.tree with
    | ok tree =>
      simp only [hop, Disk.update] at hexec
      obtain ⟨hinv, hpost⟩ := hok tree hop
      exact safe_perform (by rwa [hexec]) (by rwa [hexec])
    | error errno =>
      simp only [hop, Disk.update] at hexec
      obtain ⟨hinv, hpost⟩ := hfail (osError errno) fun _ => ⟨errno, hop⟩
      exact safe_perform (by rwa [hexec]) (by rwa [hexec])

theorem mkdirAll_ok {tree tree' : Node Document} {path : Path}
    (h : ((tree.mkdirAll path).map Except.ok).getD (.error Errno.notDir) = .ok tree') :
    tree.mkdirAll path = some tree' := by
  cases hmade : tree.mkdirAll path with
  | none => simp [hmade] at h
  | some made => simpa [hmade] using h

/-- The tree is left alone, and no faults come up. -/
def SameTree (d d' : Disk) : Prop := d'.tree = d.tree ∧ (d.faults = [] → d'.faults = [])

theorem SameTree.refl (d : Disk) : SameTree d d := ⟨rfl, id⟩

theorem SameTree.trans {a b c : Disk} (h : SameTree a b) (h' : SameTree b c) : SameTree a c :=
  ⟨h'.1.trans h.1, fun ha => h'.2 (h.2 ha)⟩

theorem exec_sameTree {β : Type} {e : Action β} (he : ∀ d, (attempt e d).2 = d) (d : Disk) :
    SameTree d (files.exec e d).2 := by
  rcases exec_cases e d with ⟨hfaults, hexec⟩ | hexec
  · rw [hexec]
    exact ⟨rfl, fun h => absurd h hfaults⟩
  · rw [hexec, he]
    exact ⟨rfl, fun h => by simp [h]⟩

theorem only_pathExists (path : Path) : Only files SameTree (pathExists path) := by
  refine (only_perform (exec_sameTree fun _ => rfl)).bind fun res => ?_
  cases res <;> trivial

theorem only_syncDir (path : Path) : Only files SameTree (syncDir path) := by
  refine (only_perform (exec_sameTree fun _ => rfl)).bind fun res => ?_
  cases res <;> trivial

/-- Syncing a directory that is there succeeds if there is no fault. -/
theorem syncDir_spec (path : Path) (hd : I d.tree) :
    Safe files (Contract.alone fun d => I d.tree)
      (fun err d' => SameTree d d' ∧
        (d.faults = [] → (d.tree.get path).isSome = true → err = none)) (syncDir path) d := by
  have hsame : SameTree d (files.exec (.sync path) d).2 := exec_sameTree (fun _ => rfl) d
  have hsync : Safe files (Contract.alone fun d => I d.tree)
      (fun err d' => SameTree d d' ∧ (d.faults = [] → (d.tree.get path).isSome = true → err = none))
      (perform (.sync path)) d := by
    refine safe_perform (by rwa [hsame.1]) ⟨hsame, fun hfaults hpath => ?_⟩
    rcases exec_cases (.sync path) d with ⟨hne, -⟩ | hexec
    · exact absurd hfaults hne
    · rw [hexec]
      simp [attempt, hpath]
  refine hsync.then fun err d' hpost => ?_
  cases err with
  | none => exact safe_ret hpost
  | some err => exact safe_ret ⟨hpost.1, fun hfaults hpath => nomatch hpost.2 hfaults hpath⟩

theorem only_syncExisting (dirs : List Path) : Only files SameTree (syncExisting dirs) := by
  induction dirs with
  | nil => trivial
  | cons dir rest ih =>
    refine (only_pathExists dir).bind fun res => ?_
    split
    · refine (only_syncDir dir).bind fun err => ?_
      cases err with
      | none => exact ih
      | some err => trivial
    · exact ih

theorem only_syncStaged (paths : List Path) : Only files SameTree (syncStaged paths) := by
  induction paths with
  | nil => trivial
  | cons path rest ih =>
    refine (only_perform (exec_sameTree fun _ => rfl)).bind fun err => ?_
    cases err with
    | none => exact ih
    | some err => trivial

/-- A program that only looks keeps whatever is said about the tree. -/
theorem safe_look {p : Prog Action α} (hp : Only files SameTree p) (hd : I d.tree) :
    Safe files (Contract.alone fun d => I d.tree) (fun _ d' => SameTree d d') p d :=
  hp.safe SameTree.refl SameTree.trans fun d' hsame => by rwa [hsame.1]

theorem pathExists_spec (path : Path) (hd : I d.tree) :
    Safe files (Contract.alone fun d => I d.tree)
      (fun res d' => d'.tree = d.tree ∧ ∀ found, res = .ok found →
        found = (d.tree.get path).isSome) (pathExists path) d := by
  have hsame : SameTree d (files.exec (.stat path) d).2 := exec_sameTree (fun _ => rfl) d
  have hstat : Safe files (Contract.alone fun d => I d.tree)
      (fun res d' => d'.tree = d.tree ∧ ∀ found, res = .ok found →
        found = (d.tree.get path).isSome) (perform (.stat path)) d := by
    refine safe_perform (by rwa [hsame.1]) ⟨hsame.1, fun found hfound => ?_⟩
    rcases exec_cases (.stat path) d with ⟨-, hexec⟩ | hexec
    · rw [hexec] at hfound
      cases hfound
    · rw [hexec] at hfound
      cases hfound
      rfl
  refine hstat.then fun res d' hpost => ?_
  cases res with
  | ok found => exact safe_ret ⟨hpost.1, hpost.2⟩
  | error err => exact safe_ret ⟨hpost.1, fun found hfound => nomatch hfound⟩

end Calls

/-- The storage directory has a layout of which something holds. -/
def Within (root : String) (I : Layout → Prop) (tree : Node Document) : Prop :=
  tree.IsDir ∧ I (layout root tree)

/-- A program that keeps to such layouts. -/
abbrev SafeWithin {α : Type} (root : String) (I : Layout → Prop) (post : α → Disk → Prop)
    (p : Prog Action α) (d : Disk) : Prop :=
  Safe files (Contract.alone fun d => Within root I d.tree) post p d

/-- A call that replaces the layout by another one, or fails and changes nothing. -/
theorem safe_call {root : String} {I : Layout → Prop} {d : Disk} {e : Action (Option GoError)}
    {l : Layout} (op : Node Document → Except Errno (Node Document))
    (he : ∀ d, attempt e d = d.update (op d.tree)) (hfailure : failure e = some ioError)
    (hd : Within root I d.tree) (hI : I l)
    (hop : ∀ tree, op d.tree = .ok tree → tree.IsDir ∧ layout root tree = l) :
    SafeWithin root I
      (fun err d' => d'.faults = d.faults.tail ∧ Within root I d'.tree ∧
        ((err = none ∧ layout root d'.tree = l) ∨
          ((∃ e, err = some e) ∧ (d.faults = [] → ∃ errno, op d.tree = .error errno) ∧
            d'.tree = d.tree))) (perform e) d := by
  refine safe_update op he hfailure (fun tree hok => ?_) fun err hreason =>
    ⟨hd, rfl, hd, .inr ⟨⟨err, rfl⟩, hreason, rfl⟩⟩
  obtain ⟨hdir, hlayout⟩ := hop tree hok
  have hwithin : Within root I tree := ⟨hdir, hlayout ▸ hI⟩
  exact ⟨hwithin, rfl, hwithin, .inl ⟨rfl, hlayout⟩⟩

/-- Writing the journal fails and changes nothing, or it is done. -/
theorem persistJournal_spec {root : String} (hroot : Text.hasPrefix root ".join-txn-" = true)
    {I : Layout → Prop} {j : JoinInstallation} (hpath : j.journalPath = [joinJournalFileName])
    {d : Disk} (hd : Within root I d.tree)
    (hI : I ((layout root d.tree).record j.toJoinJournal)) :
    SafeWithin root I
      (fun err d' => Within root I d'.tree ∧
        (((∃ e, err = some e) ∧ layout root d'.tree = layout root d.tree) ∨
          (err = none ∧ layout root d'.tree = (layout root d.tree).record j.toJoinJournal)))
      (persistJournal j) d := by
  unfold persistJournal
  refine (safe_look (only_syncExisting _) hd).then fun err d₁ hsame => ?_
  have hd₁ : Within root I d₁.tree := by rwa [hsame.1]
  cases err with
  | some e => exact safe_ret ⟨hd₁, .inl ⟨⟨e, rfl⟩, by rw [hsame.1]⟩⟩
  | none =>
    rw [← hsame.1] at hI ⊢
    rw [hpath]
    refine (safe_call (fun tree => tree.write [joinJournalFileName] (.journal j.toJoinJournal))
      (fun _ => rfl) rfl hd₁ hI fun tree hwrite => layout_record hroot hwrite).mono ?_
    rintro err d₂ ⟨-, hwithin, hdone | ⟨herr, -, htree⟩⟩
    · exact ⟨hwithin, .inr hdone⟩
    · exact ⟨hwithin, .inl ⟨herr, by rw [htree]⟩⟩

end Proxyma.Join
