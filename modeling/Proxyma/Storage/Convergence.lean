import Proxyma.Lib.Replica
import Proxyma.Storage.IndexEffects

/-!
# Convergence of the replicated index

A cluster is any family of engines.  Its steps are local saves and deletions,
and deliveries of entries that have been in some node's index, through a
notification or a manifest; anything else that leaves a node's index alone may
happen in between.  Two ghost fields follow a run: what a node has written or
received for a name, and every entry that has been in an index.

The cluster refines `Replica`: a delivery accepts its entries one by one, and a
local write accepts an entry larger than the current one (`Step.refines`).  The
refinement rests on an invariant of the entries in circulation, `Circulating`:
their versions are positive, so that no delivery takes the branch of
`resolveVFSWrite` that chooses a version of its own.
-/

namespace Proxyma.Storage

open Keyed Atomic Atomic.Prog

variable {e : IndexEntry} {index : Bucket String IndexEntry} {k : String} {fileName : String}
  {new : String → Set IndexEntry}

attribute [local instance] entryOrder

/-! ## Entries in circulation -/

/-- An entry that peers can exchange: its version is explicit and `bbolt` takes
its name and its hash as keys. -/
structure Circulating (e : IndexEntry) : Prop where
  version_pos : 0 < e.version
  name_fits : FitsKey e.name.utf8ByteSize
  hash_fits : e.hash = "" ∨ FitsKey e.hash.utf8ByteSize

theorem writeFits_of_circulating {existing : Option IndexEntry} {written : IndexEntry}
    {name : String} (hname : FitsKey name.utf8ByteSize)
    (hexisting : ∀ e, existing = some e → Circulating e) : WriteFits existing written name := by
  refine ⟨hname, fun hash hmem => ?_⟩
  obtain ⟨previous, hprevious, hsup⟩ := Option.bind_eq_some_iff.1 hmem
  split_ifs at hsup with hkept
  cases hsup
  exact (hexisting previous hprevious).hash_fits.resolve_left fun h => hkept (.inl h)

/-- The register a name of the index is. -/
def register (index : Bucket String IndexEntry) (k : String) : WithBot IndexEntry :=
  (index.get k).elim ⊥ WithBot.some

theorem register_eq_coe : register index k = e ↔ index.get k = some e := by
  unfold register
  cases index.get k <;> simp

theorem register_eq_bot : register index k = ⊥ ↔ index.get k = none := by
  unfold register
  cases index.get k <;> simp

theorem register_put (index : Bucket String IndexEntry) (name k : String) (e : IndexEntry) :
    register (index.put name e) k = if k = name then (e : WithBot IndexEntry)
      else register index k := by
  simp only [register, Bucket.get_put]
  split_ifs <;> rfl

/-- An explicit version is stored as it is exactly when it is larger than the
current entry. -/
theorem effectiveEntry_of_pos (he : 0 < e.version) :
    effectiveEntry (index.get k) e = if register index k < e then some e else none := by
  cases hget : index.get k with
  | none =>
    rw [effectiveEntry, if_pos he, register_eq_bot.2 hget, if_pos (WithBot.bot_lt_coe e)]
  | some current =>
    have hwins : (current : WithBot IndexEntry) < e ↔ ¬ compareIndexEntries e current ≤ 0 := by
      rw [WithBot.coe_lt_coe, compareIndexEntries_le_zero]
      exact not_le.symm
    rw [effectiveEntry, if_pos he, register_eq_coe.2 hget]
    by_cases hle : compareIndexEntries e current ≤ 0
    · rw [if_pos hle, if_neg fun h => hwins.1 h hle]
    · rw [if_neg hle, if_pos (hwins.2 hle)]

/-- Storing a circulating entry keeps the larger one under its name. -/
theorem register_store_of_circulating (he : Circulating e)
    (hindex : ∀ c, index.get e.name = some c → Circulating c) (k : String) :
    register ((storeIndex e index).getD index) k =
      if k = e.name then max (register index k) e else register index k := by
  have hfits : ∀ written, WriteFits (index.get e.name) written e.name := fun written =>
    writeFits_of_circulating he.name_fits hindex
  simp only [storeIndex, hfits, if_true, effectiveEntry_of_pos he.version_pos]
  by_cases hlt : register index e.name < e
  · rw [if_pos hlt, Option.bind_some, Option.getD_some, register_put]
    split_ifs with hk
    · rw [hk, max_eq_right hlt.le]
    · rfl
  · rw [if_neg hlt, Option.bind_none, Option.getD_none]
    split_ifs with hk
    · rw [hk, max_eq_left (not_lt.1 hlt)]
    · rfl

/-- An explicit version is stored as it is, if it is stored. -/
theorem put_of_storeIndex {index' : Bucket String IndexEntry} (he : 0 < e.version)
    (h : storeIndex e index = some index') :
    FitsKey e.name.utf8ByteSize ∧ register index e.name < e ∧ index' = index.put e.name e := by
  obtain ⟨written, heff, hfits, hput⟩ := storeIndex_eq_some h
  rw [effectiveEntry_of_pos he] at heff
  split_ifs at heff with hlt
  cases heff
  exact ⟨hfits, hlt, hput⟩

theorem fitsKey_digest (d : Digest) : FitsKey d.text.utf8ByteSize := by
  have hsize : d.text.utf8ByteSize = 64 ∧ isHexString d.text = true := by
    simpa [isValidCASHash] using d.isDigest.1
  rw [hsize.1]
  decide

/-! ## Clusters -/

/-- The engines of a cluster, with what each node wrote or received for a name,
and every entry that has been in an index. -/
structure Cluster (N : Type) where
  node : N → State
  seen : N → String → Set IndexEntry
  sent : Set IndexEntry

variable {N : Type} {baseDir : N → CleanPath} {c c' : Cluster N}

/-- The entries now in an index. -/
def indexed (node : N → State) : Set IndexEntry := { e | ∃ n k, (node n).db.index.get k = some e }

/-- What an operation wrote under a name. -/
def wrote (s s' : State) (k : String) : Set IndexEntry :=
  { e | s'.db.index.get k = some e ∧ s.db.index.get k ≠ some e }

/-- What a delivery brings for a name; while its database is down a node loses
what it is sent. -/
def delivered (s : State) (entries : List IndexEntry) (k : String) : Set IndexEntry :=
  { e | s.Up ∧ e ∈ entries ∧ e.name = k }

/-- The next version under a name is a 64-bit integer. -/
def NoOverflow (s : State) (name : String) : Prop :=
  ∀ e, s.db.index.get name = some e → e.version + 1 < 2 ^ 63

namespace Cluster

variable {n : N} {s s' : State} {e : IndexEntry} {index : Bucket String IndexEntry}
  {entries : List IndexEntry}

/-- Nothing stored, nothing sent. -/
structure Initial (c : Cluster N) : Prop where
  index : ∀ n, (c.node n).db.index = .empty
  seen : ∀ n k, c.seen n k = ∅
  sent : c.sent = ∅

/-- The cluster of fresh engines. -/
def fresh : Cluster N := ⟨fun _ => State.fresh, fun _ _ => ∅, ∅⟩

theorem fresh_initial : (fresh : Cluster N).Initial := ⟨fun _ => rfl, fun _ _ => rfl, rfl⟩

variable [DecidableEq N]

/-- Node `n` goes to state `s` and has seen `new` besides what it had. -/
def advance (c : Cluster N) (n : N) (s : State) (new : String → Set IndexEntry) : Cluster N where
  node := Function.update c.node n s
  seen := fun m k => if m = n then c.seen m k ∪ new k else c.seen m k
  sent := c.sent ∪ indexed (Function.update c.node n s)

/-- The steps of a cluster. -/
inductive Step (baseDir : N → CleanPath) : Cluster N → Cluster N → Prop
  | save (c : Cluster N) (n : N) (fileName : String) (content : Blob) (s : State)
      (hversion : NoOverflow (c.node n) fileName)
      (hs : s = ((saveLocalFile fileName content).run (engine (baseDir n)) (c.node n)).2) :
      Step baseDir c (c.advance n s (wrote (c.node n) s))
  | delete (c : Cluster N) (n : N) (fileName : String) (s : State)
      (hversion : NoOverflow (c.node n) fileName)
      (hs : s = ((deleteLocalFileLocked fileName).run (engine (baseDir n)) (c.node n)).2) :
      Step baseDir c (c.advance n s (wrote (c.node n) s))
  | notify (c : Cluster N) (n : N) (file : IndexEntry) (source : String) (s : State)
      (hsent : file ∈ c.sent)
      (hs : s = ((handleNotification file source).run (engine (baseDir n)) (c.node n)).2) :
      Step baseDir c (c.advance n s (delivered (c.node n) [file]))
  | manifest (c : Cluster N) (n : N) (manifest : Bucket String IndexEntry) (source : String)
      (s : State) (hsent : ∀ e ∈ manifest.entries.map Prod.snd, e ∈ c.sent)
      (hs : s = ((processRemoteManifestFromSource manifest source).run
        (engine (baseDir n)) (c.node n)).2) :
      Step baseDir c (c.advance n s (delivered (c.node n) (manifest.entries.map Prod.snd)))
  | elsewhere (c : Cluster N) (n : N) (s : State) (hindex : s.db.index = (c.node n).db.index) :
      Step baseDir c (c.advance n s fun _ => ∅)

/-- The registers of a cluster. -/
def registers (c : Cluster N) : Replica.State N String IndexEntry where
  stored := fun n => register (c.node n).db.index
  seen := c.seen

/-- Every stored entry can circulate, and so can every entry that was stored. -/
structure Inv (c : Cluster N) : Prop where
  stored : ∀ n k e, (c.node n).db.index.get k = some e → Circulating e
  sent : ∀ e ∈ c.sent, Circulating e

omit [DecidableEq N] in
theorem Initial.inv (h : c.Initial) : c.Inv where
  stored := fun n k e hget => by simp [h.index n, Bucket.get_empty] at hget
  sent := fun e he => by simp [h.sent] at he

theorem Inv.advance (h : c.Inv) (hs : ∀ k e, s.db.index.get k = some e → Circulating e) :
    (c.advance n s new).Inv := by
  have hnode : ∀ m k e, ((Function.update c.node n s) m).db.index.get k = some e →
      Circulating e := by
    intro m k e hget
    by_cases hm : m = n
    · subst hm
      rw [Function.update_self] at hget
      exact hs k e hget
    · rw [Function.update_of_ne hm] at hget
      exact h.stored m k e hget
  refine ⟨hnode, fun e he => ?_⟩
  rcases he with he | ⟨m, k, hget⟩
  · exact h.sent e he
  · exact hnode m k e hget

/-! ## Local writes -/

/-- A local write left the index alone, or put a larger circulating entry under
its name. -/
def Bumps (s s' : State) : Prop :=
  s'.db.index = s.db.index ∨
    ∃ e, Circulating e ∧ register s.db.index e.name < e ∧
      s'.db.index = s.db.index.put e.name e

theorem bumps_save {content : Blob} (hversion : NoOverflow s fileName)
    (hcirc : ∀ e, s.db.index.get fileName = some e → Circulating e)
    (h : LocalWrite (savedEntry fileName content) s s') : Bumps s s' := by
  rcases h with hsame | ⟨written, heff, hstore⟩
  · exact .inl hsame.index
  have hwritten : 0 < written.version ∧ written.name = fileName ∧
      written.hash = content.hash.text := by
    change effectiveEntry (s.db.index.get fileName) _ = _ at heff
    cases hget : s.db.index.get fileName with
    | none =>
      rw [hget] at heff
      cases heff
      simp [savedEntry]
    | some current =>
      have hpos := (hcirc current hget).version_pos
      have hmax := hversion current hget
      rw [hget] at heff
      cases heff
      rw [wrap64_of_range (by omega) hmax]
      exact ⟨by simp only; omega, rfl, rfl⟩
  refine hstore.index.imp_right fun hsome => ?_
  obtain ⟨hfits, hlt, hput⟩ := put_of_storeIndex hwritten.1 hsome
  exact ⟨written, ⟨hwritten.1, hfits, .inr (hwritten.2.2 ▸ fitsKey_digest content.hash)⟩, hlt, hput⟩

theorem bumps_delete {entry : IndexEntry} (hversion : NoOverflow s fileName)
    (hget : s.db.index.get fileName = some entry) (hcirc : Circulating entry)
    (h : MayStore (tombstone entry) s s') : Bumps s s' := by
  have hpos := hcirc.version_pos
  have hmax := hversion entry hget
  have hbump : (tombstone entry).version = entry.version + 1 :=
    wrap64_of_range (by omega) hmax
  have htomb : 0 < (tombstone entry).version := by omega
  refine h.index.imp_right fun hsome => ?_
  obtain ⟨hfits, hlt, hput⟩ := put_of_storeIndex htomb hsome
  exact ⟨tombstone entry, ⟨htomb, hfits, hcirc.hash_fits⟩, hlt, hput⟩

theorem circulating_of_bumps (h : Bumps s s')
    (hs : ∀ k e, s.db.index.get k = some e → Circulating e) (k : String) (e : IndexEntry)
    (hget : s'.db.index.get k = some e) : Circulating e := by
  rcases h with hsame | ⟨e', he', -, hput⟩
  · exact hs k e (hsame ▸ hget)
  · rw [hput, Bucket.get_put] at hget
    split_ifs at hget
    · exact Option.some.inj hget ▸ he'
    · exact hs k e hget

/-! ## Refinement -/

theorem registers_same (hindex : s.db.index = (c.node n).db.index) (hnew : ∀ k, new k = ∅) :
    (c.advance n s new).registers = c.registers := by
  ext1
  · ext m k : 2
    by_cases hm : m = n
    · subst hm
      simp [registers, advance, hindex]
    · simp [registers, advance, hm]
  · ext m k : 2
    simp [registers, advance, hnew]

theorem wrote_put (hlt : register s.db.index e.name < e)
    (hindex : s'.db.index = s.db.index.put e.name e) (k : String) :
    wrote s s' k = if k = e.name then {e} else ∅ := by
  ext x
  simp only [wrote, hindex, Bucket.get_put, Set.mem_ofPred_eq]
  split_ifs with hk
  · subst hk
    constructor
    · rintro ⟨hx, -⟩
      exact (Option.some.inj hx).symm
    · rintro rfl
      exact ⟨rfl, fun h => lt_irrefl _ (register_eq_coe.2 h ▸ hlt)⟩
  · simp

theorem registers_put (hlt : register (c.node n).db.index e.name < e)
    (hindex : s.db.index = (c.node n).db.index.put e.name e) :
    (c.advance n s (wrote (c.node n) s)).registers = c.registers.accept n e.name e := by
  ext1
  · ext m k : 2
    by_cases hm : m = n
    · subst hm
      simp [registers, advance, Replica.State.accept, hindex, register_put, max_eq_right hlt.le]
    · simp [registers, advance, Replica.State.accept, hm]
  · ext m k : 2
    by_cases hm : m = n
    · subst hm
      simp only [registers, advance, Replica.State.accept, if_true, true_and, wrote_put hlt hindex]
      split_ifs with hk
      · rw [hk, Set.union_singleton]
      · rw [Set.union_empty]
    · simp [registers, advance, Replica.State.accept, hm]

/-- Accept the entries of a delivery one after the other. -/
def acceptAll (r : Replica.State N String IndexEntry) (n : N) (entries : List IndexEntry) :
    Replica.State N String IndexEntry :=
  entries.foldl (fun r e => r.accept n e.name e) r

theorem run_acceptAll (r : Replica.State N String IndexEntry) (n : N) (entries : List IndexEntry) :
    Relation.ReflTransGen Replica.Step r (acceptAll r n entries) := by
  induction entries generalizing r with
  | nil => exact .refl
  | cons e rest ih => exact .head (.accept r n e.name e) (ih _)

theorem acceptAll_seen (r : Replica.State N String IndexEntry) (n m : N)
    (entries : List IndexEntry) (k : String) :
    (acceptAll r n entries).seen m k =
      if m = n then r.seen m k ∪ { e | e ∈ entries ∧ e.name = k } else r.seen m k := by
  induction entries generalizing r with
  | nil => simp [acceptAll]
  | cons e rest ih =>
    refine (ih (r.accept n e.name e)).trans ?_
    by_cases hm : m = n
    · ext x
      simp only [Replica.State.accept]
      by_cases hk : k = e.name
      · grind
      · grind
    · simp [hm, Replica.State.accept]

theorem circulating_store (he : Circulating e)
    (hindex : ∀ k c, index.get k = some c → Circulating c) (k : String) (c : IndexEntry)
    (hget : ((storeIndex e index).getD index).get k = some c) : Circulating c := by
  have hmax := register_store_of_circulating he (hindex e.name) k
  rw [register_eq_coe.2 hget] at hmax
  split_ifs at hmax with hk
  · rcases max_choice (register index k) (e : WithBot IndexEntry) with h | h <;> rw [h] at hmax
    · exact hindex k c (register_eq_coe.1 hmax.symm)
    · exact WithBot.coe_injective hmax ▸ he
  · exact hindex k c (register_eq_coe.1 hmax.symm)

theorem circulating_storeAll (hentries : ∀ e ∈ entries, Circulating e)
    (hindex : ∀ k c, index.get k = some c → Circulating c) :
    ∀ k c, (storeAll entries index).get k = some c → Circulating c := by
  induction entries generalizing index with
  | nil => exact hindex
  | cons e rest ih =>
    exact ih (fun x hx => hentries x (List.mem_cons_of_mem _ hx))
      (circulating_store (hentries e List.mem_cons_self) hindex)

theorem acceptAll_stored (hentries : ∀ e ∈ entries, Circulating e)
    {r : Replica.State N String IndexEntry} (hr : r.stored n = register index)
    (hindex : ∀ k c, index.get k = some c → Circulating c) (m : N) :
    (acceptAll r n entries).stored m =
      if m = n then register (storeAll entries index) else r.stored m := by
  induction entries generalizing r index with
  | nil =>
    split_ifs with hm
    · rwa [hm]
    · rfl
  | cons e rest ih =>
    have he := hentries e List.mem_cons_self
    have hget := register_store_of_circulating he (hindex e.name)
    have hstep : (r.accept n e.name e).stored n =
        register ((storeIndex e index).getD index) := by
      ext1 k
      rw [hget k]
      by_cases hk : k = e.name
      · simp [Replica.State.accept, hk, hr]
      · simp [Replica.State.accept, hk, hr]
    refine (ih (fun x hx => hentries x (List.mem_cons_of_mem _ hx)) hstep
      (circulating_store he hindex)).trans ?_
    split_ifs with hm
    · rfl
    · ext1 k
      simp [Replica.State.accept, hm]

/-- A delivery to a node whose database is up accepts its entries. -/
theorem registers_deliver (hentries : ∀ e ∈ entries, Circulating e)
    (hcirc : ∀ k e, (c.node n).db.index.get k = some e → Circulating e) (hup : (c.node n).Up)
    (hindex : s.db.index = storeAll entries (c.node n).db.index) :
    (c.advance n s (delivered (c.node n) entries)).registers =
      acceptAll c.registers n entries := by
  ext1
  · ext m : 1
    rw [acceptAll_stored hentries rfl hcirc]
    by_cases hm : m = n
    · subst hm
      simp [registers, advance, hindex]
    · simp [registers, advance, hm]
  · ext m k : 2
    rw [acceptAll_seen]
    simp [registers, advance, delivered, hup]

theorem refines_bumps (hinv : c.Inv) (h : Bumps (c.node n) s) :
    (c.advance n s (wrote (c.node n) s)).Inv ∧
      Relation.ReflTransGen Replica.Step c.registers
        (c.advance n s (wrote (c.node n) s)).registers := by
  refine ⟨hinv.advance (circulating_of_bumps h (hinv.stored n)), ?_⟩
  rcases h with hsame | ⟨e, -, hlt, hput⟩
  · have hnew : ∀ k, wrote (c.node n) s k = ∅ := fun k => by
      ext x
      simp [wrote, hsame]
    rw [registers_same hsame hnew]
  · rw [registers_put hlt hput]
    exact .single (.accept _ _ _ _)

theorem refines_deliver (hinv : c.Inv) (hsent : ∀ e ∈ entries, e ∈ c.sent)
    (hindex : s.db.index = if (c.node n).Up then storeAll entries (c.node n).db.index
      else (c.node n).db.index) :
    (c.advance n s (delivered (c.node n) entries)).Inv ∧
      Relation.ReflTransGen Replica.Step c.registers
        (c.advance n s (delivered (c.node n) entries)).registers := by
  have hentries : ∀ e ∈ entries, Circulating e := fun e he => hinv.sent e (hsent e he)
  by_cases hup : (c.node n).Up
  · rw [if_pos hup] at hindex
    refine ⟨hinv.advance ?_, ?_⟩
    · rw [hindex]
      exact circulating_storeAll hentries (hinv.stored n)
    · rw [registers_deliver hentries (hinv.stored n) hup hindex]
      exact run_acceptAll _ _ _
  · rw [if_neg hup] at hindex
    refine ⟨hinv.advance (hindex ▸ hinv.stored n), ?_⟩
    rw [registers_same hindex fun k => by simp [delivered, hup]]

/-- Every step keeps the invariant and is a sequence of acceptances. -/
theorem Step.refines (hinv : c.Inv) (hstep : Step baseDir c c') :
    c'.Inv ∧ Relation.ReflTransGen Replica.Step c.registers c'.registers := by
  cases hstep with
  | save n fileName content s hversion hs =>
    have hwrite := run_saveLocalFile (baseDir n) fileName content (c.node n)
    rw [← hs] at hwrite
    exact refines_bumps hinv (bumps_save hversion (hinv.stored n fileName) hwrite)
  | delete n fileName s hversion hs =>
    refine refines_bumps hinv ?_
    rcases run_deleteLocalFile (baseDir n) fileName (c.node n) with
      hsame | ⟨entry, hget, hstore⟩
    · exact .inl (hs ▸ hsame.index)
    · exact bumps_delete hversion hget (hinv.stored n fileName entry hget) (hs ▸ hstore)
  | notify n file source s hsent hs =>
    refine refines_deliver hinv (by simpa using hsent) ?_
    have hreceive := (storesFirst_handleNotification (baseDir n) file source).receives (baseDir n)
      (c.node n)
    rw [← hs] at hreceive
    split_ifs with hup
    · exact (hreceive.up hup).2
    · exact (hreceive.down hup).index
  | manifest n manifest source s hsent hs =>
    refine refines_deliver hinv hsent ?_
    rw [hs]
    exact (run_processRemoteManifestFromSource (baseDir n) manifest source (c.node n)).2
  | elsewhere n s hindex =>
    refine ⟨hinv.advance (hindex ▸ hinv.stored n), ?_⟩
    rw [registers_same hindex fun _ => rfl]

theorem Run.refines (hinv : c.Inv) (hrun : Relation.ReflTransGen (Step baseDir) c c') :
    c'.Inv ∧ Relation.ReflTransGen Replica.Step c.registers c'.registers := by
  induction hrun with
  | refl => exact ⟨hinv, .refl⟩
  | tail _ hstep ih =>
    obtain ⟨hinv', hrun'⟩ := hstep.refines ih.1
    exact ⟨hinv', ih.2.trans hrun'⟩

omit [DecidableEq N] in
theorem Initial.exact (h : c.Initial) : Replica.Exact c.registers := fun n k =>
  .inl ⟨register_eq_bot.2 (by rw [h.index n]; rfl), h.seen n k⟩

end Cluster

/-- In every run of a cluster, every node holds under a name the maximum of what
it wrote or received for it; nodes that have seen the same entries hold the
same one; an entry only moves up, and a tombstone gives way to a live entry
only at a higher version. -/
theorem cluster_converges [DecidableEq N] {baseDir : N → CleanPath} {c₀ c : Cluster N}
    (hinit : c₀.Initial) (hrun : Relation.ReflTransGen (Cluster.Step baseDir) c₀ c) :
    (∀ n k, ((c.node n).db.index.get k = none ∧ c.seen n k = ∅) ∨
      ∃ e ∈ c.seen n k, (c.node n).db.index.get k = some e ∧
        ∀ e' ∈ c.seen n k, compareIndexEntries e' e ≤ 0) ∧
    (∀ n m k, c.seen n k = c.seen m k →
      (c.node n).db.index.get k = (c.node m).db.index.get k) ∧
    ∀ c', Relation.ReflTransGen (Cluster.Step baseDir) c c' → ∀ n k e,
      (c.node n).db.index.get k = some e →
        ∃ e', (c'.node n).db.index.get k = some e' ∧ compareIndexEntries e e' ≤ 0 ∧
          (e.deleted = true → e'.version = e.version → e'.deleted = true) := by
  obtain ⟨hinv, href⟩ := Cluster.Run.refines hinit.inv hrun
  have hexact : Replica.Exact c.registers := hinit.exact.run href
  refine ⟨fun n k => ?_, fun n m k hseen => ?_, fun c' hrun' n k e hget => ?_⟩
  · rcases hexact n k with ⟨hbot, hempty⟩ | ⟨e, he, hmem, hupper⟩
    · exact .inl ⟨register_eq_bot.1 hbot, hempty⟩
    · refine .inr ⟨e, hmem, register_eq_coe.1 he, fun e' he' => ?_⟩
      exact (compareIndexEntries_le_zero e' e).2 (hupper he')
  · have hagree : register (c.node n).db.index k = register (c.node m).db.index k :=
      hexact.agree hseen
    cases hn : (c.node n).db.index.get k with
    | none =>
      rw [register_eq_bot.2 hn] at hagree
      exact (register_eq_bot.1 hagree.symm).symm
    | some e =>
      rw [register_eq_coe.2 hn] at hagree
      exact (register_eq_coe.1 hagree.symm).symm
  · obtain ⟨-, href'⟩ := Cluster.Run.refines hinv hrun'
    have hle : (e : WithBot IndexEntry) ≤ register (c'.node n).db.index k :=
      register_eq_coe.2 hget ▸ Replica.stored_le_of_run href' n k
    obtain ⟨e', he', hkey⟩ := WithBot.coe_le_iff.1 hle
    refine ⟨e', register_eq_coe.1 he', (compareIndexEntries_le_zero e e').2 hkey, ?_⟩
    intro hdeleted hversion
    have hcompare := (compareIndexEntries_le_zero e e').2 hkey
    by_contra hlive
    simp [compareIndexEntries, hversion, hdeleted, hlive] at hcompare

/-- A file saved on one node reaches another through a notification. -/
theorem cluster_converges_two_nodes :
    ∃ c : Cluster Bool,
      Relation.ReflTransGen (Cluster.Step fun _ => dataDir) Cluster.fresh c ∧
      (c.node true).db.index.get "f" =
        some ⟨"f", 3, digestA.text, 1, false⟩ ∧
      ∃ e ∈ c.seen true "f", (c.node true).db.index.get "f" = some e ∧
        ∀ e' ∈ c.seen true "f", compareIndexEntries e' e ≤ 0 := by
  let base : Bool → CleanPath := fun _ => dataDir
  have hsave : Cluster.Step base Cluster.fresh _ := .save _ false "f"
    ⟨digestA, 3⟩ _ (fun e he => by cases he) rfl
  have hrun := fun hsent => (Relation.ReflTransGen.single hsave).tail (.notify _ true
    ⟨"f", 3, digestA.text, 1, false⟩ "peer" _ hsent rfl)
  replace hrun := hrun (.inr ⟨false, "f", rfl⟩)
  refine ⟨_, hrun, rfl, ?_⟩
  rcases (cluster_converges Cluster.fresh_initial hrun).1 true "f" with ⟨hnone, -⟩ | hmax
  · cases hnone
  · exact hmax

end Proxyma.Storage
