import Mathlib

/-!
# Ordered buckets

A bucket is a finite map kept in ascending key order, the shape of an ordered
key-value store.  `entries` is what a cursor walks over, `get` is the lookup,
and `put` and `keep` are the two ways a transaction rewrites a bucket.

Everything later is stated through `get`: `Bucket.ext` says that a bucket is
determined by its lookups, and `get_put` and `get_keep` say what the two updates
do to them.  The cursor view is connected by `mem_entries`, and `scan_eq_filter`
replaces the cursor idiom "seek to the start, walk while in range" by a filter
whenever the range is convex in the key order.
-/

namespace Keyed

variable {K V : Type*} [LinearOrder K]

/-- Finitely many keys in strictly ascending order, each with one value. -/
@[ext]
structure Bucket (K V : Type*) [LinearOrder K] where
  entries : List (K × V)
  sorted : entries.Pairwise fun a b => a.1 < b.1

namespace Bucket

variable {b : Bucket K V} {k : K} {p : K → Bool}

instance [DecidableEq V] : DecidableEq (Bucket K V) := fun a b =>
  decidable_of_iff (a.entries = b.entries) Bucket.ext_iff.symm

/-- The bucket without a key. -/
def empty : Bucket K V := ⟨[], List.Pairwise.nil⟩

instance : Inhabited (Bucket K V) := ⟨empty⟩

/-- The value stored under a key. -/
def get (b : Bucket K V) (k : K) : Option V :=
  (b.entries.find? fun e => e.1 = k).map Prod.snd

/-- Whether a key is present. -/
def has (b : Bucket K V) (k : K) : Bool := (b.get k).isSome

/-- The keys in ascending order. -/
def keys (b : Bucket K V) : List K := b.entries.map Prod.fst

/-- Store a value under a key, replacing the one that was there. -/
def put (b : Bucket K V) (k : K) (v : V) : Bucket K V where
  entries := (b.entries.filter fun e => e.1 < k) ++ (k, v) :: b.entries.filter fun e => k < e.1
  sorted := by
    refine List.pairwise_append.2 ⟨b.sorted.filter _, ?_, ?_⟩
    · refine List.pairwise_cons.2 ⟨fun e he => ?_, b.sorted.filter _⟩
      simpa using (List.mem_filter.1 he).2
    · intro x hx y hy
      have hxk : x.1 < k := by simpa using (List.mem_filter.1 hx).2
      rcases List.mem_cons.1 hy with rfl | hy
      · exact hxk
      · have hky : k < y.1 := by simpa using (List.mem_filter.1 hy).2
        exact hxk.trans hky

/-- Keep the entries that satisfy a predicate. -/
def keep (b : Bucket K V) (p : K → V → Bool) : Bucket K V where
  entries := b.entries.filter fun e => p e.1 e.2
  sorted := b.sorted.filter _

/-- Remove a key. -/
def erase (b : Bucket K V) (k : K) : Bucket K V := b.keep fun k' _ => k' ≠ k

/-- Remove every key of a list. -/
def eraseAll (b : Bucket K V) (ks : List K) : Bucket K V := b.keep fun k' _ => k' ∉ ks

/-- Store one value under every key of a list. -/
def putAll (b : Bucket K V) (ks : List K) (v : V) : Bucket K V :=
  ks.foldl (fun b k => b.put k v) b

/-! ## Lookup -/

theorem eq_of_mem_of_fst_eq {x y : K × V} (hx : x ∈ b.entries) (hy : y ∈ b.entries)
    (h : x.1 = y.1) : x = y := by
  have hkeys : (b.entries.map Prod.fst).Nodup :=
    List.pairwise_map.2 (b.sorted.imp fun hac => hac.ne)
  exact List.inj_on_of_nodup_map hkeys hx hy h

/-- A cursor meets `(k, v)` exactly when the lookup of `k` finds `v`. -/
theorem mem_entries {v : V} : (k, v) ∈ b.entries ↔ b.get k = some v := by
  unfold get
  constructor
  · intro h
    cases hfind : b.entries.find? fun e => e.1 = k with
    | none =>
      have := List.find?_eq_none.1 hfind _ h
      simp at this
    | some e =>
      have hkey : e.1 = k := by simpa using List.find?_some hfind
      have : e = (k, v) := eq_of_mem_of_fst_eq (List.mem_of_find?_eq_some hfind) h hkey
      simp [this]
  · intro h
    obtain ⟨e, hfind, rfl⟩ := Option.map_eq_some_iff.1 h
    have hkey : e.1 = k := by simpa using List.find?_some hfind
    rw [← hkey]
    exact List.mem_of_find?_eq_some hfind

theorem mem_keys : k ∈ b.keys ↔ ∃ v, b.get k = some v := by
  simp [keys, mem_entries]

theorem ext_get {a : Bucket K V} (h : ∀ k, a.get k = b.get k) : a = b := by
  have hnodup : ∀ c : Bucket K V, c.entries.Nodup := fun c =>
    c.sorted.imp fun {x y} hxy => by rintro rfl; exact lt_irrefl _ hxy
  have hperm : a.entries.Perm b.entries := by
    refine (List.perm_ext_iff_of_nodup (hnodup a) (hnodup b)).2 ?_
    rintro ⟨k, v⟩
    rw [mem_entries, mem_entries, h]
  refine Bucket.ext (hperm.eq_of_pairwise ?_ a.sorted b.sorted)
  intro x y _ _ hxy hyx
  exact absurd hyx hxy.not_gt

@[simp] theorem get_empty (k : K) : (empty : Bucket K V).get k = none := rfl

@[simp] theorem get_put (b : Bucket K V) (k k' : K) (v : V) :
    (b.put k v).get k' = if k' = k then some v else b.get k' := by
  split
  · rename_i h
    subst h
    exact mem_entries.1 (by simp [put])
  · rename_i h
    apply Option.ext
    intro w
    rw [← mem_entries, ← mem_entries]
    simp only [put, List.mem_append, List.mem_filter, List.mem_cons, Prod.mk.injEq, h, false_and,
      false_or, decide_eq_true_eq]
    constructor
    · rintro (⟨hmem, -⟩ | ⟨hmem, -⟩) <;> exact hmem
    · intro hmem
      rcases lt_or_gt_of_ne h with hlt | hgt
      · exact .inl ⟨hmem, hlt⟩
      · exact .inr ⟨hmem, hgt⟩

theorem length_put_le (b : Bucket K V) (k : K) (v : V) :
    (b.put k v).entries.length ≤ b.entries.length + 1 := by
  have hdisjoint : (b.entries.filter fun e => decide (e.1 < k)).length +
      (b.entries.filter fun e => decide (k < e.1)).length ≤ b.entries.length := by
    rw [List.length_eq_length_filter_add (l := b.entries) fun e => decide (e.1 < k)]
    refine Nat.add_le_add_left (List.Sublist.length_le ?_) _
    refine List.monotone_filter_right _ fun e he => ?_
    simpa using (of_decide_eq_true he).le
  simp only [put, List.length_append, List.length_cons]
  omega

theorem get_keep (b : Bucket K V) (p : K → V → Bool) (k : K) :
    (b.keep p).get k = (b.get k).filter (p k) := by
  apply Option.ext
  intro v
  rw [← mem_entries, Option.filter_eq_some_iff, ← mem_entries]
  simp [keep]

@[simp] theorem get_erase (b : Bucket K V) (k k' : K) :
    (b.erase k).get k' = if k' = k then none else b.get k' := by
  rw [erase, get_keep]
  split <;> cases b.get k' <;> simp_all

theorem nodup_keys (b : Bucket K V) : b.keys.Nodup :=
  List.pairwise_map.2 (b.sorted.imp fun hlt => hlt.ne)

theorem keys_erase (b : Bucket K V) (k : K) : (b.erase k).keys = b.keys.erase k := by
  rw [b.nodup_keys.erase_eq_filter, keys, keys, List.filter_map]
  exact congrArg _ (List.filter_congr fun e _ => by by_cases hk : e.1 = k <;> simp [hk])

@[simp] theorem get_eraseAll (b : Bucket K V) (ks : List K) (k : K) :
    (b.eraseAll ks).get k = if k ∈ ks then none else b.get k := by
  rw [eraseAll, get_keep]
  split <;> cases b.get k <;> simp_all

@[simp] theorem get_putAll (b : Bucket K V) (ks : List K) (v : V) (k : K) :
    (b.putAll ks v).get k = if k ∈ ks then some v else b.get k := by
  induction ks generalizing b with
  | nil => simp [putAll]
  | cons head tail ih =>
    have hcons : b.putAll (head :: tail) v = (b.put head v).putAll tail v := rfl
    rw [hcons, ih, get_put]
    by_cases htail : k ∈ tail <;> by_cases hhead : k = head <;> simp [htail, hhead]

@[simp] theorem has_eq_true : b.has k = true ↔ ∃ v, b.get k = some v := by
  rw [has, Option.isSome_iff_exists]

theorem put_put_comm (b : Bucket K V) {k' : K} (h : k ≠ k') (v v' : V) :
    (b.put k v).put k' v' = (b.put k' v').put k v := by
  refine ext_get fun x => ?_
  simp only [get_put]
  split_ifs with h₁ h₂ <;> first | rfl | exact absurd (h₂.symm.trans h₁) h

theorem eraseAll_put_comm (b : Bucket K V) {ks : List K} (h : k ∉ ks) (v : V) :
    (b.put k v).eraseAll ks = (b.eraseAll ks).put k v := by
  refine ext_get fun x => ?_
  simp only [get_put, get_eraseAll]
  by_cases hx : x = k
  · simp [hx, h]
  · simp [hx]

/-- A put under a key that a filter rejects does not show in what it accepts. -/
theorem filter_entries_put (b : Bucket K V) (h : p k = false) (v : V) :
    ((b.put k v).entries.filter fun e => p e.1) = b.entries.filter fun e => p e.1 := by
  have hkeep : (b.put k v).keep (fun k' _ => p k') = b.keep fun k' _ => p k' := by
    refine ext_get fun x => ?_
    rw [get_keep, get_keep, get_put]
    split_ifs with hx
    · subst hx
      cases b.get x <;> simp [h]
    · rfl
  exact congrArg entries hkeep

/-! ## Cursors -/

/-- The entries a cursor visits after seeking to `start`. -/
def seek (b : Bucket K V) (start : K) : List (K × V) :=
  b.entries.dropWhile fun e => e.1 < start

/-- The cursor loop: seek to `start` and walk while the key is in range. -/
def scan (b : Bucket K V) (start : K) (inRange : K → Bool) : List (K × V) :=
  (b.seek start).takeWhile fun e => inRange e.1

private theorem takeWhile_eq_filter : ∀ {l : List (K × V)},
    l.Pairwise (fun a b => a.1 < b.1) →
    (∀ x ∈ l, ∀ y ∈ l, x.1 ≤ y.1 → p y.1 = true → p x.1 = true) →
    (l.takeWhile fun e => p e.1) = l.filter fun e => p e.1
  | [], _, _ => rfl
  | x :: l, hsorted, hconvex => by
      obtain ⟨hhead, htail⟩ := List.pairwise_cons.1 hsorted
      by_cases hx : p x.1 = true
      · rw [List.takeWhile_cons_of_pos (by simpa using hx),
          List.filter_cons_of_pos (by simpa using hx), takeWhile_eq_filter htail fun a ha c hc =>
            hconvex a (List.mem_cons_of_mem _ ha) c (List.mem_cons_of_mem _ hc)]
      · rw [List.takeWhile_cons_of_neg (by simpa using hx),
          List.filter_cons_of_neg (by simpa using hx)]
        refine (List.filter_eq_nil_iff.2 fun y hy hpy => hx ?_).symm
        exact hconvex x List.mem_cons_self y (List.mem_cons_of_mem _ hy) (hhead y hy).le hpy

private theorem filter_dropWhile {start : K} : ∀ {l : List (K × V)},
    (∀ x ∈ l, p x.1 = true → start ≤ x.1) →
    ((l.dropWhile fun e => e.1 < start).filter fun e => p e.1) = l.filter fun e => p e.1
  | [], _ => rfl
  | x :: l, hstart => by
      by_cases hx : x.1 < start
      · have hp : ¬ p x.1 = true := fun h => absurd (hstart x List.mem_cons_self h) hx.not_ge
        rw [List.dropWhile_cons_of_pos (by simpa using hx),
          List.filter_cons_of_neg (by simpa using hp)]
        exact filter_dropWhile fun y hy => hstart y (List.mem_cons_of_mem _ hy)
      · rw [List.dropWhile_cons_of_neg (by simpa using hx)]

/-- Over a range that starts at `start` and is convex in the key order, the
cursor loop visits exactly the entries in range. -/
theorem scan_eq_filter (b : Bucket K V) {start : K} {inRange : K → Bool}
    (hstart : ∀ k, inRange k = true → start ≤ k)
    (hconvex : ∀ k k', start ≤ k → k ≤ k' → inRange k' = true → inRange k = true) :
    b.scan start inRange = b.entries.filter fun e => inRange e.1 := by
  have hsub : (b.seek start).Sublist b.entries := List.dropWhile_sublist _
  have hge : ∀ e ∈ b.seek start, start ≤ e.1 := by
    intro e he
    by_contra hlt
    have hseek : (b.seek start).Pairwise fun a c => a.1 < c.1 := b.sorted.sublist hsub
    rcases hcases : b.seek start with _ | ⟨head, tail⟩
    · simp [hcases] at he
    have hsame : (b.entries.dropWhile fun e => e.1 < start) = head :: tail := hcases
    have hhead : ¬ head.1 < start := by
      have hne : (b.entries.dropWhile fun e => e.1 < start) ≠ [] := by simp [hsame]
      simpa [hsame] using List.head_dropWhile_not (fun e : K × V => decide (e.1 < start)) hne
    rw [hcases] at he hseek
    rcases List.mem_cons.1 he with rfl | he
    · exact hlt (not_lt.1 hhead)
    · have := (List.pairwise_cons.1 hseek).1 e he
      exact hlt ((not_lt.1 hhead).trans this.le)
  rw [scan, takeWhile_eq_filter (b.sorted.sublist hsub)]
  · exact filter_dropWhile fun x _ hx => hstart _ hx
  · intro x hx y _ hxy hy
    exact hconvex _ _ (hge x hx) hxy hy

end Bucket

end Keyed
