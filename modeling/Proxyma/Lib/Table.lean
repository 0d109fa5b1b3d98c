import Proxyma.Lib.Bucket

/-!
# Tables of records

A table is a bucket whose records know the key they are stored under.  The
invariant is a field, so that a record found by a lookup is always the record
of that key, and storing one needs no key.
-/

namespace Keyed

variable {K V : Type} [LinearOrder K] {key : V → K}

/-- Finitely many records, each stored under its own key. -/
structure Table {K V : Type} [LinearOrder K] (key : V → K) where
  rows : Bucket K V
  keyed : ∀ k v, rows.get k = some v → key v = k

namespace Table

/-- The table without a record. -/
def empty : Table key := ⟨.empty, fun _ _ h => by simp at h⟩

instance : Inhabited (Table key) := ⟨empty⟩

/-- The record of a key. -/
def get (t : Table key) (k : K) : Option V := t.rows.get k

/-- The keys in ascending order. -/
def keys (t : Table key) : List K := t.rows.keys

/-- Store a record under its key. -/
def insert (t : Table key) (v : V) : Table key where
  rows := t.rows.put (key v) v
  keyed := by
    intro k w hw
    rw [Bucket.get_put] at hw
    split_ifs at hw with hk
    · obtain rfl : v = w := by simpa using hw
      exact hk.symm
    · exact t.keyed k w hw

/-- Remove the record of a key. -/
def erase (t : Table key) (k : K) : Table key where
  rows := t.rows.erase k
  keyed := by
    intro k' w hw
    rw [Bucket.get_erase] at hw
    split_ifs at hw
    exact t.keyed k' w hw

theorem key_of_get {t : Table key} {k : K} {v : V} (h : t.get k = some v) : key v = k :=
  t.keyed k v h

@[simp] theorem get_empty (k : K) : (empty : Table key).get k = none := rfl

@[simp] theorem get_insert (t : Table key) (v : V) (k : K) :
    (t.insert v).get k = if k = key v then some v else t.get k :=
  Bucket.get_put t.rows (key v) k v

@[simp] theorem get_erase (t : Table key) (k k' : K) :
    (t.erase k).get k' = if k' = k then none else t.get k' :=
  Bucket.get_erase t.rows k k'

theorem get_insert_self (t : Table key) (v : V) : (t.insert v).get (key v) = some v := by simp

theorem get_insert_of_ne (t : Table key) {v : V} {k : K} (h : k ≠ key v) :
    (t.insert v).get k = t.get k := by simp [h]

end Table

end Keyed
