import Proxyma.Protocol

/-!
# The replicated order on index entries

`compareIndexEntries` compares five keys in turn.  It is the comparison of the
lexicographic product of their orders (`compareIndexEntries_le_zero`), and since
the five keys are all an entry has, that order is linear: `entryOrder`.
-/

namespace Proxyma.Storage

/-- Higher versions win; at equal version tombstones dominate live entries, then
hash, size and name decide. -/
def compareIndexEntries (candidate current : IndexEntry) : ℤ :=
  if candidate.version ≠ current.version then
    if candidate.version > current.version then 1 else -1
  else if candidate.deleted ≠ current.deleted then
    if candidate.deleted then 1 else -1
  else if candidate.hash ≠ current.hash then
    if candidate.hash > current.hash then 1 else -1
  else if candidate.size ≠ current.size then
    if candidate.size > current.size then 1 else -1
  else if candidate.name ≠ current.name then
    if candidate.name > current.name then 1 else -1
  else 0

/-- The five keys in the order in which they are compared. -/
def entryKey (e : IndexEntry) : ℤ ×ₗ Bool ×ₗ String ×ₗ ℤ ×ₗ String :=
  toLex (e.version, toLex (e.deleted, toLex (e.hash, toLex (e.size, e.name))))

theorem entryKey_injective : Function.Injective entryKey := by
  rintro ⟨n, s, h, v, d⟩ ⟨n', s', h', v', d'⟩ heq
  simp only [entryKey, EmbeddingLike.apply_eq_iff_eq, Prod.mk.injEq] at heq
  obtain ⟨rfl, rfl, rfl, rfl, rfl⟩ := heq
  rfl

/-- The linear order that every peer uses to choose a winner. -/
@[reducible] def entryOrder : LinearOrder IndexEntry := LinearOrder.lift' entryKey entryKey_injective

/-- One key of a lexicographic comparison decides, or leaves it to the rest. -/
private theorem ite_key_le_zero {α : Type} [LinearOrder α] (x y : α) (rest : ℤ) :
    (if x ≠ y then if x > y then 1 else -1 else rest) ≤ 0 ↔ x < y ∨ x = y ∧ rest ≤ 0 := by
  rcases lt_trichotomy x y with h | h | h
  · simp [h.ne, h, not_lt.2 h.le]
  · simp [h]
  · simp [h.ne', h, not_lt.2 h.le]

/-- An entry does not win exactly when its keys are at most those of the current one. -/
theorem compareIndexEntries_le_zero (a b : IndexEntry) :
    compareIndexEntries a b ≤ 0 ↔ entryKey a ≤ entryKey b := by
  have hbool : ∀ rest : ℤ, (if a.deleted ≠ b.deleted then if a.deleted then 1 else -1 else rest) =
      if a.deleted ≠ b.deleted then if a.deleted > b.deleted then 1 else -1 else rest := by
    intro rest
    cases a.deleted <;> cases b.deleted <;> simp
  have hzero : (if a.name ≠ b.name then if a.name > b.name then 1 else -1 else (0 : ℤ)) ≤ 0 ↔
      a.name ≤ b.name := by
    rw [ite_key_le_zero]
    simp only [le_refl, and_true]
    exact le_iff_lt_or_eq.symm
  simp only [compareIndexEntries, entryKey, Prod.Lex.toLex_le_toLex]
  rw [ite_key_le_zero, hbool, ite_key_le_zero, ite_key_le_zero, ite_key_le_zero, hzero]

end Proxyma.Storage
