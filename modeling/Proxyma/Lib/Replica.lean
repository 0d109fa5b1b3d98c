import Mathlib

/-!
# Replicas of maximum registers

Any number of nodes keep, for every key, one value of a linear order.  The only
move is to accept a value: the node keeps the larger of it and the one it has.
`State.seen` remembers which values a node has accepted for a key, in no
particular order.

The invariant `Exact` says that a register holds the greatest value seen.  It
makes the order of acceptance, duplicates and losses irrelevant: two nodes that
have seen the same values hold the same one (`Exact.agree`).
-/

namespace Replica

variable {N K V : Type*} [LinearOrder V]

/-- The registers of all nodes, and what each of them was made from. -/
@[ext] structure State (N K V : Type*) where
  stored : N → K → WithBot V
  seen : N → K → Set V

/-- Every register holds the greatest value its node has seen for the key. -/
def Exact (s : State N K V) : Prop :=
  ∀ n k, (s.stored n k = ⊥ ∧ s.seen n k = ∅) ∨
    ∃ v : V, s.stored n k = v ∧ IsGreatest (s.seen n k) v

variable {s s' : State N K V}

theorem Exact.agree (hs : Exact s) {n m : N} {k : K} (hseen : s.seen n k = s.seen m k) :
    s.stored n k = s.stored m k := by
  rcases hs n k with ⟨hn, hnseen⟩ | ⟨v, hn, hv⟩ <;> rcases hs m k with ⟨hm, hmseen⟩ | ⟨w, hm, hw⟩
  · rw [hn, hm]
  · rw [← hseen, hnseen] at hw
    exact absurd hw.1 (Set.notMem_empty w)
  · rw [hseen, hmseen] at hv
    exact absurd hv.1 (Set.notMem_empty v)
  · rw [hseen] at hv
    rw [hn, hm, hv.unique hw]

section Steps

variable [DecidableEq N] [DecidableEq K]

/-- Accept a value: keep the larger one and remember it. -/
def State.accept (s : State N K V) (n : N) (k : K) (v : V) : State N K V where
  stored := fun n' k' => if n' = n ∧ k' = k then max (s.stored n k) v else s.stored n' k'
  seen := fun n' k' => if n' = n ∧ k' = k then insert v (s.seen n k) else s.seen n' k'

/-- One acceptance somewhere. -/
inductive Step : State N K V → State N K V → Prop
  | accept (s : State N K V) (n : N) (k : K) (v : V) : Step s (s.accept n k v)

theorem Exact.accept (hs : Exact s) (n : N) (k : K) (v : V) : Exact (s.accept n k v) := by
  intro n' k'
  by_cases hat : n' = n ∧ k' = k
  · obtain ⟨rfl, rfl⟩ := hat
    simp only [State.accept, and_self, if_true]
    refine .inr ?_
    rcases hs n' k' with ⟨hstored, hseen⟩ | ⟨w, hstored, hw⟩
    · refine ⟨v, by rw [hstored, max_eq_right bot_le], ?_⟩
      rw [hseen, insert_empty_eq]
      exact isGreatest_singleton
    · refine ⟨max w v, by rw [hstored]; exact (WithBot.coe_max w v).symm, ?_⟩
      rw [max_comm]
      exact hw.insert v
  · simpa only [State.accept, hat, if_false] using hs n' k'

theorem Exact.step (hs : Exact s) (hstep : Step s s') : Exact s' := by
  cases hstep with
  | accept n k v => exact hs.accept n k v

theorem Step.stored_le (hstep : Step s s') (n : N) (k : K) : s.stored n k ≤ s'.stored n k := by
  cases hstep with
  | accept n' k' v =>
    simp only [State.accept]
    split_ifs with hat
    · obtain ⟨rfl, rfl⟩ := hat
      exact le_max_left _ _
    · exact le_rfl

/-! ## Runs -/

theorem Exact.run (hs : Exact s) (hrun : Relation.ReflTransGen Step s s') : Exact s' := by
  induction hrun with
  | refl => exact hs
  | tail _ hstep ih => exact ih.step hstep

theorem stored_le_of_run (hrun : Relation.ReflTransGen Step s s') (n : N) (k : K) :
    s.stored n k ≤ s'.stored n k := by
  induction hrun with
  | refl => exact le_rfl
  | tail _ hstep ih => exact ih.trans (hstep.stored_le n k)

end Steps

end Replica
