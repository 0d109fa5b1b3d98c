import Proxyma.Lib.Program

/-!
# Calls that may panic, and threads

A `Call` is a program that returns a value or panics; binding stops at the first
panic.  `Call.Ends` is its uninterrupted run, read as a predicate transformer:
`ends_bind` and `ends_perform` take a call apart from its first action on.

What holds on every path of a call, whatever the answers of its actions, is said
by `Call.Obeys`: every action is allowed by the `Rules`, and what comes out at the
end satisfies a postcondition.  `Rules.Sound` ties the rules to an invariant of
the state; with it `Obeys.ends` reads a path property off for a run, and
`Pool.Sound` for all interleavings of threads that share the state.

`Prog.Spends` counts along the paths of a program.  An action costs something, and
its answer may bring something in; `Pool.Funded` adds up what the threads of a
pool can still spend.  `Prog.Pays` is about both, rules and prices.
-/

namespace Atomic

open Prog

universe u

variable {E : Type → Type u} {σ α β : Type}

/-- A program that returns a value or panics. -/
structure Call (E : Type → Type u) (α : Type) where
  prog : Prog E (Option α)

namespace Call

instance : Monad (Call E) where
  pure a := ⟨.ret (some a)⟩
  bind p g := ⟨p.prog >>= fun
    | none => .ret none
    | some a => (g a).prog⟩

/-- The call that performs one action. -/
def perform (e : E α) : Call E α := ⟨.act e fun b => .ret (some b)⟩

/-- The call that panics. -/
def panic : Call E α := ⟨.ret none⟩

/-- A call whose result nobody waits for. -/
def thread (p : Call E α) : Prog E Unit := p.prog >>= fun _ => .ret ()

theorem bind_prog (p : Call E α) (g : α → Call E β) :
    (p >>= g).prog = (p.prog >>= fun
      | none => .ret none
      | some a => (g a).prog) := rfl

/-! ## Runs -/

/-- The value and the state with which a call ends satisfy `post`; the value of
a panic is `none`. -/
def Ends (h : Handler E σ) (p : Call E α) (s : σ) (post : Option α → σ → Prop) : Prop :=
  post (p.prog.run h s).1 (p.prog.run h s).2

variable {h : Handler E σ} {s : σ} {post post' : Option α → σ → Prop}

@[simp] theorem ends_pure {a : α} : (pure a : Call E α).Ends h s post ↔ post (some a) s := Iff.rfl

@[simp] theorem ends_perform {e : E α} :
    (perform e).Ends h s post ↔ post (some (h.exec e s).1) (h.exec e s).2 := Iff.rfl

@[simp] theorem ends_panic : (panic : Call E α).Ends h s post ↔ post none s := Iff.rfl

/-- What is left to show after the first part of a call. -/
def Then (g : α → Call E β) (h : Handler E σ) (post : Option β → σ → Prop) :
    Option α → σ → Prop
  | none, s => post none s
  | some a, s => (g a).Ends h s post

@[simp] theorem then_none {g : α → Call E β} {post : Option β → σ → Prop} :
    Then g h post none s ↔ post none s := Iff.rfl

@[simp] theorem then_some {g : α → Call E β} {post : Option β → σ → Prop} {a : α} :
    Then g h post (some a) s ↔ (g a).Ends h s post := Iff.rfl

theorem ends_bind {p : Call E α} {g : α → Call E β} {post : Option β → σ → Prop} :
    (p >>= g).Ends h s post ↔ p.Ends h s (Then g h post) := by
  unfold Ends
  rw [bind_prog, run_bind]
  cases (p.prog.run h s).1 <;> rfl

@[simp] theorem ends_perform_bind {e : E α} {g : α → Call E β} {post : Option β → σ → Prop} :
    (perform e >>= g).Ends h s post ↔ (g (h.exec e s).1).Ends h (h.exec e s).2 post := Iff.rfl

theorem Ends.mono {p : Call E α} (hp : p.Ends h s post)
    (hpost : ∀ a s', post a s' → post' a s') : p.Ends h s post' :=
  hpost _ _ hp

theorem Ends.and {p : Call E α} (hp : p.Ends h s post) (hp' : p.Ends h s post') :
    p.Ends h s fun a s' => post a s' ∧ post' a s' :=
  ⟨hp, hp'⟩

/-- Take a call apart: what its first part ends with, and what follows from
there. -/
theorem Ends.bind {p : Call E α} {g : α → Call E β} {post' : Option β → σ → Prop}
    (hp : p.Ends h s post) (hnone : ∀ s', post none s' → post' none s')
    (hsome : ∀ a s', post (some a) s' → (g a).Ends h s' post') : (p >>= g).Ends h s post' := by
  refine ends_bind.2 (hp.mono ?_)
  rintro (_ | a) s' hs'
  · exact hnone s' hs'
  · exact hsome a s' hs'

end Call

/-! ## Paths -/

/-- Which actions are allowed, and what may be assumed about their answers. -/
structure Rules (E : Type → Type u) where
  allowed : {β : Type} → E β → Prop
  answers : {β : Type} → E β → β → Prop := fun _ _ => True

/-- Under an invariant, allowed actions keep it and are answered as assumed. -/
def Rules.Sound (r : Rules E) (h : Handler E σ) (inv : σ → Prop) : Prop :=
  ∀ {β : Type} (e : E β) (s : σ), r.allowed e → inv s →
    inv (h.exec e s).2 ∧ r.answers e (h.exec e s).1

/-- On every path, the actions are allowed and the value at its end satisfies
`ok`. -/
def Prog.Obeys (r : Rules E) (ok : α → Prop) : Prog E α → Prop
  | .ret a => ok a
  | .act e next => r.allowed e ∧ ∀ b, r.answers e b → (next b).Obeys r ok

section Paths

variable {r r' : Rules E} {ok ok' : α → Prop} {h : Handler E σ} {inv : σ → Prop}

theorem Prog.Obeys.bind {p : Prog E α} {g : α → Prog E β} {ok' : β → Prop} (hp : p.Obeys r ok)
    (hg : ∀ a, ok a → (g a).Obeys r ok') : (p >>= g).Obeys r ok' := by
  induction p with
  | ret a => exact hg a hp
  | act e next ih => exact ⟨hp.1, fun b hb => ih b (hp.2 b hb)⟩

theorem Prog.Obeys.mono {p : Prog E α} (hp : p.Obeys r ok)
    (hallowed : ∀ {β : Type} (e : E β), r.allowed e → r'.allowed e)
    (hanswers : ∀ {β : Type} (e : E β) b, r'.answers e b → r.answers e b)
    (hok : ∀ a, ok a → ok' a) : p.Obeys r' ok' := by
  induction p with
  | ret a => exact hok a hp
  | act e next ih =>
    exact ⟨hallowed e hp.1, fun b hb => ih b (hp.2 b (hanswers e b hb))⟩

theorem Prog.Obeys.run {p : Prog E α} (hp : p.Obeys r ok) (hr : r.Sound h inv) {s : σ}
    (hs : inv s) : ok (p.run h s).1 ∧ inv (p.run h s).2 := by
  induction p generalizing s with
  | ret a => exact ⟨hp, hs⟩
  | act e next ih =>
    obtain ⟨hinv, hanswer⟩ := hr e s hp.1 hs
    exact ih _ (hp.2 _ hanswer) hinv

end Paths

namespace Call

/-- The same for a call; a panic ends with `none`. -/
def Obeys (r : Rules E) (ok : Option α → Prop) (p : Call E α) : Prop := p.prog.Obeys r ok

section Obeys

variable {r r' : Rules E} {ok ok' : Option α → Prop} {post : Option β → Prop}

@[simp] theorem obeys_pure {a : α} : (pure a : Call E α).Obeys r ok ↔ ok (some a) := Iff.rfl

@[simp] theorem obeys_panic : (panic : Call E α).Obeys r ok ↔ ok none := Iff.rfl

theorem obeys_perform {e : E α} (he : r.allowed e) (hok : ∀ b, r.answers e b → ok (some b)) :
    (perform e).Obeys r ok :=
  ⟨he, hok⟩

theorem obeys_perform_bind {e : E α} {g : α → Call E β} (he : r.allowed e)
    (hg : ∀ b, r.answers e b → (g b).Obeys r post) : (perform e >>= g).Obeys r post :=
  ⟨he, hg⟩

theorem Obeys.bind {p : Call E α} {g : α → Call E β} (hp : p.Obeys r ok)
    (hnone : ok none → post none) (hsome : ∀ a, ok (some a) → (g a).Obeys r post) :
    (p >>= g).Obeys r post := by
  refine Prog.Obeys.bind hp fun o ho => ?_
  cases o with
  | none => exact hnone ho
  | some a => exact hsome a ho

theorem Obeys.mono {p : Call E α} (hp : p.Obeys r ok) (hok : ∀ a, ok a → ok' a) :
    p.Obeys r ok' :=
  Prog.Obeys.mono hp (fun _ => id) (fun _ _ => id) hok

theorem Obeys.weaken {p : Call E α} (hp : p.Obeys r ok)
    (hallowed : ∀ {β : Type} (e : E β), r.allowed e → r'.allowed e)
    (hanswers : ∀ {β : Type} (e : E β) b, r'.answers e b → r.answers e b) : p.Obeys r' ok :=
  Prog.Obeys.mono hp hallowed hanswers fun _ => id

theorem Obeys.ends {h : Handler E σ} {inv : σ → Prop} {p : Call E α} (hp : p.Obeys r ok)
    (hr : r.Sound h inv) {s : σ} (hs : inv s) : p.Ends h s fun a s' => ok a ∧ inv s' :=
  Prog.Obeys.run hp hr hs

theorem Obeys.thread {p : Call E α} (hp : p.Obeys r ok) : p.thread.Obeys r fun _ => True :=
  Prog.Obeys.bind hp fun _ _ => trivial

end Obeys

end Call

/-! ## Sequences of actions -/

/-- One action that is allowed at its moment. -/
inductive Acts (h : Handler E σ) (allowed : {β : Type} → E β → σ → Prop) : σ → σ → Prop
  | act {β : Type} {e : E β} {s : σ} (he : allowed e s) : Acts h allowed s (h.exec e s).2

/-- What every allowed action keeps holds along every sequence of them. -/
theorem Acts.run {h : Handler E σ} {allowed : {β : Type} → E β → σ → Prop} {inv : σ → Prop}
    (hstep : ∀ {β : Type} (e : E β) s, allowed e s → inv s → inv (h.exec e s).2) {s s' : σ}
    (hs : inv s) (hrun : Relation.ReflTransGen (Acts h allowed) s s') : inv s' := by
  induction hrun with
  | refl => exact hs
  | tail _ hact ih =>
    cases hact with
    | act he => exact hstep _ _ he ih

/-! ## Threads -/

/-- A state, and the threads that work on it. -/
structure Pool (E : Type → Type u) (σ : Type) where
  state : σ
  threads : List (Prog E Unit)

namespace Pool

/-- One thread performs its next action. -/
inductive Step (h : Handler E σ) : Pool E σ → Pool E σ → Prop
  | act {β : Type} {e : E β} {next : β → Prog E Unit} {s : σ} {before rest : List (Prog E Unit)} :
      Step h ⟨s, before ++ .act e next :: rest⟩
        ⟨(h.exec e s).2, before ++ next (h.exec e s).1 :: rest⟩

/-- The pool with one more thread. -/
def spawn (p : Pool E σ) (thread : Prog E Unit) : Pool E σ := ⟨p.state, thread :: p.threads⟩

/-- A thread can run to its end before any other moves. -/
theorem runs (h : Handler E σ) (thread : Prog E Unit) (s : σ) (rest : List (Prog E Unit)) :
    Relation.ReflTransGen (Step h) ⟨s, thread :: rest⟩
      ⟨(thread.run h s).2, .ret () :: rest⟩ := by
  induction thread generalizing s with
  | ret a => exact .refl
  | act e next ih => exact .head (@Step.act E σ h _ e next s [] rest) (ih _ _)

/-- The invariant holds and every thread obeys the rules. -/
structure Sound (r : Rules E) (inv : σ → Prop) (p : Pool E σ) : Prop where
  holds : inv p.state
  obeys : ∀ t ∈ p.threads, t.Obeys r fun _ => True

variable {h : Handler E σ} {r : Rules E} {inv : σ → Prop}

theorem Sound.step (hr : r.Sound h inv) {p p' : Pool E σ} (hp : p.Sound r inv)
    (hstep : Step h p p') : p'.Sound r inv := by
  cases hstep with
  | @act β e next s before rest =>
    obtain ⟨hallowed, hnext⟩ := hp.obeys (.act e next) (by simp)
    obtain ⟨hinv, hanswer⟩ := hr e s hallowed hp.holds
    refine ⟨hinv, fun t ht => ?_⟩
    simp only [List.mem_append, List.mem_cons] at ht
    rcases ht with ht | rfl | ht
    · exact hp.obeys t (by simp [ht])
    · exact hnext _ hanswer
    · exact hp.obeys t (by simp [ht])

theorem Sound.spawn {p : Pool E σ} (hp : p.Sound r inv) {thread : Prog E Unit}
    (hthread : thread.Obeys r fun _ => True) : (p.spawn thread).Sound r inv := by
  refine ⟨hp.holds, fun t ht => ?_⟩
  rcases List.mem_cons.1 ht with rfl | ht
  · exact hthread
  · exact hp.obeys t ht

end Pool

/-! ## Budgets -/

/-- What actions cost, and what their answers bring in. -/
structure Prices (E : Type → Type u) where
  cost : {β : Type} → E β → ℕ
  gain : {β : Type} → E β → β → ℕ

/-- A program that starts with `n` and never spends more than it has; `ok` is about
its value and about what is left. -/
def Prog.Spends (c : Prices E) (ok : α → ℕ → Prop) : ℕ → Prog E α → Prop
  | n, .ret a => ok a n
  | n, .act e next => c.cost e ≤ n ∧ ∀ b, (next b).Spends c ok (n - c.cost e + c.gain e b)

section Budgets

variable {c : Prices E} {ok ok' : α → ℕ → Prop} {n m : ℕ}

theorem Prog.Spends.bind {p : Prog E α} {g : α → Prog E β} {post : β → ℕ → Prop}
    (hp : p.Spends c ok n) (hg : ∀ a m, ok a m → (g a).Spends c post m) :
    (p >>= g).Spends c post n := by
  induction p generalizing n with
  | ret a => exact hg a n hp
  | act e next ih => exact ⟨hp.1, fun b => ih b (hp.2 b)⟩

/-- The actions are allowed, and they are paid for. -/
def Prog.Pays (r : Rules E) (c : Prices E) (ok : α → ℕ → Prop) : ℕ → Prog E α → Prop
  | n, .ret a => ok a n
  | n, .act e next => r.allowed e ∧ c.cost e ≤ n ∧
      ∀ b, r.answers e b → (next b).Pays r c ok (n - c.cost e + c.gain e b)

variable {r r' : Rules E}

theorem Prog.Pays.bind {p : Prog E α} {g : α → Prog E β} {post : β → ℕ → Prop}
    (hp : p.Pays r c ok n) (hg : ∀ a m, ok a m → (g a).Pays r c post m) :
    (p >>= g).Pays r c post n := by
  induction p generalizing n with
  | ret a => exact hg a n hp
  | act e next ih => exact ⟨hp.1, hp.2.1, fun b hb => ih b (hp.2.2 b hb)⟩

theorem Prog.Pays.mono {p : Prog E α} (hp : p.Pays r c ok n) (hok : ∀ a m, ok a m → ok' a m) :
    p.Pays r c ok' n := by
  induction p generalizing n with
  | ret a => exact hok a n hp
  | act e next ih => exact ⟨hp.1, hp.2.1, fun b hb => ih b (hp.2.2 b hb)⟩

theorem Prog.Pays.obeys {p : Prog E α} (hp : p.Pays r c ok n) :
    p.Obeys r fun a => ∃ m, ok a m := by
  induction p generalizing n with
  | ret a => exact ⟨n, hp⟩
  | act e next ih => exact ⟨hp.1, fun b hb => ih b (hp.2.2 b hb)⟩

theorem Prog.Pays.spends {p : Prog E α} (hp : p.Pays r c ok n)
    (hanswers : ∀ {β : Type} (e : E β) b, r.answers e b) : p.Spends c ok n := by
  induction p generalizing n with
  | ret a => exact hp
  | act e next ih => exact ⟨hp.2.1, fun b => ih b (hp.2.2 b (hanswers e b))⟩

/-- A program whose actions are free keeps what it has. -/
theorem Prog.Obeys.pays {ok : α → Prop} {p : Prog E α} (hp : p.Obeys r ok)
    (hfree : ∀ {β : Type} (e : E β), r.allowed e →
      r'.allowed e ∧ c.cost e = 0 ∧ ∀ b, c.gain e b = 0)
    (hanswers : ∀ {β : Type} (e : E β) b, r'.answers e b → r.answers e b) :
    p.Pays r' c (fun a m => ok a ∧ m = n) n := by
  induction p with
  | ret a => exact ⟨hp, rfl⟩
  | act e next ih =>
    obtain ⟨hallowed, hcost, hgain⟩ := hfree e hp.1
    refine ⟨hallowed, by omega, fun b hb => ?_⟩
    rw [hcost, hgain]
    exact ih b (hp.2 b (hanswers e b hb))

end Budgets

/-- What the state holds grows by no more than the action that changes it costs,
less what its answer brings in. -/
def Prices.Balanced (c : Prices E) (h : Handler E σ) (held : σ → ℕ) : Prop :=
  ∀ {β : Type} (e : E β) (s : σ),
    held (h.exec e s).2 + c.gain e (h.exec e s).1 ≤ held s + c.cost e

namespace Pool

/-- What the state holds and what the threads can still spend come to at most
`total`. -/
def Funded (c : Prices E) (held : σ → ℕ) (total : ℕ) (p : Pool E σ) : Prop :=
  ∃ budgets : List (ℕ × Prog E Unit), budgets.map Prod.snd = p.threads ∧
    (∀ b ∈ budgets, b.2.Spends c (fun _ _ => True) b.1) ∧
    held p.state + (budgets.map Prod.fst).sum ≤ total

variable {h : Handler E σ} {c : Prices E} {held : σ → ℕ} {total : ℕ}

theorem Funded.step (hc : c.Balanced h held) {p p' : Pool E σ} (hp : p.Funded c held total)
    (hstep : Step h p p') : p'.Funded c held total := by
  cases hstep with
  | @act β e next s before rest =>
    obtain ⟨budgets, hthreads, hspends, htotal⟩ := hp
    obtain ⟨early, late, rfl, rfl, hlate⟩ := List.map_eq_append_iff.1 hthreads
    obtain ⟨⟨n, thread⟩, late, rfl, rfl, rfl⟩ := List.map_eq_cons_iff.1 hlate
    obtain ⟨hcost, hnext⟩ := hspends (n, .act e next) (by simp)
    refine ⟨early ++ (n - c.cost e + c.gain e (h.exec e s).1, next (h.exec e s).1) :: late,
      by simp, fun b hb => ?_, ?_⟩
    · simp only [List.mem_append, List.mem_cons] at hb
      rcases hb with hb | rfl | hb
      · exact hspends b (by simp [hb])
      · exact hnext _
      · exact hspends b (by simp [hb])
    · have hbalance := hc e s
      simp only [List.map_append, List.map_cons, List.sum_append, List.sum_cons] at htotal ⊢
      omega

/-- A thread may join that brings what it starts with. -/
theorem Funded.spawn_with {p : Pool E σ} (hp : p.Funded c held total) {thread : Prog E Unit}
    {n : ℕ} (hthread : thread.Spends c (fun _ _ => True) n) :
    (p.spawn thread).Funded c held (total + n) := by
  obtain ⟨budgets, hthreads, hspends, htotal⟩ := hp
  refine ⟨(n, thread) :: budgets, by simp [Pool.spawn, hthreads], ?_, ?_⟩
  · exact List.forall_mem_cons.2 ⟨hthread, hspends⟩
  · simp only [Pool.spawn, List.map_cons, List.sum_cons]
    omega

theorem Funded.spawn {p : Pool E σ} (hp : p.Funded c held total) {thread : Prog E Unit}
    (hthread : thread.Spends c (fun _ _ => True) 0) : (p.spawn thread).Funded c held total :=
  hp.spawn_with hthread

/-- The state changes from outside, by what the total changes. -/
theorem Funded.interfere {p : Pool E σ} (hp : p.Funded c held total) {s : σ} {total' : ℕ}
    (hheld : held s + total ≤ held p.state + total') :
    Funded c held total' ⟨s, p.threads⟩ := by
  obtain ⟨budgets, hthreads, hspends, htotal⟩ := hp
  refine ⟨budgets, hthreads, hspends, ?_⟩
  dsimp only
  omega

theorem Funded.held_le {p : Pool E σ} (hp : p.Funded c held total) : held p.state ≤ total := by
  obtain ⟨budgets, -, -, htotal⟩ := hp
  omega

end Pool

end Atomic
