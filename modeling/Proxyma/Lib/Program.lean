import Mathlib

/-!
# Programs made of atomic actions

A program over a signature `E` of atomic actions is a tree: it stops with a
value, or it performs one action and continues with what the action returned.
A `Handler` says what an action does to a state, and three readings of the same
tree follow from it:

* `Prog.run` performs all actions without interruption;
* `Prog.crash n` is the state in which the process dies after `n` actions;
* `Machine.Step` lets a program hold a lock while other actions interfere
  between its own.

`Only` is the frame rule: a program made of actions that keep something keeps
it.  For arguments that need the state, `Safe` says that every action of a
program keeps a `Contract`: under interference allowed by `rely`, each action
permitted by `assume` makes a transition in `guarantee`.  `Keeps` is its form
for programs that work from every state of an invariant.  `Safe.run` and
`Safe.crash` read it off for the first two semantics and `Machine.Sound.step`
for the third.
-/

namespace Atomic

universe u

variable {E : Type → Type u} {σ : Type} {s : σ}

/-- A program over the atomic actions `E`. -/
inductive Prog (E : Type → Type u) (α : Type) : Type (max 1 u)
  | ret (value : α)
  | act {β : Type} (action : E β) (next : β → Prog E α)

/-- What every action returns and how it changes the state. -/
structure Handler (E : Type → Type u) (σ : Type) where
  exec : {β : Type} → E β → σ → β × σ

namespace Prog

variable {α β γ : Type}

/-- Continue a program with another one. -/
def bind : Prog E α → (α → Prog E β) → Prog E β
  | ret a, g => g a
  | act e next, g => act e fun b => (next b).bind g

instance : Monad (Prog E) where
  pure := ret
  bind := bind

/-- The program that performs one action. -/
def perform (e : E β) : Prog E β := act e ret

@[simp] theorem pure_eq (a : α) : (pure a : Prog E α) = ret a := rfl

@[simp] theorem ret_bind (a : α) (g : α → Prog E β) : (ret a >>= g : Prog E β) = g a := rfl

theorem bind_assoc (p : Prog E α) (f : α → Prog E β) (g : β → Prog E γ) :
    (p >>= f) >>= g = p >>= fun a => f a >>= g := by
  induction p with
  | ret a => rfl
  | act e next ih => exact congrArg (act e) (funext ih)

/-- The final value and state of an uninterrupted run. -/
def run (h : Handler E σ) : Prog E α → σ → α × σ
  | ret a, s => (a, s)
  | act e next, s => (next (h.exec e s).1).run h (h.exec e s).2

/-- What is left of a program, and the state, after its first `n` actions. -/
def after (h : Handler E σ) : ℕ → Prog E α → σ → Prog E α × σ
  | 0, p, s => (p, s)
  | _ + 1, ret a, s => (ret a, s)
  | n + 1, act e next, s => after h n (next (h.exec e s).1) (h.exec e s).2

/-- The state in which a process dies that stops after `n` actions. -/
def crash (h : Handler E σ) (n : ℕ) (p : Prog E α) (s : σ) : σ := (p.after h n s).2

variable (h : Handler E σ)

@[simp] theorem run_ret (a : α) (s : σ) : (ret a : Prog E α).run h s = (a, s) := rfl

@[simp] theorem run_act (e : E β) (next : β → Prog E α) (s : σ) :
    (act e next).run h s = (next (h.exec e s).1).run h (h.exec e s).2 := rfl

@[simp] theorem run_perform (e : E β) (s : σ) : (perform e).run h s = h.exec e s := rfl

@[simp] theorem run_bind (p : Prog E α) (g : α → Prog E β) (s : σ) :
    (p >>= g).run h s = (g (p.run h s).1).run h (p.run h s).2 := by
  induction p generalizing s with
  | ret a => rfl
  | act e next ih => exact ih _ _

@[simp] theorem crash_ret (n : ℕ) (a : α) (s : σ) : (ret a : Prog E α).crash h n s = s := by
  cases n <;> rfl

end Prog

open Prog

/-- What the actions of a program assume about the moment they are performed,
what may change between them, and what each of them does. -/
structure Contract (E : Type → Type u) (σ : Type) where
  assume : {β : Type} → E β → σ → Prop
  rely : σ → σ → Prop
  guarantee : σ → σ → Prop

/-- The contract of a program that runs alone and keeps an invariant. -/
def Contract.alone (inv : σ → Prop) : Contract E σ where
  assume := fun _ _ => True
  rely := Eq
  guarantee := fun _ s' => inv s'

variable {α β : Type} {h : Handler E σ} {c : Contract E σ} {post : α → σ → Prop} {g : α → Prog E β}
  {post' : β → σ → Prop} {p : Prog E α} {e : E β} {a : α}

/-- From state `s`, every action of the program keeps the contract, and the
program ends in a state that satisfies `post`. -/
def Safe (h : Handler E σ) (c : Contract E σ) (post : α → σ → Prop) : Prog E α → σ → Prop
  | .ret a, s => ∀ s', c.rely s s' → post a s'
  | .act e next, s => ∀ s', c.rely s s' → c.assume e s' →
      c.guarantee s' (h.exec e s').2 ∧ Safe h c post (next (h.exec e s').1) (h.exec e s').2

theorem Safe.bind (hrefl : ∀ s, c.rely s s) (hp : Safe h c post p s)
    (hg : ∀ a s', post a s' → Safe h c post' (g a) s') : Safe h c post' (p >>= g) s := by
  induction p generalizing s with
  | ret a => exact hg a s (hp s (hrefl s))
  | act e next ih =>
    intro s' hrely hassume
    obtain ⟨hguar, hnext⟩ := hp s' hrely hassume
    exact ⟨hguar, ih _ hnext⟩

/-- Perform an action and go on with what it returned. -/
theorem safe_perform_bind {g : β → Prog E α}
    (hg : ∀ s', c.rely s s' → c.assume e s' → c.guarantee s' (h.exec e s').2 ∧
      Safe h c post (g (h.exec e s').1) (h.exec e s').2) :
    Safe h c post (perform e >>= g) s :=
  hg

theorem Safe.mono {post' : α → σ → Prop} (hp : Safe h c post p s)
    (hpost : ∀ a s, post a s → post' a s) : Safe h c post' p s := by
  induction p generalizing s with
  | ret a => exact fun s' hs => hpost a s' (hp s' hs)
  | act e next ih =>
    intro s' hrely hassume
    obtain ⟨hguar, hnext⟩ := hp s' hrely hassume
    exact ⟨hguar, ih _ hnext⟩

/-- Interference before the next action does not hurt. -/
theorem Safe.stable {s' : σ} (htrans : ∀ {a b d}, c.rely a b → c.rely b d → c.rely a d)
    (hp : Safe h c post p s) (hs : c.rely s s') : Safe h c post p s' := by
  cases p with
  | ret _ | act _ _ => exact fun t ht => hp t (htrans hs ht)

/-! ## Programs that run alone -/

section Alone

variable {inv : σ → Prop}

theorem safe_ret (hpost : post a s) : Safe h (Contract.alone inv) post (.ret a) s := by
  rintro s' rfl
  exact hpost

theorem safe_perform {e : E α} (hinv : inv (h.exec e s).2)
    (hpost : post (h.exec e s).1 (h.exec e s).2) :
    Safe h (Contract.alone inv) post (perform e) s := by
  rintro s' rfl -
  exact ⟨hinv, safe_ret hpost⟩

theorem Safe.then (hp : Safe h (Contract.alone inv) post p s)
    (hg : ∀ a s', post a s' → Safe h (Contract.alone inv) post' (g a) s') :
    Safe h (Contract.alone inv) post' (p >>= g) s :=
  hp.bind (fun _ => rfl) hg

theorem Safe.weaken {inv' : σ → Prop} (hp : Safe h (Contract.alone inv) post p s)
    (hinv : ∀ s, inv s → inv' s) : Safe h (Contract.alone inv') post p s := by
  induction p generalizing s with
  | ret a => exact hp
  | act e next ih =>
    rintro s' rfl -
    obtain ⟨hguar, hnext⟩ := hp s rfl trivial
    exact ⟨hinv _ hguar, ih _ hnext⟩

theorem safe_look_bind {g : β → Prog E α} {b : β} (he : h.exec e s = (b, s)) (hs : inv s)
    (hg : Safe h (Contract.alone inv) post (g b) s) :
    Safe h (Contract.alone inv) post (perform e >>= g) s := by
  rintro s' rfl -
  rw [he]
  exact ⟨hs, hg⟩

theorem Safe.run (hp : Safe h (Contract.alone inv) post p s) :
    post (p.run h s).1 (p.run h s).2 := by
  induction p generalizing s with
  | ret a => exact hp s rfl
  | act e next ih => exact ih _ (hp s rfl trivial).2

theorem Safe.crash (hp : Safe h (Contract.alone inv) post p s) (hs : inv s) (n : ℕ) :
    inv (p.crash h n s) := by
  induction n generalizing p s with
  | zero => exact hs
  | succ n ih =>
    cases p with
    | ret a => simpa using hs
    | act e next =>
      obtain ⟨hinv, hnext⟩ := hp s rfl trivial
      exact ih hnext hinv

end Alone

/-! ## Frames -/

/-- Every action a program can perform, in whatever state, makes a transition in
`keeps`. -/
def Only (h : Handler E σ) (keeps : σ → σ → Prop) : Prog E α → Prop
  | .ret _ => True
  | .act e next => (∀ s, keeps s (h.exec e s).2) ∧ ∀ b, Only h keeps (next b)

section Frames

variable {keeps : σ → σ → Prop}

theorem Only.bind (hp : Only h keeps p) (hg : ∀ a, Only h keeps (g a)) :
    Only h keeps (p >>= g) := by
  induction p with
  | ret a => exact hg a
  | act e next ih => exact ⟨hp.1, fun b => ih b (hp.2 b)⟩

theorem only_perform (he : ∀ s, keeps s (h.exec e s).2) : Only h keeps (perform e) :=
  ⟨he, fun _ => trivial⟩

/-- A program made of actions that keep something keeps it. -/
theorem Only.run (hp : Only h keeps p) (hrefl : ∀ s, keeps s s)
    (htrans : ∀ {a b d}, keeps a b → keeps b d → keeps a d) (s : σ) : keeps s (p.run h s).2 := by
  induction p generalizing s with
  | ret a => exact hrefl s
  | act e next ih => exact htrans (hp.1 s) (ih _ (hp.2 _) _)

/-- Such a program keeps every invariant that what it keeps implies. -/
theorem Only.safe {inv : σ → Prop} (hp : Only h keeps p) (hrefl : ∀ s, keeps s s)
    (htrans : ∀ {a b d}, keeps a b → keeps b d → keeps a d) (hinv : ∀ s', keeps s s' → inv s') :
    Safe h (Contract.alone inv) (fun _ s' => keeps s s') p s := by
  induction p generalizing s with
  | ret a => exact safe_ret (hrefl s)
  | act e next ih =>
    rintro s' rfl -
    refine ⟨hinv _ (hp.1 s), (ih _ (hp.2 _) fun t ht => hinv t (htrans (hp.1 s) ht)).mono ?_⟩
    exact fun a t ht => htrans (hp.1 s) ht

theorem Only.mono {keeps' : σ → σ → Prop} (hp : Only h keeps p)
    (hkeeps : ∀ s s', keeps s s' → keeps' s s') : Only h keeps' p := by
  induction p with
  | ret a => trivial
  | act e next ih => exact ⟨fun s => hkeeps _ _ (hp.1 s), fun b => ih b (hp.2 b)⟩

/-- Interference that keeps it as well does not matter. -/
theorem Only.safe_among (hp : Only h (fun s s' => keeps s s' ∧ c.guarantee s s') p)
    (htrans : ∀ {a b d}, keeps a b → keeps b d → keeps a d)
    (hrely : ∀ s s', c.rely s s' → keeps s s') (s : σ) : Safe h c (fun _ s' => keeps s s') p s := by
  induction p generalizing s with
  | ret a => exact hrely s
  | act e next ih =>
    intro s' hs _
    obtain ⟨hkeeps, hguarantee⟩ := hp.1 s'
    have hstep := htrans (hrely s s' hs) hkeeps
    exact ⟨hguarantee, (ih _ (hp.2 _) _).mono fun a t ht => htrans hstep ht⟩

end Frames

/-! ## Invariants under interference -/

/-- A contract whose interference is a preorder and keeps an invariant. -/
structure Contract.Regular (c : Contract E σ) (inv : σ → Prop) : Prop where
  refl : ∀ s, c.rely s s
  trans : ∀ {a b d}, c.rely a b → c.rely b d → c.rely a d
  inv : ∀ {s s'}, c.rely s s' → inv s → inv s'

/-- From every state that satisfies the invariant, a program keeps the contract
and the invariant, and returns a value that satisfies `post`. -/
def Keeps (h : Handler E σ) (c : Contract E σ) (inv : σ → Prop) (post : α → Prop)
    (p : Prog E α) : Prop :=
  ∀ s, inv s → Safe h c (fun a s' => post a ∧ inv s') p s

section Keeps

variable {inv : σ → Prop} {post : α → Prop}

theorem Contract.Regular.ret (hc : c.Regular inv) (ha : post a) : Keeps h c inv post (.ret a) :=
  fun _ hs _ hrely => ⟨ha, hc.inv hrely hs⟩

theorem Contract.Regular.bind (hc : c.Regular inv) {post' : β → Prop} (hp : Keeps h c inv post p)
    (hg : ∀ a, post a → Keeps h c inv post' (g a)) : Keeps h c inv post' (p >>= g) :=
  fun s hs => (hp s hs).bind hc.refl fun a s' ha => hg a ha.1 s' ha.2

/-- One action: what has to be shown is about the moment it is performed. -/
theorem Contract.Regular.perform (hc : c.Regular inv) {e : E α}
    (he : ∀ s, inv s → c.assume e s →
      c.guarantee s (h.exec e s).2 ∧ inv (h.exec e s).2 ∧ post (h.exec e s).1) :
    Keeps h c inv post (perform e) := by
  intro s hs s' hrely hassume
  obtain ⟨hguar, hinv, hpost⟩ := he s' (hc.inv hrely hs) hassume
  exact ⟨hguar, fun _ hrely' => ⟨hpost, hc.inv hrely' hinv⟩⟩

end Keeps

/-! ## Executions under interference -/

/-- A program runs to its end while `env` happens between its actions. -/
inductive Executes (h : Handler E σ) (env : σ → σ → Prop) : Prog E α → σ → α → σ → Prop
  | ret {a : α} {s : σ} : Executes h env (.ret a) s a s
  | act {β : Type} {e : E β} {next : β → Prog E α} {s s' : σ} {a : α}
      (hnext : Executes h env (next (h.exec e s).1) (h.exec e s).2 a s') :
      Executes h env (.act e next) s a s'
  | interfere {p : Prog E α} {s t s' : σ} {a : α} (hs : env s t) (hp : Executes h env p t a s') :
      Executes h env p s a s'

theorem executes_run {env : σ → σ → Prop} (p : Prog E α) (s : σ) :
    Executes h env p s (p.run h s).1 (p.run h s).2 := by
  induction p generalizing s with
  | ret a => exact .ret
  | act e next ih => exact .act (ih _ _)

/-- A safe program ends in its postcondition, if its actions are unconditional. -/
theorem Safe.executes {env : σ → σ → Prop} (hrefl : ∀ s, c.rely s s)
    (htrans : ∀ {a b d}, c.rely a b → c.rely b d → c.rely a d)
    (hassume : ∀ {β : Type} (e : E β) s, c.assume e s) (henv : ∀ s s', env s s' → c.rely s s')
    {s' : σ} (hp : Safe h c post p s) (hrun : Executes h env p s a s') : post a s' := by
  induction hrun with
  | ret => exact hp _ (hrefl _)
  | act hnext ih => exact ih (hp _ (hrefl _) (hassume _ _)).2
  | interfere hs hp' ih => exact ih (hp.stable htrans (henv _ _ hs))

/-! ## Programs under a lock -/

/-- A state shared by programs that take turns holding one lock. -/
structure Machine (E : Type → Type u) (σ : Type) where
  state : σ
  holder : Option (Prog E Unit)

variable {m m' : Machine E σ}

namespace Machine

/-- One step: a program takes the lock, performs an action or lets go, or
something that needs no lock happens.  `env held` says what the latter can be
while the lock is, or is not, held. -/
inductive Step (h : Handler E σ) (assume : {β : Type} → E β → σ → Prop)
    (admits : Prog E Unit → Prop) (env : Bool → σ → σ → Prop) : Machine E σ → Machine E σ → Prop
  | acquire {s : σ} {p : Prog E Unit} (hp : admits p) :
      Step h assume admits env ⟨s, none⟩ ⟨s, some p⟩
  | advance {s : σ} {β : Type} {e : E β} {next : β → Prog E Unit} (he : assume e s) :
      Step h assume admits env ⟨s, some (.act e next)⟩
        ⟨(h.exec e s).2, some (next (h.exec e s).1)⟩
  | release {s : σ} : Step h assume admits env ⟨s, some (.ret ())⟩ ⟨s, none⟩
  | interfere {s s' : σ} {holder : Option (Prog E Unit)} (hs : env holder.isSome s s') :
      Step h assume admits env ⟨s, holder⟩ ⟨s', holder⟩

/-- A step is also one under other conditions that hold at its moment. -/
theorem Step.mono {assume assume' : {β : Type} → E β → σ → Prop} {admits : Prog E Unit → Prop}
    {env env' : Bool → σ → σ → Prop} (hstep : Step h assume admits env m m')
    (hassume : ∀ {β : Type} (e : E β), assume e m.state → assume' e m.state)
    (henv : ∀ held s s', env held s s' → env' held s s') : Step h assume' admits env' m m' := by
  cases hstep with
  | acquire hp => exact .acquire hp
  | advance he => exact .advance (hassume _ he)
  | release => exact .release
  | interfere hs => exact .interfere (henv _ _ _ hs)

/-- The shared invariant while the lock is free, and the holder's safety while
it is not. -/
def Sound (h : Handler E σ) (c : Contract E σ) (inv : σ → Prop) (m : Machine E σ) : Prop :=
  match m.holder with
  | none => inv m.state
  | some p => Safe h c (fun _ s => inv s) p m.state

variable {admits : Prog E Unit → Prop} {env : Bool → σ → σ → Prop} {inv : σ → Prop}

/-- Every step keeps the machine sound, and leaves the state alone, is a
guaranteed transition or is interference. -/
theorem Sound.step (hc : c.Regular inv) (hadmits : ∀ p, admits p → Keeps h c inv (fun _ => True) p)
    (hheld : ∀ s s', env true s s' → c.rely s s') (hfree : ∀ s s', env false s s' → inv s → inv s')
    (hm : m.Sound h c inv) (hstep : Step h c.assume admits env m m') :
    m'.Sound h c inv ∧
      (m'.state = m.state ∨ c.guarantee m.state m'.state ∨
        env m.holder.isSome m.state m'.state) := by
  cases hstep with
  | @acquire s p hp =>
    exact ⟨(hadmits p hp s hm).mono fun _ _ hpost => hpost.2, .inl rfl⟩
  | @advance s β e next he =>
    obtain ⟨hguar, hnext⟩ := hm s (hc.refl s) he
    exact ⟨hnext, .inr (.inl hguar)⟩
  | @release s => exact ⟨hm s (hc.refl s), .inl rfl⟩
  | @interfere s s' holder hs =>
    refine ⟨?_, .inr (.inr hs)⟩
    cases holder with
    | none => exact hfree s s' hs hm
    | some p => exact Safe.stable hc.trans hm (hheld s s' hs)

/-- A machine that starts with a free lock and the invariant stays sound. -/
theorem Sound.run (hc : c.Regular inv) (hadmits : ∀ p, admits p → Keeps h c inv (fun _ => True) p)
    (hheld : ∀ s s', env true s s' → c.rely s s') (hfree : ∀ s s', env false s s' → inv s → inv s')
    (hm : m.Sound h c inv) (hrun : Relation.ReflTransGen (Step h c.assume admits env) m m') :
    m'.Sound h c inv := by
  induction hrun with
  | refl => exact hm
  | tail _ hstep ih => exact (Sound.step hc hadmits hheld hfree ih hstep).1

end Machine

end Atomic
