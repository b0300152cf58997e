/-!
# Programs that talk to an environment

An asynchronous task computes, asks its environment for something (a reply
from a remote service, the clock, a lock), and goes on with the answer. `Prog`
is that shape: a tree whose inner nodes are the actions a task performs and
whose branches are the answers it may get. Every branch is finite, so a
`Prog` always terminates once its actions are answered.

Two readings of a program are used below:

* `Runs p h a` — the *histories* of `p`: the list of answered actions `h` that
  ends in the result `a`, for every possible environment;
* `wp C p Q s` — the program obeys the contract `C` from the ghost state `s`
  and ends in `Q`. A contract says which actions are allowed in a ghost state
  and how an answer moves it. `wp` is compositional (`wp_bind`, `wp_mono`)
  and is preserved by every answered action (`wp_act`), which is what lets an
  invariant over many tasks keep track of what each of them may still do.

`wp_runs` connects the two, and `wp_along` does so in an environment that has a
state of its own.
-/

namespace NxCacheServer.Lib

/-- A terminating program over actions `Act`, an action `e` being answered by
a value of type `Resp e`. -/
inductive Prog (Act : Type) (Resp : Act → Type) (α : Type) : Type
  | done (a : α)
  | act (e : Act) (k : Resp e → Prog Act Resp α)

namespace Prog

variable {Act : Type} {Resp : Act → Type} {α β γ σ : Type}

/-- Run `p`, then `f` on its result. -/
def bind : Prog Act Resp α → (α → Prog Act Resp β) → Prog Act Resp β
  | .done a, f => f a
  | .act e k, f => .act e fun r => (k r).bind f

instance : Monad (Prog Act Resp) where
  pure := .done
  bind := bind

/-- Perform one action and return its answer. -/
def perform (e : Act) : Prog Act Resp (Resp e) := .act e .done

@[simp] theorem pure_eq (a : α) : (pure a : Prog Act Resp α) = .done a := rfl

@[simp] theorem done_bind (a : α) (f : α → Prog Act Resp β) :
    (Prog.done a >>= f) = f a := rfl

@[simp] theorem act_bind (e : Act) (k : Resp e → Prog Act Resp α)
    (f : α → Prog Act Resp β) : (Prog.act e k >>= f) = .act e fun r => k r >>= f := rfl

/-- Sequencing is associative, so a handler may be cut into helpers anywhere. -/
theorem bind_assoc (p : Prog Act Resp α) (f : α → Prog Act Resp β)
    (g : β → Prog Act Resp γ) : p >>= f >>= g = p >>= fun a => f a >>= g := by
  induction p with
  | done a => rfl
  | act e k ih =>
    simp only [act_bind]
    exact congrArg (Prog.act e) (funext ih)

/-! ## Histories -/

/-- One answered action. -/
abbrev Event (Act : Type) (Resp : Act → Type) := (e : Act) × Resp e

/-- `Runs p h a`: some environment answers `p` along `h` and it returns `a`. -/
inductive Runs : Prog Act Resp α → List (Event Act Resp) → α → Prop
  | done (a : α) : Runs (.done a) [] a
  | act {e : Act} {k : Resp e → Prog Act Resp α} {r : Resp e}
      {h : List (Event Act Resp)} {a : α} :
      Runs (k r) h a → Runs (.act e k) (⟨e, r⟩ :: h) a

/-- A program that is over does nothing and returns its result. -/
theorem runs_done {a b : α} {h : List (Event Act Resp)} :
    Runs (Prog.done a : Prog Act Resp α) h b ↔ h = [] ∧ b = a := by
  constructor
  · intro hr
    cases hr
    exact ⟨rfl, rfl⟩
  · intro hr
    rw [hr.1, hr.2]
    exact .done a

/-- The first event of a run is an answer to the first action, whatever answer that
is. -/
theorem runs_act {e : Act} {k : Resp e → Prog Act Resp α} {h : List (Event Act Resp)} {a : α} :
    Runs (.act e k) h a ↔ ∃ r h', h = ⟨e, r⟩ :: h' ∧ Runs (k r) h' a := by
  constructor
  · intro hr
    cases hr with
    | act hr => exact ⟨_, _, rfl, hr⟩
  · intro hr
    obtain ⟨r, h', heq, hr⟩ := hr
    rw [heq]
    exact .act hr

/-- A run of a sequence is a run of the first part followed by one of the second. -/
theorem runs_bind {p : Prog Act Resp α} {f : α → Prog Act Resp β} {h : List (Event Act Resp)}
    {b : β} : Runs (p >>= f) h b ↔ ∃ h₁ a h₂, h = h₁ ++ h₂ ∧ Runs p h₁ a ∧ Runs (f a) h₂ b := by
  constructor
  · intro hr
    induction p generalizing h with
    | done a => exact ⟨[], a, h, rfl, .done a, hr⟩
    | act e k ih =>
      cases hr with
      | act hk =>
        obtain ⟨h₁, a, h₂, rfl, h1, h2⟩ := ih _ hk
        exact ⟨_ :: h₁, a, h₂, rfl, .act h1, h2⟩
  · intro hr
    obtain ⟨h₁, a, h₂, rfl, h1, h2⟩ := hr
    induction h1 with
    | done a => exact h2
    | act _ ih => exact .act (ih h2)

/-- A history decides the result. -/
theorem Runs.unique {p : Prog Act Resp α} {h : List (Event Act Resp)} {a b : α}
    (ha : Runs p h a) (hb : Runs p h b) : a = b := by
  induction ha with
  | done a =>
    cases hb
    rfl
  | act _ ih =>
    cases hb with
    | act hb => exact ih hb

/-! ## Contracts -/

/-- What a task may do in a ghost state, which answers it is promised, and how
an answer moves the ghost state. -/
structure Contract (Act : Type) (Resp : Act → Type) (σ : Type) where
  allow : σ → Act → Prop
  promise : σ → (e : Act) → Resp e → Prop
  update : σ → (e : Act) → Resp e → σ

/-- `p` keeps the contract from ghost state `s` and returns into `Q`. -/
def wp (C : Contract Act Resp σ) : Prog Act Resp α → (α → σ → Prop) → σ → Prop
  | .done a, Q, s => Q a s
  | .act e k, Q, s =>
    C.allow s e ∧ ∀ r, C.promise s e r → (k r).wp C Q (C.update s e r)

variable {C D : Contract Act Resp σ} {Q R : α → σ → Prop} {s : σ}

@[simp] theorem wp_done (a : α) : (Prog.done a : Prog Act Resp α).wp C Q s ↔ Q a s := Iff.rfl

/-- An action has to be allowed, and the rest has to be right after every answer that
the contract promises. -/
theorem wp_act {e : Act} {k : Resp e → Prog Act Resp α} :
    (Prog.act e k).wp C Q s ↔
      C.allow s e ∧ ∀ r, C.promise s e r → (k r).wp C Q (C.update s e r) := Iff.rfl

/-- What the second part needs is what the first has to establish. -/
theorem wp_bind {p : Prog Act Resp α} {f : α → Prog Act Resp β} {Q : β → σ → Prop} :
    (p >>= f).wp C Q s ↔ p.wp C (fun a t => (f a).wp C Q t) s := by
  induction p generalizing s with
  | done a => rfl
  | act e k ih =>
    rw [act_bind, wp_act, wp_act]
    simp only [ih]

/-- The rule of consequence, also between contracts: `D` allows what `C`
allows, promises at least as much, and moves alike. -/
theorem wp_weaken {p : Prog Act Resp α} (hp : p.wp C Q s)
    (hallow : ∀ s e, C.allow s e → D.allow s e)
    (hpromise : ∀ s e r, C.allow s e → D.promise s e r → C.promise s e r)
    (hupdate : ∀ s e r, C.allow s e → D.promise s e r → D.update s e r = C.update s e r)
    (hQ : ∀ a s, Q a s → R a s) : p.wp D R s := by
  induction p generalizing s with
  | done a => exact hQ a s hp
  | act e k ih =>
    refine ⟨hallow s e hp.1, fun r hr => ?_⟩
    rw [hupdate s e r hp.1 hr]
    exact ih r (hp.2 r (hpromise s e r hp.1 hr))

/-- The rule of consequence, with the ghost state the same on both sides. -/
theorem wp_mono {p : Prog Act Resp α} (hp : p.wp C Q s) (hQ : ∀ a s, Q a s → R a s) :
    p.wp C R s :=
  wp_weaken hp (fun _ _ h => h) (fun _ _ _ _ h => h) (fun _ _ _ _ _ => rfl) hQ

/-- The sequence rule as it is used: `R` is what holds in between. -/
theorem wp_bind_of {p : Prog Act Resp α} {f : α → Prog Act Resp β} {Q : β → σ → Prop}
    (hp : p.wp C R s) (hf : ∀ a s', R a s' → (f a).wp C Q s') : (p >>= f).wp C Q s :=
  wp_bind.mpr (wp_mono hp hf)

/-! ## Contracts along histories -/

/-- The contract's promises hold along `h`, from ghost state `s`. -/
def Contract.Kept (C : Contract Act Resp σ) : σ → List (Event Act Resp) → Prop
  | _, [] => True
  | s, ev :: h => C.promise s ev.1 ev.2 ∧ C.Kept (C.update s ev.1 ev.2) h

/-- The ghost state after `h`. -/
def Contract.after (C : Contract Act Resp σ) (s : σ) (h : List (Event Act Resp)) : σ :=
  h.foldl (fun s ev => C.update s ev.1 ev.2) s

@[simp] theorem Contract.after_nil (s : σ) : C.after s [] = s := rfl

@[simp] theorem Contract.after_cons (s : σ) (ev : Event Act Resp) (h : List (Event Act Resp)) :
    C.after s (ev :: h) = C.after (C.update s ev.1 ev.2) h := rfl

/-- What holds of the ghost state after a history held from the start, or was
brought about by one of its events. -/
theorem Contract.after_origin {P : σ → Prop} {R : Event Act Resp → Prop}
    (hstep : ∀ s (ev : Event Act Resp), P (C.update s ev.1 ev.2) → P s ∨ R ev) :
    ∀ {h : List (Event Act Resp)} {s : σ}, P (C.after s h) → P s ∨ ∃ ev ∈ h, R ev := by
  intro h
  induction h with
  | nil =>
    intro s hs
    exact Or.inl hs
  | cons ev h ih =>
    intro s hs
    rcases ih hs with hs | ⟨ev', hmem, hev⟩
    · rcases hstep s ev hs with hs | hev
      · exact Or.inl hs
      · exact Or.inr ⟨ev, List.mem_cons_self .., hev⟩
    · exact Or.inr ⟨ev', List.mem_cons_of_mem _ hmem, hev⟩

/-- A program that keeps its contract ends in `Q` along every history that
keeps the promises. -/
theorem wp_runs {p : Prog Act Resp α} {h : List (Event Act Resp)} {a : α} (hr : Runs p h a) :
    ∀ {s : σ}, p.wp C Q s → C.Kept s h → Q a (C.after s h) := by
  induction hr with
  | done a =>
    intro s hp _
    exact hp
  | act _ ih =>
    intro s hp hkept
    exact ih (hp.2 _ hkept.1) hkept.2

/-! ## Programs under way -/

/-- `q` is what is left of `p` after the answered actions `h`. -/
inductive After (p : Prog Act Resp α) : List (Event Act Resp) → Prog Act Resp α → Prop
  | nil : After p [] p
  | snoc {h : List (Event Act Resp)} {e : Act} {k : Resp e → Prog Act Resp α} (r : Resp e) :
      After p h (.act e k) → After p (h ++ [⟨e, r⟩]) (k r)

@[simp] theorem Contract.after_snoc (s : σ) (h : List (Event Act Resp)) (ev : Event Act Resp) :
    C.after s (h ++ [ev]) = C.update (C.after s h) ev.1 ev.2 := by
  simp [Contract.after, List.foldl_append]

/-- `q` is what is left of `p` once its next action is answered. -/
inductive Next : Prog Act Resp α → Prog Act Resp α → Prop
  | answered {e : Act} {k : Resp e → Prog Act Resp α} (r : Resp e) : Next (k r) (.act e k)

/-- A program is a tree without infinite branches: it can only be answered so often.
-/
theorem next_wellFounded : WellFounded fun q p : Prog Act Resp α => Next q p := by
  refine ⟨?_⟩
  intro p
  induction p with
  | done a => exact .intro _ fun _ hnext => nomatch hnext
  | act e k ih =>
    refine .intro _ ?_
    intro q hnext
    cases hnext with
    | answered r => exact ih r

/-- A program is left, and its next action has `n` phases before it: an answer
comes closer to the end of the program, a phase to the answer. -/
def Nearer : Prog Act Resp α × Nat → Prog Act Resp α × Nat → Prop := Prod.Lex Next (· < ·)

/-- The same with a counter that may go down while the program stays where it is. -/
theorem nearer_wellFounded :
    WellFounded fun left' left : Prog Act Resp α × Nat => Nearer left' left :=
  (Prod.lex ⟨Next, next_wellFounded⟩ Nat.lt_wfRel).wf

/-- An answer brings a program nearer to its end, whatever becomes of the counter. -/
theorem nearer_answered {e : Act} {k : Resp e → Prog Act Resp α} {r : Resp e} {m n : Nat} :
    Nearer (k r, m) (.act e k, n) := .left _ _ (.answered r)

/-- A counter that goes down brings it nearer too. -/
theorem nearer_phase {p : Prog Act Resp α} {m n : Nat} (h : m < n) : Nearer (p, m) (p, n) :=
  .right _ h

/-- The contract promises nothing about the answers. -/
def Contract.Unpromising (C : Contract Act Resp σ) : Prop := ∀ s e r, C.promise s e r

/-- A contract that promises nothing is kept by every history. -/
theorem Contract.Unpromising.kept (hC : C.Unpromising) :
    ∀ (h : List (Event Act Resp)) (s : σ), C.Kept s h := by
  intro h
  induction h with
  | nil =>
    intro s
    trivial
  | cons ev h ih =>
    intro s
    exact ⟨hC _ _ _, ih _⟩

/-- A program that keeps its contract asks only for what it is allowed. -/
theorem wp_runs_allowed {p : Prog Act Resp α} {h : List (Event Act Resp)} {a : α} (hr : Runs p h a)
    (hC : C.Unpromising) : ∀ {s : σ}, p.wp C Q s → ∀ {pre ev post}, h = pre ++ ev :: post →
      C.allow (C.after s pre) ev.1 := by
  induction hr with
  | done a =>
    intro s _ pre ev post heq
    cases pre <;> cases heq
  | act _ ih =>
    intro s hp pre ev post heq
    cases pre with
    | nil =>
      cases heq
      exact hp.1
    | cons ev' pre =>
      cases heq
      exact ih (hp.2 _ (hC _ _ _)) rfl

/-- What is left of a program that keeps its contract keeps it from the ghost
state its history has led to. -/
theorem wp_after {p q : Prog Act Resp α} {h : List (Event Act Resp)} (hC : C.Unpromising)
    (hp : p.wp C Q s) (ha : After p h q) : q.wp C Q (C.after s h) := by
  induction ha with
  | nil => exact hp
  | snoc r _ ih =>
    rw [Contract.after_snoc]
    exact ih.2 r (hC _ _ _)

/-- A program that keeps its contract has only done what it was allowed to. -/
theorem after_allowed {p q : Prog Act Resp α} {h : List (Event Act Resp)} (hC : C.Unpromising)
    (hp : p.wp C Q s) (ha : After p h q) : ∀ ev ∈ h, ∃ s', C.allow s' ev.1 := by
  induction ha with
  | nil =>
    intro ev hev
    cases hev
  | snoc r ha ih =>
    intro ev hev
    rcases List.mem_append.mp hev with hold | hnew
    · exact ih ev hold
    · rw [List.mem_singleton.mp hnew]
      exact ⟨_, (wp_after hC hp ha).1⟩

/-- What the allowed actions of a contract preserve holds along every history
of a program that keeps it. -/
theorem after_invariant {p q : Prog Act Resp α} {h : List (Event Act Resp)} {I : σ → Prop}
    (hC : C.Unpromising) (hstep : ∀ s e r, I s → C.allow s e → I (C.update s e r))
    (hp : p.wp C Q s) (hs : I s) (ha : After p h q) : I (C.after s h) := by
  induction ha with
  | nil => exact hs
  | snoc r ha ih =>
    rw [Contract.after_snoc]
    exact hstep _ _ _ ih (wp_after hC hp ha).1

/-! ## Programs in an environment -/

variable {ε : Type} {T : ε → Event Act Resp → ε → Prop} {N : ε → ε → Prop}

/-- `h` moves the environment from `x` to `z`: `T` is how it answers an action,
`N` what else happens to it in the meantime. -/
inductive Along (T : ε → Event Act Resp → ε → Prop) (N : ε → ε → Prop) :
    ε → List (Event Act Resp) → ε → Prop
  | nil (x : ε) : Along T N x [] x
  | answered {x y z : ε} {ev : Event Act Resp} {h : List (Event Act Resp)} :
      T x ev y → Along T N y h z → Along T N x (ev :: h) z
  | moved {x y z : ε} {h : List (Event Act Resp)} :
      N x y → Along T N y h z → Along T N x h z

/-- A program that keeps its contract keeps an invariant that ties its ghost
state to the environment, if every allowed action and all that happens in
between keep it. -/
theorem wp_along {p : Prog Act Resp α} {h : List (Event Act Resp)} {a : α} {I : σ → ε → Prop}
    {x y : ε} (hC : C.Unpromising)
    (hown : ∀ s x ev y, I s x → C.allow s ev.1 → T x ev y → I (C.update s ev.1 ev.2) y)
    (hother : ∀ s x y, I s x → N x y → I s y)
    (halong : Along T N x h y) (hr : Runs p h a) (hp : p.wp C Q s) (hI : I s x) :
    Q a (C.after s h) ∧ I (C.after s h) y := by
  induction halong generalizing p s with
  | nil x =>
    cases hr with
    | done a => exact ⟨hp, hI⟩
  | answered hans _ ih =>
    cases hr with
    | act hr => exact ih hr (hp.2 _ (hC _ _ _)) (hown _ _ _ _ hI hp.1 hans)
  | moved hmoved _ ih => exact ih hr hp (hother _ _ _ hI hmoved)

/-- However its actions are answered, each answer depending on all that came
before, a program returns. -/
theorem exists_runs (answer : List (Event Act Resp) → (e : Act) → Resp e) (p : Prog Act Resp α) :
    ∃ h a, Runs p h a ∧ ∀ pre ev post, h = pre ++ ev :: post → ev.2 = answer pre ev.1 := by
  induction p generalizing answer with
  | done a =>
    refine ⟨[], a, .done a, ?_⟩
    intro pre ev post heq
    cases pre <;> cases heq
  | act e k ih =>
    obtain ⟨h, a, hr, hanswers⟩ :=
      ih (answer [] e) fun past => answer (⟨e, answer [] e⟩ :: past)
    refine ⟨_, a, .act hr, ?_⟩
    intro pre ev post heq
    cases pre with
    | nil =>
      cases heq
      rfl
    | cons ev' pre =>
      cases heq
      exact hanswers pre ev post rfl

/-! ## Programs that keep to a set of actions -/

/-- The contract that allows the actions in `A` and remembers nothing. -/
def keepingTo (Resp : Act → Type) (A : Act → Prop) : Contract Act Resp Unit where
  allow _ e := A e
  promise _ _ _ := True
  update _ _ _ := ()

/-- Every action `p` may perform is in `A`. -/
def Only (A : Act → Prop) (p : Prog Act Resp α) : Prop :=
  p.wp (keepingTo Resp A) (fun _ _ => True) ()

variable {A : Act → Prop}

theorem only_act {e : Act} {k : Resp e → Prog Act Resp α} :
    Only A (Prog.act e k) ↔ A e ∧ ∀ r, Only A (k r) := by
  simp [Only, wp_act, keepingTo]

/-- Two programs in sequence take no other actions than each of them. -/
theorem only_bind {p : Prog Act Resp α} {f : α → Prog Act Resp β} (hp : Only A p)
    (hf : ∀ a, Only A (f a)) : Only A (p >>= f) :=
  wp_bind_of hp fun a _ _ => hf a

/-- What its actions preserve, a program that keeps to them preserves. -/
theorem Only.wp {p : Prog Act Resp α} {I : σ → Prop} (hp : Only A p)
    (hallow : ∀ s e, A e → I s → C.allow s e)
    (hstep : ∀ s e r, A e → I s → C.promise s e r → I (C.update s e r)) (hs : I s) :
    p.wp C (fun _ s' => I s') s := by
  induction p generalizing s with
  | done a => exact hs
  | act e k ih =>
    rw [only_act] at hp
    exact ⟨hallow s e hp.1 hs, fun r hr => ih r (hp.2 r) (hstep s e r hp.1 hs hr)⟩

/-- All the events of a run are of allowed actions. -/
theorem Only.runs {p : Prog Act Resp α} {h : List (Event Act Resp)} {a : α} (hp : Only A p)
    (hr : Runs p h a) : ∀ ev ∈ h, A ev.1 := by
  induction hr with
  | done a => intro ev hev; cases hev
  | act _ ih =>
    intro ev hev
    rw [only_act] at hp
    rcases List.mem_cons.mp hev with heq | hev
    · rw [heq]
      exact hp.1
    · exact ih (hp.2 _) ev hev

end Prog

end NxCacheServer.Lib
