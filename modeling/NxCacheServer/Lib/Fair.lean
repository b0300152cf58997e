import Mathlib.Data.Countable.Defs
import Mathlib.Data.Nat.Pairing
import Mathlib.Order.Monotone.Basic
import Mathlib.Order.WellFounded
import NxCacheServer.Lib.Run

/-!
# Executions that go on forever

An `Execution` of a machine never stops. `Fair A` is weak fairness for a class
of labels: what is enabled from some point on is taken at last. `LeadsTo P Q`
says that `Q` comes after every `P`, and the rules below are how such facts are
put together:

* `Fair.leadsTo`: a fair class of labels ends what lasts until it is taken;
* `LeadsTo.time`: a clock comes to every time;
* `LeadsTo.lasting`: what lasts until `B` meets whatever happens meanwhile;
* `LeadsTo.descent`: what always gets smaller, or ends, ends.

`exists_continues` lets a finite run go on as an execution, and `exists_fair`
gives one that is fair to countably many classes, whatever they are.
-/

namespace NxCacheServer.Lib

variable {σ ℓ : Type}

/-- An infinite run. -/
structure Execution (step : σ → ℓ → Option σ) where
  state : Nat → σ
  label : Nat → ℓ
  next : ∀ n, step (state n) (label n) = some (state (n + 1))

namespace Execution

variable {step : σ → ℓ → Option σ} {x : Execution step} {A : ℓ → Prop} {P P' Q Q' R B : σ → Prop}

/-- An invariant of the steps holds all along an execution. -/
theorem invariant {I : σ → Prop} (hinit : I (x.state 0))
    (hstep : ∀ s l s', I s → step s l = some s' → I s') (n : Nat) : I (x.state n) := by
  induction n with
  | zero => exact hinit
  | succ n ih => exact hstep _ _ _ ih (x.next n)

/-- Some label of `A` can be taken in `s`. -/
def Enabled (step : σ → ℓ → Option σ) (A : ℓ → Prop) (s : σ) : Prop :=
  ∃ l, A l ∧ (step s l).isSome = true

/-- Weak fairness: if `A` is enabled from some point on, it is taken after it. -/
def Fair (x : Execution step) (A : ℓ → Prop) : Prop :=
  ∀ n, (∀ m, n ≤ m → Enabled step A (x.state m)) → ∃ m, n ≤ m ∧ A (x.label m)

/-- After every `P` there comes a `Q`. -/
def LeadsTo (x : Execution step) (P Q : σ → Prop) : Prop :=
  ∀ n, P (x.state n) → ∃ m, n ≤ m ∧ Q (x.state m)

/-- `P` lasts until `B`, and perhaps forever. -/
def Unless (x : Execution step) (P B : σ → Prop) : Prop :=
  ∀ n, P (x.state n) → P (x.state (n + 1)) ∨ B (x.state (n + 1))

/-- What lasts unless `B` happens is still so later, or `B` has happened in between.
-/
theorem Unless.until (h : x.Unless P B) {n m : Nat} (hnm : n ≤ m) (hP : P (x.state n)) :
    P (x.state m) ∨ ∃ k, n ≤ k ∧ k ≤ m ∧ B (x.state k) := by
  induction m, hnm using Nat.le_induction with
  | base => exact Or.inl hP
  | succ m hnm ih =>
    rcases ih with hP | ⟨k, hnk, hkm, hB⟩
    · rcases h m hP with hP | hB
      · exact Or.inl hP
      · exact Or.inr ⟨m + 1, Nat.le_succ_of_le hnm, Nat.le_refl _, hB⟩
    · exact Or.inr ⟨k, hnk, Nat.le_succ_of_le hkm, hB⟩

namespace LeadsTo

theorem of_imp (h : ∀ n, P (x.state n) → Q (x.state n)) : x.LeadsTo P Q :=
  fun n hP => ⟨n, Nat.le_refl n, h n hP⟩

/-- Leads-to is transitive: wait for the one, then for the other. -/
theorem trans (hPQ : x.LeadsTo P Q) (hQR : x.LeadsTo Q R) : x.LeadsTo P R := by
  intro n hP
  obtain ⟨m, hnm, hQ⟩ := hPQ n hP
  obtain ⟨k, hmk, hR⟩ := hQR m hQ
  exact ⟨k, Nat.le_trans hnm hmk, hR⟩

/-- One may start from less and arrive at more. -/
theorem mono (h : x.LeadsTo P Q) (hP : ∀ s, P' s → P s) (hQ : ∀ s, Q s → Q' s) :
    x.LeadsTo P' Q' := by
  intro n hP'
  obtain ⟨m, hnm, hm⟩ := h n (hP _ hP')
  exact ⟨m, hnm, hQ _ hm⟩

theorem or (hP : x.LeadsTo P Q) (hR : x.LeadsTo R Q) : x.LeadsTo (fun s => P s ∨ R s) Q := by
  intro n h
  rcases h with h | h
  · exact hP n h
  · exact hR n h

/-- One of two ends leads on. -/
theorem orElse (h : x.LeadsTo P (fun s => Q s ∨ R s)) (hQ : x.LeadsTo Q R) : x.LeadsTo P R :=
  h.trans (hQ.or (of_imp fun _ hR => hR))

/-- What lasts until `B` is still there when `Q` comes, unless `B` has come
before. -/
theorem lasting (hkeep : x.Unless R B) (h : x.LeadsTo P Q) :
    x.LeadsTo (fun s => R s ∧ P s) (fun s => R s ∧ Q s ∨ B s) := by
  intro n hn
  obtain ⟨m, hnm, hQ⟩ := h n hn.2
  rcases hkeep.until hnm hn.1 with hR | ⟨k, hnk, -, hB⟩
  · exact ⟨m, hnm, Or.inl ⟨hR, hQ⟩⟩
  · exact ⟨k, hnk, Or.inr hB⟩

/-- A clock that does not stop comes to every time. -/
theorem time {clock : σ → Nat} (hclock : ∀ n, clock (x.state n) ≤ clock (x.state (n + 1)))
    (htime : ∀ t, ∃ n, t ≤ clock (x.state n)) (t : Nat) : x.LeadsTo P (fun s => t ≤ clock s) := by
  intro n _
  obtain ⟨m, hm⟩ := htime t
  refine ⟨max n m, Nat.le_max_left n m, Nat.le_trans hm ?_⟩
  exact monotone_nat_of_le_succ hclock (Nat.le_max_right n m)

/-- What gets smaller until `Q` comes comes to `Q`. -/
theorem descent {α : Type} {r : α → α → Prop} (hr : WellFounded r) {F : α → σ → Prop}
    (h : ∀ a, x.LeadsTo (F a) (fun s => (∃ b, r b a ∧ F b s) ∨ Q s)) (a : α) :
    x.LeadsTo (F a) Q := by
  induction a using hr.induction with
  | _ a ih =>
    refine (h a).orElse ?_
    intro n hn
    obtain ⟨b, hb, hF⟩ := hn
    exact ih b hb n hF

/-- The rule of descent: if the rank always drops or the goal is reached, the goal is
reached, since the rank cannot drop for ever. -/
theorem wellFounded {α : Type} {r : α → α → Prop} (hr : WellFounded r) (rank : σ → α)
    (h : ∀ a, x.LeadsTo (fun s => P s ∧ rank s = a) (fun s => P s ∧ r (rank s) a ∨ Q s)) :
    x.LeadsTo P Q := by
  intro n hP
  refine descent hr (F := fun a s => P s ∧ rank s = a) (fun a => ?_) _ n ⟨hP, rfl⟩
  exact (h a).mono (fun _ hs => hs) fun _ hs => hs.imp_left fun hs => ⟨_, hs.2, hs.1, rfl⟩

end LeadsTo

/-- A fair class of labels that is enabled as long as `P` lasts brings `Q`
about. -/
theorem Fair.leadsTo (hfair : x.Fair A) (hkeep : x.Unless P Q)
    (henabled : ∀ n, P (x.state n) → Enabled step A (x.state n))
    (htake : ∀ n, P (x.state n) → A (x.label n) → Q (x.state (n + 1))) : x.LeadsTo P Q := by
  intro n hP
  by_contra hno
  have hnever : ∀ m, n ≤ m → ¬ Q (x.state m) := fun m hnm hQ => hno ⟨m, hnm, hQ⟩
  have hlasts : ∀ m, n ≤ m → P (x.state m) := by
    intro m hnm
    rcases hkeep.until hnm hP with hP | ⟨k, hnk, -, hQ⟩
    · exact hP
    · exact absurd hQ (hnever k hnk)
  obtain ⟨m, hnm, hA⟩ := hfair n fun m hnm => henabled m (hlasts m hnm)
  exact hnever (m + 1) (Nat.le_succ_of_le hnm) (htake m (hlasts m hnm) hA)

/-- It is enough that a step either is none of the class and leaves `P` alone, or
brings `Q` about. -/
theorem Fair.leadsTo_of_step (hfair : x.Fair A)
    (hstep : ∀ n, P (x.state n) →
      P (x.state (n + 1)) ∧ ¬ A (x.label n) ∨ Q (x.state (n + 1)))
    (henabled : ∀ n, P (x.state n) → Enabled step A (x.state n)) : x.LeadsTo P Q := by
  refine hfair.leadsTo (fun n hP => (hstep n hP).imp_left And.left) henabled ?_
  intro n hP hA
  exact (hstep n hP).resolve_left fun hno => hno.2 hA

/-- A clock is unbounded if a fair class that is always enabled moves it. -/
theorem Fair.unbounded (hfair : x.Fair A) (henabled : ∀ s, Enabled step A s) (clock : σ → Nat)
    (hclock : ∀ n, clock (x.state n) ≤ clock (x.state (n + 1)))
    (hmoves : ∀ {s l s'}, A l → step s l = some s' → clock s < clock s') (t : Nat) :
    ∃ n, t ≤ clock (x.state n) := by
  induction t with
  | zero => exact ⟨0, Nat.zero_le _⟩
  | succ t ih =>
    obtain ⟨n, hn⟩ := ih
    obtain ⟨m, hnm, hm⟩ := hfair n fun m _ => henabled (x.state m)
    have hbefore : clock (x.state n) ≤ clock (x.state m) := monotone_nat_of_le_succ hclock hnm
    exact ⟨m + 1, Nat.lt_of_le_of_lt (Nat.le_trans hn hbefore) (hmoves hm (x.next m))⟩

/-! ## Concrete executions -/

/-- `y` is `x` after some steps. -/
def Continues (y x : Execution step) (k : Nat) : Prop :=
  ∀ n, y.state (k + n) = x.state n ∧ y.label (k + n) = x.label n

/-- A step before an execution. -/
def before (x : Execution step) (s : σ) (l : ℓ) (h : step s l = some (x.state 0)) :
    Execution step where
  state
    | 0 => s
    | n + 1 => x.state n
  label
    | 0 => l
    | n + 1 => x.label n
  next
    | 0 => h
    | n + 1 => x.next n

/-- A run that ends where an execution starts goes on as that execution. -/
theorem exists_continues {ok : σ → ℓ → Prop} {s t : σ} {ls : List ℓ} (h : Run step ok s ls t)
    {x : Execution step} (hx : x.state 0 = t) :
    ∃ y : Execution step, y.state 0 = s ∧ y.Continues x ls.length := by
  induction h generalizing x with
  | nil => exact ⟨x, hx, fun n => by rw [List.length_nil, Nat.zero_add]; exact ⟨rfl, rfl⟩⟩
  | @snoc ls t u l _ _ hst ih =>
    rw [← hx] at hst
    obtain ⟨y, hy, hcont⟩ := ih (x := x.before t l hst) rfl
    refine ⟨y, hy, ?_⟩
    intro n
    rw [List.length_append, List.length_singleton, Nat.add_assoc, Nat.add_comm 1 n]
    exact hcont (n + 1)

/-- Fairness is about what happens in the end. -/
theorem Fair.of_continues {y : Execution step} {k : Nat} (hy : y.Continues x k)
    (hfair : x.Fair A) : y.Fair A := by
  intro n henabled
  obtain ⟨m, hnm, hA⟩ := hfair n fun m hnm => by
    rw [← (hy m).1]
    exact henabled (k + m) (Nat.le_trans hnm (Nat.le_add_left m k))
  exact ⟨k + m, Nat.le_trans hnm (Nat.le_add_left m k), by rw [(hy m).2]; exact hA⟩

/-- From any state there is an execution that is fair to countably many classes,
where something can always be done. It takes them in turn, each infinitely often;
`ok` is what its labels are chosen from. -/
theorem exists_fair {ι : Type} [Nonempty ι] [Countable ι] {ok : ℓ → Prop} {idle : ℓ}
    (hidle : ∀ s, (step s idle).isSome = true) (hok : ok idle) {A : ι → ℓ → Prop}
    (hA : ∀ c s, Enabled step (A c) s → Enabled step (fun l => A c l ∧ ok l) s) (s : σ) :
    ∃ x : Execution step, x.state 0 = s ∧ (∀ n, ok (x.label n)) ∧ ∀ c, x.Fair (A c) := by
  have htake : ∀ (c : ι) (t : σ), ∃ l t', step t l = some t' ∧ ok l ∧
      (Enabled step (A c) t → A c l) := by
    intro c t
    by_cases henabled : Enabled step (A c) t
    · obtain ⟨l, ⟨hl, hokl⟩, h⟩ := hA c t henabled
      obtain ⟨t', h⟩ := Option.isSome_iff_exists.mp h
      exact ⟨l, t', h, hokl, fun _ => hl⟩
    · obtain ⟨t', h⟩ := Option.isSome_iff_exists.mp (hidle t)
      exact ⟨idle, t', h, hok, fun hno => absurd hno henabled⟩
  choose label next hnext hlabel htaken using htake
  obtain ⟨nth, hclass⟩ := exists_surjective_nat ι
  let turn : Nat → ι := fun n => nth n.unpair.1
  let state : Nat → σ := fun n => Nat.rec s (fun n t => next (turn n) t) n
  refine ⟨⟨state, fun n => label (turn n) (state n), fun n => hnext (turn n) (state n)⟩, rfl,
    fun n => hlabel (turn n) (state n), ?_⟩
  intro c n henabled
  obtain ⟨j, rfl⟩ := hclass c
  -- the next turn of the class after `n`
  have hturn : turn (Nat.pair j n) = nth j := by
    dsimp only [turn]
    rw [Nat.unpair_pair]
  refine ⟨Nat.pair j n, Nat.right_le_pair j n, ?_⟩
  have h := htaken (turn (Nat.pair j n)) (state (Nat.pair j n))
  rw [hturn] at h
  dsimp only
  rw [hturn]
  exact h (henabled (Nat.pair j n) (Nat.right_le_pair j n))

end Execution

end NxCacheServer.Lib
