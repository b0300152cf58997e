import NxCacheServer.Lib.Prog

/-!
# Programs with a budget

Every action has a cost, and a program is given a budget. `spending` is the
contract whose ghost state is what is left of it, so a bound on what a program
spends, on every history, is a `wp` and is put together by the rules for those.

The budget is a natural number and goes down, so an action that costs more than is
left is not allowed, and one that costs nothing always is (`Prog.wp_free`). The
invariant of a loop is that what is left covers what is still to be done.
-/

namespace NxCacheServer.Lib.Prog

variable {Act : Type} {Resp : Act → Type} {α σ : Type} {cost : Act → Nat}

/-- The contract of a program that pays for its actions: the ghost state is what
it has left. -/
def spending (Resp : Act → Type) (cost : Act → Nat) : Contract Act Resp Nat where
  allow left e := cost e ≤ left
  promise _ _ _ := True
  update left e _ := left - cost e

/-- `p` spends `n` at most, whatever it is answered. -/
def AtMost (cost : Act → Nat) (n : Nat) (p : Prog Act Resp α) : Prop :=
  p.wp (spending Resp cost) (fun _ _ => True) n

variable {Q : α → Nat → Prop} {left n : Nat} {e : Act} {k : Resp e → Prog Act Resp α}

theorem wp_pay (hle : cost e ≤ left)
    (hk : ∀ r, (k r).wp (spending Resp cost) Q (left - cost e)) :
    (Prog.act e k).wp (spending Resp cost) Q left :=
  ⟨hle, fun r _ => hk r⟩

/-- An action that costs nothing leaves what is left. -/
theorem wp_free (hfree : cost e = 0) (hk : ∀ r, (k r).wp (spending Resp cost) Q left) :
    (Prog.act e k).wp (spending Resp cost) Q left := by
  refine wp_pay (hfree ▸ Nat.zero_le left) ?_
  intro r
  rw [hfree]
  exact hk r

/-- A program that keeps to free actions spends nothing. -/
theorem Only.free {A : Act → Prop} {p : Prog Act Resp α} (hp : Only A p)
    (hfree : ∀ e, A e → cost e = 0) :
    p.wp (spending Resp cost) (fun _ left' => left' = left) left := by
  refine hp.wp (I := fun left' => left' = left) ?_ ?_ rfl
  · intro left' e he _
    exact Nat.le_trans (Nat.le_of_eq (hfree e he)) (Nat.zero_le left')
  · intro left' e r he hleft _
    have hsame : left' - cost e = left' := by rw [hfree e he, Nat.sub_zero]
    exact hsame.trans hleft

/-- A program keeps to the actions that its contract ever allows. -/
theorem Only.of_wp {A : Act → Prop} {C : Contract Act Resp σ} {P : α → σ → Prop}
    {p : Prog Act Resp α} {s : σ} (hC : C.Unpromising) (hallow : ∀ s e, C.allow s e → A e)
    (hp : p.wp C P s) : Only A p := by
  induction p generalizing s with
  | done a => trivial
  | act e k ih =>
    rw [only_act]
    exact ⟨hallow s e hp.1, fun r => ih r (hp.2 r (hC s e r))⟩

/-- A program costs at most `n` if its first action does and, after any answer, the
rest costs at most what that leaves. -/
theorem AtMost.act_iff : AtMost cost n (Prog.act e k) ↔
    cost e ≤ n ∧ ∀ r, AtMost cost (n - cost e) (k r) := by
  constructor
  · intro h
    exact ⟨h.1, fun r => h.2 r trivial⟩
  · intro h
    exact ⟨h.1, fun r _ => h.2 r⟩

end NxCacheServer.Lib.Prog
