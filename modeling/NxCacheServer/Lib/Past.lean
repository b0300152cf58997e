import NxCacheServer.Lib.Run

/-!
# Steps a run has taken

`Took step ok s ls t P` says that the run from `s` to `t` along `ls` has a step
with `P`: the state before it, its label, the state after it. What a state owes
to an earlier one is stated so, and kept by an invariant that has the run itself
at hand (`Run.invariant_run`): a step adds itself (`Took.last`) and loses nothing
(`Took.snoc`).
-/

namespace NxCacheServer.Lib

variable {σ ℓ : Type}

/-- A step with `P` on the run from `s` to `t` along `ls`. -/
def Took (step : σ → ℓ → Option σ) (ok : σ → ℓ → Prop) (s : σ) (ls : List ℓ) (t : σ)
    (P : σ → ℓ → σ → Prop) : Prop :=
  ∃ pre l post u v, ls = pre ++ l :: post ∧ Run step ok s pre u ∧ ok u l ∧ step u l = some v ∧
    Run step ok v post t ∧ P u l v

section

variable {step : σ → ℓ → Option σ} {ok : σ → ℓ → Prop} {s t t' : σ} {ls : List ℓ} {l : ℓ}
  {P Q : σ → ℓ → σ → Prop}

/-- `invariant_labels` with the run that has led to a state. -/
theorem Run.invariant_run {I : List ℓ → σ → Prop}
    (hstep : ∀ ls t l t', Run step ok s ls t → I ls t → ok t l → step t l = some t' →
      I (ls ++ [l]) t')
    (h : Run step ok s ls t) (hs : I [] s) : I ls t := by
  induction h with
  | nil => exact hs
  | snoc hrun hok hst ih => exact hstep _ _ _ _ hrun ih hok hst

/-- The step that has just been taken is in the past. -/
theorem Took.last (h : Run step ok s ls t) (hok : ok t l) (hst : step t l = some t')
    (hP : P t l t') : Took step ok s (ls ++ [l]) t' P :=
  ⟨ls, l, [], t, t', rfl, h, hok, hst, .nil, hP⟩

theorem Took.snoc (h : Took step ok s ls t P) (hok : ok t l) (hst : step t l = some t') :
    Took step ok s (ls ++ [l]) t' P := by
  obtain ⟨pre, l₀, post, u, v, rfl, hpre, hok₀, hst₀, hpost, hP⟩ := h
  exact ⟨pre, l₀, post ++ [l], u, v, by simp, hpre, hok₀, hst₀, .snoc hpost hok hst, hP⟩

theorem Took.mono (h : Took step ok s ls t P) (hPQ : ∀ u l v, P u l v → Q u l v) :
    Took step ok s ls t Q := by
  obtain ⟨pre, l, post, u, v, heq, hpre, hok, hst, hpost, hP⟩ := h
  exact ⟨pre, l, post, u, v, heq, hpre, hok, hst, hpost, hPQ u l v hP⟩

/-- What held all along held at the step. -/
theorem Took.and (h : Took step ok s ls t P) {I : σ → Prop} (hs : I s)
    (hI : ∀ u l v, I u → ok u l → step u l = some v → I v) :
    Took step ok s ls t fun u l v => I u ∧ P u l v := by
  obtain ⟨pre, l, post, u, v, heq, hpre, hok, hst, hpost, hP⟩ := h
  exact ⟨pre, l, post, u, v, heq, hpre, hok, hst, hpost, hpre.invariant hI hs, hP⟩

end

end NxCacheServer.Lib
