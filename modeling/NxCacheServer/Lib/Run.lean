/-!
# Runs of a labelled machine

A machine is a partial step function `step : σ → ℓ → Option σ`; `none` means
the label is not enabled. `Run step ok s ls t` is a run from `s` to `t` whose
every label, taken in the state it is taken in, also meets `ok`: the place for
what a statement assumes of the environment (timeouts, the absence of
failures, the condition of a conditional guarantee).

The one induction is `Run.invariant`, or `Run.invariant_labels` where the
labels so far matter; `Run.invariant_without` is about runs without a given
label. `outputs` is what a run shows of itself. `play` goes
through any list of labels and skips those that are not enabled, for statements
about two runs, one with some labels taken out (`play_filter`). `exec` runs a
list of labels and checks `ok` on the way, so that a concrete run is a
computation (`run_of_exec`).
-/

namespace NxCacheServer.Lib

variable {σ ℓ : Type}

/-- A run from `s` to `t` along `ls`, every step enabled and `ok`. -/
inductive Run (step : σ → ℓ → Option σ) (ok : σ → ℓ → Prop) (s : σ) : List ℓ → σ → Prop
  | nil : Run step ok s [] s
  | snoc {ls : List ℓ} {t u : σ} {l : ℓ} :
      Run step ok s ls t → ok t l → step t l = some u → Run step ok s (ls ++ [l]) u

namespace Run

variable {step : σ → ℓ → Option σ} {ok ok' : σ → ℓ → Prop} {s t u : σ} {ls ls' : List ℓ}

/-- What one `ok` step preserves, a run preserves. -/
theorem invariant {I : σ → Prop}
    (hstep : ∀ s l s', I s → ok s l → step s l = some s' → I s')
    (h : Run step ok s ls t) (hs : I s) : I t := by
  induction h with
  | nil => exact hs
  | snoc _ hok hst ih => exact hstep _ _ _ ih hok hst

/-- The same with the labels that have led to a state. -/
theorem invariant_labels {I : List ℓ → σ → Prop}
    (hstep : ∀ ls s l s', I ls s → ok s l → step s l = some s' → I (ls ++ [l]) s')
    (h : Run step ok s ls t) (hs : I [] s) : I ls t := by
  induction h with
  | nil => exact hs
  | snoc _ hok hst ih => exact hstep _ _ _ _ ih hok hst

/-- What every step but one preserves, a run without that one preserves. -/
theorem invariant_without {I : σ → Prop} {without : ℓ}
    (hstep : ∀ s l s', I s → l ≠ without → step s l = some s' → I s')
    (h : Run step ok s ls t) (hno : without ∉ ls) (hs : I s) : I t := by
  have hlabels : without ∉ ls → I t := by
    refine h.invariant_labels (I := fun ls t => without ∉ ls → I t) ?_ fun _ => hs
    intro ls s l s' hI _ hst hno
    rw [List.mem_append, List.mem_singleton, not_or] at hno
    exact hstep s l s' (hI hno.1) (fun heq => hno.2 heq.symm) hst
  exact hlabels hno

/-- A weaker condition on the steps admits the same run. -/
theorem mono (hok : ∀ s l, ok s l → ok' s l) (h : Run step ok s ls t) :
    Run step ok' s ls t := by
  induction h with
  | nil => exact .nil
  | snoc _ ho hst ih => exact .snoc ih (hok _ _ ho) hst

/-- Runs can be put together where the one ends and the other begins. -/
theorem trans (h₁ : Run step ok s ls t) (h₂ : Run step ok t ls' u) :
    Run step ok s (ls ++ ls') u := by
  induction h₂ with
  | nil => simpa using h₁
  | snoc _ ho hst ih =>
    rw [← List.append_assoc]
    exact .snoc ih ho hst

theorem single {l : ℓ} (hok : ok s l) (hst : step s l = some t) : Run step ok s [l] t :=
  .snoc .nil hok hst

end Run

/-- What the steps along `ls` put out, one output for each label taken. -/
def outputs {ω : Type} (step : σ → ℓ → Option σ) (out : σ → ℓ → ω) : σ → List ℓ → List ω
  | _, [] => []
  | s, l :: ls =>
    match step s l with
    | some t => out s l :: outputs step out t ls
    | none => []

/-- What a run shows is followed by what the steps after it show. -/
theorem Run.outputs_append {ω : Type} {step : σ → ℓ → Option σ} {ok : σ → ℓ → Prop}
    {out : σ → ℓ → ω} {s t : σ} {ls : List ℓ} (h : Run step ok s ls t) :
    ∀ ls', outputs step out s (ls ++ ls') = outputs step out s ls ++ outputs step out t ls' := by
  induction h with
  | nil =>
    intro ls'
    rfl
  | snoc _ _ hst ih =>
    intro ls'
    rw [List.append_assoc, ih, ih, List.append_assoc]
    simp only [List.cons_append, List.nil_append, outputs, hst]

/-- The last step of a run shows one thing more. -/
theorem Run.outputs_snoc {ω : Type} {step : σ → ℓ → Option σ} {ok : σ → ℓ → Prop}
    {out : σ → ℓ → ω} {s t u : σ} {ls : List ℓ} {l : ℓ} (h : Run step ok s ls t)
    (hst : step t l = some u) :
    outputs step out s (ls ++ [l]) = outputs step out s ls ++ [out t l] := by
  rw [h.outputs_append]
  simp only [outputs, hst]

/-- Go through `ls` from `s`, skipping the labels that are not enabled. -/
def play (step : σ → ℓ → Option σ) : σ → List ℓ → σ
  | s, [] => s
  | s, l :: ls => play step ((step s l).getD s) ls

/-- The last label takes effect in the state that the others lead to, or none. -/
theorem play_snoc {step : σ → ℓ → Option σ} {l : ℓ} :
    ∀ (ls : List ℓ) (s : σ),
      play step s (ls ++ [l]) = (step (play step s ls) l).getD (play step s ls) := by
  intro ls
  induction ls with
  | nil =>
    intro s
    rfl
  | cons l' ls ih =>
    intro s
    exact ih _

/-- A run skips nothing. -/
theorem Run.play_eq {step : σ → ℓ → Option σ} {ok : σ → ℓ → Prop} {s t : σ} {ls : List ℓ}
    (h : Run step ok s ls t) : play step s ls = t := by
  induction h with
  | nil => rfl
  | snoc _ _ hst ih =>
    rw [play_snoc, ih, hst]
    rfl

/-- **Unwinding.** If the labels that are kept lead from related states to related
ones, and the others make no difference, neither does taking the others out. -/
theorem play_filter {step : σ → ℓ → Option σ} {kept : ℓ → Bool} {R : σ → σ → Prop}
    (hkept : ∀ s s' l, R s s' → kept l = true → R ((step s l).getD s) ((step s' l).getD s'))
    (hgone : ∀ s s' l, R s s' → kept l = false → R ((step s l).getD s) s') :
    ∀ (ls : List ℓ) {s s' : σ}, R s s' → R (play step s ls) (play step s' (ls.filter kept)) := by
  intro ls
  induction ls with
  | nil =>
    intro s s' h
    exact h
  | cons l ls ih =>
    intro s s' h
    rw [List.filter_cons]
    split
    next hl => exact ih (hkept s s' l h hl)
    next hl => exact ih (hgone s s' l h (by simpa using hl))

/-- Run `ls` from `s`, stopping at the first label that is not enabled or not
`ok`. -/
def exec (step : σ → ℓ → Option σ) (ok : σ → ℓ → Bool) : σ → List ℓ → Option σ
  | s, [] => some s
  | s, l :: ls => if ok s l then (step s l).bind fun t => exec step ok t ls else none

/-- Execution with a decidable condition finds a run. -/
theorem run_of_exec {step : σ → ℓ → Option σ} {ok : σ → ℓ → Bool} :
    ∀ (ls : List ℓ) {s t : σ}, exec step ok s ls = some t →
      Run step (fun s l => ok s l = true) s ls t := by
  intro ls
  induction ls with
  | nil =>
    intro s t h
    cases h
    exact .nil
  | cons l ls ih =>
    intro s t h
    rw [exec] at h
    split at h
    next hok =>
      obtain ⟨v, hv, hrest⟩ := Option.bind_eq_some_iff.mp h
      have hone : Run step (fun s l => ok s l = true) s [l] v := Run.single hok hv
      exact hone.trans (ih hrest)
    next => exact absurd h (by simp)

/-- A computation that reaches a state with `P` is a run to one. -/
theorem exists_run_of_exec {step : σ → ℓ → Option σ} {ok : σ → ℓ → Bool} {ok' : σ → ℓ → Prop}
    {s : σ} {ls : List ℓ} {P : σ → Prop} [DecidablePred P] (hok : ∀ s l, ok s l = true → ok' s l)
    (h : (exec step ok s ls).any (fun t => P t) = true) : ∃ t, Run step ok' s ls t ∧ P t := by
  obtain ⟨t, ht, hP⟩ := (Option.any_eq_true _ _).mp h
  exact ⟨t, (run_of_exec ls ht).mono hok, of_decide_eq_true hP⟩

end NxCacheServer.Lib
