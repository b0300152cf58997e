import NxCacheServer.Lib.Run

/-!
# One machine inside another

A machine refines another along a map of its states and a partial map of its
labels if a step with a label that is mapped is a step of the other, and any
other step does not show. Its runs are then runs of the other, along the labels
that are mapped (`Run.refine`), so what is known of every run of the simpler
machine holds of the larger one as far as the map shows it.
-/

namespace NxCacheServer.Lib

variable {σ τ ℓ κ : Type} {step : σ → ℓ → Option σ} {ok : σ → ℓ → Prop}
  {step' : τ → κ → Option τ} {ok' : τ → κ → Prop} {I : σ → Prop} {s t : σ} {ls : List ℓ}

/-- Forward simulation along a function. A step that shows a label is a step of the
abstract system, one that shows none leaves the shown state alone; so a run shows a
run. -/
theorem Run.refine (shown : σ → τ) (label : ℓ → Option κ)
    (hinv : ∀ s l s', I s → ok s l → step s l = some s' → I s')
    (hshows : ∀ s l s' l', I s → ok s l → step s l = some s' → label l = some l' →
      ok' (shown s) l' ∧ step' (shown s) l' = some (shown s'))
    (hhides : ∀ s l s', I s → ok s l → step s l = some s' → label l = none → shown s' = shown s)
    (h : Run step ok s ls t) (hs : I s) :
    Run step' ok' (shown s) (ls.filterMap label) (shown t) := by
  have hrun : I t ∧ Run step' ok' (shown s) (ls.filterMap label) (shown t) := by
    induction h with
    | nil => exact ⟨hs, .nil⟩
    | @snoc ls t u l _ hok hst ih =>
      refine ⟨hinv t l u ih.1 hok hst, ?_⟩
      rw [List.filterMap_append]
      cases hlabel : label l with
      | none =>
        rw [List.filterMap_cons_none hlabel, List.filterMap_nil, List.append_nil,
          hhides t l u ih.1 hok hst hlabel]
        exact ih.2
      | some l' =>
        rw [List.filterMap_cons_some hlabel, List.filterMap_nil]
        obtain ⟨hok', hst'⟩ := hshows t l u l' ih.1 hok hst hlabel
        exact .snoc ih.2 hok' hst'
  exact hrun.2

end NxCacheServer.Lib
