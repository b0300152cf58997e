import NxCacheServer.Server.CacheRun

/-!
# Waiting in line

A caller in the queue of an empty cell is never overtaken: others join behind
it, and leave from before or behind it (`InLine.step`). At the head it takes
the permit, and on a cell that is set it takes the value.

`InLine` names the callers ahead. A step leaves them as they are or takes one of them
out, or the cell gets a value and the wait is over (`inLine_step`). How many steps
that may take is said in `NxCacheServer.Server.Returning`.
-/

namespace NxCacheServer.Server

open NxCacheServer.Domain NxCacheServer.Lib

namespace ProbeCache

variable {cache cache' : ProbeCache} {c c' : CallerId} {s : SlotId} {ahead : List CallerId}
  {clock : Instant} {v : Bool}

/-- `c` waits on the empty cell of `s`, behind the callers `ahead`. -/
def InLine (cache : ProbeCache) (c : CallerId) (s : SlotId) (ahead : List CallerId) : Prop :=
  cache.caller c = some (.queued s) ∧ cache.value s = none ∧
    ∃ behind, cache.queue s = ahead ++ c :: behind

/-- Whoever is queued has a place in the queue. -/
theorem WF.inLine (wf : cache.WF) (hc : cache.caller c = some (.queued s))
    (hv : cache.value s = none) : ∃ ahead, cache.InLine c s ahead := by
  obtain ⟨ahead, behind, hq⟩ := List.append_of_mem (wf.queued_mem hc hv)
  exact ⟨ahead, hc, hv, behind, hq⟩

/-- Whoever has just got its slot can enter its cell. -/
theorem poll_holding (clock : Instant) (hc : cache.caller c = some (.holding s)) :
    ∃ cache' r, cache.poll c clock = some (cache', r) := by
  unfold poll
  rw [hc]
  dsimp only
  split
  next => exact ⟨_, _, rfl⟩
  next => exact ⟨_, _, rfl⟩
  next => exact ⟨_, _, rfl⟩

/-- A cell that is set keeps nobody waiting. -/
theorem poll_set (hc : cache.caller c = some (.queued s)) (hv : cache.value s = some v) :
    cache.poll c clock = some (cache.setCaller c none, .acquired (.initialized v)) := by
  unfold poll
  rw [hc]
  dsimp only
  split
  next v' q hcell =>
    rw [value, hcell] at hv
    cases hv
    rfl
  next q hcell =>
    rw [value, hcell] at hv
    cases hv

/-- So every caller on it returns with the value at its next poll. -/
theorem WF.poll_told (wf : cache.WF) {phase : Phase} (hc : cache.caller c = some phase)
    (hv : cache.value phase.slot = some v) :
    cache.poll c clock = some (cache.setCaller c none, .acquired (.initialized v)) := by
  cases phase with
  | queued s => exact poll_set hc hv
  | probing s since => cases hv.symm.trans (wf.probing_head hc).1
  | holding s =>
    unfold ProbeCache.poll
    rw [hc]
    dsimp only
    split
    next v' q hcell =>
      rw [value, Phase.slot, hcell] at hv
      cases hv
      rfl
    next hcell =>
      rw [value, Phase.slot, hcell] at hv
      cases hv
    next hcell =>
      rw [value, Phase.slot, hcell] at hv
      cases hv

/-- The head of the queue takes the permit. -/
theorem poll_head (h : cache.InLine c s []) :
    cache.poll c clock = some (cache.setCaller c (some (.probing s clock)), .acquired .permit) := by
  obtain ⟨hc, hv, behind, hq⟩ := h
  unfold poll
  rw [hc]
  dsimp only
  split
  next v' q hcell =>
    rw [value, hcell] at hv
    cases hv
  next q hcell =>
    rw [queue, hcell] at hq
    rw [show q = c :: behind from hq, List.head?_cons, if_pos rfl]

end ProbeCache

namespace CacheState

variable {st st' : CacheState} {l : CacheLabel} {c : CallerId} {s : SlotId}
  {ahead : List CallerId} {v : Bool}

/-- A cell that is set stays set: only an empty one has a prober. -/
theorem value_step (wf : st.cache.WF) (hs : s < st.cache.fresh) (hv : st.cache.value s = some v)
    (h : st.step l = some st') : st'.cache.value s = some v := by
  have hne : s ≠ st.cache.fresh := Nat.ne_of_lt hs
  cases step_cases h with
  | tick => exact hv
  | mark hnow => simpa [ProbeCache.markPresent, hne] using hv
  | @call c' hash now hc' hnow =>
    unfold ProbeCache.call
    rcases ProbeCache.slot_cases st.cache hash now with ⟨s', -, -, heq⟩ | ⟨-, heq⟩
    · rw [heq]
      exact hv
    · rw [heq]
      simpa [hne] using hv
  | @poll c' cache r hpoll =>
    cases ProbeCache.poll_cases hpoll with
    | initialized hc' hv' => exact hv
    | turn hc' hcell => exact hv
    | first hc' hcell | join hc' hcell =>
      refine ProbeCache.value_of_setCell ?_ hv
      intro v' hv'
      rw [ProbeCache.value, hcell] at hv'
      cases hv'
  | @finish c' s' since value cache hc' hfin =>
    obtain ⟨s'', since', hc'', rfl⟩ := ProbeCache.finish_cases hfin
    refine ProbeCache.value_of_setCell ?_ hv
    intro v' hv'
    rw [(wf.probing_head hc'').1] at hv'
    cases hv'
  | @cancel c' =>
    rw [ProbeCache.value_cancel]
    exact hv

/-- What a step does to the queue of an empty cell. -/
theorem queue_cases (hs : s < st.cache.fresh) (hv : st.cache.value s = none)
    (h : st.step l = some st') :
    (∃ v, st'.cache.value s = some v) ∨ st'.cache.value s = none ∧
      ((∃ tail, st'.cache.queue s = st.cache.queue s ++ tail) ∨
        ∃ c', st'.cache.queue s = (st.cache.queue s).erase c') := by
  have hne : s ≠ st.cache.fresh := Nat.ne_of_lt hs
  have hsame : ∀ {cache : ProbeCache}, cache.value s = st.cache.value s →
      cache.queue s = st.cache.queue s →
      (∃ v, cache.value s = some v) ∨ cache.value s = none ∧
        ((∃ tail, cache.queue s = st.cache.queue s ++ tail) ∨
          ∃ c', cache.queue s = (st.cache.queue s).erase c') :=
    fun hvalue hqueue => Or.inr ⟨hvalue.trans hv, Or.inl ⟨[], by rw [hqueue, List.append_nil]⟩⟩
  -- the cell of another slot is exchanged
  have helse : ∀ {s' : SlotId} {cell : OnceCell} {c' p}, s ≠ s' →
      (∃ v, ((st.cache.setCell s' cell).setCaller c' p).value s = some v) ∨
        ((st.cache.setCell s' cell).setCaller c' p).value s = none ∧
        ((∃ tail, ((st.cache.setCell s' cell).setCaller c' p).queue s =
            st.cache.queue s ++ tail) ∨
          ∃ c'', ((st.cache.setCell s' cell).setCaller c' p).queue s =
            (st.cache.queue s).erase c'') :=
    fun hss => hsame (by simp [hss]) (by simp [hss])
  cases step_cases h with
  | tick => exact hsame rfl rfl
  | mark hnow =>
    exact hsame (by simp [ProbeCache.markPresent, hne]) (by simp [ProbeCache.markPresent, hne])
  | @call c' hash now hc' hnow =>
    unfold ProbeCache.call
    rcases ProbeCache.slot_cases st.cache hash now with ⟨s', -, -, heq⟩ | ⟨-, heq⟩
    · rw [heq]
      exact hsame rfl rfl
    · rw [heq]
      exact hsame (by simp [hne]) (by simp [hne])
  | @poll c' cache r hpoll =>
    cases ProbeCache.poll_cases hpoll with
    | initialized hc' hv' => exact hsame rfl rfl
    | turn hc' hcell => exact hsame rfl rfl
    | @first s' hc' hcell =>
      by_cases hss : s = s'
      · subst hss
        exact Or.inr ⟨by simp, Or.inl ⟨[c'], by simp [ProbeCache.queue, hcell]⟩⟩
      · exact helse hss
    | @join s' b q hc' hcell =>
      by_cases hss : s = s'
      · subst hss
        exact Or.inr ⟨by simp, Or.inl ⟨[c'], by simp [ProbeCache.queue, hcell]⟩⟩
      · exact helse hss
  | @finish c' s' since value cache hc' hfin =>
    obtain ⟨s'', since', -, rfl⟩ := ProbeCache.finish_cases hfin
    by_cases hss : s = s''
    · subst hss
      cases value with
      | none =>
        exact Or.inr ⟨by simpa [OnceCell.settle] using hv,
          Or.inr ⟨c', by simp [OnceCell.settle]⟩⟩
      | some v => exact Or.inl ⟨v, by simp [OnceCell.settle]⟩
    · exact helse hss
  | @cancel c' =>
    rcases ProbeCache.cancel_cases st.cache c' with ⟨-, heq⟩ | ⟨phase, hc', heq⟩
    · rw [heq]
      exact hsame rfl rfl
    · rw [heq]
      by_cases hss : s = phase.slot
      · subst hss
        exact Or.inr ⟨by simpa using hv, Or.inr ⟨c', by simp⟩⟩
      · exact helse hss

/-- **Nobody is overtaken.** As long as `c` waits, the callers ahead of it are
those that were, or fewer. -/
theorem inLine_step (wf : st.cache.WF) (hline : st.cache.InLine c s ahead)
    (h : st.step l = some st') (hstays : st'.cache.caller c = some (.queued s)) :
    (∃ v, st'.cache.value s = some v) ∨ st'.cache.InLine c s ahead ∨
      ∃ ahead', ahead'.length < ahead.length ∧ st'.cache.InLine c s ahead' := by
  obtain ⟨hc, hv, behind, hq⟩ := hline
  have hs : s < st.cache.fresh := wf.caller_lt hc
  rcases queue_cases hs hv h with hset | ⟨hv', ⟨tail, hq'⟩ | ⟨c', hq'⟩⟩
  · exact Or.inl hset
  · rw [hq, List.append_assoc] at hq'
    exact Or.inr (Or.inl ⟨hstays, hv', _, hq'⟩)
  · have hnodup := wf.nodup s
    rw [hq] at hq' hnodup
    have hmem := (step_wf wf h).queued_mem hstays hv'
    by_cases hahead : c' ∈ ahead
    · rw [List.erase_append_left _ hahead] at hq'
      refine Or.inr (Or.inr ⟨ahead.erase c', ?_, hstays, hv', behind, hq'⟩)
      rw [List.length_erase_of_mem hahead]
      exact Nat.sub_lt (List.length_pos_of_mem hahead) Nat.one_pos
    · rw [List.erase_append_right _ hahead] at hq'
      by_cases hcc : c = c'
      · -- whoever leaves the queue waits there no longer
        subst hcc
        rw [List.erase_cons_head] at hq'
        rw [hq'] at hmem
        exact absurd hmem (List.nodup_cons.mp (List.nodup_middle.mp hnodup)).1
      · rw [List.erase_cons_tail (by simpa using hcc)] at hq'
        exact Or.inr (Or.inl ⟨hstays, hv', _, hq'⟩)

end CacheState

end NxCacheServer.Server
