import NxCacheServer.Server.Returning

/-!
# One slot

What a step does to a slot and to a caller on it. A probe starts there, ends or
is dropped with its caller, or nothing happens to the slot at all (`slot_move`);
whoever is on it stays there until it returns (`slot_step`). One of its callers
can always be polled, unless a probe is in flight (`polled_or_probing`).

`NxCacheServer.Server.Convoy` counts the probes that end on a slot while a caller is
on it, and needs to know of every step whether it is one of these. Operations on
other slots, and time, are frames (`SlotMove.same`); a slot with a value is done with.
-/

namespace NxCacheServer.Server.CacheState

open NxCacheServer.Domain NxCacheServer.Lib

/-- The probes that have ended on a slot, the newest first. -/
def ended (st : CacheState) (s : SlotId) : List Completion :=
  st.completed.filter fun done => done.slot = s

/-- No probe is in flight on `s`. -/
def Idle (s : SlotId) (st : CacheState) : Prop :=
  ∀ c since, st.cache.caller c ≠ some (.probing s since)

/-- A probe starts on `s` or ends there, or nothing happens to it. -/
inductive SlotMove (s : SlotId) (st : CacheState) : CacheLabel → CacheState → Prop
  | same {l : CacheLabel} {st' : CacheState}
      (hvalue : st'.cache.value s = st.cache.value s)
      (hprobing : ∀ c since, st'.cache.caller c = some (.probing s since) ↔
        st.cache.caller c = some (.probing s since))
      (hended : st'.ended s = st.ended s) : SlotMove s st l st'
  | starts {c : CallerId} {st' : CacheState} (hv : st.cache.value s = none) (hidle : Idle s st)
      (hv' : st'.cache.value s = none) (hclock : st'.clock = st.clock)
      (hprobing : ∀ c since, st'.cache.caller c = some (.probing s since) → since = st.clock)
      (hended : st'.ended s = st.ended s) : SlotMove s st (.poll c) st'
  | ends {c : CallerId} {since : Instant} {value : Option Bool} {st' : CacheState}
      (hc : st.cache.caller c = some (.probing s since)) (hv' : st'.cache.value s = value)
      (hidle : Idle s st') (hclock : st'.clock = st.clock)
      (hended : st'.ended s = ⟨s, c, value⟩ :: st.ended s) : SlotMove s st (.finish c value) st'
  | drops {c : CallerId} {since : Instant} {st' : CacheState}
      (hc : st.cache.caller c = some (.probing s since)) (hv' : st'.cache.value s = none)
      (hidle : Idle s st') (hclock : st'.clock = st.clock) (hended : st'.ended s = st.ended s) :
      SlotMove s st (.cancel c) st'

section

variable {st st' : CacheState} {l : CacheLabel} {c c' : CallerId} {s s' : SlotId}

@[simp] theorem ended_cache {cache : ProbeCache} :
    ended { st with cache := cache } s = st.ended s := rfl

/-- A probe that ends is added to those of its own slot. -/
theorem ended_cons {cache : ProbeCache} {last : Completion} :
    ended { st with cache := cache, completed := last :: st.completed } s =
      if last.slot = s then last :: st.ended s else st.ended s := by
  simp [ended, List.filter_cons]

/-- The one prober of a slot is at the head of its queue. -/
theorem idle_of_head (wf : st.cache.WF) {q : List CallerId} (hq : st.cache.queue s = c :: q)
    (hc : ∀ since, st.cache.caller c ≠ some (.probing s since)) : Idle s st := by
  intro c' since hc'
  obtain ⟨-, q', hq'⟩ := wf.probing_head hc'
  rw [hq] at hq'
  injection hq' with heq
  subst heq
  exact hc since hc'

/-- A caller that leaves the slot takes its probe along. -/
theorem idle_of_exit (wf : st.cache.WF) {since : Instant}
    (hc : st.cache.caller c = some (.probing s since)) {cell : OnceCell} {done : List Completion} :
    Idle s ⟨st.clock, (st.cache.setCell s cell).setCaller c none, done⟩ := by
  intro c' since' hc'
  rw [ProbeCache.caller_setCaller] at hc'
  split at hc'
  next => cases hc'
  next hne =>
    rw [ProbeCache.caller_setCell] at hc'
    obtain ⟨-, q, hq⟩ := wf.probing_head hc
    obtain ⟨-, q', hq'⟩ := wf.probing_head hc'
    rw [hq] at hq'
    injection hq' with heq
    exact hne heq.symm

/-- Only the label of `c` itself moves its probe, so a step of others on other
slots is none of `s`. -/
theorem SlotMove.of_frame (hvalue : st'.cache.value s = st.cache.value s)
    (hcaller : ∀ c', c' ≠ c → st'.cache.caller c' = st.cache.caller c')
    (hbefore : ∀ since, st.cache.caller c ≠ some (.probing s since))
    (hafter : ∀ since, st'.cache.caller c ≠ some (.probing s since))
    (hended : st'.ended s = st.ended s) : SlotMove s st l st' := by
  refine .same hvalue ?_ hended
  intro c' since
  by_cases hcc : c' = c
  · rw [hcc]
    exact iff_of_false (hafter since) (hbefore since)
  · rw [hcaller c' hcc]

/-- A probe that starts on a slot nobody probes is the only one there. -/
theorem since_of_starts (hidle : Idle s st) {cache : ProbeCache}
    (hcaller : ∀ c, cache.caller c = st.cache.caller c) (c' : CallerId) (since : Instant)
    (hc' : (cache.setCaller c (some (.probing s st.clock))).caller c' = some (.probing s since)) :
    since = st.clock := by
  rw [ProbeCache.caller_setCaller] at hc'
  split at hc'
  next =>
    cases hc'
    rfl
  next =>
    rw [hcaller] at hc'
    exact absurd hc' (hidle c' since)

/-- A poll starts a probe on the slot, or it is nothing to it. -/
theorem slotMove_of_poll (wf : st.cache.WF) {cache : ProbeCache} {r : ProbeCache.Polled}
    (hpoll : st.cache.poll c st.clock = some (cache, r)) :
    SlotMove s st (.poll c) { st with cache := cache } := by
  cases ProbeCache.poll_cases hpoll with
  | @initialized s' v hc hv =>
    refine .of_frame (c := c) rfl (fun c' hcc => by simp [hcc]) ?_ (by simp) rfl
    rcases hc with hc | hc <;> simp [hc]
  | @first s' hc hcell =>
    by_cases hss : s = s'
    · subst hss
      have hidle : Idle s st := by
        intro c' since hc'
        obtain ⟨-, q, hq⟩ := wf.probing_head hc'
        rw [ProbeCache.queue, hcell] at hq
        cases hq
      exact .starts (by rw [ProbeCache.value, hcell]) hidle (by simp) rfl
        (since_of_starts hidle fun _ => rfl) rfl
    · refine .of_frame (c := c) (by simp [hss]) (fun c' hcc => by simp [hcc]) (by simp [hc]) ?_ rfl
      simp [Ne.symm hss]
  | @join s' b q hc hcell =>
    have hvalue : (st.cache.setCell s' ⟨none, b :: q ++ [c]⟩).value s = st.cache.value s := by
      by_cases hss : s = s'
      · simp [hss, ProbeCache.value, hcell]
      · simp [hss]
    exact .of_frame (c := c) hvalue (fun c' hcc => by simp [hcc]) (by simp [hc]) (by simp) rfl
  | @turn s' q hc hcell =>
    by_cases hss : s = s'
    · subst hss
      have hidle : Idle s st := idle_of_head wf (by rw [ProbeCache.queue, hcell]) (by simp [hc])
      exact .starts (by rw [ProbeCache.value, hcell]) hidle
        (by simp [ProbeCache.value, hcell]) rfl (since_of_starts hidle fun _ => rfl) rfl
    · refine .of_frame (c := c) rfl (fun c' hcc => by simp [hcc]) (by simp [hc]) ?_ rfl
      simp [Ne.symm hss]

/-- By cases of the step: only a poll, the end of a probe or the loss of a prober is
something to the slot. -/
theorem slot_move (wf : st.cache.WF) (hs : s < st.cache.fresh) (h : st.step l = some st') :
    SlotMove s st l st' := by
  have hne : s ≠ st.cache.fresh := Nat.ne_of_lt hs
  cases step_cases h with
  | tick => exact .same rfl (fun _ _ => Iff.rfl) rfl
  | mark hnow =>
    exact .same (by simp [ProbeCache.markPresent, hne])
      (fun _ _ => by simp [ProbeCache.markPresent]) rfl
  | @call c' hash now hc' hnow =>
    refine .of_frame (c := c') ?_ (fun _ hcc => ProbeCache.caller_call hcc) (by simp [hc'])
      (by simp [ProbeCache.caller_call_self]) rfl
    unfold ProbeCache.call
    rcases ProbeCache.slot_cases st.cache hash now with ⟨s', -, -, heq⟩ | ⟨-, heq⟩ <;> rw [heq]
    · rfl
    · simp [hne]
  | poll hpoll => exact slotMove_of_poll wf hpoll
  | @finish c' s' since value cache hc' hfin =>
    obtain ⟨s'', since', hc'', rfl⟩ := ProbeCache.finish_cases hfin
    rw [hc'] at hc''
    cases hc''
    by_cases hss : s = s'
    · subst hss
      have hv : st.cache.value s = none := (wf.probing_head hc').1
      refine .ends hc' ?_ (idle_of_exit wf hc') rfl (by rw [ended_cons, if_pos rfl])
      cases value <;> simp [OnceCell.settle, hv]
    · exact .of_frame (c := c') (by simp [hss]) (fun _ hcc => by simp [hcc])
        (by simp [hc', Ne.symm hss]) (by simp) (by rw [ended_cons, if_neg (Ne.symm hss)])
  | @cancel c' =>
    rcases ProbeCache.cancel_cases st.cache c' with ⟨-, heq⟩ | ⟨phase, hc', heq⟩
    · rw [heq]
      exact .same rfl (fun _ _ => Iff.rfl) rfl
    · by_cases hprobing : ∃ since, phase = .probing s since
      · obtain ⟨since, rfl⟩ := hprobing
        have hv : (st.cache.cancel c').value s = none :=
          ProbeCache.value_cancel.trans (wf.probing_head hc').1
        rw [heq] at hv ⊢
        exact .drops hc' hv (idle_of_exit wf hc') rfl rfl
      · refine .of_frame (c := c') ProbeCache.value_cancel
          (fun _ hcc => ProbeCache.caller_cancel hcc) ?_ (by simp [ProbeCache.caller_cancel_self]) rfl
        intro since hc
        rw [hc'] at hc
        injection hc with hc
        exact hprobing ⟨since, hc⟩

/-! ## The caller on its slot -/

/-- It stays on its slot until it returns. -/
theorem slot_step {phase : Phase} (h : st.step l = some st') (hc : st.cache.caller c = some phase)
    (hcancel : l ≠ .cancel c) : st'.cache.caller c = none ∨
      ∃ phase', st'.cache.caller c = some phase' ∧ phase'.slot = phase.slot := by
  by_cases hl : l.Advances c
  · exact (advance h hc hl).imp_right fun ⟨phase', hc', hslot, _⟩ => ⟨phase', hc', hslot⟩
  · exact Or.inr ⟨phase, caller_step h hc hl hcancel, rfl⟩

/-- A poll does not return as long as the cell is empty. -/
theorem inside_of_poll {phase : Phase} (h : st.step (.poll c') = some st')
    (hc : st.cache.caller c = some phase) (hv : st.cache.value phase.slot = none) :
    st'.cache.caller c ≠ none := by
  by_cases hcc : c' = c
  · subst hcc
    cases step_cases h with
    | poll hpoll =>
      cases ProbeCache.poll_cases hpoll with
      | @initialized s' v hc' hv' =>
        rcases hc' with hc' | hc' <;>
        · rw [hc] at hc'
          cases hc'
          cases hv.symm.trans hv'
      | first | join | turn => simp
  · rw [caller_step h hc hcc (by simp)]
    simp

/-- As long as a caller is inside, it can be polled, or whoever is at the head
of its queue can, or a probe is in flight. -/
theorem polled_or_probing (wf : st.cache.WF) {phase : Phase}
    (hc : st.cache.caller c = some phase) :
    (∃ c' phase' cache r, st.cache.caller c' = some phase' ∧ phase'.slot = phase.slot ∧
      st.cache.poll c' st.clock = some (cache, r)) ∨
    ∃ c' since, st.cache.caller c' = some (.probing phase.slot since) := by
  cases phase with
  | holding s' =>
    obtain ⟨cache, r, h⟩ := ProbeCache.poll_holding st.clock hc
    exact Or.inl ⟨c, _, cache, r, hc, rfl, h⟩
  | queued s' =>
    cases hv : st.cache.value s' with
    | some v => exact Or.inl ⟨c, _, _, _, hc, rfl, ProbeCache.poll_set hc hv⟩
    | none =>
      obtain ⟨ahead, hline⟩ := wf.inLine hc hv
      obtain ⟨a, phase, ⟨-, ⟨q, hq⟩, -⟩, -⟩ := exists_line wf hline
      rcases wf.mem_queue (show a ∈ st.cache.queue s' by simp [hq]) with ha | ha
      · exact Or.inl ⟨a, _, _, _, ha, rfl, ProbeCache.poll_head ⟨ha, hv, q, hq⟩⟩
      · exact Or.inr ⟨a, ha⟩
  | probing s' since => exact Or.inr ⟨c, since, hc⟩

end

end NxCacheServer.Server.CacheState
