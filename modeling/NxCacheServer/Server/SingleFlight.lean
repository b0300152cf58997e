import NxCacheServer.Server.CacheRun

/-!
# Single flight

At most one probe in flight per key. `UNRESOLVED_TTL` makes it so only as long
as no probe outlives its slot: the age of a slot counts from its creation, and
a retry on an empty slot may start at any time after it. `single_flight` is the
guarantee under that condition, `lateRetry_two_in_flight` a run without it.

A cell runs one probe at a time, so two probes of a key are in flight on two slots.
The second slot was made when the map had none that was live: the first one had
become 60 seconds old, or a write had put its seed there and that had expired in the
meantime. `Flying` is the invariant that excludes both: a young slot that callers are
on is in the map, or a seed that is not older than it is.

`lateRetry` is the run that breaks the guarantee: a retry that starts on an empty slot
of 59 seconds, and a caller that finds the slot too old one second later. Within the
first minute of a cache there is no such slot (`noneOutlives_of_firstMinute`), so
single flight holds there without a condition.
-/

namespace NxCacheServer.Server

open NxCacheServer.Domain NxCacheServer.Lib

namespace ProbeCache

/-- `c` runs a probe for `k`. -/
def InFlight (cache : ProbeCache) (c : CallerId) (k : Hash) : Prop :=
  ∃ s since, cache.caller c = some (.probing s since) ∧ (cache.arena s).hash = k

/-- At most one probe is in flight for any key. -/
def SingleFlight (cache : ProbeCache) : Prop :=
  ∀ k c c', cache.InFlight c k → cache.InFlight c' k → c = c'

/-- A poll of `c` would start a probe on `s`. -/
def Starts (cache : ProbeCache) (c : CallerId) (s : SlotId) : Prop :=
  cache.caller c = some (.holding s) ∧ (cache.arena s).present = ⟨none, []⟩ ∨
    cache.caller c = some (.queued s) ∧ ∃ q, (cache.arena s).present = ⟨none, c :: q⟩

/-- `s` is an empty slot younger than `UNRESOLVED_TTL`. -/
def Young (cache : ProbeCache) (clock : Instant) (s : SlotId) : Prop :=
  s < cache.fresh ∧ cache.value s = none ∧ clock < (cache.arena s).created + unresolvedTtl

/-- A caller is on `s`, whether it probes there, waits for its turn or has just come. -/
def Occupied (cache : ProbeCache) (s : SlotId) : Prop :=
  ∃ c phase, cache.caller c = some phase ∧ phase.slot = s

end ProbeCache

namespace CacheState

/-- Every probe ends, or is cancelled, within `timeout` of its start: time does
not pass beyond that. -/
def Timely (timeout : Duration) (st : CacheState) : CacheLabel → Prop
  | .tick d => ∀ c s since, st.cache.caller c = some (.probing s since) →
      st.clock + d ≤ since + timeout
  | _ => True

/-- Whether the time may pass is decided by going through the callers. -/
theorem timely_tick_iff {timeout d : Duration} {st : CacheState} :
    Timely timeout st (.tick d) ↔ ∀ e ∈ st.cache.callers.entries, ∀ since,
      e.2.probingSince = some since → st.clock + d ≤ since + timeout := by
  constructor
  · intro h e he since hsince
    obtain ⟨c, phase⟩ := e
    have hc : st.cache.caller c = some phase := AList.mem_lookup_iff.mpr he
    cases phase with
    | holding s => cases hsince
    | queued s => cases hsince
    | probing s t =>
      injection hsince with hsince
      rw [← hsince]
      exact h c s t hc
  · intro h c s since hc
    exact h ⟨c, .probing s since⟩ (AList.mem_lookup_iff.mp hc) since rfl

instance (timeout : Duration) (st : CacheState) :
    (l : CacheLabel) → Decidable (Timely timeout st l)
  | .tick _ => decidable_of_iff _ timely_tick_iff.symm
  | .call _ _ _ => isTrue trivial
  | .poll _ => isTrue trivial
  | .finish _ _ => isTrue trivial
  | .cancel _ => isTrue trivial
  | .mark _ _ => isTrue trivial

/-- No probe starts on, or is still in flight on, a slot that has reached
`UNRESOLVED_TTL`, and while callers are on a young empty slot of a key,
`mark_present` does not give the key a timestamp that is older than this slot. -/
def NoneOutlives (st : CacheState) : CacheLabel → Prop
  | .tick d => ∀ c s since, st.cache.caller c = some (.probing s since) →
      st.clock + d < (st.cache.arena s).created + unresolvedTtl
  | .poll c => ∀ s, st.cache.Starts c s → st.clock < (st.cache.arena s).created + unresolvedTtl
  | .mark hash now => ∀ s, st.cache.Young st.clock s → st.cache.Occupied s →
      (st.cache.arena s).hash = hash → (st.cache.arena s).created ≤ now
  | _ => True

/-- Every probe is on a young slot; a young slot that callers are on is in the
map, or a seed not older than it is; and a key has at most one of them. -/
structure Flying (st : CacheState) : Prop where
  wf : st.cache.WF
  young : ∀ {c s since}, st.cache.caller c = some (.probing s since) → st.cache.Young st.clock s
  covered : ∀ {s}, st.cache.Young st.clock s → st.cache.Occupied s →
    ∃ s', st.cache.entry (st.cache.arena s).hash = some s' ∧
      (s' = s ∨ st.cache.value s' = some true ∧
        (st.cache.arena s).created ≤ (st.cache.arena s').created)
  unique : ∀ {s s'}, st.cache.Young st.clock s → st.cache.Occupied s →
    st.cache.Young st.clock s' → st.cache.Occupied s' →
    (st.cache.arena s).hash = (st.cache.arena s').hash → s = s'

/-- Two probes of one key would be on one slot, and its queue has one head. -/
theorem Flying.singleFlight {st : CacheState} (hst : Flying st) : st.cache.SingleFlight := by
  intro k c c' hc hc'
  obtain ⟨s, since, hc, hk⟩ := hc
  obtain ⟨s', since', hc', hk'⟩ := hc'
  -- both probe on the same slot, and its queue has one head
  have hs : s = s' := hst.unique (hst.young hc) ⟨c, _, hc, rfl⟩ (hst.young hc')
    ⟨c', _, hc', rfl⟩ (hk.trans hk'.symm)
  obtain ⟨-, q, hq⟩ := hst.wf.probing_head hc
  obtain ⟨-, q', hq'⟩ := hst.wf.probing_head hc'
  rw [hs, hq'] at hq
  injection hq with hcc
  exact hcc.symm

theorem flying_init : Flying init where
  wf := ProbeCache.wf_empty
  young h := by cases h
  covered h _ := absurd h.1 (Nat.not_lt_zero _)
  unique h _ _ _ := absurd h.1 (Nat.not_lt_zero _)

/-- The steps that leave the map alone and at most set a cell, and take no caller
to another slot. -/
theorem Flying.of_frame {st st' : CacheState} (hst : Flying st) (wf' : st'.cache.WF)
    (hclock : st.clock ≤ st'.clock) (hfresh : st'.cache.fresh = st.cache.fresh)
    (hentry : ∀ k, st'.cache.entry k = st.cache.entry k)
    (hhash : ∀ s, (st'.cache.arena s).hash = (st.cache.arena s).hash)
    (hcreated : ∀ s, (st'.cache.arena s).created = (st.cache.arena s).created)
    (hvalue : ∀ s v, st.cache.value s = some v → st'.cache.value s = some v)
    (hslot : ∀ s, st'.cache.Occupied s → st.cache.Occupied s)
    (hage : ∀ c s since, st'.cache.caller c = some (.probing s since) →
      st'.clock < (st.cache.arena s).created + unresolvedTtl) : Flying st' := by
  -- nothing gets younger, and no cell is emptied
  have hback : ∀ s, st'.cache.Young st'.clock s → st.cache.Young st.clock s := by
    intro s hs
    obtain ⟨hlt, hnone, hage⟩ := hs
    rw [hfresh] at hlt
    rw [hcreated] at hage
    refine ⟨hlt, ?_, Nat.lt_of_le_of_lt hclock hage⟩
    cases hv : st.cache.value s with
    | none => rfl
    | some v =>
      rw [hvalue s v hv] at hnone
      cases hnone
  refine ⟨wf', ?_, ?_, ?_⟩
  · intro c s since hc
    refine ⟨wf'.caller_lt hc, (wf'.probing_head hc).1, ?_⟩
    rw [hcreated]
    exact hage c s since hc
  · intro s hs hon
    obtain ⟨s', hs', hcov⟩ := hst.covered (hback s hs) (hslot s hon)
    refine ⟨s', by rw [hentry, hhash]; exact hs', ?_⟩
    rcases hcov with hcov | ⟨hv, hage⟩
    · exact Or.inl hcov
    · exact Or.inr ⟨hvalue s' true hv, by rw [hcreated, hcreated]; exact hage⟩
  · intro s s' hs hon hs' hon' hk
    rw [hhash, hhash] at hk
    exact hst.unique (hback s hs) (hslot s hon) (hback s' hs') (hslot s' hon') hk

/-- What covers a young slot is live. -/
theorem Flying.live_of_covers {st : CacheState} {s s' : SlotId} {now : Instant}
    (hs : st.cache.Young st.clock s) (hnow : now ≤ st.clock)
    (hcov : s' = s ∨ st.cache.value s' = some true ∧
      (st.cache.arena s).created ≤ (st.cache.arena s').created) :
    (st.cache.arena s').live now = true := by
  obtain ⟨-, hnone, hage⟩ := hs
  unfold Slot.live
  rcases hcov with rfl | ⟨hv, hle⟩
  · rw [show (st.cache.arena s').present.value = none from hnone]
    simp only [decide_eq_true_eq]
    unfold unresolvedTtl fromSecs at hage ⊢
    lia
  · rw [show (st.cache.arena s').present.value = some true from hv]
    simp only [decide_eq_true_eq]
    unfold unresolvedTtl fromSecs at hage
    unfold positiveTtl fromSecs
    lia

section

variable {st : CacheState} {hash : Hash} {now : Instant} {p : Option Bool}

/-- A young slot that is not new was young before the insertion. -/
theorem young_of_insert {s : SlotId} (hne : s ≠ st.cache.fresh)
    (hs : ((st.cache.sweep now).insert hash ⟨p, []⟩ now).Young st.clock s) :
    st.cache.Young st.clock s := by
  obtain ⟨hlt, hnone, hage⟩ := hs
  rw [ProbeCache.arena_insert_sweep hne] at hage
  rw [ProbeCache.value_insert_sweep hne] at hnone
  rw [ProbeCache.fresh_insert, ProbeCache.fresh_sweep] at hlt
  exact ⟨Nat.lt_of_le_of_ne (Nat.le_of_lt_succ hlt) hne, hnone, hage⟩

/-- Nobody is on a slot that has just been inserted. -/
theorem occupied_of_insert (hwf : st.cache.WF) {s : SlotId}
    (hs : ((st.cache.sweep now).insert hash ⟨p, []⟩ now).Occupied s) :
    s ≠ st.cache.fresh ∧ st.cache.Occupied s := by
  obtain ⟨c, phase, hc, rfl⟩ := hs
  rw [ProbeCache.caller_insert, ProbeCache.caller_sweep] at hc
  exact ⟨Nat.ne_of_lt (hwf.caller_lt hc), c, phase, hc, rfl⟩

/-- If the slot of a key is dead, nobody is on a young slot of it: what covered
that would be live. -/
theorem Flying.not_young (hst : Flying st) (hnow : now ≤ st.clock)
    (hdead : ∀ s, st.cache.entry hash = some s → (st.cache.arena s).live now = false)
    {s : SlotId} (hs : st.cache.Young st.clock s) (hon : st.cache.Occupied s) :
    (st.cache.arena s).hash ≠ hash := by
  intro hk
  obtain ⟨s', hs', hcov⟩ := hst.covered hs hon
  rw [hk] at hs'
  have hlive := live_of_covers hs hnow hcov
  rw [hdead s' hs'] at hlive
  cases hlive

/-- The sweep spares the slot that covers a young one, and an insertion under
another key leaves it in the map. -/
theorem Flying.covered_other (hst : Flying st) (hnow : now ≤ st.clock) {s : SlotId}
    (hs : st.cache.Young st.clock s) (hon : st.cache.Occupied s)
    (hk : (st.cache.arena s).hash ≠ hash) :
    ∃ s', ((st.cache.sweep now).insert hash ⟨p, []⟩ now).entry (st.cache.arena s).hash = some s' ∧
      s' ≠ st.cache.fresh ∧ (s' = s ∨ st.cache.value s' = some true ∧
        (st.cache.arena s).created ≤ (st.cache.arena s').created) := by
  obtain ⟨s', hs', hcov⟩ := hst.covered hs hon
  refine ⟨s', ?_, Nat.ne_of_lt (hst.wf.entry_lt hs'), hcov⟩
  rw [ProbeCache.entry_insert, if_neg hk]
  rcases ProbeCache.entry_sweep st.cache now (st.cache.arena s).hash with
    heq | ⟨-, s'', hs'', hdead⟩
  · rw [heq, hs']
  · rw [hs'] at hs''
    cases hs''
    rw [live_of_covers hs hnow hcov] at hdead
    cases hdead

/-- A new slot in the map, that nobody is on yet: an empty one where nothing live
was, or a seed that is not older than the slot of its key that callers are on. -/
theorem Flying.insert (hst : Flying st) (hnow : now ≤ st.clock)
    (hp : p = none ∧ (∀ s, st.cache.entry hash = some s → (st.cache.arena s).live now = false) ∨
      p = some true ∧ ∀ s, st.cache.Young st.clock s → st.cache.Occupied s →
        (st.cache.arena s).hash = hash → (st.cache.arena s).created ≤ now) :
    Flying { st with cache := (st.cache.sweep now).insert hash ⟨p, []⟩ now } := by
  refine ⟨(hst.wf.sweep now).insert hash p now, ?_, ?_, ?_⟩
  · intro c s since h
    rw [ProbeCache.caller_insert, ProbeCache.caller_sweep] at h
    obtain ⟨hlt, hnone, hage⟩ := hst.young h
    have hs : s ≠ st.cache.fresh := Nat.ne_of_lt hlt
    refine ⟨?_, ?_, ?_⟩
    · rw [ProbeCache.fresh_insert, ProbeCache.fresh_sweep]
      exact Nat.lt_succ_of_lt hlt
    · rw [ProbeCache.value_insert_sweep hs]
      exact hnone
    · rw [ProbeCache.arena_insert_sweep hs]
      exact hage
  · intro s hs hon
    obtain ⟨hne, hon⟩ := occupied_of_insert hst.wf hon
    have hs := young_of_insert hne hs
    rw [ProbeCache.arena_insert_sweep hne]
    by_cases hk : (st.cache.arena s).hash = hash
    · -- its key is being seeded: the seed covers it
      rcases hp with ⟨-, hdead⟩ | ⟨hsome, hle⟩
      · exact absurd hk (hst.not_young hnow hdead hs hon)
      · refine ⟨st.cache.fresh, by simp [hk], Or.inr ⟨by simp [hsome], ?_⟩⟩
        rw [ProbeCache.arena_insert, ProbeCache.fresh_sweep, if_pos rfl]
        exact hle s hs hon hk
    · obtain ⟨s', hs', hne', hcov⟩ := hst.covered_other hnow hs hon hk
      refine ⟨s', hs', ?_⟩
      rw [ProbeCache.value_insert_sweep hne', ProbeCache.arena_insert_sweep hne']
      exact hcov
  · intro s s' hs hon hs' hon' hk
    obtain ⟨hne, hon⟩ := occupied_of_insert hst.wf hon
    obtain ⟨hne', hon'⟩ := occupied_of_insert hst.wf hon'
    rw [ProbeCache.arena_insert_sweep hne, ProbeCache.arena_insert_sweep hne'] at hk
    exact hst.unique (young_of_insert hne hs) hon (young_of_insert hne' hs') hon' hk

/-- A caller that comes is given the slot that is in the map, and that is the
only young one of its key that anybody is on. -/
theorem Flying.join (hst : Flying st) {c : CallerId} {s : SlotId}
    (hentry : st.cache.entry hash = some s)
    (wf' : (st.cache.setCaller c (some (.holding s))).WF) :
    Flying ⟨st.clock, st.cache.setCaller c (some (.holding s)), st.completed⟩ := by
  have hhash := hst.wf.entry_hash hentry
  have hjoin : ∀ t, (st.cache.setCaller c (some (.holding s))).Occupied t →
      t = s ∨ st.cache.Occupied t := by
    rintro t ⟨c', phase, hc', rfl⟩
    rw [ProbeCache.caller_setCaller] at hc'
    split at hc'
    next =>
      cases hc'
      exact Or.inl rfl
    next => exact Or.inr ⟨c', phase, hc', rfl⟩
  -- a slot that covers one of the key is `s`, and `s` is no seed if it is young
  have honly : ∀ t, st.cache.Young st.clock s → st.cache.Young st.clock t →
      st.cache.Occupied t → (st.cache.arena t).hash = hash → t = s := by
    intro t hs ht hon hk
    obtain ⟨s', hs', hcov⟩ := hst.covered ht hon
    rw [hk, hentry] at hs'
    cases hs'
    rcases hcov with rfl | ⟨hv, -⟩
    · rfl
    · rw [hs.2.1] at hv
      cases hv
  refine ⟨wf', ?_, ?_, ?_⟩
  · intro c' t since hc'
    dsimp only at hc'
    rw [ProbeCache.caller_setCaller] at hc'
    split at hc'
    next => cases hc'
    next => exact hst.young hc'
  · intro t ht hon
    rcases hjoin t hon with rfl | hon
    · exact ⟨t, (congrArg st.cache.entry hhash).trans hentry, Or.inl rfl⟩
    · exact hst.covered ht hon
  · intro t t' ht hon ht' hon' hk
    rcases hjoin t hon with rfl | hbefore
    · rcases hjoin t' hon' with rfl | hbefore'
      · rfl
      · exact (honly t' ht ht' hbefore' (hk.symm.trans hhash)).symm
    · rcases hjoin t' hon' with rfl | hbefore'
      · exact honly t ht' ht hbefore (hk.trans hhash)
      · exact hst.unique ht hbefore ht' hbefore' hk

end

/-- A caller that moves on stays on its slot, or leaves the cache. -/
theorem occupied_of_setCaller {cache : ProbeCache} {c : CallerId} {phase : Option Phase}
    (hslot : ∀ next, phase = some next → cache.Occupied next.slot) {s : SlotId}
    (hs : (cache.setCaller c phase).Occupied s) : cache.Occupied s := by
  obtain ⟨c', next, hc', rfl⟩ := hs
  rw [ProbeCache.caller_setCaller] at hc'
  split at hc'
  next => exact hslot next hc'
  next => exact ⟨c', next, hc', rfl⟩

/-- A caller that goes on within its slot leaves somebody there. -/
theorem occupied_of_stays {cache : ProbeCache} {c : CallerId} {phase phase' : Phase}
    (hc : cache.caller c = some phase) (hslot : phase'.slot = phase.slot) (next : Phase)
    (hnext : some phase' = some next) : cache.Occupied next.slot := by
  cases hnext
  exact ⟨c, phase, hc, hslot.symm⟩

/-- No prober is on an expired slot, if the one that moves on is on none. -/
theorem Flying.age_of_setCaller {st : CacheState} (hst : Flying st) {cache : ProbeCache}
    (hcaller : ∀ c, cache.caller c = st.cache.caller c) {c c' : CallerId} {phase : Option Phase}
    (hphase : ∀ s since, phase = some (.probing s since) →
      st.clock < (st.cache.arena s).created + unresolvedTtl) {s : SlotId} {since : Instant}
    (hc : (cache.setCaller c phase).caller c' = some (.probing s since)) :
    st.clock < (st.cache.arena s).created + unresolvedTtl := by
  rw [ProbeCache.caller_setCaller] at hc
  split at hc
  next => exact hphase s since hc
  next =>
    rw [hcaller] at hc
    exact (hst.young hc).2.2

/-- One caller moves on and its cell with it; a cell that is set stays set. -/
theorem Flying.move {st : CacheState} (hst : Flying st) {c : CallerId} {phase : Option Phase}
    {s : SlotId} {cell : OnceCell} {completed : List Completion}
    (wf' : ((st.cache.setCell s cell).setCaller c phase).WF)
    (hcell : ∀ v, st.cache.value s = some v → cell.value = some v)
    (hslot : ∀ next, phase = some next → st.cache.Occupied next.slot)
    (hphase : ∀ s since, phase = some (.probing s since) →
      st.clock < (st.cache.arena s).created + unresolvedTtl) :
    Flying ⟨st.clock, (st.cache.setCell s cell).setCaller c phase, completed⟩ := by
  refine hst.of_frame wf' (Nat.le_refl _) rfl (fun _ => rfl) ?_ ?_ ?_ ?_ ?_
  · intro s'
    exact ProbeCache.hash_setCell
  · intro s'
    exact ProbeCache.created_setCell
  · intro s' v hv
    exact ProbeCache.value_of_setCell hcell hv
  · intro s' hs'
    exact @occupied_of_setCaller st.cache _ _ hslot _ hs'
  · intro c' s' since hc
    exact hst.age_of_setCaller (fun _ => rfl) hphase hc

theorem Flying.setCaller {st : CacheState} (hst : Flying st) {c : CallerId} {phase : Option Phase}
    (wf' : (st.cache.setCaller c phase).WF)
    (hslot : ∀ next, phase = some next → st.cache.Occupied next.slot)
    (hphase : ∀ s since, phase = some (.probing s since) →
      st.clock < (st.cache.arena s).created + unresolvedTtl) :
    Flying ⟨st.clock, st.cache.setCaller c phase, st.completed⟩ := by
  refine hst.of_frame wf' (Nat.le_refl _) rfl (fun _ => rfl) (fun _ => rfl) (fun _ => rfl)
    (fun _ _ h => h) (fun _ hs => occupied_of_setCaller hslot hs) ?_
  intro c' s' since hc
  exact hst.age_of_setCaller (fun _ => rfl) hphase hc

/-- A step that neither starts nor outlives a probe too late keeps the flight. -/
theorem Flying.step {st st' : CacheState} {l : CacheLabel} (hst : Flying st)
    (hok : NoneOutlives st l) (h : st.step l = some st') : Flying st' := by
  have wf' := step_wf hst.wf h
  cases step_cases h with
  | @tick d =>
    exact hst.of_frame wf' (Nat.le_add_right _ _) rfl (fun _ => rfl) (fun _ => rfl)
      (fun _ => rfl) (fun _ _ h => h) (fun _ h => h) hok
  | @call c hash now hc hnow =>
    dsimp only at wf' ⊢
    unfold ProbeCache.call at wf' ⊢
    rcases ProbeCache.slot_cases st.cache hash now with ⟨s, hentry, -, heq⟩ | ⟨hdead, heq⟩
    · rw [heq] at wf' ⊢
      exact hst.join hentry wf'
    · rw [heq] at wf' ⊢
      exact (hst.insert hnow (Or.inl ⟨rfl, hdead⟩)).join
        (show ((st.cache.sweep now).insert hash ⟨none, []⟩ now).entry hash = _ by simp) wf'
  | @poll c cache r hpoll =>
    cases ProbeCache.poll_cases hpoll with
    | initialized => exact hst.setCaller wf' (fun _ h => by cases h) (fun _ _ h => by cases h)
    | @first s hc hcell =>
      refine hst.move wf' ?_ (occupied_of_stays hc rfl) ?_
      · intro v hv
        rw [ProbeCache.value, hcell] at hv
        cases hv
      · intro s' since heq
        cases heq
        exact hok s (Or.inl ⟨hc, hcell⟩)
    | @join s b q hc hcell =>
      refine hst.move wf' ?_ (occupied_of_stays hc rfl) (fun _ _ h => by cases h)
      intro v hv
      rw [ProbeCache.value, hcell] at hv
      cases hv
    | @turn s q hc hcell =>
      refine hst.setCaller wf' (occupied_of_stays hc rfl) ?_
      intro s' since heq
      cases heq
      exact hok s (Or.inr ⟨hc, q, hcell⟩)
  | @finish c s since value cache hc hfin =>
    obtain ⟨s', since', hc', rfl⟩ := ProbeCache.finish_cases hfin
    refine hst.move wf' ?_ (fun _ h => by cases h) (fun _ _ h => by cases h)
    intro v hv
    rw [(hst.wf.probing_head hc').1] at hv
    cases hv
  | @cancel c =>
    dsimp only at wf' ⊢
    rcases ProbeCache.cancel_cases st.cache c with ⟨-, heq⟩ | ⟨phase, -, heq⟩
    · rw [heq]
      exact hst
    · rw [heq] at wf' ⊢
      exact hst.move wf' (fun v hv => hv) (fun _ h => by cases h) (fun _ _ h => by cases h)
  | @mark hash now hnow => exact hst.insert hnow (Or.inr ⟨rfl, hok⟩)

/-- **Single flight.** In every run of a fresh cache in which no probe outlives
its slot, at most one probe is in flight per key, at every moment. -/
theorem single_flight {ls : List CacheLabel} {st : CacheState}
    (hrun : Run CacheState.step NoneOutlives init ls st) : st.cache.SingleFlight :=
  Flying.singleFlight (hrun.invariant (fun _ _ _ hst hok h => hst.step hok h) flying_init)

/-- The steps of the first minute: no slot is old enough to expire. -/
def firstMinute (st : CacheState) : CacheLabel → Bool
  | .tick d => st.clock + d < unresolvedTtl
  | .mark _ _ => false
  | _ => st.clock < unresolvedTtl

/-- In the first minute no slot is old enough to be outlived. -/
theorem noneOutlives_of_firstMinute {st : CacheState} {l : CacheLabel}
    (h : firstMinute st l = true) : NoneOutlives st l := by
  cases l with
  | tick d =>
    intro c s since _
    exact Nat.lt_of_lt_of_le (of_decide_eq_true h) (Nat.le_add_left _ _)
  | poll c =>
    intro s _
    exact Nat.lt_of_lt_of_le (of_decide_eq_true h) (Nat.le_add_left _ _)
  | mark hash now => cases h
  | call c hash now => trivial
  | finish c value => trivial
  | cancel c => trivial

/-- Two callers share a probe; a third retries after it failed. -/
def sharedProbe : List CacheLabel :=
  [.call 0 "abc" 0, .poll 0, .call 1 "abc" 0, .poll 1, .tick (fromSecs 30), .finish 0 none,
    .call 2 "abc" (fromSecs 20), .poll 2, .poll 1]

/-- The retry of the third caller is the only probe there is. -/
theorem sharedProbe_single_flight :
    ∃ st, Run CacheState.step NoneOutlives init sharedProbe st ∧ st.cache.InFlight 1 "abc" ∧
      st.cache.SingleFlight := by
  obtain ⟨st, hrun, hc, hk⟩ : ∃ st, Run CacheState.step NoneOutlives init sharedProbe st ∧
      st.cache.caller 1 = some (.probing 0 (fromSecs 30)) ∧ (st.cache.arena 0).hash = "abc" :=
    exists_run_of_exec (fun _ _ h => noneOutlives_of_firstMinute h) (by decide)
  exact ⟨st, hrun, ⟨0, _, hc, hk⟩, single_flight hrun⟩

/-- A failed probe, and a retry that starts just before its slot expires. -/
def lateRetry : List CacheLabel :=
  [.call 0 "abc" 0, .poll 0, .tick (fromSecs 30), .finish 0 none,
    .tick (fromSecs 29), .call 1 "abc" (fromSecs 59), .poll 1,
    .tick (fromSecs 1), .call 2 "abc" (fromSecs 60), .poll 2]

/-- With an `S3_TIMEOUT` of 30 s, a retry that starts on a slot of 59 s is still
in flight when the slot expires and the next caller starts a second probe. -/
theorem lateRetry_two_in_flight :
    fromSecs 30 ≤ unresolvedTtl ∧
    ∃ st, Run CacheState.step (Timely (fromSecs 30)) init lateRetry st ∧
      st.cache.InFlight 1 "abc" ∧ st.cache.InFlight 2 "abc" := by
  refine ⟨by decide, ?_⟩
  obtain ⟨st, hrun, h₁, h₂, hk₁, hk₂⟩ :
      ∃ st, Run CacheState.step (Timely (fromSecs 30)) init lateRetry st ∧
        st.cache.caller 1 = some (.probing 0 (fromSecs 59)) ∧
        st.cache.caller 2 = some (.probing 1 (fromSecs 60)) ∧
        (st.cache.arena 0).hash = "abc" ∧ (st.cache.arena 1).hash = "abc" :=
    exists_run_of_exec (fun _ _ h => of_decide_eq_true h)
      (show (exec _ (fun st l => decide (Timely (fromSecs 30) st l)) _ _).any _ = true by decide)
  exact ⟨st, hrun, ⟨0, _, h₁, hk₁⟩, ⟨1, _, h₂, hk₂⟩⟩

end CacheState

end NxCacheServer.Server
