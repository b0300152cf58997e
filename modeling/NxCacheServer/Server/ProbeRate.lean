import NxCacheServer.Server.LockOrder

/-!
# One probe per key and TTL

What the cache is for: as long as no probe fails and nobody goes away, a slot
starts one probe, and two slots of a key that start one are `NEGATIVE_TTL`
apart. The first is about the queue of a cell (`Single`), the second about the
map (`Spaced`): the slot that a new one takes the place of, in the map or in a
sweep, was dead.

Both invariants are needed at once. Without an `Err` and without a caller that goes
away a cell that has had its probe has its value, or still has the one probe; so a
second probe for a key is one on another slot, and that one was made when the first
was dead. In `secondWindow` the two probes are `NEGATIVE_TTL` apart and no more.

The bound on a window comes from a fact about lists, `length_le_of_spaced`: numbers
that are pairwise apart by `d` or more are at most `w / d` rounded up in a window of
length `w`. It is applied to the creation of the slots that have started a probe,
which are different ones by `Single`.
-/

namespace NxCacheServer.Server

open NxCacheServer.Domain NxCacheServer.Lib

/-- In a half-open window of length `w` there is room for at most `⌈w / d⌉`
instants that are `d` apart. -/
theorem length_le_of_spaced {d w t : Nat} (hd : 0 < d) {xs : List Nat}
    (hspaced : xs.Pairwise fun x y => x + d ≤ y ∨ y + d ≤ x)
    (hin : ∀ x ∈ xs, t ≤ x ∧ x < t + w) : xs.length ≤ (w + d - 1) / d := by
  have hbound : ∀ x ∈ xs, (x - t) / d < (w + d - 1) / d := by
    intro x hx
    obtain ⟨hlow, hhigh⟩ := hin x hx
    calc (x - t) / d < (x - t) / d + 1 := Nat.lt_succ_self _
      _ = (x - t + d) / d := (Nat.add_div_right _ hd).symm
      _ ≤ (w + d - 1) / d := Nat.div_le_div_right (by omega)
  have hlt : ∀ x y, t ≤ x → x + d ≤ y → (x - t) / d < (y - t) / d := by
    intro x y hlow hxy
    calc (x - t) / d < (x - t) / d + 1 := Nat.lt_succ_self _
      _ = (x - t + d) / d := (Nat.add_div_right _ hd).symm
      _ ≤ (y - t) / d := Nat.div_le_div_right (by omega)
  -- instants that are `d` apart fall into different pieces of the window
  have hnodup : (xs.map fun x => (x - t) / d).Nodup := by
    rw [List.Nodup, List.pairwise_map]
    refine hspaced.imp_of_mem ?_
    intro x y hx hy hxy
    rcases hxy with hxy | hxy
    · exact Nat.ne_of_lt (hlt x y (hin x hx).1 hxy)
    · exact Nat.ne_of_gt (hlt y x (hin y hy).1 hxy)
  have hsub : (xs.map fun x => (x - t) / d) ⊆ List.range ((w + d - 1) / d) := by
    intro n hn
    obtain ⟨x, hx, rfl⟩ := List.mem_map.mp hn
    exact List.mem_range.mpr (hbound x hx)
  have hlength := (List.subperm_of_subset hnodup hsub).length_le
  rwa [List.length_map, List.length_range] at hlength

namespace CacheState

variable {st st' : CacheState} {l : CacheLabel} {ls : List CacheLabel}
  {ok : CacheState → CacheLabel → Prop}

theorem probes_snoc (hrun : Run step ok init ls st) (h : st.step l = some st') :
    probes (ls ++ [l]) = probes ls ++ ((output st l).bind Output.probe).toList := by
  unfold probes
  rw [hrun.outputs_snoc h, List.filterMap_append]
  cases hout : (output st l).bind Output.probe <;> simp [hout]

/-- No probe fails, and nobody goes away. -/
def Untroubled (_ : CacheState) : CacheLabel → Prop
  | .finish _ none => False
  | .cancel _ => False
  | _ => True

instance (st : CacheState) : (l : CacheLabel) → Decidable (Untroubled st l)
  | .finish _ none => isFalse not_false
  | .finish _ (some _) => isTrue trivial
  | .cancel _ => isFalse not_false
  | .tick _ => isTrue trivial
  | .call _ _ _ => isTrue trivial
  | .poll _ => isTrue trivial
  | .mark _ _ => isTrue trivial

/-! ## One probe for each slot -/

/-- Whoever is at the head of the queue of an empty cell runs its probe, and a
slot that has started one has its value or somebody who gets it. `started` are
the slots of the probes so far. -/
structure Single (started : List SlotId) (cache : ProbeCache) : Prop where
  flight : ∀ {s c q}, cache.value s = none → cache.queue s = c :: q →
    ∃ since, cache.caller c = some (.probing s since)
  used : ∀ {s}, s ∈ started → s < cache.fresh ∧ (cache.value s = none → cache.queue s ≠ [])
  nodup : started.Nodup

theorem Single.start {started : List SlotId} {cache : ProbeCache} (h : Single started cache)
    {c : CallerId} {s : SlotId} {clock : Instant} (wf : cache.WF)
    (hc : cache.caller c = some (.holding s)) (hcell : (cache.arena s).present = ⟨none, []⟩) :
    Single (started ++ [s])
      ((cache.setCell s ⟨none, [c]⟩).setCaller c (some (.probing s clock))) where
  flight {s' c' q} hnone hqueue := by
    rw [ProbeCache.value_setCaller, ProbeCache.value_setCell] at hnone
    rw [ProbeCache.queue_setCaller, ProbeCache.queue_setCell] at hqueue
    rw [ProbeCache.caller_setCaller, ProbeCache.caller_setCell]
    split at hqueue
    next heq =>
      cases hqueue
      exact ⟨clock, by rw [if_pos rfl, heq]⟩
    next hne =>
      rw [if_neg hne] at hnone
      obtain ⟨since, hc'⟩ := h.flight hnone hqueue
      refine ⟨since, ?_⟩
      rw [if_neg, hc']
      intro heq
      rw [heq, hc] at hc'
      cases hc'
  used {s'} hmem := by
    rw [ProbeCache.fresh_setCaller, ProbeCache.fresh_setCell, ProbeCache.value_setCaller,
      ProbeCache.value_setCell, ProbeCache.queue_setCaller, ProbeCache.queue_setCell]
    rcases List.mem_append.mp hmem with hold | hnew
    · obtain ⟨hlt, hqueue⟩ := h.used hold
      refine ⟨hlt, ?_⟩
      split
      next => simp
      next => exact hqueue
    · rw [List.mem_singleton.mp hnew]
      exact ⟨wf.caller_lt hc, by simp⟩
  nodup := by
    refine h.nodup.append (List.nodup_singleton s) ?_
    rw [List.disjoint_singleton]
    intro hmem
    have hnone : cache.value s = none := by rw [ProbeCache.value, hcell]
    exact (h.used hmem).2 hnone (by rw [ProbeCache.queue, hcell])

theorem Single.insert {started : List SlotId} {cache : ProbeCache} (h : Single started cache)
    {hash : Hash} {now : Instant} {p : Option Bool} :
    Single started ((cache.sweep now).insert hash ⟨p, []⟩ now) where
  flight {s c q} hnone hqueue := by
    rw [ProbeCache.value_insert, ProbeCache.fresh_sweep, ProbeCache.value_sweep] at hnone
    rw [ProbeCache.queue_insert, ProbeCache.fresh_sweep, ProbeCache.queue_sweep] at hqueue
    rw [ProbeCache.caller_insert, ProbeCache.caller_sweep]
    split at hqueue
    next => cases hqueue
    next hne =>
      rw [if_neg hne] at hnone
      exact h.flight hnone hqueue
  used {s} hmem := by
    obtain ⟨hlt, hqueue⟩ := h.used hmem
    have hne : s ≠ cache.fresh := Nat.ne_of_lt hlt
    rw [ProbeCache.fresh_insert, ProbeCache.value_insert, ProbeCache.queue_insert,
      ProbeCache.fresh_sweep, ProbeCache.value_sweep, ProbeCache.queue_sweep, if_neg hne, if_neg hne]
    exact ⟨Nat.lt_succ_of_lt hlt, hqueue⟩
  nodup := h.nodup

/-- A caller moves on that does not run a probe. -/
theorem Single.setCaller {started : List SlotId} {cache : ProbeCache} (h : Single started cache)
    {c : CallerId} {p : Option Phase} (hc : ∀ s since, cache.caller c ≠ some (.probing s since)) :
    Single started (cache.setCaller c p) where
  flight {s c' q} hnone hqueue := by
    obtain ⟨since, hc'⟩ := h.flight hnone hqueue
    refine ⟨since, ?_⟩
    rw [ProbeCache.caller_setCaller, if_neg, hc']
    intro heq
    rw [heq] at hc'
    exact hc s since hc'
  used := h.used
  nodup := h.nodup

theorem Single.join {started : List SlotId} {cache : ProbeCache} (h : Single started cache)
    {c b : CallerId} {s : SlotId} {q : List CallerId}
    (hcell : (cache.arena s).present = ⟨none, b :: q⟩) :
    Single started (cache.setCell s ⟨none, b :: q ++ [c]⟩) where
  flight {s' c' q'} hnone hqueue := by
    rw [ProbeCache.value_setCell] at hnone
    rw [ProbeCache.queue_setCell] at hqueue
    rw [ProbeCache.caller_setCell]
    split at hqueue
    next heq =>
      injection hqueue with hb _
      rw [← hb, heq]
      exact h.flight (by rw [ProbeCache.value, hcell]) (by rw [ProbeCache.queue, hcell])
    next hne =>
      rw [if_neg hne] at hnone
      exact h.flight hnone hqueue
  used {s'} hmem := by
    obtain ⟨hlt, hqueue⟩ := h.used hmem
    rw [ProbeCache.value_setCell, ProbeCache.queue_setCell]
    refine ⟨hlt, ?_⟩
    split
    next => simp
    next => exact hqueue
  nodup := h.nodup

/-- The probe of `c` ends with a result. -/
theorem Single.finish {started : List SlotId} {cache : ProbeCache} (h : Single started cache)
    {c : CallerId} {s : SlotId} {since : Instant} {v : Bool}
    (hc : cache.caller c = some (.probing s since)) :
    Single started ((cache.setCell s ⟨some v, []⟩).setCaller c none) where
  flight {s' c' q} hnone hqueue := by
    rw [ProbeCache.value_setCaller, ProbeCache.value_setCell] at hnone
    rw [ProbeCache.queue_setCaller, ProbeCache.queue_setCell] at hqueue
    rw [ProbeCache.caller_setCaller, ProbeCache.caller_setCell]
    split at hqueue
    next => cases hqueue
    next hne =>
      rw [if_neg hne] at hnone
      obtain ⟨since', hc'⟩ := h.flight hnone hqueue
      refine ⟨since', ?_⟩
      rw [if_neg, hc']
      intro heq
      rw [heq, hc] at hc'
      cases hc'
      exact hne rfl
  used {s'} hmem := by
    obtain ⟨hlt, hqueue⟩ := h.used hmem
    rw [ProbeCache.value_setCaller, ProbeCache.value_setCell, ProbeCache.queue_setCaller,
      ProbeCache.queue_setCell]
    refine ⟨hlt, ?_⟩
    split
    next => simp
    next => exact hqueue
  nodup := h.nodup

/-- The probe a step starts is on an empty slot that has not started one. -/
theorem Single.step {started : List SlotId} (wf : st.cache.WF) (hs : Single started st.cache)
    (hok : Untroubled st l) (h : st.step l = some st') :
    Single (started ++ ((output st l).bind Output.probe).toList) st'.cache ∧
      ∀ s, (output st l).bind Output.probe = some s →
        s < st.cache.fresh ∧ st.cache.value s = none := by
  have hquiet : (output st l).bind Output.probe = none → Single started st'.cache →
      Single (started ++ ((output st l).bind Output.probe).toList) st'.cache ∧
        ∀ s, (output st l).bind Output.probe = some s →
          s < st.cache.fresh ∧ st.cache.value s = none := by
    intro hnone hs'
    rw [hnone, Option.toList_none, List.append_nil]
    exact ⟨hs', by simp⟩
  cases step_cases h with
  | tick => exact hquiet rfl hs
  | @call c hash now hc hnow =>
    refine hquiet rfl ?_
    unfold ProbeCache.call
    rcases ProbeCache.slot_cases st.cache hash now with ⟨s, -, -, heq⟩ | ⟨-, heq⟩
    · rw [heq]
      exact hs.setCaller (by simp [hc])
    · rw [heq]
      exact hs.insert.setCaller (by simp [hc])
  | @poll c cache r hpoll =>
    cases ProbeCache.poll_cases hpoll with
    | @initialized s v hc hv =>
      refine hquiet (by simp [output, hpoll, Output.probe]) (hs.setCaller ?_)
      rcases hc with hc | hc <;> simp [hc]
    | @first s hc hcell =>
      have hout : (output st (.poll c)).bind Output.probe = some s := by
        simp [output, hpoll, Output.probe, Phase.slot]
      rw [hout]
      refine ⟨hs.start wf hc hcell, ?_⟩
      intro s' hs'
      cases hs'
      exact ⟨wf.caller_lt hc, by rw [ProbeCache.value, hcell]⟩
    | @join s b q hc hcell =>
      refine hquiet (by simp [output, hpoll]) ((hs.join hcell).setCaller ?_)
      simp [hc]
    | @turn s q hc hcell =>
      -- the head of a queue runs its probe, so nobody comes to the head of one
      obtain ⟨since, hc'⟩ := hs.flight (by rw [ProbeCache.value, hcell])
        (by rw [ProbeCache.queue, hcell])
      rw [hc] at hc'
      cases hc'
  | @finish c s since value cache hc hfin =>
    obtain ⟨s', since', hc', rfl⟩ := ProbeCache.finish_cases hfin
    cases value with
    | none => exact absurd hok not_false
    | some v => exact hquiet (by simp [output, hfin, Output.probe]) (hs.finish hc')
  | cancel => exact absurd hok not_false
  | mark => exact hquiet rfl hs.insert

/-! ## Slots that start probes are apart -/

/-- The slot of a key that is in the map is the youngest, or all have been dead
for some operation; and a slot that has started a probe, or still can, is
`NEGATIVE_TTL` younger than any slot of the key before it. -/
structure Spaced (ls : List CacheLabel) (cache : ProbeCache) : Prop where
  tracked : ∀ {s}, s < cache.fresh →
    (∃ e, cache.entry (cache.arena s).hash = some e ∧
      (cache.arena s).created ≤ (cache.arena e).created) ∨
    ∃ t ∈ stamps ls, (cache.arena s).created + negativeTtl ≤ t
  apart : ∀ {s s'}, s < s' → s' < cache.fresh → (cache.arena s).hash = (cache.arena s').hash →
    cache.value s' = none ∨ s' ∈ probes ls →
    (cache.arena s).created + negativeTtl ≤ (cache.arena s').created

/-- The slots that were there are as they were. -/
theorem arena_old {slot : Slot}
    (harena : ∀ s, st'.cache.arena s = if s = st.cache.fresh then slot else st.cache.arena s)
    {s : SlotId} (hlt : s < st.cache.fresh) : st'.cache.arena s = st.cache.arena s := by
  rw [harena, if_neg (Nat.ne_of_lt hlt)]

theorem arena_new {slot : Slot}
    (harena : ∀ s, st'.cache.arena s = if s = st.cache.fresh then slot else st.cache.arena s) :
    st'.cache.arena st.cache.fresh = slot := by
  rw [harena, if_pos rfl]

namespace Spaced

variable (hs : Spaced ls st.cache)
  (hstarted : ∀ s, s ∈ probes (ls ++ [l]) →
    s ∈ probes ls ∨ s < st.cache.fresh ∧ st.cache.value s = none)

include hs

include hstarted in
/-- A step that leaves the map alone; a slot that starts its probe was empty. -/
theorem kept (hfresh : st'.cache.fresh = st.cache.fresh) (hslots : st'.cache.slots = st.cache.slots)
    (hhash : ∀ s, (st'.cache.arena s).hash = (st.cache.arena s).hash)
    (hcreated : ∀ s, (st'.cache.arena s).created = (st.cache.arena s).created)
    (hvalue : ∀ s v, st.cache.value s = some v → st'.cache.value s = some v) :
    Spaced (ls ++ [l]) st'.cache where
  tracked {s} hlt := by
    have hentry : ∀ k, st'.cache.entry k = st.cache.entry k := by
      intro k
      unfold ProbeCache.entry
      rw [hslots]
    rw [hfresh] at hlt
    rw [hentry, hhash, hcreated]
    rcases hs.tracked hlt with ⟨e, he, hle⟩ | ⟨t, ht, hle⟩
    · exact Or.inl ⟨e, he, by rw [hcreated]; exact hle⟩
    · exact Or.inr ⟨t, mem_stamps_of_mem ht, hle⟩
  apart {s s'} hlt hlt' hk hfrom := by
    rw [hfresh] at hlt'
    rw [hhash, hhash] at hk
    rw [hcreated, hcreated]
    refine hs.apart hlt hlt' hk ?_
    rcases hfrom with hnone | hmem
    · refine Or.inl ?_
      cases hv : st.cache.value s' with
      | none => rfl
      | some v =>
        rw [hvalue s' v hv] at hnone
        cases hnone
    · exact (hstarted s' hmem).symm.imp_left And.right

variable {hash : Hash} {now : Instant} {p : Option Bool} (wf : st.cache.WF)
  (hl : l.stamp = some now)
  (harena : ∀ s, st'.cache.arena s =
    if s = st.cache.fresh then ⟨hash, ⟨p, []⟩, now⟩ else st.cache.arena s)

include wf hl harena

/-- The new slot is the youngest of its key; a slot that the map loses to the
sweep is dead at the time of the step. -/
theorem inserted_tracked (hcreated : ∀ s, s < st.cache.fresh → (st.cache.arena s).created ≤ now)
    (hslots : st'.cache.slots = (st.cache.sweep now).slots.insert hash st.cache.fresh)
    {s : SlotId} (hlt : s < st.cache.fresh + 1) :
    (∃ e, st'.cache.entry (st'.cache.arena s).hash = some e ∧
      (st'.cache.arena s).created ≤ (st'.cache.arena e).created) ∨
    ∃ t ∈ stamps (ls ++ [l]), (st'.cache.arena s).created + negativeTtl ≤ t := by
  have hold : ∀ s, s < st.cache.fresh → st'.cache.arena s = st.cache.arena s :=
    fun _ => arena_old harena
  have hnew := arena_new harena
  have hentry := entry_of_slots hslots
  by_cases hsf : s = st.cache.fresh
  · rw [hsf, hentry, hnew, if_pos rfl]
    exact Or.inl ⟨st.cache.fresh, rfl, by rw [hnew]⟩
  · have hlt : s < st.cache.fresh := Nat.lt_of_le_of_ne (Nat.le_of_lt_succ hlt) hsf
    rw [hold s hlt, hentry]
    by_cases hk : (st.cache.arena s).hash = hash
    · rw [if_pos hk]
      refine Or.inl ⟨st.cache.fresh, rfl, ?_⟩
      rw [hnew]
      exact hcreated s hlt
    · rw [if_neg hk]
      -- another key: its slot stays in the map, or the sweep takes it out dead
      rcases hs.tracked hlt with ⟨e, he, hage⟩ | ⟨t, ht, hage⟩
      · rcases st.cache.entry_sweep now (st.cache.arena s).hash with
          hsame | ⟨-, e', he', hdead⟩
        · refine Or.inl ⟨e, hsame.trans he, ?_⟩
          rw [hold e (wf.entry_lt he)]
          exact hage
        · rw [he] at he'
          cases he'
          refine Or.inr ⟨now, mem_stamps_snoc hl, ?_⟩
          exact Nat.le_trans (Nat.add_le_add_right hage _) (Slot.age_of_dead hdead)
      · exact Or.inr ⟨t, mem_stamps_of_mem ht, hage⟩

omit wf hl in
include hstarted in
/-- A new slot that can start a probe is empty, so what it takes the place of was
dead. -/
theorem inserted_apart (hle : ∀ t ∈ stamps ls, t ≤ now)
    (hp : p = none ∧ (∀ s, st.cache.entry hash = some s → (st.cache.arena s).live now = false) ∨
      p = some true)
    (hused : ∀ s, s ∈ probes ls → s < st.cache.fresh) {s s' : SlotId} (hlt : s < s')
    (hlt' : s' < st.cache.fresh + 1)
    (hk : (st'.cache.arena s).hash = (st'.cache.arena s').hash)
    (hfrom : st'.cache.value s' = none ∨ s' ∈ probes (ls ++ [l])) :
    (st'.cache.arena s).created + negativeTtl ≤ (st'.cache.arena s').created := by
  have hold : ∀ s, s < st.cache.fresh → st'.cache.arena s = st.cache.arena s :=
    fun _ => arena_old harena
  have hnew := arena_new harena
  by_cases hsf : s' = st.cache.fresh
  · rw [hsf] at hlt hk hfrom ⊢
    rw [hold s hlt, hnew] at hk
    rw [hold s hlt, hnew]
    have hdead : ∀ e, st.cache.entry hash = some e → (st.cache.arena e).live now = false := by
      rcases hp with ⟨-, hdead⟩ | hseed
      · exact hdead
      · rcases hfrom with hnone | hmem
        · rw [ProbeCache.value, hnew, hseed] at hnone
          cases hnone
        · rcases hstarted _ hmem with hmem | ⟨hlt, -⟩
          · exact absurd (hused _ hmem) (Nat.lt_irrefl _)
          · exact absurd hlt (Nat.lt_irrefl _)
    -- an older slot of the key was in the map, and dead, or long dead
    rcases hs.tracked hlt with ⟨e, he, hage⟩ | ⟨t, ht, hage⟩
    · rw [show (st.cache.arena s).hash = hash from hk] at he
      exact Nat.le_trans (Nat.add_le_add_right hage _) (Slot.age_of_dead (hdead e he))
    · exact Nat.le_trans hage (hle t ht)
  · have hlt' : s' < st.cache.fresh := Nat.lt_of_le_of_ne (Nat.le_of_lt_succ hlt') hsf
    rw [hold s (Nat.lt_trans hlt hlt'), hold s' hlt'] at hk
    rw [hold s (Nat.lt_trans hlt hlt'), hold s' hlt']
    refine hs.apart hlt hlt' hk ?_
    rcases hfrom with hnone | hmem
    · rw [ProbeCache.value, hold s' hlt'] at hnone
      exact Or.inl hnone
    · exact (hstarted s' hmem).symm.imp_left And.right

omit wf hl harena

/-- The spacing through one step: a probe that starts is on a slot that is young
enough to be its window's first. -/
theorem step (hrun : Run step ok init ls st) (horder : LockOrder (ls ++ [l]))
    (h : st.step l = some st') (hused : ∀ s, s ∈ probes ls → s < st.cache.fresh)
    (hempty : ∀ s, (output st l).bind Output.probe = some s →
      s < st.cache.fresh ∧ st.cache.value s = none) :
    Spaced (ls ++ [l]) st'.cache := by
  have wf := run_wf hrun
  have hstarted : ∀ s, s ∈ probes (ls ++ [l]) →
      s ∈ probes ls ∨ s < st.cache.fresh ∧ st.cache.value s = none := by
    intro s hmem
    rw [probes_snoc hrun h] at hmem
    rcases List.mem_append.mp hmem with hold | hnew
    · exact Or.inl hold
    · exact Or.inr (hempty s (Option.mem_toList.mp hnew))
  cases touches_of_step wf h with
  | kept hfresh hslots hhash hcreated hvalue =>
    exact hs.kept hstarted hfresh hslots hhash hcreated hvalue
  | @inserted hash now p hl hp hfresh hslots harena =>
    have hle := horder.le hl
    refine ⟨?_, ?_⟩
    · intro s hlt
      rw [hfresh] at hlt
      exact hs.inserted_tracked wf hl harena
        (fun s hlt => hle _ (created_mem_stamps hrun s hlt)) hslots hlt
    · intro s s' hlt hlt' hk hfrom
      rw [hfresh] at hlt'
      exact hs.inserted_apart hstarted harena hle hp hused hlt hlt' hk hfrom

end Spaced

/-- Both invariants, along a run without trouble. -/
theorem paced (hrun : Run step Untroubled init ls st) (horder : LockOrder ls) :
    Single (probes ls) st.cache ∧ Spaced ls st.cache := by
  induction hrun with
  | nil =>
    refine ⟨⟨?_, ?_, List.nodup_nil⟩, ⟨?_, ?_⟩⟩
    · intro s c q _ hqueue
      cases hqueue
    · intro s hmem
      cases hmem
    · intro s hlt
      exact absurd hlt (Nat.not_lt_zero s)
    · intro s s' _ hlt'
      exact absurd hlt' (Nat.not_lt_zero s')
  | snoc hrun hok hst ih =>
    obtain ⟨hsingle, hspaced⟩ := ih horder.init
    obtain ⟨hsingle', hempty⟩ := hsingle.step (run_wf hrun) hok hst
    rw [← probes_snoc hrun hst] at hsingle'
    exact ⟨hsingle', hspaced.step hrun horder hst (fun s hmem => (hsingle.used hmem).1) hempty⟩

/-- **Probe rate.** As long as no probe fails and nobody goes away, a slot
starts at most one probe, the slots of a key that start one were made
`NEGATIVE_TTL` apart, and those of them made in a window of length `w` start at
most `⌈w / NEGATIVE_TTL⌉` probes, however many callers there are. -/
theorem probe_rate (hrun : Run step Untroubled init ls st) (horder : LockOrder ls) :
    (probes ls).Nodup ∧
    (∀ s ∈ probes ls, ∀ s' ∈ probes ls, s ≠ s' →
      (st.cache.arena s).hash = (st.cache.arena s').hash →
      (st.cache.arena s).created + negativeTtl ≤ (st.cache.arena s').created ∨
        (st.cache.arena s').created + negativeTtl ≤ (st.cache.arena s).created) ∧
    ∀ (key : Hash) (t : Instant) (w : Duration),
      ((probes ls).filter fun s => (st.cache.arena s).hash = key ∧
        t ≤ (st.cache.arena s).created ∧ (st.cache.arena s).created < t + w).length ≤
      (w + negativeTtl - 1) / negativeTtl := by
  obtain ⟨hsingle, hspaced⟩ := paced hrun horder
  have hapart : ∀ s ∈ probes ls, ∀ s' ∈ probes ls, s ≠ s' →
      (st.cache.arena s).hash = (st.cache.arena s').hash →
      (st.cache.arena s).created + negativeTtl ≤ (st.cache.arena s').created ∨
        (st.cache.arena s').created + negativeTtl ≤ (st.cache.arena s).created := by
    intro s hs s' hs' hne hk
    rcases Nat.lt_or_gt_of_ne hne with hlt | hlt
    · exact Or.inl (hspaced.apart hlt (hsingle.used hs').1 hk (Or.inr hs'))
    · exact Or.inr (hspaced.apart hlt (hsingle.used hs).1 hk.symm (Or.inr hs))
  refine ⟨hsingle.nodup, hapart, ?_⟩
  intro key t w
  rw [← List.length_map fun s => (st.cache.arena s).created]
  refine length_le_of_spaced (t := t) (by decide) (List.pairwise_map.mpr ?_) ?_
  · refine (hsingle.nodup.filter _).imp_of_mem ?_
    intro s s' hs hs' hne
    simp only [List.mem_filter, decide_eq_true_eq] at hs hs'
    exact hapart s hs.1 s' hs'.1 hne (hs.2.1.trans hs'.2.1.symm)
  · intro x hx
    obtain ⟨s, hs, rfl⟩ := List.mem_map.mp hx
    simp only [List.mem_filter, decide_eq_true_eq] at hs
    exact hs.2.2

/-- Two callers share a probe that takes a second, and one comes when its
result has expired. -/
def secondWindow : List CacheLabel :=
  [.call 0 "abc" 0, .poll 0, .call 1 "abc" 0, .poll 1, .tick (fromSecs 1), .finish 0 (some false),
    .poll 1, .tick (fromSecs 4), .call 2 "abc" (fromSecs 5), .poll 2]

theorem secondWindow_rate :
    probes secondWindow = [0, 1] ∧ ∃ st, Run step Untroubled init secondWindow st ∧
      (st.cache.arena 1).created = fromSecs 5 ∧
      ∀ (t : Instant), ((probes secondWindow).filter fun s => (st.cache.arena s).hash = "abc" ∧
        t ≤ (st.cache.arena s).created ∧
          (st.cache.arena s).created < t + fromSecs 6).length ≤ 2 := by
  refine ⟨by decide, ?_⟩
  obtain ⟨st, hrun, hcreated⟩ : ∃ st, Run step Untroubled init secondWindow st ∧
      (st.cache.arena 1).created = fromSecs 5 :=
    exists_run_of_exec (fun _ _ h => of_decide_eq_true h)
      (show (exec _ (fun st l => decide (Untroubled st l)) _ _).any _ = true by decide)
  exact ⟨st, hrun, hcreated, fun t => (probe_rate hrun (by decide)).2.2 "abc" t (fromSecs 6)⟩

end CacheState

end NxCacheServer.Server
