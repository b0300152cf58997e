import NxCacheServer.Server.Bounded

/-!
# Sweeping is unobservable

The cache beside one that never sweeps. They differ in the map alone, and there
in slots that have been dead for some operation (`Hides`); a dead slot stays
dead, so a caller that finds one gets a new slot as if there had been none.

Every operation is written a second time with `sweep` as an argument (`stepWith`);
with the cache's own it is the operation itself (`stepWith_sweep`). The two caches
have the same arena, the same callers and the same next identity, since a sweep
forgets entries and never unmakes a slot. So beside a run of the one there is a run
of the other with the same labels, and it shows the same.

`Hides` relates the two maps: what the swept one is missing has been dead for some
operation of the run already, and so it is for all that come, as the timestamps are in
the order of the lock. A run in which that happens has to be a long one: `sweptKeys`
writes 10,001 keys, waits until they are dead, writes one more, which empties the map,
and then asks for an old one.
-/

namespace NxCacheServer.Server

open NxCacheServer.Domain NxCacheServer.Lib

/-! ## The cache with another `sweep` -/

namespace ProbeCache

/-- A sweep that keeps everything. -/
def keepAll (cache : ProbeCache) (_ : Instant) : ProbeCache := cache

section

variable (sweep : ProbeCache → Instant → ProbeCache) (cache : ProbeCache)

/-- `mark_present` with another `sweep`. -/
def markPresentWith (hash : Hash) (now : Instant) : ProbeCache :=
  (sweep cache now).insert hash ⟨some true, []⟩ now

/-- `slot` with another `sweep`. -/
def slotWith (hash : Hash) (now : Instant) : ProbeCache × SlotId :=
  match cache.entry hash with
  | some existing =>
    if (cache.arena existing).live now then (cache, existing)
    else ((sweep cache now).insert hash ⟨none, []⟩ now, (sweep cache now).fresh)
  | none => ((sweep cache now).insert hash ⟨none, []⟩ now, (sweep cache now).fresh)

/-- A call with another `sweep`. -/
def callWith (c : CallerId) (hash : Hash) (now : Instant) : ProbeCache × SlotId :=
  let (cache', s) := slotWith sweep cache hash now
  (cache'.setCaller c (some (.holding s)), s)

end

end ProbeCache

namespace CacheState

/-- `step` with another function in the place of `sweep`. -/
def stepWith (sweep : ProbeCache → Instant → ProbeCache) (st : CacheState) :
    CacheLabel → Option CacheState
  | .call c hash now =>
    if st.cache.caller c = none ∧ now ≤ st.clock then
      some { st with cache := (st.cache.callWith sweep c hash now).1 }
    else none
  | .mark hash now =>
    if now ≤ st.clock then some { st with cache := st.cache.markPresentWith sweep hash now }
    else none
  | l => st.step l

/-- With its own `sweep` the cache is what it is. -/
theorem stepWith_sweep : stepWith ProbeCache.sweep = step := by
  funext st l
  cases l <;> rfl

end CacheState

/-! ## Caches that differ in the map -/

namespace ProbeCache

/-- The same cache with another map. -/
def withSlots (cache : ProbeCache) (slots : AList (fun _ : Hash => SlotId)) : ProbeCache :=
  { cache with slots := slots }

variable {cache : ProbeCache} {slots : AList (fun _ : Hash => SlotId)} {c : CallerId}

@[simp] theorem caller_withSlots : (cache.withSlots slots).caller c = cache.caller c := rfl

@[simp] theorem arena_withSlots : (cache.withSlots slots).arena = cache.arena := rfl

/-- What a sweep does to the map is gone with the map. -/
theorem insert_withSlots {hash : Hash} {p : OnceCell} {now : Instant} :
    (cache.withSlots slots).insert hash p now =
      ((cache.sweep now).insert hash p now).withSlots (slots.insert hash cache.fresh) := by
  unfold sweep
  split <;> rfl

theorem poll_withSlots {clock : Instant} : (cache.withSlots slots).poll c clock =
    (cache.poll c clock).map fun r => (r.1.withSlots slots, r.2) := by
  unfold poll
  rw [caller_withSlots, arena_withSlots]
  cases cache.caller c with
  | none => rfl
  | some phase =>
    cases phase with
    | holding s =>
      dsimp only
      rcases (cache.arena s).present with ⟨_ | v, _ | ⟨b, q⟩⟩ <;> rfl
    | queued s =>
      dsimp only
      rcases (cache.arena s).present with ⟨_ | v, q⟩
      · dsimp only
        split <;> rfl
      · rfl
    | probing s since => rfl

theorem finish_withSlots {value : Option Bool} : (cache.withSlots slots).finish c value =
    (cache.finish c value).map fun cache' => cache'.withSlots slots := by
  unfold finish
  rw [caller_withSlots]
  cases cache.caller c with
  | none => rfl
  | some phase => cases phase <;> rfl

theorem cancel_withSlots : (cache.withSlots slots).cancel c = (cache.cancel c).withSlots slots := by
  unfold cancel
  rw [caller_withSlots]
  cases cache.caller c <;> rfl

end ProbeCache

namespace CacheState

variable {st st' : CacheState} {l : CacheLabel} {ls ls' : List CacheLabel}
  {slots : AList (fun _ : Hash => SlotId)}

/-- Every label is allowed. -/
def Any (_ : CacheState) (_ : CacheLabel) : Prop := True

/-- The same state with another map. -/
def withSlots (st : CacheState) (slots : AList (fun _ : Hash => SlotId)) : CacheState :=
  { st with cache := st.cache.withSlots slots }

/-- What `slots` holds beyond the map of the cache has been dead for some
operation so far. -/
def Hides (ls : List CacheLabel) (cache : ProbeCache) (slots : AList (fun _ : Hash => SlotId)) :
    Prop :=
  ∀ k, slots.lookup k = cache.entry k ∨ cache.entry k = none ∧ ∃ s, s < cache.fresh ∧
    slots.lookup k = some s ∧ ∃ t ∈ stamps ls, (cache.arena s).live t = false

/-- A step that leaves the map and the slots alone leaves what is hidden hidden:
cells are only ever set. -/
theorem Hides.kept {cache cache' : ProbeCache} (h : Hides ls cache slots)
    (hfresh : cache'.fresh = cache.fresh) (hslots : cache'.slots = cache.slots)
    (hcreated : ∀ s, (cache'.arena s).created = (cache.arena s).created)
    (hvalue : ∀ s v, cache.value s = some v → cache'.value s = some v) :
    Hides (ls ++ [l]) cache' slots := by
  intro k
  rw [show cache'.entry k = cache.entry k by unfold ProbeCache.entry; rw [hslots], hfresh]
  refine (h k).imp_right ?_
  intro hk
  obtain ⟨hnone, s, hlt, hs, t, ht, hdead⟩ := hk
  exact ⟨hnone, s, hlt, hs, t, mem_stamps_of_mem ht,
    Slot.dead_of_dead (hcreated s) (hvalue s) (Nat.le_refl t) hdead⟩

/-- A new slot goes into both maps, and a sweep takes dead ones out of the one. -/
theorem Hides.insert {cache cache' : ProbeCache} {hash : Hash} {now : Instant} (slot : Slot)
    (wf : cache.WF) (h : Hides ls cache slots) (hl : l.stamp = some now)
    (hfresh : cache'.fresh = cache.fresh + 1)
    (hslots : cache'.slots = (cache.sweep now).slots.insert hash cache.fresh)
    (harena : ∀ s, cache'.arena s = if s = cache.fresh then slot else cache.arena s) :
    Hides (ls ++ [l]) cache' (slots.insert hash cache.fresh) := by
  intro k
  rw [entry_of_slots hslots]
  by_cases hk : k = hash
  · rw [if_pos hk, hk, AList.lookup_insert]
    exact Or.inl rfl
  · rw [if_neg hk, AList.lookup_insert_ne hk]
    -- the slots from before stay what they were
    have hold : ∀ {s t}, s < cache.fresh → (cache.arena s).live t = false →
        s < cache'.fresh ∧ (cache'.arena s).live t = false := by
      intro s t hlt hdead
      rw [hfresh, harena, if_neg (Nat.ne_of_lt hlt)]
      exact ⟨Nat.lt_succ_of_lt hlt, hdead⟩
    rcases cache.entry_sweep now k with hsame | ⟨hnone, s, hs, hdead⟩
    · rw [hsame]
      refine (h k).imp_right ?_
      intro hhidden
      obtain ⟨hnone, s, hlt, hs, t, ht, hdead⟩ := hhidden
      obtain ⟨hlt', hdead'⟩ := hold hlt hdead
      exact ⟨hnone, s, hlt', hs, t, mem_stamps_of_mem ht, hdead'⟩
    -- swept from the one map at `now`, and so hidden from here on
    · have hlookup : slots.lookup k = some s := by
        rcases h k with heq | ⟨hnone', -⟩
        · rw [heq, hs]
        · rw [hs] at hnone'
          cases hnone'
      obtain ⟨hlt', hdead'⟩ := hold (wf.entry_lt hs) hdead
      exact Or.inr ⟨hnone, s, hlt', hlookup, now, mem_stamps_snoc hl, hdead'⟩

/-- A caller finds the same live slot in both maps, or none. -/
theorem Hides.slotWith {cache : ProbeCache} {hash : Hash} {now : Instant}
    (h : Hides ls cache slots) (hle : ∀ t ∈ stamps ls, t ≤ now) :
    (∃ s, cache.slot hash now = (cache, s) ∧
      (cache.withSlots slots).slotWith ProbeCache.keepAll hash now = (cache.withSlots slots, s)) ∨
    cache.slot hash now = ((cache.sweep now).insert hash ⟨none, []⟩ now, cache.fresh) ∧
      (cache.withSlots slots).slotWith ProbeCache.keepAll hash now =
        ((cache.withSlots slots).insert hash ⟨none, []⟩ now, cache.fresh) := by
  have hmiss : (∀ s, slots.lookup hash = some s → (cache.arena s).live now = false) →
      (cache.withSlots slots).slotWith ProbeCache.keepAll hash now =
        ((cache.withSlots slots).insert hash ⟨none, []⟩ now, cache.fresh) := by
    intro hdead
    unfold ProbeCache.slotWith
    rw [show (cache.withSlots slots).entry hash = slots.lookup hash from rfl]
    cases hs : slots.lookup hash with
    | none => rfl
    | some s =>
      dsimp only
      rw [ProbeCache.arena_withSlots, hdead s hs]
      rfl
  rcases ProbeCache.slot_cases cache hash now with ⟨s, hs, hlive, heq⟩ | ⟨hdead, heq⟩
  · refine Or.inl ⟨s, heq, ?_⟩
    have hlookup : slots.lookup hash = some s := by
      rcases h hash with hsame | ⟨hnone, -⟩
      · rw [hsame, hs]
      · rw [hs] at hnone
        cases hnone
    unfold ProbeCache.slotWith
    rw [show (cache.withSlots slots).entry hash = some s from hlookup]
    dsimp only
    rw [ProbeCache.arena_withSlots, hlive]
    rfl
  · refine Or.inr ⟨heq, hmiss ?_⟩
    intro s hs
    -- what the other map still has was dead before `now`, and is dead now
    rcases h hash with hsame | ⟨-, s', -, hs', t, ht, hdead'⟩
    · exact hdead s (hsame.symm.trans hs)
    · rw [hs'] at hs
      cases hs
      exact Slot.dead_of_dead rfl (fun _ h => h) (hle t ht) hdead'

/-- The two caches side by side. -/
def Beside (ls : List CacheLabel) (st st' : CacheState) : Prop :=
  ∃ slots, st' = st.withSlots slots ∧ Hides ls st.cache slots

/-- The steps that do not use the map. -/
theorem stepWith_withSlots (hl : l.stamp = none) :
    (st.withSlots slots).stepWith ProbeCache.keepAll l =
      (st.step l).map fun u => u.withSlots slots := by
  cases l with
  | tick d => rfl
  | poll c =>
    show ((st.cache.withSlots slots).poll c st.clock).map _ = ((st.cache.poll c st.clock).map _).map _
    rw [ProbeCache.poll_withSlots, Option.map_map, Option.map_map]
    rfl
  | finish c value =>
    show step (st.withSlots slots) (.finish c value) = _
    rw [step, step, show (st.withSlots slots).cache = st.cache.withSlots slots from rfl,
      ProbeCache.finish_withSlots, ProbeCache.caller_withSlots]
    cases st.cache.caller c with
    | none => rfl
    | some phase => cases st.cache.finish c value <;> rfl
  | cancel c =>
    show step (st.withSlots slots) (.cancel c) = _
    rw [step, step, show (st.withSlots slots).cache = st.cache.withSlots slots from rfl,
      ProbeCache.cancel_withSlots]
    rfl
  | call c hash now => cases hl
  | mark hash now => cases hl

/-- The steps without a timestamp do not use the map. -/
theorem Hides.quiet (wf : st.cache.WF) (h : Hides ls st.cache slots) (hl : l.stamp = none)
    (hst : st.step l = some st') : Beside (ls ++ [l]) st' (st'.withSlots slots) := by
  refine ⟨slots, rfl, ?_⟩
  cases touches_of_step wf hst with
  | kept hfresh hslots _ hcreated hvalue => exact h.kept hfresh hslots hcreated hvalue
  | inserted hl' =>
    rw [hl] at hl'
    cases hl'

/-- A caller is given the same slot by both: a hidden one is dead by now, so the
cache that keeps it makes a new one as well. -/
theorem Hides.call (wf : st.cache.WF) {c : CallerId} {hash : Hash} {now : Instant}
    (h : Hides ls st.cache slots) (horder : LockOrder (ls ++ [.call c hash now])) :
    Option.Rel (Beside (ls ++ [.call c hash now])) (st.step (.call c hash now))
      ((st.withSlots slots).stepWith ProbeCache.keepAll (.call c hash now)) := by
  rw [step]
  show Option.Rel _ _ (if st.cache.caller c = none ∧ now ≤ st.clock then _ else none)
  by_cases hok : st.cache.caller c = none ∧ now ≤ st.clock
  · rw [if_pos hok, if_pos hok]
    refine .some ?_
    rw [show (st.withSlots slots).cache = st.cache.withSlots slots from rfl]
    unfold ProbeCache.call ProbeCache.callWith
    rcases h.slotWith (horder.le rfl) with ⟨s, hslot, hslot'⟩ | ⟨hslot, hslot'⟩
    · rw [hslot, hslot']
      exact ⟨slots, rfl, h.kept rfl rfl (fun _ => rfl) fun _ _ h => h⟩
    · rw [hslot, hslot', ProbeCache.insert_withSlots]
      refine ⟨slots.insert hash st.cache.fresh, rfl, ?_⟩
      refine h.insert ⟨hash, ⟨none, []⟩, now⟩ wf rfl ?_ ?_ ?_
      · simp
      · dsimp only [ProbeCache.setCaller, ProbeCache.insert]
        rw [ProbeCache.fresh_sweep]
      · simp
  · rw [if_neg hok, if_neg hok]
    exact .none

theorem Hides.mark (wf : st.cache.WF) {hash : Hash} {now : Instant}
    (h : Hides ls st.cache slots) :
    Option.Rel (Beside (ls ++ [.mark hash now])) (st.step (.mark hash now))
      ((st.withSlots slots).stepWith ProbeCache.keepAll (.mark hash now)) := by
  rw [step]
  show Option.Rel _ _ (if now ≤ st.clock then _ else none)
  by_cases hnow : now ≤ st.clock
  · rw [if_pos hnow, if_pos hnow]
    refine .some ?_
    refine ⟨slots.insert hash st.cache.fresh, ?_, ?_⟩
    · show CacheState.mk _ ((st.cache.withSlots slots).insert hash ⟨some true, []⟩ now) _ = _
      rw [ProbeCache.insert_withSlots]
      rfl
    · refine h.insert ⟨hash, ⟨some true, []⟩, now⟩ wf rfl ?_ ?_ ?_
      · dsimp only [ProbeCache.markPresent]
        simp
      · dsimp only [ProbeCache.markPresent, ProbeCache.insert]
        rw [ProbeCache.fresh_sweep]
      · dsimp only [ProbeCache.markPresent]
        simp
  · rw [if_neg hnow, if_neg hnow]
    exact .none

/-- The two caches go on side by side. -/
theorem Hides.step (wf : st.cache.WF) (h : Hides ls st.cache slots)
    (horder : LockOrder (ls ++ [l])) :
    Option.Rel (Beside (ls ++ [l])) (st.step l)
      ((st.withSlots slots).stepWith ProbeCache.keepAll l) := by
  cases hl : l.stamp with
  | none =>
    rw [stepWith_withSlots hl]
    cases hst : st.step l with
    | none => exact .none
    | some u => exact .some (h.quiet wf hl hst)
  | some now =>
    cases l with
    | call c hash now => exact h.call wf horder
    | mark hash now => exact h.mark wf
    | _ => cases hl

/-- What a step shows does not depend on the map. -/
theorem output_withSlots : output (st.withSlots slots) l = output st l := by
  cases l with
  | poll c =>
    rw [output, output, show (st.withSlots slots).cache = st.cache.withSlots slots from rfl,
      show (st.withSlots slots).clock = st.clock from rfl, ProbeCache.poll_withSlots]
    rcases st.cache.poll c st.clock with _ | ⟨cache, (_ | _) | _⟩ <;> rfl
  | finish c value =>
    rw [output, output, show (st.withSlots slots).cache = st.cache.withSlots slots from rfl,
      ProbeCache.finish_withSlots, Option.map_map]
    rfl
  | _ => rfl

/-! ## Runs -/

/-- The outputs of the two caches from states side by side. -/
theorem outputs_beside : ∀ (ls' ls : List CacheLabel) (st st' : CacheState), st.cache.WF →
    Beside ls st st' → LockOrder (ls ++ ls') →
    outputs step output st ls' = outputs (stepWith ProbeCache.keepAll) output st' ls' := by
  intro ls'
  induction ls' with
  | nil =>
    intro ls st st' _ _ _
    rfl
  | cons l ls' ih =>
    intro ls st st' wf hbeside horder
    obtain ⟨slots, rfl, h⟩ := hbeside
    rw [show ls ++ l :: ls' = (ls ++ [l]) ++ ls' by simp] at horder
    have hrel := h.step wf horder.init
    -- both caches show the same, take the step or refuse it together, and go on
    rw [outputs, outputs, output_withSlots]
    cases hst : st.step l with
    | none =>
      rw [hst] at hrel
      cases hst' : (st.withSlots slots).stepWith ProbeCache.keepAll l with
      | none => rfl
      | some u' =>
        rw [hst'] at hrel
        cases hrel
    | some u =>
      rw [hst] at hrel
      cases hst' : (st.withSlots slots).stepWith ProbeCache.keepAll l with
      | none =>
        rw [hst'] at hrel
        cases hrel
      | some u' =>
        rw [hst'] at hrel
        cases hrel with
        | some hbeside' =>
          dsimp only
          rw [ih _ _ _ (step_wf wf hst) hbeside' horder]

/-- Beside every run of the cache there is one that never sweeps. -/
theorem run_keepAll {u : CacheState} (hrun : Run step Any st ls' st') (wf : st.cache.WF)
    (h : Beside ls st u) (horder : LockOrder (ls ++ ls')) :
    ∃ u', Run (stepWith ProbeCache.keepAll) Any u ls' u' ∧ Beside (ls ++ ls') st' u' := by
  induction hrun with
  | nil => exact ⟨u, .nil, by rwa [List.append_nil]⟩
  | snoc hrun _ hst ih =>
    rw [← List.append_assoc] at horder ⊢
    obtain ⟨_, hrun', slots, rfl, hhides⟩ := ih horder.init
    have hrel := hhides.step (wf_of_run hrun wf) horder
    rw [hst] at hrel
    -- the step is possible in the one, so it is in the other
    generalize hst' : stepWith ProbeCache.keepAll _ _ = y at hrel
    cases hrel with
    | some hbeside => exact ⟨_, .snoc hrun' trivial hst', hbeside⟩

/-- And beside every run that never sweeps there is one of the cache. -/
theorem run_sweep {u u' : CacheState} (hrun : Run (stepWith ProbeCache.keepAll) Any u ls' u')
    (wf : st.cache.WF) (h : Beside ls st u) (horder : LockOrder (ls ++ ls')) :
    ∃ st', Run step Any st ls' st' ∧ Beside (ls ++ ls') st' u' := by
  induction hrun with
  | nil => exact ⟨st, .nil, by rwa [List.append_nil]⟩
  | snoc hrun _ hst ih =>
    rw [← List.append_assoc] at horder ⊢
    obtain ⟨_, hrun', slots, rfl, hhides⟩ := ih horder.init
    have hrel := hhides.step (wf_of_run hrun' wf) horder
    rw [hst] at hrel
    generalize hst' : step _ _ = y at hrel
    cases hrel with
    | some hbeside => exact ⟨_, .snoc hrun' trivial hst', hbeside⟩

theorem beside_init : Beside [] init init := ⟨∅, rfl, fun _ => Or.inl rfl⟩

/-- A slot that is dead at some time is dead from then on. -/
theorem dead_of_run {s : SlotId} {now now' : Instant} (hrun : Run step Any st ls' st')
    (wf : st.cache.WF) (hs : s < st.cache.fresh) (hdead : (st.cache.arena s).live now = false)
    (hle : now ≤ now') : (st'.cache.arena s).live now' = false := by
  have hinv : st'.cache.WF ∧ s < st'.cache.fresh ∧ (st'.cache.arena s).live now' = false := by
    refine hrun.invariant (I := fun st => st.cache.WF ∧ s < st.cache.fresh ∧
      (st.cache.arena s).live now' = false) ?_
      ⟨wf, hs, Slot.dead_of_dead rfl (fun _ h => h) hle hdead⟩
    intro st l st' hI _ hst
    obtain ⟨wf, hs, hdead⟩ := hI
    refine ⟨step_wf wf hst, ?_⟩
    cases touches_of_step wf hst with
    | kept hfresh _ _ hcreated hvalue =>
      rw [hfresh]
      exact ⟨hs, Slot.dead_of_dead (hcreated s) (hvalue s) (Nat.le_refl _) hdead⟩
    | inserted _ _ hfresh _ harena =>
      rw [hfresh, harena, if_neg (Nat.ne_of_lt hs)]
      exact ⟨Nat.lt_succ_of_lt hs, hdead⟩
  exact hinv.2.2

/-- **Sweeping is unobservable.** With timestamps in lock order, a cache that
never sweeps goes through the same labels, starts the same probes at the same
points and answers every call alike; and in either of them a slot that is dead
at some time is never live again. -/
theorem sweep_unobservable (horder : LockOrder ls) :
    ((∃ st, Run step Any init ls st) ↔ ∃ st, Run (stepWith ProbeCache.keepAll) Any init ls st) ∧
    outputs step output init ls = outputs (stepWith ProbeCache.keepAll) output init ls ∧
    ∀ sweep, sweep = ProbeCache.sweep ∨ sweep = ProbeCache.keepAll →
      ∀ ls₁ ls₂ st₁ st₂, ls = ls₁ ++ ls₂ → Run (stepWith sweep) Any init ls₁ st₁ →
        Run (stepWith sweep) Any st₁ ls₂ st₂ →
        ∀ s now now', s < st₁.cache.fresh → (st₁.cache.arena s).live now = false → now ≤ now' →
          (st₂.cache.arena s).live now' = false := by
  refine ⟨⟨?_, ?_⟩, ?_, ?_⟩
  · intro h
    obtain ⟨st, hrun⟩ := h
    obtain ⟨st', hrun', -⟩ := run_keepAll hrun ProbeCache.wf_empty beside_init horder
    exact ⟨st', hrun'⟩
  · intro h
    obtain ⟨st, hrun⟩ := h
    obtain ⟨st', hrun', -⟩ := run_sweep hrun ProbeCache.wf_empty beside_init horder
    exact ⟨st', hrun'⟩
  · exact outputs_beside ls [] init init ProbeCache.wf_empty beside_init horder
  · intro sweep hsweep ls₁ ls₂ st₁ st₂ hls hrun₁ hrun₂ s now now' hs hdead hle
    rcases hsweep with rfl | rfl
    · rw [stepWith_sweep] at hrun₁ hrun₂
      exact dead_of_run hrun₂ (run_wf hrun₁) hs hdead hle
    · -- the slots are those of the cache that sweeps
      rw [hls] at horder
      obtain ⟨st, hrun, hbeside⟩ :=
        run_sweep hrun₁ ProbeCache.wf_empty beside_init horder.init
      obtain ⟨st', hrun', slots', rfl, -⟩ := run_sweep hrun₂ (run_wf hrun) hbeside horder
      obtain ⟨slots, rfl, -⟩ := hbeside
      have hdead' := dead_of_run hrun' (run_wf hrun) hs hdead hle
      exact hdead'

/-- A caller that asks for a key that is not there, in a map that is not swept,
adds one slot and probes on it. -/
theorem poll_absent {cache : ProbeCache} {hash : Hash} (c : CallerId) (now clock : Instant)
    (habsent : cache.entry hash = none) (hsmall : ¬ sweepThreshold < cache.size) :
    ∃ cache', (cache.call c hash now).1.poll c clock = some (cache', .acquired .permit) ∧
      cache'.size = cache.size + 1 := by
  have hslot : cache.slot hash now = (cache.insert hash ⟨none, []⟩ now, cache.fresh) := by
    rw [ProbeCache.slot, habsent, ProbeCache.sweep_of_small hsmall]
  have hcaller : (cache.call c hash now).1.caller c = some (.holding cache.fresh) := by
    simp [ProbeCache.call, hslot]
  have hcell : ((cache.call c hash now).1.arena cache.fresh).present = ⟨none, []⟩ := by
    simp [ProbeCache.call, hslot]
  refine ⟨?_, by rw [ProbeCache.poll, hcaller]; dsimp only; rw [hcell], ?_⟩
  show (cache.call c hash now).1.size = cache.size + 1
  rw [ProbeCache.call, hslot]
  exact (ProbeCache.size_insert habsent : (cache.insert hash ⟨none, []⟩ now).size = _)

/-- More keys than the map is meant to hold, all of them expired when a new one
comes. Then somebody asks for an old one. -/
def sweptKeys : List CacheLabel :=
  flood (sweepThreshold + 1) ++
    [.tick largestTtl, .mark (keyNo (sweepThreshold + 1)) largestTtl,
      .call 0 (keyNo 0) largestTtl, .poll 0]

/-- The sweep takes all of them out of the map. -/
theorem Flooded.sweep_entry {st : CacheState} (hst : Flooded (sweepThreshold + 1) st)
    (wf : st.cache.WF) (k : Hash) : (st.cache.sweep largestTtl).entry k = none := by
  cases hk : (st.cache.sweep largestTtl).entry k with
  | none => rfl
  | some s =>
    obtain ⟨hentry, hlive⟩ := ProbeCache.live_of_entry_sweep (by rw [hst.size]; omega) hk
    have hage := Slot.age_of_live hlive
    rw [hst.slots s (hst.fresh ▸ wf.entry_lt hentry)] at hage
    exact absurd hage (by simp)

/-- After the sweep the map has the new key and the one that was asked for. -/
theorem sweptKeys_run : ∃ st, Run step Any init sweptKeys st ∧ st.cache.size = 2 := by
  obtain ⟨st, hrun, hst⟩ := flood_run (Nat.le_refl (sweepThreshold + 1))
  have hswept := hst.sweep_entry (run_wf hrun)
  obtain ⟨seeded, hseeded⟩ : ∃ seeded, seeded =
      st.cache.markPresent (keyNo (sweepThreshold + 1)) largestTtl := ⟨_, rfl⟩
  have hsize : seeded.size = 1 := by
    rw [hseeded, ProbeCache.markPresent, ProbeCache.size_insert (hswept _),
      ProbeCache.size_eq_zero hswept]
  have habsent : seeded.entry (keyNo 0) = none := by
    rw [hseeded, ProbeCache.markPresent, ProbeCache.entry_insert,
      if_neg (mt keyNo_inj (by decide)), hswept]
  have hidle : seeded.caller 0 = none := by
    rw [hseeded, ProbeCache.markPresent, ProbeCache.caller_insert, ProbeCache.caller_sweep, hst.idle]
  obtain ⟨probed, hpoll, hprobed⟩ := poll_absent 0 largestTtl (st.clock + largestTtl) habsent
    (by rw [hsize]; decide)
  refine ⟨⟨st.clock + largestTtl, probed, st.completed⟩, ?_, by rw [hprobed, hsize]⟩
  have hflood : Run step Any init (flood (sweepThreshold + 1)) st := hrun.mono fun _ _ _ => trivial
  have htick := hflood.snoc trivial (show st.step (.tick largestTtl) = some _ from rfl)
  have hmark := htick.snoc trivial (show step _ (.mark (keyNo (sweepThreshold + 1)) largestTtl) =
    some ⟨st.clock + largestTtl, seeded, st.completed⟩ by simp [step, hseeded])
  have hcall := hmark.snoc trivial (show step _ (.call 0 (keyNo 0) largestTtl) =
    some ⟨st.clock + largestTtl, (seeded.call 0 (keyNo 0) largestTtl).1, st.completed⟩ by
      simp [step, hidle])
  have hlast := hcall.snoc trivial (show step _ (.poll 0) =
    some ⟨st.clock + largestTtl, probed, st.completed⟩ by simp [step, hpoll])
  simpa [sweptKeys] using hlast

/-- The old keys are gone, and the run shows what it shows without a sweep. -/
theorem sweptKeys_unobservable :
    (∃ st, Run step Any init sweptKeys st ∧ st.cache.size = 2) ∧
      (∃ st, Run (stepWith ProbeCache.keepAll) Any init sweptKeys st) ∧
      outputs step output init sweptKeys =
        outputs (stepWith ProbeCache.keepAll) output init sweptKeys := by
  obtain ⟨st, hrun, hsize⟩ := sweptKeys_run
  obtain ⟨hiff, hout, -⟩ := sweep_unobservable
    (show LockOrder sweptKeys from flood_then_lockOrder (by decide))
  exact ⟨⟨st, hrun, hsize⟩, hiff.mp ⟨st, hrun⟩, hout⟩

/-- A probe that ends when its slot has expired and been replaced. -/
example :
    let late : List CacheLabel := [.call 0 "abc" 0, .poll 0, .tick (fromSecs 60),
      .call 1 "abc" (fromSecs 60), .poll 1, .finish 0 (some true), .call 2 "abc" (fromSecs 60),
      .poll 2]
    outputs step output init late = outputs (stepWith ProbeCache.keepAll) output init late := by
  decide

end CacheState

end NxCacheServer.Server
