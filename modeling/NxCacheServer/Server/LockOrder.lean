import NxCacheServer.Server.CacheRun

/-!
# Timestamps in lock order

A caller reads the clock before it takes the mutex, so a timestamp may be older
than one the map has already been used with. The statements about expiry are
about runs without that race (`LockOrder`): then no slot is younger than what
the next operation takes for now, and a slot that is dead stays dead, whatever
its probe still comes to. `output` is what a run shows to its callers.

The race is real: between reading the clock and taking the mutex a task may be
preempted for as long as one likes, and another one with a later timestamp comes
first. A slot may then be dead for one caller and live for the next one. What is said
of artifacts and of their readers does not depend on it, so `LockOrder` is not
assumed there.
-/

namespace NxCacheServer.Server

open NxCacheServer.Domain NxCacheServer.Lib

/-! ## Liveness and age -/

/-- The largest TTL. -/
def largestTtl : Duration := max negativeTtl (max positiveTtl unresolvedTtl)

namespace Slot

variable {slot slot' : Slot} {now now' : Instant}

/-- When a slot is live, by what its cell holds. -/
theorem live_eq : slot.live now = true ↔
    (slot.present.value = none ∧ now < slot.created + unresolvedTtl) ∨
    (slot.present.value = some true ∧ now < slot.created + positiveTtl) ∨
    (slot.present.value = some false ∧ now < slot.created + negativeTtl) := by
  unfold live negativeTtl positiveTtl unresolvedTtl fromSecs
  cases slot.present.value with
  | none =>
    simp
    lia
  | some v =>
    cases v <;> simp <;> lia

/-- Whatever is dead has reached the smallest TTL. -/
theorem age_of_dead (h : slot.live now = false) : slot.created + negativeTtl ≤ now := by
  by_contra hage
  have hlive : slot.live now = true := by
    rw [live_eq]
    unfold negativeTtl positiveTtl unresolvedTtl fromSecs at *
    cases hv : slot.present.value with
    | none => exact Or.inl ⟨rfl, by lia⟩
    | some v =>
      cases v with
      | true => exact Or.inr (Or.inl ⟨rfl, by lia⟩)
      | false => exact Or.inr (Or.inr ⟨rfl, by lia⟩)
  rw [h] at hlive
  cases hlive

/-- Nothing is live for longer than the largest TTL. -/
theorem age_of_live (h : slot.live now = true) : now < slot.created + largestTtl := by
  have hmax : negativeTtl ≤ largestTtl ∧ positiveTtl ≤ largestTtl ∧ unresolvedTtl ≤ largestTtl := by
    decide
  rcases live_eq.mp h with ⟨-, hage⟩ | ⟨-, hage⟩ | ⟨-, hage⟩ <;> lia

/-- A dead slot stays dead, also if its cell is set in the meantime: no result
is trusted for longer than an unresolved slot is kept. -/
theorem dead_of_dead (hcreated : slot'.created = slot.created)
    (hvalue : ∀ v, slot.present.value = some v → slot'.present.value = some v)
    (hle : now ≤ now') (h : slot.live now = false) : slot'.live now' = false := by
  by_contra hlive
  rw [Bool.not_eq_false, live_eq, hcreated] at hlive
  have hage := age_of_dead h
  refine absurd h (Bool.not_eq_false _ ▸ live_eq.mpr ?_)
  -- an empty slot has the longest time, so a value makes it no younger
  unfold negativeTtl positiveTtl unresolvedTtl fromSecs at *
  cases hv : slot.present.value with
  | none => exact Or.inl ⟨rfl, by lia⟩
  | some v =>
    rw [hvalue v hv] at hlive
    cases v with
    | true => exact Or.inr (Or.inl ⟨rfl, by simp at hlive; lia⟩)
    | false => exact Or.inr (Or.inr ⟨rfl, by simp at hlive; lia⟩)

end Slot

/-! ## Timestamps -/

/-- The timestamp an operation takes the lock with. -/
def CacheLabel.stamp : CacheLabel → Option Instant
  | .call _ _ now => some now
  | .mark _ now => some now
  | _ => none

/-- The timestamps of a run, in the order of the lock. -/
def stamps (ls : List CacheLabel) : List Instant := ls.filterMap CacheLabel.stamp

/-- The operations take the lock in the order of their timestamps. -/
def LockOrder (ls : List CacheLabel) : Prop := (stamps ls).Pairwise (· ≤ ·)

instance (ls : List CacheLabel) : Decidable (LockOrder ls) :=
  inferInstanceAs (Decidable ((stamps ls).Pairwise (· ≤ ·)))

section

variable {ls ls' : List CacheLabel} {l : CacheLabel} {now : Instant}

/-- The stamps of a run are those of its parts. -/
theorem stamps_append : stamps (ls ++ ls') = stamps ls ++ stamps ls' := List.filterMap_append

theorem mem_stamps_snoc (hl : l.stamp = some now) : now ∈ stamps (ls ++ [l]) := by
  rw [stamps_append]
  exact List.mem_append_right _ (List.mem_filterMap.mpr ⟨l, List.mem_singleton_self l, hl⟩)

theorem mem_stamps_of_mem {t : Instant} (h : t ∈ stamps ls) : t ∈ stamps (ls ++ [l]) := by
  rw [stamps_append]
  exact List.mem_append_left _ h

/-- The first part of a run in lock order is in lock order. -/
theorem LockOrder.init (h : LockOrder (ls ++ ls')) : LockOrder ls := by
  unfold LockOrder at h
  rw [stamps_append] at h
  exact (List.pairwise_append.mp h).1

/-- Nothing has been stamped later than the operation at hand. -/
theorem LockOrder.le (h : LockOrder (ls ++ [l])) (hl : l.stamp = some now) :
    ∀ t ∈ stamps ls, t ≤ now := by
  intro t ht
  unfold LockOrder at h
  rw [stamps_append] at h
  refine (List.pairwise_append.mp h).2.2 t ht now ?_
  exact List.mem_filterMap.mpr ⟨l, List.mem_singleton_self l, hl⟩

end

namespace CacheState

variable {st st' : CacheState} {l : CacheLabel} {ls : List CacheLabel}
  {ok : CacheState → CacheLabel → Prop}

/-- What a step does to the map and the slots: it sweeps the map and puts a new
slot in, a seed or one where nothing live was, or it leaves the map alone and
at most sets cells. -/
inductive Touches (st : CacheState) (l : CacheLabel) (st' : CacheState) : Prop
  | kept (hfresh : st'.cache.fresh = st.cache.fresh) (hslots : st'.cache.slots = st.cache.slots)
      (hhash : ∀ s, (st'.cache.arena s).hash = (st.cache.arena s).hash)
      (hcreated : ∀ s, (st'.cache.arena s).created = (st.cache.arena s).created)
      (hvalue : ∀ s v, st.cache.value s = some v → st'.cache.value s = some v)
  | inserted {hash : Hash} {now : Instant} {p : Option Bool} (hl : l.stamp = some now)
      (hp : p = none ∧ (∀ s, st.cache.entry hash = some s → (st.cache.arena s).live now = false) ∨
        p = some true)
      (hfresh : st'.cache.fresh = st.cache.fresh + 1)
      (hslots : st'.cache.slots = (st.cache.sweep now).slots.insert hash st.cache.fresh)
      (harena : ∀ s, st'.cache.arena s =
        if s = st.cache.fresh then ⟨hash, ⟨p, []⟩, now⟩ else st.cache.arena s)

/-- The map after an insertion. -/
theorem entry_of_slots {cache cache' : ProbeCache} {hash : Hash} {now : Instant}
    (hslots : cache'.slots = (cache.sweep now).slots.insert hash cache.fresh) (k : Hash) :
    cache'.entry k = if k = hash then some cache.fresh else (cache.sweep now).entry k := by
  unfold ProbeCache.entry
  rw [hslots]
  by_cases hk : k = hash
  · rw [if_pos hk, hk, AList.lookup_insert]
  · rw [if_neg hk, AList.lookup_insert_ne hk]

/-- A cell is replaced and a caller moves on. -/
theorem Touches.setCell {c : CallerId} {p : Option Phase} {s : SlotId} {cell : OnceCell}
    {completed : List Completion} (hcell : ∀ v, st.cache.value s = some v → cell.value = some v) :
    Touches st l ⟨st.clock, (st.cache.setCell s cell).setCaller c p, completed⟩ := by
  refine .kept rfl rfl ?_ ?_ ?_
  · intro s'
    exact ProbeCache.hash_setCell
  · intro s'
    exact ProbeCache.created_setCell
  · intro s' v hv
    exact ProbeCache.value_of_setCell hcell hv

/-- By cases of the label: only `call` on a dead slot and `mark` put something into
the map. -/
theorem touches_of_step (wf : st.cache.WF) (h : st.step l = some st') : Touches st l st' := by
  cases step_cases h with
  | tick => exact .kept rfl rfl (fun _ => rfl) (fun _ => rfl) fun _ _ h => h
  | @call c hash now hc hnow =>
    unfold ProbeCache.call
    rcases ProbeCache.slot_cases st.cache hash now with ⟨s, -, -, heq⟩ | ⟨hdead, heq⟩
    · rw [heq]
      exact .kept rfl rfl (fun _ => rfl) (fun _ => rfl) fun _ _ h => h
    · rw [heq]
      refine .inserted rfl (Or.inl ⟨rfl, hdead⟩) (by simp) ?_ (by simp)
      dsimp only [ProbeCache.setCaller, ProbeCache.insert]
      rw [ProbeCache.fresh_sweep]
  | @poll c cache r hpoll =>
    cases ProbeCache.poll_cases hpoll with
    | initialized => exact .kept rfl rfl (fun _ => rfl) (fun _ => rfl) fun _ _ h => h
    | first hc hcell => exact .setCell (by simp [ProbeCache.value, hcell])
    | join hc hcell => exact .setCell (by simp [ProbeCache.value, hcell])
    | turn => exact .kept rfl rfl (fun _ => rfl) (fun _ => rfl) fun _ _ h => h
  -- the cell of a probe is empty, so no value is lost
  | @finish c s since value cache hc hfin =>
    obtain ⟨s', since', hc', rfl⟩ := ProbeCache.finish_cases hfin
    refine .setCell ?_
    rw [(wf.probing_head hc').1]
    simp
  | @cancel c =>
    rcases ProbeCache.cancel_cases st.cache c with ⟨-, heq⟩ | ⟨phase, -, heq⟩
    · rw [heq]
      exact .kept rfl rfl (fun _ => rfl) (fun _ => rfl) fun _ _ h => h
    · rw [heq]
      exact .setCell fun _ hv => hv
  | @mark hash now hnow =>
    refine @Touches.inserted _ _ _ hash now (some true) rfl (Or.inr rfl) ?_ ?_ ?_
    · dsimp only [ProbeCache.markPresent]
      simp
    · dsimp only [ProbeCache.markPresent, ProbeCache.insert]
      rw [ProbeCache.fresh_sweep]
    · dsimp only [ProbeCache.markPresent]
      simp

/-- A timestamp is read before the lock is taken. -/
theorem stamp_le_of_step (h : st.step l = some st') {now : Instant} (hl : l.stamp = some now) :
    now ≤ st.clock := by
  cases step_cases h with
  | call hc hnow =>
    cases hl
    exact hnow
  | mark hnow =>
    cases hl
    exact hnow
  | _ => cases hl

/-- Every slot was made with the timestamp of an operation before. -/
theorem created_mem_stamps (h : Run step ok init ls st) :
    ∀ s, s < st.cache.fresh → (st.cache.arena s).created ∈ stamps ls := by
  have hinv : st.cache.WF ∧
      ∀ s, s < st.cache.fresh → (st.cache.arena s).created ∈ stamps ls := by
    -- the induction is on the run, with `WF` for what a step touches
    refine h.invariant_labels (I := fun ls st => st.cache.WF ∧
      ∀ s, s < st.cache.fresh → (st.cache.arena s).created ∈ stamps ls) ?_
      ⟨ProbeCache.wf_empty, fun s hs => absurd hs (Nat.not_lt_zero s)⟩
    intro ls st l st' hI _ hst
    refine ⟨step_wf hI.1 hst, ?_⟩
    intro s hs
    cases touches_of_step hI.1 hst with
    | kept hfresh _ _ hcreated _ =>
      rw [hfresh] at hs
      rw [hcreated]
      exact mem_stamps_of_mem (hI.2 s hs)
    | inserted hl _ hfresh _ harena =>
      rw [harena]
      split
      next => exact mem_stamps_snoc hl
      next hne =>
        rw [hfresh] at hs
        exact mem_stamps_of_mem (hI.2 s (Nat.lt_of_le_of_ne (Nat.le_of_lt_succ hs) hne))
  exact hinv.2

theorem clock_le_of_step (h : st.step l = some st') : st.clock ≤ st'.clock := by
  cases step_cases h with
  | tick => exact Nat.le_add_right _ _
  | _ => exact Nat.le_refl _

theorem stamps_le_clock (h : Run step ok init ls st) : ∀ t ∈ stamps ls, t ≤ st.clock := by
  refine h.invariant_labels (I := fun ls st => ∀ t ∈ stamps ls, t ≤ st.clock) ?_ ?_
  · intro ls st l st' hle _ hst t ht
    have hclock := clock_le_of_step hst
    rw [stamps_append] at ht
    rcases List.mem_append.mp ht with hbefore | hnow
    · exact Nat.le_trans (hle t hbefore) hclock
    · obtain ⟨l', hmem, hstamp⟩ := List.mem_filterMap.mp hnow
      rw [List.mem_singleton.mp hmem] at hstamp
      exact Nat.le_trans (stamp_le_of_step hst hstamp) hclock
  · intro t ht
    cases ht

theorem created_le_clock (h : Run step ok init ls st) {s : SlotId} (hs : s < st.cache.fresh) :
    (st.cache.arena s).created ≤ st.clock :=
  stamps_le_clock h _ (created_mem_stamps h s hs)

/-! ## What a run shows -/

/-- What the callers of `present` see of a step. -/
inductive Output
  /-- The caller starts its probe on a slot. -/
  | started (c : CallerId) (s : SlotId)
  /-- `present` returns; `none` is an `Err`. -/
  | returned (c : CallerId) (result : Option Bool)
  deriving DecidableEq, Repr

/-- The slot a probe starts on. -/
def Output.probe : Output → Option SlotId
  | .started _ s => some s
  | .returned _ _ => none

/-- What a step shows. -/
def output (st : CacheState) : CacheLabel → Option Output
  | .poll c =>
    match st.cache.poll c st.clock with
    | some (_, .acquired (.initialized v)) => some (.returned c (some v))
    | some (cache, .acquired .permit) => (cache.caller c).map fun phase => .started c phase.slot
    | _ => none
  | .finish c value => (st.cache.finish c value).map fun _ => .returned c value
  | _ => none

/-- The slots of the probes started along `ls`, in order. -/
def probes (ls : List CacheLabel) : List SlotId :=
  (outputs step output init ls).filterMap fun out => out.bind Output.probe

end CacheState

end NxCacheServer.Server
