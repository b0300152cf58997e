import Mathlib.Data.Finset.Max
import Mathlib.Order.Bounds.Basic
import Mathlib.Order.Lattice.Nat
import NxCacheServer.Server.LockOrder

/-!
# The map is bounded

A sweep leaves nothing in the map that is older than the largest TTL, so the
keys left were all put in within a window of that length. `peak` is the largest
number of keys that ever were, and `bounded` says that the map is not larger
than that or the threshold, but for the slot that has just been put in. What
became of the probes does not matter.

Why the window is as long as the largest TTL: an entry that a sweep keeps is live, so
its slot was made less than that before the sweep. A slot that is put in without a
sweep finds a map of at most the threshold. `fullMap_bounded` is a run that goes past
the threshold and meets the bound.
-/

namespace NxCacheServer.Server

open NxCacheServer.Domain NxCacheServer.Lib

namespace ProbeCache

variable {cache cache' : ProbeCache} {t now : Instant} {k : Hash} {s : SlotId}

/-- The keys for which slots were made in the window of the largest TTL from
`t` on. -/
def keysMade (cache : ProbeCache) (t : Instant) : Finset Hash :=
  ((Finset.range cache.fresh).filter fun s =>
    t ≤ (cache.arena s).created ∧ (cache.arena s).created < t + largestTtl).image fun s =>
      (cache.arena s).hash

/-- The largest number of keys in any such window; it is enough to look at the
windows that start with a slot. -/
def peak (cache : ProbeCache) : Nat :=
  (Finset.range cache.fresh).sup fun s => (cache.keysMade (cache.arena s).created).card

/-- The keys of a window are those of the slots made in it. -/
theorem mem_keysMade : k ∈ cache.keysMade t ↔ ∃ s, s < cache.fresh ∧ (cache.arena s).hash = k ∧
    t ≤ (cache.arena s).created ∧ (cache.arena s).created < t + largestTtl := by
  unfold keysMade
  rw [Finset.mem_image]
  constructor
  · intro h
    obtain ⟨s, hs, hk⟩ := h
    obtain ⟨hlt, hin⟩ := Finset.mem_filter.mp hs
    exact ⟨s, Finset.mem_range.mp hlt, hk, hin⟩
  · intro h
    obtain ⟨s, hlt, hk, hin⟩ := h
    exact ⟨s, Finset.mem_filter.mpr ⟨Finset.mem_range.mpr hlt, hin⟩, hk⟩

/-- A window with a slot in it is no better than the one that starts with its
oldest slot. -/
theorem card_keysMade_le_peak (t : Instant) : (cache.keysMade t).card ≤ cache.peak := by
  rcases (cache.keysMade t).eq_empty_or_nonempty with hempty | ⟨k, hk⟩
  · rw [hempty]
    exact Nat.zero_le _
  · obtain ⟨s, hlt, -, hlow, -⟩ := mem_keysMade.mp hk
    -- the oldest slot of the window, from which `peak` counts too
    obtain ⟨s₀, hs₀, hmin⟩ := Finset.exists_min_image
      ((Finset.range cache.fresh).filter fun s => t ≤ (cache.arena s).created)
      (fun s => (cache.arena s).created)
      ⟨s, Finset.mem_filter.mpr ⟨Finset.mem_range.mpr hlt, hlow⟩⟩
    obtain ⟨hlt₀, hlow₀⟩ := Finset.mem_filter.mp hs₀
    have hsub : cache.keysMade t ⊆ cache.keysMade (cache.arena s₀).created := by
      intro k' hk'
      obtain ⟨s', hlt', hkey, hlow', hhigh'⟩ := mem_keysMade.mp hk'
      have hle := hmin s' (Finset.mem_filter.mpr ⟨Finset.mem_range.mpr hlt', hlow'⟩)
      exact mem_keysMade.mpr ⟨s', hlt', hkey, hle,
        Nat.lt_of_lt_of_le hhigh' (Nat.add_le_add_right hlow₀ _)⟩
    calc (cache.keysMade t).card
        ≤ (cache.keysMade (cache.arena s₀).created).card := Finset.card_le_card hsub
      _ ≤ cache.peak := Finset.le_sup (f := fun s => (cache.keysMade (cache.arena s).created).card)
          hlt₀

/-- `peak` is the largest number of keys in a window. -/
theorem isGreatest_peak : IsGreatest (Set.range fun t => (cache.keysMade t).card) cache.peak := by
  refine ⟨?_, ?_⟩
  · by_cases hfresh : cache.fresh = 0
    · refine ⟨0, ?_⟩
      simp [keysMade, peak, hfresh]
    · obtain ⟨s, -, hs⟩ := Finset.exists_mem_eq_sup (Finset.range cache.fresh)
        (Finset.nonempty_range_iff.mpr hfresh)
        fun s => (cache.keysMade (cache.arena s).created).card
      exact ⟨(cache.arena s).created, hs.symm⟩
  · intro n hn
    obtain ⟨t, rfl⟩ := hn
    exact card_keysMade_le_peak t

theorem Extends.peak_le (h : cache.Extends cache') : cache.peak ≤ cache'.peak := by
  refine Finset.sup_le ?_
  intro s _
  have hsub : cache.keysMade (cache.arena s).created ⊆
      cache'.keysMade (cache.arena s).created := by
    intro k hk
    obtain ⟨s', hlt, hkey, hin⟩ := mem_keysMade.mp hk
    refine mem_keysMade.mpr ⟨s', Nat.lt_of_lt_of_le hlt h.fresh, ?_⟩
    rw [h.hash hlt, h.created hlt]
    exact ⟨hkey, hin⟩
  exact Nat.le_trans (Finset.card_le_card hsub) (card_keysMade_le_peak _)

/-- The number of slots in the map. -/
def size (cache : ProbeCache) : Nat := cache.slots.entries.length

theorem size_insert_le {hash : Hash} {p : OnceCell} :
    (cache.insert hash p now).size ≤ cache.size + 1 := by
  unfold size insert
  rw [AList.entries_insert, List.length_cons]
  exact Nat.succ_le_succ (List.kerase_sublist hash _).length_le

/-- A new key takes a place of its own. -/
theorem size_insert {hash : Hash} {p : OnceCell} (h : cache.entry hash = none) :
    (cache.insert hash p now).size = cache.size + 1 := by
  unfold size insert
  rw [AList.entries_insert, List.length_cons, List.kerase_of_notMem_keys]
  exact AList.lookup_eq_none.mp h

/-- A sweep of a map past the threshold leaves only what is live. -/
theorem live_of_entry_sweep (hsize : sweepThreshold < cache.size)
    (h : (cache.sweep now).entry k = some s) :
    cache.entry k = some s ∧ (cache.arena s).live now = true := by
  unfold sweep at h
  rw [if_pos (show sweepThreshold < cache.slots.entries.length from hsize)] at h
  have hret : (retain cache.slots fun s => (cache.arena s).live now).lookup k =
      (cache.entry k).filter fun s => (cache.arena s).live now := lookup_retain ..
  unfold entry at h hret ⊢
  rw [hret, Option.filter_eq_some_iff] at h
  exact h

/-- A map without a key is empty. -/
theorem size_eq_zero (h : ∀ k, cache.entry k = none) : cache.size = 0 := by
  unfold size
  rw [List.length_eq_zero_iff, List.eq_nil_iff_forall_not_mem]
  intro e he
  have hnone := h e.1
  rw [entry, AList.mem_lookup_iff.mpr he] at hnone
  cases hnone

theorem sweep_of_small (hsize : ¬ sweepThreshold < cache.size) : cache.sweep now = cache := by
  unfold sweep
  exact if_neg hsize

/-- A map whose slots were all made in one window is not larger than `peak`. -/
theorem size_le_peak (t : Instant)
    (hall : ∀ k s, cache.entry k = some s → k ∈ cache.keysMade t) : cache.size ≤ cache.peak := by
  have hsub : cache.slots.keys.toFinset ⊆ cache.keysMade t := by
    intro k hk
    have hmem : k ∈ cache.slots := AList.mem_keys.mpr (List.mem_toFinset.mp hk)
    obtain ⟨s, hs⟩ := Option.isSome_iff_exists.mp (AList.lookup_isSome.mpr hmem)
    exact hall k s hs
  calc cache.size = cache.slots.keys.length := List.length_map _ |>.symm
    _ = cache.slots.keys.toFinset.card :=
        (List.toFinset_card_of_nodup cache.slots.keys_nodup).symm
    _ ≤ (cache.keysMade t).card := Finset.card_le_card hsub
    _ ≤ cache.peak := card_keysMade_le_peak t

end ProbeCache

namespace CacheState

variable {st st' : CacheState} {l : CacheLabel} {ls : List CacheLabel}
  {ok : CacheState → CacheLabel → Prop}

/-- The bound through one step. Past the threshold the sweep leaves what is live,
which was all made in one window; below it one slot comes in. -/
theorem size_step (hrun : Run step ok init ls st) (horder : LockOrder (ls ++ [l]))
    (h : st.step l = some st')
    (hsize : st.cache.size ≤ max sweepThreshold st.cache.peak + 1) :
    st'.cache.size ≤ max sweepThreshold st'.cache.peak + 1 := by
  have wf := run_wf hrun
  have wf' := step_wf wf h
  have hpeak : st.cache.peak ≤ st'.cache.peak := (step_extends h).peak_le
  cases touches_of_step wf h with
  | kept _ hslots _ _ _ =>
    -- the map is left alone, and `peak` only grows
    have hsame : st'.cache.size = st.cache.size := by
      unfold ProbeCache.size
      rw [hslots]
    omega
  | @inserted hash now p hl _ hfresh hslots harena =>
    have hsame : st'.cache.size =
        ((st.cache.sweep now).insert hash ⟨p, []⟩ now).size := by
      unfold ProbeCache.size ProbeCache.insert
      rw [hslots, ProbeCache.fresh_sweep]
    by_cases hfull : sweepThreshold < st.cache.size
    · -- all that is left was made since the largest TTL before `now`
      have hwindow : st'.cache.size ≤ st'.cache.peak := by
        refine ProbeCache.size_le_peak (now + 1 - largestTtl) ?_
        intro k s hs
        have hlt := wf'.entry_lt hs
        have hk := wf'.entry_hash hs
        refine ProbeCache.mem_keysMade.mpr ⟨s, hlt, hk, ?_⟩
        rw [harena]
        split
        next =>
          have : 0 < largestTtl := by decide
          dsimp only
          lia
        next hne =>
          have hentry : (st.cache.sweep now).entry k = some s := by
            rw [entry_of_slots hslots] at hs
            split at hs
            next => exact absurd (Option.some.inj hs).symm hne
            next => exact hs
          obtain ⟨hold, hlive⟩ := ProbeCache.live_of_entry_sweep hfull hentry
          have hage := Slot.age_of_live hlive
          have hle := horder.le hl _ (created_mem_stamps hrun s (wf.entry_lt hold))
          lia
      exact Nat.le_succ_of_le (Nat.le_trans hwindow (Nat.le_max_right _ _))
    -- below the threshold nothing is swept, and one slot comes in
    · rw [hsame, ProbeCache.sweep_of_small hfull]
      have := @ProbeCache.size_insert_le st.cache now hash ⟨p, []⟩
      omega

theorem size_le (hrun : Run step ok init ls st) (horder : LockOrder ls) :
    st.cache.size ≤ max sweepThreshold st.cache.peak + 1 := by
  induction hrun with
  | nil => exact Nat.zero_le _
  | snoc hrun hok hst ih => exact size_step hrun horder hst (ih horder.init)

/-- **The map is bounded.** At every point of every run, with any probes failing
and any callers going away, it holds at most one slot more than the threshold,
or than the largest number of keys that slots were made for within a window of
the largest TTL. -/
theorem bounded (hrun : Run step ok init ls st) (horder : LockOrder ls) :
    IsGreatest (Set.range fun t => (st.cache.keysMade t).card) st.cache.peak ∧
      st.cache.size ≤ max sweepThreshold st.cache.peak + 1 :=
  ⟨ProbeCache.isGreatest_peak, size_le hrun horder⟩

/-! ## A map that is full -/

/-- As many different keys as one likes. -/
def keyNo (n : Nat) : Hash := String.ofList (List.replicate n 'a')

theorem keyNo_inj {m n : Nat} (h : keyNo m = keyNo n) : m = n := by
  have hlist := congrArg (fun key : Hash => key.toList.length) h
  simpa [keyNo] using hlist

/-- Writes of the first `n` keys, all at once. -/
def flood (n : Nat) : List CacheLabel := (List.range n).map fun k => .mark (keyNo k) 0

/-- The first `n` keys have been written, and that is all. -/
structure Flooded (n : Nat) (st : CacheState) : Prop where
  clock : st.clock = 0
  fresh : st.cache.fresh = n
  slots : ∀ s, s < n → st.cache.arena s = ⟨keyNo s, ⟨some true, []⟩, 0⟩
  absent : ∀ k, n ≤ k → st.cache.entry (keyNo k) = none
  idle : ∀ c, st.cache.caller c = none
  size : st.cache.size = n

/-- They are written one by one into a map that is not swept yet. -/
theorem flood_run {n : Nat} (hn : n ≤ sweepThreshold + 1) :
    ∃ st, Run step (fun _ _ => True) init (flood n) st ∧ Flooded n st := by
  induction n with
  | zero =>
    exact ⟨init, .nil, rfl, rfl, fun s hs => absurd hs (Nat.not_lt_zero s), fun _ _ => rfl,
      fun _ => rfl, rfl⟩
  | succ n ih =>
    obtain ⟨st, hrun, hst⟩ := ih (Nat.le_of_succ_le hn)
    -- the map is small, so nothing is swept when the next key comes
    have hcache : st.cache.markPresent (keyNo n) 0 = st.cache.insert (keyNo n) ⟨some true, []⟩ 0 := by
      rw [ProbeCache.markPresent, ProbeCache.sweep_of_small (by rw [hst.size]; omega)]
    refine ⟨{ st with cache := st.cache.insert (keyNo n) ⟨some true, []⟩ 0 }, ?_, hst.clock, ?_, ?_,
      ?_, hst.idle, ?_⟩
    · rw [flood, List.range_succ, List.map_append]
      exact hrun.snoc trivial (by simp [step, hcache])
    · exact congrArg (· + 1) hst.fresh
    · intro s hs
      show (st.cache.insert (keyNo n) ⟨some true, []⟩ 0).arena s = _
      rw [ProbeCache.arena_insert, hst.fresh]
      split
      next heq => rw [heq]
      next hne => exact hst.slots s (by lia)
    · intro k hk
      show (st.cache.insert (keyNo n) ⟨some true, []⟩ 0).entry (keyNo k) = none
      rw [ProbeCache.entry_insert, if_neg]
      · exact hst.absent k (by omega)
      · intro heq
        have := keyNo_inj heq
        omega
    · exact (ProbeCache.size_insert (hst.absent n (Nat.le_refl n))).trans (congrArg (· + 1) hst.size)

/-- All of these writes are stamped with the same instant. -/
theorem flood_stamps {n : Nat} {t : Instant} (h : t ∈ stamps (flood n)) : t = 0 := by
  obtain ⟨l, hl, ht⟩ := List.mem_filterMap.mp h
  obtain ⟨k, -, rfl⟩ := List.mem_map.mp hl
  cases ht
  rfl

theorem flood_lockOrder (n : Nat) : LockOrder (flood n) := by
  refine List.pairwise_of_forall_mem_list ?_
  intro t ht t' ht'
  rw [flood_stamps ht]
  exact Nat.zero_le t'

/-- What comes later is in order too. -/
theorem flood_then_lockOrder {n : Nat} {later : List CacheLabel} (h : LockOrder later) :
    LockOrder (flood n ++ later) := by
  unfold LockOrder
  rw [stamps_append]
  refine List.pairwise_append.mpr ⟨flood_lockOrder n, h, ?_⟩
  intro t ht t' _
  rw [flood_stamps ht]
  exact Nat.zero_le t'

/-- As many keys as the map may hold, and one more when they have expired. -/
def fullMap : List CacheLabel :=
  flood sweepThreshold ++ [.tick largestTtl, .mark (keyNo sweepThreshold) largestTtl]

/-- A window of the largest TTL has the old keys in it, or the new one. -/
theorem fullMap_keysMade {st : CacheState} (hst : Flooded sweepThreshold st) (t : Instant) :
    ((st.cache.insert (keyNo sweepThreshold) ⟨some true, []⟩ largestTtl).keysMade t).card ≤
      sweepThreshold := by
  by_cases ht : t = 0
  · have hsub : (st.cache.insert (keyNo sweepThreshold) ⟨some true, []⟩ largestTtl).keysMade t ⊆
        (Finset.range sweepThreshold).image keyNo := by
      intro k hk
      obtain ⟨s, hlt, rfl, -, hin⟩ := ProbeCache.mem_keysMade.mp hk
      rw [ProbeCache.arena_insert, hst.fresh] at hin ⊢
      rw [ProbeCache.fresh_insert, hst.fresh] at hlt
      split at hin
      next => dsimp only at hin; lia
      next hne =>
        have hs : s < sweepThreshold := by lia
        rw [if_neg hne, hst.slots s hs]
        exact Finset.mem_image_of_mem _ (Finset.mem_range.mpr hs)
    calc _ ≤ ((Finset.range sweepThreshold).image keyNo).card := Finset.card_le_card hsub
      _ ≤ (Finset.range sweepThreshold).card := Finset.card_image_le
      _ = sweepThreshold := Finset.card_range _
  · have hsub : (st.cache.insert (keyNo sweepThreshold) ⟨some true, []⟩ largestTtl).keysMade t ⊆
        {keyNo sweepThreshold} := by
      intro k hk
      obtain ⟨s, hlt, rfl, hin, -⟩ := ProbeCache.mem_keysMade.mp hk
      rw [ProbeCache.arena_insert, hst.fresh] at hin ⊢
      rw [ProbeCache.fresh_insert, hst.fresh] at hlt
      split at hin
      next heq => simp [heq]
      next hne =>
        rw [hst.slots s (by lia)] at hin
        dsimp only at hin
        lia
    calc _ ≤ ({keyNo sweepThreshold} : Finset Hash).card := Finset.card_le_card hsub
      _ ≤ sweepThreshold := by decide

/-- The map can get as large as that. -/
theorem fullMap_bounded :
    ∃ st, Run step (fun _ _ => True) init fullMap st ∧ st.cache.peak ≤ sweepThreshold ∧
      st.cache.size = max sweepThreshold st.cache.peak + 1 := by
  obtain ⟨st, hrun, hst⟩ := flood_run (Nat.le_succ sweepThreshold)
  have hmark : st.cache.markPresent (keyNo sweepThreshold) largestTtl =
      st.cache.insert (keyNo sweepThreshold) ⟨some true, []⟩ largestTtl := by
    rw [ProbeCache.markPresent, ProbeCache.sweep_of_small (by rw [hst.size]; omega)]
  have hfull : Run step (fun _ _ => True) init fullMap
      ⟨st.clock + largestTtl, st.cache.insert (keyNo sweepThreshold) ⟨some true, []⟩ largestTtl,
        st.completed⟩ := by
    have hticked := hrun.snoc trivial (show st.step (.tick largestTtl) = some _ from rfl)
    have hmarked := hticked.snoc trivial (l := .mark (keyNo sweepThreshold) largestTtl)
      (by simp [step, hmark]; rfl)
    rwa [List.append_assoc] at hmarked
  obtain ⟨⟨⟨t, ht⟩, -⟩, hle⟩ := bounded hfull (flood_then_lockOrder (by decide))
  have hpeak := Nat.le_trans (Nat.le_of_eq ht.symm) (fullMap_keysMade hst t)
  refine ⟨_, hfull, hpeak, Nat.le_antisymm hle ?_⟩
  show _ ≤ (st.cache.insert (keyNo sweepThreshold) ⟨some true, []⟩ largestTtl).size
  rw [ProbeCache.size_insert (hst.absent _ (Nat.le_refl _)), hst.size]
  exact Nat.succ_le_succ (Nat.max_le.mpr ⟨Nat.le_refl _, hpeak⟩)

end CacheState

end NxCacheServer.Server
