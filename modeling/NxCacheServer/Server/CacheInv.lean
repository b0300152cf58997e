import NxCacheServer.Server.ProbeCache

/-!
# What the cache operations do

One spec lemma for each operation of `ProbeCache` (`slot_cases`, `poll_cases`,
`finish_cases`, `cancel_cases`), and the shape of the cache every operation
keeps (`WF`): which slots exist, who is in which queue, and that a caller that
runs its closure is at the head of the queue of an empty cell.

The shape is what the code relies on without saying it: the map and the callers are
about slots that exist, nobody is in a queue twice or in two of them, a cell with a
value has no queue, and the permit is with the head of its queue. Each operation
changes one slot and one caller, so most of `WF` is kept because it is about others.

Later modules do not unfold an operation. They split on what its spec lemma says it
did, in terms of `setCell`, `setCaller` and `insert`, which have simp lemmas for what
they change and what they leave alone.

In the order of the module:
- reading after writing, the simp set of the cache;
- one lemma for each operation, `Poll` having a case for each way a poll can go;
- `Extends`: slots are made and never unmade, and keep their key and their time;
- `WF`. A caller gets into a queue by `enter`, gets the permit by `turn` and leaves by
  `exit`, and every operation is one of these or makes a slot (`insert`).
-/

namespace NxCacheServer.Server.ProbeCache

open NxCacheServer.Domain

variable {cache cache' : ProbeCache} {c c' : CallerId} {s s' : SlotId} {hash k : Hash}
  {now clock since : Instant} {v : Bool} {phase : Phase}

/-- The value of a slot's cell. -/
def value (cache : ProbeCache) (s : SlotId) : Option Bool := (cache.arena s).present.value

/-- The queue of a slot's cell. -/
def queue (cache : ProbeCache) (s : SlotId) : List CallerId := (cache.arena s).present.queue

/-! ## Reading after writing -/

@[simp] theorem caller_setCaller {p : Option Phase} :
    (cache.setCaller c p).caller c' = if c' = c then p else cache.caller c' := by
  unfold caller setCaller
  by_cases h : c' = c
  · rw [h, if_pos rfl]
    cases p
    · exact AList.lookup_erase c cache.callers
    · exact AList.lookup_insert cache.callers
  · rw [if_neg h]
    cases p
    · exact AList.lookup_erase_ne h
    · exact AList.lookup_insert_ne h

@[simp] theorem arena_setCaller {p : Option Phase} : (cache.setCaller c p).arena = cache.arena := rfl

@[simp] theorem fresh_setCaller {p : Option Phase} : (cache.setCaller c p).fresh = cache.fresh := rfl

@[simp] theorem entry_setCaller {p : Option Phase} :
    (cache.setCaller c p).entry k = cache.entry k := rfl

@[simp] theorem caller_setCell {cell : OnceCell} :
    (cache.setCell s cell).caller c = cache.caller c := rfl

@[simp] theorem fresh_setCell {cell : OnceCell} : (cache.setCell s cell).fresh = cache.fresh := rfl

@[simp] theorem entry_setCell {cell : OnceCell} :
    (cache.setCell s cell).entry k = cache.entry k := rfl

@[simp] theorem arena_setCell {cell : OnceCell} :
    (cache.setCell s cell).arena s' =
      if s' = s then { cache.arena s with present := cell } else cache.arena s' := by
  unfold setCell
  by_cases h : s' = s
  · rw [h, if_pos rfl]
    exact Function.update_self ..
  · rw [if_neg h]
    exact Function.update_of_ne h ..

@[simp] theorem hash_setCell {cell : OnceCell} :
    ((cache.setCell s cell).arena s').hash = (cache.arena s').hash := by
  rw [arena_setCell]
  split
  next h => rw [h]
  next => rfl

@[simp] theorem created_setCell {cell : OnceCell} :
    ((cache.setCell s cell).arena s').created = (cache.arena s').created := by
  rw [arena_setCell]
  split
  next h => rw [h]
  next => rfl

@[simp] theorem caller_insert {p : OnceCell} :
    (cache.insert hash p now).caller c = cache.caller c := rfl

@[simp] theorem fresh_insert {p : OnceCell} :
    (cache.insert hash p now).fresh = cache.fresh + 1 := rfl

@[simp] theorem arena_insert {p : OnceCell} :
    (cache.insert hash p now).arena s =
      if s = cache.fresh then ⟨hash, p, now⟩ else cache.arena s := by
  unfold insert
  by_cases h : s = cache.fresh
  · rw [h, if_pos rfl]
    exact Function.update_self ..
  · rw [if_neg h]
    exact Function.update_of_ne h ..

@[simp] theorem entry_insert {p : OnceCell} :
    (cache.insert hash p now).entry k = if k = hash then some cache.fresh else cache.entry k := by
  unfold insert entry
  by_cases h : k = hash
  · rw [if_pos h, h, AList.lookup_insert]
  · rw [if_neg h, AList.lookup_insert_ne h]

@[simp] theorem caller_sweep : (cache.sweep now).caller c = cache.caller c := by
  unfold sweep
  split <;> rfl

@[simp] theorem fresh_sweep : (cache.sweep now).fresh = cache.fresh := by
  unfold sweep
  split <;> rfl

@[simp] theorem arena_sweep : (cache.sweep now).arena = cache.arena := by
  unfold sweep
  split <;> rfl

@[simp] theorem value_setCaller {p : Option Phase} :
    (cache.setCaller c p).value s = cache.value s := rfl

@[simp] theorem queue_setCaller {p : Option Phase} :
    (cache.setCaller c p).queue s = cache.queue s := rfl

@[simp] theorem value_setCell {cell : OnceCell} :
    (cache.setCell s cell).value s' = if s' = s then cell.value else cache.value s' := by
  unfold value
  rw [arena_setCell]
  split <;> rfl

@[simp] theorem queue_setCell {cell : OnceCell} :
    (cache.setCell s cell).queue s' = if s' = s then cell.queue else cache.queue s' := by
  unfold queue
  rw [arena_setCell]
  split <;> rfl

/-- A cell that keeps its value can be exchanged. -/
theorem value_of_setCell {cell : OnceCell}
    (hcell : ∀ v, cache.value s = some v → cell.value = some v)
    (hv : cache.value s' = some v) : (cache.setCell s cell).value s' = some v := by
  rw [value_setCell]
  split
  next h =>
    rw [h] at hv
    exact hcell v hv
  next => exact hv

@[simp] theorem value_leave : ((cache.arena s).present.leave c).value = cache.value s := rfl

@[simp] theorem queue_leave :
    ((cache.arena s).present.leave c).queue = (cache.queue s).erase c := rfl

@[simp] theorem value_insert {p : OnceCell} :
    (cache.insert hash p now).value s = if s = cache.fresh then p.value else cache.value s := by
  unfold value
  rw [arena_insert]
  split <;> rfl

@[simp] theorem queue_insert {p : OnceCell} :
    (cache.insert hash p now).queue s = if s = cache.fresh then p.queue else cache.queue s := by
  unfold queue
  rw [arena_insert]
  split <;> rfl

@[simp] theorem value_sweep : (cache.sweep now).value s = cache.value s := by
  unfold value
  rw [arena_sweep]

@[simp] theorem queue_sweep : (cache.sweep now).queue s = cache.queue s := by
  unfold queue
  rw [arena_sweep]

/-- `retain` keeps an entry if its slot is to be kept. -/
theorem lookup_retain (slots : AList (fun _ : Hash => SlotId)) (keep : SlotId → Bool) (k : Hash) :
    (retain slots keep).lookup k = (slots.lookup k).filter keep := by
  ext s
  have hiff : s ∈ (retain slots keep).lookup k ↔ s ∈ slots.lookup k ∧ keep s = true := by
    rw [AList.mem_lookup_iff, AList.mem_lookup_iff]
    exact List.mem_filter
  rw [← Option.mem_def, hiff, ← Option.mem_def, Option.mem_filter_iff]

/-- An insertion after a sweep leaves the slots there are as they were. -/
theorem arena_insert_sweep {sweepAt : Instant} {p : OnceCell} (hs : s ≠ cache.fresh) :
    ((cache.sweep sweepAt).insert hash p now).arena s = cache.arena s := by
  rw [arena_insert, fresh_sweep, if_neg hs, arena_sweep]

theorem value_insert_sweep {sweepAt : Instant} {p : OnceCell} (hs : s ≠ cache.fresh) :
    ((cache.sweep sweepAt).insert hash p now).value s = cache.value s := by
  rw [value, arena_insert_sweep hs, value]

/-- A sweep only takes dead slots out of the map. -/
theorem entry_sweep (cache : ProbeCache) (now : Instant) (k : Hash) :
    (cache.sweep now).entry k = cache.entry k ∨
      (cache.sweep now).entry k = none ∧
        ∃ s, cache.entry k = some s ∧ (cache.arena s).live now = false := by
  unfold sweep
  split
  next =>
    have hret : (retain cache.slots fun s => (cache.arena s).live now).lookup k =
        (cache.entry k).filter fun s => (cache.arena s).live now := lookup_retain ..
    unfold entry at hret ⊢
    rw [hret]
    cases hk : cache.slots.lookup k with
    | none => exact Or.inl rfl
    | some s =>
      cases hlive : (cache.arena s).live now with
      | true => exact Or.inl (by simp [hlive])
      | false => exact Or.inr ⟨by simp [hlive], s, rfl, hlive⟩
  next => exact Or.inl rfl

/-! ## One lemma for each operation -/

/-- `slot` gives the live slot of the key or a new one, which it puts into the swept
map. -/
theorem slot_cases (cache : ProbeCache) (hash : Hash) (now : Instant) :
    (∃ s, cache.entry hash = some s ∧ (cache.arena s).live now = true ∧
      cache.slot hash now = (cache, s)) ∨
    ((∀ s, cache.entry hash = some s → (cache.arena s).live now = false) ∧
      cache.slot hash now = ((cache.sweep now).insert hash ⟨none, []⟩ now, cache.fresh)) := by
  unfold slot
  cases hk : cache.entry hash with
  | none => exact Or.inr ⟨by simp, by simp⟩
  | some s =>
    cases hlive : (cache.arena s).live now with
    | true => exact Or.inl ⟨s, rfl, hlive, by simp [hlive]⟩
    | false =>
      refine Or.inr ⟨?_, by simp [hlive]⟩
      intro s' hs'
      injection hs' with heq
      rw [← heq, hlive]

/-- What a successful poll of `c` did. -/
inductive Poll (cache : ProbeCache) (c : CallerId) (clock : Instant) :
    ProbeCache → Polled → Prop
  /-- The cell is set: `c` leaves with its value. -/
  | initialized {s : SlotId} {v : Bool}
      (hc : cache.caller c = some (.holding s) ∨ cache.caller c = some (.queued s))
      (hv : (cache.arena s).present.value = some v) :
      Poll cache c clock (cache.setCaller c none) (.acquired (.initialized v))
  /-- Nobody is there: `c` takes the permit. -/
  | first {s : SlotId} (hc : cache.caller c = some (.holding s))
      (hcell : (cache.arena s).present = ⟨none, []⟩) :
      Poll cache c clock
        ((cache.setCell s ⟨none, [c]⟩).setCaller c (some (.probing s clock))) (.acquired .permit)
  /-- `c` joins the queue. -/
  | join {s : SlotId} {b : CallerId} {q : List CallerId}
      (hc : cache.caller c = some (.holding s)) (hcell : (cache.arena s).present = ⟨none, b :: q⟩) :
      Poll cache c clock
        ((cache.setCell s ⟨none, b :: q ++ [c]⟩).setCaller c (some (.queued s))) .pending
  /-- `c` has come to the head of the queue and takes the permit. -/
  | turn {s : SlotId} {q : List CallerId} (hc : cache.caller c = some (.queued s))
      (hcell : (cache.arena s).present = ⟨none, c :: q⟩) :
      Poll cache c clock (cache.setCaller c (some (.probing s clock))) (.acquired .permit)

/-- What a poll does, by where the caller stands. -/
theorem poll_cases {r : Polled} (h : cache.poll c clock = some (cache', r)) :
    Poll cache c clock cache' r := by
  unfold poll at h
  split at h
  next s hc =>
    split at h
    next v q hcell =>
      cases h
      exact .initialized (Or.inl hc) (by rw [hcell])
    next hcell =>
      cases h
      exact .first hc hcell
    next q hne hcell =>
      cases h
      cases q with
      | nil => exact absurd rfl hne
      | cons b q => exact .join hc hcell
  next s hc =>
    split at h
    next v q hcell =>
      cases h
      exact .initialized (Or.inr hc) (by rw [hcell])
    next q hcell =>
      split at h
      next hhead =>
        cases h
        cases q with
        | nil => simp at hhead
        | cons b q =>
          injection hhead with hb
          exact .turn hc (by rw [hcell, hb])
      next => cases h
  next => cases h

/-- Only a probe ends, and it settles the cell of its slot. -/
theorem finish_cases {value : Option Bool} (h : cache.finish c value = some cache') :
    ∃ s since, cache.caller c = some (.probing s since) ∧
      cache' = (cache.setCell s ((cache.arena s).present.settle c value)).setCaller c none := by
  unfold finish at h
  split at h
  next s since hc =>
    cases h
    exact ⟨s, since, hc, rfl⟩
  next => cases h

/-- A caller that is dropped leaves the queue of its slot; one that is outside is
nothing to the cache. -/
theorem cancel_cases (cache : ProbeCache) (c : CallerId) :
    (cache.caller c = none ∧ cache.cancel c = cache) ∨
    ∃ phase, cache.caller c = some phase ∧ cache.cancel c =
      (cache.setCell phase.slot ((cache.arena phase.slot).present.leave c)).setCaller c none := by
  unfold cancel
  cases hc : cache.caller c with
  | none => exact Or.inl ⟨rfl, rfl⟩
  | some phase => exact Or.inr ⟨phase, rfl, rfl⟩

/-! ## What every operation leaves alone -/

/-- Slots are only added, and keep their key and their age. -/
structure Extends (cache cache' : ProbeCache) : Prop where
  fresh : cache.fresh ≤ cache'.fresh
  hash : ∀ {s}, s < cache.fresh → (cache'.arena s).hash = (cache.arena s).hash
  created : ∀ {s}, s < cache.fresh → (cache'.arena s).created = (cache.arena s).created

namespace Extends

theorem refl (cache : ProbeCache) : cache.Extends cache :=
  ⟨Nat.le_refl _, fun _ => rfl, fun _ => rfl⟩

theorem setCaller (h : cache.Extends cache') (c : CallerId) (p : Option Phase) :
    cache.Extends (cache'.setCaller c p) := ⟨h.fresh, h.hash, h.created⟩

theorem setCell (cache : ProbeCache) (s : SlotId) (cell : OnceCell) :
    cache.Extends (cache.setCell s cell) where
  fresh := Nat.le_refl _
  hash _ := hash_setCell
  created _ := created_setCell

/-- An insertion makes a slot and leaves those there are alone. -/
theorem insert (cache : ProbeCache) (sweepAt : Instant) (hash : Hash) (p : OnceCell)
    (now : Instant) : cache.Extends ((cache.sweep sweepAt).insert hash p now) where
  fresh := by
    rw [fresh_insert, fresh_sweep]
    exact Nat.le_succ _
  hash hs := by rw [arena_insert_sweep (Nat.ne_of_lt hs)]
  created hs := by rw [arena_insert_sweep (Nat.ne_of_lt hs)]

theorem call (cache : ProbeCache) (c : CallerId) (hash : Hash) (now : Instant) :
    cache.Extends (cache.call c hash now).1 := by
  unfold ProbeCache.call
  rcases slot_cases cache hash now with ⟨s, -, -, heq⟩ | ⟨-, heq⟩
  · rw [heq]
    exact (refl cache).setCaller c _
  · rw [heq]
    exact (insert cache now hash _ now).setCaller c _

theorem poll {r : Polled} (h : cache.poll c clock = some (cache', r)) : cache.Extends cache' := by
  cases poll_cases h with
  | initialized hc hv => exact (refl cache).setCaller c _
  | first hc hcell => exact (setCell cache _ _).setCaller c _
  | join hc hcell => exact (setCell cache _ _).setCaller c _
  | turn hc hcell => exact (refl cache).setCaller c _

theorem finish {value : Option Bool} (h : cache.finish c value = some cache') :
    cache.Extends cache' := by
  obtain ⟨s, since, -, rfl⟩ := finish_cases h
  exact (setCell cache _ _).setCaller c _

theorem cancel (cache : ProbeCache) (c : CallerId) : cache.Extends (cache.cancel c) := by
  rcases cancel_cases cache c with ⟨-, heq⟩ | ⟨phase, -, heq⟩
  · rw [heq]
    exact refl cache
  · rw [heq]
    exact (setCell cache _ _).setCaller c _

theorem markPresent (cache : ProbeCache) (hash : Hash) (now : Instant) :
    cache.Extends (cache.markPresent hash now) := insert cache now hash _ now

end Extends

/-! Every operation of a caller is about that caller alone. -/

theorem caller_call (h : c' ≠ c) : (cache.call c hash now).1.caller c' = cache.caller c' := by
  unfold ProbeCache.call
  rcases slot_cases cache hash now with ⟨s, -, -, heq⟩ | ⟨-, heq⟩ <;> rw [heq] <;> simp [h]

/-- The caller of `present` stands on the slot it was given. -/
theorem caller_call_self :
    (cache.call c hash now).1.caller c = some (.holding (cache.call c hash now).2) := by
  unfold ProbeCache.call
  simp

theorem caller_poll {r : Polled} (hp : cache.poll c clock = some (cache', r)) (h : c' ≠ c) :
    cache'.caller c' = cache.caller c' := by
  cases poll_cases hp <;> simp [h]

theorem caller_finish {value : Option Bool} (hf : cache.finish c value = some cache')
    (h : c' ≠ c) : cache'.caller c' = cache.caller c' := by
  obtain ⟨s, since, -, rfl⟩ := finish_cases hf
  simp [h]

theorem caller_cancel (h : c' ≠ c) : (cache.cancel c).caller c' = cache.caller c' := by
  rcases cancel_cases cache c with ⟨-, heq⟩ | ⟨phase, -, heq⟩ <;> rw [heq]
  simp [h]

theorem caller_cancel_self : (cache.cancel c).caller c = none := by
  rcases cancel_cases cache c with ⟨hc, heq⟩ | ⟨phase, -, heq⟩
  · rw [heq, hc]
  · rw [heq]
    simp

theorem entry_cancel : (cache.cancel c).entry k = cache.entry k := by
  rcases cancel_cases cache c with ⟨-, heq⟩ | ⟨phase, -, heq⟩ <;> rw [heq]
  rfl

theorem fresh_cancel : (cache.cancel c).fresh = cache.fresh := by
  rcases cancel_cases cache c with ⟨-, heq⟩ | ⟨phase, -, heq⟩ <;> rw [heq]
  rfl

theorem hash_cancel : ((cache.cancel c).arena s).hash = (cache.arena s).hash := by
  rcases cancel_cases cache c with ⟨-, heq⟩ | ⟨phase, -, heq⟩ <;> rw [heq]
  rw [arena_setCaller, hash_setCell]

/-- A caller that goes away takes no value along. -/
theorem value_cancel : (cache.cancel c).value s = cache.value s := by
  rcases cancel_cases cache c with ⟨-, heq⟩ | ⟨phase, -, heq⟩ <;> rw [heq]
  rw [value_setCaller, value_setCell]
  split
  next h => rw [h, value_leave]
  next => rfl

theorem caller_markPresent : (cache.markPresent hash now).caller c = cache.caller c := by
  unfold ProbeCache.markPresent
  simp

/-! ## The shape of the cache -/

/-- Slots in use exist and carry their key; the queue of a slot is exactly the
callers waiting on its empty cell, the one that runs its closure at the head. -/
structure WF (cache : ProbeCache) : Prop where
  entry_lt : ∀ {k s}, cache.entry k = some s → s < cache.fresh
  entry_hash : ∀ {k s}, cache.entry k = some s → (cache.arena s).hash = k
  caller_lt : ∀ {c phase}, cache.caller c = some phase → phase.slot < cache.fresh
  settled : ∀ {s v}, cache.value s = some v → cache.queue s = []
  nodup : ∀ s, (cache.queue s).Nodup
  mem_queue : ∀ {s c}, c ∈ cache.queue s → cache.caller c = some (.queued s) ∨
    ∃ since, cache.caller c = some (.probing s since)
  queued_mem : ∀ {s c}, cache.caller c = some (.queued s) → cache.value s = none →
    c ∈ cache.queue s
  probing_head : ∀ {s c since}, cache.caller c = some (.probing s since) →
    cache.value s = none ∧ ∃ q, cache.queue s = c :: q

theorem wf_empty : WF empty where
  entry_lt h := by cases h
  entry_hash h := by cases h
  caller_lt h := by cases h
  settled h := by cases h
  nodup _ := List.nodup_nil
  mem_queue h := by cases h
  queued_mem h := by cases h
  probing_head h := by cases h

namespace WF

/-- A sweep takes entries out and leaves the rest alone. -/
theorem sweep (wf : cache.WF) (now : Instant) : (cache.sweep now).WF where
  entry_lt {k s} h := by
    rcases entry_sweep cache now k with heq | ⟨hnone, -⟩
    · rw [heq] at h
      rw [fresh_sweep]
      exact wf.entry_lt h
    · rw [hnone] at h
      cases h
  entry_hash {k s} h := by
    rcases entry_sweep cache now k with heq | ⟨hnone, -⟩
    · rw [heq] at h
      rw [arena_sweep]
      exact wf.entry_hash h
    · rw [hnone] at h
      cases h
  caller_lt h := by simpa using wf.caller_lt (by simpa using h)
  settled h := by simpa using wf.settled (by simpa using h)
  nodup s := by simpa using wf.nodup s
  mem_queue h := by simpa using wf.mem_queue (by simpa using h)
  queued_mem h hv := by simpa using wf.queued_mem (by simpa using h) (by simpa using hv)
  probing_head h := by simpa using wf.probing_head (by simpa using h)

/-- A new slot has a key, an empty queue and no callers. -/
theorem insert (wf : cache.WF) (hash : Hash) (value : Option Bool) (created : Instant) :
    (cache.insert hash ⟨value, []⟩ created).WF where
  entry_lt {k s} h := by
    rw [entry_insert] at h
    rw [fresh_insert]
    split at h
    next =>
      injection h with h
      rw [← h]
      exact Nat.lt_succ_self _
    next => exact Nat.lt_succ_of_lt (wf.entry_lt h)
  entry_hash {k s} h := by
    rw [entry_insert] at h
    rw [arena_insert]
    split at h
    next hk =>
      injection h with h
      rw [if_pos h.symm, hk]
    next =>
      rw [if_neg (Nat.ne_of_lt (wf.entry_lt h))]
      exact wf.entry_hash h
  caller_lt h := Nat.lt_succ_of_lt (wf.caller_lt h)
  settled {s v} h := by
    rw [value_insert] at h
    rw [queue_insert]
    split
    next => rfl
    next hs =>
      rw [if_neg hs] at h
      exact wf.settled h
  nodup s := by
    rw [queue_insert]
    split
    next => exact List.nodup_nil
    next => exact wf.nodup s
  mem_queue {s c} h := by
    rw [queue_insert] at h
    split at h
    next => cases h
    next => exact wf.mem_queue h
  queued_mem {s c} h hv := by
    have hs : s ≠ cache.fresh := Nat.ne_of_lt (wf.caller_lt h)
    rw [value_insert, if_neg hs] at hv
    rw [queue_insert, if_neg hs]
    exact wf.queued_mem h hv
  probing_head {s c since} h := by
    have hs : s ≠ cache.fresh := Nat.ne_of_lt (wf.caller_lt h)
    rw [value_insert, if_neg hs, queue_insert, if_neg hs]
    exact wf.probing_head h

/-- A caller that is in no queue changes hands: it is out, or only holds a slot. -/
theorem idle (wf : cache.WF) (hidle : ∀ s, c ∉ cache.queue s) {p : Option Phase}
    (hp : p = none ∨ ∃ s, s < cache.fresh ∧ p = some (.holding s)) :
    (cache.setCaller c p).WF where
  entry_lt h := wf.entry_lt h
  entry_hash h := wf.entry_hash h
  caller_lt {c' phase} h := by
    rw [caller_setCaller] at h
    split at h
    next =>
      rcases hp with hp | ⟨s, hs, hp⟩
      · rw [hp] at h
        cases h
      · rw [hp] at h
        injection h with h
        rw [← h]
        exact hs
    next => exact wf.caller_lt h
  settled h := wf.settled h
  nodup s := wf.nodup s
  mem_queue {s c'} h := by
    rw [caller_setCaller, if_neg]
    · exact wf.mem_queue h
    · intro heq
      rw [heq] at h
      exact hidle s h
  queued_mem {s c'} h hv := by
    rw [caller_setCaller] at h
    split at h
    next => rcases hp with hp | ⟨_, _, hp⟩ <;> rw [hp] at h <;> cases h
    next => exact wf.queued_mem h hv
  probing_head {s c' since} h := by
    rw [caller_setCaller] at h
    split at h
    next => rcases hp with hp | ⟨_, _, hp⟩ <;> rw [hp] at h <;> cases h
    next => exact wf.probing_head h

theorem not_mem_of_outside (wf : cache.WF) (hc : cache.caller c = none) :
    ∀ s, c ∉ cache.queue s := by
  intro s hin
  rcases wf.mem_queue hin with h | ⟨_, h⟩ <;> rw [hc] at h <;> cases h

theorem not_mem_of_holding (wf : cache.WF) (hc : cache.caller c = some (.holding s)) :
    ∀ s', c ∉ cache.queue s' := by
  intro s' hin
  rcases wf.mem_queue hin with h | ⟨_, h⟩ <;> rw [hc] at h <;> cases h

/-- A call puts its caller on a slot of the key. -/
theorem call (wf : cache.WF) (hash : Hash) (now : Instant) (hc : cache.caller c = none) :
    (cache.call c hash now).1.WF := by
  unfold ProbeCache.call
  rcases slot_cases cache hash now with ⟨s, hentry, -, heq⟩ | ⟨-, heq⟩
  · rw [heq]
    exact wf.idle (wf.not_mem_of_outside hc) (Or.inr ⟨s, wf.entry_lt hentry, rfl⟩)
  · rw [heq]
    have wf' := (wf.sweep now).insert hash none now
    refine wf'.idle (wf'.not_mem_of_outside (by simpa using hc)) (Or.inr ⟨cache.fresh, ?_, rfl⟩)
    rw [fresh_insert, fresh_sweep]
    exact Nat.lt_succ_self _

/-- `call` hands out a slot of its key. -/
theorem hash_call (wf : cache.WF) (c : CallerId) (hash : Hash) (now : Instant) :
    ((cache.call c hash now).1.arena (cache.call c hash now).2).hash = hash := by
  unfold ProbeCache.call
  rcases slot_cases cache hash now with ⟨s, hentry, -, heq⟩ | ⟨-, heq⟩
  · rw [heq]
    exact wf.entry_hash hentry
  · rw [heq]
    simp

theorem markPresent (wf : cache.WF) (hash : Hash) (now : Instant) :
    (cache.markPresent hash now).WF :=
  (wf.sweep now).insert hash (some true) now

/-- A caller that holds a slot with an empty cell goes to the end of its queue,
and runs its closure if nobody was there. -/
theorem enter (wf : cache.WF) (hc : cache.caller c = some (.holding s))
    (hv : cache.value s = none)
    (hphase : phase = .queued s ∧ cache.queue s ≠ [] ∨
      cache.queue s = [] ∧ ∃ since, phase = .probing s since) :
    ((cache.setCell s ⟨none, cache.queue s ++ [c]⟩).setCaller c (some phase)).WF where
  entry_lt h := wf.entry_lt h
  entry_hash h := by
    rw [arena_setCaller, hash_setCell]
    exact wf.entry_hash h
  caller_lt {c' phase'} h := by
    rw [caller_setCaller, caller_setCell] at h
    split at h
    next =>
      injection h with h
      have hs : s < cache.fresh := wf.caller_lt hc
      rcases hphase with ⟨hp, -⟩ | ⟨-, since, hp⟩ <;> rw [← h, hp] <;> exact hs
    next => exact wf.caller_lt h
  settled {s' v} h := by
    rw [value_setCaller, value_setCell] at h
    rw [queue_setCaller, queue_setCell]
    split at h
    next => cases h
    next hs =>
      rw [if_neg hs]
      exact wf.settled h
  nodup s' := by
    rw [queue_setCaller, queue_setCell]
    split
    next =>
      refine (wf.nodup s).append (List.nodup_singleton c) ?_
      rw [List.disjoint_singleton]
      exact wf.not_mem_of_holding hc s
    next => exact wf.nodup s'
  mem_queue {s' c'} h := by
    rw [queue_setCaller, queue_setCell] at h
    rw [caller_setCaller, caller_setCell]
    by_cases hcc : c' = c
    · rw [if_pos hcc]
      -- `c` was in no queue, so it is in this one
      have hs : s' = s := by
        by_contra hne
        rw [if_neg hne, hcc] at h
        exact wf.not_mem_of_holding hc s' h
      rcases hphase with ⟨hp, -⟩ | ⟨-, since, hp⟩
      · exact Or.inl (by rw [hp, hs])
      · exact Or.inr ⟨since, by rw [hp, hs]⟩
    · rw [if_neg hcc]
      split at h
      next hs =>
        rw [hs]
        refine wf.mem_queue ?_
        simpa [hcc] using h
      next => exact wf.mem_queue h
  queued_mem {s' c'} h hv' := by
    rw [caller_setCaller, caller_setCell] at h
    rw [value_setCaller, value_setCell] at hv'
    rw [queue_setCaller, queue_setCell]
    split at h
    next hcc =>
      rcases hphase with ⟨hp, -⟩ | ⟨-, since, hp⟩
      · rw [hp] at h
        injection h with h
        injection h with h
        simp [h, hcc]
      · rw [hp] at h
        cases h
    next hcc =>
      split
      next hs =>
        rw [hs] at h
        exact List.mem_append_left _ (wf.queued_mem h hv)
      next hs =>
        rw [if_neg hs] at hv'
        exact wf.queued_mem h hv'
  probing_head {s' c' since} h := by
    rw [caller_setCaller, caller_setCell] at h
    rw [value_setCaller, value_setCell, queue_setCaller, queue_setCell]
    split at h
    next hcc =>
      rcases hphase with ⟨hp, -⟩ | ⟨hq, since', hp⟩
      · rw [hp] at h
        cases h
      · rw [hp] at h
        injection h with h
        injection h with h
        rw [if_pos h.symm, if_pos h.symm, hq, hcc]
        exact ⟨rfl, [], rfl⟩
    next hcc =>
      -- whoever is at the head stays there: `c` goes to the end
      obtain ⟨hnone, q, hq⟩ := wf.probing_head h
      split
      next hs =>
        rw [hs] at hq
        rw [hq]
        exact ⟨rfl, q ++ [c], rfl⟩
      next => exact ⟨hnone, q, hq⟩

/-- The caller at the head of the queue takes the permit. -/
theorem turn (wf : cache.WF) (hc : cache.caller c = some (.queued s)) (hv : cache.value s = none)
    {q : List CallerId} (hq : cache.queue s = c :: q) (since : Instant) :
    (cache.setCaller c (some (.probing s since))).WF where
  entry_lt h := wf.entry_lt h
  entry_hash h := wf.entry_hash h
  caller_lt {c' phase} h := by
    rw [caller_setCaller] at h
    split at h
    next =>
      injection h with h
      rw [← h]
      exact (wf.caller_lt hc : s < cache.fresh)
    next => exact wf.caller_lt h
  settled h := wf.settled h
  nodup s := wf.nodup s
  mem_queue {s' c'} h := by
    rw [caller_setCaller]
    -- `c` stays in its queue, now as the one that probes
    have hin := wf.mem_queue h
    split
    next hcc =>
      rw [hcc, hc] at hin
      rcases hin with hin | ⟨_, hin⟩
      · injection hin with hin
        injection hin with hin
        exact Or.inr ⟨since, by rw [hin]⟩
      · cases hin
    next => exact hin
  queued_mem {s' c'} h hv' := by
    rw [caller_setCaller] at h
    split at h
    next => cases h
    next => exact wf.queued_mem h hv'
  probing_head {s' c' since'} h := by
    rw [caller_setCaller] at h
    split at h
    next hcc =>
      injection h with h
      injection h with h
      rw [← h, hcc]
      exact ⟨hv, q, hq⟩
    next => exact wf.probing_head h

/-- A poll moves its caller on: into the queue, into the closure, or out. -/
theorem poll (wf : cache.WF) {r : Polled} (h : cache.poll c clock = some (cache', r)) :
    cache'.WF := by
  cases poll_cases h with
  | @initialized s v hc hv =>
    -- a set cell has no queue, and a caller is in one queue at most
    refine wf.idle ?_ (Or.inl rfl)
    intro s' hin
    rcases hc with hc | hc
    · exact wf.not_mem_of_holding hc s' hin
    · rcases wf.mem_queue hin with h' | ⟨_, h'⟩
      · rw [hc] at h'
        injection h' with h'
        injection h' with h'
        rw [← h', wf.settled hv] at hin
        cases hin
      · rw [hc] at h'
        cases h'
  | @first s hc hcell =>
    have hq : cache.queue s = [] := by rw [queue, hcell]
    have hv : cache.value s = none := by rw [value, hcell]
    have := wf.enter hc hv (Or.inr ⟨hq, clock, rfl⟩)
    rwa [hq] at this
  | @join s b q hc hcell =>
    have hq : cache.queue s = b :: q := by rw [queue, hcell]
    have hv : cache.value s = none := by rw [value, hcell]
    have := wf.enter hc hv (Or.inl ⟨rfl, by rw [hq]; exact List.cons_ne_nil _ _⟩)
    rwa [hq] at this
  | @turn s q hc hcell =>
    have hq : cache.queue s = c :: q := by rw [queue, hcell]
    have hv : cache.value s = none := by rw [value, hcell]
    exact wf.turn hc hv hq clock

/-- What `c` leaves behind in its cell: the cell as it was without it, or a value
and no queue, if it was at the head. -/
def Leaves (cache : ProbeCache) (c : CallerId) (s : SlotId) (cell : OnceCell) : Prop :=
  cell = (cache.arena s).present.leave c ∨
    (∃ v, cell = ⟨some v, []⟩) ∧ ∃ q, cache.queue s = c :: q

/-- Whoever is left in the queue was in it, and is not the one that leaves. -/
theorem mem_of_leaves (wf : cache.WF) {cell : OnceCell} (hcell : Leaves cache c s cell)
    {c' : CallerId} (hc' : c' ∈ cell.queue) : c' ∈ cache.queue s ∧ c' ≠ c := by
  rcases hcell with rfl | ⟨⟨v, rfl⟩, -⟩
  · exact ((wf.nodup s).mem_erase_iff.mp hc').symm
  · cases hc'

/-- A caller takes its leave of a slot's cell. -/
theorem exit (wf : cache.WF) (hc : cache.caller c = some phase) {cell : OnceCell}
    (hcell : Leaves cache c phase.slot cell) :
    ((cache.setCell phase.slot cell).setCaller c none).WF where
  entry_lt h := wf.entry_lt h
  entry_hash h := by
    rw [arena_setCaller, hash_setCell]
    exact wf.entry_hash h
  caller_lt {c' phase'} h := by
    rw [caller_setCaller, caller_setCell] at h
    split at h
    next => cases h
    next => exact wf.caller_lt h
  settled {s v} h := by
    rw [value_setCaller, value_setCell] at h
    rw [queue_setCaller, queue_setCell]
    split at h
    next hs =>
      rw [if_pos hs]
      rcases hcell with rfl | ⟨⟨v, rfl⟩, -⟩
      · have hq := wf.settled (show cache.value phase.slot = some v from h)
        show (cache.queue phase.slot).erase c = []
        rw [hq]
        rfl
      · rfl
    next hs =>
      rw [if_neg hs]
      exact wf.settled h
  nodup s := by
    rw [queue_setCaller, queue_setCell]
    split
    next =>
      rcases hcell with rfl | ⟨⟨v, rfl⟩, -⟩
      · exact (wf.nodup phase.slot).erase c
      · exact List.nodup_nil
    next => exact wf.nodup s
  mem_queue {s c'} h := by
    rw [queue_setCaller, queue_setCell] at h
    rw [caller_setCaller, caller_setCell]
    split at h
    next heq =>
      obtain ⟨hmem, hne⟩ := wf.mem_of_leaves hcell h
      rw [if_neg hne, heq]
      exact wf.mem_queue hmem
    next hne =>
      have hin := wf.mem_queue h
      rw [if_neg]
      · exact hin
      · -- `c` can only be in the queue of its own slot
        intro heq
        rw [heq, hc] at hin
        rcases hin with hin | ⟨_, hin⟩ <;> injection hin with hin <;> rw [hin] at hne <;>
          exact hne rfl
  queued_mem {s c'} h hv := by
    rw [caller_setCaller, caller_setCell] at h
    rw [value_setCaller, value_setCell] at hv
    rw [queue_setCaller, queue_setCell]
    split at h
    next => cases h
    next hne =>
      split at hv
      next heq =>
        rw [if_pos heq]
        rcases hcell with rfl | ⟨⟨v, rfl⟩, -⟩
        · rw [heq] at h
          exact (wf.nodup phase.slot).mem_erase_iff.mpr ⟨hne, wf.queued_mem h hv⟩
        · cases hv
      next hs =>
        rw [if_neg hs]
        exact wf.queued_mem h hv
  probing_head {s c' since} h := by
    rw [caller_setCaller, caller_setCell] at h
    rw [value_setCaller, value_setCell, queue_setCaller, queue_setCell]
    split at h
    next => cases h
    next hne =>
      split
      next heq =>
        rw [heq] at h
        obtain ⟨hnone, q, hq⟩ := wf.probing_head h
        rcases hcell with rfl | ⟨-, q', hq'⟩
        · refine ⟨hnone, q.erase c, ?_⟩
          show (cache.queue phase.slot).erase c = c' :: q.erase c
          rw [hq, List.erase_cons_tail (by simpa using hne)]
        · -- the cell is set only by the head of the queue, and there is one head
          rw [hq] at hq'
          injection hq' with hcc
          exact absurd hcc hne
      next => exact wf.probing_head h

/-- The end of a probe opens its slot, or leaves it to the next in the queue. -/
theorem finish (wf : cache.WF) {value : Option Bool} (h : cache.finish c value = some cache') :
    cache'.WF := by
  obtain ⟨s, since, hc, rfl⟩ := finish_cases h
  refine wf.exit hc ?_
  cases value with
  | none => exact Or.inl rfl
  | some v => exact Or.inr ⟨⟨v, rfl⟩, (wf.probing_head hc).2⟩

theorem cancel (wf : cache.WF) (c : CallerId) : (cache.cancel c).WF := by
  rcases cancel_cases cache c with ⟨-, heq⟩ | ⟨phase, hc, heq⟩
  · rw [heq]
    exact wf
  · rw [heq]
    exact wf.exit hc (Or.inl rfl)

/-- A caller that is alone is told the value of its cell, or gets the permit. -/
theorem poll_alone (wf : cache.WF) (halone : ∀ {c'}, c' ≠ c → cache.caller c' = none)
    {phase : Phase} (hc : cache.caller c = some phase) (hidle : phase.probingSince = none)
    (clock : Instant) : ∃ cache' a, cache.poll c clock = some (cache', .acquired a) := by
  have hsole : ∀ {c' phase'}, cache.caller c' = some phase' → c' = c := by
    intro c' phase' hc'
    by_contra hne
    rw [halone hne] at hc'
    cases hc'
  unfold ProbeCache.poll
  rw [hc]
  cases phase with
  | probing s since => cases hidle
  | holding s =>
    have hempty : cache.queue s = [] := by
      rw [List.eq_nil_iff_forall_not_mem]
      intro c' hmem
      rcases wf.mem_queue hmem with hc' | ⟨since, hc'⟩ <;>
        rw [hsole hc', hc] at hc' <;> cases hc'
    unfold queue at hempty
    cases hcell : (cache.arena s).present with
    | mk value queue =>
      rw [hcell] at hempty
      rw [show queue = [] from hempty] at hcell
      dsimp only
      rw [hcell]
      cases value <;> exact ⟨_, _, rfl⟩
  | queued s =>
    have hmem := wf.queued_mem hc
    have hqueue := fun c' => wf.mem_queue (s := s) (c := c')
    unfold value queue at hmem
    unfold queue at hqueue
    cases hcell : (cache.arena s).present with
    | mk value queue =>
      rw [hcell] at hmem hqueue
      dsimp only
      rw [hcell]
      cases value with
      | some v => exact ⟨_, _, rfl⟩
      | none =>
        -- only `c` may be in the queue, so it is its head
        have hhead : queue.head? = some c := by
          cases queue with
          | nil => cases hmem rfl
          | cons b q =>
            rcases hqueue b List.mem_cons_self with hb | ⟨since, hb⟩ <;>
              exact congrArg some (hsole hb)
        dsimp only
        rw [if_pos hhead]
        exact ⟨_, _, rfl⟩

end WF

end NxCacheServer.Server.ProbeCache
