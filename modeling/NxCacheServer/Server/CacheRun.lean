import NxCacheServer.Lib.Run
import NxCacheServer.Server.CacheInv

/-!
# Runs of one probe cache

The cache of one instance, its clock and everything that can happen to it:
callers enter `present` (`call`), make progress (`poll`), see their probe end
(`finish`) or are dropped (`cancel`); a write seeds the map (`mark`); time
passes (`tick`). The timestamp of `call` and `mark` is read before the mutex is
taken, so it is any instant up to the current one.

There may be any number of callers, and one that has returned may call again. The
cache of an instance in a running system takes such a run
(`NxCacheServer.System.Callers`), so what holds of every run here holds there.
-/

namespace NxCacheServer.Server

open NxCacheServer.Domain NxCacheServer.Lib

/-- A probe that ended in `value` (`none` is an `Err`). -/
structure Completion where
  slot : SlotId
  caller : CallerId
  value : Option Bool
  deriving DecidableEq, Repr

/-- `completed` lists the probes that ended so far, newest first. -/
structure CacheState where
  clock : Instant
  cache : ProbeCache
  completed : List Completion

/-- What may happen to a cache. The callers are the requests of one instance. -/
inductive CacheLabel
  | tick (d : Duration)
  | call (c : CallerId) (hash : Hash) (now : Instant)
  | poll (c : CallerId)
  | finish (c : CallerId) (value : Option Bool)
  | cancel (c : CallerId)
  | mark (hash : Hash) (now : Instant)
  deriving DecidableEq, Repr

namespace CacheState

/-- A fresh cache. -/
def init : CacheState := ⟨0, .empty, []⟩

/-- One step, if it can be taken. A timestamp is never later than the clock, but it
may be older than the last one. -/
def step (st : CacheState) : CacheLabel → Option CacheState
  | .tick d => some { st with clock := st.clock + d }
  | .call c hash now =>
    if st.cache.caller c = none ∧ now ≤ st.clock then
      some { st with cache := (st.cache.call c hash now).1 }
    else none
  | .poll c => (st.cache.poll c st.clock).map fun r => { st with cache := r.1 }
  | .finish c value =>
    match st.cache.caller c, st.cache.finish c value with
    | some phase, some cache =>
      some { st with cache := cache, completed := ⟨phase.slot, c, value⟩ :: st.completed }
    | _, _ => none
  | .cancel c => some { st with cache := st.cache.cancel c }
  | .mark hash now =>
    if now ≤ st.clock then some { st with cache := st.cache.markPresent hash now } else none

/-- What a step did, by its label. -/
inductive Stepped (st : CacheState) : CacheLabel → CacheState → Prop
  | tick {d : Duration} : Stepped st (.tick d) { st with clock := st.clock + d }
  | call {c : CallerId} {hash : Hash} {now : Instant} (hc : st.cache.caller c = none)
      (hnow : now ≤ st.clock) :
      Stepped st (.call c hash now) { st with cache := (st.cache.call c hash now).1 }
  | poll {c : CallerId} {cache : ProbeCache} {r : ProbeCache.Polled}
      (hpoll : st.cache.poll c st.clock = some (cache, r)) :
      Stepped st (.poll c) { st with cache := cache }
  | finish {c : CallerId} {s : SlotId} {since : Instant} {value : Option Bool} {cache : ProbeCache}
      (hc : st.cache.caller c = some (.probing s since))
      (hfin : st.cache.finish c value = some cache) :
      Stepped st (.finish c value)
        { st with cache := cache, completed := ⟨s, c, value⟩ :: st.completed }
  | cancel {c : CallerId} : Stepped st (.cancel c) { st with cache := st.cache.cancel c }
  | mark {hash : Hash} {now : Instant} (hnow : now ≤ st.clock) :
      Stepped st (.mark hash now) { st with cache := st.cache.markPresent hash now }

/-- A step is what its label says, with the guards it has passed. -/
theorem step_cases {st st' : CacheState} {l : CacheLabel} (h : st.step l = some st') :
    Stepped st l st' := by
  cases l with
  | tick d =>
    cases h
    exact .tick
  | call c hash now =>
    rw [step] at h
    split at h
    next hok =>
      cases h
      exact .call hok.1 hok.2
    next => cases h
  | poll c =>
    obtain ⟨⟨cache, r⟩, hpoll, heq⟩ := Option.map_eq_some_iff.mp h
    cases heq
    exact .poll hpoll
  | finish c value =>
    rw [step] at h
    split at h
    next phase cache hc hfin =>
      cases h
      obtain ⟨s, since, hc', -⟩ := ProbeCache.finish_cases hfin
      rw [hc] at hc'
      cases hc'
      exact .finish hc hfin
    next => cases h
  | cancel c =>
    cases h
    exact .cancel
  | mark hash now =>
    rw [step] at h
    split at h
    next hnow =>
      cases h
      exact .mark hnow
    next => cases h

theorem step_wf {st st' : CacheState} {l : CacheLabel} (wf : st.cache.WF)
    (h : st.step l = some st') : st'.cache.WF := by
  cases step_cases h with
  | tick => exact wf
  | call hc hnow => exact wf.call _ _ hc
  | poll hpoll => exact wf.poll hpoll
  | finish hc hfin => exact wf.finish hfin
  | cancel => exact wf.cancel _
  | mark hnow => exact wf.markPresent _ _

/-- Slots keep their key and their age. -/
theorem step_extends {st st' : CacheState} {l : CacheLabel} (h : st.step l = some st') :
    st.cache.Extends st'.cache := by
  cases step_cases h with
  | tick => exact .refl _
  | call hc hnow => exact .call _ _ _ _
  | poll hpoll => exact .poll hpoll
  | finish hc hfin => exact .finish hfin
  | cancel => exact .cancel _ _
  | mark hnow => exact .markPresent _ _ _

theorem wf_of_run {ok : CacheState → CacheLabel → Prop} {ls : List CacheLabel}
    {st st' : CacheState} (hrun : Run step ok st ls st') (wf : st.cache.WF) : st'.cache.WF :=
  hrun.invariant (I := fun st => st.cache.WF) (fun _ _ _ wf _ h => step_wf wf h) wf

/-- The cache of a run from the start is well formed. -/
theorem run_wf {ok : CacheState → CacheLabel → Prop} {ls : List CacheLabel} {st : CacheState}
    (hrun : Run step ok init ls st) : st.cache.WF :=
  wf_of_run hrun ProbeCache.wf_empty

end CacheState

end NxCacheServer.Server
