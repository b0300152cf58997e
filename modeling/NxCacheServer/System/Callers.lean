import NxCacheServer.Server.CacheRun
import NxCacheServer.System.Sessions

/-!
# Requests as callers of their cache

The cache of an instance knows its callers by their phase, a session knows what
it has done: `Linked` says that the two agree. With it every step of the system
is, for each instance, a step of its cache or none (`cache_of_step`), so the
cache of a running system is a `CacheState` that a run of its own has reached.

`Stands` compares the two views: a caller that holds the permit is one that has been
given it and has not settled, a caller that waits has learnt nothing of the cell yet,
and both are on the slot they were given. Since a request is a caller on its own
instance only, a step concerns one cache (`CacheMoves`).

The order is that of the argument:
- `Acts` has a case for each thing a local action can do to a cache, and the lemmas
  after it say what that means for callers, probes, values and entries; `localStep`
  is not looked at again;
- `Early` says that a reader knows nothing before it has been given a slot, so that
  nobody who is outside of the cache claims to have been inside;
- each field of `Linked` is kept by a lemma of its own, and `Linked.step` puts them
  together;
- `cache_of_run` builds the run of a cache along the run of the system. The
  timestamps in it are those the requests have read, and a session never has one
  that is later than the clock (`Linked.stamp`).
-/

namespace NxCacheServer.System

open NxCacheServer.Domain NxCacheServer.Infra NxCacheServer.Server NxCacheServer.Lib

/-! ## Local actions on a cache -/

/-- What a local action of `r` does to the cache of its instance. -/
inductive Acts (cache : ProbeCache) (r : ReqId) (clock : Instant) :
    (e : Act) → ProbeCache → Option e.Resp → Prop
  | now : Acts cache r clock .now cache (some clock)
  | timer : Acts cache r clock .timer cache (some clock)
  | slot (hash : Hash) (now : Instant) : Acts cache r clock (.slot hash now)
      (cache.call r hash now).1 (some (cache.call r hash now).2)
  | acquire (s : SlotId) {cache' : ProbeCache} {a : Acquired}
      (hpoll : cache.poll r clock = some (cache', .acquired a)) :
      Acts cache r clock (.acquire s) cache' (some a)
  | wait (s : SlotId) {cache' : ProbeCache} (hpoll : cache.poll r clock = some (cache', .pending)) :
      Acts cache r clock (.acquire s) cache' none
  | settle (s : SlotId) (value : Option Bool) {cache' : ProbeCache}
      (hfinish : cache.finish r value = some cache') :
      Acts cache r clock (.settle s value) cache' (some ())
  | markPresent (hash : Hash) (now : Instant) :
      Acts cache r clock (.markPresent hash now) (cache.markPresent hash now) (some ())
  | read (ready : Instant) (item : Item) : Acts cache r clock (.read ready item) cache (some ())
  | log (line : LogLine) : Acts cache r clock (.log line) cache (some ())

section

variable {cache cache' : ProbeCache} {r r' : ReqId} {clock : Instant} {e : Act}
  {resp : Option e.Resp}

/-- An action inside an instance is one operation on its cache. -/
theorem acts_of_localStep (h : localStep cache r clock e = some (cache', resp)) :
    Acts cache r clock e cache' resp := by
  cases e with
  | s3 call => cases h
  | now =>
    cases h
    exact .now
  | timer =>
    cases h
    exact .timer
  | slot hash now =>
    cases h
    exact .slot hash now
  | acquire s =>
    simp only [localStep] at h
    split at h
    next hpoll =>
      cases h
      exact .acquire s hpoll
    next hpoll =>
      cases h
      exact .wait s hpoll
    next => cases h
  | settle s value =>
    obtain ⟨cache'', hfinish, heq⟩ := Option.map_eq_some_iff.mp h
    cases heq
    exact .settle s value hfinish
  | markPresent hash now =>
    cases h
    exact .markPresent hash now
  | read ready item =>
    simp only [localStep] at h
    split at h
    next =>
      cases h
      exact .read ready item
    next => cases h
  | log line =>
    cases h
    exact .log line

namespace Acts

variable (h : Acts cache r clock e cache' resp)

include h

theorem grows : cache.Extends cache' := by
  cases h with
  | slot hash now => exact .call _ _ _ _
  | acquire s hpoll => exact .poll hpoll
  | wait s hpoll => exact .poll hpoll
  | settle s value hfinish => exact .finish hfinish
  | markPresent hash now => exact .markPresent _ _ _
  | _ => exact .refl _

theorem caller (hne : r' ≠ r) : cache'.caller r' = cache.caller r' := by
  cases h with
  | slot hash now => exact ProbeCache.caller_call hne
  | acquire s hpoll => exact ProbeCache.caller_poll hpoll hne
  | wait s hpoll => exact ProbeCache.caller_poll hpoll hne
  | settle s value hfinish => exact ProbeCache.caller_finish hfinish hne
  | markPresent hash now => exact ProbeCache.caller_markPresent
  | _ => rfl

theorem wf (wf : cache.WF) (hout : ∀ hash now, e = .slot hash now → cache.caller r = none) :
    cache'.WF := by
  cases h with
  | slot hash now => exact wf.call hash now (hout hash now rfl)
  | acquire s hpoll => exact wf.poll hpoll
  | wait s hpoll => exact wf.poll hpoll
  | settle s value hfinish => exact wf.finish hfinish
  | markPresent hash now => exact wf.markPresent hash now
  | _ => exact wf

/-- A caller was inside before, on the same slot, or has just asked for one. -/
theorem caller_cases {phase : Phase} (hc : cache'.caller r' = some phase) :
    (∃ before, cache.caller r' = some before ∧ before.slot = phase.slot) ∨
      r' = r ∧ ∃ hash now, e = .slot hash now ∧ phase = .holding (cache.call r hash now).2 := by
  by_cases hr : r' = r
  · subst hr
    cases h with
    | slot hash now =>
      rw [ProbeCache.caller_call_self] at hc
      exact Or.inr ⟨rfl, hash, now, rfl, (Option.some.inj hc).symm⟩
    | acquire s hpoll =>
      cases ProbeCache.poll_cases hpoll with
      | initialized hc' hv => simp at hc
      | first hc' hcell =>
        simp only [ProbeCache.caller_setCaller, if_pos] at hc
        cases hc
        exact Or.inl ⟨_, hc', rfl⟩
      | turn hc' hcell =>
        simp only [ProbeCache.caller_setCaller, if_pos] at hc
        cases hc
        exact Or.inl ⟨_, hc', rfl⟩
    | wait s hpoll =>
      cases ProbeCache.poll_cases hpoll with
      | join hc' hcell =>
        simp only [ProbeCache.caller_setCaller, if_pos] at hc
        cases hc
        exact Or.inl ⟨_, hc', rfl⟩
    | settle s value hfinish =>
      obtain ⟨s', since, -, rfl⟩ := ProbeCache.finish_cases hfinish
      simp at hc
    | markPresent hash now =>
      rw [ProbeCache.caller_markPresent] at hc
      exact Or.inl ⟨phase, hc, rfl⟩
    | _ => exact Or.inl ⟨phase, hc, rfl⟩
  · rw [h.caller hr] at hc
    exact Or.inl ⟨phase, hc, rfl⟩

/-- A probe that runs ran before, or starts now on the slot its caller has. -/
theorem probing_cases {s : SlotId} {since : Instant}
    (hc : cache'.caller r' = some (.probing s since)) :
    cache.caller r' = some (.probing s since) ∨ since = clock ∧
      ∃ phase, cache.caller r' = some phase ∧ phase.slot = s ∧ phase.probingSince = none := by
  by_cases hr : r' = r
  · subst hr
    cases h with
    | slot hash now =>
      rw [ProbeCache.caller_call_self] at hc
      cases hc
    | acquire s₀ hpoll =>
      cases ProbeCache.poll_cases hpoll with
      | initialized hc' hv => simp at hc
      | first hc' hcell =>
        simp only [ProbeCache.caller_setCaller, if_pos] at hc
        cases hc
        exact Or.inr ⟨rfl, _, hc', rfl, rfl⟩
      | turn hc' hcell =>
        simp only [ProbeCache.caller_setCaller, if_pos] at hc
        cases hc
        exact Or.inr ⟨rfl, _, hc', rfl, rfl⟩
    | wait s₀ hpoll =>
      cases ProbeCache.poll_cases hpoll with
      | join hc' hcell =>
        simp only [ProbeCache.caller_setCaller, if_pos] at hc
        cases hc
    | settle s₀ value hfinish =>
      obtain ⟨s', since', -, rfl⟩ := ProbeCache.finish_cases hfinish
      simp at hc
    | markPresent hash now =>
      rw [ProbeCache.caller_markPresent] at hc
      exact Or.inl hc
    | _ => exact Or.inl hc
  · rw [h.caller hr] at hc
    exact Or.inl hc

/-- Where the value of a cell comes from. -/
theorem value_cases {s : SlotId} {v : Bool} (hs : s < cache'.fresh)
    (hv : cache'.value s = some v) :
    s < cache.fresh ∧ cache.value s = some v ∨
    s = cache.fresh ∧ v = true ∧ (∃ hash now, e = .markPresent hash now) ∨
    (∃ since, cache.caller r = some (.probing s since)) ∧ ∃ s', e = .settle s' (some v) := by
  cases h with
  | slot hash now =>
    refine Or.inl ?_
    unfold ProbeCache.call at hs hv
    rcases ProbeCache.slot_cases cache hash now with ⟨s', -, -, heq⟩ | ⟨-, heq⟩
    · rw [heq] at hs hv
      exact ⟨hs, hv⟩
    · rw [heq] at hs hv
      simp only [ProbeCache.value_setCaller, ProbeCache.value_insert, ProbeCache.fresh_sweep,
        ProbeCache.fresh_setCaller, ProbeCache.fresh_insert, ProbeCache.value_sweep] at hs hv
      split at hv
      next => cases hv
      next hne => exact ⟨Nat.lt_of_le_of_ne (Nat.le_of_lt_succ hs) hne, hv⟩
  | acquire s₀ hpoll =>
    refine Or.inl ?_
    cases ProbeCache.poll_cases hpoll with
    | initialized hc hv' => exact ⟨hs, hv⟩
    | first hc hcell =>
      simp only [ProbeCache.value_setCaller, ProbeCache.value_setCell] at hv
      split at hv
      next => cases hv
      next => exact ⟨hs, hv⟩
    | turn hc hcell => exact ⟨hs, hv⟩
  | wait s₀ hpoll =>
    refine Or.inl ?_
    cases ProbeCache.poll_cases hpoll with
    | join hc hcell =>
      simp only [ProbeCache.value_setCaller, ProbeCache.value_setCell] at hv
      split at hv
      next => cases hv
      next => exact ⟨hs, hv⟩
  | settle s₀ value hfinish =>
    obtain ⟨s', since, hc, rfl⟩ := ProbeCache.finish_cases hfinish
    simp only [ProbeCache.value_setCaller, ProbeCache.value_setCell] at hv
    split at hv
    -- a settled cell is closed with the value of its prober
    next heq =>
      subst heq
      cases value with
      | none => exact Or.inl ⟨hs, hv⟩
      | some v' =>
        cases hv
        exact Or.inr (Or.inr ⟨⟨since, hc⟩, s₀, rfl⟩)
    next => exact Or.inl ⟨hs, hv⟩
  | markPresent hash now =>
    unfold ProbeCache.markPresent at hs hv
    simp only [ProbeCache.value_insert, ProbeCache.fresh_sweep, ProbeCache.fresh_insert,
      ProbeCache.value_sweep] at hs hv
    split at hv
    next heq => exact Or.inr (Or.inl ⟨heq, (Option.some.inj hv).symm, hash, now, rfl⟩)
    next hne => exact Or.inl ⟨Nat.lt_of_le_of_ne (Nat.le_of_lt_succ hs) hne, hv⟩
  | _ => exact Or.inl ⟨hs, hv⟩

/-- The map gets no slot but new ones. -/
theorem entry_cases {k : Hash} {s : SlotId} (hentry : cache'.entry k = some s) :
    cache.entry k = some s ∨ s = cache.fresh ∧ ∃ now, e = .slot k now ∨ e = .markPresent k now := by
  -- the sweep adds nothing, and the insertion its own slot
  have hinsert : ∀ {hash : Hash} (p : OnceCell) {now : Instant},
      ((cache.sweep now).insert hash p now).entry k = some s →
        cache.entry k = some s ∨ s = cache.fresh ∧ k = hash := by
    intro hash p now hk
    rw [ProbeCache.entry_insert, ProbeCache.fresh_sweep] at hk
    split at hk
    next heq => exact Or.inr ⟨(Option.some.inj hk).symm, heq⟩
    next =>
      rcases ProbeCache.entry_sweep cache now k with heq | ⟨hnone, -⟩
      · rw [heq] at hk
        exact Or.inl hk
      · rw [hnone] at hk
        cases hk
  cases h with
  | slot hash now =>
    unfold ProbeCache.call at hentry
    rcases ProbeCache.slot_cases cache hash now with ⟨s', -, -, heq⟩ | ⟨-, heq⟩
    · rw [heq] at hentry
      exact Or.inl hentry
    · rw [heq] at hentry
      rcases hinsert ⟨none, []⟩ hentry with hold | ⟨hs, rfl⟩
      · exact Or.inl hold
      · exact Or.inr ⟨hs, now, Or.inl rfl⟩
  | acquire s₀ hpoll => cases ProbeCache.poll_cases hpoll <;> exact Or.inl hentry
  | wait s₀ hpoll =>
    cases ProbeCache.poll_cases hpoll
    exact Or.inl hentry
  | settle s₀ value hfinish =>
    obtain ⟨s', since, -, rfl⟩ := ProbeCache.finish_cases hfinish
    exact Or.inl hentry
  | markPresent hash now =>
    rcases hinsert ⟨some true, []⟩ hentry with hold | ⟨hs, rfl⟩
    · exact Or.inl hold
    · exact Or.inr ⟨hs, now, Or.inr rfl⟩
  | _ => exact Or.inl hentry

omit h

theorem seeds {hash : Hash} {now : Instant} {resp : Option Unit}
    (h : Acts cache r clock (.markPresent hash now) cache' resp) :
    cache' = cache.markPresent hash now := by
  cases h
  rfl

/-- What a caller is told of its cell is its value. -/
theorem shares {s : SlotId} {v : Bool}
    (h : Acts cache r clock (.acquire s) cache' (some (.initialized v))) :
    ∃ phase, cache.caller r = some phase ∧ cache.value phase.slot = some v := by
  cases h with
  | acquire s hpoll =>
    cases ProbeCache.poll_cases hpoll with
    | initialized hc hv =>
      rcases hc with hc | hc
      · exact ⟨_, hc, hv⟩
      · exact ⟨_, hc, hv⟩

theorem finishes {s : SlotId} {value : Option Bool} {resp : Option Unit}
    (h : Acts cache r clock (.settle s value) cache' resp) :
    cache.finish r value = some cache' := by
  cases h with
  | settle s value hfinish => exact hfinish

end Acts

end

namespace World

variable [RustChar] {env : Env} {w w' : World} {l : Label} {r r' : ReqId} {i : InstId}

/-! ## Readers -/

/-- A reader without a slot has done nothing yet. -/
def Early (g : Session) : Prop :=
  g.slot = none → g.permit = false ∧ g.shared = none ∧ g.probe = none ∧ g.got = none

omit [RustChar] in
/-- A reader does nothing before it has its slot. -/
theorem Early.learn {g : Session} {e : Act} {resp : e.Resp} {hash : Hash} (hg : Early g)
    (ha : g.ReaderAllows hash e) : Early (g.learn e resp) := by
  cases e with
  | s3 call =>
    cases call with
    | headObject key =>
      intro hslot
      have hpermit := (hg hslot).1
      rw [ha.2.1] at hpermit
      cases hpermit
    | getObject key =>
      intro hslot
      obtain ⟨-, hshared, hprobe, -⟩ := hg hslot
      rcases ha.2.2 with h | h
      · rw [hshared] at h
        cases h
      · rw [hprobe] at h
        cases h
    | _ => exact absurd ha not_false
  | slot key now =>
    intro hslot
    cases hslot
  -- the two that follow need a slot
  | acquire s =>
    intro hslot
    have hnone : g.slot = none := by cases resp <;> exact hslot
    have hsome := ha.1
    rw [hnone] at hsome
    cases hsome
  | settle s v =>
    intro hslot
    have hnone : g.slot = none := hslot
    have hsome := ha.1
    rw [hnone] at hsome
    cases hsome
  | now => exact hg
  | log line => exact hg
  | _ => exact absurd ha not_false

theorem early (ht : Tracks env w) {hash : Hash} (hrole : env.role r = .reader hash) :
    Early (w.session env r) := by
  refine ht.session_invariant r (fun _ => ⟨rfl, rfl, rfl, rfl⟩) ?_
  intro g e resp hg ha
  rw [hrole] at ha
  exact hg.learn ha

/-! ## Phases and sessions -/

/-- The phase of a caller is what its session comes to. -/
structure Stands (g : Session) (role : Role) (cache : ProbeCache) (phase : Phase) : Prop where
  slot : g.slot = some phase.slot
  shared : g.shared = none
  permit : g.permit = phase.probingSince.isSome
  probe : g.permit = false → g.probe = none
  role : role = .reader (cache.arena phase.slot).hash

/-- The caches know of each request what the request knows of itself. -/
structure Linked (env : Env) (w : World) : Prop where
  tracks : Tracks env w
  wf : ∀ i, (w.caches i).WF
  outside : ∀ {i r}, env.inst r ≠ i → (w.caches i).caller r = none
  inside : ∀ {r phase}, (w.caches (env.inst r)).caller r = some phase →
    Stands (w.session env r) (env.role r) (w.caches (env.inst r)) phase
  stamp : ∀ {r t}, (w.session env r).stamp = some t → t ≤ w.clock

theorem linked_init {objects : Hash → Option Bytes} : Linked env (init objects) where
  tracks := tracks_init
  wf _ := ProbeCache.wf_empty
  outside _ := rfl
  inside h := by cases h
  stamp h := by cases h

omit [RustChar] in
/-- A caller still stands where it does when the cache has grown. -/
theorem Stands.grows {g : Session} {role : Role} {cache cache' : ProbeCache} {phase : Phase}
    (h : Stands g role cache phase) (hlt : phase.slot < cache.fresh)
    (hgrow : cache.Extends cache') : Stands g role cache' phase where
  slot := h.slot
  shared := h.shared
  permit := h.permit
  probe := h.probe
  role := by rw [hgrow.hash hlt, h.role]

/-- A request is a caller on its own instance only. -/
theorem Linked.inst_of_caller (hw : Linked env w) {phase : Phase}
    (hc : (w.caches i).caller r = some phase) : env.inst r = i := by
  by_contra hne
  rw [hw.outside hne] at hc
  cases hc

/-- A caller has its slot, so only a request without one may ask for one. -/
theorem Linked.caller_none (hw : Linked env w) (hslot : (w.session env r).slot = none) :
    (w.caches (env.inst r)).caller r = none := by
  cases hc : (w.caches (env.inst r)).caller r with
  | none => rfl
  | some phase =>
    rw [(hw.inside hc).slot] at hslot
    cases hslot

omit [RustChar] in
/-- What a caller learns from S3 leaves its phase as it is. -/
theorem Stands.reply {g : Session} {role : Role} {body : Body} {cache : ProbeCache} {phase : Phase}
    {call : S3Call} {reply : call.Reply} (h : Stands g role cache phase)
    (ha : g.Allows role body (.s3 call)) : Stands (g.learn (.s3 call) reply) role cache phase := by
  rw [h.role] at ha
  cases call with
  | headObject key =>
    refine ⟨h.slot, h.shared, h.permit, ?_, h.role⟩
    intro hno
    have hpermit : g.permit = false := hno
    rw [ha.2.1] at hpermit
    cases hpermit
  | getObject key => exact ⟨h.slot, h.shared, h.permit, h.probe, h.role⟩
  | _ => exact absurd ha not_false

/-- What a caller does itself moves its phase along. -/
theorem Linked.act (hw : Linked env w) {e : Act} {resp : e.Resp} {cache : ProbeCache}
    (ha : (w.session env r).Allows (env.role r) (env.body r) e)
    (hact : Acts (w.caches (env.inst r)) r w.clock e cache (some resp)) {phase : Phase}
    (hc : cache.caller r = some phase) :
    Stands ((w.session env r).learn e resp) (env.role r) cache phase := by
  -- a caller is a reader: other actions are not allowed it
  have hquiet : (w.caches (env.inst r)).caller r = some phase →
      (w.session env r).Allows (.reader ((w.caches (env.inst r)).arena phase.slot).hash)
        (env.body r) e := by
    intro hc
    rw [← (hw.inside hc).role]
    exact ha
  cases hact with
  | now =>
    have hs := hw.inside hc
    exact ⟨hs.slot, hs.shared, hs.permit, hs.probe, hs.role⟩
  | log line =>
    have hs := hw.inside hc
    exact ⟨hs.slot, hs.shared, hs.permit, hs.probe, hs.role⟩
  | timer => exact absurd (hquiet hc) not_false
  | read ready item => exact absurd (hquiet hc) not_false
  | markPresent hash now =>
    rw [ProbeCache.caller_markPresent] at hc
    exact absurd (hquiet hc) not_false
  | slot hash now =>
    cases hrole : env.role r with
    | writer key =>
      rw [hrole] at ha
      exact absurd ha not_false
    | refused response =>
      rw [hrole] at ha
      exact absurd ha not_false
    | reader key =>
      rw [hrole] at ha
      obtain ⟨rfl, hslot, -⟩ := ha
      obtain ⟨hpermit, hshared, hprobe, -⟩ := early hw.tracks hrole hslot
      rw [ProbeCache.caller_call_self] at hc
      cases hc
      exact ⟨rfl, hshared, hpermit, fun _ => hprobe,
        congrArg _ ((hw.wf _).hash_call r hash now).symm⟩
  | acquire s hpoll =>
    cases ProbeCache.poll_cases hpoll with
    -- it leaves with the value, and stands nowhere
    | initialized hc' hv => simp at hc
    | @first s hc' hcell =>
      have hs := hw.inside hc'
      have hgrow := ProbeCache.Extends.poll hpoll
      have hhash := hgrow.hash ((hw.wf _).caller_lt hc')
      simp only [ProbeCache.caller_setCaller, if_pos] at hc
      cases hc
      exact ⟨hs.slot, hs.shared, rfl, (fun hno => by cases hno), by rw [hs.role]; exact congrArg _ hhash.symm⟩
    | @turn s q hc' hcell =>
      have hs := hw.inside hc'
      simp only [ProbeCache.caller_setCaller, if_pos] at hc
      cases hc
      exact ⟨hs.slot, hs.shared, rfl, (fun hno => by cases hno), hs.role⟩
  | settle s value hfinish =>
    obtain ⟨s', since, -, rfl⟩ := ProbeCache.finish_cases hfinish
    simp at hc

theorem Linked.wait (hw : Linked env w) {e : Act} {cache : ProbeCache}
    (hact : Acts (w.caches (env.inst r)) r w.clock e cache none) {phase : Phase}
    (hc : cache.caller r = some phase) :
    Stands (w.session env r) (env.role r) cache phase := by
  cases hact with
  | wait s hpoll =>
    cases ProbeCache.poll_cases hpoll with
    | join hc' hcell =>
      have hs := hw.inside hc'
      have hhash := (ProbeCache.Extends.poll hpoll).hash ((hw.wf _).caller_lt hc')
      simp only [ProbeCache.caller_setCaller, if_pos] at hc
      cases hc
      exact ⟨hs.slot, hs.shared, hs.permit, hs.probe, by rw [hs.role]; exact congrArg _ hhash.symm⟩

/-- A slot is asked for by a reader that is not in the cache yet. -/
theorem Linked.outside_of_slot (hw : Linked env w) {hash : Hash} {now : Instant}
    (ha : (w.session env r).Allows (env.role r) (env.body r) (.slot hash now)) :
    (w.caches (env.inst r)).caller r = none := by
  refine hw.caller_none ?_
  cases hrole : env.role r with
  | reader key =>
    rw [hrole] at ha
    exact ha.2.1
  | writer key =>
    rw [hrole] at ha
    exact absurd ha not_false
  | refused response =>
    rw [hrole] at ha
    exact absurd ha not_false

omit [RustChar] in
/-- A slot is asked for with the timestamp taken before. -/
theorem stamp_of_slot {g : Session} {role : Role} {body : Body} {hash : Hash} {now : Instant}
    (ha : g.Allows role body (.slot hash now)) : g.stamp = some now := by
  cases role with
  | reader key => exact ha.2.2
  | writer key => exact absurd ha not_false
  | refused response => exact absurd ha not_false

omit [RustChar] in
theorem stamp_of_markPresent {g : Session} {role : Role} {body : Body} {hash : Hash}
    {now : Instant} (ha : g.Allows role body (.markPresent hash now)) : g.stamp = some now := by
  cases role with
  | writer key => exact ha.2.1
  | reader key => exact absurd ha not_false
  | refused response => exact absurd ha not_false

/-- What a step does to the cache of an instance. -/
inductive CacheMoves (env : Env) (w w' : World) (i : InstId) : Prop
  | stays (hcache : w'.caches i = w.caches i)
  | acts {r : ReqId} {e : Act} {resp : Option e.Resp} {k : e.Resp → Async Response}
      (hi : env.inst r = i) (htask : w.tasks r = .ready (.act e k))
      (hact : Acts (w.caches i) r w.clock e (w'.caches i) resp)
  | cancels {r : ReqId} (hi : env.inst r = i) (hcache : w'.caches i = (w.caches i).cancel r)

/-- What a step does to the cache of one instance. -/
theorem cacheMoves_of_step (h : w.step env l = some w') (i : InstId) : CacheMoves env w w' i := by
  cases step_cases h with
  | @act r e k cache resp htask hl =>
    by_cases hi : i = env.inst r
    · have hact := acts_of_localStep hl
      exact .acts hi.symm htask (by simpa [hi] using hact)
    · exact .stays (by simp [hi])
  | @wait r e k cache htask hl =>
    by_cases hi : i = env.inst r
    · have hact := acts_of_localStep hl
      exact .acts hi.symm htask (by simpa [hi] using hact)
    · exact .stays (by simp [hi])
  | @cancelReady r p htask =>
    by_cases hi : i = env.inst r
    · exact .cancels hi.symm (by simp [hi])
    · exact .stays (by simp [hi])
  | @cancelCalling r call since k htask =>
    by_cases hi : i = env.inst r
    · exact .cancels hi.symm (by simp [hi])
    · exact .stays (by simp [hi])
  | @cancelServed r call since reply k htask =>
    by_cases hi : i = env.inst r
    · exact .cancels hi.symm (by simp [hi])
    · exact .stays (by simp [hi])
  | _ => exact .stays rfl

/-- The slots of an instance are only added to. -/
theorem extends_of_step (h : w.step env l = some w') (i : InstId) :
    (w.caches i).Extends (w'.caches i) := by
  cases cacheMoves_of_step h i with
  | stays hcache =>
    rw [hcache]
    exact .refl _
  | acts _ _ hact => exact hact.grows
  | cancels _ hcache =>
    rw [hcache]
    exact .cancel _ _

omit [RustChar] in
/-- A timestamp is what the clock has answered. -/
theorem learn_stamp {g : Session} {e : Act} {resp : e.Resp} {t : Instant}
    (h : (g.learn e resp).stamp = some t) :
    g.stamp = some t ∨ (⟨e, resp⟩ : TaskEvent) = ⟨.now, t⟩ := by
  unfold Session.learn at h
  split at h
  case h_12 t' => exact Or.inr (by rw [Option.some.inj h])
  all_goals exact Or.inl h

namespace Linked

variable (hw : Linked env w) (h : w.step env l = some w')

include hw h

theorem step_wf (i : InstId) : (w'.caches i).WF := by
  cases cacheMoves_of_step h i with
  | stays hcache =>
    rw [hcache]
    exact hw.wf i
  | @acts r e resp k hi htask hact =>
    refine hact.wf (hw.wf i) ?_
    intro hash now he
    subst he
    rw [← hi]
    exact hw.outside_of_slot (hw.tracks.allows htask)
  | @cancels r hi hcache =>
    rw [hcache]
    exact (hw.wf i).cancel r

theorem step_outside (hi : env.inst r ≠ i) : (w'.caches i).caller r = none := by
  have hout := hw.outside hi
  cases cacheMoves_of_step h i with
  | stays hcache => rw [hcache, hout]
  | acts hi' htask hact =>
    rw [hact.caller (fun heq => hi (by rw [heq, hi'])), hout]
  | cancels hi' hcache =>
    rw [hcache, ProbeCache.caller_cancel (fun heq => hi (by rw [heq, hi'])), hout]

omit h in
/-- A caller whose own part of the cache is left alone. -/
theorem inside_of_grows {phase : Phase} (hsession : w'.session env r = w.session env r)
    (hgrow : (w.caches (env.inst r)).Extends (w'.caches (env.inst r)))
    (hcaller : (w'.caches (env.inst r)).caller r = (w.caches (env.inst r)).caller r)
    (hc : (w'.caches (env.inst r)).caller r = some phase) :
    Stands (w'.session env r) (env.role r) (w'.caches (env.inst r)) phase := by
  have hc' := hcaller.symm.trans hc
  rw [hsession]
  exact (hw.inside hc').grows ((hw.wf _).caller_lt hc') hgrow

/-- Those inside stand where their sessions say. -/
theorem step_inside {phase : Phase} (hc : (w'.caches (env.inst r)).caller r = some phase) :
    Stands (w'.session env r) (env.role r) (w'.caches (env.inst r)) phase := by
  -- a step of somebody else: the slots grow, and `r` stays where it was
  have hother : ∀ {r' cache}, r ≠ r' → w'.session env r = w.session env r →
      w'.caches = (w.setCache (env.inst r') cache).caches →
      (w.caches (env.inst r')).Extends cache →
      (cache.caller r = (w.caches (env.inst r')).caller r) →
      Stands (w'.session env r) (env.role r) (w'.caches (env.inst r)) phase := by
    intro r' cache _ hsession hcaches hgrow hcaller
    refine hw.inside_of_grows hsession ?_ ?_ hc
    · rw [hcaches, caches_setCache]
      split
      next hi => rw [hi]; exact hgrow
      next => exact .refl _
    · rw [hcaches, caches_setCache]
      split
      next hi => rw [hi]; exact hcaller
      next => rfl
  cases step_cases h with
  | @act r' e k cache resp htask hl =>
    have hact := acts_of_localStep hl
    by_cases hr : r = r'
    · subst hr
      simp only [caches_record, caches_setTask, caches_setCache, if_pos] at hc ⊢
      rw [session_did, if_pos rfl]
      exact hw.act (hw.tracks.allows htask) hact hc
    · exact hother hr (session_congr (by simp [hr])) rfl hact.grows (hact.caller hr)
  | @wait r' e k cache htask hl =>
    have hact := acts_of_localStep hl
    by_cases hr : r = r'
    · subst hr
      simp only [caches_setCache, if_pos] at hc ⊢
      exact hw.wait hact hc
    · exact hother hr rfl rfl hact.grows (hact.caller hr)
  | @deliver r' call since reply k htask =>
    by_cases hr : r = r'
    · subst hr
      rw [session_did, if_pos rfl]
      exact (hw.inside hc).reply (hw.tracks.allows_call htask)
    · exact hw.inside_of_grows (session_congr (by simp [hr])) (.refl _) rfl hc
  | @cancelReady r' p htask =>
    by_cases hr : r = r'
    · subst hr
      simp [ProbeCache.caller_cancel_self] at hc
    · exact hother hr rfl rfl (.cancel _ _) (ProbeCache.caller_cancel hr)
  | @cancelCalling r' call since k htask =>
    by_cases hr : r = r'
    · subst hr
      simp [ProbeCache.caller_cancel_self] at hc
    · exact hother hr rfl rfl (.cancel _ _) (ProbeCache.caller_cancel hr)
  | @cancelServed r' call since reply k htask =>
    by_cases hr : r = r'
    · subst hr
      simp [ProbeCache.caller_cancel_self] at hc
    · exact hother hr rfl rfl (.cancel _ _) (ProbeCache.caller_cancel hr)
  | arrive htask => exact hw.inside_of_grows (session_congr (by simp)) (.refl _) rfl hc
  | answer htask => exact hw.inside_of_grows (session_congr (by simp)) (.refl _) rfl hc
  | call htask => exact hw.inside_of_grows (session_congr (by simp)) (.refl _) rfl hc
  | _ => exact hw.inside_of_grows rfl (.refl _) rfl hc

theorem step_stamp {t : Instant} (hstamp : (w'.session env r).stamp = some t) : t ≤ w'.clock := by
  have hclock : w.clock ≤ w'.clock := clock_of_step h
  have hold : (w.session env r).stamp = some t → t ≤ w'.clock :=
    fun hstamp => Nat.le_trans (hw.stamp hstamp) hclock
  cases moves_of_step h r with
  | @acts e resp k cache htask hl _ hhist _ =>
    rw [session_snoc hhist] at hstamp
    rcases learn_stamp hstamp with hbefore | hev
    · exact hold hbefore
    · cases hev
      cases hl
      exact hclock
  | @delivers call since reply k htask _ hhist _ =>
    rw [session_snoc hhist] at hstamp
    rcases learn_stamp hstamp with hbefore | hev
    · exact hold hbefore
    · cases hev
  | stays _ hhist | arrives _ _ hhist | calls _ _ hhist | answers _ _ hhist | serves _ _ hhist
  | drops _ hhist =>
    rw [session_congr hhist] at hstamp
    exact hold hstamp

theorem step : Linked env w' where
  tracks := hw.tracks.step h
  wf := hw.step_wf h
  outside := hw.step_outside h
  inside := hw.step_inside h
  stamp := hw.step_stamp h

end Linked

/-! ## The cache of a running system -/

omit [RustChar] in
/-- A local action of `r` is a step of its cache, or leaves it alone. -/
theorem cache_of_acts {cache cache' : ProbeCache} {clock : Instant} {e : Act}
    {resp : Option e.Resp} (hact : Acts cache r clock e cache' resp)
    (hslot : ∀ hash now, e = .slot hash now → cache.caller r = none ∧ now ≤ clock)
    (hmark : ∀ hash now, e = .markPresent hash now → now ≤ clock) (done : List Completion) :
    cache' = cache ∨ ∃ l done',
      CacheState.step ⟨clock, cache, done⟩ l = some ⟨clock, cache', done'⟩ := by
  cases hact with
  | slot hash now =>
    exact Or.inr ⟨.call r hash now, done, if_pos (hslot hash now rfl)⟩
  | acquire s hpoll =>
    exact Or.inr ⟨.poll r, done, by simp [CacheState.step, hpoll]⟩
  | wait s hpoll =>
    exact Or.inr ⟨.poll r, done, by simp [CacheState.step, hpoll]⟩
  | settle s value hfinish =>
    obtain ⟨s', since, hc, -⟩ := ProbeCache.finish_cases hfinish
    exact Or.inr ⟨.finish r value, ⟨s', r, value⟩ :: done,
      by simp [CacheState.step, hc, hfinish, Phase.slot]⟩
  | markPresent hash now => exact Or.inr ⟨.mark hash now, done, if_pos (hmark hash now rfl)⟩
  | _ => exact Or.inl rfl

/-- A step of the system is a step of the cache of an instance, or leaves it
alone. -/
theorem Linked.cache_of_step (hw : Linked env w) (h : w.step env l = some w') (i : InstId)
    (done : List Completion) : w'.caches i = w.caches i ∧ w'.clock = w.clock ∨
      ∃ cl done', CacheState.step ⟨w.clock, w.caches i, done⟩ cl =
        some ⟨w'.clock, w'.caches i, done'⟩ := by
  -- the instance of the request takes a step; all other caches are as they were
  have hlocal : ∀ {r e k cache} {resp : Option e.Resp}, w.tasks r = .ready (.act e k) →
      localStep (w.caches (env.inst r)) r w.clock e = some (cache, resp) → env.inst r = i →
      cache = w.caches i ∨ ∃ cl done', CacheState.step ⟨w.clock, w.caches i, done⟩ cl =
        some ⟨w.clock, cache, done'⟩ := by
    intro r e k cache resp htask hl hi
    subst hi
    have ha := hw.tracks.allows htask
    refine cache_of_acts (acts_of_localStep hl) ?_ ?_ done
    · intro hash now he
      subst he
      exact ⟨hw.outside_of_slot ha, hw.stamp (stamp_of_slot ha)⟩
    · intro hash now he
      subst he
      exact hw.stamp (stamp_of_markPresent ha)
  have hcancel : ∀ r, ∃ cl done', CacheState.step ⟨w.clock, w.caches i, done⟩ cl =
      some ⟨w.clock, (w.caches i).cancel r, done'⟩ := fun r => ⟨.cancel r, done, rfl⟩
  cases step_cases h with
  | tick d => exact Or.inr ⟨.tick d, done, rfl⟩
  | @act r e k cache resp htask hl =>
    by_cases hi : i = env.inst r
    · rcases hlocal htask hl hi.symm with heq | hstep
      · exact Or.inl ⟨by simp [← hi, heq], rfl⟩
      · exact Or.inr (by simpa [hi] using hstep)
    · exact Or.inl ⟨by simp [hi], rfl⟩
  | @wait r e k cache htask hl =>
    by_cases hi : i = env.inst r
    · rcases hlocal htask hl hi.symm with heq | hstep
      · exact Or.inl ⟨by simp [← hi, heq], rfl⟩
      · exact Or.inr (by simpa [hi] using hstep)
    · exact Or.inl ⟨by simp [hi], rfl⟩
  | @cancelReady r p htask =>
    by_cases hi : i = env.inst r
    · exact Or.inr (by simpa [hi] using hcancel r)
    · exact Or.inl ⟨by simp [hi], rfl⟩
  | @cancelCalling r call since k htask =>
    by_cases hi : i = env.inst r
    · exact Or.inr (by simpa [hi] using hcancel r)
    · exact Or.inl ⟨by simp [hi], rfl⟩
  | @cancelServed r call since reply k htask =>
    by_cases hi : i = env.inst r
    · exact Or.inr (by simpa [hi] using hcancel r)
    · exact Or.inl ⟨by simp [hi], rfl⟩
  | _ => exact Or.inl ⟨rfl, rfl⟩

/-- **Each instance runs a cache.** What any run of the system makes of the cache
of an instance, a run of that cache alone makes of it. -/
theorem cache_of_run {ok : World → Label → Prop} {objects : Hash → Option Bytes} {ls : List Label}
    (hrun : Run (World.step env) ok (init objects) ls w) (i : InstId) :
    ∃ cls done, Run CacheState.step (fun _ _ => True) CacheState.init cls
      ⟨w.clock, w.caches i, done⟩ := by
  have hall : Linked env w ∧ ∃ cls done, Run CacheState.step (fun _ _ => True) CacheState.init cls
      ⟨w.clock, w.caches i, done⟩ := by
    -- the run of the cache is built along the run of the system
    refine hrun.invariant (I := fun w => Linked env w ∧ ∃ cls done,
      Run CacheState.step (fun _ _ => True) CacheState.init cls ⟨w.clock, w.caches i, done⟩) ?_
      ⟨linked_init, [], [], .nil⟩
    intro w l w' hI _ h
    obtain ⟨hw, cls, done, hcls⟩ := hI
    refine ⟨hw.step h, ?_⟩
    rcases hw.cache_of_step h i done with ⟨hcache, hclock⟩ | ⟨cl, done', hstep⟩
    · exact ⟨cls, done, by rw [hcache, hclock]; exact hcls⟩
    · exact ⟨_, done', .snoc hcls trivial hstep⟩
  exact hall.2

end World

end NxCacheServer.System
