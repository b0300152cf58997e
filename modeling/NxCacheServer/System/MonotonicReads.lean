import NxCacheServer.Server.LockOrder
import NxCacheServer.Server.SingleFlight
import NxCacheServer.System.ErrorFree
import NxCacheServer.System.ReadYourWrites

/-!
# Monotonic reads on one instance

A GET that is answered 200 has its evidence from the cell of a slot. That
evidence is good for the readers to come only if they find it: if the map still
has the slot when its cell is set, or has a seed in its place. The cache counts
on it: a slot older than `UNRESOLVED_TTL` is garbage, since no probe can still
be running on it. Where that is true (`Prompt`), the key is guarded from the
first GET on that is answered 200; `backwards` is a run where it is not.

`Settled` is the invariant. As long as the key is not held, the map has the newest of
its slots and no probe can be running on an older one; the first reader that finds
the object sets the cell of that newest slot, and from then on `Guarded` of
`NxCacheServer.System.ReadYourWrites` takes over.

The step lemmas follow the fields of `Settled`. The one with an argument in it is
`held_of_settle`: a reader sets its cell to *present*. By `Prompt` its slot is still
young, so it is the one that the map has, and readers to come find what it has found;
or the key is held already.
-/

namespace NxCacheServer.System

open NxCacheServer.Domain NxCacheServer.Infra NxCacheServer.Server NxCacheServer.Lib

/-- Since when a task awaits S3. -/
def Task.awaitingSince : Task → Option Instant
  | .calling _ since _ _ => some since
  | _ => none

namespace World

variable [RustChar] {env : Env} {w w' : World} {l : Label} {p r : ReqId} {i : InstId} {key : Hash}

/-! ## Timing -/

/-- Since when `r` runs a probe. -/
def probingSince (env : Env) (w : World) (r : ReqId) : Option Instant :=
  ((w.caches (env.inst r)).caller r).bind Phase.probingSince

/-- Every request to S3 and every probe ends within `timeout` of its start: time
does not pass beyond that. Whoever awaits or probes has left something in the
trace. -/
def Timely (env : Env) (timeout : Duration) (w : World) : Label → Prop
  | .tick d => ∀ entry ∈ w.trace,
      (∀ since ∈ (w.tasks entry.req).awaitingSince, w.clock + d ≤ since + timeout) ∧
      ∀ since ∈ w.probingSince env entry.req, w.clock + d ≤ since + timeout
  | _ => True

instance (timeout : Duration) : (l : Label) → Decidable (Timely env timeout w l)
  | .tick d => inferInstanceAs (Decidable (∀ entry ∈ w.trace,
      (∀ since ∈ (w.tasks entry.req).awaitingSince, w.clock + d ≤ since + timeout) ∧
      ∀ since ∈ w.probingSince env entry.req, w.clock + d ≤ since + timeout))
  | .arrive _ => isTrue trivial
  | .run _ => isTrue trivial
  | .serve _ _ => isTrue trivial
  | .deliver _ => isTrue trivial
  | .cancel _ => isTrue trivial
  | .stray _ _ => isTrue trivial
  | .delete _ => isTrue trivial

/-- No probe for `key` is in flight on a slot of instance `i` that has reached
`UNRESOLVED_TTL`. -/
def Prompt (i : InstId) (key : Hash) (w : World) : Prop :=
  ∀ c s since, (w.caches i).caller c = some (.probing s since) →
    ((w.caches i).arena s).hash = key → w.clock < ((w.caches i).arena s).created + unresolvedTtl

/-! ## The map of a running system -/

/-- What a step of the system does to the map of an instance. -/
theorem Linked.touches (hw : Linked env w) (h : w.step env l = some w') (i : InstId) :
    ∃ cl done, CacheState.Touches ⟨w.clock, w.caches i, []⟩ cl ⟨w'.clock, w'.caches i, done⟩ ∧
      ∀ now, cl.stamp = some now → now ≤ w.clock := by
  rcases hw.cache_of_step h i [] with ⟨hcache, -⟩ | ⟨cl, done, hst⟩
  · refine ⟨.tick 0, [], ?_, fun _ hno => by cases hno⟩
    rw [hcache]
    exact .kept rfl rfl (fun _ => rfl) (fun _ => rfl) fun _ _ h => h
  · exact ⟨cl, done, CacheState.touches_of_step (hw.wf i) hst,
      fun _ hl => CacheState.stamp_le_of_step hst hl⟩

omit [RustChar] in
/-- A young slot is live for every timestamp there may be. -/
theorem young_live {cache : ProbeCache} {clock now : Instant} {s : SlotId}
    (hs : cache.Young clock s) (hnow : now ≤ clock) : (cache.arena s).live now = true := by
  obtain ⟨-, hnone, hage⟩ := hs
  exact Slot.live_eq.mpr (Or.inl ⟨hnone, Nat.lt_of_le_of_lt hnow hage⟩)

/-! ## What readers have found -/

/-- A reader that has found the object, and has told its slot if it probed. -/
def Found (g : Session) : Prop :=
  g.shared = some true ∨ g.probe = some (.ok ()) ∧ g.permit = false

omit [RustChar] in
/-- A reader finds the object in a cell, or by its own look. -/
theorem learn_found {g : Session} {e : Act} {resp : e.Resp} {role : Role} {body : Body}
    (ha : g.Allows role body e) (hrole : role = .reader key) (h : Found (g.learn e resp)) :
    Found g ∨ (∃ s, (⟨e, resp⟩ : TaskEvent) = ⟨.acquire s, .initialized true⟩) ∨
      ∃ s, (⟨e, resp⟩ : TaskEvent) = ⟨.settle s (some true), ()⟩ := by
  subst hrole
  cases e with
  | s3 call =>
    cases call with
    | headObject key' =>
      -- whoever probes still holds its permit
      rcases h with hshared | ⟨-, hpermit⟩
      · exact Or.inl (Or.inl hshared)
      · have hgone : g.permit = false := hpermit
        rw [ha.2.1] at hgone
        cases hgone
    | getObject key' => exact Or.inl h
    | _ => exact absurd ha not_false
  | acquire s =>
    obtain ⟨-, -, hshared, hprobe⟩ := ha
    cases resp with
    | initialized v =>
      cases v with
      | true => exact Or.inr (Or.inl ⟨s, rfl⟩)
      | false =>
        rcases h with hno | ⟨hno, -⟩
        · cases hno
        · rw [show g.probe = _ from hno] at hprobe
          cases hprobe
    -- with the permit it has found nothing yet
    | permit =>
      rcases h with hno | ⟨-, hno⟩
      · rw [show g.shared = _ from hno] at hshared
        cases hshared
      · cases hno
  | settle s value =>
    obtain ⟨-, -, reply, hreply, rfl⟩ := ha
    rcases h with hshared | ⟨hprobe, -⟩
    · exact Or.inl (Or.inl hshared)
    · rw [show g.probe = _ from hprobe] at hreply
      cases hreply
      exact Or.inr (Or.inr ⟨s, rfl⟩)
  | now => exact Or.inl h
  | slot hash now => exact Or.inl h
  | log line => exact Or.inl h
  | _ => exact absurd ha not_false

/-- A reader fetches the object only after it has found it. -/
theorem found_before_got (ht : Tracks env w) (hrole : env.role r = .reader key) :
    (w.session env r).got ≠ none →
      (w.session env r).shared = some true ∨ (w.session env r).probe = some (.ok ()) := by
  refine ht.session_invariant (I := fun g => g.got ≠ none →
    g.shared = some true ∨ g.probe = some (.ok ())) r (fun hno => absurd rfl hno) ?_
  intro g e resp hg ha hgot
  rw [hrole] at ha
  cases e with
  | s3 call =>
    cases call with
    | headObject key' =>
      have hnone : g.probe = none := ha.2.2
      rcases hg hgot with hshared | hprobe
      · exact Or.inl hshared
      · rw [hnone] at hprobe
        cases hprobe
    | getObject key' => exact ha.2.2
    | _ => exact absurd ha not_false
  -- it enters its cell before it fetches, so it has fetched nothing
  | acquire s =>
    obtain ⟨-, -, hshared, hprobe⟩ := ha
    have hbefore : g.got ≠ none := by cases resp <;> exact hgot
    rcases hg hbefore with hno | hno
    · rw [hshared] at hno
      cases hno
    · rw [hprobe] at hno
      cases hno
  | now => exact hg hgot
  | slot hash now => exact hg hgot
  | settle s value => exact hg hgot
  | log line => exact hg hgot
  | _ => exact absurd ha not_false

/-- A caller that has not probed has not looked anywhere. -/
theorem Stands.late {phase : Phase} (ht : Tracks env w)
    (hs : Stands (w.session env r) (env.role r) (w.caches i) phase)
    (hidle : phase.probingSince = none) : Late env w r := by
  have hpermit : (w.session env r).permit = false := by rw [hs.permit, hidle]; rfl
  -- without a permit it has not probed, and asks for nothing before it has found
  have hprobe := hs.probe hpermit
  refine ⟨?_, ?_, ?_⟩
  · rw [hprobe]
    exact (Option.some_ne_none _).symm
  · intro hgot
    rcases found_before_got ht hs.role (by rw [hgot]; exact Option.some_ne_none _) with h | h
    · rw [hs.shared] at h
      cases h
    · rw [hprobe] at h
      cases h
  · intro call since reply k htask
    have ha := ht.allows_call htask
    rw [hs.role] at ha
    cases call with
    | headObject key' =>
      rw [ha.2.1] at hpermit
      cases hpermit
    | getObject key' =>
      rcases ha.2.2 with h | h
      · rw [hs.shared] at h
        cases h
      · rw [hprobe] at h
        cases h
    | _ => exact absurd ha not_false

omit [RustChar] in
theorem writer_of_markPresent {g : Session} {role : Role} {body : Body} {hash : Hash}
    {now : Instant} (ha : g.Allows role body (.markPresent hash now)) : role = .writer hash := by
  cases role with
  | writer hash' => exact congrArg _ ha.1.symm
  | reader hash' => exact absurd ha not_false
  | refused response => exact absurd ha not_false

/-! ## The newest slot -/

/-- Instance `i` will not miss the object of `key` any more. -/
def Held (env : Env) (i : InstId) (key : Hash) (w : World) : Prop :=
  ∃ s₀, Guarded env i key s₀ w

/-- The object will not be missed later either. -/
theorem Held.step (hw : Held env i key w) (h : w.step env l = some w') (hl : l.Keeps) :
    Held env i key w' := by
  obtain ⟨s₀, hguarded⟩ := hw
  exact ⟨s₀, hguarded.step h hl⟩

/-- The map has the newest slot of `key`, and that is the only one young enough
for a probe, as long as the key is not held. Whoever has found the object holds
it. -/
structure Settled (env : Env) (i : InstId) (key : Hash) (w : World) : Prop where
  linked : Linked env w
  evident : Evident env w
  newest : ∀ {s e}, s < (w.caches i).fresh → ((w.caches i).arena s).hash = key →
    (w.caches i).entry key = some e → s ≤ e
  covered : ∀ {s}, (w.caches i).Young w.clock s → ((w.caches i).arena s).hash = key →
    (w.caches i).entry key = some s ∨ Held env i key w
  values : ∀ {s}, s < (w.caches i).fresh → ((w.caches i).arena s).hash = key →
    (w.caches i).value s = some true → Held env i key w
  readers : ∀ {r}, env.inst r = i → env.role r = .reader key → Found (w.session env r) →
    Held env i key w

theorem settled_init {objects : Hash → Option Bytes} : Settled env i key (init objects) where
  linked := linked_init
  evident := evident_init
  newest h := absurd h (Nat.not_lt_zero _)
  covered h := absurd h.1 (Nat.not_lt_zero _)
  values h := absurd h (Nat.not_lt_zero _)
  readers _ _ h := by rcases h with h | ⟨h, -⟩ <;> cases h

namespace Settled

variable (hw : Settled env i key w) (h : w.step env l = some w') (hl : l.Keeps)

include hw h hl

/-- A probe that ends in *present* on the slot the map has. -/
theorem guarded_of_settle {s : SlotId} {since : Instant} (hi : env.inst r = i)
    (hc : (w.caches i).caller r = some (.probing s since))
    (hhash : ((w.caches i).arena s).hash = key) (hentry : (w.caches i).entry key = some s)
    (hfinish : (w.caches i).finish r (some true) = some (w'.caches i)) (hbound : w.Bound key) :
    Guarded env i key s w' := by
  obtain ⟨s', since', hc', hcache⟩ := ProbeCache.finish_cases hfinish
  rw [hc] at hc'
  cases hc'
  have hlinked := hw.linked.step h
  have hfresh : (w'.caches i).fresh = (w.caches i).fresh := by rw [hcache]; rfl
  have hvalue : (w'.caches i).value s = some true := by
    rw [hcache, ProbeCache.value_setCaller, ProbeCache.value_setCell, if_pos rfl]
    rfl
  -- the slot of the map is the newest of its key, so it is the only one from `s` on
  have hnewest : ∀ {s'}, s ≤ s' → s' < (w'.caches i).fresh →
      ((w'.caches i).arena s').hash = key → s' = s := by
    intro s' hle hlt hhash'
    rw [hfresh] at hlt
    rw [(ProbeCache.Extends.finish hfinish).hash hlt] at hhash'
    exact Nat.le_antisymm (hw.newest hlt hhash' hentry) hle
  refine ⟨hlinked, hbound.step h hl.ne_delete, ?_, ?_, ?_, ?_⟩
  · rw [hfresh]
    exact Nat.le_of_lt ((hw.linked.wf i).caller_lt hc)
  · intro s' hentry'
    rw [hcache] at hentry'
    have heq : some s = some s' := hentry.symm.trans hentry'
    exact Nat.le_of_eq (Option.some.inj heq)
  · intro s' hle hlt hhash' hno
    rw [hnewest hle hlt hhash', hvalue] at hno
    cases hno
  · intro r' phase hc' hle hrole'
    have hi' : env.inst r' = i := hlinked.inst_of_caller hc'
    subst hi'
    have hstands := hlinked.inside hc'
    have hslot : phase.slot = s := by
      refine hnewest hle ((hlinked.wf _).caller_lt hc') ?_
      have heq := hstands.role.symm.trans hrole'
      injection heq
    refine hstands.late hlinked.tracks ?_
    cases phase with
    | holding _ => rfl
    | queued _ => rfl
    | probing s' since' =>
      -- nobody probes on a cell that is set
      have hnone := ((hlinked.wf _).probing_head hc').1
      rw [show s' = s from hslot, hvalue] at hnone
      cases hnone

/-- A probe that ends in *present* holds its key, since its slot is still
young. -/
theorem held_of_settle (hprompt : Prompt i key w) {s s' : SlotId} {since : Instant}
    {k : Unit → Async Response} (hi : env.inst r = i)
    (htask : w.tasks r = .ready (.act (.settle s' (some true)) k))
    (hc : (w.caches i).caller r = some (.probing s since))
    (hhash : ((w.caches i).arena s).hash = key)
    (hfinish : (w.caches i).finish r (some true) = some (w'.caches i)) : Held env i key w' := by
  have hrole : env.role r = .reader key := by
    subst hi
    rw [(hw.linked.inside hc).role]
    exact congrArg _ hhash
  have ha := hw.linked.tracks.allows htask
  rw [hrole] at ha
  obtain ⟨-, -, reply, hreply, hverdict⟩ := ha
  have hprobe : (w.session env r).probe = some (.ok ()) := by
    rw [hreply, Session.verdict_eq_true.mp hverdict.symm]
  have hbound : w.Bound key := hw.evident.sessions (by rw [hrole]; rfl) (Or.inl hprobe)
  -- here the timeout of the probe comes in: its slot is still young
  have hyoung : (w.caches i).Young w.clock s :=
    ⟨(hw.linked.wf i).caller_lt hc, ((hw.linked.wf i).probing_head hc).1,
      hprompt r s since hc hhash⟩
  rcases hw.covered hyoung hhash with hentry | hheld
  · exact ⟨s, hw.guarded_of_settle h hl hi hc hhash hentry hfinish hbound⟩
  · exact hheld.step h hl

/-- Whoever sets a cell of the key to *present* holds it. -/
theorem step_values (hprompt : Prompt i key w) {s : SlotId} (hs : s < (w'.caches i).fresh)
    (hhash : ((w'.caches i).arena s).hash = key) (hv : (w'.caches i).value s = some true) :
    Held env i key w' := by
  cases cacheMoves_of_step h i with
  | stays hcache =>
    rw [hcache] at hs hhash hv
    exact (hw.values hs hhash hv).step h hl
  | @acts r e resp k hi htask hact =>
    rcases hact.value_cases hs hv with ⟨hs', hv'⟩ | ⟨rfl, -, hash, now, rfl⟩ |
      ⟨⟨since, hc⟩, s', rfl⟩
    · rw [hact.grows.hash hs'] at hhash
      exact (hw.values hs' hhash hv').step h hl
    · -- a seed, put in by a writer of the key
      have hcache := hact.seeds
      have hrole := writer_of_markPresent (hw.linked.tracks.allows htask)
      rw [hcache, ProbeCache.markPresent, ProbeCache.arena_insert, ProbeCache.fresh_sweep,
        if_pos rfl] at hhash
      rw [show hash = key from hhash] at hrole hcache htask
      subst hi
      exact ⟨_, guarded_of_mark hw.linked hw.evident h hl hrole htask hcache⟩
    · have hlt : s < (w.caches i).fresh := (hw.linked.wf i).caller_lt hc
      rw [hact.grows.hash hlt] at hhash
      exact hw.held_of_settle h hl hprompt hi htask hc hhash hact.finishes
  | @cancels r hi hcache =>
    rw [hcache] at hs hhash hv
    rw [ProbeCache.fresh_cancel] at hs
    rw [ProbeCache.hash_cancel] at hhash
    rw [ProbeCache.value_cancel] at hv
    exact (hw.values hs hhash hv).step h hl

omit hl in
/-- A slot goes into the map when it is made. -/
theorem step_newest {s e : SlotId} (hs : s < (w'.caches i).fresh)
    (hhash : ((w'.caches i).arena s).hash = key) (hentry : (w'.caches i).entry key = some e) :
    s ≤ e := by
  obtain ⟨cl, done, htouches, -⟩ := hw.linked.touches h i
  cases htouches with
  | kept hfresh hslots hhash' _ _ =>
    rw [ProbeCache.entry, hslots] at hentry
    exact hw.newest (hfresh ▸ hs) ((hhash' s).symm.trans hhash) hentry
  | @inserted hash now p _ _ hfresh hslots harena =>
    rw [CacheState.entry_of_slots hslots] at hentry
    rw [hfresh] at hs
    rw [harena] at hhash
    by_cases hk : key = hash
    · rw [if_pos hk] at hentry
      rw [← Option.some.inj hentry]
      exact Nat.le_of_lt_succ hs
    · rw [if_neg hk] at hentry
      split at hhash
      next => exact absurd hhash.symm hk
      next hne =>
        -- another key is inserted: the slot in the map is the one from before
        have hold : (w.caches i).entry key = some e := by
          rcases (w.caches i).entry_sweep now key with heq | ⟨hnone, -⟩
          · exact heq.symm.trans hentry
          · rw [hnone] at hentry
            cases hentry
        exact hw.newest (Nat.lt_of_le_of_ne (Nat.le_of_lt_succ hs) hne) hhash hold

/-- A young empty slot is not replaced but by a seed, and not swept. -/
theorem step_covered (hprompt : Prompt i key w) {s : SlotId}
    (hs : (w'.caches i).Young w'.clock s) (hhash : ((w'.caches i).arena s).hash = key) :
    (w'.caches i).entry key = some s ∨ Held env i key w' := by
  have hclock : w.clock ≤ w'.clock := clock_of_step h
  obtain ⟨hlt, hnone, hage⟩ := hs
  obtain ⟨cl, done, htouches, hstamp⟩ := hw.linked.touches h i
  have hvalues := fun {s} => hw.step_values h hl hprompt (s := s)
  cases htouches with
  | kept hfresh hslots hhash' hcreated hvalue =>
    -- age only grows, and a value stays: the slot was young before
    have hyoung : (w.caches i).Young w.clock s := by
      refine ⟨hfresh ▸ hlt, ?_, ?_⟩
      · cases hv : (w.caches i).value s with
        | none => rfl
        | some v =>
          rw [hvalue s v hv] at hnone
          cases hnone
      · rw [← hcreated s]
        exact Nat.lt_of_le_of_lt hclock hage
    rw [ProbeCache.entry, hslots]
    exact (hw.covered hyoung ((hhash' s).symm.trans hhash)).imp_right fun hheld => hheld.step h hl
  | @inserted hash now p hcl hp hfresh hslots harena =>
    have hnow : now ≤ w.clock := hstamp now hcl
    have hslot : ((w'.caches i).arena (w.caches i).fresh) = ⟨hash, ⟨p, []⟩, now⟩ := by
      rw [harena, if_pos rfl]
    rw [CacheState.entry_of_slots hslots]
    by_cases hnew : s = (w.caches i).fresh
    · rw [hnew, hslot] at hhash
      exact Or.inl (by rw [if_pos hhash.symm, hnew])
    · have hsame : (w'.caches i).arena s = (w.caches i).arena s := by rw [harena, if_neg hnew]
      have hyoung : (w.caches i).Young w.clock s := by
        refine ⟨?_, ?_, ?_⟩
        · rw [hfresh] at hlt
          exact Nat.lt_of_le_of_ne (Nat.le_of_lt_succ hlt) hnew
        · rw [ProbeCache.value, ← hsame]
          exact hnone
        · rw [← hsame]
          exact Nat.lt_of_le_of_lt hclock hage
      rw [hsame] at hhash
      rcases hw.covered hyoung hhash with hentry | hheld
      · have hlive := young_live hyoung hnow
        by_cases hk : key = hash
        · -- only a seed takes the place of a live slot
          subst hk
          rcases hp with ⟨-, hdead⟩ | rfl
          · rw [hdead s hentry] at hlive
            cases hlive
          · refine Or.inr (hvalues (s := (w.caches i).fresh) ?_ ?_ ?_)
            · rw [hfresh]
              exact Nat.lt_succ_self _
            · rw [hslot]
            · rw [ProbeCache.value, hslot]
        · rw [if_neg hk]
          rcases (w.caches i).entry_sweep now key with heq | ⟨-, s', hs', hdead⟩
          · exact Or.inl (heq.trans hentry)
          · rw [hentry] at hs'
            cases hs'
            rw [hdead] at hlive
            cases hlive
      · exact Or.inr (hheld.step h hl)

/-- A reader finds the object in a cell, or sets the cell itself. -/
theorem step_readers (hprompt : Prompt i key w) (hi : env.inst r = i)
    (hrole : env.role r = .reader key) (hfound : Found (w'.session env r)) : Held env i key w' := by
  have hold : Found (w.session env r) → Held env i key w' :=
    fun hfound => (hw.readers hi hrole hfound).step h hl
  cases moves_of_step h r with
  | @acts e resp k cache htask hlocal _ hhist _ hcache =>
    rw [session_snoc hhist] at hfound
    have ha := hw.linked.tracks.allows htask
    have hact := acts_of_localStep hlocal
    subst hi
    have hkey : ∀ {phase}, (w.caches (env.inst r)).caller r = some phase →
        ((w.caches (env.inst r)).arena phase.slot).hash = key := by
      intro phase hc
      have heq := (hw.linked.inside hc).role.symm.trans hrole
      injection heq
    rcases learn_found ha hrole hfound with hbefore | ⟨s, hev⟩ | ⟨s, hev⟩
    · exact hold hbefore
    · cases hev
      obtain ⟨phase, hc, hv⟩ := hact.shares
      exact (hw.values ((hw.linked.wf _).caller_lt hc) (hkey hc) hv).step h hl
    · cases hev
      have hfinish := hact.finishes
      obtain ⟨s', since, hc, -⟩ := ProbeCache.finish_cases hfinish
      rw [← hcache] at hfinish
      exact hw.held_of_settle h hl hprompt rfl htask hc (hkey hc) hfinish
  | @delivers call since reply k htask _ hhist _ =>
    rw [session_snoc hhist] at hfound
    rcases learn_found (hw.linked.tracks.allows_call htask) hrole hfound with
      hbefore | ⟨s, hev⟩ | ⟨s, hev⟩
    · exact hold hbefore
    · cases hev
    · cases hev
  | stays _ hhist | arrives _ _ hhist | calls _ _ hhist | answers _ _ hhist | serves _ _ hhist
  | drops _ hhist =>
    rw [session_congr hhist] at hfound
    exact hold hfound

/-- All of it, through one step, as long as no probe outlives its slot. -/
theorem step (hprompt : Prompt i key w) : Settled env i key w' where
  linked := hw.linked.step h
  evident := hw.evident.step h hl
  newest := hw.step_newest h
  covered := hw.step_covered h hl hprompt
  values := hw.step_values h hl hprompt
  readers := hw.step_readers h hl hprompt

end Settled

/-! ## The guarantee -/

/-- A GET that is answered 200 has found the object, and its probe is over. -/
theorem found_of_answered (ht : Tracks env w) (hrole : env.role p = .reader key)
    {response : Response} (hans : w.tasks p = .answered response) (hstatus : response.status = 200) :
    Found (w.session env p) := by
  obtain ⟨inner, rfl, hends⟩ := ht.ends (Or.inl hans)
  rw [hrole] at hends
  rw [finalize_status] at hstatus
  obtain ⟨hpermit, ⟨body, hgot, -⟩ | ⟨rfl, -⟩⟩ := hends
  · have hsome : (w.session env p).got ≠ none := by
      rw [hgot]
      exact Option.some_ne_none _
    rcases found_before_got ht hrole hsome with hshared | hprobe
    · exact Or.inl hshared
    · exact Or.inr ⟨hprobe, hpermit⟩
  · cases hstatus

/-- **Monotonic reads.** In every run in which, up to the time a GET is answered
200, no probe for its key outlives its slot on that instance, a GET of the key
that starts later on the same instance is answered 404 only if one of its own
requests to S3 fails. -/
theorem monotonic_reads {objects : Hash → Option Bytes} {ls ls' : List Label} {w₀ : World}
    (hrun : Run (World.step env) (fun w l => l.Keeps ∧ Prompt (env.inst p) key w) (init objects)
      ls w₀)
    (hfirst : env.Gets p key) {response : Response} (hans : w₀.tasks p = .answered response)
    (hstatus : response.status = 200)
    (hget : env.Gets r key) (hinst : env.inst r = env.inst p) (hstart : w₀.tasks r = .absent)
    (hrun' : Run (World.step env) (fun _ l => l.Keeps) w₀ ls' w) :
    ∀ response', w.tasks r = .answered response' → response'.status = 404 →
      (∃ t err, ⟨t, r, .did ⟨.s3 (.headObject key), Except.error (HeadError.other err)⟩⟩ ∈
        w.trace) ∨
      ∃ t err, ⟨t, r, .did ⟨.s3 (.getObject key), Except.error (GetError.other err)⟩⟩ ∈
        w.trace := by
  have hsettled : Settled env (env.inst p) key w₀ := by
    refine hrun.invariant (I := Settled env (env.inst p) key) ?_ settled_init
    intro w l w' hw hok h
    exact hw.step h hok.1 hok.2
  have hrole := Env.gets_iff.mp hfirst
  have hfound := found_of_answered hsettled.linked.tracks hrole hans hstatus
  -- from here on it is as after a write of the key
  obtain ⟨s₀, hguarded⟩ := hsettled.readers rfl hrole hfound
  rw [← hinst] at hguarded
  exact (hguarded.later hget hstart hrun').2

/-- Only GETs, all on instance 0. -/
private def onlyGets : Env := exampleEnv []

/-- A GET that finds the object. -/
def foundGet : List Label :=
  [.arrive 0, .run 0, .run 0, .run 0, .run 0, .serve 0 .answer, .deliver 0, .run 0, .run 0,
    .serve 0 .answer, .deliver 0, .run 0]

omit [RustChar] in
theorem prompt_of_firstMinute (h : w.clock < unresolvedTtl) : Prompt i key w := by
  intro c s since _ _
  exact Nat.lt_of_lt_of_le h (Nat.le_add_left _ _)

omit [RustChar] in
theorem failedGet_after_foundGet :
    ∃ w, Run (@World.step asciiChars onlyGets) (fun _ l => l.Keeps)
        (init fun key => if key = "abc" then some [1, 2, 3] else none) (foundGet ++ failedGet) w ∧
      ((∃ t err, ⟨t, 1, .did ⟨.s3 (.headObject "abc"),
          Except.error (HeadError.other err)⟩⟩ ∈ w.trace) ∨
        ∃ t err, ⟨t, 1, .did ⟨.s3 (.getObject "abc"),
          Except.error (GetError.other err)⟩⟩ ∈ w.trace) := by
  let _ : RustChar := asciiChars
  obtain ⟨w₀, hrun, hfound, hstart, hrest⟩ : ∃ w₀,
      Run (World.step onlyGets) (fun w l => l.Keeps ∧ Prompt 0 "abc" w)
        (init fun key => if key = "abc" then some [1, 2, 3] else none) foundGet w₀ ∧
      (w₀.tasks 0).response = some ⟨200, some "application/octet-stream", some "close",
        .object ⟨[1, 2, 3], none⟩⟩ ∧
      w₀.tasks 1 = .absent ∧
      (exec (World.step onlyGets) (fun _ (l : Label) => decide l.Keeps) w₀ failedGet).any (fun w =>
        (w.tasks 1).response =
          some ⟨404, some "text/plain", some "close", .text "The record was not found"⟩) =
        true :=
    exists_run_of_exec
      (fun w l h => (of_decide_eq_true h).imp_right prompt_of_firstMinute)
      (show (exec _ (fun (w : World) (l : Label) => decide (l.Keeps ∧ w.clock < unresolvedTtl))
        _ _).any _ = true by decide)
  obtain ⟨w, hrun', hfailed⟩ := exists_run_of_exec (fun _ _ h => of_decide_eq_true h) hrest
  rw [Task.response_eq_some] at hfound hfailed
  refine ⟨w, (hrun.mono fun _ _ h => h.1).trans hrun', ?_⟩
  have hfirst : onlyGets.Gets 0 "abc" := Env.gets_example rfl
  have hget : onlyGets.Gets 1 "abc" := Env.gets_example rfl
  exact monotonic_reads hrun hfirst hfound rfl hget rfl hstart hrun' _ hfailed rfl

/-- Four GETs on instance 0, a PUT on instance 1. -/
private def writerElsewhere : Env :=
  exampleEnv [(0, exampleGet), (0, exampleGet), (0, exampleGet), (1, examplePut [1, 2, 3])]

/-- A slot is made at 0 s and its probe fails; a GET retries on it at 59 s, and
another makes a new slot at 60 s and finds nothing. Then the object is stored on
instance 1, and the retry finds it. -/
def backwards : List Label :=
  [.arrive 0, .run 0, .run 0, .run 0, .run 0, .serve 0 (.fail ⟨none, none, "TimeoutError"⟩),
    .deliver 0, .run 0, .run 0, .run 0,
    .tick (fromSecs 59), .arrive 1, .run 1, .run 1, .run 1, .run 1,
    .tick (fromSecs 1), .arrive 2, .run 2, .run 2, .run 2, .run 2, .serve 2 .answer,
    .arrive 3, .run 3, .serve 3 .answer, .deliver 3, .run 3, .run 3, .run 3, .serve 3 .answer,
    .deliver 3, .run 3, .run 3, .run 3,
    .serve 1 .answer, .deliver 1, .run 1, .run 1, .serve 1 .answer, .deliver 1, .run 1]

/-- The next GET waits on the new slot, and is told what was found there. -/
def afterwards : List Label :=
  [.arrive 4, .run 4, .run 4, .run 4, .deliver 2, .run 2, .run 4, .run 4]

omit [RustChar] in
/-- With an `S3_TIMEOUT` of 30 s, a GET is answered 200, and the next one on the
same instance 404, though S3 answers everything from then on. -/
theorem backwards_notFound :
    fromSecs 30 ≤ unresolvedTtl ∧ ∃ w₀ w,
      Run (@World.step asciiChars writerElsewhere)
        (fun w l => l.Keeps ∧ Timely writerElsewhere (fromSecs 30) w l) (init fun _ => none)
        backwards w₀ ∧
      @Env.Gets asciiChars writerElsewhere 1 "abc" ∧
      (w₀.tasks 1).response.map Response.status = some 200 ∧
      @Env.Gets asciiChars writerElsewhere 4 "abc" ∧
      writerElsewhere.inst 4 = writerElsewhere.inst 1 ∧ w₀.tasks 4 = .absent ∧
      Run (@World.step asciiChars writerElsewhere)
        (fun w l => (l.Keeps ∧ l.ErrorFree) ∧ Timely writerElsewhere (fromSecs 30) w l) w₀
        afterwards w ∧
      (w.tasks 4).response.map Response.status = some 404 := by
  let _ : RustChar := asciiChars
  refine ⟨by decide, ?_⟩
  obtain ⟨w₀, hrun, hfound, hstart, hrest⟩ : ∃ w₀,
      Run (World.step writerElsewhere)
        (fun w l => l.Keeps ∧ Timely writerElsewhere (fromSecs 30) w l) (init fun _ => none)
        backwards w₀ ∧
      (w₀.tasks 1).response.map Response.status = some 200 ∧ w₀.tasks 4 = .absent ∧
      (exec (World.step writerElsewhere) (fun w (l : Label) =>
        decide ((l.Keeps ∧ l.ErrorFree) ∧ Timely writerElsewhere (fromSecs 30) w l)) w₀
          afterwards).any (fun w => (w.tasks 4).response.map Response.status = some 404) = true :=
    exists_run_of_exec (fun _ _ h => of_decide_eq_true h)
      (show (exec _ (fun (w : World) (l : Label) =>
        decide (l.Keeps ∧ Timely writerElsewhere (fromSecs 30) w l)) _ _).any _ = true by decide)
  obtain ⟨w, hrun', hmissed⟩ := exists_run_of_exec (fun _ _ h => of_decide_eq_true h) hrest
  exact ⟨w₀, w, hrun, Env.gets_example rfl, hfound, Env.gets_example rfl, rfl, hstart, hrun',
    hmissed⟩

end World

end NxCacheServer.System
