import NxCacheServer.System.Callers
import NxCacheServer.System.Presence

/-!
# Read your writes

A PUT that is answered 200 or 409 has put a slot into the map of its instance
at a time when the object was there. From then on the slots of the key fall in
two parts: the older ones, which the map has forgotten and only their callers
still hold, and the newer ones, on which every probe starts after the write
(`Guarded`). A GET that starts later only ever meets the newer ones.

`Guarded` has a slot number in it, that of the seed. It is an invariant because slots
are numbered in the order they are made: the map goes from a slot to a newer one
only, so it never has one from before the seed again, and a caller on an older slot
came before the write. What is said of instances with other caches is
`NxCacheServer.System.Staleness`.

A reader that starts later is `Following`: it has been told nothing against the object
by S3 (`Late`), its slot is one from the seed on, and no cell has told it *absent*. So
its answer is 200, or one of its own requests to S3 has failed, and `failedGet` is a
run of the second kind.
-/

namespace NxCacheServer.System

open NxCacheServer.Domain NxCacheServer.Infra NxCacheServer.Server NxCacheServer.Lib

namespace World

variable [RustChar] {env : Env} {w w' : World} {l : Label} {p r : ReqId} {i : InstId} {key : Hash}
  {s₀ : SlotId}

/-- The object of `key` is there, and on instance `i` no slot of `key` from
`s₀` on knows otherwise, or will; the map has no older one. -/
structure Guarded (env : Env) (i : InstId) (key : Hash) (s₀ : SlotId) (w : World) : Prop where
  linked : Linked env w
  bound : w.Bound key
  fresh : s₀ ≤ (w.caches i).fresh
  entry : ∀ {s}, (w.caches i).entry key = some s → s₀ ≤ s
  values : ∀ {s}, s₀ ≤ s → s < (w.caches i).fresh → ((w.caches i).arena s).hash = key →
    (w.caches i).value s ≠ some false
  callers : ∀ {r phase}, (w.caches i).caller r = some phase → s₀ ≤ phase.slot →
    env.role r = .reader key → Late env w r

/-- A reader that has no slot yet has not looked anywhere. -/
theorem late_of_early (ht : Tracks env w) (hrole : env.role r = .reader key)
    (hslot : (w.session env r).slot = none) (hready : ∃ q, w.tasks r = .ready q) :
    Late env w r := by
  obtain ⟨-, -, hprobe, hgot⟩ := early ht hrole hslot
  refine ⟨?_, ?_, ?_⟩
  · rw [hprobe]
    exact (Option.some_ne_none _).symm
  · rw [hgot]
    exact (Option.some_ne_none _).symm
  · intro call since reply k htask
    obtain ⟨q, hq⟩ := hready
    rw [hq] at htask
    cases htask

namespace Guarded

variable (hw : Guarded env i key s₀ w) (h : w.step env l = some w')

include hw h

/-- A reader that came when the object was there has found nothing else. -/
theorem late_step (hrole : env.role r = .reader key) (hr : Late env w r) : Late env w' r :=
  hr.step hw.linked.tracks hw.bound (by rw [hrole]; rfl) h

theorem step_fresh : s₀ ≤ (w'.caches i).fresh :=
  Nat.le_trans hw.fresh (extends_of_step h i).fresh

theorem step_entry {s : SlotId} (hentry : (w'.caches i).entry key = some s) : s₀ ≤ s := by
  cases cacheMoves_of_step h i with
  | stays hcache =>
    rw [hcache] at hentry
    exact hw.entry hentry
  | acts _ _ hact =>
    rcases hact.entry_cases hentry with hold | ⟨rfl, -⟩
    · exact hw.entry hold
    · exact hw.fresh
  | cancels _ hcache =>
    rw [hcache, ProbeCache.entry_cancel] at hentry
    exact hw.entry hentry

/-- None of the slots since then says *absent*: whoever probes there has come late.
-/
theorem step_values {s : SlotId} (hle : s₀ ≤ s) (hs : s < (w'.caches i).fresh)
    (hhash : ((w'.caches i).arena s).hash = key) : (w'.caches i).value s ≠ some false := by
  intro hv
  cases cacheMoves_of_step h i with
  | stays hcache =>
    rw [hcache] at hs hhash hv
    exact hw.values hle hs hhash hv
  | @acts r e resp k hi htask hact =>
    rcases hact.value_cases hs hv with ⟨hs', hv'⟩ | ⟨-, hno, -⟩ | ⟨⟨since, hc⟩, s', he⟩
    · rw [hact.grows.hash hs'] at hhash
      exact hw.values hle hs' hhash hv'
    · cases hno
    · -- the probe of `r` would have to end in *absent*
      subst he
      subst hi
      have hstands := hw.linked.inside hc
      have hlt : s < (w.caches (env.inst r)).fresh := (hw.linked.wf _).caller_lt hc
      have hrole : env.role r = .reader key := by
        rw [hstands.role, ← hhash]
        exact congrArg _ (hact.grows.hash hlt).symm
      have ha := hw.linked.tracks.allows htask
      rw [hrole] at ha
      obtain ⟨-, -, reply, hreply, hverdict⟩ := ha
      refine (hw.callers hc hle hrole).probe ?_
      rw [hreply, Session.verdict_eq_false.mp hverdict.symm]
  | @cancels r hi hcache =>
    rw [hcache] at hs hhash hv
    rw [ProbeCache.fresh_cancel] at hs
    rw [ProbeCache.hash_cancel] at hhash
    rw [ProbeCache.value_cancel] at hv
    exact hw.values hle hs hhash hv

theorem step_callers {phase : Phase} (hc : (w'.caches i).caller r = some phase)
    (hle : s₀ ≤ phase.slot) (hrole : env.role r = .reader key) : Late env w' r := by
  refine hw.late_step h hrole ?_
  cases cacheMoves_of_step h i with
  | stays hcache =>
    rw [hcache] at hc
    exact hw.callers hc hle hrole
  | @acts r' e resp k hi htask hact =>
    rcases hact.caller_cases hc with ⟨before, hbefore, hslot⟩ | ⟨rfl, hash, now, rfl, -⟩
    · exact hw.callers hbefore (by rw [hslot]; exact hle) hrole
    -- a caller that has just got its slot has done nothing yet
    · have ha := hw.linked.tracks.allows htask
      rw [hrole] at ha
      exact late_of_early hw.linked.tracks hrole ha.2.1 ⟨_, htask⟩
  | @cancels r' hi hcache =>
    rw [hcache] at hc
    by_cases hr : r = r'
    · subst hr
      rw [ProbeCache.caller_cancel_self] at hc
      cases hc
    · rw [ProbeCache.caller_cancel hr] at hc
      exact hw.callers hc hle hrole

/-- The guard holds, as long as nothing is deleted. -/
theorem step (hl : l.Keeps) : Guarded env i key s₀ w' where
  linked := hw.linked.step h
  bound := hw.bound.step h hl.ne_delete
  fresh := hw.step_fresh h
  entry := hw.step_entry h
  values := hw.step_values h
  callers := hw.step_callers h

end Guarded

/-! ## The slot a write leaves -/

omit [RustChar] in
/-- A writer is done with the cache when it has marked its key. -/
theorem learn_marked {g : Session} {e : Act} {resp : e.Resp}
    (h : (g.learn e resp).marked = true) :
    g.marked = true ∨ ∃ hash now, e = .markPresent hash now := by
  unfold Session.learn at h
  split at h
  case h_18 hash now _ => exact Or.inr ⟨hash, now, rfl⟩
  all_goals exact Or.inl h

/-- `mark_present` guards its key, since the object is there by then. -/
theorem guarded_of_mark (hw : Linked env w) (he : Evident env w) (h : w.step env l = some w')
    (hl : l.Keeps) (hrole : env.role p = .writer key) {now : Instant}
    {k : Unit → Async Response} (htask : w.tasks p = .ready (.act (.markPresent key now) k))
    (hcache : w'.caches (env.inst p) = (w.caches (env.inst p)).markPresent key now) :
    Guarded env (env.inst p) key (w.caches (env.inst p)).fresh w' := by
  have ha := hw.tracks.allows htask
  rw [hrole] at ha
  -- a writer marks what it has found or written
  have hbound : w.Bound key := he.sessions (by rw [hrole]; rfl) ha.2.2
  refine ⟨hw.step h, hbound.step h hl.ne_delete, ?_, ?_, ?_, ?_⟩
  · rw [hcache]
    exact (ProbeCache.Extends.markPresent _ key now).fresh
  · intro s hentry
    rw [hcache, ProbeCache.markPresent, ProbeCache.entry_insert, if_pos rfl,
      ProbeCache.fresh_sweep] at hentry
    exact Nat.le_of_eq (Option.some.inj hentry)
  · intro s hle hs _ hv
    rw [hcache, ProbeCache.markPresent] at hs hv
    rw [ProbeCache.fresh_insert, ProbeCache.fresh_sweep] at hs
    rw [ProbeCache.value_insert, ProbeCache.fresh_sweep,
      if_pos (Nat.le_antisymm (Nat.le_of_lt_succ hs) hle)] at hv
    cases hv
  · intro r phase hc hle _
    rw [hcache, ProbeCache.caller_markPresent] at hc
    -- nobody stands on a slot that is new
    exact absurd ((hw.wf _).caller_lt hc) (Nat.not_lt_of_le hle)

/-- Every PUT that has marked its key guards it on its instance. -/
structure Seeded (env : Env) (w : World) : Prop where
  linked : Linked env w
  evident : Evident env w
  guarded : ∀ {p key}, env.role p = .writer key → (w.session env p).marked = true →
    ∃ s₀, Guarded env (env.inst p) key s₀ w

theorem seeded_init {objects : Hash → Option Bytes} : Seeded env (init objects) where
  linked := linked_init
  evident := evident_init
  guarded _ h := by cases h

/-- A PUT that marks its key guards it from this moment on. -/
theorem Seeded.step (hw : Seeded env w) (h : w.step env l = some w') (hl : l.Keeps) :
    Seeded env w' where
  linked := hw.linked.step h
  evident := hw.evident.step h hl
  guarded {p key} hrole hmarked := by
    have hold : (w.session env p).marked = true → ∃ s₀, Guarded env (env.inst p) key s₀ w' := by
      intro hmarked
      obtain ⟨s₀, hguarded⟩ := hw.guarded hrole hmarked
      exact ⟨s₀, hguarded.step h hl⟩
    cases moves_of_step h p with
    | @acts e resp k cache htask hlocal _ hhist _ hcache =>
      rw [session_snoc hhist] at hmarked
      rcases learn_marked hmarked with hbefore | ⟨hash, now, rfl⟩
      · exact hold hbefore
      · cases hlocal
        have ha := hw.linked.tracks.allows htask
        rw [hrole] at ha
        obtain ⟨rfl, -⟩ := ha
        exact ⟨_, guarded_of_mark hw.linked hw.evident h hl hrole htask hcache⟩
    | delivers _ _ hhist _ =>
      rw [session_snoc hhist] at hmarked
      rcases learn_marked hmarked with hbefore | ⟨hash, now, hno⟩
      · exact hold hbefore
      · cases hno
    | stays _ hhist | arrives _ _ hhist | calls _ _ hhist | answers _ _ hhist | serves _ _ hhist
    | drops _ hhist =>
      rw [session_congr hhist] at hmarked
      exact hold hmarked

/-! ## A GET that starts later -/

/-- A reader that starts when its key is guarded. -/
structure Following (env : Env) (s₀ : SlotId) (r : ReqId) (w : World) : Prop where
  late : Late env w r
  slot : ∀ {s}, (w.session env r).slot = some s → s₀ ≤ s
  shared : ∀ s, (⟨.acquire s, .initialized false⟩ : TaskEvent) ∉ w.hist r

theorem following_of_absent (ht : Tracks env w) (htask : w.tasks r = .absent) :
    Following env s₀ r w where
  late := late_of_absent ht htask
  slot hs := by
    rw [ht.session_absent htask] at hs
    cases hs
  shared s hs := by
    rw [(ht r).1 htask] at hs
    cases hs

omit [RustChar] in
/-- A request learns its slot from being given one. -/
theorem learn_slot {g : Session} {e : Act} {resp : e.Resp} {s : SlotId}
    (h : (g.learn e resp).slot = some s) :
    g.slot = some s ∨ ∃ hash now, (⟨e, resp⟩ : TaskEvent) = ⟨.slot hash now, s⟩ := by
  unfold Session.learn at h
  split at h
  case h_14 hash now s' => exact Or.inr ⟨hash, now, by rw [Option.some.inj h]⟩
  all_goals exact Or.inl h

omit [RustChar] in
theorem learn_shared {g : Session} {e : Act} {resp : e.Resp} {v : Bool}
    (h : (g.learn e resp).shared = some v) :
    g.shared = some v ∨ ∃ s, (⟨e, resp⟩ : TaskEvent) = ⟨.acquire s, .initialized v⟩ := by
  unfold Session.learn at h
  split at h
  case h_15 s v' => exact Or.inr ⟨s, by rw [Option.some.inj h]⟩
  all_goals exact Or.inl h

/-- The map hands out guarded slots only. -/
theorem Guarded.le_call (hw : Guarded env i key s₀ w) (r : ReqId) (now : Instant) :
    s₀ ≤ ((w.caches i).call r key now).2 := by
  unfold ProbeCache.call
  rcases ProbeCache.slot_cases (w.caches i) key now with ⟨s, hentry, -, heq⟩ | ⟨-, heq⟩
  · rw [heq]
    exact hw.entry hentry
  · rw [heq]
    exact hw.fresh

/-- A reader on a guarded slot does not find *absent* in its cell. -/
theorem Guarded.not_shared (hw : Guarded env (env.inst r) key s₀ w)
    (hrole : env.role r = .reader key)
    (hslot : ∀ {s}, (w.session env r).slot = some s → s₀ ≤ s) {s : SlotId} {cache : ProbeCache}
    {v : Bool} (hact : Acts (w.caches (env.inst r)) r w.clock (.acquire s) cache
      (some (.initialized v))) : v = true := by
  obtain ⟨phase, hphase, hv⟩ := hact.shares
  have hstands := hw.linked.inside hphase
  have hhash : ((w.caches (env.inst r)).arena phase.slot).hash = key := by
    have heq := hstands.role.symm.trans hrole
    injection heq
  cases v with
  | true => rfl
  | false =>
    exact absurd hv (hw.values (hslot hstands.slot) ((hw.linked.wf _).caller_lt hphase) hhash)

/-- A reader that follows is given a guarded slot and told nothing else there. -/
theorem Following.step (hr : Following env s₀ r w) (hw : Guarded env (env.inst r) key s₀ w)
    (hrole : env.role r = .reader key) (h : w.step env l = some w') : Following env s₀ r w' where
  late := hw.late_step h hrole hr.late
  slot {s} hs := by
    cases moves_of_step h r with
    | @acts e resp k cache htask hl _ hhist _ _ =>
      rw [session_snoc hhist] at hs
      rcases learn_slot hs with hbefore | ⟨hash, now, hev⟩
      · exact hr.slot hbefore
      · cases hev
        cases hl
        have ha := hw.linked.tracks.allows htask
        rw [hrole] at ha
        obtain ⟨rfl, -⟩ := ha
        exact hw.le_call r now
    | @delivers call since reply k _ _ hhist _ =>
      rw [session_snoc hhist] at hs
      rcases learn_slot hs with hbefore | ⟨hash, now, hev⟩
      · exact hr.slot hbefore
      · cases hev
    | stays _ hhist | arrives _ _ hhist | calls _ _ hhist | answers _ _ hhist | serves _ _ hhist
    | drops _ hhist =>
      rw [session_congr hhist] at hs
      exact hr.slot hs
  shared s hs := by
    cases moves_of_step h r with
    | @acts e resp k cache htask hl _ hhist _ _ =>
      rw [hhist] at hs
      rcases List.mem_append.mp hs with hbefore | hnew
      · exact hr.shared s hbefore
      · have hev := List.mem_singleton.mp hnew
        cases hev
        cases hw.not_shared hrole hr.slot (acts_of_localStep hl)
    | @delivers call since reply k _ _ hhist _ =>
      rw [hhist] at hs
      rcases List.mem_append.mp hs with hbefore | hnew
      · exact hr.shared s hbefore
      · have hev := List.mem_singleton.mp hnew
        cases hev
    | stays _ hhist | arrives _ _ hhist | calls _ _ hhist | answers _ _ hhist | serves _ _ hhist
    | drops _ hhist =>
      rw [hhist] at hs
      exact hr.shared s hs

/-! ## The guarantee -/

/-- A PUT that is answered 200 or 409 has marked its key. -/
theorem marked_of_answered (ht : Tracks env w) (hput : env.Puts p key) {response : Response}
    (hans : w.tasks p = .answered response) (hstatus : response.status = 200 ∨ response.status = 409) :
    (w.session env p).marked = true := by
  obtain ⟨inner, rfl, hends⟩ := ht.ends (Or.inl hans)
  rw [Env.puts_iff.mp hput] at hends
  rw [finalize_status] at hstatus
  rcases hends with ⟨-, hmarked, -⟩ | ⟨-, -, hmarked, -⟩ | ⟨-, -, -, rfl⟩ | ⟨-, -, -, rfl⟩
  · exact hmarked
  · exact hmarked
  · rcases hstatus with hstatus | hstatus <;> cases hstatus
  · rcases hstatus with hstatus | hstatus <;> cases hstatus

omit [RustChar] in
theorem learn_probe {g : Session} {e : Act} {resp : e.Resp} {reply : Except HeadError Unit}
    (h : (g.learn e resp).probe = some reply) :
    g.probe = some reply ∨ ∃ key, (⟨e, resp⟩ : TaskEvent) = ⟨.s3 (.headObject key), reply⟩ := by
  unfold Session.learn at h
  split at h
  case h_1 key reply' => exact Or.inr ⟨key, by rw [Option.some.inj h]⟩
  all_goals exact Or.inl h

omit [RustChar] in
theorem learn_got {g : Session} {e : Act} {resp : e.Resp} {reply : Except GetError ObjectBody}
    (h : (g.learn e resp).got = some reply) :
    g.got = some reply ∨ ∃ key, (⟨e, resp⟩ : TaskEvent) = ⟨.s3 (.getObject key), reply⟩ := by
  unfold Session.learn at h
  split at h
  case h_2 key reply' => exact Or.inr ⟨key, by rw [Option.some.inj h]⟩
  all_goals exact Or.inl h

/-- What a request knows of S3 it knows from a reply about its own key. -/
theorem did_of_probe (ht : Tracks env w) (hkey : (env.role r).key = some key)
    {reply : Except HeadError Unit} (h : (w.session env r).probe = some reply) :
    ∃ t, ⟨t, r, .did ⟨.s3 (.headObject key), reply⟩⟩ ∈ w.trace := by
  rcases Prog.Contract.after_origin (P := fun g : Session => g.probe = some reply)
    (fun g ev hev => learn_probe hev) h with hstart | ⟨ev, hmem, key', hev⟩
  · cases hstart
  · obtain ⟨e, resp⟩ := ev
    cases hev
    obtain ⟨g, ha⟩ := ht.allowed hmem
    have heq : key' = key := Option.some.inj ((key_of_allows ha).symm.trans hkey)
    exact heq ▸ mem_hist.mp hmem

/-- A reply to a fetch is in the trace, with the instant it came at. -/
theorem did_of_got (ht : Tracks env w) (hkey : (env.role r).key = some key)
    {reply : Except GetError ObjectBody} (h : (w.session env r).got = some reply) :
    ∃ t, ⟨t, r, .did ⟨.s3 (.getObject key), reply⟩⟩ ∈ w.trace := by
  rcases Prog.Contract.after_origin (P := fun g : Session => g.got = some reply)
    (fun g ev hev => learn_got hev) h with hstart | ⟨ev, hmem, key', hev⟩
  · cases hstart
  · obtain ⟨e, resp⟩ := ev
    cases hev
    obtain ⟨g, ha⟩ := ht.allowed hmem
    have heq : key' = key := Option.some.inj ((key_of_allows ha).symm.trans hkey)
    exact heq ▸ mem_hist.mp hmem

/-- A reader that is told of no absence is answered 404 only for an error. -/
theorem Late.notFound (hr : Late env w r) (hshared : (w.session env r).shared ≠ some false)
    (ht : Tracks env w) (hrole : env.role r = .reader key) {response : Response}
    (hans : w.tasks r = .answered response) (hstatus : response.status = 404) :
    (∃ err, (w.session env r).probe = some (.error (.other err))) ∨
      ∃ err, (w.session env r).got = some (.error (.other err)) := by
  obtain ⟨inner, rfl, hends⟩ := ht.ends (Or.inl hans)
  rw [hrole] at hends
  rw [finalize_status] at hstatus
  obtain ⟨-, ⟨body, -, rfl⟩ | ⟨-, (hno | ⟨err, hprobe⟩) | ⟨err, hgot⟩⟩⟩ := hends
  · cases hstatus
  · exact absurd hno hshared
  · cases err with
    | notFound => exact absurd hprobe hr.probe
    | other err => exact Or.inl ⟨err, hprobe⟩
  · cases err with
    | noSuchKey => exact absurd hgot hr.got
    | other err => exact Or.inr ⟨err, hgot⟩

/-- What a session was told of its cell is in its history. -/
theorem Following.not_shared (hr : Following env s₀ r w) :
    (w.session env r).shared ≠ some false := by
  intro hshared
  rcases Prog.Contract.after_origin (P := fun g : Session => g.shared = some false)
    (fun g ev hev => learn_shared hev) hshared with hstart | ⟨ev, hmem, s, hev⟩
  · cases hstart
  · obtain ⟨e, resp⟩ := ev
    cases hev
    exact absurd hmem (hr.shared s)

/-- A GET that starts when its key is guarded never finds *absent* in a shared
cell, and is answered 404 only if one of its own requests to S3 fails. -/
theorem Guarded.later {ls : List Label} {w₀ : World} (hw₀ : Guarded env (env.inst r) key s₀ w₀)
    (hget : env.Gets r key) (hstart : w₀.tasks r = .absent)
    (hrun : Run (World.step env) (fun _ l => l.Keeps) w₀ ls w) :
    (∀ t s, ⟨t, r, .did ⟨.acquire s, .initialized false⟩⟩ ∉ w.trace) ∧
    ∀ response, w.tasks r = .answered response → response.status = 404 →
      (∃ t err, ⟨t, r, .did ⟨.s3 (.headObject key), Except.error (HeadError.other err)⟩⟩ ∈
        w.trace) ∨
      ∃ t err, ⟨t, r, .did ⟨.s3 (.getObject key), Except.error (GetError.other err)⟩⟩ ∈
        w.trace := by
  have hrole := Env.gets_iff.mp hget
  -- the guard and its follower go through the run together
  have hall : Guarded env (env.inst r) key s₀ w ∧ Following env s₀ r w := by
    refine hrun.invariant
      (I := fun w => Guarded env (env.inst r) key s₀ w ∧ Following env s₀ r w) ?_
      ⟨hw₀, following_of_absent hw₀.linked.tracks hstart⟩
    intro w l w' hI hl h
    exact ⟨hI.1.step h hl, hI.2.step hI.1 hrole h⟩
  obtain ⟨hw, hr⟩ := hall
  have hkey : (env.role r).key = some key := by rw [hrole]; rfl
  refine ⟨fun t s hmem => hr.shared s (mem_hist.mpr ⟨t, hmem⟩), ?_⟩
  intro response hans hstatus
  rcases hr.late.notFound hr.not_shared hw.linked.tracks hrole hans hstatus with
    ⟨err, hprobe⟩ | ⟨err, hgot⟩
  · obtain ⟨t, hmem⟩ := did_of_probe hw.linked.tracks hkey hprobe
    exact Or.inl ⟨t, err, hmem⟩
  · obtain ⟨t, hmem⟩ := did_of_got hw.linked.tracks hkey hgot
    exact Or.inr ⟨t, err, hmem⟩

/-- **Read your writes.** A GET that starts after a PUT of its key was answered
200 or 409 by the same instance never finds *absent* in a shared cell, and is
answered 404 only if one of its own requests to S3 fails. -/
theorem read_your_writes {objects : Hash → Option Bytes} {ls ls' : List Label} {w₀ : World}
    (hrun : Run (World.step env) (fun _ l => l.Keeps) (init objects) ls w₀)
    (hput : env.Puts p key) {response : Response} (hans : w₀.tasks p = .answered response)
    (hstatus : response.status = 200 ∨ response.status = 409)
    (hget : env.Gets r key) (hinst : env.inst r = env.inst p) (hstart : w₀.tasks r = .absent)
    (hrun' : Run (World.step env) (fun _ l => l.Keeps) w₀ ls' w) :
    (∀ t s, ⟨t, r, .did ⟨.acquire s, .initialized false⟩⟩ ∉ w.trace) ∧
    ∀ response', w.tasks r = .answered response' → response'.status = 404 →
      (∃ t err, ⟨t, r, .did ⟨.s3 (.headObject key), Except.error (HeadError.other err)⟩⟩ ∈
        w.trace) ∨
      ∃ t err, ⟨t, r, .did ⟨.s3 (.getObject key), Except.error (GetError.other err)⟩⟩ ∈
        w.trace := by
  have hseeded : Seeded env w₀ := hrun.invariant (fun _ _ _ hw hl h => hw.step h hl) seeded_init
  have hmarked := marked_of_answered hseeded.linked.tracks hput hans hstatus
  obtain ⟨s₀, hguarded⟩ := hseeded.guarded (Env.puts_iff.mp hput) hmarked
  rw [← hinst] at hguarded
  exact hguarded.later hget hstart hrun'

private def oneInstance : Env := exampleEnv [(0, examplePut [1, 2, 3]), (0, exampleGet)]

/-- A PUT that is answered 200. -/
def putOnly : List Label :=
  [.arrive 0, .run 0, .serve 0 .answer, .deliver 0, .run 0, .run 0, .run 0, .serve 0 .answer,
    .deliver 0, .run 0, .run 0, .run 0]

/-- A GET whose `GetObject` fails. -/
def failedGet : List Label :=
  [.arrive 1, .run 1, .run 1, .run 1, .run 1, .serve 1 (.fail ⟨none, none, "TimeoutError"⟩),
    .deliver 1, .run 1, .run 1]

omit [RustChar] in
/-- The one way to a 404 after the write is an error of its own. -/
theorem failedGet_own_error :
    ∃ w, Run (@World.step asciiChars oneInstance) (fun _ l => l.Keeps) (init fun _ => none)
        (putOnly ++ failedGet) w ∧
      ((∃ t err, ⟨t, 1, .did ⟨.s3 (.headObject "abc"),
          Except.error (HeadError.other err)⟩⟩ ∈ w.trace) ∨
        ∃ t err, ⟨t, 1, .did ⟨.s3 (.getObject "abc"),
          Except.error (GetError.other err)⟩⟩ ∈ w.trace) := by
  let _ : RustChar := asciiChars
  obtain ⟨w₀, hrun, hput, hstart, hrest⟩ : ∃ w₀,
      Run (World.step oneInstance) (fun _ l => l.Keeps) (init fun _ => none) putOnly w₀ ∧
      (w₀.tasks 0).response =
        some ⟨200, some "text/plain; charset=utf-8", some "close", .text ""⟩ ∧
      w₀.tasks 1 = .absent ∧
      (exec (World.step oneInstance) (fun _ (l : Label) => decide l.Keeps) w₀ failedGet).any (fun w =>
        (w.tasks 1).response =
          some ⟨404, some "text/plain", some "close", .text "The record was not found"⟩) =
        true :=
    exists_run_of_exec (fun _ _ h => of_decide_eq_true h)
      (show (exec _ (fun _ (l : Label) => decide l.Keeps) _ _).any _ = true by decide)
  obtain ⟨w, hrun', hget⟩ := exists_run_of_exec (fun _ _ h => of_decide_eq_true h) hrest
  rw [Task.response_eq_some] at hput hget
  refine ⟨w, hrun.trans hrun', ?_⟩
  have hput' : oneInstance.Puts 0 "abc" := Env.puts_example rfl
  have hget' : oneInstance.Gets 1 "abc" := Env.gets_example rfl
  exact (read_your_writes hrun hput' hput (Or.inl rfl) hget' rfl hstart hrun').2 _ hget rfl

end World

end NxCacheServer.System
