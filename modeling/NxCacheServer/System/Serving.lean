import NxCacheServer.System.MonotonicReads
import NxCacheServer.System.Racing
import NxCacheServer.System.WriteOnceMap

/-!
# Serving one request

An instance at rest (`Resting`) stands for a map: its bucket holds it, and its
cache does not deny it. A request that is served alone (`Serving`) sees the map
as it was when it came, until it has written its own object; every step of it
keeps that.

The cache need not know what is there. All that matters is that it never says
*absent* of a bound key (`cells`): what it holds to be present is fetched from
S3, and found gone if it was deleted.

`Resting` and `Serving` are the two invariants, for the time between requests and for
the time a request takes. What the request has learnt of the map is `Knows`; what a
reply on its way is going to tell it is `Tells`. The slots that count are those it
can come to (`Reaches`): the one it has, and those the map would give it.

Five things are kept by every step of the request that is served, each by a lemma:
the objects (`step_objects`, `step_unwritten`, `step_written`), the reply on its way
(`step_replies`), what the request has learnt (`step_knows`), the cells it can come to
(`step_cells`), and its place in the cache (`step_inside`). None of the other requests
has anything to do (`Idle`), so that a step is one of its own or lets time pass.
-/

namespace NxCacheServer.System

open NxCacheServer.Domain NxCacheServer.Infra NxCacheServer.Server NxCacheServer.Lib

variable {map : WriteOnce Hash Bytes} {key : Hash}

/-- What S3 answers to a look at its objects when they are `map`. -/
def Tells (map : WriteOnce Hash Bytes) : (call : S3Call) → call.Reply → Prop
  | .headObject key, reply =>
    reply = if (map key).isSome then Except.ok () else Except.error HeadError.notFound
  | .getObject key, reply => reply = match map key with
    | some bytes => Except.ok (ObjectBody.mk bytes none)
    | none => Except.error GetError.noSuchKey
  | _, _ => True

theorem tells_reply (bucket : Bucket) (eTagOf : Bytes → ETag) (call : S3Call) :
    Tells bucket.objects call (bucket.reply eTagOf call) := by
  cases call with
  | headObject key => exact rfl
  | getObject key => exact rfl
  | _ => exact trivial

/-- What a request about `key` has learnt is so in `map`. -/
structure Knows (map : WriteOnce Hash Bytes) (key : Hash) (g : Session) : Prop where
  probe : ∀ {reply}, g.probe = some reply → Tells map (.headObject key) reply
  got : ∀ {reply}, g.got = some reply → Tells map (.getObject key) reply
  shared : g.shared = some false → map key = none

theorem knows_start : Knows map key Session.start where
  probe h := by cases h
  got h := by cases h
  shared h := by cases h

namespace Knows

variable {g : Session} (h : Knows map key g)

include h

/-- Whoever has found the object absent is right. -/
theorem unbound (ha : g.Absent) : map key = none := by
  obtain ⟨err, hprobe⟩ := ha
  have htells : Except.error err = if (map key).isSome then _ else _ := h.probe hprobe
  cases hbound : map key with
  | none => rfl
  | some bytes =>
    rw [hbound] at htells
    cases htells

theorem bound (hprobe : g.probe = some (.ok ())) : (map key).isSome = true := by
  have htells : Except.ok () = if (map key).isSome then _ else _ := h.probe hprobe
  cases hbound : map key with
  | some bytes => rfl
  | none =>
    rw [hbound] at htells
    cases htells

theorem fetched {body : ObjectBody} (hgot : g.got = some (.ok body)) :
    map key = some body.bytes ∧ body.breaksAt = none := by
  have htells : Except.ok body = match map key with | some _ => _ | none => _ := h.got hgot
  cases hbound : map key with
  | some bytes =>
    rw [hbound] at htells
    cases htells
    exact ⟨rfl, rfl⟩
  | none =>
    rw [hbound] at htells
    cases htells

theorem gone {err : GetError} (hgot : g.got = some (.error err)) : map key = none := by
  have htells : Except.error err = match map key with | some _ => _ | none => _ := h.got hgot
  cases hbound : map key with
  | none => rfl
  | some bytes =>
    rw [hbound] at htells
    cases htells

end Knows

namespace World

/-! ## Requests that are idle -/

/-- `r` has not come, or is answered. -/
def Idle (w : World) (r : ReqId) : Prop :=
  w.tasks r = .absent ∨ ∃ response, w.tasks r = .answered response

variable [RustChar] {env : Env} {initial : Hash → Option Bytes} {w w' : World} {l : Label}
  {q r : ReqId} {i : InstId} {call : S3Call}

omit [RustChar] in
theorem Idle.not_ready (hr : w.Idle r) {p : Async Response} : w.tasks r ≠ .ready p := by
  intro htask
  rcases hr with hr | ⟨response, hr⟩ <;> rw [htask] at hr <;> cases hr

omit [RustChar] in
theorem Idle.not_calling (hr : w.Idle r) {since : Instant} {reply : Option call.Reply}
    {k : call.Reply → Async Response} : w.tasks r ≠ .calling call since reply k := by
  intro htask
  rcases hr with hr | ⟨response, hr⟩ <;> rw [htask] at hr <;> cases hr

/-- A request that is idle stays so unless it comes. -/
theorem Idle.stays (hr : w.Idle r) (h : w.step env l = some w') (hl : l.ErrorFree)
    (hne : l ≠ .arrive r) : w'.tasks r = w.tasks r := by
  cases moves_of_step h r with
  | stays htask' _ => exact htask'
  | arrives => exact absurd rfl hne
  | drops => exact absurd hl not_false
  | calls htask | acts htask | answers htask => exact absurd htask hr.not_ready
  | serves htask | delivers htask => exact absurd htask hr.not_calling

omit [RustChar] in
/-- Only the writer of a key that has not found its object replaces it. -/
theorem writer_of_replaces {g : Session} {role : Role} {body : Body}
    (ha : g.Allows role body (.s3 call)) (hcall : Replaces key call) :
    role = .writer key ∧ g.Storing := by
  cases role with
  | writer hash =>
    cases call with
    | putObject key' bytes =>
      obtain ⟨rfl, hstoring, -⟩ := ha
      exact ⟨congrArg _ hcall, hstoring⟩
    | completeMultipartUpload key' id parts =>
      obtain ⟨rfl, hstoring, -⟩ := ha
      exact ⟨congrArg _ hcall, hstoring⟩
    | _ => exact absurd hcall not_false
  | reader hash => cases call <;> first | exact absurd hcall not_false | exact absurd ha not_false
  | refused response => cases call <;> exact absurd ha not_false

omit [RustChar] in
/-- A reply of S3 changes nothing of where a reader stands in its cache. -/
theorem learn_reply (g : Session) (reply : call.Reply) :
    (g.learn (.s3 call) reply).slot = g.slot ∧ (g.learn (.s3 call) reply).shared = g.shared ∧
      (g.learn (.s3 call) reply).permit = g.permit ∧
      ((g.learn (.s3 call) reply).probe = none → g.probe = none) := by
  unfold Session.learn
  split
  case h_1 => exact ⟨rfl, rfl, rfl, fun hno => by cases hno⟩
  all_goals first | exact ⟨rfl, rfl, rfl, fun hnone => hnone⟩ | contradiction

omit [RustChar] in
/-- Only a reader that has a slot and no answer yet enters its cell. -/
theorem allows_acquire {g : Session} {role : Role} {body : Body} {s : SlotId}
    (ha : g.Allows role body (.acquire s)) :
    g.slot = some s ∧ g.permit = false ∧ g.shared = none ∧ g.probe = none := by
  cases role with
  | reader hash => exact ha
  | writer hash => exact absurd ha not_false
  | refused response => exact absurd ha not_false

omit [RustChar] in
/-- A cell is settled by the holder of its permit, with the verdict of its own look.
-/
theorem allows_settle {g : Session} {role : Role} {body : Body} {s : SlotId}
    {value : Option Bool} (ha : g.Allows role body (.settle s value)) :
    g.slot = some s ∧ g.permit = true ∧
      ∃ reply, g.probe = some reply ∧ value = Session.verdict reply := by
  cases role with
  | reader hash => exact ha
  | writer hash => exact absurd ha not_false
  | refused response => exact absurd ha not_false

/-! ## Rest and service -/

/-- `s` is in the map of the cache, or `q` holds it. -/
def Reaches (cache : ProbeCache) (q : ReqId) (s : SlotId) : Prop :=
  (∃ key, cache.entry key = some s) ∨ ∃ phase, cache.caller q = some phase ∧ phase.slot = s

omit [RustChar] in
/-- An action gives `q` no slot but one that it could reach, or a new one. -/
theorem reaches_of_acts {cache cache' : ProbeCache} {clock : Instant} {e : Act}
    {resp : Option e.Resp} {s : SlotId} (hact : Acts cache q clock e cache' resp)
    (hs : s < cache.fresh) (hreach : Reaches cache' q s) : Reaches cache q s := by
  rcases hreach with ⟨key, hentry⟩ | ⟨phase, hc, rfl⟩
  · rcases hact.entry_cases hentry with hold | ⟨rfl, -⟩
    · exact Or.inl ⟨key, hold⟩
    -- a slot that is new in the map is a new slot
    · exact absurd hs (Nat.lt_irrefl _)
  · rcases hact.caller_cases hc with ⟨before, hbefore, heq⟩ | ⟨-, hash, now, rfl, rfl⟩
    · exact Or.inr ⟨before, hbefore, heq⟩
    · unfold ProbeCache.call at hs ⊢
      rcases ProbeCache.slot_cases cache hash now with ⟨s', hentry, -, heq⟩ | ⟨-, heq⟩
      · rw [heq]
        exact Or.inl ⟨hash, hentry⟩
      · rw [heq] at hs
        exact absurd hs (Nat.lt_irrefl _)

omit [RustChar] in
theorem Reaches.lt {cache : ProbeCache} {s : SlotId} (hreach : Reaches cache q s)
    (wf : cache.WF) : s < cache.fresh := by
  rcases hreach with ⟨key, hentry⟩ | ⟨phase, hc, rfl⟩
  · exact wf.entry_lt hentry
  · exact wf.caller_lt hc

/-- No request is being served, and the objects are `map`. -/
structure Resting (env : Env) (initial : Hash → Option Bytes) (i : InstId)
    (map : WriteOnce Hash Bytes) (w : World) : Prop where
  smooth : Smooth env initial w
  linked : Linked env w
  idle : ∀ r, w.Idle r
  callers : ∀ r, (w.caches i).caller r = none
  objects : w.bucket.objects = map
  cells : ∀ {key s}, (w.caches i).entry key = some s → (w.caches i).value s = some false →
    map key = none

/-- `q` is being served, or just has been; the objects were `map` when it came. -/
structure Serving (env : Env) (initial : Hash → Option Bytes) (i : InstId)
    (map : WriteOnce Hash Bytes) (q : ReqId) (w : World) : Prop where
  smooth : Smooth env initial w
  linked : Linked env w
  inst : env.inst q = i
  idle : ∀ {r}, r ≠ q → w.Idle r
  callers : ∀ {r}, r ≠ q → (w.caches i).caller r = none
  arrived : (∃ entry ∈ w.trace, entry.req = q) ∧ w.tasks q ≠ .absent ∧ w.tasks q ≠ .dropped
  inside : (w.session env q).slot ≠ none → (w.session env q).permit = true ∨
    (w.session env q).shared = none ∧ (w.session env q).probe = none →
    (w.caches i).caller q ≠ none
  unwritten : ¬ Landed env w q → w.bucket.objects = map
  written : Landed env w q → ∃ key, env.role q = .writer key ∧ (env.body q).complete = true ∧
    w.bucket.objects = Function.update map key (some (env.body q).bytes)
  replies : ∀ {call since reply k}, w.tasks q = .calling call since (some reply) k →
    Tells map call reply
  knows : ∀ {key}, (env.role q).key = some key → Knows map key (w.session env q)
  cells : ∀ {s}, Reaches (w.caches i) q s → (w.caches i).value s = some false →
    map ((w.caches i).arena s).hash = none
  marked : ∀ {key s}, env.role q = .writer key → (w.session env q).marked = true →
    (w.caches i).entry key = some s → (w.caches i).value s ≠ some false

namespace Serving

variable (hw : Serving env initial i map q w)

include hw

/-- Only `q` is at work. -/
theorem sole (hr : ¬ w.Idle r) : r = q := by
  by_cases heq : r = q
  · exact heq
  · exact absurd (hw.idle heq) hr

/-- The one request that has something to do is `q`. -/
theorem sole_ready {p : Async Response} (htask : w.tasks r = .ready p) : r = q :=
  hw.sole fun hr => hr.not_ready htask

theorem sole_calling {since : Instant} {reply : Option call.Reply} {k : call.Reply → Async Response}
    (htask : w.tasks r = .calling call since reply k) : r = q :=
  hw.sole fun hr => hr.not_calling htask

/-- Once it has written its object, `q` neither replaces it nor looks. -/
theorem done_of_landed {since : Instant} {k : call.Reply → Async Response}
    (htask : w.tasks q = .calling call since none k) (hq : Landed env w q) :
    (∀ key, ¬ Replaces key call) ∧ ∀ key, call ≠ .headObject key ∧ call ≠ .getObject key := by
  have ht := hw.linked.tracks
  have ha := ht.allows_call htask
  obtain ⟨key, hrole, -, -⟩ := hw.written hq
  have hwrote : (w.session env q).wrote = true := by
    rcases hq with hwrote | ⟨_, _, _, _, _, htask', -⟩
    · exact hwrote
    · rw [htask] at htask'
      cases htask'
  refine ⟨?_, ?_⟩
  · intro key' hcall
    have hopen := (writer_of_replaces ha hcall).2.2.1
    rw [hwrote] at hopen
    cases hopen
  · intro key'
    rw [hrole] at ha
    refine ⟨?_, ?_⟩
    · intro heq
      subst heq
      -- a writer looks once, before it writes
      obtain ⟨err, hprobe⟩ := absent_of_wrote ht hrole hwrote
      rw [ha.2] at hprobe
      cases hprobe
    · intro heq
      subst heq
      exact ha

end Serving

/-! ## The bucket -/

omit [RustChar] in
/-- Only `PutObject` and `CompleteMultipartUpload` change objects. -/
theorem objects_apply_of_mute {bucket : Bucket} {eTagOf : Bytes → ETag}
    (hcall : ∀ key, ¬ Replaces key call) :
    (bucket.apply eTagOf call).objects = bucket.objects := by
  funext key
  rcases @Bucket.objects_apply_cases bucket eTagOf call key with hsame |
    ⟨bytes, -, rfl | ⟨id, parts, rfl, -⟩⟩
  · exact hsame
  · exact absurd rfl (hcall key)
  · exact absurd rfl (hcall key)

/-- Where nothing fails, replacing an object that is not there binds its key to
the body of the request. -/
theorem Smooth.objects_of_replace (hw : Smooth env initial w) {since : Instant}
    {k : call.Reply → Async Response} (htask : w.tasks q = .calling call since none k)
    (hcall : Replaces key call) (hnone : w.bucket.objects key = none) :
    env.role q = .writer key ∧ (env.body q).complete = true ∧
      (w.bucket.apply env.eTagOf call).objects =
        Function.update w.bucket.objects key (some (env.body q).bytes) := by
  have hfine := hw.fine_of_serve htask
  -- nothing fails, so the reply says that the object is there
  have hsays : SaysPresent key call (Fate.answer.reply call (w.bucket.reply env.eTagOf call)) := by
    cases call with
    | putObject key' bytes => exact ⟨hcall, hfine⟩
    | completeMultipartUpload key' id parts => exact ⟨hcall, hfine⟩
    | _ => exact absurd hcall not_false
  have hkey : call.key = key := by
    cases call with
    | putObject key' bytes => exact hcall
    | completeMultipartUpload key' id parts => exact hcall
    | _ => exact absurd hcall not_false
  obtain ⟨bytes, hbytes⟩ := Option.isSome_iff_exists.mp hsays.bound
  rcases hw.intact.received_of_apply (mem_pending_of_calling htask) hbytes with
    hbefore | ⟨-, hrole, hc, rfl, -⟩
  · rw [hnone] at hbefore
    cases hbefore
  · refine ⟨hrole, hc, ?_⟩
    funext key'
    rw [Function.update_apply]
    split
    next heq =>
      rw [heq]
      exact hbytes
    next hne => exact Bucket.objects_apply_of_ne (by rw [hkey]; exact Ne.symm hne)

namespace Serving

variable (hw : Serving env initial i map q w) (h : w.step env l = some w') (hl : l.ErrorFree)
  (hkeeps : l.Keeps)

include hw h hl hkeeps

/-- The objects change only when `q` replaces its own. -/
theorem step_objects : w'.bucket.objects = w.bucket.objects ∨
    ∃ key call since reply k, w.tasks q = .calling call since none k ∧
      w'.tasks q = .calling call since (some reply) k ∧ Replaces key call ∧
      w'.bucket = w.bucket.apply env.eTagOf call := by
  cases step_cases h with
  | @served r fate call since k htask hf =>
    have hr := hw.sole_calling htask
    subst hr
    -- all other requests leave the objects alone
    by_cases hcall : ∃ key, Replaces key call
    · obtain ⟨key, hcall⟩ := hcall
      exact Or.inr ⟨key, call, since, _, k, htask, tasks_setTask.trans (if_pos rfl), hcall, rfl⟩
    · exact Or.inl (objects_apply_of_mute (not_exists.mp hcall))
  | stray hp => exact absurd hl not_false
  | delete key => exact absurd hkeeps not_false
  | _ => exact Or.inl rfl

/-- Until `q` has written, the objects are what they were. -/
theorem step_unwritten (hno : ¬ Landed env w' q) : w'.bucket.objects = map := by
  have hbefore : ¬ Landed env w q := fun hq => hno (hq.step hw.smooth h hl)
  rcases hw.step_objects h hl hkeeps with heq | ⟨key, call, since, reply, k, -, htask', hcall, -⟩
  · rw [heq]
    exact hw.unwritten hbefore
  · exact absurd (Or.inr ⟨key, call, since, reply, k, htask', hcall⟩) hno

/-- It lands by the step that replaces the object. -/
theorem replaces_of_landed (hq : ¬ Landed env w q) (hq' : Landed env w' q) :
    ∃ key call since k, w.tasks q = .calling call since none k ∧ Replaces key call ∧
      w'.bucket = w.bucket.apply env.eTagOf call := by
  rcases hq' with hwrote | ⟨key, call, since, reply, k, htask', hcall⟩
  · refine absurd ?_ hq
    cases learns_of_step hw.linked.tracks h q with
    | nothing heq =>
      rw [heq] at hwrote
      exact Or.inl hwrote
    | act e resp hlocal _ heq =>
      rw [heq] at hwrote
      rcases learn_wrote_origin hwrote with hbefore | ⟨key, call, he, -⟩
      · exact Or.inl hbefore
      · exact absurd he (hlocal call)
    | reply call since reply k htask _ heq =>
      rw [heq] at hwrote
      rcases learn_wrote_origin hwrote with hbefore | ⟨key, call', he, hcall⟩
      · exact Or.inl hbefore
      · cases he
        exact Or.inr ⟨key, call, since, reply, k, htask, hcall⟩
  · rcases reply_of_step h htask' with hold | ⟨fate, rfl, htask, -, hbucket⟩
    · exact absurd (Or.inr ⟨key, call, since, reply, k, hold, hcall⟩) hq
    · rw [show fate = .answer from hl] at hbucket
      exact ⟨key, call, since, k, htask, hcall, hbucket⟩

/-- When it has, its own object is its body, and the others are what they were. -/
theorem step_written (hq' : Landed env w' q) : ∃ key, env.role q = .writer key ∧
    (env.body q).complete = true ∧
    w'.bucket.objects = Function.update map key (some (env.body q).bytes) := by
  by_cases hq : Landed env w q
  · obtain ⟨key, hrole, hc, hobjects⟩ := hw.written hq
    refine ⟨key, hrole, hc, ?_⟩
    rcases hw.step_objects h hl hkeeps with heq | ⟨key', call, since, reply, k, htask, -, hcall, -⟩
    · rw [heq, hobjects]
    · exact absurd hcall ((hw.done_of_landed htask hq).1 key')
  · obtain ⟨key, call, since, k, htask, hcall, hbucket⟩ :=
      hw.replaces_of_landed h hl hkeeps hq hq'
    obtain ⟨hrole, hstoring⟩ := writer_of_replaces (hw.linked.tracks.allows_call htask) hcall
    -- `q` has found the key unbound, and nobody else has written since
    have hnone : w.bucket.objects key = none := by
      rw [hw.unwritten hq]
      exact (hw.knows (by rw [hrole]; rfl)).unbound hstoring.1
    obtain ⟨-, hc, hobjects⟩ := hw.smooth.objects_of_replace htask hcall hnone
    refine ⟨key, hrole, hc, ?_⟩
    rw [hbucket, hobjects, hw.unwritten hq]

/-! ## What `q` learns -/

omit hkeeps in
/-- What `q` is told about the objects is so: it looks before it writes. -/
theorem step_replies {since : Instant} {reply : call.Reply} {k : call.Reply → Async Response}
    (htask' : w'.tasks q = .calling call since (some reply) k) : Tells map call reply := by
  rcases reply_of_step h htask' with hold | ⟨fate, rfl, htask, rfl, -⟩
  · exact hw.replies hold
  · rw [show fate = .answer from hl]
    by_cases hq : Landed env w q
    -- after it has written, `q` asks for nothing that a map could tell
    · have hlook := (hw.done_of_landed htask hq).2
      cases call with
      | headObject key => exact absurd rfl (hlook key).1
      | getObject key => exact absurd rfl (hlook key).2
      | _ => exact trivial
    · rw [← hw.unwritten hq]
      exact tells_reply w.bucket env.eTagOf call

omit h hl hkeeps in
/-- What `q` finds in its cell is so. -/
theorem shares {s : SlotId} {cache : ProbeCache}
    (hact : Acts (w.caches i) q w.clock (.acquire s) cache (some (.initialized false))) :
    ∃ hash, env.role q = .reader hash ∧ map hash = none := by
  obtain ⟨phase, hc, hv⟩ := hact.shares
  have hstands := hw.linked.inside (r := q) (by rw [hw.inst]; exact hc)
  rw [hw.inst] at hstands
  exact ⟨_, hstands.role, hw.cells (Or.inr ⟨phase, hc, rfl⟩) hv⟩

omit hl hkeeps in
theorem step_knows (hkey : (env.role q).key = some key) : Knows map key (w'.session env q) := by
  have hold := hw.knows hkey
  cases moves_of_step h q with
  | @acts e resp k cache htask hlocal _ hhist _ _ =>
    rw [session_snoc hhist]
    refine ⟨?_, ?_, ?_⟩
    · intro reply hprobe
      rcases learn_probe hprobe with hprobe | ⟨key', hev⟩
      · exact hold.probe hprobe
      · cases hev
        cases hlocal
    · intro reply hgot
      rcases learn_got hgot with hgot | ⟨key', hev⟩
      · exact hold.got hgot
      · cases hev
        cases hlocal
    · intro hshared
      rcases learn_shared hshared with hshared | ⟨s, hev⟩
      · exact hold.shared hshared
      · cases hev
        -- another probe of the cell has told `q`: `cells` has it right
        rw [hw.inst] at hlocal
        obtain ⟨hash, hrole, hnone⟩ := hw.shares (acts_of_localStep hlocal)
        rw [hrole] at hkey
        cases hkey
        exact hnone
  | @delivers call since reply k htask _ hhist _ =>
    have hcall : call.key = key :=
      Option.some.inj ((key_of_allows (hw.linked.tracks.allows_call htask)).symm.trans hkey)
    rw [session_snoc hhist]
    refine ⟨?_, ?_, ?_⟩
    · intro reply' hprobe
      rcases learn_probe hprobe with hprobe | ⟨key', hev⟩
      · exact hold.probe hprobe
      · cases hev
        rw [← show key' = key from hcall]
        exact hw.replies htask
    · intro reply' hgot
      rcases learn_got hgot with hgot | ⟨key', hev⟩
      · exact hold.got hgot
      · cases hev
        rw [← show key' = key from hcall]
        exact hw.replies htask
    · intro hshared
      rcases learn_shared hshared with hshared | ⟨s, hev⟩
      · exact hold.shared hshared
      · cases hev
  | stays _ hhist | arrives _ _ hhist | calls _ _ hhist | answers _ _ hhist | serves _ _ hhist
  | drops _ hhist =>
    rw [session_congr hhist]
    exact hold

/-! ## The cache -/

omit hl hkeeps in
theorem step_callers (hr : r ≠ q) : (w'.caches i).caller r = none := by
  have hout := hw.callers hr
  cases cacheMoves_of_step h i with
  | stays hcache => rw [hcache, hout]
  | acts _ htask hact =>
    have hq := hw.sole_ready htask
    subst hq
    rw [hact.caller hr, hout]
  | @cancels r' _ hcache =>
    rw [hcache]
    by_cases heq : r = r'
    · subst heq
      exact ProbeCache.caller_cancel_self
    · rw [ProbeCache.caller_cancel heq, hout]

omit hl hkeeps in
theorem step_cells {s : SlotId} (hreach : Reaches (w'.caches i) q s)
    (hv : (w'.caches i).value s = some false) : map ((w'.caches i).arena s).hash = none := by
  have hs : s < (w'.caches i).fresh := hreach.lt ((hw.linked.step h).wf i)
  cases cacheMoves_of_step h i with
  | stays hcache =>
    rw [hcache] at hreach hv ⊢
    exact hw.cells hreach hv
  | acts hi htask hact =>
    have hq := hw.sole_ready htask
    subst hq
    rcases hact.value_cases hs hv with ⟨hs', hv'⟩ | ⟨-, hno, -⟩ | ⟨⟨since, hc⟩, s', rfl⟩
    · rw [hact.grows.hash hs']
      exact hw.cells (reaches_of_acts hact hs' hreach) hv'
    · cases hno
    · -- its probe has just ended in *absent*
      have hstands := hw.linked.inside (by rw [hi]; exact hc)
      rw [hi] at hstands
      have ha := hw.linked.tracks.allows htask
      rw [hstands.role] at ha
      obtain ⟨-, -, reply, hreply, hverdict⟩ := ha
      have hlt : s < (w.caches i).fresh := (hw.linked.wf i).caller_lt hc
      rw [hact.grows.hash hlt]
      refine (hw.knows (by rw [hstands.role]; rfl)).unbound ⟨.notFound, ?_⟩
      rw [hreply, Session.verdict_eq_false.mp hverdict.symm]
  | @cancels r' hi hcache =>
    rw [hcache] at hreach hv hs ⊢
    rw [ProbeCache.fresh_cancel] at hs
    rw [ProbeCache.value_cancel] at hv
    rw [(ProbeCache.Extends.cancel _ r').hash hs]
    refine hw.cells ?_ hv
    rcases hreach with ⟨key, hentry⟩ | ⟨phase, hc, rfl⟩
    · rw [ProbeCache.entry_cancel] at hentry
      exact Or.inl ⟨key, hentry⟩
    -- whoever is dropped is a caller no more
    · by_cases heq : q = r'
      · subst heq
        rw [ProbeCache.caller_cancel_self] at hc
        cases hc
      · rw [ProbeCache.caller_cancel heq] at hc
        exact Or.inr ⟨phase, hc, rfl⟩

omit hl hkeeps in
/-- A key that `q` has marked has no *absent* in the map. -/
theorem step_marked {s : SlotId} (hrole : env.role q = .writer key)
    (hmarked : (w'.session env q).marked = true) (hentry : (w'.caches i).entry key = some s) :
    (w'.caches i).value s ≠ some false := by
  intro hv
  have hs : s < (w'.caches i).fresh := ((hw.linked.step h).wf i).entry_lt hentry
  -- either it was marked before, or this step overwrites the slot
  have hnew : (w.session env q).marked = true ∨
      ∃ now, w'.caches i = (w.caches i).markPresent key now := by
    cases moves_of_step h q with
    | @acts e resp k cache htask hlocal _ hhist _ hcache =>
      rw [session_snoc hhist] at hmarked
      rcases learn_marked hmarked with hbefore | ⟨hash, now, rfl⟩
      · exact Or.inl hbefore
      · have ha := hw.linked.tracks.allows htask
        rw [hrole] at ha
        obtain ⟨rfl, -⟩ := ha
        cases hlocal
        rw [hw.inst] at hcache
        exact Or.inr ⟨now, hcache⟩
    | delivers _ _ hhist _ =>
      rw [session_snoc hhist] at hmarked
      rcases learn_marked hmarked with hbefore | ⟨hash, now, hno⟩
      · exact Or.inl hbefore
      · cases hno
    | stays _ hhist | arrives _ _ hhist | calls _ _ hhist | answers _ _ hhist | serves _ _ hhist
    | drops _ hhist =>
      rw [session_congr hhist] at hmarked
      exact Or.inl hmarked
  rcases hnew with hbefore | ⟨now, hcache⟩
  · cases cacheMoves_of_step h i with
    | stays hcache =>
      rw [hcache] at hentry hv
      exact hw.marked hrole hbefore hentry hv
    | acts hi htask hact =>
      have hq := hw.sole_ready htask
      subst hq
      rcases hact.value_cases hs hv with ⟨hs', hv'⟩ | ⟨-, hno, -⟩ | ⟨-, s', rfl⟩
      · rcases hact.entry_cases hentry with hentry' | ⟨rfl, -⟩
        · exact hw.marked hrole hbefore hentry' hv'
        · exact Nat.lt_irrefl _ hs'
      · cases hno
      · have ha := hw.linked.tracks.allows htask
        -- only a reader settles a cell
        rw [hrole] at ha
        exact ha
    | cancels hi hcache =>
      rw [hcache, ProbeCache.entry_cancel] at hentry
      rw [hcache, ProbeCache.value_cancel] at hv
      exact hw.marked hrole hbefore hentry hv
  · rw [hcache, ProbeCache.markPresent, ProbeCache.entry_insert, if_pos rfl] at hentry
    rw [hcache, ProbeCache.markPresent, ProbeCache.value_insert,
      if_pos (Option.some.inj hentry).symm] at hv
    cases hv

omit hkeeps in
/-- A reader that needs its slot stands in its cache. -/
theorem step_inside (hslot : (w'.session env q).slot ≠ none)
    (hopen : (w'.session env q).permit = true ∨
      (w'.session env q).shared = none ∧ (w'.session env q).probe = none) :
    (w'.caches i).caller q ≠ none := by
  cases step_cases h with
  | @act r e k cache resp htask hlocal =>
    have hq := hw.sole_ready htask
    subst hq
    have ha := hw.linked.tracks.allows htask
    rw [hw.inst] at hlocal
    have hact := acts_of_localStep hlocal
    simp only [session_did, if_pos, session_setTask, session_setCache] at hslot hopen
    simp only [caches_record, caches_setTask, caches_setCache, hw.inst, if_pos]
    cases hact with
    | slot hash now =>
      rw [ProbeCache.caller_call_self]
      exact Option.some_ne_none _
    | acquire s hpoll =>
      cases ProbeCache.poll_cases hpoll with
      | initialized hc hv =>
        -- told by the cell, it needs its slot no more
        obtain ⟨-, hpermit, -, -⟩ := allows_acquire ha
        rcases hopen with hno | ⟨hno, -⟩
        · rw [show (w.session env r).permit = true from hno] at hpermit
          cases hpermit
        · cases hno
      | first hc hcell => simp
      | turn hc hcell => simp
    | settle s value hfinish =>
      -- its probe is over, and with it the permit
      obtain ⟨-, -, reply, hreply, -⟩ := allows_settle ha
      rcases hopen with hno | ⟨-, hno⟩
      · cases hno
      · rw [show (w.session env r).probe = none from hno] at hreply
        cases hreply
    | markPresent hash now =>
      rw [ProbeCache.caller_markPresent]
      exact hw.inside hslot hopen
    | _ => exact hw.inside hslot hopen
  | @wait r e k cache htask hlocal =>
    have hq := hw.sole_ready htask
    subst hq
    rw [hw.inst] at hlocal
    have hact := acts_of_localStep hlocal
    simp only [caches_setCache, hw.inst, if_pos]
    cases hact with
    | wait s hpoll =>
      cases ProbeCache.poll_cases hpoll with
      | join hc hcell => simp
  | @deliver r call since reply k htask =>
    have hq := hw.sole_calling htask
    subst hq
    simp only [session_did, if_pos, session_setTask] at hslot hopen
    obtain ⟨hs, hshared, hpermit, hprobe⟩ := learn_reply (w.session env r) reply
    rw [hs] at hslot
    rw [hshared, hpermit] at hopen
    exact hw.inside hslot (hopen.imp_right fun hopen => ⟨hopen.1, hprobe hopen.2⟩)
  | cancelReady htask => exact absurd hl not_false
  | cancelCalling htask => exact absurd hl not_false
  | cancelServed htask => exact absurd hl not_false
  | arrive htask =>
    rw [session_record_arrived] at hslot hopen
    exact hw.inside hslot hopen
  | answer htask =>
    rw [session_record_answered] at hslot hopen
    exact hw.inside hslot hopen
  | call htask =>
    rw [session_record_called] at hslot hopen
    exact hw.inside hslot hopen
  | _ => exact hw.inside hslot hopen

/-- All of it, through one step that brings nobody new. -/
theorem step (harrive : ∀ r, l ≠ .arrive r) : Serving env initial i map q w' where
  smooth := hw.smooth.step h hl
  linked := hw.linked.step h
  inst := hw.inst
  idle {r} hr := by
    have htask' := (hw.idle hr).stays h hl (harrive r)
    rcases hw.idle hr with habsent | ⟨response, hans⟩
    · exact Or.inl (htask'.trans habsent)
    · exact Or.inr ⟨response, htask'.trans hans⟩
  callers hr := hw.step_callers h hr
  arrived := by
    obtain ⟨⟨entry, hmem, hreq⟩, habsent, hdropped⟩ := hw.arrived
    obtain ⟨new, hnew⟩ := trace_grows h
    refine ⟨⟨entry, by rw [hnew]; exact List.mem_append_right _ hmem, hreq⟩, ?_⟩
    cases moves_of_step h q with
    | stays htask' _ =>
      rw [htask']
      exact ⟨habsent, hdropped⟩
    | drops => exact absurd hl not_false
    | arrives _ htask' | calls _ htask' | acts _ _ htask' | answers _ htask' | serves _ htask'
    | delivers _ htask' =>
      rw [htask']
      exact ⟨by simp, by simp⟩
  inside := hw.step_inside h hl
  unwritten := hw.step_unwritten h hl hkeeps
  written := hw.step_written h hl hkeeps
  replies := hw.step_replies h hl
  knows := hw.step_knows h
  cells := hw.step_cells h
  marked := hw.step_marked h

end Serving

end World

end NxCacheServer.System
