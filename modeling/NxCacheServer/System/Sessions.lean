import NxCacheServer.Server.Served
import NxCacheServer.System.Steps

/-!
# Sessions of a running system

What each request has learnt (`session`) and may do next, read off its history:
`Tracks.allows`, `Tracks.allows_call` and `Tracks.ends` are `serve_session` in
a running system.

`Env.role` is the role of a request with the configuration of the instance it is sent
to, so it does not change along a run. From here on what a request may do is taken
from its role and its session, and the code of the handlers is not looked at again.
-/

namespace NxCacheServer.System

open NxCacheServer.Domain NxCacheServer.Infra NxCacheServer.Server NxCacheServer.Lib

variable [RustChar]

/-- The role of a request on the instance it is sent to. -/
def Env.role (env : Env) (r : ReqId) : Role :=
  Server.role (env.config (env.inst r)) (env.request r)

/-- The body a request sends. -/
def Env.body (env : Env) (r : ReqId) : Body := (env.request r).body

/-- `r` is a PUT of the valid key `key` with the service token of its instance. -/
structure Env.Puts (env : Env) (r : ReqId) (key : Hash) : Prop where
  method : (env.request r).method = .put
  path : pathHash (env.request r).segment = some key
  valid : ValidHash key
  token : (env.request r).bearerToken =
    some (tokenBytes (env.config (env.inst r)).serviceAccessToken)

/-- `r` is a GET or HEAD of the valid key `key` with either token. -/
structure Env.Gets (env : Env) (r : ReqId) (key : Hash) : Prop where
  method : (env.request r).method.isRead = true
  path : pathHash (env.request r).segment = some key
  valid : ValidHash key
  token : ∃ token, (env.request r).bearerToken = some token ∧
    (isReadWrite (env.config (env.inst r)) token = true ∨
      isReadOnly (env.config (env.inst r)) token = true)

/-- A PUT that is let in with a valid key is a writer. -/
theorem Env.puts_iff {env : Env} {r : ReqId} {key : Hash} :
    env.Puts r key ↔ env.role r = .writer key := by
  constructor
  · intro h
    have hrw : isReadWrite (env.config (env.inst r))
        (tokenBytes (env.config (env.inst r)).serviceAccessToken) = true := by
      simp [isReadWrite, ctEq]
    simp [Env.role, Server.role, h.token, hrw, routeRole, h.method, h.path, h.valid]
  · intro h
    obtain ⟨hmethod, hpath, hvalid, htoken⟩ := role_writer h
    exact ⟨hmethod, hpath, hvalid, htoken⟩

/-- A read that is let in with a valid key is a reader. -/
theorem Env.gets_iff {env : Env} {r : ReqId} {key : Hash} :
    env.Gets r key ↔ env.role r = .reader key := by
  constructor
  · intro h
    obtain ⟨token, htoken, hknown⟩ := h.token
    have hroute : env.role r = routeRole (env.request r) := by
      rcases hknown with hrw | hro
      · simp [Env.role, Server.role, htoken, hrw]
      · simp [Env.role, Server.role, htoken, hro, h.method]
    have hmethod := h.method
    rw [hroute, routeRole, h.path]
    cases hm : (env.request r).method with
    | get => simp [h.valid]
    | head => simp [h.valid]
    | put =>
      rw [hm] at hmethod
      cases hmethod
    | other name =>
      rw [hm] at hmethod
      cases hmethod
  · intro h
    obtain ⟨hmethod, hpath, hvalid, htoken⟩ := role_reader h
    exact ⟨hmethod, hpath, hvalid, htoken⟩

omit [RustChar] in
/-- What the requests of the small deployment ask for. -/
theorem Env.puts_example {requests : List (InstId × Request)} {r : ReqId} {i : InstId}
    {bytes : Bytes} (h : requests.getD r (0, exampleGet) = (i, examplePut bytes)) :
    @Env.Puts asciiChars (exampleEnv requests) r "abc" := by
  have hrequest : (exampleEnv requests).request r = examplePut bytes := congrArg Prod.snd h
  let _ : RustChar := asciiChars
  refine ⟨?_, ?_, by decide, ?_⟩ <;> rw [hrequest]
  · rfl
  · exact show pathHash [97, 98, 99] = some "abc" by decide
  · rfl

omit [RustChar] in
/-- The GET of the examples is a reader of its key. -/
theorem Env.gets_example {requests : List (InstId × Request)} {r : ReqId} {i : InstId}
    (h : requests.getD r (0, exampleGet) = (i, exampleGet)) :
    @Env.Gets asciiChars (exampleEnv requests) r "abc" := by
  have hrequest : (exampleEnv requests).request r = exampleGet := congrArg Prod.snd h
  let _ : RustChar := asciiChars
  refine ⟨?_, ?_, by decide, [114, 111], ?_, Or.inr rfl⟩ <;> rw [hrequest]
  · rfl
  · exact show pathHash [97, 98, 99] = some "abc" by decide
  · rfl

namespace World

/-- What request `r` has learnt so far. -/
def session (env : Env) (w : World) (r : ReqId) : Session :=
  (Server.session (env.role r) (env.body r)).after Session.start (w.hist r)

variable {env : Env} {w w' : World} {r r' : ReqId} {i : InstId} {task : Task} {cache : ProbeCache}
  {call : S3Call} {ev : TaskEvent} {response : Response}

/-- A request that has done nothing knows what it knew. -/
theorem session_congr (h : w'.hist r = w.hist r) : w'.session env r = w.session env r := by
  rw [session, session, h]

/-- An event teaches the request it is of what the answer says. -/
theorem session_snoc (h : w'.hist r = w.hist r ++ [ev]) :
    w'.session env r = (w.session env r).learn ev.1 ev.2 := by
  rw [session, session, h, Prog.Contract.after_snoc]
  rfl

@[simp] theorem session_setTask : (w.setTask r task).session env r' = w.session env r' := rfl

@[simp] theorem session_setCache : (w.setCache i cache).session env r' = w.session env r' := rfl

@[simp] theorem session_record_arrived :
    (w.record r .arrived).session env r' = w.session env r' := session_congr (by simp)

@[simp] theorem session_record_called :
    (w.record r (.called call)).session env r' = w.session env r' := session_congr (by simp)

@[simp] theorem session_record_answered :
    (w.record r (.answered response)).session env r' = w.session env r' := session_congr (by simp)

theorem session_did : (w.record r (.did ev)).session env r' =
    if r' = r then (w.session env r).learn ev.1 ev.2 else w.session env r' := by
  split
  next h =>
    rw [h]
    exact session_snoc (by simp)
  next h => exact session_congr (by simp [h])

/-- A request that has not arrived has learnt nothing. -/
theorem Tracks.session_absent (ht : Tracks env w) (htask : w.tasks r = .absent) :
    w.session env r = Session.start := by
  rw [session, (ht r).1 htask]
  rfl

/-- The task of `r` keeps to its role. -/
theorem Tracks.keeps (ht : Tracks env w) (r : ReqId) : ∃ p, Task.Left (w.tasks r) p ∧
    p.wp (Server.session (env.role r) (env.body r)) (fun response g =>
      ∃ inner, response = finalize (env.request r) inner ∧
        g.Ends (env.role r) (env.body r) inner) (w.session env r) := by
  obtain ⟨p, hafter, hleft⟩ := (ht r).2
  exact ⟨p, hleft, Prog.wp_after (session_unpromising _ _) serve_session hafter⟩

/-- What a task does next is allowed by what it knows. -/
theorem Tracks.allows (ht : Tracks env w) {e : Act} {k : e.Resp → Async Response}
    (htask : w.tasks r = .ready (.act e k)) :
    (w.session env r).Allows (env.role r) (env.body r) e := by
  obtain ⟨p, hleft, hwp⟩ := ht.keeps r
  rw [htask] at hleft
  rw [show p = .act e k from hleft] at hwp
  exact hwp.1

theorem Tracks.allows_call (ht : Tracks env w) {since : Instant} {reply : Option call.Reply}
    {k : call.Reply → Async Response} (htask : w.tasks r = .calling call since reply k) :
    (w.session env r).Allows (env.role r) (env.body r) (.s3 call) := by
  obtain ⟨p, hleft, hwp⟩ := ht.keeps r
  rw [htask] at hleft
  rw [show p = .act (.s3 call) k from hleft] at hwp
  exact hwp.1

theorem Tracks.ends (ht : Tracks env w) (htask : w.tasks r = .answered response ∨
    w.tasks r = .ready (.done response)) :
    ∃ inner, response = finalize (env.request r) inner ∧
      (w.session env r).Ends (env.role r) (env.body r) inner := by
  obtain ⟨p, hleft, hwp⟩ := ht.keeps r
  rcases htask with htask | htask
  · rw [htask] at hleft
    rw [show p = .done response from hleft] at hwp
    exact hwp
  · rw [htask] at hleft
    rw [show p = .done response from hleft] at hwp
    exact hwp

/-- What every session of a role keeps. -/
theorem Tracks.session_invariant (ht : Tracks env w) {I : Session → Prop} (r : ReqId)
    (hstart : I Session.start)
    (hlearn : ∀ g e resp, I g → g.Allows (env.role r) (env.body r) e → I (g.learn e resp)) :
    I (w.session env r) := by
  obtain ⟨p, hafter, -⟩ := (ht r).2
  exact Prog.after_invariant (session_unpromising _ _) hlearn serve_session hstart hafter

/-- The task of `r` has only done what its role allows. -/
theorem Tracks.allowed (ht : Tracks env w) (hev : ev ∈ w.hist r) :
    ∃ g : Session, g.Allows (env.role r) (env.body r) ev.1 := by
  obtain ⟨p, hafter, -⟩ := (ht r).2
  exact Prog.after_allowed (session_unpromising _ _) serve_session hafter ev hev

/-! ## What sessions learn -/

omit [RustChar] in
/-- Local actions teach nothing about S3. -/
theorem learn_local {e : Act} (g : Session) (resp : e.Resp) (he : ∀ call, e ≠ .s3 call) :
    (g.learn e resp).probe = g.probe ∧ (g.learn e resp).got = g.got ∧
      (g.learn e resp).upload = g.upload ∧ (g.learn e resp).listed = g.listed ∧
      (g.learn e resp).wrote = g.wrote ∧ (g.learn e resp).failed = g.failed ∧
      (g.learn e resp).aborted = g.aborted := by
  unfold Session.learn
  split
  all_goals first | exact absurd rfl (he _) | exact ⟨rfl, rfl, rfl, rfl, rfl, rfl, rfl⟩

omit [RustChar] in
/-- A request asks S3 only about its own key. -/
theorem key_of_allows {g : Session} {role : Role} {body : Body}
    (ha : g.Allows role body (.s3 call)) : role.key = some call.key := by
  cases role with
  | writer hash =>
    cases call with
    | getObject key => exact absurd ha not_false
    | headObject key => exact congrArg some ha.1.symm
    | putObject key bytes => exact congrArg some ha.1.symm
    | createMultipartUpload key => exact congrArg some ha.1.symm
    | uploadPart key id n len bytes => exact congrArg some ha.1.symm
    | completeMultipartUpload key id parts => exact congrArg some ha.1.symm
    | abortMultipartUpload key id => exact congrArg some ha.1.symm
  | reader hash =>
    cases call with
    | headObject key => exact congrArg some ha.1.symm
    | getObject key => exact congrArg some ha.1.symm
    | _ => exact absurd ha not_false
  | refused response => exact absurd ha not_false

omit [RustChar] in
/-- A key is looked up only once, so what was not found stays not found. -/
theorem learn_keeps_absent {g : Session} {e : Act} {resp : e.Resp} {hash : Hash} {body : Body}
    (h : g.Absent) (ha : g.WriterAllows hash body e) : (g.learn e resp).Absent := by
  obtain ⟨err, hprobe⟩ := h
  unfold Session.learn
  split
  case h_1 key reply =>
    rw [ha.2] at hprobe
    cases hprobe
  all_goals exact ⟨err, hprobe⟩

/-! ## What a step changes, request by request -/

/-- What a step teaches `r`: nothing, the answer to a local action, or a reply
of S3. -/
inductive Learns (env : Env) (w w' : World) (r : ReqId) : Prop
  | nothing (heq : w'.session env r = w.session env r)
  | act (e : Act) (resp : e.Resp) (hlocal : ∀ call, e ≠ .s3 call)
      (hallows : (w.session env r).Allows (env.role r) (env.body r) e)
      (heq : w'.session env r = (w.session env r).learn e resp)
  | reply (call : S3Call) (since : Instant) (reply : call.Reply) (k : call.Reply → Async Response)
      (htask : w.tasks r = .calling call since (some reply) k)
      (hallows : (w.session env r).Allows (env.role r) (env.body r) (.s3 call))
      (heq : w'.session env r = (w.session env r).learn (.s3 call) reply)

theorem learns_of_step {l : Label} (ht : Tracks env w) (h : w.step env l = some w') (r : ReqId) :
    Learns env w w' r := by
  cases moves_of_step h r with
  | stays _ hhist => exact .nothing (session_congr hhist)
  | arrives _ _ hhist _ => exact .nothing (session_congr hhist)
  | calls _ _ hhist _ => exact .nothing (session_congr hhist)
  | @acts e resp k cache htask hl _ hhist _ =>
    exact .act e resp (localStep_local hl) (ht.allows htask) (session_snoc hhist)
  | answers _ _ hhist _ => exact .nothing (session_congr hhist)
  | serves _ _ hhist _ => exact .nothing (session_congr hhist)
  | @delivers call since reply k htask _ hhist _ =>
    exact .reply call since reply k htask (ht.allows_call htask) (session_snoc hhist)
  | drops _ hhist _ => exact .nothing (session_congr hhist)

/-- A step may ask S3 for what the session allows, and for nothing else new. -/
theorem pending_of_step {l : Label} (ht : Tracks env w) (h : w.step env l = some w') {r : ReqId}
    {call : S3Call} (hcall : call ∈ w'.pending r) : call ∈ w.pending r ∨
      (w.session env r).Allows (env.role r) (env.body r) (.s3 call) ∧
        w'.trace = ⟨w.clock, r, .called call⟩ :: w.trace := by
  cases step_cases h with
  | arrive _ | answer _ | act _ _ | served _ _ | deliver _ | cancelReady _ | cancelServed _ =>
    refine Or.inl (mem_pending_setTask ?_ hcall)
    intro _ _ _ heq
    cases heq
  | @call r' call' k htask =>
    by_cases hr : r = r'
    · subst hr
      simp only [pending, tasks_record, tasks_setTask, if_pos, strays_record, strays_setTask,
        List.mem_cons] at hcall
      rcases hcall with heq | hmem
      · rw [heq]
        exact Or.inr ⟨ht.allows htask, rfl⟩
      · exact Or.inl (mem_pending_of_stray hmem)
    · refine Or.inl ?_
      simp only [pending, tasks_record, tasks_setTask, if_neg hr, strays_record,
        strays_setTask] at hcall
      exact hcall
  | failed htask _ | cancelCalling htask =>
    -- what the request gives up on goes astray, and is still pending
    refine Or.inl (mem_pending_addStray htask ?_ hcall)
    intro _ _ _ heq
    cases heq
  | _ => exact Or.inl hcall

/-- What a step does to the bucket. -/
inductive Stores (env : Env) (w w' : World) : Prop
  | same (heq : w'.bucket = w.bucket)
  | apply (r : ReqId) (call : S3Call) (hmem : call ∈ w.pending r)
      (heq : w'.bucket = w.bucket.apply env.eTagOf call)
  | delete (key : Hash) (heq : w'.bucket = w.bucket.setObject key none)

/-- What a step does to the bucket. -/
theorem stores_of_step {l : Label} (h : w.step env l = some w') : Stores env w w' := by
  cases step_cases h with
  | tick d => exact .same rfl
  | arrive htask => exact .same rfl
  | answer htask => exact .same rfl
  | call htask => exact .same rfl
  | act htask hl => exact .same rfl
  | wait htask hl => exact .same rfl
  | @served r fate call since k htask hf =>
    exact .apply r call (mem_pending_of_calling htask) rfl
  | failed htask hf => exact .same rfl
  | deliver htask => exact .same rfl
  | cancelReady htask => exact .same rfl
  | cancelCalling htask => exact .same rfl
  | cancelServed htask => exact .same rfl
  | @stray r call hp => exact .apply r call hp rfl
  | delete key => exact .delete key rfl

/-- A reply that waits for its delivery was there, or S3 has just given it. -/
theorem reply_of_step {l : Label} (h : w.step env l = some w') {r : ReqId} {call : S3Call}
    {since : Instant} {reply : call.Reply} {k : call.Reply → Async Response}
    (htask : w'.tasks r = .calling call since (some reply) k) :
    w.tasks r = .calling call since (some reply) k ∨
    ∃ fate, l = .serve r fate ∧ w.tasks r = .calling call since none k ∧
      reply = fate.reply call (w.bucket.reply env.eTagOf call) ∧
      w'.bucket = if fate.served then w.bucket.apply env.eTagOf call else w.bucket := by
  cases moves_of_step h r with
  | stays htask' _ => exact Or.inl (htask'.symm.trans htask)
  | @serves fate call' since' k' hcalling htask' _ hbucket =>
    rw [htask'] at htask
    cases htask
    exact Or.inr ⟨fate, rfl, hcalling, rfl, hbucket⟩
  | arrives _ htask' | calls _ htask' | acts _ _ htask' | answers _ htask' | delivers _ htask'
  | drops htask' =>
    rw [htask'] at htask
    cases htask

/-- What can happen to `r` in `w`, as an event. -/
inductive Occurs (env : Env) (w : World) (r : ReqId) : Event → Prop
  | arrived (htask : w.tasks r = .absent) : Occurs env w r .arrived
  | called {call : S3Call} {k : call.Reply → Async Response}
      (htask : w.tasks r = .ready (.act (.s3 call) k)) : Occurs env w r (.called call)
  | acted {e : Act} {resp : e.Resp} {k : e.Resp → Async Response} {cache : ProbeCache}
      (htask : w.tasks r = .ready (.act e k))
      (hl : localStep (w.caches (env.inst r)) r w.clock e = some (cache, some resp)) :
      Occurs env w r (.did ⟨e, resp⟩)
  | replied {call : S3Call} {since : Instant} {reply : call.Reply}
      {k : call.Reply → Async Response} (htask : w.tasks r = .calling call since (some reply) k) :
      Occurs env w r (.did ⟨.s3 call, reply⟩)
  | answered {response : Response} (htask : w.tasks r = .ready (.done response)) :
      Occurs env w r (.answered response)

/-- A step adds at most one entry to the trace. -/
theorem trace_of_step {l : Label} (h : w.step env l = some w') : w'.trace = w.trace ∨
    ∃ r event, w'.trace = ⟨w.clock, r, event⟩ :: w.trace ∧ Occurs env w r event := by
  cases step_cases h with
  | tick d => exact Or.inl rfl
  | @arrive r htask => exact Or.inr ⟨r, _, rfl, .arrived htask⟩
  | @answer r response htask => exact Or.inr ⟨r, _, rfl, .answered htask⟩
  | @call r call k htask => exact Or.inr ⟨r, _, rfl, .called htask⟩
  | @act r e k cache resp htask hl => exact Or.inr ⟨r, _, rfl, .acted htask hl⟩
  | wait htask hl => exact Or.inl rfl
  | served htask hf => exact Or.inl rfl
  | failed htask hf => exact Or.inl rfl
  | @deliver r call since reply k htask => exact Or.inr ⟨r, _, rfl, .replied htask⟩
  | cancelReady htask => exact Or.inl rfl
  | cancelCalling htask => exact Or.inl rfl
  | cancelServed htask => exact Or.inl rfl
  | stray hp => exact Or.inl rfl
  | delete key => exact Or.inl rfl

/-- Entries are never removed. -/
theorem trace_grows {l : Label} (h : w.step env l = some w') :
    ∃ new, w'.trace = new ++ w.trace := by
  rcases trace_of_step h with heq | ⟨r, event, heq, -⟩
  · exact ⟨[], heq⟩
  · exact ⟨[⟨w.clock, r, event⟩], heq⟩

end World

end NxCacheServer.System
