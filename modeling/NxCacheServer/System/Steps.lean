import NxCacheServer.Lib.Run
import NxCacheServer.System.World

/-!
# What a step of the system does

`step_cases` reads a step back, one case for each thing that can happen.
`hist` is the history of one request, and `Tracks` ties its task to it: a task
is always what `Env.serve` has left after its history.

A step is about one request, or about none. `moves_of_step` says what it is for a
given one: the request acts, calls, is served, hears, is answered, is dropped, or
stays what it is. The invariants of the modules that follow are kept case by case of
this, and a change to `World.step` is a change to the two case lemmas.

`hist` takes the answered actions of one request out of the trace, oldest first. With
`Tracks` the history and the task never disagree, and facts about all histories of a
program, such as `serve_session`, hold of a request at any time of a run
(`NxCacheServer.System.Sessions`).
-/

namespace NxCacheServer.System

open NxCacheServer.Domain NxCacheServer.Infra NxCacheServer.Server NxCacheServer.Lib

/-- The answered action of an entry of `r`. -/
def Entry.answered (r : ReqId) (entry : Entry) : Option TaskEvent :=
  if entry.req = r then
    match entry.event with
    | .did ev => some ev
    | _ => none
  else none

/-- The program a task has left to run. -/
def Task.Left (task : Task) (p : Async Response) : Prop :=
  match task with
  | .ready q => p = q
  | .calling call _ _ k => p = .act (.s3 call) k
  | .answered response => p = .done response
  | _ => True

namespace World

variable {env : Env} {w w' : World} {r r' : ReqId} {i i' : InstId} {task : Task}
  {cache : ProbeCache} {event : Event} {call : S3Call} {ev : TaskEvent}

/-! ## Reading after writing -/

@[simp] theorem tasks_setTask :
    (w.setTask r task).tasks r' = if r' = r then task else w.tasks r' :=
  Function.update_apply ..

@[simp] theorem tasks_setCache : (w.setCache i cache).tasks = w.tasks := rfl

@[simp] theorem tasks_addStray : (w.addStray r call).tasks = w.tasks := rfl

@[simp] theorem tasks_record : (w.record r event).tasks = w.tasks := rfl

@[simp] theorem caches_setCache :
    (w.setCache i cache).caches i' = if i' = i then cache else w.caches i' :=
  Function.update_apply ..

@[simp] theorem caches_setTask : (w.setTask r task).caches = w.caches := rfl

@[simp] theorem caches_addStray : (w.addStray r call).caches = w.caches := rfl

@[simp] theorem caches_record : (w.record r event).caches = w.caches := rfl

@[simp] theorem strays_addStray :
    (w.addStray r call).strays r' = if r' = r then call :: w.strays r else w.strays r' :=
  Function.update_apply ..

@[simp] theorem strays_setTask : (w.setTask r task).strays = w.strays := rfl

@[simp] theorem strays_setCache : (w.setCache i cache).strays = w.strays := rfl

@[simp] theorem strays_record : (w.record r event).strays = w.strays := rfl

@[simp] theorem bucket_setTask : (w.setTask r task).bucket = w.bucket := rfl

@[simp] theorem bucket_setCache : (w.setCache i cache).bucket = w.bucket := rfl

@[simp] theorem bucket_addStray : (w.addStray r call).bucket = w.bucket := rfl

@[simp] theorem bucket_record : (w.record r event).bucket = w.bucket := rfl

@[simp] theorem clock_setTask : (w.setTask r task).clock = w.clock := rfl

@[simp] theorem clock_setCache : (w.setCache i cache).clock = w.clock := rfl

@[simp] theorem clock_addStray : (w.addStray r call).clock = w.clock := rfl

@[simp] theorem clock_record : (w.record r event).clock = w.clock := rfl

@[simp] theorem trace_setTask : (w.setTask r task).trace = w.trace := rfl

@[simp] theorem trace_setCache : (w.setCache i cache).trace = w.trace := rfl

@[simp] theorem trace_addStray : (w.addStray r call).trace = w.trace := rfl

@[simp] theorem trace_record : (w.record r event).trace = ⟨w.clock, r, event⟩ :: w.trace := rfl

/-! ## Histories -/

/-- The answered actions of `r`, in order. -/
def hist (w : World) (r : ReqId) : List TaskEvent := (w.trace.filterMap (Entry.answered r)).reverse

@[simp] theorem hist_setTask : (w.setTask r task).hist r' = w.hist r' := rfl

@[simp] theorem hist_setCache : (w.setCache i cache).hist r' = w.hist r' := rfl

@[simp] theorem hist_addStray : (w.addStray r call).hist r' = w.hist r' := rfl

@[simp] theorem hist_record_arrived : (w.record r .arrived).hist r' = w.hist r' := by
  simp [hist, record, Entry.answered]

@[simp] theorem hist_record_called : (w.record r (.called call)).hist r' = w.hist r' := by
  simp [hist, record, Entry.answered]

@[simp] theorem hist_record_answered {response : Response} :
    (w.record r (.answered response)).hist r' = w.hist r' := by
  simp [hist, record, Entry.answered]

@[simp] theorem hist_record_did :
    (w.record r (.did ev)).hist r' = if r' = r then w.hist r ++ [ev] else w.hist r' := by
  by_cases h : r' = r
  · simp [hist, record, Entry.answered, h]
  · simp [hist, record, Entry.answered, h, Ne.symm h]

/-- The history of a request is what the trace says that it did. -/
theorem mem_hist : ev ∈ w.hist r ↔ ∃ t, ⟨t, r, .did ev⟩ ∈ w.trace := by
  unfold hist
  rw [List.mem_reverse, List.mem_filterMap]
  constructor
  · intro h
    obtain ⟨⟨t, q, event⟩, hmem, hev⟩ := h
    unfold Entry.answered at hev
    split at hev
    next hq =>
      dsimp only at hq hev
      subst hq
      split at hev
      next ev' =>
        cases hev
        exact ⟨t, hmem⟩
      next => cases hev
    next => cases hev
  · intro h
    obtain ⟨t, hmem⟩ := h
    exact ⟨_, hmem, by simp [Entry.answered]⟩

/-- A call that has not been served may still take effect. -/
theorem mem_pending_of_calling {since : Instant} {k : call.Reply → Async Response}
    (htask : w.tasks r = .calling call since none k) : call ∈ w.pending r := by
  simp [pending, htask]

theorem mem_pending_of_stray {call : S3Call} (hmem : call ∈ w.strays r) : call ∈ w.pending r := by
  unfold pending
  split
  · exact List.mem_cons_of_mem _ hmem
  · exact hmem

/-- A task that waits for no reply has nothing more pending than the one it takes
the place of. -/
theorem mem_pending_setTask {call : S3Call}
    (htask : ∀ call since k, task ≠ .calling call since none k)
    (hmem : call ∈ (w.setTask r' task).pending r) : call ∈ w.pending r := by
  by_cases hr : r = r'
  · refine mem_pending_of_stray ?_
    unfold pending at hmem
    rw [tasks_setTask, if_pos hr] at hmem
    split at hmem
    next call' since k => exact absurd rfl (htask call' since k)
    next => exact hmem
  · unfold pending at hmem ⊢
    rw [tasks_setTask, if_neg hr] at hmem
    exact hmem

/-- A request that is given up on before S3 has seen it stays pending. -/
theorem mem_pending_addStray {call call' : S3Call} {since : Instant}
    {k : call'.Reply → Async Response} (hcalling : w.tasks r' = .calling call' since none k)
    (htask : ∀ call since k, task ≠ .calling call since none k)
    (hmem : call ∈ ((w.setTask r' task).addStray r' call').pending r) : call ∈ w.pending r := by
  by_cases hr : r = r'
  · subst hr
    unfold pending at hmem
    rw [tasks_addStray, tasks_setTask, if_pos rfl] at hmem
    split at hmem
    next call' since k => exact absurd rfl (htask call' since k)
    next =>
      rw [strays_addStray, if_pos rfl] at hmem
      unfold pending
      rw [hcalling]
      exact hmem
  · unfold pending at hmem ⊢
    rw [tasks_addStray, tasks_setTask, if_neg hr, strays_addStray, if_neg hr] at hmem
    exact hmem

/-- What happens inside an instance is no request to S3. -/
theorem localStep_local {c : ProbeCache} {e : Act} {x : ProbeCache × Option e.Resp}
    (h : localStep c r w.clock e = some x) : ∀ call, e ≠ .s3 call := by
  intro call he
  subst he
  cases h

variable [RustChar]

/-! ## The cases of a step -/

/-- What a step did, by its label, with the guards it has passed. -/
inductive Stepped (env : Env) (w : World) : Label → World → Prop
  | tick (d : Duration) : Stepped env w (.tick d) { w with clock := w.clock + d }
  | arrive {r : ReqId} (ht : w.tasks r = .absent) :
      Stepped env w (.arrive r) ((w.setTask r (.ready (env.serve r))).record r .arrived)
  | answer {r : ReqId} {response : Response} (ht : w.tasks r = .ready (.done response)) :
      Stepped env w (.run r) ((w.setTask r (.answered response)).record r (.answered response))
  | call {r : ReqId} {call : S3Call} {k : call.Reply → Async Response}
      (ht : w.tasks r = .ready (.act (.s3 call) k)) :
      Stepped env w (.run r) ((w.setTask r (.calling call w.clock none k)).record r (.called call))
  | act {r : ReqId} {e : Act} {k : e.Resp → Async Response} {cache : ProbeCache} {resp : e.Resp}
      (ht : w.tasks r = .ready (.act e k))
      (hl : localStep (w.caches (env.inst r)) r w.clock e = some (cache, some resp)) :
      Stepped env w (.run r) (((w.setCache (env.inst r) cache).setTask r (.ready (k resp))).record r
        (.did ⟨e, resp⟩))
  | wait {r : ReqId} {e : Act} {k : e.Resp → Async Response} {cache : ProbeCache}
      (ht : w.tasks r = .ready (.act e k))
      (hl : localStep (w.caches (env.inst r)) r w.clock e = some (cache, none)) :
      Stepped env w (.run r) (w.setCache (env.inst r) cache)
  | served {r : ReqId} {fate : Fate} {call : S3Call} {since : Instant}
      {k : call.Reply → Async Response} (ht : w.tasks r = .calling call since none k)
      (hf : fate.served = true) :
      Stepped env w (.serve r fate)
        { w.setTask r (.calling call since
            (some (fate.reply call (w.bucket.reply env.eTagOf call))) k) with
          bucket := w.bucket.apply env.eTagOf call }
  | failed {r : ReqId} {fate : Fate} {call : S3Call} {since : Instant}
      {k : call.Reply → Async Response} (ht : w.tasks r = .calling call since none k)
      (hf : fate.served = false) :
      Stepped env w (.serve r fate)
        ((w.setTask r (.calling call since
          (some (fate.reply call (w.bucket.reply env.eTagOf call))) k)).addStray r call)
  | deliver {r : ReqId} {call : S3Call} {since : Instant} {reply : call.Reply}
      {k : call.Reply → Async Response} (ht : w.tasks r = .calling call since (some reply) k) :
      Stepped env w (.deliver r) ((w.setTask r (.ready (k reply))).record r (.did ⟨.s3 call, reply⟩))
  | cancelReady {r : ReqId} {p : Async Response} (ht : w.tasks r = .ready p) :
      Stepped env w (.cancel r)
        ((w.setTask r .dropped).setCache (env.inst r) ((w.caches (env.inst r)).cancel r))
  | cancelCalling {r : ReqId} {call : S3Call} {since : Instant} {k : call.Reply → Async Response}
      (ht : w.tasks r = .calling call since none k) :
      Stepped env w (.cancel r)
        (((w.setTask r .dropped).setCache (env.inst r) ((w.caches (env.inst r)).cancel r)).addStray
          r call)
  | cancelServed {r : ReqId} {call : S3Call} {since : Instant} {reply : call.Reply}
      {k : call.Reply → Async Response} (ht : w.tasks r = .calling call since (some reply) k) :
      Stepped env w (.cancel r)
        ((w.setTask r .dropped).setCache (env.inst r) ((w.caches (env.inst r)).cancel r))
  | stray {r : ReqId} {call : S3Call} (hp : call ∈ w.pending r) :
      Stepped env w (.stray r call) { w with bucket := w.bucket.apply env.eTagOf call }
  | delete (key : Hash) :
      Stepped env w (.delete key) { w with bucket := w.bucket.setObject key none }

/-- Every step did what its label says, and nothing else. -/
theorem step_cases {l : Label} (h : w.step env l = some w') : Stepped env w l w' := by
  cases l with
  | tick d =>
    cases h
    exact .tick d
  | arrive r =>
    rw [step] at h
    split at h
    next ht =>
      cases h
      exact .arrive ht
    next => cases h
  | run r =>
    rw [step] at h
    split at h
    next response ht =>
      cases h
      exact .answer ht
    next call k ht =>
      cases h
      exact .call ht
    next e k _ ht =>
      split at h
      next cache resp hl =>
        cases h
        exact .act ht hl
      next cache hl =>
        cases h
        exact .wait ht hl
      next => cases h
    next => cases h
  | serve r fate =>
    rw [step] at h
    split at h
    next call since k ht =>
      split at h
      next hf =>
        cases h
        exact .served ht hf
      next hf =>
        cases h
        exact .failed ht (Bool.eq_false_iff.mpr hf)
    next => cases h
  | deliver r =>
    rw [step] at h
    split at h
    next call since reply k ht =>
      cases h
      exact .deliver ht
    next => cases h
  | cancel r =>
    rw [step] at h
    split at h
    next p ht =>
      cases h
      exact .cancelReady ht
    next call since reply k ht =>
      cases reply with
      | none =>
        cases h
        exact .cancelCalling ht
      | some reply =>
        cases h
        exact .cancelServed ht
    next => cases h
  | stray r call =>
    rw [step] at h
    split at h
    next hp =>
      cases h
      exact .stray hp
    next => cases h
  | delete key =>
    cases h
    exact .delete key

theorem clock_of_step {l : Label} (h : w.step env l = some w') : w.clock ≤ w'.clock := by
  cases step_cases h with
  | tick d => exact Nat.le_add_right _ _
  | _ => exact Nat.le_refl _

/-- What a step does to one request. -/
inductive Moves (env : Env) (w w' : World) (r : ReqId) : Label → Prop
  | stays {l : Label} (htask' : w'.tasks r = w.tasks r) (hhist : w'.hist r = w.hist r) :
      Moves env w w' r l
  | arrives (htask : w.tasks r = .absent) (htask' : w'.tasks r = .ready (env.serve r))
      (hhist : w'.hist r = w.hist r) (hbucket : w'.bucket = w.bucket) : Moves env w w' r (.arrive r)
  | calls {call : S3Call} {k : call.Reply → Async Response}
      (htask : w.tasks r = .ready (.act (.s3 call) k))
      (htask' : w'.tasks r = .calling call w.clock none k) (hhist : w'.hist r = w.hist r)
      (hbucket : w'.bucket = w.bucket) : Moves env w w' r (.run r)
  | acts {e : Act} {resp : e.Resp} {k : e.Resp → Async Response} {cache : ProbeCache}
      (htask : w.tasks r = .ready (.act e k))
      (hl : localStep (w.caches (env.inst r)) r w.clock e = some (cache, some resp))
      (htask' : w'.tasks r = .ready (k resp)) (hhist : w'.hist r = w.hist r ++ [⟨e, resp⟩])
      (hbucket : w'.bucket = w.bucket) (hcache : w'.caches (env.inst r) = cache) :
      Moves env w w' r (.run r)
  | answers {response : Response} (htask : w.tasks r = .ready (.done response))
      (htask' : w'.tasks r = .answered response) (hhist : w'.hist r = w.hist r)
      (hbucket : w'.bucket = w.bucket) : Moves env w w' r (.run r)
  | serves {fate : Fate} {call : S3Call} {since : Instant} {k : call.Reply → Async Response}
      (htask : w.tasks r = .calling call since none k)
      (htask' : w'.tasks r = .calling call since
        (some (fate.reply call (w.bucket.reply env.eTagOf call))) k)
      (hhist : w'.hist r = w.hist r)
      (hbucket : w'.bucket = if fate.served then w.bucket.apply env.eTagOf call else w.bucket) :
      Moves env w w' r (.serve r fate)
  | delivers {call : S3Call} {since : Instant} {reply : call.Reply}
      {k : call.Reply → Async Response} (htask : w.tasks r = .calling call since (some reply) k)
      (htask' : w'.tasks r = .ready (k reply)) (hhist : w'.hist r = w.hist r ++ [⟨.s3 call, reply⟩])
      (hbucket : w'.bucket = w.bucket) : Moves env w w' r (.deliver r)
  | drops (htask' : w'.tasks r = .dropped) (hhist : w'.hist r = w.hist r)
      (hbucket : w'.bucket = w.bucket) : Moves env w w' r (.cancel r)

/-- What a step is to one request: its own move, or nothing at all. -/
theorem moves_of_step {l : Label} (h : w.step env l = some w') (r : ReqId) :
    Moves env w w' r l := by
  cases step_cases h with
  | tick d => exact .stays rfl rfl
  | @arrive r' htask =>
    by_cases hr : r = r'
    · subst hr
      exact .arrives htask (by simp) (by simp) rfl
    · exact .stays (by simp [hr]) (by simp)
  | @answer r' response htask =>
    by_cases hr : r = r'
    · subst hr
      exact .answers htask (by simp) (by simp) rfl
    · exact .stays (by simp [hr]) (by simp)
  | @call r' call k htask =>
    by_cases hr : r = r'
    · subst hr
      exact .calls htask (by simp) (by simp) rfl
    · exact .stays (by simp [hr]) (by simp)
  | @act r' e k cache resp htask hl =>
    by_cases hr : r = r'
    · subst hr
      exact .acts htask hl (by simp) (by simp) rfl (by simp)
    · exact .stays (by simp [hr]) (by simp [hr])
  | wait htask hl => exact .stays rfl rfl
  | @served r' fate call since k htask hf =>
    by_cases hr : r = r'
    · subst hr
      exact .serves htask (by simp) rfl (by rw [if_pos hf])
    · exact .stays (by simp [hr]) rfl
  | @failed r' fate call since k htask hf =>
    by_cases hr : r = r'
    · subst hr
      exact .serves htask (by simp) rfl (by rw [if_neg (by simp [hf])]; rfl)
    · exact .stays (by simp [hr]) rfl
  | @deliver r' call since reply k htask =>
    by_cases hr : r = r'
    · subst hr
      exact .delivers htask (by simp) (by simp) rfl
    · exact .stays (by simp [hr]) (by simp [hr])
  | @cancelReady r' p htask =>
    by_cases hr : r = r'
    · subst hr
      exact .drops (by simp) rfl rfl
    · exact .stays (by simp [hr]) rfl
  | @cancelCalling r' call since k htask =>
    by_cases hr : r = r'
    · subst hr
      exact .drops (by simp) rfl rfl
    · exact .stays (by simp [hr]) rfl
  | @cancelServed r' call since reply k htask =>
    by_cases hr : r = r'
    · subst hr
      exact .drops (by simp) rfl rfl
    · exact .stays (by simp [hr]) rfl
  | stray hp => exact .stays rfl rfl
  | delete key => exact .stays rfl rfl

/-! ## Tasks follow their code -/

/-- Every task is what its code has left after its history. -/
def Tracks (env : Env) (w : World) : Prop :=
  ∀ r, (w.tasks r = .absent → w.hist r = []) ∧
    ∃ p, Prog.After (env.serve r) (w.hist r) p ∧ Task.Left (w.tasks r) p

theorem tracks_init {objects : Hash → Option Bytes} : Tracks env (init objects) :=
  fun r => ⟨fun _ => rfl, env.serve r, .nil, trivial⟩

/-- A task is always what is left of the program after its history. -/
theorem Tracks.step {l : Label} (ht : Tracks env w) (h : w.step env l = some w') :
    Tracks env w' := by
  intro r
  obtain ⟨habsent, p, hafter, hp⟩ := ht r
  cases moves_of_step h r with
  | stays htask' hhist =>
    rw [htask', hhist]
    exact ⟨habsent, p, hafter, hp⟩
  | arrives htask htask' hhist _ =>
    rw [htask', hhist, habsent htask]
    exact ⟨(fun hno => by cases hno), env.serve r, .nil, rfl⟩
  | calls htask htask' hhist _ =>
    rw [htask', hhist]
    rw [htask] at hp
    exact ⟨(fun hno => by cases hno), p, hafter, hp⟩
  | @acts e resp k cache htask hl htask' hhist _ =>
    rw [htask', hhist]
    rw [htask] at hp
    rw [show p = .act e k from hp] at hafter
    exact ⟨(fun hno => by cases hno), k resp, hafter.snoc resp, rfl⟩
  | answers htask htask' hhist _ =>
    rw [htask', hhist]
    rw [htask] at hp
    exact ⟨(fun hno => by cases hno), p, hafter, hp⟩
  | serves htask htask' hhist _ =>
    rw [htask', hhist]
    rw [htask] at hp
    exact ⟨(fun hno => by cases hno), p, hafter, hp⟩
  | @delivers call since reply k htask htask' hhist _ =>
    rw [htask', hhist]
    rw [htask] at hp
    rw [show p = .act (.s3 call) k from hp] at hafter
    exact ⟨(fun hno => by cases hno), k reply, hafter.snoc (e := Act.s3 call) reply, rfl⟩
  | drops htask' hhist _ =>
    rw [htask', hhist]
    exact ⟨(fun hno => by cases hno), p, hafter, trivial⟩

end World

end NxCacheServer.System
