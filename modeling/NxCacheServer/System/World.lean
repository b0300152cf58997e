import NxCacheServer.Server.CacheInv
import NxCacheServer.Server.Router
import NxCacheServer.System.Bucket

/-!
# Server instances on one bucket

Any number of instances, each with its own configuration and probe cache, serve
any number of requests on one bucket. A request is a task (`Env.serve`, the
code of the router) that runs one action at a time, in any order with the
others; only S3 requests are split in three, the call, the moment S3 serves it,
and the delivery of the reply, so that a reply may be old when it arrives.

A request to S3 may fail (`Fate.fail`), and the client of a task may go away at
any await (`Label.cancel`). What it had asked of S3 then may still take effect
at any later time, or several times, or never (`Label.stray`).

`trace` is what has happened so far, newest first; the statements about whole
runs are about it.

Mirroring notes:
- The steps are the awaits of tokio: between two of them other tasks may run, on as
  many threads as one likes, and what a task does under a mutex is one step.
- Time goes by in `tick` only, and by any amount; `Instant::now()` reads the clock
  of the world. All instances have the same clock.
- A timeout of the SDK is a `Fate.fail`, at any time. What S3 does after it has been
  given up is a `stray` of the request.
- `HashMap` and `Arc` of the cache are in `NxCacheServer.Server.ProbeCache`; a world
  has one cache for each instance, and none is ever shared.
- Objects are deleted from outside only (`Label.delete`), by the lifecycle rule of
  the bucket or by hand; the server has no code for it.
-/

namespace NxCacheServer.System

open NxCacheServer.Domain NxCacheServer.Infra NxCacheServer.Server NxCacheServer.Lib

/-- An instance is a process with its own configuration and cache. -/
abbrev InstId := Nat

/-- A request is also the caller of `present` on its instance. -/
abbrev ReqId := CallerId

/-- What a run is given: the configuration of each instance, the requests and
the instances they are sent to, and how S3 computes ETags. -/
structure Env where
  config : InstId → ServerConfig
  inst : ReqId → InstId
  request : ReqId → Request
  eTagOf : Bytes → ETag

/-- The task that serves request `r`. -/
def Env.serve [RustChar] (env : Env) (r : ReqId) : Async Response :=
  Server.serve s3Storage (env.config (env.inst r)) (env.request r)

/-- Where a request stands. -/
inductive Task
  /-- The request has not arrived. -/
  | absent
  | ready (p : Async Response)
  /-- It awaits the reply to `call`; `reply` is there once S3 has served it. -/
  | calling (call : S3Call) (since : Instant) (reply : Option call.Reply)
      (k : call.Reply → Async Response)
  | answered (response : Response)
  /-- Its client went away. -/
  | dropped

/-- The response of a task that is answered. -/
def Task.response : Task → Option Response
  | .answered response => some response
  | _ => none

theorem Task.response_eq_some {task : Task} {response : Response} :
    task.response = some response ↔ task = .answered response := by
  cases task <;> simp [Task.response]

instance (task : Task) : Decidable (task = .absent) :=
  match task with
  | .absent => isTrue rfl
  | .ready _ => isFalse (by simp)
  | .calling _ _ _ _ => isFalse (by simp)
  | .answered _ => isFalse (by simp)
  | .dropped => isFalse (by simp)

instance (call : S3Call) : DecidableEq call.Reply :=
  match call with
  | .headObject _ => inferInstanceAs (DecidableEq (Except HeadError Unit))
  | .getObject _ => inferInstanceAs (DecidableEq (Except GetError ObjectBody))
  | .putObject _ _ => inferInstanceAs (DecidableEq (Except SdkError Unit))
  | .createMultipartUpload _ => inferInstanceAs (DecidableEq (Except SdkError (Option UploadId)))
  | .uploadPart _ _ _ _ _ => inferInstanceAs (DecidableEq (Except SdkError (Option ETag)))
  | .completeMultipartUpload _ _ _ => inferInstanceAs (DecidableEq (Except SdkError Unit))
  | .abortMultipartUpload _ _ => inferInstanceAs (DecidableEq (Except SdkError Unit))

instance (e : Act) : DecidableEq e.Resp :=
  match e with
  | .s3 call => inferInstanceAs (DecidableEq call.Reply)
  | .now => inferInstanceAs (DecidableEq Instant)
  | .timer => inferInstanceAs (DecidableEq Instant)
  | .slot _ _ => inferInstanceAs (DecidableEq SlotId)
  | .acquire _ => inferInstanceAs (DecidableEq Acquired)
  | .settle _ _ => inferInstanceAs (DecidableEq Unit)
  | .markPresent _ _ => inferInstanceAs (DecidableEq Unit)
  | .read _ _ => inferInstanceAs (DecidableEq Unit)
  | .log _ => inferInstanceAs (DecidableEq Unit)

/-- What the trace tells of a request. -/
inductive Event
  | arrived
  | called (call : S3Call)
  /-- An action was answered; for an S3 request, its reply was delivered. -/
  | did (ev : TaskEvent)
  | answered (response : Response)
  deriving DecidableEq

/-- An event, the request it is of and the instant it happened at. -/
structure Entry where
  time : Instant
  req : ReqId
  event : Event
  deriving DecidableEq

/-- All instances with the requests at them, and the bucket they share. -/
structure World where
  clock : Instant
  bucket : Bucket
  /-- The requests to S3 that failed or lost their task. -/
  strays : ReqId → List S3Call
  caches : InstId → ProbeCache
  tasks : ReqId → Task
  trace : List Entry

/-- What becomes of a request to S3 when it is served. -/
inductive Fate
  | answer
  /-- It is served, and the reply lacks the upload id or the ETag. -/
  | bare
  /-- It is served, and the object's body breaks off after `n` bytes. -/
  | cut (n : Nat)
  /-- It fails for its caller. -/
  | fail (err : SdkError)
  deriving DecidableEq, Repr

/-- What may happen next; any of it that can, in any order. -/
inductive Label
  | tick (d : Duration)
  | arrive (r : ReqId)
  /-- `r` performs its next action, or is answered. -/
  | run (r : ReqId)
  /-- S3 serves what `r` has asked for. -/
  | serve (r : ReqId) (fate : Fate)
  | deliver (r : ReqId)
  /-- The client of `r` goes away. -/
  | cancel (r : ReqId)
  /-- Something `r` has asked for takes effect, unnoticed by `r`. -/
  | stray (r : ReqId) (call : S3Call)
  /-- The object of `key` is deleted from outside. -/
  | delete (key : Hash)
  deriving DecidableEq, Repr

/-- The reply a request gets by its fate, `reply` being what S3 answers. -/
def Fate.reply : Fate → (call : S3Call) → call.Reply → call.Reply
  | .answer, _, reply => reply
  | .bare, .createMultipartUpload _, _ => Except.ok none
  | .bare, .uploadPart _ _ _ _ _, Except.ok _ => Except.ok none
  | .bare, _, reply => reply
  | .cut n, .getObject _, Except.ok body => Except.ok { body with breaksAt := some n }
  | .cut _, _, reply => reply
  | .fail err, .headObject _, _ => Except.error (HeadError.other err)
  | .fail err, .getObject _, _ => Except.error (GetError.other err)
  | .fail err, .putObject _ _, _ => Except.error err
  | .fail err, .createMultipartUpload _, _ => Except.error err
  | .fail err, .uploadPart _ _ _ _ _, _ => Except.error err
  | .fail err, .completeMultipartUpload _ _ _, _ => Except.error err
  | .fail err, .abortMultipartUpload _ _, _ => Except.error err

/-- S3 has served the request. -/
def Fate.served : Fate → Bool
  | .fail _ => false
  | _ => true

/-- An action that needs no S3: the cache after it and its answer, which is
missing when the task has to wait. -/
def localStep (cache : ProbeCache) (r : ReqId) (clock : Instant) :
    (e : Act) → Option (ProbeCache × Option e.Resp)
  | .s3 _ => none
  | .now => some (cache, some clock)
  | .timer => some (cache, some clock)
  | .slot hash now => some ((cache.call r hash now).1, some (cache.call r hash now).2)
  | .acquire _ =>
    match cache.poll r clock with
    | some (cache', .acquired a) => some (cache', some a)
    | some (cache', .pending) => some (cache', none)
    | none => none
  | .settle _ value => (cache.finish r value).map fun cache' => (cache', some ())
  | .markPresent hash now => some (cache.markPresent hash now, some ())
  | .read ready _ => if ready ≤ clock then some (cache, some ()) else none
  | .log _ => some (cache, some ())

namespace World

/-- An empty system on a bucket with the given objects. -/
def init (objects : Hash → Option Bytes) : World where
  clock := 0
  bucket := ⟨objects, fun _ => none, 0⟩
  strays := fun _ => []
  caches := fun _ => .empty
  tasks := fun _ => .absent
  trace := []

variable (w : World)

/-- Put a request where it stands now. -/
def setTask (r : ReqId) (task : Task) : World :=
  { w with tasks := Function.update w.tasks r task }

/-- Change the cache of an instance. -/
def setCache (i : InstId) (cache : ProbeCache) : World :=
  { w with caches := Function.update w.caches i cache }

/-- A request to S3 that may still take effect, though nobody waits for it any more.
-/
def addStray (r : ReqId) (call : S3Call) : World :=
  { w with strays := Function.update w.strays r (call :: w.strays r) }

/-- Write an event into the trace. -/
def record (r : ReqId) (event : Event) : World :=
  { w with trace := ⟨w.clock, r, event⟩ :: w.trace }

/-- What `r` has asked of S3 and may still take effect. -/
def pending (r : ReqId) : List S3Call :=
  match w.tasks r with
  | .calling call _ none _ => call :: w.strays r
  | _ => w.strays r

/-- One step of the system; `none` where the label is not enabled. -/
def step [RustChar] (env : Env) (w : World) : Label → Option World
  | .tick d => some { w with clock := w.clock + d }
  | .arrive r =>
    match w.tasks r with
    | .absent => some ((w.setTask r (.ready (env.serve r))).record r .arrived)
    | _ => none
  | .run r =>
    match w.tasks r with
    | .ready (.done response) =>
      some ((w.setTask r (.answered response)).record r (.answered response))
    | .ready (.act (.s3 call) k) =>
      some ((w.setTask r (.calling call w.clock none k)).record r (.called call))
    | .ready (.act e k) =>
      match localStep (w.caches (env.inst r)) r w.clock e with
      | some (cache, some resp) =>
        some (((w.setCache (env.inst r) cache).setTask r (.ready (k resp))).record r (.did ⟨e, resp⟩))
      -- the task waits: its place in the queue is all that changes
      | some (cache, none) => some (w.setCache (env.inst r) cache)
      | none => none
    | _ => none
  | .serve r fate =>
    match w.tasks r with
    | .calling call since none k =>
      let task := .calling call since (some (fate.reply call (w.bucket.reply env.eTagOf call))) k
      if fate.served then
        some { w.setTask r task with bucket := w.bucket.apply env.eTagOf call }
      -- S3 may have got what its caller sees fail
      else some ((w.setTask r task).addStray r call)
    | _ => none
  | .deliver r =>
    match w.tasks r with
    | .calling call _ (some reply) k =>
      some ((w.setTask r (.ready (k reply))).record r (.did ⟨.s3 call, reply⟩))
    | _ => none
  | .cancel r =>
    match w.tasks r with
    | .ready _ =>
      some ((w.setTask r .dropped).setCache (env.inst r) ((w.caches (env.inst r)).cancel r))
    | .calling call _ reply _ =>
      -- a request on its way is not called back
      let w' := (w.setTask r .dropped).setCache (env.inst r) ((w.caches (env.inst r)).cancel r)
      some (if reply.isNone then w'.addStray r call else w')
    | _ => none
  | .stray r call =>
    if call ∈ w.pending r then some { w with bucket := w.bucket.apply env.eTagOf call } else none
  | .delete key => some { w with bucket := w.bucket.setObject key none }

end World

/-! ## A small deployment -/

/-- `PUT /v1/cache/abc` with the write token. -/
def examplePut (bytes : Bytes) : Request where
  method := .put
  segment := .abc
  authorization := some (bearerPrefix ++ [114, 119])
  body := .chunk 0 bytes (.eof 0)

/-- `GET /v1/cache/abc` with the read-only token. -/
def exampleGet : Request where
  method := .get
  segment := .abc
  authorization := some (bearerPrefix ++ [114, 111])
  body := .eof 0

/-- Requests, each with the instance it is sent to; all others are GETs. -/
def exampleEnv (requests : List (InstId × Request)) : Env where
  config _ := ⟨3000, "rw", some "ro"⟩
  inst r := (requests.getD r (0, exampleGet)).1
  request r := (requests.getD r (0, exampleGet)).2
  eTagOf _ := "e"

end NxCacheServer.System
