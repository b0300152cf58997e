import NxCacheServer.Infra.Client
import NxCacheServer.Lib.Prog

/-!
# Request tasks

A request is served by one asynchronous task. `Act` lists everything such a
task asks of the outside: S3 requests, the clock, the probe cache's mutex and
its `OnceCell`s, the next piece of the request body, and the log. An `Async` is
a program over these actions, so the functions of the source become tasks
that a reader can compare line by line, and the meaning of an action
(immediate, delayed, failing, never answered) is left to whoever runs them.

Mirroring notes:
- `slot` and `mark_present` hold the mutex and do not await, so each is one action.
  The timestamp is an argument of it, because the source reads the clock first.
- A `tokio::time::timeout` is a deadline: `timer` answers the instant at which it is
  armed, and whatever comes later than the deadline is not waited for.
- An action without an answer is a task that hangs at an `await`, or is dropped
  there. Nothing that comes after it has happened.
-/

namespace NxCacheServer.Server

open NxCacheServer.Domain NxCacheServer.Infra NxCacheServer.Lib

/-- Identity of an `Arc<Slot>`. -/
abbrev SlotId := Nat

/-- The structured log lines of the request path. -/
inductive LogLine
  /-- ERROR "S3 operation failed" (`log_s3_error`). -/
  | s3Error (operation : String) (hash : Hash) (err : SdkError)
  /-- ERROR for a successful reply that lacks a field the code needs. -/
  | s3Missing (operation : String) (hash : Hash) (partNumber : Option Nat) (message : String)
  /-- WARN "client aborted PUT body stream". -/
  | clientAborted (hash : Hash) (bytesReceived : Nat)
  /-- ERROR "cache STORE declined ..."; carries no `operation`. -/
  | storeDeclined (hash : Hash) (err : StorageError)
  /-- ERROR "Server error: ..." of the generic fallback. -/
  | serverError (message : String)
  deriving DecidableEq, Repr

/-- How `OnceCell::get_or_try_init` gets past its semaphore: the cell holds a
value, or the caller holds the permit and has to run its own closure. -/
inductive Acquired
  | initialized (value : Bool)
  | permit
  deriving DecidableEq, Repr

/-- What a task asks of the world, one await or lock at a time: where it may be
interleaved with others, or be dropped. -/
inductive Act
  /-- One S3 request through the SDK. -/
  | s3 (call : S3Call)
  /-- `Instant::now()`. -/
  | now
  /-- Arming a `tokio::time::timeout`; answers the instant it is armed at. -/
  | timer
  /-- `ProbeCache::slot` under the mutex, with the timestamp read before it. -/
  | slot (hash : Hash) (now : Instant)
  /-- Entering `get_or_try_init`: waits for a value or for the permit. -/
  | acquire (slot : SlotId)
  /-- Leaving `get_or_try_init` with the permit: `some v` sets the cell and
  closes the semaphore, `none` releases the permit. -/
  | settle (slot : SlotId) (value : Option Bool)
  /-- `ProbeCache::mark_present` under the mutex. -/
  | markPresent (hash : Hash) (now : Instant)
  /-- Polling the request body once; the piece was there from `ready` on. -/
  | read (ready : Instant) (item : Item)
  | log (line : LogLine)
  deriving DecidableEq, Repr

/-- How the world may answer. -/
abbrev Act.Resp : Act → Type
  | .s3 call => call.Reply
  | .now => Instant
  | .timer => Instant
  | .slot _ _ => SlotId
  | .acquire _ => Acquired
  | .settle _ _ => Unit
  | .markPresent _ _ => Unit
  | .read _ _ => Unit
  | .log _ => Unit

/-- An async function of the source. -/
abbrev Async := Prog Act Act.Resp

/-- An answered action of a task. -/
abbrev TaskEvent := Prog.Event Act Act.Resp

namespace Async

def s3 (call : S3Call) : Async call.Reply := Prog.perform (Act.s3 call)

def now : Async Instant := Prog.perform Act.now

def timer : Async Instant := Prog.perform Act.timer

def slot (hash : Hash) (now : Instant) : Async SlotId := Prog.perform (Act.slot hash now)

def acquire (slot : SlotId) : Async Acquired := Prog.perform (Act.acquire slot)

def settle (slot : SlotId) (value : Option Bool) : Async Unit := Prog.perform (Act.settle slot value)

def markPresent (hash : Hash) (now : Instant) : Async Unit := Prog.perform (Act.markPresent hash now)

def read (ready : Instant) (item : Item) : Async Unit := Prog.perform (Act.read ready item)

def log (line : LogLine) : Async Unit := Prog.perform (Act.log line)

section

variable {β : Type}

@[simp] theorem s3_bind (call : S3Call) (f : call.Reply → Async β) :
    (s3 call >>= f) = Prog.act (Act.s3 call) f := rfl

@[simp] theorem now_bind (f : Instant → Async β) : (now >>= f) = Prog.act Act.now f := rfl

@[simp] theorem timer_bind (f : Instant → Async β) : (timer >>= f) = Prog.act Act.timer f := rfl

@[simp] theorem slot_bind (hash : Hash) (t : Instant) (f : SlotId → Async β) :
    (slot hash t >>= f) = Prog.act (Act.slot hash t) f := rfl

@[simp] theorem acquire_bind (s : SlotId) (f : Acquired → Async β) :
    (acquire s >>= f) = Prog.act (Act.acquire s) f := rfl

@[simp] theorem read_bind (ready : Instant) (item : Item) (f : Unit → Async β) :
    (read ready item >>= f) = Prog.act (Act.read ready item) f := rfl

@[simp] theorem log_bind (line : LogLine) (f : Unit → Async β) :
    (log line >>= f) = Prog.act (Act.log line) f := rfl

end

/-! The actions that are answered by `()`. -/

section

variable {α σ : Type} {C : Prog.Contract Act Act.Resp σ} {Q : α → σ → Prop} {g : σ}
  {k : Unit → Async α}

theorem wp_markPresent {hash : Hash} {t : Instant} :
    (Prog.act (Act.markPresent hash t) k).wp C Q g ↔ C.allow g (.markPresent hash t) ∧
      (C.promise g (.markPresent hash t) () →
        (k ()).wp C Q (C.update g (.markPresent hash t) ())) :=
  ⟨fun h => ⟨h.1, h.2 ()⟩, fun h => ⟨h.1, fun _ => h.2⟩⟩

theorem wp_read {ready : Instant} {item : Item} :
    (Prog.act (Act.read ready item) k).wp C Q g ↔ C.allow g (.read ready item) ∧
      (C.promise g (.read ready item) () → (k ()).wp C Q (C.update g (.read ready item) ())) :=
  ⟨fun h => ⟨h.1, h.2 ()⟩, fun h => ⟨h.1, fun _ => h.2⟩⟩

theorem wp_log {line : LogLine} :
    (Prog.act (Act.log line) k).wp C Q g ↔ C.allow g (.log line) ∧
      (C.promise g (.log line) () → (k ()).wp C Q (C.update g (.log line) ())) :=
  ⟨fun h => ⟨h.1, h.2 ()⟩, fun h => ⟨h.1, fun _ => h.2⟩⟩

end

end Async

/-- `trait StorageProvider`. `store` borrows its stream, so it also hands back
what it left unread. -/
structure StorageProvider where
  existsKey : Hash → Async (Except StorageError Bool)
  store : Hash → Body → Async (Except StorageError Unit × Body)
  retrieve : Hash → Async (Except StorageError ObjectBody)

end NxCacheServer.Server
