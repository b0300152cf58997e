import NxCacheServer.Server.ProbeCache
import NxCacheServer.Server.Validation

/-!
# Handlers

`store_artifact`, `retrieve_artifact` and the bounded drain of
`src/server/handlers.rs`, for any storage provider.

Mirroring notes:
- `unwrap_or(false)` is `toOption.getD false`: a failed look counts as absent for a
  writer as for a reader.
- The source lends its reader to `store`, so that it can drain what is left of it;
  here `store` hands that back (`rest`).
- A drain ends at its deadline, at a read error or at the end of the body, and what
  it came to is ignored: the answer has been decided before.
- `storeAbsent` and `retrieveProbed` are the two handlers from the point on where the
  object has been looked for.
-/

namespace NxCacheServer.Server

open NxCacheServer.Domain NxCacheServer.Infra NxCacheServer.Lib

/-- How long a body is read that is discarded anyway. -/
def drainTimeout : Duration := fromSecs 60

/-- Read `body` to its end, as far as it arrives by `deadline`. A read error
means the client went away. -/
def drainUntil (deadline : Instant) : Body → Async Unit
  | .eof ready => if ready ≤ deadline then Async.read ready .eof else pure ()
  | .reset ready => if ready ≤ deadline then Async.read ready .reset else pure ()
  | .chunk ready bytes rest =>
    if ready ≤ deadline then do
      Async.read ready (.chunk bytes)
      drainUntil deadline rest
    else pure ()

/-- `drain_body_within`; also the `copy` into a sink under the same timeout. -/
def drainBodyWithin (body : Body) (limit : Duration) : Async Unit := do
  let start ← Async.timer
  drainUntil (start + limit) body

/-- Draining reads, and that is all. -/
theorem drainUntil_only {A : Act → Prop} (hread : ∀ ready item, A (.read ready item))
    (deadline : Instant) : ∀ data : Body, Prog.Only A (drainUntil deadline data) := by
  intro data
  induction data with
  | eof ready =>
    rw [drainUntil]
    split
    · exact Prog.only_act.mpr ⟨hread _ _, fun _ => trivial⟩
    · trivial
  | reset ready =>
    rw [drainUntil]
    split
    · exact Prog.only_act.mpr ⟨hread _ _, fun _ => trivial⟩
    · trivial
  | chunk ready bytes rest ih =>
    rw [drainUntil]
    split
    · exact Prog.only_act.mpr ⟨hread _ _, fun _ => ih⟩
    · trivial

/-- So does draining with a timeout, which also arms the timer. -/
theorem drainBodyWithin_only {A : Act → Prop} (hread : ∀ ready item, A (.read ready item))
    (htimer : A .timer) (body : Body) (limit : Duration) :
    Prog.Only A (drainBodyWithin body limit) := by
  rw [drainBodyWithin, Async.timer_bind, Prog.only_act]
  exact ⟨htimer, fun _ => drainUntil_only hread _ _⟩

/-- `drain_body`. -/
def drainBody (body : Body) : Async Unit := drainBodyWithin body drainTimeout

section

variable [RustChar] (storage : StorageProvider)

/-- `store_artifact` after the key was found absent. -/
def storeAbsent (hash : Hash) (body : Body) : Async (Except ServerError Response) := do
  let (result, rest) ← storage.store hash body
  match result with
  | .ok () => do
    markPresent hash
    pure (.ok (textReply 200 ""))
  | .error .clientAbort => pure (.error (.storage .clientAbort))
  | .error e => do
    Async.log (.storeDeclined hash e)
    drainBodyWithin rest drainTimeout
    pure (.error .forbidden)

/-- `store_artifact` (PUT). -/
def storeArtifact (hash : Hash) (body : Body) : Async (Except ServerError Response) := do
  match validateHash hash with
  | .error invalid => do
    drainBody body
    pure (.error invalid)
  | .ok () => do
    let found ← storage.existsKey hash
    -- a failed existence probe counts as absent (`unwrap_or(false)`)
    if found.toOption.getD false then do
      markPresent hash
      drainBody body
      pure (.ok (textReply 409 "Cannot override an existing record"))
    else storeAbsent storage hash body

/-- `retrieve_artifact` with the outcome of the existence probe. -/
def retrieveProbed (hash : Hash) (found : Bool) : Async (Except ServerError Response) := do
  if found then do
    match ← storage.retrieve hash with
    | .ok body => pure (.ok ⟨200, some "application/octet-stream", none, .object body⟩)
    | .error _ => pure (.error (.storage .notFound))
  else pure (.error (.storage .notFound))

/-- `retrieve_artifact` (GET and HEAD). -/
def retrieveArtifact (hash : Hash) : Async (Except ServerError Response) := do
  match validateHash hash with
  | .error invalid => pure (.error invalid)
  | .ok () => do
    let found ← present hash (storage.existsKey hash)
    retrieveProbed storage hash (found.toOption.getD false)

end

end NxCacheServer.Server
