/-!
# Keys, bodies and storage errors

The vocabulary of `src/domain/storage.rs` and of the streams that pass through
it. A request body is what the reader hands over piece by piece: each `chunk`
becomes available at an instant of the monotonic clock, and the body ends with
`eof` or with the `reset` an `std::io::Error` reports. The HTTP stack may split
a body anywhere (frames, `StreamReader`, `ReaderStream`), so every statement
about a `Body` is about every split of its bytes.

Mirroring notes:
- `Bytes` are the contents of a buffer; its capacity has no counterpart.
- An `Instant` counts from an origin that nothing reads off, and a difference of
  two of them is zero if it would be negative, as `saturating_duration_since` has it.
- Nothing in the source constructs `AlreadyExists`. It stays, since a provider may
  return it and `src/server/error.rs` answers it.
-/

namespace NxCacheServer.Domain

abbrev Bytes := List UInt8

/-- A cache key: the percent-decoded path segment of a request. -/
abbrev Hash := String

/-- Nanoseconds of the monotonic clock. -/
abbrev Instant := Nat

abbrev Duration := Nat

/-- `Duration::from_secs`. -/
def fromSecs (secs : Nat) : Duration := secs * 1000000000

/-- Key of the object the startup probe writes and the self-probe HeadObjects.
It contains a `.`, which `validate_hash` rejects, so no client can reach it
through the API. -/
def probeKey : Hash := "_selfprobe.nx-cache-server"

/-- `StorageError`: what a storage provider may fail with. Callers tell the variants
apart, so none of them carries a text of its own. -/
inductive StorageError
  | notFound
  | alreadyExists
  | operationFailed
  /-- The client disconnected or reset the request body stream mid-upload. -/
  | clientAbort
  deriving DecidableEq, Repr

/-- `impl Display for StorageError`. -/
def StorageError.display : StorageError → String
  | .notFound => "Object not found"
  | .alreadyExists => "Object already exists"
  | .operationFailed => "Storage operation failed"
  | .clientAbort => "Client aborted upload"

/-- A request body: its pieces in order, each with the instant it arrives at. It
comes to its end or breaks off at an instant as well. A client that keeps the
connection open and never sends another byte has no `Body`: up to any instant it
is one whose next piece comes later, and what always holds of these holds of it,
but what happens at last does not. -/
inductive Body
  | eof (ready : Instant)
  | reset (ready : Instant)
  | chunk (ready : Instant) (bytes : Bytes) (rest : Body)
  deriving DecidableEq, Repr

namespace Body

/-- The bytes the client sends before the body ends or breaks off. -/
def bytes : Body → Bytes
  | .eof _ => []
  | .reset _ => []
  | .chunk _ b rest => b ++ rest.bytes

/-- The client sends the body to its end. -/
def complete : Body → Bool
  | .eof _ => true
  | .reset _ => false
  | .chunk _ _ rest => rest.complete

/-- The client has sent the whole body, without an error, by `deadline`. -/
def finishedBy (deadline : Instant) : Body → Bool
  | .eof ready => ready ≤ deadline
  | .reset _ => false
  | .chunk ready _ rest => ready ≤ deadline && rest.finishedBy deadline

/-- The number of chunks. -/
def size : Body → Nat
  | .eof _ => 0
  | .reset _ => 0
  | .chunk _ _ rest => rest.size + 1

@[simp] theorem bytes_eof (t : Instant) : (Body.eof t).bytes = [] := rfl

@[simp] theorem bytes_chunk (t : Instant) (b : Bytes) (rest : Body) :
    (Body.chunk t b rest).bytes = b ++ rest.bytes := rfl

@[simp] theorem complete_chunk (t : Instant) (b : Bytes) (rest : Body) :
    (Body.chunk t b rest).complete = rest.complete := rfl

end Body

/-- What one poll of a body hands over. -/
inductive Item
  | chunk (bytes : Bytes)
  | eof
  | reset
  deriving DecidableEq, Repr

end NxCacheServer.Domain
