import NxCacheServer.Server.Handlers
import NxCacheServer.Domain.Config

/-!
# Authentication

`auth_middleware` of `src/server/middleware.rs`. The `Authorization` header is
the raw bytes of its first value; `to_str` accepts them only if they are all
visible ASCII, space or tab.

Mirroring notes:
- A request is one that the route `/v1/cache/{hash}` matches, so its segment has a
  byte and no `/` (`Segment`). The router answers anything else with a 404, and this
  middleware never sees it.
- `ct_eq` is the equality of bytes; that it takes constant time is not modelled.
- The access log is outside of this layer and decides nothing.
-/

namespace NxCacheServer.Server

open NxCacheServer.Domain NxCacheServer.Infra NxCacheServer.Lib

/-- The methods the router tells apart; `other` stands for all it has no handler for.
-/
inductive Method
  | get
  | head
  | put
  | other (name : String)
  deriving DecidableEq, Repr

/-- A path segment as sent, percent-encoded: what `{hash}` of the route matches.
It is not empty, and neither `/` nor the end of the path is in it. -/
structure Segment where
  bytes : Bytes
  nonempty : bytes ≠ []
  within : bytes.all fun b => b != 47 && b != 63 && b != 35
  deriving DecidableEq, Repr

instance : Coe Segment Bytes := ⟨Segment.bytes⟩

/-- `abc`, the key of the examples. -/
def Segment.abc : Segment := ⟨[97, 98, 99], by decide, by decide⟩

/-- A request to `/v1/cache/{segment}`. -/
structure Request where
  method : Method
  segment : Segment
  authorization : Option Bytes
  body : Body
  deriving DecidableEq, Repr

/-- `HeaderValue::to_str`. -/
def toStr (header : Bytes) : Option Bytes :=
  if header.all fun b => (32 ≤ b && b < 127) || b == 9 then some header else none

/-- `str::strip_prefix`. -/
def stripPrefix : Bytes → Bytes → Option Bytes
  | [], s => some s
  | _ :: _, [] => none
  | p :: ps, b :: s => if p = b then stripPrefix ps s else none

/-- The bytes of `"Bearer "`. -/
def bearerPrefix : Bytes := [66, 101, 97, 114, 101, 114, 32]

/-- The token of a request, if its header has one. -/
def Request.bearerToken (request : Request) : Option Bytes := do
  let header ← request.authorization
  let authValue ← toStr header
  stripPrefix bearerPrefix authValue

theorem stripPrefix_eq_some {rest : Bytes} :
    ∀ {start s : Bytes}, stripPrefix start s = some rest → s = start ++ rest := by
  intro start
  induction start with
  | nil =>
    intro s h
    cases h
    rfl
  | cons p ps ih =>
    intro s h
    cases s with
    | nil => cases h
    | cons b s =>
      rw [stripPrefix] at h
      split at h
      next hpb => rw [ih h, hpb, List.cons_append]
      next => cases h

/-- The token is what follows `"Bearer "` in the header. -/
theorem Request.authorization_of_bearerToken {request : Request} {token : Bytes}
    (h : request.bearerToken = some token) :
    request.authorization = some (bearerPrefix ++ token) := by
  obtain ⟨header, hheader, h⟩ := Option.bind_eq_some_iff.mp h
  obtain ⟨authValue, hvalue, h⟩ := Option.bind_eq_some_iff.mp h
  have heq : header = authValue := by
    unfold toStr at hvalue
    split at hvalue
    · injection hvalue
    · cases hvalue
  rw [hheader, heq, stripPrefix_eq_some h]

/-- `ConstantTimeEq::ct_eq` on byte slices. -/
def ctEq (a b : Bytes) : Bool := a == b

/-- The token is the service access token. -/
def isReadWrite (config : ServerConfig) (token : Bytes) : Bool :=
  ctEq token (tokenBytes config.serviceAccessToken)

/-- The token is the read-only access token, if there is one. -/
def isReadOnly (config : ServerConfig) (token : Bytes) : Bool :=
  config.readOnlyAccessToken.any fun readOnly => ctEq token (tokenBytes readOnly)

/-- GET and HEAD, which the read-only token may use. -/
def Method.isRead (method : Method) : Bool := method = .get || method = .head

/-- `auth_middleware`, `next` being the rest of the router. -/
def authMiddleware (config : ServerConfig) (request : Request)
    (next : Request → Async Response) : Async (Except ServerError Response) :=
  match request.bearerToken with
  | none => pure (.error .unauthorized)
  | some token =>
    if !isReadWrite config token && !isReadOnly config token then
      pure (.error .unauthorized)
    -- a read-only token that would write: the body is drained before the refusal
    else if !isReadWrite config token && !request.method.isRead then do
      drainBody request.body
      pure (.error .forbidden)
    else do
      let response ← next request
      pure (.ok response)

/-! What the middleware comes to, by the token of the request. -/

section

variable {config : ServerConfig} {request : Request} {next : Request → Async Response}
  {token : Bytes}

theorem authMiddleware_noToken (h : request.bearerToken = none) :
    authMiddleware config request next = .done (.error .unauthorized) := by
  rw [authMiddleware, h]
  rfl

/-- With a token that is neither of the two, too. -/
theorem authMiddleware_unknown (h : request.bearerToken = some token)
    (hrw : isReadWrite config token = false) (hro : isReadOnly config token = false) :
    authMiddleware config request next = .done (.error .unauthorized) := by
  simp [authMiddleware, h, hrw, hro]

/-- A read-only token on anything but a read: the body is drained before the 403. -/
theorem authMiddleware_refused (h : request.bearerToken = some token)
    (hrw : isReadWrite config token = false) (hro : isReadOnly config token = true)
    (hread : request.method.isRead = false) :
    authMiddleware config request next =
      drainBody request.body >>= fun _ => .done (.error .forbidden) := by
  simp [authMiddleware, h, hrw, hro, hread]

/-- Everybody else is let in, and the answer is that of the route. -/
theorem authMiddleware_granted (h : request.bearerToken = some token)
    (hok : isReadWrite config token = true ∨
      isReadOnly config token = true ∧ request.method.isRead = true) :
    authMiddleware config request next = next request >>= fun response => .done (.ok response) := by
  rcases hok with hrw | ⟨hro, hread⟩
  · simp [authMiddleware, h, hrw]
  · cases hrw : isReadWrite config token <;> simp [authMiddleware, h, hrw, hro, hread]

end

end NxCacheServer.Server
