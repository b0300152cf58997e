import NxCacheServer.Server.Middleware
import NxCacheServer.Infra.Aws

/-!
# The cache route

`create_router` of `src/server/mod.rs` for `/v1/cache/{hash}`: authentication
around method routing (`route_layer` also covers methods without a handler),
then the `Path<String>` extractor, then the handler; `Connection: close` on
whatever comes out. A `HEAD` is routed to the GET handler and its response
loses its body.

Mirroring notes:
- The order of the layers is that of the source, the last one added outermost:
  `Connection`, authentication, the method, the path, the handler.
- The extractor's decoding leaves a `%` alone that two hexadecimal digits do not
  follow.
- If the extractor rejects the path, no handler runs, and the body of the request is
  not read.
-/

namespace NxCacheServer.Server

open NxCacheServer.Domain NxCacheServer.Infra NxCacheServer.Lib

/-- The value of a hexadecimal digit. -/
def hexDigit (b : UInt8) : Option UInt8 :=
  if 48 ≤ b && b ≤ 57 then some (b - 48)
  else if 65 ≤ b && b ≤ 70 then some (b - 55)
  else if 97 ≤ b && b ≤ 102 then some (b - 87)
  else none

/-- Percent-decoding: `%` and two hex digits are one byte, all else stands for
itself. -/
def percentDecode : Bytes → Bytes
  | [] => []
  | [a] => [a]
  | [a, b] => [a, b]
  | a :: b :: c :: rest =>
    if a = 37 then
      match hexDigit b, hexDigit c with
      | some hi, some lo => (hi * 16 + lo) :: percentDecode rest
      | _, _ => a :: percentDecode (b :: c :: rest)
    else a :: percentDecode (b :: c :: rest)

/-- The `Path<String>` extractor: the decoded segment, if it is UTF-8. -/
def pathHash (segment : Bytes) : Option Hash :=
  String.fromUTF8? ⟨(percentDecode segment).toArray⟩

/-- The extractor's own rejection, answered without running a handler. -/
def pathRejection : Response := textReply 400 "Invalid URL: Invalid UTF-8 in `hash`"

/-- axum's answer to a method without a handler. -/
def methodNotAllowed : Response := ⟨405, none, none, .empty⟩

/-- `impl IntoResponse for Result<_, ServerError>`. -/
def intoResponse : Except ServerError Response → Async Response
  | .ok response => pure response
  | .error e => e.intoResponse

/-- An answer to HEAD: the headers of the GET, and no body. -/
def Response.withoutBody (response : Response) : Response := { response with body := .empty }

/-- `SetResponseHeaderLayer::overriding(CONNECTION, "close")`. -/
def Response.close (response : Response) : Response :=
  { response with connection := some "close" }

section

variable [RustChar] (storage : StorageProvider)

/-- Method routing and the extractors. -/
def cacheRoutes (request : Request) : Async Response :=
  match request.method, pathHash request.segment with
  -- the method is routed before the path is looked at
  | .other _, _ => pure methodNotAllowed
  | _, none => pure pathRejection
  | .put, some hash => do intoResponse (← storeArtifact storage hash request.body)
  | .get, some hash => do intoResponse (← retrieveArtifact storage hash)
  | .head, some hash => do intoResponse (← retrieveArtifact storage hash)

/-- What the router does to every response: a `HEAD` gets no body, and the
connection is closed. -/
def finalize (request : Request) (response : Response) : Response :=
  if request.method = .head then response.withoutBody.close else response.close

omit [RustChar] in
@[simp] theorem finalize_status (request : Request) (response : Response) :
    (finalize request response).status = response.status := by
  unfold finalize
  split <;> rfl

/-- The task that serves one request to the cache route. -/
def serve (config : ServerConfig) (request : Request) : Async Response := do
  let result ← authMiddleware config request (cacheRoutes storage)
  let response ← intoResponse result
  pure (finalize request response)

end

end NxCacheServer.Server
