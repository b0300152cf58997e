import NxCacheServer.Server.Task

/-!
# Responses and server errors

`src/server/error.rs`: the errors a request can end in and the response each
of them becomes. Header values are exact, because Nx compares them byte for
byte.

`Storage(AlreadyExists)`, `Storage(OperationFailed)` and `InternalError` have
responses here as in the source, although no handler ends in one of them; that none
does is a theorem (`honest_answers`).
-/

namespace NxCacheServer.Server

open NxCacheServer.Domain NxCacheServer.Infra NxCacheServer.Lib

/-- `ServerError`: what a handler may end with other than a response. -/
inductive ServerError
  | badRequest
  | unauthorized
  | forbidden
  | internalError
  | storage (err : StorageError)
  deriving DecidableEq, Repr

/-- The `Display` text of the errors that reach the generic fallback's log. -/
def ServerError.display : ServerError → String
  | .badRequest => "Bad request"
  | .unauthorized => "Unauthorized"
  | .forbidden => "Forbidden"
  | .internalError => "Internal server error"
  | .storage _ => "Storage error"

/-- What a response carries: nothing, a text, or an object that is streamed from S3.
-/
inductive ResponseBody
  | empty
  | text (message : String)
  | object (body : ObjectBody)
  deriving DecidableEq, Repr

/-- A response, with the headers that the source sets. -/
structure Response where
  status : Nat
  contentType : Option String
  connection : Option String
  body : ResponseBody
  deriving DecidableEq, Repr

/-- `(status, [("Content-Type", "text/plain")], message).into_response()`. -/
def plainText (status : Nat) (message : String) : Response :=
  ⟨status, some "text/plain", none, .text message⟩

/-- `(status, message).into_response()`. -/
def textReply (status : Nat) (message : String) : Response :=
  ⟨status, some "text/plain; charset=utf-8", none, .text message⟩

/-- `impl IntoResponse for ServerError`. -/
def ServerError.intoResponse : ServerError → Async Response
  | .storage .notFound => pure (plainText 404 "The record was not found")
  | .storage .alreadyExists => pure (plainText 409 "Cannot override an existing record")
  | .storage .clientAbort => pure (plainText 400 "Client disconnected during upload")
  | .badRequest => pure (plainText 400 "Bad request")
  | .unauthorized => pure (plainText 401 "Unauthorized")
  | .forbidden => pure (plainText 403 "Forbidden")
  | .storage .operationFailed => pure (plainText 500 "Internal server error")
  | .internalError => do
    Async.log (.serverError ServerError.internalError.display)
    pure (plainText 500 "Internal server error")

end NxCacheServer.Server
