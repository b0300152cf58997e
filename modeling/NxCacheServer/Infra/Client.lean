import NxCacheServer.Domain.Storage

/-!
# The S3 client

The requests `src/infra/aws.rs` sends through the AWS SDK and the parts of
their replies that it looks at. What S3 does with a request is in
`NxCacheServer.System.Bucket`; here a reply is only a type, so that the code
above is a program over every possible reply.

Mirroring notes:
- A request has what the source sets on its builder. The bucket name is left out,
  since one client uses one bucket.
- A reply has what the source reads of it: `upload_id` and `e_tag` are options, as
  there are branches for replies without them.
- An error is the service error that is matched on, or what `log_s3_error` writes.
- A request is one operation of the SDK, with all its attempts and timeouts.
-/

namespace NxCacheServer.Infra

open NxCacheServer.Domain

/-- The id S3 gives a multipart upload: as many as one likes, and never the same one
twice. -/
abbrev UploadId := Nat

/-- What S3 calls a part by when it lists the parts of an upload. -/
abbrev ETag := String

/-- What `log_s3_error` reports of an SDK error. -/
structure SdkError where
  requestId : Option String
  extendedRequestId : Option String
  debug : String
  deriving DecidableEq, Repr

/-- `HeadObject` failures: the service's `NotFound`, or anything else. -/
inductive HeadError
  | notFound
  | other (err : SdkError)
  deriving DecidableEq, Repr

/-- `GetObject` failures: the service's `NoSuchKey`, or anything else. -/
inductive GetError
  | noSuchKey
  | other (err : SdkError)
  deriving DecidableEq, Repr

/-- The body of a `GetObject` reply: the object's bytes, and where the stream
breaks off with a read error, if it does. -/
structure ObjectBody where
  bytes : Bytes
  breaksAt : Option Nat
  deriving DecidableEq, Repr

/-- A listed part. The source counts parts in an `i32`, which a body would have
to exceed 16 PiB to overflow. -/
structure CompletedPart where
  partNumber : Nat
  eTag : ETag
  deriving DecidableEq, Repr

/-- The operations the storage asks of its client, with what they send. -/
inductive S3Call
  | headObject (key : Hash)
  | getObject (key : Hash)
  | putObject (key : Hash) (body : Bytes)
  | createMultipartUpload (key : Hash)
  | uploadPart (key : Hash) (uploadId : UploadId) (partNumber : Nat) (contentLength : Nat)
      (body : Bytes)
  | completeMultipartUpload (key : Hash) (uploadId : UploadId) (parts : List CompletedPart)
  | abortMultipartUpload (key : Hash) (uploadId : UploadId)
  deriving DecidableEq, Repr

/-- The key an operation is about. -/
def S3Call.key : S3Call → Hash
  | .headObject key => key
  | .getObject key => key
  | .putObject key _ => key
  | .createMultipartUpload key => key
  | .uploadPart key _ _ _ _ => key
  | .completeMultipartUpload key _ _ => key
  | .abortMultipartUpload key _ => key

/-- The reply the SDK hands back: `create` and `part` replies carry the upload
id and the ETag only if S3 sent one. -/
def S3Call.Reply : S3Call → Type
  | .headObject _ => Except HeadError Unit
  | .getObject _ => Except GetError ObjectBody
  | .putObject _ _ => Except SdkError Unit
  | .createMultipartUpload _ => Except SdkError (Option UploadId)
  | .uploadPart _ _ _ _ _ => Except SdkError (Option ETag)
  | .completeMultipartUpload _ _ _ => Except SdkError Unit
  | .abortMultipartUpload _ _ => Except SdkError Unit

end NxCacheServer.Infra
