import NxCacheServer.Domain.Config
import NxCacheServer.Infra.Aws
import NxCacheServer.Server.ProbeCache

/-!
# Opening the storage

`AwsStorageConfig` of `src/infra/aws.rs` with its validation, and
`S3Storage::new`, which proves the bucket writable before anything is served.
Both are programs of their own (`Boot`): they ask the environment, the profile
file and the instance metadata for a region, S3 for one `PutObject`, and write
to the log. The providers behind `discoverRegion` may answer differently each
time they are asked.

Mirroring notes:
- The region is asked for twice, by the validation and by `S3Storage::new`.
- Only a response with a 4xx status ends the boot. After any other error, one
  without a response included, the process serves.
- The settings of the client decide nothing here. `maxAttempts` is what the bill of
  a run depends on (`NxCacheServer.System.Spending`).
-/

namespace NxCacheServer.Infra

open NxCacheServer.Domain NxCacheServer.Server NxCacheServer.Lib

/-! ## Booting -/

/-- The lines a process may write before it serves. -/
inductive BootLine
  /-- ERROR "AWS_REGION must be set". -/
  | regionUnset
  /-- WARN "S3_TIMEOUT exceeds the probe cache's unresolved-slot TTL; ...". -/
  | timeoutExceedsTtl (s3TimeoutSeconds unresolvedTtlSeconds : Nat)
  /-- ERROR "S3 operation failed" (`log_s3_error`). -/
  | s3Error (operation : String) (hash : Hash) (err : SdkError)
  /-- WARN "S3 not reachable at startup; serving anyway, ...". -/
  | notReachable
  /-- INFO "Server starting on ...". -/
  | starting (bindAddress : String) (port : UInt16)
  deriving DecidableEq, Repr

/-- A failed `PutObject`, with the status of the response if one came. -/
structure PutFailure where
  err : SdkError
  status : Option Nat
  deriving DecidableEq, Repr

/-- `raw_response().is_some_and(|r| r.status().is_client_error())`. -/
def PutFailure.clientError (failure : PutFailure) : Bool :=
  failure.status.any fun status => 400 ≤ status && status < 500

/-- What a process asks of the world before it serves: its region, one `PutObject`,
and log lines. -/
inductive BootAct
  /-- The region providers behind the configured value. -/
  | discoverRegion
  | putObject (bucket : String) (key : Hash) (body : Bytes)
  | log (line : BootLine)
  deriving DecidableEq, Repr

/-- How the world may answer. -/
abbrev BootAct.Resp : BootAct → Type
  | .discoverRegion => Option String
  | .putObject _ _ _ => Except PutFailure Unit
  | .log _ => Unit

instance (e : BootAct) : DecidableEq e.Resp :=
  match e with
  | .discoverRegion => inferInstanceAs (DecidableEq (Option String))
  | .putObject _ _ _ => inferInstanceAs (DecidableEq (Except PutFailure Unit))
  | .log _ => inferInstanceAs (DecidableEq Unit)

/-- A part of the start of a process. -/
abbrev Boot := Prog BootAct BootAct.Resp

abbrev BootEvent := Prog.Event BootAct BootAct.Resp

namespace Boot

/-- Ask the chain of region providers. -/
def discoverRegion : Boot (Option String) := Prog.perform BootAct.discoverRegion

/-- Put an object with the new client; the startup probe is the only use of it. -/
def putObject (bucket : String) (key : Hash) (body : Bytes) : Boot (Except PutFailure Unit) :=
  Prog.perform (BootAct.putObject bucket key body)

/-- Write a line. -/
def log (line : BootLine) : Boot Unit := Prog.perform (BootAct.log line)

end Boot

/-! ## Configuration -/

/-- `AwsStorageConfig`: the fields the storage is configured by. -/
structure AwsStorageConfig where
  region : Option String
  accessKeyId : Option String
  secretAccessKey : Option String
  sessionToken : Option String
  bucketName : String
  endpointUrl : Option String
  timeoutSeconds : UInt64
  deriving DecidableEq, Repr

namespace AwsStorageConfig

variable (config : AwsStorageConfig)

/-- `impl ProvideRegion`: the configured region, or what is discovered. -/
def resolveRegion : Boot (Option String) :=
  match config.region with
  | some region => pure (some region)
  | none => Boot.discoverRegion

/-- `str::starts_with`. -/
def startsWith (s start : String) : Bool := start.toList.isPrefixOf s.toList

/-- The check on a custom endpoint, when one is given. -/
def validateEndpoint : Except ConfigError Unit :=
  match config.endpointUrl with
  | none => .ok ()
  | some endpointUrl =>
    if !startsWith endpointUrl "http://" && !startsWith endpointUrl "https://" then
      .error (.invalid "S3 endpoint URL must start with http:// or https://")
    else .ok ()

/-- Static credentials come as a pair or not at all. -/
def validatePair : Except ConfigError Unit :=
  match config.accessKeyId, config.secretAccessKey with
  | some _, none => .error (.missingField "AWS_SECRET_ACCESS_KEY")
  | none, some _ => .error (.missingField "AWS_ACCESS_KEY_ID")
  | _, _ => .ok ()

/-- The checks that need nothing from outside. -/
def validateFields : Except ConfigError Unit := do
  if config.bucketName.isEmpty then
    .error (.missingField "S3_BUCKET_NAME")
  config.validateEndpoint
  config.validatePair

/-- `impl ConfigValidator for AwsStorageConfig`. -/
def validate : Boot (Except ConfigError Unit) :=
  match config.validateFields with
  | .error e => pure (.error e)
  | .ok () => do
    match ← config.resolveRegion with
    | none => pure (.error (.missingField "AWS_REGION"))
    | some _ => pure (.ok ())

end AwsStorageConfig

/-! ## The storage -/

/-- The S3 client that `S3Storage::new` configures. -/
structure S3Client where
  region : String
  maxAttempts : Nat
  operationTimeout : Duration
  operationAttemptTimeout : Duration
  connectTimeout : Duration
  endpointUrl : Option String
  forcePathStyle : Bool
  deriving DecidableEq, Repr

/-- `S3Storage`: the client and the bucket. -/
structure S3Storage where
  client : S3Client
  bucketName : String
  deriving DecidableEq, Repr

/-- The client `S3Storage::new` builds: three attempts for every operation, three
timeouts, and path-style addresses if an endpoint is configured. -/
def AwsStorageConfig.client (config : AwsStorageConfig) (region : String) : S3Client where
  region := region
  maxAttempts := 3
  operationTimeout := fromSecs config.timeoutSeconds.toNat
  operationAttemptTimeout := fromSecs 10
  connectTimeout := fromSecs 3
  endpointUrl := config.endpointUrl
  forcePathStyle := config.endpointUrl.isSome

/-- The body of the startup probe, `b"nx-cache-server startup probe"`. -/
def startupBody : Bytes := tokenBytes "nx-cache-server startup probe"

/-- The warning of an operation timeout that an unresolved slot does not
outlive. -/
def warnTimeout (config : AwsStorageConfig) : Boot Unit :=
  if unresolvedTtl < fromSecs config.timeoutSeconds.toNat then
    Boot.log (.timeoutExceedsTtl config.timeoutSeconds.toNat 60)
  else pure ()

/-- The end of `S3Storage::new`: the bucket is proved writable before it is
served from. -/
def S3Storage.proveWritable (config : AwsStorageConfig) (region : String) :
    Boot (Except StorageError S3Storage) := do
  match ← Boot.putObject config.bucketName probeKey startupBody with
  | .ok () => pure (.ok ⟨config.client region, config.bucketName⟩)
  | .error failure => do
    Boot.log (.s3Error "startup-probe" probeKey failure.err)
    -- a definite refusal stops the boot; an S3 that is not there does not
    if failure.clientError then pure (.error .operationFailed)
    else do
      Boot.log .notReachable
      pure (.ok ⟨config.client region, config.bucketName⟩)

/-- `S3Storage::new`. -/
def S3Storage.new (config : AwsStorageConfig) : Boot (Except StorageError S3Storage) := do
  match ← config.resolveRegion with
  | none => do
    Boot.log .regionUnset
    pure (.error .operationFailed)
  | some region => do
    warnTimeout config
    S3Storage.proveWritable config region

end NxCacheServer.Infra
