import NxCacheServer.Domain.Storage

/-!
# Server configuration

`ServerConfig` of `src/domain/config.rs`, as far as a request depends on it,
with the startup validation and its messages.

The port and the two tokens are what a request or a boot depends on; the address to
bind to is a field of the command line in `NxCacheServer.Bin.Aws`. `validate` leaves
at the first check that fails, so the order below is that of the source.
-/

namespace NxCacheServer.Domain

/-- `ConfigError`: a field that has to be given and was not, or a value that is
refused with a message for the operator. -/
inductive ConfigError
  | missingField (field : String)
  | invalid (message : String)
  deriving DecidableEq, Repr

/-- `ServerConfig`: the port and the two tokens; the read-only token is optional. -/
structure ServerConfig where
  port : UInt16
  serviceAccessToken : String
  readOnlyAccessToken : Option String
  deriving DecidableEq, Repr

/-- The checks on the read-only token, when one is given. -/
def ServerConfig.validateReadOnly (config : ServerConfig) : Except ConfigError Unit :=
  match config.readOnlyAccessToken with
  | none => .ok ()
  | some readOnlyToken =>
    if readOnlyToken.isEmpty then
      .error (.invalid "READ_ONLY_ACCESS_TOKEN must not be empty when provided")
    else if readOnlyToken = config.serviceAccessToken then
      .error (.invalid "READ_ONLY_ACCESS_TOKEN must differ from SERVICE_ACCESS_TOKEN, otherwise it would grant write access")
    else .ok ()

/-- `ServerConfig::validate`. The checks come in the order of the source: the first
one that fails is reported, and the others are not made. -/
def ServerConfig.validate (config : ServerConfig) : Except ConfigError Unit := do
  if config.serviceAccessToken.isEmpty then
    .error (.missingField "SERVICE_ACCESS_TOKEN")
  config.validateReadOnly
  if config.port = 0 then
    .error (.invalid "port must be greater than 0")

/-! ## What the operator is told -/

/-- The help on a missing field, line by line. -/
def missingFieldHelp : String → List String
  | "AWS_REGION" =>
    ["Could not determine AWS region.",
      "Pls provide it via --region or AWS_REGION environment variable.",
      "",
      "Note: If you see IMDS timeout warnings above, it means the program",
      "      attempted to auto-discover the region from EC2 metadata but",
      "      you are not running on AWS infrastructure."]
  | "AWS_SECRET_ACCESS_KEY" =>
    ["AWS credentials must be provided as a complete pair.",
      "",
      "You provided AWS_ACCESS_KEY_ID but not AWS_SECRET_ACCESS_KEY.",
      "",
      "Alternatively, omit both to use AWS credential provider chain",
      "(IAM roles, instance profiles, etc.)."]
  | "AWS_ACCESS_KEY_ID" =>
    ["AWS credentials must be provided as a complete pair.",
      "",
      "You provided AWS_SECRET_ACCESS_KEY but not AWS_ACCESS_KEY_ID.",
      "",
      "Alternatively, omit both to use AWS credential provider chain",
      "(IAM roles, instance profiles, etc.)."]
  | "S3_BUCKET_NAME" =>
    ["S3 bucket name is required.",
      "",
      "Provide the S3 bucket name via:",
      "  1. --bucket-name command line argument",
      "  2. S3_BUCKET_NAME environment variable"]
  | "SERVICE_ACCESS_TOKEN" =>
    ["Service access token is required for client authentication.",
      "",
      "Provide the service access token via:",
      "  1. --service-access-token command line argument",
      "  2. SERVICE_ACCESS_TOKEN environment variable",
      "",
      "This token must match the token configured in your Nx clients."]
  | field =>
    ["Field: " ++ field, "", "Please provide this required configuration parameter."]

/-- `impl Display for ConfigError`, line by line. -/
def ConfigError.lines : ConfigError → List String
  | .missingField field =>
    ["", "Configuration Error: Missing required field", ""] ++ missingFieldHelp field ++
      ["Run with --help for more information."]
  | .invalid message =>
    ["", "Configuration Error: Invalid value", "", message, "",
      "Run with --help for more information."]

/-- `impl Display for ConfigError`: every line ends with a newline, the last one too.
-/
def ConfigError.display (e : ConfigError) : String := String.join (e.lines.map (· ++ "\n"))

/-- The bytes a token is compared by (`as_bytes`). -/
def tokenBytes (token : String) : Bytes := token.toUTF8.data.toList

/-- Tokens with the same bytes are the same token. -/
theorem tokenBytes_injective : Function.Injective tokenBytes := by
  intro a b h
  have hdata : a.toUTF8.data = b.toUTF8.data := Array.toList_inj.mp h
  exact String.toByteArray_inj.mp (ByteArray.ext hdata)

end NxCacheServer.Domain
