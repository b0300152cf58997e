import NxCacheServer.Server.Task

/-!
# S3 storage

`impl StorageProvider for S3Storage` of `src/infra/aws.rs`: `exists`, `store`
with its part buffer `fill_part`, and `retrieve`, as tasks over the S3 client.

`store` borrows its stream from the handler, so it hands back what it left
unread together with its result. The multipart loop runs until `fill_part`
reports the end of the stream. It terminates because a `fill_part` that stops
at the part boundary has read at least one chunk; `Filled` carries that fact.

Mirroring notes:
- The `async` block around the loop is `uploadLoop`. A `?` in it leaves the block and
  not `store`, so its result goes to `finishUpload`, which aborts or completes.
- `createUpload`, `sendPart`, `flushBuffer` and `putWhole` are pieces of `store` that
  the source writes inline.
- `part_number` is an `i32` and `bytes_received` a `usize`. Both are `Nat` here: S3
  refuses part numbers above 10,000, and 2^31 parts of 8 MiB would be 16 PiB of one
  body, so neither of them overflows.
- `content_length` is the length of the buffer before it is moved into the request.
-/

namespace NxCacheServer.Infra

open NxCacheServer.Domain NxCacheServer.Server NxCacheServer.Lib

/-- S3 multipart part size. -/
def multipartPartSize : Nat := 8 * 1024 * 1024

/-- `log_s3_error`: one ERROR line with the operation, the key and what the SDK error
says. -/
def logS3Error (operation : String) (hash : Hash) (err : SdkError) : Async Unit :=
  Async.log (.s3Error operation hash err)

/-- What `fill_part` returns: `(buffer, eof)` or the error, and the stream and
byte count it leaves behind. `room` says that the buffer was short of the part
size to begin with, so that stopping at the boundary took a chunk. -/
structure Filled (room : Prop) (data : Body) where
  result : Except StorageError (Bytes × Bool)
  rest : Body
  bytesReceived : Nat
  size_le : rest.size ≤ data.size
  size_lt : room → ∀ buffer, result = .ok (buffer, false) → rest.size < data.size

/-- The same result after one more chunk had been read before. -/
def Filled.afterChunk {room room' : Prop} {data : Body} (f : Filled room data)
    (ready : Instant) (bytes : Bytes) : Filled room' (.chunk ready bytes data) where
  result := f.result
  rest := f.rest
  bytesReceived := f.bytesReceived
  size_le := Nat.le_succ_of_le f.size_le
  size_lt _ _ _ := Nat.lt_succ_of_le f.size_le

/-- The loop of `fill_part`, with `buffer` read so far. -/
def fillLoop (partSize : Nat) (hash : Hash) :
    (data : Body) → (bytesReceived : Nat) → (buffer : Bytes) →
      Async (Filled (buffer.length < partSize) data)
  | data, bytesReceived, buffer =>
    if h : buffer.length < partSize then
      match data with
      | .chunk ready chunk rest => do
        Async.read ready (.chunk chunk)
        let filled ← fillLoop partSize hash rest (bytesReceived + chunk.length) (buffer ++ chunk)
        pure (filled.afterChunk ready chunk)
      -- the stream breaks off: the client is gone, and the rest with it
      | .reset ready => do
        Async.read ready .reset
        Async.log (.clientAborted hash bytesReceived)
        pure ⟨.error .clientAbort, .reset ready, bytesReceived, Nat.le_refl _, by simp⟩
      | .eof ready => do
        Async.read ready .eof
        pure ⟨.ok (buffer, true), .eof ready, bytesReceived, Nat.le_refl _, by simp⟩
    else pure ⟨.ok (buffer, false), data, bytesReceived, Nat.le_refl _, fun hr => absurd hr h⟩

/-- A full buffer is handed back without a read. -/
theorem fillLoop_full {partSize : Nat} {hash : Hash} {data : Body} {n : Nat} {buffer : Bytes}
    (hfull : ¬ buffer.length < partSize) :
    fillLoop partSize hash data n buffer =
      .done ⟨.ok (buffer, false), data, n, Nat.le_refl _, fun hr => absurd hr hfull⟩ := by
  cases data <;> rw [fillLoop, dif_neg hfull] <;> rfl

/-- Filling a part reads, and tells of a client that is gone. -/
theorem fillLoop_only {A : Act → Prop} {hash : Hash} (hread : ∀ ready item, A (.read ready item))
    (hlog : ∀ n, A (.log (.clientAborted hash n))) (partSize : Nat) :
    ∀ (data : Body) (n : Nat) (buffer : Bytes),
      Prog.Only A (fillLoop partSize hash data n buffer) := by
  intro data
  induction data with
  | eof ready =>
    intro n buffer
    rw [fillLoop]
    split
    · exact Prog.only_act.mpr ⟨hread _ _, fun _ => trivial⟩
    · trivial
  | reset ready =>
    intro n buffer
    rw [fillLoop]
    split
    · exact Prog.only_act.mpr ⟨hread _ _, fun _ => Prog.only_act.mpr ⟨hlog _, fun _ => trivial⟩⟩
    · trivial
  | chunk ready bytes rest ih =>
    intro n buffer
    rw [fillLoop]
    split
    · rw [Async.read_bind, Prog.only_act]
      exact ⟨hread _ _, fun _ => Prog.only_bind (ih _ _) fun _ => trivial⟩
    · trivial

/-- `fill_part`. -/
def fillPart (data : Body) (partSize : Nat) (hash : Hash) (bytesReceived : Nat) :
    Async (Filled (0 < partSize) data) :=
  fillLoop partSize hash data bytesReceived []

namespace S3Storage

/-- `S3Storage::exists`. -/
def existsKey (hash : Hash) : Async (Except StorageError Bool) := do
  match ← Async.s3 (.headObject hash) with
  | .ok () => pure (.ok true)
  | .error .notFound => pure (.ok false)
  | .error (.other e) => do
    logS3Error "head" hash e
    pure (.error .operationFailed)

/-- One `UploadPart` and the check of its ETag. -/
def sendPart (hash : Hash) (uploadId : UploadId) (partNumber : Nat) (partBody : Bytes) :
    Async (Except StorageError CompletedPart) := do
  match ← Async.s3 (.uploadPart hash uploadId partNumber partBody.length partBody) with
  | .error e => do
    logS3Error "multipart-part" hash e
    pure (.error .operationFailed)
  | .ok none => do
    Async.log (.s3Missing "multipart-part" hash (some partNumber)
      "S3 upload_part response missing ETag")
    pure (.error .operationFailed)
  | .ok (some eTag) => pure (.ok ⟨partNumber, eTag⟩)

/-- The part of the loop body that sends the buffer, unless it is empty. -/
def flushBuffer (hash : Hash) (uploadId : UploadId) (buffer : Bytes) (partNumber : Nat)
    (completedParts : List CompletedPart) :
    Async (Except StorageError (Nat × List CompletedPart)) :=
  -- only the last buffer can be empty, when the body ends with a full part
  if buffer.isEmpty then pure (.ok (partNumber, completedParts))
  else do
    match ← sendPart hash uploadId partNumber buffer with
    | .error e => pure (.error e)
    | .ok part => pure (.ok (partNumber + 1, completedParts ++ [part]))

/-- The upload loop: send the buffer, stop at the end of the stream, refill. -/
def uploadLoop (hash : Hash) (uploadId : UploadId) (buffer : Bytes) (eof : Bool) (data : Body)
    (bytesReceived : Nat) (partNumber : Nat) (completedParts : List CompletedPart) :
    Async (Except StorageError (List CompletedPart) × Body) := do
  match ← flushBuffer hash uploadId buffer partNumber completedParts with
  | .error e => pure (.error e, data)
  | .ok (partNumber, completedParts) =>
    if eof then pure (.ok completedParts, data)
    else do
      let filled ← fillPart data multipartPartSize hash bytesReceived
      match _h : filled.result with
      | .error e => pure (.error e, filled.rest)
      | .ok (nextBuffer, nextEof) =>
        uploadLoop hash uploadId nextBuffer nextEof filled.rest filled.bytesReceived partNumber
          completedParts
termination_by if eof then 0 else data.size + 1
decreasing_by
  cases nextEof with
  | true => simp_all
  | false =>
    have hlt := filled.size_lt (by decide) nextBuffer _h
    simp_all

/-- The invariant rule of the upload loop: `I` holds of the loop variables
before every iteration, `Q` of what the loop returns. -/
theorem uploadLoop_rule {σ : Type} {C : Prog.Contract Act Act.Resp σ}
    {Q : Except StorageError (List CompletedPart) × Body → σ → Prop}
    (hash : Hash) (uploadId : UploadId)
    (I : Bytes → Bool → Body → Nat → Nat → List CompletedPart → σ → Prop)
    (hstep : ∀ buffer eof data n k parts g, I buffer eof data n k parts g →
      (flushBuffer hash uploadId buffer k parts).wp C (fun sent g' =>
        match sent with
        | .error e => Q (.error e, data) g'
        | .ok (k', parts') =>
          if eof then Q (.ok parts', data) g'
          else (fillPart data multipartPartSize hash n).wp C (fun filled g'' =>
            match filled.result with
            | .error e => Q (.error e, filled.rest) g''
            | .ok (buffer', eof') =>
              I buffer' eof' filled.rest filled.bytesReceived k' parts' g'') g') g) :
    ∀ buffer eof data n k parts g, I buffer eof data n k parts g →
      (uploadLoop hash uploadId buffer eof data n k parts).wp C Q g := by
  intro buffer eof data
  -- the measure of the loop: it stops after an `eof`, and reads otherwise
  induction hm : (if eof then 0 else data.size + 1) using Nat.strongRecOn
    generalizing buffer eof data with
  | _ m ih =>
    intro n k parts g hI
    rw [uploadLoop]
    refine Prog.wp_bind_of (hstep buffer eof data n k parts g hI) ?_
    intro sent g' hsent
    match sent, hsent with
    | .error e, hsent => exact hsent
    | .ok (k', parts'), hsent =>
      dsimp only at hsent ⊢
      split at hsent
      next heof => rw [if_pos heof]; exact hsent
      next heof =>
        rw [if_neg heof]
        refine Prog.wp_bind_of hsent ?_
        intro filled g'' hfilled
        split
        next e hres => rw [hres] at hfilled; exact hfilled
        next buffer' eof' hres =>
          rw [hres] at hfilled
          refine ih _ ?_ buffer' eof' filled.rest rfl _ _ _ _ hfilled
          rw [← hm, if_neg heof]
          cases eof' with
          | true => simp
          | false =>
            have hlt := filled.size_lt (by decide) buffer' hres
            simpa using hlt

/-- The uploaded parts are turned into the object, or given up: the end of
`store` after the loop. -/
def finishUpload (hash : Hash) (uploadId : UploadId)
    (uploadResult : Except StorageError (List CompletedPart)) :
    Async (Except StorageError Unit) := do
  match uploadResult with
  | .error err => do
    match ← Async.s3 (.abortMultipartUpload hash uploadId) with
    -- a failed abort is logged, and the client hears of the first error
    | .error abortErr => do
      logS3Error "multipart-abort" hash abortErr
      pure (.error err)
    | .ok () => pure (.error err)
  | .ok completedParts => do
    match ← Async.s3 (.completeMultipartUpload hash uploadId completedParts) with
    -- a failed completion is not aborted: its parts stay in the bucket
    | .error e => do
      logS3Error "multipart-complete" hash e
      pure (.error .operationFailed)
    | .ok () => pure (.ok ())

/-- The single `PutObject` of a body that fits in one part. -/
def putWhole (hash : Hash) (buffer : Bytes) : Async (Except StorageError Unit) := do
  match ← Async.s3 (.putObject hash buffer) with
  | .ok () => pure (.ok ())
  | .error e => do
    logS3Error "put" hash e
    pure (.error .operationFailed)

/-- `CreateMultipartUpload` and the check of its upload id. -/
def createUpload (hash : Hash) : Async (Except StorageError UploadId) := do
  match ← Async.s3 (.createMultipartUpload hash) with
  | .error e => do
    logS3Error "multipart-create" hash e
    pure (.error .operationFailed)
  | .ok none => do
    Async.log (.s3Missing "multipart-create" hash none
      "S3 create_multipart_upload returned no upload_id")
    pure (.error .operationFailed)
  | .ok (some uploadId) => pure (.ok uploadId)

/-- `S3Storage::store`. -/
def store (hash : Hash) (data : Body) : Async (Except StorageError Unit × Body) := do
  let filled ← fillPart data multipartPartSize hash 0
  match filled.result with
  | .error e => pure (.error e, filled.rest)
  -- the body fits in one part
  | .ok (buffer, true) => do
    let result ← putWhole hash buffer
    pure (result, filled.rest)
  | .ok (buffer, false) => do
    match ← createUpload hash with
    | .error e => pure (.error e, filled.rest)
    | .ok uploadId => do
      let (uploadResult, rest) ←
        uploadLoop hash uploadId buffer false filled.rest filled.bytesReceived 1 []
      let result ← finishUpload hash uploadId uploadResult
      pure (result, rest)

/-- `S3Storage::retrieve`. -/
def retrieve (hash : Hash) : Async (Except StorageError ObjectBody) := do
  match ← Async.s3 (.getObject hash) with
  | .ok body => pure (.ok body)
  | .error .noSuchKey => pure (.error .notFound)
  | .error (.other e) => do
    logS3Error "get" hash e
    pure (.error .operationFailed)

end S3Storage

/-- `impl StorageProvider for S3Storage`. -/
def s3Storage : StorageProvider where
  existsKey := S3Storage.existsKey
  store := S3Storage.store
  retrieve := S3Storage.retrieve

end NxCacheServer.Infra
