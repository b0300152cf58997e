import Mathlib.Algebra.GroupWithZero.Nat
import NxCacheServer.Lib.Cost
import NxCacheServer.Server.Multipart
import NxCacheServer.Server.Served

/-!
# What a request costs

S3 charges for every request and every byte. A `Tariff` has a price for each
kind of request `src/infra/aws.rs` makes, those for `PutObject` and `UploadPart`
depending on what is sent, and `Tariff.budget` is what serving a request may
cost: nothing where it is refused, one look and one fetch for a reader, one look
and one upload for a writer, whatever fails on the way (`serve_atMost`).

A price is for an operation and its arguments, whatever the reply. The most expensive
way through `store` is the one where everything succeeds, or where all but the last
request does, so `closing` is the dearer of a completion and an abort.
-/

namespace NxCacheServer.Server

open NxCacheServer.Domain NxCacheServer.Infra NxCacheServer.Lib

/-- What each kind of request to S3 costs. -/
structure Tariff where
  head : Nat
  get : Nat
  put : Bytes → Nat
  create : Nat
  part : Bytes → Nat
  complete : Nat
  abort : Nat

namespace Tariff

variable (tariff : Tariff)

/-- The price of an operation. -/
def price : S3Call → Nat
  | .headObject _ => tariff.head
  | .getObject _ => tariff.get
  | .putObject _ body => tariff.put body
  | .createMultipartUpload _ => tariff.create
  | .uploadPart _ _ _ _ body => tariff.part body
  | .completeMultipartUpload _ _ _ => tariff.complete
  | .abortMultipartUpload _ _ => tariff.abort

/-- The price of an action: only requests to S3 cost anything. -/
def cost : Act → Nat
  | .s3 call => tariff.price call
  | _ => 0

/-- The request that ends a multipart upload. -/
def closing : Nat := max tariff.complete tariff.abort

/-- The price of some parts. -/
def sum (parts : List Bytes) : Nat := (parts.map tariff.part).sum

/-- What storing `body` may cost: one `PutObject` if it fits in a part, or an
upload of each of its parts. -/
def upload (body : Body) : Nat :=
  if body.bytes.length < multipartPartSize then tariff.put body.bytes
  else tariff.create + tariff.sum (uploadParts body) + tariff.closing

/-- What serving a request may cost. -/
def budget : Role → Body → Nat
  | .writer _, body => tariff.head + tariff.upload body
  | .reader _, _ => tariff.head + tariff.get
  | .refused _, _ => 0

end Tariff

variable {tariff : Tariff} {hash : Hash} {body : Body} {left : Nat}

/-! ## Reading the body -/

/-- Reading is free. -/
theorem fillPart_free (data : Body) (n : Nat) :
    (fillPart data multipartPartSize hash n).wp (Prog.spending Act.Resp tariff.cost)
      (fun filled left' => left' = left ∧ Fills filled multipartPartSize []) left := by
  refine Prog.wp_mono (fillLoop_rule (fun left' => left' = left) (fun left' => left' = left)
    (fun left' => left' = left) ?_ ?_ ?_ data n [] left (by decide) rfl) ?_
  · exact fun _ _ _ h => ⟨Nat.zero_le _, fun _ => h⟩
  · exact fun _ _ h => ⟨Nat.zero_le _, fun _ => h⟩
  · exact fun _ _ _ h => ⟨Nat.zero_le _, fun _ _ => ⟨Nat.zero_le _, fun _ _ => h⟩⟩
  intro filled left' hfilled
  obtain ⟨hends, hfills⟩ := hfilled
  refine ⟨?_, hfills⟩
  unfold Filled.Ends at hends
  split at hends <;> exact hends

/-! ## Storing -/

theorem existsKey_cost (hle : tariff.head ≤ left) :
    (S3Storage.existsKey hash).wp (Prog.spending Act.Resp tariff.cost)
      (fun _ left' => left' = left - tariff.head) left := by
  rw [S3Storage.existsKey, Async.s3_bind]
  refine Prog.wp_pay hle ?_
  intro r
  rcases r with (_ | err) | _
  · exact rfl
  · exact Prog.wp_free rfl fun _ => rfl
  · exact rfl

/-- A buffer costs its part, and an empty one nothing. -/
theorem flushBuffer_cost {id : UploadId} {buffer : Bytes} {k : Nat} {parts : List CompletedPart}
    {rest : Nat} (hle : tariff.sum (Body.partOf buffer) + rest ≤ left) :
    (S3Storage.flushBuffer hash id buffer k parts).wp (Prog.spending Act.Resp tariff.cost)
      (fun _ left' => rest ≤ left') left := by
  unfold S3Storage.flushBuffer
  unfold Body.partOf at hle
  split
  next hempty =>
    rw [if_pos hempty] at hle
    exact Nat.le_of_add_left_le hle
  next hempty =>
    rw [if_neg hempty, Tariff.sum, List.map_singleton, List.sum_singleton] at hle
    have hrest : rest ≤ left - tariff.part buffer := by omega
    rw [S3Storage.sendPart, Async.s3_bind]
    refine Prog.wp_pay (Nat.le_of_add_right_le hle) ?_
    intro r
    rcases r with err | _ | eTag
    · exact Prog.wp_free rfl fun _ => hrest
    · exact Prog.wp_free rfl fun _ => hrest
    · exact hrest

/-- The upload loop pays for each part that is left to send once. -/
theorem uploadLoop_cost {id : UploadId} {buffer : Bytes} {eof : Bool} {data : Body} {n k : Nat}
    {parts : List CompletedPart} {rest : Nat}
    (hle : tariff.sum (unsent buffer eof data) + rest ≤ left) :
    (S3Storage.uploadLoop hash id buffer eof data n k parts).wp
      (Prog.spending Act.Resp tariff.cost) (fun _ left' => rest ≤ left') left := by
  refine S3Storage.uploadLoop_rule hash id
    (fun buffer eof data _ _ _ left => tariff.sum (unsent buffer eof data) + rest ≤ left) ?_
    _ _ _ _ _ _ _ hle
  intro buffer eof data n k parts left hle
  -- after the buffer, what is left of the stream is paid for
  have hflush : tariff.sum (Body.partOf buffer) +
      ((if eof then 0 else tariff.sum (data.partsFrom multipartPartSize [])) + rest) ≤ left := by
    have hpart : tariff.sum (Body.partOf buffer) ≤ tariff.part buffer := by
      unfold Body.partOf
      split <;> simp [Tariff.sum]
    cases eof with
    | true => simpa [unsent] using hle
    | false =>
      simp only [unsent, Bool.false_eq_true, if_false, Tariff.sum, List.map_cons,
        List.sum_cons] at hle hpart ⊢
      omega
  refine Prog.wp_mono (flushBuffer_cost hflush) ?_
  intro sent left' hleft
  split
  next => exact Nat.le_of_add_left_le hleft
  next =>
    cases eof with
    | true => simpa using hleft
    | false =>
      refine Prog.wp_mono (fillPart_free data n) ?_
      intro filled left'' hfilled
      obtain ⟨rfl, hfills⟩ := hfilled
      unfold Fills at hfills
      split at hfills
      next e hres =>
        rw [hres]
        exact Nat.le_of_add_left_le hleft
      next bytes hres =>
        obtain ⟨-, -, -, hrest⟩ := hfills
        rw [hres]
        simpa [hrest, unsent] using hleft
      next bytes hres =>
        obtain ⟨-, -, -, hrest⟩ := hfills
        rw [hres]
        simpa [hrest, unsent] using hleft

/-- The end of an upload costs the dearer of its two ends at most. -/
theorem finishUpload_cost {id : UploadId} {result : Except StorageError (List CompletedPart)}
    (hle : tariff.closing ≤ left) :
    (S3Storage.finishUpload hash id result).AtMost tariff.cost left := by
  unfold S3Storage.finishUpload
  cases result with
  | error err =>
    refine Prog.wp_pay (Nat.le_trans (Nat.le_max_right _ _) hle) ?_
    intro r
    rcases r with abortErr | _
    · exact Prog.wp_free rfl fun _ => trivial
    · trivial
  | ok parts =>
    refine Prog.wp_pay (Nat.le_trans (Nat.le_max_left _ _) hle) ?_
    intro r
    rcases r with err | _
    · exact Prog.wp_free rfl fun _ => trivial
    · trivial

theorem putWhole_cost {buffer : Bytes} (hle : tariff.put buffer ≤ left) :
    (S3Storage.putWhole hash buffer).AtMost tariff.cost left := by
  rw [S3Storage.putWhole, Async.s3_bind]
  refine Prog.wp_pay hle ?_
  intro r
  rcases r with err | _
  · exact Prog.wp_free rfl fun _ => trivial
  · trivial

theorem createUpload_cost (hle : tariff.create ≤ left) :
    (S3Storage.createUpload hash).wp (Prog.spending Act.Resp tariff.cost)
      (fun _ left' => left' = left - tariff.create) left := by
  rw [S3Storage.createUpload, Async.s3_bind]
  refine Prog.wp_pay hle ?_
  intro r
  rcases r with err | _ | id
  · exact Prog.wp_free rfl fun _ => rfl
  · exact Prog.wp_free rfl fun _ => rfl
  · exact rfl

/-- `store` costs one upload of its body at most. -/
theorem store_cost (hle : tariff.upload body ≤ left) :
    (S3Storage.store hash body).AtMost tariff.cost left := by
  rw [S3Storage.store]
  refine Prog.wp_bind_of (fillPart_free body 0) ?_
  intro filled left' hfilled
  obtain ⟨rfl, hfills⟩ := hfilled
  unfold Fills at hfills
  unfold Tariff.upload at hle
  cases hres : filled.result with
  | error e => trivial
  | ok part =>
    rw [hres] at hfills
    obtain ⟨bytes, eof⟩ := part
    cases eof with
    | true =>
      obtain ⟨-, rfl, hshort, -⟩ := hfills
      rw [List.nil_append] at hshort
      rw [if_pos hshort] at hle
      exact Prog.wp_bind_of (putWhole_cost hle) fun _ _ _ => trivial
    | false =>
      obtain ⟨-, hbytes, hfull, hparts⟩ := hfills
      -- the first part is full, so the body does not fit in one
      have hlong : ¬ body.bytes.length < multipartPartSize := by
        rw [← List.nil_append body.bytes, hbytes, List.length_append]
        omega
      rw [if_neg hlong] at hle
      have hrest : tariff.sum (unsent bytes false filled.rest) + tariff.closing ≤
          left' - tariff.create := by
        rw [show unsent bytes false filled.rest = uploadParts body from hparts.symm]
        omega
      refine Prog.wp_bind_of (createUpload_cost (by omega)) ?_
      intro created left'' hleft
      subst hleft
      cases created with
      | error e => trivial
      | ok id =>
        refine Prog.wp_bind_of (uploadLoop_cost hrest) ?_
        intro looped left'' hclosing
        exact Prog.wp_bind_of (finishUpload_cost hclosing) fun _ _ _ => trivial

/-! ## Handling a request -/

theorem drainBodyWithin_free (data : Body) (limit : Duration) :
    (drainBodyWithin data limit).wp (Prog.spending Act.Resp tariff.cost)
      (fun _ left' => left' = left) left := by
  refine (drainBodyWithin_only (A := fun e => tariff.cost e = 0) ?_ rfl data limit).free
    fun _ h => h
  intro ready item
  rfl

theorem markPresent_free : (markPresent hash).wp (Prog.spending Act.Resp tariff.cost)
    (fun _ left' => left' = left) left := by
  rw [markPresent, Async.now_bind]
  exact Prog.wp_free rfl fun _ => Prog.wp_free rfl fun _ => rfl

theorem intoResponse_free (result : Except ServerError Response) :
    (intoResponse result).AtMost tariff.cost left := by
  rcases result with (_ | _ | _ | _ | (_ | _ | _ | _)) | response
  case error.internalError => exact Prog.wp_free rfl fun _ => trivial
  all_goals trivial

theorem storeAbsent_cost (hle : tariff.upload body ≤ left) :
    (storeAbsent s3Storage hash body).AtMost tariff.cost left := by
  refine Prog.wp_bind_of (store_cost hle) ?_
  intro stored left' _
  obtain ⟨result, rest⟩ := stored
  cases result with
  | ok _ => exact Prog.wp_bind_of markPresent_free fun _ _ _ => trivial
  | error e =>
    cases e with
    | clientAbort => trivial
    | operationFailed | notFound | alreadyExists =>
      simp only [Async.log_bind]
      refine Prog.wp_free rfl ?_
      intro _
      exact Prog.wp_bind_of (drainBodyWithin_free rest drainTimeout) fun _ _ _ => trivial

/-- A writer pays for a look and an upload at most. -/
theorem storeArtifact_cost [RustChar] (hle : tariff.head + tariff.upload body ≤ left) :
    (storeArtifact s3Storage hash body).AtMost tariff.cost left := by
  rw [storeArtifact]
  cases validateHash hash with
  | error invalid => exact Prog.wp_bind_of (drainBodyWithin_free body _) fun _ _ _ => trivial
  | ok _ =>
    refine Prog.wp_bind_of (existsKey_cost (by omega)) ?_
    intro found left' hleft
    subst hleft
    split
    · refine Prog.wp_bind_of markPresent_free ?_
      intro _ left'' _
      exact Prog.wp_bind_of (drainBodyWithin_free body _) fun _ _ _ => trivial
    · exact storeAbsent_cost (by omega)

/-- A reader pays for a look at most, and for none if another caller's probe was its
own. -/
theorem present_cost (hle : tariff.head ≤ left) :
    (present hash (S3Storage.existsKey hash)).wp (Prog.spending Act.Resp tariff.cost)
      (fun _ left' => left - tariff.head ≤ left') left := by
  rw [present, Async.now_bind]
  refine Prog.wp_free rfl ?_
  intro t
  rw [Async.slot_bind]
  refine Prog.wp_free rfl ?_
  intro s
  rw [getOrTryInit, Async.acquire_bind]
  refine Prog.wp_free rfl ?_
  intro acquired
  cases acquired with
  | initialized v => exact Nat.sub_le _ _
  | permit =>
    refine Prog.wp_bind_of (existsKey_cost hle) ?_
    intro found left' hleft
    subst hleft
    cases found with
    | ok v => exact Prog.wp_free rfl fun _ => Nat.le_refl _
    | error e => exact Prog.wp_free rfl fun _ => Nat.le_refl _

/-- A reader pays for a look and a fetch at most. -/
theorem retrieveArtifact_cost [RustChar] (hle : tariff.head + tariff.get ≤ left) :
    (retrieveArtifact s3Storage hash).AtMost tariff.cost left := by
  rw [retrieveArtifact]
  cases validateHash hash with
  | error invalid => trivial
  | ok _ =>
    refine Prog.wp_bind_of (present_cost (by omega)) ?_
    intro found left' hleft
    have hget : tariff.get ≤ left' := by omega
    rw [retrieveProbed]
    split
    · refine Prog.wp_pay hget ?_
      intro r
      rcases r with (_ | err) | object
      · trivial
      · exact Prog.wp_free rfl fun _ => trivial
      · trivial
    · trivial

/-! ## Serving by role -/

section

variable [RustChar] {storage : StorageProvider} {config : ServerConfig} {request : Request}

/-- A writer's request comes to `store_artifact`. -/
theorem serve_writer (hrole : role config request = .writer hash) :
    serve storage config request = storeArtifact storage hash request.body >>= fun result =>
      intoResponse result >>= fun response => .done (finalize request response) := by
  obtain ⟨token, htoken, hroute, hok⟩ := role_routed (Or.inl hrole)
  obtain ⟨hmethod, hpath, -⟩ := routeRole_writer (hroute.symm.trans hrole)
  rw [serve, authMiddleware_granted htoken hok, cacheRoutes, hmethod, hpath]
  simp only [Prog.bind_assoc, Prog.done_bind, intoResponse, Prog.pure_eq]

/-- A reader's comes to `retrieve_artifact`. -/
theorem serve_reader (hrole : role config request = .reader hash) :
    serve storage config request = retrieveArtifact storage hash >>= fun result =>
      intoResponse result >>= fun response => .done (finalize request response) := by
  obtain ⟨token, htoken, hroute, hok⟩ := role_routed (Or.inr hrole)
  obtain ⟨hread, hpath, -⟩ := routeRole_reader (hroute.symm.trans hrole)
  rw [serve, authMiddleware_granted htoken hok, cacheRoutes, hpath]
  cases hmethod : request.method with
  | get | head => simp only [Prog.bind_assoc, Prog.done_bind, intoResponse, Prog.pure_eq]
  | put | other name =>
    rw [hmethod] at hread
    cases hread

/-- **What a request costs.** Serving it never exceeds the budget of its role. -/
theorem serve_atMost (tariff : Tariff) (config : ServerConfig) (request : Request) :
    (serve s3Storage config request).AtMost tariff.cost
      (tariff.budget (role config request) request.body) := by
  cases hrole : role config request with
  | writer hash =>
    rw [serve_writer hrole]
    refine Prog.wp_bind_of (storeArtifact_cost (Nat.le_refl _)) ?_
    intro result left _
    exact Prog.wp_bind_of (intoResponse_free result) fun _ _ _ => trivial
  | reader hash =>
    rw [serve_reader hrole]
    refine Prog.wp_bind_of (retrieveArtifact_cost (Nat.le_refl _)) ?_
    intro result left _
    exact Prog.wp_bind_of (intoResponse_free result) fun _ _ _ => trivial
  | refused answer =>
    -- a refused request may read its body, arm a timer and log, and that is free
    have honly : (serve s3Storage config request).Only fun e => tariff.cost e = 0 := by
      refine Prog.Only.of_wp (session_unpromising (role config request) request.body) ?_
        serve_session
      intro g e ha
      rw [hrole] at ha
      cases e with
      | s3 call => exact absurd ha not_false
      | _ => rfl
    exact Prog.wp_mono (honly.free fun _ h => h) fun _ _ _ => trivial

end

end NxCacheServer.Server
