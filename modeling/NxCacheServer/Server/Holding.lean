import NxCacheServer.Infra.Cleanup
import NxCacheServer.Server.Tariff

/-!
# The uploads a request has open

Between the `CreateMultipartUpload` that S3 answers with an id and the request
that completes or aborts it, a request holds its upload. No code path ends while
one is held: `serve_releases` is about every request, whatever S3 answers and
wherever the body breaks off.

What is held is what the request knows of: the reply with the id has come, and no
completion or abort has come back since, with whatever reply. Uploads S3 has opened
and the request has not heard of are the business of `NxCacheServer.System.Dangling`.
-/

namespace NxCacheServer.Server

open NxCacheServer.Domain NxCacheServer.Infra NxCacheServer.Lib

/-- The uploads held after an action, `held` being those before. -/
def hold (held : List (Hash × UploadId)) : (e : Act) → e.Resp → List (Hash × UploadId)
  | .s3 (.createMultipartUpload key), Except.ok (some id) => (key, id) :: held
  | .s3 (.completeMultipartUpload key id _), _ => held.filter fun upload => upload ≠ (key, id)
  | .s3 (.abortMultipartUpload key id), _ => held.filter fun upload => upload ≠ (key, id)
  | _, _ => held

/-- The contract that counts the uploads held. -/
def holding : Prog.Contract Act Act.Resp (List (Hash × UploadId)) where
  allow _ _ := True
  promise _ _ _ := True
  update held e r := hold held e r

theorem holding_unpromising : holding.Unpromising := fun _ _ _ => trivial

/-- `p` ends holding no upload, if it starts with none. -/
def Releases {α : Type} (p : Async α) : Prop := p.wp holding (fun _ held => held = []) []

/-- Only the calls of an upload change what is held. -/
theorem hold_quiet {held : List (Hash × UploadId)} {e : Act} {r : e.Resp} (he : Act.Quiet e) :
    hold held e r = held := by
  cases e with
  | s3 call =>
    cases call with
    | createMultipartUpload _ | completeMultipartUpload _ _ _ | abortMultipartUpload _ _ =>
      exact absurd he not_false
    | _ => rfl
  | _ => rfl

section

variable {α β : Type} {hash : Hash} {id : UploadId} {body : Body}

/-- What neither opens nor ends an upload leaves it as it is. -/
theorem holds_of_quiet {p : Async α} (hp : Prog.Only Act.Quiet p) (held : List (Hash × UploadId)) :
    p.wp holding (fun _ held' => held' = held) held := by
  refine hp.wp (I := fun held' => held' = held) (fun _ _ _ _ => trivial) ?_ rfl
  intro held' e r he hheld _
  exact (hold_quiet he).trans hheld

theorem releases_done (a : α) : Releases (Prog.done a : Async α) := rfl

/-- Two parts that hold nothing at their end do not in sequence. -/
theorem releases_bind {p : Async α} {f : α → Async β} (hp : Releases p)
    (hf : ∀ a, Releases (f a)) : Releases (p >>= f) := by
  refine Prog.wp_bind_of hp ?_
  intro a held hheld
  rw [hheld]
  exact hf a

theorem releases_of_quiet {p : Async α} (hp : Prog.Only Act.Quiet p) : Releases p :=
  holds_of_quiet hp []

/-! ## Storing -/

/-- Whatever the loop came to, the upload is completed or its abort is asked for; a
call that fails is on record. -/
theorem finishUpload_releases (result : Except StorageError (List CompletedPart)) :
    (S3Storage.finishUpload hash id result).wp holding (fun _ held => held = []) [(hash, id)] := by
  have hreleased : [(hash, id)].filter (fun upload => upload ≠ (hash, id)) = [] := by simp
  unfold S3Storage.finishUpload
  cases result with
  | error err =>
    refine ⟨trivial, fun r _ => ?_⟩
    rcases r with abortErr | _
    · exact ⟨trivial, fun _ _ => hreleased⟩
    · exact hreleased
  | ok parts =>
    refine ⟨trivial, fun r _ => ?_⟩
    rcases r with err | _
    · exact ⟨trivial, fun _ _ => hreleased⟩
    · exact hreleased

/-- After the creation one upload is held, if S3 gave it an id. -/
theorem createUpload_holds : (S3Storage.createUpload hash).wp holding (fun created held =>
    match created with
    | .error _ => held = []
    | .ok id => held = [(hash, id)]) [] := by
  refine ⟨trivial, fun r _ => ?_⟩
  rcases r with err | _ | id
  · exact ⟨trivial, fun _ _ => rfl⟩
  · exact ⟨trivial, fun _ _ => rfl⟩
  · exact rfl

/-- `store` ends every upload it has opened. -/
theorem store_releases : Releases (S3Storage.store hash body) := by
  rw [S3Storage.store]
  refine releases_bind (releases_of_quiet (fillLoop_quiet _ _ _ _ _)) ?_
  intro filled
  cases filled.result with
  | error e => exact releases_done _
  | ok part =>
    obtain ⟨buffer, eof⟩ := part
    cases eof with
    | true =>
      exact releases_bind (releases_of_quiet (putWhole_quiet hash buffer)) fun _ => releases_done _
    | false =>
      refine Prog.wp_bind_of createUpload_holds ?_
      intro created held hheld
      cases created with
      | error e => exact hheld
      | ok id =>
        rw [hheld]
        refine Prog.wp_bind_of (holds_of_quiet (uploadLoop_quiet _ _ _ _ _ _ _ _) _) ?_
        intro looped held' hheld'
        rw [hheld']
        exact Prog.wp_bind_of (finishUpload_releases looped.1) fun _ _ hreleased => hreleased

/-! ## Serving -/

theorem existsKey_quiet : Prog.Only Act.Quiet (S3Storage.existsKey hash) := by
  refine ⟨trivial, fun r _ => ?_⟩
  rcases r with (_ | err) | _
  · exact trivial
  · exact ⟨trivial, fun _ _ => trivial⟩
  · exact trivial

theorem drainBodyWithin_quiet (data : Body) (limit : Duration) :
    Prog.Only Act.Quiet (drainBodyWithin data limit) :=
  drainBodyWithin_only (fun _ _ => trivial) trivial data limit

theorem markPresent_quiet : Prog.Only Act.Quiet (markPresent hash) :=
  ⟨trivial, fun _ _ => ⟨trivial, fun _ _ => trivial⟩⟩

theorem intoResponse_quiet (result : Except ServerError Response) :
    Prog.Only Act.Quiet (intoResponse result) := by
  rcases result with (_ | _ | _ | _ | (_ | _ | _ | _)) | response
  case error.internalError => exact ⟨trivial, fun _ _ => trivial⟩
  all_goals trivial

/-- A writer that stores holds nothing when it is answered. -/
theorem storeAbsent_releases : Releases (storeAbsent s3Storage hash body) := by
  refine releases_bind store_releases ?_
  intro stored
  obtain ⟨result, rest⟩ := stored
  cases result with
  | ok _ => exact releases_bind (releases_of_quiet markPresent_quiet) fun _ => releases_done _
  | error e =>
    cases e with
    | clientAbort => exact releases_done _
    | operationFailed | notFound | alreadyExists =>
      refine releases_of_quiet (Prog.only_bind ⟨trivial, fun _ _ => trivial⟩ fun _ => ?_)
      exact Prog.only_bind (drainBodyWithin_quiet rest _) fun _ => trivial

variable [RustChar] {config : ServerConfig} {request : Request}

theorem storeArtifact_releases : Releases (storeArtifact s3Storage hash body) := by
  rw [storeArtifact]
  cases validateHash hash with
  | error invalid =>
    exact releases_bind (releases_of_quiet (drainBodyWithin_quiet body _)) fun _ => releases_done _
  | ok _ =>
    refine releases_bind (releases_of_quiet existsKey_quiet) ?_
    intro found
    split
    · refine releases_bind (releases_of_quiet markPresent_quiet) fun _ => ?_
      exact releases_bind (releases_of_quiet (drainBodyWithin_quiet body _)) fun _ =>
        releases_done _
    · exact storeAbsent_releases

/-- **No request ends with an upload open that it has not tried to end.** -/
theorem serve_releases (config : ServerConfig) (request : Request) :
    Releases (serve s3Storage config request) := by
  cases hrole : role config request with
  | writer hash =>
    rw [serve_writer hrole]
    exact releases_bind storeArtifact_releases fun _ =>
      releases_bind (releases_of_quiet (intoResponse_quiet _)) fun _ => releases_done _
  | reader hash | refused answer =>
    refine releases_of_quiet (Prog.Only.of_wp
      (session_unpromising (role config request) request.body) ?_ serve_session)
    intro g e ha
    rw [hrole] at ha
    cases e with
    | s3 call =>
      cases call with
      | createMultipartUpload _ | completeMultipartUpload _ _ _ | abortMultipartUpload _ _ =>
        exact absurd ha not_false
      | _ => trivial
    | _ => trivial

end

end NxCacheServer.Server
