import NxCacheServer.Server.Router

/-!
# The body is drained before the answer

Every response forces `Connection: close`, so an answer given while the client
is still uploading reaches it as a broken pipe. The contract `eofSeen` watches
a task for the poll that reports the end of the body, under the assumption
that the client finishes sending within `drainTimeout` of every armed timer.

A PUT with a valid token may be answered early in five ways: 403 by the middleware,
400 by the extractor, 400 by the validator, 409 for an object that is there, 403
after a failed `store`. All of them drain but the extractor's, which no code of the
server has a part in. The assumption on the client is about its pace after the start
of a drain, and not about how long it took before.
-/

namespace NxCacheServer.Server

open NxCacheServer.Domain NxCacheServer.Infra NxCacheServer.Lib

/-- This action polls the end of the body. -/
def Act.seesEof : Act → Bool
  | .read _ item => item = .eof
  | _ => false

/-- The body was read to its end along `h`. -/
def Drained (h : List TaskEvent) : Prop := ∃ ev ∈ h, ev.1.seesEof = true

/-- The client finishes sending `body` within `drainTimeout` of the start of
every drain of `h`. -/
def InTime (body : Body) (h : List TaskEvent) : Prop :=
  ∀ start : Instant, ⟨.timer, start⟩ ∈ h → body.finishedBy (start + drainTimeout) = true

/-- The ghost state is whether the end of the body has been read; timers are
armed only when the client finishes within them. -/
def eofSeen (body : Body) : Prog.Contract Act Act.Resp Bool where
  allow _ _ := True
  promise _ e r :=
    match e, r with
    | .timer, start => body.finishedBy (start + drainTimeout) = true
    | _, _ => True
  update seen e _ := seen || e.seesEof

variable {body data : Body} {α : Type} {Q : α → Bool → Prop} {seen : Bool}

@[simp] theorem eofSeen_s3 {call : S3Call} {k : call.Reply → Async α} :
    (Prog.act (Act.s3 call) k).wp (eofSeen body) Q seen ↔
      ∀ r, (k r).wp (eofSeen body) Q seen := by
  simp [Prog.wp_act, eofSeen, Act.seesEof]

@[simp] theorem eofSeen_now {k : Instant → Async α} :
    (Prog.act Act.now k).wp (eofSeen body) Q seen ↔ ∀ t, (k t).wp (eofSeen body) Q seen := by
  simp [Prog.wp_act, eofSeen, Act.seesEof]

@[simp] theorem eofSeen_timer {k : Instant → Async α} :
    (Prog.act Act.timer k).wp (eofSeen body) Q seen ↔
      ∀ start, body.finishedBy (start + drainTimeout) = true →
        (k start).wp (eofSeen body) Q seen := by
  simp [Prog.wp_act, eofSeen, Act.seesEof]

@[simp] theorem eofSeen_log {line : LogLine} {k : Unit → Async α} :
    (Prog.act (Act.log line) k).wp (eofSeen body) Q seen ↔ (k ()).wp (eofSeen body) Q seen := by
  simp [Async.wp_log, eofSeen, Act.seesEof]

@[simp] theorem eofSeen_markPresent {hash : Hash} {t : Instant} {k : Unit → Async α} :
    (Prog.act (Act.markPresent hash t) k).wp (eofSeen body) Q seen ↔
      (k ()).wp (eofSeen body) Q seen := by
  simp [Async.wp_markPresent, eofSeen, Act.seesEof]

@[simp] theorem eofSeen_read {ready : Instant} {item : Item} {k : Unit → Async α} :
    (Prog.act (Act.read ready item) k).wp (eofSeen body) Q seen ↔
      (k ()).wp (eofSeen body) Q (seen || item = .eof) := by
  simp [Async.wp_read, eofSeen, Act.seesEof]

/-- Along a history whose drains are in time, the ghost state is whether the
end of the body was read. -/
theorem eofSeen_kept {body : Body} :
    ∀ {h : List TaskEvent}, InTime body h → ∀ seen : Bool, (eofSeen body).Kept seen h := by
  intro h
  induction h with
  | nil => intro _ _; trivial
  | cons ev h ih =>
    intro hin seen
    refine ⟨?_, ih (fun start hs => hin start (List.mem_cons_of_mem _ hs)) _⟩
    obtain ⟨e, r⟩ := ev
    -- the contract promises something at the start of a drain only
    cases e with
    | timer => exact hin r (List.mem_cons_self ..)
    | _ => trivial

/-- The end of the body was seen before, or along the history. -/
theorem eofSeen_after {body : Body} {h : List TaskEvent} {seen : Bool}
    (hs : (eofSeen body).after seen h = true) : seen = true ∨ Drained h :=
  Prog.Contract.after_origin (P := fun seen => seen = true)
    (fun _ _ h => Bool.or_eq_true_iff.mp h) hs

/-! ## What is left of a body -/

/-- `rest` is what is left of a body after some polls. -/
inductive Body.Tail : Body → Body → Prop
  | refl (data : Body) : Tail data data
  | chunk {rest data : Body} (ready : Instant) (bytes : Bytes) :
      Tail rest data → Tail rest (.chunk ready bytes data)

namespace Body.Tail

theorem trans {a b c : Body} (h₁ : Tail a b) (h₂ : Tail b c) : Tail a c := by
  induction h₂ with
  | refl => exact h₁
  | chunk ready bytes _ ih => exact .chunk ready bytes ih

/-- What is left of a body that comes to its end comes to its end. -/
theorem complete {rest data : Body} (h : Tail rest data) (hd : data.complete = true) :
    rest.complete = true := by
  induction h with
  | refl => exact hd
  | chunk _ _ _ ih => exact ih hd

theorem finishedBy {rest data : Body} {t : Instant} (h : Tail rest data)
    (hd : data.finishedBy t = true) : rest.finishedBy t = true := by
  induction h with
  | refl => exact hd
  | chunk _ _ _ ih =>
    simp only [Domain.Body.finishedBy, Bool.and_eq_true] at hd
    exact ih hd.2

end Body.Tail

/-! ## Draining -/

/-- A drain that has the time reads to the end. -/
theorem drainUntil_wp {deadline : Instant} :
    ∀ {data : Body} {seen : Bool}, data.finishedBy deadline = true →
      (drainUntil deadline data).wp (eofSeen body) (fun _ seen => seen = true) seen := by
  intro data
  induction data with
  | eof ready =>
    intro seen h
    have hle : ready ≤ deadline := by simpa [Domain.Body.finishedBy] using h
    simp [drainUntil, hle, Async.read, Prog.perform]
  | reset ready => intro seen h; simp [Domain.Body.finishedBy] at h
  | chunk ready bytes rest ih =>
    intro seen h
    simp only [Domain.Body.finishedBy, Bool.and_eq_true, decide_eq_true_eq] at h
    rw [drainUntil, if_pos h.1]
    simpa using ih h.2

/-- Draining what is left of a body that is sent in time. -/
theorem drainBodyWithin_wp (ht : Body.Tail data body) :
    (drainBodyWithin data drainTimeout).wp (eofSeen body) (fun _ seen => seen = true) seen := by
  simp only [drainBodyWithin, Async.timer_bind, eofSeen_timer]
  intro start hstart
  exact drainUntil_wp (ht.finishedBy hstart)

/-! ## `store` reads to the end unless an S3 call fails -/

/-- A part that is the last has seen the end of the body, and what is left of it is
left over from it. -/
theorem fillLoop_eofSeen (partSize : Nat) (hash : Hash) :
    ∀ (data : Body) (n : Nat) (buffer : Bytes) (seen : Bool), data.complete = true →
      (fillLoop partSize hash data n buffer).wp (eofSeen body)
        (fun f seen' => Body.Tail f.rest data ∧ ∃ b eof, f.result = .ok (b, eof) ∧
          (eof = true → seen' = true)) seen := by
  intro data
  induction data with
  | eof ready =>
    intro n buffer seen _
    rw [fillLoop]
    split
    · simpa using Body.Tail.refl _
    · simpa using Body.Tail.refl _
  | reset ready => intro n buffer seen h; simp [Domain.Body.complete] at h
  | chunk ready bytes rest ih =>
    intro n buffer seen h
    rw [fillLoop]
    split
    · simp only [Async.read_bind, eofSeen_read]
      refine Prog.wp_bind_of (ih _ _ _ h) ?_
      intro f seen' hf
      obtain ⟨htail, b, eof, hres, heof⟩ := hf
      exact ⟨.chunk _ _ htail, b, eof, hres, heof⟩
    · simpa using Body.Tail.refl _

theorem flushBuffer_eofSeen (hash : Hash) (id : UploadId) (buffer : Bytes) (n : Nat)
    (parts : List CompletedPart) (seen : Bool) :
    (S3Storage.flushBuffer hash id buffer n parts).wp (eofSeen body)
      (fun r seen' => r ≠ .error .clientAbort ∧ seen' = seen) seen := by
  unfold S3Storage.flushBuffer
  split
  · simp
  · refine Prog.wp_bind_of (R := fun r seen' => r ≠ .error .clientAbort ∧ seen' = seen) ?_ ?_
    · simp only [S3Storage.sendPart, Async.s3_bind, eofSeen_s3]
      intro r
      rcases r with e | _ | eTag <;> simp [logS3Error]
    · intro r seen' hr
      obtain ⟨he, rfl⟩ := hr
      rcases r with e | part
      · simpa using he
      · simp

/-- The upload loop never reports a client abort on a body that is sent to its
end, and it only succeeds once it has read that end. -/
theorem uploadLoop_eofSeen (hash : Hash) (id : UploadId) (buffer : Bytes) (eof : Bool)
    (data : Body) (n partNumber : Nat) (parts : List CompletedPart) (seen : Bool)
    (hc : data.complete = true) (he : eof = true → seen = true) :
    (S3Storage.uploadLoop hash id buffer eof data n partNumber parts).wp (eofSeen body)
      (fun r seen' => Body.Tail r.2 data ∧ r.1 ≠ .error .clientAbort ∧
        ∀ ps, r.1 = .ok ps → seen' = true) seen := by
  -- the loop holds a tail of the body, and after `eof` its end has been read
  refine S3Storage.uploadLoop_rule hash id
    (fun _ eof rest _ _ _ seen => Body.Tail rest data ∧ (eof = true → seen = true)) ?_
    buffer eof data n partNumber parts seen ⟨.refl data, he⟩
  intro buffer eof rest n k parts seen hI
  obtain ⟨htail, heof⟩ := hI
  refine Prog.wp_mono (flushBuffer_eofSeen hash id buffer k parts seen) ?_
  intro r seen' hr
  obtain ⟨hne, rfl⟩ := hr
  rcases r with e | ⟨k', parts'⟩
  · exact ⟨htail, by simpa using hne, by simp⟩
  · dsimp only
    split
    next h => exact ⟨htail, by simp, fun _ _ => heof h⟩
    next h =>
      refine Prog.wp_mono (fillLoop_eofSeen _ hash rest n [] seen' (htail.complete hc)) ?_
      intro filled seen'' hfilled
      obtain ⟨ht, b, eof', hres, heof'⟩ := hfilled
      rw [hres]
      exact ⟨ht.trans htail, heof'⟩

/-- Neither does the end of an upload, so a completed one has seen the end before. -/
theorem finishUpload_eofSeen (hash : Hash) (id : UploadId)
    (result : Except StorageError (List CompletedPart)) (seen : Bool)
    (hne : result ≠ .error .clientAbort) (hok : ∀ ps, result = .ok ps → seen = true) :
    (S3Storage.finishUpload hash id result).wp (eofSeen body)
      (fun r seen' => r ≠ .error .clientAbort ∧ (r = .ok () → seen' = true)) seen := by
  cases result with
  | error e =>
    have he : e ≠ .clientAbort := fun h => hne (h ▸ rfl)
    simp only [S3Storage.finishUpload, Async.s3_bind, eofSeen_s3]
    intro r
    rcases r with _ | _ <;> simpa [logS3Error] using he
  | ok ps =>
    have hs := hok ps rfl
    simp only [S3Storage.finishUpload, Async.s3_bind, eofSeen_s3]
    intro r
    rcases r with _ | _ <;> simp [logS3Error, hs]

theorem putWhole_eofSeen (hash : Hash) (buffer : Bytes) (seen : Bool) :
    (S3Storage.putWhole hash buffer).wp (eofSeen body)
      (fun r seen' => r ≠ .error .clientAbort ∧ seen' = seen) seen := by
  simp only [S3Storage.putWhole, Async.s3_bind, eofSeen_s3]
  intro r
  rcases r with _ | _ <;> simp [logS3Error]

theorem createUpload_eofSeen (hash : Hash) (seen : Bool) :
    (S3Storage.createUpload hash).wp (eofSeen body)
      (fun r seen' => r ≠ .error .clientAbort ∧ seen' = seen) seen := by
  simp only [S3Storage.createUpload, Async.s3_bind, eofSeen_s3]
  intro r
  rcases r with _ | _ | _ <;> simp [logS3Error]

/-- On a body that is sent to its end, `store` succeeds only after reading
that end, never reports a client abort, and hands back a tail of the body. -/
theorem store_eofSeen (hash : Hash) (hc : data.complete = true) (seen : Bool) :
    (S3Storage.store hash data).wp (eofSeen body)
      (fun r seen' => Body.Tail r.2 data ∧ r.1 ≠ .error .clientAbort ∧
        (r.1 = .ok () → seen' = true)) seen := by
  rw [S3Storage.store]
  refine Prog.wp_bind_of (fillLoop_eofSeen _ hash data 0 [] seen hc) ?_
  intro filled seen' hfilled
  obtain ⟨htail, b, eof, hres, heof⟩ := hfilled
  rw [hres]
  cases eof with
  | true =>
    refine Prog.wp_bind_of (putWhole_eofSeen hash b seen') ?_
    intro r _ hr
    obtain ⟨hne, rfl⟩ := hr
    exact ⟨htail, hne, fun _ => heof rfl⟩
  | false =>
    refine Prog.wp_bind_of (createUpload_eofSeen hash seen') ?_
    intro r _ hr
    obtain ⟨hne, rfl⟩ := hr
    rcases r with e | id
    · exact ⟨htail, by simpa using hne, by simp⟩
    · refine Prog.wp_bind_of (uploadLoop_eofSeen hash id b false filled.rest
        filled.bytesReceived 1 [] _ (htail.complete hc) (by simp)) ?_
      intro looped s hlooped
      obtain ⟨result, rest⟩ := looped
      -- a loop that fails has a tail left for the drain
      obtain ⟨ht, hne, hok⟩ := hlooped
      refine Prog.wp_bind_of (finishUpload_eofSeen hash id result s hne hok) ?_
      intro r s' hr
      obtain ⟨hne', hok'⟩ := hr
      exact ⟨ht.trans htail, hne', hok'⟩

/-! ## The handler -/

theorem markPresent_eofSeen (hash : Hash) (seen : Bool) :
    (markPresent hash).wp (eofSeen body) (fun _ seen' => seen' = seen) seen := by
  simp [markPresent, Async.markPresent, Prog.perform]

theorem drainBody_eofSeen (seen : Bool) :
    (drainBody body).wp (eofSeen body) (fun _ seen' => seen' = true) seen :=
  drainBodyWithin_wp (.refl body)

theorem intoResponse_eofSeen (result : Except ServerError Response) (hs : seen = true) :
    (intoResponse result).wp (eofSeen body) (fun _ seen' => seen' = true) seen := by
  cases result with
  | ok response => exact hs
  | error e =>
    cases e with
    | storage e => cases e <;> simpa [intoResponse, ServerError.intoResponse] using hs
    | _ => simpa [intoResponse, ServerError.intoResponse] using hs

/-- A writer that stores sees the end of a body that is sent completely: `store`
reads it, or the drain after it. -/
theorem storeAbsent_eofSeen (hash : Hash) (hc : body.complete = true) (seen : Bool) :
    (storeAbsent s3Storage hash body).wp (eofSeen body) (fun _ seen' => seen' = true) seen := by
  refine Prog.wp_bind_of (store_eofSeen hash hc seen) ?_
  intro r seen' hr
  obtain ⟨result, rest⟩ := r
  obtain ⟨ht, hne, hok⟩ := hr
  -- a failed store leaves `rest` to the drain
  have hdrain : ∀ (e : StorageError) (s : Bool),
      (do
        Async.log (.storeDeclined hash e)
        drainBodyWithin rest drainTimeout
        pure (.error .forbidden) : Async (Except ServerError Response)).wp (eofSeen body)
        (fun _ seen' => seen' = true) s := by
    intro e s
    simp only [Async.log_bind, eofSeen_log]
    exact Prog.wp_bind_of (drainBodyWithin_wp ht) fun _ _ hs => hs
  match result, hne, hok with
  | .ok (), _, hok =>
    refine Prog.wp_bind_of (markPresent_eofSeen hash seen') ?_
    intro _ s hs
    rw [hs]
    exact hok rfl
  | .error .clientAbort, hne, _ => exact absurd rfl hne
  | .error .notFound, _, _ => exact hdrain _ _
  | .error .alreadyExists, _, _ => exact hdrain _ _
  | .error .operationFailed, _, _ => exact hdrain _ _

section

variable [RustChar]

/-- Every writer does: who is refused for its key or finds the object drains too. -/
theorem storeArtifact_eofSeen (hash : Hash) (hc : body.complete = true) (seen : Bool) :
    (storeArtifact s3Storage hash body).wp (eofSeen body) (fun _ seen' => seen' = true) seen := by
  unfold storeArtifact
  split
  next invalid _ => exact Prog.wp_bind_of (drainBody_eofSeen seen) fun _ _ hs => hs
  next =>
    refine Prog.wp_bind_of (R := fun _ _ => True) ?_ ?_
    · simp only [s3Storage, S3Storage.existsKey, Async.s3_bind, eofSeen_s3]
      intro r
      obtain (_ | _) | _ := r <;> simp [logS3Error]
    · intro found s _
      split
      next =>
        refine Prog.wp_bind_of (R := fun _ _ => True) ?_ fun _ s' _ => ?_
        · exact Prog.wp_mono (markPresent_eofSeen hash s) fun _ _ _ => trivial
        · exact Prog.wp_bind_of (drainBody_eofSeen s') fun _ _ hs => hs
      next => exact storeAbsent_eofSeen hash hc s

variable {config : ServerConfig} {request : Request} {token : Bytes}

/-- An authenticated PUT is answered after its body, unless the extractor
rejects the path of a request with the write token. -/
theorem serve_put_eofSeen (hput : request.method = .put)
    (htoken : request.bearerToken = some token)
    (hvalid : isReadWrite config token = true ∨ isReadOnly config token = true)
    (hc : request.body.complete = true)
    (hpath : isReadWrite config token = false ∨ (pathHash request.segment).isSome = true) :
    (serve s3Storage config request).wp (eofSeen request.body)
      (fun _ seen => seen = true) false := by
  unfold serve
  refine Prog.wp_bind_of (R := fun _ seen => seen = true) ?_ fun result s hs =>
    Prog.wp_bind_of (intoResponse_eofSeen result hs) fun _ _ h => h
  cases hrw : isReadWrite config token with
  | false =>
    have hro : isReadOnly config token = true := by simpa [hrw] using hvalid
    -- the read-only token: the middleware drains, whatever the path
    rw [authMiddleware_refused htoken hrw hro (by rw [hput]; rfl)]
    exact Prog.wp_bind_of (drainBody_eofSeen false) fun _ _ hs => hs
  | true =>
    obtain ⟨hash, hhash⟩ : ∃ hash, pathHash request.segment = some hash := by
      simpa [hrw, Option.isSome_iff_exists] using hpath
    -- the write token: the handler does, and it is reached with a path only
    rw [authMiddleware_granted htoken (Or.inl hrw)]
    refine Prog.wp_bind_of (R := fun _ seen => seen = true) ?_ fun _ _ hs => hs
    simp only [cacheRoutes, hput, hhash]
    exact Prog.wp_bind_of (storeArtifact_eofSeen hash hc false) fun result s hs =>
      intoResponse_eofSeen result hs

/-- A PUT with the write token whose decoded segment is not UTF-8 is answered
at once. -/
theorem serve_put_rejected (hput : request.method = .put)
    (htoken : request.bearerToken = some token) (hrw : isReadWrite config token = true)
    (hpath : pathHash request.segment = none) :
    serve s3Storage config request = .done (finalize request pathRejection) := by
  rw [serve, authMiddleware_granted htoken (Or.inl hrw)]
  simp [cacheRoutes, hput, hpath, intoResponse]

/-- **When a PUT's answer follows its body.** For an authenticated PUT whose
client sends the body to its end, and within `drainTimeout` of the start of
every drain, the answer always comes after the end of the body if and only if
the token is the read-only one or the percent-decoded segment is UTF-8. -/
theorem put_answered_after_drain_iff (hput : request.method = .put)
    (htoken : request.bearerToken = some token)
    (hvalid : isReadWrite config token = true ∨ isReadOnly config token = true)
    (hc : request.body.complete = true) :
    (∀ h response, Prog.Runs (serve s3Storage config request) h response →
      InTime request.body h → Drained h) ↔
    isReadWrite config token = false ∨ (pathHash request.segment).isSome = true := by
  constructor
  · intro hall
    cases hrw : isReadWrite config token with
    | false => exact Or.inl rfl
    | true =>
      cases hpath : pathHash request.segment with
      | some hash => exact Or.inr rfl
      | none =>
        -- the extractor answers, and the history is empty
        have hdone := serve_put_rejected hput htoken hrw hpath
        have hruns : Prog.Runs (serve s3Storage config request) []
            (finalize request pathRejection) := by
          rw [hdone]
          exact .done _
        obtain ⟨ev, hev, _⟩ := hall [] _ hruns fun start hs => absurd hs (by simp)
        exact absurd hev (by simp)
  · intro hpath h response hruns hin
    have hend := Prog.wp_runs hruns (serve_put_eofSeen hput htoken hvalid hc hpath)
      (eofSeen_kept hin false)
    rcases eofSeen_after hend with hfalse | hdrained
    · exact absurd hfalse (by simp)
    · exact hdrained

end

section

/-- A configuration with both tokens. -/
private def exampleConfig : ServerConfig := ⟨3000, "rw", some "ro"⟩

/-- `PUT /v1/cache/%FF` with the write token. -/
private def rejectedPut : Request where
  method := .put
  segment := ⟨[37, 70, 70], by decide, by decide⟩
  authorization := some (bearerPrefix ++ [114, 119])
  body := .chunk 0 [1, 2, 3] (.eof 0)

/-- `PUT /v1/cache/%FF` with the read-only token. -/
private def refusedPut : Request :=
  { rejectedPut with authorization := some (bearerPrefix ++ [114, 111]) }

theorem refusedPut_answered_after_drain :
    isReadWrite exampleConfig [114, 111] = false ∧
    ∀ h response, Prog.Runs (@serve asciiChars s3Storage exampleConfig refusedPut) h response →
      InTime refusedPut.body h → Drained h :=
  ⟨by decide, (@put_answered_after_drain_iff asciiChars exampleConfig refusedPut [114, 111] rfl
    (by decide) (by decide) rfl).mpr (Or.inl (by decide))⟩

/-- The answer to `rejectedPut` does not wait for its body. -/
theorem rejectedPut_answered_undrained :
    ¬ ∀ request : Request, request.method = .put →
      (∃ token, request.bearerToken = some token ∧
        (isReadWrite exampleConfig token = true ∨ isReadOnly exampleConfig token = true)) →
      request.body.complete = true →
      ∀ h response, Prog.Runs (@serve asciiChars s3Storage exampleConfig request) h response →
        InTime request.body h → Drained h := by
  intro hall
  have hdone := @serve_put_rejected asciiChars exampleConfig rejectedPut [114, 119] rfl
    (by decide) (by decide) (by decide)
  have hruns : Prog.Runs (@serve asciiChars s3Storage exampleConfig rejectedPut) []
      (finalize rejectedPut pathRejection) := by
    rw [hdone]
    exact .done _
  obtain ⟨ev, hev, _⟩ := hall rejectedPut rfl ⟨[114, 119], by decide, Or.inl (by decide)⟩ rfl
    [] _ hruns fun start hs => absurd hs (by simp)
  exact absurd hev (by simp)

end

end NxCacheServer.Server
