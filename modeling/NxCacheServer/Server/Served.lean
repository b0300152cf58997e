import NxCacheServer.Server.Session

/-!
# The router keeps its sessions

`serve_session`: the task of a request does only what its role allows in its
session, and ends as the role says. The writer's half follows `store` through
its upload loop: the parts sent so far, the buffer and what is left of the body
always make up the parts of the whole body.

There is a lemma for each function of the source, and it uses those of the functions
that are called there, not their bodies. `Uploading` is the invariant of the loop,
and `Failing` is what is known when it gives up: which of the two parties failed.
What `fill_part` does to a session is in `fillPart_session`, once for both places
that call it.

A session only learns by answers, so between two of them the lemmas say what is
known and not what is done. Reads, timers and lines of the log change nothing but
`ended` (`OnlyRead`), which is why a drain may stand anywhere, and why the two ways
to read a body need no more than one lemma each.
-/

namespace NxCacheServer.Server

open NxCacheServer.Domain NxCacheServer.Infra NxCacheServer.Lib

/-- An action that the session allows, and what it learns from the answer. -/
theorem wp_session_act {role : Role} {body : Body} {g : Session} {α : Type}
    {Q : α → Session → Prop} {e : Act} {k : e.Resp → Async α} (ha : g.Allows role body e)
    (hk : ∀ r, (k r).wp (session role body) Q (g.learn e r)) :
    (Prog.act e k).wp (session role body) Q g :=
  ⟨ha, fun r _ => hk r⟩

/-! ## Draining -/

/-- `g'` knows no more than `g`, but perhaps the end of the body. -/
def OnlyRead (g g' : Session) : Prop :=
  ∃ ended, g' = { g with ended := ended } ∧ (g.ended = true → ended = true)

theorem OnlyRead.refl (g : Session) : OnlyRead g g := ⟨g.ended, rfl, fun h => h⟩

theorem OnlyRead.read {g g' : Session} (h : OnlyRead g g') (ready : Instant) (item : Item) :
    OnlyRead g (g'.learn (.read ready item) ()) := by
  obtain ⟨ended, rfl, hended⟩ := h
  exact ⟨ended || item = .eof, rfl, fun hg => by simp [hended hg]⟩

theorem drainBodyWithin_session {role : Role} {body data : Body} {limit : Duration} {g : Session}
    (hread : ∀ (g : Session) ready item, g.Allows role body (.read ready item))
    (htimer : g.Allows role body .timer) :
    (drainBodyWithin data limit).wp (session role body) (fun _ g' => OnlyRead g g') g := by
  rw [drainBodyWithin, Async.timer_bind]
  refine wp_session_act htimer ?_
  intro start
  have hreads : Prog.Only (fun e => ∃ ready item, e = .read ready item)
      (drainUntil (start + limit) data) :=
    drainUntil_only (fun ready item => ⟨ready, item, rfl⟩) _ _
  refine hreads.wp ?_ ?_ (OnlyRead.refl g)
  · intro g' e he _
    obtain ⟨ready, item, rfl⟩ := he
    exact hread g' ready item
  · intro g' e r he h _
    obtain ⟨ready, item, rfl⟩ := he
    exact h.read ready item

/-! ## The writer -/

section Writer

variable {hash : Hash} {body : Body}

/-- Filling a part reads, and sees the end of the body with its last one. -/
theorem fillPart_session (data : Body) (n : Nat) (g : Session) :
    (fillPart data multipartPartSize hash n).wp (session (.writer hash) body)
      (fun filled g' => OnlyRead g g' ∧
        (∀ bytes, filled.result = .ok (bytes, true) → g'.ended = true) ∧
        Fills filled multipartPartSize []) g := by
  refine Prog.wp_mono (fillLoop_rule (OnlyRead g) (fun g' => OnlyRead g g' ∧ g'.ended = true)
    (OnlyRead g) ?_ ?_ ?_ data n [] g (by decide) (OnlyRead.refl g)) ?_
  · exact fun _ ready bytes h => ⟨trivial, fun _ => h.read ready (.chunk bytes)⟩
  · exact fun _ ready h => ⟨trivial, fun _ => ⟨h.read ready .eof, by simp [session, Session.learn]⟩⟩
  · exact fun _ ready _ h => ⟨trivial, fun _ _ => ⟨trivial, fun _ _ => h.read ready .reset⟩⟩
  · intro filled g' hfilled
    obtain ⟨hends, hfills⟩ := hfilled
    unfold Filled.Ends at hends
    split at hends
    next hres => exact ⟨hends, fun bytes h => (by rw [hres] at h; cases h), hfills⟩
    next => exact ⟨hends.1, fun _ _ => hends.2, hfills⟩
    next hres => exact ⟨hends, fun bytes h => (by rw [hres] at h; cases h), hfills⟩

/-- A part that is full has something in it. -/
theorem partOf_full {bytes : Bytes} (hfull : multipartPartSize ≤ bytes.length) :
    Body.partOf bytes = [bytes] := by
  cases bytes with
  | nil => exact absurd hfull (by decide)
  | cons b bs => rfl

/-- An upload under way: the acknowledged parts, then `todo`, are the parts of
the body. -/
structure Uploading (body : Body) (id : UploadId) (todo : List Bytes) (g : Session) : Prop where
  storing : g.Storing
  upload : g.upload = some id
  parts : ∃ sent, uploadParts body = sent ++ todo ∧ sent.length = g.listed.length
  numbers : g.listed.map CompletedPart.partNumber = List.range' 1 g.listed.length
  nonempty : uploadParts body ≠ []

/-- `store` gives up with `e`. -/
def Failing (body : Body) (e : StorageError) (g : Session) : Prop :=
  g.Absent ∧ g.wrote = false ∧
    (e = .clientAbort ∧ body.complete = false ∨ e = .operationFailed ∧ g.failed = true)

/-- A failure has one of two reasons: S3, or a body that breaks off. -/
theorem Failing.why {e : StorageError} {g : Session} (h : Failing body e g) :
    g.failed = true ∨ body.complete = false := by
  rcases h.2.2 with ⟨-, hc⟩ | ⟨-, hfailed⟩
  · exact Or.inr hc
  · exact Or.inl hfailed

/-- What `store` has come to. -/
def Stored (body : Body) (result : Except StorageError Unit) (g : Session) : Prop :=
  match result with
  | .ok () => g.Absent ∧ g.wrote = true
  | .error e => Failing body e g

theorem Uploading.onlyRead {id : UploadId} {todo : List Bytes} {g g' : Session}
    (h : Uploading body id todo g) (hr : OnlyRead g g') : Uploading body id todo g' := by
  obtain ⟨ended, rfl, -⟩ := hr
  exact ⟨h.storing, h.upload, h.parts, h.numbers, h.nonempty⟩

/-- One more part is acknowledged. -/
theorem Uploading.sent {id : UploadId} {bytes : Bytes} {todo : List Bytes} {g : Session}
    (h : Uploading body id (bytes :: todo) g) (eTag : ETag) :
    Uploading body id todo
      { g with listed := g.listed ++ [⟨g.listed.length + 1, eTag⟩] } where
  storing := h.storing
  upload := h.upload
  parts := by
    obtain ⟨sent, heq, hlen⟩ := h.parts
    refine ⟨sent ++ [bytes], ?_, ?_⟩
    · rw [heq, List.append_assoc]
      rfl
    · rw [List.length_append, List.length_append, hlen]
      rfl
  numbers := by
    rw [List.map_append, h.numbers, List.length_append]
    simp [List.range'_concat, Nat.add_comm]
  nonempty := h.nonempty

/-- A part that is sent is listed under the next number. -/
theorem sendPart_session {id : UploadId} {bytes : Bytes} {todo : List Bytes} {g : Session}
    (h : Uploading body id (bytes :: todo) g) :
    (S3Storage.sendPart hash id (g.listed.length + 1) bytes).wp (session (.writer hash) body)
      (fun r g' => match r with
        | .error e => g'.upload = some id ∧ Failing body e g'
        | .ok part => part.partNumber = g.listed.length + 1 ∧
            g' = { g with listed := g.listed ++ [part] }) g := by
  obtain ⟨sent, heq, hlen⟩ := h.parts
  have hpart : (uploadParts body)[g.listed.length]? = some bytes := by
    rw [heq, ← hlen, List.getElem?_append_right (Nat.le_refl _), Nat.sub_self]
    rfl
  rw [S3Storage.sendPart, Async.s3_bind]
  refine wp_session_act ⟨rfl, h.storing, h.upload, rfl, rfl, hpart⟩ ?_
  intro r
  rcases r with e | _ | eTag
  · refine wp_session_act trivial ?_
    intro _
    exact ⟨h.upload, h.storing.1, h.storing.2.1, Or.inr ⟨rfl, rfl⟩⟩
  · refine wp_session_act trivial ?_
    intro _
    exact ⟨h.upload, h.storing.1, h.storing.2.1, Or.inr ⟨rfl, rfl⟩⟩
  · exact ⟨rfl, rfl⟩

/-- So is a buffer, and an empty one is not sent. -/
theorem flushBuffer_session {id : UploadId} {buffer : Bytes} {todo : List Bytes} {g : Session}
    (h : Uploading body id (Body.partOf buffer ++ todo) g) :
    (S3Storage.flushBuffer hash id buffer (g.listed.length + 1) g.listed).wp
      (session (.writer hash) body)
      (fun r g' => match r with
        | .error e => g'.upload = some id ∧ Failing body e g'
        | .ok (k, parts) => k = g'.listed.length + 1 ∧ parts = g'.listed ∧
            g'.ended = g.ended ∧ Uploading body id todo g') g := by
  unfold S3Storage.flushBuffer
  -- an empty buffer is no part of the body, and none is sent
  by_cases hempty : buffer.isEmpty = true
  · rw [if_pos hempty]
    rw [Body.partOf, if_pos hempty] at h
    exact ⟨rfl, rfl, rfl, h⟩
  · rw [if_neg hempty]
    rw [Body.partOf, if_neg hempty] at h
    refine Prog.wp_bind_of (sendPart_session h) ?_
    intro r g' hr
    match r, hr with
    | .error e, hr => exact hr
    | .ok ⟨k, eTag⟩, ⟨hk, hg⟩ =>
      dsimp only at hk
      subst hk hg
      exact ⟨by simp, rfl, rfl, h.sent eTag⟩

/-- The loop sends the parts of the body one after the other: when it succeeds, none
is left and the body has ended. -/
theorem uploadLoop_session {id : UploadId} {buffer : Bytes} {data : Body} {n k : Nat}
    {parts : List CompletedPart} {g : Session} (hdata : data.complete = body.complete)
    (hk : k = g.listed.length + 1) (hparts : parts = g.listed)
    (h : Uploading body id (Body.partOf buffer ++ data.partsFrom multipartPartSize []) g) :
    (S3Storage.uploadLoop hash id buffer false data n k parts).wp (session (.writer hash) body)
      (fun r g' => match r.1 with
        | .error e => g'.upload = some id ∧ Failing body e g'
        | .ok parts => parts = g'.listed ∧ g'.ended = true ∧ body.complete = true ∧
            Uploading body id [] g') g := by
  -- between two iterations the acknowledged parts, the buffer and what the
  -- stream still holds make up the parts of the body
  refine S3Storage.uploadLoop_rule hash id (fun buffer eof data _ k parts g =>
    k = g.listed.length + 1 ∧ parts = g.listed ∧
    Uploading body id
      (Body.partOf buffer ++ if eof then [] else data.partsFrom multipartPartSize []) g ∧
    (eof = true → g.ended = true ∧ body.complete = true) ∧
    (eof = false → data.complete = body.complete)) ?_ _ _ _ _ _ _ _ ?_
  · intro buffer eof data n k parts g hI
    obtain ⟨hk, hparts, hup, heof, hopen⟩ := hI
    subst hk hparts
    refine Prog.wp_mono (flushBuffer_session hup) ?_
    intro sent g' hsent
    match sent, hsent with
    | .error e, hsent => exact hsent
    | .ok (k', parts'), ⟨hk', hparts', hended, hup'⟩ =>
      cases eof with
      -- the last buffer is sent: nothing is left to do
      | true =>
        obtain ⟨hend, hc⟩ := heof rfl
        exact ⟨hparts', hended.trans hend, hc, hup'⟩
      | false =>
        -- refilling the buffer reads, and sends nothing
        refine Prog.wp_mono (fillPart_session data n g') ?_
        intro filled g'' hfilled
        obtain ⟨hread, hseen, hfilled⟩ := hfilled
        have hlisted : g''.listed = g'.listed := by
          obtain ⟨ended, rfl, -⟩ := hread
          rfl
        have hup'' := hup'.onlyRead hread
        unfold Fills at hfilled
        match hres : filled.result with
        | .error e =>
          rw [hres] at hfilled
          refine ⟨hup''.upload, hup''.storing.1, hup''.storing.2.1, Or.inl ⟨hfilled.1, ?_⟩⟩
          rw [← hopen rfl]
          exact hfilled.2
        | .ok (b, true) =>
          rw [hres] at hfilled
          obtain ⟨hc, -, -, hparts''⟩ := hfilled
          refine ⟨by rw [hlisted]; exact hk', by rw [hlisted]; exact hparts', ?_, ?_, by simp⟩
          · simpa [hparts''] using hup''
          · intro _
            exact ⟨hseen b hres, (hopen rfl).symm.trans hc⟩
        | .ok (b, false) =>
          rw [hres] at hfilled
          obtain ⟨hc, -, hfull, hparts''⟩ := hfilled
          refine ⟨by rw [hlisted]; exact hk', by rw [hlisted]; exact hparts', ?_, by simp, ?_⟩
          · simpa [hparts'', partOf_full hfull] using hup''
          · intro _
            exact hc.trans (hopen rfl)
  · exact ⟨hk, hparts, h, by simp, fun _ => hdata⟩

/-- A completed upload has written the body; anything else is a failure. -/
theorem finishUpload_session {id : UploadId} {result : Except StorageError (List CompletedPart)}
    {g : Session}
    (h : match result with
      | .error e => g.upload = some id ∧ Failing body e g
      | .ok parts => parts = g.listed ∧ g.ended = true ∧ body.complete = true ∧
          Uploading body id [] g) :
    (S3Storage.finishUpload hash id result).wp (session (.writer hash) body)
      (fun r g' => Stored body r g') g := by
  match result, h with
  | .error e, ⟨hup, hfail⟩ =>
    rw [S3Storage.finishUpload, Async.s3_bind]
    refine wp_session_act ⟨rfl, hfail.1, hup, hfail.why⟩ ?_
    intro r
    rcases r with abortErr | _
    · exact wp_session_act trivial fun _ => hfail
    · exact hfail
  | .ok parts, ⟨hparts, hended, hc, hup⟩ =>
    subst hparts
    obtain ⟨sent, heq, hlen⟩ := hup.parts
    -- `Uploading` with nothing to do: every part is listed
    have hlen' : (uploadParts body).length = g.listed.length := by
      rw [heq, List.append_nil, hlen]
    have hne : g.listed ≠ [] := by
      intro hnil
      rw [hnil] at hlen'
      exact hup.nonempty (List.eq_nil_of_length_eq_zero hlen')
    rw [S3Storage.finishUpload, Async.s3_bind]
    refine wp_session_act ⟨rfl, hup.storing, hup.upload, hended, hc, rfl, hne, ?_⟩ ?_
    · rw [hlen']
      exact hup.numbers
    · intro r
      rcases r with e | _
      · refine wp_session_act trivial ?_
        intro _
        exact ⟨hup.storing.1, hup.storing.2.1, Or.inr ⟨rfl, rfl⟩⟩
      · exact ⟨hup.storing.1, rfl⟩

theorem putWhole_session {g : Session} {bytes : Bytes} (hstoring : g.Storing)
    (hended : g.ended = true) (hc : body.complete = true) (hbytes : bytes = body.bytes) :
    (S3Storage.putWhole hash bytes).wp (session (.writer hash) body)
      (fun result g' => Stored body result g') g := by
  rw [S3Storage.putWhole, Async.s3_bind]
  refine wp_session_act ⟨rfl, hstoring, hended, hc, hbytes⟩ ?_
  intro r
  rcases r with e | _
  · exact wp_session_act trivial fun _ => ⟨hstoring.1, hstoring.2.1, Or.inr ⟨rfl, rfl⟩⟩
  · exact ⟨hstoring.1, rfl⟩

theorem createUpload_session {g : Session} (hstoring : g.Storing) (hupload : g.upload = none) :
    (S3Storage.createUpload hash).wp (session (.writer hash) body)
      (fun result g' => match result with
        | .error e => Failing body e g'
        | .ok id => g' = { g with upload := some id }) g := by
  rw [S3Storage.createUpload, Async.s3_bind]
  refine wp_session_act ⟨rfl, hstoring, hupload⟩ ?_
  intro r
  rcases r with e | _ | id
  · exact wp_session_act trivial fun _ => ⟨hstoring.1, hstoring.2.1, Or.inr ⟨rfl, rfl⟩⟩
  · exact wp_session_act trivial fun _ => ⟨hstoring.1, hstoring.2.1, Or.inr ⟨rfl, rfl⟩⟩
  · exact rfl

/-- `store` has written the whole body, or has failed for a reason that is on record.
-/
theorem store_session {g : Session} (hstoring : g.Storing) (hupload : g.upload = none)
    (hlisted : g.listed = []) :
    (S3Storage.store hash body).wp (session (.writer hash) body)
      (fun r g' => Stored body r.1 g') g := by
  rw [S3Storage.store]
  refine Prog.wp_bind_of (fillPart_session body 0 g) ?_
  intro filled g' hfilled
  obtain ⟨⟨ended, rfl, -⟩, hseen, hfilled⟩ := hfilled
  unfold Fills at hfilled
  match hres : filled.result with
  -- nothing was asked of S3 yet
  | .error e =>
    rw [hres] at hfilled
    exact ⟨hstoring.1, hstoring.2.1, Or.inl hfilled⟩
  -- one part: a single `PutObject`
  | .ok (b, true) =>
    rw [hres] at hfilled
    obtain ⟨hc, hb, -, -⟩ := hfilled
    exact Prog.wp_bind_of (putWhole_session hstoring (hseen b hres) hc hb) fun _ _ h => h
  -- a multipart upload, with the first part in hand
  | .ok (b, false) =>
    rw [hres] at hfilled
    obtain ⟨hc, -, hfull, hparts⟩ := hfilled
    refine Prog.wp_bind_of (createUpload_session hstoring hupload) ?_
    intro created g' hcreated
    match created, hcreated with
    | .error e, hcreated => exact hcreated
    | .ok id, hcreated =>
      subst hcreated
      have hup : Uploading body id
          (Body.partOf b ++ filled.rest.partsFrom multipartPartSize [])
          { g with ended := ended, upload := some id } := by
        refine ⟨hstoring, rfl, ⟨[], ?_, by simp [hlisted]⟩, by simp [hlisted], ?_⟩
        · rw [partOf_full hfull]
          exact hparts
        · rw [uploadParts, hparts]
          exact List.cons_ne_nil _ _
      have hlen : 1 = g.listed.length + 1 := by rw [hlisted]; rfl
      refine Prog.wp_bind_of (uploadLoop_session hc hlen hlisted.symm hup) ?_
      intro looped g'' hlooped
      obtain ⟨result, rest⟩ := looped
      exact Prog.wp_bind_of (finishUpload_session hlooped) fun _ _ h => h

/-- A writer may mark its key: it has found the object, or written it. -/
theorem markPresent_session {g : Session} (h : g.probe = some (.ok ()) ∨ g.wrote = true) :
    (markPresent hash).wp (session (.writer hash) body)
      (fun _ g' => ∃ t, g' = { g with stamp := some t, marked := true }) g := by
  rw [markPresent, Async.now_bind]
  refine wp_session_act trivial ?_
  intro t
  exact wp_session_act ⟨rfl, rfl, h⟩ fun _ => ⟨t, rfl⟩

/-- The handler's result turns into a response that ends the writer's session. -/
def WriterResult (hash : Hash) (body : Body) (result : Except ServerError Response)
    (g : Session) : Prop :=
  (intoResponse result).wp (session (.writer hash) body)
    (fun response g' => g'.WriterEnds body response) g

theorem writer_reads (g : Session) (ready : Instant) (item : Item) :
    g.Allows (.writer hash) body (.read ready item) := trivial

theorem storeAbsent_session {g : Session} (hstoring : g.Storing) (hupload : g.upload = none)
    (hlisted : g.listed = []) :
    (storeAbsent s3Storage hash body).wp (session (.writer hash) body)
      (fun result g' => WriterResult hash body result g') g := by
  refine Prog.wp_bind_of (store_session hstoring hupload hlisted) ?_
  intro stored g' hstored
  obtain ⟨result, rest⟩ := stored
  match result, hstored with
  | .ok (), ⟨habsent', hwrote'⟩ =>
    refine Prog.wp_bind_of (markPresent_session (Or.inr hwrote')) ?_
    intro _ g'' hg
    obtain ⟨t, rfl⟩ := hg
    exact Or.inr (Or.inl ⟨habsent', hwrote', rfl, rfl⟩)
  | .error .clientAbort, ⟨habsent', hwrote', hwhy⟩ =>
    rcases hwhy with ⟨-, hc⟩ | ⟨hno, -⟩
    · exact Or.inr (Or.inr (Or.inl ⟨habsent', hwrote', hc, rfl⟩))
    · cases hno
  | .error .operationFailed, ⟨habsent', hwrote', hwhy⟩ =>
    rcases hwhy with ⟨hno, -⟩ | ⟨-, hfailed⟩
    · cases hno
    · simp only [Async.log_bind]
      refine wp_session_act trivial ?_
      intro _
      refine Prog.wp_bind_of (drainBodyWithin_session writer_reads trivial) ?_
      intro _ g'' hg
      obtain ⟨ended, rfl, -⟩ := hg
      exact Or.inr (Or.inr (Or.inr ⟨habsent', hwrote', hfailed, rfl⟩))
  -- `store` fails in two ways only
  | .error .notFound, ⟨_, _, hwhy⟩ => rcases hwhy with ⟨hno, -⟩ | ⟨hno, -⟩ <;> cases hno
  | .error .alreadyExists, ⟨_, _, hwhy⟩ => rcases hwhy with ⟨hno, -⟩ | ⟨hno, -⟩ <;> cases hno

theorem checkKey_session :
    (S3Storage.existsKey hash).wp (session (.writer hash) body)
      (fun found g' => ∃ reply, g' = { Session.start with probe := some reply } ∧
        found.toOption = Session.verdict reply) Session.start := by
  rw [S3Storage.existsKey, Async.s3_bind]
  refine wp_session_act ⟨rfl, rfl⟩ ?_
  intro r
  rcases r with e | _
  · cases e with
    | notFound => exact ⟨_, rfl, rfl⟩
    | other err => exact wp_session_act trivial fun _ => ⟨_, rfl, rfl⟩
  · exact ⟨_, rfl, rfl⟩

theorem storeArtifact_session [RustChar] (hvalid : ValidHash hash) :
    (storeArtifact s3Storage hash body).wp (session (.writer hash) body)
      (fun result g' => WriterResult hash body result g') Session.start := by
  rw [storeArtifact, show validateHash hash = .ok () from hvalid]
  refine Prog.wp_bind_of checkKey_session ?_
  intro found g hfound
  obtain ⟨reply, rfl, hreply⟩ := hfound
  -- only a `HEAD` that succeeds makes the answer a 409
  by_cases hok : found.toOption.getD false = true
  · rw [if_pos hok]
    have hprobe : some reply = some (.ok ()) := by
      rw [hreply] at hok
      rcases reply with e | _
      · cases e <;> simp [Session.verdict] at hok
      · rfl
    refine Prog.wp_bind_of (markPresent_session (Or.inl hprobe)) ?_
    intro _ g' hg
    obtain ⟨t, rfl⟩ := hg
    refine Prog.wp_bind_of (drainBodyWithin_session writer_reads trivial) ?_
    intro _ g'' hg
    obtain ⟨ended, rfl, -⟩ := hg
    exact Or.inl ⟨hprobe, rfl, rfl⟩
  · rw [if_neg hok]
    refine storeAbsent_session ⟨?_, rfl, rfl, rfl⟩ rfl rfl
    rcases reply with e | _
    · exact ⟨e, rfl⟩
    · rw [hreply] at hok
      exact absurd rfl hok

end Writer

/-! ## The reader -/

section Reader

variable {hash : Hash} {body : Body}

/-- What `present` comes to: the value of the cell, or its caller's own probe. -/
def Known (result : Except StorageError Bool) (g : Session) : Prop :=
  g.permit = false ∧
  ((∃ v, result = .ok v ∧ g.shared = some v) ∨
    ∃ reply, g.probe = some reply ∧ result.toOption = Session.verdict reply)

/-- The look of a reader, which holds the permit. -/
theorem existsKey_session {g : Session} (hpermit : g.permit = true) (hprobe : g.probe = none) :
    (S3Storage.existsKey hash).wp (session (.reader hash) body)
      (fun result g' => ∃ reply, g' = { g with probe := some reply } ∧
        result.toOption = Session.verdict reply) g := by
  rw [S3Storage.existsKey, Async.s3_bind]
  refine wp_session_act ⟨rfl, hpermit, hprobe⟩ ?_
  intro r
  rcases r with e | _
  · cases e with
    | notFound => exact ⟨_, rfl, rfl⟩
    | other err => exact wp_session_act trivial fun _ => ⟨_, rfl, rfl⟩
  · exact ⟨_, rfl, rfl⟩

/-- What a reader knows of its object: a value that was in the cell, or the verdict
of its own look. -/
theorem present_session :
    (present hash (S3Storage.existsKey hash)).wp (session (.reader hash) body)
      (fun result g' => Known result g') Session.start := by
  rw [present, Async.now_bind]
  refine wp_session_act trivial ?_
  intro t
  rw [Async.slot_bind]
  refine wp_session_act ⟨rfl, rfl, rfl⟩ ?_
  intro s
  rw [getOrTryInit, Async.acquire_bind]
  refine wp_session_act ⟨rfl, rfl, rfl, rfl⟩ ?_
  intro acquired
  cases acquired with
  -- another caller's probe answers
  | initialized v => exact ⟨rfl, Or.inl ⟨v, rfl, rfl⟩⟩
  -- the caller probes itself, and settles the cell with the outcome
  | permit =>
    refine Prog.wp_bind_of (existsKey_session rfl rfl) ?_
    intro result g' hg
    obtain ⟨reply, rfl, hreply⟩ := hg
    cases result with
    | ok v =>
      exact wp_session_act ⟨rfl, rfl, reply, rfl, hreply⟩ fun _ =>
        ⟨rfl, Or.inr ⟨reply, rfl, hreply⟩⟩
    | error e =>
      exact wp_session_act ⟨rfl, rfl, reply, rfl, hreply⟩ fun _ =>
        ⟨rfl, Or.inr ⟨reply, rfl, hreply⟩⟩

/-- The handler's result turns into a response that ends the reader's session. -/
def ReaderResult (hash : Hash) (body : Body) (result : Except ServerError Response)
    (g : Session) : Prop :=
  (intoResponse result).wp (session (.reader hash) body)
    (fun response g' => g'.ReaderEnds response) g

theorem retrieveArtifact_session [RustChar] (hvalid : ValidHash hash) :
    (retrieveArtifact s3Storage hash).wp (session (.reader hash) body)
      (fun result g' => ReaderResult hash body result g') Session.start := by
  rw [retrieveArtifact, show validateHash hash = .ok () from hvalid]
  refine Prog.wp_bind_of present_session ?_
  intro result g hknown
  obtain ⟨hpermit, hknown⟩ := hknown
  rw [retrieveProbed]
  by_cases hfound : result.toOption.getD false = true
  · rw [if_pos hfound]
    -- `retrieve` is only called on a verdict that the object exists
    have hok : g.shared = some true ∨ g.probe = some (.ok ()) := by
      rcases hknown with ⟨v, rfl, hv⟩ | ⟨reply, hreply, hv⟩
      · simp only [Except.toOption, Option.getD_some] at hfound
        rw [← hfound]
        exact Or.inl hv
      · rw [hv] at hfound
        rcases reply with e | _
        · cases e <;> simp [Session.verdict] at hfound
        · exact Or.inr hreply
    refine wp_session_act ⟨rfl, hpermit, hok⟩ ?_
    intro r
    rcases r with e | object
    · cases e with
      | noSuchKey => exact ⟨hpermit, Or.inr ⟨rfl, Or.inr ⟨_, rfl⟩⟩⟩
      | other err =>
        exact wp_session_act trivial fun _ => ⟨hpermit, Or.inr ⟨rfl, Or.inr ⟨_, rfl⟩⟩⟩
    · exact ⟨hpermit, Or.inl ⟨object, rfl, rfl⟩⟩
  · rw [if_neg hfound]
    refine ⟨hpermit, Or.inr ⟨rfl, Or.inl ?_⟩⟩
    rcases hknown with ⟨v, rfl, hv⟩ | ⟨reply, hreply, hv⟩
    · cases v with
      | false => exact Or.inl hv
      | true => exact absurd rfl hfound
    · rcases reply with e | _
      · exact Or.inr ⟨e, hreply⟩
      · rw [hv] at hfound
        exact absurd rfl hfound

end Reader

/-! ## The router -/

section Router

theorem refused_reads {body : Body} {response : Response} (g : Session) (ready : Instant)
    (item : Item) : g.Allows (.refused response) body (.read ready item) := trivial

theorem drainBody_refused {body : Body} {response : Response} {g : Session} :
    (drainBody body).wp (session (.refused response) body) (fun _ _ => True) g :=
  Prog.wp_mono (drainBodyWithin_session refused_reads trivial) fun _ _ _ => trivial

/-- The response `result` turns into ends the session of `role`. -/
def RoleResult (role : Role) (body : Body) (result : Except ServerError Response) (g : Session) :
    Prop :=
  (intoResponse result).wp (session role body) (fun response g' => g'.Ends role body response) g

variable [RustChar] {config : ServerConfig} {request : Request}

/-- A PUT is a writer if its key is valid, and is turned away else. -/
theorem storeArtifact_role (hash : Hash) (body : Body) (role : Role)
    (hrole : role = if ValidHash hash then .writer hash else .refused (plainText 400 "Bad request")) :
    (storeArtifact s3Storage hash body).wp (session role body)
      (fun result g => RoleResult role body result g) Session.start := by
  by_cases hvalid : ValidHash hash
  · rw [if_pos hvalid] at hrole
    rw [hrole]
    exact storeArtifact_session hvalid
  · rw [if_neg hvalid] at hrole
    rw [hrole, storeArtifact, validateHash_invalid hvalid]
    exact Prog.wp_bind_of drainBody_refused fun _ _ _ => rfl

/-- A read is a reader if its key is valid, and is turned away else. -/
theorem retrieveArtifact_role (hash : Hash) (body : Body) (role : Role)
    (hrole : role = if ValidHash hash then .reader hash else .refused (plainText 400 "Bad request")) :
    (retrieveArtifact s3Storage hash).wp (session role body)
      (fun result g => RoleResult role body result g) Session.start := by
  by_cases hvalid : ValidHash hash
  · rw [if_pos hvalid] at hrole
    rw [hrole]
    exact retrieveArtifact_session hvalid
  · rw [if_neg hvalid] at hrole
    rw [hrole, retrieveArtifact, validateHash_invalid hvalid]
    exact rfl

/-- The handlers keep to the role of the request. -/
theorem cacheRoutes_session :
    (cacheRoutes s3Storage request).wp (session (routeRole request) request.body)
      (fun response g => g.Ends (routeRole request) request.body response) Session.start := by
  unfold cacheRoutes
  split
  next name hmethod =>
    rw [show routeRole request = .refused methodNotAllowed by rw [routeRole, hmethod]]
    exact rfl
  next hpath hmethod =>
    rw [show routeRole request = .refused pathRejection by
      cases hm : request.method with
      | other name => exact absurd hm (hmethod name)
      | _ => rw [routeRole, hm, hpath]]
    exact rfl
  next hash hmethod hpath =>
    exact Prog.wp_bind_of (storeArtifact_role hash request.body (routeRole request)
      (by rw [routeRole, hmethod, hpath])) fun _ _ h => h
  next hash hmethod hpath =>
    exact Prog.wp_bind_of (retrieveArtifact_role hash request.body (routeRole request)
      (by rw [routeRole, hmethod, hpath])) fun _ _ h => h
  next hash hmethod hpath =>
    exact Prog.wp_bind_of (retrieveArtifact_role hash request.body (routeRole request)
      (by rw [routeRole, hmethod, hpath])) fun _ _ h => h

/-- **What serving a request does.** The task of a request keeps to what its
role allows, and ends as its role says. -/
theorem serve_session :
    (serve s3Storage config request).wp (session (role config request) request.body)
      (fun response g => ∃ inner, response = finalize request inner ∧
        g.Ends (role config request) request.body inner) Session.start := by
  unfold serve
  -- first what the middleware returns, by the token; then the response it makes
  refine Prog.wp_bind_of (R := fun result g =>
    RoleResult (role config request) request.body result g) ?_ ?_
  · cases htoken : request.bearerToken with
    | none =>
      rw [authMiddleware_noToken htoken]
      rw [show role config request = .refused (plainText 401 "Unauthorized") by
        rw [role, htoken]]
      exact rfl
    | some token =>
      cases hrw : isReadWrite config token with
      | true =>
        rw [authMiddleware_granted htoken (Or.inl hrw)]
        rw [show role config request = routeRole request by simp [role, htoken, hrw]]
        exact Prog.wp_bind_of cacheRoutes_session fun _ _ h => h
      | false =>
        cases hro : isReadOnly config token with
        | false =>
          rw [authMiddleware_unknown htoken hrw hro]
          rw [show role config request = .refused (plainText 401 "Unauthorized") by
            simp [role, htoken, hrw, hro]]
          exact rfl
        | true =>
          cases hread : request.method.isRead with
          | false =>
            rw [authMiddleware_refused htoken hrw hro hread]
            rw [show role config request = .refused (plainText 403 "Forbidden") by
              simp [role, htoken, hrw, hro, hread]]
            exact Prog.wp_bind_of drainBody_refused fun _ _ _ => rfl
          | true =>
            rw [authMiddleware_granted htoken (Or.inr ⟨hro, hread⟩)]
            rw [show role config request = routeRole request by
              simp [role, htoken, hrw, hro, hread]]
            exact Prog.wp_bind_of cacheRoutes_session fun _ _ h => h
  · intro result g hresult
    exact Prog.wp_bind_of hresult fun response _ h => ⟨response, rfl, h⟩

end Router

end NxCacheServer.Server
