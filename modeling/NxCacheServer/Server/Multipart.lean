import NxCacheServer.Server.Blame
import NxCacheServer.Server.Session
import NxCacheServer.Infra.Cleanup

/-!
# The multipart protocol

The S3 requests of an upload that nothing goes wrong with. How a body is cut
into parts is a function of the body alone (`uploadParts`), and `Cut` says what
S3 asks of such a list of parts. `store_requests` follows the loop of `store`:
it sends exactly these parts, in order, and lists them as it sent them.

A part is full when a chunk takes it to the part size or beyond, so it is longer than
that by less than a chunk (`Cut.bounded`), and only the last one may be shorter
(`Cut.full`). If the body ends with a full part, the buffer after it is empty and is
not sent. S3 takes 10,000 parts of an upload; the code does not look at that limit.
-/

namespace NxCacheServer.Domain.Body

/-- The chunks of a body. -/
def pieces : Body → List Bytes
  | .eof _ => []
  | .reset _ => []
  | .chunk _ bytes rest => bytes :: rest.pieces

end NxCacheServer.Domain.Body

namespace NxCacheServer.Server

open NxCacheServer.Domain NxCacheServer.Infra NxCacheServer.Lib

/-! ## Cutting a body into parts -/

/-- `parts` cuts `bytes` up as a multipart upload asks for, the chunks of the
stream being at most `c` bytes long. -/
structure Cut (size c : Nat) (bytes : Bytes) (parts : List Bytes) : Prop where
  no_empty : ∀ part ∈ parts, part ≠ []
  full : ∀ part ∈ parts.dropLast, size ≤ part.length
  bounded : ∀ part ∈ parts, part.length ≤ size + c - 1
  whole : parts.flatten = bytes

/-- A body with bytes in it is cut into at least one part. -/
theorem Cut.ne_nil {size c : Nat} {bytes : Bytes} {parts : List Bytes}
    (h : Cut size c bytes parts) (hbytes : bytes ≠ []) : parts ≠ [] := by
  intro hnil
  rw [hnil] at h
  exact hbytes h.whole.symm

section

variable {size c : Nat}

/-- What is left at the end of a body is its last part. -/
theorem cut_partOf {buffer : Bytes} (hroom : buffer.length < size) :
    Cut size c buffer (Body.partOf buffer) := by
  unfold Body.partOf
  cases buffer with
  | nil => exact ⟨by simp, by simp, by simp, rfl⟩
  | cons b bs =>
    refine ⟨by simp, by simp, ?_, by simp⟩
    intro part hpart
    rw [List.mem_singleton.mp hpart]
    omega

/-- A full part before the others. -/
theorem Cut.cons {buffer bytes : Bytes} {parts : List Bytes} (h : Cut size c bytes parts)
    (hsize : 0 < size) (hfull : size ≤ buffer.length) (hbound : buffer.length ≤ size + c - 1) :
    Cut size c (buffer ++ bytes) (buffer :: parts) := by
  refine ⟨?_, ?_, ?_, ?_⟩
  · intro part hpart
    rcases List.mem_cons.mp hpart with rfl | hpart
    · exact List.length_pos_iff.mp (by omega)
    · exact h.no_empty part hpart
  · intro part hpart
    cases parts with
    | nil => cases hpart
    | cons p ps =>
      rcases List.mem_cons.mp hpart with rfl | hpart
      · exact hfull
      · exact h.full part hpart
  · intro part hpart
    rcases List.mem_cons.mp hpart with rfl | hpart
    · exact hbound
    · exact h.bounded part hpart
  · rw [List.flatten_cons, h.whole]

/-- The parts of a body that is sent to its end are cut as they should be: a
part ends with the chunk that fills it, so it is less than a chunk too long. -/
theorem cut_partsFrom (hsize : 0 < size) :
    ∀ (body : Body) (buffer : Bytes), buffer.length < size → body.complete = true →
      (∀ piece ∈ body.pieces, piece.length ≤ c) →
      Cut size c (buffer ++ body.bytes) (body.partsFrom size buffer) := by
  intro body
  induction body with
  | eof ready =>
    intro buffer hroom _ _
    rw [Body.partsFrom, Body.bytes_eof, List.append_nil]
    exact cut_partOf hroom
  | reset ready =>
    intro buffer _ hcomplete
    cases hcomplete
  | chunk ready bytes rest ih =>
    intro buffer hroom hcomplete hpieces
    have hbytes : bytes.length ≤ c := hpieces bytes (List.mem_cons_self ..)
    have hrest : ∀ piece ∈ rest.pieces, piece.length ≤ c :=
      fun piece hpiece => hpieces piece (List.mem_cons_of_mem _ hpiece)
    have hlength : (buffer ++ bytes).length = buffer.length + bytes.length := List.length_append
    rw [Body.partsFrom, Body.bytes_chunk, ← List.append_assoc]
    split
    next hshort => exact ih _ hshort hcomplete hrest
    next hfull =>
      have htail := ih [] hsize hcomplete hrest
      exact htail.cons hsize (by omega) (by omega)

end

/-! ## The requests of an upload -/

/-- An S3 request and its reply. -/
abbrev Exchange := (call : S3Call) × call.Reply

/-- The S3 request of an event, if it is one. -/
def exchange : TaskEvent → Option Exchange
  | ⟨.s3 call, reply⟩ => some ⟨call, reply⟩
  | _ => none

/-- The S3 requests along a history. -/
def requests (h : List TaskEvent) : List Exchange := h.filterMap exchange

/-- The one request of a small body. -/
def putRequest (hash : Hash) (bytes : Bytes) : Exchange := ⟨.putObject hash bytes, Except.ok ()⟩

/-- The first request of a multipart upload. -/
def createRequest (hash : Hash) (id : UploadId) : Exchange :=
  ⟨.createMultipartUpload hash, Except.ok (some id)⟩

/-- The `UploadPart` of the part at index `i`: parts are numbered from 1, and
`content_length` is declared. -/
def partRequest (hash : Hash) (id : UploadId) (i : Nat) (part : Bytes × ETag) : Exchange :=
  ⟨.uploadPart hash id (i + 1) part.1.length part.1, Except.ok (some part.2)⟩

/-- How the part at index `i` is listed in the end. -/
def listing (i : Nat) (part : Bytes × ETag) : CompletedPart := ⟨i + 1, part.2⟩

/-- The last one, which lists the parts in order. -/
def completeRequest (hash : Hash) (id : UploadId) (parts : List (Bytes × ETag)) : Exchange :=
  ⟨.completeMultipartUpload hash id (parts.mapIdx listing), Except.ok ()⟩

/-- All requests of an upload in parts. -/
def uploadRequests (hash : Hash) (id : UploadId) (parts : List (Bytes × ETag)) : List Exchange :=
  createRequest hash id :: (parts.mapIdx (partRequest hash id) ++ [completeRequest hash id parts])

/-- The contract of an environment in which nothing fails, with the requests so
far. -/
def unfailing : Prog.Contract Act Act.Resp (List Exchange) where
  allow _ _ := True
  promise _ e r := blame ⟨e, r⟩ = none
  update g e r := g ++ (exchange ⟨e, r⟩).toList

/-- The ghost state is the S3 requests of the history. -/
theorem after_unfailing (h : List TaskEvent) :
    ∀ g, unfailing.after g h = g ++ requests h := by
  unfold requests
  induction h with
  | nil =>
    intro g
    simp
  | cons ev h ih =>
    intro g
    rw [Prog.Contract.after_cons, ih, List.filterMap_cons]
    cases hx : exchange ev <;> simp [unfailing, hx]

/-- A history that blames nobody has no failed request in it. -/
theorem kept_unfailing : ∀ {h : List TaskEvent} (g : List Exchange), firstBlame h = none →
    unfailing.Kept g h := by
  intro h
  induction h with
  | nil =>
    intro g _
    trivial
  | cons ev h ih =>
    intro g hnone
    rw [firstBlame, List.findSome?_eq_none_iff] at hnone
    refine ⟨hnone ev (List.mem_cons_self ..), ih _ ?_⟩
    rw [firstBlame, List.findSome?_eq_none_iff]
    exact fun ev' hmem => hnone ev' (List.mem_cons_of_mem _ hmem)

section

variable {hash : Hash} {id : UploadId} {g : List Exchange}

/-- With nothing going wrong a part is filled, and no request is made meanwhile. -/
theorem fillPart_requests (data : Body) (n : Nat) :
    (fillPart data multipartPartSize hash n).wp unfailing
      (fun filled g' => g' = g ∧ (∀ e, filled.result ≠ .error e) ∧
        Fills filled multipartPartSize []) g := by
  refine Prog.wp_mono (fillLoop_rule (fun g' => g' = g) (fun g' => g' = g) (fun _ => False)
    ?_ ?_ ?_ data n [] g (by decide) rfl) ?_
  · exact fun g' _ _ hg => ⟨trivial, fun _ => (List.append_nil g').trans hg⟩
  · exact fun g' _ hg => ⟨trivial, fun _ => (List.append_nil g').trans hg⟩
  · -- a read error is a failure, and there is none
    exact fun _ _ _ _ => ⟨trivial, fun _ hpromise => by cases hpromise⟩
  · intro filled g' hfilled
    obtain ⟨hends, hfills⟩ := hfilled
    unfold Filled.Ends at hends
    split at hends
    next => exact hends.elim
    next hres => exact ⟨hends, fun e => by rw [hres]; simp, hfills⟩
    next hres => exact ⟨hends, fun e => by rw [hres]; simp, hfills⟩

/-- The creation is one request, and it gives an id. -/
theorem createUpload_requests :
    (S3Storage.createUpload hash).wp unfailing
      (fun created g => ∃ id, created = .ok id ∧ g = [createRequest hash id]) [] := by
  rw [S3Storage.createUpload, Async.s3_bind]
  refine ⟨trivial, fun r hpromise => ?_⟩
  rcases r with e | _ | id
  · cases hpromise
  · cases hpromise
  · exact ⟨id, rfl, rfl⟩

/-- A buffer that is not empty is one part more, numbered by its place; an empty one
is none. -/
theorem flushBuffer_requests {buffer : Bytes} {parts : List (Bytes × ETag)} :
    (S3Storage.flushBuffer hash id buffer (parts.length + 1) (parts.mapIdx listing)).wp unfailing
      (fun sent g' => ∃ parts' : List (Bytes × ETag), parts'.map Prod.fst = parts.map Prod.fst ++ Body.partOf buffer ∧
        sent = .ok (parts'.length + 1, parts'.mapIdx listing) ∧
        g' = createRequest hash id :: parts'.mapIdx (partRequest hash id))
      (createRequest hash id :: parts.mapIdx (partRequest hash id)) := by
  unfold S3Storage.flushBuffer Body.partOf
  split
  next hempty => exact ⟨parts, (List.append_nil _).symm, rfl, rfl⟩
  next hbuffer =>
    rw [S3Storage.sendPart, Async.s3_bind]
    refine ⟨trivial, fun r hpromise => ?_⟩
    rcases r with e | _ | eTag
    · cases hpromise
    · cases hpromise
    · refine ⟨parts ++ [(buffer, eTag)], by simp, ?_, ?_⟩
      · rw [List.mapIdx_concat, List.length_append]
        rfl
      · rw [List.mapIdx_concat]
        rfl

/-- What is left to send of a body, the buffer being filled and `data` unread. -/
def unsent (buffer : Bytes) (eof : Bool) (data : Body) : List Bytes :=
  if eof then Body.partOf buffer else buffer :: data.partsFrom multipartPartSize []

/-- The invariant of the upload loop: its five variables are at the same place
in the body. -/
def Aligned (hash : Hash) (id : UploadId) (body : Body) (buffer : Bytes) (eof : Bool) (data : Body)
    (_bytesReceived partNumber : Nat) (completedParts : List CompletedPart)
    (g : List Exchange) : Prop :=
  ∃ parts : List (Bytes × ETag),
    uploadParts body = parts.map Prod.fst ++ unsent buffer eof data ∧
    (eof = true → body.complete = true) ∧
    (eof = false → buffer ≠ [] ∧ (data.complete = true → body.complete = true)) ∧
    partNumber = parts.length + 1 ∧ completedParts = parts.mapIdx listing ∧
    g = createRequest hash id :: parts.mapIdx (partRequest hash id)

/-- What the loop has done once it has read the body to its end. -/
def SentAll (hash : Hash) (id : UploadId) (body : Body)
    (uploadResult : Except StorageError (List CompletedPart)) (g : List Exchange) : Prop :=
  ∃ parts : List (Bytes × ETag), parts.map Prod.fst = uploadParts body ∧ body.complete = true ∧
    uploadResult = .ok (parts.mapIdx listing) ∧
    g = createRequest hash id :: parts.mapIdx (partRequest hash id)

/-- The loop sends what is left, part by part, and lists what it has sent. -/
theorem uploadLoop_requests {body data : Body} {buffer : Bytes} {eof : Bool} {n k : Nat}
    {listed : List CompletedPart} (hI : Aligned hash id body buffer eof data n k listed g) :
    (S3Storage.uploadLoop hash id buffer eof data n k listed).wp unfailing
      (fun r g' => SentAll hash id body r.1 g') g := by
  refine S3Storage.uploadLoop_rule hash id (Aligned hash id body) ?_ _ _ _ _ _ _ _ hI
  intro buffer eof data n k listed g hI
  -- flushing the buffer moves it from what is unsent to the parts
  obtain ⟨parts, hcut, hdone, hmore, rfl, rfl, rfl⟩ := hI
  refine Prog.wp_mono flushBuffer_requests ?_
  intro sent g' hsent
  obtain ⟨parts', hparts', rfl, rfl⟩ := hsent
  cases eof with
  | true => exact ⟨parts', hparts'.trans hcut.symm, hdone rfl, rfl, rfl⟩
  | false =>
    obtain ⟨hbuffer, hcomplete⟩ := hmore rfl
    have hsame : uploadParts body =
        parts'.map Prod.fst ++ data.partsFrom multipartPartSize [] := by
      rw [hparts', hcut, Body.partOf, if_neg (by simpa using hbuffer), List.append_assoc]
      rfl
    refine Prog.wp_mono (fillPart_requests data n) ?_
    intro filled g'' hfilled
    obtain ⟨rfl, hok, hcuts⟩ := hfilled
    unfold Fills at hcuts
    split at hcuts
    next e hres => exact absurd hres (hok e)
    next bytes hres =>
      obtain ⟨hdata, -, -, hrest⟩ := hcuts
      rw [hres]
      rw [hrest] at hsame
      exact ⟨parts', hsame, fun _ => hcomplete hdata, by simp, rfl, rfl, rfl⟩
    next bytes hres =>
      obtain ⟨hdata, -, hsize, hrest⟩ := hcuts
      rw [hres]
      rw [hrest] at hsame
      refine ⟨parts', hsame, by simp, fun _ => ⟨?_, fun h => hcomplete (hdata ▸ h)⟩, rfl, rfl, rfl⟩
      intro hnil
      rw [hnil] at hsize
      exact absurd hsize (by decide)

/-- A loop that succeeded ends in the completion, with what it has listed. -/
theorem finishUpload_requests {completedParts : List CompletedPart} :
    (S3Storage.finishUpload hash id (.ok completedParts)).wp unfailing
      (fun _ g' => g' = g ++ [⟨.completeMultipartUpload hash id completedParts, Except.ok ()⟩])
      g := by
  rw [S3Storage.finishUpload, Async.s3_bind]
  refine ⟨trivial, fun r hpromise => ?_⟩
  rcases r with e | u
  · cases hpromise
  · exact rfl

/-- The requests of an upload that succeeds. -/
def Uploaded (hash : Hash) (body : Body) (g : List Exchange) : Prop :=
  body.complete = true ∧
  if body.bytes.length < multipartPartSize then g = [putRequest hash body.bytes]
  else ∃ id parts, parts.map Prod.fst = uploadParts body ∧ g = uploadRequests hash id parts

/-- `store` with nothing going wrong. -/
theorem store_requests {body : Body} :
    (S3Storage.store hash body).wp unfailing (fun _ g => Uploaded hash body g) [] := by
  rw [S3Storage.store]
  refine Prog.wp_bind_of (fillPart_requests body 0) ?_
  intro filled g hfilled
  obtain ⟨rfl, hok, hcuts⟩ := hfilled
  unfold Fills at hcuts
  split
  next e hres => exact absurd hres (hok e)
  next buffer hres =>
    rw [hres] at hcuts
    obtain ⟨hcomplete, rfl, hsize, -⟩ := hcuts
    rw [List.nil_append, S3Storage.putWhole, Async.s3_bind]
    refine ⟨trivial, fun r hpromise => ?_⟩
    rcases r with e | u
    · cases hpromise
    · refine ⟨hcomplete, ?_⟩
      rw [if_pos (by simpa using hsize)]
      rfl
  next buffer hres =>
    rw [hres] at hcuts
    obtain ⟨hcomplete, hbytes, hsize, hrest⟩ := hcuts
    -- a buffer that is handed back full makes the body at least a part long
    have hlong : ¬ body.bytes.length < multipartPartSize := by
      have hlength := congrArg List.length hbytes
      rw [List.nil_append, List.length_append] at hlength
      omega
    refine Prog.wp_bind_of createUpload_requests ?_
    intro created g hcreated
    obtain ⟨id, rfl, rfl⟩ := hcreated
    refine Prog.wp_bind_of (R := fun r g => SentAll hash id body r.1 g) ?_ ?_
    · refine uploadLoop_requests
        ⟨[], hrest, by simp, fun _ => ⟨?_, fun h => hcomplete ▸ h⟩, rfl, rfl, rfl⟩
      intro hnil
      rw [hnil] at hsize
      exact absurd hsize (by decide)
    · intro looped g hlooped
      obtain ⟨uploadResult, rest⟩ := looped
      obtain ⟨parts, hparts, hcomplete, rfl, rfl⟩ := hlooped
      refine Prog.wp_bind_of finishUpload_requests ?_
      intro _ g hg
      refine ⟨hcomplete, ?_⟩
      rw [if_neg hlong]
      exact ⟨id, parts, hparts, hg⟩

/-- **Multipart protocol conformance.** An upload that nothing goes wrong with
is a single `PutObject` exactly when it is shorter than a part, however its
bytes arrive; otherwise it creates one upload, sends parts 1, 2, … cut as S3
asks for, each with its length, and completes with these parts, each listed
under its number with its own ETag. -/
theorem multipart_conformance {body : Body} {c : Nat} {h : List TaskEvent}
    {result : Except StorageError Unit} {rest : Body}
    (hrun : Prog.Runs (S3Storage.store hash body) h (result, rest)) (hok : firstBlame h = none)
    (hchunks : ∀ piece ∈ body.pieces, piece.length ≤ c) :
    (requests h = [putRequest hash body.bytes] ↔ body.bytes.length < multipartPartSize) ∧
    (¬ body.bytes.length < multipartPartSize → ∃ id parts,
      requests h = uploadRequests hash id parts ∧ parts ≠ [] ∧
      Cut multipartPartSize c body.bytes (parts.map Prod.fst)) := by
  have huploaded : Uploaded hash body (requests h) := by
    have hpost := Prog.wp_runs hrun store_requests (kept_unfailing [] hok)
    rwa [after_unfailing, List.nil_append] at hpost
  obtain ⟨hcomplete, hrequests⟩ := huploaded
  have hcut : Cut multipartPartSize c body.bytes (uploadParts body) :=
    cut_partsFrom (by decide) body [] (by decide) hcomplete hchunks
  by_cases hshort : body.bytes.length < multipartPartSize
  · rw [if_pos hshort] at hrequests
    exact ⟨iff_of_true hrequests hshort, fun hlong => absurd hshort hlong⟩
  · rw [if_neg hshort] at hrequests
    obtain ⟨id, parts, hparts, hrequests⟩ := hrequests
    refine ⟨iff_of_false ?_ hshort, fun _ => ⟨id, parts, hrequests, ?_, ?_⟩⟩
    -- a `PutObject` is no `CreateMultipartUpload`
    · intro hput
      rw [hrequests] at hput
      cases hput
    · have hbytes : body.bytes ≠ [] := by
        intro hnil
        rw [hnil] at hshort
        exact hshort (by decide)
      intro hnil
      rw [hnil] at hparts
      exact hcut.ne_nil hbytes hparts.symm
    · rw [hparts]
      exact hcut

/-- A body of exactly one part goes through the multipart protocol. -/
theorem fullPart_multipart :
    ∃ id parts, requests (onePartHistory
        [⟨.s3 (.completeMultipartUpload "abc" 0 [⟨1, "e1"⟩]), .ok ()⟩]) =
          uploadRequests "abc" id parts ∧ parts ≠ [] ∧
      Cut multipartPartSize multipartPartSize (Body.chunk 0 fullPart (.eof 0)).bytes
        (parts.map Prod.fst) := by
  have hfinish : Prog.Runs (S3Storage.finishUpload "abc" 0 (.ok [⟨1, "e1"⟩]))
      [⟨.s3 (.completeMultipartUpload "abc" 0 [⟨1, "e1"⟩]), .ok ()⟩] (.ok ()) := .act (.done _)
  have hrun : Prog.Runs (S3Storage.store "abc" (.chunk 0 fullPart (.eof 0))) _
      (.ok (), .eof 0) := store_onePart_runs fullPart_full hfinish
  have hlong : ¬ (Body.chunk 0 fullPart (.eof 0)).bytes.length < multipartPartSize := by
    rw [Body.bytes_chunk, Body.bytes_eof, List.append_nil]
    exact Nat.not_lt.mpr fullPart_full
  refine (multipart_conformance hrun rfl ?_).2 hlong
  intro piece hpiece
  rw [List.mem_singleton.mp hpiece]
  exact Nat.le_of_eq List.length_replicate

end

end NxCacheServer.Server
