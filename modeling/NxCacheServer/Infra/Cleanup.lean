import NxCacheServer.Infra.Aws

/-!
# Dangling multipart uploads

`store` aborts an upload whose loop failed, so that S3 does not keep billing
for its parts. A failed `CompleteMultipartUpload` ends `store` outside of that
block: `noDangling_iff_completesSucceed` says exactly when an upload is left
behind.

The result is about one run of `store` and about what `store` has been told: an
upload counts as opened when S3 answers with its id, and as ended when a completion
succeeds or an abort is sent. What S3 makes of requests that fail is in
`NxCacheServer.System.Dangling`.

Almost everything `store` does is `Quiet`, so a run is cut at the two requests that
are not: the one that opens the upload, and the first of `finishUpload`
(`store_runs`).
-/

namespace NxCacheServer.Infra

open NxCacheServer.Domain NxCacheServer.Server NxCacheServer.Lib

/-- `S3` returned upload id `id` for `hash` along `h`. -/
def Created (hash : Hash) (id : UploadId) (h : List TaskEvent) : Prop :=
  (⟨.s3 (.createMultipartUpload hash), .ok (some id)⟩ : TaskEvent) ∈ h

/-- A `CompleteMultipartUpload` of the upload succeeded along `h`. -/
def Completed (hash : Hash) (id : UploadId) (h : List TaskEvent) : Prop :=
  ∃ parts, (⟨.s3 (.completeMultipartUpload hash id parts), .ok ()⟩ : TaskEvent) ∈ h

/-- An `AbortMultipartUpload` of the upload was issued along `h`. -/
def AbortIssued (hash : Hash) (id : UploadId) (h : List TaskEvent) : Prop :=
  ∃ r, (⟨.s3 (.abortMultipartUpload hash id), r⟩ : TaskEvent) ∈ h

/-- No upload dangles after `h`, and an error after a created upload comes
after an attempted abort. -/
def NoDangling (hash : Hash) (result : Except StorageError Unit) (h : List TaskEvent) : Prop :=
  ∀ id, Created hash id h → (Completed hash id h ∨ AbortIssued hash id h) ∧
    (∀ e, result = .error e → AbortIssued hash id h)

/-- Every `CompleteMultipartUpload` issued along `h` succeeds. -/
def CompletesSucceed (h : List TaskEvent) : Prop :=
  ∀ hash id parts err,
    (⟨.s3 (.completeMultipartUpload hash id parts), .error err⟩ : TaskEvent) ∉ h

/-- The actions that neither open nor close a multipart upload. -/
def Act.Quiet : Act → Prop
  | .s3 (.createMultipartUpload _) => False
  | .s3 (.completeMultipartUpload _ _ _) => False
  | .s3 (.abortMultipartUpload _ _) => False
  | _ => True

/-! ## Everything but the end of `store` is quiet -/

/-- Reading a part opens no upload and ends none, so the cleanup has nothing to
answer for while the body is read. -/
theorem fillLoop_quiet (partSize : Nat) (hash : Hash) :
    ∀ (data : Body) (n : Nat) (buffer : Bytes),
      Prog.Only Act.Quiet (fillLoop partSize hash data n buffer) :=
  fillLoop_only (fun _ _ => trivial) (fun _ => trivial) partSize

theorem flushBuffer_quiet (hash : Hash) (id : UploadId) (buffer : Bytes) (n : Nat)
    (parts : List CompletedPart) :
    Prog.Only Act.Quiet (S3Storage.flushBuffer hash id buffer n parts) := by
  unfold S3Storage.flushBuffer
  split
  · trivial
  · refine Prog.only_bind ?_ ?_
    · rw [S3Storage.sendPart, Async.s3_bind, Prog.only_act]
      refine ⟨trivial, ?_⟩
      intro r
      rcases r with e | _ | eTag
      · exact ⟨trivial, fun _ _ => trivial⟩
      · exact ⟨trivial, fun _ _ => trivial⟩
      · trivial
    · intro sent
      cases sent <;> trivial

theorem uploadLoop_quiet (hash : Hash) (id : UploadId) (buffer : Bytes) (eof : Bool)
    (data : Body) (n k : Nat) (parts : List CompletedPart) :
    Prog.Only Act.Quiet (S3Storage.uploadLoop hash id buffer eof data n k parts) := by
  refine S3Storage.uploadLoop_rule hash id (fun _ _ _ _ _ _ _ => True) ?_ _ _ _ _ _ _ _ trivial
  intro buffer eof data n k parts g _
  refine Prog.wp_mono (flushBuffer_quiet hash id buffer k parts) ?_
  intro sent g' _
  rcases sent with e | ⟨k', parts'⟩
  · trivial
  · dsimp only
    split
    · trivial
    · refine Prog.wp_mono (fillLoop_quiet _ hash data n []) ?_
      intro filled g'' _
      split <;> trivial

theorem putWhole_quiet (hash : Hash) (buffer : Bytes) :
    Prog.Only Act.Quiet (S3Storage.putWhole hash buffer) := by
  rw [S3Storage.putWhole, Async.s3_bind, Prog.only_act]
  refine ⟨trivial, ?_⟩
  intro r
  rcases r with e | u
  · exact ⟨trivial, fun _ _ => trivial⟩
  · trivial

/-! ## The runs of `store` -/

/-- The end of `store` on an open upload, and what it returns. -/
theorem finishUpload_runs {hash : Hash} {id : UploadId}
    {loop : Except StorageError (List CompletedPart)} {h : List TaskEvent}
    {result : Except StorageError Unit}
    (hr : Prog.Runs (S3Storage.finishUpload hash id loop) h result) :
    (∃ err r h', loop = .error err ∧ result = .error err ∧
      h = ⟨.s3 (.abortMultipartUpload hash id), r⟩ :: h' ∧ ∀ ev ∈ h', Act.Quiet ev.1) ∨
    (∃ parts, loop = .ok parts ∧ result = .ok () ∧
      h = [⟨.s3 (.completeMultipartUpload hash id parts), .ok ()⟩]) ∨
    (∃ parts err h', loop = .ok parts ∧ result = .error .operationFailed ∧
      h = ⟨.s3 (.completeMultipartUpload hash id parts), .error err⟩ :: h' ∧
      ∀ ev ∈ h', Act.Quiet ev.1) := by
  cases loop with
  -- the loop has failed: the abort, and a line if that fails too
  | error err =>
    rw [S3Storage.finishUpload, Async.s3_bind, Prog.runs_act] at hr
    obtain ⟨r, h', rfl, hr⟩ := hr
    refine Or.inl ⟨err, r, h', rfl, ?_⟩
    cases r with
    | error e =>
      simp only [logS3Error, Async.log_bind, Prog.pure_eq, Prog.runs_act, Prog.runs_done] at hr
      obtain ⟨_, _, rfl, rfl, rfl⟩ := hr
      exact ⟨rfl, rfl, by simp [Act.Quiet]⟩
    | ok u =>
      obtain ⟨rfl, rfl⟩ := Prog.runs_done.mp hr
      exact ⟨rfl, rfl, by simp⟩
  -- the loop is done: the completion, and a line if that fails
  | ok parts =>
    rw [S3Storage.finishUpload, Async.s3_bind, Prog.runs_act] at hr
    obtain ⟨r, h', rfl, hr⟩ := hr
    cases r with
    | error e =>
      simp only [logS3Error, Async.log_bind, Prog.pure_eq, Prog.runs_act, Prog.runs_done] at hr
      obtain ⟨_, _, rfl, rfl, rfl⟩ := hr
      exact Or.inr (Or.inr ⟨parts, e, _, rfl, rfl, rfl, by simp [Act.Quiet]⟩)
    | ok u =>
      obtain ⟨rfl, rfl⟩ := Prog.runs_done.mp hr
      exact Or.inr (Or.inl ⟨parts, rfl, rfl, rfl⟩)

/-- What takes no loud action leaves no upload behind. -/
theorem noUpload_of_quiet {hash : Hash} {h : List TaskEvent} (hq : ∀ ev ∈ h, Act.Quiet ev.1) :
    (∀ id, ¬ Created hash id h) ∧ CompletesSucceed h :=
  ⟨fun _ hc => hq _ hc, fun _ _ _ _ hc => hq _ hc⟩

/-- Between quiet stretches, an event that is not quiet is one of the two. -/
theorem eq_or_eq_of_loud {pre mid post : List TaskEvent} {ev a b : TaskEvent}
    (hpre : ∀ ev ∈ pre ++ mid, Act.Quiet ev.1) (hpost : ∀ ev ∈ post, Act.Quiet ev.1)
    (hev : ev ∈ pre ++ a :: (mid ++ b :: post)) (hloud : ¬ Act.Quiet ev.1) :
    ev = a ∨ ev = b := by
  simp only [List.mem_append, List.mem_cons] at hev hpre
  rcases hev with hev | hev | hev | hev | hev
  · exact absurd (hpre ev (Or.inl hev)) hloud
  · exact Or.inl hev
  · exact absurd (hpre ev (Or.inr hev)) hloud
  · exact Or.inr hev
  · exact absurd (hpost ev hev) hloud

/-- A create request that is not answered with an upload id opens nothing. -/
theorem noUpload_of_unanswered {hash : Hash} {pre : List TaskEvent} {line : LogLine}
    {r : Except SdkError (Option UploadId)} (hpre : ∀ ev ∈ pre, Act.Quiet ev.1)
    (hr : ∀ id, r = .ok (some id) → False) :
    (∀ id, ¬ Created hash id
        (pre ++ [⟨.s3 (.createMultipartUpload hash), r⟩, ⟨.log line, ()⟩])) ∧
      CompletesSucceed (pre ++ [⟨.s3 (.createMultipartUpload hash), r⟩, ⟨.log line, ()⟩]) := by
  have hmem : ∀ ev : TaskEvent,
      ev ∈ pre ++ [(⟨.s3 (.createMultipartUpload hash), r⟩ : TaskEvent), ⟨.log line, ()⟩] →
      ¬ Act.Quiet ev.1 → ev = ⟨.s3 (.createMultipartUpload hash), r⟩ := by
    intro ev hev hloud
    have hsplit : ∀ ev ∈ pre ++ [], Act.Quiet ev.1 := by simpa using hpre
    rcases @eq_or_eq_of_loud pre [] [] ev _ _ hsplit (by simp) hev hloud with heq | heq
    · exact heq
    · exact absurd (by rw [heq]; trivial) hloud
  refine ⟨?_, ?_⟩
  · intro id hc
    cases hmem _ hc not_false
    exact hr id rfl
  · intro hash' id parts err hc
    cases hmem _ hc not_false

/-- Either `store` never opens an upload, or it opens one, does nothing else to
it, and ends with `finishUpload` on it. -/
theorem store_runs {hash : Hash} {data : Body} {h : List TaskEvent}
    {out : Except StorageError Unit × Body}
    (hr : Prog.Runs (S3Storage.store hash data) h out) :
    ((∀ id, ¬ Created hash id h) ∧ CompletesSucceed h) ∨
    ∃ pre id mid loop post, h = pre ++
        ⟨.s3 (.createMultipartUpload hash), .ok (some id)⟩ :: (mid ++ post) ∧
      (∀ ev ∈ pre ++ mid, Act.Quiet ev.1) ∧
      Prog.Runs (S3Storage.finishUpload hash id loop) post out.1 := by
  rw [S3Storage.store, Prog.runs_bind] at hr
  obtain ⟨pre, filled, h₁, rfl, hfill, hr⟩ := hr
  have hpre := (fillLoop_quiet _ _ _ _ _).runs hfill
  -- by the first part: cut off, the whole body, or one of several
  match hres : filled.result, hr with
  | .error e, hr =>
    obtain ⟨rfl, rfl⟩ := Prog.runs_done.mp hr
    exact Or.inl (noUpload_of_quiet (by simpa using hpre))
  | .ok (buffer, true), hr =>
    obtain ⟨h₂, result, h₃, rfl, hput, hr⟩ := Prog.runs_bind.mp hr
    obtain ⟨rfl, rfl⟩ := Prog.runs_done.mp hr
    refine Or.inl (noUpload_of_quiet ?_)
    intro ev hev
    rcases List.mem_append.mp hev with hev | hev
    · exact hpre ev hev
    · exact (putWhole_quiet hash buffer).runs hput ev (by simpa using hev)
  | .ok (buffer, false), hr =>
    obtain ⟨h₂, created, h₃, rfl, hcreate, hr⟩ := Prog.runs_bind.mp hr
    rw [S3Storage.createUpload, Async.s3_bind, Prog.runs_act] at hcreate
    obtain ⟨r, h', rfl, hcreate⟩ := hcreate
    -- only a reply with an upload id opens an upload
    rcases r with e | _ | id
    · simp only [logS3Error, Async.log_bind, Prog.pure_eq, Prog.runs_act, Prog.runs_done]
        at hcreate
      obtain ⟨_, _, rfl, rfl, rfl⟩ := hcreate
      obtain ⟨rfl, rfl⟩ := Prog.runs_done.mp hr
      exact Or.inl (noUpload_of_unanswered hpre (fun _ h => by cases h))
    · simp only [Async.log_bind, Prog.pure_eq, Prog.runs_act, Prog.runs_done] at hcreate
      obtain ⟨_, _, rfl, rfl, rfl⟩ := hcreate
      obtain ⟨rfl, rfl⟩ := Prog.runs_done.mp hr
      exact Or.inl (noUpload_of_unanswered hpre (fun _ h => by cases h))
    · obtain ⟨rfl, rfl⟩ := Prog.runs_done.mp hcreate
      obtain ⟨mid, looped, h₄, rfl, hloop, hr⟩ := Prog.runs_bind.mp hr
      obtain ⟨post, result, h₅, rfl, hfinish, hr⟩ := Prog.runs_bind.mp hr
      obtain ⟨rfl, rfl⟩ := Prog.runs_done.mp hr
      refine Or.inr ⟨pre, id, mid, looped.1, post, by simp, ?_, hfinish⟩
      intro ev hev
      rcases List.mem_append.mp hev with hev | hev
      · exact hpre ev hev
      · exact (uploadLoop_quiet _ _ _ _ _ _ _ _).runs hloop ev hev

/-- **When an upload is left behind.** A run of `store` cleans up after itself
exactly when no `CompleteMultipartUpload` of it fails: every other exit after
the upload was opened goes through the abort. -/
theorem noDangling_iff_completesSucceed {hash : Hash} {data rest : Body} {h : List TaskEvent}
    {result : Except StorageError Unit}
    (hr : Prog.Runs (S3Storage.store hash data) h (result, rest)) :
    NoDangling hash result h ↔ CompletesSucceed h := by
  rcases store_runs hr with ⟨hnone, hok⟩ | ⟨pre, id, mid, loop, post, rfl, hquiet, hfinish⟩
  · exact ⟨fun _ => hok, fun _ id hc => absurd hc (hnone id)⟩
  have hcreated : Created hash id
      (pre ++ ⟨.s3 (.createMultipartUpload hash), .ok (some id)⟩ :: (mid ++ post)) := by
    simp [Created]
  rcases finishUpload_runs hfinish with ⟨err, r, h', -, -, rfl, hq⟩ | ⟨parts, -, hres, rfl⟩ |
    ⟨parts, err, h', -, hres, rfl, hq⟩
  · -- the abort is issued, whatever it is answered
    refine ⟨?_, ?_⟩
    · intro _ hash' id' parts err' hc
      rcases eq_or_eq_of_loud hquiet hq hc not_false with heq | heq <;> cases heq
    · intro _ id' hc
      rcases eq_or_eq_of_loud hquiet hq hc not_false with heq | heq
      · cases heq
        have habort : AbortIssued hash id (pre ++
            ⟨.s3 (.createMultipartUpload hash), .ok (some id)⟩ ::
              (mid ++ ⟨.s3 (.abortMultipartUpload hash id), r⟩ :: h')) := ⟨r, by simp⟩
        exact ⟨Or.inr habort, fun _ _ => habort⟩
      · cases heq
  -- completed, and `store` returns `Ok`
  · refine ⟨?_, ?_⟩
    · intro _ hash' id' parts' err' hc
      rcases eq_or_eq_of_loud hquiet (by simp) hc not_false with heq | heq <;> cases heq
    · intro _ id' hc
      rcases eq_or_eq_of_loud hquiet (by simp) hc not_false with heq | heq
      · cases heq
        refine ⟨Or.inl ⟨parts, by simp⟩, ?_⟩
        intro e he
        cases he.symm.trans hres
      · cases heq
  · -- the upload stays open: neither completed nor aborted
    refine ⟨?_, ?_⟩
    · intro hno
      obtain ⟨r, hr⟩ := (hno id hcreated).2 _ hres
      rcases eq_or_eq_of_loud hquiet hq hr not_false with heq | heq <;> cases heq
    · intro hok
      exact absurd (by simp) (hok hash id parts err)

/-! ## A body of one full part -/

/-- A chunk of the size of a part fills one, and the read stops there. -/
theorem fillPart_full_runs {hash : Hash} {ready : Instant} {bytes : Bytes} {rest : Body} {n : Nat}
    (hfull : multipartPartSize ≤ bytes.length) :
    ∃ filled, Prog.Runs (fillPart (.chunk ready bytes rest) multipartPartSize hash n)
        [⟨.read ready (.chunk bytes), ()⟩] filled ∧
      filled.result = .ok (bytes, false) ∧ filled.rest = rest := by
  have hpos : ([] : Bytes).length < multipartPartSize := by decide
  have hshort : ¬ ([] ++ bytes : Bytes).length < multipartPartSize := by
    rw [List.nil_append]
    omega
  rw [fillPart, fillLoop, dif_pos hpos, fillLoop_full hshort]
  exact ⟨_, .act (.done _), by simp [Filled.afterChunk], rfl⟩

/-- At the end of the body an empty part comes back, marked as the last. -/
theorem fillPart_eof_runs {hash : Hash} {ready : Instant} {n : Nat} :
    ∃ filled, Prog.Runs (fillPart (.eof ready) multipartPartSize hash n)
        [⟨.read ready .eof, ()⟩] filled ∧
      filled.result = .ok ([], true) ∧ filled.rest = .eof ready := by
  have hpos : ([] : Bytes).length < multipartPartSize := by decide
  rw [fillPart, fillLoop, dif_pos hpos]
  exact ⟨_, .act (.done _), rfl, rfl⟩

/-- One part is uploaded and the loop is left with it. -/
theorem uploadLoop_onePart_runs {hash : Hash} {ready : Instant} {bytes : Bytes} {id : UploadId}
    {eTag : ETag} {n : Nat} (hne : bytes.isEmpty = false) :
    Prog.Runs (S3Storage.uploadLoop hash id bytes false (.eof ready) n 1 [])
      [⟨.s3 (.uploadPart hash id 1 bytes.length bytes), .ok (some eTag)⟩, ⟨.read ready .eof, ()⟩]
      (.ok [⟨1, eTag⟩], .eof ready) := by
  obtain ⟨filled, hfill, hres, hrest⟩ := @fillPart_eof_runs hash ready n
  have hflush : Prog.Runs (S3Storage.flushBuffer hash id bytes 1 [])
      [⟨.s3 (.uploadPart hash id 1 bytes.length bytes), .ok (some eTag)⟩]
      (.ok (2, [⟨1, eTag⟩])) := by
    rw [S3Storage.flushBuffer, if_neg (by simp [hne])]
    exact .act (.done _)
  rw [S3Storage.uploadLoop]
  refine Prog.runs_bind.mpr ⟨_, _, _, rfl, hflush, ?_⟩
  refine Prog.runs_bind.mpr ⟨_, filled, [], rfl, hfill, ?_⟩
  split
  next e he => rw [hres] at he; cases he
  next buffer eof he =>
    rw [hres] at he
    cases he
    rw [S3Storage.uploadLoop, S3Storage.flushBuffer, hrest]
    exact .done _

/-- A body of one chunk that fills the first part: one part is uploaded, and
the rest is up to `finishUpload`. -/
theorem store_onePart_runs {hash : Hash} {ready ready' : Instant} {bytes : Bytes} {id : UploadId}
    {eTag : ETag} {post : List TaskEvent} {result : Except StorageError Unit}
    (hfull : multipartPartSize ≤ bytes.length)
    (hr : Prog.Runs (S3Storage.finishUpload hash id (.ok [⟨1, eTag⟩])) post result) :
    Prog.Runs (S3Storage.store hash (.chunk ready bytes (.eof ready')))
      ([⟨.read ready (.chunk bytes), ()⟩] ++
        ⟨.s3 (.createMultipartUpload hash), .ok (some id)⟩ ::
        ([⟨.s3 (.uploadPart hash id 1 bytes.length bytes), .ok (some eTag)⟩,
          ⟨.read ready' .eof, ()⟩] ++ post)) (result, .eof ready') := by
  have hne : bytes.isEmpty = false := by
    cases bytes with
    | nil => exact absurd hfull (by decide)
    | cons b bs => rfl
  obtain ⟨filled, hfill, hres, hrest⟩ := @fillPart_full_runs hash ready bytes (.eof ready') 0 hfull
  rw [S3Storage.store]
  refine Prog.runs_bind.mpr ⟨_, filled, _, rfl, hfill, ?_⟩
  simp only [hres]
  have hcreate : Prog.Runs (S3Storage.createUpload hash)
      [⟨.s3 (.createMultipartUpload hash), .ok (some id)⟩] (.ok id) := .act (.done _)
  refine Prog.runs_bind.mpr ⟨_, .ok id, _, rfl, hcreate, ?_⟩
  refine Prog.runs_bind.mpr ⟨[⟨.s3 (.uploadPart hash id 1 bytes.length bytes), .ok (some eTag)⟩,
    ⟨.read ready' .eof, ()⟩], (.ok [⟨1, eTag⟩], .eof ready'), post, rfl, ?_, ?_⟩
  · rw [hrest]
    exact uploadLoop_onePart_runs hne
  · exact Prog.runs_bind.mpr ⟨post, result, [], (List.append_nil post).symm, hr, .done _⟩

/-- 8 MiB of zeroes. -/
def fullPart : Bytes := List.replicate multipartPartSize 0

theorem fullPart_full : multipartPartSize ≤ fullPart.length :=
  Nat.le_of_eq List.length_replicate.symm

/-- One uploaded part of zeroes, and `post` from the completion on. -/
def onePartHistory (post : List TaskEvent) : List TaskEvent :=
  [⟨.read 0 (.chunk fullPart), ()⟩] ++
    ⟨.s3 (.createMultipartUpload "abc"), .ok (some 0)⟩ ::
    ([⟨.s3 (.uploadPart "abc" 0 1 fullPart.length fullPart), .ok (some "e1")⟩,
      ⟨.read 0 .eof, ()⟩] ++ post)

/-- The loud events of this history are the creation of the upload and what it ends
with. -/
theorem mem_onePartHistory_loud {b : TaskEvent} {post : List TaskEvent} {ev : TaskEvent}
    (hpost : ∀ ev ∈ post, Act.Quiet ev.1) (hev : ev ∈ onePartHistory (b :: post))
    (hloud : ¬ Act.Quiet ev.1) :
    ev = ⟨.s3 (.createMultipartUpload "abc"), .ok (some 0)⟩ ∨ ev = b := by
  refine eq_or_eq_of_loud ?_ hpost hev hloud
  simp [Act.Quiet]

/-- S3 refuses to complete the upload. -/
def refusedCompletion : SdkError := ⟨some "req-1", none, "InternalError"⟩

/-- `store` fails with an upload that is neither completed nor aborted. -/
theorem refusedCompletion_dangles :
    ∃ h, h = onePartHistory
        [⟨.s3 (.completeMultipartUpload "abc" 0 [⟨1, "e1"⟩]), .error refusedCompletion⟩,
          ⟨.log (.s3Error "multipart-complete" "abc" refusedCompletion), ()⟩] ∧
      Prog.Runs (S3Storage.store "abc" (.chunk 0 fullPart (.eof 0))) h
        (.error .operationFailed, .eof 0) ∧
      Created "abc" 0 h ∧ ¬ Completed "abc" 0 h ∧ ¬ AbortIssued "abc" 0 h := by
  have hfinish : Prog.Runs (S3Storage.finishUpload "abc" 0 (.ok [⟨1, "e1"⟩]))
      [⟨.s3 (.completeMultipartUpload "abc" 0 [⟨1, "e1"⟩]), .error refusedCompletion⟩,
        ⟨.log (.s3Error "multipart-complete" "abc" refusedCompletion), ()⟩]
      (.error .operationFailed) := .act (.act (.done _))
  refine ⟨_, rfl, store_onePart_runs fullPart_full hfinish, ?_, ?_, ?_⟩
  · simp [Created, onePartHistory]
  · intro hc
    obtain ⟨parts, hc⟩ := hc
    rcases mem_onePartHistory_loud (by simp [Act.Quiet]) hc not_false with heq | heq <;> cases heq
  · intro hc
    obtain ⟨r, hc⟩ := hc
    rcases mem_onePartHistory_loud (by simp [Act.Quiet]) hc not_false with heq | heq <;> cases heq

/-- With the completion answered, the same body leaves nothing behind. -/
theorem answeredCompletion_noDangling :
    NoDangling "abc" (.ok ())
      (onePartHistory [⟨.s3 (.completeMultipartUpload "abc" 0 [⟨1, "e1"⟩]), .ok ()⟩]) := by
  have hfinish : Prog.Runs (S3Storage.finishUpload "abc" 0 (.ok [⟨1, "e1"⟩]))
      [⟨.s3 (.completeMultipartUpload "abc" 0 [⟨1, "e1"⟩]), .ok ()⟩] (.ok ()) := .act (.done _)
  have hrun : Prog.Runs (S3Storage.store "abc" (.chunk 0 fullPart (.eof 0))) _
      (.ok (), .eof 0) := store_onePart_runs fullPart_full hfinish
  refine (noDangling_iff_completesSucceed hrun).mpr ?_
  intro hash id parts err hc
  rcases mem_onePartHistory_loud (by simp) hc not_false with heq | heq <;> cases heq

end NxCacheServer.Infra
