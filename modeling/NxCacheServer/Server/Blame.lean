import NxCacheServer.Server.Answers
import NxCacheServer.Infra.Parts

/-!
# Blame

A failed upload is the client's fault or S3's, whichever failed first: `store`
reads and calls in turn, and gives up at the first failure (`store_firstBlame`).
The status tells the two apart (`blame_first_failure`).

Losing the client and losing S3 may both happen to one upload, and the abort may fail
on top of it. What decides is the first of them in the history, which is why the
ghost state of `blaming` keeps the first blame and nothing after it. A failed look is
nobody's fault: the handler stores in any case.
-/

namespace NxCacheServer.Server

open NxCacheServer.Domain NxCacheServer.Infra NxCacheServer.Lib

/-- The error an event of `store` amounts to, if it is a failure: a read error
of the body, a failed call, or a reply without upload id or ETag. -/
def blame : TaskEvent → Option StorageError
  | ⟨.read _ .reset, _⟩ => some .clientAbort
  | ⟨.s3 (.putObject _ _), Except.error _⟩ => some .operationFailed
  | ⟨.s3 (.createMultipartUpload _), Except.ok (some _)⟩ => none
  | ⟨.s3 (.createMultipartUpload _), _⟩ => some .operationFailed
  | ⟨.s3 (.uploadPart _ _ _ _ _), Except.ok (some _)⟩ => none
  | ⟨.s3 (.uploadPart _ _ _ _ _), _⟩ => some .operationFailed
  | ⟨.s3 (.completeMultipartUpload _ _ _), Except.error _⟩ => some .operationFailed
  | ⟨.s3 (.abortMultipartUpload _ _), Except.error _⟩ => some .operationFailed
  | _ => none

/-- The first failure along `h`. -/
def firstBlame (h : List TaskEvent) : Option StorageError := h.findSome? blame

/-- The calls that bring an object about. -/
def Act.Stores : Act → Prop
  | .s3 (.putObject _ _) => True
  | .s3 (.createMultipartUpload _) => True
  | .s3 (.uploadPart _ _ _ _ _) => True
  | .s3 (.completeMultipartUpload _ _ _) => True
  | _ => False

/-- The cleanup call. -/
def Act.Aborts : Act → Prop
  | .s3 (.abortMultipartUpload _ _) => True
  | _ => False

/-- The existence check. -/
def Act.Looks : Act → Prop
  | .s3 (.headObject _) => True
  | _ => False

/-- What a result blames. -/
def errorOf {α : Type} : Except StorageError α → Option StorageError
  | .ok _ => none
  | .error e => some e

/-- The contract that remembers the first failure: no call stores anything
after it, and only an upload that has failed is aborted. `store` does not look
whether the object is there. -/
def blaming : Prog.Contract Act Act.Resp (Option StorageError) where
  allow g e := (Act.Stores e → g = none) ∧ (Act.Aborts e → g ≠ none) ∧ ¬ Act.Looks e
  promise _ _ _ := True
  update g e r := g.or (blame ⟨e, r⟩)

theorem blaming_unpromising : blaming.Unpromising := fun _ _ _ => trivial

/-- The ghost state is the first blame of the history. -/
theorem after_blaming (h : List TaskEvent) : ∀ g, blaming.after g h = g.or (firstBlame h) := by
  unfold firstBlame
  induction h with
  | nil =>
    intro g
    simp
  | cons ev h ih =>
    intro g
    rw [Prog.Contract.after_cons, ih, List.findSome?_cons]
    cases hb : blame ev <;> cases g <;> simp [blaming, hb]

/-! ## `store` -/

section

variable {hash : Hash} {id : UploadId} {body : Body}

/-- A part fails if the body breaks off, and the client is to blame. -/
theorem fillPart_blames (data : Body) (n : Nat) :
    (fillPart data multipartPartSize hash n).wp blaming (fun f g => g = errorOf f.result) none := by
  refine Prog.wp_mono (fillLoop_rule (fun g => g = none) (fun g => g = none)
    (fun g => g = some .clientAbort) ?_ ?_ ?_ data n [] none (by decide) rfl) ?_
  · rintro g ready bytes rfl
    exact ⟨by simp [blaming, Act.Stores, Act.Aborts, Act.Looks], fun _ => rfl⟩
  · rintro g ready rfl
    exact ⟨by simp [blaming, Act.Stores, Act.Aborts, Act.Looks], fun _ => rfl⟩
  · rintro g ready n rfl
    refine ⟨by simp [blaming, Act.Stores, Act.Aborts, Act.Looks], fun _ _ => ?_⟩
    exact ⟨by simp [blaming, Act.Stores, Act.Aborts, Act.Looks], fun _ _ => rfl⟩
  · intro filled g hfilled
    obtain ⟨hends, hfills⟩ := hfilled
    unfold Filled.Ends at hends
    unfold Fills at hfills
    split at hends
    next e hres =>
      rw [hres] at hfills
      rw [hends, hres, hfills.1]
      rfl
    next hres =>
      rw [hends, hres]
      rfl
    next hres =>
      rw [hends, hres]
      rfl

theorem putWhole_blames {buffer : Bytes} :
    (S3Storage.putWhole hash buffer).wp blaming (fun r g => g = errorOf r) none := by
  rw [S3Storage.putWhole, Async.s3_bind]
  refine ⟨by simp [blaming, Act.Aborts, Act.Looks], fun r _ => ?_⟩
  rcases r with e | u
  · exact ⟨by simp [blaming, Act.Stores, Act.Aborts, Act.Looks], fun _ _ => rfl⟩
  · exact rfl

theorem createUpload_blames :
    (S3Storage.createUpload hash).wp blaming (fun r g => g = errorOf r) none := by
  rw [S3Storage.createUpload, Async.s3_bind]
  refine ⟨by simp [blaming, Act.Aborts, Act.Looks], fun r _ => ?_⟩
  rcases r with e | _ | id
  · exact ⟨by simp [blaming, Act.Stores, Act.Aborts, Act.Looks], fun _ _ => rfl⟩
  · exact ⟨by simp [blaming, Act.Stores, Act.Aborts, Act.Looks], fun _ _ => rfl⟩
  · exact rfl

/-- A part fails for S3, and also for want of an ETag. -/
theorem sendPart_blames {n : Nat} {buffer : Bytes} :
    (S3Storage.sendPart hash id n buffer).wp blaming (fun r g => g = errorOf r) none := by
  rw [S3Storage.sendPart, Async.s3_bind]
  refine ⟨by simp [blaming, Act.Aborts, Act.Looks], fun r _ => ?_⟩
  rcases r with e | _ | eTag
  · exact ⟨by simp [blaming, Act.Stores, Act.Aborts, Act.Looks], fun _ _ => rfl⟩
  · exact ⟨by simp [blaming, Act.Stores, Act.Aborts, Act.Looks], fun _ _ => rfl⟩
  · exact rfl

theorem flushBuffer_blames {buffer : Bytes} {n : Nat} {parts : List CompletedPart} :
    (S3Storage.flushBuffer hash id buffer n parts).wp blaming (fun r g => g = errorOf r) none := by
  unfold S3Storage.flushBuffer
  split
  · exact rfl
  · refine Prog.wp_bind_of sendPart_blames ?_
    intro sent g hg
    cases sent <;> exact hg

/-- The loop stops at its first failure, so its error is the first one. -/
theorem uploadLoop_blames {buffer : Bytes} {eof : Bool} {data : Body} {n k : Nat}
    {parts : List CompletedPart} :
    (S3Storage.uploadLoop hash id buffer eof data n k parts).wp blaming
      (fun r g => g = errorOf r.1) none := by
  -- nothing has failed between two iterations: the first failure ends the loop
  refine S3Storage.uploadLoop_rule hash id (fun _ _ _ _ _ _ g => g = none) ?_ _ _ _ _ _ _ none rfl
  intro buffer eof data n k parts g hg
  rw [hg]
  refine Prog.wp_mono flushBuffer_blames ?_
  intro sent g' hsent
  rcases sent with e | ⟨k', parts'⟩
  · exact hsent
  · dsimp only
    rw [show g' = none from hsent]
    split
    · exact rfl
    · refine Prog.wp_mono (fillPart_blames data n) ?_
      intro filled g'' hfilled
      split
      next e hres => rw [hfilled, hres]; rfl
      next buffer' eof' hres => rw [hfilled, hres]; rfl

/-- The abort comes after the failure and does not change what is blamed. -/
theorem finishUpload_blames {result : Except StorageError (List CompletedPart)} :
    (S3Storage.finishUpload hash id result).wp blaming (fun r g => g = errorOf r)
      (errorOf result) := by
  cases result with
  | error err =>
    rw [S3Storage.finishUpload, Async.s3_bind]
    refine ⟨by simp [blaming, Act.Stores, Act.Looks, errorOf], fun r _ => ?_⟩
    rcases r with e | u
    · exact ⟨by simp [blaming, Act.Stores, Act.Aborts, Act.Looks], fun _ _ => rfl⟩
    · exact rfl
  | ok parts =>
    rw [S3Storage.finishUpload, Async.s3_bind]
    refine ⟨by simp [blaming, Act.Aborts, Act.Looks, errorOf], fun r _ => ?_⟩
    rcases r with e | u
    · exact ⟨by simp [blaming, Act.Stores, Act.Aborts, Act.Looks], fun _ _ => rfl⟩
    · exact rfl

/-- `store` returns its first failure, and it is what happened first: the cleanup
comes after it and is not asked. -/
theorem store_wp_blaming :
    (S3Storage.store hash body).wp blaming (fun r g => g = errorOf r.1) none := by
  rw [S3Storage.store]
  refine Prog.wp_bind_of (fillPart_blames body 0) ?_
  intro filled g hg
  rw [hg]
  split
  next e hres => rw [hres]; rfl
  next buffer hres =>
    rw [hres]
    exact Prog.wp_bind_of putWhole_blames fun _ _ h => h
  next buffer hres =>
    rw [hres]
    refine Prog.wp_bind_of createUpload_blames ?_
    intro created g' hcreated
    cases created with
    | error e => exact hcreated
    | ok id =>
      rw [show g' = none from hcreated]
      refine Prog.wp_bind_of uploadLoop_blames ?_
      intro looped g'' hlooped
      rw [hlooped]
      exact Prog.wp_bind_of finishUpload_blames fun _ _ h => h

/-- `store` returns what failed first. -/
theorem store_firstBlame {h : List TaskEvent} {result : Except StorageError Unit} {rest : Body}
    (hrun : Prog.Runs (S3Storage.store hash body) h (result, rest)) :
    firstBlame h = errorOf result := by
  have hpost := Prog.wp_runs hrun store_wp_blaming (blaming_unpromising.kept h none)
  rw [after_blaming] at hpost
  exact hpost

/-- What comes first is in the first part, if it is there at all. -/
theorem firstBlame_append (h h' : List TaskEvent) :
    firstBlame (h ++ h') = (firstBlame h).or (firstBlame h') := List.findSome?_append

theorem blame_cases {ev : TaskEvent} {e : StorageError} (h : blame ev = some e) :
    e = .clientAbort ∨ e = .operationFailed := by
  unfold blame at h
  split at h <;> cases h <;> decide

theorem firstBlame_cases {h : List TaskEvent} {e : StorageError} (hb : firstBlame h = some e) :
    e = .clientAbort ∨ e = .operationFailed := by
  obtain ⟨ev, -, hev⟩ := List.exists_of_findSome?_eq_some hb
  exact blame_cases hev

/-- Nothing is stored after a failure, and nothing is aborted before one. -/
theorem store_allowed {h pre post : List TaskEvent} {ev : TaskEvent}
    {out : Except StorageError Unit × Body} (hrun : Prog.Runs (S3Storage.store hash body) h out)
    (heq : h = pre ++ ev :: post) :
    (Act.Stores ev.1 → firstBlame pre = none) ∧ (Act.Aborts ev.1 → firstBlame pre ≠ none) ∧
      ¬ Act.Looks ev.1 := by
  have hallowed := Prog.wp_runs_allowed hrun blaming_unpromising store_wp_blaming heq
  rw [after_blaming] at hallowed
  exact hallowed

end

/-! ## `store_artifact` -/

section

variable {hash : Hash} {body : Body} {h : List TaskEvent}

/-- The object was there before. -/
def Existed (hash : Hash) (h : List TaskEvent) : Prop :=
  (⟨.s3 (.headObject hash), Except.ok ()⟩ : TaskEvent) ∈ h

/-- The existence check blames nobody: a failed one counts as absent. -/
theorem existsKey_runs {found : Except StorageError Bool}
    (hrun : Prog.Runs (S3Storage.existsKey hash) h found) :
    firstBlame h = none ∧ (Existed hash h ↔ found = .ok true) := by
  rw [S3Storage.existsKey, Async.s3_bind, Prog.runs_act] at hrun
  obtain ⟨r, h', rfl, hrun⟩ := hrun
  rcases r with (_ | e) | u
  · obtain ⟨rfl, rfl⟩ := Prog.runs_done.mp hrun
    refine ⟨rfl, iff_of_false (fun hmem => ?_) (by simp)⟩
    cases List.mem_singleton.mp hmem
  · obtain ⟨_, h'', rfl, hend⟩ := Prog.runs_act.mp hrun
    obtain ⟨rfl, rfl⟩ := Prog.runs_done.mp hend
    refine ⟨rfl, iff_of_false (fun hmem => ?_) (by simp)⟩
    rcases List.mem_cons.mp hmem with hev | hmem
    · cases hev
    · cases List.mem_singleton.mp hmem
  · obtain ⟨rfl, rfl⟩ := Prog.runs_done.mp hrun
    exact ⟨rfl, iff_of_true (List.mem_cons_self ..) rfl⟩

/-- After `store` nothing is to blame any more, and nothing is looked for. -/
theorem afterStore_runs {rest : Body} {result : Except StorageError Unit}
    (hrun : Prog.Runs (afterStore hash rest result) h ()) :
    ¬ Existed hash h ∧ (errorOf result).or (firstBlame h) = errorOf result := by
  rcases result with e | u
  · refine ⟨fun hmem => ?_, rfl⟩
    have honly : Prog.Only (fun e => ¬ Act.Looks e) (afterStore hash rest (.error e)) := by
      cases e with
      | clientAbort => trivial
      | _ =>
        refine Prog.only_act.mpr ⟨not_false, fun _ => ?_⟩
        exact drainBodyWithin_only (fun _ _ => not_false) not_false _ _
    exact honly.runs hrun _ hmem trivial
  · rw [afterStore, markPresent, Async.now_bind, Prog.runs_act] at hrun
    obtain ⟨t, h', rfl, hrun⟩ := hrun
    obtain ⟨_, h'', rfl, hend⟩ := Prog.runs_act.mp hrun
    obtain ⟨rfl, -⟩ := Prog.runs_done.mp hend
    refine ⟨fun hmem => ?_, rfl⟩
    rcases List.mem_cons.mp hmem with hev | hmem
    · cases hev
    · cases List.mem_singleton.mp hmem

/-- An upload is blamed on what failed first in all of `store_artifact`. -/
theorem storeReturned_blame {result : Except StorageError Unit}
    (hs : StoreReturned s3Storage hash body h result) :
    ¬ Existed hash h ∧ firstBlame h = errorOf result := by
  obtain ⟨h₁, h₂, h₃, found, rest, rfl, hexists, hok, hstore, hafter⟩ := hs
  obtain ⟨hnone, hknown⟩ := existsKey_runs hexists
  obtain ⟨hno, hsame⟩ := afterStore_runs hafter
  refine ⟨?_, ?_⟩
  · intro hmem
    -- only the probe before the upload looks, and it has found nothing
    rcases List.mem_append.mp hmem with hmem | hmem
    · exact hok (hknown.mp hmem)
    · rcases List.mem_append.mp hmem with hmem | hmem
      · obtain ⟨pre, post, heq⟩ := List.append_of_mem hmem
        exact (store_allowed hstore heq).2.2 trivial
      · exact hno hmem
  · rw [firstBlame_append, hnone, firstBlame_append, store_firstBlame hstore, hsame]
    rfl

variable [RustChar]

/-- **Blame goes to the first failure.** `store` returns the error of what
failed first and stores nothing after it; `store_artifact` answers 400 exactly
for an upload that its client cut, and 403 exactly for one that S3 failed. -/
theorem blame_first_failure :
    (∀ h result rest, Prog.Runs (S3Storage.store hash body) h (result, rest) →
      (result = .error .clientAbort ↔ firstBlame h = some .clientAbort) ∧
      (result = .error .operationFailed ↔ firstBlame h = some .operationFailed) ∧
      (result = .ok () ↔ firstBlame h = none) ∧
      (∀ pre ev post, h = pre ++ ev :: post → Act.Stores ev.1 → firstBlame pre = none) ∧
      ∀ pre ev post, h = pre ++ ev :: post → Act.Aborts ev.1 →
        firstBlame pre ≠ none ∧ errorOf result = firstBlame pre) ∧
    (ValidHash hash → ∀ h response,
      Prog.Runs (storeArtifact s3Storage hash body >>= intoResponse) h response →
      (response.status = 400 ↔ ¬ Existed hash h ∧ firstBlame h = some .clientAbort) ∧
      (response.status = 403 ↔ ¬ Existed hash h ∧ firstBlame h = some .operationFailed)) := by
  refine ⟨?_, ?_⟩
  · intro h result rest hrun
    have hfirst := store_firstBlame hrun
    rw [hfirst]
    refine ⟨?_, ?_, ?_, fun pre ev post heq => (store_allowed hrun heq).1, ?_⟩
    · cases result <;> simp [errorOf]
    · cases result <;> simp [errorOf]
    · cases result <;> simp [errorOf]
    -- an abort has a failure before it, which stays the first
    · intro pre ev post heq haborts
      have hpre := (store_allowed hrun heq).2.1 haborts
      refine ⟨hpre, ?_⟩
      obtain ⟨e, he⟩ := Option.ne_none_iff_exists'.mp hpre
      rw [← hfirst, heq, firstBlame_append, he]
      rfl
  · intro hvalid h response hrun
    -- either the key was there, and the answer is a 409, or the upload decides
    rcases (storeArtifact_runs_iff hvalid).mp hrun with ⟨⟨h₁, h₂, h₃, rfl, hexists, -, -⟩, rfl⟩ |
      ⟨result, hstored, rfl⟩
    · have hknown : Existed hash (h₁ ++ (h₂ ++ h₃)) :=
        List.mem_append_left _ ((existsKey_runs hexists).2.mpr rfl)
      exact ⟨iff_of_false (by decide) fun h => h.1 hknown,
        iff_of_false (by decide) fun h => h.1 hknown⟩
    · obtain ⟨hno, hfirst⟩ := storeReturned_blame hstored
      rw [storeReply_status_abort, storeReply_status_declined, hfirst, and_iff_right hno,
        and_iff_right hno]
      refine ⟨?_, ?_⟩
      · cases result <;> simp [errorOf]
      · rcases result with e | u
        · rcases firstBlame_cases hfirst with rfl | rfl <;> simp [errorOf]
        · simp [errorOf]

omit [RustChar] in
/-- A body that breaks off after its first byte. -/
def brokenBody : Body := .chunk 0 [1] (.reset 1)

/-- What `store` does with it. -/
def brokenHistory : List TaskEvent :=
  [⟨.read 0 (.chunk [1]), ()⟩, ⟨.read 1 .reset, ()⟩, ⟨.log (.clientAborted "abc" 1), ()⟩]

omit [RustChar] in
/-- A body that breaks off is a 400, and the first blame is the client. -/
theorem brokenBody_blamed :
    firstBlame brokenHistory = some .clientAbort ∧ ∃ h response,
      Prog.Runs (@storeArtifact asciiChars s3Storage "abc" brokenBody >>= intoResponse) h response ∧
        response.status = 400 := by
  have hstore : Prog.Runs (S3Storage.store "abc" brokenBody) brokenHistory
      (.error .clientAbort, .reset 1) := .act (.act (.act (.done _)))
  have hput : Prog.Runs (@storeArtifact asciiChars s3Storage "abc" brokenBody >>= intoResponse)
      (⟨.s3 (.headObject "abc"), Except.error HeadError.notFound⟩ :: brokenHistory)
      (plainText 400 "Client disconnected during upload") := .act (.act (.act (.act (.done _))))
  have hblame := @blame_first_failure "abc" brokenBody asciiChars
  refine ⟨(hblame.1 _ _ _ hstore).1.mp rfl, _, _, hput, ?_⟩
  refine (hblame.2 (by decide) _ _ hput).1.mpr ⟨fun hmem => ?_, rfl⟩
  simp only [brokenHistory, Existed, List.mem_cons, List.not_mem_nil, or_false] at hmem
  rcases hmem with hev | hev | hev | hev <;> cases hev

end

end NxCacheServer.Server
