import Mathlib.Logic.Function.Basic
import NxCacheServer.Infra.Client

/-!
# The bucket

What S3 keeps and what a request does to it. Every request takes effect at one
instant: `PutObject` and `CompleteMultipartUpload` replace the object at once,
the latter by the listed parts of its upload, and every
`CreateMultipartUpload` gets an id of its own. `apply` is the effect of a
request, `reply` its answer; a request that fails has an effect or not, which
is for `NxCacheServer.System.World` to say.

The rules are those of the documentation of S3, as far as the code can tell them
apart:
- reads and writes of an object are atomic and strongly consistent;
- a part that is sent again replaces the former one of its number, and a part whose
  length is not the announced one is refused;
- a completion needs an upload that is open under its key, at least one part, and
  every listed part with its ETag; it makes the object of the listed parts in the
  order of the list, and closes the upload;
- an id is never given twice, so a request for an upload that has ended is refused.

Sizes of parts and their number are not checked: requests that would be refused for
them fail by `Fate.fail` instead, as any request may.
-/

namespace NxCacheServer.System

open NxCacheServer.Domain NxCacheServer.Infra

/-- An open multipart upload: its key, and the parts received so far, a part
that is sent again replacing the former one. -/
structure Upload where
  key : Hash
  parts : Nat → Option (ETag × Bytes)

/-- What S3 keeps: the objects, the open uploads with their parts, and the next
upload id. Ids are never given twice. -/
structure Bucket where
  objects : Hash → Option Bytes
  uploads : UploadId → Option Upload
  nextId : UploadId

/-- The bytes of a listed part, if it is there with the listed ETag. -/
def Upload.listed (upload : Upload) (part : CompletedPart) : Option Bytes :=
  match upload.parts part.partNumber with
  | some (eTag, bytes) => if eTag = part.eTag then some bytes else none
  | none => none

/-- A part that is sent takes the place of the former one of its number. -/
def Upload.addPart (upload : Upload) (partNumber : Nat) (eTag : ETag) (bytes : Bytes) : Upload :=
  { upload with parts := Function.update upload.parts partNumber (some (eTag, bytes)) }

namespace Bucket

variable (bucket : Bucket)

/-- The open upload `id` of `key`. -/
def openUpload (key : Hash) (id : UploadId) : Option Upload :=
  (bucket.uploads id).filter fun upload => upload.key = key

/-- The object that completing an upload with `parts` makes. -/
def assemble (key : Hash) (id : UploadId) (parts : List CompletedPart) : Option Bytes :=
  match bucket.openUpload key id with
  | some upload =>
    if parts.isEmpty then none else (parts.mapM upload.listed).map List.flatten
  | none => none

/-- Replace, make or delete the object of a key. -/
def setObject (key : Hash) (value : Option Bytes) : Bucket :=
  { bucket with objects := Function.update bucket.objects key value }

/-- Open, change or end an upload. -/
def setUpload (id : UploadId) (upload : Option Upload) : Bucket :=
  { bucket with uploads := Function.update bucket.uploads id upload }

/-- The effect of a request; `eTagOf` is how S3 computes the ETag of a part. -/
def apply (eTagOf : Bytes → ETag) : S3Call → Bucket
  | .headObject _ => bucket
  | .getObject _ => bucket
  | .putObject key body => bucket.setObject key (some body)
  | .createMultipartUpload key =>
    { bucket.setUpload bucket.nextId (some ⟨key, fun _ => none⟩) with
      nextId := bucket.nextId + 1 }
  | .uploadPart key id partNumber contentLength body =>
    match bucket.openUpload key id with
    | some upload =>
      if contentLength = body.length then
        bucket.setUpload id (some (upload.addPart partNumber (eTagOf body) body))
      else bucket
    | none => bucket
  | .completeMultipartUpload key id parts =>
    match bucket.assemble key id parts with
    | some bytes => (bucket.setObject key (some bytes)).setUpload id none
    | none => bucket
  | .abortMultipartUpload key id =>
    match bucket.openUpload key id with
    | some _ => bucket.setUpload id none
    | none => bucket

/-- The open upload `id` of `key` holds all of `parts`, with these ETags. -/
def HasParts (key : Hash) (id : UploadId) (parts : List CompletedPart) : Prop :=
  ∃ upload, bucket.openUpload key id = some upload ∧
    ∀ part ∈ parts, (upload.listed part).isSome = true

/-- What S3 answers to a request on an upload that is not there, or that it
cannot complete as listed. -/
def refusal (code : String) : SdkError := ⟨none, none, code⟩

/-- The answer to a request that S3 serves. -/
def reply (eTagOf : Bytes → ETag) : (call : S3Call) → call.Reply
  | .headObject key =>
    if (bucket.objects key).isSome then Except.ok () else Except.error HeadError.notFound
  | .getObject key =>
    match bucket.objects key with
    | some bytes => Except.ok (ObjectBody.mk bytes none)
    | none => Except.error GetError.noSuchKey
  | .putObject _ _ => Except.ok ()
  | .createMultipartUpload _ => Except.ok (some bucket.nextId)
  | .uploadPart key id _ contentLength body =>
    match bucket.openUpload key id with
    | some _ =>
      if contentLength = body.length then Except.ok (some (eTagOf body))
      else Except.error (refusal "IncompleteBody")
    | none => Except.error (refusal "NoSuchUpload")
  | .completeMultipartUpload key id parts =>
    match bucket.assemble key id parts with
    | some _ => Except.ok ()
    | none => Except.error (refusal "InvalidPart")
  | .abortMultipartUpload key id =>
    match bucket.openUpload key id with
    | some _ => Except.ok ()
    | none => Except.error (refusal "NoSuchUpload")

section

variable {bucket : Bucket} {eTagOf : Bytes → ETag} {call : S3Call} {key : Hash} {id : UploadId}
  {upload : Upload} {bytes : Bytes} {parts : List CompletedPart}

/-- A `HeadObject` says whether the object is there. -/
theorem reply_headObject (bucket : Bucket) (eTagOf : Bytes → ETag) (key : Hash) :
    (bucket.objects key).isSome = true ∧ bucket.reply eTagOf (.headObject key) = Except.ok () ∨
      bucket.objects key = none ∧
        bucket.reply eTagOf (.headObject key) = Except.error HeadError.notFound := by
  have hreply : bucket.reply eTagOf (.headObject key) =
      if (bucket.objects key).isSome then (Except.ok () : Except HeadError Unit)
      else Except.error HeadError.notFound := rfl
  rw [hreply]
  cases bucket.objects key with
  | none => exact Or.inr ⟨rfl, rfl⟩
  | some bytes => exact Or.inl ⟨rfl, rfl⟩

/-- A `GetObject` hands over the whole object, or says that there is none. -/
theorem reply_getObject (bucket : Bucket) (eTagOf : Bytes → ETag) (key : Hash) :
    (∃ bytes, bucket.objects key = some bytes ∧
      bucket.reply eTagOf (.getObject key) = Except.ok (ObjectBody.mk bytes none)) ∨
    bucket.objects key = none ∧
      bucket.reply eTagOf (.getObject key) = Except.error GetError.noSuchKey := by
  have hreply : bucket.reply eTagOf (.getObject key) =
      match bucket.objects key with
      | some bytes => (Except.ok (ObjectBody.mk bytes none) : Except GetError ObjectBody)
      | none => Except.error GetError.noSuchKey := rfl
  rw [hreply]
  cases bucket.objects key with
  | none => exact Or.inr ⟨rfl, rfl⟩
  | some bytes => exact Or.inl ⟨bytes, rfl, rfl⟩

/-- A completion is answered if the listed parts are there. -/
theorem reply_complete (h : bucket.assemble key id parts = some bytes) :
    bucket.reply eTagOf (.completeMultipartUpload key id parts) = Except.ok () := by
  simp only [reply, h]
  rfl

theorem reply_refused (h : bucket.assemble key id parts = none) :
    bucket.reply eTagOf (.completeMultipartUpload key id parts) =
      Except.error (refusal "InvalidPart") := by
  simp only [reply, h]
  rfl

/-! ## What a request leaves behind -/

/-- An upload is found under its id and its key. -/
theorem openUpload_eq_some :
    bucket.openUpload key id = some upload ↔ bucket.uploads id = some upload ∧ upload.key = key := by
  rw [openUpload, Option.filter_eq_some_iff, decide_eq_true_eq]

/-- The object that is assembled is made of the listed parts, and there is at least
one. -/
theorem assemble_eq_some (h : bucket.assemble key id parts = some bytes) :
    ∃ upload pieces, bucket.uploads id = some upload ∧ upload.key = key ∧ parts ≠ [] ∧
      parts.mapM upload.listed = some pieces ∧ bytes = pieces.flatten := by
  unfold assemble at h
  split at h
  next upload hopen =>
    obtain ⟨hid, hkey⟩ := openUpload_eq_some.mp hopen
    split at h
    next => cases h
    next hne =>
      obtain ⟨pieces, hpieces, hbytes⟩ := Option.map_eq_some_iff.mp h
      refine ⟨upload, pieces, hid, hkey, ?_, hpieces, hbytes.symm⟩
      intro hnil
      rw [hnil] at hne
      exact hne rfl
  next => cases h

/-- A listed part is there with the ETag it is listed with. -/
theorem Upload.listed_eq_some {part : CompletedPart} (h : upload.listed part = some bytes) :
    upload.parts part.partNumber = some (part.eTag, bytes) := by
  unfold Upload.listed at h
  split at h
  next eTag bytes' hpart =>
    split at h
    next htag =>
      cases h
      rw [hpart, htag]
    next => cases h
  next => cases h

/-- An object after a request was there before, or is what the request made. -/
theorem objects_apply (h : (bucket.apply eTagOf call).objects key = some bytes) :
    bucket.objects key = some bytes ∨ call = .putObject key bytes ∨
      ∃ id parts, call = .completeMultipartUpload key id parts ∧
        bucket.assemble key id parts = some bytes := by
  cases call with
  | headObject key' => exact Or.inl h
  | getObject key' => exact Or.inl h
  | putObject key' body =>
    simp only [apply, setObject, Function.update_apply] at h
    split at h
    -- the object at `key` is the one that is put
    next hk =>
      injection h with h
      exact Or.inr (Or.inl (by rw [hk, h]))
    next => exact Or.inl h
  | createMultipartUpload key' => exact Or.inl h
  | uploadPart key' id partNumber contentLength body =>
    simp only [apply] at h
    split at h
    next => split at h <;> exact Or.inl h
    next => exact Or.inl h
  | completeMultipartUpload key' id parts =>
    simp only [apply] at h
    split at h
    next bytes' hbytes =>
      simp only [setUpload, setObject, Function.update_apply] at h
      split at h
      next hk =>
        injection h with h
        rw [hk]
        exact Or.inr (Or.inr ⟨id, parts, rfl, by rw [hbytes, h]⟩)
      next => exact Or.inl h
    next => exact Or.inl h
  | abortMultipartUpload key' id =>
    simp only [apply] at h
    split at h <;> exact Or.inl h

/-- An upload after a request was there before, or was opened by the request,
or got a part by it. -/
theorem uploads_apply (h : (bucket.apply eTagOf call).uploads id = some upload) :
    bucket.uploads id = some upload ∨
    (∃ key, call = .createMultipartUpload key ∧ id = bucket.nextId ∧
      upload = ⟨key, fun _ => none⟩) ∨
    ∃ key partNumber contentLength body before,
      call = .uploadPart key id partNumber contentLength body ∧
      bucket.openUpload key id = some before ∧
      upload = before.addPart partNumber (eTagOf body) body := by
  cases call with
  | headObject key => exact Or.inl h
  | getObject key => exact Or.inl h
  | putObject key body => exact Or.inl h
  | createMultipartUpload key =>
    simp only [apply, setUpload, Function.update_apply] at h
    split at h
    next hid =>
      injection h with h
      exact Or.inr (Or.inl ⟨key, rfl, hid, h.symm⟩)
    next => exact Or.inl h
  | uploadPart key id' partNumber contentLength body =>
    simp only [apply] at h
    split at h
    -- a part is only taken by an open upload, and whole
    next before hopen =>
      split at h
      next =>
        simp only [setUpload, Function.update_apply] at h
        split at h
        next hid =>
          injection h with h
          rw [hid]
          exact Or.inr (Or.inr ⟨key, partNumber, contentLength, body, before, rfl, hopen,
            h.symm⟩)
        next => exact Or.inl h
      next => exact Or.inl h
    next => exact Or.inl h
  -- completed or aborted, an upload is closed
  | completeMultipartUpload key id' parts =>
    simp only [apply] at h
    split at h
    next =>
      simp only [setUpload, Function.update_apply] at h
      split at h
      next => cases h
      next => exact Or.inl h
    next => exact Or.inl h
  | abortMultipartUpload key id' =>
    simp only [apply] at h
    split at h
    next =>
      simp only [setUpload, Function.update_apply] at h
      split at h
      next => cases h
      next => exact Or.inl h
    next => exact Or.inl h

theorem nextId_apply : bucket.nextId ≤ (bucket.apply eTagOf call).nextId := by
  cases call with
  | createMultipartUpload key => exact Nat.le_succ _
  | uploadPart key id partNumber contentLength body =>
    simp only [apply]
    split
    next => split <;> exact Nat.le_refl _
    next => exact Nat.le_refl _
  | completeMultipartUpload key id parts =>
    simp only [apply]
    split <;> exact Nat.le_refl _
  | abortMultipartUpload key id =>
    simp only [apply]
    split <;> exact Nat.le_refl _
  | _ => exact Nat.le_refl _

/-- No request takes an object away. -/
theorem isSome_objects_apply (h : (bucket.objects key).isSome = true) :
    ((bucket.apply eTagOf call).objects key).isSome = true := by
  have hset : ∀ {bucket : Bucket} {key' : Hash} {body : Bytes},
      (bucket.objects key).isSome = true →
        ((bucket.setObject key' (some body)).objects key).isSome = true := by
    intro bucket key' body h
    simp only [setObject, Function.update_apply]
    split
    next => rfl
    next => exact h
  cases call with
  | putObject key' body => exact hset h
  | uploadPart key' id partNumber contentLength body =>
    simp only [apply]
    split
    next => split <;> exact h
    next => exact h
  | completeMultipartUpload key' id parts =>
    simp only [apply]
    split
    next => exact hset h
    next => exact h
  | abortMultipartUpload key' id =>
    simp only [apply]
    split <;> exact h
  | _ => exact h

/-- A request leaves an object alone, or replaces it. -/
theorem objects_apply_cases :
    (bucket.apply eTagOf call).objects key = bucket.objects key ∨
    ∃ bytes, (bucket.apply eTagOf call).objects key = some bytes ∧
      (call = .putObject key bytes ∨ ∃ id parts, call = .completeMultipartUpload key id parts ∧
        bucket.assemble key id parts = some bytes) := by
  -- by the object after the request: none means that there was none before
  cases hafter : (bucket.apply eTagOf call).objects key with
  | none =>
    cases hbefore : bucket.objects key with
    | none => exact Or.inl rfl
    | some bytes =>
      have hkept : ((bucket.apply eTagOf call).objects key).isSome = true :=
        isSome_objects_apply (by rw [hbefore]; rfl)
      rw [hafter] at hkept
      cases hkept
  | some bytes =>
    rcases objects_apply hafter with hsame | hput
    · exact Or.inl hsame.symm
    · exact Or.inr ⟨bytes, rfl, hput⟩

/-- A request is about the object of its own key. -/
theorem objects_apply_of_ne (hkey : call.key ≠ key) :
    (bucket.apply eTagOf call).objects key = bucket.objects key := by
  rcases @objects_apply_cases bucket eTagOf call key with hsame |
    ⟨bytes, -, rfl | ⟨id, parts, rfl, -⟩⟩
  · exact hsame
  · exact absurd rfl hkey
  · exact absurd rfl hkey

/-! ## Uploads that are complete -/

/-- A request about upload `id`. -/
def Concerns (id : UploadId) : S3Call → Prop
  | .uploadPart _ id' _ _ _ => id' = id
  | .completeMultipartUpload _ id' _ => id' = id
  | .abortMultipartUpload _ id' => id' = id
  | _ => False

theorem uploads_apply_of_ne (hid : id ≠ bucket.nextId) (hcall : ¬ Concerns id call) :
    (bucket.apply eTagOf call).uploads id = bucket.uploads id := by
  have hset : ∀ {bucket : Bucket} {id' : UploadId} {upload : Option Upload}, id' ≠ id →
      (bucket.setUpload id' upload).uploads id = bucket.uploads id := by
    intro bucket id' upload hne
    exact Function.update_of_ne hne.symm ..
  cases call with
  | createMultipartUpload key => exact hset hid.symm
  | uploadPart key id' partNumber contentLength body =>
    simp only [apply]
    split
    next => split <;> first | exact hset hcall | rfl
    next => rfl
  | completeMultipartUpload key id' parts =>
    simp only [apply]
    split
    next => exact hset hcall
    next => rfl
  | abortMultipartUpload key id' =>
    simp only [apply]
    split
    next => exact hset hcall
    next => rfl
  | _ => rfl

/-- The parts of an upload are there as long as nothing happens to it. -/
theorem hasParts_congr {bucket' : Bucket} (h : bucket'.uploads id = bucket.uploads id)
    (hp : bucket.HasParts key id parts) : bucket'.HasParts key id parts := by
  obtain ⟨upload, hopen, hparts⟩ := hp
  refine ⟨upload, ?_, hparts⟩
  rw [openUpload] at hopen ⊢
  rw [h, hopen]

/-- With a list of parts all its beginnings are there. -/
theorem HasParts.left {more : List CompletedPart} (hp : bucket.HasParts key id (parts ++ more)) :
    bucket.HasParts key id parts := by
  obtain ⟨upload, hopen, hparts⟩ := hp
  exact ⟨upload, hopen, fun part hpart => hparts part (List.mem_append_left _ hpart)⟩

theorem hasParts_create :
    (bucket.apply eTagOf (.createMultipartUpload key)).HasParts key bucket.nextId [] := by
  refine ⟨⟨key, fun _ => none⟩, ?_, by simp⟩
  rw [openUpload_eq_some]
  exact ⟨Function.update_self .., rfl⟩

/-- A part under a new number joins the others. -/
theorem HasParts.uploadPart (hp : bucket.HasParts key id parts) {n : Nat} {body : Bytes}
    (hn : n ∉ parts.map CompletedPart.partNumber) :
    bucket.reply eTagOf (.uploadPart key id n body.length body) =
        Except.ok (some (eTagOf body)) ∧
      (bucket.apply eTagOf (.uploadPart key id n body.length body)).HasParts key id
        (parts ++ [⟨n, eTagOf body⟩]) := by
  obtain ⟨upload, hopen, hparts⟩ := hp
  refine ⟨by simp only [reply, hopen]; rfl, upload.addPart n (eTagOf body) body, ?_, ?_⟩
  · rw [openUpload_eq_some]
    refine ⟨?_, (openUpload_eq_some.mp hopen).2⟩
    simp only [apply, hopen, if_pos, setUpload, Function.update_self]
  · intro part hpart
    rcases List.mem_append.mp hpart with hold | hnew
    -- an older part has another number, and is not overwritten
    · have hne : part.partNumber ≠ n := by
        intro heq
        exact hn (heq ▸ List.mem_map_of_mem hold)
      have hsame := hparts part hold
      unfold Upload.listed at hsame ⊢
      rw [show (upload.addPart n (eTagOf body) body).parts part.partNumber =
        upload.parts part.partNumber from Function.update_of_ne hne ..]
      exact hsame
    · rw [List.mem_singleton.mp hnew]
      simp [Upload.listed, Upload.addPart]

/-- Completing an upload with parts it holds succeeds. -/
theorem HasParts.assemble (hp : bucket.HasParts key id parts) (hne : parts ≠ []) :
    ∃ bytes, bucket.assemble key id parts = some bytes := by
  obtain ⟨upload, hopen, hparts⟩ := hp
  have hpieces : ∃ pieces, parts.mapM upload.listed = some pieces := by
    clear hne
    induction parts with
    | nil => exact ⟨[], rfl⟩
    | cons part parts ih =>
      obtain ⟨piece, hpiece⟩ := Option.isSome_iff_exists.mp (hparts part (List.mem_cons_self ..))
      obtain ⟨pieces, hpieces⟩ := ih fun p hp => hparts p (List.mem_cons_of_mem _ hp)
      exact ⟨piece :: pieces, by simp [List.mapM_cons, hpiece, hpieces]⟩
  obtain ⟨pieces, hpieces⟩ := hpieces
  refine ⟨pieces.flatten, ?_⟩
  simp [Bucket.assemble, hopen, hne, hpieces]

end

end Bucket

end NxCacheServer.System
