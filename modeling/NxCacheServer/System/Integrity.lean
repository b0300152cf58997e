import NxCacheServer.System.Sessions

/-!
# Artifact integrity

Whatever `GetObject` hands to a reader is the whole body of one PUT to that
key. The invariant is about everything a request has asked of S3 and may still
take effect (`pending`), however late: an object is only ever put whole, a part
only ever carries its own piece of its own body, and an upload is only ever
completed with all the pieces. So it does not matter in which order the steps
of several uploads mix, or which of them fail.

Uploads are kept apart by their ids: an id has one owner (`Intact.sole`), which is the
request that opened it or is about to be told so, and a part of an upload is a part
of its owner's body, at its place. `Sent` is what the claim calls received: the end
of the body has been read before the request that replaces the object is made.

`Harmless` is what makes the order irrelevant: whatever a request has asked of S3 does
no harm at any later time either (`Harmless.step`), be it served now, served late, or
several times. So the lemma about the objects has one case for a request that takes
effect, and does not ask why it does.
-/

namespace NxCacheServer.System

open NxCacheServer.Domain NxCacheServer.Infra NxCacheServer.Server NxCacheServer.Lib

variable [RustChar]

namespace World

variable {env : Env} {w w' : World} {r r' : ReqId} {id : UploadId} {key : Hash} {call : S3Call}
  {bytes : Bytes} {initial : Hash → Option Bytes}

/-- A request that replaces the object of `key`. -/
def Replaces (key : Hash) : S3Call → Prop
  | .putObject key' _ => key' = key
  | .completeMultipartUpload key' _ _ => key' = key
  | _ => False

/-- `q` has read its body to the end, and has then asked S3 to replace the
object of `key`. -/
def Sent (w : World) (q : ReqId) (key : Hash) : Prop :=
  ∃ later t call earlier, w.trace = later ++ ⟨t, q, .called call⟩ :: earlier ∧ Replaces key call ∧
    ∃ t' ready, ⟨t', q, .did ⟨.read ready .eof, ()⟩⟩ ∈ earlier

/-- `bytes` is the body of a PUT of `key` with the service token that was
received to its end. -/
def Received (env : Env) (w : World) (key : Hash) (bytes : Bytes) : Prop :=
  ∃ q, env.role q = .writer key ∧ (env.body q).complete = true ∧ bytes = (env.body q).bytes ∧
    w.Sent q key

/-- `r` knows upload `id`, or is about to be told. -/
def Owns (env : Env) (w : World) (r : ReqId) (id : UploadId) : Prop :=
  (w.session env r).upload = some id ∨
    ∃ key since k, w.tasks r =
      .calling (.createMultipartUpload key) since (some (Except.ok (some id))) k

/-- It does no harm if this request of `r` takes effect, now or later. -/
def Harmless (env : Env) (w : World) (r : ReqId) : S3Call → Prop
  | .putObject key bytes => env.role r = .writer key ∧ (env.body r).complete = true ∧
      bytes = (env.body r).bytes ∧ w.Sent r key
  | .uploadPart _ id partNumber _ bytes => (w.session env r).upload = some id ∧
      1 ≤ partNumber ∧ (uploadParts (env.body r))[partNumber - 1]? = some bytes
  | .completeMultipartUpload key id parts => env.role r = .writer key ∧
      (w.session env r).upload = some id ∧ (env.body r).complete = true ∧ w.Sent r key ∧
      parts.map CompletedPart.partNumber = List.range' 1 (uploadParts (env.body r)).length
  | .abortMultipartUpload _ id => (w.session env r).upload = some id
  | _ => True

/-- Nothing but whole bodies, in the bucket and on the way to and from it, apart
from what was there at the start. -/
structure Intact (env : Env) (initial : Hash → Option Bytes) (w : World) : Prop where
  tracks : Tracks env w
  harmless : ∀ {r call}, call ∈ w.pending r → Harmless env w r call
  known : ∀ {r id}, Owns env w r id → id < w.bucket.nextId
  sole : ∀ {r r' id}, Owns env w r id → Owns env w r' id → r = r'
  parts : ∀ {r id upload n eTag bytes}, Owns env w r id → w.bucket.uploads id = some upload →
    upload.parts n = some (eTag, bytes) →
    1 ≤ n ∧ (uploadParts (env.body r))[n - 1]? = some bytes
  objects : ∀ {key bytes}, w.bucket.objects key = some bytes →
    initial key = some bytes ∨ Received env w key bytes
  replies : ∀ {r key since object k}, w.tasks r =
      .calling (.getObject key) since (some (Except.ok object)) k →
    ValidHash key ∧ (initial key = some object.bytes ∨ Received env w key object.bytes)

/-! ## Sessions only learn -/

omit [RustChar] in
/-- An upload id is learnt only from the reply that carries it. -/
theorem learn_upload (g : Session) (e : Act) (resp : e.Resp) :
    (g.learn e resp).upload = g.upload ∨ ∃ key id, (g.learn e resp).upload = some id ∧
      (⟨e, resp⟩ : TaskEvent) = ⟨.s3 (.createMultipartUpload key), Except.ok (some id)⟩ := by
  unfold Session.learn
  split
  case h_5 key id => exact Or.inr ⟨key, id, rfl, rfl⟩
  all_goals exact Or.inl rfl

omit [RustChar] in
/-- An upload is opened only once. -/
theorem learn_keeps_upload {g : Session} {e : Act} {resp : e.Resp} {role : Role} {body : Body}
    (h : g.upload = some id) (ha : g.Allows role body e) : (g.learn e resp).upload = some id := by
  rcases learn_upload g e resp with heq | ⟨key, id', -, hev⟩
  · rw [heq, h]
  · cases hev
    cases role with
    | writer hash =>
      rw [ha.2.2] at h
      cases h
    | reader hash => exact absurd ha not_false
    | refused response => exact absurd ha not_false

omit [RustChar] in
/-- The end of a body is learnt by reading it. -/
theorem learn_ended {g : Session} {e : Act} {resp : e.Resp} (h : (g.learn e resp).ended = true) :
    g.ended = true ∨ ∃ ready, (⟨e, resp⟩ : TaskEvent) = ⟨.read ready .eof, ()⟩ := by
  unfold Session.learn at h
  split at h
  case h_19 ready item _ =>
    rcases Bool.or_eq_true_iff.mp h with h | h
    · exact Or.inl h
    · exact Or.inr ⟨ready, by rw [of_decide_eq_true h]⟩
  all_goals exact Or.inl h

/-- A body whose end is known has been read to the end. -/
theorem ended_origin {r : ReqId} (hended : (w.session env r).ended = true) :
    ∃ t ready, ⟨t, r, .did ⟨.read ready .eof, ()⟩⟩ ∈ w.trace := by
  rcases Prog.Contract.after_origin (P := fun g : Session => g.ended = true)
    (fun g ev hev => learn_ended hev) hended with hstart | ⟨ev, hmem, ready, hev⟩
  · cases hstart
  · obtain ⟨t, hmem⟩ := mem_hist.mp hmem
    exact ⟨t, ready, hev ▸ hmem⟩

theorem Sent.step {l : Label} {q : ReqId} (h : w.step env l = some w') (hs : w.Sent q key) :
    w'.Sent q key := by
  obtain ⟨later, t, call, earlier, htrace, hrest⟩ := hs
  obtain ⟨new, hnew⟩ := trace_grows h
  exact ⟨new ++ later, t, call, earlier, by rw [hnew, htrace, List.append_assoc], hrest⟩

theorem upload_step {l : Label} (ht : Tracks env w) (h : w.step env l = some w') {r : ReqId}
    (hupload : (w.session env r).upload = some id) : (w'.session env r).upload = some id := by
  cases learns_of_step ht h r with
  | nothing heq => rw [heq]; exact hupload
  | act e resp _ hallows heq => rw [heq]; exact learn_keeps_upload hupload hallows
  | reply call since reply k _ hallows heq => rw [heq]; exact learn_keeps_upload hupload hallows

theorem Received.step {l : Label} (h : w.step env l = some w') (hr : Received env w key bytes) :
    Received env w' key bytes := by
  obtain ⟨q, hrole, hc, hb, hsent⟩ := hr
  exact ⟨q, hrole, hc, hb, hsent.step h⟩

theorem Harmless.step {l : Label} (ht : Tracks env w) (h : w.step env l = some w')
    (hcall : Harmless env w r call) : Harmless env w' r call := by
  cases call with
  | putObject key bytes =>
    obtain ⟨hrole, hc, hb, hsent⟩ := hcall
    exact ⟨hrole, hc, hb, hsent.step h⟩
  | uploadPart key id n len bytes =>
    obtain ⟨hup, hpart⟩ := hcall
    exact ⟨upload_step ht h hup, hpart⟩
  | completeMultipartUpload key id parts =>
    obtain ⟨hrole, hup, hc, hsent, hnumbers⟩ := hcall
    exact ⟨hrole, upload_step ht h hup, hc, hsent.step h, hnumbers⟩
  | abortMultipartUpload key id => exact upload_step ht h hcall
  | _ => trivial

omit [RustChar] in
/-- A request without a role in writing asks S3 for nothing but reads. -/
theorem writer_of_allows {g : Session} {role : Role} {body : Body}
    (ha : g.Allows role body (.s3 call)) :
    (∃ hash, role = .writer hash) ∨ (∃ key, call = .headObject key) ∨
      ∃ key, call = .getObject key := by
  cases role with
  | writer hash => exact Or.inl ⟨hash, rfl⟩
  | reader hash =>
    cases call with
    | headObject key => exact Or.inr (Or.inl ⟨key, rfl⟩)
    | getObject key => exact Or.inr (Or.inr ⟨key, rfl⟩)
    | _ => exact absurd ha not_false
  | refused response => exact absurd ha not_false

/-- What a session allows to ask for is harmless. -/
theorem harmless_of_allows {l : Label} (ht : Tracks env w) (h : w.step env l = some w')
    (ha : (w.session env r).Allows (env.role r) (env.body r) (.s3 call))
    (htrace : w'.trace = ⟨w.clock, r, .called call⟩ :: w.trace) : Harmless env w' r call := by
  -- the request is in the trace, and the end of the body is before it
  have hsent : ∀ {key : Hash}, (w.session env r).ended = true → Replaces key call →
      w'.Sent r key :=
    fun hended hkey => ⟨[], w.clock, call, w.trace, htrace, hkey, ended_origin hended⟩
  rcases writer_of_allows ha with ⟨hash, hrole⟩ | ⟨key, rfl⟩ | ⟨key, rfl⟩
  · rw [hrole] at ha
    cases call with
    | putObject key bytes =>
      obtain ⟨rfl, -, hended, hc, hb⟩ := ha
      exact ⟨hrole, hc, hb, hsent hended rfl⟩
    | uploadPart key id n len bytes =>
      obtain ⟨rfl, -, hup, rfl, -, hpart⟩ := ha
      exact ⟨upload_step ht h hup, Nat.succ_le_succ (Nat.zero_le _), by simpa using hpart⟩
    | completeMultipartUpload key id parts =>
      obtain ⟨rfl, -, hup, hended, hc, -, -, hnumbers⟩ := ha
      exact ⟨hrole, upload_step ht h hup, hc, hsent hended rfl, hnumbers⟩
    | abortMultipartUpload key id => exact upload_step ht h ha.2.2.1
    | _ => trivial
  · trivial
  · trivial

/-! ## The pieces of an upload make the body -/

omit [RustChar] in
/-- Listed in order, pieces that are each the right one are all of them. -/
theorem pieces_of_listed {pieces : List Bytes} {listed : CompletedPart → Option Bytes} :
    ∀ (parts : List CompletedPart) (from' : Nat) (found : List Bytes),
      (∀ part ∈ parts, ∀ bytes, listed part = some bytes →
        pieces[part.partNumber - 1]? = some bytes) →
      parts.map CompletedPart.partNumber = List.range' (from' + 1) (pieces.length - from') →
      parts.mapM listed = some found → found = pieces.drop from' := by
  -- the induction is on the list; `from'` counts the pieces already matched
  intro parts
  induction parts with
  | nil =>
    intro from' found _ hnumbers hfound
    have hlen : pieces.length - from' = 0 := by
      have := congrArg List.length hnumbers
      simpa using this.symm
    rw [List.mapM_nil] at hfound
    cases hfound
    exact (List.drop_eq_nil_of_le (by omega)).symm
  | cons part parts ih =>
    intro from' found hright hnumbers hfound
    have hpos : 0 < pieces.length - from' := by
      have := congrArg List.length hnumbers
      simp at this
      omega
    obtain ⟨m, hm⟩ : ∃ m, pieces.length - from' = m + 1 := ⟨pieces.length - from' - 1, by omega⟩
    rw [hm, List.map_cons, List.range'_succ] at hnumbers
    injection hnumbers with hnumber hnumbers
    rw [List.mapM_cons] at hfound
    obtain ⟨bytes, hbytes, hfound⟩ := Option.bind_eq_some_iff.mp hfound
    obtain ⟨rest, hrest, hfound⟩ := Option.bind_eq_some_iff.mp hfound
    cases hfound
    have hpiece := hright part (List.mem_cons_self ..) bytes hbytes
    rw [hnumber, Nat.add_sub_cancel] at hpiece
    have hlt : from' < pieces.length := by omega
    rw [List.getElem?_eq_getElem hlt] at hpiece
    injection hpiece with hpiece
    have hrest' := ih (from' + 1) rest
      (fun part' hmem => hright part' (List.mem_cons_of_mem _ hmem))
      (by rw [hnumbers, show pieces.length - (from' + 1) = m by omega]) hrest
    rw [List.drop_eq_getElem_cons hlt, hpiece, hrest']

omit [RustChar] in
/-- What the reply of a request to open an upload can be. -/
theorem createReply {bucket : Bucket} {eTagOf : Bytes → ETag} {fate : Fate}
    (h : (Except.ok (some id) : Except SdkError (Option UploadId)) =
      fate.reply (.createMultipartUpload key) (bucket.reply eTagOf (.createMultipartUpload key))) :
    id = bucket.nextId ∧ fate.served = true := by
  cases fate with
  | answer =>
    injection h with h
    injection h with h
    exact ⟨h, rfl⟩
  | bare => injection h with h; cases h
  | cut n =>
    injection h with h
    injection h with h
    exact ⟨h, rfl⟩
  | fail err => cases h

omit [RustChar] in
/-- An object is handed out as it is in the bucket. -/
theorem getReply {bucket : Bucket} {fate : Fate} {object : ObjectBody}
    (h : (Except.ok object : Except GetError ObjectBody) =
      fate.reply (.getObject key) (bucket.reply env.eTagOf (.getObject key))) :
    bucket.objects key = some object.bytes := by
  unfold Bucket.reply at h
  cases hk : bucket.objects key with
  | none => cases fate <;> simp [hk, Fate.reply] at h
  | some bytes =>
    simp only [hk] at h
    cases fate with
    | answer => injection h with h; rw [h]
    | bare => injection h with h; rw [h]
    | cut n => injection h with h; rw [h]
    | fail err => cases h

/-- An upload id is known from before, or has just been made up. -/
theorem owns_of_step {l : Label} (ht : Tracks env w) (h : w.step env l = some w')
    (howns : Owns env w' r id) : Owns env w r id ∨
      ∃ fate key, l = .serve r fate ∧ id = w.bucket.nextId ∧
        w'.bucket = w.bucket.apply env.eTagOf (.createMultipartUpload key) := by
  rcases howns with hup | ⟨key, since, k, htask⟩
  · cases learns_of_step ht h r with
    | nothing heq => exact Or.inl (Or.inl (heq ▸ hup))
    | act e resp hlocal _ heq =>
      rw [heq] at hup
      rcases learn_upload (w.session env r) e resp with hsame | ⟨key, id', -, hev⟩
      · exact Or.inl (Or.inl (hsame ▸ hup))
      · cases hev
        exact absurd rfl (hlocal _)
    | reply call since reply k htask _ heq =>
      rw [heq] at hup
      rcases learn_upload (w.session env r) (.s3 call) reply with hsame | ⟨key, id', hid', hev⟩
      · exact Or.inl (Or.inl (hsame ▸ hup))
      · rw [hid'] at hup
        cases hup
        cases hev
        exact Or.inl (Or.inr ⟨key, since, k, htask⟩)
  -- the reply on its way: from before, or just made by S3
  · rcases reply_of_step h htask with hold | ⟨fate, hl, -, hreply, hbucket⟩
    · exact Or.inl (Or.inr ⟨key, since, k, hold⟩)
    · obtain ⟨hid, hserved⟩ := createReply hreply
      rw [if_pos hserved] at hbucket
      exact Or.inr ⟨fate, key, hl, hid, hbucket⟩

/-! ## The invariant -/

/-- There is nothing but the objects of the start. -/
theorem intact_init : Intact env initial (init initial) where
  tracks := tracks_init
  harmless h := by cases h
  known h := by rcases h with h | ⟨_, _, _, h⟩ <;> cases h
  sole h := by rcases h with h | ⟨_, _, _, h⟩ <;> cases h
  parts _ h := by cases h
  objects h := Or.inl h
  replies h := by cases h

namespace Intact

variable {l : Label} (hw : Intact env initial w) (h : w.step env l = some w')

include hw h

/-- Whatever is pending was allowed when it was asked for, and does no harm. -/
theorem step_harmless (hcall : call ∈ w'.pending r) : Harmless env w' r call := by
  rcases pending_of_step hw.tracks h hcall with hold | ⟨hallows, htrace⟩
  · exact (hw.harmless hold).step hw.tracks h
  · exact harmless_of_allows hw.tracks h hallows htrace

theorem step_known (howns : Owns env w' r id) : id < w'.bucket.nextId := by
  have hmono : w.bucket.nextId ≤ w'.bucket.nextId := by
    cases stores_of_step h with
    | same heq => rw [heq]
    | apply r call _ heq =>
      rw [heq]
      exact Bucket.nextId_apply
    | delete key heq =>
      rw [heq]
      exact Nat.le_refl _
  rcases owns_of_step hw.tracks h howns with hold | ⟨fate, key, -, rfl, hbucket⟩
  · exact Nat.lt_of_lt_of_le (hw.known hold) hmono
  · rw [hbucket]
    exact Nat.lt_succ_self _

theorem step_sole (howns : Owns env w' r id) (howns' : Owns env w' r' id) : r = r' := by
  rcases owns_of_step hw.tracks h howns with hold | ⟨fate, key, hl, hid, -⟩
  -- both are told by this step, which is about one request
  · rcases owns_of_step hw.tracks h howns' with hold' | ⟨fate', key', -, hid', -⟩
    · exact hw.sole hold hold'
    · rw [hid'] at hold
      exact absurd (hw.known hold) (Nat.lt_irrefl _)
  · rcases owns_of_step hw.tracks h howns' with hold' | ⟨fate', key', hl', -, -⟩
    · rw [hid] at hold'
      exact absurd (hw.known hold') (Nat.lt_irrefl _)
    · rw [hl] at hl'
      cases hl'
      rfl

/-- The parts of an upload are those of its owner's body, in their places. -/
theorem step_parts {upload : Upload} {n : Nat} {eTag : ETag} (howns : Owns env w' r id)
    (hupload : w'.bucket.uploads id = some upload) (hpart : upload.parts n = some (eTag, bytes)) :
    1 ≤ n ∧ (uploadParts (env.body r))[n - 1]? = some bytes := by
  rcases owns_of_step hw.tracks h howns with hold | ⟨fate, key, -, rfl, hbucket⟩
  · cases stores_of_step h with
    | same heq =>
      rw [heq] at hupload
      exact hw.parts hold hupload hpart
    | delete key heq =>
      rw [heq] at hupload
      exact hw.parts hold hupload hpart
    | apply q call hmem heq =>
      rw [heq] at hupload
      rcases Bucket.uploads_apply hupload with hbefore | ⟨key, -, hid, -⟩ |
        ⟨key, m, len, body, before, rfl, hbefore, rfl⟩
      · exact hw.parts hold hbefore hpart
      · rw [hid] at hold
        exact absurd (hw.known hold) (Nat.lt_irrefl _)
      · -- the part is sent by the one who knows the upload
        obtain ⟨hup, hm, hpiece⟩ := hw.harmless hmem
        have hbefore := (Bucket.openUpload_eq_some.mp hbefore).1
        have hq : r = q := hw.sole hold (Or.inl hup)
        simp only [Upload.addPart, Function.update_apply] at hpart
        split at hpart
        next hn =>
          cases hpart
          rw [hn, hq]
          exact ⟨hm, hpiece⟩
        next => exact hw.parts hold hbefore hpart
  · rw [hbucket] at hupload
    -- the upload has just been made, without parts
    simp only [Bucket.apply, Bucket.setUpload, Function.update_self] at hupload
    cases hupload
    cases hpart

omit h in
/-- Completing an upload makes the whole body of its request. -/
theorem received_of_assemble {parts : List CompletedPart}
    (hcall : Harmless env w r (.completeMultipartUpload key id parts))
    (hassemble : w.bucket.assemble key id parts = some bytes) : env.role r = .writer key ∧
      (env.body r).complete = true ∧ bytes = (env.body r).bytes ∧ w.Sent r key := by
  obtain ⟨hrole, hup, hc, hsent, hnumbers⟩ := hcall
  obtain ⟨upload, found, hupload, -, -, hfound, rfl⟩ := Bucket.assemble_eq_some hassemble
  -- S3 joins the listed parts, and each is the piece of its number
  have hpieces : found = (uploadParts (env.body r)).drop 0 := by
    refine pieces_of_listed parts 0 found ?_ hnumbers hfound
    intro part _ bytes hlisted
    exact (hw.parts (Or.inl hup) hupload (Bucket.Upload.listed_eq_some hlisted)).2
  refine ⟨hrole, hc, ?_, hsent⟩
  rw [hpieces, List.drop_zero, uploadParts, Body.flatten_partsFrom _ _ _ hc, List.nil_append]

omit h in
/-- A pending request that puts an object puts a whole body of its own. -/
theorem received_of_apply (hmem : call ∈ w.pending r)
    (hobject : (w.bucket.apply env.eTagOf call).objects key = some bytes) :
    w.bucket.objects key = some bytes ∨ Replaces key call ∧ env.role r = .writer key ∧
      (env.body r).complete = true ∧ bytes = (env.body r).bytes ∧ w.Sent r key := by
  rcases Bucket.objects_apply hobject with hbefore | rfl | ⟨id, parts, rfl, hassemble⟩
  · exact Or.inl hbefore
  · exact Or.inr ⟨rfl, hw.harmless hmem⟩
  · exact Or.inr ⟨rfl, received_of_assemble hw (hw.harmless hmem) hassemble⟩

/-- An object that is there was there at the start, or has been received whole. -/
theorem step_objects (hobject : w'.bucket.objects key = some bytes) :
    initial key = some bytes ∨ Received env w' key bytes := by
  have hold : w.bucket.objects key = some bytes →
      initial key = some bytes ∨ Received env w' key bytes :=
    fun hobject => (hw.objects hobject).imp_right (Received.step h)
  cases stores_of_step h with
  | same heq =>
    rw [heq] at hobject
    exact hold hobject
  | delete key' heq =>
    rw [heq] at hobject
    simp only [Bucket.setObject, Function.update_apply] at hobject
    split at hobject
    next => cases hobject
    next => exact hold hobject
  | apply q call hmem heq =>
    rw [heq] at hobject
    rcases received_of_apply hw hmem hobject with hbefore | ⟨-, hrole, hc, hb, hsent⟩
    · exact hold hbefore
    · exact Or.inr ⟨q, hrole, hc, hb, hsent.step h⟩

/-- And so is an object that is on its way to a reader. -/
theorem step_replies {since : Instant} {object : ObjectBody}
    {k : (S3Call.getObject key).Reply → Async Response}
    (htask : w'.tasks r = .calling (.getObject key) since (some (Except.ok object)) k) :
    ValidHash key ∧ (initial key = some object.bytes ∨ Received env w' key object.bytes) := by
  rcases reply_of_step h htask with hold | ⟨fate, -, hcalling, hreply, -⟩
  · exact (hw.replies hold).imp_right (Or.imp_right (Received.step h))
  · refine ⟨?_, (hw.objects (getReply hreply)).imp_right (Received.step h)⟩
    have hallows := hw.tracks.allows_call hcalling
    cases hrole : env.role r with
    | writer hash =>
      rw [hrole] at hallows
      exact absurd hallows not_false
    | reader hash =>
      rw [hrole] at hallows
      rw [hallows.1]
      exact (role_reader hrole).2.2.1
    | refused response =>
      rw [hrole] at hallows
      exact absurd hallows not_false

theorem step : Intact env initial w' where
  tracks := hw.tracks.step h
  harmless := hw.step_harmless h
  known := hw.step_known h
  sole := hw.step_sole h
  parts := hw.step_parts h
  objects := hw.step_objects h
  replies := hw.step_replies h

end Intact

/-- What `GetObject` has handed out so far was there at the start, or has been
received whole. -/
def Handed (env : Env) (initial : Hash → Option Bytes) (w : World) : Prop :=
  ∀ {t r key object},
    ⟨t, r, .did ⟨.s3 (.getObject key), Except.ok object⟩⟩ ∈ w.trace →
    ValidHash key ∧ (initial key = some object.bytes ∨ Received env w key object.bytes)

theorem Intact.handed_step {l : Label} (hw : Intact env initial w) (hh : Handed env initial w)
    (h : w.step env l = some w') : Handed env initial w' := by
  intro t r key object hmem
  refine And.imp_right (Or.imp_right (Received.step h)) ?_
  rcases trace_of_step h with heq | ⟨q, event, heq, hoccurs⟩
  · rw [heq] at hmem
    exact hh hmem
  · rw [heq] at hmem
    rcases List.mem_cons.mp hmem with hnew | hold
    · injection hnew with _ hq hevent
      rw [← hevent] at hoccurs
      generalize hev : (⟨.s3 (.getObject key), Except.ok object⟩ : TaskEvent) = ev at hoccurs
      -- handed out by this step: the reply was waiting for its delivery
      cases hoccurs with
      | acted htask hl =>
        injection hev with he
        subst he
        cases hl
      | replied htask =>
        cases hev
        exact hw.replies htask
    · exact hh hold

/-- **Artifact integrity.** An object that a reader obtains is the whole body of
one PUT to that key with the service token, received to its end before S3 was
asked to make it the object. -/
theorem artifact_integrity {objects : Hash → Option Bytes}
    (hempty : ∀ key, ValidHash key → objects key = none) {ls : List Label}
    (hrun : Run (World.step env) (fun _ _ => True) (init objects) ls w) {t : Instant} {r : ReqId}
    {object : ObjectBody}
    (hget : ⟨t, r, .did ⟨.s3 (.getObject key), Except.ok object⟩⟩ ∈ w.trace) :
    ∃ q, (env.request q).method = .put ∧ pathHash (env.request q).segment = some key ∧
      (env.request q).authorization =
        some (bearerPrefix ++ tokenBytes (env.config (env.inst q)).serviceAccessToken) ∧
      (env.request q).body.complete = true ∧ object.bytes = (env.request q).body.bytes ∧
      w.Sent q key := by
  have hw : Intact env objects w ∧ Handed env objects w :=
    hrun.invariant (I := fun w => Intact env objects w ∧ Handed env objects w)
      (fun _ _ _ hw _ h => ⟨hw.1.step h, hw.1.handed_step hw.2 h⟩)
      ⟨intact_init, fun h => by cases h⟩
  obtain ⟨q, hrole, hc, hb, hsent⟩ : Received env w key object.bytes := by
    obtain ⟨hvalid, hinitial | hreceived⟩ := hw.2 hget
    · rw [hempty key hvalid] at hinitial
      cases hinitial
    · exact hreceived
  obtain ⟨hmethod, hpath, -, htoken⟩ := role_writer hrole
  exact ⟨q, hmethod, hpath, Request.authorization_of_bearerToken htoken, hc, hb, hsent⟩

private def twoInstances : Env := exampleEnv [(0, examplePut [1, 2, 3]), (1, exampleGet)]

/-- A PUT on one instance, and a GET on the other. -/
def putThenGet : List Label :=
  [.arrive 0, .run 0, .serve 0 .answer, .deliver 0, .run 0, .run 0, .run 0, .serve 0 .answer,
    .deliver 0, .run 0, .run 0, .run 0,
    .arrive 1, .run 1, .run 1, .run 1, .run 1, .serve 1 .answer, .deliver 1, .run 1, .run 1,
    .serve 1 .answer, .deliver 1]

omit [RustChar] in
theorem putThenGet_integrity :
    ∃ w, Run (@World.step asciiChars twoInstances) (fun _ _ => True) (init fun _ => none)
        putThenGet w ∧
      ∃ q, (twoInstances.request q).method = .put ∧ [1, 2, 3] = (twoInstances.request q).body.bytes ∧
        w.Sent q "abc" := by
  obtain ⟨w, hrun, hget⟩ : ∃ w, Run (@World.step asciiChars twoInstances) (fun _ _ => True)
      (init fun _ => none) putThenGet w ∧ ⟨0, 1, .did ⟨.s3 (.getObject "abc"),
        Except.ok (ObjectBody.mk [1, 2, 3] none)⟩⟩ ∈ w.trace :=
    exists_run_of_exec (fun _ _ _ => trivial)
      (show (exec _ (fun _ _ => true) _ _).any _ = true by decide)
  obtain ⟨q, hmethod, -, -, -, hbytes, hsent⟩ :=
    @artifact_integrity asciiChars twoInstances w "abc" (fun _ => none) (fun _ _ => rfl) _ hrun
      _ _ _ hget
  exact ⟨w, hrun, q, hmethod, hbytes, hsent⟩

end World

end NxCacheServer.System
