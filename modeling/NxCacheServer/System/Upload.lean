import NxCacheServer.System.Presence

/-!
# Upload is all or nothing

One run of `store` on a bucket that others use as well, but not for its key.
Whatever S3 makes of its requests, and whenever those that failed take effect
after all, the object is the whole body or what it was. What `store` may ask
for is its `Session`; `Whole` is the invariant that ties it to the bucket.

Here `store` runs alone, as a program on a `Site`, and not as a task of a system: the
result is about one call of the function, for any bucket it starts from. `Meanwhile`
is what may happen between two of its actions. The requests that have failed may take
effect in any order, also after `store` has returned.

What the code may do to the bucket is taken from the session: `Sends` is what `store`
may ever have asked for with what it knew, so a request that takes effect late is one
of these. The first part of the theorem, that `store` returns, is about the program
alone: it has finite branches only (`Prog.exists_runs`).
-/

namespace NxCacheServer.System

open NxCacheServer.Domain NxCacheServer.Infra NxCacheServer.Server NxCacheServer.Lib

/-- The bucket, and the requests of `store` that have failed and may still take
effect. -/
structure Site where
  bucket : Bucket
  strays : List S3Call

/-- How an action of `store` is answered, and what it leaves behind: a request
that S3 serves takes effect, one that fails may or may not have. -/
inductive Answered (eTagOf : Bytes → ETag) : Site → TaskEvent → Site → Prop
  | s3 {site : Site} (call : S3Call) (fate : Fate) (took : Bool) :
      (fate.served = true → took = true) →
      Answered eTagOf site ⟨.s3 call, fate.reply call (site.bucket.reply eTagOf call)⟩
        ⟨if took then site.bucket.apply eTagOf call else site.bucket,
          if fate.served then site.strays else call :: site.strays⟩
  | other {site : Site} {ev : TaskEvent} : (∀ call, ev.1 ≠ .s3 call) →
      Answered eTagOf site ev site

/-- What else happens to the bucket: a failed request takes effect, or others
write and delete objects of the keys in `others`. -/
inductive Meanwhile (eTagOf : Bytes → ETag) (others : Hash → Prop) : Site → Site → Prop
  | stray {site : Site} (call : S3Call) : call ∈ site.strays →
      Meanwhile eTagOf others site { site with bucket := site.bucket.apply eTagOf call }
  | request {site : Site} (call : S3Call) : others call.key →
      Meanwhile eTagOf others site { site with bucket := site.bucket.apply eTagOf call }
  | delete {site : Site} (key : Hash) : others key →
      Meanwhile eTagOf others site { site with bucket := site.bucket.setObject key none }

section

variable {eTagOf : Bytes → ETag} {others : Hash → Prop} {hash key : Hash} {body : Body}
  {before : Bucket} {g : Session} {site site' : Site} {call : S3Call} {id : UploadId}

/-- What `store` may have asked of S3 when it knows `g`. -/
def Sends (hash : Hash) (body : Body) (g : Session) : S3Call → Prop
  | .putObject key bytes => key = hash ∧ body.complete = true ∧ bytes = body.bytes
  | .uploadPart key id partNumber _ bytes => key = hash ∧ g.upload = some id ∧
      (uploadParts body)[partNumber - 1]? = some bytes
  | .completeMultipartUpload key id parts => key = hash ∧ g.upload = some id ∧
      body.complete = true ∧
      parts.map CompletedPart.partNumber = List.range' 1 (uploadParts body).length
  | call => call.key = hash

theorem Sends.key_eq (h : Sends hash body g call) : call.key = hash := by
  cases call with
  | putObject key bytes => exact h.1
  | uploadPart key id n len bytes => exact h.1
  | completeMultipartUpload key id parts => exact h.1
  | _ => exact h

/-- What it is allowed to ask is what it sends. -/
theorem sends_of_allows (ha : g.WriterAllows hash body (.s3 call)) : Sends hash body g call := by
  cases call with
  | headObject key => exact ha.1
  | getObject key => exact absurd ha not_false
  | putObject key bytes => exact ⟨ha.1, ha.2.2.2.1, ha.2.2.2.2⟩
  | createMultipartUpload key => exact ha.1
  | uploadPart key id n len bytes =>
    obtain ⟨hkey, -, hup, rfl, -, hpiece⟩ := ha
    exact ⟨hkey, hup, by simpa using hpiece⟩
  | completeMultipartUpload key id parts =>
    obtain ⟨hkey, -, hup, -, hc, -, -, hnumbers⟩ := ha
    exact ⟨hkey, hup, hc, hnumbers⟩
  | abortMultipartUpload key id => exact ha.1

theorem Sends.learn {e : Act} {resp : e.Resp} (h : Sends hash body g call)
    (ha : g.WriterAllows hash body e) : Sends hash body (g.learn e resp) call := by
  have hkeep : ∀ {id}, g.upload = some id → (g.learn e resp).upload = some id :=
    fun hup => @World.learn_keeps_upload _ g e resp (.writer hash) body hup ha
  cases call with
  | uploadPart key id n len bytes => exact ⟨h.1, hkeep h.2.1, h.2.2⟩
  | completeMultipartUpload key id parts => exact ⟨h.1, hkeep h.2.1, h.2.2⟩
  | _ => exact h

/-- That the object is written is learnt from a reply that says so. -/
theorem learn_written {reply : call.Reply} (hs : Sends hash body g call)
    (h : (g.learn (.s3 call) reply).wrote = true) :
    g.wrote = true ∨ World.Replaces hash call ∧ SaysPresent hash call reply := by
  cases call with
  | putObject key bytes =>
    cases reply with
    | error err => exact Or.inl h
    | ok u => exact Or.inr ⟨hs.key_eq, hs.key_eq, rfl⟩
  | completeMultipartUpload key id parts =>
    cases reply with
    | error err => exact Or.inl h
    | ok u => exact Or.inr ⟨hs.key_eq, hs.key_eq, rfl⟩
  | createMultipartUpload key => rcases reply with err | _ | id <;> exact Or.inl h
  | uploadPart key id n len bytes => rcases reply with err | _ | eTag <;> exact Or.inl h
  | _ => exact Or.inl h

/-- A reply with an upload id tells of a new upload. -/
theorem created_of_reply {bucket : Bucket} {fate : Fate} {reply : call.Reply}
    (hreply : reply = fate.reply call (bucket.reply eTagOf call))
    (heq : (⟨.s3 call, reply⟩ : TaskEvent) =
      ⟨.s3 (.createMultipartUpload key), Except.ok (some id)⟩) :
    call = .createMultipartUpload key ∧ id = bucket.nextId ∧ fate.served = true := by
  cases heq
  exact ⟨rfl, World.createReply hreply⟩

/-- The object at `hash` is what it was or the whole body, no part is out of
place, and the keys that nobody else touches are as they were. -/
structure Whole (hash : Hash) (body : Body) (others : Hash → Prop) (before : Bucket) (g : Session)
    (site : Site) : Prop where
  object : site.bucket.objects hash = before.objects hash ∨
    body.complete = true ∧ site.bucket.objects hash = some body.bytes
  wrote : g.wrote = true → body.complete = true ∧ site.bucket.objects hash = some body.bytes
  known : ∀ {id}, g.upload = some id → id < site.bucket.nextId
  parts : ∀ {id upload}, g.upload = some id → site.bucket.uploads id = some upload →
    upload.key = hash ∧ ∀ n eTag bytes, upload.parts n = some (eTag, bytes) →
      (uploadParts body)[n - 1]? = some bytes
  strays : ∀ call ∈ site.strays, Sends hash body g call
  elsewhere : ∀ key, key ≠ hash → ¬ others key →
    site.bucket.objects key = before.objects key

namespace Whole

variable (hw : Whole hash body others before g site)

include hw

/-- An upload that is completed makes the whole body. -/
theorem assemble {parts : List CompletedPart} {bytes : Bytes}
    (hs : Sends hash body g (.completeMultipartUpload key id parts))
    (hassemble : site.bucket.assemble key id parts = some bytes) :
    body.complete = true ∧ bytes = body.bytes := by
  obtain ⟨-, hup, hc, hnumbers⟩ := hs
  obtain ⟨upload, found, hupload, -, -, hfound, rfl⟩ := Bucket.assemble_eq_some hassemble
  have hpieces : found = (uploadParts body).drop 0 := by
    refine World.pieces_of_listed parts 0 found ?_ hnumbers hfound
    intro part _ bytes hlisted
    exact (hw.parts hup hupload).2 _ _ _ (Bucket.Upload.listed_eq_some hlisted)
  refine ⟨hc, ?_⟩
  rw [hpieces, List.drop_zero, uploadParts, Body.flatten_partsFrom _ _ _ hc, List.nil_append]

/-- The effect of a request, of `store` or of somebody else. -/
theorem effect (hhash : ¬ others hash) (hcall : Sends hash body g call ∨ others call.key) :
    Whole hash body others before g { site with bucket := site.bucket.apply eTagOf call } := by
  have hobject : (site.bucket.apply eTagOf call).objects hash = site.bucket.objects hash ∨
      body.complete = true ∧ (site.bucket.apply eTagOf call).objects hash = some body.bytes := by
    -- what replaces the object at `hash` is of `store`: others keep off it
    rcases @Bucket.objects_apply_cases site.bucket eTagOf call hash with hsame |
      ⟨bytes, hbytes, rfl | ⟨id, parts, rfl, hassemble⟩⟩
    · exact Or.inl hsame
    · rcases hcall with hs | ho
      · obtain ⟨-, hc, rfl⟩ := hs
        exact Or.inr ⟨hc, hbytes⟩
      · exact absurd ho hhash
    · rcases hcall with hs | ho
      · obtain ⟨hc, rfl⟩ := hw.assemble hs hassemble
        exact Or.inr ⟨hc, hbytes⟩
      · exact absurd ho hhash
  refine ⟨?_, ?_, ?_, ?_, hw.strays, ?_⟩
  · rcases hobject with hsame | hwhole
    · rw [hsame]
      exact hw.object
    · exact Or.inr hwhole
  · intro hwrote
    rcases hobject with hsame | hwhole
    · rw [hsame]
      exact hw.wrote hwrote
    · exact hwhole
  · intro id hup
    exact Nat.lt_of_lt_of_le (hw.known hup) Bucket.nextId_apply
  · intro id upload hup hupload
    rcases Bucket.uploads_apply hupload with hold | ⟨key, -, hid, -⟩ |
      ⟨key, n, len, bytes, former, rfl, hopen, rfl⟩
    · exact hw.parts hup hold
    -- a new upload is none that `store` knows
    · rw [hid] at hup
      exact absurd (hw.known hup) (Nat.lt_irrefl _)
    · -- only `store` itself knows the upload, so the part is one of its own
      obtain ⟨hformer, hkey⟩ := Bucket.openUpload_eq_some.mp hopen
      obtain ⟨hhash', hpieces⟩ := hw.parts hup hformer
      refine ⟨hhash', ?_⟩
      intro m eTag bytes' hpart
      simp only [Upload.addPart, Function.update_apply] at hpart
      split at hpart
      next hm =>
        cases hpart
        rcases hcall with hs | ho
        · rw [hm]
          exact hs.2.2
        · have ho : others key := ho
          rw [hkey.symm.trans hhash'] at ho
          exact absurd ho hhash
      next => exact hpieces m eTag bytes' hpart
  · intro key hne hother
    have hkey : call.key ≠ key := by
      intro heq
      rcases hcall with hs | ho
      · exact hne (heq.symm.trans hs.key_eq)
      · exact hother (heq ▸ ho)
    exact (Bucket.objects_apply_of_ne hkey).trans (hw.elsewhere key hne hother)

/-- What others do with other keys is nothing to this one. -/
theorem meanwhile (hhash : ¬ others hash) (h : Meanwhile eTagOf others site site') :
    Whole hash body others before g site' := by
  cases h with
  | stray call hmem => exact hw.effect hhash (Or.inl (hw.strays call hmem))
  | request call ho => exact hw.effect hhash (Or.inr ho)
  | delete key ho =>
    have hsame : ∀ key', key ≠ key' →
        (site.bucket.setObject key none).objects key' = site.bucket.objects key' :=
      fun key' hne => Function.update_of_ne hne.symm ..
    have hkey : key ≠ hash := fun heq => hhash (heq ▸ ho)
    refine ⟨?_, ?_, hw.known, hw.parts, hw.strays, ?_⟩
    · dsimp only
      rw [hsame hash hkey]
      exact hw.object
    · dsimp only
      rw [hsame hash hkey]
      exact hw.wrote
    · intro key' hne hother
      exact (hsame key' fun heq => hother (heq ▸ ho)).trans (hw.elsewhere key' hne hother)

/-- A reply that says that the object is written is right. -/
theorem written {fate : Fate} (hs : Sends hash body g call) (hreplaces : World.Replaces hash call)
    (hreply : SaysPresent hash call (fate.reply call (site.bucket.reply eTagOf call))) :
    fate.served = true ∧ body.complete = true ∧
      (site.bucket.apply eTagOf call).objects hash = some body.bytes := by
  cases call with
  | putObject key bytes =>
    obtain ⟨rfl, hc, rfl⟩ := hs
    refine ⟨?_, hc, Function.update_self ..⟩
    cases fate with
    | fail err => cases hreply.2
    | _ => rfl
  | completeMultipartUpload key id parts =>
    obtain rfl : key = hash := hs.1
    cases hassemble : site.bucket.assemble key id parts with
    -- a refused completion is answered with an error
    | none =>
      have hok := hreply.2
      cases fate with
      | fail err => cases hok
      | _ =>
        rw [show site.bucket.reply eTagOf (.completeMultipartUpload key id parts) = _ from
          Bucket.reply_refused hassemble] at hok
        cases hok
    | some bytes =>
      obtain ⟨hc, rfl⟩ := hw.assemble hs hassemble
      refine ⟨?_, hc, ?_⟩
      · cases fate with
        | fail err => cases hreply.2
        | _ => rfl
      · simp [Bucket.apply, hassemble, Bucket.setUpload, Bucket.setObject]
  | _ => exact absurd hreplaces not_false

/-- Every action of `store` keeps the invariant. -/
theorem answered {ev : TaskEvent} (hhash : ¬ others hash) (ha : g.WriterAllows hash body ev.1)
    (h : Answered eTagOf site ev site') :
    Whole hash body others before (g.learn ev.1 ev.2) site' := by
  cases h with
  | other hlocal =>
    obtain ⟨-, -, hupload, -, hwrote, -⟩ := World.learn_local g ev.2 hlocal
    refine ⟨hw.object, ?_, ?_, ?_, ?_, hw.elsewhere⟩
    · rw [hwrote]
      exact hw.wrote
    · rw [hupload]
      exact hw.known
    · rw [hupload]
      exact hw.parts
    · exact fun call hmem => (hw.strays call hmem).learn ha
  | s3 call fate took htook =>
    have hs : Sends hash body g call := sends_of_allows ha
    -- the bucket first, as if the reply were not read yet
    have hw' : Whole hash body others before g
        ⟨if took then site.bucket.apply eTagOf call else site.bucket, site.strays⟩ := by
      cases took with
      | true => exact hw.effect hhash (Or.inl hs)
      | false => exact hw
    refine ⟨hw'.object, ?_, ?_, ?_, ?_, hw'.elsewhere⟩
    · intro hwrote
      rcases learn_written hs hwrote with hold | ⟨hreplaces, hreply⟩
      · exact hw'.wrote hold
      · obtain ⟨hserved, hc, hobject⟩ := hw.written hs hreplaces hreply
        rw [if_pos (htook hserved)]
        exact ⟨hc, hobject⟩
    · intro id hup
      rcases World.learn_upload g (.s3 call) _ with hsame | ⟨key, id', hid', heq⟩
      · exact hw'.known (hsame ▸ hup)
      · obtain ⟨rfl, hnew, hserved⟩ := created_of_reply rfl heq
        rw [hid'] at hup
        cases hup
        rw [if_pos (htook hserved), hnew]
        exact Nat.lt_succ_self _
    · intro id upload hup hupload
      rcases World.learn_upload g (.s3 call) _ with hsame | ⟨key, id', hid', heq⟩
      · exact hw'.parts (hsame ▸ hup) hupload
      -- the reply opens the upload, which has no parts yet
      · obtain ⟨rfl, hnew, hserved⟩ := created_of_reply rfl heq
        rw [hid'] at hup
        cases hup
        rw [if_pos (htook hserved), hnew] at hupload
        simp only [Bucket.apply, Bucket.setUpload, Function.update_self] at hupload
        cases hupload
        refine ⟨hs.key_eq, ?_⟩
        intro n eTag bytes hpart
        cases hpart
    · intro call' hmem
      dsimp only at hmem
      split at hmem
      next => exact (hw.strays call' hmem).learn ha
      next =>
        rcases List.mem_cons.mp hmem with rfl | hmem
        · exact hs.learn ha
        · exact (hw.strays call' hmem).learn ha

end Whole

/-- What `store` knows of the object when it starts: nothing, or that it was
not there a moment ago. -/
def probed : Session := { Session.start with probe := some (.error .notFound) }

theorem whole_probed : Whole hash body others before probed ⟨before, []⟩ where
  object := Or.inl rfl
  wrote h := by cases h
  known h := by cases h
  parts h := by cases h
  strays call hmem := by cases hmem
  elsewhere _ _ _ := rfl

/-- A request that replaces an object. -/
def ReplacesAny (ev : TaskEvent) : Prop :=
  ∃ call key, ev.1 = .s3 call ∧ World.Replaces key call

theorem probed_storing : probed.Storing := ⟨⟨.notFound, rfl⟩, rfl, rfl, rfl⟩

/-- Nothing replaces an object while the body is incomplete. -/
theorem not_replacesAny {g : Session} {ev : TaskEvent} (hc : body.complete = false)
    (ha : g.WriterAllows hash body ev.1) : ¬ ReplacesAny ev := by
  intro h
  obtain ⟨call, key, hev, hreplaces⟩ := h
  rw [hev] at ha
  cases call with
  | putObject key' bytes =>
    rw [ha.2.2.2.1] at hc
    cases hc
  | completeMultipartUpload key' id parts =>
    rw [ha.2.2.2.2.1] at hc
    cases hc
  | _ => exact hreplaces

/-- **All or nothing.** `store` returns, whatever its actions are answered. Once
it has returned, the object at `hash` is the whole body if it returned `Ok`,
what it was before or the whole body if it returned an error, and what it was
before if the client went away, since nothing was asked for that could have
changed it. All other keys are as they were, unless somebody else has touched
them. -/
theorem upload_all_or_nothing (hash : Hash) (body : Body) :
    (∀ answer : List TaskEvent → (e : Act) → e.Resp, ∃ h out,
      Prog.Runs (S3Storage.store hash body) h out ∧
        ∀ pre ev post, h = pre ++ ev :: post → ev.2 = answer pre ev.1) ∧
    ∀ (eTagOf : Bytes → ETag) (others : Hash → Prop) (before : Bucket) (site : Site)
      (h : List TaskEvent) (result : Except StorageError Unit) (rest : Body), ¬ others hash →
      Prog.Runs (S3Storage.store hash body) h (result, rest) →
      Prog.Along (Answered eTagOf) (Meanwhile eTagOf others) ⟨before, []⟩ h site →
      (result = .ok () → body.complete = true ∧
        site.bucket.objects hash = some body.bytes) ∧
      (∀ e, result = .error e → site.bucket.objects hash = before.objects hash ∨
        body.complete = true ∧ site.bucket.objects hash = some body.bytes) ∧
      (result = .error .clientAbort → site.bucket.objects hash = before.objects hash ∧
        ∀ ev ∈ h, ¬ ReplacesAny ev) ∧
      ∀ key, key ≠ hash → ¬ others key → site.bucket.objects key = before.objects key := by
  refine ⟨fun answer => Prog.exists_runs answer _, ?_⟩
  intro eTagOf others before site h result rest hhash hrun halong
  have hkeeps : (S3Storage.store hash body).wp (session (.writer hash) body)
      (fun r g => Stored body r.1 g) probed := store_session probed_storing rfl rfl
  -- `Whole` holds along the run, `Stored` at its end
  obtain ⟨hstored, hw⟩ := Prog.wp_along (I := Whole hash body others before)
    (session_unpromising (.writer hash) body) (fun _ _ _ _ hw ha hans => hw.answered hhash ha hans)
    (fun _ _ _ hw hm => hw.meanwhile hhash hm) halong hrun hkeeps whole_probed
  refine ⟨?_, fun e he => hw.object, ?_, hw.elsewhere⟩
  · intro hok
    rw [hok] at hstored
    exact hw.wrote hstored.2
  · intro hcut
    rw [hcut] at hstored
    have hc : body.complete = false := by
      rcases hstored.2.2 with ⟨-, hc⟩ | ⟨he, -⟩
      · exact hc
      · cases he
    refine ⟨?_, ?_⟩
    · rcases hw.object with hsame | ⟨hc', -⟩
      · exact hsame
      · rw [hc] at hc'
        cases hc'
    · intro ev hmem
      obtain ⟨pre, post, heq⟩ := List.append_of_mem hmem
      exact not_replacesAny hc
        (Prog.wp_runs_allowed hrun (session_unpromising _ _) hkeeps heq)

/-- S3 drops the connection after it has stored the object. -/
def lostReply : List TaskEvent :=
  [⟨.read 0 (.chunk [1]), ()⟩, ⟨.read 0 .eof, ()⟩,
    ⟨.s3 (.putObject "abc" [1]), Except.error ⟨none, none, "reset"⟩⟩,
    ⟨.log (.s3Error "put" "abc" ⟨none, none, "reset"⟩), ()⟩]

theorem lostReply_whole :
    ∃ site, Prog.Runs (S3Storage.store "abc" (.chunk 0 [1] (.eof 0))) lostReply
        (.error .operationFailed, .eof 0) ∧
      Prog.Along (Answered fun _ => "e") (Meanwhile (fun _ => "e") fun key => key = "def")
        ⟨⟨fun _ => none, fun _ => none, 0⟩, []⟩ lostReply site ∧
      (site.bucket.objects "abc" = none ∨ site.bucket.objects "abc" = some [1]) ∧
      site.bucket.objects "xyz" = none := by
  have hrun : Prog.Runs (S3Storage.store "abc" (.chunk 0 [1] (.eof 0))) lostReply
      (.error .operationFailed, .eof 0) := .act (.act (.act (.act (.done _))))
  have halong : ∃ site, Prog.Along (Answered fun _ => "e")
      (Meanwhile (fun _ => "e") fun key => key = "def") ⟨⟨fun _ => none, fun _ => none, 0⟩, []⟩
      lostReply site := by
    refine ⟨_, .answered (.other fun _ h => by cases h) (.answered (.other fun _ h => by cases h)
      (.answered (.s3 (.putObject "abc" [1]) (.fail ⟨none, none, "reset"⟩) true fun _ => rfl)
        (.moved (.request (.putObject "def" [2]) rfl)
          (.answered (.other fun _ h => by cases h) (.nil _)))))⟩
  obtain ⟨site, halong⟩ := halong
  obtain ⟨-, herror, -, hothers⟩ := (upload_all_or_nothing "abc" (.chunk 0 [1] (.eof 0))).2 _ _ _ _
    _ _ _ (by decide) hrun halong
  exact ⟨site, hrun, halong, (herror _ rfl).imp_right And.right,
    hothers "xyz" (by decide) (by decide)⟩

end

end NxCacheServer.System
