import NxCacheServer.System.Integrity

/-!
# Runs without errors

S3 answers every request, and no client goes away (`Label.ErrorFree`). Then
nothing of `store` fails (`Smooth`): the upload a writer works on stays open
and holds every part acknowledged so far, whatever other requests do.

This is the other half of `NxCacheServer.System.Integrity`. There the point is that
nothing wrong is ever stored, here that what is to be stored is: `Smooth` says that
every reply is the one S3 gives to such a request, and that an upload under way has
all the parts that have been acknowledged.

That an upload stays as its owner knows it has three reasons: other requests do not
know its id (`Intact.sole`), its own requests ask for one part after the other
(`Numbered`), and what is said of its parts is said until its owner has completed it
(`Unfinished`).
-/

namespace NxCacheServer.System

open NxCacheServer.Domain NxCacheServer.Infra NxCacheServer.Server NxCacheServer.Lib

/-- S3 answers, and no client goes away. -/
def Label.ErrorFree : Label → Prop
  | .serve _ fate => fate = .answer
  | .cancel _ => False
  | .stray _ _ => False
  | _ => True

instance : DecidablePred Label.ErrorFree := fun l =>
  match l with
  | .serve _ fate => inferInstanceAs (Decidable (fate = .answer))
  | .cancel _ => isFalse not_false
  | .stray _ _ => isFalse not_false
  | .tick _ => isTrue trivial
  | .arrive _ => isTrue trivial
  | .run _ => isTrue trivial
  | .deliver _ => isTrue trivial
  | .delete _ => isTrue trivial

/-- The reply that a request of a session waits for is no error. -/
def Fine (bucket : Bucket) (g : Session) : (call : S3Call) → call.Reply → Prop
  | .headObject _, reply => reply = Except.ok () ∨ reply = Except.error HeadError.notFound
  | .getObject _, reply => (∃ bytes, reply = Except.ok (ObjectBody.mk bytes none)) ∨
      reply = Except.error GetError.noSuchKey
  | .putObject _ _, reply => reply = Except.ok ()
  | .createMultipartUpload key, reply =>
    ∃ id, reply = Except.ok (some id) ∧ bucket.HasParts key id []
  | .uploadPart key id n _ _, reply =>
    ∃ eTag, reply = Except.ok (some eTag) ∧ bucket.HasParts key id (g.listed ++ [⟨n, eTag⟩])
  | .completeMultipartUpload _ _ _, reply => reply = Except.ok ()
  | .abortMultipartUpload _ _, _ => True

/-- No reply of S3 was an error so far. -/
structure Untroubled (g : Session) : Prop where
  failed : g.failed = false
  probe : ∀ {err}, g.probe ≠ some (.error (.other err))
  got : ∀ {err}, g.got ≠ some (.error (.other err))

/-- A request that takes an upload away when it succeeds. -/
def Closes : S3Call → Prop
  | .completeMultipartUpload _ _ _ => True
  | .abortMultipartUpload _ _ => True
  | _ => False

namespace World

variable [RustChar] {env : Env} {initial : Hash → Option Bytes} {w w' : World} {l : Label}
  {r r' : ReqId} {call : S3Call} {key : Hash} {id : UploadId} {parts : List CompletedPart}

/-- `r` has neither written its object nor given up, and is not about to learn
that it has. -/
def Unfinished (env : Env) (w : World) (r : ReqId) : Prop :=
  (w.session env r).Open ∧
    ∀ {call since reply k}, w.tasks r = .calling call since (some reply) k → ¬ Closes call

/-- S3 fails nobody: every reply is the right one, and the parts of an upload that is
not finished are there. -/
structure Smooth (env : Env) (initial : Hash → Option Bytes) (w : World) : Prop where
  intact : Intact env initial w
  sessions : ∀ r, Untroubled (w.session env r)
  replies : ∀ {r call since reply k}, w.tasks r = .calling call since (some reply) k →
    Fine w.bucket (w.session env r) call reply
  uploads : ∀ {r key id}, env.role r = .writer key → (w.session env r).upload = some id →
    Unfinished env w r → w.bucket.HasParts key id (w.session env r).listed

/-! ## Sessions of writers -/

omit [RustChar] in
/-- A part is listed when its ETag arrives. -/
theorem learn_listed (g : Session) (e : Act) (resp : e.Resp) :
    (g.learn e resp).listed = g.listed ∨ ∃ key id n len bytes eTag,
      (⟨e, resp⟩ : TaskEvent) = ⟨.s3 (.uploadPart key id n len bytes), Except.ok (some eTag)⟩ ∧
        (g.learn e resp).listed = g.listed ++ [⟨n, eTag⟩] := by
  unfold Session.learn
  split
  case h_7 key id n len bytes eTag => exact Or.inr ⟨key, id, n, len, bytes, eTag, rfl, rfl⟩
  all_goals exact Or.inl rfl

/-- The parts of an upload are numbered from 1, and there are none before it. -/
def Numbered (g : Session) : Prop :=
  g.listed.map CompletedPart.partNumber = List.range' 1 g.listed.length ∧
    (g.upload = none → g.listed = [])

omit [RustChar] in
theorem Numbered.learn {g : Session} {e : Act} {resp : e.Resp} {role : Role} {body : Body}
    (hg : Numbered g) (ha : g.Allows role body e) : Numbered (g.learn e resp) := by
  have hupload : (g.learn e resp).upload = none → g.upload = none := by
    intro hnone
    rcases learn_upload g e resp with heq | ⟨_, _, hsome, -⟩
    · rw [← heq, hnone]
    · rw [hsome] at hnone
      cases hnone
  rcases learn_listed g e resp with heq | ⟨key, id, n, len, bytes, eTag, hev, heq⟩
  · unfold Numbered
    rw [heq]
    exact ⟨hg.1, fun hnone => hg.2 (hupload hnone)⟩
  · cases hev
    cases role with
    | writer hash =>
      -- the next part has the next number
      obtain ⟨-, -, hup, hn, -⟩ := ha
      unfold Numbered
      rw [heq]
      refine ⟨?_, fun hnone => ?_⟩
      · rw [List.map_append, hg.1, hn, List.length_append]
        simp [List.range'_concat, Nat.add_comm]
      · rw [hupload hnone] at hup
        cases hup
    | reader hash => exact absurd ha not_false
    | refused response => exact absurd ha not_false

/-- So they are numbered at every point of a run. -/
theorem numbered (ht : Tracks env w) (r : ReqId) : Numbered (w.session env r) :=
  ht.session_invariant r ⟨rfl, fun _ => rfl⟩ fun _ _ _ hg ha => hg.learn ha

omit [RustChar] in
theorem next_not_listed {g : Session} (hg : Numbered g) :
    g.listed.length + 1 ∉ g.listed.map CompletedPart.partNumber := by
  rw [hg.1, List.mem_range'_1]
  omega

/-! ## Other requests leave an upload alone -/

/-- Only its owner does something to an upload. -/
theorem concerns_harmless (hcall : Harmless env w r call) (hid : Bucket.Concerns id call) :
    (w.session env r).upload = some id := by
  cases call with
  | uploadPart key id' n len bytes =>
    rw [← show id' = id from hid]
    exact hcall.1
  | completeMultipartUpload key id' parts =>
    rw [← show id' = id from hid]
    exact hcall.2.1
  | abortMultipartUpload key id' =>
    rw [← show id' = id from hid]
    exact hcall
  | _ => exact absurd hid not_false

/-- A request of another does not touch the upload `r` knows. -/
theorem uploads_apply_other (hw : Intact env initial w) (howns : Owns env w r id) (hr : r ≠ r')
    (hcall : call ∈ w.pending r') :
    (w.bucket.apply env.eTagOf call).uploads id = w.bucket.uploads id := by
  refine Bucket.uploads_apply_of_ne (Nat.ne_of_lt (hw.known howns)) ?_
  intro hid
  exact hr (hw.sole howns (Or.inl (concerns_harmless (hw.harmless hcall) hid)))

/-- As long as the task of `r` stays where it is, so does its upload. -/
theorem uploads_of_stay (hw : Intact env initial w) (h : w.step env l = some w') (hl : l.ErrorFree)
    (howns : Owns env w r id) (hstay : w'.tasks r = w.tasks r) :
    w'.bucket.uploads id = w.bucket.uploads id := by
  cases step_cases h with
  | @served r' fate call since k htask hf =>
    by_cases hr : r = r'
    · subst hr
      -- a task that is answered does not stay
      rw [htask] at hstay
      simp at hstay
    · exact uploads_apply_other hw howns hr (mem_pending_of_calling htask)
  | stray hp => exact absurd hl not_false
  | _ => rfl

/-! ## The invariant -/

omit [RustChar] in
theorem untroubled_learn {bucket : Bucket} {g : Session} {reply : call.Reply}
    (hg : Untroubled g) (hf : Fine bucket g call reply) :
    Untroubled (g.learn (.s3 call) reply) := by
  cases call with
  | headObject key =>
    refine ⟨hg.failed, ?_, hg.got⟩
    intro err h
    rw [Option.some.inj h] at hf
    rcases hf with hf | hf <;> cases hf
  | getObject key =>
    refine ⟨hg.failed, hg.probe, ?_⟩
    intro err h
    rw [Option.some.inj h] at hf
    rcases hf with ⟨bytes, hf⟩ | hf <;> cases hf
  | putObject key body =>
    rw [show reply = Except.ok () from hf]
    exact ⟨hg.failed, hg.probe, hg.got⟩
  | createMultipartUpload key =>
    obtain ⟨id, rfl, -⟩ := hf
    exact ⟨hg.failed, hg.probe, hg.got⟩
  | uploadPart key id n len body =>
    obtain ⟨eTag, rfl, -⟩ := hf
    exact ⟨hg.failed, hg.probe, hg.got⟩
  | completeMultipartUpload key id parts =>
    rw [show reply = Except.ok () from hf]
    exact ⟨hg.failed, hg.probe, hg.got⟩
  | abortMultipartUpload key id => exact ⟨hg.failed, hg.probe, hg.got⟩

omit [RustChar] in
/-- Whoever may touch an upload is a writer that knows it. -/
theorem writer_of_concerns {g : Session} {role : Role} {body : Body} (id : UploadId)
    (ha : g.Allows role body (.s3 call)) (hid : Bucket.Concerns id call) :
    ∃ hash, role = .writer hash ∧ g.WriterAllows hash body (.s3 call) ∧ g.upload = some id := by
  rcases writer_of_allows ha with ⟨hash, hrole⟩ | ⟨key, rfl⟩ | ⟨key, rfl⟩
  · subst hrole
    refine ⟨hash, rfl, ha, ?_⟩
    cases call with
    | uploadPart key id' n len bytes =>
      rw [← show id' = id from hid]
      exact ha.2.2.1
    | completeMultipartUpload key id' parts =>
      rw [← show id' = id from hid]
      exact ha.2.2.1
    | abortMultipartUpload key id' =>
      rw [← show id' = id from hid]
      exact ha.2.2.1
    | _ => exact absurd hid not_false
  · exact absurd hid not_false
  · exact absurd hid not_false

namespace Smooth

variable (hw : Smooth env initial w)

include hw

/-- The upload of a writer that waits for S3 has all its parts. -/
theorem parts_of_calling {since : Instant} {k : call.Reply → Async Response}
    (htask : w.tasks r = .calling call since none k) (id : UploadId)
    (hid : Bucket.Concerns id call) (hopen : (w.session env r).Open) :
    ∃ hash, env.role r = .writer hash ∧ (w.session env r).WriterAllows hash (env.body r) (.s3 call) ∧
      w.bucket.HasParts hash id (w.session env r).listed := by
  obtain ⟨hash, hrole, ha, hup⟩ := writer_of_concerns id (hw.intact.tracks.allows_call htask) hid
  refine ⟨hash, hrole, ha, hw.uploads hrole hup ⟨hopen, ?_⟩⟩
  intro call' since' reply' k' htask'
  rw [htask] at htask'
  cases htask'

/-- What S3 answers is no error. -/
theorem fine_of_serve {since : Instant} {k : call.Reply → Async Response}
    (htask : w.tasks r = .calling call since none k) :
    Fine (w.bucket.apply env.eTagOf call) (w.session env r) call
      (w.bucket.reply env.eTagOf call) := by
  have hallows := hw.intact.tracks.allows_call htask
  cases call with
  | headObject key =>
    rcases w.bucket.reply_headObject env.eTagOf key with ⟨-, hreply⟩ | ⟨-, hreply⟩
    · exact Or.inl hreply
    · exact Or.inr hreply
  | getObject key =>
    rcases w.bucket.reply_getObject env.eTagOf key with ⟨bytes, -, hreply⟩ | ⟨-, hreply⟩
    · exact Or.inl ⟨bytes, hreply⟩
    · exact Or.inr hreply
  | putObject key bytes => exact rfl
  | createMultipartUpload key => exact ⟨_, rfl, Bucket.hasParts_create⟩
  | uploadPart key id n len bytes =>
    obtain ⟨hash, hrole, -⟩ := writer_of_concerns id hallows rfl
    rw [hrole] at hallows
    obtain ⟨rfl, hstoring, -, rfl, rfl, -⟩ := hallows
    obtain ⟨hash, hrole', -, hp⟩ := hw.parts_of_calling htask id rfl hstoring.2
    rw [hrole] at hrole'
    cases hrole'
    -- the upload is open, and the part one of a new number
    obtain ⟨hreply, hp'⟩ := hp.uploadPart (next_not_listed (numbered hw.intact.tracks r))
    exact ⟨_, hreply, hp'⟩
  | completeMultipartUpload key id parts =>
    obtain ⟨hash, hrole, -⟩ := writer_of_concerns id hallows rfl
    rw [hrole] at hallows
    obtain ⟨rfl, hstoring, -, -, -, rfl, hne, -⟩ := hallows
    obtain ⟨hash, hrole', -, hp⟩ := hw.parts_of_calling htask id rfl hstoring.2
    rw [hrole] at hrole'
    cases hrole'
    -- all listed parts are there
    obtain ⟨bytes, hbytes⟩ := hp.assemble hne
    exact Bucket.reply_complete hbytes
  | abortMultipartUpload key id => trivial

variable (h : w.step env l = some w') (hl : l.ErrorFree)

include h hl

/-- A reply that waits for its delivery stays as good as it was. -/
theorem fine_of_stay {since : Instant} {reply : call.Reply} {k : call.Reply → Async Response}
    (htask : w.tasks r = .calling call since (some reply) k) (hstay : w'.tasks r = w.tasks r) :
    Fine w'.bucket (w.session env r) call reply := by
  have hfine := hw.replies htask
  cases call with
  | createMultipartUpload key =>
    obtain ⟨id, rfl, hp⟩ := hfine
    have howns : Owns env w r id := Or.inr ⟨key, since, k, htask⟩
    exact ⟨id, rfl, Bucket.hasParts_congr (uploads_of_stay hw.intact h hl howns hstay) hp⟩
  | uploadPart key id n len bytes =>
    obtain ⟨eTag, rfl, hp⟩ := hfine
    obtain ⟨-, -, -, hup⟩ := writer_of_concerns id (hw.intact.tracks.allows_call htask) rfl
    exact ⟨eTag, rfl, Bucket.hasParts_congr (uploads_of_stay hw.intact h hl (Or.inl hup) hstay) hp⟩
  | _ => exact hfine

omit hl in
theorem step_sessions (r : ReqId) : Untroubled (w'.session env r) := by
  have hr := hw.sessions r
  cases learns_of_step hw.intact.tracks h r with
  | nothing heq =>
    rw [heq]
    exact hr
  | act e resp hlocal _ heq =>
    obtain ⟨hprobe, hgot, -, -, -, hfailed, -⟩ := learn_local (w.session env r) resp hlocal
    rw [heq]
    exact ⟨hfailed.trans hr.failed, fun h => hr.probe (hprobe.symm.trans h),
      fun h => hr.got (hgot.symm.trans h)⟩
  | reply call since reply k htask _ heq =>
    rw [heq]
    exact untroubled_learn hr (hw.replies htask)

/-- What is on its way is no error: S3 answers from its bucket, and that has what is
asked for. -/
theorem step_replies {since : Instant} {reply : call.Reply} {k : call.Reply → Async Response}
    (htask' : w'.tasks r = .calling call since (some reply) k) :
    Fine w'.bucket (w'.session env r) call reply := by
  cases moves_of_step h r with
  | stays hstay hhist =>
    rw [session_congr hhist]
    exact hw.fine_of_stay h hl (hstay.symm.trans htask') hstay
  | @serves fate call' since' k' htask heq hhist hbucket =>
    rw [heq] at htask'
    cases htask'
    rw [session_congr hhist, hbucket, show fate = .answer from hl]
    exact hw.fine_of_serve htask
  | arrives _ heq | calls _ heq | acts _ _ heq | answers _ heq | delivers _ heq | drops heq =>
    rw [heq] at htask'
    cases htask'

omit h hl in
/-- An upload and its parts outlive every request that does not close it. -/
theorem hasParts_serve {since : Instant} {k : call.Reply → Async Response}
    (htask : w.tasks r = .calling call since none k) (hrole : env.role r = .writer key)
    (hup : (w.session env r).upload = some id) (hopen : (w.session env r).Open)
    (hcall : ¬ Closes call) :
    (w.bucket.apply env.eTagOf call).HasParts key id (w.session env r).listed := by
  have hallows := hw.intact.tracks.allows_call htask
  rw [hrole] at hallows
  have hp : w.bucket.HasParts key id (w.session env r).listed := by
    refine hw.uploads hrole hup ⟨hopen, ?_⟩
    intro call' since' reply' k' htask'
    rw [htask] at htask'
    cases htask'
  -- what is not about the upload leaves its parts
  have hsame : ¬ Bucket.Concerns id call →
      (w.bucket.apply env.eTagOf call).HasParts key id (w.session env r).listed := by
    intro hid
    refine Bucket.hasParts_congr (Bucket.uploads_apply_of_ne ?_ hid) hp
    exact Nat.ne_of_lt (hw.intact.known (Or.inl hup))
  cases call with
  | createMultipartUpload key' =>
    rw [hallows.2.2] at hup
    cases hup
  | uploadPart key' id' n len bytes =>
    obtain ⟨rfl, -, hup', rfl, rfl, -⟩ := hallows
    rw [hup] at hup'
    cases hup'
    exact (hp.uploadPart (next_not_listed (numbered hw.intact.tracks r))).2.left
  | completeMultipartUpload key' id' parts => exact absurd trivial hcall
  | abortMultipartUpload key' id' => exact absurd trivial hcall
  | _ => exact hsame not_false

omit h hl in
/-- What a writer learns from a reply leaves it with an upload that holds its
parts, unless it is done. -/
theorem hasParts_deliver {since : Instant} {reply : call.Reply} {k : call.Reply → Async Response}
    (htask : w.tasks r = .calling call since (some reply) k) (hrole : env.role r = .writer key)
    (hup : ((w.session env r).learn (.s3 call) reply).upload = some id)
    (hopen : ((w.session env r).learn (.s3 call) reply).Open) :
    w.bucket.HasParts key id ((w.session env r).learn (.s3 call) reply).listed := by
  have hallows := hw.intact.tracks.allows_call htask
  rw [hrole] at hallows
  have hfine := hw.replies htask
  cases call with
  | headObject key' =>
    refine hw.uploads hrole hup ⟨hopen, ?_⟩
    intro call' since' reply' k' htask'
    rw [htask] at htask'
    cases htask'
    exact not_false
  | getObject key' => exact absurd hallows not_false
  | putObject key' body =>
    rw [show reply = Except.ok () from hfine] at hopen
    cases hopen.1
  | createMultipartUpload key' =>
    obtain ⟨id', rfl, hp⟩ := hfine
    -- a new upload, with no part listed
    injection hup with hid
    rw [← hid, ← hallows.1]
    rw [show ((w.session env r).learn (.s3 (.createMultipartUpload key'))
      (Except.ok (some id'))).listed = [] from
        (numbered hw.intact.tracks r).2 hallows.2.2]
    exact hp
  | uploadPart key' id' n len bytes =>
    obtain ⟨eTag, rfl, hp⟩ := hfine
    obtain ⟨rfl, -, hup', -⟩ := hallows
    rw [show (w.session env r).upload = some id from hup] at hup'
    cases hup'
    exact hp
  | completeMultipartUpload key' id' parts =>
    rw [show reply = Except.ok () from hfine] at hopen
    cases hopen.1
  -- only a writer that gives up aborts
  | abortMultipartUpload key' id' => cases hopen.2.2

/-- The parts that a request has listed are there, since nobody else touches its
upload. -/
theorem step_uploads (hrole : env.role r = .writer key)
    (hup : (w'.session env r).upload = some id) (hun : Unfinished env w' r) :
    w'.bucket.HasParts key id (w'.session env r).listed := by
  -- a task at work waits for no reply
  have hready : ∀ {p : Async Response}, w.tasks r = .ready p →
      (w.session env r).Open → Unfinished env w r := by
    intro p htask hopen
    refine ⟨hopen, ?_⟩
    intro call since reply k htask'
    rw [htask] at htask'
    cases htask'
  cases moves_of_step h r with
  | stays hstay hhist =>
    rw [session_congr hhist] at hup ⊢
    have hp := hw.uploads hrole hup ⟨session_congr hhist ▸ hun.1, fun ht => hun.2 (hstay.trans ht)⟩
    exact Bucket.hasParts_congr (uploads_of_stay hw.intact h hl (Or.inl hup) hstay) hp
  | arrives htask _ hhist _ =>
    rw [session_congr hhist, hw.intact.tracks.session_absent htask] at hup
    cases hup
  | calls htask _ hhist hbucket =>
    rw [session_congr hhist] at hup ⊢
    rw [hbucket]
    exact hw.uploads hrole hup (hready htask (session_congr hhist ▸ hun.1))
  | @acts e resp k cache htask hlocal _ hhist hbucket =>
    obtain ⟨-, -, hupload, hlisted, hwrote, hfailed, haborted⟩ :=
      learn_local (w.session env r) resp (localStep_local hlocal)
    have hopen := hun.1
    unfold Session.Open at hopen
    rw [session_snoc hhist] at hup hopen ⊢
    rw [hwrote, hfailed, haborted] at hopen
    rw [hupload] at hup
    rw [hlisted, hbucket]
    exact hw.uploads hrole hup (hready htask hopen)
  | answers htask _ hhist hbucket =>
    rw [session_congr hhist] at hup ⊢
    rw [hbucket]
    exact hw.uploads hrole hup (hready htask (session_congr hhist ▸ hun.1))
  | @serves fate call since k htask heq hhist hbucket =>
    rw [session_congr hhist] at hup ⊢
    rw [hbucket, show fate = .answer from hl]
    exact hw.hasParts_serve htask hrole hup (session_congr hhist ▸ hun.1) (hun.2 heq)
  | @delivers call since reply k htask _ hhist hbucket =>
    have hopen := hun.1
    rw [session_snoc hhist] at hup hopen ⊢
    rw [hbucket]
    exact hw.hasParts_deliver htask hrole hup hopen
  | drops _ _ _ => exact absurd hl not_false

theorem step : Smooth env initial w' where
  intact := hw.intact.step h
  sessions := hw.step_sessions h
  replies := hw.step_replies h hl
  uploads := hw.step_uploads h hl

end Smooth

theorem smooth_init : Smooth env initial (init initial) where
  intact := intact_init
  sessions _ := ⟨rfl, (fun h => by cases h), (fun h => by cases h)⟩
  replies h := by cases h
  uploads _ h := by cases h

end World

end NxCacheServer.System
