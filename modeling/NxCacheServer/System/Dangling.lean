import NxCacheServer.Lib.Past
import NxCacheServer.Server.Alerts
import NxCacheServer.Server.Holding
import NxCacheServer.System.Waiting

/-!
# Where a dangling upload comes from

S3 keeps the parts of an open upload, and bills for them, until somebody ends it.
An open upload belongs to a PUT of its key that is under way, or one of three
things has happened to such a PUT: an ERROR line of its own tells of the multipart
operation that failed, its client has gone away, or S3 took its
`CreateMultipartUpload` twice, the first time unnoticed (`upload_accounted`).

Two causes have no label here and are left out: a process that is killed in the
middle of an upload, and an attempt of a `CreateMultipartUpload` that reaches S3
after a later attempt of the same operation has been answered.

The invariant follows an upload from the moment S3 opens it: the reply that brings
its id is on its way (`Owes.coming`), then the request holds it (`Owes.held`).

`Spoilt` collects what excuses an upload that nobody holds: its request is gone, or
has been told of a failure, or is about to be. An answered request holds nothing
(`Tracks.held_answered`, from `NxCacheServer.Server.Holding`) and has written a line
for each failure (`Tracks.alerted_answered`, from `NxCacheServer.Server.Alerts`),
which is how two results about programs become one about the bucket.
-/

namespace NxCacheServer.System

open NxCacheServer.Domain NxCacheServer.Infra NxCacheServer.Server NxCacheServer.Lib

/-- The operations after whose failure an upload may be left open. -/
def Leaves (operation : String) : Prop :=
  operation = "multipart-create" ∨ operation = "multipart-complete" ∨ operation = "multipart-abort"

/-- The reply says that upload `id` of `key` is no more. -/
def SaysEnded (key : Hash) (id : UploadId) : (call : S3Call) → call.Reply → Prop
  | .completeMultipartUpload key' id' _, Except.ok _ => key' = key ∧ id' = id
  | .abortMultipartUpload key' id', Except.ok _ => key' = key ∧ id' = id
  | _, _ => False

/-- Such a reply is on its way. -/
def Task.SaysEnded (key : Hash) (id : UploadId) : Task → Prop
  | .calling call _ (some reply) _ => System.SaysEnded key id call reply
  | _ => False

/-- S3 says so only of an upload that it has ended. -/
theorem uploads_of_saysEnded {fate : Fate} {bucket : Bucket} {eTagOf : Bytes → ETag}
    {call : S3Call} {key : Hash} {id : UploadId}
    (h : SaysEnded key id call (fate.reply call (bucket.reply eTagOf call))) :
    fate.served = true ∧ (bucket.apply eTagOf call).uploads id = none := by
  have hnone : ∀ {bucket : Bucket}, (bucket.setUpload id none).uploads id = none :=
    Function.update_self ..
  cases call with
  | completeMultipartUpload key' id' parts =>
    cases hassemble : bucket.assemble key' id' parts with
    | none =>
      rw [Bucket.reply_refused hassemble] at h
      cases fate <;> cases h
    | some bytes =>
      have hserved : fate.served = true ∧ id' = id := by
        simp only [Bucket.reply, hassemble] at h
        cases fate <;> first | exact ⟨rfl, h.2⟩ | cases h
      obtain ⟨hserved, rfl⟩ := hserved
      rw [Bucket.apply, hassemble]
      exact ⟨hserved, hnone⟩
  | abortMultipartUpload key' id' =>
    cases hopen : bucket.openUpload key' id' with
    | none =>
      simp only [Bucket.reply, hopen] at h
      cases fate <;> cases h
    | some upload =>
      have hserved : fate.served = true ∧ id' = id := by
        simp only [Bucket.reply, hopen] at h
        cases fate <;> first | exact ⟨rfl, h.2⟩ | cases h
      obtain ⟨hserved, rfl⟩ := hserved
      rw [Bucket.apply, hopen]
      exact ⟨hserved, hnone⟩
  | _ => exact absurd h not_false

namespace World

/-- The uploads `r` knows of and has not tried to end. -/
def held (w : World) (r : ReqId) : List (Hash × UploadId) := holding.after [] (w.hist r)

/-- `r` has heard that an operation on its upload of `key` failed. -/
def Failed (w : World) (r : ReqId) (key : Hash) : Prop :=
  ∃ ev ∈ w.hist r, ∃ operation, Leaves operation ∧ failure ev = some (operation, key)

/-- An ERROR line of `r` names such an operation. -/
def Alerted (w : World) (r : ReqId) (key : Hash) : Prop :=
  ∃ ev ∈ w.hist r, ∃ operation, Leaves operation ∧ alert ev = some (operation, key)

/-- `r` may have left an upload open that it does not know of: it is gone, or its
`CreateMultipartUpload` failed, as it will hear or has heard. -/
inductive Spoilt (w : World) (r : ReqId) (key : Hash) : Prop
  | dropped (htask : w.tasks r = .dropped)
  | failing {since : Instant} {reply : Except SdkError (Option UploadId)}
      {k : Except SdkError (Option UploadId) → Async Response}
      (htask : w.tasks r = .calling (.createMultipartUpload key) since (some reply) k)
      (hreply : ∀ id, reply ≠ .ok (some id))
  | failed (h : w.Failed r key)

/-- What `r` has to do with the open upload `id` of `key`. -/
inductive Owes (w : World) (r : ReqId) (key : Hash) (id : UploadId) : Prop
  | held (hmem : (key, id) ∈ w.held r) (hopen : ¬ (w.tasks r).SaysEnded key id)
  | coming {since : Instant} {k : Except SdkError (Option UploadId) → Async Response}
      (htask : w.tasks r =
        .calling (.createMultipartUpload key) since (some (.ok (some id))) k)
  | spoilt (h : w.Spoilt r key)

variable [RustChar] {env : Env} {ok : World → Label → Prop} {objects : Hash → Option Bytes}
  {w w' : World} {l : Label} {ls : List Label} {r : ReqId} {key : Hash} {id : UploadId}
  {call : S3Call} {upload : Upload} {ev : TaskEvent}

omit [RustChar] in
/-- An event changes what its request holds, if it is about an upload. -/
theorem held_snoc (h : w'.hist r = w.hist r ++ [ev]) :
    w'.held r = hold (w.held r) ev.1 ev.2 := by
  rw [held, held, h, Prog.Contract.after_snoc]
  rfl

omit [RustChar] in
theorem Failed.mono (hw : w.Failed r key) (h : ∀ ev ∈ w.hist r, ev ∈ w'.hist r) :
    w'.Failed r key := by
  obtain ⟨ev, hmem, hfailure⟩ := hw
  exact ⟨ev, h ev hmem, hfailure⟩

omit [RustChar] in
/-- What happens inside an instance is about no upload. -/
theorem quiet_of_local {e : Act} (he : ∀ call, e ≠ .s3 call) : Act.Quiet e := by
  cases e with
  | s3 call => exact absurd rfl (he call)
  | _ => trivial

/-- What a request has learnt it does not forget. -/
theorem hist_of_step (h : w.step env l = some w') (r : ReqId) :
    ∀ ev ∈ w.hist r, ev ∈ w'.hist r := by
  intro ev hmem
  cases moves_of_step h r with
  | stays _ hhist | arrives _ _ hhist _ | calls _ _ hhist _ | answers _ _ hhist _
  | serves _ _ hhist _ | drops _ hhist _ =>
    rw [hhist]
    exact hmem
  | acts _ _ _ hhist _ _ | delivers _ _ hhist _ =>
    rw [hhist]
    exact List.mem_append_left _ hmem

/-- A request stays spoilt: an operation that failed is heard of, and a client does
not come back. -/
theorem Spoilt.step (hw : w.Spoilt r key) (h : w.step env l = some w') : w'.Spoilt r key := by
  have hkeeps := hist_of_step h r
  cases hw with
  | failed hfailed => exact .failed (hfailed.mono hkeeps)
  | dropped htask =>
    cases moves_of_step h r with
    | stays htask' _ => exact .dropped (htask'.trans htask)
    | drops htask' _ _ => exact .dropped htask'
    | arrives hother _ _ _ | calls hother _ _ _ | acts hother _ _ _ _ _ | answers hother _ _ _
    | serves hother _ _ _ | delivers hother _ _ _ =>
      rw [htask] at hother
      cases hother
  | @failing since reply k htask hreply =>
    cases moves_of_step h r with
    | stays htask' _ => exact .failing (htask'.trans htask) hreply
    | drops htask' _ _ => exact .dropped htask'
    | delivers hother _ hhist _ =>
      rw [htask] at hother
      cases hother
      refine .failed ⟨_, by rw [hhist]; exact List.mem_append_right _ (List.mem_singleton_self _),
        "multipart-create", Or.inl rfl, ?_⟩
      rcases reply with err | _ | id
      · rfl
      · rfl
      · exact absurd rfl (hreply id)
    | arrives hother _ _ _ | calls hother _ _ _ | acts hother _ _ _ _ _ | answers hother _ _ _
    | serves hother _ _ _ =>
      rw [htask] at hother
      cases hother

omit [RustChar] in
/-- A step of `r` on an upload it holds leaves it held, unless it hears that it could
not end it. -/
theorem Owes.deliver (hmem : (key, id) ∈ w.held r) {since : Instant} {reply : call.Reply}
    {k : call.Reply → Async Response} (htask : w.tasks r = .calling call since (some reply) k)
    (hopen : ¬ (w.tasks r).SaysEnded key id) (htask' : w'.tasks r = .ready (k reply))
    (hhist : w'.hist r = w.hist r ++ [⟨.s3 call, reply⟩]) : w'.Owes r key id := by
  rw [htask] at hopen
  have hready : ¬ (w'.tasks r).SaysEnded key id := by
    rw [htask']
    exact not_false
  have hheld := held_snoc hhist
  have hnew : (⟨.s3 call, reply⟩ : TaskEvent) ∈ w'.hist r := by
    rw [hhist]
    exact List.mem_append_right _ (List.mem_singleton_self _)
  cases call with
  | createMultipartUpload key' =>
    refine .held ?_ hready
    rw [hheld]
    rcases reply with err | _ | id'
    · exact hmem
    · exact hmem
    · exact List.mem_cons_of_mem _ hmem
  | completeMultipartUpload key' id' parts =>
    by_cases hsame : (key, id) = (key', id')
    · cases hsame
      rcases reply with err | _
      · exact .spoilt (.failed ⟨_, hnew, "multipart-complete", Or.inr (Or.inl rfl), rfl⟩)
      · exact absurd ⟨rfl, rfl⟩ hopen
    · refine .held ?_ hready
      rw [hheld]
      exact List.mem_filter.mpr ⟨hmem, decide_eq_true hsame⟩
  | abortMultipartUpload key' id' =>
    by_cases hsame : (key, id) = (key', id')
    · cases hsame
      rcases reply with err | _
      · exact .spoilt (.failed ⟨_, hnew, "multipart-abort", Or.inr (Or.inr rfl), rfl⟩)
      · exact absurd ⟨rfl, rfl⟩ hopen
    · refine .held ?_ hready
      rw [hheld]
      exact List.mem_filter.mpr ⟨hmem, decide_eq_true hsame⟩
  | _ =>
    refine .held ?_ hready
    rw [hheld]
    exact hmem

/-- As long as the upload is open, its request has to do with it. -/
theorem Owes.step (hw : w.Owes r key id) (h : w.step env l = some w')
    (hopen : w'.bucket.uploads id ≠ none) : w'.Owes r key id := by
  cases hw with
  | spoilt hspoilt => exact .spoilt (hspoilt.step h)
  | coming htask =>
    cases moves_of_step h r with
    | stays htask' _ => exact .coming (htask'.trans htask)
    | drops htask' _ _ => exact .spoilt (.dropped htask')
    | delivers hother htask' hhist _ =>
      rw [htask] at hother
      cases hother
      refine .held ?_ (by rw [htask']; exact not_false)
      rw [held_snoc hhist]
      exact List.mem_cons_self ..
    | arrives hother _ _ _ | calls hother _ _ _ | acts hother _ _ _ _ _ | answers hother _ _ _
    | serves hother _ _ _ =>
      rw [htask] at hother
      cases hother
  | held hmem hends =>
    have hsame : w'.hist r = w.hist r → (key, id) ∈ w'.held r := by
      intro hhist
      unfold World.held
      rw [hhist]
      exact hmem
    cases moves_of_step h r with
    | stays htask' hhist => exact .held (hsame hhist) (by rw [htask']; exact hends)
    | arrives _ htask' hhist _ | calls _ htask' hhist _ | answers _ htask' hhist _ =>
      exact .held (hsame hhist) (by rw [htask']; exact not_false)
    | acts _ hl htask' hhist _ _ =>
      refine .held ?_ (by rw [htask']; exact not_false)
      rw [held_snoc hhist, hold_quiet (quiet_of_local (localStep_local hl))]
      exact hmem
    | serves _ htask' hhist hbucket =>
      refine .held (hsame hhist) ?_
      intro hends'
      rw [htask'] at hends'
      obtain ⟨hserved, hnone⟩ := uploads_of_saysEnded hends'
      rw [hbucket, if_pos hserved] at hopen
      exact hopen hnone
    | delivers htask htask' hhist _ => exact .deliver hmem htask hends htask' hhist
    | drops htask' _ _ => exact .spoilt (.dropped htask')

/-! ## Where uploads come from -/

/-- S3 takes a `CreateMultipartUpload` of `r` that `r` still waits for. -/
def Unnoticed (r : ReqId) (key : Hash) (w : World) (l : Label) (_ : World) : Prop :=
  l = .stray r (.createMultipartUpload key) ∧
    ∃ since k, w.tasks r = .calling (.createMultipartUpload key) since none k

omit [RustChar] in
/-- An open upload is from before, or it has just been opened. -/
theorem uploads_of_apply (h : (w.bucket.apply env.eTagOf call).uploads id = some upload) :
    (∃ before, w.bucket.uploads id = some before ∧ before.key = upload.key) ∨
      id = w.bucket.nextId ∧ call = .createMultipartUpload upload.key := by
  rcases Bucket.uploads_apply h with hold | ⟨key, rfl, hid, rfl⟩ |
    ⟨key, partNumber, contentLength, body, before, -, hopen, rfl⟩
  · exact Or.inl ⟨upload, hold, rfl⟩
  · exact Or.inr ⟨hid, rfl⟩
  · exact Or.inl ⟨before, (Bucket.openUpload_eq_some.mp hopen).1, rfl⟩

/-- Only a PUT of its key opens an upload. -/
theorem puts_of_allows {g : Session}
    (ha : g.Allows (env.role r) (env.body r) (.s3 (.createMultipartUpload key))) :
    env.Puts r key := by
  rw [Env.puts_iff]
  cases hrole : env.role r with
  | writer hash =>
    rw [hrole] at ha
    rw [show key = hash from ha.1]
  | reader hash | refused response =>
    rw [hrole] at ha
    exact absurd ha not_false

/-- What goes astray has failed its request, or lost it. -/
theorem stray_of_step (ht : Tracks env w) (h : w.step env l = some w')
    (hmem : .createMultipartUpload key ∈ w'.strays r) :
    .createMultipartUpload key ∈ w.strays r ∨ env.Puts r key ∧ w'.Spoilt r key := by
  cases step_cases h with
  | @failed q fate call since k htask hf =>
    rw [strays_addStray] at hmem
    split at hmem
    next heq =>
      subst heq
      rcases List.mem_cons.mp hmem with rfl | hold
      · refine Or.inr ⟨puts_of_allows (ht.allows_call htask), ?_⟩
        have htask' : (w.setTask r (.calling (.createMultipartUpload key) since (some (fate.reply
            (.createMultipartUpload key) (w.bucket.reply env.eTagOf
              (.createMultipartUpload key)))) k)).tasks r = _ := tasks_setTask.trans (if_pos rfl)
        refine .failing htask' ?_
        cases fate with
        | fail err =>
          intro id heq
          cases heq
        | answer | bare | cut n => cases hf
      · exact Or.inl hold
    next => exact Or.inl hmem
  | @cancelCalling q call since k htask =>
    rw [strays_addStray] at hmem
    split at hmem
    next heq =>
      subst heq
      rcases List.mem_cons.mp hmem with rfl | hold
      · exact Or.inr ⟨puts_of_allows (ht.allows_call htask), .dropped (by simp)⟩
      · exact Or.inl hold
    next => exact Or.inl hmem
  | _ => exact Or.inl hmem

/-- Every open upload is accounted for, and so is every one that may yet be opened
by what has gone astray. -/
structure Billed (env : Env) (ok : World → Label → Prop) (objects : Hash → Option Bytes)
    (ls : List Label) (w : World) : Prop where
  tracks : Tracks env w
  strays : ∀ {r key}, .createMultipartUpload key ∈ w.strays r →
    env.Puts r key ∧ w.Spoilt r key
  uploads : ∀ {id upload}, w.bucket.uploads id = some upload → ∃ r, env.Puts r upload.key ∧
    (w.Owes r upload.key id ∨ Took (World.step env) ok (init objects) ls w (Unnoticed r upload.key))

theorem billed_init : Billed env ok objects [] (init objects) where
  tracks := tracks_init
  strays h := by cases h
  uploads h := by cases h

/-- Through one step: an upload that is opened is on its way to its request, or
nobody will hear of it. -/
theorem Billed.step (hw : Billed env ok objects ls w)
    (hrun : Run (World.step env) ok (init objects) ls w) (hok : ok w l)
    (h : w.step env l = some w') : Billed env ok objects (ls ++ [l]) w' where
  tracks := hw.tracks.step h
  strays := by
    intro r key hmem
    rcases stray_of_step hw.tracks h hmem with hold | hnew
    · obtain ⟨hputs, hspoilt⟩ := hw.strays hold
      exact ⟨hputs, hspoilt.step h⟩
    · exact hnew
  uploads := by
    intro id upload hopen
    have hkeep : ∀ {before}, w.bucket.uploads id = some before → before.key = upload.key →
        ∃ r, env.Puts r upload.key ∧ (w'.Owes r upload.key id ∨
          Took (World.step env) ok (init objects) (ls ++ [l]) w' (Unnoticed r upload.key)) := by
      intro before hbefore hkey
      obtain ⟨r, hputs, howes⟩ := hw.uploads hbefore
      rw [hkey] at hputs howes
      refine ⟨r, hputs, howes.imp (fun howes => howes.step h ?_) fun htook => htook.snoc hok h⟩
      rw [hopen]
      exact Option.some_ne_none upload
    cases step_cases h with
    | @served r fate call since k htask hf =>
      rcases uploads_of_apply hopen with ⟨before, hbefore, hkey⟩ | ⟨rfl, rfl⟩
      · exact hkeep hbefore hkey
      -- S3 opens it for `r`, which is going to be told its id, or that there is none
      · refine ⟨r, puts_of_allows (hw.tracks.allows_call htask), Or.inl ?_⟩
        have htask' : (w.setTask r (.calling (.createMultipartUpload upload.key) since (some
            (fate.reply (.createMultipartUpload upload.key) (w.bucket.reply env.eTagOf
              (.createMultipartUpload upload.key)))) k)).tasks r = _ :=
          tasks_setTask.trans (if_pos rfl)
        cases fate with
        | fail err => cases hf
        | answer | cut n => exact .coming htask'
        | bare =>
          refine .spoilt (.failing htask' ?_)
          intro id heq
          cases heq
    | @stray r call hp =>
      rcases uploads_of_apply hopen with ⟨before, hbefore, hkey⟩ | ⟨rfl, rfl⟩
      · exact hkeep hbefore hkey
      · unfold pending at hp
        split at hp
        next call since k htask =>
          rcases List.mem_cons.mp hp with rfl | hstray
          · exact ⟨r, puts_of_allows (hw.tracks.allows_call htask), Or.inr
              (.last hrun hok h ⟨rfl, since, k, htask⟩)⟩
          · obtain ⟨hputs, hspoilt⟩ := hw.strays hstray
            exact ⟨r, hputs, Or.inl (.spoilt (hspoilt.step h))⟩
        next =>
          obtain ⟨hputs, hspoilt⟩ := hw.strays hp
          exact ⟨r, hputs, Or.inl (.spoilt (hspoilt.step h))⟩
    | _ => exact hkeep hopen rfl

/-! ## The account -/

/-- How a PUT of `key` may come to have an upload of its key open. -/
inductive Account (env : Env) (ok : World → Label → Prop) (objects : Hash → Option Bytes)
    (ls : List Label) (w : World) (r : ReqId) (key : Hash) : Prop
  | underWay (hcame : w.tasks r ≠ .absent) (hopen : ¬ (w.tasks r).Over)
  | clientGone (htask : w.tasks r = .dropped)
  | alerted (h : w.Alerted r key)
  | takenTwice (h : Took (World.step env) ok (init objects) ls w (Unnoticed r key))

/-- An answered request holds nothing. -/
theorem Tracks.held_answered (ht : Tracks env w) {response : Response}
    (htask : w.tasks r = .answered response) : w.held r = [] := by
  obtain ⟨-, p, hafter, hleft⟩ := ht r
  rw [htask] at hleft
  rw [show p = .done response from hleft] at hafter
  exact Prog.wp_after holding_unpromising
    (serve_releases (env.config (env.inst r)) (env.request r)) hafter

/-- An answered request has logged its failures. -/
theorem Tracks.alerted_answered (ht : Tracks env w) {response : Response}
    (htask : w.tasks r = .answered response) (hfailed : w.Failed r key) : w.Alerted r key := by
  obtain ⟨-, p, hafter, hleft⟩ := ht r
  rw [htask] at hleft
  rw [show p = .done response from hleft] at hafter
  have hbalanced : (w.hist r).filterMap failure = (w.hist r).filterMap alert := by
    have hledger := Prog.wp_after (C := ledger) (fun _ _ _ => trivial)
      (serve_balanced ([], []) rfl) hafter
    rw [after_ledger] at hledger
    exact hledger
  obtain ⟨ev, hmem, operation, hleaves, hfailure⟩ := hfailed
  have halert : (operation, key) ∈ (w.hist r).filterMap alert := by
    rw [← hbalanced]
    exact List.mem_filterMap.mpr ⟨ev, hmem, hfailure⟩
  obtain ⟨ev', hmem', halert'⟩ := List.mem_filterMap.mp halert
  exact ⟨ev', hmem', operation, hleaves, halert'⟩

omit [RustChar] in
/-- A request that is neither gone nor waiting for S3 holds its upload, or has heard
of a failure. -/
theorem Owes.settled (hw : w.Owes r key id) (hdropped : w.tasks r ≠ .dropped)
    (hidle : ∀ call since reply k, w.tasks r ≠ .calling call since reply k) :
    (key, id) ∈ w.held r ∨ w.Failed r key := by
  cases hw with
  | held hmem _ => exact Or.inl hmem
  | coming htask => exact absurd htask (hidle _ _ _ _)
  | spoilt hspoilt =>
    cases hspoilt with
    | dropped htask => exact absurd htask hdropped
    | failing htask _ => exact absurd htask (hidle _ _ _ _)
    | failed hfailed => exact Or.inr hfailed

/-- **Dangling uploads are accounted for.** Every upload that is open in the bucket
was opened for a PUT of its key with the service token; and that is under way, or
an ERROR line of it names the operation on the upload that failed, or its client
has gone away, or S3 took its `CreateMultipartUpload` before it took the attempt
that was answered. Processes are not killed in these runs, and no attempt of a
`CreateMultipartUpload` comes after the answer. -/
theorem upload_accounted (hrun : Run (World.step env) ok (init objects) ls w)
    (hopen : w.bucket.uploads id = some upload) :
    ∃ r, env.Puts r upload.key ∧ Account env ok objects ls w r upload.key := by
  have hw : Billed env ok objects ls w :=
    hrun.invariant_run (fun _ _ _ _ hrun hw hok h => hw.step hrun hok h) billed_init
  obtain ⟨r, hputs, howes | htook⟩ := hw.uploads hopen
  · refine ⟨r, hputs, ?_⟩
    have hsettled := howes.settled
    cases htask : w.tasks r with
    | ready p | calling call since reply k =>
      refine .underWay ?_ ?_ <;> rw [htask] <;> simp [Task.Over]
    | dropped => exact .clientGone htask
    | absent =>
      have hhist := (hw.tracks r).1 htask
      rw [htask, World.held, World.Failed, hhist] at hsettled
      rcases hsettled (by simp) (by simp) with hmem | ⟨ev, hmem, -⟩ <;> cases hmem
    | answered response =>
      rw [htask, hw.tracks.held_answered htask] at hsettled
      rcases hsettled (by simp) (by simp) with hmem | hfailed
      · cases hmem
      · exact .alerted (hw.tracks.alerted_answered htask hfailed)
  · exact ⟨r, hputs, .takenTwice htook⟩

/-! ## An upload that is left behind -/

section

variable {bytes : Bytes}

omit [RustChar]

/-- A body whose first chunk fills a part: `store` reads it and opens an upload. -/
theorem store_opens {hash : Hash} (hfull : multipartPartSize ≤ bytes.length) :
    ∃ k k', S3Storage.store hash (.chunk 0 bytes (.eof 0)) = .act (.read 0 (.chunk bytes)) k ∧
      k () = .act (.s3 (.createMultipartUpload hash)) k' := by
  have hpos : ([] : Bytes).length < multipartPartSize := by decide
  have hshort : ¬ ([] ++ bytes : Bytes).length < multipartPartSize := by
    rw [List.nil_append]
    exact Nat.not_lt.mpr hfull
  rw [S3Storage.store, fillPart, fillLoop, dif_pos hpos, fillLoop_full hshort]
  exact ⟨_, _, rfl, rfl⟩

/-- One PUT with this body. -/
def putOf (bytes : Bytes) : Env := exampleEnv [(0, examplePut bytes)]

/-- The first steps of it: the look, the first chunk, and the creation of an upload.
-/
theorem serve_putOf (hfull : multipartPartSize ≤ bytes.length) : ∃ k₀ k₁,
    @Env.serve asciiChars (putOf bytes) 0 = .act (.s3 (.headObject "abc")) k₀ ∧
    k₀ (.error .notFound) = .act (.read 0 (.chunk bytes)) k₁ ∧
    ∃ k₂, k₁ () = .act (.s3 (.createMultipartUpload "abc")) k₂ := by
  let _ : RustChar := asciiChars
  have hrole : Server.role ((putOf bytes).config 0) ((putOf bytes).request 0) = .writer "abc" :=
    Env.puts_iff.mp (Env.puts_example rfl)
  obtain ⟨k, k', hstore, hcreate⟩ := @store_opens bytes "abc" hfull
  obtain ⟨k₀, L, hserve, habsent⟩ : ∃ k₀, ∃ L : Except ServerError Response → Async Response,
      (putOf bytes).serve 0 = .act (.s3 (.headObject "abc")) k₀ ∧
      k₀ (.error .notFound) =
        storeAbsent s3Storage "abc" (.chunk 0 bytes (.eof 0)) >>= L := by
    unfold Env.serve
    rw [show (putOf bytes).inst 0 = 0 from rfl, serve_writer hrole, storeArtifact,
      show validateHash "abc" = .ok () from by rfl]
    exact ⟨_, _, rfl, rfl⟩
  rw [storeAbsent, show s3Storage.store = S3Storage.store from rfl, hstore] at habsent
  refine ⟨k₀, _, hserve, habsent, ?_⟩
  simp only [hcreate]
  exact ⟨_, rfl⟩

/-- The client of a PUT goes away when S3 has just opened its upload. -/
def abandonedUpload : List Label :=
  [.arrive 0, .run 0, .serve 0 .answer, .deliver 0, .run 0, .run 0, .serve 0 .answer, .cancel 0]

/-- The client goes away when S3 has opened the upload. -/
theorem abandonedUpload_run (hfull : multipartPartSize ≤ bytes.length) :
    ∃ w, Run (@World.step asciiChars (putOf bytes)) (fun _ _ => True) (init fun _ => none)
        abandonedUpload w ∧
      w.bucket.uploads 0 = some ⟨"abc", fun _ => none⟩ ∧ w.tasks 0 = .dropped := by
  let _ : RustChar := asciiChars
  obtain ⟨k₀, k₁, hserve, habsent, k₂, hcreate⟩ := serve_putOf hfull
  let w₁ : World := ((init fun _ => none).setTask 0
    (.ready (.act (.s3 (.headObject "abc")) k₀))).record 0 .arrived
  let w₂ : World := (w₁.setTask 0 (.calling (.headObject "abc") 0 none k₀)).record 0
    (.called (.headObject "abc"))
  let w₃ : World := w₂.setTask 0
    (.calling (.headObject "abc") 0 (some (.error .notFound)) k₀)
  let w₄ : World := (w₃.setTask 0 (.ready (.act (.read 0 (.chunk bytes)) k₁))).record 0
    (.did ⟨.s3 (.headObject "abc"), .error .notFound⟩)
  let w₅ : World := ((w₄.setCache 0 (w₄.caches 0)).setTask 0
    (.ready (.act (.s3 (.createMultipartUpload "abc")) k₂))).record 0
    (.did ⟨.read 0 (.chunk bytes), ()⟩)
  have h₁ : (init fun _ => none).step (putOf bytes) (.arrive 0) = some w₁ := by
    simp only [w₁, ← hserve]
    rfl
  have h₂ : w₁.step (putOf bytes) (.run 0) = some w₂ := rfl
  have h₃ : w₂.step (putOf bytes) (.serve 0 .answer) = some w₃ := rfl
  have h₄ : w₃.step (putOf bytes) (.deliver 0) = some w₄ := by
    simp only [w₄, ← habsent]
    rfl
  have h₅ : w₄.step (putOf bytes) (.run 0) = some w₅ := by
    simp only [w₅, ← hcreate]
    rfl
  exact ⟨_, .snoc (.snoc (.snoc (.snoc (.snoc (.snoc (.snoc (.snoc .nil trivial h₁) trivial h₂)
    trivial h₃) trivial h₄) trivial h₅) trivial rfl) trivial rfl) trivial rfl, rfl, rfl⟩

/-- It stays behind, and the client that has gone away accounts for it. -/
theorem abandonedUpload_accounted :
    ∃ w, Run (@World.step asciiChars (putOf fullPart)) (fun _ _ => True) (init fun _ => none)
        abandonedUpload w ∧
      w.bucket.uploads 0 = some ⟨"abc", fun _ => none⟩ ∧ w.tasks 0 = .dropped ∧
      ∃ r, @Env.Puts asciiChars (putOf fullPart) r "abc" ∧
        @Account asciiChars (putOf fullPart) (fun _ _ => True) (fun _ => none) abandonedUpload w r
          "abc" := by
  let _ : RustChar := asciiChars
  obtain ⟨w, hrun, hopen, hdropped⟩ := abandonedUpload_run fullPart_full
  exact ⟨w, hrun, hopen, hdropped, upload_accounted hrun hopen⟩

end

end World

end NxCacheServer.System
